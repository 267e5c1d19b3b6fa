import Ucsim.S51.Waveform

/-!
# Cycles and ticks of the timers

`cl_CC2530_timer::tick` counts the cycles in a running total and divides it by the prescaler. The total is a `double`
that is converted to `int`, so it is defined only up to `INT_MAX`.
-/

namespace Ucsim.S51

namespace CcTimer

variable {w : Nat}

/-- A timer with its `systemTicks`, a number that a `double` counts up. -/
structure Clocked (w : Nat) where
  st : CcSt w
  systemTicks : Nat

/-- `systemTicks++`. From `2 ^ 53` on the next number is rounded back. -/
def incr (systemTicks : Nat) : Nat := if systemTicks < 2 ^ 53 then systemTicks + 1 else systemTicks

/-- `(int)systemTicks`, which is undefined for a number that is no `int`. -/
def toInt (systemTicks : Nat) : Option Nat := if systemTicks < 2 ^ 31 then some systemTicks else none

/-- The loop over the cycles, with `systemTicks` and `TimerTicks`. -/
def prescaled (prescale : Nat) : Nat → Nat → Nat → Option (Nat × Nat)
  | 0, systemTicks, TimerTicks => some (systemTicks, TimerTicks)
  | cycles + 1, systemTicks, TimerTicks => do
    let systemTicks := incr systemTicks
    let n ← toInt systemTicks
    if prescale = 0 then none
    else prescaled prescale cycles systemTicks (if n % prescale = 0 then TimerTicks + 1 else TimerTicks)

/-- A loop that runs `cycles` passes. -/
def passes (pass : CcSt w → CcSt w) : Nat → CcSt w → CcSt w
  | 0, st => st
  | cycles + 1, st => passes pass cycles (pass st)

/-- `do_FreeRunningMode`. -/
def do_FreeRunningMode (K : Wiring w) (store : Fin 5 → CcSt w → CcSt w) : Nat → CcSt w → CcSt w :=
  passes fun st => checkEvent K store (freeRunningCount K st)

/-- `do_ModuloMode`. -/
def do_ModuloMode (K : Wiring w) (store : Fin 5 → CcSt w → CcSt w) : Nat → CcSt w → CcSt w :=
  passes fun st => checkEvent K store (moduloCount K st)

/-- `do_UpDownMode`. -/
def do_UpDownMode (K : Wiring w) (store : Fin 5 → CcSt w → CcSt w) : Nat → CcSt w → CcSt w :=
  passes fun st => checkTurn K store (upDownCount K st)

/-- `do_DownMode`. -/
def do_DownMode (K : Wiring w) (store : Fin 5 → CcSt w → CcSt w) : Nat → CcSt w → CcSt w := passes (downTick K store)

/-- `TimerTick`. The mode is looked at once. -/
def TimerTick (K : Wiring w) (store : Fin 5 → CcSt w → CcSt w) (TimerTicks : Nat) (st : CcSt w) : CcSt w :=
  match K.countMode st.hw with
  | .stop => st
  | .freeRunning => do_FreeRunningMode K store TimerTicks st
  | .modulo => do_ModuloMode K store TimerTicks st
  | .upDown => do_UpDownMode K store TimerTicks st
  | .down => do_DownMode K store TimerTicks st

namespace Clocked

/-- `tick`: the timer after it, and `TimerTicks`. -/
def tick (T : CompareTimer w) (cycles : Nat) (s : Clocked w) : Option (Clocked w × Nat) :=
  (prescaled s.st.hw.prescale cycles s.systemTicks 0).map fun r =>
    ({ st := if r.2 ≠ 0 then TimerTick T.wiring T.store r.2 s.st else s.st, systemTicks := r.1 }, r.2)

/-- The timer ticks delivered over a partition of the cycles. -/
def ticksOver (T : CompareTimer w) : List Nat → Clocked w → Option Nat
  | [], _ => some 0
  | cycles :: rest, s => (tick T cycles s).bind fun r => (ticksOver T rest r.1).map fun n => r.2 + n

/-- Two ticks one after the other are one tick of their sum. -/
def Additive (T : CompareTimer w) (a b : Nat) (s : Clocked w) : Prop :=
  ∃ s', (tick T (a + b) s).map Prod.fst = some s' ∧
    ((tick T a s).bind fun r => (tick T b r.1).map Prod.fst) = some s'

end Clocked

/-! ## The loop over the cycles -/

theorem incr_of_lt {n : Nat} (h : n < 2 ^ 31) : incr n = n + 1 := if_pos (by omega)

theorem toInt_incr_of_le {n : Nat} (h : 2 ^ 31 ≤ n + 1) : toInt (incr n) = none := by
  refine if_neg ?_
  unfold incr
  split <;> omega

/-- The loop counts the multiples of the prescaler that it passes, as long as the total is an `int`. -/
theorem prescaled_eq {p : Nat} (hp : 0 < p) (cycles : Nat) : ∀ s t, prescaled p cycles s t =
    if cycles = 0 ∨ s + cycles < 2 ^ 31 then some (s + cycles, t + ((s + cycles) / p - s / p)) else none := by
  induction cycles with
  | zero =>
    intro s t
    rw [if_pos (.inl rfl), Nat.add_zero, Nat.sub_self]
    rfl
  | succ cycles ih =>
    intro s t
    have hsum : s + (cycles + 1) = s + 1 + cycles := by omega
    rw [prescaled, hsum]
    rcases Nat.lt_or_ge (s + 1) (2 ^ 31) with hlt | hge
    · have hint : toInt (s + 1) = some (s + 1) := if_pos hlt
      rw [incr_of_lt (by omega), hint, Option.bind_eq_bind, Option.bind_some, if_neg (Nat.ne_of_gt hp), ih]
      by_cases hin : s + 1 + cycles < 2 ^ 31
      · -- one more tick where the prescaler divides the total
        have hmono : (s + 1) / p ≤ (s + 1 + cycles) / p := Nat.div_le_div_right (Nat.le_add_right ..)
        have hcount : (if (s + 1) % p = 0 then t + 1 else t) + ((s + 1 + cycles) / p - (s + 1) / p) =
            t + ((s + 1 + cycles) / p - s / p) := by
          have hdiv := Nat.succ_div (a := s) (b := p)
          simp only [Nat.dvd_iff_mod_eq_zero] at hdiv
          split
          next hdvd =>
            rw [if_pos hdvd] at hdiv
            omega
          next hdvd =>
            rw [if_neg hdvd] at hdiv
            omega
        have hleft : cycles = 0 ∨ s + 1 + cycles < 2 ^ 31 := .inr hin
        have hright : cycles + 1 = 0 ∨ s + 1 + cycles < 2 ^ 31 := .inr hin
        rw [if_pos hleft, if_pos hright, hcount]
      · have hleft : ¬ (cycles = 0 ∨ s + 1 + cycles < 2 ^ 31) := by omega
        have hright : ¬ (cycles + 1 = 0 ∨ s + 1 + cycles < 2 ^ 31) := by omega
        rw [if_neg hleft, if_neg hright]
    · have hright : ¬ (cycles + 1 = 0 ∨ s + 1 + cycles < 2 ^ 31) := by omega
      rw [toInt_incr_of_le hge, if_neg hright]
      rfl

/-! ## The loops of the modes -/

theorem ticks_add (T : CompareTimer w) (m n : Nat) (st : CcSt w) : ticks T n (ticks T m st) = ticks T (m + n) st := by
  rw [ticks, ticks, ticks, Nat.add_comm, Function.iterate_add_apply]

section

variable {T : CompareTimer w} (hT : Apart T.wiring T.store)

include hT

/-- A pass of the down mode keeps the settings too. -/
theorem downTick_keeps (st : CcSt w) : KeepsMode st (downTick T.wiring T.store st) := by
  have hrefresh : ∀ st, KeepsMode st (checkEvent T.wiring T.store (refreshSfr T.wiring st)) := by
    intro st
    have hhw := refreshSfr_hw (K := T.wiring) st
    have hsame : KeepsMode st (refreshSfr T.wiring st) := by
      constructor <;> rw [hhw]
    exact hsame.trans (checkEvent_keeps hT _).toKeepsMode
  have hoverflow : ∀ st : CcSt w, KeepsMode st
      (if st.hw.count = 0 then { st with mem := overflowFlags T.wiring st.mem } else st) := by
    intro st
    split <;> exact ⟨rfl, rfl, rfl⟩
  have hreload : ∀ st : CcSt w, KeepsMode st
      (if due st then captureCompare T.wiring T.store st else getNextCcEvent T.wiring st) := by
    intro st
    split
    · exact (captureCompare_keeps hT st).toKeepsMode
    · exact ⟨rfl, rfl, rfl⟩
  rw [downTick]
  dsimp only
  refine KeepsMode.trans ?_ ((hoverflow _).trans (hrefresh _))
  split
  · obtain ⟨hmode, hTR, hprescale⟩ := hreload { st with hw := { st.hw with
      NextCmpEvent := st.hw.NextCmpEvent - 1, count := st.hw.ValRegCMP 0 } }
    exact ⟨hmode, hTR, hprescale⟩
  · exact ⟨rfl, rfl, rfl⟩

/-- A tick keeps the settings in every mode. -/
theorem tick_keeps (st : CcSt w) : KeepsMode st (CcTimer.tick T.wiring T.store st) := by
  by_cases hsched : Scheduling T.wiring st.hw
  · exact (tick_ticked hT hsched).keeps
  · simp only [Scheduling, not_or] at hsched
    cases hmode : T.wiring.countMode st.hw with
    | stop =>
      rw [CcTimer.tick, hmode]
      exact ⟨rfl, rfl, rfl⟩
    | down =>
      rw [CcTimer.tick, hmode]
      exact downTick_keeps hT st
    | freeRunning => exact absurd hmode hsched.1
    | modulo => exact absurd hmode hsched.2.1
    | upDown => exact absurd hmode hsched.2.2

theorem ticks_keeps (n : Nat) (st : CcSt w) : KeepsMode st (ticks T n st) := by
  induction n with
  | zero => exact ⟨rfl, rfl, rfl⟩
  | succ n ih =>
    rw [ticks_succ]
    exact ih.trans (tick_keeps hT _)

/-- The passes of a loop are the ticks of its mode, in which they stay. -/
theorem passes_eq_ticks {pass : CcSt w → CcSt w} {mode : CountMode}
    (htick : ∀ st, T.wiring.countMode st.hw = mode → CcTimer.tick T.wiring T.store st = pass st) (n : Nat) :
    ∀ st, T.wiring.countMode st.hw = mode → passes pass n st = ticks T n st := by
  induction n with
  | zero => exact fun st _ => rfl
  | succ n ih =>
    intro st hmode
    have hkeeps := tick_keeps hT st
    have hnext : ticks T (n + 1) st = ticks T n (CcTimer.tick T.wiring T.store st) := Function.iterate_succ_apply ..
    rw [hnext, passes, ← htick st hmode]
    exact ih _ (hkeeps.countMode.trans hmode)

/-- `TimerTick` is so many ticks. -/
theorem TimerTick_eq (n : Nat) (st : CcSt w) : TimerTick T.wiring T.store n st = ticks T n st := by
  rw [TimerTick]
  cases hmode : T.wiring.countMode st.hw with
  | stop =>
    have hstop : CcTimer.tick T.wiring T.store st = st := by rw [CcTimer.tick, hmode]
    exact (Function.iterate_fixed hstop n).symm
  | freeRunning =>
    refine passes_eq_ticks hT (fun st h => ?_) n st hmode
    rw [tick_eq_checkEvent (.inl h), countTick, h]
  | modulo =>
    refine passes_eq_ticks hT (fun st h => ?_) n st hmode
    rw [tick_eq_checkEvent (.inr h), countTick, h]
  | upDown =>
    refine passes_eq_ticks hT (fun st h => ?_) n st hmode
    rw [tick_eq_checkTurn h, countTick, h]
  | down =>
    refine passes_eq_ticks hT (fun st h => ?_) n st hmode
    rw [CcTimer.tick, h]

namespace Clocked

/-- A tick of the clock while its total is an `int`. -/
theorem tick_eq {s : Clocked w} (hp : 0 < s.st.hw.prescale) (cycles : Nat) : tick T cycles s =
    if cycles = 0 ∨ s.systemTicks + cycles < 2 ^ 31 then
      some ({ st := ticks T ((s.systemTicks + cycles) / s.st.hw.prescale - s.systemTicks / s.st.hw.prescale) s.st,
              systemTicks := s.systemTicks + cycles },
        (s.systemTicks + cycles) / s.st.hw.prescale - s.systemTicks / s.st.hw.prescale)
    else none := by
  rw [tick, prescaled_eq hp]
  split
  · rw [Option.map_some, Nat.zero_add]
    dsimp only
    rw [TimerTick_eq hT]
    split
    · rfl
    · next hzero =>
      rw [not_not.mp hzero]
      rfl
  · rfl

theorem additive_iff {s : Clocked w} (hp : 0 < s.st.hw.prescale) (a b : Nat) :
    Additive T a b s ↔ a + b = 0 ∨ s.systemTicks + (a + b) < 2 ^ 31 := by
  constructor
  · rintro ⟨s', hsum, -⟩
    by_contra hout
    rw [tick_eq hT hp, if_neg hout] at hsum
    cases hsum
  · intro hin
    have ha : a = 0 ∨ s.systemTicks + a < 2 ^ 31 := by omega
    have hb : b = 0 ∨ s.systemTicks + a + b < 2 ^ 31 := by omega
    have hkeeps := ticks_keeps hT ((s.systemTicks + a) / s.st.hw.prescale - s.systemTicks / s.st.hw.prescale) s.st
    have hp' := hp
    rw [← hkeeps.prescale] at hp'
    -- the ticks of the two parts
    have hle : s.systemTicks / s.st.hw.prescale ≤ (s.systemTicks + a) / s.st.hw.prescale :=
      Nat.div_le_div_right (Nat.le_add_right ..)
    have hle' : (s.systemTicks + a) / s.st.hw.prescale ≤ (s.systemTicks + a + b) / s.st.hw.prescale :=
      Nat.div_le_div_right (Nat.le_add_right ..)
    have hcount : (s.systemTicks + a) / s.st.hw.prescale - s.systemTicks / s.st.hw.prescale +
        ((s.systemTicks + a + b) / s.st.hw.prescale - (s.systemTicks + a) / s.st.hw.prescale) =
        (s.systemTicks + (a + b)) / s.st.hw.prescale - s.systemTicks / s.st.hw.prescale := by
      rw [← Nat.add_assoc]
      omega
    refine ⟨_, by rw [tick_eq hT hp, if_pos hin]; rfl, ?_⟩
    rw [tick_eq hT hp, if_pos ha, Option.bind_some, tick_eq hT hp', if_pos hb, Option.map_some, ticks_add]
    dsimp only
    rw [hkeeps.prescale, hcount, Nat.add_assoc]

/-- The ticks over a partition of the cycles. -/
theorem ticksOver_eq (cs : List Nat) : ∀ {s : Clocked w}, 0 < s.st.hw.prescale → ticksOver T cs s =
    if cs.sum = 0 ∨ s.systemTicks + cs.sum < 2 ^ 31 then
      some ((s.systemTicks + cs.sum) / s.st.hw.prescale - s.systemTicks / s.st.hw.prescale)
    else none := by
  induction cs with
  | nil =>
    intro s _
    rw [if_pos (.inl rfl), List.sum_nil, Nat.add_zero, Nat.sub_self]
    rfl
  | cons c cs ih =>
    intro s hp
    rw [ticksOver, tick_eq hT hp, List.sum_cons]
    by_cases hc : c = 0 ∨ s.systemTicks + c < 2 ^ 31
    · have hkeeps := ticks_keeps hT ((s.systemTicks + c) / s.st.hw.prescale - s.systemTicks / s.st.hw.prescale) s.st
      have hp' := hp
      rw [← hkeeps.prescale] at hp'
      rw [if_pos hc, Option.bind_some, ih hp', hkeeps.prescale]
      dsimp only
      rw [Nat.add_assoc]
      have hle : s.systemTicks / s.st.hw.prescale ≤ (s.systemTicks + c) / s.st.hw.prescale :=
        Nat.div_le_div_right (Nat.le_add_right ..)
      have hle' : (s.systemTicks + c) / s.st.hw.prescale ≤ (s.systemTicks + (c + cs.sum)) / s.st.hw.prescale :=
        Nat.div_le_div_right (by omega)
      by_cases hin : c + cs.sum = 0 ∨ s.systemTicks + (c + cs.sum) < 2 ^ 31
      · have hrest : cs.sum = 0 ∨ s.systemTicks + (c + cs.sum) < 2 ^ 31 := by omega
        rw [if_pos hin, if_pos hrest, Option.map_some]
        congr 1
        omega
      · by_cases hrest : cs.sum = 0
        · omega
        · rw [if_neg hin, if_neg (by omega)]
          rfl
    · rw [if_neg hc, if_neg (by omega)]
      rfl

end Clocked

end

/-- Ticking is additive, and delivers one tick for each period of the prescaler since the total was cleared, exactly as
long as the total is an `int`. -/
theorem ticking_iff (id : TimerId) {s : Clocked id.width} (hp : 0 < s.st.hw.prescale) :
    (∀ a b, s.Additive id.timer a b ↔ a + b = 0 ∨ s.systemTicks + (a + b) < 2 ^ 31) ∧
      (s.systemTicks = 0 → ∀ cs : List Nat,
        s.ticksOver id.timer cs = some (cs.sum / s.st.hw.prescale) ↔ cs.sum < 2 ^ 31) := by
  refine ⟨Clocked.additive_iff (apart id) hp, fun hzero cs => ?_⟩
  rw [Clocked.ticksOver_eq (apart id) cs hp, hzero, Nat.zero_add, Nat.zero_div, Nat.sub_zero]
  constructor
  · intro h
    by_contra hout
    rw [if_neg (by omega)] at h
    cases h
  · exact fun h => if_pos (.inr h)

/-- Timer 3 runs free with the prescaler 2 after a write of `CLKCONCMD`. -/
def halvedSt : Clocked 8 where
  st := { stoppedSt 8 with hw := { (stoppedSt 8).hw with TR := 0x10, prescale := 2 } }
  systemTicks := 0

/-- Five cycles are two ticks. -/
theorem ticking_iff_timer3 : 0 < halvedSt.st.hw.prescale ∧ halvedSt.ticksOver timer3 [3, 2] = some 2 :=
  ⟨by decide, ((ticking_iff .timer3 (s := halvedSt) (by decide)).2 rfl [3, 2]).mpr (by decide)⟩

/-- From `2 ^ 31` cycles on the conversion of the total is undefined. -/
theorem ticking_undefined : halvedSt.ticksOver timer3 [2 ^ 30, 2 ^ 30] ≠ some ((2 ^ 30 + 2 ^ 30) / 2) ∧
    ¬ halvedSt.Additive timer3 (2 ^ 30) (2 ^ 30) := by
  constructor
  · have hnone : halvedSt.ticksOver timer3 [2 ^ 30, 2 ^ 30] = none :=
      (Clocked.ticksOver_eq (apart .timer3) [2 ^ 30, 2 ^ 30] (s := halvedSt) (by decide)).trans (if_neg (by decide))
    rw [hnone]
    exact nofun
  · intro h
    have hlt := (Clocked.additive_iff (apart .timer3) (s := halvedSt) (by decide) (2 ^ 30) (2 ^ 30)).mp h
    revert hlt
    decide

end CcTimer

end Ucsim.S51
