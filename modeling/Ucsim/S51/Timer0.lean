import Mathlib.Data.BitVec
import Ucsim.Logic.Odometer

/-!
# Timers 0 and 1

The two timers count cycles, or edges of a pin, in TH and TL. What `tick` is given is counted one by one.
-/

namespace Ucsim.S51

open Logic

/-- What the constructor takes for the two timers. -/
inductive TimerId
  | timer0 | timer1
  deriving DecidableEq, Repr

namespace TimerId

variable (i : TimerId)

def mask_TF : BitVec 8 := if i = .timer0 then 0x20 else 0x80

end TimerId

def bmTR1 : BitVec 8 := 0x40

def bmTF1 : BitVec 8 := 0x80

/-- The values of `mode`. -/
inductive Timer0Mode
  | mode0 | mode1 | mode2 | mode3
  deriving DecidableEq, Repr

/-- `cl_timer0` with the cells that it counts in. `overflows` counts the calls of `overflow`, which informs
the partners. -/
structure Timer0 where
  id : TimerId
  mode : Timer0Mode
  GATE : Bool
  C_T : Bool
  TR : Bool
  INT : Bool
  T_edge : Nat
  tl : BitVec 8
  th : BitVec 8
  tcon : BitVec 8
  overflows : Nat
  deriving DecidableEq, Repr

namespace Timer0

/-- `cell_tcon->set_bit1(bits)`. -/
def setTcon (bits : BitVec 8) (t : Timer0) : Timer0 := { t with tcon := t.tcon ||| bits }

/-- `overflow`. -/
def overflow (t : Timer0) : Timer0 := { t with overflows := t.overflows + 1 }

/-- Whether the loop over the cycles is reached. -/
def counts (t : Timer0) : Prop := t.TR = true ∧ (t.GATE = true → t.INT = true)

instance (t : Timer0) : Decidable t.counts := inferInstanceAs (Decidable (_ ∧ _))

/-- How often the loop runs, and the edges that are left. -/
def takeCycles (cycles : Nat) (t : Timer0) : Nat × Timer0 :=
  if t.C_T then (t.T_edge, { t with T_edge := 0 }) else (cycles, t)

/-- The loop with the given body, if it is reached. -/
def loop (body : Timer0 → Timer0) (cycles : Nat) (t : Timer0) : Timer0 :=
  if t.counts then
    let (n, t) := t.takeCycles cycles
    body^[n] t
  else t

/-- One cycle of `do_mode0`. -/
def count0 (t : Timer0) : Timer0 :=
  let tl := t.tl + 1
  if tl &&& 0x1f = 0 then
    let th := t.th + 1
    let t := { t with tl := 0, th := th }
    if th = 0 then (t.setTcon t.id.mask_TF).overflow else t
  else { t with tl := tl }

/-- One cycle of `do_mode1`. -/
def count1 (t : Timer0) : Timer0 :=
  let tl := t.tl + 1
  if tl = 0 then
    let th := t.th + 1
    let t := { t with tl := tl, th := th }
    if th = 0 then (t.setTcon t.id.mask_TF).overflow else t
  else { t with tl := tl }

/-- One cycle of `do_mode2`. -/
def count2 (t : Timer0) : Timer0 :=
  let tl := t.tl + 1
  if tl = 0 then (({ t with tl := t.th } : Timer0).setTcon t.id.mask_TF).overflow
  else { t with tl := tl }

/-- One cycle of TL in `do_mode3`. -/
def count3 (t : Timer0) : Timer0 :=
  let tl := t.tl + 1
  let t := { t with tl := tl }
  if tl = 0 then (t.setTcon t.id.mask_TF).overflow else t

/-- One cycle of TH in `do_mode3`. -/
def count3h (t : Timer0) : Timer0 :=
  let th := t.th + 1
  let t := { t with th := th }
  if th = 0 then t.setTcon bmTF1 else t

/-- `do_mode3`. Timer 1 stops in this mode. -/
def do_mode3 (cycles : Nat) (t : Timer0) : Timer0 :=
  if t.id = .timer0 then
    let t := t.loop count3 cycles
    if t.tcon &&& bmTR1 ≠ 0 then count3h^[cycles] t else t
  else t

/-- `tick`. -/
def tick (cycles : Nat) (t : Timer0) : Timer0 :=
  match t.mode with
  | .mode0 => t.loop count0 cycles
  | .mode1 => t.loop count1 cycles
  | .mode2 => t.loop count2 cycles
  | .mode3 => t.do_mode3 cycles

/-- A sequence of calls of `tick`. -/
def ticks (cs : List Nat) (t : Timer0) : Timer0 := cs.foldl (fun t cycles => t.tick cycles) t

/-! ## What the timers are for -/

/-- The flag is set if there has been an overflow. -/
def flagged (bits : BitVec 8) (n : Nat) (tcon : BitVec 8) : BitVec 8 := if n = 0 then tcon else tcon ||| bits

/-- What `k` cycles make of the timer. In mode 2 TL counts up to 0xff, and then runs from TH on. -/
def Counted (t : Timer0) (k : Nat) (t' : Timer0) : Prop :=
  match t.mode with
  | .mode0 =>
    t'.tl.toNat < 32 ∧ t'.th.toNat * 32 + t'.tl.toNat = (t.th.toNat * 32 + t.tl.toNat + k) % 2 ^ 13 ∧
      t'.overflows = t.overflows + (t.th.toNat * 32 + t.tl.toNat + k) / 2 ^ 13 ∧
      t'.tcon = flagged t.id.mask_TF ((t.th.toNat * 32 + t.tl.toNat + k) / 2 ^ 13) t.tcon
  | .mode1 =>
    t'.th.toNat * 256 + t'.tl.toNat = (t.th.toNat * 256 + t.tl.toNat + k) % 2 ^ 16 ∧
      t'.overflows = t.overflows + (t.th.toNat * 256 + t.tl.toNat + k) / 2 ^ 16 ∧
      t'.tcon = flagged t.id.mask_TF ((t.th.toNat * 256 + t.tl.toNat + k) / 2 ^ 16) t.tcon
  | .mode2 =>
    t'.th = t.th ∧ t'.tl.toNat = Odometer.reading 256 t.th.toNat t.tl.toNat k ∧
      t'.overflows = t.overflows + Odometer.laps 256 t.th.toNat t.tl.toNat k ∧
      t'.tcon = flagged t.id.mask_TF (Odometer.laps 256 t.th.toNat t.tl.toNat k) t.tcon
  | .mode3 =>
    t.id = .timer0 →
      t'.tl.toNat = (t.tl.toNat + k) % 256 ∧
      t'.overflows = t.overflows + (t.tl.toNat + k) / 256 ∧
      if t.tcon &&& bmTR1 ≠ 0 then
        t'.th.toNat = (t.th.toNat + k) % 256 ∧
          t'.tcon = flagged bmTF1 ((t.th.toNat + k) / 256) (flagged t.id.mask_TF ((t.tl.toNat + k) / 256) t.tcon)
      else t'.th = t.th ∧ t'.tcon = flagged t.id.mask_TF ((t.tl.toNat + k) / 256) t.tcon

/-! ## One cycle -/

section Cycle

/-- An overflow counts, and sets the flag. -/
def note (bits : BitVec 8) (p : Nat × BitVec 8) : Nat × BitVec 8 := (p.1 + 1, p.2 ||| bits)

theorem iterate_or (bits tcon : BitVec 8) (n : Nat) : (· ||| bits)^[n] tcon = flagged bits n tcon := by
  cases n with
  | zero => rfl
  | succ n =>
    rw [flagged, if_neg (Nat.succ_ne_zero n)]
    induction n with
    | zero => rfl
    | succ n ih => rw [Function.iterate_succ_apply', ih, BitVec.or_assoc, BitVec.or_self]

theorem iterate_note (bits : BitVec 8) (p : Nat × BitVec 8) (n : Nat) :
    (note bits)^[n] p = (p.1 + n, flagged bits n p.2) := by
  rw [← iterate_or]
  induction n with
  | zero => rfl
  | succ n ih =>
    rw [Function.iterate_succ_apply', Function.iterate_succ_apply', ih]
    rfl

theorem succ_eq_zero_iff (b : BitVec 8) : b + 1 = 0 ↔ b.toNat = 255 := by
  rw [← BitVec.toNat_inj, BitVec.toNat_add]
  have := b.isLt
  simp
  omega

theorem toNat_succ {b : BitVec 8} (h : b + 1 ≠ 0) : (b + 1).toNat = b.toNat + 1 := by
  rw [Ne, succ_eq_zero_iff] at h
  rw [BitVec.toNat_add]
  have := b.isLt
  simp
  omega

/-- The carry out of the five bits of TL. -/
theorem low_carry_iff {b : BitVec 8} (h : b.toNat < 32) : (b + 1) &&& 0x1f = 0 ↔ b.toNat = 31 := by
  have hmask : ((b + 1) &&& 0x1f).toNat = (b.toNat + 1) % 32 := by
    have hand : (b.toNat + 1) &&& (2 ^ 5 - 1) = (b.toNat + 1) % 2 ^ 5 := Nat.and_two_pow_sub_one_eq_mod _ 5
    rw [BitVec.toNat_and, BitVec.toNat_add]
    have hsmall : (b.toNat + 1) % 256 = b.toNat + 1 := by omega
    simpa [hsmall] using hand
  rw [← BitVec.toNat_inj, hmask]
  simp
  omega

/-- What no cycle changes. -/
structure SameConfig (t t' : Timer0) : Prop where
  id : t'.id = t.id
  mode : t'.mode = t.mode
  GATE : t'.GATE = t.GATE
  C_T : t'.C_T = t.C_T
  TR : t'.TR = t.TR

theorem SameConfig.trans {t t' t'' : Timer0} (h : SameConfig t t') (h' : SameConfig t' t'') : SameConfig t t'' where
  id := h'.id.trans h.id
  mode := h'.mode.trans h.mode
  GATE := h'.GATE.trans h.GATE
  C_T := h'.C_T.trans h.C_T
  TR := h'.TR.trans h.TR

variable {t t' : Timer0} {k : Nat}

theorem count0_config (t : Timer0) : SameConfig t (count0 t) := by
  unfold count0
  dsimp only
  split
  · split <;> exact ⟨rfl, rfl, rfl, rfl, rfl⟩
  · exact ⟨rfl, rfl, rfl, rfl, rfl⟩

theorem count1_config (t : Timer0) : SameConfig t (count1 t) := by
  unfold count1
  dsimp only
  split
  · split <;> exact ⟨rfl, rfl, rfl, rfl, rfl⟩
  · exact ⟨rfl, rfl, rfl, rfl, rfl⟩

theorem count2_config (t : Timer0) : SameConfig t (count2 t) := by
  unfold count2
  dsimp only
  split <;> exact ⟨rfl, rfl, rfl, rfl, rfl⟩

theorem count3_config (t : Timer0) : SameConfig t (count3 t) := by
  unfold count3
  dsimp only
  split <;> exact ⟨rfl, rfl, rfl, rfl, rfl⟩

theorem count3h_config (t : Timer0) : SameConfig t (count3h t) := by
  unfold count3h
  dsimp only
  split <;> exact ⟨rfl, rfl, rfl, rfl, rfl⟩

/-- One cycle of the 13 bits of mode 0. -/
theorem count0_step (h : t.tl.toNat < 32) :
    ((count0 t).tl.toNat < 32) ∧
      ((t.th.toNat * 32 + t.tl.toNat + 1 = 8192 ∧ (count0 t).th.toNat * 32 + (count0 t).tl.toNat = 0 ∧
          ((count0 t).overflows, (count0 t).tcon) = note t.id.mask_TF (t.overflows, t.tcon)) ∨
        (t.th.toNat * 32 + t.tl.toNat + 1 < 8192 ∧
          (count0 t).th.toNat * 32 + (count0 t).tl.toNat = t.th.toNat * 32 + t.tl.toNat + 1 ∧
          ((count0 t).overflows, (count0 t).tcon) = (t.overflows, t.tcon))) := by
  have hth := t.th.isLt
  unfold count0
  dsimp only
  by_cases hcarry : (t.tl + 1) &&& 0x1f = 0
  · have htl := (low_carry_iff h).mp hcarry
    rw [if_pos hcarry]
    by_cases hover : t.th + 1 = 0
    · have hlast := (succ_eq_zero_iff t.th).mp hover
      rw [if_pos hover]
      refine ⟨(by decide : (0 : BitVec 8).toNat < 32), .inl ⟨by omega, ?_, rfl⟩⟩
      show (t.th + 1).toNat * 32 + 0 = 0
      rw [hover]
      rfl
    · have hnext := toNat_succ hover
      have hlast := mt (succ_eq_zero_iff t.th).mpr hover
      rw [if_neg hover]
      refine ⟨(by decide : (0 : BitVec 8).toNat < 32), .inr ⟨by omega, ?_, rfl⟩⟩
      show (t.th + 1).toNat * 32 + 0 = _
      omega
  · have htl := mt (low_carry_iff h).mpr hcarry
    have hnext : (t.tl + 1).toNat = t.tl.toNat + 1 := by
      refine toNat_succ fun hzero => hcarry ?_
      rw [hzero]
      rfl
    rw [if_neg hcarry]
    refine ⟨?_, .inr ⟨by omega, ?_, rfl⟩⟩
    · show (t.tl + 1).toNat < 32
      omega
    · show t.th.toNat * 32 + (t.tl + 1).toNat = _
      omega

/-- One cycle of the 16 bits of mode 1. -/
theorem count1_step (t : Timer0) :
    (t.th.toNat * 256 + t.tl.toNat + 1 = 65536 ∧ (count1 t).th.toNat * 256 + (count1 t).tl.toNat = 0 ∧
        ((count1 t).overflows, (count1 t).tcon) = note t.id.mask_TF (t.overflows, t.tcon)) ∨
      (t.th.toNat * 256 + t.tl.toNat + 1 < 65536 ∧
        (count1 t).th.toNat * 256 + (count1 t).tl.toNat = t.th.toNat * 256 + t.tl.toNat + 1 ∧
        ((count1 t).overflows, (count1 t).tcon) = (t.overflows, t.tcon)) := by
  have hth := t.th.isLt
  have htl := t.tl.isLt
  unfold count1
  dsimp only
  by_cases hcarry : t.tl + 1 = 0
  · have hfull := (succ_eq_zero_iff t.tl).mp hcarry
    rw [if_pos hcarry]
    by_cases hover : t.th + 1 = 0
    · have hlast := (succ_eq_zero_iff t.th).mp hover
      rw [if_pos hover]
      refine .inl ⟨by omega, ?_, rfl⟩
      show (t.th + 1).toNat * 256 + (t.tl + 1).toNat = 0
      rw [hover, hcarry]
      rfl
    · have hnext := toNat_succ hover
      have hlast := mt (succ_eq_zero_iff t.th).mpr hover
      rw [if_neg hover]
      refine .inr ⟨by omega, ?_, rfl⟩
      show (t.th + 1).toNat * 256 + (t.tl + 1).toNat = _
      rw [hcarry, hnext]
      simp
      omega
  · have hlow := mt (succ_eq_zero_iff t.tl).mpr hcarry
    have hnext := toNat_succ hcarry
    rw [if_neg hcarry]
    refine .inr ⟨by omega, ?_, rfl⟩
    show t.th.toNat * 256 + (t.tl + 1).toNat = _
    omega

/-- One cycle of TL where it does not carry. -/
theorem tl_step (t : Timer0) {f : Timer0 → Timer0} {base : Nat}
    (hwrap : t.tl + 1 = 0 → (f t).tl.toNat = base ∧ ((f t).overflows, (f t).tcon) = note t.id.mask_TF (t.overflows, t.tcon))
    (hnext : t.tl + 1 ≠ 0 → (f t).tl = t.tl + 1 ∧ ((f t).overflows, (f t).tcon) = (t.overflows, t.tcon)) :
    (t.tl.toNat + 1 = 256 ∧ (f t).tl.toNat = base ∧
        ((f t).overflows, (f t).tcon) = note t.id.mask_TF (t.overflows, t.tcon)) ∨
      (t.tl.toNat + 1 < 256 ∧ (f t).tl.toNat = t.tl.toNat + 1 ∧
        ((f t).overflows, (f t).tcon) = (t.overflows, t.tcon)) := by
  have htl := t.tl.isLt
  by_cases hzero : t.tl + 1 = 0
  · have hfull := (succ_eq_zero_iff t.tl).mp hzero
    exact .inl ⟨by omega, hwrap hzero⟩
  · have hlow := mt (succ_eq_zero_iff t.tl).mpr hzero
    obtain ⟨hval, hacc⟩ := hnext hzero
    exact .inr ⟨by omega, by rw [hval]; exact toNat_succ hzero, hacc⟩

end Cycle

/-! ## Calls of `tick` -/

section Ticks

variable {t t₀ : Timer0}

/-- TR is set, GATE and C/T are clear. -/
structure Counting (t : Timer0) : Prop where
  TR : t.TR = true
  GATE : t.GATE = false
  C_T : t.C_T = false

theorem SameConfig.refl (t : Timer0) : SameConfig t t := ⟨rfl, rfl, rfl, rfl, rfl⟩

theorem SameConfig.counting (h : SameConfig t₀ t) (hc : Counting t₀) : Counting t :=
  ⟨h.TR.trans hc.TR, h.GATE.trans hc.GATE, h.C_T.trans hc.C_T⟩

theorem loop_eq (h : Counting t) (body : Timer0 → Timer0) (cycles : Nat) : t.loop body cycles = body^[cycles] t := by
  have hcounts : t.counts := by
    refine ⟨h.TR, fun hgate => ?_⟩
    rw [h.GATE] at hgate
    cases hgate
  rw [loop, if_pos hcounts, takeCycles, h.C_T]
  rfl

/-- Calls of `tick` that each run a loop of the same cycles run one long loop. -/
theorem ticks_eq {f : Timer0 → Timer0} {P : Timer0 → Prop} (hf : ∀ t, P t → P (f t))
    (htick : ∀ t cycles, P t → t.tick cycles = f^[cycles] t) (ht : P t) (cs : List Nat) :
    t.ticks cs = f^[cs.sum] t := by
  have hiterate (n : Nat) {t : Timer0} (ht : P t) : P (f^[n] t) := by
    induction n with
    | zero => exact ht
    | succ n ih =>
      rw [Function.iterate_succ_apply']
      exact hf _ ih
  induction cs generalizing t with
  | nil => rfl
  | cons c cs ih =>
    show ticks cs (t.tick c) = _
    rw [htick t c ht, ih (hiterate c ht), List.sum_cons, Nat.add_comm, Function.iterate_add_apply]

theorem ticks_mode0 (hc : Counting t) (hmode : t.mode = .mode0) (cs : List Nat) : t.ticks cs = count0^[cs.sum] t := by
  refine ticks_eq (P := SameConfig t) (fun s hs => hs.trans (count0_config s)) (fun s cycles hs => ?_)
    (SameConfig.refl t) cs
  rw [tick, hs.mode, hmode]
  exact loop_eq (hs.counting hc) count0 cycles

theorem ticks_mode1 (hc : Counting t) (hmode : t.mode = .mode1) (cs : List Nat) : t.ticks cs = count1^[cs.sum] t := by
  refine ticks_eq (P := SameConfig t) (fun s hs => hs.trans (count1_config s)) (fun s cycles hs => ?_)
    (SameConfig.refl t) cs
  rw [tick, hs.mode, hmode]
  exact loop_eq (hs.counting hc) count1 cycles

theorem ticks_mode2 (hc : Counting t) (hmode : t.mode = .mode2) (cs : List Nat) : t.ticks cs = count2^[cs.sum] t := by
  refine ticks_eq (P := SameConfig t) (fun s hs => hs.trans (count2_config s)) (fun s cycles hs => ?_)
    (SameConfig.refl t) cs
  rw [tick, hs.mode, hmode]
  exact loop_eq (hs.counting hc) count2 cycles

/-! In mode 3 the two loops of a call can be taken apart, as neither sees what the other changes. -/

theorem count3_commute : Function.Commute count3h count3 := by
  intro t
  unfold count3 count3h
  dsimp only
  by_cases htl : t.tl + 1 = 0
  · by_cases hth : t.th + 1 = 0
    · simp only [if_pos htl, if_pos hth, setTcon, overflow, BitVec.or_assoc, BitVec.or_comm bmTF1]
    · simp only [if_pos htl, if_neg hth, setTcon, overflow]
  · by_cases hth : t.th + 1 = 0
    · simp only [if_neg htl, if_pos hth, setTcon]
    · simp only [if_neg htl, if_neg hth]

theorem or_and_TR1 {bits : BitVec 8} (h : bits &&& bmTR1 = 0) (tcon : BitVec 8) :
    (tcon ||| bits) &&& bmTR1 = tcon &&& bmTR1 := by
  rw [BitVec.and_or_distrib_right, h]
  exact BitVec.or_zero

/-- TR1 stays, and so does what is not counted. -/
structure SameTR1 (t₀ t : Timer0) : Prop where
  config : SameConfig t₀ t
  tr1 : t.tcon &&& bmTR1 = t₀.tcon &&& bmTR1

theorem count3_tr1 (hid : t.id = .timer0) : (count3 t).tcon &&& bmTR1 = t.tcon &&& bmTR1 := by
  have hbits : t.id.mask_TF &&& bmTR1 = 0 := by
    rw [hid]
    decide
  unfold count3
  dsimp only
  split
  · exact or_and_TR1 hbits t.tcon
  · rfl

theorem count3h_tr1 (t : Timer0) : (count3h t).tcon &&& bmTR1 = t.tcon &&& bmTR1 := by
  unfold count3h
  dsimp only
  split
  · exact or_and_TR1 (by decide) t.tcon
  · rfl

theorem SameTR1.count3 {s : Timer0} (h : SameTR1 t s) (hid : t.id = .timer0) : SameTR1 t (count3 s) :=
  ⟨h.config.trans (count3_config s), (count3_tr1 (h.config.id.trans hid)).trans h.tr1⟩

theorem SameTR1.iterate_count3 {s : Timer0} (h : SameTR1 t s) (hid : t.id = .timer0) (n : Nat) :
    SameTR1 t (Timer0.count3^[n] s) := by
  induction n with
  | zero => exact h
  | succ n ih =>
    rw [Function.iterate_succ_apply']
    exact ih.count3 hid

theorem ticks_mode3 (hc : Counting t) (hmode : t.mode = .mode3) (hid : t.id = .timer0) (cs : List Nat) :
    t.ticks cs = if t.tcon &&& bmTR1 ≠ 0 then count3h^[cs.sum] (count3^[cs.sum] t) else count3^[cs.sum] t := by
  have hself : SameTR1 t t := ⟨SameConfig.refl t, rfl⟩
  have htick (s : Timer0) (cycles : Nat) (hs : SameTR1 t s) : s.tick cycles =
      if t.tcon &&& bmTR1 ≠ 0 then count3h^[cycles] (count3^[cycles] s) else count3^[cycles] s := by
    rw [tick, hs.config.mode, hmode]
    dsimp only
    rw [do_mode3, if_pos (hs.config.id.trans hid), loop_eq (hs.config.counting hc)]
    dsimp only
    rw [(hs.iterate_count3 hid cycles).tr1]
  by_cases htr1 : t.tcon &&& bmTR1 ≠ 0
  · simp only [if_pos htr1] at htick ⊢
    rw [← Function.comp_apply (f := count3h^[cs.sum]), ← count3_commute.comp_iterate]
    refine ticks_eq (P := SameTR1 t) (fun s hs => ?_) (fun s cycles hs => ?_) hself cs
    · have hnext := hs.count3 hid
      exact ⟨hnext.config.trans (count3h_config _), (count3h_tr1 _).trans hnext.tr1⟩
    · rw [htick s cycles hs, count3_commute.comp_iterate]
      rfl
  · simp only [if_neg htr1] at htick ⊢
    exact ticks_eq (P := SameTR1 t) (fun s hs => hs.count3 hid) htick hself cs

end Ticks

/-! ## The law of counting -/

section Law

variable {t : Timer0}

theorem count0_law (h : t.tl.toNat < 32) (hmode : t.mode = .mode0) (k : Nat) : Counted t k (count0^[k] t) := by
  have hrun := @Odometer.iterate_counts _ _ count0 (fun s => s.th.toNat * 32 + s.tl.toNat) (fun s => (s.overflows, s.tcon))
    (note t.id.mask_TF) (fun s => SameConfig t s ∧ s.tl.toNat < 32) 8192 0 (by decide) (fun s hs => ?_) t
    ⟨SameConfig.refl t, h⟩ k
  · obtain ⟨⟨-, hlow⟩, hval, hacc⟩ := hrun
    have hv : t.th.toNat * 32 + t.tl.toNat < 8192 := by
      have := t.th.isLt
      omega
    rw [Odometer.reading_base_zero hv] at hval
    rw [Odometer.laps_base_zero hv, iterate_note, Prod.mk.injEq] at hacc
    rw [Counted, hmode]
    exact ⟨hlow, hval, hacc.1, hacc.2⟩
  · obtain ⟨hlow, hcases⟩ := count0_step hs.2
    rw [← hs.1.id]
    exact ⟨⟨hs.1.trans (count0_config s), hlow⟩, hcases⟩

theorem count1_law (hmode : t.mode = .mode1) (k : Nat) : Counted t k (count1^[k] t) := by
  have hrun := @Odometer.iterate_counts _ _ count1 (fun s => s.th.toNat * 256 + s.tl.toNat) (fun s => (s.overflows, s.tcon))
    (note t.id.mask_TF) (SameConfig t) 65536 0 (by decide) (fun s hs => ?_) t (SameConfig.refl t) k
  · obtain ⟨-, hval, hacc⟩ := hrun
    have hv : t.th.toNat * 256 + t.tl.toNat < 65536 := by
      have := t.th.isLt
      have := t.tl.isLt
      omega
    rw [Odometer.reading_base_zero hv] at hval
    rw [Odometer.laps_base_zero hv, iterate_note, Prod.mk.injEq] at hacc
    rw [Counted, hmode]
    exact ⟨hval, hacc.1, hacc.2⟩
  · rw [← hs.id]
    exact ⟨hs.trans (count1_config s), count1_step s⟩

theorem count2_law (hmode : t.mode = .mode2) (k : Nat) : Counted t k (count2^[k] t) := by
  have hrun := @Odometer.iterate_counts _ _ count2 (fun s => s.tl.toNat) (fun s => (s.overflows, s.tcon)) (note t.id.mask_TF)
    (fun s => SameConfig t s ∧ s.th = t.th) 256 t.th.toNat t.th.isLt (fun s hs => ?_) t ⟨SameConfig.refl t, rfl⟩ k
  · obtain ⟨⟨-, hth⟩, hval, hacc⟩ := hrun
    rw [iterate_note, Prod.mk.injEq] at hacc
    rw [Counted, hmode]
    exact ⟨hth, hval, hacc.1, hacc.2⟩
  · have hth : (count2 s).th = s.th := by
      unfold count2
      dsimp only
      split <;> rfl
    refine ⟨⟨hs.1.trans (count2_config s), hth.trans hs.2⟩, ?_⟩
    rw [← hs.1.id, ← hs.2]
    refine tl_step s (fun hzero => ?_) (fun hne => ?_)
    · rw [count2, if_pos hzero]
      exact ⟨rfl, rfl⟩
    · rw [count2, if_neg hne]
      exact ⟨rfl, rfl⟩

/-- TL in mode 3. -/
theorem count3_law (t : Timer0) (k : Nat) :
    (SameConfig t (count3^[k] t) ∧ (count3^[k] t).th = t.th) ∧ (count3^[k] t).tl.toNat = (t.tl.toNat + k) % 256 ∧
      ((count3^[k] t).overflows, (count3^[k] t).tcon) =
        (t.overflows + (t.tl.toNat + k) / 256, flagged t.id.mask_TF ((t.tl.toNat + k) / 256) t.tcon) := by
  have hrun := @Odometer.iterate_counts _ _ count3 (fun s => s.tl.toNat) (fun s => (s.overflows, s.tcon)) (note t.id.mask_TF)
    (fun s => SameConfig t s ∧ s.th = t.th) 256 0 (by decide) (fun s hs => ?_) t ⟨SameConfig.refl t, rfl⟩ k
  · rw [Odometer.reading_base_zero t.tl.isLt, Odometer.laps_base_zero t.tl.isLt, iterate_note] at hrun
    exact hrun
  · have hth : (count3 s).th = s.th := by
      unfold count3
      dsimp only
      split <;> rfl
    refine ⟨⟨hs.1.trans (count3_config s), hth.trans hs.2⟩, ?_⟩
    rw [← hs.1.id]
    refine tl_step s (fun hzero => ?_) (fun hne => ?_)
    · rw [count3, if_pos hzero]
      exact ⟨congrArg BitVec.toNat hzero, rfl⟩
    · rw [count3, if_neg hne]
      exact ⟨rfl, rfl⟩

/-- TH in mode 3. -/
theorem count3h_law (t : Timer0) (k : Nat) :
    ((count3h^[k] t).tl = t.tl ∧ (count3h^[k] t).overflows = t.overflows) ∧
      (count3h^[k] t).th.toNat = (t.th.toNat + k) % 256 ∧
      (count3h^[k] t).tcon = flagged bmTF1 ((t.th.toNat + k) / 256) t.tcon := by
  have hrun := @Odometer.iterate_counts _ _ count3h (fun s => s.th.toNat) (fun s => s.tcon) (· ||| bmTF1)
    (fun s => s.tl = t.tl ∧ s.overflows = t.overflows) 256 0 (by decide) (fun s hs => ?_) t ⟨rfl, rfl⟩ k
  · rw [Odometer.reading_base_zero t.th.isLt, Odometer.laps_base_zero t.th.isLt, iterate_or] at hrun
    exact hrun
  · have hth := s.th.isLt
    unfold count3h
    dsimp only
    by_cases hzero : s.th + 1 = 0
    · have hfull := (succ_eq_zero_iff s.th).mp hzero
      rw [if_pos hzero]
      exact ⟨hs, .inl ⟨by omega, congrArg BitVec.toNat hzero, rfl⟩⟩
    · have hlow := mt (succ_eq_zero_iff s.th).mpr hzero
      rw [if_neg hzero]
      exact ⟨hs, .inr ⟨by omega, toNat_succ hzero, rfl⟩⟩

/-- The two timers count every cycle, however the cycles are dealt out to calls of `tick`. -/
theorem ticks_counted (t : Timer0) (hc : Counting t) (h : t.mode = .mode0 → t.tl.toNat < 32) (cs : List Nat) :
    Counted t cs.sum (t.ticks cs) := by
  cases hmode : t.mode with
  | mode0 =>
    rw [ticks_mode0 hc hmode]
    exact count0_law (h hmode) hmode cs.sum
  | mode1 =>
    rw [ticks_mode1 hc hmode]
    exact count1_law hmode cs.sum
  | mode2 =>
    rw [ticks_mode2 hc hmode]
    exact count2_law hmode cs.sum
  | mode3 =>
    rw [Counted, hmode]
    intro hid
    obtain ⟨⟨-, hth⟩, htl, hacc⟩ := count3_law t cs.sum
    rw [Prod.mk.injEq] at hacc
    rw [ticks_mode3 hc hmode hid]
    by_cases htr1 : t.tcon &&& bmTR1 ≠ 0
    · obtain ⟨⟨htl', hover⟩, hth', htcon⟩ := count3h_law (count3^[cs.sum] t) cs.sum
      rw [if_pos htr1, if_pos htr1, htl', hover, hth', htcon, hth, hacc.2]
      exact ⟨htl, hacc.1, rfl, rfl⟩
    · rw [if_neg htr1, if_neg htr1]
      exact ⟨htl, hacc.1, hth, hacc.2⟩

/-- The law at work: an 8-bit timer that runs from 0xfe on. -/
theorem ticks_counted_reload :
    let t : Timer0 :=
      { id := .timer1, mode := .mode2, GATE := false, C_T := false, TR := true, INT := false, T_edge := 0
        tl := 0xff, th := 0xfe, tcon := 0x40, overflows := 0 }
    Counted t [2, 0, 3].sum (t.ticks [2, 0, 3]) :=
  ticks_counted _ ⟨rfl, rfl, rfl⟩ (fun h => by cases h) _

end Law

end Timer0

end Ucsim.S51
