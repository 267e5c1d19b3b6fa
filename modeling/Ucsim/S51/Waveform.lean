import Mathlib.Tactic.IntervalCases
import Ucsim.S51.CompareSchedule

/-!
# Waveforms of the timers

The count of a timer with compare channels, tick after tick: its wave in the three modes that count up first, the
registers that show it, and the calls of `overflow`.
-/

namespace Ucsim.S51

namespace CcTimer

variable {w : Nat}

/-- The count and the direction after a tick, in the modes that count up first. -/
def nextCount (K : Wiring w) (t : CcTimer w) : BitVec w × Bool :=
  match K.countMode t with
  | .freeRunning => (t.count + 1, t.up_down)
  | .modulo => (if t.count = t.ValRegCMP 0 then 0 else t.count + 1, t.up_down)
  | .upDown =>
    if !t.up_down then (t.count + 1, t.count + 1 = t.ValRegCMP 0) else (t.count - 1, t.count - 1 ≠ 0)
  | .stop | .down => (t.count, t.up_down)

/-- Does the pass of the loop call `overflow()`? The branches are those of the loops: in the modulo mode one call is in
the branch of the period and one in the other, and in the up/down mode one is in each direction. -/
def overflow_called (K : Wiring w) (t : CcTimer w) : Bool :=
  match K.countMode t with
  | .freeRunning => t.count + 1 = 0
  | .modulo => if t.count = t.ValRegCMP 0 then true else t.count + 1 = 0
  | .upDown => if !t.up_down then t.count + 1 = 0 else t.count - 1 = 0
  | .stop | .down => false

/-- The count as its registers show it. -/
def shownCount (K : Wiring w) (st : CcSt w) : Nat :=
  (st.mem K.cell_tl).toNat + K.cell_th.elim 0 fun th => 0x100 * (st.mem th).toNat

/-- The wave of a mode after `k` ticks, with `CC0` in the first compare register. -/
def wave (mode : CountMode) (w CC0 k : Nat) : Nat :=
  match mode with
  | .freeRunning => k % 2 ^ w
  | .modulo => k % (CC0 + 1)
  | .upDown => if k % (2 * CC0) ≤ CC0 then k % (2 * CC0) else 2 * CC0 - k % (2 * CC0)
  | .stop | .down => 0

/-! ## What a tick keeps -/

/-- The cells that show the count. -/
def countCells (K : Wiring w) : List Site := K.cell_tl :: K.cell_th.toList

/-- The settings of the control register stay. -/
structure KeepsMode (st st' : CcSt w) : Prop where
  mode : st'.hw.mode = st.hw.mode
  TR : st'.hw.TR = st.hw.TR
  prescale : st'.hw.prescale = st.hw.prescale

theorem KeepsMode.trans {st st₁ st₂ : CcSt w} (h : KeepsMode st st₁) (h' : KeepsMode st₁ st₂) : KeepsMode st st₂ :=
  ⟨h'.mode.trans h.mode, h'.TR.trans h.TR, h'.prescale.trans h.prescale⟩

/-- The count, its direction and the cells that show it stay too. -/
structure KeepsCount (K : Wiring w) (st st' : CcSt w) : Prop extends KeepsMode st st' where
  count : st'.hw.count = st.hw.count
  up_down : st'.hw.up_down = st.hw.up_down
  cells : ∀ c ∈ countCells K, st'.mem c = st.mem c

namespace KeepsCount

variable {K : Wiring w} {st st₁ st₂ : CcSt w}

theorem refl (st : CcSt w) : KeepsCount K st st := ⟨⟨rfl, rfl, rfl⟩, rfl, rfl, fun _ _ => rfl⟩

theorem trans (h : KeepsCount K st st₁) (h' : KeepsCount K st₁ st₂) : KeepsCount K st st₂ where
  toKeepsMode := h.toKeepsMode.trans h'.toKeepsMode
  count := h'.count.trans h.count
  up_down := h'.up_down.trans h.up_down
  cells c hc := (h'.cells c hc).trans (h.cells c hc)

theorem getNextCcEvent (st : CcSt w) : KeepsCount K st (getNextCcEvent K st) := ⟨⟨rfl, rfl, rfl⟩, rfl, rfl, fun _ _ => rfl⟩

/-- A write of a register that is none of the cells. -/
theorem writeReg {E : Element (CcTimer w)} {c : Site} (hc : c ∉ countCells K)
    (hwrite : ∀ v st, KeepsCount K st (E.write c v st)) (v : TMem) (st : CcSt w) :
    KeepsCount K st (E.writeReg c v st) := by
  have hcalls : ∀ n st, KeepsCount K st (E.calls c v n st) := by
    intro n
    induction n with
    | zero => exact refl
    | succ n ih => exact fun st => (hwrite v st).trans (ih _)
  have h := hcalls (E.operators c) st
  refine ⟨⟨h.mode, h.TR, h.prescale⟩, h.count, h.up_down, fun d hd => ?_⟩
  have hne : d ≠ c := fun hdc => hc (hdc ▸ hd)
  exact (Function.update_of_ne hne _ _).trans (h.cells d hd)

end KeepsCount

/-- What is written apart from the count is apart from the cells that show it. -/
structure Apart (K : Wiring w) (store : Fin 5 → CcSt w → CcSt w) : Prop where
  ircon : .sfr Reg.IRCON ∉ countCells K
  ovfFlag : K.cell_OvfFlagReg ∉ countCells K
  flag : K.cell_FlagReg ∉ countCells K
  tl_th : ∀ th ∈ K.cell_th, K.cell_tl ≠ th
  width : if K.cell_th.isSome then w = 16 else w = 8
  store : ∀ i st, KeepsCount K st (store i st)

section

variable {K : Wiring w} {store : Fin 5 → CcSt w → CcSt w} (hK : Apart K store)

include hK

theorem captureFlags_keeps (i : Fin 5) (st : CcSt w) : KeepsCount K st (captureFlags K i st) := by
  rw [captureFlags]
  split
  · refine ⟨⟨rfl, rfl, rfl⟩, rfl, rfl, fun c hc => ?_⟩
    have hflag : c ≠ K.cell_FlagReg := fun h => hK.flag (h ▸ hc)
    have hircon : c ≠ .sfr Reg.IRCON := fun h => hK.ircon (h ▸ hc)
    dsimp only
    split
    · rw [Function.update_of_ne hircon, Function.update_of_ne hflag]
    · rw [Function.update_of_ne hflag]
  · exact .refl st

theorem channelEvent_keeps (st : CcSt w) (i : Fin 5) : KeepsCount K st (channelEvent K store st i) := by
  rw [channelEvent]
  dsimp only
  split
  · split
    · exact ⟨⟨rfl, rfl, rfl⟩, rfl, rfl, fun _ _ => rfl⟩
    · exact .refl st
  · have hpin : ∀ pins, KeepsCount K st { st with hw := { st.hw with ExIOPin := pins } } :=
      fun _ => ⟨⟨rfl, rfl, rfl⟩, rfl, rfl, fun _ _ => rfl⟩
    split
    · exact ((hpin _).trans (hK.store i _)).trans (captureFlags_keeps hK i _)
    · exact hpin _

theorem captureCompare_keeps (st : CcSt w) : KeepsCount K st (captureCompare K store st) := by
  have hfold : ∀ (l : List (Fin 5)) st, KeepsCount K st (l.foldl (channelEvent K store) st) := by
    intro l
    induction l with
    | nil => exact .refl
    | cons i l ih => exact fun st => (channelEvent_keeps hK st i).trans (ih _)
  exact (hfold K.channels st).trans (.getNextCcEvent _)

theorem due_keeps (st : CcSt w) : KeepsCount K st (if due st then captureCompare K store st else st) := by
  split
  · exact captureCompare_keeps hK st
  · exact .refl st

theorem checkEvent_keeps (st : CcSt w) : KeepsCount K st (checkEvent K store st) :=
  (due_keeps hK st).trans ⟨⟨rfl, rfl, rfl⟩, rfl, rfl, fun _ _ => rfl⟩

theorem checkTurn_keeps (st : CcSt w) : KeepsCount K st (checkTurn K store st) := by
  have hturn : ∀ st : CcSt w, KeepsCount K st (if st.hw.up_down_changed then getNextCcEvent K st else st) := by
    intro st
    split
    · exact .getNextCcEvent st
    · exact .refl st
  exact ((due_keeps hK st).trans (hturn _)).trans ⟨⟨rfl, rfl, rfl⟩, rfl, rfl, fun _ _ => rfl⟩

/-! ## One tick -/

end

section

variable {K : Wiring w} {st : CcSt w}

/-- The count after the first part of a tick, and its registers: all of the modes end it with `refresh_sfr`. -/
structure Counted (K : Wiring w) (st st₁ : CcSt w) : Prop where
  next : (st₁.hw.count, st₁.hw.up_down) = nextCount K st.hw
  keeps : KeepsMode st st₁
  shown : ∃ mem, st₁.mem = (refreshSfr K { mem := mem, hw := st₁.hw }).mem

theorem counted_refreshSfr {st₀ : CcSt w} (hnext : (st₀.hw.count, st₀.hw.up_down) = nextCount K st.hw)
    (hkeeps : KeepsMode st st₀) : Counted K st (refreshSfr K st₀) := by
  have hhw := refreshSfr_hw (K := K) st₀
  refine ⟨?_, ⟨?_, ?_, ?_⟩, st₀.mem, ?_⟩
  · rw [hhw, hnext]
  · rw [hhw, hkeeps.mode]
  · rw [hhw, hkeeps.TR]
  · rw [hhw, hkeeps.prescale]
  · rw [hhw]

theorem countTick_counted (h : Scheduling K st.hw) : Counted K st (countTick K st) := by
  rcases h with h | h | h <;> rw [countTick, h] <;> dsimp only
  · rw [freeRunningCount]
    refine counted_refreshSfr ?_ ⟨rfl, rfl, rfl⟩
    rw [nextCount, h]
  · rw [moduloCount]
    dsimp only
    by_cases hper : st.hw.count = st.hw.ValRegCMP 0
    · rw [if_pos hper, if_pos rfl]
      refine counted_refreshSfr ?_ ⟨rfl, rfl, rfl⟩
      rw [nextCount, h]
      dsimp only
      rw [if_pos hper]
      rfl
    · rw [if_neg hper]
      dsimp only
      split
      · refine counted_refreshSfr ?_ ⟨rfl, rfl, rfl⟩
        rw [nextCount, h]
        dsimp only
        rw [if_neg hper]
        rfl
      · refine counted_refreshSfr ?_ ⟨rfl, rfl, rfl⟩
        rw [nextCount, h]
        dsimp only
        rw [if_neg hper]
  · have hhw := upDown_hw h
    rw [countTick, h] at hhw
    dsimp only at hhw
    have hshown : ∃ st₀, upDownCount K st = refreshSfr K st₀ := by
      rw [upDownCount]
      dsimp only
      split
      · exact ⟨_, rfl⟩
      · split <;> exact ⟨_, rfl⟩
    obtain ⟨st₀, hst₀⟩ := hshown
    have hst₀hw : st₀.hw = (upDownCount K st).hw := by rw [hst₀, refreshSfr_hw]
    rw [hst₀]
    refine counted_refreshSfr ?_ ⟨?_, ?_, ?_⟩ <;> rw [hst₀hw, hhw]
    rw [nextCount, h]
    dsimp only
    cases hud : st.hw.up_down with
    | false =>
      have hturns : Turns K st.hw ↔ st.hw.count + 1 = st.hw.ValRegCMP 0 := by
        rw [Turns, hud]
        exact and_iff_right h
      simp only [hturns, Bool.not_false, if_true, Bool.false_eq_true, if_false]
      split
      next hper => rw [decide_eq_true hper]
      next hper => rw [decide_eq_false hper]
    | true =>
      have hturns : Turns K st.hw ↔ st.hw.count - 1 = 0 := by
        rw [Turns, hud]
        exact and_iff_right h
      simp only [hturns, Bool.not_true, if_true, Bool.false_eq_true, if_false]
      split
      next hzero => rw [decide_eq_false (not_not.mpr hzero)]
      next hzero => rw [decide_eq_true hzero]

theorem high_byte (x : BitVec 16) : (x.sshiftRight 8).setWidth 16 &&& (0xff : BitVec 16) = x >>> 8 := by
  ext i hi
  simp only [BitVec.getElem_and, BitVec.getElem_setWidth, BitVec.getLsbD_sshiftRight, BitVec.getElem_ushiftRight]
  interval_cases i <;> simp

/-- `refresh_sfr` shows the count. -/
theorem shownCount_refreshSfr {store : Fin 5 → CcSt w → CcSt w} (hK : Apart K store) (st : CcSt w) :
    shownCount K (refreshSfr K st) = st.hw.count.toNat := by
  have hwidth := hK.width
  have htl := hK.tl_th
  have hlt := st.hw.count.isLt
  unfold shownCount refreshSfr
  cases hth : K.cell_th with
  | none =>
    rw [hth] at hwidth
    obtain rfl : w = 8 := hwidth
    dsimp only [Option.elim_none]
    rw [Function.update_self, toNat_low, BitVec.toNat_setWidth]
    omega
  | some th =>
    rw [hth] at hwidth
    obtain rfl : w = 16 := hwidth
    dsimp only [Option.elim_some]
    rw [Function.update_of_ne (htl th hth), Function.update_self, Function.update_self, high_byte, toNat_low, toNat_high,
      BitVec.toNat_setWidth]
    omega

/-- What a tick has done. -/
structure Ticked (K : Wiring w) (st st₁ : CcSt w) : Prop where
  next : (st₁.hw.count, st₁.hw.up_down) = nextCount K st.hw
  keeps : KeepsMode st st₁
  shown : shownCount K st₁ = st₁.hw.count.toNat

theorem Counted.ticked {store : Fin 5 → CcSt w → CcSt w} (hK : Apart K store) {st₁ st₂ : CcSt w}
    (h : Counted K st st₁) (h' : KeepsCount K st₁ st₂) : Ticked K st st₂ where
  next := by rw [h'.count, h'.up_down, h.next]
  keeps := h.keeps.trans h'.toKeepsMode
  shown := by
    obtain ⟨mem, hmem⟩ := h.shown
    have hcells : ∀ c ∈ countCells K, st₂.mem c = (refreshSfr K { mem := mem, hw := st₁.hw }).mem c := by
      intro c hc
      rw [h'.cells c hc, ← hmem]
    have hsame : shownCount K st₂ = shownCount K (refreshSfr K { mem := mem, hw := st₁.hw }) := by
      unfold shownCount
      rw [hcells K.cell_tl List.mem_cons_self]
      cases hth : K.cell_th with
      | none => rfl
      | some th =>
        have hmem : th ∈ countCells K := by
          rw [countCells, hth]
          exact List.mem_cons_of_mem _ List.mem_cons_self
        dsimp only [Option.elim_some]
        rw [hcells th hmem]
    rw [hsame, shownCount_refreshSfr hK, h'.count]

theorem tick_ticked {store : Fin 5 → CcSt w → CcSt w} (hK : Apart K store) (h : Scheduling K st.hw) :
    Ticked K st (tick K store st) := by
  have hcounted := countTick_counted h
  by_cases hmode : K.countMode st.hw = .upDown
  · rw [tick_eq_checkTurn hmode]
    exact hcounted.ticked hK (checkTurn_keeps hK _)
  · have hmode' : K.countMode st.hw = .freeRunning ∨ K.countMode st.hw = .modulo := by
      rcases h with h | h | h
      · exact .inl h
      · exact .inr h
      · exact absurd h hmode
    rw [tick_eq_checkEvent hmode']
    exact hcounted.ticked hK (checkEvent_keeps hK _)

/-! ## The wave -/

theorem toNat_add_one (hw : 0 < w) {x : BitVec w} {n : Nat} (h : x.toNat + 1 = n) (hlt : n < 2 ^ w) :
    (x + 1).toNat = n := by
  rw [BitVec.toNat_add, one_toNat hw, h, Nat.mod_eq_of_lt hlt]

theorem toNat_sub_one (hw : 0 < w) {x : BitVec w} {n : Nat} (h : x.toNat = n + 1) : (x - 1).toNat = n := by
  have hlt := x.isLt
  have hpos := two_le_pow hw
  have hsum : 2 ^ w - 1 + (n + 1) = n + 2 ^ w := by omega
  rw [BitVec.toNat_sub, one_toNat hw, h, hsum, Nat.add_mod_right, Nat.mod_eq_of_lt (by omega)]

/-- Where the wave goes after a tick. -/
theorem mod_succ_cases {k p : Nat} (hp : 0 < p) :
    k % p + 1 < p ∧ (k + 1) % p = k % p + 1 ∨ k % p + 1 = p ∧ (k + 1) % p = 0 := by
  have hlt := Nat.mod_lt k hp
  rcases Nat.lt_or_ge (k % p + 1) p with h | h
  · refine .inl ⟨h, ?_⟩
    rw [← Nat.mod_add_mod, Nat.mod_eq_of_lt h]
  · have heq : k % p + 1 = p := by omega
    refine .inr ⟨heq, ?_⟩
    rw [← Nat.mod_add_mod, heq, Nat.mod_self]

/-- The count after `k` ticks from a count of zero, and its direction. -/
structure OnWave (K : Wiring w) (CC0 k : Nat) (t : CcTimer w) : Prop where
  count : t.count.toNat = wave (K.countMode t) w CC0 k
  up_down : t.up_down = true ↔ K.countMode t = .upDown ∧ CC0 ≤ k % (2 * CC0)

/-- A tick goes one further on the wave. -/
theorem OnWave.next (hw : 0 < w) {t t' : CcTimer w} {k : Nat} (h : OnWave K (t.ValRegCMP 0).toNat k t)
    (hsched : Scheduling K t) (hCC0 : K.countMode t = .upDown → t.ValRegCMP 0 ≠ 0)
    (hmode : K.countMode t' = K.countMode t) (hnext : (t'.count, t'.up_down) = nextCount K t) :
    OnWave K (t.ValRegCMP 0).toNat (k + 1) t' := by
  have hcount := h.count
  have hdir := h.up_down
  have hlt := (t.ValRegCMP 0).isLt
  generalize hCC : (t.ValRegCMP 0).toNat = CC0 at *
  rcases hsched with hm | hm | hm
  · -- free-running
    rw [nextCount, hm] at hnext
    obtain ⟨hc, hu⟩ := Prod.mk.inj hnext
    rw [hm] at hcount hdir
    constructor
    · rw [hmode, hm, hc, BitVec.toNat_add, one_toNat hw, hcount]
      exact Nat.mod_add_mod k (2 ^ w) 1
    · rw [hmode, hm, hu]
      simpa using hdir
  · -- modulo
    rw [nextCount, hm] at hnext
    obtain ⟨hc, hu⟩ := Prod.mk.inj hnext
    rw [hm] at hcount hdir
    have hper : t.count = t.ValRegCMP 0 ↔ k % (CC0 + 1) = CC0 := by
      rw [← BitVec.toNat_inj, hCC, hcount]
      rfl
    constructor
    · rw [hmode, hm, hc, wave]
      rcases mod_succ_cases (k := k) (p := CC0 + 1) (Nat.succ_pos CC0) with ⟨hless, hk⟩ | ⟨heq, hk⟩
      · have hne : ¬ k % (CC0 + 1) = CC0 := by omega
        rw [if_neg (mt hper.mp hne), hk]
        refine toNat_add_one hw ?_ (by omega)
        rw [hcount]
        rfl
      · rw [if_pos (hper.mpr (by omega)), hk]
        exact zero_toNat
    · rw [hmode, hm, hu]
      simpa using hdir
  · -- up/down
    have hpos : 0 < CC0 := by
      rcases Nat.eq_zero_or_pos CC0 with hzero | hpos
      · refine absurd (BitVec.eq_of_toNat_eq ?_) (hCC0 hm)
        rw [hCC, hzero]
        exact zero_toNat.symm
      · exact hpos
    rw [nextCount, hm] at hnext
    dsimp only at hnext
    rw [hm] at hcount hdir
    rw [wave] at hcount
    have hcases := mod_succ_cases (k := k) (p := 2 * CC0) (by omega)
    generalize k % (2 * CC0) = r at hcount hdir hcases
    cases hud : t.up_down with
    | false =>
      rw [hud] at hnext
      obtain ⟨hc, hu⟩ := Prod.mk.inj hnext
      have hr : r < CC0 := by
        by_contra hge
        have hup := hdir.mpr ⟨rfl, by omega⟩
        rw [hud] at hup
        cases hup
      have hk : (k + 1) % (2 * CC0) = r + 1 := by omega
      have hone : (t.count + 1).toNat = r + 1 := by
        refine toNat_add_one hw ?_ (by omega)
        rw [hcount, if_pos (by omega)]
      constructor
      · rw [hmode, hm, hc, wave, hk, if_pos (by omega), hone]
      · rw [hmode, hm, hu, hk, decide_eq_true_iff, ← BitVec.toNat_inj, hone, hCC]
        constructor
        · exact fun heq => ⟨rfl, by omega⟩
        · rintro ⟨-, hle⟩
          omega
    | true =>
      rw [hud] at hnext
      obtain ⟨hc, hu⟩ := Prod.mk.inj hnext
      have hr := (hdir.mp hud).2
      have hcount' : t.count.toNat = (2 * CC0 - r - 1) + 1 := by
        rw [hcount]
        split <;> omega
      have hone := toNat_sub_one hw hcount'
      have hzero : t.count - 1 ≠ 0 ↔ r + 1 < 2 * CC0 := by
        rw [ne_eq, ← BitVec.toNat_inj, hone, zero_toNat]
        omega
      constructor
      · rw [hmode, hm, hc, wave, hone]
        split <;> omega
      · rw [hmode, hm, hu, decide_eq_true_iff, hzero]
        constructor
        · exact fun hless => ⟨rfl, by omega⟩
        · rintro ⟨-, hle⟩
          omega

end

/-! ## The three timers -/

/-- A write to a register of timer 1 other than its control register. -/
theorem timer1_write_keeps {c : Site} (hc : c ≠ .sfr Reg.T1CTL) (v : TMem) (st : CcSt 16) :
    KeepsCount Timer1.wiring st (Timer1.write c v st) := by
  have hbase : baseWrite Timer1.wiring c v st = st := if_neg hc
  have hmem : ∀ d ∈ countCells Timer1.wiring, (Timer1.write c v st).mem d = st.mem d := by
    intro d hd
    have hne : d ≠ .sfr Reg.IRCON ∧ d ≠ .sfr Reg.T1STAT := by
      revert d
      decide
    rw [Timer1.write_mem]
    split
    · rw [Function.update_of_ne hne.1, Function.update_of_ne hne.2]
    · rfl
  have hhw : (Timer1.write c v st).hw.count = st.hw.count ∧ (Timer1.write c v st).hw.up_down = st.hw.up_down ∧
      KeepsMode st (Timer1.write c v st) := by
    rw [Timer1.write, hbase]
    dsimp only
    rw [if_neg hc]
    cases Timer1.selected c with
    | none => exact ⟨rfl, rfl, rfl, rfl, rfl⟩
    | some half => exact ⟨rfl, rfl, rfl, rfl, rfl⟩
  exact ⟨hhw.2.2, hhw.1, hhw.2.1, hmem⟩

theorem timer1_store_keeps (i : Fin 5) (st : CcSt 16) : KeepsCount Timer1.wiring st (Timer1.store i st) := by
  have hregs : ∀ i, (Timer1.regCMPH i ∉ countCells Timer1.wiring ∧ Timer1.regCMPH i ≠ .sfr Reg.T1CTL) ∧
      Timer1.regCMPL i ∉ countCells Timer1.wiring ∧ Timer1.regCMPL i ≠ .sfr Reg.T1CTL := by decide
  obtain ⟨⟨hH, hHctl⟩, hL, hLctl⟩ := hregs i
  exact (KeepsCount.writeReg (E := Timer1.element) hH (timer1_write_keeps hHctl) _ st).trans
    (KeepsCount.writeReg (E := Timer1.element) hL (timer1_write_keeps hLctl) _ _)

/-- A write to a register of timer 3 or 4 other than the control register. -/
theorem charWrite_keeps {K : Wiring 8} {TxCC0 TxCC1 : Int} {c : Site} (hc : c ≠ K.cell_txctl) (v : TMem) (st : CcSt 8) :
    KeepsCount K st (charWrite K TxCC0 TxCC1 c v st) := by
  have hbase : baseWrite K c v st = st := if_neg hc
  rw [charWrite, hbase]
  dsimp only
  rw [if_neg hc]
  split
  · exact ⟨⟨rfl, rfl, rfl⟩, rfl, rfl, fun _ _ => rfl⟩
  · split
    · exact ⟨⟨rfl, rfl, rfl⟩, rfl, rfl, fun _ _ => rfl⟩
    · exact .refl st

theorem apart (id : TimerId) : Apart id.timer.wiring id.timer.store := by
  cases id with
  | timer1 => exact ⟨by decide, by decide, by decide, by decide, by decide, timer1_store_keeps⟩
  | timer3 =>
    refine ⟨by decide, by decide, by decide, by decide, by decide, fun i st => ?_⟩
    refine KeepsCount.writeReg (E := Timer3.element) ?_ (charWrite_keeps ?_) _ st
    · split <;> decide
    · split <;> decide
  | timer4 =>
    refine ⟨by decide, by decide, by decide, by decide, by decide, fun i st => ?_⟩
    refine KeepsCount.writeReg (E := Timer4.element) ?_ (charWrite_keeps ?_) _ st
    · split <;> decide
    · split <;> decide

/-- `k` ticks of a timer. -/
def ticks (T : CompareTimer w) (k : Nat) (st : CcSt w) : CcSt w := (tick T.wiring T.store)^[k] st

theorem ticks_succ (T : CompareTimer w) (k : Nat) (st : CcSt w) :
    ticks T (k + 1) st = tick T.wiring T.store (ticks T k st) :=
  Function.iterate_succ_apply' ..

theorem KeepsMode.countMode {T : CompareTimer w} {st st' : CcSt w} (h : KeepsMode st st') :
    T.wiring.countMode st'.hw = T.wiring.countMode st.hw :=
  T.countMode_congr _ _ h.mode h.TR

/-- As long as the first compare value stays, the mode stays and the count is on its wave. -/
theorem onWave_ticks {T : CompareTimer w} (hT : Apart T.wiring T.store) {st : CcSt w}
    (hsched : Scheduling T.wiring st.hw) (hcount : st.hw.count = 0) (hup : st.hw.up_down = false)
    (hCC0 : T.wiring.countMode st.hw = .upDown → st.hw.ValRegCMP 0 ≠ 0) :
    ∀ k, (∀ j < k, (ticks T j st).hw.ValRegCMP 0 = st.hw.ValRegCMP 0) →
      T.wiring.countMode (ticks T k st).hw = T.wiring.countMode st.hw ∧
        OnWave T.wiring (st.hw.ValRegCMP 0).toNat k (ticks T k st).hw := by
  intro k
  induction k with
  | zero =>
    intro _
    refine ⟨rfl, ⟨?_, ?_⟩⟩
    · change st.hw.count.toNat = _
      rw [hcount, zero_toNat]
      change 0 = wave (T.wiring.countMode st.hw) w (st.hw.ValRegCMP 0).toNat 0
      cases T.wiring.countMode st.hw <;> simp [wave]
    · change st.hw.up_down = true ↔ T.wiring.countMode st.hw = .upDown ∧ _
      rw [hup, Nat.zero_mod]
      constructor
      · exact nofun
      · rintro ⟨hmode, hle⟩
        refine absurd (BitVec.eq_of_toNat_eq ?_) (hCC0 hmode)
        exact (Nat.le_zero.mp hle).trans zero_toNat.symm
  | succ k ih =>
    intro hregs
    obtain ⟨hmode, hwave⟩ := ih fun j hj => hregs j (Nat.lt_succ_of_lt hj)
    have hCC := hregs k (Nat.lt_succ_self k)
    have hsched' : Scheduling T.wiring (ticks T k st).hw := by
      unfold Scheduling
      rw [hmode]
      exact hsched
    have hticked := tick_ticked hT hsched'
    rw [← ticks_succ] at hticked
    have hmode' := hticked.keeps.countMode (T := T)
    refine ⟨hmode'.trans hmode, ?_⟩
    rw [← hCC] at hwave ⊢
    refine hwave.next T.width_pos hsched' ?_ hmode' hticked.next
    rw [hmode, hCC]
    exact hCC0

/-- `overflow()` is called where the count becomes zero. -/
theorem overflow_called_iff {K : Wiring w} {t : CcTimer w} (h : Scheduling K t) : overflow_called K t = true ↔ (nextCount K t).1 = 0 := by
  rcases h with h | h | h <;> rw [overflow_called, nextCount, h] <;> dsimp only
  · exact decide_eq_true_iff
  · split
    · exact ⟨fun _ => rfl, fun _ => rfl⟩
    · exact decide_eq_true_iff
  · split
    · exact decide_eq_true_iff
    · exact decide_eq_true_iff

/-- The waves of the timers: from a count of zero, counting up, the count after `k` ticks is that of the wave of the
mode, its registers show it, and `overflow()` is called at exactly the ticks at which it becomes zero. -/
theorem waveform (id : TimerId) {st : CcSt id.width} (hsched : Scheduling id.timer.wiring st.hw)
    (hcount : st.hw.count = 0) (hup : st.hw.up_down = false)
    (hCC0 : id.timer.wiring.countMode st.hw = .upDown → st.hw.ValRegCMP 0 ≠ 0) (k : Nat)
    (hregs : ∀ j < k, (ticks id.timer j st).hw.ValRegCMP 0 = st.hw.ValRegCMP 0) :
    (ticks id.timer k st).hw.count.toNat
        = wave (id.timer.wiring.countMode st.hw) id.width (st.hw.ValRegCMP 0).toNat k ∧
      (0 < k ∨ shownCount id.timer.wiring st = 0 →
        shownCount id.timer.wiring (ticks id.timer k st) = (ticks id.timer k st).hw.count.toNat) ∧
      ∀ j < k, overflow_called id.timer.wiring (ticks id.timer j st).hw = true ↔
        (ticks id.timer (j + 1) st).hw.count = 0 := by
  have hwave := onWave_ticks (apart id) hsched hcount hup hCC0
  have hticked : ∀ j < k, Scheduling id.timer.wiring (ticks id.timer j st).hw ∧
      Ticked id.timer.wiring (ticks id.timer j st) (ticks id.timer (j + 1) st) := by
    intro j hj
    have hsched' : Scheduling id.timer.wiring (ticks id.timer j st).hw := by
      unfold Scheduling
      rw [(hwave j fun i hi => hregs i (Nat.lt_trans hi hj)).1]
      exact hsched
    rw [ticks_succ]
    exact ⟨hsched', tick_ticked (apart id) hsched'⟩
  refine ⟨?_, ?_, ?_⟩
  · obtain ⟨hmode, hon⟩ := hwave k hregs
    rw [hon.count, hmode]
  · intro hshown
    cases k with
    | zero =>
      change shownCount _ st = st.hw.count.toNat
      rw [hcount, zero_toNat]
      exact hshown.resolve_left (Nat.lt_irrefl 0)
    | succ k => exact (hticked k (Nat.lt_succ_self k)).2.shown
  · intro j hj
    obtain ⟨hsched', hj'⟩ := hticked j hj
    rw [overflow_called_iff hsched', ← hj'.next]

/-- Timer 3 counts up and down to 2. -/
def triangleSt : CcSt 8 :=
  { stoppedSt 8 with hw := { (stoppedSt 8).hw with mode := 3, TR := 0x10, ValRegCMP := fun _ => 2 } }

/-- Two ticks up. -/
theorem waveform_timer3 : (ticks timer3 2 triangleSt).hw.count.toNat = 2 :=
  (waveform .timer3 (show Scheduling timer3.wiring triangleSt.hw from .inr (.inr rfl)) rfl rfl (by decide) 2 (by decide)).1

end CcTimer

end Ucsim.S51
