import Ucsim.S51.MacTimer

/-!
# Ticks of the MAC timer

The count goes up or down, and every tick compares it with the compare registers and the period.
-/

namespace Ucsim.S51

open Logic

namespace Reg

def bmT2IF : TMem := 0x04

end Reg

/-- What a tick does that a reader of the registers may want to count: calls of `overflow`, flags that
are set in `T2IRQF`, and `T2IRQF` set to zero. -/
inductive TickCall
  | overflow
  | flag (bits : TMem)
  | clear
  deriving DecidableEq, Repr

/-- The memory and the timer, with the calls since the tick began. -/
structure TickSt where
  mem : Site → TMem
  hw : MacTimer
  calls : List TickCall

/-- What is left of a tick when the next one begins. -/
def TickSt.st (s : TickSt) : ElementSt MacTimer := { mem := s.mem, hw := s.hw }

@[simp] theorem TickSt.st_hw (s : TickSt) : s.st.hw = s.hw := rfl

namespace MacTimer

/-- `==` of a `t_mem` with a `short`: both are made `int`s. -/
def reaches (t : MacTimer) (b : Bank) : Bool := (t.count.toNat : Int) = (t.value b).toInt

/-- A flag in `T2IRQF`, and the request of the interrupt. -/
def setFlag (bits : TMem) (s : TickSt) : TickSt :=
  let mem := Function.update s.mem (.sfr Reg.T2IRQF) (s.mem (.sfr Reg.T2IRQF) ||| bits)
  let mem := if mem (.sfr Reg.T2IRQM) &&& bits = 1 then
      Function.update mem (.sfr Reg.IRCON) (mem (.sfr Reg.IRCON) ||| Reg.bmT2IF)
    else mem
  { mem := mem, hw := { s.hw with event := true }, calls := s.calls ++ [.flag bits] }

/-- The overflow count is the one of bank `b`. -/
def ovfReaches (t : MacTimer) (b : Bank) : Bool :=
  t.OVF .count 2 = t.OVF b 2 ∧ t.OVF .count 1 = t.OVF b 1 ∧ t.OVF .count 0 = t.OVF b 0

/-- `OVF0++`, with the carries. -/
def incOVF (t : MacTimer) : MacTimer :=
  let o := t.OVF .count
  let o := Function.update o 0 (o 0 + 1)
  let o := if o 0 = 0 then
      let o := Function.update o 1 (o 1 + 1)
      if o 1 = 0 then Function.update o 2 (o 2 + 1) else o
    else o
  { t with OVF := Function.update t.OVF .count o }

/-- The overflow count starts again. -/
def resetOVF (t : MacTimer) : MacTimer :=
  { t with OVF := Function.update t.OVF .count fun _ => 0 }

/-- The overflow count is compared: the end of `overflow`. -/
def ovfCompare (s : TickSt) : TickSt :=
  let s := if s.hw.ovfReaches .per then setFlag 0x08 { s with hw := s.hw.resetOVF } else s
  let s := if s.hw.ovfReaches .cmp1 then setFlag 0x10 s else s
  if s.hw.ovfReaches .cmp2 then setFlag 0x20 s else s

/-- `overflow`. `partners` is what `inform_partners` does to memory: the command strobe processor counts
overflows in a cell of its own. -/
def overflow (partners : (Site → TMem) → Site → TMem) (s : TickSt) : TickSt :=
  let mem := partners s.mem
  let cspt := mem (.cell .xram Reg.CSPT)
  let mem := if cspt ≠ 0xFF then
      Function.update mem (.cell .xram Reg.CSPT) (cspt - 1 &&& 0xff)
    else mem
  ovfCompare { mem := mem, hw := s.hw.incOVF, calls := s.calls ++ [.overflow] }

/-- The flag that `T2EVTCFG` watches: `bm_evtcfg1` and `bm_evtcfg2` are `char`s. -/
def bmEvtcfg (evtcfg : TMem) : TMem := ((1 : BitVec 8) <<< (evtcfg &&& 0x07).toNat).signExtend 16

/-- `CountCompare`. -/
def countCompare (partners : (Site → TMem) → Site → TMem) (s : TickSt) : TickSt :=
  let s := { s with hw := { s.hw with T2_EVENT1 := false, T2_EVENT2 := false } }
  let s := if s.hw.reaches .cmp1 then setFlag 0x02 s else s
  let s := if s.hw.reaches .cmp2 then setFlag 0x04 s else s
  let s := if s.hw.reaches .per ∧ s.hw.value .per ≠ 0 then
      setFlag 0x01 (overflow partners { s with hw := s.hw.setValue .count 0 })
    else s
  if s.hw.event then
    let evtcfg := s.mem (.sfr Reg.T2EVTCFG)
    let irqf := s.mem (.sfr Reg.T2IRQF)
    { s with hw := { s.hw with
        T2_EVENT1 := irqf &&& bmEvtcfg evtcfg ≠ 0
        T2_EVENT2 := irqf &&& bmEvtcfg (evtcfg >>> 4) ≠ 0 } }
  else
    { mem := Function.update s.mem (.sfr Reg.T2IRQF) 0,
      hw := { s.hw with T2_EVENT1 := false, T2_EVENT2 := false },
      calls := s.calls ++ [.clear] }

/-- How a tick of the up mode begins: `event` is cleared and the count incremented. -/
def counted (t : MacTimer) : MacTimer := { t with event := false }.setValue .count (t.count + 1)

/-- One pass of the loop of `do_UpMode`. -/
def upTick (partners : (Site → TMem) → Site → TMem) (st : ElementSt MacTimer) : TickSt :=
  let s : TickSt := { mem := st.mem, hw := st.hw.counted, calls := [] }
  countCompare partners (if s.hw.count = 0 then overflow partners s else s)

/-- One pass of the loop of `do_DeltaMode`. -/
def deltaTick (partners : (Site → TMem) → Site → TMem) (st : ElementSt MacTimer) : TickSt :=
  let t := { st.hw with event := false }
  let t := if t.count = 0 then { t with mode := 0 } else t.setValue .count (t.count - 1)
  countCompare partners { mem := st.mem, hw := t, calls := [] }

/-- `do_UpMode`. -/
def doUpMode (partners : (Site → TMem) → Site → TMem) : Nat → ElementSt MacTimer → ElementSt MacTimer
  | 0, st => st
  | cycles + 1, st => doUpMode partners cycles (upTick partners st).st

/-! ## One tick of the up mode -/

variable {partners : (Site → TMem) → Site → TMem}

@[simp] theorem setFlag_value (bits : TMem) (s : TickSt) : (setFlag bits s).hw.value = s.hw.value := rfl

@[simp] theorem incOVF_value (t : MacTimer) : t.incOVF.value = t.value := rfl

/-- A flag that is set under a condition. -/
theorem ite_setFlag_calls (p : Bool) (bits : TMem) (s : TickSt) :
    (if p then setFlag bits s else s).calls = s.calls ++ if p then [.flag bits] else [] := by
  cases p with
  | true => rfl
  | false => exact (List.append_nil _).symm

theorem ite_setFlag_value (p : Bool) (bits : TMem) (s : TickSt) :
    (if p then setFlag bits s else s).hw.value = s.hw.value := by
  cases p <;> rfl

/-- Calls that have nothing to do with the count: those of the overflow count, the flag of the period,
and `T2IRQF` set to zero. -/
def Aside (l : List TickCall) : Prop := .overflow ∉ l ∧ .flag 0x02 ∉ l ∧ .flag 0x04 ∉ l

instance (l : List TickCall) : Decidable (Aside l) := inferInstanceAs (Decidable (_ ∧ _))

theorem Aside.append {l l' : List TickCall} (h : Aside l) (h' : Aside l') : Aside (l ++ l') := by
  refine ⟨?_, ?_, ?_⟩ <;> rw [List.mem_append, not_or]
  · exact ⟨h.1, h'.1⟩
  · exact ⟨h.2.1, h'.2.1⟩
  · exact ⟨h.2.2, h'.2.2⟩

theorem Aside.ite_flag (p : Bool) {bits : TMem} (h : Aside [.flag bits]) :
    Aside (if p then [.flag bits] else []) := by
  cases p with
  | true => exact h
  | false => exact ⟨List.not_mem_nil, List.not_mem_nil, List.not_mem_nil⟩

theorem Aside.exists_append {l m : List TickCall} (h : Aside m) : ∃ l', Aside l' ∧ l ++ m = l ++ l' :=
  ⟨m, h, rfl⟩

theorem ovfCompare_spec (s : TickSt) :
    (ovfCompare s).hw.value = s.hw.value ∧ ∃ l, Aside l ∧ (ovfCompare s).calls = s.calls ++ l := by
  rw [ovfCompare]
  generalize hs₁ : (if s.hw.ovfReaches .per then setFlag 0x08 { s with hw := s.hw.resetOVF } else s) = s₁
  have hvalue : s₁.hw.value = s.hw.value := by
    rw [← hs₁]
    split <;> rfl
  have hcalls : s₁.calls = s.calls ++ if s.hw.ovfReaches .per then [.flag 0x08] else [] := by
    rw [← hs₁]
    split
    · rfl
    · exact (List.append_nil _).symm
  constructor
  · rw [ite_setFlag_value, ite_setFlag_value, hvalue]
  · rw [ite_setFlag_calls, ite_setFlag_calls, hcalls, List.append_assoc, List.append_assoc]
    apply Aside.exists_append
    apply Aside.append
    · exact Aside.ite_flag _ (by decide)
    · apply Aside.append
      · exact Aside.ite_flag _ (by decide)
      · exact Aside.ite_flag _ (by decide)

/-- What `overflow` does to the registers and the calls. -/
theorem overflow_spec (partners : (Site → TMem) → Site → TMem) (s : TickSt) :
    (overflow partners s).hw.value = s.hw.value ∧
      ∃ l, Aside l ∧ (overflow partners s).calls = s.calls ++ .overflow :: l := by
  rw [overflow]
  generalize hs₁ : ({ mem := _, hw := s.hw.incOVF, calls := s.calls ++ [.overflow] } : TickSt) = s₁
  have hcalls₁ : s₁.calls = s.calls ++ [.overflow] := by rw [← hs₁]
  have hvalue₁ : s₁.hw.value = s.hw.value := by rw [← hs₁, incOVF_value]
  obtain ⟨hvalue, l, hl, hcalls⟩ := ovfCompare_spec s₁
  refine ⟨hvalue.trans hvalue₁, l, hl, ?_⟩
  rw [hcalls, hcalls₁, List.append_assoc, List.singleton_append]

theorem reaches_congr {t t' : MacTimer} (h : t.value = t'.value) (b : Bank) :
    t.reaches b = t'.reaches b := by
  rw [reaches, reaches, count, count, h]

/-- Has the count reached the period? -/
def periodHit (t : MacTimer) : Bool := t.reaches .per ∧ t.value .per ≠ 0

/-- What `CountCompare` does to the registers and the calls. -/
theorem countCompare_spec (partners : (Site → TMem) → Site → TMem) (s : TickSt) :
    (countCompare partners s).hw.value
        = (if s.hw.periodHit then Function.update s.hw.value .count 0 else s.hw.value) ∧
      ∃ l, Aside l ∧ (countCompare partners s).calls
        = s.calls ++ ((if s.hw.reaches .cmp1 then [.flag 0x02] else []) ++
          ((if s.hw.reaches .cmp2 then [.flag 0x04] else []) ++
            ((if s.hw.periodHit then [.overflow] else []) ++ l))) := by
  rw [countCompare]
  generalize hs₀ : ({ s with hw := { s.hw with T2_EVENT1 := false, T2_EVENT2 := false } } : TickSt) = s₀
  have hvalue₀ : s₀.hw.value = s.hw.value := by rw [← hs₀]
  have hcalls₀ : s₀.calls = s.calls := by rw [← hs₀]
  generalize hs₁ : (if s₀.hw.reaches .cmp1 then setFlag 0x02 s₀ else s₀) = s₁
  have hvalue₁ : s₁.hw.value = s.hw.value := by rw [← hs₁, ite_setFlag_value, hvalue₀]
  have hcalls₁ : s₁.calls = s.calls ++ if s.hw.reaches .cmp1 then [.flag 0x02] else [] := by
    rw [← hs₁, ite_setFlag_calls, hcalls₀, reaches_congr hvalue₀]
  dsimp only
  generalize hs₂ : (if s₁.hw.reaches .cmp2 then setFlag 0x04 s₁ else s₁) = s₂
  have hvalue₂ : s₂.hw.value = s.hw.value := by rw [← hs₂, ite_setFlag_value, hvalue₁]
  have hcalls₂ : s₂.calls = s₁.calls ++ if s.hw.reaches .cmp2 then [.flag 0x04] else [] := by
    rw [← hs₂, ite_setFlag_calls, reaches_congr hvalue₁]
  -- The period resets the count after the comparisons.
  have hhit : (s₂.hw.reaches .per ∧ s₂.hw.value .per ≠ 0) ↔ s.hw.periodHit = true := by
    rw [reaches_congr hvalue₂, hvalue₂, periodHit, decide_eq_true_iff]
  generalize hs₃ : (if s₂.hw.reaches .per ∧ s₂.hw.value .per ≠ 0 then
    setFlag 0x01 (overflow partners { s₂ with hw := s₂.hw.setValue .count 0 }) else s₂) = s₃
  obtain ⟨hvalue₃, l, hl, hcalls₃⟩ : s₃.hw.value
        = (if s.hw.periodHit then Function.update s.hw.value .count 0 else s.hw.value) ∧
      ∃ l, Aside l ∧ s₃.calls = s₂.calls ++ ((if s.hw.periodHit then [.overflow] else []) ++ l) := by
    rw [← hs₃]
    by_cases h : s.hw.periodHit = true
    · obtain ⟨hvalue, l, hl, hcalls⟩ :=
        overflow_spec partners { s₂ with hw := s₂.hw.setValue .count 0 }
      rw [if_pos (hhit.mpr h), if_pos h, if_pos h, setFlag_value, hvalue]
      refine ⟨by rw [setValue_value, hvalue₂], l ++ [.flag 0x01], hl.append (by decide), ?_⟩
      rw [setFlag, hcalls, List.append_assoc]
      rfl
    · rw [if_neg (mt hhit.mp h), if_neg h, if_neg h]
      exact ⟨hvalue₂, [], by decide, (List.append_nil _).symm⟩
  rw [hcalls₂, hcalls₁] at hcalls₃
  by_cases hevent : s₃.hw.event = true
  · rw [if_pos hevent]
    refine ⟨hvalue₃, l, hl, hcalls₃.trans ?_⟩
    simp only [List.append_assoc]
  · rw [if_neg hevent]
    refine ⟨hvalue₃, l ++ [.clear], hl.append (by decide), ?_⟩
    dsimp only
    rw [hcalls₃]
    simp only [List.append_assoc]

/-- What a tick does: the count is incremented, compared, and set to zero when it has reached the
period. -/
theorem upTick_spec (st : ElementSt MacTimer) :
    (upTick partners st).hw.value
        = (if st.hw.counted.periodHit then Function.update st.hw.counted.value .count 0
          else st.hw.counted.value) ∧
      (.flag 0x02 ∈ (upTick partners st).calls ↔ st.hw.counted.reaches .cmp1) ∧
      (.flag 0x04 ∈ (upTick partners st).calls ↔ st.hw.counted.reaches .cmp2) ∧
      (upTick partners st).calls.count .overflow
        = (if st.hw.counted.count = 0 then 1 else 0) + if st.hw.counted.periodHit then 1 else 0 := by
  obtain ⟨s, hvalue, l, hl, hcalls, hup⟩ : ∃ s : TickSt, s.hw.value = st.hw.counted.value ∧
      ∃ l, Aside l ∧ s.calls = (if st.hw.counted.count = 0 then [.overflow] else []) ++ l ∧
        upTick partners st = countCompare partners s := by
    rw [upTick]
    dsimp only
    split
    · obtain ⟨hvalue, l, hl, hcalls⟩ := overflow_spec partners
        { mem := st.mem, hw := st.hw.counted, calls := [] }
      exact ⟨_, hvalue, l, hl, hcalls, rfl⟩
    · exact ⟨_, rfl, [], by decide, rfl, rfl⟩
  obtain ⟨hvalue', l', hl', hcalls'⟩ := countCompare_spec partners s
  have hper : s.hw.periodHit = st.hw.counted.periodHit := by
    rw [periodHit, periodHit, reaches_congr hvalue, hvalue]
  rw [hper, reaches_congr hvalue, reaches_congr hvalue, hcalls] at hcalls'
  rw [hup, hvalue', hcalls', hper, hvalue]
  refine ⟨rfl, ?_, ?_, ?_⟩
  · have hne : ((0x02 : TMem) = 0x04) = False := eq_false (by decide)
    simp only [List.mem_append, List.mem_ite_nil_right, List.mem_singleton, TickCall.flag.injEq,
      reduceCtorEq, hl.2.1, hl'.2.1, hne, and_false, and_true, or_false, false_or]
  · have hne : ((0x04 : TMem) = 0x02) = False := eq_false (by decide)
    simp only [List.mem_append, List.mem_ite_nil_right, List.mem_singleton, TickCall.flag.injEq,
      reduceCtorEq, hl.2.2, hl'.2.2, hne, and_false, and_true, or_false, false_or]
  · have hflag : ∀ (p : Bool) (bits : TMem),
        List.count .overflow (if p then [TickCall.flag bits] else []) = 0 := by
      intro p bits
      cases p <;> rfl
    have hzero := List.count_eq_zero.mpr hl.1
    have hzero' := List.count_eq_zero.mpr hl'.1
    rw [List.count_append, List.count_append, List.count_append, List.count_append, List.count_append,
      hflag, hflag, hzero, hzero']
    split <;> split <;> rfl

/-! ## The events of a tick -/

/-- `==` of a `t_mem` with a `short`: the halves of the range differ. -/
theorem reaches_iff (t : MacTimer) (b : Bank) :
    t.reaches b ↔ t.count = t.value b ∧ (t.value b).toNat < 0x8000 := by
  rw [reaches, decide_eq_true_iff, ← BitVec.toNat_inj, BitVec.toInt_eq_toNat_cond]
  have := (t.value b).isLt
  have := t.count.isLt
  split <;> omega

theorem counted_value {t : MacTimer} {b : Bank} (hb : b ≠ .count) : t.counted.value b = t.value b :=
  Function.update_of_ne hb _ _

theorem counted_count (t : MacTimer) : t.counted.count = t.count + 1 := by
  rw [count, counted, setValue_value, Function.update_self]

/-- Does the next tick reach the period? -/
def HitsPeriod (t : MacTimer) : Prop :=
  t.count + 1 = t.value .per ∧ (t.value .per).toNat < 0x8000 ∧ t.value .per ≠ 0

instance (t : MacTimer) : Decidable t.HitsPeriod := inferInstanceAs (Decidable (_ ∧ _))

theorem periodHit_counted (t : MacTimer) : t.counted.periodHit ↔ t.HitsPeriod := by
  rw [periodHit, decide_eq_true_iff, reaches_iff, counted_count, counted_value (by decide), HitsPeriod,
    and_assoc]

/-- The count after a tick. -/
theorem upTick_count (st : ElementSt MacTimer) :
    (upTick partners st).hw.count = if st.hw.HitsPeriod then 0 else st.hw.count + 1 := by
  rw [count, (upTick_spec st).1]
  by_cases h : st.hw.HitsPeriod
  · rw [if_pos ((periodHit_counted _).mpr h), if_pos h, Function.update_self]
  · rw [if_neg (mt (periodHit_counted _).mp h), if_neg h]
    exact counted_count st.hw

/-- A tick leaves the other registers alone. -/
theorem upTick_value (st : ElementSt MacTimer) {b : Bank} (hb : b ≠ .count) :
    (upTick partners st).hw.value b = st.hw.value b := by
  rw [(upTick_spec st).1]
  split
  · rw [Function.update_of_ne hb, counted_value hb]
  · exact counted_value hb

/-- The flag of a compare register. -/
inductive CompareFlag : Bank → TMem → Prop
  | cmp1 : CompareFlag .cmp1 0x02
  | cmp2 : CompareFlag .cmp2 0x04

theorem CompareFlag.ne_count {b : Bank} {bits : TMem} (h : CompareFlag b bits) : b ≠ .count := by
  cases h <;> decide

theorem flag_mem_upTick {b : Bank} {bits : TMem} (h : CompareFlag b bits) (st : ElementSt MacTimer) :
    .flag bits ∈ (upTick partners st).calls ↔
      st.hw.count + 1 = st.hw.value b ∧ (st.hw.value b).toNat < 0x8000 := by
  rw [← counted_value h.ne_count, ← counted_count, ← reaches_iff]
  cases h with
  | cmp1 => exact (upTick_spec st).2.1
  | cmp2 => exact (upTick_spec st).2.2.1

/-- The event of a compare register is flagged when the count has become equal to it. -/
def FlagExact (partners : (Site → TMem) → Site → TMem) (b : Bank) (bits : TMem)
    (st : ElementSt MacTimer) : Prop :=
  .flag bits ∈ (upTick partners st).calls ↔ (upTick partners st).hw.count = st.hw.value b

/-- The condition on a tick: at the end of a period the compare register is neither the period nor
zero, and otherwise it is below `0x8000` when the count becomes equal to it. -/
def FlagCond (b : Bank) (t : MacTimer) : Prop :=
  if t.HitsPeriod then t.value b ≠ 0 ∧ t.value b ≠ t.value .per
  else t.count + 1 = t.value b → (t.value b).toNat < 0x8000

/-- The flag of one tick. -/
theorem flagExact_iff {b : Bank} {bits : TMem} (h : CompareFlag b bits) (st : ElementSt MacTimer) :
    FlagExact partners b bits st ↔ FlagCond b st.hw := by
  rw [FlagExact, flag_mem_upTick h, upTick_count, FlagCond]
  by_cases hp : st.hw.HitsPeriod
  · rw [if_pos hp, if_pos hp, hp.1]
    constructor
    · intro hiff
      have hzero : st.hw.value b ≠ 0 := by
        intro hb
        have hper := (hiff.mpr hb.symm).1
        exact hp.2.2 (hper.trans hb)
      exact ⟨hzero, fun hb => hzero (hiff.mp ⟨hb.symm, by rw [hb]; exact hp.2.1⟩).symm⟩
    · rintro ⟨hzero, hper⟩
      exact iff_of_false (fun h => hper h.1.symm) fun h => hzero h.symm
  · rw [if_neg hp, if_neg hp]
    exact and_iff_left_iff_imp

/-! ## Runs of the up mode -/

theorem doUpMode_succ (n : Nat) (st : ElementSt MacTimer) :
    doUpMode partners (n + 1) st = (upTick partners (doUpMode partners n st)).st := by
  induction n generalizing st with
  | zero => rfl
  | succ n ih =>
    rw [doUpMode, ih]
    rfl

theorem doUpMode_value (n : Nat) (st : ElementSt MacTimer) {b : Bank} (hb : b ≠ .count) :
    (doUpMode partners n st).hw.value b = st.hw.value b := by
  induction n with
  | zero => rfl
  | succ n ih =>
    rw [doUpMode_succ, TickSt.st_hw, upTick_value _ hb, ih]

/-- A tick from `st` ends a period: the count is zero, and `overflow` has been called, when `k + 1` is a
multiple of `P`. -/
def PeriodExact (partners : (Site → TMem) → Site → TMem) (P k : Nat) (st : ElementSt MacTimer) : Prop :=
  ((upTick partners st).hw.count = 0 ↔ P ∣ k + 1) ∧
    (upTick partners st).calls.count .overflow = if P ∣ k + 1 then 1 else 0

/-- The calls of `overflow` in a tick: the count has wrapped around, or has reached the period. -/
theorem count_overflow (st : ElementSt MacTimer) :
    (upTick partners st).calls.count .overflow = if (upTick partners st).hw.count = 0 then 1 else 0 := by
  rw [(upTick_spec st).2.2.2, upTick_count, counted_count]
  by_cases hp : st.hw.HitsPeriod
  · rw [if_pos hp, if_pos ((periodHit_counted _).mpr hp), if_pos rfl, if_neg]
    rw [hp.1]
    exact hp.2.2
  · rw [if_neg hp, if_neg (mt (periodHit_counted _).mp hp)]
    rfl

/-- Counting modulo `P`. -/
theorem succ_mod (n : Nat) {P : Nat} (hP : 0 < P) :
    (n + 1) % P = if n % P + 1 = P then 0 else n % P + 1 := by
  have hlt := Nat.mod_lt n hP
  have hsum : n + 1 = P * (n / P) + (n % P + 1) := by
    rw [← Nat.add_assoc, Nat.div_add_mod]
  split
  · next h => rw [hsum, h, ← Nat.mul_succ, Nat.mul_mod_right]
  · next h =>
    conv_lhs => rw [hsum, Nat.mul_add_mod, Nat.mod_eq_of_lt (by omega)]

/-- With a period below `0x8000` the count is the number of ticks modulo the period. -/
theorem doUpMode_count_mod {st : ElementSt MacTimer} (hzero : st.hw.count = 0)
    (hpos : st.hw.value .per ≠ 0) (hper : (st.hw.value .per).toNat < 0x8000) (n : Nat) :
    (doUpMode partners n st).hw.count.toNat = n % (st.hw.value .per).toNat := by
  have hP : 0 < (st.hw.value .per).toNat := by
    rw [Nat.pos_iff_ne_zero]
    exact fun h => hpos (BitVec.toNat_inj.mp h)
  induction n with
  | zero => rw [doUpMode, hzero]; rfl
  | succ n ih =>
    rw [doUpMode_succ, TickSt.st_hw]
    have hlt := Nat.mod_lt n hP
    have hsucc : ((doUpMode partners n st).hw.count + 1).toNat = n % (st.hw.value .per).toNat + 1 := by
      rw [BitVec.toNat_add, ih, show BitVec.toNat (1 : BitVec 16) = 1 from rfl]
      exact Nat.mod_eq_of_lt (by omega)
    have hhits : (doUpMode partners n st).hw.HitsPeriod ↔
        n % (st.hw.value .per).toNat + 1 = (st.hw.value .per).toNat := by
      unfold HitsPeriod
      rw [doUpMode_value n st (by decide), ← BitVec.toNat_inj, hsucc]
      exact and_iff_left ⟨hper, hpos⟩
    rw [upTick_count, succ_mod n hP]
    by_cases h : n % (st.hw.value .per).toNat + 1 = (st.hw.value .per).toNat
    · rw [if_pos (hhits.mpr h), if_pos h]
      rfl
    · rw [if_neg (mt hhits.mp h), if_neg h, hsucc]

/-- With a period from `0x8000` on nothing ever resets the count. -/
theorem doUpMode_count_wrap {st : ElementSt MacTimer} (hzero : st.hw.count = 0)
    (hper : ¬ (st.hw.value .per).toNat < 0x8000) (n : Nat) :
    (doUpMode partners n st).hw.count = BitVec.ofNat 16 n := by
  induction n with
  | zero => exact hzero
  | succ n ih =>
    have hhits : ¬ (doUpMode partners n st).hw.HitsPeriod := by
      unfold HitsPeriod
      rw [doUpMode_value n st (by decide)]
      exact fun h => hper h.2.1
    rw [doUpMode_succ, TickSt.st_hw, upTick_count, if_neg hhits, ih, BitVec.ofNat_add]
    rfl

/-- The period of a run from a count of zero is right as long as the period is below `0x8000` or has
not been reached. -/
theorem periodExact_iff {st : ElementSt MacTimer} (hzero : st.hw.count = 0)
    (hpos : st.hw.value .per ≠ 0) (n : Nat) :
    (∀ k < n, PeriodExact partners (st.hw.value .per).toNat k (doUpMode partners k st)) ↔
      ((st.hw.value .per).toNat < 0x8000 ∨ n < (st.hw.value .per).toNat) := by
  have hexact : ∀ k P, PeriodExact partners P k (doUpMode partners k st) ↔
      ((doUpMode partners (k + 1) st).hw.count = 0 ↔ P ∣ k + 1) := by
    intro k P
    rw [PeriodExact, count_overflow, doUpMode_succ, TickSt.st_hw]
    refine and_iff_left_of_imp fun h => ?_
    rw [if_congr h rfl rfl]
  have hP : 0 < (st.hw.value .per).toNat := by
    rw [Nat.pos_iff_ne_zero]
    exact fun h => hpos (BitVec.toNat_inj.mp h)
  by_cases hper : (st.hw.value .per).toNat < 0x8000
  · refine iff_of_true (fun k _ => (hexact k _).mpr ?_) (Or.inl hper)
    rw [← BitVec.toNat_inj, doUpMode_count_mod hzero hpos hper, Nat.dvd_iff_mod_eq_zero]
    rfl
  · rw [or_iff_right hper]
    have hlt := (st.hw.value .per).isLt
    constructor
    · intro h
      by_contra hn
      -- The tick that reaches the period leaves the count there.
      have hlast := (hexact _ _).mp (h ((st.hw.value .per).toNat - 1) (by omega))
      rw [Nat.sub_add_cancel hP, doUpMode_count_wrap hzero hper, BitVec.ofNat_toNat,
        BitVec.setWidth_eq] at hlast
      exact hpos (hlast.mpr (Nat.dvd_refl _))
    · intro hn k hk
      refine (hexact k _).mpr (iff_of_false ?_ (Nat.not_dvd_of_pos_of_lt (by omega) (by omega)))
      rw [doUpMode_count_wrap hzero hper, ← BitVec.toNat_inj, BitVec.toNat_ofNat,
        Nat.mod_eq_of_lt (by omega)]
      exact Nat.succ_ne_zero k

/-- In the up mode the compare events are flagged at the ticks that make the count equal to the compare
registers, and with a period the count, from zero, returns to zero with a call of `overflow` at every
multiple of the period, when every tick meets the condition on the compare registers and the period is
below `0x8000` or not reached, and only then. -/
theorem upModeEvents_iff (st : ElementSt MacTimer) (n : Nat) :
    ((∀ k < n, FlagExact partners .cmp1 0x02 (doUpMode partners k st) ∧
          FlagExact partners .cmp2 0x04 (doUpMode partners k st)) ∧
        (st.hw.value .per ≠ 0 → st.hw.count = 0 →
          ∀ k < n, PeriodExact partners (st.hw.value .per).toNat k (doUpMode partners k st))) ↔
      (∀ k < n, FlagCond .cmp1 (doUpMode partners k st).hw ∧ FlagCond .cmp2 (doUpMode partners k st).hw) ∧
        (st.hw.value .per ≠ 0 → st.hw.count = 0 →
          (st.hw.value .per).toNat < 0x8000 ∨ n < (st.hw.value .per).toNat) := by
  refine and_congr ?_ ?_
  · refine forall₂_congr fun k _ => ?_
    rw [flagExact_iff .cmp1, flagExact_iff .cmp2]
  · exact forall₂_congr fun hpos hzero => periodExact_iff hzero hpos n

/-- The count reaches a compare register of `0x8000` without an event. -/
theorem not_upModeEvents :
    ¬ ∀ (partners : (Site → TMem) → Site → TMem) (st : ElementSt MacTimer),
      FlagExact partners .cmp1 0x02 st := by
  intro h
  have hcond := (flagExact_iff .cmp1 _).mp (h id
    { mem := fun _ => 0, hw := (reset.setValue .count 0x7fff).setValue .cmp1 0x8000 })
  revert hcond
  unfold FlagCond
  decide

end MacTimer

end Ucsim.S51
