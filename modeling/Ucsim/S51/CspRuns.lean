import Mathlib.Tactic.IntervalCases
import Ucsim.Logic.Run
import Ucsim.S51.CspFlow

/-!
# The program counter of the strobe processor

A program runs between strobes, events of the MAC timer and writes of its registers. Its counter stays in
the program as long as no jump leads behind the wrap at 24.
-/

namespace Ucsim.S51

open Logic

namespace Csp

/-! ## One step -/

/-- `SKIP` and `RPT`. -/
def Jumps (code : TMem) : Prop := code &&& 0x80 = 0 ∨ code &&& 0xF0 = 0xA0

instance : DecidablePred Jumps := fun _ => inferInstanceAs (Decidable (_ ∨ _))

/-- Where the wrap at 24 lets a step land. -/
def landing (pc : Int) : Int := if pc = 24 then 0 else pc

theorem wrapPC_fields (st : CspSt) :
    (wrapPC st).hw.PC = landing st.hw.PC ∧ (wrapPC st).hw.label = st.hw.label := by
  unfold wrapPC landing
  split
  · exact ⟨rfl, rfl⟩
  · exact ⟨rfl, rfl⟩

theorem endsAt_jump (inp : Input) {code : TMem} (h : Jumps code) :
    EndsAt (body inp code) fun st => if holds false inp code st then jumpTo code st else st.hw.PC + 1 := by
  unfold body
  by_cases hskip : code &&& 0x80 = 0
  · rw [if_pos hskip]
    exact endsAt_skipCS inp hskip
  · have hrepeat := h.resolve_left hskip
    have hwait : code &&& 0xE0 ≠ 0x80 := by
      rw [and_of_and (k := 0xE0) (by decide) hrepeat]
      decide
    rw [if_neg hskip, if_neg hwait, if_pos hrepeat]
    exact endsAt_repeatC inp hskip

/-- The other instructions do not jump. -/
theorem steady_body (inp : Input) {code : TMem} (h : ¬ Jumps code) : Steady (body inp code) := by
  have hnone : Steady fun st => .ok st := steady_of_stays fun st => ⟨st, rfl, rfl, rfl⟩
  have hskip : ¬ code &&& 0x80 = 0 := fun hskip => h (.inl hskip)
  have hrepeat : ¬ code &&& 0xF0 = 0xA0 := fun hrepeat => h (.inr hrepeat)
  unfold body
  rw [if_neg hskip, if_neg hrepeat]
  split_ifs
  · exact steady_of_ite (p := fun st => waitsW code st.hw = true) (endsAt_waitw code)
  · exact steady_of_advances (advances_inc_maxy code)
  · exact switch_cases steady_strobes hnone _
  · exact switch_cases steady_immediateStrobes hnone _
  · exact switch_cases (steady_others inp) hnone _

/-- A jump of the program leads to one of its bytes, or to the place behind the last one. -/
def Lands (inp : Input) (code : TMem) (st : CspSt) : Prop :=
  Jumps code → holds false inp code st = true → 0 ≤ jumpTo code st ∧ jumpTo code st ≤ 24

/-- An instruction keeps the counter in the program exactly if it lands there. -/
theorem exec_inst_inRange {inp : Input} {code : TMem} {st st' : CspSt} (h : InRange 24 st.hw.PC)
    (hrun : exec_inst inp code st = .ok st') : InRange 24 st'.hw.PC ↔ Lands inp code st := by
  rw [exec_inst_eq] at hrun
  obtain ⟨st₁, h₁, hst'⟩ := bind_eq_ok.mp hrun
  have hPC : st'.hw.PC = landing st₁.hw.PC := by
    cases hst'
    exact (wrapPC_fields st₁).1
  rw [hPC]
  unfold landing
  by_cases hjump : Jumps code
  · obtain ⟨st₂, h₂, hPC₂, -⟩ := endsAt_jump inp hjump st
    obtain rfl : st₁ = st₂ := Except.ok.inj (h₁.symm.trans h₂)
    dsimp only [InRange] at h hPC₂ ⊢
    by_cases hb : holds false inp code st = true
    · have hlands : Lands inp code st ↔ 0 ≤ jumpTo code st ∧ jumpTo code st ≤ 24 :=
        ⟨fun hl => hl hjump hb, fun hl _ _ => hl⟩
      rw [if_pos hb] at hPC₂
      rw [hPC₂, hlands]
      split <;> omega
    · rw [if_neg hb] at hPC₂
      rw [hPC₂]
      refine iff_of_true ?_ fun _ hb' => absurd hb' hb
      split <;> omega
  · have hnear := (steady_body inp hjump st st₁ h₁).PC
    refine iff_of_true ?_ fun hcode => absurd hcode hjump
    dsimp only [InRange] at h ⊢
    split <;> omega

/-! ## Runs -/

/-- What can happen to the CSP: ticks, writes to `RFST`, events, writes of cells by the processor and other
hardware, and what the radio tells it. -/
inductive Label
  | tick (inp : Input)
  | strobe (inp : Input) (v : TMem)
  | happen (he : TimerEvent)
  | set (c : Site) (v : TMem)
  | signal (CCA SFD : Int) (RSSI_valid CPU_ctrl radioAnswer : Bool)

/-- One step. -/
def step : Label → CspSt → Except CspFault CspSt
  | .tick inp, st => CSP_tick inp st
  | .strobe inp v, st => writeRfst inp v st
  | .happen he, st => happen he st
  | .set c v, st => .ok (store c v st)
  | .signal CCA SFD RSSI_valid CPU_ctrl radioAnswer, st => .ok (update (fun p => { p with
      CCA := CCA, SFD := SFD, RSSI_valid := RSSI_valid, CPU_ctrl := CPU_ctrl, radioAnswer := radioAnswer }) st)

/-- The runs from a reset. -/
def system : System Label CspSt where
  init st := ∃ st₀, reset st₀ = .ok st
  step a st st' := step a st = .ok st'

/-- The instruction that a tick fetches lands in the program. -/
def Meets : Label → CspSt → Prop
  | .tick inp, st => ∀ st₁, updateStatus st = .ok st₁ → st₁.hw.csp_stop = false →
      ∀ code, xramRead (Reg.CSPPROG0 + st₁.hw.PC) st₁ = .ok code → Lands inp code st₁
  | _, _ => True

/-- The program counter is in the program: codes are fetched from there, and `CSPSTAT` shows it below the
upper three bits. -/
structure PcCorrect (st : CspSt) : Prop where
  range : InRange 24 st.hw.PC
  fetch : xramRead (Reg.CSPPROG0 + st.hw.PC) st = .ok (st.mem (.cell .xram (Reg.CSPPROG0 + st.hw.PC)))
  status : ∀ v : TMem, ((v &&& 0xE0) + BitVec.ofInt 16 st.hw.PC) &&& 0xE0 = v &&& 0xE0

theorem updateStatus_run (st : CspSt) :
    ∃ st', updateStatus st = .ok st' ∧ st'.hw.PC = st.hw.PC ∧ st'.hw.label = st.hw.label := by
  unfold updateStatus
  by_cases hT : (store (.cell .xram Reg.CSPSTAT)
      ((st.mem (.cell .xram Reg.CSPSTAT) &&& 0xE0) + BitVec.ofInt 16 st.hw.PC) st).mem (.cell .xram Reg.CSPT) = 0
  · obtain ⟨st', h', hhw⟩ := stop_run (store (.cell .xram Reg.CSPSTAT)
      ((st.mem (.cell .xram Reg.CSPSTAT) &&& 0xE0) + BitVec.ofInt 16 st.hw.PC) st)
    exact ⟨st', (if_pos hT).trans h', (congrArg Csp.PC hhw :), (congrArg Csp.label hhw :)⟩
  · exact ⟨_, if_neg hT, rfl, rfl⟩

/-- The program is in memory that has no other uses. -/
theorem xramRead_program {pc : Int} (h : InRange 24 pc) (st : CspSt) :
    xramRead (Reg.CSPPROG0 + pc) st = .ok (st.mem (.cell .xram (Reg.CSPPROG0 + pc))) := by
  have hstart : Space.xram.startAddress = 0 := rfl
  have hsize : Space.xram.size = 0x10000 := rfl
  dsimp only [InRange] at h
  have hvalid : ¬ Space.xram.invalid (Reg.CSPPROG0 + pc) := by
    unfold Space.invalid Reg.CSPPROG0
    omega
  unfold xramRead xramByte
  rw [if_neg hvalid]
  unfold Reg.CSPPROG0
  rw [if_neg (by omega), if_neg (by omega), if_neg (by omega)]

theorem program_bits {pc : Int} (h : InRange 24 pc) : BitVec.ofInt 16 pc &&& 0xE0 = 0 := by
  obtain ⟨n, rfl⟩ := Int.eq_ofNat_of_zero_le h.1
  have hn : n < 24 := by have := h.2; omega
  interval_cases n <;> rfl

theorem status_bits {pc : Int} (h : InRange 24 pc) (v : TMem) :
    ((v &&& 0xE0) + BitVec.ofInt 16 pc) &&& 0xE0 = v &&& 0xE0 := by
  have hpc := program_bits h
  have hdisjoint : (v &&& 0xE0) &&& BitVec.ofInt 16 pc = 0 := by
    rw [BitVec.and_assoc, BitVec.and_comm 0xE0, hpc]
    exact BitVec.and_zero
  rw [BitVec.add_eq_or_of_and_eq_zero _ _ hdisjoint, BitVec.and_or_distrib_right, hpc, BitVec.and_assoc,
    BitVec.and_self]
  exact BitVec.or_zero

theorem pcCorrect_of_inRange {st : CspSt} (h : InRange 24 st.hw.PC) : PcCorrect st where
  range := h
  fetch := xramRead_program h st
  status := status_bits h

theorem initial_inRange {st : CspSt} (h : system.init st) : InRange 24 st.hw.PC := by
  obtain ⟨st₀, h₀⟩ := h
  cases h₀
  rw [fillSnop_hw]
  have hzero : InRange 24 0 := ⟨by omega, by omega⟩
  exact hzero

/-- A tick keeps the counter in the program. -/
theorem tick_inRange {inp : Input} {st st' : CspSt} (h : InRange 24 st.hw.PC) (hC : Meets (.tick inp) st)
    (hrun : CSP_tick inp st = .ok st') : InRange 24 st'.hw.PC := by
  obtain ⟨st₁, h₁, hPC, -⟩ := updateStatus_run st
  obtain ⟨st₂, h₂, hexec⟩ := bind_eq_ok.mp hrun
  obtain rfl : st₁ = st₂ := Except.ok.inj (h₁.symm.trans h₂)
  rw [← hPC] at h
  by_cases hstop : st₁.hw.csp_stop = false
  · rw [if_pos hstop] at hexec
    obtain ⟨code, hcode, hexec⟩ := bind_eq_ok.mp hexec
    exact (exec_inst_inRange h hexec).mpr (hC st₁ h₁ hstop code hcode)
  · rw [if_neg hstop] at hexec
    cases hexec
    exact h

/-- Immediate strobes are no jumps. -/
theorem not_jumps_immediate {v : TMem} (h : v &&& 0xF0 = 0xE0) : ¬ Jumps v := by
  have hskip : v &&& 0x80 ≠ 0 := by
    rw [and_of_and (k := 0x80) (by decide) h]
    decide
  rintro (hv | hv)
  · exact hskip hv
  · rw [h] at hv
    exact absurd hv (by decide)

/-- A write to `RFST` keeps the counter in the program. -/
theorem writeRfst_inRange {inp : Input} {v : TMem} {st st' : CspSt} (h : InRange 24 st.hw.PC)
    (hrun : writeRfst inp v st = .ok st') : InRange 24 st'.hw.PC := by
  obtain ⟨st₁, h₁, hrun⟩ := bind_eq_ok.mp hrun
  obtain ⟨st₂, h₂, hrun⟩ := bind_eq_ok.mp hrun
  obtain ⟨st₃, h₃, hrun⟩ := bind_eq_ok.mp hrun
  have hPC₁ : st₁.hw.PC = st.hw.PC := by
    unfold onMatch at h₁
    split at h₁ <;> cases h₁ <;> rfl
  have hPC₂ : st₂.hw.PC = st₁.hw.PC := by
    unfold onMatch at h₂
    split at h₂ <;> cases h₂ <;> rfl
  have hin₃ : InRange 24 st₃.hw.PC := by
    unfold onMatch at h₃
    split at h₃
    · obtain ⟨st₄, h₄, hPC, -⟩ := endsAt_isclear st₂
      obtain rfl : st₃ = st₄ := Except.ok.inj (h₃.symm.trans h₄)
      rw [hPC]
      have hzero : InRange 24 0 := ⟨by omega, by omega⟩
      exact hzero
    · cases h₃
      rw [hPC₂, hPC₁]
      exact h
  split at hrun
  · next himm =>
    exact (exec_inst_inRange hin₃ hrun).mpr fun hjump => absurd hjump (not_jumps_immediate himm)
  · unfold storeProgram at hrun
    dsimp only at hrun
    split at hrun
    · cases hrun
      exact hin₃
    · cases hrun

/-- Events leave the counter alone. -/
theorem happen_PC {he : TimerEvent} {st st' : CspSt} (hrun : happen he st = .ok st') :
    st'.hw.PC = st.hw.PC := by
  cases he with
  | EV_OVERFLOW =>
    obtain ⟨st₁, h₁, hrest⟩ := bind_eq_ok.mp hrun
    have hPC : st₁.hw.PC = st.hw.PC := by
      split at h₁ <;> cases h₁ <;> rfl
    cases hrest
    rw [← hPC]
    split <;> rfl
  | EV_T2_EVENT1 =>
    cases hrun
    rfl
  | EV_T2_EVENT2 =>
    cases hrun
    rfl

/-- In a run whose jumps land in the program the counter never leaves it. -/
theorem pc_in_program {st : CspSt} (h : (system.guard Meets).Reachable st) : PcCorrect st := by
  refine pcCorrect_of_inRange (h.guard_invariant (I := fun st => InRange 24 st.hw.PC)
    (fun _ => initial_inRange) fun a s t _ hs hC hst => ?_)
  cases a with
  | tick inp => exact tick_inRange hs hC hst
  | strobe inp v => exact writeRfst_inRange hs hst
  | happen he => rwa [happen_PC hst]
  | set c v =>
    cases hst
    exact hs
  | signal CCA SFD RSSI_valid CPU_ctrl radioAnswer =>
    cases hst
    exact hs

/-! ## Two programs -/

/-- A CSP as it may be constructed: nothing is set. -/
def blank : Csp where
  waitingForAnswer := false
  WaitingForOvfs := false
  WaitingForWOvfs := false
  waitWend := true
  OVFcountdown := 0
  event1 := false
  WaitingForEvent1 := false
  event2 := false
  WaitingForEvent2 := false
  csp_stop := false
  RxEnableWhenTxComplete := false
  PC := 0
  PCwrite := 0
  label := 0
  CCA := 0
  SFD := 0
  STXON := false
  SRXON := false
  SRFOFF := false
  SFLUSHRX := false
  SFLUSHTX := false
  RSSI_valid := false
  CPU_ctrl := false
  pendingBit := false
  radioAnswer := false
  informed := []

/-- Steps one after the other from a reset, as long as each of them passes a check. -/
def runFrom (ok : Label → CspSt → Bool) (l : List Label) : Option CspSt :=
  (reset { mem := fun _ => 0, hw := blank }).toOption.bind
    (System.checkedRun (fun a st => (step a st).toOption) ok l)

theorem toOption_eq_some {ε α : Type} {x : Except ε α} {a : α} (h : x.toOption = some a) : x = .ok a := by
  cases x with
  | error e => cases h
  | ok b => exact congrArg Except.ok (Option.some.inj h)

theorem reachable_runFrom {ok : Label → CspSt → Bool} {C : Label → CspSt → Prop}
    (hok : ∀ a st, ok a st = true → C a st) {l : List Label} {st : CspSt} (hrun : runFrom ok l = some st) :
    (system.guard C).Reachable st := by
  obtain ⟨st₀, h₀, hrun⟩ := Option.bind_eq_some_iff.mp hrun
  have hinit : (system.guard C).init st₀ := ⟨_, toOption_eq_some h₀⟩
  exact System.Reachable.checkedRun (fun a s t h => toOption_eq_some h) hok (.init hinit) hrun

/-- Program bytes are written to memory. -/
def program (bytes : List (Int × TMem)) : List Label :=
  bytes.map fun p => .set (.cell .xram (Reg.CSPPROG0 + p.1)) p.2

/-- A tick without random numbers. -/
def plainTick : Label := .tick { rand := 0, undef := false }

instance (inp : Input) (code : TMem) : DecidablePred (Lands inp code) := fun _ =>
  inferInstanceAs (Decidable (_ → _ → _ ∧ _))

/-- A check of `Meets`. -/
def landsCheck : Label → CspSt → Bool
  | .tick inp, st => (updateStatus st).toOption.all fun st₁ =>
      (xramRead (Reg.CSPPROG0 + st₁.hw.PC) st₁).toOption.all fun code => decide (Lands inp code st₁)
  | _, _ => true

theorem meets_of_landsCheck (a : Label) (st : CspSt) (h : landsCheck a st = true) : Meets a st := by
  cases a with
  | tick inp =>
    intro st₁ h₁ hstop code hcode
    change (updateStatus st).toOption.all _ = true at h
    rw [h₁] at h
    change (xramRead (Reg.CSPPROG0 + st₁.hw.PC) st₁).toOption.all _ = true at h
    rw [hcode] at h
    exact of_decide_eq_true h
  | strobe | happen | set | signal => trivial

/-- A skip of seven instructions at the start leads to the ninth one. -/
theorem pc_in_program_firstSkip : ∃ st : CspSt, st.hw.PC = 8 ∧ PcCorrect st := by
  have hPC : (runFrom landsCheck (program [(0, 0x78)] ++ [plainTick])).map (fun st => st.hw.PC) = some 8 := by
    decide +kernel
  obtain ⟨st, hrun, hst⟩ := Option.map_eq_some_iff.mp hPC
  exact ⟨st, hst, pc_in_program (reachable_runFrom meets_of_landsCheck hrun)⟩

/-- After skips from the second instruction on the counter is at 25. -/
theorem skips_leave_program : ¬ ∀ st : CspSt, system.Reachable st → PcCorrect st := by
  intro h
  have hPC : (runFrom (fun _ _ => true) (program [(1, 0x78), (9, 0x78), (17, 0x78)] ++
      [plainTick, plainTick, plainTick, plainTick])).map (fun st => st.hw.PC) = some 25 := by decide +kernel
  obtain ⟨st, hrun, hst⟩ := Option.map_eq_some_iff.mp hPC
  have hreach := reachable_runFrom (C := fun _ _ => True) (fun _ _ _ => trivial) hrun
  have hrange := (h st hreach.of_guard).range
  rw [hst] at hrange
  exact absurd hrange.2 (by decide)

end Csp

end Ucsim.S51
