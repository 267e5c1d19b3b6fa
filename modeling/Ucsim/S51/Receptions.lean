import Ucsim.S51.RadioFifo

/-!
# Successive receptions

Two frames are on the air one after the other, with the receiver on and no strobes. The period that
`start_timer` divides by is 0, so that the time of the calibration never is out: the radio is in
`RX_CALIBRATION` during both frames, and does the same in both, which is nothing.
-/

namespace Ucsim.S51

open Logic

namespace Radio

/-! ## Frames on the air -/

/-- A frame: its length byte, and as many bytes as that says, one at least. -/
structure AirFrame where
  length : BitVec 8
  payload : List (BitVec 8)
  complete : payload.length = (length &&& 0x7F).toNat
  nonempty : payload ≠ []

/-- What a tick finds in the CSP and on the air. -/
structure Air where
  csp : Strobes
  radio_in : BitVec 32

/-- The CSP gives no strobes. -/
structure Air.Quiet (a : Air) : Prop where
  STXON : a.csp.STXON = false
  SRXON : a.csp.SRXON = false
  STXONCCA : a.csp.STXONCCA = false
  SRFOFF : a.csp.SRFOFF = false
  SFLUSHRX : a.csp.SFLUSHRX = false

/-- Ticks between frames. -/
def Gap (as : List Air) : Prop := ∀ a ∈ as, a.Quiet ∧ a.radio_in ≠ SFD

/-- Ticks with the start of frame delimiter and the bytes of a frame. -/
structure Carries (f : AirFrame) (as : List Air) : Prop where
  quiet : ∀ a ∈ as, a.Quiet
  bytes : as.map Air.radio_in = SFD :: (f.length :: f.payload).map (BitVec.setWidth 32)

/-- The byte comes in. -/
def onAir (a : Air) : RadioSt → RadioSt := update fun r => { r with radio_in := a.radio_in }

/-- The byte comes in, and the radio ticks. -/
def hear (a : Air) (st : RadioSt) : Except Fault RadioSt := tick a.csp (onAir a st)

/-- The states after each tick. -/
def trace : List Air → RadioSt → Except Fault (List RadioSt)
  | [], _ => .ok []
  | a :: as, st => do
    let st ← hear a st
    return st :: (← trace as st)

/-- The state after some ticks. -/
def ticks (as : List Air) (st : RadioSt) : Except Fault RadioSt := as.foldlM (fun st a => hear a st) st

/-- The radio after the reset, with the receiver enabled. -/
def SwitchedOn (st : RadioSt) : Prop :=
  ∃ rfd RXframe TXframe ACKsent radioAnswer mem, ∃ rxEnable : Int, rxEnable ≠ 0 ∧
    st = update (fun r => { r with rxEnable := rxEnable }) (initial rfd RXframe TXframe ACKsent radioAnswer mem)

/-- Is the decoded frame for this node, and does it pass the filter? -/
def accepted (st : RadioSt) : Bool :=
  destMatchAddress st.hw ∧ (reg Reg.FRMFILT0 st &&& FRM_FILTER_EN = 0 ∨ (filterFrame st).1)

/-- The radio calibrates its receiver, and the timer is infinite. -/
structure Calibrating (st : RadioSt) : Prop where
  state : st.hw.state = .RX_CALIBRATION
  Timer : st.hw.Timer = ⊤
  Timeout : st.hw.Timeout = false

/-- Neither the frame, the FIFOs nor the addresses have changed, and of the registers `FSMSTAT1` only. -/
structure Undisturbed (st st' : RadioSt) : Prop where
  hw : st'.hw = { st.hw with
    state := st'.hw.state
    stateNum := st'.hw.stateNum
    TX_ACTIVE := st'.hw.TX_ACTIVE
    RX_ACTIVE := st'.hw.RX_ACTIVE
    Timer := st'.hw.Timer
    Timeout := st'.hw.Timeout
    radio_in := st'.hw.radio_in }
  reg {a : Int} : a ≠ Reg.FSMSTAT1 → Radio.reg a st' = Radio.reg a st

namespace Undisturbed

variable {st st' st'' : RadioSt}

theorem refl (st : RadioSt) : Undisturbed st st := ⟨rfl, fun _ => rfl⟩

theorem trans (h : Undisturbed st st') (h' : Undisturbed st' st'') : Undisturbed st st'' where
  hw := h'.hw.trans (by conv_lhs => rw [h.hw])
  reg ha := (h'.reg ha).trans (h.reg ha)

/-! The assignments of the calibration. -/

theorem onAir (a : Air) (st : RadioSt) : Undisturbed st (Radio.onAir a st) := ⟨rfl, fun _ => rfl⟩

theorem active (tx rx : Bool) (st : RadioSt) : Undisturbed st (Radio.active tx rx st) := ⟨rfl, fun _ => rfl⟩

theorem goto (s : FsmState) (n : Int) (st : RadioSt) : Undisturbed st (Radio.goto s n st) := ⟨rfl, fun _ => rfl⟩

theorem timedOut (st : RadioSt) : Undisturbed st (update (fun r => { r with Timeout := true }) st) :=
  ⟨rfl, fun _ => rfl⟩

theorem endless (st : RadioSt) : Undisturbed st (update (fun r => { r with Timer := ⊤ }) st) :=
  ⟨rfl, fun _ => rfl⟩

theorem showActivity (st : RadioSt) : Undisturbed st (Radio.showActivity st) where
  hw := by rw [showActivity_hw]
  reg ha := by
    unfold Radio.showActivity
    split
    · exact (setBit0_reg ha _ _).trans (setBit1_reg ha _ _)
    · split
      · exact (setBit0_reg ha _ _).trans (setBit1_reg ha _ _)
      · exact (setBit0_reg ha _ _).trans (setBit0_reg ha _ _)

/-- The acceptance of a frame depends on nothing that may have changed. -/
theorem accepted (h : Undisturbed st st') : Radio.accepted st' = Radio.accepted st := by
  have h0 : Radio.reg Reg.FRMFILT0 st' = Radio.reg Reg.FRMFILT0 st := h.reg (by decide)
  have h1 : Radio.reg Reg.FRMFILT1 st' = Radio.reg Reg.FRMFILT1 st := h.reg (by decide)
  unfold Radio.accepted filterFrame
  rw [h0, h1, h.hw]
  rfl

end Undisturbed

theorem strobes_quiet {a : Air} (h : a.Quiet) (st : RadioSt) : strobes a.csp st = st := by
  simp [strobes, h.STXON, h.SRXON, h.STXONCCA, h.SRFOFF, h.SFLUSHRX]

/-- A quiet tick in a state whose case does not fail. -/
theorem hear_quiet {a : Air} (h : a.Quiet) {st st₁ : RadioSt}
    (hswitch : fsmSwitch a.csp (countTimer (onAir a st)) = .ok st₁) :
    ∃ st', hear a st = .ok st' ∧ st'.hw.Timeout = false ∧ st'.hw.state = st₁.hw.state ∧
      st'.hw.Timer = st₁.hw.Timer ∧ Undisturbed st₁ st' := by
  have hfsm : fsm a.csp (countTimer (onAir a st)) = .ok (showActivity st₁) := by
    unfold fsm
    rw [strobes_quiet h, hswitch]
    rfl
  refine ⟨_, bind_eq_ok.mpr ⟨_, hfsm, rfl⟩, rfl, ?_, ?_, (Undisturbed.showActivity st₁).trans ⟨rfl, fun _ => rfl⟩⟩
  · change (showActivity st₁).hw.state = st₁.hw.state
    rw [showActivity_hw]
  · change (showActivity st₁).hw.Timer = st₁.hw.Timer
    rw [showActivity_hw]

/-- An infinite timer stays infinite. -/
theorem countTimer_top {st : RadioSt} (h : st.hw.Timer = ⊤) : countTimer st = st := by
  have hsame : update (fun r => { r with Timer := r.Timer.map (· - 1) }) st = st := by
    have hmap : st.hw.Timer.map (· - 1) = st.hw.Timer := by
      rw [h]
      rfl
    exact congrArg (fun time => ({ st with hw := { st.hw with Timer := time } } : RadioSt)) hmap
  have hne : ¬ st.hw.Timer = 0 := by
    rw [h]
    exact WithTop.top_ne_coe
  unfold countTimer
  rw [hsame, ite_self]
  exact if_neg hne

theorem countTimer_zero {st : RadioSt} (h : st.hw.Timer = 0) :
    countTimer st = update (fun r => { r with Timeout := true }) st := by
  unfold countTimer
  rw [h, if_neg (lt_irrefl _)]
  exact if_pos h

/-- At every frequency of the radio the time is infinite. -/
theorem startTimer_eq (time : Nat) {st : RadioSt} (h : 1 < st.hw.freq) :
    startTimer time st = update (fun r => { r with Timer := ⊤ }) st := by
  have hperiod : 1 / st.hw.freq = 0 := Nat.div_eq_of_lt h
  unfold startTimer update
  dsimp only
  rw [if_pos hperiod]

namespace Calibrating

variable {st : RadioSt}

/-- A quiet tick leaves the radio in the calibration. -/
theorem hear {a : Air} (h : Calibrating st) (ha : a.Quiet) :
    ∃ st', Radio.hear a st = .ok st' ∧ Calibrating st' ∧ Undisturbed st st' := by
  have hcount : countTimer (onAir a st) = onAir a st := countTimer_top h.Timer
  have hwaits : rxCalibration (onAir a st) = active false true (onAir a st) := if_neg (by
    change ¬ st.hw.Timeout = true
    rw [h.Timeout]
    decide)
  have hswitch : fsmSwitch a.csp (countTimer (onAir a st)) = .ok (active false true (onAir a st)) := by
    have hstate : (onAir a st).hw.state = .RX_CALIBRATION := h.state
    rw [hcount, fsmSwitch, hstate]
    exact congrArg Except.ok hwaits
  obtain ⟨st', hst', htimeout, hstate, htimer, hsame⟩ := hear_quiet ha hswitch
  have hactive := (Undisturbed.onAir a st).trans (Undisturbed.active false true _)
  exact ⟨st', hst', ⟨hstate.trans h.state, htimer.trans h.Timer, htimeout⟩, hactive.trans hsame⟩

theorem ticks {as : List Air} (h : Calibrating st) (ha : ∀ a ∈ as, a.Quiet) :
    ∃ st', Radio.ticks as st = .ok st' ∧ Calibrating st' ∧ Undisturbed st st' := by
  induction as generalizing st with
  | nil => exact ⟨st, rfl, h, Undisturbed.refl st⟩
  | cons a as ih =>
    obtain ⟨st₁, hst₁, h₁, hsame₁⟩ := h.hear (ha a List.mem_cons_self)
    obtain ⟨st₂, hst₂, h₂, hsame₂⟩ := ih h₁ fun a hmem => ha a (List.mem_cons_of_mem _ hmem)
    exact ⟨st₂, bind_eq_ok.mpr ⟨st₁, hst₁, hst₂⟩, h₂, hsame₁.trans hsame₂⟩

theorem trace {as : List Air} (h : Calibrating st) (ha : ∀ a ∈ as, a.Quiet) :
    ∃ sts, Radio.trace as st = .ok sts ∧
      sts.map (fun st => st.hw.state) = List.replicate as.length .RX_CALIBRATION ∧
      Undisturbed st (sts.getLastD st) := by
  induction as generalizing st with
  | nil => exact ⟨[], rfl, rfl, Undisturbed.refl st⟩
  | cons a as ih =>
    obtain ⟨st₁, hst₁, h₁, hsame₁⟩ := h.hear (ha a List.mem_cons_self)
    obtain ⟨sts, hsts, hstates, hsame⟩ := ih h₁ fun a hmem => ha a (List.mem_cons_of_mem _ hmem)
    refine ⟨st₁ :: sts, ?_, ?_, ?_⟩
    · rw [Radio.trace, hst₁]
      exact bind_eq_ok.mpr ⟨st₁, rfl, bind_eq_ok.mpr ⟨sts, hsts, rfl⟩⟩
    · rw [List.map_cons, hstates, h₁.state, List.length_cons, List.replicate_succ]
    · rw [List.getLastD_cons]
      exact hsame₁.trans hsame

end Calibrating

/-- The first tick with the receiver on begins the calibration. -/
theorem SwitchedOn.hear {a : Air} {st : RadioSt} (h : SwitchedOn st) (ha : a.Quiet) :
    ∃ st', Radio.hear a st = .ok st' ∧ Calibrating st' ∧ Undisturbed st st' := by
  obtain ⟨rfd, RXframe, TXframe, ACKsent, radioAnswer, mem, rxEnable, hon, rfl⟩ := h
  generalize hst : update (fun r => { r with rxEnable := rxEnable })
    (initial rfd RXframe TXframe ACKsent radioAnswer mem) = st
  have hinit : st.hw.state = .IDLE ∧ st.hw.Timer = 0 ∧ st.hw.freq = 32000000 ∧ st.hw.rxEnable = rxEnable := by
    rw [← hst]
    exact ⟨rfl, rfl, rfl, rfl⟩
  obtain ⟨hidle, htimer, hfreq, henabled⟩ := hinit
  -- The time is out, but `IDLE` does not look at it.
  have hcount : countTimer (onAir a st) = update (fun r => { r with Timeout := true }) (onAir a st) :=
    countTimer_zero htimer
  have hgoto : idle (countTimer (onAir a st))
      = startTimer 1 (goto .RX_CALIBRATION 2 (active false false (countTimer (onAir a st)))) := by
    rw [hcount]
    exact if_pos (henabled ▸ hon)
  have hswitch : fsmSwitch a.csp (countTimer (onAir a st)) = .ok (update (fun r => { r with Timer := ⊤ })
      (goto .RX_CALIBRATION 2 (active false false (countTimer (onAir a st))))) := by
    have hstate : (countTimer (onAir a st)).hw.state = .IDLE := by
      rw [hcount]
      exact hidle
    rw [fsmSwitch, hstate, ← startTimer_eq 1, ← hgoto]
    rw [hcount]
    exact (by rw [hfreq]; decide : 1 < st.hw.freq)
  have hbegun : Undisturbed st (update (fun r => { r with Timer := ⊤ })
      (goto .RX_CALIBRATION 2 (active false false (countTimer (onAir a st))))) := by
    rw [hcount]
    exact ((((Undisturbed.onAir a st).trans (.timedOut _)).trans (.active _ _ _)).trans (.goto _ _ _)).trans
      (.endless _)
  obtain ⟨st', hst', htimeout, hstate, htimer, hsame⟩ := hear_quiet ha hswitch
  exact ⟨st', hst', ⟨hstate, htimer, htimeout⟩, hbegun.trans hsame⟩

/-- A tick without strobes. -/
def silent (radio_in : BitVec 32) : Air := ⟨noStrobes, radio_in⟩

end Radio

end Ucsim.S51
