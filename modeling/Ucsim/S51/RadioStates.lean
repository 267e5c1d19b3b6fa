import Ucsim.S51.RadioFsm

/-!
# State numbers and activity of the radio

The runs of the radio, and what `fsm` keeps in all of them: the number goes with the state, at most one of
the two directions is active, and `FSMSTAT1` shows which.
-/

namespace Ucsim.S51

open Logic

namespace Radio

/-! ## Runs -/

/-- What the radio does not set itself. -/
structure Input where
  radio_in : BitVec 32
  rxEnable : Int
  rxenmask : Int

/-- The inputs are presented to the radio. -/
def present (inp : Input) : RadioSt → RadioSt := update fun r => { r with
  radio_in := inp.radio_in
  rxEnable := inp.rxEnable
  rxenmask := inp.rxenmask }

/-- The timer is set. -/
def setTimer (time : WithTop ℚ) : RadioSt → RadioSt := update fun r => { r with Timer := time }

/-- What can happen to the radio. The memory that the other hardware and the instructions change is free.
No other part of the program makes the steps `present` and `timer`: with them the runs cover any frames on
the air and any time-outs. -/
inductive Label
  | reset (RXframe TXframe : Frame) (ACKsent radioAnswer : Bool) (mem : Site → TMem)
  | present (inp : Input)
  | timer (time : WithTop ℚ)
  | tick (csp : Strobes)
  | happen (pendingBit : Bool) (e : RadioEvent)
  | write (c : Site) (v : TMem)
  | read (c : Site) (MovInstruction : Bool)
  | memory (mem : Site → TMem)

/-- The state after `reset`, with `RFD` at `rfd`. -/
def initial (rfd : Option Site) (RXframe TXframe : Frame) (ACKsent radioAnswer : Bool)
    (mem : Site → TMem) : RadioSt where
  mem := mem
  hw := { init RXframe TXframe ACKsent radioAnswer mem with cell_rfd := rfd }

/-- `MOV` instructions announce themselves to the radio. -/
def announce (MovInstruction : Bool) : RadioSt → RadioSt :=
  update fun r => { r with MovInstruction := MovInstruction }

/-- One step. -/
def step : Label → RadioSt → Except Fault RadioSt
  | .reset RXframe TXframe ACKsent radioAnswer mem, st =>
    .ok (initial st.hw.cell_rfd RXframe TXframe ACKsent radioAnswer mem)
  | .present inp, st => .ok (present inp st)
  | .timer time, st => .ok (setTimer time st)
  | .tick csp, st => tick csp st
  | .happen pendingBit e, st => .ok (happen pendingBit st e)
  | .write c v, st => write c v st
  | .read c MovInstruction, st => do
    let (_, st) ← read c (announce MovInstruction st)
    return announce false st
  | .memory mem, st => .ok { st with mem := mem }

/-- The runs of the radio, wherever `RFD` is. -/
def system : System Label RadioSt where
  init st := ∃ rfd RXframe TXframe ACKsent radioAnswer mem,
    st = initial rfd RXframe TXframe ACKsent radioAnswer mem
  step a st st' := step a st = .ok st'

/-! ## State numbers -/

/-- The numbers of the states in `FSMSTAT0`, as documented. -/
def stateCode : FsmState → Int
  | .IDLE => 0
  | .RX_CALIBRATION => 2
  | .SFD_WAIT => 3
  | .RX => 7
  | .RX_RXWAIT => 14
  | .RXFIFO_RESET => 16
  | .RX_OVERFLOW => 17
  | .TX_SHUTDOWN => 26
  | .TX_CALIBRATION => 32
  | .TX => 34
  | .TX_FINAL => 39
  | .TX_RX_TRANSIT => 40
  | .ACK_CALIBRATION => 48
  | .ACK => 49
  | .ACK_DELAY => 55
  | .TX_UNDERFLOW => 56

/-- The number is that of the state, and not both directions are active. -/
structure Coupled (st : RadioSt) : Prop where
  exclusive : ¬ (st.hw.TX_ACTIVE ∧ st.hw.RX_ACTIVE)
  stateNum : st.hw.stateNum = stateCode st.hw.state

/-! ## What the states keep -/

/-- The data that the states assign besides the state and the activity. -/
structure Minor (st st' : RadioSt) : Prop where
  hw : st'.hw = { st.hw with
    RXFIFO := st'.hw.RXFIFO
    slotted_ack := st'.hw.slotted_ack
    unslotted_ack := st'.hw.unslotted_ack
    Timeout := st'.hw.Timeout
    Timer := st'.hw.Timer
    underflow := st'.hw.underflow
    frame_sent := st'.hw.frame_sent
    ACKsent := st'.hw.ACKsent
    radio_in := st'.hw.radio_in
    rxEnable := st'.hw.rxEnable
    rxenmask := st'.hw.rxenmask
    radioAnswer := st'.hw.radioAnswer }

theorem Minor.of_hw {st st' : RadioSt} (h : st'.hw = st.hw) : Minor st st' := ⟨by rw [h]⟩

/-- A property that the assignments of the states and the transfers of bytes keep. -/
structure Kept (P : RadioSt → Prop) : Prop where
  minor {st st' : RadioSt} : P st → Minor st st' → P st'
  goto {st : RadioSt} {s : FsmState} {n : Int} : P st → n = stateCode s → P (goto s n st)
  active {st : RadioSt} {tx rx : Bool} : P st → ¬ (tx ∧ rx) → P (active tx rx st)
  doRX {st st' : RadioSt} : P st → doRX st = .ok st' → P st'
  doTX {st st' : RadioSt} : P st → doTX st = .ok st' → P st'

namespace Kept

variable {P : RadioSt → Prop} {st st' : RadioSt}

theorem ite {p : Prop} [Decidable p] (h : P st) (h' : P st') : P (if p then st else st') := by
  split
  · exact h
  · exact h'

variable (K : Kept P)
include K

theorem of_hw (h : P st) (hhw : st'.hw = st.hw) : P st' := K.minor h (Minor.of_hw hhw)

/-- A change of state, if any. -/
theorem ite_goto {p : Prop} [Decidable p] {s : FsmState} {n : Int} (h : P st) (hn : n = stateCode s) :
    P (if p then Radio.goto s n st else st) := ite (K.goto h hn) h

theorem startTimer {time : Nat} (h : P st) : P (Radio.startTimer time st) := K.minor h ⟨rfl⟩

/-- A change of state with a time-out, if any. -/
theorem ite_timed {p : Prop} [Decidable p] {s : FsmState} {n : Int} {time : Nat} (h : P st)
    (hn : n = stateCode s) : P (if p then Radio.startTimer time (Radio.goto s n st) else st) :=
  ite (K.startTimer (K.goto h hn)) h

theorem toIdle (h : P st) : P (Radio.toIdle st) := K.of_hw (K.goto h rfl) (request_hw _ _ _ _)

theorem strobes (csp : Strobes) (h : P st) : P (Radio.strobes csp st) := by
  have hon : P (if csp.STXON then Radio.startTimer 192 (Radio.goto .TX_CALIBRATION 32 st) else st) :=
    K.ite_timed h rfl
  have hidle : P
      (let st := if csp.STXON then Radio.startTimer 192 (Radio.goto .TX_CALIBRATION 32 st) else st
      if csp.SRFOFF ∧ st.hw.TX_ACTIVE = false then Radio.toIdle st else st) := ite (K.toIdle hon) hon
  exact K.ite_timed (ite (K.ite_timed (K.ite_timed hidle rfl) rfl) hidle) rfl

/-! Each case of the `switch` sets the flags before the state. -/

theorem receiving (h : P st) : P (Radio.active false true st) := K.active h (by simp)

theorem transmitting (h : P st) : P (Radio.active true false st) := K.active h (by simp)

theorem passive (h : P st) : P (Radio.active false false st) := K.active h (by simp)

theorem idle (h : P st) : P (Radio.idle st) := K.ite_timed (K.passive h) rfl

theorem await {tx rx : Bool} {s : FsmState} {n : Int} (h : P st) (hx : ¬ (tx ∧ rx))
    (hn : n = stateCode s) : P (Radio.await tx rx s n st) := by
  have hactive : P (Radio.active tx rx st) := K.active h hx
  exact ite (K.minor (K.goto hactive hn) ⟨rfl⟩) hactive

theorem sfdWait (h : P st) : P (Radio.sfdWait st) := by
  have henabled : P
      (let st := Radio.active false true st
      if st.hw.rxEnable = 0 then Radio.toIdle st else st) :=
    ite (K.toIdle (K.receiving h)) (K.receiving h)
  exact ite (K.goto (K.of_hw henabled (request_hw _ _ _ _)) rfl) henabled

theorem toRxwait (h : P st) : P (Radio.toRxwait st) := by
  have hwait : P (Radio.goto .RX_RXWAIT 14 st) := K.goto h rfl
  have htimeout : P (update (fun r => { r with Timeout := true }) (Radio.goto .RX_RXWAIT 14 st)) :=
    K.minor hwait ⟨rfl⟩
  exact K.of_hw (ite htimeout (K.startTimer hwait)) (setBit0_hw _ _ _)

theorem afterByte {rand : Nat} (h : P st) : P (Radio.afterByte rand st) := by
  have hframe : P
      (let st := if st.hw.overflow then Radio.goto .RX_OVERFLOW 17 st else st
      let delay := rand % 31 + 12
      let st := if st.hw.slotted_ack then Radio.startTimer (delay <<< 4) (Radio.goto .ACK_DELAY 55 st) else st
      let st := if st.hw.unslotted_ack then Radio.startTimer 192 (Radio.goto .ACK_CALIBRATION 48 st) else st
      if st.hw.frame_not_for_me then Radio.goto .RXFIFO_RESET 16 st else st) :=
    K.ite_goto (K.ite_timed (K.ite_timed (K.ite_goto h rfl) rfl) rfl) rfl
  exact ite (K.toRxwait hframe) hframe

theorem rx {rand : Nat} (h : P st) (hok : Radio.rx rand st = .ok st') : P st' := by
  unfold Radio.rx at hok
  obtain ⟨st₁, hst₁, hst'⟩ := bind_eq_ok.mp hok
  cases hst'
  have hrx : P (update (fun r => { r with
      slotted_ack := false, unslotted_ack := false, TX_ACTIVE := false, RX_ACTIVE := true }) st) :=
    K.minor (K.receiving h) ⟨rfl⟩
  exact K.afterByte (K.doRX hrx hst₁)

theorem rxfifoReset (h : P st) : P (Radio.rxfifoReset st) := by
  have hempty : P (update (fun r => { r with RXFIFO := fun _ => 0 }) (Radio.active false true st)) :=
    K.minor (K.receiving h) ⟨rfl⟩
  exact K.goto (K.of_hw hempty (emptyCells_hw _ _)) rfl

theorem rxOverflow (csp : Strobes) (h : P st) : P (Radio.rxOverflow csp st) :=
  K.ite_goto (K.passive h) rfl

theorem tx (h : P st) (hok : Radio.tx st = .ok st') : P st' := by
  unfold Radio.tx at hok
  obtain ⟨st₁, hst₁, hst'⟩ := bind_eq_ok.mp hok
  cases hst'
  have hbyte : P st₁ := K.doTX (K.transmitting h) hst₁
  have hunderflow : P (if st₁.hw.underflow then
      update (fun r => { r with underflow := false }) (Radio.startTimer 2 (Radio.goto .TX_UNDERFLOW 56 st₁))
      else st₁) :=
    ite (K.minor (K.startTimer (K.goto hbyte rfl)) ⟨rfl⟩) hbyte
  have hsent := K.of_hw hunderflow (request_hw Reg.RFIRQM1 Reg.RFIRQF1 TXDONE _)
  exact ite (K.minor (K.goto hsent rfl) ⟨rfl⟩) hunderflow

theorem txFinal (h : P st) : P (Radio.txFinal st) :=
  ite (K.startTimer (K.goto (K.transmitting h) rfl)) (K.goto (K.transmitting h) rfl)

theorem afterAck (h : P st) : P (Radio.afterAck st) := by
  have hshutdown {st : RadioSt} (h : P st) :
      P (update (fun r => { r with ACKsent := false }) (Radio.goto .TX_SHUTDOWN 26 st)) :=
    K.minor (K.goto h rfl) ⟨rfl⟩
  have htransit {st : RadioSt} (h : P st) :
      P (update (fun r => { r with ACKsent := false }) (Radio.startTimer 190 (Radio.goto .TX_RX_TRANSIT 40 st))) :=
    K.minor (K.startTimer (K.goto h rfl)) ⟨rfl⟩
  have hanswer : P (update (fun r => { r with radioAnswer := true }) st) := K.minor h ⟨rfl⟩
  have hdone := K.of_hw hanswer (request_hw Reg.RFIRQM1 Reg.RFIRQF1 TXACKDONE _)
  exact ite (htransit (ite (hshutdown hdone) hdone)) (ite (hshutdown hdone) hdone)

theorem sendAck (h : P st) (hok : Radio.sendAck st = .ok st') : P st' := by
  unfold Radio.sendAck at hok
  obtain ⟨st₁, hst₁, hst'⟩ := bind_eq_ok.mp hok
  cases hst'
  have hclear : P (update (fun r => { r with ACKsent := false }) st) := K.minor h ⟨rfl⟩
  have hbyte := K.doTX hclear hst₁
  exact ite (K.minor hbyte ⟨rfl⟩) hbyte

theorem ack (h : P st) (hok : Radio.ack st = .ok st') : P st' := by
  unfold Radio.ack at hok
  obtain ⟨st₁, hst₁, hst'⟩ := bind_eq_ok.mp hok
  cases hst'
  have hbyte : P st₁ := by
    split at hst₁
    · cases hst₁
      exact K.goto (K.transmitting h) rfl
    · exact K.sendAck (K.transmitting h) hst₁
  exact ite (K.afterAck hbyte) hbyte

theorem ackDelay (h : P st) : P (Radio.ackDelay st) := K.ite_timed (K.transmitting h) rfl

theorem txShutdown (h : P st) : P (Radio.txShutdown st) := K.toIdle (K.transmitting h)

theorem fsmSwitch {csp : Strobes} (h : P st) (hok : Radio.fsmSwitch csp st = .ok st') : P st' := by
  unfold Radio.fsmSwitch at hok
  cases hstate : st.hw.state <;> rw [hstate] at hok <;> dsimp only at hok
  case RX => exact K.rx h hok
  case TX => exact K.tx h hok
  case ACK => exact K.ack h hok
  all_goals cases hok
  case IDLE => exact K.idle h
  case SFD_WAIT => exact K.sfdWait h
  case RXFIFO_RESET => exact K.rxfifoReset h
  case RX_OVERFLOW => exact K.rxOverflow _ h
  case TX_FINAL => exact K.txFinal h
  case ACK_DELAY => exact K.ackDelay h
  case TX_SHUTDOWN => exact K.txShutdown h
  all_goals exact K.await h (by simp) rfl

theorem fsm {csp : Strobes} (h : P st) (hok : Radio.fsm csp st = .ok st') : P st' := by
  unfold Radio.fsm at hok
  obtain ⟨st₁, hst₁, hst'⟩ := bind_eq_ok.mp hok
  cases hst'
  exact K.of_hw (K.fsmSwitch (K.strobes csp h) hst₁) (showActivity_hw st₁)

theorem present (inp : Input) (h : P st) : P (Radio.present inp st) := K.minor h ⟨rfl⟩

theorem setTimer (time : WithTop ℚ) (h : P st) : P (Radio.setTimer time st) := K.minor h ⟨rfl⟩

theorem countTimer (h : P st) : P (Radio.countTimer st) := by
  have hcount : P (if 0 < st.hw.Timer then update (fun r => { r with Timer := r.Timer.map (· - 1) }) st else st) :=
    ite (K.minor h ⟨rfl⟩) h
  exact ite (K.minor hcount ⟨rfl⟩) hcount

theorem tick {csp : Strobes} (h : P st) (hok : Radio.tick csp st = .ok st') : P st' := by
  unfold Radio.tick at hok
  obtain ⟨st₁, hst₁, hst'⟩ := bind_eq_ok.mp hok
  cases hst'
  exact K.minor (K.fsm (K.countTimer h) hst₁) ⟨rfl⟩

end Kept

namespace Coupled

variable {st st' : RadioSt}

/-- The coupling is one of four fields. -/
theorem of_fields (h : Coupled st) (hstate : st'.hw.state = st.hw.state)
    (hnum : st'.hw.stateNum = st.hw.stateNum) (htx : st'.hw.TX_ACTIVE = st.hw.TX_ACTIVE)
    (hrx : st'.hw.RX_ACTIVE = st.hw.RX_ACTIVE) : Coupled st' := by
  constructor
  · rw [htx, hrx]
    exact h.exclusive
  · rw [hnum, hstate]
    exact h.stateNum

theorem of_hw (h : Coupled st) (hhw : st'.hw = st.hw) : Coupled st' :=
  h.of_fields (by rw [hhw]) (by rw [hhw]) (by rw [hhw]) (by rw [hhw])

theorem kept : Kept Coupled where
  minor h hm := h.of_fields (by rw [hm.hw]) (by rw [hm.hw]) (by rw [hm.hw]) (by rw [hm.hw])
  goto h hn := ⟨h.exclusive, hn⟩
  active h hx := ⟨hx, h.stateNum⟩
  doRX h hok := h.of_fields (by rw [(Received.doRX hok).hw]) (by rw [(Received.doRX hok).hw])
    (by rw [(Received.doRX hok).hw]) (by rw [(Received.doRX hok).hw])
  doTX h hok := h.of_fields (by rw [(Sent.doTX hok).hw]) (by rw [(Sent.doTX hok).hw])
    (by rw [(Sent.doTX hok).hw]) (by rw [(Sent.doTX hok).hw])

end Coupled

/-! ## Activity -/

/-- `FSMSTAT1` shows the flags. -/
structure Shown (st : RadioSt) : Prop where
  tx : (reg Reg.FSMSTAT1 st &&& bmTX_ACTIVE ≠ 0) ↔ st.hw.TX_ACTIVE
  rx : (reg Reg.FSMSTAT1 st &&& bmRX_ACTIVE ≠ 0) ↔ st.hw.RX_ACTIVE

theorem getLsbD_setBit1 (a : Int) (bits : TMem) (st : RadioSt) (i : Nat) :
    (reg a (setBit1 a bits st)).getLsbD i = ((reg a st).getLsbD i || (bits &&& 0xff).getLsbD i) := by
  have hreg : reg a (setBit1 a bits st) = reg a st ||| (bits &&& 0xff) := Function.update_self ..
  rw [hreg, BitVec.getLsbD_or]

theorem getLsbD_setBit0 (a : Int) (bits : TMem) (st : RadioSt) {i : Nat} (hi : i < 16) :
    (reg a (setBit0 a bits st)).getLsbD i = ((reg a st).getLsbD i && !(bits &&& 0xff).getLsbD i) := by
  have hreg : reg a (setBit0 a bits st) = reg a st &&& ~~~(bits &&& 0xff) := Function.update_self ..
  rw [hreg, BitVec.getLsbD_and, BitVec.getLsbD_not, decide_eq_true hi, Bool.true_and]

theorem shown_iff (st : RadioSt) : Shown st ↔
    (reg Reg.FSMSTAT1 st).getLsbD 1 = st.hw.TX_ACTIVE ∧
      (reg Reg.FSMSTAT1 st).getLsbD 0 = st.hw.RX_ACTIVE := by
  have htx : decide (reg Reg.FSMSTAT1 st &&& bmTX_ACTIVE ≠ 0) = (reg Reg.FSMSTAT1 st).getLsbD 1 :=
    and_bit (k := 1) _ (by decide)
  have hrx : decide (reg Reg.FSMSTAT1 st &&& bmRX_ACTIVE ≠ 0) = (reg Reg.FSMSTAT1 st).getLsbD 0 :=
    and_bit (k := 0) _ (by decide)
  rw [← htx, ← hrx, ← Bool.decide_coe st.hw.TX_ACTIVE, ← Bool.decide_coe st.hw.RX_ACTIVE,
    decide_eq_decide, decide_eq_decide]
  exact ⟨fun h => ⟨h.tx, h.rx⟩, fun h => ⟨h.1, h.2⟩⟩

theorem shown_showActivity {st : RadioSt} (h : Coupled st) : Shown (showActivity st) := by
  have htx : (bmTX_ACTIVE &&& 0xff).getLsbD 1 = true ∧ (bmTX_ACTIVE &&& 0xff).getLsbD 0 = false := by
    decide
  have hrx : (bmRX_ACTIVE &&& 0xff).getLsbD 1 = false ∧ (bmRX_ACTIVE &&& 0xff).getLsbD 0 = true := by
    decide
  have h0 : 0 < 16 := by decide
  have h1 : 1 < 16 := by decide
  rw [shown_iff]
  unfold showActivity
  cases hTX : st.hw.TX_ACTIVE with
  | true =>
    have hRX : st.hw.RX_ACTIVE = false := Bool.eq_false_iff.mpr fun hRX => h.exclusive ⟨hTX, hRX⟩
    rw [if_pos rfl, getLsbD_setBit0 _ _ _ h1, getLsbD_setBit0 _ _ _ h0, getLsbD_setBit1, getLsbD_setBit1,
      htx.1, htx.2, hrx.1, hrx.2, setBit0_hw, setBit1_hw, hTX, hRX]
    simp
  | false =>
    rw [if_neg (by decide)]
    cases hRX : st.hw.RX_ACTIVE with
    | true =>
      rw [if_pos rfl, getLsbD_setBit0 _ _ _ h1, getLsbD_setBit0 _ _ _ h0, getLsbD_setBit1,
        getLsbD_setBit1, htx.1, htx.2, hrx.1, hrx.2, setBit0_hw, setBit1_hw, hTX, hRX]
      simp
    | false =>
      rw [if_neg (by decide), getLsbD_setBit0 _ _ _ h1, getLsbD_setBit0 _ _ _ h0,
        getLsbD_setBit0 _ _ _ h1, getLsbD_setBit0 _ _ _ h0, htx.1, htx.2, hrx.1, hrx.2, setBit0_hw,
        setBit0_hw, hTX, hRX]
      simp

theorem shown_fsm {csp : Strobes} {st st' : RadioSt} (h : Coupled st) (hok : fsm csp st = .ok st') :
    Shown st' := by
  unfold fsm at hok
  obtain ⟨st₁, hst₁, hst'⟩ := bind_eq_ok.mp hok
  cases hst'
  exact shown_showActivity (Coupled.kept.fsmSwitch (Coupled.kept.strobes csp h) hst₁)

/-! ## All runs -/

namespace Coupled

variable {st st' : RadioSt}

theorem initial (rfd : Option Site) (RXframe TXframe : Frame) (ACKsent radioAnswer : Bool)
    (mem : Site → TMem) : Coupled (Radio.initial rfd RXframe TXframe ACKsent radioAnswer mem) :=
  ⟨by simp [Radio.initial, init], rfl⟩

theorem write {c : Site} {v : TMem} (h : Coupled st) (hok : Radio.write c v st = .ok st') : Coupled st' := by
  have hw := (Written.write hok).hw
  exact h.of_fields (by rw [hw]) (by rw [hw]) (by rw [hw]) (by rw [hw])

theorem read {c : Site} {v : TMem} (h : Coupled st) (hok : Radio.read c st = .ok (v, st')) :
    Coupled st' := by
  unfold Radio.read at hok
  split at hok
  · obtain ⟨temp, -, hst⟩ := bind_eq_ok.mp hok
    cases hst
    have hflags : Coupled (flagsAfterRead st) := h.of_hw (flagsAfterRead_hw st)
    have hcount (i : Int) : Coupled (setReadC i (flagsAfterRead st)) := hflags.of_fields rfl rfl rfl rfl
    split
    · exact hcount _
    · exact hflags
  · cases hok
    exact h

theorem step {a : Label} (h : Coupled st) (hok : Radio.step a st = .ok st') : Coupled st' := by
  cases a with
  | reset RXframe TXframe ACKsent radioAnswer mem =>
    cases hok
    exact initial _ _ _ _ _ _
  | present inp =>
    cases hok
    exact Coupled.kept.present inp h
  | timer time =>
    cases hok
    exact Coupled.kept.setTimer time h
  | tick csp => exact Coupled.kept.tick h hok
  | happen pendingBit e =>
    cases hok
    cases e <;> exact h.of_fields rfl rfl rfl rfl
  | write c v => exact h.write hok
  | read c MovInstruction =>
    obtain ⟨⟨v, st₁⟩, hst₁, hst'⟩ := bind_eq_ok.mp hok
    cases hst'
    have hannounced : Coupled (announce MovInstruction st) := h.of_fields rfl rfl rfl rfl
    exact (hannounced.read hst₁).of_fields rfl rfl rfl rfl
  | memory mem =>
    cases hok
    exact h.of_hw rfl

end Coupled

/-- **State numbers and activity.** -/
theorem coupled_of_reachable {st : RadioSt} (h : system.Reachable st) :
    Coupled st ∧ ∀ csp st', fsm csp (countTimer st) = .ok st' → Coupled st' ∧ Shown st' := by
  have hcoupled : Coupled st := by
    refine System.Reachable.invariant ?_ (fun a s t _ hs hst => hs.step hst) h
    rintro s ⟨rfd, RXframe, TXframe, ACKsent, radioAnswer, mem, rfl⟩
    exact Coupled.initial rfd RXframe TXframe ACKsent radioAnswer mem
  refine ⟨hcoupled, fun csp st' hok => ?_⟩
  have hcount := Coupled.kept.countTimer hcoupled
  exact ⟨Coupled.kept.fsm hcount hok, shown_fsm hcount hok⟩

/-! ## A run in both directions -/

/-- A run of the radio. -/
def run (as : List Label) (st : RadioSt) : Except Fault RadioSt := as.foldlM (fun st a => step a st) st

/-- Runs stay in the reachable states. -/
theorem reachable_run {as : List Label} {st st' : RadioSt} (h : system.Reachable st) (hrun : run as st = .ok st') :
    system.Reachable st' := by
  induction as generalizing st with
  | nil =>
    cases hrun
    exact h
  | cons a as ih =>
    obtain ⟨st₁, hst₁, hrest⟩ := bind_eq_ok.mp (show (step a st >>= run as) = .ok st' from hrun)
    exact ih (h.step hst₁) hrest

/-- No strobe of the CSP. -/
def noStrobes : Strobes where
  STXON := false
  SRXON := false
  STXONCCA := false
  SRFOFF := false
  SFLUSHRX := false
  CCA := 0
  rand := 0

/-- The radio after `reset`, with `TXframe` for the next transmission and `FRMCTRL0.AUTOCRC` set. -/
def autocrcRadio (TXframe : Frame) : RadioSt :=
  initial none default TXframe false false (xramOf [(Reg.FRMCTRL0, 0x40)])

theorem reachable_autocrcRadio (TXframe : Frame) : system.Reachable (autocrcRadio TXframe) :=
  .init ⟨none, default, TXframe, false, false, _, rfl⟩

/-- The strobe `STXON` in the first tick, and ticks without strobes. -/
def transmission (n : Nat) : List Label :=
  .tick { noStrobes with STXON := true } :: List.replicate n (.tick noStrobes)

/-- The transmission ends, the receiver is on, the time of the calibration is out, and the first bytes of a
frame follow the delimiter. -/
def turnAround : List Label :=
  [.tick { noStrobes with SRFOFF := true }, .present ⟨0, 1, 0⟩, .tick noStrobes, .timer 0, .tick noStrobes,
    .tick noStrobes, .present ⟨5, 1, 0⟩, .tick noStrobes]

theorem ok_of_state {x : Except Fault RadioSt} {s : FsmState}
    (h : x.toOption.map (fun st => st.hw.state) = some s) : ∃ st, x = .ok st ∧ st.hw.state = s := by
  cases x with
  | error e => cases h
  | ok st => exact ⟨st, rfl, Option.some.inj h⟩

/-- A transmission, and the reception behind it. -/
theorem coupled_of_reachable_bothWays :
    (∃ st, run (transmission 2) (autocrcRadio default) = .ok st ∧ st.hw.state = .TX ∧ Coupled st ∧
      ∀ csp st', fsm csp (countTimer st) = .ok st' → Coupled st' ∧ Shown st') ∧
    ∃ st, run (transmission 2 ++ turnAround) (autocrcRadio default) = .ok st ∧ st.hw.state = .RX ∧ Coupled st ∧
      ∀ csp st', fsm csp (countTimer st) = .ok st' → Coupled st' ∧ Shown st' := by
  obtain ⟨sending, hsending, htx⟩ := ok_of_state (s := .TX)
    (x := run (transmission 2) (autocrcRadio default)) (by decide +kernel)
  obtain ⟨receiving, hreceiving, hrx⟩ := ok_of_state (s := .RX)
    (x := run (transmission 2 ++ turnAround) (autocrcRadio default)) (by decide +kernel)
  exact ⟨⟨sending, hsending, htx, coupled_of_reachable (reachable_run (reachable_autocrcRadio _) hsending)⟩,
    receiving, hreceiving, hrx, coupled_of_reachable (reachable_run (reachable_autocrcRadio _) hreceiving)⟩

end Radio

end Ucsim.S51
