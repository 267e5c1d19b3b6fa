import Ucsim.Logic.Run
import Ucsim.S51.FrameDecoding

/-!
# The states of the radio

`tick` with the state machine `fsm` and the byte transfers `doRX` and `doTX` that it makes. The strobes of
the CSP are its inputs.
-/

namespace Ucsim.S51

open Logic

namespace Radio

def bmFIFO : TMem := 0x80
def bmFIFOP : TMem := 0x40
def SFDbm : TMem := 0x20
def bmTX_ACTIVE : TMem := 2
def bmRX_ACTIVE : TMem := 1
def bmAUTOCRC : TMem := 0x40
def bmAPPEND_DATA_MODE : TMem := 0x80
def bmSLOTTEDACK : TMem := 2
def bmRX2RX_TIME_OFF : TMem := 1
def bmPENDING_OR : TMem := 4
def RFIDLE : TMem := 0x04
def TXDONE : TMem := 0x02
def TXACKDONE : TMem := 0x01
def SFD : BitVec 32 := 0x7A

/-- The flags of `RFIRQF1`. -/
def request1 (bits : TMem) (st : RadioSt) : RadioSt := request Reg.RFIRQM1 Reg.RFIRQF1 bits st

/-- The data of the radio are changed. -/
def update (f : Radio → Radio) (st : RadioSt) : RadioSt := { st with hw := f st.hw }

/-! ## Reception -/

/-- `Dest_match_address`. -/
def destMatchAddress (r : Radio) : Bool :=
  let f := r.RXframe
  if f.DestAddressMode ≠ 0 then
    if f.DestAddressMode = 1 then true
    else if f.DestAddressMode = 2 then
      f.DestinationAddress = r.ShortAddress ∧ f.DestinationPanID = r.PanID
    else if f.DestAddressMode = 3 then
      f.ExtDestAddressH = r.ExtAddressH ∧ f.ExtDestAddressL = r.ExtAddressL
    else false
  else true

/-- `RXFIFO[i] = b`. -/
def storeRX (i : Int) (b : BitVec 8) (st : RadioSt) : Except Fault RadioSt := do
  let RXFIFO ← st.hw.RXFIFO.set i b
  return update (fun r => { r with RXFIFO := RXFIFO }) st

/-- Is the position that of the FIFO threshold? -/
def atThreshold (st : RadioSt) : Bool := st.hw.RX_PC = (reg Reg.FIFOPCTRL st).toNat

/-- The branch of `doRX` for the first byte, which is the length of the frame. -/
def firstByte (st : RadioSt) : RadioSt :=
  let len := st.hw.radio_in &&& 0x7F
  let st := setBit1 Reg.FSMSTAT1 bmFIFO (setReg Reg.RXFIRST (len.setWidth 16) st)
  update (fun r => { r with length := len.toNat }) st

/-- Is the frame for this node, and does it pass the filter? -/
def acceptFrame (st : RadioSt) : RadioSt :=
  if destMatchAddress st.hw = false then update (fun r => { r with frame_not_for_me := true }) st
  else if st.hw.RX_PC > 127 then update (fun r => { r with overflow := true }) st
  else if reg Reg.FRMFILT0 st &&& FRM_FILTER_EN ≠ 0 then
    let (accept_frame, st) := filterFrame st
    let st := if accept_frame then request0 FRAME_ACCEPTED st else st
    let st := if atThreshold st then setBit1 Reg.FSMSTAT1 bmFIFOP st else st
    if accept_frame then st else setBit0 Reg.FSMSTAT1 (SFDbm ||| bmFIFO ||| bmFIFOP) st
  else st

/-- The kind of acknowledgment that the frame asks for. -/
def askForAck (st : RadioSt) : RadioSt :=
  if st.hw.RXframe.AckReq then
    let slotted : Bool := reg Reg.FSMCTRL st &&& bmSLOTTEDACK ≠ 0
    update (fun r => { r with slotted_ack := slotted, unslotted_ack := !slotted }) st
  else st

/-- The branch of `doRX` for the last byte, up to the status word. -/
def lastByte (st : RadioSt) : RadioSt :=
  let st := setBit0 Reg.FSMSTAT1 SFDbm (setBit1 Reg.FSMSTAT1 bmFIFOP st)
  let st := acceptFrame (decodeFrame (request0 RXPKTDONE st))
  askForAck (update (fun r => { r with frame_completed := true }) st)

/-- With `AUTOCRC` a status word replaces the frame check sequence. -/
def statusWord (st : RadioSt) : Except Fault RadioSt :=
  if reg Reg.FRMCTRL0 st &&& bmAUTOCRC ≠ 0 then do
    let status : BitVec 8 := if reg Reg.FRMCTRL0 st &&& bmAPPEND_DATA_MODE = 0 then 0x80 ||| 100
      else 0x80 ||| (reg Reg.SRCRESINDEX st).setWidth 8
    let st ← storeRX (st.hw.RX_PC - 1) status st
    storeRX (st.hw.RX_PC - 2) 0xFF st
  else .ok st

/-- The registers follow the byte. -/
def countByte (st : RadioSt) : RadioSt :=
  let st := setReg Reg.RXFIFOCNT (BitVec.ofInt 16 st.hw.RX_PC) st
  let st := if st.hw.RX_PC = 0 then firstByte st else st
  if atThreshold st ∧ reg Reg.FRMFILT0 st &&& FRM_FILTER_EN = 0 then setBit1 Reg.FSMSTAT1 bmFIFOP st
  else st

/-- The position in the `RXFIFO` is set. -/
def setRX_PC (i : Int) : RadioSt → RadioSt := update fun r => { r with RX_PC := i }

/-- `doRX`. The radio informs nobody with `EV_RADIO`: it has no partners. -/
def doRX (st : RadioSt) : Except Fault RadioSt := do
  let st ← storeRX st.hw.RX_PC (st.hw.radio_in.setWidth 8) st
  let st := countByte st
  if st.hw.RX_PC = st.hw.length then
    let st ← statusWord (lastByte st)
    return setRX_PC 0 st
  else return setRX_PC (st.hw.RX_PC + 1) st

/-- The count of the bytes that have been read is set. -/
def setReadC (i : Int) : RadioSt → RadioSt := update fun r => { r with ReadC := i }

/-- The flags that follow a read of `RFD`. -/
def flagsAfterRead (st : RadioSt) : RadioSt :=
  let FrameLength := st.hw.RXframe.FrameLength.toInt
  let st := if FrameLength - st.hw.ReadC = (reg Reg.FIFOPCTRL st).toNat then
      setBit0 Reg.FSMSTAT1 bmFIFOP st
    else st
  if st.hw.ReadC < FrameLength then st else setBit0 Reg.FSMSTAT1 bmFIFO st

@[simp] theorem flagsAfterRead_hw (st : RadioSt) : (flagsAfterRead st).hw = st.hw := by
  unfold flagsAfterRead
  dsimp only
  split <;> split <;> rfl

/-- The branch of `read` for `RFD`. -/
def readRfd (st : RadioSt) : Except Fault (TMem × RadioSt) := do
  let temp ← st.hw.RXFIFO.get st.hw.ReadC
  let st := flagsAfterRead st
  return (temp.setWidth 16, if st.hw.MovInstruction then setReadC (st.hw.ReadC + 1) st else st)

/-- `read`. -/
def read (c : Site) (st : RadioSt) : Except Fault (TMem × RadioSt) :=
  if st.hw.cell_rfd = some c then readRfd st else .ok (st.mem c, st)

/-! ## Transmission -/

/-- After the last byte of the frame the transmission ends. -/
def endOfTX (st : RadioSt) : RadioSt :=
  if st.hw.TX_PC = st.hw.TXframe.FrameLength.toInt then
    let st := if st.hw.RxEnableWhenTxComplete then update (fun r => { r with rxEnable := 1 }) st else st
    setBit0 Reg.FSMSTAT1 SFDbm st
  else st

/-- The branch of `doTX` for a byte of the frame. -/
def sendByte (b : BitVec 8) (st : RadioSt) : RadioSt :=
  let st := endOfTX (update (fun r => { r with radio_out := b.setWidth 32 }) st)
  let TX_PC := st.hw.TX_PC + 1
  -- The count of the bytes that are left moves the position once more.
  update (fun r => { r with TX_PC := TX_PC + 1 })
    (setReg Reg.TXFIFOCNT (BitVec.ofInt 16 (st.hw.TXframe.FrameLength.toInt - TX_PC)) st)

/-- `doTX`. -/
def doTX (st : RadioSt) : Except Fault RadioSt :=
  if reg Reg.FSMSTAT1 st &&& SFDbm = 0 then
    .ok (update (fun r => { r with radio_out := SFD, TX_PC := 0 }) (setBit1 Reg.FSMSTAT1 SFDbm st))
  else do
    let b ← st.hw.TXFIFO.get st.hw.TX_PC
    return sendByte b st

/-- `set_ack`. -/
def setAck (pendingBit : Bool) (st : RadioSt) : RadioSt :=
  let pending : Bool := pendingBit ∨ reg Reg.FRMCTRL1 st &&& bmPENDING_OR ≠ 0 ∨
    (reg Reg.SRCMATCH st &&& bmAUTOPEND ≠ 0 ∧ st.hw.autopendEnable)
  let AckFCF : BitVec 32 := if pending then 2 ||| 0x10 else 2
  let bytes : List (BitVec 8) := [6, AckFCF.setWidth 8, (AckFCF >>> 8).setWidth 8,
    st.hw.RXframe.DataSequenceNumber, 0, 0]
  update (fun r => { r with TXFIFO := fun i => bytes.getD i (r.TXFIFO i) }) st

/-- `send_ack`. -/
def sendAck (st : RadioSt) : Except Fault RadioSt := do
  let st ← doTX (update (fun r => { r with ACKsent := false }) st)
  return if reg Reg.FSMSTAT1 st &&& SFDbm = 0 then update (fun r => { r with ACKsent := true }) st else st

/-! ## The state machine -/

/-- What `fsm` reads of the CSP, and what `rand` returns. -/
structure Strobes where
  STXON : Bool
  SRXON : Bool
  STXONCCA : Bool
  SRFOFF : Bool
  SFLUSHRX : Bool
  CCA : Int
  rand : Nat

/-- `start_timer`. A period of a whole number of seconds is 0 at every frequency of the radio, and a
positive `double` that is divided by 0 is infinite. -/
def startTimer (time : Nat) : RadioSt → RadioSt := update fun r =>
  let cycleTime := 1 / r.freq
  { r with Timer := if cycleTime = 0 then ⊤ else ((time / cycleTime / 1000000 : ℚ) : WithTop ℚ) }

/-- The assignments of a change of state. -/
def goto (state : FsmState) (stateNum : Int) : RadioSt → RadioSt :=
  update fun r => { r with state := state, stateNum := stateNum }

/-- The flags that each case of the `switch` sets. -/
def active (TX_ACTIVE RX_ACTIVE : Bool) : RadioSt → RadioSt :=
  update fun r => { r with TX_ACTIVE := TX_ACTIVE, RX_ACTIVE := RX_ACTIVE }

/-- The radio is disabled. -/
def toIdle (st : RadioSt) : RadioSt := request1 RFIDLE (goto .IDLE 0 st)

/-- The strobes, which come before the `switch`. -/
def strobes (csp : Strobes) (st : RadioSt) : RadioSt :=
  let st := if csp.STXON then startTimer 192 (goto .TX_CALIBRATION 32 st) else st
  let st := if csp.SRFOFF ∧ st.hw.TX_ACTIVE = false then toIdle st else st
  let st := if st.hw.RX_ACTIVE then
      let st := if csp.STXONCCA ∧ csp.CCA = 1 then startTimer 192 (goto .TX_CALIBRATION 32 st) else st
      if csp.SRXON ∨ csp.SFLUSHRX then startTimer 192 (goto .RX_CALIBRATION 2 st) else st
    else st
  if st.hw.TX_ACTIVE ∧ (csp.SRFOFF ∨ csp.SRXON) then startTimer 192 (goto .TX_SHUTDOWN 26 st) else st

def idle (st : RadioSt) : RadioSt :=
  let st := active false false st
  if st.hw.rxEnable ≠ 0 then startTimer 1 (goto .RX_CALIBRATION 2 st) else st

/-- The cases that wait for the timer and go on to another state. -/
def await (TX_ACTIVE RX_ACTIVE : Bool) (state : FsmState) (stateNum : Int) (st : RadioSt) : RadioSt :=
  let st := active TX_ACTIVE RX_ACTIVE st
  if st.hw.Timeout then update (fun r => { r with Timeout := false }) (goto state stateNum st) else st

def rxCalibration : RadioSt → RadioSt := await false true .SFD_WAIT 3

def rxRxwait : RadioSt → RadioSt := await false true .SFD_WAIT 3

def txCalibration : RadioSt → RadioSt := await true false .TX 34

def txRxTransit : RadioSt → RadioSt := await true false .SFD_WAIT 3

def ackCalibration : RadioSt → RadioSt := await true false .ACK 49

def txUnderflow : RadioSt → RadioSt := await true false .TX_FINAL 39

def sfdWait (st : RadioSt) : RadioSt :=
  let st := active false true st
  let st := if st.hw.rxEnable = 0 then toIdle st else st
  if st.hw.radio_in = SFD then goto .RX 7 (request0 SFD_IF (setBit1 Reg.FSMSTAT1 SFDbm st)) else st

/-- The frame has ended. -/
def toRxwait (st : RadioSt) : RadioSt :=
  let st := goto .RX_RXWAIT 14 st
  let st := if reg Reg.FSMCTRL st &&& bmRX2RX_TIME_OFF = 0 then
      update (fun r => { r with Timeout := true }) st
    else startTimer 192 st
  setBit0 Reg.FSMSTAT1 SFDbm st

/-- The states that follow the reception of a byte; a later one replaces an earlier one. -/
def afterByte (rand : Nat) (st : RadioSt) : RadioSt :=
  let st := if st.hw.overflow then goto .RX_OVERFLOW 17 st else st
  let delay := rand % 31 + 12
  let st := if st.hw.slotted_ack then startTimer (delay <<< 4) (goto .ACK_DELAY 55 st) else st
  let st := if st.hw.unslotted_ack then startTimer 192 (goto .ACK_CALIBRATION 48 st) else st
  let st := if st.hw.frame_not_for_me then goto .RXFIFO_RESET 16 st else st
  if st.hw.frame_completed then toRxwait st else st

def rx (rand : Nat) (st : RadioSt) : Except Fault RadioSt := do
  let st ← doRX (update (fun r => { r with
    slotted_ack := false, unslotted_ack := false, TX_ACTIVE := false, RX_ACTIVE := true }) st)
  return afterByte rand st

/-- Cells of the FIFO in `xram` are emptied. They have no callbacks. -/
def emptyCells (is : List Nat) (st : RadioSt) : RadioSt :=
  is.foldl (fun st i => setReg (0x6000 + (i : Int)) 0 st) st

@[simp] theorem emptyCells_hw (is : List Nat) (st : RadioSt) : (emptyCells is st).hw = st.hw := by
  induction is generalizing st with
  | nil => rfl
  | cons i is ih => exact ih _

def rxfifoReset (st : RadioSt) : RadioSt :=
  let st := update (fun r => { r with RXFIFO := fun _ => 0 }) (active false true st)
  goto .SFD_WAIT 3 (emptyCells (List.range 128) st)

def rxOverflow (csp : Strobes) (st : RadioSt) : RadioSt :=
  let st := active false false st
  if csp.SFLUSHRX then goto .RX_CALIBRATION 2 st else st

def tx (st : RadioSt) : Except Fault RadioSt := do
  let st ← doTX (active true false st)
  let st := if st.hw.underflow then
      update (fun r => { r with underflow := false }) (startTimer 2 (goto .TX_UNDERFLOW 56 st))
    else st
  return if st.hw.frame_sent then
      update (fun r => { r with frame_sent := false }) (goto .TX_FINAL 39 (request1 TXDONE st))
    else st

def txFinal (st : RadioSt) : RadioSt :=
  let st := active true false st
  if st.hw.rxEnable ≠ 0 then startTimer 190 (goto .TX_RX_TRANSIT 40 st) else goto .TX_SHUTDOWN 26 st

/-- What follows the last byte of an acknowledgment. -/
def afterAck (st : RadioSt) : RadioSt :=
  let clear := update fun r => { r with ACKsent := false }
  let st := request1 TXACKDONE (update (fun r => { r with radioAnswer := true }) st)
  let st := if st.hw.rxEnable = 0 then clear (goto .TX_SHUTDOWN 26 st) else st
  if st.hw.rxenmask ≠ 0 then clear (startTimer 190 (goto .TX_RX_TRANSIT 40 st)) else st

def ack (st : RadioSt) : Except Fault RadioSt := do
  let st := active true false st
  let st ← (if st.hw.cancelACK then .ok (goto .TX_SHUTDOWN 26 st) else sendAck st)
  return if st.hw.ACKsent then afterAck st else st

def ackDelay (st : RadioSt) : RadioSt :=
  let st := active true false st
  if st.hw.Timeout then startTimer 192 (goto .ACK_CALIBRATION 48 st) else st

def txShutdown (st : RadioSt) : RadioSt := toIdle (active true false st)

/-- The `switch` of `fsm`. -/
def fsmSwitch (csp : Strobes) (st : RadioSt) : Except Fault RadioSt :=
  match st.hw.state with
  | .IDLE => .ok (idle st)
  | .RX_CALIBRATION => .ok (rxCalibration st)
  | .SFD_WAIT => .ok (sfdWait st)
  | .RX => rx csp.rand st
  | .RX_RXWAIT => .ok (rxRxwait st)
  | .RXFIFO_RESET => .ok (rxfifoReset st)
  | .RX_OVERFLOW => .ok (rxOverflow csp st)
  | .TX_CALIBRATION => .ok (txCalibration st)
  | .TX => tx st
  | .TX_FINAL => .ok (txFinal st)
  | .TX_RX_TRANSIT => .ok (txRxTransit st)
  | .ACK_CALIBRATION => .ok (ackCalibration st)
  | .ACK => ack st
  | .ACK_DELAY => .ok (ackDelay st)
  | .TX_UNDERFLOW => .ok (txUnderflow st)
  | .TX_SHUTDOWN => .ok (txShutdown st)

/-- The status bits at the end of `fsm`. -/
def showActivity (st : RadioSt) : RadioSt :=
  if st.hw.TX_ACTIVE then setBit0 Reg.FSMSTAT1 bmRX_ACTIVE (setBit1 Reg.FSMSTAT1 bmTX_ACTIVE st)
  else if st.hw.RX_ACTIVE then setBit0 Reg.FSMSTAT1 bmTX_ACTIVE (setBit1 Reg.FSMSTAT1 bmRX_ACTIVE st)
  else setBit0 Reg.FSMSTAT1 bmTX_ACTIVE (setBit0 Reg.FSMSTAT1 bmRX_ACTIVE st)

@[simp] theorem showActivity_hw (st : RadioSt) : (showActivity st).hw = st.hw := by
  unfold showActivity
  split
  · rfl
  · split <;> rfl

/-- `fsm`. -/
def fsm (csp : Strobes) (st : RadioSt) : Except Fault RadioSt := do
  let st ← fsmSwitch csp (strobes csp st)
  return showActivity st

/-- The timer counts down, and the time is out when it is 0. -/
def countTimer (st : RadioSt) : RadioSt :=
  let st := if 0 < st.hw.Timer then update (fun r => { r with Timer := r.Timer.map (· - 1) }) st else st
  if st.hw.Timer = 0 then update (fun r => { r with Timeout := true }) st else st

/-- `tick`. The tick of the CSP comes before the last assignments, which read nothing that it changes. -/
def tick (csp : Strobes) (st : RadioSt) : Except Fault RadioSt := do
  let st ← fsm csp (countTimer st)
  return update (fun r => { r with
    Timeout := false, radio_in := if r.stateNum = 3 then SFD else 0 }) st

/-- The events that the CSP informs the radio of. -/
inductive RadioEvent
  | EV_RADIO_ACK | EV_NO_ACK
  deriving DecidableEq, Repr

/-- `happen`; `pendingBit` is the CSP's. -/
def happen (pendingBit : Bool) (st : RadioSt) : RadioEvent → RadioSt
  | .EV_RADIO_ACK => setAck pendingBit st
  | .EV_NO_ACK => update (fun r => { r with cancelACK := true }) st

/-! ## What a received frame changes -/

theorem setBit1_reg {a b : Int} (h : a ≠ b) (bits : TMem) (st : RadioSt) :
    reg a (setBit1 b bits st) = reg a st :=
  Function.update_of_ne (fun heq => h (by cases heq; rfl)) _ _

theorem setBit0_reg {a b : Int} (h : a ≠ b) (bits : TMem) (st : RadioSt) :
    reg a (setBit0 b bits st) = reg a st :=
  Function.update_of_ne (fun heq => h (by cases heq; rfl)) _ _

/-- The registers that a received frame changes. -/
def IsFrameReg (a : Int) : Prop :=
  a = Reg.FSMSTAT1 ∨ a = Reg.RXFIRST ∨ a = Reg.RXFIFOCNT ∨ IsMatchReg a

/-- The end of a frame changes what is known of the frame, and no position. -/
structure Judged (st st' : RadioSt) : Prop where
  hw : st'.hw = { st.hw with
    RXframe := st'.hw.RXframe
    autopendEnable := st'.hw.autopendEnable
    frame_not_for_me := st'.hw.frame_not_for_me
    overflow := st'.hw.overflow
    frame_completed := st'.hw.frame_completed
    slotted_ack := st'.hw.slotted_ack
    unslotted_ack := st'.hw.unslotted_ack }
  reg {a : Int} : ¬ IsFrameReg a → Radio.reg a st' = Radio.reg a st

namespace Judged

theorem refl (st : RadioSt) : Judged st st := ⟨rfl, fun _ => rfl⟩

theorem trans {st st' st'' : RadioSt} (h : Judged st st') (h' : Judged st' st'') : Judged st st'' where
  hw := h'.hw.trans (by conv_lhs => rw [h.hw])
  reg ha := (h'.reg ha).trans (h.reg ha)

theorem of_sameFrame {st st' : RadioSt} (h : SameFrame st st') : Judged st st' where
  hw := by
    rw [h.hw]
  reg ha := h.reg fun hmatch => ha (Or.inr (Or.inr (Or.inr hmatch)))

theorem request0 (bits : TMem) (st : RadioSt) : Judged st (Radio.request0 bits st) :=
  of_sameFrame (SameFrame.request0 bits st)

theorem setBit1 (bits : TMem) (st : RadioSt) : Judged st (Radio.setBit1 Reg.FSMSTAT1 bits st) where
  hw := rfl
  reg ha := setBit1_reg (fun heq => ha (Or.inl heq)) _ _

theorem setBit0 (bits : TMem) (st : RadioSt) : Judged st (Radio.setBit0 Reg.FSMSTAT1 bits st) where
  hw := rfl
  reg ha := setBit0_reg (fun heq => ha (Or.inl heq)) _ _

theorem filterFrame (st : RadioSt) : Judged st (Radio.filterFrame st).2 := ⟨rfl, fun _ => rfl⟩

theorem decodeFrame (st : RadioSt) : Judged st (Radio.decodeFrame st) := by
  have hframe (f : Frame → Frame) (st : RadioSt) : Judged st (updateFrame f st) := ⟨rfl, fun _ => rfl⟩
  have hsource (st : RadioSt) : Judged st (decodeSource st) := by
    unfold decodeSource
    split
    · exact (hframe _ st).trans (of_sameFrame (SameFrame.matchSource _))
    · exact refl st
  have hdest (st : RadioSt) : Judged st (decodeDest st) := by
    unfold decodeDest
    split
    · exact hframe _ st
    · exact refl st
  exact ((((hframe _ st).trans (hsource _)).trans (hdest _)).trans (request0 _ _)).trans (filterFrame _)

theorem acceptFrame (st : RadioSt) : Judged st (Radio.acceptFrame st) := by
  unfold Radio.acceptFrame
  by_cases hdest : destMatchAddress st.hw = false
  · rw [if_pos hdest]
    exact ⟨rfl, fun _ => rfl⟩
  rw [if_neg hdest]
  by_cases hlong : st.hw.RX_PC > 127
  · rw [if_pos hlong]
    exact ⟨rfl, fun _ => rfl⟩
  rw [if_neg hlong]
  by_cases hfilter : Radio.reg Reg.FRMFILT0 st &&& FRM_FILTER_EN ≠ 0
  · rw [if_pos hfilter]
    refine (filterFrame st).trans ?_
    generalize Radio.filterFrame st = m
    obtain ⟨accept_frame, st⟩ := m
    have hfifop (st : RadioSt) :
        Judged st (if atThreshold st then Radio.setBit1 Reg.FSMSTAT1 bmFIFOP st else st) := by
      split
      · exact setBit1 _ st
      · exact refl st
    cases accept_frame with
    | false => exact (hfifop st).trans (setBit0 _ _)
    | true => exact (request0 FRAME_ACCEPTED st).trans (hfifop _)
  · rw [if_neg hfilter]
    exact refl st

theorem askForAck (st : RadioSt) : Judged st (Radio.askForAck st) := by
  unfold Radio.askForAck
  split
  · exact ⟨rfl, fun _ => rfl⟩
  · exact refl st

theorem lastByte (st : RadioSt) : Judged st (Radio.lastByte st) := by
  have hflags := (setBit1 bmFIFOP st).trans (setBit0 SFDbm _)
  have hcompleted (st : RadioSt) : Judged st (update (fun r => { r with frame_completed := true }) st) :=
    ⟨rfl, fun _ => rfl⟩
  exact ((((hflags.trans (request0 _ _)).trans (decodeFrame _)).trans (acceptFrame _)).trans
    (hcompleted _)).trans (askForAck _)

end Judged

theorem lastByte_frame_completed (st : RadioSt) : (lastByte st).hw.frame_completed = true := by
  have hack (st : RadioSt) : (askForAck st).hw.frame_completed = st.hw.frame_completed := by
    unfold askForAck
    split <;> rfl
  exact hack _

/-- The length of the frame from the byte that is received on. -/
def nextLength (st : RadioSt) : Int :=
  if st.hw.RX_PC = 0 then ((st.hw.radio_in &&& 0x7F).toNat : Int) else st.hw.length

/-- What a received byte changes. -/
structure Received (st st' : RadioSt) : Prop where
  hw : st'.hw = { st.hw with
    RXframe := st'.hw.RXframe
    autopendEnable := st'.hw.autopendEnable
    frame_not_for_me := st'.hw.frame_not_for_me
    overflow := st'.hw.overflow
    frame_completed := st'.hw.frame_completed
    slotted_ack := st'.hw.slotted_ack
    unslotted_ack := st'.hw.unslotted_ack
    RXFIFO := st'.hw.RXFIFO
    RX_PC := st'.hw.RX_PC
    length := st'.hw.length }
  length : st'.hw.length = nextLength st
  RX_PC : st'.hw.RX_PC = if st.hw.RX_PC = nextLength st then 0 else st.hw.RX_PC + 1
  last : st.hw.RX_PC = nextLength st → st'.hw.frame_completed = true
  other : st.hw.RX_PC ≠ nextLength st → st'.hw = { st.hw with
    RXFIFO := st'.hw.RXFIFO
    RX_PC := st.hw.RX_PC + 1
    length := nextLength st }

theorem storeRX_hw {i : Int} {b : BitVec 8} {st st' : RadioSt} (h : storeRX i b st = .ok st') :
    st'.hw = { st.hw with RXFIFO := st'.hw.RXFIFO } := by
  unfold storeRX at h
  obtain ⟨RXFIFO, -, hst⟩ := bind_eq_ok.mp h
  cases hst
  rfl

theorem statusWord_hw {st st' : RadioSt} (h : statusWord st = .ok st') :
    st'.hw = { st.hw with RXFIFO := st'.hw.RXFIFO } := by
  unfold statusWord at h
  split at h
  · obtain ⟨st₁, hst₁, hst'⟩ := bind_eq_ok.mp h
    rw [storeRX_hw hst', storeRX_hw hst₁]
  · cases h
    rfl

/-- The registers follow the byte, and the first byte is the length. -/
theorem countByte_hw (st : RadioSt) : (countByte st).hw = { st.hw with length := nextLength st } := by
  have hfifop (st : RadioSt) : (if atThreshold st ∧ reg Reg.FRMFILT0 st &&& FRM_FILTER_EN = 0 then
      setBit1 Reg.FSMSTAT1 bmFIFOP st else st).hw = st.hw := by
    split <;> rfl
  refine (hfifop _).trans ?_
  by_cases hfirst : st.hw.RX_PC = 0
  · rw [setReg_hw, if_pos hfirst, nextLength, if_pos hfirst]
    rfl
  · rw [setReg_hw, if_neg hfirst, nextLength, if_neg hfirst]
    rfl

theorem countByte_reg {a : Int} (ha : ¬ IsFrameReg a) (st : RadioSt) :
    reg a (countByte st) = reg a st := by
  have hfsmstat1 : a ≠ Reg.FSMSTAT1 := fun heq => ha (Or.inl heq)
  have hrxfirst : a ≠ Reg.RXFIRST := fun heq => ha (Or.inr (Or.inl heq))
  have hrxfifocnt : a ≠ Reg.RXFIFOCNT := fun heq => ha (Or.inr (Or.inr (Or.inl heq)))
  have hfifop (st : RadioSt) : reg a (if atThreshold st ∧ reg Reg.FRMFILT0 st &&& FRM_FILTER_EN = 0 then
      setBit1 Reg.FSMSTAT1 bmFIFOP st else st) = reg a st := by
    split
    · exact setBit1_reg hfsmstat1 _ st
    · rfl
  have hfirst (st : RadioSt) : reg a (if st.hw.RX_PC = 0 then firstByte st else st) = reg a st := by
    split
    · exact (setBit1_reg hfsmstat1 bmFIFO _).trans (setReg_reg hrxfirst _ st)
    · rfl
  exact (hfifop _).trans ((hfirst _).trans (setReg_reg hrxfifocnt _ st))

theorem Received.doRX {st st' : RadioSt} (h : Radio.doRX st = .ok st') : Received st st' := by
  unfold Radio.doRX at h
  obtain ⟨st₁, hst₁, hrest⟩ := bind_eq_ok.mp h
  have hstore := storeRX_hw hst₁
  have hcount := countByte_hw st₁
  have hlength : nextLength st₁ = nextLength st := by
    rw [nextLength, nextLength, hstore]
  rw [hstore, hlength] at hcount
  dsimp only at hrest hcount
  generalize countByte st₁ = st₂ at hcount hrest
  by_cases hlast : st.hw.RX_PC = nextLength st
  · rw [if_pos (by rw [hcount]; exact hlast)] at hrest
    obtain ⟨st₃, hst₃, hst'⟩ := bind_eq_ok.mp hrest
    cases hst'
    have hstatus := statusWord_hw hst₃
    have hcompleted : st₃.hw.frame_completed = true := by
      rw [hstatus]
      exact lastByte_frame_completed st₂
    rw [(Judged.lastByte st₂).hw, hcount] at hstatus
    constructor
    · rw [setRX_PC, update, hstatus]
    · rw [setRX_PC, update, hstatus]
    · rw [setRX_PC, update, if_pos hlast]
    · exact fun _ => hcompleted
    · exact fun hne => absurd hlast hne
  · rw [if_neg (by rw [hcount]; exact hlast)] at hrest
    cases hrest
    constructor
    · rw [setRX_PC, update, hcount]
    · rw [setRX_PC, update, hcount]
    · rw [setRX_PC, update, hcount, if_neg hlast]
    · exact fun heq => absurd heq hlast
    · intro
      rw [setRX_PC, update, hcount]

/-- What a byte that is sent changes. -/
structure Sent (st st' : RadioSt) : Prop where
  hw : st'.hw = { st.hw with
    radio_out := st'.hw.radio_out
    TX_PC := st'.hw.TX_PC
    rxEnable := st'.hw.rxEnable }

theorem endOfTX_hw (st : RadioSt) :
    (endOfTX st).hw = { st.hw with rxEnable := (endOfTX st).hw.rxEnable } := by
  unfold endOfTX
  split
  · dsimp only
    split <;> rfl
  · rfl

theorem sendByte_hw (b : BitVec 8) (st : RadioSt) : (sendByte b st).hw = { st.hw with
    radio_out := b.setWidth 32
    TX_PC := st.hw.TX_PC + 1 + 1
    rxEnable := (sendByte b st).hw.rxEnable } := by
  have hend := endOfTX_hw (update (fun r => { r with radio_out := b.setWidth 32 }) st)
  unfold sendByte
  dsimp only [update, setReg_hw] at hend ⊢
  rw [hend]

theorem Sent.doTX {st st' : RadioSt} (h : Radio.doTX st = .ok st') : Sent st st' := by
  unfold Radio.doTX at h
  by_cases hsfd : reg Reg.FSMSTAT1 st &&& SFDbm = 0
  · rw [if_pos hsfd] at h
    cases h
    exact ⟨rfl⟩
  · rw [if_neg hsfd] at h
    obtain ⟨b, -, hst⟩ := bind_eq_ok.mp h
    cases hst
    have hbyte := sendByte_hw b st
    generalize sendByte b st = st' at hbyte
    constructor
    rw [hbyte]

end Radio

end Ucsim.S51
