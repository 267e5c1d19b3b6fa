import Mathlib.Algebra.Order.Monoid.WithTop
import Mathlib.Algebra.Order.Ring.Rat
import Ucsim.Logic.Table
import Ucsim.S51.Element

/-!
# The radio

The data of `cl_CC2530_radio` and its callbacks on register writes. The `double` that the timer is becomes
a rational number or `⊤`, which is what a division by zero gives. The elapsed time, which nothing but a
printed text uses, is left out.
-/

namespace Ucsim.S51

open Logic

namespace Reg

def PANID_00_0 : Int := 0x6100
def SRCMASK0 : Int := 0x6160
def SRCMASK : Int := 0x6160
def SRCRESINDEX : Int := 0x6163
def SRCEXTPENDEN0 : Int := 0x6164
def SRCSHORTPENDEN0 : Int := 0x6167
def FRMFILT0 : Int := 0x6180
def FRMFILT1 : Int := 0x6181
def SRCMATCH : Int := 0x6182
def SRCSHORTEN0 : Int := 0x6183
def SRCEXTEN0 : Int := 0x6186
def FRMCTRL0 : Int := 0x6189
def FRMCTRL1 : Int := 0x618A
def FSMSTAT1 : Int := 0x6193
def FIFOPCTRL : Int := 0x6194
def FSMCTRL : Int := 0x6195
def RXFIRST : Int := 0x619A
def RXFIFOCNT : Int := 0x619B
def TXFIFOCNT : Int := 0x619C
def TXFIRST_PTR : Int := 0x61A1
def RFIRQM0 : Int := 0x61A3
def RFIRQM1 : Int := 0x61A4
def FSCAL1 : Int := 0x61AE
def RFIRQF0 : Int := 0xE9
def RFIRQF1 : Int := 0x91
def S1CON : Int := 0x9B

end Reg

/-- The states of the radio. -/
inductive FsmState
  | IDLE | RX_CALIBRATION | SFD_WAIT | RX | RX_RXWAIT | RXFIFO_RESET | RX_OVERFLOW | TX_CALIBRATION
  | TX | TX_FINAL | TX_RX_TRANSIT | ACK_CALIBRATION | ACK | ACK_DELAY | TX_UNDERFLOW | TX_SHUTDOWN
  deriving DecidableEq, Repr

/-- The fields of a decoded frame. An `int` has 32 bits. -/
structure Frame where
  FrameLength : BitVec 8
  FCF : BitVec 32
  FrameType : BitVec 32
  securityEnabled : Bool
  FramePending : Bool
  AckReq : Bool
  PanCompression : Bool
  DataSequenceNumber : BitVec 8
  SrcAddressMode : BitVec 32
  SourceAddress : BitVec 32
  SourcePanID : BitVec 32
  ExtSrcAddressH : BitVec 32
  ExtSrcAddressL : BitVec 32
  DestAddressMode : BitVec 32
  DestinationAddress : BitVec 32
  DestinationPanID : BitVec 32
  ExtDestAddressH : BitVec 32
  ExtDestAddressL : BitVec 32
  deriving DecidableEq, Inhabited

/-- The source address tables. -/
structure SourceTables where
  ExtAddr : Table 12 (Table 2 (BitVec 32))
  shortAddr : Table 24 TMem
  PanId : Table 24 TMem

/-- The radio. The positions in the FIFOs are counters that no `int` overflow is near. -/
structure Radio where
  cell_rfd : Option Site
  cell_clkconcmd : Option Site
  RXframe : Frame
  TXframe : Frame
  state : FsmState
  TXFIFO : Table 128 (BitVec 8)
  RXFIFO : Table 128 (BitVec 8)
  tables : SourceTables
  slotted_ack : Bool
  unslotted_ack : Bool
  frame_completed : Bool
  overflow : Bool
  frame_not_for_me : Bool
  Timeout : Bool
  TX_ACTIVE : Bool
  RX_ACTIVE : Bool
  underflow : Bool
  frame_sent : Bool
  RxEnableWhenTxComplete : Bool
  cancelACK : Bool
  ACKsent : Bool
  autopendEnable : Bool
  /-- In Hz: every assignment is a whole number. -/
  freq : Nat
  Timer : WithTop ℚ
  RX_PC : Int
  TX_PC : Int
  TXFifoPosition : Int
  length : Int
  ReadC : Int
  radio_in : BitVec 32
  radio_out : BitVec 32
  stateNum : Int
  rxEnable : Int
  rxenmask : Int
  ShortAddress : BitVec 32
  PanID : BitVec 32
  ExtAddressH : BitVec 32
  ExtAddressL : BitVec 32
  MovInstruction : Bool
  /-- `CSP->radioAnswer`. -/
  radioAnswer : Bool

/-- The radio and the memory. -/
abbrev RadioSt := ElementSt Radio

namespace Radio

/-! ## Registers -/

/-- `get` of a register. All of them are cells of `xram`, the interrupt flags too. -/
def reg (a : Int) (st : RadioSt) : TMem := st.mem (.cell .xram a)

/-- `set` of a register. -/
def setReg (a : Int) (v : TMem) (st : RadioSt) : RadioSt :=
  { st with mem := Function.update st.mem (.cell .xram a) (v &&& 0xff) }

/-- `set_bit1`. -/
def setBit1 (a : Int) (bits : TMem) (st : RadioSt) : RadioSt :=
  { st with mem := Function.update st.mem (.cell .xram a) (reg a st ||| (bits &&& 0xff)) }

/-- `set_bit0`. -/
def setBit0 (a : Int) (bits : TMem) (st : RadioSt) : RadioSt :=
  { st with mem := Function.update st.mem (.cell .xram a) (reg a st &&& ~~~(bits &&& 0xff)) }

@[simp] theorem setReg_hw (a : Int) (v : TMem) (st : RadioSt) : (setReg a v st).hw = st.hw := rfl

@[simp] theorem setBit1_hw (a : Int) (v : TMem) (st : RadioSt) : (setBit1 a v st).hw = st.hw := rfl

@[simp] theorem setBit0_hw (a : Int) (v : TMem) (st : RadioSt) : (setBit0 a v st).hw = st.hw := rfl

/-- `reset`, as far as the radio's own data. The frames, `ACKsent` and `radioAnswer` are not
initialized. -/
def init (RXframe TXframe : Frame) (ACKsent radioAnswer : Bool) (mem : Site → TMem) : Radio :=
  let byte (a : Int) : BitVec 32 := (mem (.cell .xram a)).setWidth 32
  { -- `register_cell` is called neither for `RFD` nor for `CLKCONCMD`.
    cell_rfd := none
    cell_clkconcmd := none
    RXframe := RXframe
    TXframe := TXframe
    state := .IDLE
    -- The first bytes of `RADIOTEST`, and its payload.
    RXFIFO := fun i => ([0x40, 0x88, 0x01, 0, 0x3D, 0x0B, 0x71, 0xA8, 0x7D, 0x83, 0x64, 0x50] :
      List (BitVec 8)).getD i 0x0C
    TXFIFO := fun i => (mem (.cell .xram (0x6080 + (i : Int)))).setWidth 8
    tables := { ExtAddr := fun _ _ => 0xCCCCCCCC, shortAddr := fun _ => 0xCCCC, PanId := fun _ => 0xCCCC }
    slotted_ack := false
    unslotted_ack := false
    frame_completed := false
    overflow := false
    frame_not_for_me := false
    Timeout := false
    TX_ACTIVE := false
    RX_ACTIVE := false
    underflow := false
    frame_sent := false
    RxEnableWhenTxComplete := false
    cancelACK := false
    ACKsent := ACKsent
    autopendEnable := false
    freq := 32000000
    Timer := 0
    RX_PC := 0
    TX_PC := 0
    TXFifoPosition := 0
    length := 0
    ReadC := 0
    radio_in := 0
    radio_out := 0
    stateNum := 0
    rxEnable := 0
    rxenmask := 0
    ShortAddress := byte 0x6175 <<< 8 + byte 0x6174
    PanID := byte 0x6173 <<< 8 + byte 0x6172
    ExtAddressH := byte 0x6171 <<< 24 + byte 0x6170 <<< 16 + byte 0x616F <<< 8 + byte 0x616E
    ExtAddressL := byte 0x616D <<< 24 + byte 0x616C <<< 16 + byte 0x616B <<< 8 + byte 0x616A
    MovInstruction := false
    radioAnswer := radioAnswer }

/-- A memory with the given bytes in `xram` and zeros everywhere else. -/
def xramOf (bytes : List (Int × TMem)) : Site → TMem
  | .cell .xram a => (bytes.lookup a).getD 0
  | _ => 0

/-! ## Register writes -/

/-- `IsWithinRange`: the number of a cell of the source address table, and 0 of other cells. -/
def isWithinRange : Site → Int
  | .cell .xram diff => if diff ≥ 0x6100 ∧ diff ≤ 0x615F then diff else 0
  | _ => 0

/-- The branch of `write` for `CLKCONCMD`. -/
def writeClkconcmd (v : TMem) (st : RadioSt) : RadioSt :=
  let tickspd := 1 <<< ((v &&& 0x38) >>> 3).toNat
  { st with hw := { st.hw with freq := 32000000 / tickspd } }

/-- The branch of `write` for `RFD`. -/
def writeRfd (v : TMem) (st : RadioSt) : Except Fault RadioSt := do
  let r := st.hw
  let TXFIFO ← r.TXFIFO.set r.TXFifoPosition (v.setWidth 8)
  let TXFifoPosition := r.TXFifoPosition + 1
  return { st with hw := { r with
    TXFIFO := TXFIFO
    TXFifoPosition := if TXFifoPosition ≥ 128 then 0 else TXFifoPosition } }

/-- The short address table: one byte of a 16-bit word. -/
def lowByte (v w : TMem) : TMem := (w &&& 0xFF00) + (v &&& 0xFF)

def highByte (v w : TMem) : TMem := (w &&& (0x00FF : TMem)) + ((v &&& (0xFF : TMem)) <<< 8)

/-- The extended address table: byte `j` of a 32-bit word. -/
def extByte (v : TMem) (j : Nat) (w : BitVec 32) : BitVec 32 :=
  (w &&& (((0xFF : BitVec 32) <<< (j <<< 3)) ^^^ (0xFFFFFFFF : BitVec 32))) |||
    (v.setWidth 32 <<< (j <<< 3))

/-- The `switch` of `write`. -/
def updateShort (cellNumber SourceAddrTableIDX : Int) (v : TMem) (t : SourceTables) :
    Except Fault SourceTables :=
  match cellNumber - SourceAddrTableIDX <<< (2 : Nat) with
  | 0 => do return { t with PanId := ← t.PanId.modify SourceAddrTableIDX (lowByte v) }
  | 1 => do return { t with PanId := ← t.PanId.modify SourceAddrTableIDX (highByte v) }
  | 2 => do return { t with shortAddr := ← t.shortAddr.modify SourceAddrTableIDX (lowByte v) }
  | 3 => do return { t with shortAddr := ← t.shortAddr.modify SourceAddrTableIDX (highByte v) }
  | _ => .error .assertion

/-- The update of `ExtAddr`. -/
def updateExt (cellNumber SourceAddrTableIDX : Int) (v : TMem) (t : SourceTables) :
    Except Fault SourceTables := do
  let j := cellNumber - SourceAddrTableIDX <<< (3 : Nat)
  let n : Int := if j ≥ 4 then 1 else 0
  let j := if j ≥ 4 then j - 4 else j
  let row ← t.ExtAddr.get SourceAddrTableIDX
  let row ← row.modify n (extByte v j.toNat)
  return { t with ExtAddr := ← t.ExtAddr.set SourceAddrTableIDX row }

/-- The branch of `write` for the source address tables. -/
def writeSourceTable (cellNumber : Int) (v : TMem) (t : SourceTables) : Except Fault SourceTables := do
  let SourceAddrTableIDX := cellNumber >>> (2 : Nat)
  let t ← updateShort cellNumber SourceAddrTableIDX v t
  updateExt cellNumber (SourceAddrTableIDX >>> (1 : Nat)) v t

/-- `write`. -/
def write (c : Site) (v : TMem) (st : RadioSt) : Except Fault RadioSt := do
  let st := if st.hw.cell_clkconcmd = some c then writeClkconcmd v st else st
  let st ← (if st.hw.cell_rfd = some c then writeRfd v st else .ok st)
  if isWithinRange c ≠ 0 then
    let tables ← writeSourceTable (isWithinRange c - 0x6100) v st.hw.tables
    return { st with hw := { st.hw with tables := tables } }
  else return st

/-- What a write changes. -/
structure Written (st st' : RadioSt) : Prop where
  mem : st'.mem = st.mem
  hw : st'.hw = { st.hw with
    freq := st'.hw.freq
    TXFIFO := st'.hw.TXFIFO
    TXFifoPosition := st'.hw.TXFifoPosition
    tables := st'.hw.tables }
  freq : st'.hw.freq = st.hw.freq ∨ ∃ v : TMem, st'.hw.freq = 32000000 / 1 <<< ((v &&& 0x38) >>> 3).toNat
  TXFifoPosition : st'.hw.TXFifoPosition = st.hw.TXFifoPosition ∨
    st'.hw.TXFifoPosition = if st.hw.TXFifoPosition + 1 ≥ 128 then 0 else st.hw.TXFifoPosition + 1

theorem Written.write {c : Site} {v : TMem} {st st' : RadioSt} (h : Radio.write c v st = .ok st') :
    Written st st' := by
  unfold Radio.write at h
  have hclk : Written st (if st.hw.cell_clkconcmd = some c then writeClkconcmd v st else st) := by
    split
    · exact ⟨rfl, rfl, .inr ⟨v, rfl⟩, .inl rfl⟩
    · exact ⟨rfl, rfl, .inl rfl, .inl rfl⟩
  have hpos : (if st.hw.cell_clkconcmd = some c then writeClkconcmd v st else st).hw.TXFifoPosition
      = st.hw.TXFifoPosition := by
    split <;> rfl
  dsimp only at h
  generalize (if st.hw.cell_clkconcmd = some c then writeClkconcmd v st else st) = st₀ at h hclk hpos
  obtain ⟨st₁, hrfd, hrest⟩ := bind_eq_ok.mp h
  have hst₁ : Written st st₁ := by
    split at hrfd
    · obtain ⟨TXFIFO, -, hst⟩ := bind_eq_ok.mp hrfd
      cases hst
      refine ⟨hclk.mem, by rw [hclk.hw], hclk.freq, .inr ?_⟩
      rw [← hpos]
    · cases hrfd
      exact hclk
  split at hrest
  · obtain ⟨tables, -, hst⟩ := bind_eq_ok.mp hrest
    cases hst
    exact ⟨hst₁.mem, by rw [hst₁.hw], hst₁.freq, hst₁.TXFifoPosition⟩
  · cases hrest
    exact hst₁

/-- The cells of the source address table. -/
def tableCells : List Site := (List.range 96).map fun i : Nat => .cell .xram (Reg.PANID_00_0 + i)

/-- The cells that `make_radio_watched_cells` registers, each of them once. -/
def registered : List Site :=
  [Reg.RFIRQF0, Reg.S1CON, Reg.RFIRQF1].map (Site.cell .xram) ++
  ((List.range 0x20).map fun i : Nat => Site.cell .xram (Reg.FRMFILT0 + i)) ++
  ((List.range 0x0C).map fun i : Nat => Site.cell .xram (Reg.TXFIRST_PTR + i)) ++
  ((List.range 0x12).map fun i : Nat => Site.cell .xram (Reg.FSCAL1 + i)) ++
  ((List.range 4).map fun i : Nat => Site.cell .xram (Reg.SRCMASK0 + i)) ++ tableCells

/-- The radio as an element of the board. Its cells read as they are: none of them is `RFD`. -/
def element : Element Radio where
  cathegory := .cc2530Radio
  registered := registered
  read c st := st.mem c
  write c v st :=
    match write c v st with
    | .ok st => st
    | .error _ => st
  registered_core := by decide +kernel
  registered_code := by decide +kernel
  write_bytes c v st h := by
    split
    next st' hst =>
      rw [(Written.write hst).mem]
      exact h
    next => exact h

end Radio

end Ucsim.S51
