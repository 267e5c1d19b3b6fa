import Ucsim.S51.FrameFilter
import Ucsim.S51.SourceTable

/-!
# Frame decoding

`Decode_frame` takes the fields of a frame from the `RXFIFO` and looks its source up in the tables.
-/

namespace Ucsim.S51

open Logic

namespace Radio

def bmRFIF : TMem := 0x03
def bmAUTOPEND : TMem := 0x02

def RXPKTDONE : TMem := 0x40
def FRAME_ACCEPTED : TMem := 0x20
def SRC_MATCH_FOUND : TMem := 0x10
def SRC_MATCH_DONE : TMem := 0x08
def SFD_IF : TMem := 0x02

/-- An interrupt flag is set if its mask allows it. The flag and the mask have the same bit. -/
def request (mask flag : Int) (bits : TMem) (st : RadioSt) : RadioSt :=
  if reg mask st &&& bits ≠ 0 then setBit1 Reg.S1CON bmRFIF (setBit1 flag bits st) else st

/-- The flags of `RFIRQF0`. -/
def request0 (bits : TMem) (st : RadioSt) : RadioSt := request Reg.RFIRQM0 Reg.RFIRQF0 bits st

/-- The frame is decoded further. -/
def updateFrame (f : Frame → Frame) (st : RadioSt) : RadioSt :=
  { st with hw := { st.hw with RXframe := f st.hw.RXframe } }

/-- A mask of one bit. -/
theorem and_bit {w : Nat} (x : BitVec w) {k : Nat} (hk : k < w) :
    decide (x &&& BitVec.twoPow w k ≠ 0) = x.getLsbD k := by
  have hne : BitVec.twoPow w k ≠ 0 := by
    intro h
    have hbit := congrArg (fun y : BitVec w => y.getLsbD k) h
    simp [hk] at hbit
  rw [BitVec.and_twoPow]
  cases x.getLsbD k with
  | true => exact decide_eq_true hne
  | false => exact decide_eq_false (not_not.mpr rfl)

/-! ## The fields -/

/-- A byte of the FIFO as an `int`. -/
def byteAt (fifo : Table 128 (BitVec 8)) (i : Fin 128) : BitVec 32 := (fifo i).setWidth 32

/-- Two bytes, the more significant one first. -/
def wordAt (fifo : Table 128 (BitVec 8)) (i j : Fin 128) : BitVec 32 :=
  byteAt fifo i <<< 8 + byteAt fifo j

/-- The first fields of a frame, which are the same for all addressing modes. -/
def frameControl (fifo : Table 128 (BitVec 8)) (f : Frame) : Frame :=
  let FCF := (byteAt fifo 1 &&& (0xFF : BitVec 32)) <<< 8 + (byteAt fifo 2 &&& 0xFF)
  { f with
    FrameLength := fifo 0
    FCF := FCF
    FrameType := FCF &&& 7
    securityEnabled := FCF &&& 8 ≠ 0
    -- The mask is a decimal 10.
    FramePending := FCF &&& 10 ≠ 0
    AckReq := FCF &&& 0x20 ≠ 0
    PanCompression := FCF &&& 0x40 ≠ 0
    DestAddressMode := FCF.sshiftRight 0xA &&& 3
    SrcAddressMode := FCF.sshiftRight 0xE &&& 3
    SourceAddress := 0
    ExtSrcAddressH := 0
    ExtSrcAddressL := 0 }

/-- The half of an extended address from position `base` on is added to `half`. The first of the shifts
is by 32 bits, which C leaves undefined; here it is what the processor makes of it, a shift by none. -/
def addHalf (fifo : Table 128 (BitVec 8)) (base : Nat) (hbase : base + 4 ≤ 128) (half : BitVec 32) :
    BitVec 32 :=
  (List.finRange 4).foldl (fun sum (i : Fin 4) =>
    sum + byteAt fifo ⟨base + i, by omega⟩ <<< ((4 - i.val) <<< 3 % 32)) half

/-- The source address. -/
def sourceAddress (fifo : Table 128 (BitVec 8)) (f : Frame) : Frame :=
  if f.SrcAddressMode = 2 then
    if f.DestAddressMode = 2 then
      { f with SourceAddress := wordAt fifo 10 11, SourcePanID := wordAt fifo 8 9 }
    else if f.DestAddressMode = 3 then
      { f with SourceAddress := wordAt fifo 16 17, SourcePanID := wordAt fifo 14 15 }
    else f
  else if f.SrcAddressMode = 3 then
    if f.DestAddressMode = 2 then
      { f with
        ExtSrcAddressH := addHalf fifo 10 (by decide) f.ExtSrcAddressH
        ExtSrcAddressL := addHalf fifo 14 (by decide) f.ExtSrcAddressL }
    else if f.DestAddressMode = 3 then
      { f with
        ExtSrcAddressH := addHalf fifo 16 (by decide) f.ExtSrcAddressH
        ExtSrcAddressL := addHalf fifo 20 (by decide) f.ExtSrcAddressL }
    else f
  else f

/-- The destination address. -/
def destAddress (fifo : Table 128 (BitVec 8)) (f : Frame) : Frame :=
  if f.DestAddressMode = 2 then
    { f with DestinationPanID := wordAt fifo 4 5, DestinationAddress := wordAt fifo 6 7 }
  else if f.DestAddressMode = 3 then
    { f with
      ExtDestAddressH := addHalf fifo 4 (by decide) f.ExtDestAddressH
      ExtDestAddressL := addHalf fifo 8 (by decide) f.ExtDestAddressL }
  else f

/-! ## Source address matching -/

def setAutopendEnable (b : Bool) (st : RadioSt) : RadioSt :=
  { st with hw := { st.hw with autopendEnable := b } }

/-- A source address of the tables has been found: `mask` are its bits in the register
`maskRegNum` of the groups that begin at `pendEn` and `SRCMASK`. -/
def found (pendEn : Int) (maskRegNum : Nat) (pendMask mask index : TMem) (st : RadioSt) : RadioSt :=
  let st := setAutopendEnable (reg (pendEn + maskRegNum) st &&& pendMask ≠ 0) st
  -- The callback of the cell leaves the radio alone.
  setReg Reg.SRCRESINDEX index (setReg (Reg.SRCMASK + maskRegNum) mask st)

/-- One pass of the loop over the extended addresses. -/
def matchExt (m : Bool × RadioSt) (i : Fin 12) : Bool × RadioSt :=
  let st := m.2
  let f := st.hw.RXframe
  let row := st.hw.tables.ExtAddr i
  if f.ExtSrcAddressH = row 1 ∧ f.ExtSrcAddressL = row 0 then
    let maskRegNum := i.val / 4
    let PositionInReg := (i.val % 4) <<< 1
    let mask : TMem := (3 : TMem) <<< PositionInReg
    if reg (Reg.SRCEXTEN0 + maskRegNum) st &&& mask ≠ 0 then
      (true, found Reg.SRCEXTPENDEN0 maskRegNum ((1 : TMem) <<< PositionInReg) mask
        ((0x20 : TMem) ||| BitVec.ofNat 16 (i.val <<< 1)) st)
    else m
  else m

/-- One pass of the loop over the short addresses. -/
def matchShort (m : Bool × RadioSt) (i : Fin 24) : Bool × RadioSt :=
  let st := m.2
  let f := st.hw.RXframe
  if f.SourceAddress = (st.hw.tables.shortAddr i).setWidth 32 ∧
      f.SourcePanID = (st.hw.tables.PanId i).setWidth 32 then
    let maskRegNum := i.val / 8
    let mask : TMem := (1 : TMem) <<< (i.val % 8)
    if reg (Reg.SRCSHORTEN0 + maskRegNum) st &&& mask ≠ 0 then
      (true, found Reg.SRCSHORTPENDEN0 maskRegNum mask mask (BitVec.ofNat 16 i.val) st)
    else m
  else m

/-- The comparison of the source address with those in the tables. -/
def matchSource (st : RadioSt) : RadioSt :=
  let m := (List.finRange 24).foldl matchShort ((List.finRange 12).foldl matchExt (false, st))
  let st := m.2
  let st := if st.hw.autopendEnable ∧ reg Reg.SRCMATCH st &&& bmAUTOPEND ≠ 0 then
      setReg Reg.SRCRESINDEX (reg Reg.SRCRESINDEX st ||| (0x40 : TMem)) st
    else st
  if m.1 then request0 SRC_MATCH_FOUND st else setReg Reg.SRCRESINDEX 0x3F st

/-- The part of `Decode_frame` for the source address. -/
def decodeSource (st : RadioSt) : RadioSt :=
  if st.hw.RXframe.SrcAddressMode ≠ 0 then
    matchSource (updateFrame (sourceAddress st.hw.RXFIFO) st)
  else st

/-- The part for the destination address. -/
def decodeDest (st : RadioSt) : RadioSt :=
  if st.hw.RXframe.DestAddressMode ≠ 0 then updateFrame (destAddress st.hw.RXFIFO) st else st

/-- `Decode_frame`. The value of its call of `filter_frame` is ignored. -/
def decodeFrame (st : RadioSt) : RadioSt :=
  let st := decodeDest (decodeSource (updateFrame (frameControl st.hw.RXFIFO) st))
  (filterFrame (request0 SRC_MATCH_DONE st)).2

/-! ## Only the frame control and the addresses are decoded -/

@[simp] theorem request_hw (mask flag : Int) (bits : TMem) (st : RadioSt) :
    (request mask flag bits st).hw = st.hw := by
  unfold request
  split <;> rfl

theorem request_mem {mask flag a : Int} (bits : TMem) (st : RadioSt) (hflag : a ≠ flag)
    (hs1con : a ≠ Reg.S1CON) : reg a (request mask flag bits st) = reg a st := by
  unfold request
  split
  · have hne (b : Int) (h : a ≠ b) : Site.cell .xram a ≠ .cell .xram b := fun heq => h (by cases heq; rfl)
    simp only [reg, setBit1, Function.update_of_ne (hne _ hflag), Function.update_of_ne (hne _ hs1con)]
  · rfl

theorem setReg_reg {a b : Int} (h : a ≠ b) (v : TMem) (st : RadioSt) :
    reg a (setReg b v st) = reg a st :=
  Function.update_of_ne (fun heq => h (by cases heq; rfl)) _ _

/-- The registers that a match of the source address changes. -/
def IsMatchReg (a : Int) : Prop :=
  a = Reg.S1CON ∨ a = Reg.RFIRQF0 ∨ Reg.SRCMASK ≤ a ∧ a ≤ Reg.SRCRESINDEX

/-- What a match of the source address leaves alone. -/
structure SameFrame (st st' : RadioSt) : Prop where
  hw : st'.hw = { st.hw with autopendEnable := st'.hw.autopendEnable }
  reg {a : Int} : ¬ IsMatchReg a → Radio.reg a st' = Radio.reg a st

namespace SameFrame

theorem refl (st : RadioSt) : SameFrame st st := ⟨rfl, fun _ => rfl⟩

theorem trans {st st' st'' : RadioSt} (h : SameFrame st st') (h' : SameFrame st' st'') :
    SameFrame st st'' where
  hw := h'.hw.trans (by conv_lhs => rw [h.hw])
  reg ha := (h'.reg ha).trans (h.reg ha)

theorem setReg {a : Int} (ha : IsMatchReg a) (v : TMem) (st : RadioSt) :
    SameFrame st (Radio.setReg a v st) where
  hw := rfl
  reg hb := setReg_reg (fun heq => hb (by rwa [heq])) v st

theorem request0 (bits : TMem) (st : RadioSt) : SameFrame st (Radio.request0 bits st) where
  hw := by
    rw [Radio.request0, request_hw]
  reg hb := request_mem bits st (fun heq => hb (Or.inr (Or.inl heq))) fun heq => hb (Or.inl heq)

theorem autopend (b : Bool) (st : RadioSt) : SameFrame st (setAutopendEnable b st) :=
  ⟨rfl, fun _ => rfl⟩

theorem found (pendEn : Int) {n : Nat} (hn : n < 3) (pendMask mask index : TMem) (st : RadioSt) :
    SameFrame st (Radio.found pendEn n pendMask mask index st) := by
  have hmask : IsMatchReg (Reg.SRCMASK + n) := by
    refine Or.inr (Or.inr ?_)
    simp only [Reg.SRCMASK, Reg.SRCRESINDEX]
    omega
  have hindex : IsMatchReg Reg.SRCRESINDEX := by
    refine Or.inr (Or.inr ?_)
    simp only [Reg.SRCMASK, Reg.SRCRESINDEX]
    omega
  exact ((autopend _ st).trans (setReg hmask mask _)).trans (setReg hindex index _)

theorem matchExt (m : Bool × RadioSt) (i : Fin 12) : SameFrame m.2 (Radio.matchExt m i).2 := by
  unfold Radio.matchExt
  dsimp only
  split
  · split
    · exact found _ (by omega) _ _ _ _
    · exact refl _
  · exact refl _

theorem matchShort (m : Bool × RadioSt) (i : Fin 24) : SameFrame m.2 (Radio.matchShort m i).2 := by
  unfold Radio.matchShort
  dsimp only
  split
  · split
    · exact found _ (by omega) _ _ _ _
    · exact refl _
  · exact refl _

theorem foldl {α : Type} {f : Bool × RadioSt → α → Bool × RadioSt}
    (hf : ∀ m i, SameFrame m.2 (f m i).2) (l : List α) (m : Bool × RadioSt) :
    SameFrame m.2 (l.foldl f m).2 := by
  induction l generalizing m with
  | nil => exact refl _
  | cons i l ih => exact (hf m i).trans (ih _)

theorem matchSource (st : RadioSt) : SameFrame st (Radio.matchSource st) := by
  have hindex : IsMatchReg Reg.SRCRESINDEX := by
    refine Or.inr (Or.inr ?_)
    simp only [Reg.SRCMASK, Reg.SRCRESINDEX]
    omega
  have hloops : SameFrame st ((List.finRange 24).foldl Radio.matchShort
      ((List.finRange 12).foldl Radio.matchExt (false, st))).2 :=
    (foldl matchExt _ (false, st)).trans (foldl matchShort _ _)
  refine hloops.trans ?_
  unfold Radio.matchSource
  generalize (List.finRange 24).foldl Radio.matchShort
    ((List.finRange 12).foldl Radio.matchExt (false, st)) = m
  dsimp only
  have hauto : SameFrame m.2 (if m.2.hw.autopendEnable ∧ Radio.reg Reg.SRCMATCH m.2 &&& bmAUTOPEND ≠ 0 then
      Radio.setReg Reg.SRCRESINDEX (Radio.reg Reg.SRCRESINDEX m.2 ||| (0x40 : TMem)) m.2 else m.2) := by
    split
    · exact setReg hindex _ _
    · exact refl _
  refine hauto.trans ?_
  by_cases hm : m.1
  · rw [if_pos hm]
    exact request0 _ _
  · rw [if_neg hm]
    exact setReg hindex _ _

theorem RXframe {st st' : RadioSt} (h : SameFrame st st') : st'.hw.RXframe = st.hw.RXframe := by
  rw [h.hw]

theorem RXFIFO {st st' : RadioSt} (h : SameFrame st st') : st'.hw.RXFIFO = st.hw.RXFIFO := by
  rw [h.hw]

end SameFrame

/-- The fields of the frame that `Decode_frame` leaves, before the filter. -/
def decodedFields (fifo : Table 128 (BitVec 8)) (f : Frame) : Frame :=
  let f := frameControl fifo f
  let f := if f.SrcAddressMode ≠ 0 then sourceAddress fifo f else f
  if f.DestAddressMode ≠ 0 then destAddress fifo f else f

/-- What the parts of `Decode_frame` do to the frame. -/
structure Decoding (g : Frame → Frame) (st st' : RadioSt) : Prop where
  RXframe : st'.hw.RXframe = g st.hw.RXframe
  RXFIFO : st'.hw.RXFIFO = st.hw.RXFIFO
  reg {a : Int} : ¬ IsMatchReg a → Radio.reg a st' = Radio.reg a st

theorem decodeSource_frame (st : RadioSt) : Decoding
    (fun f => if f.SrcAddressMode ≠ 0 then sourceAddress st.hw.RXFIFO f else f) st (decodeSource st) := by
  unfold decodeSource
  by_cases h : st.hw.RXframe.SrcAddressMode ≠ 0
  · rw [if_pos h]
    have hsame := SameFrame.matchSource (updateFrame (sourceAddress st.hw.RXFIFO) st)
    exact ⟨hsame.RXframe.trans (if_pos h).symm, hsame.RXFIFO, hsame.reg⟩
  · rw [if_neg h]
    exact ⟨(if_neg h).symm, rfl, fun _ => rfl⟩

theorem decodeDest_frame (st : RadioSt) : Decoding
    (fun f => if f.DestAddressMode ≠ 0 then destAddress st.hw.RXFIFO f else f) st (decodeDest st) := by
  unfold decodeDest
  by_cases h : st.hw.RXframe.DestAddressMode ≠ 0
  · rw [if_pos h]
    exact ⟨(if_pos h).symm, rfl, fun _ => rfl⟩
  · rw [if_neg h]
    exact ⟨(if_neg h).symm, rfl, fun _ => rfl⟩

theorem decodeFrame_RXframe (st : RadioSt) : (decodeFrame st).hw.RXframe
    = filtered (reg Reg.FRMFILT1 st) (decodedFields st.hw.RXFIFO st.hw.RXframe) := by
  have hfrmfilt1 : ¬ IsMatchReg Reg.FRMFILT1 := by
    simp only [IsMatchReg, Reg.S1CON, Reg.RFIRQF0, Reg.SRCMASK, Reg.SRCRESINDEX, Reg.FRMFILT1]
    decide
  have hsource := decodeSource_frame (updateFrame (frameControl st.hw.RXFIFO) st)
  have hdest := decodeDest_frame (decodeSource (updateFrame (frameControl st.hw.RXFIFO) st))
  have hdone := SameFrame.request0 SRC_MATCH_DONE
    (decodeDest (decodeSource (updateFrame (frameControl st.hw.RXFIFO) st)))
  change filtered (reg Reg.FRMFILT1 _) (request0 _ _).hw.RXframe = _
  rw [hdone.reg hfrmfilt1, hdest.reg hfrmfilt1, hsource.reg hfrmfilt1, hdone.RXframe, hdest.RXframe,
    hsource.RXframe, hsource.RXFIFO]
  rfl

/-! ## Headers -/

/-- An address of a header. -/
inductive Address
  | short (a : BitVec 16)
  | extended (H L : BitVec 32)
  deriving DecidableEq

/-- The addressing mode. -/
def Address.mode : Address → BitVec 2
  | .short _ => 2
  | .extended _ _ => 3

/-- The bytes of a word, the most significant one first. -/
def wordBytes (w : BitVec 16) : List (BitVec 8) := [lane 1 w, lane 0 w]

def doubleBytes (w : BitVec 32) : List (BitVec 8) := [lane 3 w, lane 2 w, lane 1 w, lane 0 w]

def Address.bytes : Address → List (BitVec 8)
  | .short a => wordBytes a
  | .extended H L => doubleBytes H ++ doubleBytes L

/-- A header with source and destination addresses. With PAN compression the source is in the PAN of the
destination. -/
structure Header where
  FrameLength : BitVec 8
  frameType : BitVec 3
  securityEnabled : Bool
  framePending : Bool
  ackReq : Bool
  panCompression : Bool
  reserved : BitVec 3
  frameVersion : BitVec 2
  dataSequenceNumber : BitVec 8
  destPan : BitVec 16
  dest : Address
  srcPan : BitVec 16
  src : Address

namespace Header

/-- The frame control field. -/
def fcf (h : Header) : BitVec 16 :=
  h.src.mode ++ h.frameVersion ++ h.dest.mode ++ h.reserved ++ BitVec.ofBool h.panCompression ++
    BitVec.ofBool h.ackReq ++ BitVec.ofBool h.framePending ++ BitVec.ofBool h.securityEnabled ++
    h.frameType

/-- The bytes of a header. -/
def bytes (h : Header) : List (BitVec 8) :=
  h.FrameLength :: wordBytes h.fcf ++ [h.dataSequenceNumber] ++ wordBytes h.destPan ++ h.dest.bytes ++
    (if h.panCompression then [] else wordBytes h.srcPan) ++ h.src.bytes

/-- The header is at the head of the FIFO. -/
def Laid (h : Header) (fifo : Table 128 (BitVec 8)) : Prop :=
  ∀ (i : Fin 128) (b : BitVec 8), h.bytes[(i : Nat)]? = some b → fifo i = b

/-- The frame has the fields of the header. -/
structure Decoded (h : Header) (f : Frame) : Prop where
  FCF : f.FCF = h.fcf.setWidth 32
  FrameType : f.FrameType = h.frameType.setWidth 32
  securityEnabled : f.securityEnabled = h.securityEnabled
  FramePending : f.FramePending = h.framePending
  AckReq : f.AckReq = h.ackReq
  PanCompression : f.PanCompression = h.panCompression
  DestAddressMode : f.DestAddressMode = h.dest.mode.setWidth 32
  SrcAddressMode : f.SrcAddressMode = h.src.mode.setWidth 32
  DestinationPanID : f.DestinationPanID = h.destPan.setWidth 32
  SourcePanID : f.SourcePanID = (if h.panCompression then h.destPan else h.srcPan).setWidth 32
  destination : match h.dest with
    | .short a => f.DestinationAddress = a.setWidth 32
    | .extended H L => f.ExtDestAddressH = H ∧ f.ExtDestAddressL = L
  source : match h.src with
    | .short a => f.SourceAddress = a.setWidth 32
    | .extended H L => f.ExtSrcAddressH = H ∧ f.ExtSrcAddressL = L

/-- Whatever follows the header in the FIFO and whatever frame was decoded before, the header is
decoded. -/
def Decodes (mem : Site → TMem) (h : Header) : Prop :=
  ∀ r : Radio, h.Laid r.RXFIFO → h.Decoded (decodeFrame { mem := mem, hw := r }).hw.RXframe

/-- The condition on a header. -/
structure Decodable (frmfilt1 : TMem) (h : Header) : Prop where
  dest : ∃ a, h.dest = .short a
  src : ∃ a, h.src = .short a
  panCompression : h.panCompression = false
  framePending : h.framePending = (h.securityEnabled || h.frameType.getLsbD 1)
  frameType : frmfilt1 &&& MODIFY_FT_FILTER = 2 → h.frameType.getLsbD 2 = false

/-! ### The frame control field -/

theorem join_lanes (w : BitVec 16) :
    (lane 1 w).setWidth 32 <<< 8 + (lane 0 w).setWidth 32 = w.setWidth 32 := by
  apply BitVec.eq_of_toNat_eq
  rw [BitVec.toNat_add, BitVec.toNat_shiftLeft, BitVec.toNat_setWidth, BitVec.toNat_setWidth,
    BitVec.toNat_setWidth, toNat_lane, toNat_lane, Nat.shiftLeft_eq]
  have hw := w.isLt
  omega

theorem fcf_type (h : Header) {i : Nat} (hi : i < 3) : h.fcf.getLsbD i = h.frameType.getLsbD i := by
  rw [fcf, BitVec.getLsbD_append, if_pos hi]

theorem fcf_flags (h : Header) : h.fcf.getLsbD 3 = h.securityEnabled ∧ h.fcf.getLsbD 5 = h.ackReq ∧
    h.fcf.getLsbD 6 = h.panCompression := by
  simp only [fcf, BitVec.getLsbD_append]
  simp

theorem fcf_dest (h : Header) (i : Nat) (hi : i < 2) :
    h.fcf.getLsbD (10 + i) = h.dest.mode.getLsbD i := by
  simp only [fcf, BitVec.getLsbD_append]
  grind

theorem fcf_src (h : Header) (i : Nat) : h.fcf.getLsbD (14 + i) = h.src.mode.getLsbD i := by
  simp only [fcf, BitVec.getLsbD_append]
  grind

/-- A mask of the last bits. -/
theorem and_low {x m : BitVec 32} {n : Nat} {v : BitVec n} (hm : m = (BitVec.allOnes n).setWidth 32)
    (h : ∀ i < n, x.getLsbD i = v.getLsbD i) : x &&& m = v.setWidth 32 := by
  rw [hm]
  apply BitVec.eq_of_getLsbD_eq
  intro i hi
  rw [BitVec.getLsbD_and, BitVec.getLsbD_setWidth, BitVec.getLsbD_setWidth, BitVec.getLsbD_allOnes]
  by_cases hin : i < n
  · rw [h i hin, decide_eq_true hin, decide_eq_true hi]
    exact Bool.and_comm _ _
  · rw [BitVec.getLsbD_of_ge v i (by omega), decide_eq_false hin, Bool.and_false, Bool.and_false]

/-- A field of two bits. -/
theorem field_eq {x : BitVec 16} {k : Nat} {v : BitVec 2}
    (h : ∀ i < 2, x.getLsbD (k + i) = v.getLsbD i) (hk : k + 2 ≤ 16) :
    (x.setWidth 32).sshiftRight k &&& 3 = v.setWidth 32 := by
  have hmsb : (x.setWidth 32).msb = false := by
    rw [BitVec.msb_eq_getLsbD_last, BitVec.getLsbD_setWidth, BitVec.getLsbD_of_ge x _ (by omega),
      Bool.and_false]
  rw [BitVec.sshiftRight_eq_of_msb_false hmsb]
  refine and_low (by decide) fun i hi => ?_
  rw [BitVec.getLsbD_ushiftRight, BitVec.getLsbD_setWidth, decide_eq_true (by omega), Bool.true_and]
  exact h i hi

/-- The first fields of a laid header. -/
theorem frameControl_eq {h : Header} {fifo : Table 128 (BitVec 8)} (hl : h.Laid fifo) (f : Frame) :
    frameControl fifo f = { f with
      FrameLength := h.FrameLength
      FCF := h.fcf.setWidth 32
      FrameType := h.frameType.setWidth 32
      securityEnabled := h.securityEnabled
      FramePending := h.securityEnabled || h.frameType.getLsbD 1
      AckReq := h.ackReq
      PanCompression := h.panCompression
      DestAddressMode := h.dest.mode.setWidth 32
      SrcAddressMode := h.src.mode.setWidth 32
      SourceAddress := 0
      ExtSrcAddressH := 0
      ExtSrcAddressL := 0 } := by
  have hlength : fifo 0 = h.FrameLength := hl 0 _ rfl
  have hhigh : fifo 1 = lane 1 h.fcf := hl 1 _ rfl
  have hlow : fifo 2 = lane 0 h.fcf := hl 2 _ rfl
  have hbyte (b : BitVec 8) : b.setWidth 32 &&& (0xFF : BitVec 32) = b.setWidth 32 := by
    refine and_low (by decide) fun i hi => ?_
    rw [BitVec.getLsbD_setWidth, decide_eq_true (by omega), Bool.true_and]
  have hFCF : (byteAt fifo 1 &&& (0xFF : BitVec 32)) <<< 8 + (byteAt fifo 2 &&& 0xFF)
      = h.fcf.setWidth 32 := by
    rw [byteAt, byteAt, hhigh, hlow, hbyte, hbyte, join_lanes]
  have hbit {k : Nat} (hk : k < 32) : (h.fcf.setWidth 32).getLsbD k = h.fcf.getLsbD k := by
    rw [BitVec.getLsbD_setWidth, decide_eq_true hk, Bool.true_and]
  have hflag {m : BitVec 32} {k : Nat} (hk : k < 32) (hm : m = BitVec.twoPow 32 k) :
      decide (h.fcf.setWidth 32 &&& m ≠ 0) = h.fcf.getLsbD k := by
    rw [hm, and_bit _ hk, hbit hk]
  obtain ⟨hsecurity, hack, hpan⟩ := h.fcf_flags
  have htype : h.fcf.setWidth 32 &&& (7 : BitVec 32) = h.frameType.setWidth 32 := by
    refine and_low (by decide) fun i hi => ?_
    rw [hbit (by omega), h.fcf_type hi]
  have hpending : decide (h.fcf.setWidth 32 &&& (10 : BitVec 32) ≠ 0)
      = (h.securityEnabled || h.frameType.getLsbD 1) := by
    have hmask : (10 : BitVec 32) = BitVec.twoPow 32 3 ||| BitVec.twoPow 32 1 := by decide
    have hor (a b : BitVec 32) : decide (a ||| b ≠ 0) = (decide (a ≠ 0) || decide (b ≠ 0)) := by
      rw [← Bool.decide_or, decide_eq_decide]
      exact (not_congr BitVec.or_eq_zero_iff).trans not_and_or
    rw [hmask, BitVec.and_or_distrib_left, hor, hflag (by decide) rfl, hflag (by decide) rfl, hsecurity,
      h.fcf_type (by decide)]
  have hsecurity' : decide (h.fcf.setWidth 32 &&& (8 : BitVec 32) ≠ 0) = h.securityEnabled :=
    (hflag (by decide) (by decide)).trans hsecurity
  have hack' : decide (h.fcf.setWidth 32 &&& (0x20 : BitVec 32) ≠ 0) = h.ackReq :=
    (hflag (by decide) (by decide)).trans hack
  have hpan' : decide (h.fcf.setWidth 32 &&& (0x40 : BitVec 32) ≠ 0) = h.panCompression :=
    (hflag (by decide) (by decide)).trans hpan
  unfold frameControl
  simp only [hFCF, hlength, htype, hpending, hsecurity', hack', hpan',
    field_eq h.fcf_dest (by decide), field_eq (fun i _ => h.fcf_src i) (by decide)]

/-! ### The addresses -/

theorem wordAt_eq {fifo : Table 128 (BitVec 8)} {i j : Fin 128} {w : BitVec 16} (hi : fifo i = lane 1 w)
    (hj : fifo j = lane 0 w) : wordAt fifo i j = w.setWidth 32 := by
  rw [wordAt, byteAt, byteAt, hi, hj, join_lanes]

/-- `FRMFILT1` changes the frame type in one case. -/
theorem modifiedType_eq (frmfilt1 : TMem) (FCF : BitVec 32) :
    modifiedType frmfilt1 FCF = if frmfilt1 &&& MODIFY_FT_FILTER = 2 then FCF &&& 3 else FCF &&& 7 := by
  have hbit : (frmfilt1 &&& MODIFY_FT_FILTER).getLsbD 0 = false := by
    rw [BitVec.getLsbD_and, show MODIFY_FT_FILTER.getLsbD 0 = false from rfl, Bool.and_false]
  have heven : (frmfilt1 &&& MODIFY_FT_FILTER).toNat % 2 = 0 := by
    have htest := hbit
    rw [BitVec.getLsbD, Nat.testBit_zero, decide_eq_false_iff_not] at htest
    omega
  have hiff : frmfilt1 &&& MODIFY_FT_FILTER = 2 ↔ (frmfilt1 &&& MODIFY_FT_FILTER).toNat = 2 :=
    ⟨fun h => by rw [h]; rfl, fun h => BitVec.eq_of_toNat_eq h⟩
  unfold modifiedType
  simp only [hiff]
  generalize (frmfilt1 &&& MODIFY_FT_FILTER).toNat = field at heven
  match field with
  | 0 | 2 => rfl
  | 1 | 3 => omega
  | _ + 4 =>
    rw [if_neg (by omega)]
    rfl

theorem decodedFields_eq (fifo : Table 128 (BitVec 8)) (f : Frame) :
    decodedFields fifo f = destAddress fifo (sourceAddress fifo (frameControl fifo f)) := by
  have hsource (f : Frame) : (if f.SrcAddressMode ≠ 0 then sourceAddress fifo f else f)
      = sourceAddress fifo f := by
    by_cases h : f.SrcAddressMode = 0
    · rw [if_neg (not_not.mpr h), sourceAddress, if_neg (by rw [h]; decide), if_neg (by rw [h]; decide)]
    · rw [if_pos h]
  have hdest (f : Frame) : (if f.DestAddressMode ≠ 0 then destAddress fifo f else f)
      = destAddress fifo f := by
    by_cases h : f.DestAddressMode = 0
    · rw [if_neg (not_not.mpr h), destAddress, if_neg (by rw [h]; decide), if_neg (by rw [h]; decide)]
    · rw [if_pos h]
  rw [decodedFields, hsource, hdest]

/-- The source address leaves the fields of the destination alone. -/
theorem sourceAddress_dest (fifo : Table 128 (BitVec 8)) (f : Frame) :
    (sourceAddress fifo f).DestAddressMode = f.DestAddressMode ∧
      (sourceAddress fifo f).DestinationPanID = f.DestinationPanID := by
  unfold sourceAddress
  split_ifs <;> exact ⟨rfl, rfl⟩

/-- The destination address leaves the fields of the source alone. -/
theorem destAddress_source (fifo : Table 128 (BitVec 8)) (f : Frame) :
    (destAddress fifo f).SourceAddress = f.SourceAddress ∧
      (destAddress fifo f).SourcePanID = f.SourcePanID := by
  unfold destAddress
  split_ifs <;> exact ⟨rfl, rfl⟩

theorem modes_eq {h : Header} {fifo : Table 128 (BitVec 8)} (hl : h.Laid fifo) (f : Frame) :
    (frameControl fifo f).DestAddressMode = h.dest.mode.setWidth 32 ∧
      (frameControl fifo f).SrcAddressMode = h.src.mode.setWidth 32 := by
  rw [frameControl_eq hl]
  exact ⟨rfl, rfl⟩

/-- The PAN of an extended destination address is not decoded. -/
theorem destPan_of_extended {h : Header} {fifo : Table 128 (BitVec 8)} (hl : h.Laid fifo)
    {H L : BitVec 32} (hdest : h.dest = .extended H L) (f : Frame) :
    (decodedFields fifo f).DestinationPanID = f.DestinationPanID := by
  have hmode : (sourceAddress fifo (frameControl fifo f)).DestAddressMode = 3 := by
    rw [(sourceAddress_dest _ _).1, (modes_eq hl f).1, hdest]
    rfl
  rw [decodedFields_eq, destAddress, if_neg (by rw [hmode]; decide), if_pos hmode]
  exact (sourceAddress_dest _ _).2

/-- The PAN of an extended source address is not decoded. -/
theorem srcPan_of_extended {h : Header} {fifo : Table 128 (BitVec 8)} (hl : h.Laid fifo)
    {H L : BitVec 32} (hsrc : h.src = .extended H L) (f : Frame) :
    (decodedFields fifo f).SourcePanID = f.SourcePanID := by
  have hmode : (frameControl fifo f).SrcAddressMode = 3 := by
    rw [(modes_eq hl f).2, hsrc]
    rfl
  rw [decodedFields_eq, (destAddress_source _ _).2, sourceAddress, if_neg (by rw [hmode]; decide),
    if_pos hmode]
  split_ifs <;> rfl

/-- Short addresses are taken from where they are without PAN compression. -/
theorem decodedFields_short {h : Header} {fifo : Table 128 (BitVec 8)} (hl : h.Laid fifo)
    {a b : BitVec 16} (hdest : h.dest = .short a) (hsrc : h.src = .short b) (f : Frame) :
    decodedFields fifo f = { frameControl fifo f with
      SourceAddress := wordAt fifo 10 11
      SourcePanID := wordAt fifo 8 9
      DestinationAddress := wordAt fifo 6 7
      DestinationPanID := wordAt fifo 4 5 } := by
  have hd : (frameControl fifo f).DestAddressMode = 2 := by
    rw [(modes_eq hl f).1, hdest]
    rfl
  have hs : (frameControl fifo f).SrcAddressMode = 2 := by
    rw [(modes_eq hl f).2, hsrc]
    rfl
  rw [decodedFields_eq, sourceAddress, if_pos hs, if_pos hd]
  exact if_pos hd

/-- The words of a header with short addresses and without PAN compression. -/
theorem words_short {h : Header} {fifo : Table 128 (BitVec 8)} (hl : h.Laid fifo) {a b : BitVec 16}
    (hdest : h.dest = .short a) (hsrc : h.src = .short b) (hpan : h.panCompression = false) :
    wordAt fifo 4 5 = h.destPan.setWidth 32 ∧ wordAt fifo 6 7 = a.setWidth 32 ∧
      wordAt fifo 8 9 = h.srcPan.setWidth 32 ∧ wordAt fifo 10 11 = b.setWidth 32 := by
  have hbytes : h.bytes = h.FrameLength :: wordBytes h.fcf ++ [h.dataSequenceNumber] ++
      wordBytes h.destPan ++ wordBytes a ++ wordBytes h.srcPan ++ wordBytes b := by
    rw [bytes, hdest, hsrc, hpan]
    rfl
  rw [Laid, hbytes] at hl
  exact ⟨wordAt_eq (hl 4 _ rfl) (hl 5 _ rfl), wordAt_eq (hl 6 _ rfl) (hl 7 _ rfl),
    wordAt_eq (hl 8 _ rfl) (hl 9 _ rfl), wordAt_eq (hl 10 _ rfl) (hl 11 _ rfl)⟩

/-! ### When a header is decoded -/

/-- The frame type after `FRMFILT1`. -/
theorem frameType_iff (frmfilt1 : TMem) (h : Header) :
    modifiedType frmfilt1 (h.fcf.setWidth 32) = h.frameType.setWidth 32 ↔
      (frmfilt1 &&& MODIFY_FT_FILTER = 2 → h.frameType.getLsbD 2 = false) := by
  have hbit {k : Nat} (hk : k < 3) : (h.fcf.setWidth 32).getLsbD k = h.frameType.getLsbD k := by
    rw [BitVec.getLsbD_setWidth, decide_eq_true (by omega), Bool.true_and, h.fcf_type hk]
  have hlow : h.fcf.setWidth 32 &&& (3 : BitVec 32) = (h.frameType.setWidth 2).setWidth 32 := by
    refine and_low (by decide) fun i hi => ?_
    rw [hbit (by omega), BitVec.getLsbD_setWidth, decide_eq_true hi, Bool.true_and]
  have hall : h.fcf.setWidth 32 &&& (7 : BitVec 32) = h.frameType.setWidth 32 :=
    and_low (by decide) fun i hi => hbit hi
  have hcut (t : BitVec 3) : (t.setWidth 2).setWidth 32 = t.setWidth 32 ↔ t.getLsbD 2 = false := by
    revert t
    decide
  rw [modifiedType_eq, hlow, hall]
  split
  next h2 => rw [hcut, imp_iff_right h2]
  next h2 => exact iff_of_true rfl fun h2' => absurd h2' h2

/-- A FIFO with the header and other bytes behind it. -/
def fifoOf (h : Header) (rest : BitVec 8) : Table 128 (BitVec 8) := fun i => h.bytes.getD i rest

theorem laid_fifoOf (h : Header) (rest : BitVec 8) : h.Laid (h.fifoOf rest) := fun i b hb => by
  rw [fifoOf, List.getD_eq_getElem?_getD, hb, Option.getD_some]

/-- What `Decodes` says about the fields. -/
theorem Decodes.fields {mem : Site → TMem} {h : Header} (hd : Decodes mem h)
    {fifo : Table 128 (BitVec 8)} (hl : h.Laid fifo) (f : Frame) :
    h.Decoded (filtered (mem (.cell .xram Reg.FRMFILT1)) (decodedFields fifo f)) := by
  have hdecoded := hd { init f default false false mem with RXFIFO := fifo } hl
  rwa [decodeFrame_RXframe] at hdecoded

/-- PAN compression moves the source address to where nothing looks for it. -/
theorem not_decodes_compressed {mem : Site → TMem} {h : Header} {a b : BitVec 16}
    (hdest : h.dest = .short a) (hsrc : h.src = .short b) (hd : Decodes mem h) :
    h.panCompression = false := by
  by_contra hpan
  rw [Bool.not_eq_false] at hpan
  have hsource (rest : BitVec 8) : wordAt (h.fifoOf rest) 10 11 = b.setWidth 32 := by
    have hdecoded := (hd.fields (h.laid_fifoOf rest) default).source
    rw [hsrc, decodedFields_short (h.laid_fifoOf rest) hdest hsrc] at hdecoded
    exact hdecoded
  have hrest (rest : BitVec 8) {i : Fin 128} (hi : 10 ≤ (i : Nat)) : h.fifoOf rest i = rest := by
    have hlength : h.bytes.length = 10 := by
      rw [bytes, hdest, hsrc, hpan]
      rfl
    rw [fifoOf, List.getD_eq_getElem?_getD, List.getElem?_eq_none (by omega), Option.getD_none]
  have h0 := hsource 0
  have h1 := hsource 1
  rw [wordAt, byteAt, byteAt, hrest _ (by decide), hrest _ (by decide)] at h0 h1
  rw [← h0] at h1
  exact absurd h1 (by decide)

/-- **When a header is decoded.** -/
theorem decodes_iff (mem : Site → TMem) (h : Header) :
    Decodes mem h ↔ Decodable (mem (.cell .xram Reg.FRMFILT1)) h := by
  constructor
  · intro hd
    have hfields (f : Frame) := hd.fields (h.laid_fifoOf 0) f
    have hdest : ∃ a, h.dest = .short a := by
      cases hdest : h.dest with
      | short a => exact ⟨a, rfl⟩
      | extended H L =>
        -- Another PAN is left from the frame before.
        have hpan := (hfields { (default : Frame) with
          DestinationPanID := h.destPan.setWidth 32 + 1 }).DestinationPanID
        change (decodedFields _ _).DestinationPanID = _ at hpan
        rw [destPan_of_extended (h.laid_fifoOf 0) hdest] at hpan
        exact absurd hpan (by simp)
    have hsrc : ∃ b, h.src = .short b := by
      cases hsrc : h.src with
      | short b => exact ⟨b, rfl⟩
      | extended H L =>
        have hpan := (hfields { (default : Frame) with
          SourcePanID := (if h.panCompression then h.destPan else h.srcPan).setWidth 32 + 1 }).SourcePanID
        change (decodedFields _ _).SourcePanID = _ at hpan
        rw [srcPan_of_extended (h.laid_fifoOf 0) hsrc] at hpan
        exact absurd hpan (by simp)
    obtain ⟨a, ha⟩ := hdest
    obtain ⟨b, hb⟩ := hsrc
    have hshort := hfields default
    rw [decodedFields_short (h.laid_fifoOf 0) ha hb, frameControl_eq (h.laid_fifoOf 0)] at hshort
    exact ⟨⟨a, ha⟩, ⟨b, hb⟩, not_decodes_compressed ha hb hd, hshort.FramePending.symm,
      (frameType_iff _ h).mp hshort.FrameType⟩
  · rintro ⟨⟨a, ha⟩, ⟨b, hb⟩, hpan, hpending, htype⟩ r hl
    obtain ⟨hdestPan, hdest, hsrcPan, hsrc⟩ := words_short hl ha hb hpan
    rw [decodeFrame_RXframe, decodedFields_short hl ha hb, frameControl_eq hl, hdestPan, hdest, hsrcPan,
      hsrc]
    exact {
      FCF := rfl
      FrameType := (frameType_iff _ h).mpr htype
      securityEnabled := rfl
      FramePending := hpending.symm
      AckReq := rfl
      PanCompression := rfl
      DestAddressMode := rfl
      SrcAddressMode := rfl
      DestinationPanID := rfl
      SourcePanID := by rw [hpan]; rfl
      destination := by rw [ha]; rfl
      source := by rw [hb]; rfl }

/-- The header of a data frame that asks for nothing and has the pending bit clear, in the PAN of its
destination. -/
def compressedHeader : Header where
  FrameLength := 0x20
  frameType := 1
  securityEnabled := false
  framePending := false
  ackReq := false
  panCompression := true
  reserved := 0
  frameVersion := 0
  dataSequenceNumber := 7
  destPan := 0x3D0B
  dest := .short 0x71A8
  srcPan := 0x3D0B
  src := .short 0x6450

/-- The compressed header is misread. -/
theorem compressedHeader_not_decoded : ¬ Decodes (xramOf [(Reg.FRMFILT1, 0x78)]) compressedHeader := by
  intro hd
  have hcompression := not_decodes_compressed (a := 0x71A8) (b := 0x6450) rfl rfl hd
  exact absurd hcompression (by decide)

end Header

end Radio

end Ucsim.S51
