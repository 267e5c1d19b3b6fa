import Ucsim.S51.Radio

/-!
# The frame filter

`filter_frame` decides from the fields of the decoded frame, from `FRMFILT0` and `FRMFILT1` and from the
addresses of the node whether a frame is accepted.
-/

namespace Ucsim.S51

open Logic

namespace Radio

def MODIFY_FT_FILTER : TMem := 0x6
def ACCEPT_FT0_BEACON : TMem := 0x8
def ACCEPT_FT1_DATA : TMem := 0x10
def ACCEPT_FT2_ACK : TMem := 0x20
def ACCEPT_FT3_MAC_CMD : TMem := 0x40
def ACCEPT_FT4TO7_RESERVED : TMem := 0x80
def PAN_COORDINATOR : TMem := 0x2
def FRM_FILTER_EN : TMem := 0x1

def BEACON : BitVec 32 := 0
def DATA : BitVec 32 := 1
def ACKNOLEDGEMENT : BitVec 32 := 2
def MAC_COMMAND : BitVec 32 := 3
def RESERVED0 : BitVec 32 := 4
def RESERVED1 : BitVec 32 := 5
def RESERVED2 : BitVec 32 := 6
def RESERVED3 : BitVec 32 := 7

/-- The `switch` on `FRMFILT1`: the mask leaves the field where it is in the register. -/
def modifiedType (frmfilt1 : TMem) (FCF : BitVec 32) : BitVec 32 :=
  match (frmfilt1 &&& MODIFY_FT_FILTER).toNat with
  | 0 => FCF &&& 7
  | 1 => (FCF &&& 7) ^^^ 4
  | 2 => FCF &&& 3
  | 3 => (FCF &&& 3) ||| 4
  | _ => FCF &&& 7

/-- The least length byte. -/
def minimumLength (f : Frame) : Int :=
  let MinimumLength : Int := 5
  let (MinimumLength, CheckSrcPan) :=
    if f.SrcAddressMode = 2 then (MinimumLength + 2, true)
    else if f.SrcAddressMode = 3 then (MinimumLength + 8, true)
    else (MinimumLength, false)
  let (MinimumLength, CheckDestPan) :=
    if f.DestAddressMode = 2 then (MinimumLength + 2, true)
    else if f.DestAddressMode = 3 then (MinimumLength + 8, true)
    else (MinimumLength, false)
  let MinimumLength := if CheckDestPan ≠ CheckSrcPan then MinimumLength + 2 else MinimumLength
  if CheckDestPan ∧ CheckSrcPan then
    if f.PanCompression then MinimumLength + 2 else MinimumLength + 4
  else MinimumLength

/-- The reserved bits 9 to 7 of the frame control field that `FRMFILT0` selects. -/
def reservedBits (frmfilt0 : TMem) (FCF : BitVec 32) : BitVec 32 :=
  (FCF.sshiftRight 7 &&& 7) &&& ((frmfilt0 >>> 4).setWidth 32 &&& 7)

/-- The branch of `filter_frame` for beacon frames. -/
def rejectsBeacon (PanID : BitVec 32) (frmfilt1 : TMem) (f : Frame) : Bool :=
  frmfilt1 &&& ACCEPT_FT0_BEACON = 0 ∨ f.FrameLength.toInt < 9 ∨ f.DestAddressMode ≠ 0 ∨
    f.SrcAddressMode = 0 ∨ (f.SourcePanID ≠ PanID ∧ f.SourcePanID ≠ 0xFFFF)

/-- The branches for data frames and for MAC commands; `mask` is the bit that accepts them. -/
def rejectsAddressed (mask : TMem) (PanID : BitVec 32) (frmfilt0 frmfilt1 : TMem) (f : Frame) : Bool :=
  frmfilt1 &&& mask = 0 ∨ f.FrameLength.toInt < 9 ∨
    (f.SrcAddressMode = 0 ∧ f.DestAddressMode = 0) ∨
    (f.DestAddressMode = 0 ∧ (frmfilt0 &&& PAN_COORDINATOR = 0 ∨ f.SourcePanID ≠ PanID))

def rejectsData : BitVec 32 → TMem → TMem → Frame → Bool := rejectsAddressed ACCEPT_FT1_DATA

def rejectsMacCommand : BitVec 32 → TMem → TMem → Frame → Bool := rejectsAddressed ACCEPT_FT3_MAC_CMD

/-- The branch for acknowledgments. -/
def rejectsAck (frmfilt1 : TMem) (f : Frame) : Bool :=
  frmfilt1 &&& ACCEPT_FT2_ACK = 0 ∨ f.FrameLength.toInt ≠ 5

/-- The branch for reserved frame types. -/
def rejectsReserved (frmfilt1 : TMem) (f : Frame) : Bool :=
  frmfilt1 &&& ACCEPT_FT4TO7_RESERVED = 0 ∨ f.FrameLength.toInt < 9

/-- The value of `filter_frame`, which returns false at the first check that fails. -/
def accepts (r : Radio) (frmfilt0 frmfilt1 : TMem) (f : Frame) : Bool :=
  if f.FrameLength.toInt < minimumLength f then false
  else if reservedBits frmfilt0 f.FCF ≠ 0 then false
  else if f.SrcAddressMode = 1 ∨ f.DestAddressMode = 1 then false
  else if f.DestAddressMode ≠ 0 ∧ f.DestinationPanID ≠ r.PanID ∧ f.DestinationPanID ≠ 0xFFFF then false
  else if f.DestAddressMode = 2 ∧ f.DestinationAddress ≠ r.ShortAddress ∧
      f.DestinationAddress ≠ 0xFFFF then false
  else if f.DestAddressMode = 3 ∧ f.ExtDestAddressH ≠ r.ExtAddressH ∧
      f.ExtDestAddressL ≠ r.ExtAddressL then false
  else if f.FrameType = BEACON ∧ rejectsBeacon r.PanID frmfilt1 f then false
  else if f.FrameType = DATA ∧ rejectsData r.PanID frmfilt0 frmfilt1 f then false
  else if f.FrameType = ACKNOLEDGEMENT ∧ rejectsAck frmfilt1 f then false
  else if f.FrameType = MAC_COMMAND ∧ rejectsMacCommand r.PanID frmfilt0 frmfilt1 f then false
  else if f.FrameType ∈ [RESERVED0, RESERVED1, RESERVED2, RESERVED3] ∧ rejectsReserved frmfilt1 f then
    false
  else true

/-- The frame as the filter leaves it. -/
def filtered (frmfilt1 : TMem) (f : Frame) : Frame :=
  { f with FrameLength := f.FrameLength &&& 0x7F, FrameType := modifiedType frmfilt1 f.FCF }

/-- `filter_frame`. -/
def filterFrame (st : RadioSt) : Bool × RadioSt :=
  let f := filtered (reg Reg.FRMFILT1 st) st.hw.RXframe
  (accepts st.hw (reg Reg.FRMFILT0 st) (reg Reg.FRMFILT1 st) f,
    { st with hw := { st.hw with RXframe := f } })

/-! ## What the filter is for -/

/-- The frame type that `FRMFILT1.MODIFY_FT_FILTER` asks for: the type of the frame, its most significant
bit inverted, set to 0 or set to 1. -/
def documentedType (frmfilt1 : TMem) (FCF : BitVec 32) : BitVec 32 :=
  match (frmfilt1 >>> 1 &&& (3 : TMem)).toNat with
  | 0 => FCF &&& 7
  | 1 => (FCF &&& 7) ^^^ 4
  | 2 => FCF &&& 3
  | _ => (FCF &&& 3) ||| 4

/-- The bytes of an address. -/
def addressLength (mode : BitVec 32) : Nat := if mode = 2 then 2 else if mode = 3 then 8 else 0

/-- The PAN identifiers of a frame. -/
def panCount (f : Frame) : Nat :=
  if addressLength f.SrcAddressMode ≠ 0 ∧ addressLength f.DestAddressMode ≠ 0 then
    if f.PanCompression then 1 else 2
  else if addressLength f.SrcAddressMode ≠ 0 ∨ addressLength f.DestAddressMode ≠ 0 then 1
  else 0

/-- Two bytes of frame control, the sequence number, the PAN identifiers, the addresses and two bytes of
frame check sequence. -/
def leastLength (f : Frame) : Int :=
  2 + 1 + 2 * panCount f + addressLength f.DestAddressMode + addressLength f.SrcAddressMode + 2

theorem minimumLength_eq (f : Frame) : minimumLength f = leastLength f := by
  have hmode (mode : BitVec 32) : mode = 2 ∨ mode = 3 ∨ mode ≠ 2 ∧ mode ≠ 3 := by
    rw [← not_or]
    exact or_assoc.mp (em _)
  unfold minimumLength leastLength panCount addressLength
  obtain hs | hs | ⟨hs, hs'⟩ := hmode f.SrcAddressMode <;>
    obtain hd | hd | ⟨hd, hd'⟩ := hmode f.DestAddressMode <;>
    cases f.PanCompression <;> simp only [*] <;> decide

/-- The checks that do not depend on the frame type. The code compares the halves of an extended
destination address one by one and is content with one. -/
structure Checked (r : Radio) (frmfilt0 : TMem) (f : Frame) : Prop where
  length : leastLength f ≤ f.FrameLength.toInt
  reserved : reservedBits frmfilt0 f.FCF = 0
  modes : f.SrcAddressMode ≠ 1 ∧ f.DestAddressMode ≠ 1
  pan : f.DestAddressMode ≠ 0 → f.DestinationPanID = r.PanID ∨ f.DestinationPanID = 0xFFFF
  short : f.DestAddressMode = 2 →
    f.DestinationAddress = r.ShortAddress ∨ f.DestinationAddress = 0xFFFF
  extended : f.DestAddressMode = 3 →
    f.ExtDestAddressH = r.ExtAddressH ∨ f.ExtDestAddressL = r.ExtAddressL

/-- The conditions for data frames and MAC commands. -/
structure Addressed (mask : TMem) (PanID : BitVec 32) (frmfilt0 frmfilt1 : TMem) (f : Frame) : Prop where
  enabled : frmfilt1 &&& mask ≠ 0
  length : 9 ≤ f.FrameLength.toInt
  included : f.SrcAddressMode ≠ 0 ∨ f.DestAddressMode ≠ 0
  coordinator : f.DestAddressMode = 0 → frmfilt0 &&& PAN_COORDINATOR ≠ 0 ∧ f.SourcePanID = PanID

/-- The conditions for a frame of type `t`; `pan` is the one on the source PAN identifier of a
beacon. -/
structure TypeRule (pan : Prop) (PanID : BitVec 32) (frmfilt0 frmfilt1 : TMem) (f : Frame)
    (t : BitVec 32) : Prop where
  beacon : t = BEACON → frmfilt1 &&& ACCEPT_FT0_BEACON ≠ 0 ∧ 9 ≤ f.FrameLength.toInt ∧
    f.DestAddressMode = 0 ∧ f.SrcAddressMode ≠ 0 ∧ pan
  data : t = DATA → Addressed ACCEPT_FT1_DATA PanID frmfilt0 frmfilt1 f
  ack : t = ACKNOLEDGEMENT → frmfilt1 &&& ACCEPT_FT2_ACK ≠ 0 ∧ f.FrameLength.toInt = 5
  macCommand : t = MAC_COMMAND → Addressed ACCEPT_FT3_MAC_CMD PanID frmfilt0 frmfilt1 f
  reserved : t ∈ [RESERVED0, RESERVED1, RESERVED2, RESERVED3] →
    frmfilt1 &&& ACCEPT_FT4TO7_RESERVED ≠ 0 ∧ 9 ≤ f.FrameLength.toInt

/-- The source PAN identifier of a beacon, as the code checks it. -/
def CheckedPan (PanID : BitVec 32) (f : Frame) : Prop := f.SourcePanID = PanID ∨ f.SourcePanID = 0xFFFF

/-- The source PAN identifier of a beacon, as the comments say. -/
def DocumentedPan (PanID : BitVec 32) (f : Frame) : Prop := f.SourcePanID = PanID ∨ PanID = 0xFFFF

/-- What an accepted frame has been promised to be. -/
structure Admissible (r : Radio) (frmfilt0 frmfilt1 : TMem) (f : Frame) : Prop where
  length : leastLength f ≤ f.FrameLength.toInt
  reserved : reservedBits frmfilt0 f.FCF = 0
  modes : f.SrcAddressMode ≠ 1 ∧ f.DestAddressMode ≠ 1
  pan : f.DestAddressMode ≠ 0 → f.DestinationPanID = r.PanID ∨ f.DestinationPanID = 0xFFFF
  short : f.DestAddressMode = 2 →
    f.DestinationAddress = r.ShortAddress ∨ f.DestinationAddress = 0xFFFF
  extended : f.DestAddressMode = 3 →
    f.ExtDestAddressH = r.ExtAddressH ∧ f.ExtDestAddressL = r.ExtAddressL
  type : TypeRule (DocumentedPan r.PanID f) r.PanID frmfilt0 frmfilt1 f (documentedType frmfilt1 f.FCF)

theorem rejectsBeacon_iff (PanID : BitVec 32) (frmfilt1 : TMem) (f : Frame) :
    ¬ rejectsBeacon PanID frmfilt1 f ↔ frmfilt1 &&& ACCEPT_FT0_BEACON ≠ 0 ∧ 9 ≤ f.FrameLength.toInt ∧
      f.DestAddressMode = 0 ∧ f.SrcAddressMode ≠ 0 ∧ CheckedPan PanID f := by
  rw [rejectsBeacon, decide_eq_true_eq, CheckedPan]
  simp only [not_or, not_and_or, not_not, not_lt, ne_eq]

theorem rejectsAddressed_iff (mask : TMem) (PanID : BitVec 32) (frmfilt0 frmfilt1 : TMem) (f : Frame) :
    ¬ rejectsAddressed mask PanID frmfilt0 frmfilt1 f ↔ Addressed mask PanID frmfilt0 frmfilt1 f := by
  rw [rejectsAddressed, decide_eq_true_eq]
  simp only [not_or, not_and, not_not, not_lt, ne_eq]
  constructor
  · rintro ⟨henabled, hlength, hincluded, hcoordinator⟩
    exact ⟨henabled, hlength, or_iff_not_imp_left.mpr fun h => hincluded (not_not.mp h), hcoordinator⟩
  · rintro ⟨henabled, hlength, hincluded, hcoordinator⟩
    exact ⟨henabled, hlength, fun h => hincluded.resolve_left (not_not.mpr h), hcoordinator⟩

theorem rejectsAck_iff (frmfilt1 : TMem) (f : Frame) :
    ¬ rejectsAck frmfilt1 f ↔ frmfilt1 &&& ACCEPT_FT2_ACK ≠ 0 ∧ f.FrameLength.toInt = 5 := by
  rw [rejectsAck, decide_eq_true_eq]
  simp only [not_or, not_not, ne_eq]

theorem rejectsReserved_iff (frmfilt1 : TMem) (f : Frame) :
    ¬ rejectsReserved frmfilt1 f ↔
      frmfilt1 &&& ACCEPT_FT4TO7_RESERVED ≠ 0 ∧ 9 ≤ f.FrameLength.toInt := by
  rw [rejectsReserved, decide_eq_true_eq]
  simp only [not_or, not_lt, ne_eq]

/-- What the code checks. -/
theorem accepts_iff (r : Radio) (frmfilt0 frmfilt1 : TMem) (f : Frame) :
    accepts r frmfilt0 frmfilt1 f ↔ Checked r frmfilt0 f ∧
      TypeRule (CheckedPan r.PanID f) r.PanID frmfilt0 frmfilt1 f f.FrameType := by
  have hite (c : Prop) [Decidable c] (b : Bool) : (if c then false else b) = true ↔ ¬ c ∧ b = true := by
    by_cases h : c <;> simp [h]
  unfold accepts
  simp only [hite]
  simp only [minimumLength_eq, not_lt, not_and, not_not, not_or, ne_eq, and_true, rejectsData,
    rejectsMacCommand, rejectsBeacon_iff, rejectsAddressed_iff, rejectsAck_iff, rejectsReserved_iff]
  constructor
  · rintro ⟨hlength, hreserved, hmodes, hpan, hshort, hext, hbeacon, hdata, hack, hmac, hres⟩
    refine ⟨⟨hlength, hreserved, hmodes, fun h => or_iff_not_imp_left.mpr (hpan h),
      fun h => or_iff_not_imp_left.mpr (hshort h), fun h => or_iff_not_imp_left.mpr (hext h)⟩,
      hbeacon, hdata, hack, hmac, hres⟩
  · rintro ⟨⟨hlength, hreserved, hmodes, hpan, hshort, hext⟩, hbeacon, hdata, hack, hmac, hres⟩
    exact ⟨hlength, hreserved, hmodes, fun h => or_iff_not_imp_left.mp (hpan h),
      fun h => or_iff_not_imp_left.mp (hshort h), fun h => or_iff_not_imp_left.mp (hext h), hbeacon,
      hdata, hack, hmac, hres⟩

/-- The promise about the frames that the filter accepts. -/
def FilterSound (st : RadioSt) : Prop :=
  (filterFrame st).1 = true →
    Admissible st.hw (reg Reg.FRMFILT0 st) (reg Reg.FRMFILT1 st) (filterFrame st).2.hw.RXframe

/-- The condition: both halves of an extended destination address match or none does, the type that the
code uses is the one of the comments or a frame of the latter would be accepted too, and a beacon comes
from the node's PAN unless the node has none. -/
def FilterCondition (r : Radio) (frmfilt0 frmfilt1 : TMem) (f : Frame) : Prop :=
  Checked r frmfilt0 f →
  TypeRule (CheckedPan r.PanID f) r.PanID frmfilt0 frmfilt1 f (modifiedType frmfilt1 f.FCF) →
    (f.DestAddressMode = 3 →
      (f.ExtDestAddressH = r.ExtAddressH ↔ f.ExtDestAddressL = r.ExtAddressL)) ∧
    if modifiedType frmfilt1 f.FCF = documentedType frmfilt1 f.FCF then
      documentedType frmfilt1 f.FCF = BEACON → f.SourcePanID = r.PanID ∨ r.PanID = 0xFFFF
    else
      TypeRule (DocumentedPan r.PanID f) r.PanID frmfilt0 frmfilt1 f (documentedType frmfilt1 f.FCF)

/-- Where the types agree, the rules differ in the source PAN identifier of beacons. -/
theorem typeRule_iff {pan pan' : Prop} {PanID : BitVec 32} {frmfilt0 frmfilt1 : TMem} {f : Frame}
    {t : BitVec 32} (h : TypeRule pan PanID frmfilt0 frmfilt1 f t) :
    TypeRule pan' PanID frmfilt0 frmfilt1 f t ↔ (t = BEACON → pan') := by
  constructor
  · intro h' ht
    exact (h'.beacon ht).2.2.2.2
  · intro hpan
    refine { h with beacon := fun ht => ?_ }
    obtain ⟨henabled, hlength, hdest, hsrc, -⟩ := h.beacon ht
    exact ⟨henabled, hlength, hdest, hsrc, hpan ht⟩

/-- **When the filter keeps its promise.** -/
theorem filterFrame_sound_iff (st : RadioSt) :
    FilterSound st ↔ FilterCondition st.hw (reg Reg.FRMFILT0 st) (reg Reg.FRMFILT1 st)
      (filtered (reg Reg.FRMFILT1 st) st.hw.RXframe) := by
  generalize hf : filtered (reg Reg.FRMFILT1 st) st.hw.RXframe = f
  have htype : f.FrameType = modifiedType (reg Reg.FRMFILT1 st) f.FCF := by
    rw [← hf]
    rfl
  have hvalue : (filterFrame st).1 = accepts st.hw (reg Reg.FRMFILT0 st) (reg Reg.FRMFILT1 st) f := by
    rw [← hf]
    rfl
  have hframe : (filterFrame st).2.hw.RXframe = f := hf
  rw [FilterSound, hvalue, hframe, accepts_iff, htype, FilterCondition, and_imp]
  refine imp_congr_right fun hchecked => imp_congr_right fun hrule => ?_
  have hext : (f.DestAddressMode = 3 → f.ExtDestAddressH = st.hw.ExtAddressH ∧
      f.ExtDestAddressL = st.hw.ExtAddressL) ↔ (f.DestAddressMode = 3 →
      (f.ExtDestAddressH = st.hw.ExtAddressH ↔ f.ExtDestAddressL = st.hw.ExtAddressL)) := by
    refine imp_congr_right fun hmode => ?_
    have hor := hchecked.extended hmode
    tauto
  have hrules : TypeRule (DocumentedPan st.hw.PanID f) st.hw.PanID (reg Reg.FRMFILT0 st)
      (reg Reg.FRMFILT1 st) f (documentedType (reg Reg.FRMFILT1 st) f.FCF) ↔
      if modifiedType (reg Reg.FRMFILT1 st) f.FCF = documentedType (reg Reg.FRMFILT1 st) f.FCF then
        documentedType (reg Reg.FRMFILT1 st) f.FCF = BEACON →
          f.SourcePanID = st.hw.PanID ∨ st.hw.PanID = 0xFFFF
      else TypeRule (DocumentedPan st.hw.PanID f) st.hw.PanID (reg Reg.FRMFILT0 st)
        (reg Reg.FRMFILT1 st) f (documentedType (reg Reg.FRMFILT1 st) f.FCF) := by
    split
    next heq =>
      rw [heq] at hrule
      exact typeRule_iff hrule
    next => exact Iff.rfl
  rw [← hext, ← hrules]
  constructor
  · intro h
    exact ⟨h.extended, h.type⟩
  · rintro ⟨hextended, hdocumented⟩
    exact ⟨hchecked.length, hchecked.reserved, hchecked.modes, hchecked.pan, hchecked.short, hextended,
      hdocumented⟩

/-- A data frame that the comments make one of a reserved type: `MODIFY_FT_FILTER` is 1, and reserved
types are not accepted. -/
def invertedDataFrame : RadioSt :=
  let mem := xramOf [(Reg.FRMFILT0, 0x0D), (Reg.FRMFILT1, 0x7A), (0x6172, 0x0B), (0x6173, 0x3D),
    (0x6174, 0xA8), (0x6175, 0x71)]
  let frame : Frame := { (default : Frame) with
    FrameLength := 0x40, FCF := 0x8801, SrcAddressMode := 2, SourceAddress := 0x6450,
    SourcePanID := 0x7D83, DestAddressMode := 2, DestinationAddress := 0x71A8,
    DestinationPanID := 0x3D0B }
  { mem := mem, hw := init frame default false false mem }

/-- The frame is accepted. -/
theorem filterFrame_unsound : ¬ FilterSound invertedDataFrame := by
  intro hsound
  have hadmissible := hsound (by decide +kernel)
  exact (hadmissible.type.reserved (by decide +kernel)).1 (by decide +kernel)

end Radio

end Ucsim.S51
