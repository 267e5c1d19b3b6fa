import Ucsim.S51.Element

/-!
# The timers with capture and compare channels

The class template `cl_CC2530_timer` of the timers 1, 3 and 4: `w` is the width of its `T`, which is
`short` or `char`. What the timers give to the template is a `Wiring`.
-/

namespace Ucsim.S51

open Logic

namespace Reg

def T1STAT : Int := 0xAF
def T3CNT : Int := 0xCA
def T3CTL : Int := 0xCB
def T3CCTL0 : Int := 0xCC
def T3CC0 : Int := 0xCD
def T3CCTL1 : Int := 0xCE
def T3CC1 : Int := 0xCF
def TIMIF : Int := 0xD8
def T1CC0L : Int := 0xDA
def T1CC0H : Int := 0xDB
def T1CC1L : Int := 0xDC
def T1CC1H : Int := 0xDD
def T1CC2L : Int := 0xDE
def T1CC2H : Int := 0xDF
def T1CNTL : Int := 0xE2
def T1CNTH : Int := 0xE3
def T1CTL : Int := 0xE4
def T1CCTL0 : Int := 0xE5
def T1CCTL1 : Int := 0xE6
def T1CCTL2 : Int := 0xE7
def T4CNT : Int := 0xEA
def T4CTL : Int := 0xEB
def T4CCTL0 : Int := 0xEC
def T4CC0 : Int := 0xED
def T4CCTL1 : Int := 0xEE
def T4CC1 : Int := 0xEF
def T1CCTL3 : Int := 0x62A3
def T1CCTL4 : Int := 0x62A4
def T1CC3L : Int := 0x62AC
def T1CC3H : Int := 0x62AD
def T1CC4L : Int := 0x62AE
def T1CC4H : Int := 0x62AF

end Reg

def bmM0 : TMem := 0x01
def bmM1 : TMem := 0x02
def bmDIV : TMem := 0x0C
def bmCmpMode : TMem := 0x04
def bmWTDonCMP : TMem := 0x38

/-- A timer. The arrays are the fields of `tabCh`; `channelID` and `high` belong to timer 1. -/
structure CcTimer (w : Nat) where
  count : BitVec w
  NextCmpEvent : BitVec w
  mode : Nat
  TR : TMem
  prescale : Nat
  up_down : Bool
  up_down_changed : Bool
  PinEvent : Bool
  IOPin : Fin 5 → Bool
  ExIOPin : Fin 5 → Bool
  ValRegCMP : Fin 5 → BitVec w
  channelID : Fin 5
  high : Bool

/-- A timer and the memory. -/
abbrev CcSt (w : Nat) := ElementSt (CcTimer w)

/-- What `TimerTick` makes of the mode. -/
inductive CountMode
  | stop | freeRunning | modulo | upDown | down
  deriving DecidableEq, Repr

/-- What a timer gives to the template: `channels` is `0` to `ChMax - 1`. -/
structure Wiring (w : Nat) where
  channels : List (Fin 5)
  cell_txctl : Site
  cell_OvfMaskReg : Site
  cell_OvfFlagReg : Site
  cell_FlagReg : Site
  cell_tl : Site
  cell_th : Option Site
  OVFMaskMask : TMem
  OVFIFMask : TMem
  IrconFlag : TMem
  regCTL : Fin 5 → Site
  /-- The `switch` of `TimerTick`. -/
  countMode : CcTimer w → CountMode
  /-- Does the schedule look backwards for a channel? -/
  down : Fin 5 → CcTimer w → Bool
  /-- May a channel replace a `NextCmpEvent` of -1 with any distance? -/
  first : Fin 5 → Bool
  /-- The flag that a capture sets. -/
  flag : Fin 5 → TMem
  /-- Does a capture request the interrupt? -/
  request : Fin 5 → Bool

namespace CcTimer

variable {w : Nat}

/-- One pass of the loop of `get_next_cc_event`, for a channel in compare mode. -/
def scan (down first : Bool) (count val next : BitVec w) : BitVec w :=
  let cmpEventIn := if down then count - val else val - count
  if (0 < cmpEventIn.toInt ∧ cmpEventIn.toInt < next.toInt) ∨
      (first ∧ next.toInt = -1 ∧ cmpEventIn.toInt ≠ 0) then
    cmpEventIn
  else next

/-- Is a channel in compare mode? -/
def inCompareMode (K : Wiring w) (st : CcSt w) (i : Fin 5) : Bool :=
  st.mem (K.regCTL i) &&& bmCmpMode ≠ 0

/-- `get_next_cc_event`. -/
def getNextCcEvent (K : Wiring w) (st : CcSt w) : CcSt w :=
  let next := K.channels.foldl (fun next i =>
    if inCompareMode K st i then
      scan (K.down i st.hw) (K.first i) st.hw.count (st.hw.ValRegCMP i) next
    else next) (-1)
  { st with hw := { st.hw with NextCmpEvent := next } }

/-- The mode that `TxCTL` selects. -/
def modeOf (v : TMem) : Nat :=
  let md := v &&& (bmM0 ||| bmM1)
  if md = bmM0 then 1
  else if md = bmM1 then 2
  else if md = bmM0 ||| bmM1 then 3
  else 0

/-- `cl_CC2530_timer::write`. The run bit is masked with `!(mask_M0|mask_M1)`, which is zero, and the
branch of `CLKCONCMD` changes frequencies only. -/
def baseWrite (K : Wiring w) (c : Site) (v : TMem) (st : CcSt w) : CcSt w :=
  if c = K.cell_txctl then
    getNextCcEvent K { st with hw := { st.hw with TR := 0, mode := modeOf v } }
  else st

/-! ## Captures and outputs -/

/-- `Capture`: is there an edge that the mode asks for, and the new `ExIOPin`. -/
def capture (IOPin ExIOPin : Bool) (captureMode : TMem) : Bool × Bool :=
  if IOPin ≠ ExIOPin then
    (if IOPin then captureMode = 1 ∨ captureMode = 3 else captureMode = 2 ∨ captureMode = 3, IOPin)
  else (false, ExIOPin)

/-- `Compare`: the new state of the output of a channel. -/
def compare (K : Wiring w) (st : CcSt w) (i : Fin 5) : Bool :=
  let t := st.hw
  let ctrl := st.mem (K.regCTL i)
  let IOPinChn := t.IOPin i
  let TxCCn := t.ValRegCMP i
  if ctrl &&& bmCmpMode ≠ 0 then
    match ((ctrl &&& bmWTDonCMP) >>> 3).toNat with
    | 0 => if t.count = t.ValRegCMP 0 then true else IOPinChn
    | 1 => if t.count = t.ValRegCMP 0 then false else IOPinChn
    | 2 => if t.count = t.ValRegCMP 0 then !IOPinChn else IOPinChn
    | 3 =>
      if t.mode = 3 then
        if t.count = TxCCn then !t.up_down else TxCCn.slt t.count
      else
        let pin := if t.count = TxCCn then true else IOPinChn
        if t.count = 0 then false else pin
    | 4 =>
      if t.mode = 3 then
        if t.count = TxCCn then t.up_down else !TxCCn.slt t.count
      else
        let pin := if t.count = TxCCn then false else IOPinChn
        if t.count = 0 then true else pin
    | 5 =>
      if K.regCTL i = .sfr Reg.T1CCTL0 then IOPinChn
      else if t.mode = 2 then
        let pin := if t.count = TxCCn then true else IOPinChn
        if t.count = 0 then false else pin
      else
        let pin := if t.count = t.ValRegCMP 0 then false else IOPinChn
        if t.count = TxCCn then true else pin
    | 6 =>
      if K.regCTL i = .sfr Reg.T1CCTL0 then IOPinChn
      else if t.mode = 2 then
        let pin := if t.count = TxCCn then false else IOPinChn
        if t.count = 0 then true else pin
      else
        let pin := if t.count = t.ValRegCMP 0 then true else IOPinChn
        if t.count = TxCCn then false else pin
    | _ => false
  else IOPinChn

/-- The flags of a capture. -/
def captureFlags (K : Wiring w) (i : Fin 5) (st : CcSt w) : CcSt w :=
  if st.mem (K.regCTL i) &&& 0x40 ≠ 0 then
    let mem := Function.update st.mem K.cell_FlagReg (st.mem K.cell_FlagReg ||| K.flag i)
    let mem := if K.request i then
        Function.update mem (.sfr Reg.IRCON) (mem (.sfr Reg.IRCON) ||| K.IrconFlag)
      else mem
    { st with mem := mem }
  else st

/-- One pass of the loops of `CaptureCompare`; `store` writes the count to the compare registers of a
channel. -/
def channelEvent (K : Wiring w) (store : Fin 5 → CcSt w → CcSt w) (st : CcSt w) (i : Fin 5) : CcSt w :=
  let t := st.hw
  if inCompareMode K st i then
    if t.count = t.ValRegCMP 0 ∨ t.count = t.ValRegCMP i ∨ t.count = 0 then
      { st with hw := { t with IOPin := Function.update t.IOPin i (compare K st i) } }
    else st
  else
    let (capt, ExIOPin) := capture (t.IOPin i) (t.ExIOPin i) (st.mem (K.regCTL i) &&& 0x03)
    let st := { st with hw := { t with ExIOPin := Function.update t.ExIOPin i ExIOPin } }
    if capt then captureFlags K i (store i st) else st

/-- `CaptureCompare`. -/
def captureCompare (K : Wiring w) (store : Fin 5 → CcSt w → CcSt w) (st : CcSt w) : CcSt w :=
  getNextCcEvent K (K.channels.foldl (channelEvent K store) st)

/-! ## Ticks

The partners that `overflow` informs only note the event. -/

/-- The flag and the interrupt request of an overflow. -/
def overflowFlags (K : Wiring w) (mem : Site → TMem) : Site → TMem :=
  if mem K.cell_OvfMaskReg &&& K.OVFMaskMask ≠ 0 then
    let mem := Function.update mem K.cell_OvfFlagReg (mem K.cell_OvfFlagReg ||| K.OVFIFMask)
    Function.update mem (.sfr Reg.IRCON) (mem (.sfr Reg.IRCON) ||| K.IrconFlag)
  else mem

/-- `refresh_sfr`. -/
def refreshSfr (K : Wiring w) (st : CcSt w) : CcSt w :=
  let mem := Function.update st.mem K.cell_tl (st.hw.count.setWidth 16 &&& 0xff)
  match K.cell_th with
  | some th => { st with mem := Function.update mem th ((st.hw.count.sshiftRight 8).setWidth 16 &&& 0xff) }
  | none => { st with mem := mem }

/-- Is `CaptureCompare` to be called? -/
def due (st : CcSt w) : Bool := st.hw.NextCmpEvent = 0 ∨ st.hw.PinEvent

/-- `do_FreeRunningMode` up to the test of `NextCmpEvent`. -/
def freeRunningCount (K : Wiring w) (st : CcSt w) : CcSt w :=
  let t := { st.hw with NextCmpEvent := st.hw.NextCmpEvent - 1, count := st.hw.count + 1 }
  refreshSfr K { mem := if t.count = 0 then overflowFlags K st.mem else st.mem, hw := t }

/-- `do_ModuloMode` up to the test of `NextCmpEvent`. -/
def moduloCount (K : Wiring w) (st : CcSt w) : CcSt w :=
  let t := { st.hw with NextCmpEvent := st.hw.NextCmpEvent - 1 }
  let t := if t.count = t.ValRegCMP 0 then { t with count := 0 } else { t with count := t.count + 1 }
  -- The count is zero at the end of a period, or when it wraps around above the period.
  if t.count = 0 then
    refreshSfr K (getNextCcEvent K { mem := overflowFlags K st.mem, hw := t })
  else refreshSfr K { st with hw := t }

/-- `do_UpDownMode` up to the test of `NextCmpEvent`. -/
def upDownCount (K : Wiring w) (st : CcSt w) : CcSt w :=
  let t := { st.hw with NextCmpEvent := st.hw.NextCmpEvent - 1, up_down_changed := false }
  if !t.up_down then
    let t := { t with count := t.count + 1 }
    let mem := if t.count = 0 then overflowFlags K st.mem else st.mem
    let t := if t.count = t.ValRegCMP 0 then { t with up_down := true, up_down_changed := true } else t
    refreshSfr K { mem := mem, hw := t }
  else
    let t := { t with count := t.count - 1 }
    if t.count = 0 then
      refreshSfr K { mem := overflowFlags K st.mem,
                     hw := { t with up_down := false, up_down_changed := true } }
    else refreshSfr K { st with hw := t }

/-- The end of a tick. -/
def checkEvent (K : Wiring w) (store : Fin 5 → CcSt w → CcSt w) (st : CcSt w) : CcSt w :=
  let st := if due st then captureCompare K store st else st
  { st with hw := { st.hw with PinEvent := false } }

/-- The end of a tick of the up/down mode. -/
def checkTurn (K : Wiring w) (store : Fin 5 → CcSt w → CcSt w) (st : CcSt w) : CcSt w :=
  let st := if due st then captureCompare K store st else st
  let st := if st.hw.up_down_changed then getNextCcEvent K st else st
  { st with hw := { st.hw with PinEvent := false } }

/-- One pass of the loop of `do_DownMode`. -/
def downTick (K : Wiring w) (store : Fin 5 → CcSt w → CcSt w) (st : CcSt w) : CcSt w :=
  let st := { st with hw := { st.hw with NextCmpEvent := st.hw.NextCmpEvent - 1 } }
  let st := if st.hw.count = 0 then
      let st := { st with hw := { st.hw with count := st.hw.ValRegCMP 0 } }
      if due st then captureCompare K store st else getNextCcEvent K st
    else { st with hw := { st.hw with count := st.hw.count - 1 } }
  let st := if st.hw.count = 0 then { st with mem := overflowFlags K st.mem } else st
  checkEvent K store (refreshSfr K st)

/-- A tick up to the test of `NextCmpEvent`, in the modes that count up first. -/
def countTick (K : Wiring w) (st : CcSt w) : CcSt w :=
  match K.countMode st.hw with
  | .freeRunning => freeRunningCount K st
  | .modulo => moduloCount K st
  | .upDown => upDownCount K st
  | .stop | .down => st

/-- One tick: a pass of the loop that `TimerTick` chooses. -/
def tick (K : Wiring w) (store : Fin 5 → CcSt w → CcSt w) (st : CcSt w) : CcSt w :=
  match K.countMode st.hw with
  | .stop => st
  | .freeRunning | .modulo => checkEvent K store (countTick K st)
  | .upDown => checkTurn K store (countTick K st)
  | .down => downTick K store st

end CcTimer

end Ucsim.S51
