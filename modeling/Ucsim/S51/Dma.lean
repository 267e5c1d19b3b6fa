import Ucsim.S51.ElementXram

/-!
# The DMA controller

`cl_CC2530_dma`: five channels, each a state machine that loads its configuration from `xram`, waits for a
trigger and moves a byte or a word each time it is looked at.
-/

namespace Ucsim.S51

open Logic

namespace Reg

def DMAIRQ : Int := 0xD1
def DMA1CFGL : Int := 0xD2
def DMA1CFGH : Int := 0xD3
def DMA0CFGL : Int := 0xD4
def DMA0CFGH : Int := 0xD5
def DMAARM : Int := 0xD6
def DMAREQ : Int := 0xD7

def bmDMAIF : TMem := 1

end Reg

/-- The states of a channel. -/
inductive DMAChStates
  | DMAChannelIdle
  | LoadDMAChannelConfig
  | DMAChannelArmed
  | TransferOneByteOrWord
  | SetInterruptFlag
  | DisarmChannel
  deriving DecidableEq, Repr

/-- What a reader of a channel's history may want to know: its bit of `DMAARM` has been written, or a
trigger has been received, in a state; a byte has been moved; a unit of one or two bytes has been counted;
the bit of `DMAIRQ` has been set at the end of a transfer. -/
inductive DmaCall
  | arm (bit : Bool) (state : DMAChStates)
  | trigger (state : DMAChStates)
  | move (src dst : Int)
  | unit
  | irq (repeated : Bool)
  deriving DecidableEq, Repr

/-- A channel. `calls` is its history, and not in the source. -/
structure DMAchannel where
  DmaChState : DMAChStates
  source : Int
  destination : Int
  ConfigAddress : Int
  s : Int
  d : Int
  ITmask : Bool
  armed : Bool
  single : Bool
  repeated : Bool
  triggered : Bool
  TransferCount : Int
  VLEN : Int
  LEN : Int
  Priority : Int
  delta : Int
  TriggerEvent : Int
  SRCincrement : Int
  DESTincrement : Int
  SRCinc : Int
  DESTinc : Int
  TxMode : Int
  Byte_Word_tx : Int
  M8 : Int
  calls : List DmaCall
  deriving DecidableEq

/-- The controller. -/
structure Dma where
  ObjInit : Bool
  tabDMACh : Fin 5 → DMAchannel

/-- The controller and the memory. -/
abbrev DmaSt := ElementSt Dma

namespace DMAchannel

/-- `channel_init`. -/
def init (calls : List DmaCall) : DMAchannel where
  DmaChState := .DMAChannelIdle
  source := 0
  destination := 0
  ConfigAddress := 0
  s := 0
  d := 0
  ITmask := false
  armed := false
  single := false
  repeated := false
  triggered := false
  TransferCount := 0
  VLEN := 0
  LEN := 0
  Priority := 0
  delta := 0
  TriggerEvent := 32
  SRCincrement := 0
  DESTincrement := 0
  SRCinc := 0
  DESTinc := 0
  TxMode := 0
  Byte_Word_tx := 0
  M8 := 0
  calls := calls

/-- Something is added to the history. -/
def log (call : DmaCall) (ch : DMAchannel) : DMAchannel := { ch with calls := ch.calls ++ [call] }

/-- The next state. -/
def enter (state : DMAChStates) (ch : DMAchannel) : DMAchannel := { ch with DmaChState := state }

/-- The bit of the channel in `DMAARM` is written. -/
def arm (bit : Bool) (ch : DMAchannel) : DMAchannel :=
  { ch with armed := bit }.log (.arm bit ch.DmaChState)

/-- The channel is triggered. -/
def trigger (ch : DMAchannel) : DMAchannel := { ch with triggered := true }.log (.trigger ch.DmaChState)

/-- The trigger is taken in account. -/
def takeTrigger (ch : DMAchannel) : DMAchannel :=
  { ch with triggered := false }.enter .TransferOneByteOrWord

/-- The end of `transfer`. -/
def updateCounters (ch : DMAchannel) : DMAchannel :=
  { ch with s := ch.s + ch.SRCinc, d := ch.d + ch.DESTinc, TransferCount := ch.TransferCount - 1 }.log .unit

/-- The end of the transfers. -/
def finish (ch : DMAchannel) : DMAchannel :=
  (ch.enter (if ch.repeated then .LoadDMAChannelConfig else .DisarmChannel)).log (.irq ch.repeated)

/-- The channel moves to the idle state. -/
def disarm (ch : DMAchannel) : DMAchannel := { ch with armed := false }.enter .DMAChannelIdle

/-- The `switch` for the number of bytes that the length byte does not count. -/
def deltaOf (VLEN : Int) : Int :=
  if VLEN = 1 then 1 else if VLEN = 2 then 0 else if VLEN = 3 then 2 else if VLEN = 4 then 3 else 0

/-- The `switch` for `TransferCount`. `VLEN` has three bits, so that its assertion is never reached. -/
def transferCount (VLEN LEN delta length : Int) : Int :=
  if 1 ≤ VLEN ∧ VLEN ≤ 4 then min LEN (length + delta)
  else if VLEN = 0 ∨ VLEN = 7 then LEN
  else min LEN length

/-- The `switch` for `SRCinc` and `DESTinc`. -/
def increment (code : Int) : Int :=
  if code = 1 then 1 else if code = 2 then 2 else if code = 3 then -1 else 0

/-- The fields of the configuration. -/
def readConfig (byte : Int → TMem) (CFGaddr : Int) (ch : DMAchannel) : DMAchannel :=
  { ch with
    source := (byte CFGaddr).toNat * 0x100 + (byte (CFGaddr + 1)).toNat
    destination := (byte (CFGaddr + 2)).toNat * 0x100 + (byte (CFGaddr + 3)).toNat
    VLEN := ((byte (CFGaddr + 4) &&& 0xE0) >>> 5).toNat
    LEN := (byte (CFGaddr + 4) &&& 0x1F).toNat * 0x100 + (byte (CFGaddr + 5)).toNat
    Byte_Word_tx := ((byte (CFGaddr + 6) &&& 0x80) >>> 7).toNat
    TxMode := ((byte (CFGaddr + 6) &&& 0x60) >>> 5).toNat
    TriggerEvent := (byte (CFGaddr + 6) &&& 0x1F).toNat
    SRCincrement := ((byte (CFGaddr + 7) &&& 0xC0) >>> 6).toNat
    DESTincrement := ((byte (CFGaddr + 7) &&& 0x30) >>> 4).toNat
    ITmask := (byte (CFGaddr + 7) &&& 0x08) >>> 3 ≠ 0
    M8 := ((byte (CFGaddr + 7) &&& 0x04) >>> 2).toNat
    Priority := (byte (CFGaddr + 7) &&& 0x03).toNat }

/-- The second half of `LoadConfig`, which `ObjInit` leaves out. -/
def startTransfer (byte : Int → TMem) (ch : DMAchannel) : DMAchannel :=
  { ch with
    s := ch.source
    d := ch.destination
    delta := deltaOf ch.VLEN
    TransferCount := transferCount ch.VLEN ch.LEN (deltaOf ch.VLEN) (byte ch.source).toNat
    SRCinc := increment ch.SRCincrement
    DESTinc := increment ch.DESTincrement
    single := ch.TxMode % 2 = 0
    repeated := ch.TxMode / 2 % 2 = 1 }

/-- `LoadConfig`. -/
def loadConfig (ObjInit : Bool) (byte : Int → TMem) (CFGaddr : Int) (ch : DMAchannel) : DMAchannel :=
  let ch := (init ch.calls).readConfig byte CFGaddr
  if ObjInit then ch else ch.startTransfer byte

end DMAchannel

namespace Dma

open DMAchannel

/-- Changes a channel. -/
def setChannel (i : Fin 5) (f : DMAchannel → DMAchannel) (st : DmaSt) : DmaSt :=
  { st with hw := { st.hw with
    tabDMACh := Function.update st.hw.tabDMACh i (f (st.hw.tabDMACh i)) } }

/-- The loops over the channels. -/
def mapChannels (f : Fin 5 → DMAchannel → DMAchannel) (st : DmaSt) : DmaSt :=
  { st with hw := { st.hw with tabDMACh := fun i => f i (st.hw.tabDMACh i) } }

/-- `val & (1 << i)`. -/
def bitSet (val : TMem) (i : Nat) : Bool := val.getLsbD i

/-- `set_bit1` of a register. -/
def setBit1 (r : Int) (bits : TMem) (st : DmaSt) : DmaSt :=
  { st with mem := Function.update st.mem (.sfr r) (st.mem (.sfr r) ||| (bits &&& 0xff)) }

/-! ## Register writes -/

/-- The branch of `write` for `DMAARM`: the bit 7 is ABORT. -/
def writeArm (val : TMem) (st : DmaSt) : DmaSt :=
  let st := mapChannels (fun i => arm (bitSet val i)) st
  if bitSet val 7 then
    mapChannels (fun _ => arm false) { st with mem := Function.update st.mem (.sfr Reg.DMAARM) 0 }
  else st

/-- `write`. -/
def write (c : Site) (val : TMem) (st : DmaSt) : DmaSt :=
  let st := if c = .sfr Reg.DMAREQ then
      mapChannels (fun i ch => if bitSet val i then ch.trigger else ch) st
    else st
  let st := if c = .sfr Reg.DMAARM then writeArm val st else st
  if c = .sfr Reg.DMAIRQ then
    mapChannels (fun i ch => if bitSet val i then { ch with ITmask := true } else ch) st
  else st

/-- The cells that the constructor registers. -/
def registered : List Site := [.sfr Reg.DMAARM, .sfr Reg.DMAREQ, .sfr Reg.DMAIRQ, .sfr Reg.IRCON]

/-- What `write` does to channel `i`. -/
def writeChannel (c : Site) (val : TMem) (i : Fin 5) (ch : DMAchannel) : DMAchannel :=
  if c = .sfr Reg.DMAREQ then if bitSet val i then ch.trigger else ch
  else if c = .sfr Reg.DMAARM then
    if bitSet val 7 then (ch.arm (bitSet val i)).arm false else ch.arm (bitSet val i)
  else if c = .sfr Reg.DMAIRQ then if bitSet val i then { ch with ITmask := true } else ch
  else ch

theorem DMAARM_ne_DMAREQ : Site.sfr Reg.DMAARM ≠ .sfr Reg.DMAREQ := by decide

theorem DMAIRQ_ne_DMAREQ : Site.sfr Reg.DMAIRQ ≠ .sfr Reg.DMAREQ := by decide

theorem DMAIRQ_ne_DMAARM : Site.sfr Reg.DMAIRQ ≠ .sfr Reg.DMAARM := by decide

/-- The channels are written independently of each other. -/
theorem write_hw (c : Site) (val : TMem) (st : DmaSt) :
    (write c val st).hw
      = { st.hw with tabDMACh := fun i => writeChannel c val i (st.hw.tabDMACh i) } := by
  unfold write writeArm writeChannel
  by_cases hreq : c = .sfr Reg.DMAREQ
  · subst hreq
    simp [DMAARM_ne_DMAREQ.symm, DMAIRQ_ne_DMAREQ.symm, mapChannels]
  · by_cases harm : c = .sfr Reg.DMAARM
    · subst harm
      simp only [if_neg hreq, DMAIRQ_ne_DMAARM.symm, if_false, if_true]
      split <;> rfl
    · simp only [if_neg hreq, if_neg harm]
      split <;> rfl

theorem write_mem (c : Site) (val : TMem) (st : DmaSt) :
    (write c val st).mem
      = if c = .sfr Reg.DMAARM ∧ bitSet val 7 then Function.update st.mem (.sfr Reg.DMAARM) 0
        else st.mem := by
  unfold write writeArm
  by_cases harm : c = .sfr Reg.DMAARM
  · subst harm
    simp only [if_neg DMAARM_ne_DMAREQ, DMAIRQ_ne_DMAARM.symm, if_false, if_true, true_and]
    split <;> rfl
  · simp only [harm, if_false, false_and]
    split <;> split <;> rfl

theorem write_bytes (c : Site) (val : TMem) (st : DmaSt) (h : IsBytes st.mem) :
    IsBytes (write c val st).mem := by
  rw [write_mem]
  split
  · exact isBytes_update h _ (by decide)
  · exact h

/-- The controller as an element of the board. -/
def element : Element Dma where
  cathegory := .cc2530Dma
  registered := registered
  read c st := st.mem c
  write := write
  registered_core := by decide
  registered_code := by decide
  write_bytes := write_bytes

/-! ## Triggers from other hardware -/

/-- The events that `happen` knows. -/
inductive HwEvent
  | EV_T1_CH0 | EV_T1_CH1 | EV_T1_CH2 | EV_T2_EVENT1 | EV_T2_EVENT2 | EV_T3_CH0 | EV_T3_CH1 | EV_T4_CH0
  | EV_T4_CH1 | EV_ST | EV_IOC_0 | EV_IOC_1 | EV_URX0 | EV_UTX0 | EV_URX1 | EV_UTX1 | EV_FLASH
  | EV_RADIO | EV_DBG_BW
  /-- Other events leave `Trigger` as it is, not initialized. -/
  | other (Trigger : Int)
  deriving DecidableEq, Repr

/-- The number of the trigger. -/
def HwEvent.Trigger : HwEvent → Int
  | EV_T1_CH0 => 2
  | EV_T1_CH1 => 3
  | EV_T1_CH2 => 4
  | EV_T2_EVENT1 => 5
  | EV_T2_EVENT2 => 6
  | EV_T3_CH0 => 7
  | EV_T3_CH1 => 8
  | EV_T4_CH0 => 9
  | EV_T4_CH1 => 10
  | EV_ST => 11
  | EV_IOC_0 => 12
  | EV_IOC_1 => 13
  | EV_URX0 => 14
  | EV_UTX0 => 15
  | EV_URX1 => 16
  | EV_UTX1 => 17
  | EV_FLASH => 18
  | EV_RADIO => 19
  | EV_DBG_BW => 31
  | other Trigger => Trigger

/-- `happen`. -/
def happen (he : HwEvent) (st : DmaSt) : DmaSt :=
  mapChannels (fun _ ch => if ch.TriggerEvent = he.Trigger then ch.trigger else ch) st

/-! ## The state machine -/

/-- `config_channel_addresses`. -/
def configChannelAddresses (st : DmaSt) : DmaSt :=
  let address (high low : Int) : Int :=
    (st.mem (.sfr high)).toNat * 0x100 + (st.mem (.sfr low)).toNat
  mapChannels (fun i ch =>
    { ch with
      ConfigAddress :=
        if i = 0 then address Reg.DMA0CFGH Reg.DMA0CFGL
        else address Reg.DMA1CFGH Reg.DMA1CFGL + 32 * ((i : Int) - 1) }) st

/-- One byte of `transfer`. -/
def move (i : Fin 5) (src dst : Int) (st : DmaSt) : Option DmaSt :=
  element.xramWrite dst (Element.xramRead src st)
    (setChannel i (log (.move src dst)) st)

/-- The second byte of `transfer`. -/
def moveSecond (i : Fin 5) (st : DmaSt) : Option DmaSt :=
  let ch := st.hw.tabDMACh i
  if ch.Byte_Word_tx = 1 then
    if ch.DESTinc ≥ 0 then move i (ch.s + 1) (ch.d + 1) st else move i (ch.s - 1) (ch.d - 1) st
  else some st

/-- `transfer`. -/
def transfer (i : Fin 5) (st : DmaSt) : Option DmaSt := do
  let st ← move i (st.hw.tabDMACh i).s (st.hw.tabDMACh i).d st
  let st ← moveSecond i st
  return setChannel i updateCounters st

/-- What `StateTrans` does after a transfer. -/
def afterTransfer (i : Fin 5) (st : DmaSt) : DmaSt :=
  let ch := st.hw.tabDMACh i
  if ch.TransferCount ≤ 0 then
    let st := setBit1 Reg.DMAIRQ ((1 : TMem) <<< (i : Nat)) st
    let st := if ch.ITmask then setBit1 Reg.IRCON Reg.bmDMAIF st else st
    setChannel i finish st
  else if ch.single ∧ ¬ ch.triggered then setChannel i (enter .DMAChannelArmed) st
  else st

/-- `StateTrans`. -/
def stateTrans (i : Fin 5) (st : DmaSt) : Option DmaSt :=
  let ch := st.hw.tabDMACh i
  match ch.DmaChState with
  | .DMAChannelIdle =>
    some (if ch.armed then setChannel i (enter .LoadDMAChannelConfig) st else st)
  | .LoadDMAChannelConfig =>
    some (setChannel i (fun ch =>
      (ch.loadConfig st.hw.ObjInit (fun a => Element.xramRead a st) ch.ConfigAddress).enter
        .DMAChannelArmed) st)
  | .DMAChannelArmed => some (if ch.triggered then setChannel i takeTrigger st else st)
  | .TransferOneByteOrWord => (transfer i st).map (afterTransfer i)
  | .DisarmChannel => some (setChannel i disarm st)
  -- The assertion that the state is unknown.
  | .SetInterruptFlag => none

/-- `tick`. -/
def tick (st : DmaSt) : Option DmaSt :=
  (List.finRange 5).foldlM (fun st i => stateTrans i st) (configChannelAddresses st)

/-- The controller after `reset`. -/
def initial : Dma where
  ObjInit := false
  tabDMACh _ := DMAchannel.init []

/-! ## Writes of cells -/

/-- A cell of the controller has one operator, and `write` does nothing for the other cells. -/
theorem calls_eq (c : Site) (val : TMem) (st : DmaSt) :
    element.calls c val (element.operators c) st = write c val st := by
  by_cases hc : c ∈ registered
  · have hone : element.operators c = 1 := List.count_eq_one_of_mem (by decide) hc
    rw [hone]
    rfl
  · have hzero : element.operators c = 0 := List.count_eq_zero.mpr hc
    have hne : c ≠ .sfr Reg.DMAREQ ∧ c ≠ .sfr Reg.DMAARM ∧ c ≠ .sfr Reg.DMAIRQ := by
      refine ⟨?_, ?_, ?_⟩ <;> rintro rfl <;> exact hc (by decide)
    rw [hzero, write, if_neg hne.1, if_neg hne.2.1, if_neg hne.2.2]
    rfl

theorem stored_update (c : Site) (v w : TMem) (mem : Site → TMem) (hc : c ≠ acc) :
    stored c v (Function.update mem c w) = stored c v mem := by
  rw [stored, stored, if_neg hc, if_neg hc, Function.update_idem]

/-- ABORT clears `DMAARM` before the byte is stored there. -/
theorem writeCell_eq (c : Site) (val : TMem) (st : DmaSt) :
    element.writeCell c val st
      = { mem := stored c val st.mem
          hw := { st.hw with tabDMACh := fun i => writeChannel c val i (st.hw.tabDMACh i) } } := by
  have hmem : stored c val (write c val st).mem = stored c val st.mem := by
    rw [write_mem]
    split
    · next h => rw [h.1, stored_update _ _ _ _ (by decide)]
    · rfl
  rw [Element.writeCell, calls_eq]
  dsimp only
  rw [hmem, write_hw]

@[simp] theorem setChannel_mem (i : Fin 5) (f : DMAchannel → DMAchannel) (st : DmaSt) :
    (setChannel i f st).mem = st.mem := rfl

@[simp] theorem setChannel_self (i : Fin 5) (f : DMAchannel → DMAchannel) (st : DmaSt) :
    (setChannel i f st).hw.tabDMACh i = f (st.hw.tabDMACh i) := Function.update_self _ _ _

@[simp] theorem setChannel_of_ne {i j : Fin 5} (h : j ≠ i) (f : DMAchannel → DMAchannel) (st : DmaSt) :
    (setChannel i f st).hw.tabDMACh j = st.hw.tabDMACh j := Function.update_of_ne h _ _

@[simp] theorem setBit1_hw (r : Int) (bits : TMem) (st : DmaSt) : (setBit1 r bits st).hw = st.hw := rfl

/-! ## The states -/

section States

variable {i : Fin 5} {st : DmaSt}

theorem stateTrans_idle (h : (st.hw.tabDMACh i).DmaChState = .DMAChannelIdle) : stateTrans i st
    = some (if (st.hw.tabDMACh i).armed then setChannel i (enter .LoadDMAChannelConfig) st else st) := by
  unfold stateTrans
  dsimp only
  rw [h]

theorem stateTrans_load (h : (st.hw.tabDMACh i).DmaChState = .LoadDMAChannelConfig) : stateTrans i st
    = some (setChannel i (fun ch =>
      (ch.loadConfig st.hw.ObjInit (fun a => Element.xramRead a st) ch.ConfigAddress).enter
        .DMAChannelArmed) st) := by
  unfold stateTrans
  dsimp only
  rw [h]

theorem stateTrans_armed (h : (st.hw.tabDMACh i).DmaChState = .DMAChannelArmed) : stateTrans i st
    = some (if (st.hw.tabDMACh i).triggered then setChannel i takeTrigger st else st) := by
  unfold stateTrans
  dsimp only
  rw [h]

theorem stateTrans_transfer (h : (st.hw.tabDMACh i).DmaChState = .TransferOneByteOrWord) :
    stateTrans i st = (transfer i st).map (afterTransfer i) := by
  unfold stateTrans
  dsimp only
  rw [h]

theorem stateTrans_disarm (h : (st.hw.tabDMACh i).DmaChState = .DisarmChannel) :
    stateTrans i st = some (setChannel i disarm st) := by
  unfold stateTrans
  dsimp only
  rw [h]

end States

end Dma

end Ucsim.S51
