import Ucsim.S51.ElementXram
import Ucsim.S51.MacTimer
import Ucsim.S51.Radio

/-!
# The command strobe processor

`cl_CC2530_CSP` runs the program in `CSPPROG`, one instruction a tick, and executes the strobes that are
written to `RFST`. Its cells are pointers, and those that `make_csp_watched_cells` does not assign have
no value: an instruction that uses one of them ends in a fault.
-/

namespace Ucsim.S51

open Logic

namespace Reg

def CSPPROG0 : Int := 0x61C0
def CSPCTRL : Int := 0x61E0
def CSPSTAT : Int := 0x61E1
def CSPY : Int := 0x61E3
def CSPZ : Int := 0x61E4
def RFST : Int := 0xE1

end Reg

/-- The cell members of the CSP. -/
inductive CspCell
  | cell_cspt | cell_cspctrl | cell_cspstat | cell_cspx | cell_cspy | cell_cspz | cell_t2msel | cell_t2m2
  | cell_t2m1 | cell_t2m0 | cell_frmctrl1 | cell_rxenable | cell_sampledcca | cell_rfst | cell_rfirqf0
  | cell_s1con | cell_rfirqf1 | cell_rfirqm1
  deriving DecidableEq, Repr

/-- The assignments of `make_csp_watched_cells`. -/
def CspCell.pointer : CspCell → Option Site
  | cell_rfirqf0 => some (.cell .xram Reg.RFIRQF0)
  | cell_s1con => some (.cell .xram Reg.S1CON)
  | cell_rfirqf1 => some (.cell .xram Reg.RFIRQF1)
  | cell_rfirqm1 => some (.cell .xram Reg.RFIRQM1)
  | cell_cspctrl => some (.cell .xram Reg.CSPCTRL)
  | cell_cspstat => some (.cell .xram Reg.CSPSTAT)
  | cell_cspx => some (.cell .xram Reg.CSPX)
  | cell_cspy => some (.cell .xram Reg.CSPY)
  | cell_cspz => some (.cell .xram Reg.CSPZ)
  | cell_cspt => some (.cell .xram Reg.CSPT)
  | cell_rfst => some (.sfr Reg.RFST)
  | cell_t2msel | cell_t2m2 | cell_t2m1 | cell_t2m0 | cell_frmctrl1 | cell_rxenable | cell_sampledcca => none

/-- Why the CSP fails: it uses a pointer that has not been assigned, or an address that `xram` does not
have, or stores a program byte before `PCwrite` has been set. -/
inductive CspFault
  | unassigned (c : CspCell)
  | invalidAddress (a : Int)
  | wildPCwrite
  deriving DecidableEq, Repr

/-- The events that the CSP informs its partners of. -/
inductive CspEvent
  | EV_RADIO_ACK | EV_NO_ACK
  deriving DecidableEq, Repr

/-- The data of the CSP. Positions are counters that no `int` overflow is near. `informed` is what the
partners have been told. -/
structure Csp where
  waitingForAnswer : Bool
  WaitingForOvfs : Bool
  WaitingForWOvfs : Bool
  waitWend : Bool
  OVFcountdown : Int
  event1 : Bool
  WaitingForEvent1 : Bool
  event2 : Bool
  WaitingForEvent2 : Bool
  csp_stop : Bool
  RxEnableWhenTxComplete : Bool
  PC : Int
  PCwrite : Int
  label : Int
  CCA : Int
  SFD : Int
  STXON : Bool
  SRXON : Bool
  SRFOFF : Bool
  SFLUSHRX : Bool
  SFLUSHTX : Bool
  RSSI_valid : Bool
  CPU_ctrl : Bool
  pendingBit : Bool
  radioAnswer : Bool
  informed : List CspEvent

/-- The CSP and the memory. -/
abbrev CspSt := ElementSt Csp

namespace Csp

def bmCSPrunning : TMem := 0x20
def bmRFIF : TMem := 0x03
def bmSetRxenmaskOnTx : TMem := 1
def CSP_WAIT : TMem := 0x20
def CSP_STOP : TMem := 0x10
def CSP_MANINT : TMem := 0x08
def STROBEERR : TMem := 0x40

/-! ## Cells -/

/-- A step of the CSP. -/
abbrev Step := CspSt → Except CspFault CspSt

/-- The cell that a pointer points to. -/
def deref (c : CspCell) : Except CspFault Site :=
  match c.pointer with
  | some s => .ok s
  | none => .error (.unassigned c)

/-- `cell->get()`. -/
def get (c : CspCell) (st : CspSt) : Except CspFault TMem := do return st.mem (← deref c)

/-- The memory with a byte stored in a cell. -/
def store (s : Site) (v : TMem) (st : CspSt) : CspSt :=
  { st with mem := Function.update st.mem s (v &&& 0xff) }

/-- `cell->set(val)`. -/
def set (c : CspCell) (v : TMem) : Step := fun st => do return store (← deref c) v st

/-- `cell->set_bit1(bits)`. -/
def set_bit1 (c : CspCell) (bits : TMem) : Step := fun st => do
  let s ← deref c
  return store s (st.mem s ||| (bits &&& 0xff)) st

/-- `cell->set_bit0(bits)`. -/
def set_bit0 (c : CspCell) (bits : TMem) : Step := fun st => do
  let s ← deref c
  return store s (st.mem s &&& ~~~(bits &&& 0xff)) st

/-- The data of the CSP are changed. -/
def update (f : Csp → Csp) (st : CspSt) : CspSt := { st with hw := f st.hw }

/-- `PC = pc`. -/
def setPC (pc : Int) : CspSt → CspSt := update fun p => { p with PC := pc }

/-- `PC = PC + 1`. -/
def incPC (st : CspSt) : CspSt := setPC (st.hw.PC + 1) st

/-- `inform_partners`. -/
def inform (e : CspEvent) : CspSt → CspSt := update fun p => { p with informed := p.informed ++ [e] }

/-- A flag of `RFIRQF1` is set, and the flags in `S1CON`, if the mask has the bit. -/
def request (bits flag : TMem) : Step := fun st => do
  if (← get .cell_rfirqm1 st) &&& bits ≠ 0 then
    set_bit1 .cell_s1con bmRFIF (← set_bit1 .cell_rfirqf1 flag st)
  else return st

def IRQ_CSP_STOP : Step := fun st => do
  let st ← request 0x10 CSP_STOP (update (fun p => { p with csp_stop := true }) st)
  set_bit0 .cell_cspstat bmCSPrunning st

def IRQ_CSP_WT : Step := request 0x20 CSP_WAIT

def IRQ_CSP_INT : Step := request 0x08 CSP_MANINT

/-- 24 bytes are set to `SNOP`. -/
def fillSnop (base : Int) (st : CspSt) : CspSt :=
  (List.range 24).foldl (fun st (i : Nat) => store (.cell .xram (base + i)) 0xD0 st) st

/-- `reset`. The other members keep what they were constructed with. -/
def reset : Step := fun st => do
  let st := update (fun p => { p with
    PC := 0, csp_stop := false, waitingForAnswer := false, WaitingForOvfs := false, pendingBit := false
    STXON := false, SRFOFF := false, SRXON := false, SFLUSHRX := false }) st
  let st ← set_bit0 .cell_cspstat bmCSPrunning st
  let st ← set .cell_cspt 0xFF st
  let st ← set .cell_cspctrl 0 st
  let st ← set .cell_cspstat 0 st
  let st ← set .cell_cspx 0 st
  let st ← set .cell_cspy 0 st
  let st ← set .cell_cspz 0 st
  return fillSnop Reg.CSPPROG0 st

/-! ## Instructions -/

/-- What a tick finds outside: a random number, and the `bool` of `condition` that is returned without a
value. -/
structure Input where
  rand : TMem
  undef : Bool
  deriving DecidableEq

/-- `condition`. In this file `SFD` is a macro, which stands for the start of frame delimiter, so that the
second condition is constant. -/
def condition (inp : Input) (C : TMem) (st : CspSt) : Except CspFault Bool := do
  if C = 0 then return st.hw.CCA = 1
  else if C = 1 then return (0x7A : Int) = 1
  else if C = 2 then return st.hw.CPU_ctrl
  else if C = 4 then return (← get .cell_cspx st) = 0
  else if C = 5 then return (← get .cell_cspy st) = 0
  else if C = 6 then return (← get .cell_cspz st) = 0
  else if C = 7 then return st.hw.RSSI_valid
  else return inp.undef

/-- The condition, negated if the instruction has the bit `N`. -/
def cond (inp : Input) (code : TMem) (st : CspSt) : Except CspFault Bool := do
  let b ← condition inp (code &&& 7) st
  return if code &&& 8 ≠ 0 then !b else b

/-- A register is counted up or down. -/
def count (c : CspCell) (d : TMem) : Step := fun st => do set c ((← get c st) + d) st

def inst_dec_x : Step := fun st => do return incPC (← count .cell_cspx (-1) st)

/-- There is no step of the program counter here. -/
def inst_dec_y : Step := count .cell_cspy (-1)

def inst_dec_z : Step := fun st => do return incPC (← count .cell_cspz (-1) st)

def inst_inc_x : Step := fun st => do return incPC (← count .cell_cspx 1 st)

def inst_inc_y : Step := fun st => do return incPC (← count .cell_cspy 1 st)

def inst_inc_z : Step := fun st => do return incPC (← count .cell_cspz 1 st)

def inst_inc_maxy (code : TMem) : Step := fun st => do
  let M := code &&& 7
  let y ← get .cell_cspy st
  return incPC (← set .cell_cspy (if y + 1 < M then y + 1 else M) st)

def inst_rand_xy (inp : Input) : Step := fun st => do
  let Y ← get .cell_cspy st
  let mask : TMem := if Y ≤ 7 then 0xFF >>> (8 - Y).toNat else 0xFF
  return incPC (← set .cell_cspx (inp.rand &&& mask) st)

def inst_int : Step := fun st => do return incPC (← IRQ_CSP_INT st)

def inst_waitx : Step := fun st => do
  let st := update (fun p => { p with WaitingForOvfs := true }) st
  if (← get .cell_cspx st) ≠ 0 then return st
  else
    let st ← IRQ_CSP_WT (incPC (← IRQ_CSP_WT st))
    return update (fun p => { p with WaitingForOvfs := false }) st

def inst_set_cmp1 : Step := fun st => do
  let st ← set .cell_t2msel (((← get .cell_t2msel st) &&& 0xF8) + 0o11) st
  let st ← set .cell_t2m2 0 st
  let st ← set .cell_t2m1 0 st
  let st ← set .cell_t2m0 0 st
  return incPC st

/-- `bool` is `int` here (`pobjt.h`), so `OVFcountdown` keeps the count. -/
def inst_waitw (code : TMem) : Step := fun st => do
  let W := code &&& 0x1F
  let st := update (fun p => { p with
    WaitingForWOvfs := true
    OVFcountdown := if p.waitWend then W.toNat else p.OVFcountdown
    waitWend := false }) st
  if st.hw.OVFcountdown ≠ 0 then return st
  else
    let st ← IRQ_CSP_WT st
    return update (fun p => { p with WaitingForWOvfs := false, waitWend := true }) (incPC st)

def inst_wait_event1 : Step := fun st => do
  let st := update (fun p => { p with WaitingForEvent1 := true }) st
  if st.hw.event1 = false then return st
  else
    let st ← IRQ_CSP_WT st
    return update (fun p => { p with event1 := false, WaitingForEvent1 := false }) (incPC st)

def inst_wait_event2 : Step := fun st => do
  let st := update (fun p => { p with WaitingForEvent2 := true }) st
  if st.hw.event2 = false then return st
  else
    let st ← IRQ_CSP_WT st
    return update (fun p => { p with event2 := false, WaitingForEvent2 := false }) (incPC st)

/-- The program counter stays here, too. -/
def inst_label : Step := fun st => return update (fun p => { p with label := p.PC + 1 }) st

def inst_repeatC (inp : Input) (code : TMem) : Step := fun st => do
  return if ← cond inp code st then setPC st.hw.label st else incPC st

def inst_skipCS (inp : Input) (code : TMem) : Step := fun st => do
  let S := (code &&& 0x70) >>> 4
  return if ← cond inp code st then setPC (st.hw.PC + S.toNat + 1) st else incPC st

def inst_stop : Step := IRQ_CSP_STOP

def inst_snop : Step := fun st => return incPC st

def inst_srxon : Step := fun st => return incPC (update (fun p => { p with SRXON := true }) st)

def inst_stxon : Step := fun st => do
  let st := update (fun p => { p with STXON := true }) st
  let st ← (if (← get .cell_frmctrl1 st) &&& bmSetRxenmaskOnTx ≠ 0 then do
      return update (fun p => { p with RxEnableWhenTxComplete := true })
        (← set_bit1 .cell_rxenable 0x40 st)
    else return st)
  return incPC st

def inst_stxoncca : Step := fun st =>
  return incPC (update (fun p => { p with STXON := if p.CCA = 1 then true else p.STXON }) st)

def inst_ssamplecca : Step := fun st => do
  return incPC (← set .cell_sampledcca (BitVec.ofInt 16 st.hw.CCA) st)

def inst_srfoff : Step := fun st =>
  return incPC (update (fun p => { p with STXON := false, SRXON := false }) st)

def inst_sflushrx : Step := fun st => return incPC (update (fun p => { p with SFLUSHRX := true }) st)

def inst_sflushtx : Step := fun st => return incPC (update (fun p => { p with SFLUSHTX := true }) st)

/-- The strobe error interrupt of a strobe that needs a receiver. -/
def strobeError : Step := fun st => if st.hw.SRXON = false then request 0x40 STROBEERR st else return st

/-- The radio is asked for an acknowledgment, once. -/
def askRadio (pendingBit : Bool) (st : CspSt) : CspSt :=
  if st.hw.waitingForAnswer = false then
    update (fun p => { p with waitingForAnswer := true })
      (inform .EV_RADIO_ACK (update (fun p => { p with pendingBit := pendingBit }) st))
  else st

/-- The answer of the radio ends the instruction. -/
def takeAnswer (st : CspSt) : CspSt :=
  if st.hw.radioAnswer then
    update (fun p => { p with radioAnswer := false, waitingForAnswer := false }) (incPC st)
  else st

/-- `inst_sack` and `inst_sackpend`. -/
def sendAck (pendingBit : Bool) : Step := fun st => do
  return takeAnswer (askRadio pendingBit (← strobeError st))

def inst_sack : Step := sendAck false

def inst_sackpend : Step := sendAck true

def inst_snack : Step := fun st => do return incPC (inform .EV_NO_ACK (← strobeError st))

def inst_srx_mask_bit_set : Step := fun st => do return incPC (← set_bit1 .cell_rxenable 0x20 st)

def inst_srx_mask_bit_clr : Step := fun st => do return incPC (← set_bit0 .cell_rxenable 0x20 st)

def inst_isstop : Step := IRQ_CSP_STOP

def inst_isstart : Step := fun st => do
  let st ← set_bit1 .cell_cspstat bmCSPrunning (update (fun p => { p with csp_stop := false }) st)
  return setPC 0 st

def inst_isrxon : Step := fun st => return incPC (update (fun p => { p with SRXON := true }) st)

def inst_isrx_mask_bit_set : Step := fun st => do return incPC (← set_bit1 .cell_rxenable 0x20 st)

def inst_isrx_mask_bit_clr : Step := fun st => do return incPC (← set_bit0 .cell_rxenable 0x20 st)

def inst_istxon : Step := fun st => return incPC (update (fun p => { p with STXON := true }) st)

/-- `inst_isclear`. The bytes that it sets lie at 0x6080, where the `TXFIFO` is shown. -/
def inst_isclear : Step := fun st => do
  let st ← set_bit0 .cell_cspstat bmCSPrunning (update (fun p => { p with csp_stop := true }) st)
  return update (fun p => { p with PC := 0, PCwrite := 0 }) (fillSnop 0x6080 st)

/-! ## Execution -/

/-- A `switch` without a default. -/
def switch (cases : List (TMem × Step)) (v : TMem) : Step := (cases.lookup v).getD fun st => .ok st

/-- The instructions 0xD0 to 0xDF. -/
def strobes : List (TMem × Step) :=
  [(0, inst_snop), (2, inst_stop), (3, inst_srxon), (4, inst_srx_mask_bit_set), (5, inst_srx_mask_bit_clr),
    (6, inst_sack), (7, inst_sackpend), (8, inst_snack), (9, inst_stxon), (10, inst_stxoncca),
    (11, inst_ssamplecca), (13, inst_sflushrx), (14, inst_sflushtx), (15, inst_srfoff)]

/-- The immediate strobes 0xE0 to 0xEF. -/
def immediateStrobes : List (TMem × Step) :=
  [(1, inst_isstart), (2, inst_isstop), (3, inst_isrxon), (4, inst_isrx_mask_bit_set),
    (5, inst_isrx_mask_bit_clr), (6, inst_sack), (7, inst_sackpend), (8, inst_snack), (9, inst_istxon),
    (10, inst_stxoncca), (11, inst_ssamplecca), (13, inst_sflushrx), (14, inst_sflushtx), (15, inst_srfoff)]

/-- The instructions without operands in their codes. -/
def others (inp : Input) : List (TMem × Step) :=
  [(0xB8, inst_wait_event1), (0xB9, inst_wait_event2), (0xBA, inst_int), (0xBB, inst_label),
    (0xBC, inst_waitx), (0xBD, inst_rand_xy inp), (0xBE, inst_set_cmp1), (0xC0, inst_inc_x),
    (0xC1, inst_inc_y), (0xC2, inst_inc_z), (0xC3, inst_dec_x), (0xC4, inst_dec_y), (0xC5, inst_dec_z),
    (0xFF, inst_isclear)]

/-- A step that is made if the code matches. -/
def onMatch (p : Prop) [Decidable p] (f : Step) : Step := fun st => if p then f st else .ok st

/-- `if (PC == 24) PC = 0`. -/
def wrapPC (st : CspSt) : CspSt := if st.hw.PC = 24 then setPC 0 st else st

/-- `exec_inst`. -/
def exec_inst (inp : Input) (code : TMem) : Step := fun st => do
  let st ← onMatch (code &&& 0x80 = 0) (inst_skipCS inp code) st
  let st ← onMatch (code &&& 0xE0 = 0x80) (inst_waitw code) st
  let st ← onMatch (code &&& 0xF0 = 0xA0) (inst_repeatC inp code) st
  let st ← onMatch (code &&& 0xF8 = 0xC8) (inst_inc_maxy code) st
  let st ← onMatch (code &&& 0xF0 = 0xD0) (switch strobes (code &&& 0x0F)) st
  let st ← onMatch (code &&& 0xF0 = 0xE0) (switch immediateStrobes (code &&& 0x0F)) st
  let st ← switch (others inp) code st
  return wrapPC st

/-- `xram->read`. Behind the program, too, the bytes are read as they are. -/
def xramRead (a : Int) (st : CspSt) : Except CspFault TMem :=
  if Space.xram.invalid a then .error (.invalidAddress a) else .ok (st.mem (xramByte (st.mem mcon) a))

/-- The start of a tick: the position is shown in `CSPSTAT`, and the CSP stops if `CSPT` has run down. -/
def updateStatus : Step := fun st => do
  let st ← set .cell_cspstat (((← get .cell_cspstat st) &&& 0xE0) + BitVec.ofInt 16 st.hw.PC) st
  if (← get .cell_cspt st) = 0 then IRQ_CSP_STOP st else return st

/-- `CSP_tick`. -/
def CSP_tick (inp : Input) : Step := fun st => do
  let st ← updateStatus st
  if st.hw.csp_stop = false then exec_inst inp (← xramRead (Reg.CSPPROG0 + st.hw.PC) st) st
  else return st

/-- A byte of the program is stored. -/
def storeProgram (v : TMem) : Step := fun st =>
  let PCwrite := st.hw.PCwrite
  if InRange 24 PCwrite then
    .ok (update (fun p => { p with PCwrite := if PCwrite + 1 = 24 then 0 else PCwrite + 1 })
      (store (.cell .xram (Reg.CSPPROG0 + PCwrite)) v st))
  else .error .wildPCwrite

/-- The branch of `write` for `RFST`. -/
def writeRfst (inp : Input) (v : TMem) : Step := fun st => do
  let st ← onMatch (v = 0xE1) (fun st => set_bit1 .cell_cspstat bmCSPrunning
    (update (fun p => { p with csp_stop := false }) st)) st
  let st ← onMatch (v = 0xE2) (fun st => set_bit0 .cell_cspstat bmCSPrunning
    (update (fun p => { p with csp_stop := true }) st)) st
  let st ← onMatch (v = 0xFF) inst_isclear st
  if v &&& 0xF0 = 0xE0 then exec_inst inp v st else storeProgram v st

/-- `write`. -/
def write (inp : Input) (c : Site) (v : TMem) : Step := fun st => do
  if c = (← deref .cell_rfst) then writeRfst inp v st else return st

/-- The events that `happen` tells apart, all of them from the MAC timer. -/
inductive TimerEvent
  | EV_OVERFLOW | EV_T2_EVENT1 | EV_T2_EVENT2
  deriving DecidableEq, Repr

/-- `happen`. Both tests of the second half name the event 1. -/
def happen : TimerEvent → Step
  | .EV_OVERFLOW, st => do
    let st ← (if st.hw.WaitingForOvfs then count .cell_cspx (-1) st else .ok st)
    return if st.hw.WaitingForWOvfs then update (fun p => { p with OVFcountdown := p.OVFcountdown - 1 }) st
      else st
  | .EV_T2_EVENT1, st =>
    .ok (update (fun p => { p with
      event1 := if p.WaitingForEvent1 then true else p.event1
      event2 := if p.WaitingForEvent2 then true else p.event2 }) st)
  | .EV_T2_EVENT2, st => .ok st

end Csp

end Ucsim.S51
