import Ucsim.S51.Arith
import Ucsim.S51.Logic
import Ucsim.S51.Mov
import Ucsim.S51.Jmp
import Ucsim.Logic.Run

/-!
# Execution

The instruction table of `exec_inst`, the frame `pre_inst` and `post_inst`, the interrupt system, one
round of the loop of `do_inst`, and `reset`. A run of the controller is a sequence of rounds, resets and
changes from outside.
-/

namespace Ucsim.S51

open Logic

variable {Dev V : Type} (D : Devices Dev V)

/-! ## Instructions -/

def instNop (_code : UChar) : UcProg V Res := return .go

def instUnknown : UcProg V Res := do
  error .unknownCode
  return .go

/-- The cases of `exec_inst`. -/
def cases : List (List UChar × (UChar → UcProg V Res)) :=
  [([0x00], instNop),
    ([0x01, 0x21, 0x41, 0x61, 0x81, 0xa1, 0xc1, 0xe1], instAjmpAddr D),
    ([0x02], instLjmp D), ([0x03], instRr D), ([0x04], instIncA D), ([0x05], instIncAddr D),
    ([0x06, 0x07], instIncSri D),
    ([0x08, 0x09, 0x0a, 0x0b, 0x0c, 0x0d, 0x0e, 0x0f], instIncRn D),
    ([0x10], instJbcBitAddr D),
    ([0x11, 0x31, 0x51, 0x71, 0x91, 0xb1, 0xd1, 0xf1], instAcallAddr D),
    ([0x12], fun code => instLcall D code 0 false), ([0x13], instRrc D), ([0x14], instDecA D),
    ([0x15], instDecAddr D), ([0x16, 0x17], instDecSri D),
    ([0x18, 0x19, 0x1a, 0x1b, 0x1c, 0x1d, 0x1e, 0x1f], instDecRn D),
    ([0x20], instJbBitAddr D), ([0x22], instRet D), ([0x23], instRl D),
    ([0x24], instAddASdata D), ([0x25], instAddAAddr D), ([0x26, 0x27], instAddASri D),
    ([0x28, 0x29, 0x2a, 0x2b, 0x2c, 0x2d, 0x2e, 0x2f], instAddARn D),
    ([0x30], instJnbBitAddr D), ([0x32], instReti D), ([0x33], instRlc D),
    ([0x34], instAddcASdata D), ([0x35], instAddcAAddr D), ([0x36, 0x37], instAddcASri D),
    ([0x38, 0x39, 0x3a, 0x3b, 0x3c, 0x3d, 0x3e, 0x3f], instAddcARn D),
    ([0x40], instJcAddr D), ([0x42], instOrlAddrA D), ([0x43], instOrlAddrSdata D),
    ([0x44], instOrlASdata D), ([0x45], instOrlAAddr D), ([0x46, 0x47], instOrlASri D),
    ([0x48, 0x49, 0x4a, 0x4b, 0x4c, 0x4d, 0x4e, 0x4f], instOrlARn D),
    ([0x50], instJncAddr D), ([0x52], instAnlAddrA D), ([0x53], instAnlAddrSdata D),
    ([0x54], instAnlASdata D), ([0x55], instAnlAAddr D), ([0x56, 0x57], instAnlASri D),
    ([0x58, 0x59, 0x5a, 0x5b, 0x5c, 0x5d, 0x5e, 0x5f], instAnlARn D),
    ([0x60], instJzAddr D), ([0x62], instXrlAddrA D), ([0x63], instXrlAddrSdata D),
    ([0x64], instXrlASdata D), ([0x65], instXrlAAddr D), ([0x66, 0x67], instXrlASri D),
    ([0x68, 0x69, 0x6a, 0x6b, 0x6c, 0x6d, 0x6e, 0x6f], instXrlARn D),
    ([0x70], instJnzAddr D), ([0x72], instOrlCBit D), ([0x73], instJmpSaDptr D),
    ([0x74], instMovASdata D), ([0x75], instMovAddrSdata D), ([0x76, 0x77], instMovSriSdata D),
    ([0x78, 0x79, 0x7a, 0x7b, 0x7c, 0x7d, 0x7e, 0x7f], instMovRnSdata D),
    ([0x80], instSjmp D), ([0x82], instAnlCBit D), ([0x83], instMovcASaPc D), ([0x84], instDivAb D),
    ([0x85], instMovAddrAddr D), ([0x86, 0x87], instMovAddrSri D),
    ([0x88, 0x89, 0x8a, 0x8b, 0x8c, 0x8d, 0x8e, 0x8f], instMovAddrRn D),
    ([0x90], instMovDptrSdata D), ([0x92], instMovBitC D), ([0x93], instMovcASaDptr D),
    ([0x94], instSubbASdata D), ([0x95], instSubbAAddr D), ([0x96, 0x97], instSubbASri D),
    ([0x98, 0x99, 0x9a, 0x9b, 0x9c, 0x9d, 0x9e, 0x9f], instSubbARn D),
    ([0xa0], instOrlCSbit D), ([0xa2], instMovCBit D), ([0xa3], instIncDptr D),
    ([0xa4], instMulAb D), ([0xa5], fun _ => instUnknown), ([0xa6, 0xa7], instMovSriAddr D),
    ([0xa8, 0xa9, 0xaa, 0xab, 0xac, 0xad, 0xae, 0xaf], instMovRnAddr D),
    ([0xb0], instAnlCSbit D), ([0xb2], instCplBit D), ([0xb3], instCplC D),
    ([0xb4], instCjneASdataAddr D), ([0xb5], instCjneAAddrAddr D),
    ([0xb6, 0xb7], instCjneSriSdataAddr D),
    ([0xb8, 0xb9, 0xba, 0xbb, 0xbc, 0xbd, 0xbe, 0xbf], instCjneRnSdataAddr D),
    ([0xc0], instPush D), ([0xc2], instClrBit D), ([0xc3], instClrC D), ([0xc4], instSwap D),
    ([0xc5], instXchAAddr D), ([0xc6, 0xc7], instXchASri D),
    ([0xc8, 0xc9, 0xca, 0xcb, 0xcc, 0xcd, 0xce, 0xcf], instXchARn D),
    ([0xd0], instPop D), ([0xd2], instSetbBit D), ([0xd3], instSetbC D), ([0xd4], instDaA D),
    ([0xd5], instDjnzAddrAddr D), ([0xd6, 0xd7], instXchdASri D),
    ([0xd8, 0xd9, 0xda, 0xdb, 0xdc, 0xdd, 0xde, 0xdf], instDjnzRnAddr D),
    ([0xe0], instMovxASdptr D), ([0xe2, 0xe3], instMovxASri D), ([0xe4], instClrA D),
    ([0xe5], instMovAAddr D), ([0xe6, 0xe7], instMovASri D),
    ([0xe8, 0xe9, 0xea, 0xeb, 0xec, 0xed, 0xee, 0xef], instMovARn D),
    ([0xf0], instMovxSdptrA D), ([0xf2, 0xf3], instMovxSriA D), ([0xf4], instCplA D),
    ([0xf5], instMovAddrA D), ([0xf6, 0xf7], instMovSriA D),
    ([0xf8, 0xf9, 0xfa, 0xfb, 0xfc, 0xfd, 0xfe, 0xff], instMovRnA D)]

/-- The switch of `exec_inst`. -/
def dispatch (code : TMem) : UcProg V Res :=
  match (cases D).find? fun c => c.1.any (tmem · = code) with
  | some (_, inst) => inst (uchar code)
  | none => instUnknown

/-- `exec_inst`. -/
def execInst : UcProg V Res := do
  modify fun u => { u with instPC := u.PC }
  match ← fetchInst D with
  | none => return .breakpoint
  | some code =>
    tick 1
    dispatch D code

/-! ## The frame of an instruction -/

/-- `pre_inst`. -/
def preInst : UcProg V Unit :=
  modify fun u =>
    { u with
      instExec := true
      instTicks := 0
      mem := { u.mem with sys := { u.mem.sys with events := [] } } }

/-- `tick` of the devices. -/
def devicesTick (cycles : Int) : MemProg V Unit :=
  modify fun s =>
    let r := D.tick cycles s.sys.toStore
    { s with sys := { toStore := r.1, events := s.sys.events ++ r.2 } }

/-- `cl_interrupt::tick`. -/
def interruptTick : MemProg V Unit := do
  let h := (← get).sys.hw
  if !h.bitIT0 && !h.bitINT0 then (Site.sfr Reg.TCON).setBit1 D bmIE0
  if !h.bitIT1 && !h.bitINT1 then (Site.sfr Reg.TCON).setBit1 D bmIE1

/-- `tick_hw`. -/
def tickHw (cycles : Int) : MemProg V Unit := do
  devicesTick D cycles
  interruptTick D

/-- Is the class of the error switched on, and is it no warning? The classes of the stack are off. -/
def UcError.mustStop : UcError → Bool
  | .memInvalidAddress .. | .unknownCode => true
  | .stackTrackerWrongHandle _ | .stackTrackerEmpty | .stackTrackerUnmatch
  | .stackTrackerInconsistent _ => false

/-- `check_errors`. -/
def checkErrors : UcProg V Unit := do
  let errors := (← get).mem.errors
  modify fun u => { u with mem := { u.mem with errors := [] } }
  if errors.any (·.mustStop) then simStop

/-- `post_inst`. -/
def postInst : UcProg V Unit := do
  tickHw D (← get).instTicks
  if (← get).mem.errors ≠ [] then checkErrors
  if (← get).mem.sys.events ≠ [] then simStop
  modify fun u => { u with instExec := false }

/-! ## Interrupts -/

/-- `it_priority`. -/
def itPriority (ieMask : UChar) : MemProg V Int := do
  let ip ← Space.sfr.get D Reg.IP
  return if ip &&& tmem ieMask ≠ 0 then 1 else 0

/-- `is->is_active() && (sfr->get(is->ie_reg) & is->ie_mask) && (sfr->get(is->src_reg) & is->src_mask)`. -/
def requested (src : ItSrc) : MemProg V Bool := do
  if src.active then
    let ie ← Space.sfr.get D src.ieReg.toNat
    if ie &&& tmem src.ieMask ≠ 0 then
      let r ← Space.sfr.get D src.srcReg.toNat
      return decide (r &&& tmem src.srcMask ≠ 0)
    else return false
  else return false

/-- `accept_it`. -/
def acceptIt (il : ItLevel) : UcProg V Res := do
  modify fun u => { u with state := .go }
  Space.sfr.setBit0 D Reg.PCON bmIDL
  modify fun u => { u with itLevels := il :: u.itLevels }
  tick 1
  let res ← instLcall D 0 il.addr true
  if res ≠ .go then return res else return .interrupt

/-- In idle mode an eligible source ends this mode, and none is accepted. -/
def leaveIdle : UcProg V Res := do
  modify fun u => { u with state := .go }
  Space.sfr.setBit0 D Reg.PCON bmIDL
  onHw fun h => { h with wasReti := true }
  return .go

/-- Accept a source of priority `pr`. -/
def acceptSource (src : ItSrc) (pr : Int) : UcProg V Res := do
  if src.clrBit then Space.sfr.setBit0 D src.srcReg.toNat (tmem src.srcMask)
  acceptIt D { level := pr, addr := src.addr, PC := (← get).PC, source := some src }

/-- What `do_interrupt` does about an eligible source of priority `pr`. -/
def takeSource (src : ItSrc) (pr : Int) : UcProg V Res := do
  if (← get).state = .idle then leaveIdle D else acceptSource D src pr

/-- The loop of `do_interrupt` over the sources. -/
def scanSources : List ItSrc → UcProg V Res
  | [] => return .go
  | src :: rest => do
    if ← requested D src then
      let pr ← itPriority D src.ieMask
      match (← get).itLevels with
      | [] => throw .noLevel
      | il :: _ =>
        if il.level ≥ 0 ∧ pr ≤ il.level then scanSources rest
        else takeSource D src pr
    else scanSources rest

/-- `do_interrupt`. -/
def doInterrupt : UcProg V Res := do
  if (← get).mem.sys.hw.wasReti then
    onHw fun h => { h with wasReti := false }
    return .go
  else
    let ie ← Space.sfr.get D Reg.IEN0
    if ie &&& bmEA = 0 then return .go
    else scanSources D (← get).itSources

/-- `idle_pd`. -/
def idlePd : UcProg V Res := do
  let pcon ← Space.sfr.get D Reg.PCON
  if (← get).cmos then
    if pcon &&& bmIDL ≠ 0 then modify fun u => { u with state := .idle }
    if pcon &&& bmPD ≠ 0 then modify fun u => { u with state := .pd }
  return .go

/-! ## Rounds, reset and runs -/

/-- A round of `do_inst` executes an instruction. -/
def goRound : UcProg V Unit := do
  onHw fun h => { h with wasReti := false }
  preInst
  let res ← execInst D
  modify fun u => { u with result := res }
  postInst D

/-- In idle mode it ticks the hardware only. -/
def idleRound : UcProg V Unit := do
  modify fun u => { u with instTicks := 1 }
  postInst D
  tick 1

/-- Then it looks for interrupts and for a change of the mode. -/
def checkInterrupts : UcProg V Unit := do
  if (← get).result = .go then
    let res ← doInterrupt D
    if res ≠ .go then modify fun u => { u with result := res }
    else
      let res ← idlePd D
      modify fun u => { u with result := res }

/-- Last, it decides whether the simulation stops. -/
def checkStop (input : Bool) : UcProg V Unit := do
  if input then modify fun u => { u with result := .user }
  let u ← get
  if (u.result = .interrupt ∧ u.stopAtIt) ∨ u.result.isStop then simStop

/-- A round of the loop of `do_inst` while the processor is not powered down. `input` tells whether it
finds input on the frozen console. -/
def round (input : Bool) : UcProg V Unit := do
  modify fun u => { u with result := .go }
  if (← get).state = .go then goRound D else idleRound D
  checkInterrupts D
  checkStop input

/-- `reset` of the hardware elements. -/
def resetHw : UcProg V Unit := do
  onMem <| modify fun s =>
    let r := D.reset s.sys.toStore
    { s with sys := { toStore := r.1, events := s.sys.events ++ r.2 } }
  onHw fun h => { h with wasReti := false }

/-- `cl_uc::reset`. -/
def ucReset : UcProg V Unit := do
  modify fun u =>
    { u with
      instPC := 0
      PC := 0
      state := .go
      ticks := 0
      itLevels := u.itLevels.dropWhile (·.level ≥ 0) }
  onHw fun h => { h with spMax := 0, spAvg := 0 }
  modify fun u => { u with stackOps := [] }
  resetHw D

/-- `clear_sfr`. -/
def clearSfr : UcProg V Unit := do
  (List.range 0x80).forM fun i => Space.sfr.set D (0x80 + i) 0
  [Reg.P0, Reg.P1, Reg.P2, Reg.P3].forM fun r => do
    let _ ← Space.sfr.write D r 0xff
  let p1 ← Space.sfr.read D Reg.P1
  onHw fun h => { h with prevP1 := uchar p1 }
  let p3 ← Space.sfr.read D Reg.P3
  onHw fun h => { h with prevP3 := uchar p3 }
  let _ ← Space.sfr.write D Reg.ACC 0
  let _ ← Space.sfr.write D Reg.B 0
  let _ ← Space.sfr.write D Reg.PSW 0
  let _ ← Space.sfr.write D Reg.SP 7
  [Reg.DPL, Reg.DPH, Reg.IP, Reg.IE, Reg.TCON, Reg.SCON, Reg.PCON].forM fun r => do
    let _ ← Space.sfr.write D r 0

/-- `reset`. -/
def reset : UcProg V Unit := do
  ucReset D
  clearSfr D
  modify fun u => { u with result := .go }

/-- The level at the bottom of the stack: the main program. -/
def mainLevel : ItLevel := { level := -1, addr := 0, PC := 0, source := none }

/-- The controller before its first reset. -/
structure PowerOn (u : Uc V) : Prop where
  bytes : IsBytes u.mem.sys.mem
  PC : u.PC = 0
  itLevels : u.itLevels = [mainLevel]

/-- A change from outside: the user or the environment changes memory, hardware, breakpoints or
the sources, but neither the program counter nor the interrupt levels. -/
structure Poke (u v : Uc V) : Prop where
  bytes : IsBytes u.mem.sys.mem → IsBytes v.mem.sys.mem
  PC : v.PC = u.PC
  itLevels : v.itLevels = u.itLevels

/-- A controller without devices, at the start of a program. -/
def bare (mem : Site → TMem) : Uc Unit where
  mem := blank mem
  PC := 0
  instPC := 0
  state := .go
  result := .go
  instExec := false
  instTicks := 0
  ticks := 0
  itLevels := [mainLevel]
  itSources := []
  stackOps := []
  fbrk := []
  simGo := true
  stopAtIt := false
  cmos := true

/-- What happens to the controller. -/
inductive Event
  | round (input : Bool)
  | reset
  | poke
  deriving DecidableEq, Repr

/-- The controller. It is off until it is reset. -/
def controller : System Event (Uc V) where
  init v := ∃ u, PowerOn u ∧ (reset D).run u = .ok ((), v)
  step
    | .round input => fun u v => u.state ≠ .pd ∧ (round D input).run u = .ok ((), v)
    | .reset => fun u v => (reset D).run u = .ok ((), v)
    | .poke => Poke

end Ucsim.S51
