import Ucsim.S51.Memory

/-!
# The 8051 core: state and elementary operations

The fields of `cl_uc` and `cl_51core` that a running program uses, fetching, ticking, the stack tracker and
the addressing of operands. A step of the core is a program over this state.
-/

namespace Ucsim.S51

open Logic

/-- The states `stGO`, `stIDLE` and `stPD` of the controller. -/
inductive CpuState
  | go | idle | pd
  deriving DecidableEq, Repr

/-- The results of executing an instruction. -/
inductive Res
  | go | wdtReset | interrupt | stop | halt | invAddr | stackOv | breakpoint | user | invInst | bitAddr
  | error
  deriving DecidableEq, Repr

/-- `res >= resSTOP`. -/
def Res.isStop : Res → Bool
  | .go | .wdtReset | .interrupt => false
  | _ => true

/-- `cl_it_src`. The addresses of service routines are 16-bit constants other than 0, which
`inst_lcall` would take for the operand of an instruction. The request bits are in registers of the
devices, not in the accumulator or `PSW`. -/
structure ItSrc where
  pollPriority : Int
  ieMask : UChar
  ieReg : UChar
  srcReg : UChar
  srcMask : UChar
  addr : BitVec 16
  clrBit : Bool
  active : Bool
  addr_ne : addr ≠ 0
  srcReg_ne : srcReg ≠ 0xE0 ∧ srcReg ≠ 0xD0
  deriving DecidableEq, Repr

/-- `it_level`. -/
structure ItLevel where
  level : Int
  addr : BitVec 16
  PC : Int
  source : Option ItSrc
  deriving DecidableEq, Repr

/-- The classes derived from `cl_stack_op`. -/
inductive StackOpKind
  | call (called pushed : Int)
  | intr (called pushed : Int)
  | push (data : TMem)
  | ret (addr : Int)
  | iret (addr : Int)
  | pop (data : TMem)
  deriving DecidableEq, Repr

/-- `cl_stack_op`. -/
structure StackOp where
  kind : StackOpKind
  PC : Int
  spBefore : Int
  spAfter : Int
  deriving DecidableEq, Repr

/-- `cl_fetch_brk`. -/
structure FetchBrk where
  addr : Int
  hit : Int
  cnt : Int
  dynamic : Bool
  deriving DecidableEq, Repr

/-- The state of the controller. The heads of `itLevels` and `stackOps` are the tops of the stacks. -/
structure Uc (V : Type) where
  mem : MemState V
  PC : Int
  instPC : Int
  state : CpuState
  result : Res
  instExec : Bool
  instTicks : Int
  ticks : Int
  itLevels : List ItLevel
  itSources : List ItSrc
  stackOps : List StackOp
  fbrk : List FetchBrk
  simGo : Bool
  stopAtIt : Bool
  cmos : Bool

abbrev UcProg (V α : Type) := Program Abort (Uc V) α

section

variable {V α : Type}

/-- Run a program of the memory system. -/
def onMem (x : MemProg V α) : UcProg V α := Program.zoom Uc.mem (fun m u => { u with mem := m }) x

instance : MonadLift (Program Abort (MemState V)) (Program Abort (Uc V)) := ⟨onMem⟩

/-- Change the state of the hardware elements. -/
def onHw (f : HwState V → HwState V) : UcProg V Unit :=
  modify fun u =>
    { u with mem := { u.mem with sys := { u.mem.sys with hw := f u.mem.sys.hw } } }

end

/-- An integer of type `t_mem` as an `uchar`. -/
abbrev uchar (v : TMem) : UChar := v.setWidth 8

/-- An `uchar` as an integer of type `t_mem`. -/
abbrev tmem (v : UChar) : TMem := v.setWidth 16

/-! ## The stack tracker -/

namespace StackOp

/-- `get_op() & stack_write_operation`. -/
def isWrite (op : StackOp) : Bool :=
  match op.kind with
  | .call .. | .intr .. | .push _ => true
  | .ret _ | .iret _ | .pop _ => false

/-- `sp_increased`. -/
def spIncreased (op : StackOp) : Bool :=
  if op.isWrite then op.spAfter > op.spBefore else op.spAfter < op.spBefore

/-- `match`. -/
def matchOp (top op : StackOp) : Bool :=
  match top.kind, op.kind with
  | .call .., .ret _ | .intr .., .iret _ | .push _, .pop _ | .ret _, .call .. | .iret _, .intr ..
  | .pop _, .push _ => true
  | _, _ => false

/-- `can_removed`. -/
def canRemoved (top op : StackOp) : Bool :=
  let opa := (BitVec.ofInt 16 op.spAfter).toNat
  if top.spIncreased ≠ op.spIncreased then false
  else if top.spIncreased then top.spBefore ≥ opa else top.spBefore ≤ opa

end StackOp

section

variable {V : Type}

/-- `error`. -/
def error (e : UcError) : UcProg V Unit :=
  modify fun u => { u with mem := { u.mem with errors := u.mem.errors ++ [e] } }

/-- `stack_write`. -/
def stackWrite (op : StackOp) : UcProg V Unit :=
  if op.isWrite then modify fun u => { u with stackOps := op :: u.stackOps }
  else error (.stackTrackerWrongHandle false)

/-- `stack_read`. -/
def stackRead (op : StackOp) : UcProg V Unit := do
  if op.isWrite then error (.stackTrackerWrongHandle true)
  else
    match (← get).stackOps with
    | [] => error .stackTrackerEmpty
    | top :: _ =>
      if !top.matchOp op then error .stackTrackerUnmatch
      modify fun u => { u with stackOps := u.stackOps.dropWhile (·.canRemoved op) }
      match (← get).stackOps with
      | [] => return
      | top :: _ =>
        if top.spAfter ≠ op.spAfter then
          error (.stackTrackerInconsistent (top.spAfter - op.spAfter).natAbs)

/-- `tick`. A machine cycle is 12 clocks. -/
def tick (cycles : Int) : UcProg V Unit :=
  modify fun u => { u with ticks := u.ticks + cycles * 12, instTicks := u.instTicks + cycles }

/-- Load the program counter. -/
def setPC (addr : Int) : UcProg V Unit := modify fun u => { u with PC := addr }

/-- `sim->stop`. -/
def simStop : UcProg V Unit := modify fun u => { u with simGo := false }

end

variable {Dev V : Type} (D : Devices Dev V)

/-! ## Fetching -/

/-- `fetch(void)`. -/
def fetch : UcProg V TMem := do
  let code ← Space.rom.read D (← get).PC
  setPC (Space.rom.incAddress (← get).PC)
  return code

/-- Is a fetch breakpoint hit at the program counter? `do_hit` counts on the breakpoint that `get_bp`
finds; a dynamic one that is hit is deleted, which clears the flag of the cell. -/
def fetchBrkHit : UcProg V Bool := do
  let u ← get
  if u.simGo ∧ u.mem.fetchBrk u.PC ∧ ¬ Space.rom.invalid u.PC then
    match u.fbrk.find? (·.addr = u.PC) with
    | none => return false
    | some brk =>
      let set (cnt : Int) : List FetchBrk :=
        u.fbrk.modify (u.fbrk.findIdx (·.addr = u.PC)) fun b => { b with cnt := cnt }
      if brk.cnt - 1 > 0 then
        modify fun v => { v with fbrk := set (brk.cnt - 1) }
        return false
      else if brk.dynamic then
        modify fun v =>
          { v with
            fbrk := u.fbrk.eraseP (·.addr = u.PC)
            mem := { v.mem with fetchBrk := Function.update v.mem.fetchBrk u.PC false } }
        return true
      else
        modify fun v => { v with fbrk := set brk.hit }
        return true
  else return false

/-- `fetch(t_mem *code)`: nothing is fetched when a breakpoint is hit. -/
def fetchInst : UcProg V (Option TMem) := do
  if ← fetchBrkHit then return none
  else
    let code ← fetch D
    return some code

/-! ## Operands -/

/-- `get_direct`. -/
def getDirect (addr : TMem) : UcProg V Site :=
  if (addr.toNat : Int) < Space.sfr.startAddress then onMem (Space.iram.getCell addr.toNat)
  else onMem (Space.sfr.getCell addr.toNat)

/-- `get_reg`. -/
def getReg (regnum : UChar) : UcProg V Site := do
  let a := ((← psw.get D) &&& (bmRS0 ||| bmRS1)) ||| (tmem regnum &&& 0x07)
  onMem (Space.iram.getCell a.toNat)

/-- `iram->get_cell(get_reg(code & 0x01)->read())`. -/
def getIndirect (code : UChar) : UcProg V Site := do
  let reg ← getReg D (code &&& 0x01)
  let a ← reg.read D
  onMem (Space.iram.getCell a.toNat)

/-- `bit2mem`: the space, the address and the mask of a bit address. -/
def bit2mem (bitaddr : TMem) : Space × Int × TMem :=
  let bitaddr := bitaddr &&& 0xff
  let mask := 1 <<< (bitaddr &&& 0x7).toNat
  if bitaddr.toNat < 128 then (.iram, bitaddr.toNat / 8 + 0x20, mask)
  else (.sfr, (bitaddr &&& 0xf8).toNat, mask)

/-- `SFR_SET_BIT`. -/
def sfrSetBit (newbit : Bool) (reg : Int) (bitmask : TMem) : MemProg V Unit :=
  if newbit then Space.sfr.setBit1 D reg bitmask else Space.sfr.setBit0 D reg bitmask

/-- `SFR_GET_C`. -/
def sfrGetC : MemProg V Bool := do
  let pw ← Space.sfr.get D Reg.PSW
  return pw &&& bmCY ≠ 0

/-- `SFR_SET_C`. -/
def sfrSetC (newC : Bool) : MemProg V Unit := sfrSetBit D newC Reg.PSW bmCY

/-- `PC= rom->validate_address(PC + (signed char)jaddr)`. -/
def jumpRel (jaddr : UChar) : UcProg V Unit := do
  setPC (Space.rom.validateAddress ((← get).PC + jaddr.toInt))

end Ucsim.S51
