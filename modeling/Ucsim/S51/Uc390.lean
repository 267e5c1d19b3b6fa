import Ucsim.S51.Core

/-!
# The stack of the DS390

What `cl_uc390` does with its stack: the bytes of `push_byte` and `pop_byte`, the instructions built from them, and
`accept_it`. The stack tracker is that of the core. Accesses to memory come to the cells.
-/

namespace Ucsim.S51

/-! ## The stack tracker -/

namespace StackOp

/-- The error about the entry on top. -/
def unmatched (top op : StackOp) : List UcError := if top.matchOp op then [] else [.stackTrackerUnmatch]

/-- The error about the entry that is on top afterwards. -/
def inconsistent (op : StackOp) : List StackOp → List UcError
  | [] => []
  | top :: _ =>
    if top.spAfter ≠ op.spAfter then [.stackTrackerInconsistent (top.spAfter - op.spAfter).natAbs] else []

/-- What `stack_read` leaves of the tracker, and its errors. -/
def readFrom (op : StackOp) (ops : List StackOp) : List StackOp × List UcError :=
  if op.isWrite then (ops, [.stackTrackerWrongHandle true])
  else
    match ops with
    | [] => ([], [.stackTrackerEmpty])
    | top :: _ =>
      (ops.dropWhile (·.canRemoved op), top.unmatched op ++ op.inconsistent (ops.dropWhile (·.canRemoved op)))

end StackOp

namespace Uc390

/-! ## State -/

def SP : UChar := 0x81

def PCON : UChar := 0x87

def ESP : UChar := 0x9b

def ACON : UChar := 0x9d

/-- The cells of `sfr` and the hardware behind them. `was_reti` is a member of the interrupt hardware. -/
structure Sfr (σ : Type) where
  cell : UChar → UChar
  wasReti : Bool
  hw : σ

/-- `cl_uc390`. The heads of `itLevels` and `stackOps` are the tops of the stacks. -/
structure Machine (σ : Type) where
  rom : Nat → UChar
  iram : UChar → UChar
  ixram : Nat → UChar
  sfr : Sfr σ
  PC : Nat
  instPC : Nat
  state : CpuState
  ticks : Nat
  instTicks : Nat
  itLevels : List ItLevel
  stackOps : List StackOp
  errors : List UcError

/-- The rest of the controller: what the hardware makes of a read or a write of a cell, where it knows the time, and
the other instructions. No read concerns the stack pointer or ACON. -/
structure Rest (σ : Type) where
  read : Nat → UChar → Sfr σ → UChar × Sfr σ
  write : Nat → UChar → UChar → Sfr σ → Sfr σ
  inst : UChar → Machine σ → Res × Machine σ
  read_keeps : ∀ time addr s r, r = SP ∨ r = ESP ∨ r = ACON → (read time addr s).2.cell r = s.cell r

abbrev Prog (σ : Type) := StateM (Machine σ)

variable {σ : Type}

/-- `sfr->get`. -/
def get_sfr (addr : UChar) : Prog σ UChar := do return (← get).sfr.cell addr

def set_sfr (addr val : UChar) : Prog σ Unit :=
  modify fun s => { s with sfr := { s.sfr with cell := Function.update s.sfr.cell addr val } }

/-- `sfr->wadd`, for the stack pointer. The hardware only keeps statistics about it. -/
def wadd (addr what : UChar) : Prog σ UChar := do
  set_sfr addr ((← get_sfr addr) + what)
  get_sfr addr

def set_iram (addr val : UChar) : Prog σ Unit := modify fun s => { s with iram := Function.update s.iram addr val }

def set_ixram (addr : Nat) (val : UChar) : Prog σ Unit :=
  modify fun s => { s with ixram := Function.update s.ixram addr val }

def set_PC (addr : Nat) : Prog σ Unit := modify fun s => { s with PC := addr }

def tick (cycles : Nat) : Prog σ Unit :=
  modify fun s => { s with ticks := s.ticks + cycles * 12, instTicks := s.instTicks + cycles }

def error (e : UcError) : Prog σ Unit := modify fun s => { s with errors := s.errors ++ [e] }

/-- `fetch`. `rom` has 0x20000 cells. -/
def fetch : Prog σ UChar := do
  let PC := (← get).PC
  if 0x20000 ≤ PC then error (.memInvalidAddress .rom PC)
  set_PC ((PC + 1) % 0x20000)
  return (← get).rom PC

/-! ## Bytes on the stack -/

/-- SA: the stack is in `ixram`, and its pointer has 10 bits. -/
def SA (acon : UChar) : Bool := acon &&& 0x04 ≠ 0

/-- AM1: addresses have 24 bits. -/
def AM1 (acon : UChar) : Bool := acon &&& 0x02 ≠ 0

/-- The address of a byte of the 10-bit stack. -/
def wide (sp esp : UChar) : Nat := sp.toNat + (esp &&& 0x3).toNat * 256

def push_byte (uc : UChar) : Prog σ Unit := do
  let sp ← wadd SP 1
  if SA (← get_sfr ACON) then
    if sp = 0 then let _ ← wadd ESP 1
    set_ixram (wide sp (← get_sfr ESP)) uc
  else set_iram sp uc

def pop_byte : Prog σ UChar := do
  if SA (← get_sfr ACON) then
    let temp := (← get).ixram (wide (← get_sfr SP) (← get_sfr ESP))
    let sp ← wadd SP (-1)
    if sp = 0xff then let _ ← wadd ESP (-1)
    return temp
  else
    let temp := (← get).iram (← get_sfr SP)
    let _ ← wadd SP (-1)
    return temp

/-! ## Instructions -/

/-- `stack_write`. -/
def stack_write (op : StackOp) : Prog σ Unit :=
  if op.isWrite then modify fun s => { s with stackOps := op :: s.stackOps }
  else error (.stackTrackerWrongHandle false)

/-- `stack_read`. -/
def stack_read (op : StackOp) : Prog σ Unit :=
  modify fun s =>
    { s with
      stackOps := (op.readFrom s.stackOps).1
      errors := s.errors ++ (op.readFrom s.stackOps).2 }

/-- The operation of the instruction, which started with this stack pointer. -/
def stack_op (kind : StackOpKind) (sp_before : UChar) : Prog σ StackOp := do
  let s ← get
  return { kind := kind, PC := s.instPC, spBefore := sp_before.toNat, spAfter := (s.sfr.cell SP).toNat }

/-- The cell of a direct address. -/
inductive Direct
  | iram (addr : UChar)
  | sfr (addr : UChar)
  deriving DecidableEq, Repr

def get_direct (addr : UChar) : Direct := if addr < 0x80 then .iram addr else .sfr addr

/-- `cell->read`. -/
def Direct.read (R : Rest σ) : Direct → Prog σ UChar
  | .iram addr => do return (← get).iram addr
  | .sfr addr => modifyGet fun s => ((R.read s.ticks addr s.sfr).1, { s with sfr := (R.read s.ticks addr s.sfr).2 })

/-- `cell->write`. -/
def Direct.write (R : Rest σ) (val : UChar) : Direct → Prog σ Unit
  | .iram addr => set_iram addr val
  | .sfr addr => modify fun s => { s with sfr := R.write s.ticks addr val s.sfr }

def inst_push (R : Rest σ) : Prog σ Res := do
  let cell := get_direct (← fetch)
  let sp_before ← get_sfr SP
  let data ← cell.read R
  push_byte data
  stack_write (← stack_op (.push (tmem data)) sp_before)
  tick 1
  return .go

def inst_pop (R : Rest σ) : Prog σ Res := do
  let sp_before ← get_sfr SP
  let cell := get_direct (← fetch)
  let data ← pop_byte
  cell.write R data
  stack_read (← stack_op (.pop (tmem data)) sp_before)
  tick 1
  return .go

/-- `x * 256*256 + h * 256 + l`. -/
def address (x h l : UChar) : Nat := x.toNat * 256 * 256 + h.toNat * 256 + l.toNat

/-- The bytes of an address: low, high and x byte. -/
def lowByte (addr : Nat) : UChar := BitVec.ofNat 8 addr

def highByte (addr : Nat) : UChar := BitVec.ofNat 8 (addr >>> 8)

def xByte (addr : Nat) : UChar := BitVec.ofNat 8 (addr >>> 16)

/-- `inst_acall_addr` in 24-bit flat mode. -/
def acall_flat (code : UChar) : Prog σ Unit := do
  let x := (code >>> 5) &&& 0x07
  let h ← fetch
  let l ← fetch
  let PC := (← get).PC
  push_byte (lowByte PC)
  push_byte (highByte PC)
  push_byte (xByte PC)
  set_PC ((PC &&& 0xf800) ||| address x h l)

/-- `inst_acall_addr` in stock mcs51 mode. Two bytes are pushed without `push_byte`. -/
def acall_stock (code : UChar) : Prog σ Unit := do
  let h := (code >>> 5) &&& 0x07
  let l ← fetch
  let PC := (← get).PC
  set_iram (← wadd SP 1) (lowByte PC)
  set_iram (← wadd SP 1) (highByte PC)
  set_PC ((PC &&& 0xf800) ||| address 0 h l)

/-- The tracker is not told. -/
def inst_acall_addr (code : UChar) : Prog σ Res := do
  if AM1 (← get_sfr ACON) then acall_flat code else acall_stock code
  tick 1
  return .go

/-- The operand of `inst_lcall`, which an interrupt does not have. -/
def operand (intr : Bool) : Prog σ Nat := do
  if intr then return 0
  else
    let x ← if AM1 (← get_sfr ACON) then fetch else pure 0
    let h ← fetch
    let l ← fetch
    return address x h l

/-- What `inst_lcall` does with the operand. An `addr` other than 0 is that of an interrupt. -/
def lcall_to (addr : BitVec 16) (operand : Nat) : Prog σ Res := do
  let sp_before ← get_sfr SP
  let pushed := (← get).PC
  push_byte (lowByte pushed)
  push_byte (highByte pushed)
  if AM1 (← get_sfr ACON) then
    push_byte (xByte pushed)
    set_PC (if addr ≠ 0 then addr.toNat else operand)
  else if addr ≠ 0 then
    set_PC addr.toNat
    stack_write (← stack_op (.intr addr.toNat pushed) sp_before)
  else
    set_PC operand
    stack_write (← stack_op (.call operand pushed) sp_before)
  return .go

def inst_lcall (addr : BitVec 16) (intr : Bool) : Prog σ Res := do lcall_to addr (← operand intr)

/-- What `inst_ret` and `inst_reti` have in common: the bytes of the address, its value and the ticks. -/
def pop_PC : Prog σ Unit := do
  if AM1 (← get_sfr ACON) then
    let x ← pop_byte
    let h ← pop_byte
    let l ← pop_byte
    tick 1
    tick 1
    set_PC (address x h l)
  else
    let h ← pop_byte
    let l ← pop_byte
    tick 1
    set_PC (address 0 h l)

def inst_ret : Prog σ Res := do
  let sp_before ← get_sfr SP
  pop_PC
  stack_read (← stack_op (.ret (← get).PC) sp_before)
  return .go

/-- `was_reti` is set, and the level of the service routine is left. That of the main program is below 0. -/
def leave_level : Prog σ Unit :=
  modify fun s =>
    { s with
      sfr := { s.sfr with wasReti := true }
      itLevels := if (s.itLevels.head?.any fun il => decide (0 ≤ il.level)) then s.itLevels.tail else s.itLevels }

def inst_reti : Prog σ Res := do
  let sp_before ← get_sfr SP
  pop_PC
  leave_level
  stack_read (← stack_op (.iret (← get).PC) sp_before)
  return .go

/-- The `switch` of `exec_inst`. -/
def dispatch (R : Rest σ) (code : UChar) : Prog σ Res :=
  if code &&& 0x1f = 0x11 then inst_acall_addr code
  else if code = 0x12 then inst_lcall 0 false
  else if code = 0x22 then inst_ret
  else if code = 0x32 then inst_reti
  else if code = 0xc0 then inst_push R
  else if code = 0xd0 then inst_pop R
  else modifyGet (R.inst code)

/-- The first part of `exec_inst`, without breakpoints. -/
def start_inst : Prog σ UChar := do
  modify fun s => { s with instPC := s.PC }
  let code ← fetch
  tick 1
  return code

def exec_inst (R : Rest σ) : Prog σ Res := do dispatch R (← start_inst)

def accept_it (il : ItLevel) : Prog σ Res := do
  modify fun s => { s with state := .go }
  set_sfr PCON ((← get_sfr PCON) &&& ~~~0x01)
  modify fun s => { s with itLevels := il :: s.itLevels }
  tick 1
  let res ← inst_lcall il.addr true
  if res ≠ .go then return res else return .interrupt

end Uc390

end Ucsim.S51
