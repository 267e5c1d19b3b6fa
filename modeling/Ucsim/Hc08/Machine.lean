import Mathlib.Data.BitVec
import Mathlib.Logic.Function.Basic

/-!
# The HC08

The registers and the memory of `cl_hc08`, and the macros of `hc08mac.h`. `rom` and `ram` are one array of 0x10000
bytes. What is read beyond it comes from a dummy cell, in which each store leaves the next number of `rand`. Without
breakpoints an instruction is always fetched.
-/

namespace Ucsim.Hc08

/-! ## State -/

/-- `t_regs`. -/
@[ext] structure Regs where
  A : BitVec 8
  P : BitVec 8
  H : BitVec 8
  X : BitVec 8
  SP : BitVec 16
  VECTOR : Bool
  deriving DecidableEq, Repr

/-- `cl_hc08`. The dummy cell holds `dummy 0`; `out` is what has been written with `putchar`, and `accesses` are the
addresses that have been passed to `ram->get` and `ram->set`, the last one first. -/
@[ext] structure Machine where
  regs : Regs
  PC : Int
  ram : BitVec 16 → BitVec 8
  dummy : Nat → BitVec 8
  ticks : Nat
  out : List (BitVec 8)
  accesses : List Int

/-- The results of instructions. -/
inductive Res
  | go | halt
  deriving DecidableEq, Repr

/-- The value of `resHALT`. -/
def resHALT : Int := 101

abbrev Prog := StateM Machine

/-! The flags of the condition code register. -/

def BIT_C : BitVec 8 := 0x01

def BIT_Z : BitVec 8 := 0x02

def BIT_N : BitVec 8 := 0x04

def BIT_I : BitVec 8 := 0x08

def BIT_H : BitVec 8 := 0x10

def BIT_V : BitVec 8 := 0x80

namespace Regs

/-- `(regs.H << 8) | regs.X`. -/
def hx (r : Regs) : BitVec 16 := r.H ++ r.X

def setHx (r : Regs) (v : BitVec 16) : Regs := { r with H := v.extractLsb' 8 8, X := v.extractLsb' 0 8 }

def putA (v : BitVec 8) (r : Regs) : Regs := { r with A := v }

def putP (v : BitVec 8) (r : Regs) : Regs := { r with P := v }

def putH (v : BitVec 8) (r : Regs) : Regs := { r with H := v }

def putX (v : BitVec 8) (r : Regs) : Regs := { r with X := v }

/-- `regs.P & f`, as a condition. -/
def has (r : Regs) (f : BitVec 8) : Bool := r.P &&& f ≠ 0

def FLAG_SET (f : BitVec 8) (r : Regs) : Regs := { r with P := r.P ||| f }

def FLAG_CLEAR (f : BitVec 8) (r : Regs) : Regs := { r with P := r.P &&& ~~~f }

def FLAG_ASSIGN (f : BitVec 8) (c : Bool) (r : Regs) : Regs := { r with P := if c then r.P ||| f else r.P &&& ~~~f }

/-- `FLAG_NZ` of a byte. -/
def FLAG_NZ (v : BitVec 8) (r : Regs) : Regs :=
  { r with
    P := r.P &&& ~~~(BIT_N ||| BIT_Z) ||| (if v ≠ 0 then 0 else BIT_Z) ||| (if v &&& 0x80 ≠ 0 then BIT_N else 0) }

end Regs

/-! ## Memory -/

/-- An address that the memory has. -/
def InRange (addr : Int) : Prop := 0 ≤ addr ∧ addr ≤ 0xffff

instance (addr : Int) : Decidable (InRange addr) := inferInstanceAs (Decidable (_ ∧ _))

namespace Machine

/-- The byte at an address. -/
def byteAt (s : Machine) (addr : Int) : BitVec 8 := if InRange addr then s.ram (BitVec.ofInt 16 addr) else s.dummy 0

/-- A byte is stored. -/
def stored (s : Machine) (addr : Int) (val : BitVec 8) : Machine :=
  if InRange addr then { s with ram := Function.update s.ram (BitVec.ofInt 16 addr) val }
  else { s with dummy := fun n => s.dummy (n + 1) }

/-- An address is passed to `ram`. -/
def touched (s : Machine) (addr : Int) : Machine := { s with accesses := addr :: s.accesses }

end Machine

/-- `PC= rom->inc_address(PC)`, with the remainder of C. -/
def inc_address (addr : Int) : Int := (addr + 1).tmod 0x10000

def fetch : Prog (BitVec 8) := modifyGet fun s => (s.byteAt s.PC, { s with PC := inc_address s.PC })

/-- The high byte comes first. -/
def fetch2 : Prog (BitVec 16) := do
  let h ← fetch
  let l ← fetch
  return h ++ l

def get1 (addr : Int) : Prog (BitVec 8) := modifyGet fun s => (s.byteAt addr, s.touched addr)

def get2 (addr : Int) : Prog (BitVec 16) := do
  let h ← get1 addr
  let l ← get1 (addr + 1)
  return h ++ l

def store1 (addr : Int) (val : BitVec 8) : Prog Unit := modify fun s => (s.touched addr).stored addr val

def store2 (addr : Int) (val : BitVec 16) : Prog Unit := do
  store1 addr (val.extractLsb' 8 8)
  store1 (addr + 1) (val.extractLsb' 0 8)

/-- Change the registers. -/
def onRegs (f : Regs → Regs) : Prog Unit := modify fun s => { s with regs := f s.regs }

/-- A register. -/
def reg {α : Type} (f : Regs → α) : Prog α := do return f (← get).regs

def setPC (addr : Int) : Prog Unit := modify fun s => { s with PC := addr }

/-- `tick`. -/
def tick (cycles : Nat) : Prog Unit := modify fun s => { s with ticks := s.ticks + cycles }

/-! ## The stack -/

/-- `regs.SP`, as an `int`. -/
def stackPointer : Prog Int := reg fun r => (r.SP.toNat : Int)

def moveSP (d : BitVec 16) : Prog Unit := onRegs fun r => { r with SP := r.SP + d }

def push2 (val : BitVec 16) : Prog Unit := do
  store2 ((← stackPointer) - 1) val
  onRegs fun r => { r with SP := r.SP - 2 }

def push1 (val : BitVec 8) : Prog Unit := do
  store1 (← stackPointer) val
  onRegs fun r => { r with SP := r.SP - 1 }

def pop2 : Prog (BitVec 16) := do
  let val ← get2 ((← stackPointer) + 1)
  moveSP 2
  return val

/-- `pop1` into a register. -/
def pop1 (put : BitVec 8 → Regs → Regs) : Prog Unit := do
  let val ← get1 ((← stackPointer) + 1)
  onRegs (put val)
  moveSP 1

/-- `push2(PC)`. -/
def pushPC : Prog Unit := do push2 (BitVec.ofInt 16 (← get).PC)

/-! ## Operands -/

/-- `(code >> 4) & 0xf`. -/
def high (code : BitVec 8) : Nat := (code >>> 4).toNat

/-- `code & 0xf`. -/
def low (code : BitVec 8) : Nat := (code &&& 0xf).toNat

/-- `fetchea`. Where the opcode has no address it returns the number `resHALT`. -/
def fetchea (code : BitVec 8) (pre : Bool) : Prog Int :=
  match high code with
  | 0x0 | 0x1 | 0x3 | 0xb => do return ((← fetch).toNat : Int)
  | 0x7 | 0xf => do return ((← reg Regs.hx).toNat : Int)
  | 0x6 | 0xe => do
    let ofs ← fetch
    if !pre then return ofs.toNat + ((← reg Regs.hx).toNat : Int) else return ofs.toNat + (← stackPointer)
  | 0xd => do
    let ofs ← fetch2
    if !pre then return ofs.toNat + ((← reg Regs.hx).toNat : Int) else return ofs.toNat + (← stackPointer)
  | 0xc => do return ((← fetch2).toNat : Int)
  | _ => return resHALT

/-- `OPERAND`. -/
def operand (code : BitVec 8) (pre : Bool) : Prog (BitVec 8) := do
  if high code = 0xa then fetch else get1 (← fetchea code pre)

/-- `PC += ofs` of a branch that is taken. -/
def branchIf (taken : Bool) (ofs : BitVec 8) : Prog Unit := do
  if taken then setPC ((← get).PC + ofs.toInt)

end Ucsim.Hc08
