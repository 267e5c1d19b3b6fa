import Mathlib.Logic.Function.Basic
import Ucsim.Logic.Pattern

/-!
# The AVR

The state of `cl_avr`, its memories and its stack. The data space is an array of 0x10000 bytes without hardware, on which
`get` and `read`, `set` and `write` are the same. Without breakpoints an instruction is always fetched.
-/

namespace Ucsim.Avr

/-! ## State -/

/-- `cl_avr`. The dummy cells stand for what is beyond the last address. -/
@[ext] structure Machine where
  ram : BitVec 16 → BitVec 8
  rom : BitVec 16 → BitVec 16
  ramDummy : BitVec 8
  romDummy : BitVec 16
  PC : Int
  ticks : Nat
  sleep_executed : Bool

/-- The results of instructions. `abort` is a failed assertion. -/
inductive Res
  | go | invInst | abort
  deriving DecidableEq, Repr

abbrev Prog := StateM Machine

/-! ## Registers -/

def XL : BitVec 16 := 0x1a

def XH : BitVec 16 := 0x1b

def YL : BitVec 16 := 0x1c

def YH : BitVec 16 := 0x1d

def ZL : BitVec 16 := 0x1e

def ZH : BitVec 16 := 0x1f

def SPL : BitVec 16 := 0x5d

def SPH : BitVec 16 := 0x5e

def SREG : BitVec 16 := 0x5f

/-! The bits of `SREG`, in a `t_mem`. -/

def BIT_I : BitVec 16 := 0x80

def BIT_T : BitVec 16 := 0x40

def BIT_H : BitVec 16 := 0x20

def BIT_S : BitVec 16 := 0x10

def BIT_V : BitVec 16 := 0x08

def BIT_N : BitVec 16 := 0x04

def BIT_Z : BitVec 16 := 0x02

def BIT_C : BitVec 16 := 0x01

/-- `if (c) sreg |= bits`. -/
def orIf (c : Prop) [Decidable c] (bits sreg : BitVec 16) : BitVec 16 := if c then sreg ||| bits else sreg

/-- `if (c) sreg |= bits; else sreg &= ~bits`. -/
def putIf (c : Prop) [Decidable c] (bits sreg : BitVec 16) : BitVec 16 := if c then sreg ||| bits else sreg &&& ~~~bits

/-- A byte in a word. -/
theorem byte_word (x : BitVec 8) : (x.setWidth 16).setWidth 8 = x := by
  rw [BitVec.setWidth_setWidth_of_le _ (by decide), BitVec.setWidth_eq]

/-! ## Memories -/

/-- `ram->read`, a byte in a `t_mem`. -/
def read (addr : BitVec 16) : Prog (BitVec 16) := do return ((← get).ram addr).setWidth 16

/-- `ram->write`. A cell has 8 bits. -/
def write (addr val : BitVec 16) : Prog Unit :=
  modify fun s => { s with ram := Function.update s.ram addr (val.setWidth 8) }

/-- `ram->read` at an address that may be too large. -/
def readFar (addr : Nat) : Prog (BitVec 16) := do
  if addr < 0x10000 then read (BitVec.ofNat 16 addr) else return (← get).ramDummy.setWidth 16

/-- `tick`. -/
def tick (cycles : Nat) : Prog Unit := modify fun s => { s with ticks := s.ticks + cycles }

/-- `rom->get`. -/
def Machine.romAt (s : Machine) (addr : Int) : BitVec 16 :=
  if 0 ≤ addr ∧ addr < 0x10000 then s.rom (BitVec.ofInt 16 addr) else s.romDummy

/-- `rom->inc_address`, with the remainder of C. -/
def inc_address (addr : Int) : Int := (addr + 1).tmod 0x10000

/-- `rom->validate_address`. It leaves the size of the space as it is. -/
def validate_address (addr : Int) : Int :=
  let addr := if addr < 0 then addr % 0x10000 else addr
  if 0x10000 < addr then addr % 0x10000 else addr

/-- `fetch`. -/
def fetch : Prog (BitVec 16) := modifyGet fun s => (s.romAt s.PC, { s with PC := inc_address s.PC })

def setPC (addr : Int) : Prog Unit := modify fun s => { s with PC := addr }

/-! ## Operands -/

/-- What an instruction takes from its words: registers, constants, bits, I/O addresses, displacements, data addresses
and targets. -/
inductive Operand
  | reg (n : BitVec 16)
  | imm (K : BitVec 16)
  | bit (b : BitVec 16)
  | io (P : BitVec 16)
  | disp (q : BitVec 16)
  | data (k : BitVec 16)
  | target (k : Int)
  deriving DecidableEq, Repr

/-- An instruction: what it does, and the operands it does it with, given PC behind its first word and the second
word. -/
structure Inst where
  run : Prog Res
  uses : Int → BitVec 16 → List Operand

/-- An instruction whose operands are all in its first word. -/
def inst (uses : List Operand) (body : Prog Unit) : Inst where
  run := do
    body
    return .go
  uses _ _ := uses

/-- An instruction that gets one operand from its word. -/
def inst1 (o : BitVec 16 → Operand) (d : BitVec 16) (body : BitVec 16 → Prog Unit) : Inst := inst [o d] (body d)

/-- An instruction that gets two operands from it. -/
def inst2 (o p : BitVec 16 → Operand) (d r : BitVec 16) (body : BitVec 16 → BitVec 16 → Prog Unit) : Inst :=
  inst [o d, p r] (body d r)

/-- A body that does nothing. -/
def stub (_ : BitVec 16) : Inst := inst [] (pure ())

/-- `(code&mask)>>n`. -/
def bits (code mask : BitVec 16) (n : Nat) : BitVec 16 := (code &&& mask) >>> n

/-- `(code&0x1f0)>>4`. -/
def d5 (code : BitVec 16) : BitVec 16 := bits code 0x1f0 4

theorem d5_lt (code : BitVec 16) : (d5 code).toNat < 32 := by
  have hand : (code &&& 0x1f0).toNat ≤ 0x1f0 := by
    rw [BitVec.toNat_and]
    exact Nat.and_le_right
  unfold d5 bits
  rw [BitVec.toNat_ushiftRight, Nat.shiftRight_eq_div_pow]
  omega

/-- `((code&0x200)>>5)|(code&0xf)`. -/
def r5 (code : BitVec 16) : BitVec 16 := bits code 0x200 5 ||| code &&& 0xf

/-! ## The stack -/

/-- `SPH:SPL`. -/
def Machine.SP (s : Machine) : BitVec 16 := (s.ram SPH).setWidth 16 * 256 + (s.ram SPL).setWidth 16

def setSP (sp : BitVec 16) : Prog Unit := do
  write SPL (sp &&& 0xff)
  write SPH (sp >>> 8 &&& 0xff)

def push_data (data : BitVec 16) : Prog Unit := do
  let sp := (← get).SP
  write sp data
  setSP (sp - 1)

/-- `push_addr`. The high byte has the larger address. -/
def push_addr (addr : Int) : Prog Unit := do
  let sp := (← get).SP
  let al := BitVec.ofInt 16 addr &&& 0xff
  let ah := BitVec.ofInt 16 addr >>> 8 &&& 0xff
  write sp ah
  write (sp - 1) al
  setSP (sp - 1 - 1)

def pop_data : Prog (BitVec 16) := do
  let sp := (← get).SP + 1
  let data ← read sp
  setSP sp
  return data

def pop_addr : Prog (BitVec 16) := do
  let sp := (← get).SP + 1
  let al ← read sp
  let sp := sp + 1
  let ah ← read sp
  setSP sp
  return ah * 256 + al

end Ucsim.Avr
