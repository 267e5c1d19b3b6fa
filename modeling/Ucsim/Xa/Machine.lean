import Mathlib.Data.BitVec
import Mathlib.Logic.Function.Basic

/-!
# The XA

The state of `cl_xa`, its memories and the macros of `regsxa.h`. What is outside of a memory
comes from a dummy cell, in which each store leaves the next number of `rand`. The registers are in `sfr`, behind
the special function registers. Without breakpoints an instruction is always fetched.
-/

namespace Ucsim.Xa

/-! ## Bytes of a word -/

def low (val : BitVec 16) : BitVec 8 := val.setWidth 8

def high (val : BitVec 16) : BitVec 8 := (val >>> 8).setWidth 8

theorem low_sub (a b : BitVec 16) : low (a - b) = low a - low b := by
  unfold low
  apply BitVec.eq_of_toNat_eq
  simp only [BitVec.toNat_setWidth, BitVec.toNat_sub]
  omega

theorem toNat_append (h l : BitVec 8) : (h ++ l).toNat = 2 ^ 8 * h.toNat + l.toNat := by
  rw [BitVec.toNat_append, Nat.shiftLeft_eq, Nat.mul_comm, ← Nat.two_pow_add_eq_or_of_lt l.isLt]

theorem high_append_low (v : BitVec 16) : high v ++ low v = v := by
  have hv := v.isLt
  apply BitVec.eq_of_toNat_eq
  unfold high low
  rw [toNat_append, BitVec.toNat_setWidth, BitVec.toNat_setWidth, BitVec.toNat_ushiftRight, Nat.shiftRight_eq_div_pow]
  omega

theorem low_setWidth (b : BitVec 8) : low (b.setWidth 16) = b := by
  unfold low
  rw [BitVec.setWidth_setWidth_of_le _ (by decide), BitVec.setWidth_eq]

theorem low_append (h l : BitVec 8) : low (h ++ l) = l := BitVec.setWidth_append_eq_right

theorem high_append (h l : BitVec 8) : high (h ++ l) = h := by
  have hh := h.isLt
  have hl := l.isLt
  apply BitVec.eq_of_toNat_eq
  unfold high
  rw [BitVec.toNat_setWidth, BitVec.toNat_ushiftRight, Nat.shiftRight_eq_div_pow, toNat_append]
  omega

/-! ## Memories -/

/-- A memory of `size` cells. A dummy cell holds its number 0. -/
@[ext] structure Mem (size : Int) where
  cells : BitVec 16 → BitVec 8
  dummy : Nat → BitVec 8

namespace Mem

variable {size : Int} (m : Mem size) (addr : Int)

def get1 : BitVec 8 := if 0 ≤ addr ∧ addr < size then m.cells (BitVec.ofInt 16 addr) else m.dummy 0

def get2 : BitVec 16 := m.get1 (addr + 1) ++ m.get1 addr

def set1 (val : BitVec 8) : Mem size :=
  if 0 ≤ addr ∧ addr < size then { m with cells := Function.update m.cells (BitVec.ofInt 16 addr) val }
  else { m with dummy := fun n => m.dummy (n + 1) }

def set2 (val : BitVec 16) : Mem size := (m.set1 addr (low val)).set1 (addr + 1) (high val)

variable {m addr} {x : Int}

theorem set1_get1 (val : BitVec 8) (h : 0 ≤ addr ∧ addr < size) : (m.set1 addr val).get1 addr = val := by
  unfold set1 get1
  rw [if_pos h, if_pos h]
  exact Function.update_self ..

/-- Another cell is not changed, nor is any cell when the dummy is stored in. -/
theorem set1_get1_of_ne (hsize : size ≤ 0x10000) (val : BitVec 8) (hx : 0 ≤ x ∧ x < size) (hne : addr ≠ x) :
    (m.set1 addr val).get1 x = m.get1 x := by
  unfold set1 get1
  rw [if_pos hx, if_pos hx]
  split_ifs with h
  · refine Function.update_of_ne ?_ ..
    intro heq
    have hnat := congrArg BitVec.toNat heq
    rw [BitVec.toNat_ofInt, BitVec.toNat_ofInt] at hnat
    omega
  · rfl

theorem set1_dummy (val : BitVec 8) (h : 0 ≤ addr ∧ addr < size) : (m.set1 addr val).dummy = m.dummy := by
  unfold set1
  rw [if_pos h]

/-- The next number is in the dummy when it has been stored in. -/
theorem set1_get1_of_not (val : BitVec 8) (h : ¬ (0 ≤ addr ∧ addr < size)) (hx : ¬ (0 ≤ x ∧ x < size)) :
    (m.set1 addr val).get1 x = m.dummy 1 := by
  unfold set1 get1
  rw [if_neg h, if_neg hx]

/-- The dummy is not changed by a store in a cell. -/
theorem set1_get1_dummy (val : BitVec 8) (h : 0 ≤ addr ∧ addr < size) (hx : ¬ (0 ≤ x ∧ x < size)) :
    (m.set1 addr val).get1 x = m.get1 x := by
  unfold get1
  rw [if_neg hx, if_neg hx, set1_dummy val h]

section Words

variable {v : BitVec 16} (hsize : size ≤ 0x10000)

include hsize

theorem set2_get2 (h : 0 ≤ addr ∧ addr + 1 < size) : (m.set2 addr v).get2 addr = v := by
  unfold set2 get2
  rw [set1_get1 _ (by omega), set1_get1_of_ne hsize _ (by omega) (by omega), set1_get1 _ (by omega), high_append_low]

/-- The upper byte of a word in the last cell is lost. -/
theorem set2_get2_last (h : 0 ≤ addr) (hlast : addr + 1 = size) : (m.set2 addr v).get2 addr = m.dummy 1 ++ low v := by
  unfold set2 get2
  rw [set1_get1_of_not _ (by omega) (by omega), set1_get1_of_ne hsize _ (by omega) (by omega), set1_get1 _ (by omega),
    set1_dummy _ (by omega)]

theorem set2_get2_of_apart (haddr : 0 ≤ addr ∧ addr < size) (hx : 0 ≤ x ∧ x < size)
    (hapart : addr + 1 < x ∨ x + 1 < addr) : (m.set2 addr v).get2 x = m.get2 x := by
  unfold set2 get2
  rw [set1_get1_of_ne hsize _ hx (by omega), set1_get1_of_ne hsize _ hx (by omega)]
  by_cases hlast : x + 1 < size
  · rw [set1_get1_of_ne hsize _ (by omega) (by omega), set1_get1_of_ne hsize _ (by omega) (by omega)]
  · rw [set1_get1_dummy _ (by omega) (by omega), set1_get1_dummy _ (by omega) (by omega)]

end Words

theorem set2_dummy (v : BitVec 16) (h : 0 ≤ addr ∧ addr + 1 < size) : (m.set2 addr v).dummy = m.dummy := by
  unfold set2
  rw [set1_dummy _ (by omega), set1_dummy _ (by omega)]

end Mem

/-! ## State -/

/-- `cl_xa`. What has been written with `putchar` is in `out`. -/
@[ext] structure Machine where
  sfr : BitVec 16 → BitVec 8
  iram : Mem 0x2000
  xram : Mem 0x10000
  rom : Mem 0x10000
  PC : Int
  ticks : Nat
  out : List (BitVec 8)

/-- The results of instructions. `exit` is the end of the simulator. -/
inductive Res
  | go | invInst | exit
  deriving DecidableEq, Repr

abbrev Prog := StateM Machine

theorem run_bind_of {α β : Type} {x : Prog α} {f : α → Prog β} {s t : Machine} {a : α} (h : x.run s = (a, t)) :
    (x >>= f).run s = (f a).run t := by
  rw [StateT.run_bind, h]
  rfl

/-! ## Special function registers -/

def PSW : BitVec 16 := 0x400

def SCR : BitVec 16 := 0x440

def REGS_OFFSET : BitVec 16 := 0x800

def BIT_C : BitVec 8 := 0x80

def BIT_AC : BitVec 8 := 0x40

def BIT_V : BitVec 8 := 0x04

def BIT_N : BitVec 8 := 0x02

def BIT_Z : BitVec 8 := 0x01

def BIT_ALL : BitVec 8 := BIT_C ||| BIT_AC ||| BIT_V ||| BIT_N ||| BIT_Z

/-- `if (c) flags |= bits`. -/
def orIf (c : Prop) [Decidable c] (bits flags : BitVec 8) : BitVec 8 := if c then flags ||| bits else flags

namespace Machine

def direct1 (s : Machine) (addr : BitVec 16) : BitVec 8 := s.sfr addr

def direct2 (s : Machine) (addr : BitVec 16) : BitVec 16 := s.sfr (addr + 1) ++ s.sfr addr

theorem low_direct2 (s : Machine) (addr : BitVec 16) : low (s.direct2 addr) = s.direct1 addr := low_append _ _

def setDirect (s : Machine) (addr : BitVec 16) (val : BitVec 8) : Machine :=
  { s with sfr := Function.update s.sfr addr val }

theorem setDirect_self (s : Machine) (addr : BitVec 16) (val : BitVec 8) : (s.setDirect addr val).sfr addr = val :=
  Function.update_self ..

theorem setDirect_of_ne (s : Machine) {addr c : BitVec 16} (h : c ≠ addr) (val : BitVec 8) :
    (s.setDirect addr val).sfr c = s.sfr c := Function.update_of_ne h ..

end Machine

def get_byte_direct (addr : BitVec 16) : Prog (BitVec 8) := do return (← get).direct1 addr

def get_word_direct (addr : BitVec 16) : Prog (BitVec 16) := do return (← get).direct2 addr

def set_byte_direct (addr : BitVec 16) (val : BitVec 8) : Prog Unit := modify (·.setDirect addr val)

/-- `set_word_direct`. The macro has its value twice. -/
def set_word_direct (addr : BitVec 16) (val : Prog (BitVec 16)) : Prog Unit := do
  set_byte_direct addr (low (← val))
  set_byte_direct (addr + 1) (high (← val))

def reg1 (index : BitVec 16) : Prog (BitVec 8) := get_byte_direct (REGS_OFFSET + index)

def reg2 (index : BitVec 16) : Prog (BitVec 16) := get_word_direct (REGS_OFFSET + index <<< 1)

def set_reg1 (index : BitVec 16) (val : BitVec 8) : Prog Unit := set_byte_direct (REGS_OFFSET + index) val

def set_reg2 (index : BitVec 16) (val : Prog (BitVec 16)) : Prog Unit := set_word_direct (REGS_OFFSET + index <<< 1) val

def get_sp : Prog (BitVec 16) := reg2 7

def set_sp (val : BitVec 16) : Prog Unit := set_reg2 7 (return val)

/-- `get_psw`, in an `unsigned char`. -/
def get_psw : Prog (BitVec 8) := do return low (← get_word_direct PSW)

/-- `set_psw` of an `unsigned char`. -/
def set_psw (flags : BitVec 8) : Prog Unit := set_word_direct PSW (return flags.setWidth 16)

def get_scr : Prog (BitVec 8) := get_byte_direct SCR

section Reading

namespace Machine

variable (s : Machine)

def byteReg (index : BitVec 16) : BitVec 8 := s.direct1 (REGS_OFFSET + index)

def wordReg (index : BitVec 16) : BitVec 16 := s.direct2 (REGS_OFFSET + index <<< 1)

def sp : BitVec 16 := s.wordReg 7

def psw : BitVec 8 := low (s.direct2 PSW)

end Machine

variable (s : Machine) (addr index : BitVec 16)

theorem get_byte_direct_run : (get_byte_direct addr).run s = (s.direct1 addr, s) := rfl

theorem get_word_direct_run : (get_word_direct addr).run s = (s.direct2 addr, s) := rfl

theorem reg1_run : (reg1 index).run s = (s.byteReg index, s) := rfl

theorem reg2_run : (reg2 index).run s = (s.wordReg index, s) := rfl

theorem get_sp_run : get_sp.run s = (s.sp, s) := rfl

theorem get_psw_run : get_psw.run s = (s.psw, s) := rfl

end Reading

/-! ## Data and code -/

namespace Machine

/-- Data below 0x2000 are in `iram`. -/
def mem1 (s : Machine) (addr : Int) : BitVec 8 := if addr < 0x2000 then s.iram.get1 addr else s.xram.get1 addr

def mem2 (s : Machine) (addr : Int) : BitVec 16 := if addr < 0x2000 then s.iram.get2 addr else s.xram.get2 addr

def setMem1 (s : Machine) (addr : Int) (val : BitVec 8) : Machine :=
  if addr < 0x2000 then { s with iram := s.iram.set1 addr val } else { s with xram := s.xram.set1 addr val }

def setMem2 (s : Machine) (addr : Int) (val : BitVec 16) : Machine :=
  if addr < 0x2000 then { s with iram := s.iram.set2 addr val } else { s with xram := s.xram.set2 addr val }

/-- `rom->get`. -/
def romAt (s : Machine) (addr : Int) : BitVec 8 := s.rom.get1 addr

end Machine

def get1 (addr : Int) : Prog (BitVec 8) := do return (← get).mem1 addr

def get2 (addr : Int) : Prog (BitVec 16) := do return (← get).mem2 addr

def store1 (addr : Int) (val : BitVec 8) : Prog Unit := modify (·.setMem1 addr val)

def store2 (addr : Int) (val : BitVec 16) : Prog Unit := modify (·.setMem2 addr val)

theorem store2_run (s : Machine) (addr : Int) (val : BitVec 16) : (store2 addr val).run s = ((), s.setMem2 addr val) := rfl

def getcode1 (addr : Int) : Prog (BitVec 8) := do return (← get).romAt addr

def getcode2 (addr : Int) : Prog (BitVec 16) := do return (← get).rom.get2 addr

/-- `rom->inc_address`, with the remainder of C. -/
def inc_address (addr val : Int) : Int := (addr + val).tmod 0x10000

def fetch : Prog (BitVec 8) := modifyGet fun s => (s.romAt s.PC, { s with PC := inc_address s.PC 1 })

/-- `fetch2`, from left to right. -/
def fetch2 : Prog (BitVec 16) := do
  let h ← fetch
  let l ← fetch
  return h ++ l

def setPC (addr : Int) : Prog Unit := modify fun s => { s with PC := addr }

theorem setPC_run (s : Machine) (addr : Int) : (setPC addr).run s = ((), { s with PC := addr }) := rfl

def tick (cycles : Nat) : Prog Unit := modify fun s => { s with ticks := s.ticks + cycles }

/-! ## Bits -/

/-- The byte that a bit is in. -/
def byteOfBit (bit : BitVec 16) : BitVec 16 :=
  if 0x200 ≤ bit.toNat then 0x400 + (bit - 0x200) >>> 3 else bit >>> 3

/-- `1 << (bit%8)`. -/
def maskOfBit (bit : BitVec 16) : BitVec 8 := (1 : BitVec 8) <<< (bit &&& 7).toNat

def get_bit (bit : BitVec 16) : Prog Bool := do
  return decide ((← get_byte_direct (byteOfBit bit)) &&& maskOfBit bit ≠ 0)

def set_bit (bit : BitVec 16) (value : Bool) : Prog Unit := do
  let i ← get_byte_direct (byteOfBit bit)
  set_byte_direct (byteOfBit bit) (if value then i ||| maskOfBit bit else i &&& ~~~maskOfBit bit)

/-! ## Fields of a code -/

def RI_F0 (code : BitVec 16) : BitVec 16 := code >>> 4 &&& 0xf

def RI_70 (code : BitVec 16) : BitVec 16 := code >>> 4 &&& 0x7

def RI_0F (code : BitVec 16) : BitVec 16 := code &&& 0xf

def RI_07 (code : BitVec 16) : BitVec 16 := code &&& 0x7

/-- `code & 0x0800`: an instruction on words. -/
def IsWord (code : BitVec 16) : Prop := code &&& 0x0800 ≠ 0

instance (code : BitVec 16) : Decidable (IsWord code) := inferInstanceAs (Decidable (_ ≠ _))

end Ucsim.Xa
