import Mathlib.Data.BitVec
import Mathlib.Logic.Function.Basic

/-!
# The Z80

The registers and the memory of `cl_z80`, and the macros of `z80mac.h`. `rom` and `ram` are one array of 0x10000
bytes. Addresses beyond it reach a dummy cell, in which each store leaves the next number of `rand`; where there is
none, addresses are taken modulo the size of the array. Without breakpoints an instruction is always fetched.
-/

namespace Ucsim.Z80

/-! ## State -/

/-- `t_regpair`, and the word that shares its memory. -/
@[ext] structure RegPair where
  h : BitVec 8
  l : BitVec 8
  deriving DecidableEq, Repr

namespace RegPair

def word (p : RegPair) : BitVec 16 := p.h ++ p.l

def ofWord (w : BitVec 16) : RegPair := ⟨w.extractLsb' 8 8, w.extractLsb' 0 8⟩

@[simp] theorem word_ofWord (w : BitVec 16) : (ofWord w).word = w := BitVec.extractLsb'_append_extractLsb'

@[simp] theorem ofWord_word (p : RegPair) : ofWord p.word = p :=
  RegPair.ext BitVec.extractLsb'_append_eq_left BitVec.extractLsb'_append_eq_right

end RegPair

/-- `t_regs`. -/
@[ext] structure Regs where
  A : BitVec 8
  F : BitVec 8
  BC : RegPair
  DE : RegPair
  HL : RegPair
  IX : RegPair
  IY : RegPair
  SP : BitVec 16
  aA : BitVec 8
  aF : BitVec 8
  aBC : RegPair
  aDE : RegPair
  aHL : RegPair
  iv : BitVec 8
  deriving DecidableEq, Repr

/-- `cl_z80`. The dummy cell holds the first number of `dummy`; `out` is what has been written with `putchar`. -/
@[ext] structure Machine where
  regs : Regs
  PC : Int
  ram : BitVec 16 → BitVec 8
  dummy : Option (Nat → BitVec 8)
  ticks : Nat
  out : List (BitVec 8)

/-- All registers are 0. -/
def Regs.zero : Regs := ⟨0, 0, ⟨0, 0⟩, ⟨0, 0⟩, ⟨0, 0⟩, ⟨0, 0⟩, ⟨0, 0⟩, 0, 0, 0, ⟨0, 0⟩, ⟨0, 0⟩, ⟨0, 0⟩, 0⟩

/-- A machine that starts at address 0. -/
def Machine.start (ram : BitVec 16 → BitVec 8) : Machine := ⟨.zero, 0, ram, some fun _ => 0, 0, []⟩

/-- An address that the memory has. -/
def InRange (addr : Int) : Prop := 0 ≤ addr ∧ addr < 0x10000

instance (addr : Int) : Decidable (InRange addr) := inferInstanceAs (Decidable (_ ∧ _))

/-- `get`. -/
def Machine.readAt (s : Machine) (addr : Int) : BitVec 8 :=
  match s.dummy with
  | none => s.ram (BitVec.ofInt 16 addr)
  | some d => if InRange addr then s.ram (BitVec.ofInt 16 addr) else d 0

/-- `set`. -/
def Machine.stored (s : Machine) (addr : Int) (val : BitVec 8) : Machine :=
  { s with
    ram := if s.dummy = none ∨ InRange addr then Function.update s.ram (BitVec.ofInt 16 addr) val else s.ram
    dummy := s.dummy.map fun d => if InRange addr then d else fun n => d (n + 1) }

/-- The results of instructions. `exit` ends the program. -/
inductive Res
  | go | invInst | halt | exit
  deriving DecidableEq, Repr

abbrev Prog := StateM Machine

/-- The members of `t_regs` that are bytes. -/
inductive Byte
  | A | F | bc_h | bc_l | de_h | de_l | hl_h | hl_l | ix_h | ix_l | iy_h | iy_l
  deriving DecidableEq, Repr

/-- The members of `t_regs` that are words. -/
inductive Word
  | BC | DE | HL | IX | IY | SP
  deriving DecidableEq, Repr

namespace Regs

def byte (r : Regs) : Byte → BitVec 8
  | .A => r.A
  | .F => r.F
  | .bc_h => r.BC.h
  | .bc_l => r.BC.l
  | .de_h => r.DE.h
  | .de_l => r.DE.l
  | .hl_h => r.HL.h
  | .hl_l => r.HL.l
  | .ix_h => r.IX.h
  | .ix_l => r.IX.l
  | .iy_h => r.IY.h
  | .iy_l => r.IY.l

def setByte (r : Regs) (v : BitVec 8) : Byte → Regs
  | .A => { r with A := v }
  | .F => { r with F := v }
  | .bc_h => { r with BC := { r.BC with h := v } }
  | .bc_l => { r with BC := { r.BC with l := v } }
  | .de_h => { r with DE := { r.DE with h := v } }
  | .de_l => { r with DE := { r.DE with l := v } }
  | .hl_h => { r with HL := { r.HL with h := v } }
  | .hl_l => { r with HL := { r.HL with l := v } }
  | .ix_h => { r with IX := { r.IX with h := v } }
  | .ix_l => { r with IX := { r.IX with l := v } }
  | .iy_h => { r with IY := { r.IY with h := v } }
  | .iy_l => { r with IY := { r.IY with l := v } }

def word (r : Regs) : Word → BitVec 16
  | .BC => r.BC.word
  | .DE => r.DE.word
  | .HL => r.HL.word
  | .IX => r.IX.word
  | .IY => r.IY.word
  | .SP => r.SP

def setWord (r : Regs) (v : BitVec 16) : Word → Regs
  | .BC => { r with BC := .ofWord v }
  | .DE => { r with DE := .ofWord v }
  | .HL => { r with HL := .ofWord v }
  | .IX => { r with IX := .ofWord v }
  | .IY => { r with IY := .ofWord v }
  | .SP => { r with SP := v }

end Regs

/-! ## Access to registers and memory -/

def regs : Prog Regs := do return (← get).regs

def setRegs (f : Regs → Regs) : Prog Unit := modify fun s => { s with regs := f s.regs }

def byte (r : Byte) : Prog (BitVec 8) := do return (← regs).byte r

def setByte (r : Byte) (v : BitVec 8) : Prog Unit := setRegs fun g => g.setByte v r

def word (r : Word) : Prog (BitVec 16) := do return (← regs).word r

def setWord (r : Word) (v : BitVec 16) : Prog Unit := setRegs fun g => g.setWord v r

/-- The assignment of a word to `PC`. -/
def setPC (v : BitVec 16) : Prog Unit := modify fun s => { s with PC := v.toNat }

/-- `tick(1)`. -/
def tick : Prog Unit := modify fun s => { s with ticks := s.ticks + 1 }

/-- `rom->inc_address`, with the remainder of C. -/
def incAddress (addr val : Int) : Int := (addr + val).tmod 0x10000

/-- `fetch`. -/
def fetch : Prog (BitVec 8) :=
  modifyGet fun s => (s.readAt s.PC, { s with PC := incAddress s.PC 1 })

/-- `fetch2`. -/
def fetch2 : Prog (BitVec 16) := do
  let l ← fetch
  let h ← fetch
  return h ++ l

def get1 (addr : BitVec 16) : Prog (BitVec 8) := do return (← get).ram addr

/-- The second address is not taken modulo the size of the memory. -/
def get2 (addr : BitVec 16) : Prog (BitVec 16) := do
  let l ← get1 addr
  let h := (← get).readAt (addr.toNat + 1)
  return h ++ l

def store1 (addr : BitVec 16) (val : BitVec 8) : Prog Unit :=
  modify fun s => { s with ram := Function.update s.ram addr val }

def store2 (addr val : BitVec 16) : Prog Unit := do
  store1 addr (val.extractLsb' 0 8)
  modify fun s => s.stored (addr.toNat + 1) (val.extractLsb' 8 8)

def push2 (val : BitVec 16) : Prog Unit := do
  setWord .SP ((← word .SP) - 2)
  store2 (← word .SP) val

def push1 (val : BitVec 8) : Prog Unit := do
  setWord .SP ((← word .SP) - 1)
  store1 (← word .SP) val

/-- `pop2`, whose value is then assigned. -/
def pop2 : Prog (BitVec 16) := do
  let val ← get2 (← word .SP)
  setWord .SP ((← word .SP) + 2)
  return val

/-- `add_u16_disp`. The displacement is signed. -/
def add_u16_disp (w : BitVec 16) (d : BitVec 8) : BitVec 16 := w + d.signExtend 16

/-! ## Flags -/

def BIT_C : BitVec 8 := 0x01

def BIT_N : BitVec 8 := 0x02

def BIT_P : BitVec 8 := 0x04

def BIT_A : BitVec 8 := 0x10

def BIT_Z : BitVec 8 := 0x40

def BIT_S : BitVec 8 := 0x80

def BIT_ALL : BitVec 8 := BIT_C ||| BIT_N ||| BIT_P ||| BIT_A ||| BIT_Z ||| BIT_S

/-- `if (c) F |= bits`. -/
def orIf (c : Prop) [Decidable c] (bits F : BitVec 8) : BitVec 8 := if c then F ||| bits else F

/-- The zero and sign flags of a result. -/
def orZS (v F : BitVec 8) : BitVec 8 := orIf (v &&& 0x80 ≠ 0) BIT_S (orIf (v = 0) BIT_Z F)

def sub_A_bytereg (br : BitVec 8) (r : Regs) : Regs :=
  let F := orIf (r.A < br) (BIT_C ||| BIT_P) (r.F &&& ~~~BIT_ALL)
  let A := r.A - br
  { r with A := A, F := orZS A (F ||| BIT_N) }

def add_A_bytereg (br : BitVec 8) (r : Regs) : Regs :=
  let tmp := r.A.setWidth 32 + br.setWidth 32
  let A := tmp.setWidth 8
  { r with A := A, F := orZS A (orIf (0xff < tmp) (BIT_C ||| BIT_P) (r.F &&& ~~~BIT_ALL)) }

def adc_A_bytereg (br : BitVec 8) (r : Regs) : Regs :=
  let tmp := r.A.setWidth 32 + br.setWidth 32
  let tmp := if r.F &&& BIT_C ≠ 0 then tmp + 1 else tmp
  let A := tmp.setWidth 8
  { r with A := A, F := orZS A (orIf (0xff < tmp) (BIT_C ||| BIT_P) (r.F &&& ~~~BIT_ALL)) }

def sbc_A_bytereg (br : BitVec 8) (r : Regs) : Regs :=
  let tmp := r.A.setWidth 32 - br.setWidth 32
  let tmp := if r.F &&& BIT_C ≠ 0 then tmp - 1 else tmp
  let A := tmp.setWidth 8
  { r with A := A, F := orZS A (orIf (0xff < tmp) (BIT_C ||| BIT_P) (r.F &&& ~~~BIT_ALL)) ||| BIT_N }

/-- `adc_HL_wordreg`. -/
def adc_HL_wordreg (reg : BitVec 16) (r : Regs) : Regs :=
  let tmp := r.HL.word.setWidth 32 + reg.setWidth 32
  let tmp := if r.F &&& BIT_C ≠ 0 then tmp + 1 else tmp
  let HL := tmp.setWidth 16
  let F := orIf (HL = 0) BIT_Z (orIf (0xffff < tmp) (BIT_C ||| BIT_P) (r.F &&& ~~~BIT_ALL))
  { r with HL := .ofWord HL, F := orIf (HL &&& 0x8000 ≠ 0) BIT_S F }

/-- `sbc_HL_wordreg`. -/
def sbc_HL_wordreg (reg : BitVec 16) (r : Regs) : Regs :=
  let tmp := r.HL.word.setWidth 32 - reg.setWidth 32
  let tmp := if r.F &&& BIT_C ≠ 0 then tmp - 1 else tmp
  let HL := tmp.setWidth 16
  let F := orIf (HL = 0) BIT_Z (orIf (0xffff < tmp) (BIT_C ||| BIT_P) (r.F &&& ~~~BIT_ALL))
  { r with HL := .ofWord HL, F := orIf (HL &&& 0x8000 ≠ 0) BIT_S F ||| BIT_N }

/-- The logical operations. -/
def logic_A_bytereg (op : BitVec 8 → BitVec 8 → BitVec 8) (br : BitVec 8) (r : Regs) : Regs :=
  let A := op r.A br
  { r with A := A, F := orZS A (r.F &&& ~~~BIT_ALL) }

def and_A_bytereg : BitVec 8 → Regs → Regs := logic_A_bytereg (· &&& ·)

def xor_A_bytereg : BitVec 8 → Regs → Regs := logic_A_bytereg (· ^^^ ·)

def or_A_bytereg : BitVec 8 → Regs → Regs := logic_A_bytereg (· ||| ·)

def cp_bytereg (br : BitVec 8) (r : Regs) : Regs :=
  let F := orIf (r.A < br) BIT_C (r.F &&& ~~~BIT_ALL)
  { r with F := orZS (r.A - br) (F ||| BIT_N) }

/-! The macros that change a byte take it and the flags. -/

/-- The flags after a shift that moves a bit out. -/
def shiftFlags (out : Prop) [Decidable out] (reg F : BitVec 8) : BitVec 8 :=
  orZS reg (orIf out BIT_C (F &&& ~~~BIT_ALL))

def rr_byte (reg F : BitVec 8) : BitVec 8 × BitVec 8 :=
  let new := if F &&& BIT_C ≠ 0 then reg >>> 1 ||| 0x80 else reg >>> 1
  (new, shiftFlags (reg &&& 0x01 ≠ 0) new F)

def rl_byte (reg F : BitVec 8) : BitVec 8 × BitVec 8 :=
  let new := if F &&& BIT_C ≠ 0 then reg <<< 1 ||| 0x01 else reg <<< 1
  (new, shiftFlags (reg &&& 0x80 ≠ 0) new F)

def rrc_byte (reg F : BitVec 8) : BitVec 8 × BitVec 8 :=
  let new := if reg &&& 0x01 ≠ 0 then reg >>> 1 ||| 0x80 else reg >>> 1
  (new, shiftFlags (reg &&& 0x01 ≠ 0) new F)

def rlc_byte (reg F : BitVec 8) : BitVec 8 × BitVec 8 :=
  let new := if reg &&& 0x80 ≠ 0 then reg <<< 1 ||| 0x01 else reg <<< 1
  (new, shiftFlags (reg &&& 0x80 ≠ 0) new F)

def sla_byte (reg F : BitVec 8) : BitVec 8 × BitVec 8 :=
  let new := reg <<< 1
  (new, shiftFlags (reg &&& 0x80 ≠ 0) new F)

def sra_byte (reg F : BitVec 8) : BitVec 8 × BitVec 8 :=
  let new := if reg &&& 0x80 ≠ 0 then reg >>> 1 ||| 0x80 else reg >>> 1
  (new, shiftFlags (reg &&& 0x01 ≠ 0) new F)

def srl_byte (reg F : BitVec 8) : BitVec 8 × BitVec 8 :=
  let new := reg >>> 1
  (new, shiftFlags (reg &&& 0x01 ≠ 0) new F)

def slia_byte (reg F : BitVec 8) : BitVec 8 × BitVec 8 :=
  let new := reg <<< 1 ||| 1
  (new, shiftFlags (reg &&& 0x80 ≠ 0) new F)

/-- `bit_byte`, which leaves the byte. -/
def bit_byte (bitnum : Nat) (reg F : BitVec 8) : BitVec 8 × BitVec 8 :=
  (reg, orIf (reg &&& 1 <<< bitnum = 0) BIT_Z (F &&& ~~~BIT_ALL ||| BIT_A))

/-- The flags that `inc` and `dec` clear. -/
def BIT_INC : BitVec 8 := BIT_N ||| BIT_P ||| BIT_A ||| BIT_Z ||| BIT_S

def inc (var F : BitVec 8) : BitVec 8 × BitVec 8 :=
  let new := var + 1
  (new, orIf (new &&& 0x0f = 0) BIT_A (orZS new (F &&& ~~~BIT_INC)))

def dec (var F : BitVec 8) : BitVec 8 × BitVec 8 :=
  let new := var - 1
  (new, orIf (new &&& 0x0f = 0) BIT_A (orZS new (F &&& ~~~BIT_INC ||| BIT_N)))

/-- A macro applied to a register. -/
def onByte (op : BitVec 8 → BitVec 8 → BitVec 8 × BitVec 8) (r : Byte) : Prog Unit :=
  setRegs fun g =>
    let p := op (g.byte r) g.F
    { g.setByte p.1 r with F := p.2 }

/-- A macro applied to a local variable. -/
def onTmp (op : BitVec 8 → BitVec 8 → BitVec 8 × BitVec 8) (tmp : BitVec 8) : Prog (BitVec 8) := do
  let p := op tmp (← byte .F)
  setByte .F p.2
  return p.1

/-- A byte is read, changed by a macro and written back. -/
def onMem (op : BitVec 8 → BitVec 8 → BitVec 8 × BitVec 8) (addr : BitVec 16) : Prog Unit := do
  let tmp ← get1 addr
  let tmp ← onTmp op tmp
  store1 addr tmp

/-! ## Dispatch -/

/-- A `switch` over groups of cases. -/
def switch {α : Type} (cases : List (List Nat × α)) (default : α) (code : BitVec 8) : α :=
  match cases.find? fun c => decide (code.toNat ∈ c.1) with
  | some c => c.2
  | none => default

/-- A body that ends with `return(resGO)`. -/
def go (body : Prog Unit) : Prog Res := do
  body
  return .go

end Ucsim.Z80
