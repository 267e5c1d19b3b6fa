import Ucsim.Logic.Program
import Ucsim.Sim.AddressSpace

/-!
# The board: address spaces, registers and hardware of the 8051 core

What `make_memories` and `mk_hw_elements` set up. Of the hardware, the interrupt logic and the dummy
element that keeps the parity flag are modelled as they are written; timers, ports, serial line, DMA,
flash controller and radio are the parameter `Devices`.
-/

namespace Ucsim.S51

open Logic

/-- A byte: `uchar`. -/
abbrev UChar := BitVec 8

/-- The address spaces. -/
inductive Space
  | rom | iram | sfr | xram | flashbank0 | flashbank1 | flashbank2 | flashbank3 | sram
  deriving DecidableEq, Repr

namespace Space

/-- `start_address`. -/
def startAddress : Space → Int
  | .sfr => 0x80
  | _ => 0

/-- `size`. -/
def size : Space → Int
  | .rom | .xram => 0x10000
  | .iram => 0x100
  | .sfr => 0x80
  | .flashbank0 | .flashbank1 | .flashbank2 | .flashbank3 => 0x8000
  | .sram => 0x2000

/-- `xram_offset`. -/
def xramOffset : Space → Int
  | .iram => 0x1F00
  | .sfr => 0x7000
  | .flashbank0 | .flashbank1 | .flashbank2 | .flashbank3 => 0x8000
  | .rom | .xram | .sram => 0

/-- Is the cell decoded? The decoders of the flash and of `sram` are refused. -/
def decoded : Space → Int → Bool
  | .rom, _ | .xram, _ | .sfr, _ => true
  | .iram, idx => idx < 0x80
  | _, _ => false

/-- The spaces that instructions are fetched from. -/
def isCode : Space → Bool
  | .flashbank0 | .flashbank1 | .flashbank2 | .flashbank3 | .sram | .iram => true
  | .rom | .sfr | .xram => false

end Space

/-- A cell of the board: `cells[idx]` of a space, or its dummy cell. No two cells share storage, so the
same name stands for the place of its value. -/
inductive Site
  | cell (sp : Space) (idx : Int)
  | dummy (sp : Space)
  deriving DecidableEq, Repr

/-- The cell of a special function register. -/
def Site.sfr (addr : Int) : Site := .cell .sfr (addr - 0x80)

theorem Site.sfr_inj {a b : Int} : Site.sfr a = Site.sfr b ↔ a = b := by
  simp only [Site.sfr, Site.cell.injEq, true_and]
  omega

/-! ## Register addresses and bits -/

namespace Reg

def P0 : Int := 0x80
def SP : Int := 0x81
def DPL : Int := 0x82
def DPH : Int := 0x83
def PCON : Int := 0x87
def TCON : Int := 0x88
def P1 : Int := 0x90
def MPAGE : Int := 0x93
def SCON : Int := 0x98
def FMAP : Int := 0x9F
def P2 : Int := 0xA0
def IE : Int := 0xA8
def IEN0 : Int := 0xA8
def P3 : Int := 0xB0
def IP : Int := 0xB8
def MCON : Int := 0xC7
def PSW : Int := 0xD0
def ACC : Int := 0xE0
def B : Int := 0xF0

end Reg

def bmCY : TMem := 0x80
def bmAC : TMem := 0x40
def bmRS1 : TMem := 0x10
def bmRS0 : TMem := 0x08
def bmOV : TMem := 0x04
def bmP : TMem := 0x01
def bmEA : TMem := 0x80
def bmIDL : TMem := 0x01
def bmPD : TMem := 0x02
def bmIT0 : TMem := 0x01
def bmIE0 : TMem := 0x02
def bmIT1 : TMem := 0x04
def bmIE1 : TMem := 0x80

/-- `acc`. -/
def acc : Site := .sfr Reg.ACC

/-- `psw`. -/
def psw : Site := .sfr Reg.PSW

/-! ## Hardware -/

/-- The state of the hardware elements, with the fields of the core that they use: the interrupt logic,
`sp_max`, `sp_avg`, `prev_p1`, `prev_p3` and the radio's flag `MovInstruction`. -/
structure HwState (V : Type) where
  wasReti : Bool
  bitIT0 : Bool
  bitIT1 : Bool
  bitINT0 : Bool
  bitINT1 : Bool
  spMax : Int
  spAvg : Int
  prevP1 : UChar
  prevP3 : UChar
  movInstruction : Bool
  devices : V

/-- The memory and the hardware state. -/
abbrev St (V : Type) := Store Site (HwState V)

/-- All places hold bytes. -/
def IsBytes (mem : Site → TMem) : Prop := ∀ c, (mem c).toNat < 0x100

/-- Masking leaves a byte alone. -/
theorem byte_and {v : TMem} (h : v.toNat < 0x100) : v &&& 0xff = v := by
  apply BitVec.eq_of_toNat_eq
  rw [BitVec.toNat_and]
  exact Nat.and_two_pow_sub_one_of_lt_two_pow (n := 8) h

theorem setWidth_lt (v : BitVec 8) : (v.setWidth 16).toNat < 0x100 := by
  rw [BitVec.toNat_setWidth_of_le (by decide)]
  exact v.isLt

theorem and_lt_byte (v : TMem) : (v &&& 0xff).toNat < 0x100 := by
  rw [BitVec.toNat_and]
  exact Nat.lt_of_le_of_lt Nat.and_le_right (by decide)

theorem or_lt_byte {v w : TMem} (hv : v.toNat < 0x100) (hw : w.toNat < 0x100) :
    (v ||| w).toNat < 0x100 := by
  rw [BitVec.toNat_or]
  exact Nat.or_lt_two_pow (n := 8) hv hw

theorem isBytes_update {mem : Site → TMem} (h : IsBytes mem) (c : Site) {v : TMem}
    (hv : v.toNat < 0x100) : IsBytes (Function.update mem c v) := by
  intro d
  rw [Function.update_apply]
  split
  · exact hv
  · exact h d

theorem toNat_high (p : BitVec 16) : (p >>> 8).toNat = p.toNat / 256 := by
  rw [BitVec.toNat_ushiftRight, Nat.shiftRight_eq_div_pow]

theorem toNat_low (p : BitVec 16) : (p &&& 0xff).toNat = p.toNat % 256 := by
  rw [BitVec.toNat_and]
  exact Nat.and_two_pow_sub_one_eq_mod p.toNat 8

/-- The registers of the core that no device registers on. -/
def coreRegisters : List Int :=
  [Reg.ACC, Reg.B, Reg.PSW, Reg.SP, Reg.DPL, Reg.DPH, Reg.IP, Reg.MCON]

/-- The hardware elements other than the interrupt logic and the dummy. `registered` tells which of
them hang on a cell, in the order of registration. A device changes memory through the cells, so that
bytes stay bytes, and does not know `was_reti`. -/
structure Devices (Dev V : Type) where
  cathegory : Dev → HwCath
  registered : Site → List Dev
  read : Dev → Site → St V → TMem × St V × List Brk
  write : Dev → Site → TMem → St V → TMem × St V × List Brk
  tick : Int → St V → St V × List Brk
  reset : St V → St V × List Brk
  registered_core : ∀ r ∈ coreRegisters, registered (.sfr r) = []
  registered_code : ∀ sp idx, sp.isCode → registered (.cell sp idx) = []
  read_fmap : ∀ d ∈ registered (.sfr Reg.FMAP), ∀ st,
    read d (.sfr Reg.FMAP) st = (st.mem (.sfr Reg.FMAP), st, [])
  read_bytes : ∀ d c st, IsBytes st.mem → IsBytes (read d c st).2.1.mem
  write_bytes : ∀ d c v st, IsBytes st.mem → IsBytes (write d c v st).2.1.mem
  tick_bytes : ∀ n st, IsBytes st.mem → IsBytes (tick n st).1.mem
  reset_bytes : ∀ st, IsBytes st.mem → IsBytes (reset st).1.mem
  read_reti : ∀ d c st, (read d c st).2.1.hw.wasReti = st.hw.wasReti
  write_reti : ∀ d c v st, (write d c v st).2.1.hw.wasReti = st.hw.wasReti
  tick_reti : ∀ n st, (tick n st).1.hw.wasReti = st.hw.wasReti
  reset_reti : ∀ st, (reset st).1.hw.wasReti = st.hw.wasReti

/-- The elements of `hws` that register on cells. -/
inductive CoreHw (Dev : Type)
  | device (d : Dev)
  | interrupt
  | dummy
  deriving DecidableEq, Repr

/-- The loop of `cl_uc51_dummy_hw::write`. -/
def parityLoop : Nat → UChar → Bool → Bool
  | 0, _, p => p
  | n + 1, uc, p => parityLoop n (uc >>> 1) (if uc &&& 1 ≠ 0 then !p else p)

/-- Does the byte have an odd number of ones? -/
def parity (uc : UChar) : Bool := parityLoop 8 uc false

/-- The parity is the exclusive or of the bits. -/
theorem parity_eq_xor (uc : UChar) :
    parity uc = (uc.getLsbD 0 ^^ uc.getLsbD 1 ^^ uc.getLsbD 2 ^^ uc.getLsbD 3 ^^ uc.getLsbD 4 ^^
      uc.getLsbD 5 ^^ uc.getLsbD 6 ^^ uc.getLsbD 7) := by
  revert uc
  decide

section Hardware

variable {Dev V : Type}

/-- `cl_interrupt::write`. -/
def interruptWrite (c : Site) (val : TMem) (st : St V) : St V :=
  if c = .sfr Reg.TCON then
    { st with
      hw := { st.hw with bitIT0 := val &&& bmIT0 ≠ 0, bitIT1 := val &&& bmIT1 ≠ 0 } }
  else { st with hw := { st.hw with wasReti := true } }

/-- `cl_uc51_dummy_hw::write`. -/
def dummyWrite (c : Site) (val : TMem) (st : St V) : St V :=
  if c = acc then
    if parity (val.setWidth 8) then
      { st with mem := Function.update st.mem psw (st.mem psw ||| (bmP &&& 0xff)) }
    else { st with mem := Function.update st.mem psw (st.mem psw &&& ~~~(bmP &&& 0xff)) }
  else if c = .sfr Reg.SP then
    { st with
      hw :=
        { st.hw with
          spMax := if (val.toNat : Int) > st.hw.spMax then val.toNat else st.hw.spMax
          spAvg := (st.hw.spAvg + val.toNat).tdiv 2 } }
  else st

/-- The virtual functions of the elements. The interrupt logic and the dummy inherit `read`. -/
def Devices.hardware (D : Devices Dev V) : Hardware Site Site (CoreHw Dev) (HwState V) where
  cathegory
    | .device d => D.cathegory d
    | .interrupt => .interrupt
    | .dummy => .dummy
  read
    | .device d => D.read d
    | .interrupt | .dummy => fun c st => (st.mem c, st, [])
  write
    | .device d => D.write d
    | .interrupt => fun c val st => (val, interruptWrite c val st, [])
    | .dummy => fun c val st => (val, dummyWrite c val st, [])

/-- The elements registered on a cell. -/
def Devices.hws (D : Devices Dev V) (c : Site) : List (CoreHw Dev) :=
  (D.registered c).map .device ++
    (if c = .sfr Reg.IE ∨ c = .sfr Reg.TCON then [.interrupt] else []) ++
    (if c = acc ∨ c = .sfr Reg.SP then [.dummy] else [])

/-- The board without devices. -/
def noDevices : Devices Empty Unit where
  cathegory := Empty.elim
  registered _ := []
  read := Empty.elim
  write := Empty.elim
  tick _ st := (st, [])
  reset st := (st, [])
  registered_core _ _ := rfl
  registered_code _ _ _ := rfl
  read_fmap := fun d => d.elim
  read_bytes := fun d => d.elim
  write_bytes := fun d => d.elim
  tick_bytes _ _ h := h
  reset_bytes _ h := h
  read_reti := fun d => d.elim
  write_reti := fun d => d.elim
  tick_reti _ _ := rfl
  reset_reti _ := rfl

end Hardware

end Ucsim.S51
