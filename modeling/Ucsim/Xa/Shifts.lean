import Ucsim.Logic.Shifts
import Ucsim.Xa.Bits

/-!
# Shifts of the XA

ASL and ASR of bytes, words and double words, by a number in the instruction or in a register. The rows for
the register form fit no code, the sizes are compared with numbers that do not occur, and the number in the
instruction is taken from the number of the operand form.
-/

namespace Ucsim.Xa

open Logic Logic.Bits Logic.Shifts

/-! ## What the instructions should do -/

inductive Size
  | byte | word | dword
  deriving DecidableEq, Repr

def Size.width : Size → Nat
  | byte => 8
  | word => 16
  | dword => 32

/-- The bits S of an opcode. -/
def Size.bits : Size → BitVec 8
  | byte => 0
  | word => 0x8
  | dword => 0xc

/-- The content of a register. -/
def Size.value : (z : Size) → Machine → BitVec 16 → BitVec z.width
  | byte, s, index => s.byteReg index
  | word, s, index => s.wordReg index
  | dword, s, index => s.wordReg (index + 2) ++ s.wordReg index

/-- A shift. -/
structure ShiftOp where
  direction : Direction
  size : Size
  immediate : Bool
  deriving DecidableEq, Repr

namespace ShiftOp

variable (o : ShiftOp)

/-- The first byte of the opcode. -/
def firstByte : BitVec 8 :=
  (if o.immediate then 0xd0 else 0xc0) ||| o.size.bits |||
    match o.direction with
    | .left => 1
    | .right => 2

/-- The instruction is at PC. -/
def At (s : Machine) : Prop := s.romAt s.PC = o.firstByte

instance (s : Machine) : Decidable (o.At s) := inferInstanceAs (Decidable (_ = _))

/-- The register that is shifted. A double word by a number of 5 bits has 3 bits for it. -/
def register (code : BitVec 16) : BitVec 16 :=
  if o.immediate ∧ o.size = .dword then RI_F0 code &&& 0xe else RI_F0 code

/-- How far it is shifted. -/
def count (s : Machine) : Nat :=
  if o.immediate then
    if o.size = .dword then (s.bothCode &&& 0x1f).toNat else (s.bothCode &&& 0xf).toNat
  else (s.byteReg (RI_0F s.bothCode) &&& 0x1f).toNat

/-- The register of a code, C and Z. -/
def shifted (code : BitVec 16) (s : Machine) : Shifted o.size.width :=
  ⟨o.size.value s (o.register code), has s.psw BIT_C, has s.psw BIT_Z⟩

/-- The instruction does as much as shifts by one place. -/
def Right (s : Machine) : Prop :=
  o.shifted s.bothCode s.step = o.direction.one^[o.count s] (o.shifted s.bothCode s)

/-- When it does. -/
def Fits (s : Machine) : Prop :=
  let t := o.shifted s.bothCode s
  if o.immediate then
    if o.size = .byte then
      if o.count s = 0 then t = ⟨0, false, true⟩ else o.direction.moved t.value (o.count s - 1) = 0
    else o.count s = 0 ∧ t.carry = false ∧ t.zero = false
  else
    o.count s = 0 ∨ t = ⟨0, false, true⟩ ∨ o.direction = .right ∧ t = ⟨BitVec.allOnes _, true, false⟩

/-- The row of the table that is meant for the instruction. -/
def pattern : Pattern 16 DisEntry :=
  match o.immediate, o.size, o.direction with
  | true, .dword, .left => two 0xdd00 0xff00 2 .ASL .REG_DATA5
  | true, _, .left => two 0xd100 0xf700 2 .ASL .REG_DATA4
  | true, .dword, .right => two 0xde00 0xff00 2 .ASR .REG_DATA5
  | true, _, .right => two 0xd200 0xf700 2 .ASR .REG_DATA4
  | false, _, .left => two 0xc150 0xf300 2 .ASL .REG_REG
  | false, _, .right => two 0xc250 0xf300 2 .ASR .REG_REG

/-- How the bits of a byte are moved, in an `unsigned int`. -/
def move (cnt : Nat) (dst : BitVec 32) : BitVec 32 :=
  match o.direction with
  | .left => dst <<< cnt
  | .right => dst >>> cnt

/-- What goes to C when the number is in the instruction. -/
def carry (cnt : Nat) (dst : BitVec 32) : Bool :=
  match o.direction with
  | .left => (dst <<< cnt).getLsbD 8
  | .right => (cnt ≠ 0 && dst.getLsbD (cnt - 1)) || false

end ShiftOp

/-! ## Decoding -/

section Decoding

variable {o : ShiftOp} {s : Machine}

/-- The first byte in the upper half of a code. -/
theorem firstCode_and (s : Machine) : s.firstCode &&& 0xff00 = s.romAt s.PC ++ (0 : BitVec 8) := by
  have hbyte : ∀ h : BitVec 8, (h ++ (0 : BitVec 8) : BitVec 16) &&& (0xff00 : BitVec 16) = h ++ (0 : BitVec 8) := by decide
  exact hbyte _

theorem low_and_upper (l : BitVec 8) : l.setWidth 16 &&& (0xff00 : BitVec 16) = 0 := by
  revert l
  decide

theorem bothCode_and (s : Machine) : s.bothCode &&& 0xff00 = s.romAt s.PC ++ (0 : BitVec 8) := by
  rw [Machine.bothCode, BitVec.and_or_distrib_right, firstCode_and, low_and_upper]
  exact BitVec.or_zero

/-- No first byte of a shift is a code of its own, and the other rows are for other first bytes. -/
theorem firstByte_rows (o : ShiftOp) :
    disass_xa1.filter (Pattern.meets 0xff00 (o.firstByte ++ (0 : BitVec 8))) = [] ∧
      disass_xa.filter (Pattern.meets 0xff00 (o.firstByte ++ (0 : BitVec 8))) = [o.pattern] := by
  obtain ⟨d, z, i⟩ := o
  cases d <;> cases z <;> cases i <;> decide +kernel

theorem find_one (h : o.At s) : Pattern.find disass_xa1 s.firstCode = none := by
  have hcode := firstCode_and s
  rw [show s.romAt s.PC = o.firstByte from h] at hcode
  exact Pattern.find_none_of_filter hcode (firstByte_rows o).1

/-- The mask of the rows for the register form leaves out bits that their value has. -/
theorem decoded_register (h : o.At s) (himm : o.immediate = false) : s.decoded = none := by
  have hcode := bothCode_and s
  rw [show s.romAt s.PC = o.firstByte from h] at hcode
  have hnever : ∀ code : BitVec 16, ¬ o.pattern.fits code := by
    intro code hfit
    have hvalue : o.pattern.value &&& ~~~o.pattern.mask = 0 := by
      have hfit : code &&& o.pattern.mask = o.pattern.value := of_decide_eq_true hfit
      rw [← hfit, BitVec.and_assoc, BitVec.and_not_self]
      exact BitVec.and_zero
    have hbits : o.pattern.value &&& ~~~o.pattern.mask ≠ 0 := by
      obtain ⟨d, z, i⟩ := o
      obtain rfl : i = false := himm
      cases d <;> cases z <;> decide
    exact hbits hvalue
  have hfind : Pattern.find disass_xa s.bothCode = none := by
    rw [Pattern.find_filter hcode, (firstByte_rows o).2, Pattern.find_cons_of_not_fits (hnever _)]
    rfl
  unfold Machine.decoded
  rw [decode_eq, find_one h, hfind]
  rfl

theorem decoded_immediate (h : o.At s) (himm : o.immediate = true) :
    s.decoded = some (s.bothCode, o.pattern.body) := by
  have hcode := bothCode_and s
  rw [show s.romAt s.PC = o.firstByte from h] at hcode
  have hcovers : o.pattern.Covers 0xff00 (o.firstByte ++ (0 : BitVec 8)) := by
    obtain ⟨d, z, i⟩ := o
    obtain rfl : i = true := himm
    cases d <;> cases z <;> decide
  unfold Machine.decoded
  rw [decode_eq, find_one h, Pattern.find_of_first hcode (firstByte_rows o).2 hcovers]
  rfl

end Decoding

/-! ## Registers and flags -/

section Registers

variable {o : ShiftOp} {s t : Machine}

/-- Registers are behind the special function registers. -/
theorem registers_above {index : BitVec 16} (h : index.toNat < 0x100) : 0x800 ≤ (REGS_OFFSET + index).toNat := by
  have hoffset : REGS_OFFSET.toNat = 0x800 := rfl
  rw [BitVec.toNat_add, hoffset]
  omega

theorem RI_F0_toNat (code : BitVec 16) : (RI_F0 code).toNat ≤ 15 := by
  rw [RI_F0, BitVec.toNat_and]
  exact Nat.and_le_right

theorem register_toNat (o : ShiftOp) (code : BitVec 16) : (o.register code).toNat ≤ 15 := by
  unfold ShiftOp.register
  split
  · rw [BitVec.toNat_and]
    exact Nat.and_le_left.trans (RI_F0_toNat code)
  · exact RI_F0_toNat code

theorem byteReg_congr (h : ∀ addr : BitVec 16, 0x800 ≤ addr.toNat → t.sfr addr = s.sfr addr) {index : BitVec 16}
    (hindex : index.toNat < 0x100) : t.byteReg index = s.byteReg index := h _ (registers_above hindex)

theorem wordReg_congr (h : ∀ addr : BitVec 16, 0x800 ≤ addr.toNat → t.sfr addr = s.sfr addr) {index : BitVec 16}
    (hindex : index.toNat < 0x40) : t.wordReg index = s.wordReg index := by
  have hdouble : (index <<< 1).toNat = index.toNat * 2 := by
    rw [BitVec.toNat_shiftLeft, Nat.shiftLeft_eq]
    omega
  have hnext : REGS_OFFSET + index <<< 1 + (1 : BitVec 16) = REGS_OFFSET + (index <<< 1 + (1 : BitVec 16)) :=
    BitVec.add_assoc ..
  have hodd : (index <<< 1 + (1 : BitVec 16)).toNat = index.toNat * 2 + 1 := by
    have hone : (1 : BitVec 16).toNat = 1 := rfl
    rw [BitVec.toNat_add, hdouble, hone]
    omega
  unfold Machine.wordReg Machine.direct2
  rw [hnext, h _ (registers_above (by omega)), h _ (registers_above (by omega))]

/-- What a shift finds in its register. -/
theorem value_congr (h : ∀ addr : BitVec 16, 0x800 ≤ addr.toNat → t.sfr addr = s.sfr addr) (z : Size)
    {index : BitVec 16} (hindex : index.toNat ≤ 15) : z.value t index = z.value s index := by
  have htwo : (2 : BitVec 16).toNat = 2 := rfl
  have hnext : (index + 2).toNat < 0x40 := by
    rw [BitVec.toNat_add, htwo]
    omega
  cases z with
  | byte => exact byteReg_congr h (by omega)
  | word => exact wordReg_congr h (by omega)
  | dword => exact congrArg₂ (· ++ ·) (wordReg_congr h hnext) (wordReg_congr h (by omega))

theorem set_psw_sfr (t : Machine) (flags : BitVec 8) (addr : BitVec 16) (h : 0x800 ≤ addr.toNat) :
    ((set_psw flags).run t).2.sfr addr = t.sfr addr := by
  have hsfr : ((set_psw flags).run t).2 =
      (t.setDirect PSW (low (flags.setWidth 16))).setDirect (PSW + 1) (high (flags.setWidth 16)) := rfl
  have hpsw : addr ≠ PSW := fun heq => by
    rw [heq] at h
    exact absurd h (by decide)
  have hnext : addr ≠ PSW + 1 := fun heq => by
    rw [heq] at h
    exact absurd h (by decide)
  rw [hsfr, Machine.setDirect_of_ne _ hnext, Machine.setDirect_of_ne _ hpsw]

/-- C and Z are the bits that have been put in when the flags are clear. -/
theorem shift_flags (z c : Bool) (flags : BitVec 8) :
    has (orIf (z = true) BIT_Z (orIf (c = true) BIT_C (flags &&& ~~~BIT_ALL))) BIT_C = c ∧
      has (orIf (z = true) BIT_Z (orIf (c = true) BIT_C (flags &&& ~~~BIT_ALL))) BIT_Z = z := by
  revert z c flags
  decide +kernel

end Registers

/-! ## The instructions -/

section Instructions

variable {o : ShiftOp} {s t : Machine}

/-- The register form does nothing. -/
theorem shifted_register (h : o.At s) (himm : o.immediate = false) (code : BitVec 16) :
    o.shifted code s.step = o.shifted code s := by
  have hsfr : s.step.sfr = s.sfr := by
    rw [step_undecoded (decoded_register h himm)]
    exact (fetched_data s).1
  unfold ShiftOp.shifted
  rw [psw_congr hsfr, value_congr (fun addr _ => congrFun hsfr addr) _ (register_toNat o code)]

variable {code : BitVec 16}

section Runs

variable (count : Prog Nat) (move : Nat → BitVec 32 → BitVec 32) (carry : Nat → BitVec 32 → Bool)

theorem shift_wide (h : code &&& 0xc00 ≠ 0) (t : Machine) :
    ((shift count code move carry).run t).2 = ((set_psw (t.psw &&& ~~~BIT_ALL)).run t).2 := by
  unfold shift
  rw [run_bind_of (get_psw_run t)]
  dsimp only
  rw [if_neg h]

theorem shift_byte (n : Nat) (h : code &&& 0xc00 = 0) (t : Machine) :
    ((shift (return n) code move carry).run t).2 =
      ((set_psw (orIf (move n ((t.byteReg (RI_F0 code)).setWidth 32) &&& 0xff = 0) BIT_Z
          (orIf (carry n ((t.byteReg (RI_F0 code)).setWidth 32)) BIT_C (t.psw &&& ~~~BIT_ALL)))).run
        (t.setDirect (REGS_OFFSET + RI_F0 code) ((move n ((t.byteReg (RI_F0 code)).setWidth 32)).setWidth 8))).2 := by
  unfold shift
  rw [run_bind_of (get_psw_run t)]
  dsimp only
  rw [if_pos h]
  rfl

end Runs

variable (code) in
/-- The count of a byte is 12, from the number of `REG_DATA4`. -/
theorem inst_immediate (himm : o.immediate = true) : ∃ n, (o.size = .byte → n = 12) ∧
    inst code o.pattern.body.operands o.pattern.body.mnemonic = go (shift (return n) code o.move o.carry) := by
  obtain ⟨d, z, i⟩ := o
  obtain rfl : i = true := himm
  cases d <;> cases z
  case left.dword => exact ⟨13, nofun, rfl⟩
  case right.dword => exact ⟨13, nofun, rfl⟩
  all_goals exact ⟨12, fun _ => rfl, rfl⟩

/-- The bits of the size are compared with 0. -/
theorem size_bits (h : o.At s) (himm : o.immediate = true) : s.bothCode &&& 0xc00 = 0 ↔ o.size = .byte := by
  have hupper : s.bothCode &&& 0xc00 = (o.firstByte ++ (0 : BitVec 8) : BitVec 16) &&& 0xc00 := by
    have hcode := bothCode_and s
    rw [show s.romAt s.PC = o.firstByte from h] at hcode
    rw [← hcode, BitVec.and_assoc]
    rfl
  rw [hupper]
  obtain ⟨d, z, i⟩ := o
  obtain rfl : i = true := himm
  cases d <;> cases z <;> decide

/-- Only C and Z of wider registers are changed. -/
theorem shifted_wide (h : o.At s) (himm : o.immediate = true) (hsize : o.size ≠ .byte) :
    o.shifted s.bothCode s.step = ⟨(o.shifted s.bothCode s).value, false, false⟩ := by
  have hflags : ∀ flags : BitVec 8, has (flags &&& ~~~BIT_ALL) BIT_C = false ∧ has (flags &&& ~~~BIT_ALL) BIT_Z = false := by
    decide
  obtain ⟨n, -, hinst⟩ := inst_immediate s.bothCode himm
  have hstep : s.step = ((set_psw (s.psw &&& ~~~BIT_ALL)).run s.fetched).2 := by
    rw [step_eq (decoded_immediate h himm), hinst, go_run, shift_wide _ _ _ (mt (size_bits h himm).mp hsize),
      psw_congr (fetched_data s).1]
  have hpsw : s.step.psw = s.psw &&& ~~~BIT_ALL := by rw [hstep, set_psw_psw]
  have hregs (addr : BitVec 16) (haddr : 0x800 ≤ addr.toNat) : s.step.sfr addr = s.sfr addr := by
    rw [hstep, set_psw_sfr _ _ _ haddr, (fetched_data s).1]
  unfold ShiftOp.shifted
  rw [hpsw, (hflags _).1, (hflags _).2, value_congr hregs _ (register_toNat o _)]

/-- Twelve places are too many for a byte. -/
theorem moved_away (o : ShiftOp) (b : BitVec 8) :
    (o.move 12 (b.setWidth 32)).setWidth 8 = (0 : BitVec 8) ∧ o.move 12 (b.setWidth 32) &&& 0xff = 0 ∧
      o.carry 12 (b.setWidth 32) = false := by
  unfold ShiftOp.move ShiftOp.carry
  cases o.direction with
  | left =>
    dsimp only
    revert b
    decide
  | right =>
    dsimp only
    revert b
    decide

/-- A byte is shifted by 12. -/
theorem shifted_byte (h : o.At s) (himm : o.immediate = true) (hsize : o.size = .byte) :
    o.shifted s.bothCode s.step = ⟨0, false, true⟩ := by
  obtain ⟨n, hn, hinst⟩ := inst_immediate s.bothCode himm
  obtain rfl := hn hsize
  obtain ⟨hvalue, hzero, hcarry⟩ := moved_away o (s.fetched.byteReg (RI_F0 s.bothCode))
  have hstep := step_eq (decoded_immediate h himm)
  rw [hinst, go_run, shift_byte _ _ _ ((size_bits h himm).mpr hsize), hvalue, hcarry] at hstep
  generalize hflags : orIf (o.move 12 ((s.fetched.byteReg (RI_F0 s.bothCode)).setWidth 32) &&& 0xff = 0) BIT_Z
    (orIf (false = true) BIT_C (s.fetched.psw &&& ~~~BIT_ALL)) = flags at hstep
  have hpsw : s.step.psw = flags := by rw [hstep, set_psw_psw]
  have hC : has flags BIT_C = false ∧ has flags BIT_Z = true := by
    rw [← hflags, orIf, if_pos hzero]
    exact shift_flags true false s.fetched.psw
  have hreg : s.step.byteReg (RI_F0 s.bothCode) = 0 := by
    have habove := registers_above (Nat.lt_of_le_of_lt (RI_F0_toNat s.bothCode) (by decide))
    rw [hstep, Machine.byteReg, Machine.direct1, set_psw_sfr _ _ _ habove, Machine.setDirect_self]
  obtain ⟨d, z, i⟩ := o
  obtain rfl : z = .byte := hsize
  have hregister : ShiftOp.register ⟨d, .byte, i⟩ s.bothCode = RI_F0 s.bothCode := if_neg fun hc => by cases hc.2
  unfold ShiftOp.shifted
  rw [hpsw, hC.1, hC.2, hregister]
  exact congrArg (fun v => (⟨v, false, true⟩ : Shifted 8)) hreg

theorem width_pos (z : Size) : 0 < z.width := by
  cases z <;> decide

/-- The register form, and words and double words, are right only where nothing has to be done; bytes only
where they become 0. -/
theorem multi_shift_iff (h : o.At s) :
    (o.Right s ↔ o.Fits s) ∧
      (o.count s = 0 → ((o.shifted s.bothCode s.step).value = (o.shifted s.bothCode s).value ↔
        (o.immediate = true → o.size = .byte → (o.shifted s.bothCode s).value = 0))) := by
  unfold ShiftOp.Right ShiftOp.Fits
  cases himm : o.immediate with
  | false =>
    rw [shifted_register h himm]
    refine ⟨?_, fun _ => iff_of_true rfl nofun⟩
    exact eq_comm.trans (Direction.iterate_self_iff (width_pos _))
  | true =>
    by_cases hsize : o.size = .byte
    · rw [shifted_byte h himm hsize, if_pos rfl, if_pos hsize]
      refine ⟨eq_comm.trans Direction.iterate_eq_zero_iff, fun _ => ?_⟩
      exact ⟨fun heq _ _ => heq.symm, fun hzero => (hzero rfl hsize).symm⟩
    · rw [shifted_wide h himm hsize, if_pos rfl, if_neg hsize]
      refine ⟨eq_comm.trans (Direction.iterate_same_value_iff (width_pos _)), fun _ => ?_⟩
      exact iff_of_true rfl fun _ hbyte => absurd hbyte hsize

end Instructions

/-- `ASL` of the first byte register, in which `v` is, at 0x100. -/
def shiftMachine (second v : BitVec 8) : Machine where
  sfr := fun a => if a = 0x800 then v else 0
  iram := ⟨fun _ => 0, fun _ => 0⟩
  xram := ⟨fun _ => 0, fun _ => 0⟩
  rom := ⟨fun a => if a = 0x100 then 0xd1 else if a = 0x101 then second else 0, fun _ => 0⟩
  PC := 0x100
  ticks := 0
  out := []

/-- 0x80 by 2. -/
theorem asl_80_2 : ShiftOp.Right ⟨.left, .byte, true⟩ (shiftMachine 0x02 0x80) := by
  have hcount : ShiftOp.count ⟨.left, .byte, true⟩ (shiftMachine 0x02 0x80) = 2 := by decide +kernel
  have hfits : ShiftOp.Fits ⟨.left, .byte, true⟩ (shiftMachine 0x02 0x80) := by
    unfold ShiftOp.Fits
    rw [if_pos rfl, if_pos rfl, hcount, if_neg (by decide)]
    decide +kernel
  exact (multi_shift_iff (o := ⟨.left, .byte, true⟩) (s := shiftMachine 0x02 0x80) rfl).1.mpr hfits

/-- 1 by 1 is 0. -/
theorem asl_01_1 : ShiftOp.At ⟨.left, .byte, true⟩ (shiftMachine 0x01 0x01) ∧
    (shiftMachine 0x01 0x01).step.byteReg 0 = 0 ∧ ¬ ShiftOp.Right ⟨.left, .byte, true⟩ (shiftMachine 0x01 0x01) := by
  have hat : ShiftOp.At ⟨.left, .byte, true⟩ (shiftMachine 0x01 0x01) := rfl
  have hreg : (shiftMachine 0x01 0x01).step.byteReg 0 = 0 := congrArg Shifted.value (shifted_byte hat rfl rfl)
  refine ⟨hat, hreg, fun h => ?_⟩
  have hvalue : (shiftMachine 0x01 0x01).step.byteReg 0 = 2 := congrArg Shifted.value h
  rw [hreg] at hvalue
  exact absurd hvalue (by decide)

end Ucsim.Xa
