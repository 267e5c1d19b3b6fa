import Ucsim.Logic.Digits
import Ucsim.Z80.Bits

/-!
# Arithmetic on several bytes

Chains of `ADD` and `ADC`, `SUB` and `SBC`, and of `ADC` and `SBC` with HL, with loads, stores and 16-bit counts in between.
`CP` beside `SUB`.
-/

namespace Ucsim.Z80

open Logic Logic.Digits

/-! ## Operands -/

/-- The operations on A. -/
inductive Alu
  | ADD | ADC | SUB | SBC | CP
  deriving DecidableEq, Repr

/-- Where the operand comes from: a register or (HL), the next byte, half of an index register, or behind a displacement. -/
inductive Source
  | named (r : Operand)
  | imm
  | high (x : Xd)
  | low (x : Xd)
  | indexed (x : Xd)
  deriving DecidableEq, Repr

/-- The code of the first operand. -/
def Alu.base : Alu → Nat
  | ADD => 0x80
  | ADC => 0x88
  | SUB => 0x90
  | SBC => 0x98
  | CP => 0xB8

def Alu.op : Alu → BitVec 8 → Regs → Regs
  | ADD => add_A_bytereg
  | ADC => adc_A_bytereg
  | SUB => sub_A_bytereg
  | SBC => sbc_A_bytereg
  | CP => cp_bytereg

/-- The instruction at PC. -/
def Alu.At (op : Alu) (s : Machine) : Source → Prop
  | .named r => s.next = BitVec.ofNat 8 (op.base + r.number)
  | .imm => s.next = BitVec.ofNat 8 (op.base + 0x46)
  | .high x => s.next = x.code ∧ s.skip.next = BitVec.ofNat 8 (op.base + 4)
  | .low x => s.next = x.code ∧ s.skip.next = BitVec.ofNat 8 (op.base + 5)
  | .indexed x => s.next = x.code ∧ s.skip.next = BitVec.ofNat 8 (op.base + 6)

def Source.value (s : Machine) : Source → BitVec 8
  | named r => r.get s
  | imm => s.skip.next
  | high x => s.regs.byte x.index.h
  | low x => s.regs.byte x.index.l
  | indexed x => s.ram (add_u16_disp (s.regs.word x.index.w) s.skip.skip.next)

theorem step_Xd {x : Xd} {s : Machine} (h : s.next = x.code) :
    s.step = ((dispatchXd x.index s.skip.next).run s.skip.skip.ticked).2 := by
  rw [step_eq h]
  cases x <;> rfl

theorem alu_regs {op : Alu} {x : Source} {s : Machine} (h : op.At s x) :
    s.step.regs = if op = .SUB ∧ x = .named .A then { s.regs with A := 0 } else op.op (x.value s) s.regs := by
  cases x with
  | named r =>
    rw [step_eq h]
    cases op <;> cases r <;> rfl
  | imm =>
    rw [step_eq h]
    cases op <;> rfl
  | high x =>
    rw [step_Xd h.1, h.2]
    cases op <;> cases x <;> rfl
  | low x =>
    rw [step_Xd h.1, h.2]
    cases op <;> cases x <;> rfl
  | indexed x =>
    rw [step_Xd h.1, h.2]
    cases op <;> cases x <;> rfl

/-! ## Flags -/

def Regs.carry (g : Regs) : Bool := decide (g.F &&& BIT_C ≠ 0)

def Machine.carry (s : Machine) : Bool := s.regs.carry

theorem and_BIT_C (F : BitVec 8) : decide (F &&& BIT_C ≠ 0) = F.getLsbD 0 := by decide +revert

theorem carry_eq (g : Regs) : g.carry = g.F.getLsbD 0 := and_BIT_C g.F

theorem orIf_other (c : Prop) [Decidable c] {bits : BitVec 8} (hbits : bits.getLsbD 0 = false) (F : BitVec 8) :
    (orIf c bits F).getLsbD 0 = F.getLsbD 0 := by
  unfold orIf
  split
  · rw [BitVec.getLsbD_or, hbits, Bool.or_false]
  · rfl

theorem orIf_C (c : Prop) [Decidable c] {bits : BitVec 8} (hbits : bits.getLsbD 0 = true) (F : BitVec 8) :
    (orIf c bits (F &&& ~~~BIT_ALL)).getLsbD 0 = decide c := by
  have hclear : (F &&& ~~~BIT_ALL).getLsbD 0 = false := by
    rw [BitVec.getLsbD_and]
    exact Bool.and_false _
  unfold orIf
  split
  · next hc => rw [BitVec.getLsbD_or, hbits, Bool.or_true, decide_eq_true hc]
  · next hc => rw [hclear, decide_eq_false hc]

theorem orZS_C (v F : BitVec 8) : (orZS v F).getLsbD 0 = F.getLsbD 0 := by
  rw [orZS, orIf_other _ rfl, orIf_other _ rfl]

theorem or_N_C (F : BitVec 8) : (F ||| BIT_N).getLsbD 0 = F.getLsbD 0 := by
  rw [BitVec.getLsbD_or]
  exact Bool.or_false _

/-! ## Digits -/

section Wide

variable {w : Nat} (hw : w < 31) (x y : BitVec w) (c : Bool)

/-- The sum in an `int`. -/
def wideSum : BitVec 32 := if c then x.setWidth 32 + y.setWidth 32 + 1 else x.setWidth 32 + y.setWidth 32

/-- The difference in an `int`. -/
def wideDifference : BitVec 32 := if c then x.setWidth 32 - y.setWidth 32 - 1 else x.setWidth 32 - y.setWidth 32

include hw

theorem two_pow_small : 2 ^ w ≤ 2 ^ 30 := Nat.pow_le_pow_right (by decide) (by omega)

theorem wide_toNat : (x.setWidth 32).toNat = x.toNat := BitVec.toNat_setWidth_of_le (by omega)

theorem wideSum_toNat : (wideSum x y c).toNat = x.toNat + y.toNat + c.toNat := by
  have hx := x.isLt
  have hy := y.isLt
  have hpow := two_pow_small hw
  have hx32 := wide_toNat hw x
  have hy32 := wide_toNat hw y
  cases c with
  | false =>
    simp only [wideSum, Bool.false_eq_true, if_false, BitVec.toNat_add, hx32, hy32, Bool.toNat_false]
    omega
  | true =>
    simp only [wideSum, if_true, BitVec.toNat_add, hx32, hy32, Bool.toNat_true]
    have hone : (1 : BitVec 32).toNat = 1 := rfl
    omega

theorem wideSum_digit : (wideSum x y c).setWidth w = (sum x y c).1 := by
  apply BitVec.eq_of_toNat_eq
  rw [BitVec.toNat_setWidth, wideSum_toNat hw]
  simp [sum, BitVec.toNat_add]

theorem wideSum_carry {m : BitVec 32} (hm : m.toNat + 1 = 2 ^ w) : decide (m < wideSum x y c) = (sum x y c).2 := by
  refine decide_eq_decide.mpr ?_
  rw [BitVec.lt_def, wideSum_toNat hw]
  omega

/-- A difference below 0 is large. -/
theorem wideDifference_toNat : (wideDifference x y c).toNat =
    if x.toNat < y.toNat + c.toNat then 2 ^ 32 + x.toNat - (y.toNat + c.toNat) else x.toNat - (y.toNat + c.toNat) := by
  have hx := x.isLt
  have hy := y.isLt
  have hpow := two_pow_small hw
  have hx32 := wide_toNat hw x
  have hy32 := wide_toNat hw y
  cases c with
  | false =>
    simp only [wideDifference, Bool.false_eq_true, if_false, BitVec.toNat_sub, hx32, hy32, Bool.toNat_false]
    split_ifs <;> omega
  | true =>
    simp only [wideDifference, if_true, BitVec.toNat_sub, hx32, hy32, Bool.toNat_true]
    have hone : (1 : BitVec 32).toNat = 1 := rfl
    split_ifs <;> omega

theorem wideDifference_digit : (wideDifference x y c).setWidth w = (difference x y c).1 := by
  have hsub (x y : BitVec 32) : (x - y).setWidth w = x.setWidth w - y.setWidth w := by
    rw [BitVec.sub_eq_add_neg, BitVec.setWidth_add _ _ (by omega), BitVec.setWidth_neg_of_le (by omega),
      ← BitVec.sub_eq_add_neg]
  have hback (x : BitVec w) : (x.setWidth 32).setWidth w = x := by
    rw [BitVec.setWidth_setWidth_of_le _ (by omega), BitVec.setWidth_eq]
  cases c with
  | false => simp [wideDifference, difference, hsub, hback]
  | true =>
    have hone : (1#32).setWidth w = 1#w := by
      apply BitVec.eq_of_toNat_eq
      simp
    simp [wideDifference, difference, hsub, hback, hone]

theorem wideDifference_borrow {m : BitVec 32} (hm : m.toNat + 1 = 2 ^ w) :
    decide (m < wideDifference x y c) = (difference x y c).2 := by
  have hx := x.isLt
  have hy := y.isLt
  have hc := c.toNat_le
  have hpow := two_pow_small hw
  refine decide_eq_decide.mpr ?_
  rw [BitVec.lt_def, wideDifference_toNat hw]
  split_ifs <;> omega

end Wide

/-- The test of C. -/
theorem if_carry {α : Type} (g : Regs) (a b : α) : (if g.F &&& BIT_C ≠ 0 then a else b) = if g.carry then a else b := by
  simp [Regs.carry]

variable (g : Regs)

/-! ### Bytes -/

theorem add_digits (x : BitVec 8) : (add_A_bytereg x g).A = (sum g.A x false).1 ∧
    (add_A_bytereg x g).carry = (sum g.A x false).2 := by
  constructor
  · exact wideSum_digit (by decide) g.A x false
  · rw [carry_eq, add_A_bytereg]
    dsimp only
    rw [orZS_C, orIf_C _ rfl]
    exact wideSum_carry (by decide) g.A x false rfl

theorem adc_digits (x : BitVec 8) : (adc_A_bytereg x g).A = (sum g.A x g.carry).1 ∧
    (adc_A_bytereg x g).carry = (sum g.A x g.carry).2 := by
  rw [carry_eq (adc_A_bytereg x g), adc_A_bytereg]
  dsimp only
  rw [if_carry, orZS_C, orIf_C _ rfl]
  exact ⟨wideSum_digit (by decide) g.A x g.carry, wideSum_carry (by decide) g.A x g.carry rfl⟩

theorem sub_digits (x : BitVec 8) : (sub_A_bytereg x g).A = (difference g.A x false).1 ∧
    (sub_A_bytereg x g).carry = (difference g.A x false).2 := by
  constructor
  · simp [sub_A_bytereg, difference]
  · rw [carry_eq, sub_A_bytereg]
    dsimp only
    rw [orZS_C, or_N_C, orIf_C _ rfl]
    simp [difference, BitVec.lt_def]

theorem sbc_digits (x : BitVec 8) : (sbc_A_bytereg x g).A = (difference g.A x g.carry).1 ∧
    (sbc_A_bytereg x g).carry = (difference g.A x g.carry).2 := by
  rw [carry_eq (sbc_A_bytereg x g), sbc_A_bytereg]
  dsimp only
  rw [if_carry, or_N_C, orZS_C, orIf_C _ rfl]
  exact ⟨wideDifference_digit (by decide) g.A x g.carry, wideDifference_borrow (by decide) g.A x g.carry rfl⟩

/-! ### Words -/

theorem adc_HL_digits (x : BitVec 16) : (adc_HL_wordreg x g).HL.word = (sum g.HL.word x g.carry).1 ∧
    (adc_HL_wordreg x g).carry = (sum g.HL.word x g.carry).2 := by
  rw [carry_eq (adc_HL_wordreg x g), adc_HL_wordreg]
  dsimp only
  rw [if_carry, orIf_other _ rfl, orIf_other _ rfl, orIf_C _ rfl, RegPair.word_ofWord]
  exact ⟨wideSum_digit (by decide) g.HL.word x g.carry, wideSum_carry (by decide) g.HL.word x g.carry rfl⟩

theorem sbc_HL_digits (x : BitVec 16) : (sbc_HL_wordreg x g).HL.word = (difference g.HL.word x g.carry).1 ∧
    (sbc_HL_wordreg x g).carry = (difference g.HL.word x g.carry).2 := by
  rw [carry_eq (sbc_HL_wordreg x g), sbc_HL_wordreg]
  dsimp only
  rw [if_carry, or_N_C, orIf_other _ rfl, orIf_other _ rfl, orIf_C _ rfl, RegPair.word_ofWord]
  exact ⟨wideDifference_digit (by decide) g.HL.word x g.carry,
    wideDifference_borrow (by decide) g.HL.word x g.carry rfl⟩

/-! ## Between the instructions -/

/-- The loads and stores, and the counts of 16 bits. -/
def loadOps : List Nat :=
  [0x01, 0x02, 0x03, 0x06, 0x0A, 0x0B, 0x0E, 0x11, 0x12, 0x13, 0x16, 0x1A, 0x1B, 0x1E, 0x21, 0x22, 0x23, 0x26, 0x2A,
    0x2B, 0x2E, 0x31, 0x32, 0x33, 0x36, 0x3A, 0x3B, 0x3E, 0x40, 0x41, 0x42, 0x43, 0x44, 0x45, 0x46, 0x47, 0x48, 0x49,
    0x4A, 0x4B, 0x4C, 0x4D, 0x4E, 0x4F, 0x50, 0x51, 0x52, 0x53, 0x54, 0x55, 0x56, 0x57, 0x58, 0x59, 0x5A, 0x5B, 0x5C,
    0x5D, 0x5E, 0x5F, 0x60, 0x61, 0x62, 0x63, 0x64, 0x65, 0x66, 0x67, 0x68, 0x69, 0x6A, 0x6B, 0x6C, 0x6D, 0x6E, 0x6F,
    0x70, 0x71, 0x72, 0x73, 0x74, 0x75, 0x77, 0x78, 0x79, 0x7A, 0x7B, 0x7C, 0x7D, 0x7E, 0x7F, 0xF9]

/-- Those behind DD and FD. -/
def xdLoadOps : List Nat :=
  [0x21, 0x22, 0x23, 0x26, 0x2A, 0x2B, 0x2E, 0x36, 0x44, 0x45, 0x46, 0x4C, 0x4D, 0x4E, 0x54, 0x55, 0x56, 0x5C, 0x5D,
    0x5E, 0x60, 0x61, 0x62, 0x63, 0x64, 0x66, 0x67, 0x68, 0x69, 0x6A, 0x6B, 0x6C, 0x6D, 0x6E, 0x6F, 0x70, 0x71, 0x72,
    0x73, 0x74, 0x75, 0x77, 0x7C, 0x7D, 0x7E, 0xF9]

/-- Those behind ED. -/
def edLoadOps : List Nat := [0x43, 0x47, 0x4B, 0x53, 0x57, 0x5B, 0x63, 0x6B, 0x73, 0x7B]

/-- A load, a store or a count of 16 bits is at PC. -/
def Machine.Loads (s : Machine) : Prop :=
  s.next.toNat ∈ loadOps ∨ (∃ x : Xd, s.next = x.code ∧ s.skip.next.toNat ∈ xdLoadOps) ∨
    s.next = 0xED ∧ s.skip.next.toNat ∈ edLoadOps

theorem load_F {code : BitVec 8} (hcode : code.toNat ∈ loadOps) (s : Machine) :
    ((dispatch code).run s).2.regs.F = s.regs.F := by
  revert s
  refine forall_code (P := fun code => ∀ s, ((dispatch code).run s).2.regs.F = s.regs.F) ?_ hcode
  repeat' (first | exact List.forall_mem_nil _ | refine List.forall_mem_cons.mpr ⟨fun _ => rfl, ?_⟩)

theorem xdLoad_F (X : Index) (hX : X = .IX ∨ X = .IY) {code : BitVec 8} (hcode : code.toNat ∈ xdLoadOps) (s : Machine) :
    ((dispatchXd X code).run s).2.regs.F = s.regs.F := by
  revert s
  refine forall_code (P := fun code => ∀ s, ((dispatchXd X code).run s).2.regs.F = s.regs.F) ?_ hcode
  rcases hX with rfl | rfl <;>
    repeat' (first | exact List.forall_mem_nil _ | refine List.forall_mem_cons.mpr ⟨fun _ => rfl, ?_⟩)

theorem edLoad_F {code : BitVec 8} (hcode : code.toNat ∈ edLoadOps) (s : Machine) :
    (s.ed code).regs.F = s.regs.F := by
  revert s
  refine forall_code (P := fun code => ∀ s : Machine, (s.ed code).regs.F = s.regs.F) ?_ hcode
  repeat' (first | exact List.forall_mem_nil _ | refine List.forall_mem_cons.mpr ⟨fun _ => rfl, ?_⟩)

theorem Machine.Loads.carry {s : Machine} (h : s.Loads) : s.step.carry = s.carry := by
  have hF : s.step.regs.F = s.regs.F := by
    rcases h with hcode | ⟨x, hx, hcode⟩ | ⟨hED, hcode⟩
    · rw [step_eq rfl]
      exact load_F hcode _
    · rw [step_Xd hx]
      exact xdLoad_F x.index (by cases x <;> simp [Xd.index]) hcode _
    · rw [step_eq hED]
      exact edLoad_F hcode s.skip.skip.ticked
  rw [Machine.carry, Regs.carry, hF]
  rfl

/-! ## Chains -/

/-- One instruction of a chain: its code, its operands and its result. -/
structure Limb (w : Nat) where
  code : BitVec 8
  x : BitVec w
  y : BitVec w
  r : BitVec w

/-- The instructions of a chain. `At` says whether one is at PC, with its operand, as the first one or a later one. -/
structure Family (w : Nat) where
  At : Bool → Machine → BitVec w → Prop
  acc : Machine → BitVec w

/-- A program goes through the digits of two numbers. Before the first instruction of the chain the flag is set. -/
inductive Chain {w : Nat} (f : Family w) : Bool → Machine → List (Limb w) → Machine → Prop
  | nil (first : Bool) (s : Machine) : Chain f first s [] s
  | load {first : Bool} {s t : Machine} {l : List (Limb w)} (hload : s.Loads) (h : Chain f first s.step l t) :
      Chain f first s l t
  | cons {first : Bool} {s t : Machine} {l : List (Limb w)} {y : BitVec w} (hat : f.At first s y)
      (h : Chain f false s.step l t) : Chain f first s (⟨s.next, f.acc s, y, f.acc s.step⟩ :: l) t

variable {w : Nat}

/-- The first operands, the second ones and the results. -/
def firsts (l : List (Limb w)) : List (BitVec w) := l.map Limb.x

def seconds (l : List (Limb w)) : List (BitVec w) := l.map Limb.y

def outcomes (l : List (Limb w)) : List (BitVec w) := l.map Limb.r

def pairs (l : List (Limb w)) : List (BitVec w × BitVec w) := l.map fun p => (p.x, p.y)

/-- Later instructions that work on digits and C do so along the chain. -/
theorem Chain.ripple {f : Family w} {op : BitVec w → BitVec w → Bool → BitVec w × Bool}
    (hstep : ∀ s y, f.At false s y → f.acc s.step = (op (f.acc s) y s.carry).1 ∧ s.step.carry = (op (f.acc s) y s.carry).2)
    {first : Bool} (hfirst : first = false) {s t : Machine} {l : List (Limb w)} (h : Chain f first s l t) :
    outcomes l = (Digits.ripple op (pairs l) s.carry).1 ∧ t.carry = (Digits.ripple op (pairs l) s.carry).2 := by
  induction h with
  | nil first s => exact ⟨rfl, rfl⟩
  | load hload _ ih => rw [← hload.carry]; exact ih hfirst
  | cons hat _ ih =>
    subst hfirst
    obtain ⟨hacc, hcarry⟩ := hstep _ _ hat
    obtain ⟨hresults, hlast⟩ := ih rfl
    rw [hcarry] at hresults hlast
    exact ⟨congrArg₂ _ hacc hresults, hlast⟩

/-- The first instruction of a chain, behind loads. -/
theorem Chain.start {f : Family w} {s t : Machine} {p : Limb w} {l : List (Limb w)} {first : Bool}
    (h : Chain f first s (p :: l) t) :
    ∃ u y, u.carry = s.carry ∧ f.At first u y ∧ p = ⟨u.next, f.acc u, y, f.acc u.step⟩ ∧ Chain f false u.step l t := by
  generalize hl : p :: l = l' at h
  induction h with
  | nil first s => exact absurd hl (List.cons_ne_nil p l)
  | load hload _ ih =>
    obtain ⟨u, y, hcarry, hrest⟩ := ih hl
    exact ⟨u, y, hcarry.trans hload.carry, hrest⟩
  | cons hat h _ =>
    obtain ⟨hp, hrest⟩ := List.cons.inj hl
    subst hrest
    exact ⟨_, _, rfl, hat, hp, h⟩

/-! ## The families -/

/-- `ADD`, and then `ADC`. -/
def addBytes : Family 8 where
  At first s y := ∃ x : Source, (if first then Alu.ADD else Alu.ADC).At s x ∧ y = x.value s
  acc s := s.regs.A

/-- `SUB`, and then `SBC`. -/
def subBytes : Family 8 where
  At first s y := ∃ x : Source, (if first then Alu.SUB else Alu.SBC).At s x ∧ y = x.value s
  acc s := s.regs.A

/-- The words that are added to HL, in the order of the codes. -/
def addend (s : Machine) : Fin 4 → BitVec 16
  | 0 => s.regs.BC.word
  | 1 => s.regs.DE.word
  | 2 => s.regs.HL.word
  | 3 => s.regs.SP

/-- `ADC HL`. -/
def addWords : Family 16 where
  At _ s y := ∃ k : Fin 4, s.At [0xED, BitVec.ofNat 8 (0x4A + 16 * k)] ∧ y = addend s k
  acc s := s.regs.HL.word

/-- `SBC HL`. -/
def subWords : Family 16 where
  At _ s y := ∃ k : Fin 4, s.At [0xED, BitVec.ofNat 8 (0x42 + 16 * k)] ∧ y = addend s k
  acc s := s.regs.HL.word

theorem step_ED {s : Machine} {code : BitVec 8} (h : s.At [0xED, code]) : s.step = s.skip.skip.ticked.ed code := by
  rw [step_eq h.1, ← h.2.1]
  rfl

variable {s t : Machine}

theorem alu_not_self {op : Alu} {x : Source} (h : op.At s x) (hself : ¬ (op = .SUB ∧ x = .named .A)) :
    s.step.regs = op.op (x.value s) s.regs ∧ s.step.carry = (op.op (x.value s) s.regs).carry := by
  have hregs := alu_regs h
  rw [if_neg hself] at hregs
  exact ⟨hregs, congrArg Regs.carry hregs⟩

theorem add_step {y : BitVec 8} (h : addBytes.At true s y) :
    s.step.regs.A = (sum s.regs.A y false).1 ∧ s.step.carry = (sum s.regs.A y false).2 := by
  obtain ⟨x, hat, rfl⟩ := h
  obtain ⟨hregs, hcarry⟩ := alu_not_self hat fun hself => absurd hself.1 (by decide)
  rw [hcarry, hregs]
  exact add_digits s.regs _

theorem adc_step {y : BitVec 8} (h : addBytes.At false s y) :
    s.step.regs.A = (sum s.regs.A y s.carry).1 ∧ s.step.carry = (sum s.regs.A y s.carry).2 := by
  obtain ⟨x, hat, rfl⟩ := h
  obtain ⟨hregs, hcarry⟩ := alu_not_self hat fun hself => absurd hself.1 (by decide)
  rw [hcarry, hregs]
  exact adc_digits s.regs _

theorem sbc_step {y : BitVec 8} (h : subBytes.At false s y) :
    s.step.regs.A = (difference s.regs.A y s.carry).1 ∧ s.step.carry = (difference s.regs.A y s.carry).2 := by
  obtain ⟨x, hat, rfl⟩ := h
  obtain ⟨hregs, hcarry⟩ := alu_not_self hat fun hself => absurd hself.1 (by decide)
  rw [hcarry, hregs]
  exact sbc_digits s.regs _

/-- The code of `SUB A`. -/
theorem sub_self_iff {x : Source} (h : Alu.SUB.At s x) : s.next = 0x97 ↔ x = .named .A := by
  cases x with
  | named r =>
    rw [show s.next = _ from h]
    cases r <;> decide
  | imm => exact iff_of_false (fun hcode => absurd (hcode.symm.trans h) (by decide)) nofun
  | high x => exact iff_of_false (fun hcode => absurd (hcode.symm.trans h.1) (by cases x <;> decide)) nofun
  | low x => exact iff_of_false (fun hcode => absurd (hcode.symm.trans h.1) (by cases x <;> decide)) nofun
  | indexed x => exact iff_of_false (fun hcode => absurd (hcode.symm.trans h.1) (by cases x <;> decide)) nofun

/-- `SUB A` leaves 0 in A and all flags as they are. -/
theorem sub_step {y : BitVec 8} (h : subBytes.At true s y) :
    s.step.regs.A = (difference s.regs.A y false).1 ∧
      (s.next ≠ 0x97 → s.step.carry = (difference s.regs.A y false).2) ∧
      (s.next = 0x97 → s.step.carry = s.carry ∧ y = s.regs.A) := by
  obtain ⟨x, hat, rfl⟩ := h
  by_cases hself : x = .named .A
  · have hcode := (sub_self_iff hat).mpr hself
    have hregs := alu_regs hat
    rw [if_pos ⟨rfl, hself⟩] at hregs
    have hvalue : x.value s = s.regs.A := by rw [hself]; rfl
    have hzero : (difference s.regs.A s.regs.A false).1 = 0 := by simp [difference]
    have hcarry : s.step.carry = s.carry := (congrArg Regs.carry hregs).trans rfl
    rw [hregs, hvalue, hzero]
    exact ⟨rfl, fun hne => absurd hcode hne, fun _ => ⟨hcarry, rfl⟩⟩
  · obtain ⟨hregs, hcarry⟩ := alu_not_self hat fun h => hself h.2
    rw [hcarry, hregs]
    obtain ⟨hdigit, hborrow⟩ := sub_digits s.regs (x.value s)
    exact ⟨hdigit, fun _ => hborrow, fun hcode => absurd ((sub_self_iff hat).mp hcode) hself⟩

theorem adc_HL_step {first : Bool} {y : BitVec 16} (h : addWords.At first s y) :
    s.step.regs.HL.word = (sum s.regs.HL.word y s.carry).1 ∧ s.step.carry = (sum s.regs.HL.word y s.carry).2 := by
  obtain ⟨k, hat, rfl⟩ := h
  have hregs : s.step.regs = adc_HL_wordreg (addend s k) s.regs := by
    rw [step_ED hat]
    match k with
    | 0 | 1 | 2 | 3 => rfl
  have hcarry : s.step.carry = _ := congrArg Regs.carry hregs
  rw [hcarry, hregs]
  exact adc_HL_digits s.regs _

theorem sbc_HL_step {first : Bool} {y : BitVec 16} (h : subWords.At first s y) :
    s.step.regs.HL.word = (difference s.regs.HL.word y s.carry).1 ∧
      s.step.carry = (difference s.regs.HL.word y s.carry).2 := by
  obtain ⟨k, hat, rfl⟩ := h
  have hregs : s.step.regs = sbc_HL_wordreg (addend s k) s.regs := by
    rw [step_ED hat]
    match k with
    | 0 | 1 | 2 | 3 => rfl
  have hcarry : s.step.carry = _ := congrArg Regs.carry hregs
  rw [hcarry, hregs]
  exact sbc_HL_digits s.regs _

/-! ## Several digits -/

/-- The results and C are the digits of the sum, with a carry that comes in. -/
def Summed (c : Bool) (l : List (Limb w)) (t : Machine) : Prop :=
  value (outcomes l) + (2 ^ w) ^ l.length * t.carry.toNat = value (firsts l) + value (seconds l) + c.toNat

/-- The results and C are the digits of the difference, with a borrow that comes in. -/
def Subtracted (c : Bool) (l : List (Limb w)) (t : Machine) : Prop :=
  value (outcomes l) + value (seconds l) + c.toNat = value (firsts l) + (2 ^ w) ^ l.length * t.carry.toNat

theorem pairs_fst (l : List (Limb w)) : (pairs l).map Prod.fst = firsts l := by simp [pairs, firsts]

theorem pairs_snd (l : List (Limb w)) : (pairs l).map Prod.snd = seconds l := by simp [pairs, seconds]

theorem pairs_length (l : List (Limb w)) : (pairs l).length = l.length := List.length_map _

theorem Chain.summed {f : Family w} (hw : 0 < w) (hstep : ∀ s y, f.At false s y →
      f.acc s.step = (sum (f.acc s) y s.carry).1 ∧ s.step.carry = (sum (f.acc s) y s.carry).2)
    {l : List (Limb w)} (h : Chain f false s l t) : Summed s.carry l t := by
  obtain ⟨hresults, hcarry⟩ := h.ripple hstep rfl
  have hsum := ripple_sum hw (pairs l) s.carry
  rw [pairs_fst, pairs_snd, pairs_length] at hsum
  rw [Summed, hresults, hcarry]
  exact hsum

theorem Chain.subtracted {f : Family w} (hw : 0 < w) (hstep : ∀ s y, f.At false s y →
      f.acc s.step = (difference (f.acc s) y s.carry).1 ∧ s.step.carry = (difference (f.acc s) y s.carry).2)
    {l : List (Limb w)} (h : Chain f false s l t) : Subtracted s.carry l t := by
  obtain ⟨hresults, hcarry⟩ := h.ripple hstep rfl
  have hdifference := ripple_difference hw (pairs l) s.carry
  rw [pairs_fst, pairs_snd, pairs_length] at hdifference
  rw [Subtracted, hresults, hcarry]
  exact hdifference

/-- The first digit of a sum, and the others. -/
theorem Summed.cons {c d : Bool} {p : Limb w} {l : List (Limb w)} (h : Summed d l t)
    (hfirst : p.r.toNat + 2 ^ w * d.toNat = p.x.toNat + p.y.toNat + c.toNat) : Summed c (p :: l) t := by
  unfold Summed firsts seconds outcomes at h ⊢
  simp only [List.map_cons, value_cons, List.length_cons, Nat.pow_succ]
  linear_combination hfirst + 2 ^ w * h

theorem Subtracted.cons_iff {c d : Bool} {p : Limb w} {l : List (Limb w)} (h : Subtracted d l t) :
    Subtracted c (p :: l) t ↔ p.r.toNat + p.y.toNat + c.toNat = p.x.toNat + 2 ^ w * d.toNat := by
  unfold Subtracted firsts seconds outcomes at h ⊢
  simp only [List.map_cons, value_cons, List.length_cons, Nat.pow_succ]
  constructor
  · intro hall
    zify at hall h ⊢
    linear_combination hall - 2 ^ w * h
  · intro hfirst
    linear_combination hfirst + 2 ^ w * h

/-- `SUB` and `SBC` subtract exactly if the first of them is not `SUB A` with C set. -/
theorem subBytes_iff {p : Limb 8} {l : List (Limb 8)} (h : Chain subBytes true s (p :: l) t) :
    Subtracted false (p :: l) t ↔ (p.code = 0x97 → s.carry = false) := by
  obtain ⟨u, y, hcarry, hat, rfl, hrest⟩ := h.start
  obtain ⟨hdigit, hother, hself⟩ := sub_step hat
  have hfirst := difference_toNat (by decide) u.regs.A y false
  rw [(hrest.subtracted (by decide) fun _ _ => sbc_step).cons_iff]
  have hacc : subBytes.acc u.step = _ := hdigit
  dsimp only
  rw [hacc]
  by_cases hcode : u.next = 0x97
  · obtain ⟨hkept, rfl⟩ := hself hcode
    rw [hkept, hcarry]
    have hborrow : (difference u.regs.A u.regs.A false).2 = false := by simp [difference]
    rw [hborrow] at hfirst
    refine (?_ : _ ↔ s.carry = false).trans ⟨fun hc _ => hc, fun hc => hc hcode⟩
    have hx : subBytes.acc u = u.regs.A := rfl
    rw [hx]
    cases s.carry with
    | false => exact iff_of_true hfirst rfl
    | true =>
      refine iff_of_false (fun heq => ?_) nofun
      rw [hfirst] at heq
      simp at heq
  · rw [hother hcode]
    exact iff_of_true hfirst fun h => absurd h hcode

theorem addBytes_summed {p : Limb 8} {l : List (Limb 8)} (h : Chain addBytes true s (p :: l) t) :
    Summed false (p :: l) t := by
  obtain ⟨u, y, -, hat, rfl, hrest⟩ := h.start
  obtain ⟨hdigit, hcarry⟩ := add_step hat
  have hfirst := sum_toNat (by decide) u.regs.A y false
  rw [← hdigit, ← hcarry] at hfirst
  exact (hrest.summed (by decide) fun _ _ => adc_step).cons hfirst

/-! ## Comparison -/

/-- The flags that a comparison is about. -/
def BIT_CZS : BitVec 8 := BIT_C ||| BIT_Z ||| BIT_S

def Regs.compared (g : Regs) : BitVec 8 := g.F &&& BIT_CZS

theorem orIf_mask {F F' m : BitVec 8} (h : F &&& m = F' &&& m) (c : Prop) [Decidable c] (bits : BitVec 8) :
    orIf c bits F &&& m = orIf c bits F' &&& m := by
  have hor (F : BitVec 8) : (F ||| bits) &&& m = F &&& m ||| bits &&& m := BitVec.and_or_distrib_right
  unfold orIf
  split
  · rw [hor, hor, h]
  · exact h

theorem cp_compared (g : Regs) (x : BitVec 8) : (cp_bytereg x g).compared = (sub_A_bytereg x g).compared := by
  have hborrow : ∀ F : BitVec 8, (F ||| BIT_C ||| BIT_N) &&& BIT_CZS = (F ||| (BIT_C ||| BIT_P) ||| BIT_N) &&& BIT_CZS := by
    decide
  have hfirst : (orIf (g.A < x) BIT_C (g.F &&& ~~~BIT_ALL) ||| BIT_N) &&& BIT_CZS =
      (orIf (g.A < x) (BIT_C ||| BIT_P) (g.F &&& ~~~BIT_ALL) ||| BIT_N) &&& BIT_CZS := by
    unfold orIf
    split
    · exact hborrow _
    · rfl
  exact orIf_mask (orIf_mask hfirst _ _) _ _

theorem cp_self_compared (g : Regs) : (cp_bytereg g.A g).compared = BIT_Z := by
  have hzero : ∀ F : BitVec 8, orZS 0 (F &&& ~~~BIT_ALL ||| BIT_N) &&& BIT_CZS = BIT_Z := by decide
  have hless : ¬ g.A < g.A := BitVec.lt_irrefl _
  have hsub : g.A - g.A = 0 := BitVec.sub_self _
  have hF : (cp_bytereg g.A g).F = orZS 0 (g.F &&& ~~~BIT_ALL ||| BIT_N) := by
    simp only [cp_bytereg, hsub, orIf, if_neg hless]
  rw [Regs.compared, hF]
  exact hzero g.F

/-- `CP` compares as `SUB` does exactly if the operand is not A, or the flags are those of equal numbers already. -/
theorem compare_iff {x : Source} (hs : Alu.CP.At s x) (ht : Alu.SUB.At t x) (hregs : t.regs = s.regs)
    (hvalue : x.value t = x.value s) :
    s.step.regs.compared = t.step.regs.compared ↔ (x = .named .A → s.regs.compared = BIT_Z) := by
  have hcp := (alu_not_self hs fun hself => absurd hself.1 (by decide)).1
  by_cases hself : x = .named .A
  · have hsub := alu_regs ht
    rw [if_pos ⟨rfl, hself⟩] at hsub
    have hkept : t.step.regs.compared = s.regs.compared := by
      rw [hsub, hregs]
      rfl
    have hequal : s.step.regs.compared = BIT_Z := by
      rw [hcp, hself]
      exact cp_self_compared s.regs
    rw [hkept, hequal]
    exact ⟨fun heq _ => heq.symm, fun heq => (heq hself).symm⟩
  · have hsub := (alu_not_self ht fun h => hself h.2).1
    rw [hcp, hsub, hvalue, hregs]
    exact iff_of_true (cp_compared s.regs _) fun h => absurd h hself

/-! ## All of it -/

/-- Sums of any length come out right. So do differences, exactly if the first instruction is not `SUB A` with C set. `CP`
leaves the flags of `SUB` in its place, exactly if the operand is not A or the flags are those of equal numbers already. -/
theorem arithmetic_right_iff (s : Machine) :
    (∀ p l t, Chain addBytes true s (p :: l) t → Summed false (p :: l) t) ∧
    (∀ p l t, Chain subBytes true s (p :: l) t →
      (Subtracted false (p :: l) t ↔ (p.code = 0x97 → s.carry = false))) ∧
    (∀ l t, Chain addWords false s l t → Summed s.carry l t) ∧
    (∀ l t, Chain subWords false s l t → Subtracted s.carry l t) ∧
    ∀ x t, Alu.CP.At s x → Alu.SUB.At t x → t.regs = s.regs → x.value t = x.value s →
      (s.step.regs.compared = t.step.regs.compared ↔ (x = .named .A → s.regs.compared = BIT_Z)) :=
  ⟨fun _ _ _ h => addBytes_summed h, fun _ _ _ h => subBytes_iff h,
    fun _ _ h => h.summed (by decide) fun _ _ => adc_HL_step,
    fun _ _ h => h.subtracted (by decide) fun _ _ => sbc_HL_step,
    fun _ _ hs ht hregs hvalue => compare_iff hs ht hregs hvalue⟩

/-- `SUB A` everywhere, with C set. -/
def subtracting : Machine := { Machine.start (fun _ => 0x97) with regs := { Regs.zero with F := BIT_C } }

/-- The borrow of 0 - 0 is set. -/
theorem SUB_A_keeps_C : Chain subBytes true subtracting [⟨0x97, 0, 0, 0⟩] subtracting.step ∧
    subtracting.step.carry = true ∧ ¬ Subtracted false [(⟨0x97, 0, 0, 0⟩ : Limb 8)] subtracting.step := by
  have hcarry : subtracting.step.carry = true := by decide
  refine ⟨.cons ⟨.named .A, rfl, rfl⟩ (.nil false _), hcarry, fun h => ?_⟩
  rw [Subtracted, hcarry] at h
  exact absurd h (by decide)

end Ucsim.Z80
