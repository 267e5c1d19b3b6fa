import Ucsim.Hc08.Branches
import Ucsim.Logic.Overflow

/-!
# Arithmetic on several bytes

Chains of ADD and ADC, and of SUB and SBC, in all their addressing modes, and of DIV. Between the
instructions of a chain the program may do anything that keeps C, or H and X.
-/

namespace Ucsim.Hc08

open Logic Logic.Bits Logic.Digits

/-! ## Results -/

section Results

variable (a m : BitVec 8) (c : Bool) (R : BitVec 32) (r : Regs)

/-- A carry as an `int`. -/
def intCarry : BitVec 32 := if c then 1 else 0

theorem intCarry_toNat : (intCarry c).toNat = c.toNat := by
  cases c <;> rfl

theorem int_toNat : (int a).toNat = a.toNat := BitVec.toNat_setWidth_of_le (by decide)

theorem intSum_toNat : (int a + int m + intCarry c).toNat = a.toNat + m.toNat + c.toNat := by
  have ha := a.isLt
  have hm := m.isLt
  have hc := c.toNat_le
  rw [BitVec.toNat_add, BitVec.toNat_add, int_toNat, int_toNat, intCarry_toNat]
  omega

/-- A difference below 0 is large. -/
theorem intDifference_toNat : (int a - int m - intCarry c).toNat =
    if a.toNat < m.toNat + c.toNat then 2 ^ 32 + a.toNat - (m.toNat + c.toNat) else a.toNat - (m.toNat + c.toNat) := by
  have ha := a.isLt
  have hm := m.isLt
  have hc := c.toNat_le
  rw [BitVec.toNat_sub, BitVec.toNat_sub, int_toNat, int_toNat, intCarry_toNat]
  split <;> omega

theorem intSum_digit : (int a + int m + intCarry c).setWidth 8 = (sum a m c).1 := by
  have hdigit := sum_toNat (by decide) a m c
  have hlt := (sum a m c).1.isLt
  apply BitVec.eq_of_toNat_eq
  rw [BitVec.toNat_setWidth, intSum_toNat]
  omega

theorem intDifference_digit : (int a - int m - intCarry c).setWidth 8 = (Digits.difference a m c).1 := by
  have hdigit := Digits.difference_toNat (by decide) a m c
  have hlt := (Digits.difference a m c).1.isLt
  have hb := (Digits.difference a m c).2.toNat_le
  have ha := a.isLt
  have hm := m.isLt
  have hc := c.toNat_le
  apply BitVec.eq_of_toNat_eq
  rw [BitVec.toNat_setWidth, intDifference_toNat]
  split <;> omega

/-- The bit behind the byte is the carry. -/
theorem intSum_carry : (int a + int m + intCarry c).getLsbD 8 = (sum a m c).2 := by
  have ha := a.isLt
  have hm := m.isLt
  have hc := c.toNat_le
  rw [BitVec.getLsbD, Nat.testBit_eq_decide_div_mod_eq, intSum_toNat]
  refine decide_eq_decide.mpr ?_
  omega

theorem intDifference_carry : (int a - int m - intCarry c).getLsbD 8 = (Digits.difference a m c).2 := by
  have ha := a.isLt
  have hm := m.isLt
  have hc := c.toNat_le
  rw [BitVec.getLsbD, Nat.testBit_eq_decide_div_mod_eq, intDifference_toNat]
  refine decide_eq_decide.mpr ?_
  split <;> omega

theorem resultFlags_C : (resultFlags a m R r).has BIT_C = R.getLsbD 8 := by
  rw [resultFlags, has_assign_self _ _ (by decide)]
  exact twoPow_and (k := 8) R (by decide)

/-- V comes from the signs and the bit behind the byte. -/
theorem resultFlags_V : (resultFlags a m R r).has BIT_V =
    (a.msb ^^ m.msb ^^ (R.setWidth 8).msb ^^ R.getLsbD 8) := by
  have hbit : (int a ^^^ int m ^^^ R ^^^ R.sshiftRight 1).getLsbD 7 =
      (a.msb ^^ m.msb ^^ (R.setWidth 8).msb ^^ R.getLsbD 8) := by
    have hnext : (R.sshiftRight 1).getLsbD 7 = R.getLsbD 8 := by
      rw [BitVec.getLsbD_sshiftRight]
      rfl
    rw [BitVec.msb_eq_getLsbD_last, BitVec.msb_eq_getLsbD_last, BitVec.msb_eq_getLsbD_last, BitVec.getLsbD_xor,
      BitVec.getLsbD_xor, BitVec.getLsbD_xor, hnext]
    simp [int]
  rw [resultFlags, has_assign_other _ _ (by decide), has_assign_self _ _ (by decide), ← hbit]
  exact twoPow_and (k := 7) _ (by decide)

end Results

/-! ## The instructions -/

/-- The additions and subtractions. -/
inductive Arith
  | ADD | ADC | SUB | SBC
  deriving DecidableEq, Repr

namespace Arith

/-- The low half of the opcodes. -/
def low : Arith → Nat
  | ADD => 0xb
  | ADC => 0x9
  | SUB => 0x0
  | SBC => 0x2

def inst : Arith → BitVec 8 → Bool → Prog Res
  | ADD => inst_add
  | ADC => inst_adc
  | SUB => inst_sub
  | SBC => inst_sbc

/-- The carry that comes in. -/
def carryIn : Arith → Regs → Bool
  | ADD, _ | SUB, _ => false
  | ADC, r | SBC, r => r.has BIT_C

/-- The digit and what is carried. -/
def op : Arith → BitVec 8 → BitVec 8 → Bool → BitVec 8 × Bool
  | ADD | ADC => sum
  | SUB | SBC => Digits.difference

/-- Is the result out of range as a signed number? -/
def overflow : Arith → BitVec 8 → BitVec 8 → Bool → Bool
  | ADD | ADC => sumOverflow
  | SUB | SBC => differenceOverflow

/-- The instruction is at PC. -/
def At (o : Arith) (s : Machine) : Prop :=
  s.regs.VECTOR = false ∧ Hc08.low s.opcode = o.low ∧
    if s.prefixed then high s.opcode ∈ [0xd, 0xe] else high s.opcode ∈ [0xa, 0xb, 0xc, 0xd, 0xe, 0xf]

instance (o : Arith) (s : Machine) : Decidable (o.At s) :=
  inferInstanceAs (Decidable (_ ∧ _ ∧ if s.prefixed then _ else _))

end Arith

/-- The operand of the instruction at PC. -/
def Machine.operand (s : Machine) : BitVec 8 := operandByte s.opcode s.prefixed s.body

def Machine.carry (s : Machine) : Bool := s.regs.has BIT_C

variable {s t : Machine} {o : Arith}

theorem dispatch_arith {code : BitVec 8} (hlow : low code = o.low)
    (hhigh : high code ∈ [0xa, 0xb, 0xc, 0xd, 0xe, 0xf]) : dispatch code = o.inst code false := by
  have hdispatch : dispatch code = accumulatorCodes code := by
    unfold dispatch
    generalize high code = n at hhigh
    fin_cases hhigh <;> rfl
  rw [hdispatch]
  unfold accumulatorCodes
  rw [hlow]
  cases o <;> rfl

theorem prefixed_arith {code : BitVec 8} (hlow : low code = o.low) (hhigh : high code ∈ [0xd, 0xe]) :
    prefixedCodes code = o.inst code true := by
  unfold prefixedCodes
  generalize high code = n at hhigh
  rw [hlow]
  fin_cases hhigh <;> cases o <;> rfl

theorem step_arith (h : o.At s) : s.step = ((o.inst s.opcode s.prefixed).run s.body).2 ∧ s.body.regs = s.regs := by
  obtain ⟨hV, hlow, hhigh⟩ := h
  have hrun : s.step = ((dispatch s.code).run s.fetched).2 := congrArg Prod.snd (exec_inst_run hV)
  unfold Machine.opcode Machine.body at *
  by_cases hcode : s.code = 0x9e
  · have hpre : s.prefixed = true := decide_eq_true hcode
    simp only [hpre, if_true] at hlow hhigh ⊢
    refine ⟨?_, rfl⟩
    rw [hrun, hcode, ← prefixed_arith hlow hhigh]
    rfl
  · have hpre : s.prefixed = false := decide_eq_false hcode
    simp only [hpre, Bool.false_eq_true, if_false] at hlow hhigh ⊢
    refine ⟨?_, rfl⟩
    rw [hrun, dispatch_arith hlow hhigh]

/-- The registers after an addition. -/
theorem sum_regs (m : BitVec 8) (c : Bool) (r : Regs) {R : BitVec 32} (hR : R = int r.A + int m + intCarry c) :
    R.setWidth 8 = (sum r.A m c).1 ∧ (halfFlag r.A m R (resultFlags r.A m R r)).has BIT_C = (sum r.A m c).2 ∧
      (halfFlag r.A m R (resultFlags r.A m R r)).has BIT_V = sumOverflow r.A m c := by
  have hdigit : R.setWidth 8 = (sum r.A m c).1 := by rw [hR, intSum_digit]
  have hcarry : R.getLsbD 8 = (sum r.A m c).2 := by rw [hR, intSum_carry]
  refine ⟨hdigit, ?_, ?_⟩
  · rw [halfFlag, has_assign_other _ _ (by decide), resultFlags_C, hcarry]
  · rw [halfFlag, has_assign_other _ _ (by decide), resultFlags_V, hdigit, hcarry]
    rfl

/-- The registers after a subtraction. -/
theorem difference_regs (m : BitVec 8) (c : Bool) (r : Regs) {R : BitVec 32} (hR : R = int r.A - int m - intCarry c) :
    R.setWidth 8 = (Digits.difference r.A m c).1 ∧ (resultFlags r.A m R r).has BIT_C = (Digits.difference r.A m c).2 ∧
      (resultFlags r.A m R r).has BIT_V = differenceOverflow r.A m c := by
  have hdigit : R.setWidth 8 = (Digits.difference r.A m c).1 := by rw [hR, intDifference_digit]
  have hcarry : R.getLsbD 8 = (Digits.difference r.A m c).2 := by rw [hR, intDifference_carry]
  refine ⟨hdigit, ?_, ?_⟩
  · rw [resultFlags_C, hcarry]
  · rw [resultFlags_V, hdigit, hcarry]
    rfl

/-- What an addition or a subtraction leaves in A, C and V. -/
theorem arith_step (h : o.At s) :
    s.step.regs.A = (o.op s.regs.A s.operand (o.carryIn s.regs)).1 ∧
      s.step.carry = (o.op s.regs.A s.operand (o.carryIn s.regs)).2 ∧
      s.step.regs.has BIT_V = o.overflow s.regs.A s.operand (o.carryIn s.regs) := by
  obtain ⟨hstep, hbody⟩ := step_arith h
  have hregs (f : BitVec 8 → Regs → Regs) (hf : o.inst = operation f) : s.step.regs = f s.operand s.regs := by
    rw [hstep, hf, operation_regs, hbody]
    rfl
  cases o with
  | ADD =>
    rw [Machine.carry, hregs _ rfl]
    exact sum_regs s.operand false s.regs (BitVec.add_zero _).symm
  | ADC =>
    rw [Machine.carry, hregs _ rfl]
    exact sum_regs s.operand (s.regs.has BIT_C) s.regs rfl
  | SUB =>
    rw [Machine.carry, hregs _ rfl]
    exact difference_regs s.operand false s.regs (BitVec.sub_zero _).symm
  | SBC =>
    rw [Machine.carry, hregs _ rfl]
    exact difference_regs s.operand (s.regs.has BIT_C) s.regs rfl

/-! ## Chains of additions and subtractions -/

/-- The chains of ADD and ADC, and of SUB and SBC. -/
inductive ChainKind
  | add | sub
  deriving DecidableEq, Repr

/-- The instruction at the first byte and at the later ones. -/
def ChainKind.inst : ChainKind → Bool → Arith
  | add, true => .ADD
  | add, false => .ADC
  | sub, true => .SUB
  | sub, false => .SBC

/-- One instruction of a chain: A before it, its operand and A behind it. -/
structure Limb where
  x : BitVec 8
  y : BitVec 8
  r : BitVec 8

def pairs (l : List Limb) : List (BitVec 8 × BitVec 8) := l.map fun p => (p.x, p.y)

def firsts (l : List Limb) : List (BitVec 8) := l.map Limb.x

def seconds (l : List Limb) : List (BitVec 8) := l.map Limb.y

def outcomes (l : List Limb) : List (BitVec 8) := l.map Limb.r

theorem pairs_fst (l : List Limb) : (pairs l).map Prod.fst = firsts l := by simp [pairs, firsts]

theorem pairs_snd (l : List Limb) : (pairs l).map Prod.snd = seconds l := by simp [pairs, seconds]

theorem pairs_length (l : List Limb) : (pairs l).length = l.length := List.length_map _

/-- A program goes through the bytes of two numbers. Before an instruction of the chain it takes `k` other
steps that leave C as it was, which before the first one does not matter. -/
inductive Chain (o : ChainKind) : Bool → Machine → List Limb → Machine → Prop
  | nil (first : Bool) (s : Machine) : Chain o first s [] s
  | cons {first : Bool} {s u t : Machine} {l : List Limb} (k : Nat) (hu : u = Machine.step^[k] s)
      (hcarry : first = false → u.carry = s.carry) (hat : (o.inst first).At u) (h : Chain o false u.step l t) :
      Chain o first s (⟨u.regs.A, u.operand, u.step.regs.A⟩ :: l) t

/-- What the instructions do to the digits. -/
def ChainKind.op : ChainKind → BitVec 8 → BitVec 8 → Bool → BitVec 8 × Bool
  | add => sum
  | sub => Digits.difference

/-- The carry of a chain before an instruction. -/
def chainCarry (first : Bool) (s : Machine) : Bool := if first then false else s.carry

theorem chain_step {o : ChainKind} {first : Bool} (h : (o.inst first).At s) :
    s.step.regs.A = (o.op s.regs.A s.operand (chainCarry first s)).1 ∧
      s.step.carry = (o.op s.regs.A s.operand (chainCarry first s)).2 ∧
      s.step.regs.has BIT_V = (o.inst first).overflow s.regs.A s.operand (chainCarry first s) := by
  have hstep := arith_step h
  cases o <;> cases first <;> exact hstep

theorem Chain.ripple {o : ChainKind} {first : Bool} {l : List Limb} (h : Chain o first s l t) (hne : l ≠ []) :
    (outcomes l, t.carry) = Digits.ripple o.op (pairs l) (chainCarry first s) := by
  induction h with
  | nil => exact absurd rfl hne
  | @cons first s u t l k hu hcarry hat h ih =>
    obtain ⟨hdigit, hnext, -⟩ := chain_step hat
    have hin : chainCarry first u = chainCarry first s := by
      cases first with
      | true => rfl
      | false => exact hcarry rfl
    rw [hin] at hdigit hnext
    have hrest : (outcomes l, t.carry) = Digits.ripple o.op (pairs l) u.step.carry := by
      cases h with
      | nil => rfl
      | cons k hu hcarry hat h => exact ih (List.cons_ne_nil _ _)
    rw [hnext] at hrest
    have hall := Prod.ext_iff.mp hrest
    exact Prod.ext (congrArg₂ _ hdigit hall.1) hall.2

/-- V of the last instruction, from the carry that comes into it. -/
theorem Chain.last {o : ChainKind} {first : Bool} {l : List Limb} (h : Chain o first s l t) (hne : l ≠ []) :
    ∃ init p, l = init ++ [p] ∧ t.regs.has BIT_V =
      (o.inst false).overflow p.x p.y (Digits.ripple o.op (pairs init) (chainCarry first s)).2 := by
  induction h with
  | nil => exact absurd rfl hne
  | @cons first s u t l k hu hcarry hat h ih =>
    obtain ⟨-, hnext, hV⟩ := chain_step hat
    have hin : chainCarry first u = chainCarry first s := by
      cases first with
      | true => rfl
      | false => exact hcarry rfl
    rw [hin] at hnext hV
    cases h with
    | nil =>
      refine ⟨[], _, rfl, ?_⟩
      rw [hV]
      cases o <;> cases first <;> rfl
    | cons k' hu' hcarry' hat' h' =>
      obtain ⟨init, p, hl, hlast⟩ := ih (List.cons_ne_nil _ _)
      refine ⟨_ :: init, p, congrArg _ hl, ?_⟩
      have hcarry : chainCarry false u.step = u.step.carry := rfl
      rw [hlast, hcarry, hnext]
      rfl

/-- The bytes and C are the sum or the difference, and V says whether it is out of range as a signed
number. -/
def ChainKind.Right (o : ChainKind) (l : List Limb) (t : Machine) : Prop :=
  match o with
  | add =>
    value (outcomes l) + (2 ^ 8) ^ l.length * t.carry.toNat = value (firsts l) + value (seconds l) ∧
      t.regs.has BIT_V = decide (Overflows 8 l.length (signedValue (firsts l) + signedValue (seconds l)))
  | sub =>
    value (outcomes l) + value (seconds l) = value (firsts l) + (2 ^ 8) ^ l.length * t.carry.toNat ∧
      t.regs.has BIT_V = decide (Overflows 8 l.length (signedValue (firsts l) - signedValue (seconds l)))

theorem Chain.right {o : ChainKind} {l : List Limb} (h : Chain o true s l t) (hne : l ≠ []) : o.Right l t := by
  have hripple := Prod.ext_iff.mp (h.ripple hne)
  obtain ⟨hdigits, hcarry⟩ : outcomes l = (Digits.ripple o.op (pairs l) false).1 ∧
      t.carry = (Digits.ripple o.op (pairs l) false).2 := hripple
  obtain ⟨init, p, rfl, hV⟩ := h.last hne
  have hlength : (init ++ [p]).length = (pairs init).length + 1 := by simp [pairs]
  have hfirsts : firsts (init ++ [p]) = (pairs init).map Prod.fst ++ [p.x] := by simp [firsts, pairs_fst]
  have hseconds : seconds (init ++ [p]) = (pairs init).map Prod.snd ++ [p.y] := by simp [seconds, pairs_snd]
  cases o with
  | add =>
    constructor
    · have hsum := ripple_sum (by decide) (pairs (init ++ [p])) false
      rw [pairs_fst, pairs_snd, pairs_length, Bool.toNat_false, Nat.add_zero] at hsum
      rw [hdigits, hcarry]
      exact hsum
    · rw [hV, hlength, hfirsts, hseconds]
      exact ripple_sum_overflow (pairs init) p.x p.y (by decide)
  | sub =>
    constructor
    · have hdifference := ripple_difference (by decide) (pairs (init ++ [p])) false
      rw [pairs_fst, pairs_snd, pairs_length, Bool.toNat_false, Nat.add_zero] at hdifference
      rw [hdigits, hcarry]
      exact hdifference
    · rw [hV, hlength, hfirsts, hseconds]
      exact ripple_difference_overflow (pairs init) p.x p.y (by decide)

/-! ## Long division -/

/-- DIV is at PC. -/
def DivAt (s : Machine) : Prop := s.regs.VECTOR = false ∧ s.code = 0x52

/-- One DIV of a chain: A before it, A behind it and C behind it. -/
structure DivLimb where
  x : BitVec 8
  q : BitVec 8
  c : Bool

/-- A program divides the bytes of a number, the most significant one first. Before each DIV it takes `k`
other steps that leave H and X as they were. -/
inductive DivChain : Machine → List DivLimb → Machine → Prop
  | nil (s : Machine) : DivChain s [] s
  | cons {s u t : Machine} {l : List DivLimb} (k : Nat) (hu : u = Machine.step^[k] s) (hH : u.regs.H = s.regs.H)
      (hX : u.regs.X = s.regs.X) (hat : DivAt u) (h : DivChain u.step l t) :
      DivChain s (⟨u.regs.A, u.step.regs.A, u.step.carry⟩ :: l) t

/-- The number whose most significant byte is the first one. -/
def numberOf (bytes : List (BitVec 8)) : Nat := value bytes.reverse

theorem numberOf_cons (x : BitVec 8) (l : List (BitVec 8)) :
    numberOf (x :: l) = numberOf l + (2 ^ 8) ^ l.length * x.toNat := by
  rw [numberOf, List.reverse_cons, value_concat, List.length_reverse]
  rfl

theorem append_toNat (h a : BitVec 8) : (h ++ a).toNat = h.toNat * 256 + a.toNat := by
  rw [BitVec.toNat_append, ← Nat.shiftLeft_add_eq_or_of_lt a.isLt, Nat.shiftLeft_eq]

/-- A dividend whose high byte is below the divisor has a quotient of one byte. -/
theorem div_step (hat : DivAt s) (hlt : s.regs.H.toNat < s.regs.X.toNat) :
    s.regs.H.toNat * 256 + s.regs.A.toNat = s.step.regs.A.toNat * s.regs.X.toNat + s.step.regs.H.toNat ∧
      s.step.regs.H.toNat < s.regs.X.toNat ∧ s.step.regs.X = s.regs.X ∧ s.step.carry = false := by
  obtain ⟨hV, hcode⟩ := hat
  have hA := s.regs.A.isLt
  have hXlt := s.regs.X.isLt
  have hX : s.regs.X ≠ 0 := fun hzero => by simp [hzero] at hlt
  have hdiv : (s.regs.H ++ s.regs.A).toNat / s.regs.X.toNat ≤ 0xff := by
    rw [append_toNat, ← Nat.lt_succ_iff, Nat.div_lt_iff_lt_mul (by omega)]
    omega
  have hmod : (s.regs.H ++ s.regs.A).toNat % s.regs.X.toNat < s.regs.X.toNat := Nat.mod_lt _ (by omega)
  have hregs : s.step.regs =
      ({ s.regs with
          A := BitVec.ofNat 8 ((s.regs.H ++ s.regs.A).toNat / s.regs.X.toNat)
          H := BitVec.ofNat 8 ((s.regs.H ++ s.regs.A).toNat % s.regs.X.toNat) }.FLAG_CLEAR BIT_C).FLAG_ASSIGN
        BIT_Z ((s.regs.H ++ s.regs.A).toNat / s.regs.X.toNat = 0) := by
    have hstep : s.step.regs = (if s.regs.X ≠ 0 then
        if (s.regs.H ++ s.regs.A).toNat / s.regs.X.toNat ≤ 0xff then
          ({ s.regs with
              A := BitVec.ofNat 8 ((s.regs.H ++ s.regs.A).toNat / s.regs.X.toNat)
              H := BitVec.ofNat 8 ((s.regs.H ++ s.regs.A).toNat % s.regs.X.toNat) }.FLAG_CLEAR BIT_C).FLAG_ASSIGN
            BIT_Z ((s.regs.H ++ s.regs.A).toNat / s.regs.X.toNat = 0)
        else s.regs.FLAG_SET BIT_C
      else s.regs.FLAG_SET BIT_C) := by
      have hrun : s.step = ((dispatch s.code).run s.fetched).2 := congrArg Prod.snd (exec_inst_run hV)
      rw [hrun, hcode]
      rfl
    rw [hstep, if_pos hX, if_pos hdiv]
  have hq : s.step.regs.A.toNat = (s.regs.H ++ s.regs.A).toNat / s.regs.X.toNat := by
    rw [hregs]
    exact Nat.mod_eq_of_lt (by omega)
  have hr : s.step.regs.H.toNat = (s.regs.H ++ s.regs.A).toNat % s.regs.X.toNat := by
    rw [hregs]
    exact Nat.mod_eq_of_lt (by omega)
  refine ⟨?_, by rw [hr]; exact hmod, by rw [hregs]; rfl, ?_⟩
  · rw [hq, hr, ← append_toNat, Nat.mul_comm, Nat.div_add_mod]
  · rw [Machine.carry, hregs, has_assign_other _ _ (by decide)]
    have hclear : ∀ P : BitVec 8, P &&& ~~~BIT_C &&& BIT_C = 0 := by decide
    exact decide_eq_false fun hne => hne (hclear _)

/-- The remainder so far is below the divisor; the number that is left is what it and the bytes to come
stand for. -/
theorem DivChain.division {l : List DivLimb} (h : DivChain s l t) (hlt : s.regs.H.toNat < s.regs.X.toNat) :
    s.regs.H.toNat * (2 ^ 8) ^ l.length + numberOf (l.map DivLimb.x) =
        numberOf (l.map DivLimb.q) * s.regs.X.toNat + t.regs.H.toNat ∧
      t.regs.H.toNat < s.regs.X.toNat ∧ ∀ p ∈ l, p.c = false := by
  induction h with
  | nil s => exact ⟨by simp [numberOf, value_nil], hlt, fun p hp => absurd hp List.not_mem_nil⟩
  | @cons s u t l k hu hH hX hat h ih =>
    rw [← hH, ← hX] at hlt ⊢
    obtain ⟨hstep, hrem, hX', hcarry⟩ := div_step hat hlt
    obtain ⟨hrest, hlast, hclear⟩ := ih (by rw [hX']; exact hrem)
    rw [hX'] at hrest hlast
    refine ⟨?_, hlast, List.forall_mem_cons.mpr ⟨hcarry, hclear⟩⟩
    simp only [List.map_cons, List.length_cons, numberOf_cons, List.length_map, Nat.pow_succ]
    linear_combination (2 ^ 8) ^ l.length * hstep + hrest

/-- Chains of ADD and ADC, and of SUB and SBC, add and subtract numbers of any length, with C and V as for
one number; and a chain of DIV divides. -/
theorem multi_byte :
    (∀ (o : ChainKind) (s t : Machine) (l : List Limb), Chain o true s l t → l ≠ [] → o.Right l t) ∧
      ∀ (s t : Machine) (l : List DivLimb), DivChain s l t → s.regs.H = 0 → s.regs.X ≠ 0 →
        numberOf (l.map DivLimb.x) = numberOf (l.map DivLimb.q) * s.regs.X.toNat + t.regs.H.toNat ∧
          t.regs.H.toNat < s.regs.X.toNat ∧ ∀ p ∈ l, p.c = false := by
  refine ⟨fun o s t l h hne => h.right hne, fun s t l h hH hX => ?_⟩
  have hlt : s.regs.H.toNat < s.regs.X.toNat := by
    rw [hH]
    exact Nat.pos_of_ne_zero fun hzero => hX (BitVec.eq_of_toNat_eq hzero)
  have hdivision := h.division hlt
  rw [hH] at hdivision
  simpa using hdivision

/-- A program at 0x8000. -/
def multiByteMachine (A X : BitVec 8) (program : List (BitVec 8)) : Machine where
  regs := { A := A, P := 0x60, H := 0, X := X, SP := 0xff, VECTOR := false }
  PC := 0x8000
  ram := fun addr => program.getD (addr - 0x8000).toNat 0
  dummy := fun _ => 0
  ticks := 0
  out := []
  accesses := []

/-- `ADD #0xff`, `LDA #1` and `ADC #2`. -/
def adding : Machine := multiByteMachine 1 0 [0xab, 0xff, 0xa6, 0x01, 0xa9, 0x02]

/-- `SUB #1`, `LDA #0x12` and `SBC #0x34`. -/
def subtracting : Machine := multiByteMachine 0 0 [0xa0, 0x01, 0xa6, 0x12, 0xa2, 0x34]

/-- `DIV`, `LDA #0x34` and `DIV`. -/
def dividing : Machine := multiByteMachine 0x12 7 [0x52, 0xa6, 0x34, 0x52]

/-- 0x0101 and 0x02ff are 0x0400, 0x1200 less 0x3401 borrows, and 0x1234 is 0x299 times 7 and 5. -/
theorem multi_byte_examples : ChainKind.add.Right [⟨1, 0xff, 0⟩, ⟨1, 2, 4⟩] adding.step.step.step ∧
    ChainKind.sub.Right [⟨0, 1, 0xff⟩, ⟨0x12, 0x34, 0xdd⟩] subtracting.step.step.step ∧
    numberOf [0x12, 0x34] = numberOf [0x02, 0x99] * 7 + dividing.step.step.step.regs.H.toNat := by
  have hadd : Chain .add true adding [⟨1, 0xff, 0⟩, ⟨1, 2, 4⟩] adding.step.step.step :=
    .cons 0 rfl (fun h => absurd h (by decide)) (by decide +kernel : Arith.ADD.At adding)
      (.cons 1 rfl (fun _ => (by decide +kernel : adding.step.step.carry = adding.step.carry))
        (by decide +kernel : Arith.ADC.At adding.step.step) (.nil _ _))
  have hsub : Chain .sub true subtracting [⟨0, 1, 0xff⟩, ⟨0x12, 0x34, 0xdd⟩] subtracting.step.step.step :=
    .cons 0 rfl (fun h => absurd h (by decide)) (by decide +kernel : Arith.SUB.At subtracting)
      (.cons 1 rfl (fun _ => (by decide +kernel : subtracting.step.step.carry = subtracting.step.carry))
        (by decide +kernel : Arith.SBC.At subtracting.step.step) (.nil _ _))
  have hdiv : DivChain dividing [⟨0x12, 0x02, false⟩, ⟨0x34, 0x99, false⟩] dividing.step.step.step :=
    .cons 0 rfl rfl rfl ⟨rfl, by decide +kernel⟩ (.cons 1 rfl rfl rfl ⟨rfl, by decide +kernel⟩ (.nil _))
  exact ⟨multi_byte.1 .add _ _ _ hadd (List.cons_ne_nil _ _), multi_byte.1 .sub _ _ _ hsub (List.cons_ne_nil _ _),
    (multi_byte.2 _ _ _ hdiv rfl (by decide)).1⟩

end Ucsim.Hc08
