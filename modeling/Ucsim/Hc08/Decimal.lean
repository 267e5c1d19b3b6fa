import Ucsim.Hc08.MultiByte
import Ucsim.Logic.Decimal

/-!
# Decimal arithmetic

ADD, or ADC behind the first byte, each with DAA behind it. DAA finds the two digits and what is carried out
of them, but it does not write the digits back.
-/

namespace Ucsim.Hc08

open Logic Logic.Bits Logic.Digits Logic.Decimal

/-! ## The half carry -/

section HalfCarry

variable (a m : BitVec 8) (c : Bool) (r : Regs)

/-- What is carried into bit 4. -/
theorem intSum_half : (int a ^^^ int m ^^^ (int a + int m + intCarry c)).getLsbD 4 =
    decide (16 ≤ a.toNat % 16 + m.toNat % 16 + c.toNat) := by
  have hbits : (a.toNat.testBit 4 ^^ m.toNat.testBit 4 ^^ (a.toNat + m.toNat + c.toNat).testBit 4) =
      decide (16 ≤ a.toNat % 16 + m.toNat % 16 + c.toNat) := by
    have hc := c.toNat_le
    simp only [Nat.testBit_eq_decide_div_mod_eq]
    -- the parities of the high digits
    rcases Nat.mod_two_eq_zero_or_one (a.toNat / 2 ^ 4) with ha | ha <;>
      rcases Nat.mod_two_eq_zero_or_one (m.toNat / 2 ^ 4) with hm | hm <;>
      simp only [ha, hm, Nat.zero_ne_one, decide_false, decide_true, Bool.false_xor, Bool.true_xor, Bool.xor_true,
        Bool.xor_false, Bool.not_false, Bool.not_true, ← decide_not, decide_eq_decide] <;>
      omega
  rw [BitVec.getLsbD_xor, BitVec.getLsbD_xor, BitVec.getLsbD, BitVec.getLsbD, BitVec.getLsbD, intSum_toNat, int_toNat,
    int_toNat]
  exact hbits

theorem halfFlag_H {R : BitVec 32} (hR : R = int a + int m + intCarry c) :
    (halfFlag a m R r).has BIT_H = decide (16 ≤ a.toNat % 16 + m.toNat % 16 + c.toNat) := by
  rw [halfFlag, has_assign_self _ _ (by decide), ← intSum_half, hR]
  exact twoPow_and (k := 4) _ (by decide)

end HalfCarry

variable {s u t : Machine} {first : Bool}

/-- H after an addition. -/
theorem add_half (h : (ChainKind.add.inst first).At s) :
    s.step.regs.has BIT_H =
      decide (16 ≤ s.regs.A.toNat % 16 + s.operand.toNat % 16 + (chainCarry first s).toNat) := by
  obtain ⟨hstep, hbody⟩ := step_arith h
  have hregs (f : BitVec 8 → Regs → Regs) (hf : (ChainKind.add.inst first).inst = operation f) :
      s.step.regs = f s.operand s.regs := by
    rw [hstep, hf, operation_regs, hbody]
    rfl
  cases first with
  | true =>
    rw [hregs _ rfl]
    exact halfFlag_H s.regs.A s.operand false _ (BitVec.add_zero _).symm
  | false =>
    rw [hregs _ rfl]
    exact halfFlag_H s.regs.A s.operand (s.regs.has BIT_C) _ rfl

/-! ## DAA -/

/-- DAA is at PC. -/
def DaaAt (s : Machine) : Prop := s.regs.VECTOR = false ∧ s.code = 0x72

/-- The high digit that DAA finds, with the tens of the low one. -/
def daaDigit (r : Regs) : Nat :=
  ((if r.has BIT_H then r.A >>> 4 - 1 else r.A >>> 4) &&& 0xf).toNat + (if r.has BIT_C then 16 else 0) +
    ((r.A &&& 0xf).toNat + if r.has BIT_H then 16 else 0) / 10

/-- DAA changes C only. -/
theorem daa_step (h : DaaAt s) : s.step.regs.A = s.regs.A ∧ s.step.carry = decide (9 < daaDigit s.regs) := by
  obtain ⟨hV, hcode⟩ := h
  have hregs : s.step.regs = if 9 < daaDigit s.regs then (s.regs.FLAG_CLEAR BIT_C).FLAG_SET BIT_C
      else s.regs.FLAG_CLEAR BIT_C := by
    have hrun : s.step = ((dispatch s.code).run s.fetched).2 := congrArg Prod.snd (exec_inst_run hV)
    rw [hrun, hcode]
    rfl
  have hset : ∀ P : BitVec 8, (P &&& ~~~BIT_C ||| BIT_C) &&& BIT_C ≠ 0 := by decide
  have hclear : ∀ P : BitVec 8, P &&& ~~~BIT_C &&& BIT_C = 0 := by decide
  rw [Machine.carry, hregs]
  by_cases hdigit : 9 < daaDigit s.regs
  · rw [if_pos hdigit]
    exact ⟨rfl, (decide_eq_true (hset _)).trans (decide_eq_true hdigit).symm⟩
  · rw [if_neg hdigit]
    exact ⟨rfl, (decide_eq_false fun hne => hne (hclear _)).trans (decide_eq_false hdigit).symm⟩

/-- The carry that DAA finds, where the digits add up to `h` and `l`. -/
theorem daa_table {l h : Nat} (hl : l < 20) (hh : h < 19) :
    9 < (if 16 ≤ l then ((h + l / 16) % 16 + 15) % 16 else (h + l / 16) % 16) + (if 256 ≤ 16 * h + l then 16 else 0) +
        (l % 16 + if 16 ≤ l then 16 else 0) / 10 ↔ 100 ≤ 10 * h + l := by
  by_cases hhalf : 16 ≤ l
  · have hone : l / 16 = 1 := by omega
    have hlow : l % 16 = l - 16 := by omega
    rw [if_pos hhalf, if_pos hhalf, hone, hlow]
    split_ifs with h
    · omega
    · omega
  · have hzero : l / 16 = 0 := by omega
    rw [if_neg hhalf, if_neg hhalf, hzero]
    split_ifs with h
    · omega
    · omega

/-- Behind the sum of packed digits, DAA finds the right carry. -/
theorem daaDigit_carry {r : Regs} {x y : BitVec 8} {c : Bool} (hx : Packed x) (hy : Packed y)
    (hA : r.A = (sum x y c).1) (hC : r.has BIT_C = (sum x y c).2)
    (hH : r.has BIT_H = decide (16 ≤ x.toNat % 16 + y.toNat % 16 + c.toNat)) :
    9 < daaDigit r ↔ 100 ≤ decimal x + decimal y + c.toNat := by
  obtain ⟨hxl, hxh⟩ := hx
  obtain ⟨hyl, hyh⟩ := hy
  have hc := c.toNat_le
  have hbyte : r.A.toNat = (x.toNat + y.toNat + c.toNat) % 256 := by
    rw [hA]
    simp [sum, BitVec.toNat_add]
  have hcarry : r.has BIT_C = decide (256 ≤ x.toNat + y.toNat + c.toNat) := hC
  have hlow : ∀ a : BitVec 8, (a &&& 0xf).toNat = a.toNat % 16 := by decide
  have hhigh : ∀ a : BitVec 8, (a >>> 4 &&& 0xf).toNat = a.toNat / 16 := by decide
  have hbelow : ∀ a : BitVec 8, (a >>> 4 - 1 &&& 0xf).toNat = (a.toNat / 16 + 15) % 16 := by decide
  have hdecimal : decimal x + decimal y + c.toNat =
      10 * (x.toNat / 16 + y.toNat / 16) + (x.toNat % 16 + y.toNat % 16 + c.toNat) := by
    unfold decimal
    omega
  -- from here on only the sums of the two digits matter
  have hsum : x.toNat + y.toNat + c.toNat =
      16 * (x.toNat / 16 + y.toNat / 16) + (x.toNat % 16 + y.toNat % 16 + c.toNat) := by omega
  have hl : x.toNat % 16 + y.toNat % 16 + c.toNat < 20 := by omega
  have hh : x.toNat / 16 + y.toNat / 16 < 19 := by omega
  unfold daaDigit
  rw [hdecimal, hlow r.A, hcarry, hH]
  rw [hsum] at hbyte ⊢
  generalize x.toNat % 16 + y.toNat % 16 + c.toNat = l at *
  generalize x.toNat / 16 + y.toNat / 16 = h at *
  have hlast : r.A.toNat % 16 = l % 16 := by omega
  have hfirst : r.A.toNat / 16 = (h + l / 16) % 16 := by omega
  simp only [apply_ite BitVec.toNat, apply_ite (· &&& (0xf : BitVec 8)), hhigh, hbelow, hlast, hfirst,
    decide_eq_true_eq]
  exact daa_table hl hh

/-! ## Chains -/

/-- What an addition and DAA do to packed digits. -/
def addDaa (x y : BitVec 8) (c : Bool) : BitVec 8 × Bool := ((sum x y c).1, (decimalSum x y c).2)

/-- A program goes through the bytes of two numbers, with an addition and DAA at each of them. Before an
addition it takes `k` other steps that leave C as it was, which before the first one does not matter. -/
inductive DecimalChain : Bool → Machine → List Limb → Machine → Prop
  | nil (first : Bool) (s : Machine) : DecimalChain first s [] s
  | cons {first : Bool} {s u t : Machine} {l : List Limb} (k : Nat) (hu : u = Machine.step^[k] s)
      (hcarry : first = false → u.carry = s.carry) (hat : (ChainKind.add.inst first).At u) (hdaa : DaaAt u.step)
      (h : DecimalChain false u.step.step l t) :
      DecimalChain first s (⟨u.regs.A, u.operand, u.step.step.regs.A⟩ :: l) t

/-- All operands are packed. -/
def AllPacked (l : List Limb) : Prop := ∀ p ∈ l, Packed p.x ∧ Packed p.y

theorem AllPacked.pairs {l : List Limb} (h : AllPacked l) : ∀ p ∈ Hc08.pairs l, Packed p.1 ∧ Packed p.2 :=
  List.forall_mem_map.mpr h

theorem addDaa_step (hat : (ChainKind.add.inst first).At u) (hdaa : DaaAt u.step) (hx : Packed u.regs.A)
    (hy : Packed u.operand) :
    u.step.step.regs.A = (addDaa u.regs.A u.operand (chainCarry first u)).1 ∧
      u.step.step.carry = (addDaa u.regs.A u.operand (chainCarry first u)).2 := by
  obtain ⟨hA, hC, -⟩ := chain_step hat
  obtain ⟨hkept, hdigit⟩ := daa_step hdaa
  exact ⟨hkept.trans hA, hdigit.trans (decide_eq_decide.mpr (daaDigit_carry hx hy hA hC (add_half hat)))⟩

theorem DecimalChain.ripple {l : List Limb} (h : DecimalChain first s l t) (hl : AllPacked l) (hne : l ≠ []) :
    (outcomes l, t.carry) = Digits.ripple addDaa (pairs l) (chainCarry first s) := by
  induction h with
  | nil => exact absurd rfl hne
  | @cons first s u t l k hu hcarry hat hdaa h ih =>
    obtain ⟨⟨hx, hy⟩, hl⟩ := List.forall_mem_cons.mp hl
    obtain ⟨hdigit, hnext⟩ := addDaa_step hat hdaa hx hy
    have hin : chainCarry first u = chainCarry first s := by
      cases first with
      | true => rfl
      | false => exact hcarry rfl
    rw [hin] at hdigit hnext
    have hrest : (outcomes l, t.carry) = Digits.ripple addDaa (pairs l) u.step.step.carry := by
      cases h with
      | nil => rfl
      | cons k hu hcarry hat hdaa h => exact ih hl (List.cons_ne_nil _ _)
    rw [hnext] at hrest
    have hall := Prod.ext_iff.mp hrest
    exact Prod.ext (congrArg₂ _ hdigit hall.1) hall.2

/-- The results are packed digits, and with C they are those of the sum. -/
def DecimalRight (l : List Limb) (t : Machine) : Prop :=
  (∀ r ∈ outcomes l, Packed r) ∧
    decimalValue (outcomes l) + 100 ^ l.length * t.carry.toNat = decimalValue (firsts l) + decimalValue (seconds l)

/-! ## When the digits are right -/

/-- No sum of two digits is above 9. -/
def NoCarry (l : List Limb) : Prop :=
  ∀ p ∈ l, p.x.toNat % 16 + p.y.toNat % 16 ≤ 9 ∧ p.x.toNat / 16 + p.y.toNat / 16 ≤ 9

variable {x y : BitVec 8}

/-- The low digit of a binary sum shows whether it is the one of the decimal sum. -/
theorem addDaa_seen (hx : Packed x) (hy : Packed y) {c c' : Bool} (h : (addDaa x y c).1 = (decimalSum x y c').1) :
    c = c' := by
  have htable : ∀ n < 19, ∀ c c' : Bool, (n + c.toNat) % 16 = (n + c'.toNat) % 10 → c = c' := by decide
  obtain ⟨hxl, hxh⟩ := hx
  obtain ⟨hyl, hyh⟩ := hy
  apply htable (x.toNat % 16 + y.toNat % 16) (by omega)
  have hbytes := congrArg BitVec.toNat h
  rw [decimalSum, pack_toNat (Nat.mod_lt _ (by decide))] at hbytes
  have hsum : (addDaa x y c).1.toNat = (x.toNat + y.toNat + c.toNat) % 256 := by
    simp [addDaa, sum, BitVec.toNat_add]
  have hdecimal : decimal x + decimal y = 10 * (x.toNat / 16 + y.toNat / 16) + (x.toNat % 16 + y.toNat % 16) := by
    unfold decimal
    omega
  rw [hsum, hdecimal] at hbytes
  omega

/-- A binary and a decimal sum have the same digits only without carries. -/
theorem digits_table {l h : Nat} (hl : l < 19) (hh : h < 19) :
    (16 * h + l) % 256 = 16 * ((10 * h + l) % 100 / 10) + (10 * h + l) % 100 % 10 ↔ l ≤ 9 ∧ h ≤ 9 := by
  have hten : (10 * h + l) % 100 % 10 = l % 10 := by
    rw [Nat.mod_mod_of_dvd _ (by decide), Nat.mul_add_mod]
  by_cases hlow : l ≤ 9
  · have hbinary : (16 * h + l) % 256 = 16 * (h % 16) + l := by
      clear hten
      omega
    have hdecimal : (10 * h + l) % 100 / 10 = h % 10 := by
      clear hten hbinary
      omega
    rw [hten, hbinary, hdecimal, Nat.mod_eq_of_lt (Nat.lt_succ_of_le hlow), Nat.add_right_cancel_iff,
      Nat.mul_right_inj (by decide)]
    have hdigit : h % 16 = h % 10 ↔ h ≤ 9 := by
      clear hten hbinary hdecimal
      omega
    exact hdigit.trans (and_iff_right hlow).symm
  · refine iff_of_false (fun heq => ?_) fun h => hlow h.1
    have hsixteen : (16 * h + l) % 256 % 16 = l % 16 := by
      rw [Nat.mod_mod_of_dvd _ (by decide), Nat.mul_add_mod]
    have hmod : l % 16 = l % 10 := by
      rw [← hsixteen, heq, hten, Nat.mul_add_mod]
      exact Nat.mod_eq_of_lt (by omega)
    clear hten hsixteen heq
    omega

theorem addDaa_eq_iff (hx : Packed x) (hy : Packed y) :
    addDaa x y false = decimalSum x y false ↔
      x.toNat % 16 + y.toNat % 16 ≤ 9 ∧ x.toNat / 16 + y.toNat / 16 ≤ 9 := by
  obtain ⟨hxl, hxh⟩ := hx
  obtain ⟨hyl, hyh⟩ := hy
  have hsum : (addDaa x y false).1.toNat = (x.toNat + y.toNat) % 256 := by
    simp [addDaa, sum, BitVec.toNat_add]
  have hdecimal : decimal x + decimal y = 10 * (x.toNat / 16 + y.toNat / 16) + (x.toNat % 16 + y.toNat % 16) := by
    unfold decimal
    omega
  have hdigits : (addDaa x y false).1 = (decimalSum x y false).1 ↔
      (x.toNat + y.toNat) % 256 = 16 * ((decimal x + decimal y) % 100 / 10) + (decimal x + decimal y) % 100 % 10 := by
    rw [← BitVec.toNat_inj, hsum, decimalSum, pack_toNat (Nat.mod_lt _ (by decide)), Bool.toNat_false, Nat.add_zero]
  refine Iff.trans (Prod.ext_iff.trans (and_iff_left rfl)) (hdigits.trans ?_)
  have hbyte : x.toNat + y.toNat = 16 * (x.toNat / 16 + y.toNat / 16) + (x.toNat % 16 + y.toNat % 16) := by omega
  rw [hdecimal, hbyte]
  exact digits_table (by omega) (by omega)

theorem agree_iff {l : List (BitVec 8 × BitVec 8)} (hl : ∀ p ∈ l, Packed p.1 ∧ Packed p.2) :
    AgreeAlong addDaa decimalSum l false ↔
      ∀ p ∈ l, p.1.toNat % 16 + p.2.toNat % 16 ≤ 9 ∧ p.1.toNat / 16 + p.2.toNat / 16 ≤ 9 := by
  induction l with
  | nil => exact iff_of_true trivial (List.forall_mem_nil _)
  | cons p l ih =>
    obtain ⟨x, y⟩ := p
    obtain ⟨⟨hx, hy⟩, hl⟩ := List.forall_mem_cons.mp hl
    refine Iff.trans ?_ List.forall_mem_cons.symm
    refine and_congr_right_iff.mpr ?_ |>.trans (and_congr_left' (addDaa_eq_iff hx hy))
    intro heq
    -- then nothing is carried into the next byte
    obtain ⟨hlow, hhigh⟩ := (addDaa_eq_iff hx hy).mp heq
    have hcarry : (decimalSum x y false).2 = false := by
      refine decide_eq_false ?_
      dsimp only at hlow hhigh
      rw [Bool.toNat_false, decimal, decimal]
      omega
    rw [hcarry]
    exact ih hl

/-- ADD or ADC and DAA leave the digits of the decimal sum exactly if no two digits add up to more than 9. -/
theorem decimal_sum_right_iff {s t : Machine} {l : List Limb} (h : DecimalChain true s l t) (hne : l ≠ [])
    (hl : AllPacked l) : DecimalRight l t ↔ NoCarry l := by
  have hlength : (outcomes l).length = (pairs l).length := by simp [outcomes, pairs]
  have hiff := sum_digits_iff hl.pairs false hlength t.carry
  rw [pairs_fst, pairs_snd, pairs_length, Bool.toNat_false, Nat.add_zero] at hiff
  have hseen : ∀ x y c c', Packed x ∧ Packed y → (addDaa x y c).1 = (decimalSum x y c').1 → c = c' :=
    fun _ _ _ _ hxy heq => addDaa_seen hxy.1 hxy.2 heq
  have hagree := ripple_eq_iff (P := fun p => Packed p.1 ∧ Packed p.2) hseen hl.pairs false
  have hripple : (outcomes l, t.carry) = Digits.ripple addDaa (pairs l) false := h.ripple hl hne
  rw [← hripple] at hagree
  exact (hiff.trans hagree).trans ((agree_iff hl.pairs).trans List.forall_mem_map)

/-- `ADD #0x12` and DAA, `LDA #0x41`, and `ADC #0x35` and DAA. -/
def addingTwo : Machine := multiByteMachine 0x27 0 [0xab, 0x12, 0x72, 0xa6, 0x41, 0xa9, 0x35, 0x72]

/-- 4127 and 3512 are 7639. -/
theorem decimal_sum_right_4127_3512 :
    DecimalRight [⟨0x27, 0x12, 0x39⟩, ⟨0x41, 0x35, 0x76⟩] addingTwo.step.step.step.step.step := by
  have hadd : (ChainKind.add.inst true).At addingTwo := by decide +kernel
  have hadc : (ChainKind.add.inst false).At addingTwo.step.step.step := by decide +kernel
  have hcarry : addingTwo.step.step.step.carry = addingTwo.step.step.carry := by decide +kernel
  have hchain : DecimalChain true addingTwo [⟨0x27, 0x12, 0x39⟩, ⟨0x41, 0x35, 0x76⟩]
      addingTwo.step.step.step.step.step :=
    .cons 0 rfl (fun h => absurd h (by decide)) hadd ⟨rfl, by decide +kernel⟩
      (.cons 1 rfl (fun _ => hcarry) hadc ⟨rfl, by decide +kernel⟩ (.nil _ _))
  have hpacked : AllPacked [⟨0x27, 0x12, 0x39⟩, ⟨0x41, 0x35, 0x76⟩] := by unfold AllPacked; decide
  exact (decimal_sum_right_iff hchain (List.cons_ne_nil _ _) hpacked).mpr (by unfold NoCarry; decide)

/-- `ADD #5` and DAA, with 7 in A. -/
def addingFive : Machine := multiByteMachine 7 0 [0xab, 5, 0x72]

/-- 7 and 5 leave 0x0C. -/
theorem decimal_sum_07_05_not_right :
    DecimalChain true addingFive [⟨7, 5, 0x0c⟩] addingFive.step.step ∧
      ¬ DecimalRight [⟨7, 5, 0x0c⟩] addingFive.step.step := by
  have hadd : (ChainKind.add.inst true).At addingFive := by decide +kernel
  refine ⟨.cons 0 rfl (fun h => absurd h (by decide)) hadd ⟨rfl, by decide +kernel⟩ (.nil _ _), fun h => ?_⟩
  have hpacked : Packed 0x0c := h.1 _ (List.mem_singleton_self _)
  exact absurd hpacked (by decide)

end Ucsim.Hc08
