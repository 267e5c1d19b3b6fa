import Ucsim.Logic.Digits

/-!
# Signed overflow of sums and differences in digits

The carries of the most significant digit tell whether the sum of the signed numbers that the digits stand
for is in range.
-/

namespace Logic.Digits

variable {w : Nat}

/-! ## One digit -/

/-- The carries into and out of the sign. -/
def sumOverflow (x y : BitVec w) (c : Bool) : Bool :=
  x.msb ^^ y.msb ^^ (sum x y c).1.msb ^^ (sum x y c).2

/-- The borrows from and behind the sign. -/
def differenceOverflow (x y : BitVec w) (c : Bool) : Bool :=
  x.msb ^^ y.msb ^^ (difference x y c).1.msb ^^ (difference x y c).2

theorem two_pow_eq_twice (hw : 0 < w) : 2 ^ w = 2 * 2 ^ (w - 1) := (mul_pow_sub_one hw.ne' 2).symm

/-- A digit with its sign. -/
theorem toInt_eq_sub (x : BitVec w) : x.toInt = x.toNat - 2 ^ w * (x.msb.toNat : Int) := by
  rw [BitVec.toInt_eq_msb_cond]
  cases x.msb <;> simp

theorem msb_cases (x : BitVec w) :
    x.msb = true ∧ 2 ^ (w - 1) ≤ x.toNat ∨ x.msb = false ∧ x.toNat < 2 ^ (w - 1) := by
  rw [BitVec.msb_eq_decide]
  by_cases h : 2 ^ (w - 1) ≤ x.toNat
  · exact .inl ⟨decide_eq_true h, h⟩
  · exact .inr ⟨decide_eq_false h, Nat.lt_of_not_le h⟩

theorem sumOverflow_eq (hw : 0 < w) (x y : BitVec w) (c : Bool) :
    sumOverflow x y c = decide (¬ (-2 ^ (w - 1) ≤ x.toInt + y.toInt + c.toNat ∧
      x.toInt + y.toInt + c.toNat < 2 ^ (w - 1))) := by
  have hdigit := sum_toNat hw x y c
  have hx := x.isLt
  have hy := y.isLt
  have hr := (sum x y c).1.isLt
  have hc := c.toNat_le
  have hhalf := two_pow_eq_twice hw
  have hhalf' : (2 : Int) ^ (w - 1) = ((2 ^ (w - 1) : Nat) : Int) := by simp
  have hfull : (2 : Int) ^ w = ((2 ^ w : Nat) : Int) := by simp
  rw [sumOverflow, toInt_eq_sub, toInt_eq_sub, hhalf', hfull]
  have hxs := msb_cases x
  have hys := msb_cases y
  have hrs := msb_cases (sum x y c).1
  generalize (sum x y c).1.toNat = r, (sum x y c).1.msb = rs at hdigit hr hrs ⊢
  generalize (sum x y c).2 = k at hdigit ⊢
  rw [hhalf] at hdigit hx hy hr ⊢
  generalize 2 ^ (w - 1) = h at hdigit hx hy hr hxs hys hrs ⊢
  rcases hxs with ⟨hxs, hx'⟩ | ⟨hxs, hx'⟩ <;> rcases hys with ⟨hys, hy'⟩ | ⟨hys, hy'⟩ <;>
    rcases hrs with ⟨hrs, hr'⟩ | ⟨hrs, hr'⟩ <;> cases k <;> rw [hxs, hys, hrs] <;>
    simp only [Bool.toNat_true, Bool.toNat_false, Nat.cast_one, Nat.cast_zero, Nat.mul_one, Nat.mul_zero] at hdigit ⊢ <;>
    simp <;> omega

theorem differenceOverflow_eq (hw : 0 < w) (x y : BitVec w) (c : Bool) :
    differenceOverflow x y c = decide (¬ (-2 ^ (w - 1) ≤ x.toInt - y.toInt - c.toNat ∧
      x.toInt - y.toInt - c.toNat < 2 ^ (w - 1))) := by
  have hdigit := difference_toNat hw x y c
  have hx := x.isLt
  have hy := y.isLt
  have hr := (difference x y c).1.isLt
  have hc := c.toNat_le
  have hhalf := two_pow_eq_twice hw
  have hhalf' : (2 : Int) ^ (w - 1) = ((2 ^ (w - 1) : Nat) : Int) := by simp
  have hfull : (2 : Int) ^ w = ((2 ^ w : Nat) : Int) := by simp
  rw [differenceOverflow, toInt_eq_sub, toInt_eq_sub, hhalf', hfull]
  have hxs := msb_cases x
  have hys := msb_cases y
  have hrs := msb_cases (difference x y c).1
  generalize (difference x y c).1.toNat = r, (difference x y c).1.msb = rs at hdigit hr hrs ⊢
  generalize (difference x y c).2 = k at hdigit ⊢
  rw [hhalf] at hdigit hx hy hr ⊢
  generalize 2 ^ (w - 1) = h at hdigit hx hy hr hxs hys hrs ⊢
  -- the signs and the borrow decide
  rcases hxs with ⟨hxs, hx'⟩ | ⟨hxs, hx'⟩ <;> rcases hys with ⟨hys, hy'⟩ | ⟨hys, hy'⟩ <;>
    rcases hrs with ⟨hrs, hr'⟩ | ⟨hrs, hr'⟩ <;> cases k <;> rw [hxs, hys, hrs] <;>
    simp only [Bool.toNat_true, Bool.toNat_false, Nat.cast_one, Nat.cast_zero, Nat.mul_one, Nat.mul_zero] at hdigit ⊢ <;>
    simp <;> omega

/-! ## Several digits -/

/-- The number does not fit in so many digits with a sign. -/
def Overflows (w n : Nat) (v : Int) : Prop :=
  ¬ (-(((2 ^ w) ^ n : Nat) : Int) ≤ 2 * v ∧ 2 * v < (((2 ^ w) ^ n : Nat) : Int))

instance (w n : Nat) (v : Int) : Decidable (Overflows w n v) := inferInstanceAs (Decidable (¬ (_ ∧ _)))

/-- The sign of a number is that of its most significant digit. -/
theorem signedValue_concat (hw : 0 < w) (l : List (BitVec w)) (x : BitVec w) :
    signedValue (l ++ [x]) = value l + (((2 ^ w) ^ l.length : Nat) : Int) * x.toInt := by
  have hlength : (l ++ [x]).length = l.length + 1 := by simp
  have hsign : Negative (l ++ [x]) ↔ x.msb = true := by
    rw [Negative, hlength]
    exact value_concat_msb hw l x
  have hpow : (((2 ^ w) ^ (l.length + 1) : Nat) : Int) = ((2 ^ w) ^ l.length : Nat) * 2 ^ w := by
    rw [Nat.pow_succ]
    push_cast
    rfl
  by_cases hneg : Negative (l ++ [x])
  · rw [signedValue_of_negative hneg, value_concat, hlength, toInt_eq_sub, hsign.1 hneg, hpow]
    push_cast
    simp only [Bool.toNat_true]
    ring
  · have hmsb : x.msb = false := by simpa using mt hsign.2 hneg
    rw [signedValue_of_not_negative hneg, value_concat, toInt_eq_sub, hmsb]
    push_cast
    simp

/-- What is below the most significant digit does not change whether the digit overflows. -/
theorem overflows_iff (hw : 0 < w) {n r : Nat} (hr : r < (2 ^ w) ^ n) (t : Int) :
    Overflows w (n + 1) (r + (((2 ^ w) ^ n : Nat) : Int) * t) ↔
      ¬ (-2 ^ (w - 1) ≤ t ∧ t < 2 ^ (w - 1)) := by
  have hpow : (((2 ^ w) ^ (n + 1) : Nat) : Int) = 2 * (((2 ^ w) ^ n : Nat) * 2 ^ (w - 1)) := by
    rw [Nat.pow_succ]
    nth_rewrite 2 [two_pow_eq_twice hw]
    push_cast
    ring
  rw [Overflows, hpow, not_iff_not]
  generalize (2 ^ w) ^ n = N at hr
  generalize (2 : Int) ^ (w - 1) = h
  have hN : (0 : Int) < N := by omega
  constructor
  · rintro ⟨hlow, hhigh⟩
    constructor
    · by_contra hlt
      have hle : (N : Int) * (t + 1) ≤ N * -h := Int.mul_le_mul_of_nonneg_left (by omega) hN.le
      rw [Int.mul_add, Int.mul_one, Int.mul_neg] at hle
      omega
    · by_contra hge
      have hle : (N : Int) * h ≤ N * t := Int.mul_le_mul_of_nonneg_left (by omega) hN.le
      omega
  · rintro ⟨hlow, hhigh⟩
    have hle : (N : Int) * -h ≤ N * t := Int.mul_le_mul_of_nonneg_left hlow hN.le
    have hle' : (N : Int) * (t + 1) ≤ N * h := Int.mul_le_mul_of_nonneg_left (by omega) hN.le
    rw [Int.mul_neg] at hle
    rw [Int.mul_add, Int.mul_one] at hle'
    constructor <;> omega

variable (l : List (BitVec w × BitVec w)) (x y : BitVec w)

/-- The last digit of a sum shows whether the sum of the signed numbers is in range. -/
theorem ripple_sum_overflow (hw : 0 < w) :
    sumOverflow x y (ripple sum l false).2 =
      decide (Overflows w (l.length + 1)
        (signedValue (l.map Prod.fst ++ [x]) + signedValue (l.map Prod.snd ++ [y]))) := by
  have hlow := ripple_sum hw l false
  have hlt := value_lt (ripple sum l false).1
  rw [ripple_length] at hlt
  have hsum : signedValue (l.map Prod.fst ++ [x]) + signedValue (l.map Prod.snd ++ [y]) =
      (value (ripple sum l false).1 : Int) +
        (((2 ^ w) ^ l.length : Nat) : Int) * (x.toInt + y.toInt + (ripple sum l false).2.toNat) := by
    have hcast : ((value (ripple sum l false).1 + (2 ^ w) ^ l.length * (ripple sum l false).2.toNat : Nat) : Int) =
        ((value (l.map Prod.fst) + value (l.map Prod.snd) + false.toNat : Nat) : Int) := congrArg _ hlow
    rw [signedValue_concat hw, signedValue_concat hw, List.length_map, List.length_map]
    simp only [Nat.cast_add, Nat.cast_mul, Bool.toNat_false, Nat.cast_zero] at hcast ⊢
    linear_combination -hcast
  rw [hsum, sumOverflow_eq hw]
  exact decide_eq_decide.mpr (overflows_iff hw hlt _).symm

/-- The last digit of a difference shows it for the difference of the signed numbers. -/
theorem ripple_difference_overflow (hw : 0 < w) :
    differenceOverflow x y (ripple difference l false).2 =
      decide (Overflows w (l.length + 1)
        (signedValue (l.map Prod.fst ++ [x]) - signedValue (l.map Prod.snd ++ [y]))) := by
  have hlow := ripple_difference hw l false
  have hlt := value_lt (ripple difference l false).1
  rw [ripple_length] at hlt
  have hdifference : signedValue (l.map Prod.fst ++ [x]) - signedValue (l.map Prod.snd ++ [y]) =
      (value (ripple difference l false).1 : Int) +
        (((2 ^ w) ^ l.length : Nat) : Int) * (x.toInt - y.toInt - (ripple difference l false).2.toNat) := by
    have hcast : ((value (ripple difference l false).1 + value (l.map Prod.snd) + false.toNat : Nat) : Int) =
        ((value (l.map Prod.fst) + (2 ^ w) ^ l.length * (ripple difference l false).2.toNat : Nat) : Int) :=
      congrArg _ hlow
    rw [signedValue_concat hw, signedValue_concat hw, List.length_map, List.length_map]
    simp only [Nat.cast_add, Nat.cast_mul, Bool.toNat_false, Nat.cast_zero] at hcast ⊢
    linear_combination -hcast
  rw [hdifference, differenceOverflow_eq hw]
  exact decide_eq_decide.mpr (overflows_iff hw hlt _).symm

end Logic.Digits
