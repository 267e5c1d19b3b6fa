import Ucsim.Logic.Digits

/-!
# Numbers shifted digit by digit

Digits of `w` bits with the most significant one first, and a shift to the right that goes from digit to digit.
-/

namespace Logic.Digits

variable {w : Nat}

/-- The number that digits stand for, the most significant one first. -/
def number (digits : List (BitVec w)) : Nat := value digits.reverse

/-- The same in the complement of two. -/
def signedNumber (digits : List (BitVec w)) : Int := signedValue digits.reverse

theorem number_cons (x : BitVec w) (l : List (BitVec w)) :
    number (x :: l) = number l + (2 ^ w) ^ l.length * x.toNat := by
  unfold number
  rw [List.reverse_cons, value_concat, List.length_reverse]

theorem number_inj {k l : List (BitVec w)} (hlength : k.length = l.length) : number k = number l ↔ k = l := by
  have hreverse : k.reverse.length = l.reverse.length := by rw [List.length_reverse, List.length_reverse, hlength]
  unfold number
  rw [value_inj hreverse, List.reverse_inj]

/-- A digit moves to the right, and `c` comes in on the left. -/
def shiftDigit (c : Bool) (x : BitVec w) : BitVec w := BitVec.ofNat w ((c.toNat * 2 ^ w + x.toNat) / 2)

/-- The digits move to the right by one bit. The bit that leaves a digit comes into the next one. -/
def shiftRight : Bool → List (BitVec w) → List (BitVec w) × Bool
  | c, [] => ([], c)
  | c, x :: l =>
    let q := shiftRight (x.getLsbD 0) l
    (shiftDigit c x :: q.1, q.2)

theorem shiftRight_length (c : Bool) (l : List (BitVec w)) : (shiftRight c l).1.length = l.length := by
  induction l generalizing c with
  | nil => rfl
  | cons x l ih => exact congrArg (· + 1) (ih _)

theorem lsb_toNat (x : BitVec w) : (x.getLsbD 0).toNat = x.toNat % 2 := by
  unfold BitVec.getLsbD
  rw [Nat.testBit_zero]
  rcases Nat.mod_two_eq_zero_or_one x.toNat with h | h
  · rw [h]
    rfl
  · rw [h]
    rfl

theorem shiftDigit_toNat (hw : 0 < w) (c : Bool) (x : BitVec w) :
    2 * (shiftDigit c x).toNat + (x.getLsbD 0).toNat = c.toNat * 2 ^ w + x.toNat := by
  have hx := x.isLt
  have hc := Nat.mul_le_mul_right (2 ^ w) c.toNat_le
  have hhalf : 2 ^ w = 2 * 2 ^ (w - 1) := (mul_pow_sub_one hw.ne' 2).symm
  have hmul : c.toNat * 2 ^ w = 2 * (c.toNat * 2 ^ (w - 1)) := by
    rw [hhalf]
    exact Nat.mul_left_comm _ _ _
  unfold shiftDigit
  rw [BitVec.toNat_ofNat, Nat.mod_eq_of_lt (by omega), lsb_toNat]
  omega

/-- What leaves the last digit is the bit that the number loses. -/
theorem number_shiftRight (hw : 0 < w) (c : Bool) (l : List (BitVec w)) :
    2 * number (shiftRight c l).1 + (shiftRight c l).2.toNat = c.toNat * (2 ^ w) ^ l.length + number l := by
  induction l generalizing c with
  | nil => simp [shiftRight, number, value_nil]
  | cons x l ih =>
    have hdigit := shiftDigit_toNat hw c x
    have hrest := ih (x.getLsbD 0)
    simp only [shiftRight, number_cons, List.length_cons, shiftRight_length, Nat.pow_succ]
    linear_combination hrest + (2 ^ w) ^ l.length * hdigit

/-- The number is halved, and the bit that comes in is above it. -/
theorem shiftRight_halves (hw : 0 < w) (c : Bool) (l : List (BitVec w)) :
    number (shiftRight c l).1 = (c.toNat * (2 ^ w) ^ l.length + number l) / 2 := by
  have hnumber := number_shiftRight hw c l
  have hout := (shiftRight c l).2.toNat_le
  omega

/-- The bit that goes out is the last one, when there is one. -/
theorem shiftRight_out (hw : 0 < w) (c : Bool) (l : List (BitVec w)) (hl : l ≠ []) :
    (shiftRight c l).2 = true ↔ number l % 2 = 1 := by
  have hnumber := number_shiftRight hw c l
  have heven : 2 ∣ c.toNat * (2 ^ w) ^ l.length := by
    have hlength : l.length ≠ 0 := mt List.length_eq_zero_iff.mp hl
    exact Dvd.dvd.mul_left (dvd_pow (dvd_pow_self 2 hw.ne') hlength) _
  cases hout : (shiftRight c l).2 with
  | false =>
    rw [hout, Bool.toNat_false] at hnumber
    exact iff_of_false Bool.noConfusion (by omega)
  | true =>
    rw [hout, Bool.toNat_true] at hnumber
    exact iff_of_true rfl (by omega)

/-! ## Signed numbers -/

theorem negative_reverse (hw : 0 < w) (x : BitVec w) (l : List (BitVec w)) : Negative (x :: l).reverse ↔ x.msb = true := by
  unfold Negative
  rw [List.reverse_cons, List.length_append]
  exact value_concat_msb hw l.reverse x

theorem signedNumber_cons (hw : 0 < w) (x : BitVec w) (l : List (BitVec w)) :
    signedNumber (x :: l) = number (x :: l) - x.msb.toNat * ((2 ^ w) ^ (l.length + 1) : Nat) := by
  have hsign := negative_reverse hw x l
  unfold signedNumber number
  cases hx : x.msb with
  | false =>
    rw [hx] at hsign
    rw [signedValue_of_not_negative (mt hsign.mp Bool.false_ne_true)]
    simp
  | true =>
    rw [hx] at hsign
    rw [signedValue_of_negative (hsign.mpr rfl), List.length_reverse, List.length_cons]
    simp

/-- The sign that comes in is the sign that was there. -/
theorem shiftDigit_msb (hw : 0 < w) (x : BitVec w) : (shiftDigit x.msb x).msb = x.msb := by
  have hdigit := shiftDigit_toNat hw x.msb x
  have hlsb := (x.getLsbD 0).toNat_le
  have hhalf : 2 ^ w = 2 * 2 ^ (w - 1) := (mul_pow_sub_one hw.ne' 2).symm
  have hx := x.isLt
  rw [BitVec.msb_eq_decide (shiftDigit x.msb x)]
  cases hsign : x.msb with
  | false =>
    rw [hsign, Bool.toNat_false] at hdigit
    rw [BitVec.msb_eq_decide, decide_eq_false_iff_not] at hsign
    exact decide_eq_false (by omega)
  | true =>
    rw [hsign, Bool.toNat_true] at hdigit
    exact decide_eq_true (by omega)

/-- With its sign coming in a signed number is halved. -/
theorem shiftRight_signed (hw : 0 < w) (x : BitVec w) (l : List (BitVec w)) :
    signedNumber (shiftRight x.msb (x :: l)).1 = signedNumber (x :: l) / 2 := by
  have hnumber := number_shiftRight hw x.msb (x :: l)
  have hout := (shiftRight x.msb (x :: l)).2.toNat_le
  have hcons : (shiftRight x.msb (x :: l)).1 = shiftDigit x.msb x :: (shiftRight (x.getLsbD 0) l).1 := rfl
  rw [List.length_cons] at hnumber
  rw [hcons] at hnumber ⊢
  rw [signedNumber_cons hw, signedNumber_cons hw, shiftDigit_msb hw, shiftRight_length]
  generalize number (shiftDigit x.msb x :: _) = r at hnumber ⊢
  push_cast
  generalize hsign : (x.msb.toNat : Int) * (2 ^ w) ^ (l.length + 1) = N at *
  have hsum : 2 * (r : Int) + ((shiftRight x.msb (x :: l)).2.toNat : Int) = N + number (x :: l) := by
    rw [← hsign]
    exact_mod_cast hnumber
  omega

theorem signedNumber_inj {k l : List (BitVec w)} (hlength : k.length = l.length) :
    signedNumber k = signedNumber l ↔ k = l := by
  refine ⟨fun h => ?_, congrArg signedNumber⟩
  have hreverse : k.reverse.length = l.reverse.length := by rw [List.length_reverse, List.length_reverse, hlength]
  have hk := value_lt k.reverse
  have hl := value_lt l.reverse
  unfold signedNumber signedValue at h
  rw [hreverse] at h hk
  have hmod : (value k.reverse : Int) % ((2 ^ w) ^ l.reverse.length : Nat) =
      (value l.reverse : Int) % ((2 ^ w) ^ l.reverse.length : Nat) := by
    rw [← Int.bmod_emod, h, Int.bmod_emod]
  rw [Int.emod_eq_of_lt (by omega) (by omega), Int.emod_eq_of_lt (by omega) (by omega)] at hmod
  exact List.reverse_inj.mp ((value_inj hreverse).mp (Int.ofNat_inj.mp hmod))

end Logic.Digits
