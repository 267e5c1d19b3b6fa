import Mathlib.Data.BitVec
import Mathlib.Data.Nat.Digits.Defs
import Mathlib.Tactic.LinearCombination
import Mathlib.Tactic.Linarith

/-!
# Numbers in digits

Digits of `w` bits, the least significant one first, and operations that go from digit to digit and carry something along.
-/

namespace Logic.Digits

variable {w : Nat} {σ : Type}

/-! ## Values -/

/-- The number that digits stand for. -/
def value (digits : List (BitVec w)) : Nat := Nat.ofDigits (2 ^ w) (digits.map BitVec.toNat)

theorem value_nil : value ([] : List (BitVec w)) = 0 := rfl

theorem value_cons (x : BitVec w) (l : List (BitVec w)) : value (x :: l) = x.toNat + 2 ^ w * value l := by
  unfold value
  rw [List.map_cons, Nat.ofDigits_cons]

theorem value_concat (l : List (BitVec w)) (x : BitVec w) :
    value (l ++ [x]) = value l + (2 ^ w) ^ l.length * x.toNat := by
  unfold value
  rw [List.map_append, Nat.ofDigits_append, List.length_map]
  exact congrArg _ (congrArg _ Nat.ofDigits_singleton)

theorem value_lt (l : List (BitVec w)) : value l < (2 ^ w) ^ l.length := by
  induction l with
  | nil => exact Nat.one_pos
  | cons x l ih =>
    have hx := x.isLt
    rw [value_cons, List.length_cons, Nat.pow_succ']
    calc x.toNat + 2 ^ w * value l < 2 ^ w * (value l + 1) := by rw [Nat.mul_add_one]; omega
      _ ≤ 2 ^ w * (2 ^ w) ^ l.length := Nat.mul_le_mul_left _ ih

theorem value_inj {k l : List (BitVec w)} (hlength : k.length = l.length) : value k = value l ↔ k = l := by
  refine ⟨fun h => ?_, congrArg value⟩
  induction k generalizing l with
  | nil => exact (List.length_eq_zero_iff.mp hlength.symm).symm
  | cons x k ih =>
    obtain ⟨y, l, rfl⟩ := List.exists_cons_of_length_eq_add_one hlength.symm
    rw [value_cons, value_cons] at h
    have hpos : 0 < 2 ^ w := Nat.two_pow_pos w
    have hx : x.toNat = y.toNat := by
      have hmod := congrArg (· % 2 ^ w) h
      simp only [Nat.add_mul_mod_self_left] at hmod
      rwa [Nat.mod_eq_of_lt x.isLt, Nat.mod_eq_of_lt y.isLt] at hmod
    have hrest : value k = value l := Nat.eq_of_mul_eq_mul_left hpos (by omega)
    rw [BitVec.eq_of_toNat_eq hx, ih (Nat.succ.inj hlength) hrest]

/-- The sign is in the most significant digit. -/
theorem value_concat_msb (hw : 0 < w) (l : List (BitVec w)) (x : BitVec w) :
    (2 ^ w) ^ (l.length + 1) ≤ 2 * value (l ++ [x]) ↔ x.msb = true := by
  have hl := value_lt l
  have hhalf : 2 ^ w = 2 * 2 ^ (w - 1) := (mul_pow_sub_one hw.ne' 2).symm
  have hmsb : x.msb = true ↔ 2 ^ (w - 1) ≤ x.toNat := by rw [BitVec.msb_eq_decide, decide_eq_true_iff]
  have hbound : (2 ^ w) ^ (l.length + 1) = 2 * ((2 ^ w) ^ l.length * 2 ^ (w - 1)) := by
    rw [Nat.pow_succ]
    nth_rewrite 2 [hhalf]
    exact Nat.mul_left_comm _ _ _
  rw [hmsb, hbound, value_concat, Nat.mul_le_mul_left_iff (by decide)]
  constructor
  · intro h
    by_contra hlt
    have hle : (2 ^ w) ^ l.length * (x.toNat + 1) ≤ (2 ^ w) ^ l.length * 2 ^ (w - 1) :=
      Nat.mul_le_mul_left _ (Nat.lt_of_not_le hlt)
    rw [Nat.mul_add_one] at hle
    omega
  · intro h
    exact (Nat.mul_le_mul_left _ h).trans (Nat.le_add_left _ _)

/-! ## Signed values -/

/-- The number that digits stand for in the complement of two. -/
def signedValue (digits : List (BitVec w)) : Int := (value digits : Int).bmod ((2 ^ w) ^ digits.length)

/-- The sign is set. -/
def Negative (digits : List (BitVec w)) : Prop := (2 ^ w) ^ digits.length ≤ 2 * value digits

theorem signedValue_of_negative {l : List (BitVec w)} (h : Negative l) :
    signedValue l = value l - ((2 ^ w) ^ l.length : Nat) := by
  have hl := value_lt l
  unfold Negative at h
  unfold signedValue
  generalize (2 ^ w) ^ l.length = N at hl h
  rw [Int.bmod_def, Int.emod_eq_of_lt (by omega) (by omega), if_neg (by omega)]

theorem signedValue_of_not_negative {l : List (BitVec w)} (h : ¬ Negative l) : signedValue l = value l := by
  have hl := value_lt l
  unfold Negative at h
  unfold signedValue
  generalize (2 ^ w) ^ l.length = N at hl h
  rw [Int.bmod_def, Int.emod_eq_of_lt (by omega) (by omega), if_pos (by omega)]

variable {k l : List (BitVec w)}

/-- Numbers of one sign are in the same order in both ways. -/
theorem signedValue_lt_of_same (hlength : k.length = l.length) (h : Negative k ↔ Negative l) :
    signedValue k < signedValue l ↔ value k < value l := by
  by_cases hk : Negative k
  · rw [signedValue_of_negative hk, signedValue_of_negative (h.mp hk), hlength]
    omega
  · rw [signedValue_of_not_negative hk, signedValue_of_not_negative (mt h.mpr hk)]
    exact Int.ofNat_lt

theorem signedValue_lt_of_negative (hk : Negative k) (hl : ¬ Negative l) : signedValue k < signedValue l := by
  have hlt := value_lt k
  rw [signedValue_of_negative hk, signedValue_of_not_negative hl]
  omega

theorem value_lt_of_negative (hlength : k.length = l.length) (hk : ¬ Negative k) (hl : Negative l) : value k < value l := by
  unfold Negative at hk hl
  rw [hlength] at hk
  omega

theorem value_lt_iff (hlength : k.length = l.length) :
    value k < value l ↔ ¬ Negative k ∧ Negative l ∨ (Negative k ↔ Negative l) ∧ value k < value l := by
  have hpos := value_lt_of_negative hlength
  have hneg := value_lt_of_negative hlength.symm
  by_cases hk : Negative k <;> by_cases hl : Negative l
  · simp [hk, hl]
  · simpa [hk, hl] using (hneg hl hk).le
  · simpa [hk, hl] using hpos hk hl
  · simp [hk, hl]

theorem signedValue_lt_iff (hlength : k.length = l.length) :
    signedValue k < signedValue l ↔ Negative k ∧ ¬ Negative l ∨ (Negative k ↔ Negative l) ∧ value k < value l := by
  by_cases hk : Negative k <;> by_cases hl : Negative l
  · simpa [hk, hl] using signedValue_lt_of_same hlength (iff_of_true hk hl)
  · simpa [hk, hl] using signedValue_lt_of_negative hk hl
  · simpa [hk, hl] using (signedValue_lt_of_negative hl hk).le
  · simpa [hk, hl] using signedValue_lt_of_same hlength (iff_of_false hk hl)

/-! ## From digit to digit -/

/-- An operation goes through two numbers of the same length. -/
def ripple (op : BitVec w → BitVec w → σ → BitVec w × σ) : List (BitVec w × BitVec w) → σ → List (BitVec w) × σ
  | [], c => ([], c)
  | (x, y) :: l, c =>
    let q := ripple op l (op x y c).2
    ((op x y c).1 :: q.1, q.2)

section Ripple

variable {op : BitVec w → BitVec w → σ → BitVec w × σ}

theorem ripple_length (l : List (BitVec w × BitVec w)) (c : σ) : (ripple op l c).1.length = l.length := by
  induction l generalizing c with
  | nil => rfl
  | cons p l ih => exact congrArg (· + 1) (ih _)

theorem ripple_concat (l : List (BitVec w × BitVec w)) (x y : BitVec w) (c : σ) :
    (ripple op (l ++ [(x, y)]) c).2 = (op x y (ripple op l c).2).2 := by
  induction l generalizing c with
  | nil => rfl
  | cons p l ih => exact ih _

/-- Two operations do the same at every digit, with what the second one carries along. -/
def AgreeAlong (op op' : BitVec w → BitVec w → σ → BitVec w × σ) : List (BitVec w × BitVec w) → σ → Prop
  | [], _ => True
  | (x, y) :: l, c => op x y c = op' x y c ∧ AgreeAlong op op' l (op' x y c).2

/-- Operations whose digits show what is carried along have the same outcome only if they agree everywhere. -/
theorem ripple_eq_iff {op' : BitVec w → BitVec w → σ → BitVec w × σ} {P : BitVec w × BitVec w → Prop}
    (hseen : ∀ x y c c', P (x, y) → (op x y c).1 = (op' x y c').1 → c = c') {l : List (BitVec w × BitVec w)}
    (hP : ∀ p ∈ l, P p) (c : σ) : ripple op l c = ripple op' l c ↔ AgreeAlong op op' l c := by
  induction l generalizing c with
  | nil => exact iff_of_true rfl trivial
  | cons p l ih =>
    obtain ⟨x, y⟩ := p
    obtain ⟨-, hrest⟩ := List.forall_mem_cons.mp hP
    simp only [ripple, AgreeAlong, Prod.mk.injEq, List.cons.injEq]
    constructor
    · rintro ⟨⟨hdigit, hdigits⟩, hlast⟩
      have hcarry : (op x y c).2 = (op' x y c).2 := by
        cases l with
        | nil => exact hlast
        | cons q l =>
          -- the next digit shows the carry
          obtain ⟨hq, -⟩ := List.forall_mem_cons.mp hrest
          exact hseen q.1 q.2 _ _ hq (List.cons.inj hdigits).1
      refine ⟨Prod.ext hdigit hcarry, (ih hrest _).mp ?_⟩
      rw [hcarry] at hdigits hlast
      exact Prod.ext hdigits hlast
    · rintro ⟨hstep, hagree⟩
      have hall := (ih hrest _).mpr hagree
      rw [hstep, hall]
      exact ⟨⟨rfl, rfl⟩, rfl⟩

end Ripple

/-! ## Sums and differences -/

/-- The digit of a sum and the carry. -/
def sum (x y : BitVec w) (c : Bool) : BitVec w × Bool :=
  (x + y + BitVec.ofNat w c.toNat, decide (2 ^ w ≤ x.toNat + y.toNat + c.toNat))

/-- The digit of a difference and the borrow. -/
def difference (x y : BitVec w) (c : Bool) : BitVec w × Bool :=
  (x - y - BitVec.ofNat w c.toNat, decide (x.toNat < y.toNat + c.toNat))

theorem sum_toNat (hw : 0 < w) (x y : BitVec w) (c : Bool) :
    (sum x y c).1.toNat + 2 ^ w * (sum x y c).2.toNat = x.toNat + y.toNat + c.toNat := by
  have hx := x.isLt
  have hy := y.isLt
  have hc := c.toNat_le
  have hone : 1 < 2 ^ w := Nat.one_lt_two_pow hw.ne'
  have hdigit : (sum x y c).1.toNat = (x.toNat + y.toNat + c.toNat) % 2 ^ w := by
    unfold sum
    simp only [BitVec.toNat_add, BitVec.toNat_ofNat, Nat.mod_add_mod, Nat.add_mod_mod]
  rw [hdigit]
  unfold sum
  rcases Nat.lt_or_ge (x.toNat + y.toNat + c.toNat) (2 ^ w) with h | h
  · rw [Nat.mod_eq_of_lt h, decide_eq_false (Nat.not_le.mpr h)]
    rfl
  · rw [Nat.mod_eq_sub_mod h, Nat.mod_eq_of_lt (by omega), decide_eq_true h, Bool.toNat_true, Nat.mul_one]
    exact Nat.sub_add_cancel h

theorem difference_toNat (hw : 0 < w) (x y : BitVec w) (c : Bool) :
    (difference x y c).1.toNat + y.toNat + c.toNat = x.toNat + 2 ^ w * (difference x y c).2.toNat := by
  have hx := x.isLt
  have hy := y.isLt
  have hc := c.toNat_le
  have hone : 1 < 2 ^ w := Nat.one_lt_two_pow hw.ne'
  have hcarry : (BitVec.ofNat w c.toNat).toNat = c.toNat := Nat.mod_eq_of_lt (by omega)
  have hdigit : (difference x y c).1.toNat = (2 ^ w + 2 ^ w + x.toNat - (y.toNat + c.toNat)) % 2 ^ w := by
    unfold difference
    rw [BitVec.toNat_sub, BitVec.toNat_sub, hcarry, Nat.add_mod_mod]
    congr 1
    omega
  rw [hdigit]
  unfold difference
  rcases Nat.lt_or_ge x.toNat (y.toNat + c.toNat) with h | h
  · rw [Nat.mod_eq_sub_mod (by omega), decide_eq_true h, Bool.toNat_true, Nat.mul_one]
    rcases Nat.lt_or_ge (2 ^ w + 2 ^ w + x.toNat - (y.toNat + c.toNat) - 2 ^ w) (2 ^ w) with hlt | hge
    · rw [Nat.mod_eq_of_lt hlt]
      omega
    · omega
  · have hsplit : 2 ^ w + 2 ^ w + x.toNat - (y.toNat + c.toNat) = x.toNat - (y.toNat + c.toNat) + 2 ^ w * 2 := by omega
    rw [hsplit, Nat.add_mul_mod_self_left, Nat.mod_eq_of_lt (by omega), decide_eq_false (Nat.not_lt.mpr h)]
    rw [Bool.toNat_false]
    omega

theorem ripple_sum (hw : 0 < w) (l : List (BitVec w × BitVec w)) (c : Bool) :
    value (ripple sum l c).1 + (2 ^ w) ^ l.length * (ripple sum l c).2.toNat =
      value (l.map Prod.fst) + value (l.map Prod.snd) + c.toNat := by
  induction l generalizing c with
  | nil => simp [ripple, value_nil]
  | cons p l ih =>
    obtain ⟨x, y⟩ := p
    have hdigit := sum_toNat hw x y c
    have hrest := ih (sum x y c).2
    simp only [ripple, List.map_cons, List.length_cons, value_cons, Nat.pow_succ]
    linear_combination hdigit + 2 ^ w * hrest

theorem ripple_difference (hw : 0 < w) (l : List (BitVec w × BitVec w)) (c : Bool) :
    value (ripple difference l c).1 + value (l.map Prod.snd) + c.toNat =
      value (l.map Prod.fst) + (2 ^ w) ^ l.length * (ripple difference l c).2.toNat := by
  induction l generalizing c with
  | nil => simp [ripple, value_nil]
  | cons p l ih =>
    obtain ⟨x, y⟩ := p
    have hdigit := difference_toNat hw x y c
    have hrest := ih (difference x y c).2
    simp only [ripple, List.map_cons, List.length_cons, value_cons, Nat.pow_succ]
    linear_combination hdigit + 2 ^ w * hrest

/-- A sum from digit to digit is the sum. -/
theorem value_ripple_sum (hw : 0 < w) (l : List (BitVec w × BitVec w)) :
    value (ripple sum l false).1 = (value (l.map Prod.fst) + value (l.map Prod.snd)) % (2 ^ w) ^ l.length ∧
      ((ripple sum l false).2 = true ↔ (2 ^ w) ^ l.length ≤ value (l.map Prod.fst) + value (l.map Prod.snd)) := by
  have hsum := ripple_sum hw l false
  have hlt := value_lt (ripple sum l false).1
  rw [ripple_length] at hlt
  rw [Bool.toNat_false, Nat.add_zero] at hsum
  rw [← hsum, Nat.add_mul_mod_self_left, Nat.mod_eq_of_lt hlt]
  cases (ripple sum l false).2 with
  | false => simpa using hlt
  | true => simp

/-- A difference from digit to digit is the difference. -/
theorem value_ripple_difference (hw : 0 < w) (l : List (BitVec w × BitVec w)) :
    value (ripple difference l false).1 =
        (value (l.map Prod.fst) + ((2 ^ w) ^ l.length - value (l.map Prod.snd))) % (2 ^ w) ^ l.length ∧
      ((ripple difference l false).2 = true ↔ value (l.map Prod.fst) < value (l.map Prod.snd)) := by
  have hdifference := ripple_difference hw l false
  have hlt := value_lt (ripple difference l false).1
  have hlt' := value_lt (l.map Prod.snd)
  rw [ripple_length] at hlt
  rw [List.length_map] at hlt'
  rw [Bool.toNat_false, Nat.add_zero] at hdifference
  generalize (2 ^ w) ^ l.length = N at hdifference hlt hlt' ⊢
  cases hborrow : (ripple difference l false).2 with
  | false =>
    rw [hborrow, Bool.toNat_false, Nat.mul_zero, Nat.add_zero] at hdifference
    have hsplit : value (l.map Prod.fst) + (N - value (l.map Prod.snd)) = value (ripple difference l false).1 + N := by omega
    rw [hsplit, Nat.add_mod_right, Nat.mod_eq_of_lt hlt]
    exact ⟨rfl, iff_of_false Bool.noConfusion (by omega)⟩
  | true =>
    rw [hborrow, Bool.toNat_true, Nat.mul_one] at hdifference
    have hsplit : value (l.map Prod.fst) + (N - value (l.map Prod.snd)) = value (ripple difference l false).1 := by omega
    rw [hsplit, Nat.mod_eq_of_lt hlt]
    exact ⟨rfl, iff_of_true rfl (by omega)⟩

end Logic.Digits
