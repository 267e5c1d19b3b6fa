import Ucsim.Logic.Digits

/-!
# Packed decimal numbers

Bytes with two decimal digits each, the least significant one first, and their sums and differences.
-/

namespace Logic.Decimal

open Digits

/-! ## Bytes -/

/-- Two decimal digits in a byte. -/
def Packed (x : BitVec 8) : Prop := x.toNat % 16 ≤ 9 ∧ x.toNat / 16 ≤ 9

instance (x : BitVec 8) : Decidable (Packed x) := inferInstanceAs (Decidable (x.toNat % 16 ≤ 9 ∧ x.toNat / 16 ≤ 9))

/-- The number that they stand for. -/
def decimal (x : BitVec 8) : Nat := 10 * (x.toNat / 16) + x.toNat % 16

/-- The digits of a number below 100. -/
def pack (n : Nat) : BitVec 8 := BitVec.ofNat 8 (16 * (n / 10) + n % 10)

variable {n : Nat} {x y : BitVec 8}

theorem pack_toNat (h : n < 100) : (pack n).toNat = 16 * (n / 10) + n % 10 := by
  rw [pack, BitVec.toNat_ofNat, Nat.mod_eq_of_lt]
  omega

theorem packed_pack (h : n < 100) : Packed (pack n) := by
  rw [Packed, pack_toNat h]
  omega

theorem decimal_pack (h : n < 100) : decimal (pack n) = n := by
  rw [decimal, pack_toNat h]
  omega

theorem decimal_lt (h : Packed x) : decimal x < 100 := by
  obtain ⟨hlow, hhigh⟩ := h
  unfold decimal
  omega

theorem decimal_inj (hx : Packed x) (hy : Packed y) (h : decimal x = decimal y) : x = y := by
  obtain ⟨hxl, hxh⟩ := hx
  obtain ⟨hyl, hyh⟩ := hy
  unfold decimal at h
  apply BitVec.eq_of_toNat_eq
  omega

/-! ## Numbers -/

/-- The number that bytes of two digits stand for. -/
def decimalValue (l : List (BitVec 8)) : Nat := Nat.ofDigits 100 (l.map decimal)

theorem decimalValue_cons (x : BitVec 8) (l : List (BitVec 8)) :
    decimalValue (x :: l) = decimal x + 100 * decimalValue l := by
  rw [decimalValue, List.map_cons, Nat.ofDigits_cons]
  rfl

/-- Digits and what is carried out of them stand for one number only. -/
theorem digits_unique {k l : List (BitVec 8)} (hk : ∀ x ∈ k, Packed x) (hl : ∀ x ∈ l, Packed x)
    (hlength : k.length = l.length) {b c : Bool}
    (h : decimalValue k + 100 ^ k.length * b.toNat = decimalValue l + 100 ^ l.length * c.toNat) : k = l ∧ b = c := by
  induction k generalizing l with
  | nil =>
    obtain rfl := List.length_eq_zero_iff.mp hlength.symm
    have hbc : b.toNat = c.toNat := by simpa [decimalValue] using h
    refine ⟨rfl, ?_⟩
    revert hbc
    cases b <;> cases c <;> decide
  | cons x k ih =>
    obtain ⟨y, l, rfl⟩ := List.exists_cons_of_length_eq_add_one hlength.symm
    obtain ⟨hx, hk⟩ := List.forall_mem_cons.mp hk
    obtain ⟨hy, hl⟩ := List.forall_mem_cons.mp hl
    have hxlt := decimal_lt hx
    have hylt := decimal_lt hy
    simp only [decimalValue_cons, List.length_cons, Nat.pow_succ', Nat.mul_assoc] at h
    have hrest : decimalValue k + 100 ^ k.length * b.toNat = decimalValue l + 100 ^ l.length * c.toNat := by omega
    obtain ⟨hkl, hbc⟩ := ih hk hl (Nat.succ.inj hlength) hrest
    have hdigit : decimal x = decimal y := by omega
    exact ⟨congrArg₂ _ (decimal_inj hx hy hdigit) hkl, hbc⟩

/-! ## Sums and differences -/

/-- The digits of a sum and the carry. -/
def decimalSum (x y : BitVec 8) (c : Bool) : BitVec 8 × Bool :=
  (pack ((decimal x + decimal y + c.toNat) % 100), decide (100 ≤ decimal x + decimal y + c.toNat))

/-- The digits of a difference and the borrow. -/
def decimalDifference (x y : BitVec 8) (c : Bool) : BitVec 8 × Bool :=
  (pack ((100 + decimal x - (decimal y + c.toNat)) % 100), decide (decimal x < decimal y + c.toNat))

variable {l : List (BitVec 8 × BitVec 8)}

theorem ripple_packed {op : BitVec 8 → BitVec 8 → Bool → BitVec 8 × Bool} (hop : ∀ x y c, Packed (op x y c).1)
    (l : List (BitVec 8 × BitVec 8)) (c : Bool) : ∀ x ∈ (ripple op l c).1, Packed x := by
  induction l generalizing c with
  | nil => exact List.forall_mem_nil _
  | cons p l ih => exact List.forall_mem_cons.mpr ⟨hop _ _ _, ih _⟩

theorem decimalSum_packed (x y : BitVec 8) (c : Bool) : Packed (decimalSum x y c).1 :=
  packed_pack (Nat.mod_lt _ (by decide))

theorem decimalDifference_packed (x y : BitVec 8) (c : Bool) : Packed (decimalDifference x y c).1 :=
  packed_pack (Nat.mod_lt _ (by decide))

theorem decimalSum_value (hx : Packed x) (hy : Packed y) (c : Bool) :
    decimal (decimalSum x y c).1 + 100 * (decimalSum x y c).2.toNat = decimal x + decimal y + c.toNat := by
  have hxlt := decimal_lt hx
  have hylt := decimal_lt hy
  have hc := c.toNat_le
  rw [decimalSum, decimal_pack (Nat.mod_lt _ (by decide))]
  by_cases h : 100 ≤ decimal x + decimal y + c.toNat
  · rw [decide_eq_true h, Bool.toNat_true]
    omega
  · rw [decide_eq_false h, Bool.toNat_false]
    omega

theorem decimalDifference_value (hx : Packed x) (hy : Packed y) (c : Bool) :
    decimal (decimalDifference x y c).1 + decimal y + c.toNat = decimal x + 100 * (decimalDifference x y c).2.toNat := by
  have hxlt := decimal_lt hx
  have hylt := decimal_lt hy
  have hc := c.toNat_le
  rw [decimalDifference, decimal_pack (Nat.mod_lt _ (by decide))]
  by_cases h : decimal x < decimal y + c.toNat
  · rw [decide_eq_true h, Bool.toNat_true]
    omega
  · rw [decide_eq_false h, Bool.toNat_false]
    omega

theorem ripple_decimalSum (hl : ∀ p ∈ l, Packed p.1 ∧ Packed p.2) (c : Bool) :
    decimalValue (ripple decimalSum l c).1 + 100 ^ l.length * (ripple decimalSum l c).2.toNat =
      decimalValue (l.map Prod.fst) + decimalValue (l.map Prod.snd) + c.toNat := by
  induction l generalizing c with
  | nil => simp [ripple, decimalValue]
  | cons p l ih =>
    obtain ⟨x, y⟩ := p
    obtain ⟨⟨hx, hy⟩, hl⟩ := List.forall_mem_cons.mp hl
    have hdigit := decimalSum_value hx hy c
    have hrest := ih hl (decimalSum x y c).2
    simp only [ripple, List.map_cons, List.length_cons, decimalValue_cons, Nat.pow_succ]
    linear_combination hdigit + 100 * hrest

theorem ripple_decimalDifference (hl : ∀ p ∈ l, Packed p.1 ∧ Packed p.2) (c : Bool) :
    decimalValue (ripple decimalDifference l c).1 + decimalValue (l.map Prod.snd) + c.toNat =
      decimalValue (l.map Prod.fst) + 100 ^ l.length * (ripple decimalDifference l c).2.toNat := by
  induction l generalizing c with
  | nil => simp [ripple, decimalValue]
  | cons p l ih =>
    obtain ⟨x, y⟩ := p
    obtain ⟨⟨hx, hy⟩, hl⟩ := List.forall_mem_cons.mp hl
    have hdigit := decimalDifference_value hx hy c
    have hrest := ih hl (decimalDifference x y c).2
    simp only [ripple, List.map_cons, List.length_cons, decimalValue_cons, Nat.pow_succ]
    linear_combination hdigit + 100 * hrest

/-- Packed digits with the value of a sum are the ones from digit to digit, as there are no others. -/
theorem sum_digits_iff (hl : ∀ p ∈ l, Packed p.1 ∧ Packed p.2) (c : Bool) {digits : List (BitVec 8)}
    (hlength : digits.length = l.length) (b : Bool) :
    (∀ r ∈ digits, Packed r) ∧ decimalValue digits + 100 ^ l.length * b.toNat =
        decimalValue (l.map Prod.fst) + decimalValue (l.map Prod.snd) + c.toNat ↔
      (digits, b) = ripple decimalSum l c := by
  have hsum := ripple_decimalSum hl c
  have hpacked := ripple_packed decimalSum_packed l c
  have hcount : (ripple decimalSum l c).1.length = l.length := ripple_length l c
  constructor
  · rintro ⟨hdigits, hvalue⟩
    obtain ⟨hall, hcarry⟩ := digits_unique hdigits hpacked (hlength.trans hcount.symm)
      (b := b) (c := (ripple decimalSum l c).2) (by rw [hlength, hcount, hvalue, hsum])
    exact Prod.ext hall hcarry
  · intro heq
    rw [← heq] at hsum hpacked
    exact ⟨hpacked, hsum⟩

theorem difference_digits_iff (hl : ∀ p ∈ l, Packed p.1 ∧ Packed p.2) (c : Bool) {digits : List (BitVec 8)}
    (hlength : digits.length = l.length) (b : Bool) :
    (∀ r ∈ digits, Packed r) ∧ decimalValue digits + decimalValue (l.map Prod.snd) + c.toNat =
        decimalValue (l.map Prod.fst) + 100 ^ l.length * b.toNat ↔
      (digits, b) = ripple decimalDifference l c := by
  have hdifference := ripple_decimalDifference hl c
  have hpacked := ripple_packed decimalDifference_packed l c
  have hcount : (ripple decimalDifference l c).1.length = l.length := ripple_length l c
  constructor
  · rintro ⟨hdigits, hvalue⟩
    -- the borrows stand on the other sides
    obtain ⟨hall, hcarry⟩ := digits_unique hdigits hpacked (hlength.trans hcount.symm)
      (b := (ripple decimalDifference l c).2) (c := b) (by rw [hlength, hcount]; omega)
    exact Prod.ext hall hcarry.symm
  · intro heq
    rw [← heq] at hdifference hpacked
    exact ⟨hpacked, hdifference⟩

end Logic.Decimal
