import Mathlib.Data.BitVec
import Mathlib.Logic.Function.Iterate
import Mathlib.Tactic.Linarith

/-!
# Shifts by several places

Arithmetic shifts by one place, with the bit that is moved out and whether the result is zero, and what
several of them do.
-/

namespace Logic.Shifts

/-- A word, the bit that was moved out of it and whether it is zero. -/
@[ext] structure Shifted (w : Nat) where
  value : BitVec w
  carry : Bool
  zero : Bool
  deriving DecidableEq

inductive Direction
  | left | right
  deriving DecidableEq, Repr

namespace Direction

variable {w : Nat}

/-- The bits that stay in the word. To the right the sign is kept. -/
def moved : Direction → BitVec w → Nat → BitVec w
  | left, x, n => x <<< n
  | right, x, n => x.sshiftRight n

/-- The bit that a shift by one place moves out. -/
def out : Direction → BitVec w → Bool
  | left, x => x.msb
  | right, x => x.getLsbD 0

/-- A shift by one place. -/
def one (d : Direction) (t : Shifted w) : Shifted w :=
  ⟨d.moved t.value 1, d.out t.value, decide (d.moved t.value 1 = 0)⟩

variable (d : Direction) (x : BitVec w) (n : Nat)

theorem moved_zero : d.moved x 0 = x := by
  cases d with
  | left => exact BitVec.shiftLeft_zero x
  | right => exact BitVec.sshiftRight_zero

theorem moved_moved (m : Nat) : d.moved (d.moved x n) m = d.moved x (n + m) := by
  cases d with
  | left => exact (BitVec.shiftLeft_add x n m).symm
  | right => exact BitVec.sshiftRight_add.symm

/-- The last of several shifts moves out what the others have left at the end. -/
theorem one_iterate (t : Shifted w) :
    d.one^[n + 1] t = ⟨d.moved t.value (n + 1), d.out (d.moved t.value n), decide (d.moved t.value (n + 1) = 0)⟩ := by
  induction n with
  | zero => simp [one, moved_zero]
  | succ n ih =>
    rw [Function.iterate_succ_apply', ih]
    simp [one, moved_moved]

/-! ## Words that stay as they are -/

variable {d x n}

theorem shiftLeft_fixed (h : x <<< (n + 1) = x) : x = 0 := by
  have hbits : ∀ i, x.getLsbD i = false := by
    intro i
    induction i using Nat.strong_induction_on with
    | _ i ih =>
      rw [← h, BitVec.getLsbD_shiftLeft]
      by_cases hi : i < n + 1
      · simp [hi]
      · rw [ih (i - (n + 1)) (by omega), Bool.and_false]
  apply BitVec.eq_of_getLsbD_eq
  intro i _
  rw [hbits]
  simp

/-- A number is not its own half unless it is 0 or -1. -/
theorem half_fixed {a p r : Int} (hp : 2 ≤ p) (hnonneg : 0 ≤ r) (hlt : r < p) (h : r + p * a = a) : a = 0 ∨ a = -1 := by
  have hprod : (p - 1) * a = -r := by linarith
  rcases lt_trichotomy a 0 with hneg | hzero | hpos
  · right
    by_contra hne
    have htwo : a ≤ -2 := by omega
    have hmul : (p - 1) * a ≤ (p - 1) * -2 := Int.mul_le_mul_of_nonneg_left htwo (by omega)
    omega
  · exact .inl hzero
  · have hmul : (p - 1) * 1 ≤ (p - 1) * a := Int.mul_le_mul_of_nonneg_left (by omega) (by omega)
    omega

theorem sshiftRight_fixed (h : x.sshiftRight (n + 1) = x) : x = 0 ∨ x = BitVec.allOnes w := by
  have hint : x.toInt / 2 ^ (n + 1) = x.toInt := by
    have heq := congrArg BitVec.toInt h
    rwa [BitVec.toInt_sshiftRight, Int.shiftRight_eq_div_pow] at heq
  have hpow : (2 : Int) ≤ 2 ^ (n + 1) := by
    have hpos : (0 : Int) < 2 ^ n := Int.pow_pos (by decide)
    rw [Int.pow_succ]
    omega
  have hrem := Int.emod_add_mul_ediv x.toInt (2 ^ (n + 1))
  have hnonneg := Int.emod_nonneg x.toInt (show (2 : Int) ^ (n + 1) ≠ 0 by omega)
  have hlt := Int.emod_lt_of_pos x.toInt (show (0 : Int) < 2 ^ (n + 1) by omega)
  rw [hint] at hrem
  refine (half_fixed hpow hnonneg hlt hrem).imp (fun hzero => ?_) fun hone => ?_
  · apply BitVec.eq_of_toInt_eq
    rw [hzero]
    simp
  · have hwidth : 0 < w := by
      by_contra hw
      obtain rfl : w = 0 := by omega
      rw [BitVec.toInt_of_zero_length rfl] at hone
      omega
    apply BitVec.eq_of_toInt_eq
    rw [hone, BitVec.toInt_allOnes, if_pos hwidth]

theorem moved_fixed (h : d.moved x (n + 1) = x) : x = 0 ∨ d = right ∧ x = BitVec.allOnes w := by
  cases d with
  | left => exact .inl (shiftLeft_fixed h)
  | right => exact (sshiftRight_fixed h).imp_right fun hones => ⟨rfl, hones⟩

variable (d n)

theorem moved_of_zero : d.moved (0 : BitVec w) n = 0 := by
  cases d with
  | left => exact BitVec.zero_shiftLeft n
  | right => exact BitVec.zero_sshiftRight

variable {d}

/-- Only 0 has no bit to move out and none that stays. -/
theorem moved_one_iff {y : BitVec w} : d.moved y 1 = 0 ∧ d.out y = false ↔ y = 0 := by
  constructor
  · rintro ⟨hmoved, hout⟩
    cases d with
    | left =>
      apply BitVec.eq_of_getLsbD_eq
      intro i hi
      rw [BitVec.ofNat_eq_ofNat, BitVec.getLsbD_zero]
      by_cases hlast : i + 1 < w
      · have hbit : (y <<< 1).getLsbD (i + 1) = (0 : BitVec w).getLsbD (i + 1) := congrArg (·.getLsbD (i + 1)) hmoved
        have hone : ¬ i + 1 < 1 := by omega
        rwa [BitVec.getLsbD_shiftLeft, decide_eq_true hlast, decide_eq_false hone, Bool.not_false, Bool.true_and,
          Bool.true_and, Nat.add_sub_cancel, BitVec.ofNat_eq_ofNat, BitVec.getLsbD_zero] at hbit
      · have hmsb : y.getLsbD (w - 1) = false := (BitVec.msb_eq_getLsbD_last y).symm.trans hout
        rwa [show w - 1 = i by omega] at hmsb
    | right =>
      apply BitVec.eq_of_getLsbD_eq
      intro i hi
      rw [BitVec.ofNat_eq_ofNat, BitVec.getLsbD_zero]
      cases i with
      | zero => exact hout
      | succ i =>
        have hbit : (y.sshiftRight 1).getLsbD i = (0 : BitVec w).getLsbD i := congrArg (·.getLsbD i) hmoved
        have hlt : 1 + i < w := by omega
        have hle : ¬ w ≤ i := by omega
        rw [BitVec.getLsbD_sshiftRight, decide_eq_false hle, if_pos hlt, BitVec.ofNat_eq_ofNat,
          BitVec.getLsbD_zero] at hbit
        simpa only [Nat.add_comm, Bool.not_false, Bool.true_and] using hbit
  · rintro rfl
    refine ⟨moved_of_zero d 1, ?_⟩
    cases d <;> simp [out]

/-! ## When several shifts do what is asked -/

variable {n} {t : Shifted w}

theorem out_of_zero : d.out (0 : BitVec w) = false := (moved_one_iff.mpr rfl).2

theorem moved_allOnes : right.moved (BitVec.allOnes w) n = BitVec.allOnes w := by
  apply BitVec.eq_of_getLsbD_eq
  intro i hi
  have hwidth : 0 < w := by omega
  have hle : ¬ w ≤ i := by omega
  simp [moved, BitVec.getLsbD_sshiftRight, BitVec.msb_allOnes hwidth, hi]

theorem out_allOnes (hw : 0 < w) : right.out (BitVec.allOnes w) = true := by simp [out, hw]

theorem allOnes_ne_zero (hw : 0 < w) : BitVec.allOnes w ≠ 0 := fun h => by
  have hbit := congrArg (·.getLsbD 0) h
  simp [hw] at hbit

/-- Several shifts change nothing only where a single shift already keeps it all. -/
theorem iterate_self_iff (hw : 0 < w) : d.one^[n] t = t ↔
    n = 0 ∨ t = ⟨0, false, true⟩ ∨ d = right ∧ t = ⟨BitVec.allOnes w, true, false⟩ := by
  obtain ⟨x, c, z⟩ := t
  cases n with
  | zero => exact iff_of_true rfl (.inl rfl)
  | succ n =>
    rw [one_iterate, or_iff_right (Nat.succ_ne_zero n)]
    simp only [Shifted.mk.injEq]
    constructor
    · rintro ⟨hvalue, hcarry, hzero⟩
      rcases moved_fixed hvalue with rfl | ⟨rfl, rfl⟩
      · rw [moved_of_zero, out_of_zero] at hcarry
        rw [moved_of_zero, decide_eq_true rfl] at hzero
        exact .inl ⟨rfl, hcarry.symm, hzero.symm⟩
      · rw [moved_allOnes, out_allOnes hw] at hcarry
        rw [moved_allOnes, decide_eq_false (allOnes_ne_zero hw)] at hzero
        exact .inr ⟨rfl, rfl, hcarry.symm, hzero.symm⟩
    · rintro (⟨rfl, rfl, rfl⟩ | ⟨rfl, rfl, rfl, rfl⟩)
      · rw [moved_of_zero, moved_of_zero, out_of_zero, decide_eq_true rfl]
        exact ⟨rfl, rfl, rfl⟩
      · rw [moved_allOnes, moved_allOnes, out_allOnes hw, decide_eq_false (allOnes_ne_zero hw)]
        exact ⟨rfl, rfl, rfl⟩

/-- A word that stays shows in one of the flags. -/
theorem iterate_same_value_iff (hw : 0 < w) :
    d.one^[n] t = ⟨t.value, false, false⟩ ↔ n = 0 ∧ t.carry = false ∧ t.zero = false := by
  obtain ⟨x, c, z⟩ := t
  cases n with
  | zero => simp
  | succ n =>
    refine iff_of_false (fun h => ?_) fun h => Nat.succ_ne_zero n h.1
    rw [one_iterate, Shifted.mk.injEq] at h
    obtain ⟨hvalue, hcarry, hzero⟩ := h
    rcases moved_fixed hvalue with hx | ⟨rfl, hx⟩
    · exact of_decide_eq_false hzero (hvalue.trans hx)
    · rw [hx, moved_allOnes, out_allOnes hw] at hcarry
      exact Bool.false_ne_true hcarry.symm

/-- The result is 0 without a carry only if one shift less already makes it 0. -/
theorem iterate_eq_zero_iff :
    d.one^[n] t = ⟨0, false, true⟩ ↔ if n = 0 then t = ⟨0, false, true⟩ else d.moved t.value (n - 1) = 0 := by
  cases n with
  | zero => exact Iff.rfl
  | succ n =>
    have hlast := moved_one_iff (d := d) (y := d.moved t.value n)
    rw [moved_moved] at hlast
    rw [one_iterate, if_neg (Nat.succ_ne_zero n), Nat.add_sub_cancel, ← hlast, Shifted.mk.injEq]
    exact ⟨fun h => ⟨h.1, h.2.1⟩, fun h => ⟨h.1, h.2, decide_eq_true h.1⟩⟩

end Direction

end Logic.Shifts
