import Mathlib.Data.BitVec

/-!
# Single bits of a word

Masks with one bit, and the words that `|` and `& ~` make with them.
-/

namespace Logic.Bits

variable {w k : Nat}

theorem twoPow_ne_zero (hk : k < w) : BitVec.twoPow w k ≠ 0 := fun h => by
  have hbit := congrArg (·.getLsbD k) h
  simp [hk] at hbit

theorem and_twoPow (x : BitVec w) (hk : k < w) : decide (x &&& BitVec.twoPow w k ≠ 0) = x.getLsbD k := by
  rw [BitVec.and_twoPow]
  cases x.getLsbD k with
  | false => simp
  | true => simpa using twoPow_ne_zero hk

theorem twoPow_and (x : BitVec w) (hk : k < w) : decide (BitVec.twoPow w k &&& x ≠ 0) = x.getLsbD k := by
  rw [BitVec.and_comm]
  exact and_twoPow x hk

/-- A word with the bit `k` changed. -/
def setBit (x : BitVec w) (k : Nat) (b : Bool) : BitVec w :=
  if b then x ||| BitVec.twoPow w k else x &&& ~~~BitVec.twoPow w k

/-- No other bit is changed. -/
theorem getLsbD_setBit (hk : k < w) (x : BitVec w) (b : Bool) (i : Nat) :
    (setBit x k b).getLsbD i = if i = k then b else x.getLsbD i := by
  unfold setBit
  by_cases hi : i = k
  · subst hi
    cases b <;> simp [hk]
  · have hne : ¬ k = i := fun h => hi h.symm
    cases b with
    | false =>
      rw [if_neg Bool.false_ne_true, if_neg hi, BitVec.getLsbD_and, BitVec.getLsbD_not, BitVec.getLsbD_twoPow]
      by_cases hlt : i < w
      · simp [hne, hlt]
      · rw [x.getLsbD_of_ge i (Nat.le_of_not_lt hlt), Bool.false_and]
    | true => simp [hi, hne]

end Logic.Bits
