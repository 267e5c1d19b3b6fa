import Ucsim.Avr.Exec

/-!
# The status register

The bits of `SREG` after the functions that compute it: 0 is C, 1 is Z, 2 is N, 3 is V and 4 is S.
-/

namespace Ucsim.Avr

/-! ## Single bits -/

section Bits

variable (c : Prop) [Decidable c] (bits sreg x : BitVec 16) (k : Nat) (hk : k < 16)

@[simp] theorem orIf_getElem : (orIf c bits sreg)[k] = (sreg[k] || decide c && bits[k]) := by
  unfold orIf
  by_cases h : c <;> simp [h]

@[simp] theorem putIf_getElem : (putIf c bits sreg)[k] = if bits[k] then decide c else sreg[k] := by
  unfold putIf
  by_cases h : c <;> cases hbit : bits[k] <;> simp [h, hbit]

/-- `x & bit`. -/
theorem and_bit : x &&& BitVec.twoPow 16 k = 0 ↔ x[k] = false := by
  have hbit : x.getLsbD k = x[k] := BitVec.getLsbD_eq_getElem hk
  have hne : BitVec.twoPow 16 k ≠ 0 := fun h => by
    have hzero := congrArg (·.getLsbD k) h
    simp [hk] at hzero
  rw [BitVec.and_twoPow, hbit]
  cases x[k] with
  | false => simp
  | true => simpa using hne

end Bits

variable (x : BitVec 16)

@[simp] theorem and_1 : x &&& 1#16 = 0#16 ↔ x[0] = false := and_bit x 0 (by decide)

@[simp] theorem and_0x80 : x &&& 128#16 = 0#16 ↔ x[7] = false := and_bit x 7 (by decide)

@[simp] theorem and_0x80' : 128#16 &&& x = 0#16 ↔ x[7] = false := by rw [BitVec.and_comm, and_0x80]

attribute [local simp] BIT_C BIT_H BIT_S BIT_V BIT_N BIT_Z BIT_SUB

/-! ## Subtractions -/

variable (D R f : BitVec 16)

/-- The borrow of a difference, from its signs. -/
def borrowBit (d r t : Bool) : Bool := !d && r || r && t || t && !d

theorem sub_plain_C : (sub_plain D R f).2[0] = borrowBit D[7] R[7] (D - R)[7] := by
  simp [sub_plain, sub_flags, borrowBit, Bool.or_assoc]

theorem sub_plain_Z : (sub_plain D R f).2[1] = decide ((D - R) &&& 0xff = 0) := by
  simp [sub_plain, sub_flags]

theorem sub_plain_S :
    (sub_plain D R f).2[4] = ((D - R)[7] ^^ (D[7] && !R[7] && !(D - R)[7] || !D[7] && R[7] && (D - R)[7])) := by
  simp [sub_plain, sub_flags]
  cases D[7] <;> cases R[7] <;> cases (D - R)[7] <;> rfl

/-- The condition of `sub_carry`. -/
def Differs : Prop := D.setWidth 32 - R.setWidth 32 - (f &&& BIT_C).setWidth 32 ≠ 0

instance : Decidable (Differs D R f) := inferInstanceAs (Decidable (_ ≠ _))

variable {D R f}

theorem sub_carry_of_differs (h : Differs D R f) : sub_carry D R f =
    (1, sub_flags D R 1 (· &&& ~~~BIT_Z) (f &&& ~~~BIT_SUB)) := by
  unfold Differs at h
  unfold sub_carry
  rw [if_pos h]
  rfl

theorem sub_carry_of_not_differs (h : ¬ Differs D R f) : sub_carry D R f =
    (0, sub_flags D R 0 id (f &&& ~~~BIT_SUB)) := by
  unfold Differs at h
  unfold sub_carry
  rw [if_neg h]
  rfl

variable (D R f)

/-- The result has no sign. -/
theorem sub_carry_C : (sub_carry D R f).2[0] = (!D[7] && R[7]) := by
  by_cases h : Differs D R f
  · simp [sub_carry_of_differs h, sub_flags]
  · simp [sub_carry_of_not_differs h, sub_flags]

theorem sub_carry_Z : (sub_carry D R f).2[1] = (f[1] && !decide (Differs D R f)) := by
  by_cases h : Differs D R f
  · simp [sub_carry_of_differs h, sub_flags, h]
  · simp [sub_carry_of_not_differs h, sub_flags, h]

theorem sub_carry_S : (sub_carry D R f).2[4] = (D[7] && !R[7]) := by
  by_cases h : Differs D R f
  · simp [sub_carry_of_differs h, sub_flags]
  · simp [sub_carry_of_not_differs h, sub_flags]

/-! ## Additions -/

theorem add_flags_C (result res : BitVec 16) : (add_flags D R result res f)[0] = decide (result &&& ~~~0xff ≠ 0) := by
  simp [add_flags]

end Ucsim.Avr
