import Mathlib.Data.BitVec
import Mathlib.Data.List.Basic

/-!
# Bytes written as pairs of hexadecimal digits

Characters are their codes. `Encodes bs cs` says that the characters `cs` are the digits of the bytes
`bs`, in upper or lower case.
-/

namespace Format

/-- The value of a hexadecimal digit. -/
def hexDigit (c : BitVec 8) : Option Nat :=
  if 0x30 ≤ c.toNat ∧ c.toNat ≤ 0x39 then some (c.toNat - 0x30)
  else if 0x41 ≤ c.toNat ∧ c.toNat ≤ 0x46 then some (c.toNat - 0x37)
  else if 0x61 ≤ c.toNat ∧ c.toNat ≤ 0x66 then some (c.toNat - 0x57)
  else none

/-- The characters are the digits of the bytes, the high one first. -/
inductive Encodes : List (BitVec 8) → List (BitVec 8) → Prop
  | nil : Encodes [] []
  | cons {b c d : BitVec 8} {h l : Nat} {bs cs : List (BitVec 8)} :
      hexDigit c = some h → hexDigit d = some l → b.toNat = h * 16 + l → Encodes bs cs →
        Encodes (b :: bs) (c :: d :: cs)

namespace Encodes

variable {bs bs' cs : List (BitVec 8)}

/-- The digits of a list of bytes are those of its parts. -/
theorem split (h : Encodes (bs ++ bs') cs) :
    ∃ cs₁ cs₂, cs = cs₁ ++ cs₂ ∧ Encodes bs cs₁ ∧ Encodes bs' cs₂ := by
  induction bs generalizing cs with
  | nil => exact ⟨[], cs, rfl, nil, h⟩
  | cons b bs ih =>
    cases h with
    | cons hc hd hb hrest =>
      obtain ⟨cs₁, cs₂, rfl, h₁, h₂⟩ := ih hrest
      exact ⟨_, cs₂, rfl, cons hc hd hb h₁, h₂⟩

/-- A list of one byte has two digits. -/
theorem byte {b : BitVec 8} (h : Encodes [b] cs) :
    ∃ c d x y, cs = [c, d] ∧ hexDigit c = some x ∧ hexDigit d = some y ∧ b.toNat = x * 16 + y := by
  cases h with
  | cons hc hd hb hrest =>
    cases hrest
    exact ⟨_, _, _, _, rfl, hc, hd, hb⟩

end Encodes

/-- The sum of bytes, modulo 256. -/
def byteSum : List (BitVec 8) → BitVec 8
  | [] => 0
  | b :: bs => b + byteSum bs

theorem byteSum_append (bs bs' : List (BitVec 8)) : byteSum (bs ++ bs') = byteSum bs + byteSum bs' := by
  induction bs with
  | nil => exact (BitVec.zero_add _).symm
  | cons b bs ih => rw [List.cons_append, byteSum, byteSum, ih, BitVec.add_assoc]

end Format
