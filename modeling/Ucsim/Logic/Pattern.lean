import Mathlib.Data.BitVec

/-!
# Tables of patterns

A row of such a table stands for the words that have given values in some of their bits. The first row that fits a word
counts.
-/

namespace Logic

/-- A row: `value` is what the bits of `mask` have to be. -/
structure Pattern (w : Nat) (α : Type) where
  mask : BitVec w
  value : BitVec w
  body : α
  deriving DecidableEq

namespace Pattern

variable {w : Nat} {α : Type}

def fits (code : BitVec w) (p : Pattern w α) : Bool := decide (code &&& p.mask = p.value)

/-- The body of the first row that fits. -/
def find (table : List (Pattern w α)) (code : BitVec w) : Option α := (table.find? (fits code)).map body

/-- A word with the value in the bits of the mask can fit the row. -/
def meets (mask value : BitVec w) (p : Pattern w α) : Bool := decide ((value ^^^ p.value) &&& (mask &&& p.mask) = 0)

/-- All words with the value in the bits of the mask fit the row. -/
def Covers (mask value : BitVec w) (p : Pattern w α) : Prop := p.mask &&& mask = p.mask ∧ value &&& p.mask = p.value

instance (mask value : BitVec w) (p : Pattern w α) : Decidable (p.Covers mask value) :=
  inferInstanceAs (Decidable (_ ∧ _))

variable {table rest : List (Pattern w α)} {code mask value : BitVec w} {p : Pattern w α}

theorem meets_of_fits (hcode : code &&& mask = value) (h : p.fits code) : p.meets mask value := by
  have hfit : code &&& p.mask = p.value := of_decide_eq_true h
  refine decide_eq_true ?_
  rw [← hcode, ← hfit]
  ext i hi
  simp only [BitVec.getElem_and, BitVec.getElem_xor, BitVec.ofNat_eq_ofNat, BitVec.getElem_zero]
  cases code[i] <;> cases mask[i] <;> cases p.mask[i] <;> rfl

theorem fits_of_covers (hcode : code &&& mask = value) (h : p.Covers mask value) : p.fits code := by
  obtain ⟨hmask, hvalue⟩ := h
  refine decide_eq_true ?_
  rw [← hvalue, ← hcode, BitVec.and_assoc, BitVec.and_comm mask, hmask]

/-- The rows that cannot fit do not count. -/
theorem find_filter (hcode : code &&& mask = value) : find table code = find (table.filter (meets mask value)) code := by
  have hboth : ∀ p : Pattern w α, (p.meets mask value && p.fits code) = p.fits code := by
    intro p
    cases hfit : p.fits code with
    | false => exact Bool.and_false _
    | true => rw [meets_of_fits hcode hfit, Bool.and_self]
  unfold find
  rw [List.find?_filter]
  simp only [← Bool.and_eq_true, hboth, Bool.decide_eq_true]

theorem find_cons_of_fits (h : p.fits code) : find (p :: table) code = some p.body :=
  congrArg (Option.map body) (List.find?_cons_of_pos h)

theorem find_cons_of_not_fits (h : ¬ p.fits code) : find (p :: table) code = find table code :=
  congrArg (Option.map body) (List.find?_cons_of_neg h)

/-- The first row that can fit counts if it has to. -/
theorem find_of_first (hcode : code &&& mask = value) (hfirst : table.filter (meets mask value) = p :: rest)
    (hcovers : p.Covers mask value) : find table code = some p.body := by
  rw [find_filter hcode, hfirst]
  exact find_cons_of_fits (fits_of_covers hcode hcovers)

theorem find_none_of_filter (hcode : code &&& mask = value) (hnone : table.filter (meets mask value) = []) :
    find table code = none := by
  rw [find_filter hcode, hnone]
  rfl

theorem find_isSome_of_mem (hp : p ∈ table) (h : p.fits code) : find table code ≠ none := by
  unfold find
  simp only [ne_eq, Option.map_eq_none_iff, List.find?_eq_none]
  exact fun hno => hno p hp h

/-- A row behind one that fits all its words does not count. -/
theorem find_redundant {q : Pattern w α} {before : List (Pattern w α)} (hq : q ∈ before)
    (hcovers : q.Covers p.mask p.value) : find (before ++ p :: rest) code = find (before ++ rest) code := by
  unfold find
  rw [List.find?_append, List.find?_append]
  by_cases h : p.fits code
  · have hfit : q.fits code := fits_of_covers (of_decide_eq_true h) hcovers
    have hsome : (before.find? (fits code)).isSome := List.find?_isSome.mpr ⟨q, hq, hfit⟩
    obtain ⟨r, hr⟩ := Option.isSome_iff_exists.mp hsome
    rw [hr]
    rfl
  · rw [List.find?_cons_of_neg h]

/-- Part of the bits of a word. -/
theorem and_of_sub {sub : BitVec w} (hcode : code &&& mask = value) (hsub : sub &&& mask = sub) :
    code &&& sub = value &&& sub := by
  rw [← hcode, BitVec.and_assoc, BitVec.and_comm mask, hsub]

theorem find_some {a : α} (h : find table code = some a) : ∃ p ∈ table, code &&& p.mask = p.value ∧ p.body = a := by
  obtain ⟨p, hp, hbody⟩ := Option.map_eq_some_iff.mp h
  have hfit : p.fits code := List.find?_some hp
  exact ⟨p, List.mem_of_find?_eq_some hp, of_decide_eq_true hfit, hbody⟩

end Pattern

end Logic
