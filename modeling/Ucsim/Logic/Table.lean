import Mathlib.Logic.Function.Basic
import Mathlib.Tactic.Common

/-!
# Tables with checked indices

A table has `n` places and is indexed by an integer. Reading and writing check the index.
-/

namespace Logic

/-- A table with `n` places. -/
abbrev Table (n : Nat) (α : Type) := Fin n → α

/-- Why a step fails. -/
inductive Fault
  | outOfRange (index : Int)
  | assertion
  deriving DecidableEq, Repr

/-- Is the index one of a table with `n` places? -/
abbrev InRange (n : Nat) (i : Int) : Prop := 0 ≤ i ∧ i < n

namespace Table

variable {n : Nat} {α : Type}

/-- The place of an index. -/
def place (i : Int) (h : InRange n i) : Fin n := ⟨i.toNat, by omega⟩

/-- `t[i]`. -/
def get (t : Table n α) (i : Int) : Except Fault α :=
  if h : InRange n i then .ok (t (place i h)) else .error (.outOfRange i)

/-- `t[i] = v`. -/
def set (t : Table n α) (i : Int) (v : α) : Except Fault (Table n α) :=
  if h : InRange n i then .ok (Function.update t (place i h) v) else .error (.outOfRange i)

/-- `t[i] = f(t[i])`. -/
def modify (t : Table n α) (i : Int) (f : α → α) : Except Fault (Table n α) := do
  t.set i (f (← t.get i))

@[simp] theorem place_coe (k : Fin n) (h : InRange n (k : Int)) : place (k : Int) h = k :=
  Fin.ext (Int.toNat_natCast _)

theorem get_of_inRange {i : Int} (h : InRange n i) (t : Table n α) :
    t.get i = .ok (t (place i h)) := dif_pos h

theorem set_of_inRange {i : Int} (h : InRange n i) (t : Table n α) (v : α) :
    t.set i v = .ok (Function.update t (place i h) v) := dif_pos h

theorem modify_of_inRange {i : Int} (h : InRange n i) (t : Table n α) (f : α → α) :
    t.modify i f = .ok (Function.update t (place i h) (f (t (place i h)))) := by
  rw [modify, get_of_inRange h]
  exact set_of_inRange h t _

/-- A read ends exactly when its index is in range. -/
theorem get_eq_ok {t : Table n α} {i : Int} {v : α} :
    t.get i = .ok v ↔ ∃ h : InRange n i, v = t (place i h) := by
  rw [get]
  by_cases h : InRange n i
  · rw [dif_pos h, Except.ok.injEq, eq_comm]
    exact ⟨fun hv => ⟨h, hv⟩, fun ⟨_, hv⟩ => hv⟩
  · rw [dif_neg h]
    exact ⟨(by simp), fun ⟨hi, _⟩ => absurd hi h⟩

/-- A write ends exactly when its index is in range. -/
theorem set_eq_ok {t u : Table n α} {i : Int} {v : α} :
    t.set i v = .ok u ↔ ∃ h : InRange n i, u = Function.update t (place i h) v := by
  rw [set]
  by_cases h : InRange n i
  · rw [dif_pos h, Except.ok.injEq, eq_comm]
    exact ⟨fun hu => ⟨h, hu⟩, fun ⟨_, hu⟩ => hu⟩
  · rw [dif_neg h]
    exact ⟨(by simp), fun ⟨hi, _⟩ => absurd hi h⟩

end Table

/-- A step that may fail is followed by another: both end. -/
theorem bind_eq_ok {ε α β : Type} {x : Except ε α} {f : α → Except ε β} {b : β} :
    (x >>= f) = .ok b ↔ ∃ a, x = .ok a ∧ f a = .ok b := by
  cases x with
  | error e => simp [bind, Except.bind]
  | ok a => simp [bind, Except.bind]

/-- Only the first step can fail. -/
theorem bind_ok_iff {ε α β : Type} {x : Except ε α} {f : α → Except ε β}
    (hf : ∀ a, x = .ok a → ∃ b, f a = .ok b) : (∃ b, (x >>= f) = .ok b) ↔ ∃ a, x = .ok a := by
  constructor
  · rintro ⟨b, hb⟩
    obtain ⟨a, ha, -⟩ := bind_eq_ok.mp hb
    exact ⟨a, ha⟩
  · rintro ⟨a, ha⟩
    obtain ⟨b, hb⟩ := hf a ha
    exact ⟨b, bind_eq_ok.mpr ⟨a, ha, hb⟩⟩

/-- A run of steps that may fail ends exactly when every step meets, in the state before it, the condition
under which it does not fail. -/
theorem foldlM_ok_iff {ε σ α : Type} {f : σ → α → Except ε σ} {I : σ → Prop} {ok : α → σ → Prop}
    (hok : ∀ s a, I s → ((∃ t, f s a = .ok t) ↔ ok a s)) (hI : ∀ s a t, I s → f s a = .ok t → I t)
    {s : σ} (hs : I s) (l : List α) :
    (∃ t, l.foldlM f s = .ok t) ↔
      ∀ l₁ a l₂, l = l₁ ++ a :: l₂ → ∀ t, l₁.foldlM f s = .ok t → ok a t := by
  induction l generalizing s with
  | nil => exact ⟨fun _ l₁ a l₂ hl => by simp at hl, fun _ => ⟨s, rfl⟩⟩
  | cons b l ih =>
    constructor
    · rintro ⟨u, hu⟩ l₁ a l₂ hl t ht
      rw [List.foldlM_cons] at hu
      obtain ⟨s₁, hs₁, hrest⟩ := bind_eq_ok.mp hu
      cases l₁ with
      | nil =>
        cases hl
        cases ht
        exact (hok s b hs).mp ⟨s₁, hs₁⟩
      | cons c l₁ =>
        cases hl
        rw [List.foldlM_cons, hs₁] at ht
        exact (ih (hI s b s₁ hs hs₁)).mp ⟨u, hrest⟩ l₁ a l₂ rfl t ht
    · intro hall
      obtain ⟨s₁, hs₁⟩ := (hok s b hs).mpr (hall [] b l rfl s rfl)
      rw [List.foldlM_cons, hs₁]
      refine (ih (hI s b s₁ hs hs₁)).mpr fun l₁ a l₂ hl t ht => hall (b :: l₁) a l₂ ?_ t ?_
      · rw [hl]
        rfl
      · rw [List.foldlM_cons, hs₁]
        exact ht

end Logic
