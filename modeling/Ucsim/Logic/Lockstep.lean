import Ucsim.Logic.Program

/-!
# Two programs in step

The rules for programs that lead from related states to related states with the same value, or to the same failed
assertion. Instance resolution goes through the parts of both programs at once. `Leads` is the triple that also says
that the program ends.
-/

namespace Logic.Program

variable {ε σ τ α β : Type}

/-! ## Relational triples -/

/-- Two runs ended alike: with the same value and in related states, or in the same failed assertion. -/
inductive EndAlike (R : σ → τ → Prop) : Except ε (α × σ) → Except ε (α × τ) → Prop
  | ok {s : σ} {t : τ} (a : α) (h : R s t) : EndAlike R (.ok (a, s)) (.ok (a, t))
  | error (e : ε) : EndAlike R (.error e) (.error e)

theorem EndAlike.mono {R R' : σ → τ → Prop} (h : ∀ s t, R s t → R' s t) {x : Except ε (α × σ)} {y : Except ε (α × τ)} :
    EndAlike R x y → EndAlike R' x y
  | .ok a hR => .ok a (h _ _ hR)
  | .error e => .error e

/-- Started in related states, the two programs end alike. -/
class Alike (R : σ → τ → Prop) (x : Program ε σ α) (y : Program ε τ α) : Prop where
  run : ∀ s t, R s t → EndAlike R (x.run s) (y.run t)

namespace Alike

variable {R : σ → τ → Prop}

instance pure (a : α) : Alike R (pure a : Program ε σ α) (pure a : Program ε τ α) := ⟨fun _ _ h => .ok a h⟩

instance throw (e : ε) : Alike R (throw e : Program ε σ α) (throw e : Program ε τ α) := ⟨fun _ _ _ => .error e⟩

instance bind {x : Program ε σ α} {y : Program ε τ α} {f : α → Program ε σ β} {g : α → Program ε τ β}
    [hx : Alike R x y] [hf : ∀ a, Alike R (f a) (g a)] : Alike R (x >>= f) (y >>= g) := by
  constructor
  intro s t h
  have hends := hx.run s t h
  rw [StateT.run_bind, StateT.run_bind]
  generalize x.run s = r at hends ⊢
  generalize y.run t = q at hends ⊢
  cases hends with
  | ok a h' => exact (hf a).run _ _ h'
  | error e => exact .error e

/-- A value that is not used need not be the same. -/
instance (priority := low) bind_discard {x : Program ε σ α} {y : Program ε τ α} {f : Program ε σ β} {g : Program ε τ β}
    [hx : Alike R (discard x) (discard y)] [hf : Alike R f g] : Alike R (x >>= fun _ => f) (y >>= fun _ => g) := by
  have hseq : ∀ {ρ : Type} (z : Program ε ρ α) (k : Program ε ρ β),
      (discard z >>= fun _ => k) = z >>= fun _ => k := fun z k => by
    change (z >>= fun _ => Pure.pure ()) >>= (fun _ => k) = z >>= fun _ => k
    rw [bind_assoc]
    rfl
  rw [← hseq x f, ← hseq y g]
  exact bind

instance ite {c : Prop} [Decidable c] {x x' : Program ε σ α} {y y' : Program ε τ α} [hx : Alike R x y]
    [hy : Alike R x' y'] : Alike R (if c then x else x') (if c then y else y') := by
  by_cases h : c
  · rwa [if_pos h, if_pos h]
  · rwa [if_neg h, if_neg h]

theorem forM {f : β → Program ε σ PUnit} {g : β → Program ε τ PUnit} (l : List β) (h : ∀ b, Alike R (f b) (g b)) :
    Alike R (l.forM f) (l.forM g) := by
  induction l with
  | nil => exact pure PUnit.unit
  | cons b l ih =>
    have hb := h b
    exact bind (f := fun _ => l.forM f) (g := fun _ => l.forM g)

/-! ### Programs whose value is not compared -/

instance discard {x : Program ε σ α} {y : Program ε τ α} [Alike R x y] : Alike R (discard x) (discard y) :=
  bind (f := fun _ => Pure.pure ()) (g := fun _ => Pure.pure ())

instance discard_bind {x : Program ε σ α} {y : Program ε τ α} {f : α → Program ε σ β} {g : α → Program ε τ β}
    [hx : Alike R x y] [hf : ∀ a, Alike R (Functor.discard (f a)) (Functor.discard (g a))] :
    Alike R (Functor.discard (x >>= f)) (Functor.discard (y >>= g)) := by
  have hassoc : ∀ {ρ : Type} (z : Program ε ρ α) (k : α → Program ε ρ β),
      Functor.discard (z >>= k) = z >>= fun a => Functor.discard (k a) := fun z k => by
    change (z >>= k) >>= (fun _ => Pure.pure ()) = z >>= fun a => k a >>= fun _ => Pure.pure ()
    rw [bind_assoc]
  rw [hassoc, hassoc]
  exact bind

instance discard_ite {c : Prop} [Decidable c] {x x' : Program ε σ α} {y y' : Program ε τ α}
    [hx : Alike R (Functor.discard x) (Functor.discard y)] [hy : Alike R (Functor.discard x') (Functor.discard y')] :
    Alike R (Functor.discard (if c then x else x')) (Functor.discard (if c then y else y')) := by
  by_cases h : c
  · rwa [if_pos h, if_pos h]
  · rwa [if_neg h, if_neg h]

theorem modifyGet {f : σ → α × σ} {g : τ → α × τ} (hval : ∀ s t, R s t → (f s).1 = (g t).1)
    (hrel : ∀ s t, R s t → R (f s).2 (g t).2) :
    Alike R (modifyGet f : Program ε σ α) (modifyGet g : Program ε τ α) := by
  constructor
  intro s t h
  have hok : EndAlike R (.ok ((f s).1, (f s).2) : Except ε (α × σ)) (.ok ((f s).1, (g t).2)) :=
    EndAlike.ok _ (hrel s t h)
  rwa [show ((f s).1, (g t).2) = g t from Prod.ext (hval s t h) rfl] at hok

/-- The same relation in other words. -/
theorem congr {R' : σ → τ → Prop} (h : ∀ s t, R s t ↔ R' s t) {x : Program ε σ α} {y : Program ε τ α}
    (hx : Alike R x y) : Alike R' x y :=
  ⟨fun s t hst => (hx.run s t ((h s t).mpr hst)).mono fun s t => (h s t).mp⟩

/-- What keeps `I` is in step with itself. -/
theorem of_keeps {I : σ → Prop} {x : Program ε σ α} (h : Keeps I x) : Alike (fun s t => t = s ∧ I s) x x := by
  constructor
  rintro s t ⟨rfl, hs⟩
  cases hrun : x.run t with
  | ok r => exact .ok r.1 ⟨rfl, h t r.1 r.2 hs hrun⟩
  | error e => exact .error e

end Alike

/-! ## From one relation to another -/

/-- Started in states that `P` relates, the two programs end alike in states that `R` relates. -/
def AlikeTo (P R : σ → τ → Prop) (x : Program ε σ α) (y : Program ε τ α) : Prop :=
  ∀ s t, P s t → EndAlike R (x.run s) (y.run t)

namespace AlikeTo

variable {P R S : σ → τ → Prop}

theorem of_alike {x : Program ε σ α} {y : Program ε τ α} (h : Alike R x y) (hPR : ∀ s t, P s t → R s t) :
    AlikeTo P R x y := fun s t hst => h.run s t (hPR s t hst)

theorem bind {x : Program ε σ α} {y : Program ε τ α} {f : α → Program ε σ β} {g : α → Program ε τ β}
    (hx : AlikeTo P R x y) (hf : ∀ a, AlikeTo R S (f a) (g a)) : AlikeTo P S (x >>= f) (y >>= g) := by
  intro s t hst
  have hends := hx s t hst
  rw [StateT.run_bind, StateT.run_bind]
  generalize x.run s = r at hends ⊢
  generalize y.run t = q at hends ⊢
  cases hends with
  | ok a h => exact hf a _ _ h
  | error e => exact .error e

theorem ite {c : Prop} [Decidable c] {x x' : Program ε σ α} {y y' : Program ε τ α} (hx : AlikeTo P R x y)
    (hy : AlikeTo P R x' y') : AlikeTo P R (if c then x else x') (if c then y else y') := by
  by_cases h : c
  · rwa [if_pos h, if_pos h]
  · rwa [if_neg h, if_neg h]

end AlikeTo

/-! ## Programs that end -/

/-- Started where `P` holds, `x` ends in `Q`. It fails an assertion only if `E` holds. -/
def Leads (E : Prop) (P : σ → Prop) (x : Program ε σ α) (Q : α → σ → Prop) : Prop :=
  ∀ s, P s → (∃ a t, x.run s = .ok (a, t) ∧ Q a t) ∨ E ∧ ∃ e, x.run s = .error e

namespace Leads

variable {E : Prop} {P P' : σ → Prop} {Q : α → σ → Prop} {R : β → σ → Prop}

/-- What does not end outside `Q`, and ends, ends in `Q`. -/
theorem of_triple {x : Program ε σ α} (h : Triple P x Q)
    (hends : ∀ s, P s → ¬ E → ∃ a t, x.run s = .ok (a, t)) : Leads E P x Q := by
  intro s hs
  cases hrun : x.run s with
  | ok r => exact .inl ⟨r.1, r.2, rfl, h s r.1 r.2 hs hrun⟩
  | error e =>
    refine .inr ⟨?_, e, rfl⟩
    apply Classical.byContradiction
    intro hE
    obtain ⟨a, t, hok⟩ := hends s hs hE
    rw [hrun] at hok
    cases hok

theorem pure {a : α} (h : ∀ s, P s → Q a s) : Leads E P (pure a : Program ε σ α) Q :=
  fun s hs => .inl ⟨a, s, rfl, h s hs⟩

theorem modifyGet {f : σ → α × σ} (h : ∀ s, P s → Q (f s).1 (f s).2) :
    Leads E P (modifyGet f : Program ε σ α) Q :=
  fun s hs => .inl ⟨(f s).1, (f s).2, rfl, h s hs⟩

/-- Go on with the value that the first program returns. -/
theorem bind {x : Program ε σ α} {f : α → Program ε σ β} {a : α} (hx : Leads E P x fun b s => b = a ∧ P' s)
    (hf : Leads E P' (f a) R) : Leads E P (x >>= f) R := by
  intro s hs
  obtain ⟨b, t, hrun, rfl, ht⟩ | ⟨hE, e, hrun⟩ := hx s hs
  · rw [run_bind_of_ok hrun]
    exact hf t ht
  · refine .inr ⟨hE, e, ?_⟩
    rw [StateT.run_bind, hrun]
    rfl

theorem ite {c : Prop} [Decidable c] {x y : Program ε σ α} (hx : c → Leads E P x Q) (hy : ¬ c → Leads E P y Q) :
    Leads E P (if c then x else y) Q := by
  by_cases h : c
  · rw [if_pos h]
    exact hx h
  · rw [if_neg h]
    exact hy h

end Leads

end Logic.Program
