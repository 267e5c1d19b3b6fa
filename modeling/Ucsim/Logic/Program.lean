import Mathlib.Logic.Basic

/-!
# Programs over a state that may fail an assertion

The rules for triples `Triple P x Q` and for the properties a program keeps, and the embedding of a
program that works on one part of a larger state.
-/

namespace Logic

/-- A program over a state. It ends with a value and a state, or in a failed assertion. -/
abbrev Program (ε σ α : Type) := StateT σ (Except ε) α

namespace Program

variable {ε σ τ α β : Type}

/-- Started where `P` holds, `x` does not end outside `Q`. -/
def Triple (P : σ → Prop) (x : Program ε σ α) (Q : α → σ → Prop) : Prop :=
  ∀ s a t, P s → x.run s = .ok (a, t) → Q a t

/-- `x` keeps `I`. -/
def Keeps (I : σ → Prop) (x : Program ε σ α) : Prop := Triple I x fun _ => I

/-- Started at `s`, the program ends with the value `a`. -/
def Returns (x : Program ε σ α) (s : σ) (a : α) : Prop := ∃ t, x.run s = .ok (a, t)

/-- Wherever it is started, the program fails no assertion. -/
def Ends (x : Program ε σ α) : Prop := ∀ s, ∃ a, x.Returns s a

/-- Run a program on a part of the state. -/
def zoom (get : τ → σ) (put : σ → τ → τ) (x : Program ε σ α) : Program ε τ α := fun t =>
  match x.run (get t) with
  | .ok (a, s) => .ok (a, put s t)
  | .error e => .error e

/-- A program that changes the state by a function and returns a value. -/
theorem run_modifyGet_ok (f : σ → α × σ) (s : σ) :
    (modifyGet f : Program ε σ α).run s = .ok (f s) := rfl

/-- A sequence of two programs ends iff both do. -/
theorem run_bind_ok {x : Program ε σ α} {f : α → Program ε σ β} {s u : σ} {b : β} :
    (x >>= f).run s = .ok (b, u) ↔ ∃ a t, x.run s = .ok (a, t) ∧ (f a).run t = .ok (b, u) := by
  rw [StateT.run_bind]
  cases h : x.run s with
  | error e => simp [bind, Except.bind]
  | ok r =>
    constructor
    · intro hf
      exact ⟨r.1, r.2, rfl, hf⟩
    · rintro ⟨a, t, hr, hf⟩
      cases hr
      exact hf

/-- The second program of a sequence starts where the first one ended. -/
theorem run_bind_of_ok {x : Program ε σ α} {s t : σ} {a : α} (h : x.run s = .ok (a, t))
    (f : α → Program ε σ β) : (x >>= f).run s = (f a).run t := by
  rw [StateT.run_bind, h]
  rfl

/-- Run the program at `s` and check how it ends. -/
def check (x : Program ε σ α) (p : α → σ → Bool) (s : σ) : Bool :=
  match x.run s with
  | .ok (a, t) => p a t
  | .error _ => false

theorem run_of_check {x : Program ε σ α} {p : α → σ → Bool} {s : σ} (h : check x p s = true) :
    ∃ a t, x.run s = .ok (a, t) ∧ p a t = true := by
  unfold check at h
  cases hrun : x.run s with
  | error e =>
    rw [hrun] at h
    cases h
  | ok r =>
    rw [hrun] at h
    exact ⟨r.1, r.2, rfl, h⟩

theorem run_zoom_ok {get : τ → σ} {put : σ → τ → τ} {x : Program ε σ α} {t u : τ} {a : α} :
    (zoom get put x).run t = .ok (a, u) ↔ ∃ s, x.run (get t) = .ok (a, s) ∧ u = put s t := by
  have hrun : (zoom get put x).run t = match x.run (get t) with
      | .ok (a, s) => .ok (a, put s t)
      | .error e => .error e := rfl
  rw [hrun]
  cases h : x.run (get t) with
  | error e => simp
  | ok r =>
    obtain ⟨b, s⟩ := r
    simp only [Except.ok.injEq, Prod.mk.injEq]
    constructor
    · rintro ⟨rfl, rfl⟩
      exact ⟨s, ⟨rfl, rfl⟩, rfl⟩
    · rintro ⟨s', ⟨rfl, rfl⟩, rfl⟩
      exact ⟨rfl, rfl⟩

theorem run_zoom (get : τ → σ) (put : σ → τ → τ) (x : Program ε σ α) (t : τ) :
    (zoom get put x).run t = match x.run (get t) with
      | .ok (a, s) => .ok (a, put s t)
      | .error e => .error e := rfl

/-- A sequence on a part of the state. -/
theorem zoom_bind {get : τ → σ} {put : σ → τ → τ} (hget : ∀ s t, get (put s t) = s)
    (hput : ∀ s s' t, put s' (put s t) = put s' t) (x : Program ε σ α) (f : α → Program ε σ β) :
    zoom get put (x >>= f) = zoom get put x >>= fun a => zoom get put (f a) := by
  refine StateT.ext fun t => ?_
  rw [StateT.run_bind, run_zoom, run_zoom, StateT.run_bind]
  cases x.run (get t) with
  | error e => rfl
  | ok r =>
    change _ = (zoom get put (f r.1)).run (put r.2 t)
    rw [run_zoom, hget]
    change (match (f r.1).run r.2 with
      | .ok (b, s) => Except.ok (b, put s t)
      | .error e => .error e) = _
    cases (f r.1).run r.2 with
    | error e => rfl
    | ok q =>
      change Except.ok (q.1, put q.2 t) = Except.ok (q.1, put q.2 (put r.2 t))
      rw [hput]

theorem zoom_pure {get : τ → σ} {put : σ → τ → τ} (hput : ∀ t, put (get t) t = t) (a : α) :
    zoom get put (pure a : Program ε σ α) = pure a := by
  refine StateT.ext fun t => ?_
  change Except.ok (a, put (get t) t) = Except.ok (a, t)
  rw [hput]

namespace Ends

theorem pure (a : α) : Ends (pure a : Program ε σ α) := fun s => ⟨a, s, rfl⟩

theorem bind {x : Program ε σ α} {f : α → Program ε σ β} (hx : Ends x) (hf : ∀ a, Ends (f a)) :
    Ends (x >>= f) := by
  intro s
  obtain ⟨a, t, hrun⟩ := hx s
  obtain ⟨b, u, hrun'⟩ := hf a t
  exact ⟨b, u, (run_bind_of_ok hrun f).trans hrun'⟩

theorem modifyGet (f : σ → α × σ) : Ends (modifyGet f : Program ε σ α) := fun s =>
  ⟨(f s).1, (f s).2, rfl⟩

theorem ite {c : Prop} [Decidable c] {x y : Program ε σ α} (hx : Ends x) (hy : Ends y) :
    Ends (if c then x else y) := by
  by_cases h : c
  · rwa [if_pos h]
  · rwa [if_neg h]

theorem zoom {get : τ → σ} {put : σ → τ → τ} {x : Program ε σ α} (hx : Ends x) :
    Ends (zoom get put x) := by
  intro t
  obtain ⟨a, s, hrun⟩ := hx (get t)
  exact ⟨a, put s t, run_zoom_ok.mpr ⟨s, hrun, rfl⟩⟩

end Ends

namespace Triple

variable {P P' : σ → Prop} {Q Q' : α → σ → Prop} {R : β → σ → Prop} {R' : σ → σ → Prop}

theorem pure {a : α} (h : ∀ s, P s → Q a s) : Triple P (pure a : Program ε σ α) Q := by
  intro s b t hP hrun
  cases hrun
  exact h s hP

theorem bind {x : Program ε σ α} {f : α → Program ε σ β} (hx : Triple P x Q)
    (hf : ∀ a, Triple (Q a) (f a) R) : Triple P (x >>= f) R := by
  intro s b u hP hrun
  obtain ⟨a, t, hxrun, hfrun⟩ := run_bind_ok.mp hrun
  exact hf a t b u (hx s a t hP hxrun) hfrun

theorem modifyGet {f : σ → α × σ} (h : ∀ s, P s → Q (f s).1 (f s).2) :
    Triple P (modifyGet f : Program ε σ α) Q := by
  intro s a t hP hrun
  rw [run_modifyGet_ok, Except.ok.injEq] at hrun
  have hs := h s hP
  rwa [hrun] at hs

theorem get (h : ∀ s, P s → R' s s) : Triple P (get : Program ε σ σ) R' := fun s a t hP hrun => by
  cases hrun
  exact h s hP

/-- From a known state, `get` returns that state. -/
theorem get_bind {u : σ} {f : σ → Program ε σ β} (h : Triple (fun s => s = u) (f u) R) :
    Triple (fun s => s = u) (MonadState.get >>= f) R := by
  rintro s b t rfl hrun
  exact h s b t rfl hrun

theorem throw {e : ε} : Triple P (throw e : Program ε σ α) Q := by
  intro s a t _ hrun
  cases hrun

theorem ite {c : Prop} [Decidable c] {x y : Program ε σ α} (hx : c → Triple P x Q)
    (hy : ¬ c → Triple P y Q) : Triple P (if c then x else y) Q := by
  by_cases h : c
  · rw [if_pos h]
    exact hx h
  · rw [if_neg h]
    exact hy h

theorem congr {x y : Program ε σ α} (heq : x = y) (h : Triple P y Q) : Triple P x Q := heq ▸ h

theorem mono {x : Program ε σ α} (h : Triple P x Q) (hP : ∀ s, P' s → P s)
    (hQ : ∀ a s, Q a s → Q' a s) : Triple P' x Q' := by
  intro s a t hs hrun
  exact hQ a t (h s a t (hP s hs) hrun)

theorem and {x : Program ε σ α} (h : Triple P x Q) (h' : Triple P' x Q') :
    Triple (fun s => P s ∧ P' s) x (fun a s => Q a s ∧ Q' a s) := by
  intro s a t hs hrun
  exact ⟨h s a t hs.1 hrun, h' s a t hs.2 hrun⟩

end Triple

namespace Keeps

variable {I : σ → Prop}

theorem pure (a : α) : Keeps I (pure a : Program ε σ α) := Triple.pure fun _ h => h

theorem bind {x : Program ε σ α} {f : α → Program ε σ β} (hx : Keeps I x)
    (hf : ∀ a, Keeps I (f a)) : Keeps I (x >>= f) := Triple.bind hx hf

theorem modifyGet {f : σ → α × σ} (h : ∀ s, I s → I (f s).2) :
    Keeps I (modifyGet f : Program ε σ α) := Triple.modifyGet h

theorem throw {e : ε} : Keeps I (throw e : Program ε σ α) := Triple.throw

theorem ite {c : Prop} [Decidable c] {x y : Program ε σ α} (hx : Keeps I x) (hy : Keeps I y) :
    Keeps I (if c then x else y) := Triple.ite (fun _ => hx) (fun _ => hy)

/-- A program on a part of the state keeps what does not depend on that part. -/
theorem zoom {get : τ → σ} {put : σ → τ → τ} {J : τ → Prop} (h : ∀ s t, J t → J (put s t))
    (x : Program ε σ α) : Keeps J (zoom get put x) := by
  intro t a u hJ hrun
  obtain ⟨s, -, rfl⟩ := run_zoom_ok.mp hrun
  exact h s t hJ

end Keeps

/-! ## Programs kept by their parts -/

/-- `Keeps` as a class: instance resolution goes through the parts of a program. -/
class Kept (I : σ → Prop) (x : Program ε σ α) : Prop where
  keeps : Keeps I x

namespace Kept

variable {I : σ → Prop}

instance pure (a : α) : Kept I (pure a : Program ε σ α) := ⟨Keeps.pure a⟩

instance bind {x : Program ε σ α} {f : α → Program ε σ β} [hx : Kept I x] [hf : ∀ a, Kept I (f a)] :
    Kept I (x >>= f) := ⟨hx.keeps.bind fun a => (hf a).keeps⟩

instance discard {x : Program ε σ α} [hx : Kept I x] : Kept I (discard x) :=
  inferInstanceAs (Kept I (x >>= fun _ => Pure.pure ()))

instance get : Kept I (get : Program ε σ σ) := ⟨Keeps.modifyGet fun _ h => h⟩

instance throw (e : ε) : Kept I (throw e : Program ε σ α) := ⟨Keeps.throw⟩

instance ite {c : Prop} [Decidable c] {x y : Program ε σ α} [hx : Kept I x] [hy : Kept I y] :
    Kept I (if c then x else y) := ⟨hx.keeps.ite hy.keeps⟩

end Kept

end Program

end Logic
