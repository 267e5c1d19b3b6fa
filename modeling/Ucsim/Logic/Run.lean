import Mathlib.Data.List.Induction

/-!
# Runs of a labelled transition system

Reachable states, the induction rule for invariants, and the restriction of a system to the steps that
meet a condition on the label and the state before; and functions that are fed a list of inputs.
-/

namespace Logic

/-- A transition system whose steps carry labels. -/
structure System (Label State : Type) where
  init : State → Prop
  step : Label → State → State → Prop

namespace System

variable {Label State : Type} {S : System Label State}

/-- The states that runs of the system visit. -/
inductive Reachable (S : System Label State) : State → Prop
  | init {s : State} : S.init s → Reachable S s
  | step {a : Label} {s t : State} : Reachable S s → S.step a s t → Reachable S t

/-- The system with the steps that meet `ok` only. -/
def guard (S : System Label State) (ok : Label → State → Prop) : System Label State where
  init := S.init
  step a s t := ok a s ∧ S.step a s t

/-- A property that holds at the start and is kept by each step from a reachable state holds in every
reachable state. -/
theorem Reachable.invariant {I : State → Prop} (hinit : ∀ s, S.init s → I s)
    (hstep : ∀ a s t, S.Reachable s → I s → S.step a s t → I t) {s : State} (h : S.Reachable s) :
    I s := by
  induction h with
  | init hs => exact hinit _ hs
  | step hs hst ih => exact hstep _ _ _ hs ih hst

/-- Restricting the steps reaches no new states. -/
theorem Reachable.of_guard {ok : Label → State → Prop} {s : State}
    (h : (S.guard ok).Reachable s) : S.Reachable s := by
  induction h with
  | init hs => exact Reachable.init hs
  | step _ hst ih => exact Reachable.step ih hst.2

/-- The invariant rule for runs whose steps meet a condition. -/
theorem Reachable.guard_invariant {ok : Label → State → Prop} {I : State → Prop}
    (hinit : ∀ s, S.init s → I s)
    (hstep : ∀ a s t, S.Reachable s → I s → ok a s → S.step a s t → I t) {s : State}
    (h : (S.guard ok).Reachable s) : I s :=
  Reachable.invariant (S := S.guard ok) hinit
    (fun a s t hs hI hst => hstep a s t (Reachable.of_guard hs) hI hst.1 hst.2) h

/-- Steps of a function, one after the other, as long as each of them passes a check. -/
def checkedRun (step : Label → State → Option State) (ok : Label → State → Bool) :
    List Label → State → Option State
  | [], s => some s
  | a :: l, s => if ok a s then (step a s).bind (checkedRun step ok l) else none

/-- A checked run stays in the reachable states. -/
theorem Reachable.checkedRun {step : Label → State → Option State} {ok : Label → State → Bool}
    {C : Label → State → Prop} (hstep : ∀ a s t, step a s = some t → S.step a s t)
    (hok : ∀ a s, ok a s = true → C a s) {l : List Label} {s t : State} (h : (S.guard C).Reachable s)
    (hrun : System.checkedRun step ok l s = some t) : (S.guard C).Reachable t := by
  induction l generalizing s with
  | nil =>
    rw [← Option.some.inj hrun]
    exact h
  | cons a l ih =>
    unfold System.checkedRun at hrun
    split at hrun
    · next ha =>
      obtain ⟨s₁, h₁, hrest⟩ := Option.bind_eq_some_iff.mp hrun
      have hguard : (S.guard C).step a s s₁ := ⟨hok a s ha, hstep a s s₁ h₁⟩
      exact ih (h.step hguard) hrest
    · cases hrun

end System

section Prefix

variable {α σ τ : Type} {spec : τ → α → τ} {impl : σ → α → σ} {R : τ → σ → Prop} {I : σ → Prop}
  {ok : α → σ → Prop}

theorem foldl_invariant (hI : ∀ t w, I t → I (impl t w)) {t : σ} (ht : I t) (l : List α) :
    I (l.foldl impl t) := by
  induction l generalizing t with
  | nil => exact ht
  | cons w l ih => exact ih (hI t w ht)

/-- A specification and an implementation are fed the same inputs. They agree after every prefix of the
inputs when every step meets the condition under which it keeps them in agreement, and only then. -/
theorem agree_on_prefixes_iff (hI : ∀ t w, I t → I (impl t w))
    (hstep : ∀ s t w, I t → R s t → (R (spec s w) (impl t w) ↔ ok w t)) {s : τ} {t : σ} (ht : I t)
    (h : R s t) (ws : List α) :
    (∀ l, l <+: ws → R (l.foldl spec s) (l.foldl impl t)) ↔
      ∀ l w, l ++ [w] <+: ws → ok w (l.foldl impl t) := by
  constructor
  · intro hagree l w hl
    have hbefore := hagree l ((List.prefix_append l [w]).trans hl)
    have hafter := hagree (l ++ [w]) hl
    rw [List.foldl_append, List.foldl_append] at hafter
    exact (hstep _ _ w (foldl_invariant hI ht l) hbefore).mp hafter
  · intro hok l
    induction l using List.reverseRecOn with
    | nil => exact fun _ => h
    | append_singleton l w ih =>
      intro hl
      have hbefore := ih ((List.prefix_append l [w]).trans hl)
      rw [List.foldl_append, List.foldl_append]
      exact (hstep _ _ w (foldl_invariant hI ht l) hbefore).mpr (hok l w hl)

end Prefix

end Logic
