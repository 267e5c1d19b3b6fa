import Mathlib.Data.Finset.Card
import Mathlib.Data.List.Nodup

/-!
# Depth first search with marks

A search marks the key of a node, and several nodes may share a key: of these only the first is
followed. `visit` runs it with a bound on the depth and returns the nodes that it has followed, the last
one first.
-/

namespace Graph

/-- A graph to search. Nodes that are skipped are neither marked nor followed. -/
structure Search (α κ : Type) where
  key : α → κ
  skip : α → Bool
  next : α → List α

namespace Search

variable {α κ : Type} [DecidableEq κ] (G : Search α κ) (old : κ → Bool)

/-- Is the key marked, by an old mark or by a node followed? -/
def marked (vs : List α) (k : κ) : Bool := old k || (vs.map G.key).contains k

/-- Search from a node. `vs` are the nodes followed so far. -/
def visit : Nat → α → List α → Option (List α)
  | 0, _, _ => none
  | fuel + 1, a, vs =>
    if G.marked old vs (G.key a) || G.skip a then some vs
    else (G.next a).foldlM (fun vs b => visit fuel b vs) (a :: vs)

/-- Nothing is left to do about the node. -/
def Done (vs : List α) (a : α) : Prop := G.marked old vs (G.key a) = true ∨ G.skip a = true

/-- Nodes that a walk through `S` from `a` comes to. -/
inductive Walk (S : α → Prop) (a : α) : α → Prop
  | start : Walk S a a
  | step {b c : α} : Walk S a b → S b → G.skip b = false → c ∈ G.next b → Walk S a c

/-- What a search from the nodes `as` adds to the nodes followed. -/
structure Adds (as vs vs' new : List α) : Prop where
  split : vs' = new ++ vs
  done : ∀ a ∈ as, G.Done old vs' a
  fresh : ∀ b ∈ new, G.skip b = false ∧ old (G.key b) = false
  closed : ∀ b ∈ new, ∀ c ∈ G.next b, G.Done old vs' c
  walk : ∀ b ∈ new, ∃ a ∈ as, G.Walk (· ∈ new) a b
  nodup : (vs.map G.key).Nodup → (vs'.map G.key).Nodup

variable {G old}

theorem marked_iff {vs : List α} {k : κ} :
    G.marked old vs k = true ↔ old k = true ∨ ∃ v ∈ vs, G.key v = k := by
  simp [marked]

theorem marked_append {vs : List α} {k : κ} (new : List α) (h : G.marked old vs k = true) :
    G.marked old (new ++ vs) k = true := by
  rw [marked_iff] at h ⊢
  rcases h with h | ⟨v, hv, hk⟩
  · exact Or.inl h
  · exact Or.inr ⟨v, List.mem_append_right new hv, hk⟩

theorem Done.append {vs : List α} {a : α} (new : List α) (h : G.Done old vs a) :
    G.Done old (new ++ vs) a := h.imp (marked_append new) id

omit [DecidableEq κ] in
theorem Walk.mono {S T : α → Prop} {a b : α} (hST : ∀ x, S x → T x) (h : G.Walk S a b) : G.Walk T a b := by
  induction h with
  | start => exact start
  | step _ hS hskip hc ih => exact ih.step (hST _ hS) hskip hc

omit [DecidableEq κ] in
/-- A walk from a successor is a walk. -/
theorem Walk.head {S : α → Prop} {a b c : α} (hS : S a) (hskip : G.skip a = false) (hb : b ∈ G.next a)
    (h : G.Walk S b c) : G.Walk S a c := by
  induction h with
  | start => exact start.step hS hskip hb
  | step _ hS hskip hc ih => exact ih.step hS hskip hc

namespace Adds

variable {as vs vs' vs'' new new' : List α} {a : α}

theorem nil (vs : List α) : G.Adds old [] vs vs [] where
  split := rfl
  done _ h := absurd h List.not_mem_nil
  fresh _ h := absurd h List.not_mem_nil
  closed _ h := absurd h List.not_mem_nil
  walk _ h := absurd h List.not_mem_nil
  nodup h := h

/-- A search from one node after the other. -/
theorem cons (h : G.Adds old [a] vs vs' new) (h' : G.Adds old as vs' vs'' new') :
    G.Adds old (a :: as) vs vs'' (new' ++ new) where
  split := by rw [h'.split, h.split, List.append_assoc]
  done b hb := by
    rcases List.mem_cons.mp hb with rfl | hb
    · rw [h'.split]
      exact (h.done b (List.mem_singleton_self b)).append new'
    · exact h'.done b hb
  fresh b hb := by
    rcases List.mem_append.mp hb with hb | hb
    · exact h'.fresh b hb
    · exact h.fresh b hb
  closed b hb c hc := by
    rcases List.mem_append.mp hb with hb | hb
    · exact h'.closed b hb c hc
    · rw [h'.split]
      exact (h.closed b hb c hc).append new'
  walk b hb := by
    rcases List.mem_append.mp hb with hb | hb
    · obtain ⟨c, hc, hwalk⟩ := h'.walk b hb
      exact ⟨c, List.mem_cons_of_mem a hc, hwalk.mono fun _ => List.mem_append_left new⟩
    · obtain ⟨c, hc, hwalk⟩ := h.walk b hb
      obtain rfl := List.mem_singleton.mp hc
      exact ⟨c, List.mem_cons_self, hwalk.mono fun _ => List.mem_append_right new'⟩
  nodup hvs := h'.nodup (h.nodup hvs)

/-- Nothing is left to do. -/
theorem done_start (h : G.Done old vs a) : G.Adds old [a] vs vs [] where
  split := rfl
  done b hb := by rwa [List.mem_singleton.mp hb]
  fresh _ h := absurd h List.not_mem_nil
  closed _ h := absurd h List.not_mem_nil
  walk _ h := absurd h List.not_mem_nil
  nodup h := h

/-- A node that is followed: the search from its successors. -/
theorem follow (hfresh : ¬ G.Done old vs a) (h : G.Adds old (G.next a) (a :: vs) vs' new) :
    G.Adds old [a] vs vs' (new ++ [a]) := by
  have hmark : G.marked old vs (G.key a) = false := Bool.eq_false_of_not_eq_true fun hm => hfresh (Or.inl hm)
  have hskip : G.skip a = false := Bool.eq_false_of_not_eq_true fun hs => hfresh (Or.inr hs)
  rw [marked, Bool.or_eq_false_iff] at hmark
  have hsplit : vs' = (new ++ [a]) ++ vs := by rw [h.split, List.append_assoc, List.singleton_append]
  refine ⟨hsplit, fun b hb => ?_, fun b hb => ?_, fun b hb c hc => ?_, fun b hb => ?_, fun hvs => ?_⟩
  · obtain rfl := List.mem_singleton.mp hb
    refine Or.inl (marked_iff.mpr (Or.inr ⟨b, ?_, rfl⟩))
    rw [h.split]
    exact List.mem_append_right new List.mem_cons_self
  · rcases List.mem_append.mp hb with hb | hb
    · exact h.fresh b hb
    · rw [List.mem_singleton.mp hb]
      exact ⟨hskip, hmark.1⟩
  · rcases List.mem_append.mp hb with hb | hb
    · exact h.closed b hb c hc
    · rw [List.mem_singleton.mp hb] at hc
      exact h.done c hc
  · refine ⟨a, List.mem_singleton_self a, ?_⟩
    have ha : a ∈ new ++ [a] := List.mem_append_right new (List.mem_singleton_self a)
    rcases List.mem_append.mp hb with hb | hb
    · obtain ⟨c, hc, hwalk⟩ := h.walk b hb
      exact (hwalk.mono fun _ => List.mem_append_left [a]).head ha hskip hc
    · rw [List.mem_singleton.mp hb]
      exact .start
  · refine h.nodup ?_
    rw [List.map_cons, List.nodup_cons]
    refine ⟨fun hmem => ?_, hvs⟩
    rw [List.contains_iff_mem.mpr hmem] at hmark
    exact absurd hmark.2 (by decide)

end Adds

/-- What a search adds. -/
theorem visit_adds {fuel : Nat} {a : α} {vs vs' : List α} (h : G.visit old fuel a vs = some vs') :
    ∃ new, G.Adds old [a] vs vs' new := by
  induction fuel generalizing a vs vs' with
  | zero => cases h
  | succ fuel ih =>
    rw [visit] at h
    split at h
    · next hdone =>
      cases h
      exact ⟨[], .done_start (by rwa [Bool.or_eq_true] at hdone)⟩
    · next hdone =>
      rw [Bool.or_eq_true] at hdone
      have hfold : ∀ (as : List α) (ws : List α),
          as.foldlM (fun vs b => G.visit old fuel b vs) ws = some vs' → ∃ new, G.Adds old as ws vs' new := by
        intro as
        induction as with
        | nil =>
          intro ws hws
          cases hws
          exact ⟨[], .nil _⟩
        | cons b as ihas =>
          intro ws hws
          rw [List.foldlM_cons, Option.bind_eq_bind, Option.bind_eq_some_iff] at hws
          obtain ⟨xs, hxs, hrest⟩ := hws
          obtain ⟨new, hnew⟩ := ih hxs
          obtain ⟨new', hnew'⟩ := ihas xs hrest
          exact ⟨_, hnew.cons hnew'⟩
      obtain ⟨new, hnew⟩ := hfold _ _ h
      exact ⟨_, hnew.follow hdone⟩

/-- The keys of a finite set that are not marked. -/
def unmarked (G : Search α κ) (old : κ → Bool) (keys : Finset κ) (vs : List α) : Finset κ :=
  keys.filter fun k => G.marked old vs k = false

theorem unmarked_append_le (keys : Finset κ) (new vs : List α) :
    (unmarked G old keys (new ++ vs)).card ≤ (unmarked G old keys vs).card := by
  refine Finset.card_le_card fun k hk => ?_
  rw [unmarked, Finset.mem_filter] at hk ⊢
  refine ⟨hk.1, Bool.eq_false_of_not_eq_true fun hm => ?_⟩
  rw [marked_append new hm] at hk
  exact absurd hk.2 (by decide)

theorem unmarked_cons_lt {keys : Finset κ} {vs : List α} {a : α} (ha : G.key a ∈ keys)
    (hmark : G.marked old vs (G.key a) = false) :
    (unmarked G old keys (a :: vs)).card < (unmarked G old keys vs).card := by
  refine Finset.card_lt_card (Finset.ssubset_iff_of_subset (fun k hk => ?_) |>.mpr ⟨G.key a, ?_, ?_⟩)
  · rw [unmarked, Finset.mem_filter] at hk ⊢
    refine ⟨hk.1, Bool.eq_false_of_not_eq_true fun hm => ?_⟩
    rw [show a :: vs = [a] ++ vs from rfl, marked_append [a] hm] at hk
    exact absurd hk.2 (by decide)
  · exact Finset.mem_filter.mpr ⟨ha, hmark⟩
  · intro hk
    have hself : G.marked old (a :: vs) (G.key a) = true :=
      marked_iff.mpr (Or.inr ⟨a, List.mem_cons_self, rfl⟩)
    rw [(Finset.mem_filter.mp hk).2] at hself
    exact absurd hself (by decide)

/-- A search ends when its bound exceeds the number of keys that are not marked. -/
theorem visit_isSome {keys : Finset κ} {N : α → Prop} (hkeys : ∀ a, N a → G.key a ∈ keys)
    (hnext : ∀ a, N a → ∀ b ∈ G.next a, N b) {fuel : Nat} {a : α} {vs : List α} (ha : N a)
    (hfuel : (unmarked G old keys vs).card < fuel) : ∃ vs', G.visit old fuel a vs = some vs' := by
  induction fuel generalizing a vs with
  | zero => omega
  | succ fuel ih =>
    rw [visit]
    split
    · exact ⟨vs, rfl⟩
    · next hdone =>
      rw [Bool.or_eq_true, not_or] at hdone
      have hlt : (unmarked G old keys (a :: vs)).card < (unmarked G old keys vs).card :=
        unmarked_cons_lt (hkeys a ha) (Bool.eq_false_of_not_eq_true hdone.1)
      have hfold : ∀ (as : List α) (ws : List α), (∀ b ∈ as, N b) →
          (unmarked G old keys ws).card < fuel →
          ∃ vs', as.foldlM (fun vs b => G.visit old fuel b vs) ws = some vs' := by
        intro as
        induction as with
        | nil => exact fun ws _ _ => ⟨ws, rfl⟩
        | cons b as ihas =>
          intro ws hN hws
          obtain ⟨xs, hxs⟩ := ih (hN b List.mem_cons_self) hws
          obtain ⟨new, hnew⟩ := visit_adds hxs
          have hle : (unmarked G old keys xs).card ≤ (unmarked G old keys ws).card := by
            rw [hnew.split]
            exact unmarked_append_le keys new ws
          obtain ⟨ys, hys⟩ := ihas xs (fun c hc => hN c (List.mem_cons_of_mem b hc)) (by omega)
          refine ⟨ys, ?_⟩
          rw [List.foldlM_cons, hxs]
          exact hys
      exact hfold _ _ (hnext a ha) (by omega)

end Search

end Graph
