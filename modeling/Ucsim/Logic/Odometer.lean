import Mathlib.Algebra.Order.Group.Nat
import Mathlib.Logic.Function.Iterate

/-!
# Counters that wrap around

A counter goes up one by one until it reaches a bound, and starts from a base again. What it does at each
wrap is a function on something that it carries along.
-/

namespace Logic.Odometer

/-- How often a counter that stands at `v` has wrapped after `k` counts. -/
def laps (top base v k : Nat) : Nat := if k < top - v then 0 else (k - (top - v)) / (top - base) + 1

/-- Where it stands then. -/
def reading (top base v k : Nat) : Nat := if k < top - v then v + k else base + (k - (top - v)) % (top - base)

/-- A remainder counts up to its bound and then starts again. -/
theorem div_mod_succ {M : Nat} (hM : 0 < M) (x : Nat) :
    (x % M + 1 = M ∧ (x + 1) % M = 0 ∧ (x + 1) / M = x / M + 1) ∨
      (x % M + 1 < M ∧ (x + 1) % M = x % M + 1 ∧ (x + 1) / M = x / M) := by
  have hlt := Nat.mod_lt x hM
  have hx := Nat.div_add_mod x M
  rcases Nat.lt_or_ge (x % M + 1) M with hlow | hhigh
  · refine .inr ⟨hlow, ?_⟩
    have huniq := (Nat.div_mod_unique hM (a := x + 1) (c := x % M + 1) (d := x / M)).mpr ⟨by omega, hlow⟩
    exact ⟨huniq.2, huniq.1⟩
  · have hlast : x % M + 1 = M := by omega
    refine .inl ⟨hlast, ?_⟩
    have hmul : M * (x / M + 1) = M * (x / M) + M := Nat.mul_succ M (x / M)
    have huniq := (Nat.div_mod_unique hM (a := x + 1) (c := 0) (d := x / M + 1)).mpr ⟨by omega, hM⟩
    exact ⟨huniq.2, huniq.1⟩

/-- One more count. -/
theorem succ_cases {top base v : Nat} (hv : v < top) (hbase : base < top) (k : Nat) :
    (reading top base v k + 1 = top ∧ reading top base v (k + 1) = base ∧
        laps top base v (k + 1) = laps top base v k + 1) ∨
      (reading top base v k + 1 < top ∧ reading top base v (k + 1) = reading top base v k + 1 ∧
        laps top base v (k + 1) = laps top base v k) := by
  unfold reading laps
  by_cases hk : k + 1 < top - v
  · rw [if_pos hk, if_pos hk, if_pos (by omega), if_pos (by omega)]
    exact .inr ⟨by omega, by omega, rfl⟩
  rw [if_neg hk, if_neg hk]
  by_cases hlast : k < top - v
  · have hzero : k + 1 - (top - v) = 0 := by omega
    rw [if_pos hlast, if_pos hlast, hzero, Nat.zero_mod, Nat.zero_div]
    exact .inl ⟨by omega, rfl, rfl⟩
  · have hnext : k + 1 - (top - v) = k - (top - v) + 1 := by omega
    rw [if_neg hlast, if_neg hlast, hnext]
    rcases div_mod_succ (Nat.sub_pos_of_lt hbase) (k - (top - v)) with ⟨hend, hmod, hdiv⟩ | ⟨hlow, hmod, hdiv⟩
    · rw [hmod, hdiv]
      exact .inl ⟨by omega, rfl, rfl⟩
    · rw [hmod, hdiv]
      exact .inr ⟨by omega, by omega, rfl⟩

theorem reading_zero {top base v : Nat} (hv : v < top) : reading top base v 0 = v := if_pos (by omega)

theorem laps_zero {top base v : Nat} (hv : v < top) : laps top base v 0 = 0 := if_pos (by omega)

/-- With base 0 the counter counts modulo its bound. -/
theorem reading_base_zero {top v : Nat} (hv : v < top) (k : Nat) : reading top 0 v k = (v + k) % top := by
  unfold reading
  by_cases hk : k < top - v
  · rw [if_pos hk, Nat.mod_eq_of_lt (by omega)]
  · rw [if_neg hk, Nat.zero_add, Nat.sub_zero, Nat.mod_eq_sub_mod (a := v + k) (by omega)]
    congr 1
    omega

theorem laps_base_zero {top v : Nat} (hv : v < top) (k : Nat) : laps top 0 v k = (v + k) / top := by
  unfold laps
  by_cases hk : k < top - v
  · rw [if_pos hk, Nat.div_eq_of_lt (by omega)]
  · rw [if_neg hk, Nat.sub_zero, Nat.div_eq_sub_div (a := v + k) (by omega) (by omega)]
    congr 2
    omega

section Iterate

variable {σ β : Type} {f : σ → σ} {v : σ → Nat} {acc : σ → β} {g : β → β} {P : σ → Prop} {top base : Nat}

/-- A step that counts one, and does `g` when it wraps, does so any number of times. -/
theorem iterate_counts (hbase : base < top)
    (hstep : ∀ t, P t → P (f t) ∧ ((v t + 1 = top ∧ v (f t) = base ∧ acc (f t) = g (acc t)) ∨
      (v t + 1 < top ∧ v (f t) = v t + 1 ∧ acc (f t) = acc t))) {t : σ} (ht : P t) (k : Nat) :
    P (f^[k] t) ∧ v (f^[k] t) = reading top base (v t) k ∧ acc (f^[k] t) = g^[laps top base (v t) k] (acc t) := by
  have hv : v t < top := by
    rcases (hstep t ht).2 with ⟨heq, -⟩ | ⟨hlt, -⟩ <;> omega
  induction k with
  | zero =>
    rw [reading_zero hv, laps_zero hv]
    exact ⟨ht, rfl, rfl⟩
  | succ k ih =>
    obtain ⟨hP, hval, hacc⟩ := ih
    obtain ⟨hPnext, hnext⟩ := hstep _ hP
    rw [Function.iterate_succ_apply']
    refine ⟨hPnext, ?_⟩
    rw [hval, hacc] at hnext
    rcases succ_cases hv hbase k with ⟨hend, hread, hlaps⟩ | ⟨hlow, hread, hlaps⟩
    · obtain ⟨-, hvnext, haccnext⟩ := hnext.resolve_right (fun h => by omega)
      rw [hread, hlaps, Function.iterate_succ_apply']
      exact ⟨hvnext, haccnext⟩
    · obtain ⟨-, hvnext, haccnext⟩ := hnext.resolve_left (fun h => by omega)
      rw [hread, hlaps]
      exact ⟨hvnext, haccnext⟩

end Iterate

end Logic.Odometer
