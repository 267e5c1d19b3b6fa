import Mathlib.Data.List.InsertIdx

/-!
# Sorted lists

`cl_sorted_list` finds the place of a new item with a binary search over the keys of its items. The
keys live in the items, so the search is run on `cmp i`, the comparison of the key of item `i` with
the key looked for.
-/

namespace Ucsim.SortedList

/-- The loop of `cl_sorted_list::search`. The first argument bounds the number of halvings. -/
def searchLoop (cmp : Nat → Int) (duplicates : Bool) : Nat → Int → Int → Bool → Bool × Int
  | 0, l, _, res => (res, l)
  | fuel + 1, l, h, res =>
    if l ≤ h then
      let i := (l + h) / 2
      let c := cmp i.toNat
      if c < 0 then searchLoop cmp duplicates fuel (i + 1) h res
      else if c = 0 then
        searchLoop cmp duplicates fuel (if duplicates then l else i) (i - 1) true
      else searchLoop cmp duplicates fuel l (i - 1) res
    else (res, l)

/-- `cl_sorted_list::search`: whether the key occurs, and the index where it does or belongs. -/
def search (count : Nat) (cmp : Nat → Int) (duplicates : Bool) : Bool × Nat :=
  let r := searchLoop cmp duplicates (count + 1) 0 (count - 1) false
  (r.1, r.2.toNat)

/-- `cl_sorted_list::add`. -/
def add {α : Type} (items : List α) (cmp : Nat → Int) (duplicates : Bool) (item : α) : List α :=
  let r := search items.length cmp duplicates
  if r.1 = false ∨ duplicates then items.insertIdx r.2 item else items

/-- The index found never leaves the interval searched. -/
theorem searchLoop_bounds (cmp : Nat → Int) (duplicates : Bool) (fuel : Nat) :
    ∀ {l h : Int} (res : Bool), l ≤ h + 1 →
      l ≤ (searchLoop cmp duplicates fuel l h res).2 ∧
        (searchLoop cmp duplicates fuel l h res).2 ≤ h + 1 := by
  induction fuel with
  | zero => intro l h res hlh; exact ⟨Int.le_refl l, hlh⟩
  | succ fuel ih =>
    intro l h res hlh
    rw [searchLoop]
    by_cases hle : l ≤ h
    · simp only [if_pos hle]
      have hi : l ≤ (l + h) / 2 ∧ (l + h) / 2 ≤ h := by omega
      split
      · have := ih (l := (l + h) / 2 + 1) (h := h) res (by omega)
        omega
      · split
        · have hl : l ≤ (if duplicates then l else (l + h) / 2) ∧
              (if duplicates then l else (l + h) / 2) ≤ (l + h) / 2 := by
            split <;> omega
          have := ih (l := if duplicates then l else (l + h) / 2) (h := (l + h) / 2 - 1) true
            (by omega)
          omega
        · have := ih (l := l) (h := (l + h) / 2 - 1) res (by omega)
          omega
    · simp only [if_neg hle]
      omega

/-- The index found is one where an item can be inserted. -/
theorem search_le (count : Nat) (cmp : Nat → Int) (duplicates : Bool) :
    (search count cmp duplicates).2 ≤ count := by
  have h := searchLoop_bounds cmp duplicates (count + 1) (l := 0) (h := count - 1) false (by omega)
  simp only [search]
  omega

/-- With duplicates allowed, the list after `add` is the old one with the item inserted somewhere. -/
theorem add_duplicates {α : Type} (items : List α) (cmp : Nat → Int) (item : α) :
    ∃ i ≤ items.length, add items cmp true item = items.insertIdx i item :=
  ⟨_, search_le items.length cmp true, by simp [add]⟩

theorem insertIdx_take_drop {α : Type} {items : List α} {i : Nat} (item : α) (h : i ≤ items.length) :
    items.insertIdx i item = items.take i ++ item :: items.drop i := by
  induction i generalizing items with
  | zero => rfl
  | succ i ih =>
    rcases items with _ | ⟨first, rest⟩
    · exact absurd h (Nat.not_succ_le_zero i)
    · rw [List.insertIdx_succ_cons, ih (Nat.le_of_succ_le_succ h), List.take_succ_cons, List.drop_succ_cons,
        List.cons_append]

/-- The keys are in order, as the comparisons with one key see it. -/
structure InOrder (cmp : Nat → Int) (count : Nat) : Prop where
  below : ∀ i j, i ≤ j → j < count → cmp j < 0 → cmp i < 0
  above : ∀ i j, i ≤ j → j < count → 0 < cmp i → 0 < cmp j

/-- What a search has found: the key at this place, with lower keys before it if duplicates are allowed, or the place
where it belongs. -/
structure Found (cmp : Nat → Int) (count : Nat) (duplicates : Bool) (r : Bool × Nat) : Prop where
  found : r.1 = true → r.2 < count ∧ cmp r.2 = 0 ∧ (duplicates → ∀ i < r.2, cmp i < 0)
  place : r.1 = false → r.2 ≤ count ∧ (∀ i < r.2, cmp i < 0) ∧ ∀ i, r.2 ≤ i → i < count → 0 < cmp i

/-- What the loop has found above the interval, when duplicates are allowed. -/
def Above (cmp : Nat → Int) (count : Nat) (duplicates : Bool) (h : Int) (res : Bool) : Prop :=
  if res then duplicates = true ∧ h + 1 < count ∧ cmp (h + 1).toNat = 0 else ∀ i : Nat, h < i → i < count → 0 < cmp i

/-- An empty interval ends the search. -/
theorem searchLoop_stop (cmp : Nat → Int) (duplicates : Bool) (fuel : Nat) {l h : Int} (res : Bool) (hlt : h < l) :
    searchLoop cmp duplicates fuel l h res = (res, l) := by
  cases fuel with
  | zero => rfl
  | succ fuel =>
    rw [searchLoop]
    exact if_neg (by omega)

theorem searchLoop_found {cmp : Nat → Int} {count : Nat} {duplicates : Bool} (hcmp : InOrder cmp count) (fuel : Nat) :
    ∀ {l h : Int} (res : Bool), 0 ≤ l → l ≤ h + 1 → h < count → h + 1 - l ≤ fuel →
      (∀ i : Nat, (i : Int) < l → cmp i < 0) → Above cmp count duplicates h res →
      Found cmp count duplicates ((searchLoop cmp duplicates fuel l h res).1,
        (searchLoop cmp duplicates fuel l h res).2.toNat) := by
  -- the interval is empty
  have hdone : ∀ {l h : Int} (res : Bool), 0 ≤ l → l = h + 1 → h < count → (∀ i : Nat, (i : Int) < l → cmp i < 0) →
      Above cmp count duplicates h res → Found cmp count duplicates (res, l.toNat) := by
    intro l h res hl heq hcount hbelow habove
    cases res with
    | true =>
      obtain ⟨hdup, hlt, hzero⟩ := habove
      rw [← heq] at hlt hzero
      exact ⟨fun _ => ⟨by omega, hzero, fun _ i hi => hbelow i (by omega)⟩, nofun⟩
    | false =>
      have habove : ∀ i : Nat, h < i → i < count → 0 < cmp i := habove
      exact ⟨nofun, fun _ => ⟨by omega, fun i hi => hbelow i (by omega), fun i hi hin => habove i (by omega) hin⟩⟩
  induction fuel with
  | zero =>
    intro l h res hl hlh hcount hfuel hbelow habove
    rw [searchLoop_stop _ _ _ _ (by omega)]
    exact hdone res hl (by omega) hcount hbelow habove
  | succ fuel ih =>
    intro l h res hl hlh hcount hfuel hbelow habove
    rw [searchLoop]
    by_cases hle : l ≤ h
    · obtain ⟨m, hm⟩ : ∃ m : Nat, (l + h) / 2 = m := ⟨((l + h) / 2).toNat, by omega⟩
      have hmcount : m < count := by omega
      have hm' : ((l + h) / 2).toNat = m := by omega
      dsimp only
      rw [if_pos hle, hm', hm]
      by_cases hneg : cmp m < 0
      · rw [if_pos hneg]
        exact ih res (by omega) (by omega) hcount (by omega)
          (fun i hi => hcmp.below i m (by omega) hmcount hneg) habove
      rw [if_neg hneg]
      by_cases hzero : cmp m = 0
      · rw [if_pos hzero]
        cases duplicates with
        | false =>
          rw [if_neg Bool.false_ne_true, searchLoop_stop _ _ _ _ (by omega)]
          exact ⟨fun _ => ⟨by simpa using hmcount, by simpa using hzero, nofun⟩, nofun⟩
        | true =>
          refine ih true hl (by omega) (by omega) (by omega) hbelow ⟨rfl, by omega, ?_⟩
          have hnext : ((m : Int) - 1 + 1).toNat = m := by omega
          rw [hnext]
          exact hzero
      · have hpos : 0 < cmp m := by omega
        rw [if_neg hzero]
        refine ih res hl (by omega) (by omega) (by omega) hbelow ?_
        cases res with
        | false => exact fun i hi hin => hcmp.above m i (by omega) hin hpos
        | true =>
          obtain ⟨-, hlt, hnext⟩ := habove
          have hzero' := hcmp.above m (h + 1).toNat (by omega) (by omega) hpos
          omega
    · rw [if_neg hle]
      exact hdone res hl (by omega) hcount hbelow habove

theorem search_found {cmp : Nat → Int} {count : Nat} (duplicates : Bool) (hcmp : InOrder cmp count) :
    Found cmp count duplicates (search count cmp duplicates) :=
  searchLoop_found hcmp (count + 1) false (by omega) (by omega) (by omega) (by omega) (fun i hi => absurd hi (by omega))
    fun i hi hin => absurd hi (by omega)

/-- An item whose key is above those of all items is added behind them. -/
theorem add_of_neg {α : Type} {items : List α} {cmp : Nat → Int} (item : α)
    (hneg : ∀ i < items.length, cmp i < 0) : add items cmp false item = items ++ [item] := by
  have hcmp : InOrder cmp items.length :=
    ⟨fun i j hij hj _ => hneg i (by omega), fun i j hij hj hpos => absurd (hneg i (by omega)) (by omega)⟩
  have hfound := search_found false hcmp
  rw [add]
  generalize search items.length cmp false = r at hfound
  have hfst : r.1 = false := by
    by_contra hr
    obtain ⟨hlt, hzero, -⟩ := hfound.found (Bool.not_eq_false _ ▸ hr)
    exact absurd (hneg _ hlt) (by omega)
  obtain ⟨hle, -, habove⟩ := hfound.place hfst
  have hsnd : r.2 = items.length := by
    by_contra hne
    exact absurd (hneg r.2 (by omega)) (by have := habove r.2 (Nat.le_refl _) (by omega); omega)
  rw [if_pos (.inl hfst), hsnd]
  exact List.insertIdx_length_self

/-- The place that `add` finds with duplicates allowed. -/
theorem add_duplicates_first {α : Type} {items : List α} {cmp : Nat → Int} (item : α) (hcmp : InOrder cmp items.length) :
    ∃ before after, items = before ++ after ∧ add items cmp true item = before ++ item :: after ∧
      (∀ i, i < before.length → cmp i < 0) ∧
      ∀ i, before.length ≤ i → i < items.length → 0 ≤ cmp i := by
  have hfound := search_found true hcmp
  have hle := search_le items.length cmp true
  rw [add, if_pos (.inr rfl)]
  generalize search items.length cmp true = r at hfound hle
  have hlength : (items.take r.2).length = r.2 := by
    rw [List.length_take]
    omega
  refine ⟨items.take r.2, items.drop r.2, (List.take_append_drop r.2 items).symm, insertIdx_take_drop item hle, ?_⟩
  rw [hlength]
  cases hfst : r.1 with
  | true =>
    obtain ⟨hlt, hzero, hbelow⟩ := hfound.found hfst
    refine ⟨hbelow rfl, fun i hi hin => ?_⟩
    by_contra hneg
    exact absurd (hcmp.below r.2 i hi hin (by omega)) (by omega)
  | false =>
    obtain ⟨-, hbelow, habove⟩ := hfound.place hfst
    exact ⟨hbelow, fun i hi hin => Int.le_of_lt (habove i hi hin)⟩

/-- The key is found where it is. -/
theorem Found.fst_iff {cmp : Nat → Int} {count : Nat} {duplicates : Bool} {r : Bool × Nat}
    (h : Found cmp count duplicates r) : r.1 = true ↔ ∃ i < count, cmp i = 0 := by
  constructor
  · exact fun hr => ⟨r.2, (h.found hr).1, (h.found hr).2.1⟩
  · rintro ⟨i, hi, hzero⟩
    by_contra hr
    obtain ⟨-, hbelow, habove⟩ := h.place (Bool.eq_false_iff.mpr hr)
    rcases Nat.lt_or_ge i r.2 with hlt | hge
    · have hneg := hbelow i hlt
      omega
    · have hpos := habove i hge hi
      omega

end Ucsim.SortedList
