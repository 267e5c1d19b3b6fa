import Mathlib.Data.List.Pairwise
import Ucsim.Pobj.CList
import Ucsim.Pobj.SortedList

/-!
# Runs of a sorted list

`cl_sorted_list` is a `cl_list` whose items are stored where the binary search for their keys ends.
-/

namespace Ucsim.SortedList

/-- A sorted list. -/
structure SList (α : Type) extends CList α where
  Duplicates : Bool

/-- What `compare` has to be: the sign of a total preorder. -/
structure Compares {κ : Type} (compare : κ → κ → Int) : Prop where
  swap : ∀ a b, compare a b < 0 ↔ 0 < compare b a
  trans : ∀ a b c, compare a b ≤ 0 → compare b c ≤ 0 → compare a c ≤ 0

namespace SList

variable {α κ : Type} [DecidableEq α] (key_of : α → κ) (compare : κ → κ → Int)

/-- The constructor, and `Duplicates` as it is set behind it. -/
def new (alimit adelta : Nat) (Duplicates : Bool) : SList α := { CList.new alimit adelta with Duplicates }

/-- `add_at`. -/
def add_at (index : Nat) (item : α) (s : SList α) : Option (SList α) :=
  (s.toCList.add_at index item).map fun l => { s with toCList := l }

/-- `disconn`. -/
def disconn (item : α) (s : SList α) : SList α := { s with toCList := s.toCList.disconn item }

/-- `compare(key_of(Items[i]), key)`. -/
def cmpAt (items : List α) (key : κ) (i : Nat) : Int := items[i]?.elim 0 fun item => compare (key_of item) key

/-- `search`. -/
def search (key : κ) (s : SList α) : Bool × Nat :=
  SortedList.search s.Items.length (cmpAt key_of compare s.Items key) s.Duplicates

/-- `add`. -/
def add (item : α) (s : SList α) : Option (SList α) :=
  let r := search key_of compare (key_of item) s
  if r.1 = false ∨ s.Duplicates then add_at r.2 item s else some s

/-- `index_of`. `ccNotFound` is `none`. -/
def index_of (item : α) (s : SList α) : Option Nat :=
  let r := search key_of compare (key_of item) s
  if r.1 = false then none
  else
    let i := if s.Duplicates then r.2 + (s.Items.drop r.2).findIdx (fun i => item = i) else r.2
    if i < s.Items.length then some i else none

/-! ## What a sorted list is for -/

/-- The keys of the items. -/
def keys (s : SList α) : List κ := s.Items.map key_of

/-- Keys in non-decreasing order. -/
def Sorted (ks : List κ) : Prop := ks.Pairwise fun a b => compare a b ≤ 0

/-- A search finds whether there is the key, and a place of it, or the place where it keeps the order. -/
structure SearchRight (key : κ) (s : SList α) : Prop where
  found_iff : (search key_of compare key s).1 = true ↔ ∃ item ∈ s.Items, compare (key_of item) key = 0
  found : (search key_of compare key s).1 = true → ∃ item, s.Items[(search key_of compare key s).2]? = some item ∧
    compare (key_of item) key = 0 ∧
    (s.Duplicates → ∀ item ∈ s.Items.take (search key_of compare key s).2, compare (key_of item) key ≠ 0)
  place : (search key_of compare key s).1 = false → (search key_of compare key s).2 ≤ s.Items.length ∧
    Sorted compare ((s.keys key_of).insertIdx (search key_of compare key s).2 key)

/-- Is an item inserted? -/
def Inserts (item : α) (s : SList α) : Prop :=
  s.Duplicates = true ∨ ∀ i ∈ s.Items, compare (key_of i) (key_of item) ≠ 0

/-- An add inserts the item at one place, or leaves the list as it is. -/
def AddRight (item : α) (s : SList α) : Prop :=
  ∃ t, add key_of compare item s = some t ∧
    (Inserts key_of compare item s →
      ∃ before after, s.Items = before ++ after ∧ t.Items = before ++ item :: after) ∧
    (¬ Inserts key_of compare item s → t = s)

/-- The lists that sequences of `add` and `disconn` lead to. -/
inductive Reachable (alimit adelta : Nat) (Duplicates : Bool) : SList α → Prop
  | new : Reachable alimit adelta Duplicates (new alimit adelta Duplicates)
  | add {s t} (item : α) (h : Reachable alimit adelta Duplicates s) (hadd : add key_of compare item s = some t) :
      Reachable alimit adelta Duplicates t
  | disconn {s} (item : α) (h : Reachable alimit adelta Duplicates s) : Reachable alimit adelta Duplicates (disconn item s)

/-- The place that `index_of` returns for a member is one of the item. -/
def FindsMembers (s : SList α) : Prop :=
  ∀ item ∈ s.Items, ∃ i, index_of key_of compare item s = some i ∧ s.Items[i]? = some item

end SList

/-! ## The order -/

section Order

variable {κ : Type} {compare : κ → κ → Int} (hc : Compares compare)

include hc

theorem Compares.le_iff (a b : κ) : compare a b ≤ 0 ↔ 0 ≤ compare b a := by
  have h := hc.swap b a
  omega

theorem Compares.eq_zero_comm {a b : κ} (h : compare a b = 0) : compare b a = 0 := by
  have hab := hc.swap a b
  have hba := hc.swap b a
  omega

theorem Compares.self (a : κ) : compare a a = 0 := by
  have h := hc.swap a a
  omega

theorem Compares.lt_of_le_of_lt {a b c : κ} (hab : compare a b ≤ 0) (hbc : compare b c < 0) : compare a c < 0 := by
  by_contra hac
  have hcb : compare c b ≤ 0 := hc.trans c a b ((hc.le_iff c a).mpr (by omega)) hab
  have hbc' := (hc.le_iff c b).mp hcb
  omega

theorem Compares.lt_of_lt_of_le {a b c : κ} (hab : compare a b < 0) (hbc : compare b c ≤ 0) : compare a c < 0 := by
  by_contra hac
  have hba : compare b a ≤ 0 := hc.trans b c a hbc ((hc.le_iff c a).mpr (by omega))
  have hab' := (hc.le_iff b a).mp hba
  omega

end Order

namespace SList

variable {α κ : Type} {key_of : α → κ} {compare : κ → κ → Int}

theorem cmpAt_of_lt {items : List α} {i : Nat} (key : κ) (h : i < items.length) :
    cmpAt key_of compare items key i = compare (key_of items[i]) key := by
  rw [cmpAt, List.getElem?_eq_getElem h]
  rfl

/-- Items in order compare in order with every key. -/
theorem inOrder_cmpAt (hc : Compares compare) {items : List α}
    (h : items.Pairwise fun a b => compare (key_of a) (key_of b) ≤ 0) (key : κ) :
    InOrder (cmpAt key_of compare items key) items.length := by
  have hle : ∀ i j, (hij : i < j) → (hj : j < items.length) →
      compare (key_of items[i]) (key_of items[j]) ≤ 0 :=
    fun i j hij hj => List.pairwise_iff_getElem.mp h i j (by omega) hj hij
  constructor
  · intro i j hij hj hneg
    rcases Nat.eq_or_lt_of_le hij with rfl | hlt
    · exact hneg
    · rw [cmpAt_of_lt key hj] at hneg
      rw [cmpAt_of_lt key (by omega)]
      exact hc.lt_of_le_of_lt (hle i j hlt hj) hneg
  · intro i j hij hj hpos
    rcases Nat.eq_or_lt_of_le hij with rfl | hlt
    · exact hpos
    · rw [cmpAt_of_lt key (by omega), ← hc.swap] at hpos
      rw [cmpAt_of_lt key hj, ← hc.swap]
      exact hc.lt_of_lt_of_le hpos (hle i j hlt hj)

/-- A key between the elements before and behind a place. -/
theorem pairwise_insertIdx {β : Type} {R : β → β → Prop} {xs : List β} {r : Nat} {x : β} (h : xs.Pairwise R)
    (hr : r ≤ xs.length) (hbefore : ∀ a ∈ xs.take r, R a x) (hbehind : ∀ b ∈ xs.drop r, R x b) :
    (xs.insertIdx r x).Pairwise R := by
  rw [← List.take_append_drop r xs, List.pairwise_append] at h
  obtain ⟨htake, hdrop, hacross⟩ := h
  rw [insertIdx_take_drop x hr, List.pairwise_append, List.pairwise_cons]
  refine ⟨htake, ⟨hbehind, hdrop⟩, ?_⟩
  intro a ha b hb
  rcases List.mem_cons.mp hb with rfl | hb
  · exact hbefore a ha
  · exact hacross a ha b hb

/-- The comparisons before a place, item by item. -/
theorem forall_mem_take {items : List α} {r : Nat} {key : κ} {P : Int → Prop} (hr : r ≤ items.length)
    (h : ∀ i < r, P (cmpAt key_of compare items key i)) : ∀ a ∈ items.take r, P (compare (key_of a) key) := by
  intro a ha
  obtain ⟨i, hi, rfl⟩ := List.mem_iff_getElem.mp ha
  rw [List.length_take] at hi
  rw [List.getElem_take]
  have hP := h i (by omega)
  rwa [cmpAt_of_lt key (by omega)] at hP

theorem forall_mem_drop {items : List α} {r : Nat} {key : κ} {P : Int → Prop}
    (h : ∀ i, r ≤ i → i < items.length → P (cmpAt key_of compare items key i)) :
    ∀ a ∈ items.drop r, P (compare (key_of a) key) := by
  intro a ha
  obtain ⟨i, hi, rfl⟩ := List.mem_iff_getElem.mp ha
  rw [List.length_drop] at hi
  rw [List.getElem_drop]
  have hP := h (r + i) (by omega) (by omega)
  rwa [cmpAt_of_lt key (by omega)] at hP

/-! ## What holds of every list -/

/-- The order of two items: strict without duplicates. -/
def Before (key_of : α → κ) (compare : κ → κ → Int) (duplicates : Bool) (a b : α) : Prop :=
  if duplicates then compare (key_of a) (key_of b) ≤ 0 else compare (key_of a) (key_of b) < 0

/-- The items are in order, and there is a place for each of them. -/
structure Inv (key_of : α → κ) (compare : κ → κ → Int) (s : SList α) : Prop where
  ordered : s.Items.Pairwise (Before key_of compare s.Duplicates)
  fits : s.Fits

theorem Before.le {duplicates : Bool} {a b : α} (h : Before key_of compare duplicates a b) :
    compare (key_of a) (key_of b) ≤ 0 := by
  unfold Before at h
  split at h <;> omega

theorem Inv.le {s : SList α} (h : Inv key_of compare s) :
    s.Items.Pairwise fun a b => compare (key_of a) (key_of b) ≤ 0 :=
  h.ordered.imp Before.le

theorem Inv.found (hc : Compares compare) {s : SList α} (h : Inv key_of compare s) (key : κ) :
    Found (cmpAt key_of compare s.Items key) s.Items.length s.Duplicates (search key_of compare key s) :=
  search_found s.Duplicates (inOrder_cmpAt hc h.le key)

theorem Inv.sorted {s : SList α} (h : Inv key_of compare s) : Sorted compare (s.keys key_of) :=
  List.pairwise_map.mpr h.le

theorem search_snd_le (key_of : α → κ) (compare : κ → κ → Int) (key : κ) (s : SList α) :
    (search key_of compare key s).2 ≤ s.Items.length :=
  search_le ..

theorem search_fst_iff (hc : Compares compare) {s : SList α} (h : Inv key_of compare s) (key : κ) :
    (search key_of compare key s).1 = true ↔ ∃ item ∈ s.Items, compare (key_of item) key = 0 := by
  rw [(h.found hc key).fst_iff]
  constructor
  · rintro ⟨i, hi, hzero⟩
    exact ⟨s.Items[i], List.getElem_mem hi, (cmpAt_of_lt key hi).symm.trans hzero⟩
  · rintro ⟨item, hmem, hzero⟩
    obtain ⟨i, hi, rfl⟩ := List.mem_iff_getElem.mp hmem
    exact ⟨i, hi, (cmpAt_of_lt key hi).trans hzero⟩

/-- The search is right in every list. -/
theorem Inv.searchRight (hc : Compares compare) {s : SList α} (h : Inv key_of compare s) (key : κ) :
    SearchRight key_of compare key s where
  found_iff := search_fst_iff hc h key
  found hr := by
    obtain ⟨hlt, hzero, hfirst⟩ := (h.found hc key).found hr
    refine ⟨s.Items[(search key_of compare key s).2], List.getElem?_eq_getElem hlt, ?_, ?_⟩
    · exact (cmpAt_of_lt key hlt).symm.trans hzero
    · intro hdup
      exact forall_mem_take (P := fun c => c ≠ 0) (Nat.le_of_lt hlt) fun i hi => Int.ne_of_lt (hfirst hdup i hi)
  place hr := by
    obtain ⟨hle, hbelow, habove⟩ := (h.found hc key).place hr
    refine ⟨hle, pairwise_insertIdx h.sorted (by rwa [keys, List.length_map]) ?_ ?_⟩
    · rw [keys, ← List.map_take, List.forall_mem_map]
      exact forall_mem_take (P := fun c => c ≤ 0) hle fun i hi => Int.le_of_lt (hbelow i hi)
    · rw [keys, ← List.map_drop, List.forall_mem_map]
      intro b hb
      rw [hc.le_iff]
      exact forall_mem_drop (P := fun c => 0 ≤ c) (fun i hi hin => Int.le_of_lt (habove i hi hin)) b hb

/-- Every member is found. -/
theorem Inv.findsMembers [DecidableEq α] (hc : Compares compare) {s : SList α} (h : Inv key_of compare s) :
    FindsMembers key_of compare s := by
  intro item hmem
  have hr : (search key_of compare (key_of item) s).1 = true :=
    (search_fst_iff hc h _).mpr ⟨item, hmem, hc.self _⟩
  obtain ⟨hlt, hzero, hfirst⟩ := (h.found hc (key_of item)).found hr
  obtain ⟨k, hk, rfl⟩ := List.mem_iff_getElem.mp hmem
  generalize hplace : (search key_of compare (key_of s.Items[k]) s).2 = r at hlt hzero hfirst
  simp only [index_of, hr, hplace, Bool.true_eq_false, if_false]
  cases hdup : s.Duplicates with
  | true =>
    -- the item is not before the first one with its key
    have hrk : r ≤ k := by
      by_contra hkr
      have hneg := hfirst hdup k (by omega)
      rw [cmpAt_of_lt _ hk, hc.self] at hneg
      omega
    have hin : s.Items[k] ∈ s.Items.drop r :=
      List.mem_drop_iff_getElem.mpr ⟨k - r, by omega, by simp [Nat.add_sub_cancel' hrk]⟩
    have hfind : (s.Items.drop r).findIdx (fun i => s.Items[k] = i) < (s.Items.drop r).length :=
      List.findIdx_lt_length_of_exists ⟨_, hin, decide_eq_true rfl⟩
    have heq := List.findIdx_getElem (w := hfind)
    rw [List.getElem_drop] at heq
    rw [List.length_drop] at hfind
    have hlt' : r + (s.Items.drop r).findIdx (fun i => s.Items[k] = i) < s.Items.length := by omega
    refine ⟨_, if_pos hlt', ?_⟩
    rw [if_pos rfl, List.getElem?_eq_getElem hlt', ← of_decide_eq_true heq]
  | false =>
    -- no other item has the key
    have hord := List.pairwise_iff_getElem.mp h.ordered
    have hrk : r = k := by
      rw [cmpAt_of_lt _ hlt] at hzero
      rcases Nat.lt_trichotomy r k with hrk | hrk | hrk
      · have hneg := hord r k hlt hk hrk
        rw [Before, hdup, if_neg Bool.false_ne_true] at hneg
        omega
      · exact hrk
      · have hneg := hord k r hk hlt hrk
        rw [Before, hdup, if_neg Bool.false_ne_true] at hneg
        have hzero' := hc.eq_zero_comm hzero
        omega
    subst hrk
    exact ⟨r, if_pos hlt, List.getElem?_eq_getElem hlt⟩

/-! ## What an add and a removal do -/

theorem add_at_grown {s : SList α} (index : Nat) (item : α) (h : Inv key_of compare s) (hroom : s.Room) :
    ∃ t : SList α, add_at index item s = some t ∧ s.toCList.Grown index item t.toCList ∧
      t.Duplicates = s.Duplicates := by
  obtain ⟨l, hadd, hgrown⟩ := CList.add_at_grown index item h.fits hroom
  exact ⟨{ s with toCList := l }, by rw [add_at, hadd]; rfl, hgrown, rfl⟩

theorem add_at_full {s : SList α} (index : Nat) (item : α) (h : Inv key_of compare s) (hroom : ¬ s.Room) :
    add_at index item s = none := by
  rw [add_at, CList.add_at_full index item h.fits hroom]
  rfl

/-- Does an add store the item? -/
theorem stores_iff (hc : Compares compare) {s : SList α} (h : Inv key_of compare s) (item : α) :
    ((search key_of compare (key_of item) s).1 = false ∨ s.Duplicates = true) ↔ Inserts key_of compare item s := by
  rw [Inserts, Or.comm, ← Bool.not_eq_true, search_fst_iff hc h]
  simp only [not_exists, not_and, ne_eq]

theorem add_of_inserts (hc : Compares compare) {s : SList α} (h : Inv key_of compare s) {item : α}
    (hins : Inserts key_of compare item s) :
    add key_of compare item s = add_at (search key_of compare (key_of item) s).2 item s :=
  if_pos ((stores_iff hc h item).mpr hins)

theorem add_of_not_inserts (hc : Compares compare) {s : SList α} (h : Inv key_of compare s) {item : α}
    (hins : ¬ Inserts key_of compare item s) : add key_of compare item s = some s :=
  if_neg (mt (stores_iff hc h item).mp hins)

/-- The place that is searched for keeps the order of the items. -/
theorem ordered_insertIdx (hc : Compares compare) {s : SList α} (h : Inv key_of compare s) {item : α}
    (hins : Inserts key_of compare item s) :
    (s.Items.insertIdx (search key_of compare (key_of item) s).2 item).Pairwise
      (Before key_of compare s.Duplicates) := by
  have hle := search_snd_le key_of compare (key_of item) s
  have hfound := h.found hc (key_of item)
  generalize hr : search key_of compare (key_of item) s = r at hle hfound
  cases hfst : r.1 with
  | false =>
    obtain ⟨-, hbelow, habove⟩ := hfound.place hfst
    refine pairwise_insertIdx h.ordered hle ?_ ?_
    · intro a ha
      have hlt := forall_mem_take (P := fun c => c < 0) hle hbelow a ha
      unfold Before
      split <;> omega
    · intro b hb
      have hlt := (hc.swap _ _).mpr (forall_mem_drop (P := fun c => 0 < c) habove b hb)
      unfold Before
      split <;> omega
  | true =>
    have hdup : s.Duplicates = true := by
      rcases (stores_iff hc h item).mpr hins with hnot | hdup
      · rw [hr, hfst] at hnot
        exact absurd hnot.symm Bool.false_ne_true
      · exact hdup
    obtain ⟨hlt, hzero, hfirst⟩ := hfound.found hfst
    refine pairwise_insertIdx h.ordered hle ?_ ?_
    · intro a ha
      rw [Before, if_pos hdup]
      exact forall_mem_take (P := fun c => c ≤ 0) hle (fun i hi => Int.le_of_lt (hfirst hdup i hi)) a ha
    · intro b hb
      rw [Before, if_pos hdup, hc.le_iff]
      refine forall_mem_drop (P := fun c => 0 ≤ c) (fun i hri hi => ?_) b hb
      by_contra hneg
      have hlow := (inOrder_cmpAt hc h.le (key_of item)).below r.2 i hri hi (by omega)
      omega

theorem Inv.add (hc : Compares compare) {s t : SList α} (h : Inv key_of compare s) {item : α}
    (hadd : add key_of compare item s = some t) : Inv key_of compare t := by
  by_cases hins : Inserts key_of compare item s
  · have hord := ordered_insertIdx hc h hins
    rw [add_of_inserts hc h hins] at hadd
    by_cases hroom : s.Room
    · obtain ⟨t', hadd', hgrown, hdup⟩ := add_at_grown _ item h hroom
      obtain rfl : t' = t := Option.some.inj (hadd'.symm.trans hadd)
      refine ⟨?_, hgrown.fits⟩
      rwa [hgrown.items, hdup]
    · rw [add_at_full _ item h hroom] at hadd
      cases hadd
  · rw [add_of_not_inserts hc h hins] at hadd
    cases hadd
    exact h

theorem Inv.disconn [DecidableEq α] {s : SList α} (h : Inv key_of compare s) (item : α) : Inv key_of compare (disconn item s) := by
  refine ⟨?_, CList.disconn_fits item h.fits⟩
  rw [SList.disconn, CList.disconn_items]
  exact h.ordered.sublist List.erase_sublist

theorem Inv.new (alimit adelta : Nat) (Duplicates : Bool) :
    Inv key_of compare (new alimit adelta Duplicates : SList α) := by
  have hnil : (CList.new alimit adelta : CList α).Items = [] := by rw [CList.new, CList.set_limit_eq]
  refine ⟨?_, CList.fits_new alimit adelta⟩
  rw [SList.new, hnil]
  exact .nil

/-- Every list that sequences of `add` and `disconn` lead to is in order. -/
theorem Reachable.inv [DecidableEq α] (hc : Compares compare) {alimit adelta : Nat} {Duplicates : Bool} {s : SList α}
    (h : Reachable key_of compare alimit adelta Duplicates s) : Inv key_of compare s := by
  induction h with
  | new => exact .new ..
  | add item _ hadd ih => exact ih.add hc hadd
  | disconn item _ ih => exact ih.disconn item

theorem addRight_iff (hc : Compares compare) {s : SList α} (h : Inv key_of compare s) (item : α) :
    AddRight key_of compare item s ↔ (Inserts key_of compare item s → s.Room) := by
  constructor
  · rintro ⟨t, hadd, -⟩ hins
    by_contra hroom
    rw [add_of_inserts hc h hins, add_at_full _ item h hroom] at hadd
    cases hadd
  · intro hroom
    by_cases hins : Inserts key_of compare item s
    · obtain ⟨t, hadd, hgrown, -⟩ := add_at_grown (search key_of compare (key_of item) s).2 item h (hroom hins)
      have hitems := hgrown.items.trans (insertIdx_take_drop item (search_snd_le ..))
      exact ⟨t, (add_of_inserts hc h hins).trans hadd, fun _ => ⟨_, _, (List.take_append_drop _ _).symm, hitems⟩,
        fun hnot => absurd hins hnot⟩
    · exact ⟨s, add_of_not_inserts hc h hins, fun hins' => absurd hins' hins, fun _ => rfl⟩

/-- Every list that is reached is in order, searches are right and find every member, and an add is right if there is
room for what it inserts. -/
theorem sorted_list_iff [DecidableEq α] (hc : Compares compare) {alimit adelta : Nat} {Duplicates : Bool} {s : SList α}
    (h : Reachable key_of compare alimit adelta Duplicates s) :
    Sorted compare (s.keys key_of) ∧ (∀ key, SearchRight key_of compare key s) ∧ FindsMembers key_of compare s ∧
      (∀ item, (disconn item s).Items = s.Items.erase item) ∧
      ∀ item, AddRight key_of compare item s ↔ (Inserts key_of compare item s → s.Room) :=
  have hinv := h.inv hc
  ⟨hinv.sorted, hinv.searchRight hc, hinv.findsMembers hc, fun item => CList.disconn_items item s.toCList, addRight_iff hc hinv⟩

/-- Items that are added one after the other. -/
theorem Reachable.adds [DecidableEq α] {alimit adelta : Nat} {Duplicates : Bool} {l : List α} {s t : SList α}
    (h : Reachable key_of compare alimit adelta Duplicates s)
    (hl : l.foldlM (fun s item => SList.add key_of compare item s) s = some t) :
    Reachable key_of compare alimit adelta Duplicates t := by
  induction l generalizing s with
  | nil =>
    obtain rfl := Option.some.inj hl
    exact h
  | cons item l ih =>
    rw [List.foldlM_cons] at hl
    obtain ⟨s₁, hadd, hrest⟩ := Option.bind_eq_some_iff.mp hl
    exact ih (h.add item hadd) hrest

/-- The comparison of numbers. -/
def natCompare (a b : Nat) : Int := (a : Int) - b

theorem natCompare_compares : Compares natCompare where
  swap a b := by
    unfold natCompare
    omega
  trans a b c := by
    unfold natCompare
    omega

/-- A list of numbers that grows by two. -/
def numbers (Items : List Nat) (Limit : Nat) (Duplicates : Bool) : SList Nat := { Items, Limit, Delta := 2, Duplicates }

/-- 5, 3, 5 and 4 are added, and 3 is removed. With duplicates there is room for another 4, and without them it is
left out. -/
theorem sorted_list_iff_run : ∃ s t : SList Nat,
    Reachable id natCompare 2 2 true s ∧ s.Items = [4, 5, 5] ∧ Sorted natCompare (s.keys id) ∧
      search id natCompare 5 s = (true, 1) ∧ SearchRight id natCompare 5 s ∧ FindsMembers id natCompare s ∧
      (disconn 4 s).Items = [5, 5] ∧ AddRight id natCompare 4 s ∧
    Reachable id natCompare 2 2 false t ∧ t.Items = [4, 5] ∧ SearchRight id natCompare 4 t ∧
      AddRight id natCompare 4 t := by
  have hadds : ∀ dup, [5, 3, 5, 4].foldlM (fun s item => add id natCompare item s) (new 2 2 dup) =
      some (numbers (if dup then [3, 4, 5, 5] else [3, 4, 5]) 4 dup) := by
    intro dup
    cases dup <;>
      simp [add, add_at, search, SortedList.search, searchLoop, cmpAt, natCompare, new, numbers, CList.new,
        CList.set_limit, CList.add_at, max_list_size]
  have hs : Reachable id natCompare 2 2 true (numbers [4, 5, 5] 4 true) := .disconn 3 (.adds .new (hadds true))
  have ht : Reachable id natCompare 2 2 false (numbers [4, 5] 4 false) := .disconn 3 (.adds .new (hadds false))
  obtain ⟨hsorted, hsearch, hfinds, hdisconn, hs_add⟩ := sorted_list_iff natCompare_compares hs
  obtain ⟨-, hsearch', -, -, ht_add⟩ := sorted_list_iff natCompare_compares ht
  refine ⟨_, _, hs, rfl, hsorted, by decide, hsearch 5, hfinds, (hdisconn 4).trans rfl, ?_, ht, rfl, hsearch' 4, ?_⟩
  · exact (hs_add 4).mpr fun _ => .inl (by decide)
  · refine (ht_add 4).mpr fun hins => ?_
    rcases hins with hdup | hno
    · cases hdup
    · exact absurd rfl (hno 4 (by decide))

theorem inserts_of_lt {n : Nat} {s : SList Nat} (h : ∀ i ∈ s.Items, i < n) : Inserts id natCompare n s := by
  refine .inr fun i hi heq => ?_
  have hlt := h i hi
  simp only [natCompare, id] at heq
  omega

/-- Lists get as long as the array can. -/
theorem reachable_length {n : Nat} (hn : n ≤ max_list_size) :
    ∃ s, Reachable id natCompare 2 2 false s ∧ s.Items.length = n ∧ s.Delta = 2 ∧ ∀ i ∈ s.Items, i < n := by
  induction n with
  | zero => exact ⟨_, .new, rfl, rfl, nofun⟩
  | succ n ih =>
    obtain ⟨s, hreach, hlen, hdelta, hbelow⟩ := ih (by omega)
    have hinv := hreach.inv natCompare_compares
    have hins := inserts_of_lt hbelow
    have hroom : s.Room := .inr ⟨by omega, by omega⟩
    obtain ⟨t, hadd, hgrown, -⟩ := add_at_grown (search id natCompare n s).2 n hinv hroom
    have hle := search_snd_le id natCompare n s
    refine ⟨t, hreach.add n ((add_of_inserts natCompare_compares hinv hins).trans hadd), ?_, ?_, ?_⟩
    · rw [hgrown.items, List.length_insertIdx_of_le_length hle, hlen]
    · rw [hgrown.delta, hdelta]
    · intro i hi
      rw [hgrown.items, List.mem_insertIdx hle] at hi
      rcases hi with rfl | hi
      · omega
      · have hlt := hbelow i hi
        omega

/-- One item more than the array can hold. -/
theorem full_list_add_fails :
    ¬ ∀ s, Reachable id natCompare 2 2 false s → ∀ item, AddRight id natCompare item s := by
  intro hall
  obtain ⟨s, hreach, hlen, -, hbelow⟩ := reachable_length (Nat.le_refl max_list_size)
  have hinv := hreach.inv natCompare_compares
  have hroom := (addRight_iff natCompare_compares hinv max_list_size).mp (hall s hreach _) (inserts_of_lt hbelow)
  have hmax := hinv.fits.limit_le
  rw [CList.Room] at hroom
  omega

end SList

end Ucsim.SortedList
