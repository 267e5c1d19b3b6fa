import Mathlib.Data.List.InsertIdx

/-!
# Lists of objects

`cl_list` keeps its items in an array that grows by `Delta` when it is full, but never above `max_list_size`. An item
is stored whether there is room for it or not.
-/

namespace Ucsim

/-- `max_list_size`, with pointers of eight bytes. -/
def max_list_size : Nat := 0x10000 / 8

/-- A list: `Items` up to `count`, which is its length, of an array of `Limit` places. -/
structure CList (α : Type) where
  Items : List α
  Limit : Nat
  Delta : Nat

namespace CList

variable {α : Type}

/-- `set_limit`. -/
def set_limit (alimit : Nat) (l : CList α) : CList α :=
  let alimit := if alimit < l.Items.length then l.Items.length else alimit
  let alimit := if max_list_size < alimit then max_list_size else alimit
  { l with Limit := alimit }

/-- The constructor. -/
def new (alimit adelta : Nat) : CList α := set_limit alimit { Items := [], Limit := 0, Delta := adelta }

/-- `at`. An index that is not one of an item ends the program. -/
def at_ (index : Nat) (l : CList α) : Option α := l.Items[index]?

/-- `add_at`. Without room for the item what is behind the array is overwritten, which is no list any more. -/
def add_at (index : Nat) (item : α) (l : CList α) : Option (CList α) :=
  let l := if l.Items.length = l.Limit then set_limit (l.Items.length + l.Delta) l else l
  if l.Items.length < l.Limit then some { l with Items := l.Items.insertIdx index item } else none

/-- `add`. -/
def add (item : α) (l : CList α) : Option (CList α) := add_at l.Items.length item l

/-- `put_at`. -/
def put_at (index : Nat) (item : α) (l : CList α) : Option (CList α) :=
  if l.Items.length ≤ index then none else some { l with Items := l.Items.set index item }

/-- `disconn_at`. -/
def disconn_at (index : Nat) (l : CList α) : CList α := { l with Items := l.Items.eraseIdx index }

/-- `disconn`. -/
def disconn [DecidableEq α] (item : α) (l : CList α) : CList α :=
  match l.Items.findIdx? fun i => item = i with
  | some i => disconn_at i l
  | none => l

/-- Is there room for one more item, or does the array grow? -/
def Room (l : CList α) : Prop := l.Items.length < l.Limit ∨ 0 < l.Delta ∧ l.Items.length < max_list_size

/-- There is a place for each item. -/
structure Fits (l : CList α) : Prop where
  room : l.Items.length ≤ l.Limit
  limit_le : l.Limit ≤ max_list_size

/-- A list after one more item, with a place for it. -/
structure Grown (l : CList α) (index : Nat) (item : α) (t : CList α) : Prop where
  items : t.Items = l.Items.insertIdx index item
  delta : t.Delta = l.Delta
  fits : t.Fits

theorem set_limit_eq (alimit : Nat) (l : CList α) :
    set_limit alimit l = { l with Limit := min (max alimit l.Items.length) max_list_size } := by
  unfold set_limit
  dsimp only
  congr 1
  split <;> split <;> omega

theorem fits_new (alimit adelta : Nat) : (new alimit adelta : CList α).Fits := by
  rw [new, set_limit_eq]
  exact ⟨Nat.zero_le _, Nat.min_le_right ..⟩

theorem length_insertIdx_le (items : List α) (index : Nat) (item : α) :
    (items.insertIdx index item).length ≤ items.length + 1 :=
  List.length_insertIdx_le_succ

theorem add_at_grown {l : CList α} (index : Nat) (item : α) (h : l.Fits) (hroom : l.Room) :
    ∃ t, add_at index item l = some t ∧ Grown l index item t := by
  have hle := h.room
  have hmax := h.limit_le
  have hlen := length_insertIdx_le l.Items index item
  by_cases hfull : l.Items.length = l.Limit
  · obtain hlt | ⟨hdelta, hlt⟩ := hroom
    · omega
    have hgrown : l.Items.length < min (max (l.Items.length + l.Delta) l.Items.length) max_list_size := by omega
    simp only [add_at, if_pos hfull, set_limit_eq]
    rw [if_pos hgrown]
    exact ⟨_, rfl, rfl, rfl, Nat.le_trans hlen hgrown, Nat.min_le_right ..⟩
  · have hlt : l.Items.length < l.Limit := by omega
    simp only [add_at, if_neg hfull]
    rw [if_pos hlt]
    exact ⟨_, rfl, rfl, rfl, Nat.le_trans hlen hlt, hmax⟩

theorem add_at_full {l : CList α} (index : Nat) (item : α) (h : l.Fits) (hroom : ¬ l.Room) :
    add_at index item l = none := by
  have hle := h.room
  have hmax := h.limit_le
  simp only [Room, not_or, not_and, Nat.not_lt] at hroom
  have hfull : l.Items.length = l.Limit := by omega
  simp only [add_at, if_pos hfull, set_limit_eq]
  refine if_neg ?_
  rcases Nat.eq_zero_or_pos l.Delta with hdelta | hdelta
  · omega
  · have hcount := hroom.2 hdelta
    omega

/-- A list that grows has room up to the size of the largest array. -/
theorem room_iff {l : CList α} (h : l.Fits) (hdelta : 0 < l.Delta) : l.Room ↔ l.Items.length < max_list_size := by
  have hmax := h.limit_le
  unfold Room
  omega

theorem add_grown {l : CList α} (item : α) (h : l.Fits) (hroom : l.Room) :
    ∃ t, add item l = some t ∧ t.Items = l.Items ++ [item] ∧ t.Delta = l.Delta ∧ t.Fits := by
  obtain ⟨t, hadd, hgrown⟩ := add_at_grown l.Items.length item h hroom
  exact ⟨t, hadd, hgrown.items.trans List.insertIdx_length_self, hgrown.delta, hgrown.fits⟩

theorem put_at_of_lt {l : CList α} {index : Nat} (item : α) (h : index < l.Items.length) :
    put_at index item l = some { l with Items := l.Items.set index item } :=
  if_neg (Nat.not_le.mpr h)

theorem set_fits {l : CList α} (index : Nat) (item : α) (h : l.Fits) :
    ({ l with Items := l.Items.set index item } : CList α).Fits := by
  refine ⟨?_, h.limit_le⟩
  rw [List.length_set]
  exact h.room

theorem disconn_at_fits {l : CList α} (index : Nat) (h : l.Fits) : (disconn_at index l).Fits :=
  ⟨Nat.le_trans (List.eraseIdx_sublist l.Items index).length_le h.room, h.limit_le⟩

/-- A removal takes out one item, the first of its equals. -/
theorem disconn_items [DecidableEq α] (item : α) (l : CList α) : (disconn item l).Items = l.Items.erase item := by
  have herase : l.Items.erase item = l.Items.eraseP fun i => item = i := by
    rw [List.erase_eq_eraseP]
    rfl
  rw [herase, List.eraseP_eq_eraseIdx, disconn]
  cases l.Items.findIdx? fun i => item = i <;> rfl

theorem disconn_fits [DecidableEq α] {l : CList α} (item : α) (h : l.Fits) : (disconn item l).Fits := by
  unfold disconn
  split
  · exact disconn_at_fits _ h
  · exact h

end CList

end Ucsim
