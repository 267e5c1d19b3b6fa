import Mathlib.Data.Set.Insert
import Mathlib.Logic.Function.Basic
import Ucsim.Pobj.CList

/-!
# User counters

The tickers that a user adds to a controller stand in one list of pointers. A pointer that is null marks a slot without
a counter, and slot 0 is left to counters that are added by number.
-/

namespace Ucsim

/-- The list of counters, and the objects that were deleted. -/
structure Counters (τ : Type) where
  counters : CList (Option τ)
  deleted : List τ

namespace Counters

variable {τ : Type} [DecidableEq τ] (get_name : τ → Option String)

/-- The list that `cl_uc` makes. -/
def new : Counters τ := { counters := .new 2 2, deleted := [] }

/-- `delete t`. What was deleted cannot be deleted again. -/
def delete (t : τ) (s : Counters τ) : Option (Counters τ) :=
  if t ∈ s.deleted then none else some { s with deleted := t :: s.deleted }

/-- The loop of the functions that look a name up. The name of a deleted object cannot be read. -/
def find_named (deleted : List τ) (nam : String) : Nat → List (Option τ) → Option (Option (Nat × τ))
  | _, [] => some none
  | i, none :: rest => find_named deleted nam (i + 1) rest
  | i, some t :: rest =>
    if t ∈ deleted then none
    else if get_name t = some nam then some (some (i, t)) else find_named deleted nam (i + 1) rest

/-- `get_counter(nr)`. -/
def get_counter (nr : Nat) (s : Counters τ) : Option (Option τ) :=
  if s.counters.Items.length ≤ nr then some none else s.counters.at_ nr

/-- `get_counter(nam)`. -/
def get_counter_named (nam : Option String) (s : Counters τ) : Option (Option τ) :=
  match nam with
  | none => some none
  | some nam => (find_named get_name s.deleted nam 0 s.counters.Items).map fun r => r.map Prod.snd

/-- The loop of `add_counter(ticker, nr)`. The first argument bounds the number of nulls. -/
def addNulls (nr : Nat) : Nat → CList (Option τ) → Option (CList (Option τ))
  | 0, l => some l
  | fuel + 1, l => if l.Items.length ≤ nr then (l.add none).bind (addNulls nr fuel) else some l

/-- `add_counter(ticker, nr)`. -/
def add_counter (ticker : τ) (nr : Nat) (s : Counters τ) : Option (Counters τ) := do
  let l ← addNulls nr (nr + 1) s.counters
  let l ← l.put_at nr (some ticker)
  return { s with counters := l }

/-- `add_counter(ticker, nam)` keeps slot 0 free, -/
def addSlot0 (l : CList (Option τ)) : Option (CList (Option τ)) := if l.Items.length < 1 then l.add none else some l

/-- and fills the first null behind it. -/
def putFirstNull (ticker : τ) (l : CList (Option τ)) : Option (CList (Option τ)) :=
  match (l.Items.drop 1).findIdx? fun t => t.isNone with
  | some i => l.put_at (i + 1) (some ticker)
  | none => l.add (some ticker)

/-- `add_counter(ticker, nam)`, which does not read the name. -/
def add_counter_named (ticker : τ) (s : Counters τ) : Option (Counters τ) := do
  let l ← addSlot0 s.counters
  let l ← putFirstNull ticker l
  return { s with counters := l }

/-- `del_counter(nr)`. -/
def del_counter (nr : Nat) (s : Counters τ) : Option (Counters τ) :=
  if s.counters.Items.length ≤ nr then some s
  else do
    let t ← s.counters.at_ 0
    let s ← match t with
      | some t => delete t s
      | none => some s
    let l ← s.counters.put_at nr none
    return { s with counters := l }

/-- `del_counter(nam)`. -/
def del_counter_named (nam : Option String) (s : Counters τ) : Option (Counters τ) :=
  match nam with
  | none => some s
  | some nam => do
    match ← find_named get_name s.deleted nam 0 s.counters.Items with
    | none => return s
    | some (i, t) =>
      let s ← delete t s
      let l ← s.counters.put_at i none
      return { s with counters := l }

end Counters

/-- What the commands of the timers do to the counters. -/
inductive CounterOp (τ : Type)
  | add_counter (ticker : τ) (nr : Nat)
  | add_counter_named (ticker : τ) (nam : Option String)
  | del_counter (nr : Nat)
  | del_counter_named (nam : Option String)
  | get_counter (nr : Nat)
  | get_counter_named (nam : Option String)

namespace Counters

variable {τ : Type} [DecidableEq τ] (get_name : τ → Option String)

/-- An operation: the counters after it, and the pointer that it returns. -/
def exec (op : CounterOp τ) (s : Counters τ) : Option (Counters τ × Option τ) :=
  match op with
  | .add_counter ticker nr => (add_counter ticker nr s).map fun s => (s, none)
  | .add_counter_named ticker _ => (add_counter_named ticker s).map fun s => (s, none)
  | .del_counter nr => (del_counter nr s).map fun s => (s, none)
  | .del_counter_named nam => (del_counter_named get_name nam s).map fun s => (s, none)
  | .get_counter nr => (get_counter nr s).map fun t => (s, t)
  | .get_counter_named nam => (get_counter_named get_name nam s).map fun t => (s, t)

end Counters

/-! ## What the list is for -/

/-- A partial map from slots to counters, and the counters that were destroyed. -/
@[ext]
structure CounterMap (τ : Type) where
  slot : Nat → Option τ
  destroyed : Set τ

namespace CounterMap

variable {τ : Type} (get_name : τ → Option String)

/-- A counter in a slot. -/
def put (m : CounterMap τ) (i : Nat) (t : τ) : CounterMap τ := { m with slot := Function.update m.slot i (some t) }

/-- The counter of a slot is taken out and destroyed. -/
def remove (m : CounterMap τ) (i : Nat) : CounterMap τ where
  slot := Function.update m.slot i none
  destroyed := { t | t ∈ m.destroyed ∨ m.slot i = some t }

/-- Does the counter have this name? No counter has the null pointer for a name. -/
def Named (nam : Option String) (t : τ) : Prop := ∃ n, nam = some n ∧ get_name t = some n

/-- The first counter of a name. -/
structure FirstNamed (m : CounterMap τ) (nam : Option String) (i : Nat) (t : τ) : Prop where
  slot : m.slot i = some t
  named : Named get_name nam t
  first : ∀ j < i, ∀ u, m.slot j = some u → ¬ Named get_name nam u

/-- No counter has the name. -/
def NoneNamed (m : CounterMap τ) (nam : Option String) : Prop := ∀ i t, m.slot i = some t → ¬ Named get_name nam t

/-- What an operation does to the map, and what it returns. -/
def Does (op : CounterOp τ) (m m' : CounterMap τ) (r : Option τ) : Prop :=
  match op with
  | .add_counter ticker nr => m' = m.put nr ticker ∧ r = none
  | .add_counter_named ticker _ =>
    (∃ i, 1 ≤ i ∧ m.slot i = none ∧ (∀ j, 1 ≤ j → j < i → m.slot j ≠ none) ∧ m' = m.put i ticker) ∧ r = none
  | .del_counter nr => m' = m.remove nr ∧ r = none
  | .del_counter_named nam =>
    ((∃ i t, m.FirstNamed get_name nam i t ∧ m' = m.remove i) ∨ m.NoneNamed get_name nam ∧ m' = m) ∧ r = none
  | .get_counter nr => m' = m ∧ r = m.slot nr
  | .get_counter_named nam =>
    m' = m ∧ ((∃ i t, m.FirstNamed get_name nam i t ∧ r = some t) ∨ m.NoneNamed get_name nam ∧ r = none)

/-- Sequences of operations on a map that is empty first, the last one first. -/
inductive Run : List (CounterOp τ) → CounterMap τ → Prop
  | new : Run [] { slot := fun _ => none, destroyed := ∅ }
  | step {ops op m m' r} (h : Run ops m) (hdoes : Does get_name op m m' r) : Run (op :: ops) m'

end CounterMap

namespace Counters

variable {τ : Type} [DecidableEq τ] (get_name : τ → Option String)

/-- The counter of a slot. Behind the list there is none. -/
def slotOf (items : List (Option τ)) (i : Nat) : Option τ := items[i]?.join

/-- The map that the list stands for. -/
def map (s : Counters τ) : CounterMap τ where
  slot := slotOf s.counters.Items
  destroyed := { t | t ∈ s.deleted }

/-- An operation does what it is for. -/
def Right (op : CounterOp τ) (s : Counters τ) : Prop :=
  ∃ s' r, exec get_name op s = some (s', r) ∧ CounterMap.Does get_name op s.map s'.map r

/-- A deletion by number has to find the same in slot 0 as in its own slot, and what is added a place in the array. -/
def Meets (op : CounterOp τ) (s : Counters τ) : Prop :=
  match op with
  | .add_counter _ nr => nr < max_list_size
  | .add_counter_named _ _ => ∃ i, 1 ≤ i ∧ i < max_list_size ∧ s.map.slot i = none
  | .del_counter nr => nr < s.counters.Items.length → s.map.slot 0 = s.map.slot nr
  | _ => True

end Counters

/-- The ticker that an operation adds. -/
def CounterOp.ticker {τ : Type} : CounterOp τ → Option τ
  | .add_counter ticker _ | .add_counter_named ticker _ => some ticker
  | _ => none

/-- What is added is a new object. -/
def CounterOp.Fresh {τ : Type} (op : CounterOp τ) (before : List (CounterOp τ)) : Prop :=
  ∀ t, op.ticker = some t → ∀ o ∈ before, o.ticker ≠ some t

namespace Counters

variable {τ : Type} [DecidableEq τ] (get_name : τ → Option String)

/-- Sequences of operations, the last one first, and the counters that they lead to. -/
inductive Run : List (CounterOp τ) → Counters τ → Prop
  | new : Run [] new
  | step {ops op s s' r} (h : Run ops s) (hfresh : op.Fresh ops) (hmeets : s.Meets op)
      (hexec : exec get_name op s = some (s', r)) : Run (op :: ops) s'

end Counters

/-! ## The map -/

namespace CounterMap

variable {τ : Type} {get_name : τ → Option String}

@[simp]
theorem put_slot (m : CounterMap τ) (i : Nat) (t : τ) : (m.put i t).slot = Function.update m.slot i (some t) := rfl

@[simp]
theorem remove_slot (m : CounterMap τ) (i : Nat) : (m.remove i).slot = Function.update m.slot i none := rfl

/-- No counter is in two slots or destroyed, and all of them were added. -/
structure Inv (ops : List (CounterOp τ)) (m : CounterMap τ) : Prop where
  alive : ∀ i t, m.slot i = some t → t ∉ m.destroyed
  apart : ∀ i j t, m.slot i = some t → m.slot j = some t → i = j
  added : ∀ i t, m.slot i = some t → ∃ o ∈ ops, o.ticker = some t
  destroyed_added : ∀ t ∈ m.destroyed, ∃ o ∈ ops, o.ticker = some t

theorem Inv.cons {ops : List (CounterOp τ)} {m : CounterMap τ} (op : CounterOp τ) (h : m.Inv ops) : m.Inv (op :: ops) where
  alive := h.alive
  apart := h.apart
  added i t hi := by
    obtain ⟨o, ho, ht⟩ := h.added i t hi
    exact ⟨o, List.mem_cons_of_mem op ho, ht⟩
  destroyed_added t ht := by
    obtain ⟨o, ho, ht⟩ := h.destroyed_added t ht
    exact ⟨o, List.mem_cons_of_mem op ho, ht⟩

theorem Inv.remove {ops : List (CounterOp τ)} {m : CounterMap τ} (i : Nat) (h : m.Inv ops) : (m.remove i).Inv ops := by
  have hslot : ∀ j t, (m.remove i).slot j = some t → j ≠ i ∧ m.slot j = some t := by
    intro j t hj
    rcases eq_or_ne j i with rfl | hji
    · rw [remove_slot, Function.update_self] at hj
      cases hj
    · rw [remove_slot, Function.update_of_ne hji] at hj
      exact ⟨hji, hj⟩
  refine ⟨?_, ?_, ?_, ?_⟩
  · rintro j t hj (hdead | hi)
    · exact h.alive j t (hslot j t hj).2 hdead
    · exact (hslot j t hj).1 (h.apart j i t (hslot j t hj).2 hi)
  · exact fun j k t hj hk => h.apart j k t (hslot j t hj).2 (hslot k t hk).2
  · exact fun j t hj => h.added j t (hslot j t hj).2
  · rintro t (hdead | hi)
    · exact h.destroyed_added t hdead
    · exact h.added i t hi

theorem Inv.put {ops : List (CounterOp τ)} {m : CounterMap τ} {op : CounterOp τ} (i : Nat) {t : τ} (h : m.Inv ops)
    (hop : op.ticker = some t) (hfresh : op.Fresh ops) : (m.put i t).Inv (op :: ops) := by
  have hnew : ¬ ∃ o ∈ ops, o.ticker = some t := fun ⟨o, ho, hto⟩ => hfresh t hop o ho hto
  have hslot : ∀ j u, (m.put i t).slot j = some u → j = i ∧ u = t ∨ j ≠ i ∧ m.slot j = some u := by
    intro j u hj
    rcases eq_or_ne j i with rfl | hji
    · rw [put_slot, Function.update_self] at hj
      exact .inl ⟨rfl, (Option.some.inj hj).symm⟩
    · rw [put_slot, Function.update_of_ne hji] at hj
      exact .inr ⟨hji, hj⟩
  refine ⟨?_, ?_, ?_, ?_⟩
  · intro j u hj hdead
    rcases hslot j u hj with ⟨-, rfl⟩ | ⟨-, hju⟩
    · exact hnew (h.destroyed_added u hdead)
    · exact h.alive j u hju hdead
  · intro j k u hj hk
    rcases hslot j u hj with ⟨rfl, rfl⟩ | ⟨-, hju⟩ <;> rcases hslot k u hk with ⟨rfl, hku⟩ | ⟨-, hku⟩
    · rfl
    · exact absurd (h.added k u hku) hnew
    · exact absurd (h.added j u hju) (hku ▸ hnew)
    · exact h.apart j k u hju hku
  · intro j u hj
    rcases hslot j u hj with ⟨-, rfl⟩ | ⟨-, hju⟩
    · exact ⟨op, List.mem_cons_self, hop⟩
    · exact (h.cons op).added j u hju
  · exact (h.cons op).destroyed_added

/-- What the operations are for keeps counters alive and apart. -/
theorem Inv.does {ops : List (CounterOp τ)} {op : CounterOp τ} {m m' : CounterMap τ} {r : Option τ} (h : m.Inv ops)
    (hfresh : op.Fresh ops) (hdoes : Does get_name op m m' r) : m'.Inv (op :: ops) := by
  cases op with
  | add_counter t nr =>
    obtain ⟨rfl, -⟩ := hdoes
    exact h.put nr rfl hfresh
  | add_counter_named t nam =>
    obtain ⟨⟨i, -, -, -, rfl⟩, -⟩ := hdoes
    exact h.put i rfl hfresh
  | del_counter nr =>
    obtain ⟨rfl, -⟩ := hdoes
    exact (h.remove nr).cons _
  | del_counter_named nam =>
    obtain ⟨⟨i, t, -, rfl⟩ | ⟨-, rfl⟩, -⟩ := hdoes
    · exact (h.remove i).cons _
    · exact h.cons _
  | get_counter nr =>
    obtain ⟨rfl, -⟩ := hdoes
    exact h.cons _
  | get_counter_named nam =>
    obtain ⟨rfl, -⟩ := hdoes
    exact h.cons _

end CounterMap

/-! ## The list -/

namespace Counters

variable {τ : Type} {get_name : τ → Option String}

theorem slotOf_set {items : List (Option τ)} {i : Nat} (x : Option τ) (hi : i < items.length) :
    slotOf (items.set i x) = Function.update (slotOf items) i x := by
  funext j
  rcases eq_or_ne j i with rfl | hji
  · rw [Function.update_self, slotOf, List.getElem?_set_self hi]
    rfl
  · rw [Function.update_of_ne hji, slotOf, List.getElem?_set_ne hji.symm, slotOf]

theorem slotOf_append (items : List (Option τ)) (x : Option τ) :
    slotOf (items ++ [x]) = Function.update (slotOf items) items.length x := by
  funext j
  rcases Nat.lt_trichotomy j items.length with hlt | rfl | hgt
  · rw [Function.update_of_ne (Nat.ne_of_lt hlt), slotOf, List.getElem?_append_left hlt, slotOf]
  · rw [Function.update_self, slotOf, List.getElem?_concat_length]
    rfl
  · have hlen : (items ++ [x]).length ≤ j := by
      rw [List.length_append]
      exact hgt
    rw [Function.update_of_ne (Nat.ne_of_gt hgt), slotOf, List.getElem?_eq_none hlen, slotOf,
      List.getElem?_eq_none (Nat.le_of_lt hgt)]

/-- Nulls behind the list change no slot. -/
theorem slotOf_append_none (items : List (Option τ)) : slotOf (items ++ [none]) = slotOf items := by
  rw [slotOf_append, Function.update_eq_self_iff, slotOf, List.getElem?_eq_none (Nat.le_refl _)]
  rfl

/-- What a list of counters is, as long as nothing is written outside of its array. -/
structure Sound (l : CList (Option τ)) : Prop where
  fits : l.Fits
  delta : 0 < l.Delta

theorem Sound.room_iff {l : CList (Option τ)} (h : Sound l) : l.Room ↔ l.Items.length < max_list_size :=
  CList.room_iff h.fits h.delta

theorem Sound.length_le {l : CList (Option τ)} (h : Sound l) : l.Items.length ≤ max_list_size :=
  Nat.le_trans h.fits.room h.fits.limit_le

theorem Sound.set {l : CList (Option τ)} (h : Sound l) (i : Nat) (x : Option τ) :
    Sound { l with Items := l.Items.set i x } :=
  ⟨CList.set_fits i x h.fits, h.delta⟩

theorem Sound.add {l : CList (Option τ)} (h : Sound l) (x : Option τ) (hlt : l.Items.length < max_list_size) :
    ∃ l', l.add x = some l' ∧ Sound l' ∧ l'.Items = l.Items ++ [x] := by
  obtain ⟨l', hadd, hitems, hdelta, hfits⟩ := CList.add_grown x h.fits (h.room_iff.mpr hlt)
  exact ⟨l', hadd, ⟨hfits, hdelta ▸ h.delta⟩, hitems⟩

theorem Sound.add_full {l : CList (Option τ)} (h : Sound l) (x : Option τ) (hle : max_list_size ≤ l.Items.length) :
    l.add x = none :=
  CList.add_at_full _ x h.fits (mt h.room_iff.mp (Nat.not_lt.mpr hle))

/-- The list grows to the slot of a number, if the array can. -/
theorem addNulls_some {nr : Nat} (hnr : nr < max_list_size) (fuel : Nat) :
    ∀ {l : CList (Option τ)}, Sound l → nr < l.Items.length + fuel →
      ∃ l', addNulls nr fuel l = some l' ∧ Sound l' ∧ nr < l'.Items.length ∧
        slotOf l'.Items = slotOf l.Items := by
  induction fuel with
  | zero => exact fun {l} h hlt => ⟨l, rfl, h, hlt, rfl⟩
  | succ fuel ih =>
    intro l h hlt
    by_cases hle : l.Items.length ≤ nr
    · obtain ⟨l₁, hadd, hsound, hitems⟩ := h.add none (by omega)
      have hlen : l₁.Items.length = l.Items.length + 1 := by
        rw [hitems, List.length_append, List.length_singleton]
      obtain ⟨l', hrun, hsound', hlt', hslots⟩ := ih hsound (by omega)
      refine ⟨l', ?_, hsound', hlt', ?_⟩
      · rw [addNulls, if_pos hle, hadd]
        exact hrun
      · rw [hslots, hitems]
        exact slotOf_append_none l.Items
    · exact ⟨l, if_neg hle, h, by omega, rfl⟩

theorem addNulls_none {nr : Nat} (hnr : max_list_size ≤ nr) (fuel : Nat) :
    ∀ {l : CList (Option τ)}, Sound l → max_list_size < l.Items.length + fuel → addNulls nr fuel l = none := by
  induction fuel with
  | zero => exact fun {l} h hlt => absurd h.length_le (Nat.not_le.mpr hlt)
  | succ fuel ih =>
    intro l h hlt
    have hle := h.length_le
    rw [addNulls, if_pos (Nat.le_trans hle hnr)]
    rcases Nat.lt_or_ge l.Items.length max_list_size with hroom | hfull
    · obtain ⟨l₁, hadd, hsound, hitems⟩ := h.add none hroom
      rw [hadd]
      refine ih hsound ?_
      rw [hitems, List.length_append, List.length_singleton]
      omega
    · rw [h.add_full none hfull]
      rfl

/-- The loop over the names finds the first counter of a name. -/
theorem find_named_spec [DecidableEq τ] {deleted : List τ} (nam : String) (items : List (Option τ)) :
    ∀ i, (∀ k t, slotOf items k = some t → t ∉ deleted) →
      ∃ r, find_named get_name deleted nam i items = some r ∧
        ((r = none ∧ ∀ k t, slotOf items k = some t → get_name t ≠ some nam) ∨
          ∃ k t, r = some (i + k, t) ∧ slotOf items k = some t ∧ get_name t = some nam ∧
            ∀ j < k, ∀ u, slotOf items j = some u → get_name u ≠ some nam) := by
  induction items with
  | nil => exact fun i _ => ⟨none, rfl, .inl ⟨rfl, fun k t hk => absurd hk (by simp [slotOf])⟩⟩
  | cons first rest ih =>
    intro i halive
    -- what is found in the rest is found behind the first
    have hrest : (∀ t, first = some t → get_name t ≠ some nam) →
        ∃ r, find_named get_name deleted nam (i + 1) rest = some r ∧
          ((r = none ∧ ∀ k t, slotOf (first :: rest) k = some t → get_name t ≠ some nam) ∨
            ∃ k t, r = some (i + k, t) ∧ slotOf (first :: rest) k = some t ∧ get_name t = some nam ∧
              ∀ j < k, ∀ u, slotOf (first :: rest) j = some u → get_name u ≠ some nam) := by
      intro hfirst
      obtain ⟨r, hr, ⟨hnone, hall⟩ | ⟨k, t, hsome, hk, hname, hbelow⟩⟩ := ih (i + 1) fun k t hk => halive (k + 1) t hk
      · refine ⟨r, hr, .inl ⟨hnone, ?_⟩⟩
        rintro (_ | k) t hk
        · exact hfirst t hk
        · exact hall k t hk
      · refine ⟨r, hr, .inr ⟨k + 1, t, ?_, hk, hname, ?_⟩⟩
        · rw [hsome, Nat.add_assoc, Nat.add_comm 1 k]
        · rintro (_ | j) hj u hu
          · exact hfirst u hu
          · exact hbelow j (Nat.lt_of_succ_lt_succ hj) u hu
    cases first with
    | none => exact hrest nofun
    | some t =>
      rw [find_named, if_neg (halive 0 t rfl)]
      by_cases hname : get_name t = some nam
      · rw [if_pos hname]
        exact ⟨_, rfl, .inr ⟨0, t, rfl, rfl, hname, nofun⟩⟩
      · rw [if_neg hname]
        refine hrest ?_
        rintro u ⟨⟩
        exact hname

/-! ## The operations -/

theorem map_put (s : Counters τ) (l : CList (Option τ)) (i : Nat) (t : τ)
    (h : slotOf l.Items = Function.update (slotOf s.counters.Items) i (some t)) :
    ({ s with counters := l } : Counters τ).map = s.map.put i t :=
  CounterMap.ext h rfl

theorem map_remove (s : Counters τ) (l : CList (Option τ)) (i : Nat) {t : τ} (hi : s.map.slot i = some t)
    (h : slotOf l.Items = Function.update (slotOf s.counters.Items) i none) :
    ({ counters := l, deleted := t :: s.deleted } : Counters τ).map = s.map.remove i := by
  refine CounterMap.ext h ?_
  ext u
  change u ∈ t :: s.deleted ↔ u ∈ s.deleted ∨ s.map.slot i = some u
  rw [hi, List.mem_cons, Option.some.injEq, eq_comm, Or.comm]

/-- An empty slot has nothing to be removed. -/
theorem remove_empty (m : CounterMap τ) {i : Nat} (hi : m.slot i = none) : m.remove i = m := by
  refine CounterMap.ext ?_ ?_
  · rw [CounterMap.remove_slot, Function.update_eq_self_iff, hi]
  · ext u
    simp [CounterMap.remove, hi]

theorem noneNamed_null (m : CounterMap τ) : m.NoneNamed get_name none := by
  rintro i t - ⟨n, hn, -⟩
  cases hn

theorem sound_new : Sound (new : Counters τ).counters :=
  ⟨CList.fits_new 2 2, Nat.zero_lt_two⟩

theorem inv_new : (new : Counters τ).map.Inv [] where
  alive _ _ hi := by cases hi
  apart _ _ _ hi := by cases hi
  added _ _ hi := by cases hi
  destroyed_added _ ht := by cases ht

theorem slotOf_of_le {items : List (Option τ)} {i : Nat} (h : items.length ≤ i) : slotOf items i = none := by
  rw [slotOf, List.getElem?_eq_none h]
  rfl

theorem lt_of_slotOf {items : List (Option τ)} {i : Nat} {t : τ} (h : slotOf items i = some t) : i < items.length := by
  by_contra hle
  rw [slotOf_of_le (Nat.not_lt.mp hle)] at h
  cases h

theorem slotOf_of_lt {items : List (Option τ)} {i : Nat} (h : i < items.length) : slotOf items i = items[i] := by
  rw [slotOf, List.getElem?_eq_getElem h]
  rfl

theorem at_slotOf {l : CList (Option τ)} {i : Nat} (h : i < l.Items.length) : l.at_ i = some (slotOf l.Items i) := by
  rw [CList.at_, slotOf_of_lt h, List.getElem?_eq_getElem h]

/-- The list with slot 0 in it. -/
theorem slot0_some {l : CList (Option τ)} (h : Sound l) :
    ∃ l', addSlot0 l = some l' ∧ Sound l' ∧ 1 ≤ l'.Items.length ∧
      slotOf l'.Items = slotOf l.Items := by
  by_cases hempty : l.Items.length < 1
  · obtain ⟨l', hadd, hsound, hitems⟩ := h.add none (Nat.lt_trans hempty (by decide))
    refine ⟨l', (if_pos hempty).trans hadd, hsound, ?_, ?_⟩
    · rw [hitems, List.length_append, List.length_singleton]
      exact Nat.le_add_left ..
    · rw [hitems]
      exact slotOf_append_none _
  · exact ⟨l, if_neg hempty, h, Nat.not_lt.mp hempty, rfl⟩

/-- The loop over the slots from 1 on finds the first null. -/
theorem findNull_spec {items : List (Option τ)} (hlen : 1 ≤ items.length) :
    match (items.drop 1).findIdx? fun t => t.isNone with
    | some i => i + 1 < items.length ∧ slotOf items (i + 1) = none ∧ ∀ j, 1 ≤ j → j < i + 1 → slotOf items j ≠ none
    | none => ∀ j, 1 ≤ j → j < items.length → slotOf items j ≠ none := by
  have hslot : ∀ j, 1 ≤ j → (hj : j < items.length) → (h : j - 1 < (items.drop 1).length) →
      slotOf items j = (items.drop 1)[j - 1] := by
    intro j hj hjl h
    rw [slotOf_of_lt hjl, List.getElem_drop]
    congr 1
    omega
  have hlen' : (items.drop 1).length = items.length - 1 := List.length_drop
  cases hfind : (items.drop 1).findIdx? fun t => t.isNone with
  | some i =>
    obtain ⟨hi, hnull, hfirst⟩ := List.findIdx?_eq_some_iff_getElem.mp hfind
    refine ⟨by omega, ?_, ?_⟩
    · rw [hslot (i + 1) (by omega) (by omega) hi]
      exact Option.isNone_iff_eq_none.mp hnull
    · intro j hj hji hnone
      rw [hslot j hj (by omega) (by omega)] at hnone
      exact hfirst (j - 1) (by omega) (Option.isNone_iff_eq_none.mpr hnone)
  | none =>
    intro j hj hjl hnone
    have hmem := List.getElem_mem (l := items.drop 1) (n := j - 1) (by omega)
    rw [← hslot j hj hjl (by omega), hnone] at hmem
    cases List.findIdx?_eq_none_iff.mp hfind none hmem

variable [DecidableEq τ]

variable (get_name) in
/-- An operation does what it is for and writes inside of the array. -/
def Done (op : CounterOp τ) (s : Counters τ) : Prop :=
  ∃ s' r, exec get_name op s = some (s', r) ∧ CounterMap.Does get_name op s.map s'.map r ∧ Sound s'.counters

theorem add_counter_done {s : Counters τ} (h : Sound s.counters) (t : τ) {nr : Nat} (hnr : nr < max_list_size) :
    Done get_name (.add_counter t nr) s := by
  obtain ⟨l, hrun, hsound, hlt, hslots⟩ := addNulls_some hnr (nr + 1) h (by omega)
  refine ⟨{ s with counters := { l with Items := l.Items.set nr (some t) } }, none, ?_, ⟨?_, rfl⟩, hsound.set nr _⟩
  · rw [exec, add_counter, hrun]
    change ((l.put_at nr (some t)).bind _).map _ = _
    rw [CList.put_at_of_lt _ hlt]
    rfl
  · refine map_put s _ nr t ?_
    rw [slotOf_set _ hlt, hslots]

theorem add_counter_none {s : Counters τ} (h : Sound s.counters) (t : τ) {nr : Nat} (hnr : max_list_size ≤ nr) :
    exec get_name (.add_counter t nr) s = none := by
  rw [exec, add_counter, addNulls_none hnr (nr + 1) h (by omega)]
  rfl

theorem add_counter_named_done {s : Counters τ} (h : Sound s.counters) (t : τ) (nam : Option String) {i : Nat}
    (hi : 1 ≤ i) (hmax : i < max_list_size) (hfree : s.map.slot i = none) :
    Done get_name (.add_counter_named t nam) s := by
  obtain ⟨l, hrun, hsound, hlen, hslots⟩ := slot0_some h
  have hspec := findNull_spec hlen
  -- the slot that is filled
  obtain ⟨k, l', hput, hsound', hk, hnull, hfirst, hslots'⟩ : ∃ k l', putFirstNull t l = some l' ∧ Sound l' ∧ 1 ≤ k ∧
      slotOf l.Items k = none ∧ (∀ j, 1 ≤ j → j < k → slotOf l.Items j ≠ none) ∧
      slotOf l'.Items = Function.update (slotOf l.Items) k (some t) := by
    cases hfind : (l.Items.drop 1).findIdx? fun t => t.isNone with
    | some k =>
      rw [hfind] at hspec
      obtain ⟨hlt, hnull, hfirst⟩ := hspec
      refine ⟨k + 1, { l with Items := l.Items.set (k + 1) (some t) }, ?_, hsound.set _ _, Nat.le_add_left .., hnull,
        hfirst, slotOf_set _ hlt⟩
      rw [putFirstNull, hfind]
      exact CList.put_at_of_lt _ hlt
    | none =>
      rw [hfind] at hspec
      -- the free slot is behind the list
      have hle : l.Items.length ≤ i := by
        by_contra hlt
        exact hspec i hi (Nat.not_le.mp hlt) ((congrFun hslots i).trans hfree)
      obtain ⟨l', hadd, hsound', hitems⟩ := hsound.add (some t) (Nat.lt_of_le_of_lt hle hmax)
      refine ⟨l.Items.length, l', ?_, hsound', hlen, slotOf_of_le (Nat.le_refl _), hspec, ?_⟩
      · rw [putFirstNull, hfind]
        exact hadd
      · rw [hitems]
        exact slotOf_append _ _
  rw [hslots] at hnull hfirst hslots'
  refine ⟨{ s with counters := l' }, none, ?_, ⟨⟨k, hk, hnull, hfirst, map_put s l' k t hslots'⟩, rfl⟩, hsound'⟩
  simp only [exec, add_counter_named, hrun, hput, Option.bind_eq_bind, Option.bind_some, Option.pure_def, Option.map_some]

theorem add_counter_named_none {s : Counters τ} (h : Sound s.counters) (t : τ) (nam : Option String)
    (hfull : ∀ i, 1 ≤ i → i < max_list_size → s.map.slot i ≠ none) :
    exec get_name (.add_counter_named t nam) s = none := by
  obtain ⟨l, hrun, hsound, hlen, hslots⟩ := slot0_some h
  have hspec := findNull_spec hlen
  have hput : putFirstNull t l = none := by
    cases hfind : (l.Items.drop 1).findIdx? fun t => t.isNone with
    | some k =>
      rw [hfind] at hspec
      obtain ⟨hlt, hnull, -⟩ := hspec
      have hmax := hsound.length_le
      exact absurd ((congrFun hslots (k + 1)).symm.trans hnull) (hfull (k + 1) (by omega) (by omega))
    | none =>
      have hle : max_list_size ≤ l.Items.length := by
        by_contra hlt
        refine hfull l.Items.length hlen (Nat.not_le.mp hlt) ?_
        exact (congrFun hslots _).symm.trans (slotOf_of_le (Nat.le_refl _))
      rw [putFirstNull, hfind]
      exact hsound.add_full (some t) hle
  simp only [exec, add_counter_named, hrun, hput, Option.bind_eq_bind, Option.bind_some, Option.bind_none, Option.map_none]

/-- What a deletion by number does: slot 0 tells what is destroyed. -/
theorem del_counter_of_lt {s : Counters τ} {nr : Nat} (hnr : nr < s.counters.Items.length)
    (halive : ∀ t, s.map.slot 0 = some t → t ∉ s.deleted) :
    ∃ s', del_counter nr s = some s' ∧ s'.counters = { s.counters with Items := s.counters.Items.set nr none } ∧
      s'.deleted = (s.map.slot 0).toList ++ s.deleted := by
  rw [del_counter, if_neg (Nat.not_le.mpr hnr), at_slotOf (Nat.zero_lt_of_lt hnr)]
  change ∃ s', (Option.bind (some (s.map.slot 0)) _) = some s' ∧ _
  rw [Option.bind_some]
  cases hslot : s.map.slot 0 with
  | none =>
    refine ⟨{ s with counters := { s.counters with Items := s.counters.Items.set nr none } }, ?_, rfl, rfl⟩
    change (s.counters.put_at nr none).bind _ = _
    rw [CList.put_at_of_lt _ hnr]
    rfl
  | some t =>
    refine ⟨{ counters := { s.counters with Items := s.counters.Items.set nr none }, deleted := t :: s.deleted }, ?_, rfl,
      rfl⟩
    change (delete t s).bind _ = _
    rw [delete, if_neg (halive t hslot)]
    change (s.counters.put_at nr none).bind _ = _
    rw [CList.put_at_of_lt _ hnr]
    rfl

theorem del_counter_done {s : Counters τ} (h : Sound s.counters) {nr : Nat}
    (halive : ∀ t, s.map.slot 0 = some t → t ∉ s.deleted)
    (hsame : nr < s.counters.Items.length → s.map.slot 0 = s.map.slot nr) : Done get_name (.del_counter nr) s := by
  rcases Nat.lt_or_ge nr s.counters.Items.length with hnr | hnr
  · obtain ⟨s', hdel, hcounters, hdeleted⟩ := del_counter_of_lt hnr halive
    refine ⟨s', none, by rw [exec, hdel]; rfl, ⟨?_, rfl⟩, hcounters ▸ h.set nr none⟩
    refine CounterMap.ext ?_ ?_
    · rw [map, hcounters, CounterMap.remove_slot]
      exact slotOf_set none hnr
    · ext t
      change t ∈ s'.deleted ↔ t ∈ s.deleted ∨ s.map.slot nr = some t
      rw [hdeleted, hsame hnr, List.mem_append, Option.mem_toList, Or.comm]
  · refine ⟨s, none, by rw [exec, del_counter, if_pos hnr]; rfl, ⟨(remove_empty _ ?_).symm, rfl⟩, h⟩
    exact slotOf_of_le hnr

/-- A deletion that finds another counter in slot 0, or none, is wrong. -/
theorem del_counter_wrong {s : Counters τ} {nr : Nat} (hnr : nr < s.counters.Items.length)
    (halive : ∀ i t, s.map.slot i = some t → t ∉ s.deleted) (hdiff : s.map.slot 0 ≠ s.map.slot nr) :
    ¬ Right get_name (.del_counter nr) s := by
  rintro ⟨s', r, hexec, hmap, -⟩
  obtain ⟨s₁, hdel, -, hdeleted⟩ := del_counter_of_lt hnr (halive 0)
  rw [exec, hdel] at hexec
  obtain ⟨rfl, -⟩ : s₁ = s' ∧ none = r := by simpa using hexec
  have hdestroyed : ∀ t, t ∈ s₁.deleted ↔ t ∈ s.deleted ∨ s.map.slot nr = some t := by
    intro t
    change t ∈ s₁.map.destroyed ↔ _
    rw [hmap]
    rfl
  simp only [hdeleted, List.mem_append, Option.mem_toList] at hdestroyed
  refine hdiff (Option.ext fun t => ?_)
  constructor
  · intro ht
    rcases (hdestroyed t).mp (.inl ht) with hdead | hslot
    · exact absurd hdead (halive 0 t ht)
    · exact hslot
  · intro ht
    rcases (hdestroyed t).mpr (.inr ht) with hslot | hdead
    · exact hslot
    · exact absurd hdead (halive nr t ht)

/-- What a search for a name finds. -/
theorem find_named_first {s : Counters τ} (nam : String) (halive : ∀ i t, s.map.slot i = some t → t ∉ s.deleted) :
    ∃ r, find_named get_name s.deleted nam 0 s.counters.Items = some r ∧
      ((r = none ∧ s.map.NoneNamed get_name (some nam)) ∨
        ∃ i t, r = some (i, t) ∧ s.map.FirstNamed get_name (some nam) i t) := by
  have hnamed : ∀ t, CounterMap.Named get_name (some nam) t → get_name t = some nam := by
    rintro t ⟨n, hn, ht⟩
    rw [ht, hn]
  obtain ⟨r, hr, ⟨hnone, hall⟩ | ⟨k, t, hsome, hslot, hname, hfirst⟩⟩ :=
    find_named_spec nam s.counters.Items 0 halive
  · exact ⟨r, hr, .inl ⟨hnone, fun i t hi ht => hall i t hi (hnamed t ht)⟩⟩
  · refine ⟨r, hr, .inr ⟨k, t, ?_, hslot, ⟨nam, rfl, hname⟩, ?_⟩⟩
    · rw [hsome, Nat.zero_add]
    · exact fun j hj u hu hn => hfirst j hj u hu (hnamed u hn)

theorem del_counter_named_done {s : Counters τ} (h : Sound s.counters) (nam : Option String)
    (halive : ∀ i t, s.map.slot i = some t → t ∉ s.deleted) : Done get_name (.del_counter_named nam) s := by
  cases nam with
  | none => exact ⟨s, none, rfl, ⟨.inr ⟨noneNamed_null _, rfl⟩, rfl⟩, h⟩
  | some nam =>
    obtain ⟨r, hr, ⟨rfl, hnone⟩ | ⟨i, t, rfl, hfirst⟩⟩ := find_named_first nam halive
    · refine ⟨s, none, ?_, ⟨.inr ⟨hnone, rfl⟩, rfl⟩, h⟩
      rw [exec, del_counter_named, hr]
      rfl
    · have hlt := lt_of_slotOf hfirst.slot
      refine ⟨{ counters := { s.counters with Items := s.counters.Items.set i none }, deleted := t :: s.deleted }, none, ?_,
        ⟨.inl ⟨i, t, hfirst, map_remove s _ i hfirst.slot (slotOf_set none hlt)⟩, rfl⟩, h.set i none⟩
      rw [exec, del_counter_named, hr]
      change ((delete t s).bind _).map _ = _
      rw [delete, if_neg (halive i t hfirst.slot)]
      change ((s.counters.put_at i none).bind _).map _ = _
      rw [CList.put_at_of_lt _ hlt]
      rfl

theorem get_counter_done {s : Counters τ} (h : Sound s.counters) (nr : Nat) : Done get_name (.get_counter nr) s := by
  have hget : get_counter nr s = some (s.map.slot nr) := by
    rcases Nat.lt_or_ge nr s.counters.Items.length with hnr | hnr
    · rw [get_counter, if_neg (Nat.not_le.mpr hnr)]
      exact at_slotOf hnr
    · rw [get_counter, if_pos hnr]
      exact congrArg some (slotOf_of_le hnr).symm
  refine ⟨s, s.map.slot nr, ?_, ⟨rfl, rfl⟩, h⟩
  rw [exec, hget]
  rfl

theorem get_counter_named_done {s : Counters τ} (h : Sound s.counters) (nam : Option String)
    (halive : ∀ i t, s.map.slot i = some t → t ∉ s.deleted) : Done get_name (.get_counter_named nam) s := by
  cases nam with
  | none => exact ⟨s, none, rfl, ⟨rfl, .inr ⟨noneNamed_null _, rfl⟩⟩, h⟩
  | some nam =>
    obtain ⟨r, hr, ⟨rfl, hnone⟩ | ⟨i, t, rfl, hfirst⟩⟩ := find_named_first nam halive
    · refine ⟨s, none, ?_, ⟨rfl, .inr ⟨hnone, rfl⟩⟩, h⟩
      rw [exec, get_counter_named, hr]
      rfl
    · refine ⟨s, some t, ?_, ⟨rfl, .inl ⟨i, t, hfirst, rfl⟩⟩, h⟩
      rw [exec, get_counter_named, hr]
      rfl

/-- An operation that meets its condition does what it is for. -/
theorem done_of_meets {s : Counters τ} (h : Sound s.counters) (halive : ∀ i t, s.map.slot i = some t → t ∉ s.deleted)
    {op : CounterOp τ} (hmeets : s.Meets op) : Done get_name op s := by
  cases op with
  | add_counter t nr => exact add_counter_done h t hmeets
  | add_counter_named t nam =>
    obtain ⟨i, hi, hmax, hfree⟩ := hmeets
    exact add_counter_named_done h t nam hi hmax hfree
  | del_counter nr => exact del_counter_done h (halive 0) hmeets
  | del_counter_named nam => exact del_counter_named_done h nam halive
  | get_counter nr => exact get_counter_done h nr
  | get_counter_named nam => exact get_counter_named_done h nam halive

/-- An operation does what it is for exactly if it meets its condition. -/
theorem right_iff_meets {s : Counters τ} (h : Sound s.counters) (halive : ∀ i t, s.map.slot i = some t → t ∉ s.deleted)
    (op : CounterOp τ) : Right get_name op s ↔ s.Meets op := by
  constructor
  · intro hright
    cases op with
    | add_counter t nr =>
      by_contra hnr
      obtain ⟨s', r, hexec, -⟩ := hright
      rw [add_counter_none h t (Nat.not_lt.mp hnr)] at hexec
      cases hexec
    | add_counter_named t nam =>
      by_contra hfull
      obtain ⟨s', r, hexec, -⟩ := hright
      rw [add_counter_named_none h t nam fun i hi hmax hfree => hfull ⟨i, hi, hmax, hfree⟩] at hexec
      cases hexec
    | del_counter nr =>
      intro hnr
      by_contra hdiff
      exact del_counter_wrong hnr halive hdiff hright
    | del_counter_named | get_counter | get_counter_named => trivial
  · intro hmeets
    obtain ⟨s', r, hexec, hdoes, -⟩ := done_of_meets h halive hmeets
    exact ⟨s', r, hexec, hdoes⟩

/-! ## Runs -/

/-- Operations that meet their conditions keep the list sound, and no counter in it is destroyed. -/
theorem Run.inv {ops : List (CounterOp τ)} {s : Counters τ} (h : Run get_name ops s) :
    Sound s.counters ∧ s.map.Inv ops := by
  induction h with
  | new => exact ⟨sound_new, inv_new⟩
  | step _ hfresh hmeets hexec ih =>
    obtain ⟨s₁, r₁, hexec', hdoes, hsound⟩ := done_of_meets ih.1 ih.2.alive hmeets
    rw [hexec] at hexec'
    cases hexec'
    exact ⟨hsound, ih.2.does hfresh hdoes⟩

/-- The run of the list is one of the map. -/
theorem Run.map {ops : List (CounterOp τ)} {s : Counters τ} (h : Run get_name ops s) :
    CounterMap.Run get_name ops s.map := by
  induction h with
  | new =>
    have hnew : (Counters.new : Counters τ).map = { slot := fun _ => none, destroyed := ∅ } := by
      refine CounterMap.ext rfl ?_
      ext t
      exact List.mem_nil_iff t
    rw [hnew]
    exact .new
  | step h _ hmeets hexec ih =>
    obtain ⟨s₁, r₁, hexec', hdoes, -⟩ := done_of_meets h.inv.1 h.inv.2.alive hmeets
    rw [hexec] at hexec'
    cases hexec'
    exact ih.step hdoes

/-- In every run of operations that meet their conditions the list behaves as the map, with no counter in it that is
destroyed, and an operation does to it what it is for exactly if it meets its condition. -/
theorem counters_iff {ops : List (CounterOp τ)} {s : Counters τ} (h : Run get_name ops s) :
    CounterMap.Run get_name ops s.map ∧ (∀ i t, s.map.slot i = some t → t ∉ s.map.destroyed) ∧
      ∀ op, Right get_name op s ↔ s.Meets op :=
  ⟨h.map, h.inv.2.alive, right_iff_meets h.inv.1 h.inv.2.alive⟩

/-- One counter in slot 1. -/
def oneCounter : Counters Nat := { counters := { Items := [none, some 7], Limit := 2, Delta := 2 }, deleted := [] }

theorem run_oneCounter : Run (fun _ => none) [.add_counter 7 1] oneCounter :=
  .step (r := none) .new (fun _ _ _ ho => absurd ho List.not_mem_nil) (show 1 < max_list_size by decide) rfl

/-- The counter is added, and slot 0 may be deleted. -/
theorem counters_iff_oneCounter :
    Run (fun _ => none) [.add_counter 7 1] oneCounter ∧
      (Right (fun _ => none) (.del_counter 0) oneCounter ↔ oneCounter.Meets (.del_counter 0)) :=
  ⟨run_oneCounter, (counters_iff run_oneCounter).2.2 (.del_counter 0)⟩

/-- The counter of slot 1 is taken out of the list and not destroyed. -/
theorem del_counter_leaks : Run (fun _ => none) [.add_counter 7 1] oneCounter ∧
    ¬ Right (fun _ => none) (.del_counter 1) oneCounter := by
  refine ⟨run_oneCounter, del_counter_wrong (by decide) (fun _ _ _ => List.not_mem_nil) ?_⟩
  decide

end Counters

end Ucsim
