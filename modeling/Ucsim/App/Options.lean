import Mathlib.Data.List.Nodup
import Mathlib.Data.String.Basic
import Ucsim.Logic.Run
import Ucsim.Pobj.ListRuns

/-!
# Options and references

Who wants to know the value of an option has a `cl_optref`. The option has a list of its users, so that it can
inform them; the reference has a pointer to the option. Both ends are kept by hand.
-/

namespace Ucsim.Options

open Logic SortedList

/-- `strcmp`, as far as it is used. -/
def strcmp (a b : String) : Int := if a < b then -1 else if a = b then 0 else 1

/-- An option, by what does not change in its life. `C` are the objects that create options. -/
structure Opt (C : Type) where
  serial : Nat
  name : String
  creator : C
  deriving DecidableEq

/-- `cl_optref`. -/
structure OptRef (C : Type) where
  serial : Nat
  owner : C
  deriving DecidableEq

inductive OptionType
  | non_opt
  | integer_opt
  | float_opt
  | bool_opt
  | string_opt
  | pointer_opt
  deriving DecidableEq, Repr

/-- The options of the application, what they hold, and the references. `seen` is what `option_changed` of a
reference has got last; `informed` has its calls. That the list of the users ends at `max_list_size` is left out. -/
structure App (C V : Type) where
  options : SList (Opt C)
  users : Opt C → List (OptRef C)
  value : Opt C → V
  refs : List (OptRef C)
  option : OptRef C → Option (Opt C)
  seen : OptRef C → Option V
  informed : List (OptRef C)
  made : Nat

variable {C V : Type} [DecidableEq C]

namespace App

/-! ## `cl_option` -/

/-- `new_reference`. -/
def new_reference (o : Opt C) (r : OptRef C) (s : App C V) : App C V :=
  { s with users := Function.update s.users o (s.users o ++ [r]) }

/-- `del_reference`. -/
def del_reference (o : Opt C) (r : OptRef C) (s : App C V) : App C V :=
  { s with users := Function.update s.users o ((s.users o).erase r) }

/-- `option_changed` of a reference that reads the value. It does not ask whether there is an option: `none`. -/
def option_changed (r : OptRef C) (s : App C V) : Option (App C V) :=
  (s.option r).map fun o => { s with
    seen := Function.update s.seen r (some (s.value o))
    informed := s.informed ++ [r] }

/-- `inform_users`. -/
def inform_users (o : Opt C) (s : App C V) : Option (App C V) := (s.users o).foldlM (fun s r => s.option_changed r) s

def set_value (o : Opt C) (v : V) (s : App C V) : Option (App C V) :=
  inform_users o { s with value := Function.update s.value o v }

/-- `pre_remove`. -/
def pre_remove (o : Opt C) (s : App C V) : App C V :=
  (s.users o).foldl (fun s r => { s with option := Function.update s.option r none }) s

/-! ## `cl_options` -/

/-- `new_option`. There may be no room for it. -/
def new_option (o : Opt C) (s : App C V) : Option (App C V) :=
  (s.options.add Opt.name strcmp o).map fun options => { s with options }

/-- `del_option`. -/
def del_option (o : Opt C) (s : App C V) : App C V :=
  let s := s.pre_remove o
  { s with options := s.options.disconn o }

/-- `get_option` by name. -/
def get_option (name : String) (s : App C V) : Option (Opt C) :=
  let r := s.options.search Opt.name strcmp name
  if r.1 then s.options.Items[r.2]? else none

/-- The loop back to the first option of a name. -/
def stepBack (name : String) (items : List (Opt C)) : Nat → Nat
  | 0 => 0
  | idx + 1 => if (items[idx + 1]?).any fun o => strcmp name o.name = 0 then stepBack name items idx else idx + 1

/-- The loop over the options of a name. The end of the list is read over: `none`. -/
def scan (name : String) (creator : C) : List (Opt C) → Option (Option (Opt C))
  | [] => none
  | o :: rest =>
    if strcmp name o.name = 0 then if o.creator = creator then some (some o) else scan name creator rest
    else some none

/-- `get_option` by name and creator. -/
def get_option_of (name : String) (creator : C) (s : App C V) : Option (Option (Opt C)) :=
  let r := s.options.search Opt.name strcmp name
  if r.1 then
    let idx :=
      if 0 < r.2 then
        let idx := stepBack name s.options.Items (r.2 - 1)
        if (s.options.Items[idx]?).any fun o => strcmp name o.name = 0 then idx else idx + 1
      else r.2
    scan name creator (s.options.Items.drop idx)
  else some none

/-! ## `cl_optref` -/

/-- A new option. Its union is cleared. -/
def make (zero : V) (name : String) (creator : C) (s : App C V) : Opt C × App C V :=
  let o : Opt C := ⟨s.made, name, creator⟩
  (o, { s with
    made := s.made + 1
    users := Function.update s.users o []
    value := Function.update s.value o zero })

/-- The option of a reference forgets it. -/
def leave (r : OptRef C) (s : App C V) : App C V :=
  match s.option r with
  | some o => s.del_reference o r
  | none => s

/-- `create`. -/
def create (zero : V) (r : OptRef C) (creator : C) (type : OptionType) (name : String) (s : App C V) :
    Option (App C V) :=
  let s := s.leave r
  if type = .non_opt then some { s with option := Function.update s.option r none }
  else
    let (o, s) := s.make zero name creator
    (new_option o { s with option := Function.update s.option r (some o) }).map (new_reference o r)

/-- `default_option`. The users are informed by the assignment and once more behind it. -/
def default_option (application : C) (r : OptRef C) (name : String) (s : App C V) : Option (App C V) :=
  (s.get_option_of name application).bind fun found =>
    match found, s.option r with
    | some o, some option => (s.set_value option (s.value o)).bind (inform_users option)
    | _, _ => some s

/-- `use` without a name. -/
def use (r : OptRef C) (s : App C V) : App C V :=
  match s.option r with
  | some o => (s.del_reference o r).new_reference o r
  | none => s

/-- `use` with a name. -/
def use_name (r : OptRef C) (name : String) (s : App C V) : App C V :=
  let s := s.leave r
  match s.get_option name with
  | some o => { s with option := Function.update s.option r (some o) }.new_reference o r
  | none => { s with option := Function.update s.option r none }

/-- The destructor. Who created the option deletes it. -/
def destroy (r : OptRef C) (s : App C V) : App C V :=
  let s := { s with refs := s.refs.erase r }
  match s.option r with
  | some o =>
    let s := s.del_reference o r
    if o.creator = r.owner then s.del_option o else s
  | none => s

end App

/-! ## Runs -/

/-- What is done to options and references. -/
inductive Act (C V : Type)
  | newOption (name : String) (creator : C)
  | newRef (owner : C)
  | create (r : OptRef C) (creator : C) (type : OptionType) (name : String)
  | default_option (r : OptRef C) (name : String)
  | use (r : OptRef C)
  | use_name (r : OptRef C) (name : String)
  | destroy (r : OptRef C)
  | set_value (name : String) (creator : C) (v : V)
  | set_at (idx : Nat) (v : V)

/-- The reference that is used. -/
def Act.ref : Act C V → Option (OptRef C)
  | .create r _ _ _ | .default_option r _ | .use r | .use_name r _ | .destroy r => some r
  | _ => none

/-- One act. `none` is the end of the program. -/
def App.exec (zero : V) (application : C) (s : App C V) : Act C V → Option (App C V)
  | .newOption name creator =>
    let (o, s) := s.make zero name creator
    s.new_option o
  | .newRef owner =>
    let r : OptRef C := ⟨s.made, owner⟩
    some { s with made := s.made + 1, refs := s.refs ++ [r], option := Function.update s.option r none }
  | .create r creator type name => s.create zero r creator type name
  | .default_option r name => s.default_option application r name
  | .use r => some (s.use r)
  | .use_name r name => some (s.use_name r name)
  | .destroy r => some (s.destroy r)
  | .set_value name creator v =>
    (s.get_option_of name creator).bind fun found => found.elim (some s) fun o => s.set_value o v
  | .set_at idx v => s.options.Items[idx]?.elim (some s) fun o => s.set_value o v

/-- No option, and no reference. -/
def App.empty (zero : V) : App C V where
  options := SList.new 2 2 true
  users _ := []
  value _ := zero
  refs := []
  option _ := none
  seen _ := none
  informed := []
  made := 0

/-- Acts one after the other, as long as the program does not end. -/
def acts (zero : V) (application : C) : System (Act C V) (App C V) where
  init s := s = .empty zero
  step a s t := s.exec zero application a = some t

/-- A reference is used between its construction and its destruction. -/
def registry (zero : V) (application : C) : System (Act C V) (App C V) :=
  (acts zero application).guard fun a s => ∀ r, a.ref = some r → r ∈ s.refs

/-! ## Both ends -/

theorem strcmp_le_zero {a b : String} : strcmp a b ≤ 0 ↔ a ≤ b := by
  unfold strcmp
  rcases lt_trichotomy a b with h | rfl | h
  · simp [h, h.le]
  · simp
  · simp [h.not_gt, h.ne', h.not_ge]

theorem strcmp_eq_zero {a b : String} : strcmp a b = 0 ↔ a = b := by
  unfold strcmp
  rcases lt_trichotomy a b with h | rfl | h
  · simp [h, h.ne]
  · simp
  · simp [h.not_gt, h.ne']

theorem strcmp_compares : Compares strcmp where
  swap a b := by
    unfold strcmp
    rcases lt_trichotomy a b with h | rfl | h
    · simp [h, h.not_gt, h.ne']
    · simp
    · simp [h, h.not_gt, h.ne']
  trans a b c hab hbc := strcmp_le_zero.mpr ((strcmp_le_zero.mp hab).trans (strcmp_le_zero.mp hbc))

/-- The users of the options are the references that point to them. -/
structure Linked (items : List (Opt C)) (refs : List (OptRef C)) (option : OptRef C → Option (Opt C))
    (users : Opt C → List (OptRef C)) : Prop where
  live : ∀ r ∈ refs, ∀ o, option r = some o → o ∈ items
  nodup : ∀ o ∈ items, (users o).Nodup
  mem_iff : ∀ o ∈ items, ∀ r, r ∈ users o ↔ r ∈ refs ∧ option r = some o

namespace Linked

variable {items : List (Opt C)} {refs : List (OptRef C)} {option : OptRef C → Option (Opt C)}
  {users : Opt C → List (OptRef C)}

/-- A reference goes from one option to another, or to none. -/
theorem point (h : Linked items refs option users) {r : OptRef C} (hr : r ∈ refs) {target : Option (Opt C)}
    (htarget : ∀ o, target = some o → o ∈ items) {users' : Opt C → List (OptRef C)}
    (husers : ∀ o, users' o = (if option r = some o then (users o).erase r else users o) ++
      if target = some o then [r] else []) :
    Linked items refs (Function.update option r target) users' := by
  have hleft : ∀ o ∈ items, r ∉ (if option r = some o then (users o).erase r else users o) := by
    intro o ho
    split
    · exact (h.nodup o ho).not_mem_erase
    · next hne => exact fun hmem => hne ((h.mem_iff o ho r).mp hmem).2
  refine ⟨fun x hx o hxo => ?_, fun o ho => ?_, fun o ho x => ?_⟩
  · by_cases hxr : x = r
    · subst hxr
      rw [Function.update_self] at hxo
      exact htarget o hxo
    · rw [Function.update_of_ne hxr] at hxo
      exact h.live x hx o hxo
  · rw [husers]
    refine List.Nodup.append ?_ ?_ ?_
    · split
      · exact (h.nodup o ho).erase r
      · exact h.nodup o ho
    · split <;> simp
    · by_cases hto : target = some o
      · rw [if_pos hto]
        exact List.disjoint_singleton.mpr (hleft o ho)
      · rw [if_neg hto]
        exact List.disjoint_nil_right _
  · rw [husers, List.mem_append]
    by_cases hxr : x = r
    · subst hxr
      rw [Function.update_self]
      have hnot := hleft o ho
      by_cases hto : target = some o
      · simp [hto, hr]
      · simp [hto, hnot]
    · rw [Function.update_of_ne hxr, ← h.mem_iff o ho x]
      have hlast : x ∉ (if target = some o then [r] else []) := by
        split <;> simp [hxr]
      split
      · simp [List.mem_erase_of_ne hxr, hlast]
      · simp [hlast]

/-- A new option has no users. -/
theorem add_option (h : Linked items refs option users) {o : Opt C} (ho : o ∉ items) {items' : List (Opt C)}
    (hitems : ∀ x, x ∈ items' ↔ x = o ∨ x ∈ items) :
    Linked items' refs option (Function.update users o []) := by
  refine ⟨fun r hr x hx => (hitems x).mpr (.inr (h.live r hr x hx)), fun x hx => ?_, fun x hx r => ?_⟩
  · by_cases hxo : x = o
    · subst hxo
      rw [Function.update_self]
      exact .nil
    · rw [Function.update_of_ne hxo]
      exact h.nodup x (((hitems x).mp hx).resolve_left hxo)
  · by_cases hxo : x = o
    · subst hxo
      rw [Function.update_self]
      exact ⟨fun hmem => absurd hmem List.not_mem_nil, fun ⟨hr, hopt⟩ => absurd (h.live r hr x hopt) ho⟩
    · rw [Function.update_of_ne hxo]
      exact h.mem_iff x (((hitems x).mp hx).resolve_left hxo) r

theorem add_ref (h : Linked items refs option users) {r : OptRef C} (hr : r ∉ refs) :
    Linked items (refs ++ [r]) (Function.update option r none) users := by
  refine ⟨fun x hx o hxo => ?_, h.nodup, fun o ho x => ?_⟩
  · by_cases hxr : x = r
    · subst hxr
      simp at hxo
    · rw [Function.update_of_ne hxr] at hxo
      exact h.live x ((List.mem_append.mp hx).resolve_right (by simp [hxr])) o hxo
  · rw [h.mem_iff o ho x]
    by_cases hxr : x = r
    · subst hxr
      simp [hr]
    · simp [hxr]

/-- A reference that points nowhere goes. -/
theorem remove_ref (h : Linked items refs option users) {r : OptRef C} (hrefs : refs.Nodup) (hr : option r = none) :
    Linked items (refs.erase r) option users := by
  refine ⟨fun x hx => h.live x (List.mem_of_mem_erase hx), h.nodup, fun o ho x => ?_⟩
  rw [h.mem_iff o ho x]
  by_cases hxr : x = r
  · subst hxr
    simp [hr]
  · simp [hrefs.mem_erase_iff, hxr]

omit [DecidableEq C] in
/-- Only the references that there are count. -/
theorem congr (h : Linked items refs option users) {option' : OptRef C → Option (Opt C)}
    (hoption : ∀ r ∈ refs, option' r = option r) : Linked items refs option' users := by
  refine ⟨fun r hr o ho => h.live r hr o ((hoption r hr).symm.trans ho), h.nodup, fun o ho r => ?_⟩
  rw [h.mem_iff o ho r]
  exact and_congr_right fun hr => by rw [hoption r hr]

/-- An option goes, and its users forget it. -/
theorem remove_option (h : Linked items refs option users) (hitems : items.Nodup) {o : Opt C} (ho : o ∈ items)
    {option' : OptRef C → Option (Opt C)}
    (hoption : ∀ r, option' r = if r ∈ users o then none else option r) :
    Linked (items.erase o) refs option' users := by
  refine ⟨fun r hr x hx => ?_, fun x hx => h.nodup x (List.mem_of_mem_erase hx), fun x hx r => ?_⟩
  · rw [hoption] at hx
    split at hx
    · cases hx
    · next hnot =>
      have hxo : x ≠ o := by
        rintro rfl
        exact hnot ((h.mem_iff x ho r).mpr ⟨hr, hx⟩)
      exact (List.mem_erase_of_ne hxo).mpr (h.live r hr x hx)
  · obtain ⟨hxo, hx⟩ := hitems.mem_erase_iff.mp hx
    rw [h.mem_iff x hx r, hoption]
    split
    · next hmem =>
      have hpoint := ((h.mem_iff o ho r).mp hmem).2
      simp [hpoint, hxo.symm]
    · rfl

end Linked

/-! ## Acts -/

/-- Lists in order, without an item twice, and both ends of each reference. -/
structure Sound (s : App C V) : Prop where
  inv : s.options.Inv Opt.name strcmp
  duplicates : s.options.Duplicates = true
  nodup : s.options.Items.Nodup
  made : ∀ o ∈ s.options.Items, o.serial < s.made
  nodup_refs : s.refs.Nodup
  made_refs : ∀ r ∈ s.refs, r.serial < s.made
  linked : Linked s.options.Items s.refs s.option s.users

namespace Sound

variable {s t : App C V}

omit [DecidableEq C] in
/-- Values, and what has been seen of them, do not matter. -/
theorem congr (h : Sound s) (hoptions : t.options = s.options) (hrefs : t.refs = s.refs) (hoption : t.option = s.option)
    (husers : t.users = s.users) (hmade : t.made = s.made) : Sound t := by
  refine ⟨?_, ?_, ?_, ?_, ?_, ?_, ?_⟩
  · rw [hoptions]; exact h.inv
  · rw [hoptions]; exact h.duplicates
  · rw [hoptions]; exact h.nodup
  · rw [hoptions, hmade]; exact h.made
  · rw [hrefs]; exact h.nodup_refs
  · rw [hrefs, hmade]; exact h.made_refs
  · rw [hoptions, hrefs, hoption, husers]; exact h.linked

omit [DecidableEq C] in
theorem empty (zero : V) : Sound (App.empty zero : App C V) where
  inv := .new 2 2 true
  duplicates := rfl
  nodup := by simp [App.empty, SList.new, CList.new, CList.set_limit_eq]
  made := by simp [App.empty, SList.new, CList.new, CList.set_limit_eq]
  nodup_refs := .nil
  made_refs := by simp [App.empty]
  linked := ⟨by simp [App.empty], fun _ _ => .nil, by simp [App.empty]⟩

/-- Every user sees the value, once. -/
theorem inform_users_eq {o : Opt C} : ∀ (rs : List (OptRef C)) (s : App C V), (∀ r ∈ rs, s.option r = some o) →
    rs.foldlM (fun s r => s.option_changed r) s = some { s with
      seen := fun r => if r ∈ rs then some (s.value o) else s.seen r
      informed := s.informed ++ rs } := by
  intro rs
  induction rs with
  | nil => exact fun s _ => by simp
  | cons r rs ih =>
    intro s hrs
    obtain ⟨hr, hrest⟩ := List.forall_mem_cons.mp hrs
    rw [List.foldlM_cons, App.option_changed, hr, Option.map_some, Option.bind_eq_bind, Option.bind_some, ih]
    · simp only [Option.some.injEq, App.mk.injEq, List.append_assoc, List.singleton_append, and_true, true_and]
      funext x
      by_cases hxr : x = r
      · simp [hxr]
      · simp [hxr]
    · exact hrest

theorem inform_users (h : Sound s) {o : Opt C} (ho : o ∈ s.options.Items) :
    s.inform_users o = some { s with
      seen := fun r => if r ∈ s.users o then some (s.value o) else s.seen r
      informed := s.informed ++ s.users o } :=
  inform_users_eq (s.users o) s fun r hr => ((h.linked.mem_iff o ho r).mp hr).2

/-- An option that is set informs the references to it. -/
theorem set_value (h : Sound s) {o : Opt C} (ho : o ∈ s.options.Items) (v : V) :
    s.set_value o v = some { s with
      value := Function.update s.value o v
      seen := fun r => if r ∈ s.users o then some v else s.seen r
      informed := s.informed ++ s.users o } := by
  have hkept : Sound { s with value := Function.update s.value o v } := h.congr rfl rfl rfl rfl rfl
  rw [App.set_value, hkept.inform_users ho]
  simp only [Function.update_self]

/-! ### The list of the options -/

omit [DecidableEq C] in
/-- A new option is added in order, if there is room. -/
theorem add_items (h : Sound s) {o : Opt C} {l : SList (Opt C)} (hadd : s.options.add Opt.name strcmp o = some l) :
    l.Inv Opt.name strcmp ∧ l.Duplicates = true ∧ ∃ i ≤ s.options.Items.length, l.Items = s.options.Items.insertIdx i o := by
  refine ⟨h.inv.add strcmp_compares hadd, ?_⟩
  rw [SList.add_of_inserts strcmp_compares h.inv (.inl h.duplicates)] at hadd
  by_cases hroom : s.options.Room
  · obtain ⟨l', hadd', hgrown, hdup⟩ := SList.add_at_grown
      (s.options.search Opt.name strcmp o.name).2 o h.inv hroom
    obtain rfl : l' = l := Option.some.inj (hadd'.symm.trans hadd)
    exact ⟨hdup.trans h.duplicates, _, SList.search_snd_le .., hgrown.items⟩
  · rw [SList.add_at_full _ o h.inv hroom] at hadd
    cases hadd

omit [DecidableEq C] in
theorem get_option_mem {name : String} {o : Opt C} (hget : s.get_option name = some o) : o ∈ s.options.Items := by
  unfold App.get_option at hget
  dsimp only at hget
  split at hget
  · exact List.mem_of_getElem? hget
  · cases hget

theorem scan_mem {name : String} {creator : C} {items : List (Opt C)} {o : Opt C}
    (hscan : App.scan name creator items = some (some o)) : o ∈ items := by
  induction items with
  | nil => cases hscan
  | cons x items ih =>
    unfold App.scan at hscan
    split at hscan
    · split at hscan
      · rw [Option.some.injEq, Option.some.injEq] at hscan
        exact hscan ▸ List.mem_cons_self
      · exact List.mem_cons_of_mem x (ih hscan)
    · cases hscan

theorem get_option_of_mem {name : String} {creator : C} {o : Opt C} (hget : s.get_option_of name creator = some (some o)) :
    o ∈ s.options.Items := by
  unfold App.get_option_of at hget
  dsimp only at hget
  split at hget
  · exact List.mem_of_mem_drop (scan_mem hget)
  · cases hget

/-! ### References -/

theorem leave_eq (r : OptRef C) (s : App C V) : s.leave r = { s with
    users := fun o => if s.option r = some o then (s.users o).erase r else s.users o } := by
  unfold App.leave
  cases hr : s.option r with
  | none => simp
  | some o =>
    simp only [App.del_reference, App.mk.injEq, true_and, and_true]
    funext x
    by_cases hx : x = o
    · simp [hx]
    · simp [hx, Ne.symm hx]

/-- The reference leaves its option for another one, or for none. -/
theorem point (h : Sound s) {r : OptRef C} (hr : r ∈ s.refs) (target : Option (Opt C))
    (htarget : ∀ o, target = some o → o ∈ s.options.Items) (hoptions : t.options = s.options) (hrefs : t.refs = s.refs)
    (hmade : t.made = s.made) (hoption : t.option = Function.update s.option r target)
    (husers : ∀ o, t.users o = (if s.option r = some o then (s.users o).erase r else s.users o) ++
      if target = some o then [r] else []) : Sound t := by
  refine ⟨hoptions ▸ h.inv, hoptions ▸ h.duplicates, hoptions ▸ h.nodup, hoptions ▸ hmade ▸ h.made,
    hrefs ▸ h.nodup_refs, hrefs ▸ hmade ▸ h.made_refs, ?_⟩
  rw [hoptions, hrefs, hoption]
  exact h.linked.point hr htarget husers

theorem new_reference_users (o : Opt C) (r : OptRef C) (s : App C V) (x : Opt C) :
    (s.new_reference o r).users x = s.users x ++ if some o = some x then [r] else [] := by
  rw [App.new_reference]
  by_cases hx : x = o
  · simp [hx]
  · simp [hx, Ne.symm hx]

theorem use (h : Sound s) {r : OptRef C} (hr : r ∈ s.refs) : Sound (s.use r) := by
  unfold App.use
  cases hopt : s.option r with
  | none => exact h
  | some o =>
    have hleft : s.leave r = s.del_reference o r := by rw [App.leave, hopt]
    dsimp only
    rw [← hleft, leave_eq]
    refine h.point hr (some o) ?_ rfl rfl rfl ?_ fun x => new_reference_users ..
    · rintro x hx
      exact h.linked.live r hr x (hopt.trans hx)
    · rw [← hopt, Function.update_eq_self]
      rfl

theorem use_name (h : Sound s) {r : OptRef C} (hr : r ∈ s.refs) (name : String) : Sound (s.use_name r name) := by
  unfold App.use_name
  dsimp only
  rw [leave_eq]
  split
  · next o hget =>
    refine h.point hr (some o) ?_ rfl rfl rfl rfl fun x => new_reference_users ..
    rintro x hx
    rw [Option.some.injEq] at hx
    exact hx ▸ get_option_mem hget
  · exact h.point hr none (by simp) rfl rfl rfl rfl (by simp)

/-- An option that has just been made. -/
theorem new_option (h : Sound s) (zero : V) (name : String) (creator : C) {t : App C V}
    (hnew : App.new_option (s.make zero name creator).1 (s.make zero name creator).2 = some t) :
    Sound t ∧ (s.make zero name creator).1 ∈ t.options.Items ∧ t.refs = s.refs ∧ t.option = s.option ∧
      t.users = Function.update s.users (s.make zero name creator).1 [] := by
  have hfresh : (s.make zero name creator).1 ∉ s.options.Items := fun hmem => Nat.lt_irrefl _ (h.made _ hmem)
  unfold App.new_option at hnew
  obtain ⟨l, hadd, rfl⟩ := Option.map_eq_some_iff.mp hnew
  obtain ⟨hinv, hdup, i, hi, hitems⟩ := h.add_items hadd
  have hmem : ∀ x, x ∈ l.Items ↔ x = (s.make zero name creator).1 ∨ x ∈ s.options.Items := fun x => by
    rw [hitems, List.mem_insertIdx hi]
  refine ⟨⟨hinv, hdup, ?_, ?_, h.nodup_refs, fun r hr => Nat.lt_succ_of_lt (h.made_refs r hr),
    h.linked.add_option hfresh hmem⟩, (hmem _).mpr (.inl rfl), rfl, rfl, rfl⟩
  · show l.Items.Nodup
    rw [hitems, (List.perm_insertIdx _ _ hi).nodup_iff]
    exact List.nodup_cons.mpr ⟨hfresh, h.nodup⟩
  · intro x hx
    rcases (hmem x).mp hx with rfl | hx
    · exact Nat.lt_succ_self _
    · exact Nat.lt_succ_of_lt (h.made x hx)

theorem create (h : Sound s) (zero : V) {r : OptRef C} (hr : r ∈ s.refs) (creator : C) (type : OptionType)
    (name : String) (hcreate : s.create zero r creator type name = some t) : Sound t := by
  unfold App.create at hcreate
  dsimp only at hcreate
  rw [leave_eq] at hcreate
  split at hcreate
  · rw [Option.some.injEq] at hcreate
    rw [← hcreate]
    exact h.point hr none (by simp) rfl rfl rfl rfl (by simp)
  · obtain ⟨s', hnew, rfl⟩ := Option.map_eq_some_iff.mp hcreate
    obtain ⟨l, hadd, rfl⟩ := Option.map_eq_some_iff.mp hnew
    have hmade : App.new_option (s.make zero name creator).1 (s.make zero name creator).2 =
        some { (s.make zero name creator).2 with options := l } := by
      unfold App.new_option
      exact Option.map_eq_some_iff.mpr ⟨l, hadd, rfl⟩
    obtain ⟨hsound, hmem, -⟩ := h.new_option zero name creator hmade
    refine hsound.point hr (some (s.make zero name creator).1) ?_ rfl rfl rfl rfl fun x => ?_
    · rintro x hx
      rw [Option.some.injEq] at hx
      exact hx ▸ hmem
    · refine (new_reference_users _ _ _ x).trans (congrArg₂ (· ++ ·) ?_ rfl)
      show Function.update (fun o => if s.option r = some o then (s.users o).erase r else s.users o)
          ⟨s.made, name, creator⟩ [] x =
        if s.option r = some x then (Function.update s.users ⟨s.made, name, creator⟩ [] x).erase r
        else Function.update s.users ⟨s.made, name, creator⟩ [] x
      by_cases hx : x = ⟨s.made, name, creator⟩
      · simp [hx]
      · simp [hx]

/-- An option goes, and its users forget it. -/
theorem del_option (h : Sound s) {o : Opt C} (ho : o ∈ s.options.Items) :
    Sound (s.del_option o) ∧ (s.del_option o).options.Items = s.options.Items.erase o ∧
      (s.del_option o).refs = s.refs ∧
      (s.del_option o).option = fun r => if r ∈ s.users o then none else s.option r := by
  have hforget : ∀ (rs : List (OptRef C)) (s : App C V),
      rs.foldl (fun s r => { s with option := Function.update s.option r none }) s =
        { s with option := fun r => if r ∈ rs then none else s.option r } := by
    intro rs
    induction rs with
    | nil => exact fun s => by simp
    | cons r rs ih =>
      intro s
      rw [List.foldl_cons, ih]
      simp only [App.mk.injEq, true_and, and_true]
      funext x
      by_cases hx : x = r
      · simp [hx]
      · simp [hx]
  have hpre : s.pre_remove o = { s with option := fun r => if r ∈ s.users o then none else s.option r } :=
    hforget (s.users o) s
  have hdel : s.del_option o = { s with
      option := fun r => if r ∈ s.users o then none else s.option r
      options := s.options.disconn o } := by
    rw [App.del_option, hpre]
  have herase : (s.options.disconn o).Items = s.options.Items.erase o := CList.disconn_items o s.options.toCList
  have hitems : (s.del_option o).options.Items = s.options.Items.erase o := by
    rw [hdel]
    exact herase
  have hsublist : (s.options.disconn o).Items.Sublist s.options.Items := herase ▸ List.erase_sublist
  have hlinked : Linked (s.options.disconn o).Items s.refs
      (fun r => if r ∈ s.users o then none else s.option r) s.users :=
    herase ▸ h.linked.remove_option h.nodup ho fun _ => rfl
  refine ⟨?_, hitems, by rw [hdel], by rw [hdel]⟩
  rw [hdel]
  exact ⟨h.inv.disconn o, h.duplicates, h.nodup.sublist hsublist,
    fun x hx => h.made x (hsublist.subset hx), h.nodup_refs, h.made_refs, hlinked⟩

theorem new_ref (h : Sound s) (owner : C) : Sound { s with
    made := s.made + 1
    refs := s.refs ++ [⟨s.made, owner⟩]
    option := Function.update s.option ⟨s.made, owner⟩ none } := by
  have hfresh : (⟨s.made, owner⟩ : OptRef C) ∉ s.refs := fun hmem => Nat.lt_irrefl _ (h.made_refs _ hmem)
  refine ⟨h.inv, h.duplicates, h.nodup, fun o ho => Nat.lt_succ_of_lt (h.made o ho), ?_, fun r hr => ?_,
    h.linked.add_ref hfresh⟩
  · exact h.nodup_refs.append (List.nodup_singleton _) (List.disjoint_singleton.mpr hfresh)
  · rcases List.mem_append.mp hr with hr | hr
    · exact Nat.lt_succ_of_lt (h.made_refs r hr)
    · rw [List.mem_singleton.mp hr]
      exact Nat.lt_succ_self _

/-- A reference goes. With it goes the option that its owner has created, and all references to it forget it. -/
theorem destroy (h : Sound s) {r : OptRef C} (hr : r ∈ s.refs) : Sound (s.destroy r) ∧
    ∀ o, s.option r = some o → o.creator = r.owner →
      o ∉ (s.destroy r).options.Items ∧ ∀ x ∈ (s.destroy r).refs, (s.destroy r).option x ≠ some o := by
  have hleft : Sound { s.leave r with refs := s.refs.erase r } := by
    rw [leave_eq]
    have hpoint : Linked s.options.Items s.refs (Function.update s.option r none)
        fun o => if s.option r = some o then (s.users o).erase r else s.users o :=
      h.linked.point hr (by simp) (by simp)
    have hgone : Linked s.options.Items (s.refs.erase r) s.option
        fun o => if s.option r = some o then (s.users o).erase r else s.users o := by
      refine (hpoint.remove_ref h.nodup_refs (Function.update_self ..)).congr fun x hx => ?_
      have hxr : x ≠ r := (h.nodup_refs.mem_erase_iff.mp hx).1
      rw [Function.update_of_ne hxr]
    exact ⟨h.inv, h.duplicates, h.nodup, h.made, h.nodup_refs.erase r,
      fun x hx => h.made_refs x (List.mem_of_mem_erase hx), hgone⟩
  have hdestroy : s.destroy r = match s.option r with
      | some o => if o.creator = r.owner then App.del_option o { s.leave r with refs := s.refs.erase r }
        else { s.leave r with refs := s.refs.erase r }
      | none => { s.leave r with refs := s.refs.erase r } := by
    unfold App.destroy App.leave
    dsimp only
    cases s.option r <;> rfl
  rw [hdestroy]
  cases hopt : s.option r with
  | none => exact ⟨hleft, fun o ho => by cases ho⟩
  | some o =>
    have ho : o ∈ ({ s.leave r with refs := s.refs.erase r } : App C V).options.Items := by
      rw [leave_eq]
      exact h.linked.live r hr o hopt
    dsimp only
    split
    · obtain ⟨hdel, hitems, -⟩ := hleft.del_option ho
      refine ⟨hdel, fun x hx _ => ?_⟩
      obtain rfl : o = x := Option.some.inj hx
      have hout : o ∉ (App.del_option o { s.leave r with refs := s.refs.erase r }).options.Items := by
        rw [hitems]
        exact hleft.nodup.not_mem_erase
      exact ⟨hout, fun x hx hxo => hout (hdel.linked.live x hx o hxo)⟩
    · next hother =>
      refine ⟨hleft, fun x hx hown => absurd ?_ hother⟩
      obtain rfl : o = x := Option.some.inj hx
      exact hown

theorem inform (h : Sound s) {o : Opt C} (ho : o ∈ s.options.Items) (hinform : s.inform_users o = some t) :
    Sound t := by
  rw [h.inform_users ho, Option.some.injEq] at hinform
  exact hinform ▸ h.congr rfl rfl rfl rfl rfl

theorem set (h : Sound s) {o : Opt C} (ho : o ∈ s.options.Items) {v : V} (hset : s.set_value o v = some t) :
    Sound t := by
  rw [h.set_value ho, Option.some.injEq] at hset
  exact hset ▸ h.congr rfl rfl rfl rfl rfl

theorem default_option (h : Sound s) {application : C} {r : OptRef C} (hr : r ∈ s.refs) {name : String}
    (hdefault : s.default_option application r name = some t) : Sound t := by
  unfold App.default_option at hdefault
  obtain ⟨found, hget, hdefault⟩ := Option.bind_eq_some_iff.mp hdefault
  split at hdefault
  · next o option hopt =>
    have ho : option ∈ s.options.Items := h.linked.live r hr option hopt
    obtain ⟨s', hset, hinform⟩ := Option.bind_eq_some_iff.mp hdefault
    have hoptions : s'.options = s.options := by
      rw [h.set_value ho, Option.some.injEq] at hset
      exact hset ▸ rfl
    exact (h.set ho hset).inform (hoptions ▸ ho) hinform
  · rw [Option.some.injEq] at hdefault
    exact hdefault ▸ h

/-- Every act keeps both ends of each reference. -/
theorem exec (h : Sound s) (zero : V) (application : C) {a : Act C V} (href : ∀ r, a.ref = some r → r ∈ s.refs)
    (hexec : s.exec zero application a = some t) : Sound t := by
  cases a with
  | newOption name creator => exact (h.new_option zero name creator hexec).1
  | newRef owner =>
    rw [App.exec, Option.some.injEq] at hexec
    exact hexec ▸ h.new_ref owner
  | create r creator type name => exact h.create zero (href r rfl) creator type name hexec
  | default_option r name => exact h.default_option (href r rfl) hexec
  | use r =>
    rw [App.exec, Option.some.injEq] at hexec
    exact hexec ▸ h.use (href r rfl)
  | use_name r name =>
    rw [App.exec, Option.some.injEq] at hexec
    exact hexec ▸ h.use_name (href r rfl) name
  | destroy r =>
    rw [App.exec, Option.some.injEq] at hexec
    exact hexec ▸ (h.destroy (href r rfl)).1
  | set_value name creator v =>
    obtain ⟨found, hget, hset⟩ := Option.bind_eq_some_iff.mp hexec
    cases found with
    | none => exact Option.some.inj hset ▸ h
    | some o => exact h.set (get_option_of_mem hget) hset
  | set_at idx v =>
    unfold App.exec at hexec
    dsimp only at hexec
    cases hitem : s.options.Items[idx]? with
    | none =>
      rw [hitem] at hexec
      exact Option.some.inj hexec ▸ h
    | some o =>
      rw [hitem] at hexec
      exact h.set (List.mem_of_getElem? hitem) hexec

end Sound

theorem Sound.of_reachable {zero : V} {application : C} {s : App C V} (h : (registry zero application).Reachable s) :
    Sound s := by
  refine System.Reachable.invariant ?_ (fun a s t _ hs hstep => ?_) h
  · rintro s rfl
    exact .empty zero
  · exact hs.exec zero application hstep.1 hstep.2

/-- Whatever has been made, used, set and destroyed: a reference points to an option of the list, or to none, and it
is one of the users of that option, once; and there are no other users. So the value that an option is set to comes
to each reference to it once, and to no other. An option that goes with its reference is not pointed to any more. -/
theorem references_sound {zero : V} {application : C} {s : App C V} (h : (registry zero application).Reachable s) :
    (s.options.Items.map Opt.name).Pairwise (· ≤ ·) ∧ s.options.Items.Nodup ∧
      (∀ r ∈ s.refs, ∀ o, s.option r = some o → o ∈ s.options.Items ∧ (s.users o).count r = 1) ∧
      (∀ o ∈ s.options.Items, ∀ r ∈ s.users o, r ∈ s.refs ∧ s.option r = some o) ∧
      (∀ o ∈ s.options.Items, ∀ v, ∃ t, s.set_value o v = some t ∧ t.informed = s.informed ++ s.users o ∧
        ∀ r ∈ s.refs, t.seen r = if s.option r = some o then some v else s.seen r) ∧
      ∀ r ∈ s.refs, ∀ o, s.option r = some o → o.creator = r.owner →
        o ∉ (s.destroy r).options.Items ∧ ∀ x ∈ (s.destroy r).refs, (s.destroy r).option x ≠ some o := by
  have hs := Sound.of_reachable h
  refine ⟨?_, hs.nodup, fun r hr o ho => ?_, fun o ho r hr => (hs.linked.mem_iff o ho r).mp hr, fun o ho v => ?_,
    fun r hr => (hs.destroy hr).2⟩
  · rw [List.pairwise_map]
    exact hs.inv.le.imp fun hab => strcmp_le_zero.mp hab
  · have hlive := hs.linked.live r hr o ho
    exact ⟨hlive, List.count_eq_one_of_mem (hs.linked.nodup o hlive) ((hs.linked.mem_iff o hlive r).mpr ⟨hr, ho⟩)⟩
  · refine ⟨_, hs.set_value ho v, rfl, fun r hr => ?_⟩
    have hiff : r ∈ s.users o ↔ s.option r = some o := by
      rw [hs.linked.mem_iff o ho r]
      exact and_iff_right hr
    simp only [hiff]

/-- The application makes the option `xtal`, and an object makes a reference to it and an option of its own. -/
def xtal : Option (App Nat Nat) :=
  System.checkedRun (fun a s => s.exec 0 0 a) (fun a s => a.ref.all fun r => r ∈ s.refs)
    [.newOption "xtal" 0, .newRef 1, .use_name ⟨1, 1⟩ "xtal", .newRef 1, .create ⟨2, 1⟩ 1 .bool_opt "irq_stop"]
    (.empty 0)

theorem xtal_reachable : ∃ s, xtal = some s ∧ (registry 0 0).Reachable s := by
  have hsome : xtal.isSome = true := by decide +kernel
  obtain ⟨s, hs⟩ := Option.isSome_iff_exists.mp hsome
  refine ⟨s, hs, System.Reachable.checkedRun (fun _ _ _ h => h) (fun a t ha r hr => ?_) (.init rfl) hs⟩
  rw [hr, Option.all_some] at ha
  exact of_decide_eq_true ha

/-- The user of `xtal` gets each value. -/
theorem references_sound_xtal : ∃ s, xtal = some s ∧ ∀ v, ∃ t, s.set_value ⟨0, "xtal", 0⟩ v = some t ∧
    t.informed = [⟨1, 1⟩] ∧ t.seen ⟨1, 1⟩ = some v := by
  have hcheck : (xtal.any fun s => decide ((⟨0, "xtal", 0⟩ : Opt Nat) ∈ s.options.Items ∧ s.informed = [] ∧
      s.users ⟨0, "xtal", 0⟩ = [⟨1, 1⟩] ∧ (⟨1, 1⟩ : OptRef Nat) ∈ s.refs)) = true := by decide +kernel
  obtain ⟨s, hs, hreachable⟩ := xtal_reachable
  rw [hs, Option.any_some, decide_eq_true_eq] at hcheck
  obtain ⟨hitem, hinformed, husers, href⟩ := hcheck
  obtain ⟨-, -, -, hboth, hset, -⟩ := references_sound hreachable
  refine ⟨s, hs, fun v => ?_⟩
  obtain ⟨t, ht, htold, hseen⟩ := hset _ hitem v
  have hpoint := (hboth _ hitem ⟨1, 1⟩ (husers ▸ List.mem_cons_self)).2
  exact ⟨t, ht, by rw [htold, hinformed, husers]; rfl, (hseen _ href).trans (if_pos hpoint)⟩

/-! ## Lookups -/

/-- The loop over a sorted list that starts with the name, or above it. -/
theorem scan_eq (name : String) (creator : C) {items : List (Opt C)} (hsorted : items.Pairwise fun a b => a.name ≤ b.name)
    (hname : ∀ o ∈ items, name ≤ o.name) : App.scan name creator items =
      match items.find? fun o => o.name = name ∧ o.creator = creator with
      | some o => some (some o)
      | none => if ∀ o ∈ items, o.name = name then none else some none := by
  induction items with
  | nil => simp [App.scan]
  | cons o items ih =>
    obtain ⟨hle, hrest⟩ := List.pairwise_cons.mp hsorted
    obtain ⟨hfirst, hname⟩ := List.forall_mem_cons.mp hname
    rw [App.scan]
    by_cases ho : o.name = name
    · rw [if_pos (strcmp_eq_zero.mpr ho.symm)]
      by_cases hcreator : o.creator = creator
      · simp [ho, hcreator]
      · rw [if_neg hcreator, ih hrest hname]
        simp [ho, hcreator]
    · -- the names of the others are above it
      have habove : ∀ x ∈ o :: items, x.name ≠ name := by
        rintro x hx rfl
        rcases List.mem_cons.mp hx with rfl | hx
        · exact ho rfl
        · exact ho (le_antisymm (hle x hx) hfirst)
      have hnone : (o :: items).find? (fun o => o.name = name ∧ o.creator = creator) = none := by
        rw [List.find?_eq_none]
        exact fun x hx => by simp [habove x hx]
      rw [if_neg fun h => ho (strcmp_eq_zero.mp h).symm, hnone]
      simp [ho]

omit [DecidableEq C] in
/-- The place that is found is that of the first option with the name. -/
theorem Sound.search_split {s : App C V} (hs : Sound s) {name : String}
    (hfound : (s.options.search Opt.name strcmp name).1 = true) :
    (s.options.search Opt.name strcmp name).2 < s.options.Items.length ∧
      (∀ o ∈ s.options.Items.take (s.options.search Opt.name strcmp name).2, o.name < name) ∧
      ∃ o rest, s.options.Items.drop (s.options.search Opt.name strcmp name).2 = o :: rest ∧ o.name = name := by
  obtain ⟨hlt, hzero, hbelow⟩ := (hs.inv.found strcmp_compares name).found hfound
  rw [SList.cmpAt_of_lt name hlt, strcmp_eq_zero] at hzero
  refine ⟨hlt, fun o ho => ?_, _, _, List.drop_eq_getElem_cons hlt, hzero⟩
  have hneg : strcmp o.name name < 0 :=
    SList.forall_mem_take (P := fun c => c < 0) (Nat.le_of_lt hlt) (hbelow hs.duplicates) o ho
  by_contra hge
  have hpos := (strcmp_compares.swap o.name name).mp hneg
  have hle := strcmp_le_zero.mpr (not_lt.mp hge)
  omega

omit [DecidableEq C] in
theorem Sound.search_none {s : App C V} (hs : Sound s) {name : String}
    (hfound : (s.options.search Opt.name strcmp name).1 = false) : ∀ o ∈ s.options.Items, o.name ≠ name := by
  rintro o ho rfl
  have hr := (SList.search_fst_iff strcmp_compares hs.inv o.name).mpr ⟨o, ho, strcmp_compares.self _⟩
  exact Bool.false_ne_true (hfound.symm.trans hr)

omit [DecidableEq C] in
/-- The loop back stops where the name does not begin. -/
theorem stepBack_of_lt {name : String} {items : List (Opt C)} {idx : Nat} (hidx : idx + 1 < items.length)
    (hbelow : ∀ o ∈ items.take (idx + 1), o.name < name) :
    (if (items[App.stepBack name items idx]?).any fun o => strcmp name o.name = 0 then App.stepBack name items idx
      else App.stepBack name items idx + 1) = idx + 1 := by
  have hne : ∀ i ≤ idx, ¬(items[i]?).any (fun o => strcmp name o.name = 0) = true := by
    intro i hi hany
    have hlt : i < items.length := by omega
    rw [List.getElem?_eq_getElem hlt, Option.any_some, decide_eq_true_eq, strcmp_eq_zero] at hany
    have hmem : items[i] ∈ items.take (idx + 1) := List.mem_take_iff_getElem.mpr ⟨i, by omega, rfl⟩
    exact (hbelow _ hmem).ne hany.symm
  have hstop : App.stepBack name items idx = idx := by
    cases idx with
    | zero => rfl
    | succ idx => exact if_neg (hne (idx + 1) le_rfl)
  rw [hstop, if_neg (hne idx le_rfl)]

/-- In every state: the search by name finds the first option with the name. The search by name and creator finds
the first option with both. If there is none it finds nothing, unless the options with the name are the last ones:
then it reads over the end of the list. -/
theorem lookups {zero : V} {application : C} {s : App C V} (h : (registry zero application).Reachable s)
    (name : String) (creator : C) :
    s.get_option name = s.options.Items.find? (fun o => o.name = name) ∧
      s.get_option_of name creator = match s.options.Items.find? fun o => o.name = name ∧ o.creator = creator with
        | some o => some (some o)
        | none => if (∃ o ∈ s.options.Items, o.name = name) ∧ ∀ o ∈ s.options.Items, o.name ≤ name then none
          else some none := by
  have hs := Sound.of_reachable h
  unfold App.get_option App.get_option_of
  dsimp only
  cases hfound : (s.options.search Opt.name strcmp name).1 with
  | false =>
    have hnone := hs.search_none hfound
    constructor
    · rw [if_neg Bool.false_ne_true, eq_comm, List.find?_eq_none]
      exact fun o ho => by simp [hnone o ho]
    · have hfind : s.options.Items.find? (fun o => o.name = name ∧ o.creator = creator) = none := by
        rw [List.find?_eq_none]
        exact fun o ho => by simp [hnone o ho]
      rw [if_neg Bool.false_ne_true, hfind]
      exact (if_neg fun hex => by
        obtain ⟨⟨o, ho, hname⟩, -⟩ := hex
        exact hnone o ho hname).symm
  | true =>
    obtain ⟨hlt, hbelow, o, rest, hdrop, hname⟩ := hs.search_split hfound
    have hsplit := List.take_append_drop (s.options.search Opt.name strcmp name).2 s.options.Items
    have hitem : s.options.Items[(s.options.search Opt.name strcmp name).2]? = some o := by
      rw [← List.head?_drop, hdrop]
      rfl
    have hidx : (if 0 < (s.options.search Opt.name strcmp name).2 then
          if (s.options.Items[App.stepBack name s.options.Items ((s.options.search Opt.name strcmp name).2 - 1)]?).any
              fun o => strcmp name o.name = 0 then
            App.stepBack name s.options.Items ((s.options.search Opt.name strcmp name).2 - 1)
          else App.stepBack name s.options.Items ((s.options.search Opt.name strcmp name).2 - 1) + 1
        else (s.options.search Opt.name strcmp name).2) = (s.options.search Opt.name strcmp name).2 := by
      generalize (s.options.search Opt.name strcmp name).2 = r at hlt hbelow ⊢
      cases r with
      | zero => rfl
      | succ r => exact (if_pos (Nat.succ_pos r)).trans (stepBack_of_lt hlt hbelow)
    rw [if_pos rfl, if_pos rfl, hidx]
    generalize (s.options.search Opt.name strcmp name).2 = r at hlt hbelow hdrop hsplit hitem ⊢
    have hsorted : (s.options.Items.drop r).Pairwise fun a b => a.name ≤ b.name :=
      (hs.inv.le.imp fun hab => strcmp_le_zero.mp hab).sublist (List.drop_sublist r _)
    have habove : ∀ x ∈ s.options.Items.drop r, name ≤ x.name := by
      rw [hdrop] at hsorted ⊢
      exact List.forall_mem_cons.mpr ⟨hname.ge, fun x hx => hname ▸ (List.pairwise_cons.mp hsorted).1 x hx⟩
    -- the options before the place do not have the name
    have hfind : ∀ p : Opt C → Bool, (∀ x, p x = true → x.name = name) →
        s.options.Items.find? p = (s.options.Items.drop r).find? p := by
      intro p hp
      have hnone : (s.options.Items.take r).find? p = none :=
        List.find?_eq_none.mpr fun x hx hpx => (hbelow x hx).ne (hp x hpx)
      calc s.options.Items.find? p
          = (s.options.Items.take r ++ s.options.Items.drop r).find? p := by rw [hsplit]
        _ = (s.options.Items.drop r).find? p := by rw [List.find?_append, hnone, Option.none_or]
    have hlast : ((∃ o ∈ s.options.Items, o.name = name) ∧ ∀ o ∈ s.options.Items, o.name ≤ name) ↔
        ∀ o ∈ s.options.Items.drop r, o.name = name := by
      constructor
      · exact fun h x hx => le_antisymm (h.2 x (List.mem_of_mem_drop hx)) (habove x hx)
      · refine fun h => ⟨⟨o, List.mem_of_getElem? hitem, hname⟩, fun x hx => ?_⟩
        rw [← hsplit] at hx
        rcases List.mem_append.mp hx with hx | hx
        · exact (hbelow x hx).le
        · exact (h x hx).le
    constructor
    · rw [hitem, hfind _ fun x hx => of_decide_eq_true hx, hdrop]
      simp [hname]
    · rw [scan_eq name creator hsorted habove, hfind _ fun x hx => (of_decide_eq_true hx).1]
      simp only [hlast]

/-- The object has not created `xtal`, and no name comes behind it. -/
theorem lookups_xtal : ∃ s, xtal = some s ∧ s.get_option_of "irq_stop" 1 = some (some ⟨3, "irq_stop", 1⟩) ∧
    s.get_option_of "xtal" 1 = none := by
  have hcheck : (xtal.any fun s => decide (s.options.Items = [⟨3, "irq_stop", 1⟩, ⟨0, "xtal", 0⟩])) = true := by
    decide +kernel
  obtain ⟨s, hs, hreachable⟩ := xtal_reachable
  rw [hs, Option.any_some, decide_eq_true_eq] at hcheck
  refine ⟨s, hs, (lookups hreachable "irq_stop" 1).2.trans ?_, (lookups hreachable "xtal" 1).2.trans ?_⟩
  · rw [hcheck]
    rfl
  · rw [hcheck]
    have hle : "irq_stop" ≤ "xtal" := by decide +kernel
    simp [hle]

end Ucsim.Options
