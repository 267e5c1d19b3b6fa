import Ucsim.Sim.FetchBreakpoints
import Ucsim.Sim.Breakpoints

/-!
# The commands that set and delete breakpoints

The console works on two collections, of fetch breakpoints and of event breakpoints, that number their items
from one counter. A breakpoint of the first kind is a flag of its cell, one of the second an operator. The
commands keep all of this together, except that a fetch breakpoint at an address that does not exist can be
set but never be deleted.
-/

namespace Ucsim

open Logic

variable {ι Hw : Type}

/-- `cl_ev_brk`. The address space is known by its name. -/
structure EvBrk (ι : Type) where
  mem : ι
  nr : Nat
  addr : Int
  perm : BrkPerm
  hit : Int
  cnt : Int
  event : BrkEvent
  deriving DecidableEq, Repr

namespace EvBrk

/-- The event that the constructor takes from a letter. -/
def eventOf (op : Char) : BrkEvent :=
  if op.toUpper = 'R' then .read else if op.toUpper = 'W' then .write else .access

/-- What the memory sees of the breakpoint. -/
def brk (b : EvBrk ι) : Brk := { nr := b.nr, event := b.event }

/-- The operator that `activate` hangs on the cell, if there is one for the event. -/
def operators (sp : AddressSpace Hw) (b : EvBrk ι) : List (Operator Int DataPtr Hw) :=
  (AddressSpace.brkOperator b.brk).toList.map fun kind =>
    { kind := kind, cell := b.addr - sp.startAddress, data := (sp.cellAt b.addr).data, mask := (sp.cellAt b.addr).mask }

end EvBrk

/-- The breakpoints of a `cl_uc`. `rom` names the space that instructions are fetched from. -/
structure Breaks (ι Hw : Type) where
  mems : ι → AddressSpace Hw
  rom : ι
  fbrk : List FetchBrk
  ebrk : List (EvBrk ι)
  brk_counter : Nat

namespace Breaks

/-- The collection `fbrk`. -/
def fetchBrks (s : Breaks ι Hw) : FetchBrks Hw :=
  { rom := s.mems s.rom, items := s.fbrk, brk_counter := s.brk_counter }

variable [DecidableEq ι]

/-- The state with another collection `fbrk`. -/
def withFetch (f : FetchBrks Hw) (s : Breaks ι Hw) : Breaks ι Hw :=
  { s with mems := Function.update s.mems s.rom f.rom, fbrk := f.items, brk_counter := f.brk_counter }

/-- `make_new_brknr`. -/
def make_new_brknr (s : Breaks ι Hw) : Nat := s.fetchBrks.make_new_brknr s.ebrk.isEmpty

/-- `bp_at`. -/
def bp_at (addr : Int) (s : Breaks ι Hw) : Bool :=
  decide ((s.mems s.rom).validAddress addr) && (s.mems s.rom).getFetchBrk addr

/-- `fbrk_at`. -/
def fbrk_at (addr : Int) (s : Breaks ι Hw) : Option FetchBrk := (s.fetchBrks.get_bp addr).map (·.2)

/-- A new fetch breakpoint. -/
def addFetch (addr : Int) (perm : BrkPerm) (hit : Int) (s : Breaks ι Hw) : Breaks ι Hw :=
  let nr := s.make_new_brknr
  let f := s.fetchBrks.add_bp { nr := nr, addr := addr, perm := perm, hit := hit, cnt := hit }
  s.withFetch { f with brk_counter := nr }

/-- `cl_break_cmd::do_fetch`. -/
def do_fetch (addr hit : Int) (perm : BrkPerm) (s : Breaks ι Hw) : Breaks ι Hw :=
  if hit > 99999 then s else if s.bp_at addr then s else s.addFetch addr perm hit

/-- `mk_ebrk` and `add_bp` of the collection `ebrk`, as in `cl_break_cmd::do_event`. -/
def do_event (mem : ι) (op : Char) (addr hit : Int) (perm : BrkPerm) (s : Breaks ι Hw) : Breaks ι Hw :=
  let nr := s.make_new_brknr
  let b : EvBrk ι :=
    { mem := mem, nr := nr, addr := addr, perm := perm, hit := hit, cnt := hit, event := EvBrk.eventOf op }
  { s with
    mems := Function.update s.mems mem ((s.mems mem).setBrk addr b.brk)
    ebrk := SortedList.add s.ebrk (fun i => FetchBrks.compare ((s.ebrk[i]?).elim 0 (·.nr)) b.nr) false b
    brk_counter := nr }

/-- How `run` and `next` make the instruction at an address the last one. -/
def stop_at (addr : Int) (s : Breaks ι Hw) : Breaks ι Hw :=
  if (s.fbrk_at addr).isSome then s else s.addFetch addr .DYNAMIC 1

/-- `fbrk->del_bp(addr)`. -/
def del_fetch (addr : Int) (s : Breaks ι Hw) : Breaks ι Hw := s.withFetch (s.fetchBrks.del_bp addr)

/-- `ebrk->del_bp(idx, 0)`. -/
def del_event (idx : Nat) (s : Breaks ι Hw) : Breaks ι Hw :=
  match s.ebrk[idx]? with
  | some b =>
    { s with
      mems := Function.update s.mems b.mem ((s.mems b.mem).delBrk b.addr b.brk)
      ebrk := s.ebrk.eraseIdx idx }
  | none => s

/-- `ebrk->index_of`. The breakpoint is looked for by its number. -/
def index_of (b : EvBrk ι) (s : Breaks ι Hw) : Nat :=
  (SortedList.search s.ebrk.length (fun i => FetchBrks.compare ((s.ebrk[i]?).elim 0 (·.nr)) b.nr) false).2

/-- `rm_brk`. -/
def rm_brk (nr : Int) (s : Breaks ι Hw) : Bool × Breaks ι Hw :=
  match s.fbrk.find? fun b => (b.nr : Int) = nr with
  | some b => (true, s.del_fetch b.addr)
  | none =>
    match s.ebrk.find? fun b => (b.nr : Int) = nr with
    | some b => (true, s.del_event (s.index_of b))
    | none => (false, s)

/-- The first loop of `remove_all_breaks`, with a bound on its turns. -/
def remove_fetch : Nat → Breaks ι Hw → Option (Breaks ι Hw)
  | 0, _ => none
  | fuel + 1, s =>
    match s.fbrk with
    | [] => some s
    | b :: _ => remove_fetch fuel (s.del_fetch b.addr)

/-- The second loop of `remove_all_breaks`, with the count of the breakpoints. -/
def remove_events : Nat → Breaks ι Hw → Breaks ι Hw
  | 0, s => s
  | count + 1, s => remove_events count (s.del_event count)

/-- `remove_all_breaks`. -/
def remove_all_breaks (fuel : Nat) (s : Breaks ι Hw) : Option (Breaks ι Hw) :=
  (s.remove_fetch fuel).map fun t => t.remove_events t.ebrk.length

/-- The loop of `cl_clear_cmd` over its parameters. It ends at one that is no address. -/
def clear : List (Option Int) → Breaks ι Hw → Breaks ι Hw
  | [], s => s
  | none :: _, s => s
  | some addr :: params, s => clear params (if s.bp_at addr then s.del_fetch addr else s)

/-- The loop of `cl_delete_cmd` over its parameters. One that is no number is skipped. -/
def delete (params : List (Option Int)) (s : Breaks ι Hw) : Breaks ι Hw :=
  params.foldl (fun s param => param.elim s fun nr => (s.rm_brk nr).2) s

/-- `fetch`, up to the answer whether it stops. -/
def fetch (PC : Int) (go : Bool) (s : Breaks ι Hw) : Bool × Breaks ι Hw :=
  ((s.fetchBrks.fetch PC go).1, s.withFetch (s.fetchBrks.fetch PC go).2)

end Breaks

/-- A command about breakpoints, with its parameters as they are understood, or the fetch of an instruction. -/
inductive BreakCmd (ι : Type)
  | break_ (addr hit : Int) (perm : BrkPerm)
  | event (mem : ι) (op : Char) (addr hit : Int) (perm : BrkPerm)
  | clear (PC : Int) (params : List (Option Int))
  | delete (params : List (Option Int))
  | stopAt (addr : Int)
  | fetch (PC : Int) (go : Bool)

namespace Breaks

variable [DecidableEq ι]

/-- What a command does. `delete` without parameters may need any number of turns. -/
def exec (fuel : Nat) (s : Breaks ι Hw) : BreakCmd ι → Option (Breaks ι Hw)
  | .break_ addr hit perm => some (s.do_fetch addr hit perm)
  | .event mem op addr hit perm => some (s.do_event mem op addr hit perm)
  | .clear PC [] => some (if (s.fbrk_at PC).isSome then s.del_fetch PC else s)
  | .clear _ params => some (s.clear params)
  | .delete [] => s.remove_all_breaks fuel
  | .delete params => some (s.delete params)
  | .stopAt addr => some (s.stop_at addr)
  | .fetch PC go => some (s.fetch PC go).2

/-- The spaces before the first command, without breakpoints. -/
structure Fresh (mems : ι → AddressSpace Hw) (rom : ι) : Prop where
  unset : ∀ a, (mems rom).getFetchBrk a = false
  hw : ∀ m a, ∀ o ∈ ((mems m).cellAt a).operators, o.kind.isHw = true

/-- Sessions at the console. -/
def commands (mems : ι → AddressSpace Hw) (rom : ι) : System (BreakCmd ι) (Breaks ι Hw) where
  init s := s = { mems := mems, rom := rom, fbrk := [], ebrk := [], brk_counter := 0 }
  step cmd s t := ∃ fuel, s.exec fuel cmd = some t

/-- The numbers in use. -/
def numbers (s : Breaks ι Hw) : List Nat := s.fbrk.map (·.nr) ++ s.ebrk.map (·.nr)

/-- The operators of event breakpoints at a cell. -/
def hooks (sp : AddressSpace Hw) (m : ι) (a : Int) (l : List (EvBrk ι)) : List (Operator Int DataPtr Hw) :=
  l.flatMap fun b => if b.mem = m ∧ b.addr = a then b.operators sp else []

/-- The numbers are distinct, the items of both collections are sorted by them, an address of the space has at
most one fetch breakpoint, and has the flag if it has one; a cell has the operators that it had at the start and
those of its event breakpoints. -/
structure Sound (mems : ι → AddressSpace Hw) (rom : ι) (s : Breaks ι Hw) : Prop where
  space : s.rom = rom
  numbered : ∀ nr ∈ s.numbers, 0 < nr ∧ nr ≤ s.brk_counter
  distinct : s.numbers.Nodup
  fetchSorted : s.fbrk.Pairwise fun b c => b.nr < c.nr
  eventSorted : s.ebrk.Pairwise fun b c => b.nr < c.nr
  alone : s.fbrk.Pairwise fun b c => (mems rom).validAddress b.addr → c.addr ≠ b.addr
  flags : ∀ a, (mems rom).validAddress a → ((s.mems rom).getFetchBrk a = true ↔ ∃ b ∈ s.fbrk, b.addr = a)
  events : ∀ b ∈ s.ebrk, b.event.kind ≠ .fetch
  operators : ∀ m a, (mems m).validAddress a →
    ((s.mems m).cellAt a).operators = ((mems m).cellAt a).operators ++ hooks (mems m) m a s.ebrk
  wiring : ∀ m, AddressSpace.SameWiring (mems m) (s.mems m)

end Breaks

/-! ## What the memory sees -/

namespace AddressSpace

/-- An event breakpoint leaves the fetch flags alone. -/
theorem modifyCell_getFetchBrk (sp : AddressSpace Hw) (a b : Int) {f : SpaceCell Hw → SpaceCell Hw}
    (hf : ∀ c, (f c).fetchBrk = c.fetchBrk) : (sp.modifyCell a f).getFetchBrk b = sp.getFetchBrk b := by
  rw [modifyCell]
  split
  · show (if sp.validAddress b then (Function.update sp.cells _ _ b).fetchBrk else false) = _
    by_cases hb : b = a - sp.startAddress
    · rw [hb, Function.update_self, hf]
      rfl
    · rw [Function.update_of_ne hb]
      rfl
  · rfl

theorem setBrk_getFetchBrk (sp : AddressSpace Hw) (a b : Int) {brk : Brk} (h : brk.event.kind ≠ .fetch) :
    (sp.setBrk a brk).getFetchBrk b = sp.getFetchBrk b := by
  rw [setBrk]
  cases hkind : brk.event.kind with
  | write => exact modifyCell_getFetchBrk sp a b fun _ => rfl
  | read => exact modifyCell_getFetchBrk sp a b fun _ => rfl
  | fetch => exact absurd hkind h
  | other => rfl

theorem delBrk_getFetchBrk (sp : AddressSpace Hw) (a b : Int) {brk : Brk} (h : brk.event.kind ≠ .fetch) :
    (sp.delBrk a brk).getFetchBrk b = sp.getFetchBrk b := by
  rw [delBrk]
  cases hkind : brk.event.kind with
  | write => exact modifyCell_getFetchBrk sp a b fun _ => rfl
  | read => exact modifyCell_getFetchBrk sp a b fun _ => rfl
  | fetch => exact absurd hkind h
  | other => rfl

theorem setFetchBrk_operators (sp : AddressSpace Hw) (a b : Int) (setTo : Bool) :
    ((sp.setFetchBrk a setTo).cellAt b).operators = (sp.cellAt b).operators := by
  obtain ⟨flag, hflag⟩ := setFetchBrk_cellAt sp a b setTo
  rw [hflag]

end AddressSpace

namespace EvBrk

theorem eventOf_kind (op : Char) : (eventOf op).kind ≠ .fetch := by
  rw [eventOf]
  split
  · simp [BrkEvent.kind]
  · split <;> simp [BrkEvent.kind]

/-- The operators of a breakpoint are known by its number. -/
theorem matchBrk_operators {sp : AddressSpace Hw} {b c : EvBrk ι} {o : Operator Int DataPtr Hw}
    (ho : o ∈ b.operators sp) (h : o.kind.matchBrk c.brk = true) : b.nr = c.nr := by
  obtain ⟨kind, hkind, rfl⟩ := List.mem_map.mp ho
  have hown := AddressSpace.matchBrk_of_brkOperator (Option.mem_toList.mp hkind)
  exact congrArg Brk.nr (AddressSpace.eq_of_matchBrk hown h)

/-- `set_brk` hangs the operator on the cell. -/
theorem setBrk_operators {sp₀ sp : AddressSpace Hw} (h : AddressSpace.SameWiring sp₀ sp) (b : EvBrk ι) {a : Int}
    (ha : sp₀.validAddress a) : ((sp.setBrk b.addr b.brk).cellAt a).operators =
      (sp.cellAt a).operators ++ if b.addr = a then b.operators sp₀ else [] := by
  rw [AddressSpace.setBrk_operators]
  by_cases haddr : b.addr = a
  · subst haddr
    rw [if_pos ⟨rfl, (h.validAddress_iff _).mpr ha⟩, if_pos rfl, operators, h.startAddress, h.data, h.mask]
  · rw [if_neg (fun hab => haddr hab.1.symm), if_neg haddr, List.append_nil]

end EvBrk

namespace Breaks

variable [DecidableEq ι] {mems : ι → AddressSpace Hw} {rom : ι} {s : Breaks ι Hw}

theorem hooks_append (sp : AddressSpace Hw) (m : ι) (a : Int) (l₁ l₂ : List (EvBrk ι)) :
    hooks sp m a (l₁ ++ l₂) = hooks sp m a l₁ ++ hooks sp m a l₂ :=
  List.flatMap_append

theorem hooks_cons (sp : AddressSpace Hw) (m : ι) (a : Int) (b : EvBrk ι) (l : List (EvBrk ι)) :
    hooks sp m a (b :: l) = (if b.mem = m ∧ b.addr = a then b.operators sp else []) ++ hooks sp m a l :=
  List.flatMap_cons

/-- The operators of other breakpoints do not match. -/
theorem not_matchBrk_hooks {sp : AddressSpace Hw} {m : ι} {a : Int} {l : List (EvBrk ι)} {b : EvBrk ι}
    (hne : ∀ c ∈ l, c.nr ≠ b.nr) : ∀ o ∈ hooks sp m a l, ¬ o.kind.matchBrk b.brk = true := by
  intro o ho hmatch
  obtain ⟨c, hc, hoc⟩ := List.mem_flatMap.mp ho
  split at hoc
  · exact hne c hc (EvBrk.matchBrk_operators hoc hmatch)
  · cases hoc

/-- `del_brk` takes the operators of the breakpoint off the cell, wherever they are. -/
theorem eraseP_hooks {sp : AddressSpace Hw} {a : Int} {l₁ l₂ : List (EvBrk ι)} {b : EvBrk ι}
    {os : List (Operator Int DataPtr Hw)} (hos : ∀ o ∈ os, o.kind.isHw = true) (hne : ∀ c ∈ l₁, c.nr ≠ b.nr)
    (hbrk : (@AddressSpace.brkOperator Hw b.brk).isSome) (ha : b.addr = a) :
    (os ++ hooks sp b.mem a (l₁ ++ b :: l₂)).eraseP (·.kind.matchBrk b.brk) = os ++ hooks sp b.mem a (l₁ ++ l₂) := by
  have hkeep : ∀ o ∈ os, ¬ o.kind.matchBrk b.brk = true := by
    intro o ho hmatch
    have hbreak := AddressSpace.isHw_of_matchBrk hmatch
    rw [hos o ho] at hbreak
    cases hbreak
  obtain ⟨kind, hkind⟩ := Option.isSome_iff_exists.mp hbrk
  have hown := AddressSpace.matchBrk_of_brkOperator hkind
  rw [List.eraseP_append_right _ hkeep, hooks_append, hooks_append,
    List.eraseP_append_right _ (not_matchBrk_hooks hne), hooks_cons, if_pos ⟨rfl, ha⟩, EvBrk.operators, hkind]
  simp [hown]

/-! ## New breakpoints -/

/-- The first breakpoint gets number 1, and no breakpoint in use has a new number. -/
theorem Sound.lt_new (h : Sound mems rom s) : ∀ nr ∈ s.numbers, nr < s.make_new_brknr := by
  intro nr hnr
  have hrange := h.numbered nr hnr
  have hused : ¬ (s.fbrk = [] ∧ s.ebrk.isEmpty = true) := by
    rintro ⟨hfetch, hevent⟩
    rw [numbers, hfetch, List.isEmpty_iff.mp hevent] at hnr
    cases hnr
  have hcounter : s.brk_counter ≠ 0 := by omega
  show nr < if s.brk_counter = 0 then 1 else if s.fbrk = [] ∧ s.ebrk.isEmpty = true then 1 else s.brk_counter + 1
  rw [if_neg hcounter, if_neg hused]
  omega

omit [DecidableEq ι] in
theorem make_new_brknr_pos (s : Breaks ι Hw) : 0 < s.make_new_brknr := FetchBrks.make_new_brknr_pos _ _

/-- A list with a new number stays sorted by the numbers. -/
theorem sorted_append {α : Type} {key : α → Nat} {l : List α} {b : α} (h : l.Pairwise fun c d => key c < key d)
    (hnew : ∀ c ∈ l, key c < key b) : (l ++ [b]).Pairwise fun c d => key c < key d := by
  rw [List.pairwise_append]
  refine ⟨h, List.pairwise_singleton _ _, fun c hc d hd => ?_⟩
  rw [List.mem_singleton.mp hd]
  exact hnew c hc

theorem Sound.addFetch_eq (h : Sound mems rom s) (addr : Int) (perm : BrkPerm) (hit : Int) :
    s.addFetch addr perm hit =
      { s with
        mems := Function.update s.mems s.rom ((s.mems s.rom).setFetchBrk addr true)
        fbrk := s.fbrk ++ [{ nr := s.make_new_brknr, addr := addr, perm := perm, hit := hit, cnt := hit }]
        brk_counter := s.make_new_brknr } := by
  let bp : FetchBrk := { nr := s.make_new_brknr, addr := addr, perm := perm, hit := hit, cnt := hit }
  have hitems : (s.fetchBrks.add_bp bp).items = s.fbrk ++ [bp] :=
    FetchBrks.add_bp_items fun b hb => h.lt_new _ (List.mem_append_left _ (List.mem_map_of_mem hb))
  rw [addFetch, withFetch]
  dsimp only
  rw [hitems]
  rfl

/-- A fetch breakpoint at an address without one. -/
theorem Sound.addFetch (h : Sound mems rom s) {addr : Int} (perm : BrkPerm) (hit : Int)
    (hfree : (mems rom).validAddress addr → ∀ b ∈ s.fbrk, b.addr ≠ addr) :
    Sound mems rom (s.addFetch addr perm hit) := by
  have hlt := h.lt_new
  have hpos := s.make_new_brknr_pos
  rw [h.addFetch_eq]
  have hnumbers : ∀ nr, nr ∈ s.fbrk.map (·.nr) ++ [s.make_new_brknr] ++ s.ebrk.map (·.nr) ↔
      nr = s.make_new_brknr ∨ nr ∈ s.numbers := by
    intro nr
    simp only [numbers, List.mem_append, List.mem_singleton]
    tauto
  have hspace := h.space
  have hmems : ∀ m, Function.update s.mems s.rom ((s.mems s.rom).setFetchBrk addr true) m =
      if m = rom then (s.mems rom).setFetchBrk addr true else s.mems m := by
    intro m
    rw [← hspace, Function.update_apply]
  refine ⟨hspace, ?_, ?_, ?_, h.eventSorted, ?_, ?_, h.events, ?_, ?_⟩
  · intro nr hnr
    simp only [numbers, List.map_append, List.map_cons, List.map_nil, hnumbers] at hnr
    dsimp only
    rcases hnr with rfl | hnr
    · exact ⟨hpos, Nat.le_refl _⟩
    · exact ⟨(h.numbered nr hnr).1, (hlt nr hnr).le⟩
  · simp only [numbers, List.map_append, List.map_cons, List.map_nil]
    rw [List.append_assoc, List.singleton_append, List.nodup_middle]
    exact List.nodup_cons.mpr ⟨fun hmem => Nat.lt_irrefl _ (hlt _ hmem), h.distinct⟩
  · exact sorted_append h.fetchSorted fun c hc => hlt _ (List.mem_append_left _ (List.mem_map_of_mem hc))
  · rw [List.pairwise_append]
    refine ⟨h.alone, List.pairwise_singleton _ _, fun c hc d hd hv heq => ?_⟩
    rw [List.mem_singleton.mp hd] at heq
    dsimp only at heq
    exact hfree (heq ▸ hv) c hc heq.symm
  · intro a ha
    dsimp only
    rw [hmems, if_pos rfl, AddressSpace.getFetchBrk_setFetchBrk]
    simp only [List.mem_append, List.mem_singleton]
    by_cases heq : a = addr
    · subst heq
      rw [if_pos ⟨rfl, ((h.wiring rom).validAddress_iff a).mpr ha⟩]
      exact iff_of_true rfl ⟨_, .inr rfl, rfl⟩
    · rw [if_neg (fun hand => heq hand.1), h.flags a ha]
      constructor
      · exact fun ⟨b, hb, hba⟩ => ⟨b, .inl hb, hba⟩
      · rintro ⟨b, hb | rfl, hba⟩
        · exact ⟨b, hb, hba⟩
        · exact absurd hba.symm heq
  · intro m a ha
    dsimp only
    rw [hmems, ← h.operators m a ha]
    split
    · next hm => rw [AddressSpace.setFetchBrk_operators, hm]
    · rfl
  · intro m
    dsimp only
    rw [hmems]
    split
    · next hm => exact hm ▸ (h.wiring rom).trans (AddressSpace.setFetchBrk_sameWiring _ _ _)
    · exact h.wiring m

theorem Sound.do_event_eq (h : Sound mems rom s) (mem : ι) (op : Char) (addr hit : Int) (perm : BrkPerm) :
    ∃ b : EvBrk ι, b.nr = s.make_new_brknr ∧ b.mem = mem ∧ b.event.kind ≠ .fetch ∧
      s.do_event mem op addr hit perm =
        { s with
          mems := Function.update s.mems b.mem ((s.mems b.mem).setBrk b.addr b.brk)
          ebrk := s.ebrk ++ [b]
          brk_counter := s.make_new_brknr } := by
  refine ⟨{ mem := mem, nr := s.make_new_brknr, addr := addr, perm := perm, hit := hit, cnt := hit,
            event := EvBrk.eventOf op }, rfl, rfl, EvBrk.eventOf_kind op, ?_⟩
  rw [do_event]
  dsimp only
  rw [SortedList.add_of_neg]
  intro i hi
  have hlt := h.lt_new _ (List.mem_append_right _ (List.mem_map_of_mem (List.getElem_mem hi)))
  rw [List.getElem?_eq_getElem hi]
  show FetchBrks.compare (s.ebrk[i]).nr s.make_new_brknr < 0
  rw [FetchBrks.compare, if_neg hlt.ne, if_pos hlt]
  decide

/-- An event breakpoint, also at an address that has some. -/
theorem Sound.do_event (h : Sound mems rom s) (mem : ι) (op : Char) (addr hit : Int) (perm : BrkPerm) :
    Sound mems rom (s.do_event mem op addr hit perm) := by
  obtain ⟨b, hnr, -, hkind, heq⟩ := h.do_event_eq mem op addr hit perm
  have hlt := h.lt_new
  have hpos := s.make_new_brknr_pos
  rw [heq]
  rw [← hnr] at hlt hpos ⊢
  have hmems : ∀ m, Function.update s.mems b.mem ((s.mems b.mem).setBrk b.addr b.brk) m =
      if b.mem = m then (s.mems m).setBrk b.addr b.brk else s.mems m := by
    intro m
    by_cases hm : b.mem = m
    · rw [if_pos hm, ← hm, Function.update_self]
    · rw [if_neg hm, Function.update_of_ne (Ne.symm hm)]
  refine ⟨h.space, ?_, ?_, h.fetchSorted, ?_, h.alone, ?_, ?_, ?_, ?_⟩
  · intro nr hnr'
    simp only [numbers, List.map_append, List.map_cons, List.map_nil, ← List.append_assoc, List.mem_append,
      List.mem_singleton] at hnr'
    dsimp only
    rcases hnr' with hold | rfl
    · exact ⟨(h.numbered nr (List.mem_append.mpr hold)).1, (hlt nr (List.mem_append.mpr hold)).le⟩
    · exact ⟨hpos, Nat.le_refl _⟩
  · simp only [numbers, List.map_append, List.map_cons, List.map_nil]
    rw [← List.append_assoc, List.nodup_append_comm]
    exact List.nodup_cons.mpr ⟨fun hmem => Nat.lt_irrefl _ (hlt _ hmem), h.distinct⟩
  · exact sorted_append h.eventSorted fun c hc => hlt _ (List.mem_append_right _ (List.mem_map_of_mem hc))
  · intro a ha
    dsimp only
    rw [hmems, ← h.flags a ha]
    split
    · rw [AddressSpace.setBrk_getFetchBrk _ _ _ hkind]
    · rfl
  · intro c hc
    rcases List.mem_append.mp hc with hc | hc
    · exact h.events c hc
    · rw [List.mem_singleton.mp hc]
      exact hkind
  · intro m a ha
    dsimp only
    rw [hmems, hooks_append, ← List.append_assoc, ← h.operators m a ha, hooks_cons]
    by_cases hm : b.mem = m
    · rw [if_pos hm, EvBrk.setBrk_operators (h.wiring m) b ha]
      simp [hm, hooks]
    · simp [hm, hooks]
  · intro m
    dsimp only
    rw [hmems]
    split
    · exact (h.wiring m).trans (AddressSpace.setBrk_sameWiring _ _ _)
    · exact h.wiring m

/-! ## Fewer breakpoints -/

/-- Where a fetch breakpoint is, no other one is. -/
theorem Sound.split (h : Sound mems rom s) {b : FetchBrk} (hb : b ∈ s.fbrk) (hv : (mems rom).validAddress b.addr) :
    ∃ l₁ l₂, s.fbrk = l₁ ++ b :: l₂ ∧ (∀ c ∈ l₁, c.addr ≠ b.addr) ∧ ∀ c ∈ l₂, c.addr ≠ b.addr := by
  obtain ⟨l₁, l₂, hl⟩ := List.append_of_mem hb
  have halone := h.alone
  rw [hl, List.pairwise_append, List.pairwise_cons] at halone
  refine ⟨l₁, l₂, hl, fun c hc heq => ?_, fun c hc => halone.2.1.1 c hc hv⟩
  exact halone.2.2 c hc b List.mem_cons_self (heq ▸ hv) heq.symm

theorem Sound.valid_iff (h : Sound mems rom s) (a : Int) :
    s.fetchBrks.rom.validAddress a ↔ (mems rom).validAddress a := by
  show (s.mems s.rom).validAddress a ↔ _
  rw [h.space]
  exact (h.wiring rom).validAddress_iff a

theorem Sound.flag_iff (h : Sound mems rom s) {a : Int} (ha : (mems rom).validAddress a) :
    s.fetchBrks.rom.getFetchBrk a = true ↔ ∃ b ∈ s.fbrk, b.addr = a := by
  show (s.mems s.rom).getFetchBrk a = true ↔ _
  rw [h.space]
  exact h.flags a ha

/-- The breakpoint at an address is found. -/
theorem Sound.get_bp_eq (h : Sound mems rom s) {l₁ l₂ : List FetchBrk} {b : FetchBrk} (hl : s.fbrk = l₁ ++ b :: l₂)
    (hbefore : ∀ c ∈ l₁, c.addr ≠ b.addr) (hv : (mems rom).validAddress b.addr) :
    s.fetchBrks.get_bp b.addr = some (l₁.length, b) := by
  have hb : b ∈ s.fbrk := by
    rw [hl]
    exact List.mem_append_right _ List.mem_cons_self
  exact FetchBrks.get_bp_first ((h.valid_iff _).mpr hv) ((h.flag_iff hv).mpr ⟨b, hb, rfl⟩) hl hbefore rfl

/-- No breakpoint is found where none is, or where there is no memory. -/
theorem Sound.get_bp_none (h : Sound mems rom s) {a : Int}
    (hnone : (mems rom).validAddress a → ∀ b ∈ s.fbrk, b.addr ≠ a) : s.fetchBrks.get_bp a = none := by
  rw [FetchBrks.get_bp, if_neg]
  rintro ⟨hv, hflag⟩
  have ha := (h.valid_iff a).mp hv
  obtain ⟨b, hb, hba⟩ := (h.flag_iff ha).mp hflag
  exact hnone ha b hb hba

theorem Sound.bp_at_iff (h : Sound mems rom s) (a : Int) :
    s.bp_at a = true ↔ (mems rom).validAddress a ∧ ∃ b ∈ s.fbrk, b.addr = a := by
  rw [bp_at, Bool.and_eq_true, decide_eq_true_eq]
  have hvalid : (s.mems s.rom).validAddress a ↔ (mems rom).validAddress a := h.valid_iff a
  rw [hvalid]
  exact and_congr_right fun ha => h.flag_iff ha

theorem Sound.fbrk_at_iff (h : Sound mems rom s) (a : Int) :
    (s.fbrk_at a).isSome = true ↔ (mems rom).validAddress a ∧ ∃ b ∈ s.fbrk, b.addr = a := by
  rw [fbrk_at, Option.isSome_map]
  constructor
  · intro hsome
    by_contra hnot
    have hnone : s.fetchBrks.get_bp a = none := h.get_bp_none fun ha b hb hba => hnot ⟨ha, b, hb, hba⟩
    rw [hnone] at hsome
    cases hsome
  · rintro ⟨ha, b, hb, rfl⟩
    obtain ⟨l₁, l₂, hl, hbefore, -⟩ := h.split hb ha
    rw [h.get_bp_eq hl hbefore ha]
    rfl

theorem withFetch_fetchBrks (s : Breaks ι Hw) : s.withFetch s.fetchBrks = s := by
  rw [withFetch, fetchBrks]
  dsimp only
  rw [Function.update_eq_self]

/-- Other counts, fewer fetch breakpoints, and the flags of those that are left. -/
theorem Sound.withFetch (h : Sound mems rom s) {f : FetchBrks Hw}
    (hitems : (f.items.map fun b => (b.nr, b.addr)).Sublist (s.fbrk.map fun b => (b.nr, b.addr)))
    (hcounter : f.brk_counter = s.brk_counter) (hwiring : AddressSpace.SameWiring (s.mems rom) f.rom)
    (hops : ∀ a, (f.rom.cellAt a).operators = ((s.mems rom).cellAt a).operators)
    (hflags : ∀ a, (mems rom).validAddress a → (f.rom.getFetchBrk a = true ↔ ∃ b ∈ f.items, b.addr = a)) :
    Sound mems rom (s.withFetch f) := by
  have hspace := h.space
  have hnumbers : (s.withFetch f).numbers.Sublist s.numbers := by
    have hnr := hitems.map Prod.fst
    rw [List.map_map, List.map_map] at hnr
    exact hnr.append_right _
  have hmems : ∀ m, (s.withFetch f).mems m = if m = rom then f.rom else s.mems m := by
    intro m
    rw [← hspace]
    exact Function.update_apply _ _ _ _
  have hpairs {R : Nat × Int → Nat × Int → Prop} (hR : s.fbrk.Pairwise fun b c => R (b.nr, b.addr) (c.nr, c.addr)) :
      f.items.Pairwise fun b c => R (b.nr, b.addr) (c.nr, c.addr) := by
    rw [← List.pairwise_map (f := fun b : FetchBrk => (b.nr, b.addr))] at hR ⊢
    exact hR.sublist hitems
  refine ⟨hspace, fun nr hnr => ?_, h.distinct.sublist hnumbers, ?_, h.eventSorted, ?_, fun a ha => ?_, h.events,
    fun m a ha => ?_, fun m => ?_⟩
  · show 0 < nr ∧ nr ≤ f.brk_counter
    rw [hcounter]
    exact h.numbered nr (hnumbers.subset hnr)
  · exact @hpairs (fun b c => b.1 < c.1) h.fetchSorted
  · exact @hpairs (fun b c => (mems rom).validAddress b.2 → c.2 ≠ b.2) h.alone
  · rw [hmems, if_pos rfl]
    exact hflags a ha
  · show _ = _ ++ hooks (mems m) m a s.ebrk
    rw [hmems, ← h.operators m a ha]
    split
    · next hm => rw [hops, hm]
    · rfl
  · rw [hmems]
    split
    · next hm => exact hm ▸ (h.wiring rom).trans hwiring
    · exact h.wiring m

/-- Without the breakpoint at an address, the flag there is reset. -/
theorem Sound.removed (h : Sound mems rom s) {l₁ l₂ : List FetchBrk} {b : FetchBrk} (hl : s.fbrk = l₁ ++ b :: l₂)
    (hfirst : ∀ c ∈ l₁, c.addr ≠ b.addr) (hlast : ∀ c ∈ l₂, c.addr ≠ b.addr) :
    Sound mems rom (s.withFetch
      { s.fetchBrks with rom := s.fetchBrks.rom.setFetchBrk b.addr false, items := l₁ ++ l₂ }) := by
  have hrom : s.fetchBrks.rom = s.mems rom := congrArg s.mems h.space
  refine h.withFetch ?_ rfl ?_ (fun a => ?_) (fun a ha => ?_)
  · rw [hl]
    exact ((List.sublist_cons_self b l₂).append_left l₁).map _
  · rw [hrom]
    exact AddressSpace.setFetchBrk_sameWiring _ _ _
  · rw [hrom]
    exact AddressSpace.setFetchBrk_operators _ _ _ _
  · dsimp only
    rw [AddressSpace.getFetchBrk_setFetchBrk]
    by_cases heq : a = b.addr
    · subst heq
      rw [if_pos ⟨rfl, (h.valid_iff _).mpr ha⟩]
      refine iff_of_false Bool.false_ne_true ?_
      rintro ⟨c, hc, hca⟩
      rcases List.mem_append.mp hc with hc | hc
      · exact hfirst c hc hca
      · exact hlast c hc hca
    · rw [if_neg (fun hand => heq hand.1), h.flag_iff ha, hl]
      constructor
      · rintro ⟨c, hc, hca⟩
        rcases List.mem_append.mp hc with hc | hc
        · exact ⟨c, List.mem_append_left _ hc, hca⟩
        · rcases List.mem_cons.mp hc with rfl | hc
          · exact absurd hca.symm heq
          · exact ⟨c, List.mem_append_right _ hc, hca⟩
      · rintro ⟨c, hc, hca⟩
        refine ⟨c, ?_, hca⟩
        rcases List.mem_append.mp hc with hc | hc
        · exact List.mem_append_left _ hc
        · exact List.mem_append_right _ (List.mem_cons_of_mem _ hc)

theorem Sound.del_fetch_eq (h : Sound mems rom s) {l₁ l₂ : List FetchBrk} {b : FetchBrk} (hl : s.fbrk = l₁ ++ b :: l₂)
    (hbefore : ∀ c ∈ l₁, c.addr ≠ b.addr) (hv : (mems rom).validAddress b.addr) :
    s.del_fetch b.addr = s.withFetch
      { s.fetchBrks with rom := s.fetchBrks.rom.setFetchBrk b.addr false, items := l₁ ++ l₂ } := by
  rw [del_fetch, FetchBrks.del_bp, h.get_bp_eq hl hbefore hv]
  dsimp only
  rw [FetchBrks.del_bp_at_append hl]
  rfl

theorem Sound.del_fetch_none (h : Sound mems rom s) {a : Int}
    (hnone : (mems rom).validAddress a → ∀ b ∈ s.fbrk, b.addr ≠ a) : s.del_fetch a = s := by
  rw [del_fetch, FetchBrks.del_bp, h.get_bp_none hnone]
  exact withFetch_fetchBrks s

omit [DecidableEq ι] in
theorem filter_others {l : List FetchBrk} {b : FetchBrk} (hne : ∀ c ∈ l, c.addr ≠ b.addr) :
    l.filter (fun c => ¬ (c.addr = b.addr ∧ (mems rom).validAddress b.addr)) = l :=
  List.filter_eq_self.mpr fun c hc => decide_eq_true fun hand => hne c hc hand.1

/-- A fetch breakpoint is deleted by its address, if there is such an address. -/
theorem Sound.del_fetch (h : Sound mems rom s) (a : Int) :
    Sound mems rom (s.del_fetch a) ∧
      (s.del_fetch a).fbrk = s.fbrk.filter (fun b => ¬ (b.addr = a ∧ (mems rom).validAddress a)) ∧
      (s.del_fetch a).ebrk = s.ebrk := by
  by_cases hex : (mems rom).validAddress a ∧ ∃ b ∈ s.fbrk, b.addr = a
  · obtain ⟨ha, b, hb, rfl⟩ := hex
    obtain ⟨l₁, l₂, hl, hfirst, hlast⟩ := h.split hb ha
    rw [h.del_fetch_eq hl hfirst ha]
    refine ⟨h.removed hl hfirst hlast, ?_, rfl⟩
    show l₁ ++ l₂ = _
    rw [hl, List.filter_append, List.filter_cons_of_neg (by simpa using ha), filter_others hfirst, filter_others hlast]
  · rw [h.del_fetch_none fun ha b hb hba => hex ⟨ha, b, hb, hba⟩]
    refine ⟨h, (List.filter_eq_self.mpr fun b hb => ?_).symm, rfl⟩
    exact decide_eq_true fun hand => hex ⟨hand.2, b, hb, hand.1⟩

/-! ## Event breakpoints by their indices and numbers -/

theorem compare_neg_iff (k1 k2 : Nat) : FetchBrks.compare k1 k2 < 0 ↔ k1 < k2 := by
  rw [FetchBrks.compare]
  split
  · omega
  · split <;> omega

theorem compare_pos_iff (k1 k2 : Nat) : 0 < FetchBrks.compare k1 k2 ↔ k2 < k1 := by
  rw [FetchBrks.compare]
  split
  · omega
  · split <;> omega

/-- The binary search finds the breakpoint itself. -/
theorem Sound.index_of_eq (h : Sound mems rom s) {l₁ l₂ : List (EvBrk ι)} {b : EvBrk ι} (hl : s.ebrk = l₁ ++ b :: l₂) :
    s.index_of b = l₁.length := by
  have hsorted := h.eventSorted
  have hcmp {i : Nat} (hi : i < s.ebrk.length) :
      FetchBrks.compare ((s.ebrk[i]?).elim 0 (·.nr)) b.nr = FetchBrks.compare (s.ebrk[i]).nr b.nr := by
    rw [List.getElem?_eq_getElem hi]
    rfl
  have hmono {i j : Nat} (hij : i < j) (hj : j < s.ebrk.length) : (s.ebrk[i]).nr < (s.ebrk[j]).nr :=
    List.pairwise_iff_getElem.mp hsorted i j (hij.trans hj) hj hij
  have hle {i j : Nat} (hij : i ≤ j) (hj : j < s.ebrk.length) : (s.ebrk[i]).nr ≤ (s.ebrk[j]).nr := by
    rcases Nat.eq_or_lt_of_le hij with rfl | hlt
    · exact Nat.le_refl _
    · exact (hmono hlt hj).le
  have horder : SortedList.InOrder (fun i => FetchBrks.compare ((s.ebrk[i]?).elim 0 (·.nr)) b.nr) s.ebrk.length := by
    constructor
    · intro i j hij hj hneg
      rw [hcmp hj, compare_neg_iff] at hneg
      rw [hcmp (hij.trans_lt hj), compare_neg_iff]
      exact (hle hij hj).trans_lt hneg
    · intro i j hij hj hpos
      rw [hcmp (hij.trans_lt hj), compare_pos_iff] at hpos
      rw [hcmp hj, compare_pos_iff]
      exact hpos.trans_le (hle hij hj)
  have hplace : l₁.length < s.ebrk.length := by
    rw [hl, List.length_append, List.length_cons]
    omega
  have hself : s.ebrk[l₁.length] = b := by simp [hl]
  have hfound := SortedList.search_found false horder
  have hzero : FetchBrks.compare ((s.ebrk[l₁.length]?).elim 0 (·.nr)) b.nr = 0 := by
    rw [hcmp hplace, hself, FetchBrks.compare, if_pos rfl]
  obtain ⟨hlt, heq, -⟩ := hfound.found (hfound.fst_iff.mpr ⟨_, hplace, hzero⟩)
  rw [index_of]
  generalize (SortedList.search s.ebrk.length
    (fun i => FetchBrks.compare ((s.ebrk[i]?).elim 0 (·.nr)) b.nr) false).2 = i at hlt heq
  -- Both places have the number of `b`.
  rw [hcmp hlt] at heq
  have hneg := compare_neg_iff (s.ebrk[i]).nr b.nr
  have hpos := compare_pos_iff (s.ebrk[i]).nr b.nr
  rcases Nat.lt_trichotomy i l₁.length with hi | hi | hi
  · have hnr := hmono hi hplace
    rw [hself] at hnr
    omega
  · exact hi
  · have hnr := hmono hi hlt
    rw [hself] at hnr
    omega

theorem Sound.del_event (hfresh : Fresh mems rom) (h : Sound mems rom s) {l₁ l₂ : List (EvBrk ι)} {b : EvBrk ι} (hl : s.ebrk = l₁ ++ b :: l₂) :
    Sound mems rom (s.del_event l₁.length) ∧ (s.del_event l₁.length).ebrk = l₁ ++ l₂ ∧
      (s.del_event l₁.length).fbrk = s.fbrk := by
  have hdel : s.del_event l₁.length =
      { s with mems := Function.update s.mems b.mem ((s.mems b.mem).delBrk b.addr b.brk), ebrk := l₁ ++ l₂ } := by
    have hget : s.ebrk[l₁.length]? = some b := by simp [hl]
    have herase : s.ebrk.eraseIdx l₁.length = l₁ ++ l₂ := by
      rw [hl, List.eraseIdx_append_of_length_le (Nat.le_refl _), Nat.sub_self]
      rfl
    rw [Breaks.del_event, hget]
    dsimp only
    rw [herase]
  have hb : b ∈ s.ebrk := by simp [hl]
  have hkind : b.brk.event.kind ≠ .fetch := h.events b hb
  have hsub : (l₁ ++ l₂).Sublist s.ebrk := by
    rw [hl]
    exact (List.sublist_cons_self b l₂).append_left l₁
  have hnumbers : (s.fbrk.map (·.nr) ++ (l₁ ++ l₂).map (·.nr)).Sublist s.numbers := (hsub.map _).append_left _
  have hne : ∀ c ∈ l₁, c.nr ≠ b.nr := by
    have hsorted := h.eventSorted
    rw [hl, List.pairwise_append] at hsorted
    exact fun c hc => (hsorted.2.2 c hc b List.mem_cons_self).ne
  have hmems : ∀ m, Function.update s.mems b.mem ((s.mems b.mem).delBrk b.addr b.brk) m =
      if b.mem = m then (s.mems m).delBrk b.addr b.brk else s.mems m := by
    intro m
    by_cases hm : b.mem = m
    · rw [if_pos hm, ← hm, Function.update_self]
    · rw [if_neg hm, Function.update_of_ne (Ne.symm hm)]
  rw [hdel]
  refine ⟨⟨h.space, fun nr hnr => h.numbered nr (hnumbers.subset hnr), h.distinct.sublist hnumbers, h.fetchSorted,
    h.eventSorted.sublist hsub, h.alone, fun a ha => ?_, fun c hc => h.events c (hsub.subset hc), fun m a ha => ?_,
    fun m => ?_⟩, rfl, rfl⟩
  · dsimp only
    rw [hmems, ← h.flags a ha]
    split
    · rw [AddressSpace.delBrk_getFetchBrk _ _ _ hkind]
    · rfl
  · dsimp only
    rw [hmems]
    have hother (hneq : ¬ (b.mem = m ∧ b.addr = a) ∨ b.operators (mems m) = []) :
        hooks (mems m) m a s.ebrk = hooks (mems m) m a (l₁ ++ l₂) := by
      rw [hl, hooks_append, hooks_append, hooks_cons]
      rcases hneq with hneq | hnil
      · rw [if_neg hneq, List.nil_append]
      · rw [hnil, ite_self, List.nil_append]
    by_cases hm : b.mem = m
    · subst hm
      rw [if_pos rfl, AddressSpace.delBrk_operators, h.operators _ a ha]
      by_cases hcell : a = b.addr ∧ (s.mems b.mem).validAddress b.addr ∧
          (@AddressSpace.brkOperator Hw b.brk).isSome = true
      · rw [if_pos hcell, hl]
        exact eraseP_hooks (hfresh.hw _ _) hne hcell.2.2 hcell.1.symm
      · rw [if_neg hcell, hother]
        by_cases haddr : b.addr = a
        · right
          subst haddr
          have hnone : ¬ (@AddressSpace.brkOperator Hw b.brk).isSome = true := fun hsome =>
            hcell ⟨rfl, ((h.wiring _).validAddress_iff _).mpr ha, hsome⟩
          rw [Option.not_isSome_iff_eq_none] at hnone
          rw [EvBrk.operators, hnone]
          rfl
        · exact .inl fun hand => haddr hand.2
    · rw [if_neg hm, h.operators m a ha, hother (.inl fun hand => hm hand.1)]
  · dsimp only
    rw [hmems]
    split
    · exact (h.wiring m).trans (AddressSpace.delBrk_sameWiring _ _ _)
    · exact h.wiring m

/-- A number belongs to one fetch breakpoint at most. -/
theorem Sound.fetch_nr_inj (h : Sound mems rom s) {b c : FetchBrk} (hb : b ∈ s.fbrk) (hc : c ∈ s.fbrk)
    (hnr : b.nr = c.nr) : b = c :=
  List.inj_on_of_nodup_map (List.Nodup.of_append_left h.distinct) hb hc hnr

theorem Sound.addr_inj (h : Sound mems rom s) {b c : FetchBrk} (hb : b ∈ s.fbrk) (hc : c ∈ s.fbrk)
    (hv : (mems rom).validAddress b.addr) (haddr : c.addr = b.addr) : c = b := by
  obtain ⟨l₁, l₂, hl, hfirst, hlast⟩ := h.split hb hv
  rw [hl] at hc
  rcases List.mem_append.mp hc with hc | hc
  · exact absurd haddr (hfirst c hc)
  · rcases List.mem_cons.mp hc with rfl | hc
    · rfl
    · exact absurd haddr (hlast c hc)

/-- No event breakpoint has the number of a fetch breakpoint. -/
theorem Sound.nr_ne (h : Sound mems rom s) {b : FetchBrk} {c : EvBrk ι} (hb : b ∈ s.fbrk) (hc : c ∈ s.ebrk) :
    c.nr ≠ b.nr := by
  intro hnr
  refine List.disjoint_of_nodup_append h.distinct (List.mem_map_of_mem hb) ?_
  exact hnr ▸ List.mem_map_of_mem hc

/-- What `rm_brk` leaves: the fetch breakpoint with the number stays if its address does not exist. -/
structure Removed (mems : ι → AddressSpace Hw) (rom : ι) (nr : Int) (s : Breaks ι Hw) (r : Bool × Breaks ι Hw) :
    Prop where
  sound : Sound mems rom r.2
  found : r.1 = true ↔ ∃ k ∈ s.numbers, (k : Int) = nr
  fbrk : r.2.fbrk = s.fbrk.filter fun b => ¬ ((b.nr : Int) = nr ∧ (mems rom).validAddress b.addr)
  ebrk : r.2.ebrk = s.ebrk.filter fun b => (b.nr : Int) ≠ nr

theorem Sound.rm_brk (hfresh : Fresh mems rom) (h : Sound mems rom s) (nr : Int) :
    Removed mems rom nr s (s.rm_brk nr) := by
  rw [Breaks.rm_brk]
  cases hfetch : s.fbrk.find? fun b => decide ((b.nr : Int) = nr) with
  | some b =>
    have hb := List.mem_of_find?_eq_some hfetch
    have hnr : (b.nr : Int) = nr := by simpa using List.find?_some hfetch
    obtain ⟨hsound, hfbrk, hebrk⟩ := h.del_fetch b.addr
    refine ⟨hsound, iff_of_true rfl ⟨b.nr, List.mem_append_left _ (List.mem_map_of_mem hb), hnr⟩, ?_, ?_⟩
    · rw [hfbrk]
      refine List.filter_congr fun c hc => ?_
      -- The number and the address tell the same breakpoint.
      refine decide_eq_decide.mpr (not_congr ?_)
      constructor
      · rintro ⟨haddr, hv⟩
        rw [h.addr_inj hb hc hv haddr]
        exact ⟨hnr, hv⟩
      · rintro ⟨hcnr, hv⟩
        have heq := h.fetch_nr_inj hc hb (by omega)
        subst heq
        exact ⟨rfl, hv⟩
    · rw [hebrk]
      refine (List.filter_eq_self.mpr fun c hc => decide_eq_true ?_).symm
      have hne := h.nr_ne hb hc
      omega
  | none =>
    have hnone : ∀ b ∈ s.fbrk, ¬ (b.nr : Int) = nr := by simpa using hfetch
    have hfbrk : s.fbrk = s.fbrk.filter fun b => ¬ ((b.nr : Int) = nr ∧ (mems rom).validAddress b.addr) := by
      refine (List.filter_eq_self.mpr fun b hb => ?_).symm
      exact decide_eq_true (p := ¬ _) fun hand => hnone b hb hand.1
    dsimp only
    cases hevent : s.ebrk.find? fun b => decide ((b.nr : Int) = nr) with
    | some b =>
      have hb := List.mem_of_find?_eq_some hevent
      have hnr : (b.nr : Int) = nr := by simpa using List.find?_some hevent
      obtain ⟨l₁, l₂, hl⟩ := List.append_of_mem hb
      have hsorted := h.eventSorted
      rw [hl, List.pairwise_append, List.pairwise_cons] at hsorted
      obtain ⟨hsound, hebrk, hfetchs⟩ := h.del_event hfresh hl
      dsimp only
      rw [h.index_of_eq hl]
      refine ⟨hsound, iff_of_true rfl ⟨b.nr, List.mem_append_right _ (List.mem_map_of_mem hb), hnr⟩, ?_, ?_⟩
      · rw [hfetchs]
        exact hfbrk
      · rw [hebrk, hl, List.filter_append, List.filter_cons_of_neg (by simpa using hnr)]
        refine (congrArg₂ _ (List.filter_eq_self.mpr fun c hc => ?_) (List.filter_eq_self.mpr fun c hc => ?_)).symm
        · have hlt := hsorted.2.2 c hc b List.mem_cons_self
          exact decide_eq_true (by omega)
        · have hlt := hsorted.2.1.1 c hc
          exact decide_eq_true (by omega)
    | none =>
      have hnone' : ∀ b ∈ s.ebrk, ¬ (b.nr : Int) = nr := by simpa using hevent
      refine ⟨h, iff_of_false Bool.false_ne_true ?_, hfbrk, ?_⟩
      · rintro ⟨k, hk, hknr⟩
        rcases List.mem_append.mp hk with hk | hk
        · obtain ⟨b, hb, rfl⟩ := List.mem_map.mp hk
          exact hnone b hb hknr
        · obtain ⟨b, hb, rfl⟩ := List.mem_map.mp hk
          exact hnone' b hb hknr
      · exact (List.filter_eq_self.mpr fun b hb => decide_eq_true (hnone' b hb)).symm

/-! ## The loops of `delete` and `clear` -/

theorem Sound.delete (hfresh : Fresh mems rom) (params : List (Option Int)) :
    ∀ {s : Breaks ι Hw}, Sound mems rom s → Sound mems rom (s.delete params) := by
  induction params with
  | nil => exact fun h => h
  | cons param params ih =>
    intro s h
    refine ih (s := param.elim s fun nr => (s.rm_brk nr).2) ?_
    cases param with
    | none => exact h
    | some nr => exact (h.rm_brk hfresh nr).sound

theorem Sound.clear (params : List (Option Int)) :
    ∀ {s : Breaks ι Hw}, Sound mems rom s → Sound mems rom (Breaks.clear params s) := by
  induction params with
  | nil => exact fun h => h
  | cons param params ih =>
    intro s h
    cases param with
    | none => exact h
    | some addr =>
      refine ih (s := if s.bp_at addr then s.del_fetch addr else s) ?_
      split
      · exact (h.del_fetch addr).1
      · exact h

/-- The first loop ends if each breakpoint has an address that exists. -/
theorem Sound.remove_fetch_ends : ∀ (n : Nat) {s : Breaks ι Hw}, Sound mems rom s → s.fbrk.length ≤ n →
    (∀ b ∈ s.fbrk, (mems rom).validAddress b.addr) → ∃ t, s.remove_fetch (n + 1) = some t := by
  intro n
  induction n with
  | zero =>
    intro s h hlen hv
    rw [remove_fetch, List.eq_nil_of_length_eq_zero (Nat.le_zero.mp hlen)]
    exact ⟨s, rfl⟩
  | succ n ih =>
    intro s h hlen hv
    rw [remove_fetch]
    cases hl : s.fbrk with
    | nil => exact ⟨s, rfl⟩
    | cons b rest =>
      obtain ⟨hsound, hfbrk, -⟩ := h.del_fetch b.addr
      have hb : b ∈ s.fbrk := hl ▸ List.mem_cons_self
      refine ih hsound ?_ fun c hc => hv c ?_
      · rw [hfbrk, hl, List.filter_cons_of_neg (by simpa using hv b hb)]
        rw [hl, List.length_cons] at hlen
        exact (List.length_filter_le _ _).trans (by omega)
      · rw [hfbrk] at hc
        exact List.mem_of_mem_filter hc

/-- When the first loop has ended, each breakpoint had an address that exists, and no fetch breakpoint is left. -/
theorem Sound.remove_fetch_some (fuel : Nat) : ∀ {s t : Breaks ι Hw}, Sound mems rom s → s.remove_fetch fuel = some t →
    (∀ b ∈ s.fbrk, (mems rom).validAddress b.addr) ∧ Sound mems rom t ∧ t.fbrk = [] ∧ t.ebrk = s.ebrk := by
  induction fuel with
  | zero =>
    intro s t h hrun
    cases hrun
  | succ fuel ih =>
    intro s t h hrun
    rw [remove_fetch] at hrun
    cases hl : s.fbrk with
    | nil =>
      rw [hl] at hrun
      cases hrun
      exact ⟨List.forall_mem_nil _, h, hl, rfl⟩
    | cons b rest =>
      rw [hl] at hrun
      obtain ⟨hsound, hfbrk, hebrk⟩ := h.del_fetch b.addr
      obtain ⟨hv, ht, hnil, hevents⟩ := ih hsound hrun
      refine ⟨fun c hc => ?_, ht, hnil, hevents.trans hebrk⟩
      by_cases hcb : c.addr = b.addr ∧ (mems rom).validAddress b.addr
      · rw [hcb.1]
        exact hcb.2
      · refine hv c ?_
        rw [hfbrk, hl]
        exact List.mem_filter.mpr ⟨hc, decide_eq_true hcb⟩

theorem Sound.remove_events (hfresh : Fresh mems rom) (count : Nat) :
    ∀ {s : Breaks ι Hw}, Sound mems rom s → s.ebrk.length = count →
      Sound mems rom (s.remove_events count) ∧ (s.remove_events count).ebrk = [] ∧
        (s.remove_events count).fbrk = s.fbrk := by
  induction count with
  | zero => exact fun h hlen => ⟨h, List.eq_nil_of_length_eq_zero hlen, rfl⟩
  | succ count ih =>
    intro s h hlen
    obtain ⟨l, b, hl⟩ := List.eq_nil_or_concat' s.ebrk |>.resolve_left fun hnil => by simp [hnil] at hlen
    have hcount : l.length = count := by
      rw [hl, List.length_append, List.length_singleton] at hlen
      omega
    obtain ⟨hsound, hebrk, hfbrk⟩ := h.del_event hfresh hl
    rw [List.append_nil] at hebrk
    rw [hcount] at hsound hebrk hfbrk
    obtain ⟨ht, hnil, hsame⟩ := ih hsound (hebrk ▸ hcount)
    exact ⟨ht, hnil, hsame.trans hfbrk⟩

/-- `delete` without parameters ends, and nothing is left, exactly if each fetch breakpoint has an address that
exists. -/
theorem Sound.remove_all_ends_iff (h : Sound mems rom s) :
    (∃ fuel t, s.remove_all_breaks fuel = some t) ↔ ∀ b ∈ s.fbrk, (mems rom).validAddress b.addr := by
  constructor
  · rintro ⟨fuel, t, hrun⟩
    obtain ⟨r, hr, -⟩ := Option.map_eq_some_iff.mp hrun
    exact (h.remove_fetch_some fuel hr).1
  · intro hv
    obtain ⟨t, ht⟩ := Sound.remove_fetch_ends s.fbrk.length h (Nat.le_refl _) hv
    exact ⟨_, _, Option.map_eq_some_iff.mpr ⟨t, ht, rfl⟩⟩

theorem Sound.remove_all (hfresh : Fresh mems rom) (h : Sound mems rom s) {fuel : Nat} {t : Breaks ι Hw}
    (hrun : s.remove_all_breaks fuel = some t) : Sound mems rom t ∧ t.fbrk = [] ∧ t.ebrk = [] := by
  obtain ⟨r, hr, rfl⟩ := Option.map_eq_some_iff.mp hrun
  obtain ⟨-, hsound, hfbrk, -⟩ := h.remove_fetch_some fuel hr
  obtain ⟨ht, hnil, hsame⟩ := hsound.remove_events hfresh _ rfl
  exact ⟨ht, hsame.trans hfbrk, hnil⟩

/-! ## Fetches -/

/-- What a fetch leaves: it counts for the breakpoint at the address, and stops if this has reached its hit count. -/
structure Fetched (mems : ι → AddressSpace Hw) (rom : ι) (PC : Int) (go : Bool) (s : Breaks ι Hw)
    (r : Bool × Breaks ι Hw) : Prop where
  sound : Sound mems rom r.2
  stops : r.1 = true ↔ go = true ∧ (mems rom).validAddress PC ∧ ∃ b ∈ s.fbrk, b.addr = PC ∧ b.cnt ≤ 1
  fbrk : r.2.fbrk = if go = true ∧ (mems rom).validAddress PC then s.fbrk.filterMap (·.counted PC) else s.fbrk
  ebrk : r.2.ebrk = s.ebrk

/-- The breakpoint has a new count. -/
theorem Sound.recount (h : Sound mems rom s) {l₁ l₂ : List FetchBrk} {b : FetchBrk} (hl : s.fbrk = l₁ ++ b :: l₂)
    (cnt : Int) : Sound mems rom (s.withFetch { s.fetchBrks with items := l₁ ++ { b with cnt := cnt } :: l₂ }) := by
  have hrom : s.fetchBrks.rom = s.mems rom := congrArg s.mems h.space
  refine h.withFetch ?_ rfl ?_ (fun a => ?_) (fun a ha => ?_)
  · rw [hl]
    simp
  · rw [hrom]
    exact AddressSpace.SameWiring.refl _
  · rw [hrom]
  · rw [h.flag_iff ha, hl]
    simp only [List.mem_append, List.mem_cons, or_and_right, exists_or, exists_eq_left]

theorem del_fetch_withFetch (f : FetchBrks Hw) (s : Breaks ι Hw) (a : Int) :
    (s.withFetch f).del_fetch a = s.withFetch (f.del_bp a) := by
  have hfetch : (s.withFetch f).fetchBrks = f := by
    rw [fetchBrks, withFetch]
    dsimp only
    rw [Function.update_self]
  rw [del_fetch, hfetch, withFetch, withFetch]
  dsimp only
  rw [Function.update_idem]
  rfl

/-- No breakpoint is fetched. -/
theorem Sound.fetch_none (h : Sound mems rom s) {PC : Int} {go : Bool}
    (hnone : go = true → (mems rom).validAddress PC → ∀ b ∈ s.fbrk, b.addr ≠ PC) :
    Fetched mems rom PC go s (s.fetch PC go) := by
  have hfetch : s.fetchBrks.fetch PC go = (false, s.fetchBrks) := by
    rw [FetchBrks.fetch]
    split
    · next hgo => rw [h.get_bp_none (hnone hgo.1)]
    · rfl
  rw [Breaks.fetch, hfetch]
  dsimp only
  rw [withFetch_fetchBrks]
  refine ⟨h, iff_of_false Bool.false_ne_true ?_, ?_, rfl⟩
  · rintro ⟨hgo, hv, b, hb, hba, -⟩
    exact hnone hgo hv b hb hba
  · split
    · next hand => exact (Session.filterMap_counted_of_ne (hnone hand.1 hand.2)).symm
    · rfl

theorem Sound.fetch (h : Sound mems rom s) (PC : Int) (go : Bool) : Fetched mems rom PC go s (s.fetch PC go) := by
  by_cases hex : go = true ∧ (mems rom).validAddress PC ∧ ∃ b ∈ s.fbrk, b.addr = PC
  swap
  · exact h.fetch_none fun hgo hv b hb hba => hex ⟨hgo, hv, b, hb, hba⟩
  obtain ⟨rfl, hv, b, hb, rfl⟩ := hex
  obtain ⟨l₁, l₂, hl, hfirst, hlast⟩ := h.split hb hv
  have hset (c : FetchBrk) : s.fetchBrks.items.set l₁.length c = l₁ ++ c :: l₂ := by
    show s.fbrk.set l₁.length c = _
    rw [hl]
    simp
  have hfetch : s.fetchBrks.fetch b.addr true = FetchBrks.hitBrk b.addr l₁.length b s.fetchBrks := by
    rw [FetchBrks.fetch, if_pos ⟨rfl, (h.flag_iff hv).mpr ⟨b, hb, rfl⟩⟩, h.get_bp_eq hl hfirst hv]
  have hcounted : s.fbrk.filterMap (·.counted b.addr) = l₁ ++ ((b.counted b.addr).toList ++ l₂) := by
    rw [hl, List.filterMap_append, Session.filterMap_counted_of_ne hfirst, List.filterMap_cons,
      Session.filterMap_counted_of_ne hlast]
    cases b.counted b.addr <;> rfl
  -- The breakpoint at the address is `b` alone.
  have hstops : (true = true ∧ (mems rom).validAddress b.addr ∧ ∃ c ∈ s.fbrk, c.addr = b.addr ∧ c.cnt ≤ 1) ↔
      b.cnt ≤ 1 := by
    constructor
    · rintro ⟨-, -, c, hc, hcb, hcnt⟩
      rwa [h.addr_inj hb hc hv hcb] at hcnt
    · exact fun hcnt => ⟨rfl, hv, b, hb, rfl, hcnt⟩
  suffices hr : Sound mems rom (s.fetch b.addr true).2 ∧ ((s.fetch b.addr true).1 = true ↔ b.cnt ≤ 1) ∧
      (s.fetch b.addr true).2.fbrk = l₁ ++ ((b.counted b.addr).toList ++ l₂) by
    refine ⟨hr.1, hr.2.1.trans hstops.symm, ?_, rfl⟩
    rw [if_pos ⟨rfl, hv⟩, hcounted]
    exact hr.2.2
  rw [Breaks.fetch, hfetch, FetchBrks.hitBrk]
  by_cases hcnt : b.cnt ≤ 1
  · have hsound := h.recount hl b.hit
    rw [if_pos (by omega), hset, FetchBrk.counted, if_pos rfl, if_pos hcnt]
    dsimp only
    by_cases hperm : b.perm = .DYNAMIC
    · -- The breakpoint is deleted from the collection in which it has its new count.
      obtain ⟨hdel, hitems, -⟩ := hsound.del_fetch b.addr
      rw [del_fetch_withFetch] at hdel hitems
      rw [if_pos hperm, if_pos hperm]
      refine ⟨hdel, iff_of_true rfl hcnt, hitems.trans ?_⟩
      show (l₁ ++ { b with cnt := b.hit } :: l₂).filter _ = _
      rw [List.filter_append, List.filter_cons_of_neg (by simpa using hv), filter_others hfirst, filter_others hlast]
      rfl
    · rw [if_neg hperm, if_neg hperm]
      exact ⟨hsound, iff_of_true rfl hcnt, rfl⟩
  · rw [if_neg (by omega), hset, FetchBrk.counted, if_pos rfl, if_neg hcnt]
    exact ⟨h.recount hl _, iff_of_false Bool.false_ne_true hcnt, rfl⟩

/-! ## All sessions -/

theorem Sound.exec (hfresh : Fresh mems rom) (h : Sound mems rom s) {fuel : Nat} {cmd : BreakCmd ι} {t : Breaks ι Hw}
    (hexec : s.exec fuel cmd = some t) : Sound mems rom t := by
  rcases cmd with ⟨addr, hit, perm⟩ | ⟨mem, op, addr, hit, perm⟩ | ⟨PC, _ | ⟨param, params⟩⟩ | (_ | ⟨param, params⟩) |
    ⟨addr⟩ | ⟨PC, go⟩
  · cases hexec
    rw [do_fetch]
    split
    · exact h
    split
    · exact h
    · next hset => exact h.addFetch perm hit fun hv b hb hba => hset ((h.bp_at_iff addr).mpr ⟨hv, b, hb, hba⟩)
  · cases hexec
    exact h.do_event mem op addr hit perm
  · cases hexec
    split
    · exact (h.del_fetch PC).1
    · exact h
  · cases hexec
    exact h.clear (param :: params)
  · exact (h.remove_all hfresh hexec).1
  · cases hexec
    exact Sound.delete hfresh (param :: params) h
  · cases hexec
    rw [stop_at]
    split
    · exact h
    · next hset => exact h.addFetch .DYNAMIC 1 fun hv b hb hba => hset ((h.fbrk_at_iff addr).mpr ⟨hv, b, hb, hba⟩)
  · cases hexec
    exact (h.fetch PC go).sound

theorem sound_start (hfresh : Fresh mems rom) :
    Sound mems rom { mems := mems, rom := rom, fbrk := [], ebrk := [], brk_counter := 0 } where
  space := rfl
  numbered := List.forall_mem_nil _
  distinct := List.nodup_nil
  fetchSorted := List.Pairwise.nil
  eventSorted := List.Pairwise.nil
  alone := List.Pairwise.nil
  flags a _ := by simp [hfresh.unset a]
  events := List.forall_mem_nil _
  operators m a _ := (List.append_nil _).symm
  wiring m := AddressSpace.SameWiring.refl _

/-- In every session the flags and operators of the cells are those of the breakpoints; a number deletes its
breakpoint and no other; an instruction stops if its breakpoint has reached its hit count; and all breakpoints are
deleted, unless one is at an address that does not exist, for which `delete` does not come to an end. -/
theorem session_kept (hfresh : Fresh mems rom) (hs : (commands mems rom).Reachable s) :
    Sound mems rom s ∧ (∀ nr, Removed mems rom nr s (s.rm_brk nr)) ∧
      (∀ PC go, Fetched mems rom PC go s (s.fetch PC go)) ∧
      ((∃ fuel t, s.remove_all_breaks fuel = some t) ↔ ∀ b ∈ s.fbrk, (mems rom).validAddress b.addr) ∧
      ∀ fuel t, s.remove_all_breaks fuel = some t → t.fbrk = [] ∧ t.ebrk = [] ∧
        (∀ a, (mems rom).validAddress a → (t.mems rom).getFetchBrk a = false) ∧
        ∀ m a, (mems m).validAddress a → ((t.mems m).cellAt a).operators = ((mems m).cellAt a).operators := by
  have h : Sound mems rom s := by
    refine System.Reachable.invariant (I := Sound mems rom) ?_ ?_ hs
    · rintro s rfl
      exact sound_start hfresh
    · rintro cmd s t - h ⟨fuel, hexec⟩
      exact h.exec hfresh hexec
  refine ⟨h, h.rm_brk hfresh, h.fetch, h.remove_all_ends_iff, fun fuel t hrun => ?_⟩
  obtain ⟨ht, hfbrk, hebrk⟩ := h.remove_all hfresh hrun
  refine ⟨hfbrk, hebrk, fun a ha => ?_, fun m a ha => ?_⟩
  · have hflag := ht.flags a ha
    rw [hfbrk] at hflag
    simpa using hflag
  · rw [ht.operators m a ha, hebrk]
    exact List.append_nil _

/-- Two spaces, a breakpoint at an address that exists, one at an address that does not, and one for events. -/
theorem session_kept_two_spaces :
    let mems : Bool → AddressSpace Unit := fun _ => AddressSpace.new 0 16
    let s : Breaks Bool Unit := ((({ mems := mems, rom := true, fbrk := [], ebrk := [], brk_counter := 0 } :
      Breaks Bool Unit).do_fetch 3 2 .FIX).do_fetch 99 1 .FIX).do_event false 'w' 3 1 .FIX
    Fresh mems true ∧ Sound mems true s := by
  have hfresh : Fresh (fun _ : Bool => (AddressSpace.new 0 16 : AddressSpace Unit)) true :=
    ⟨fun a => Session.new_getFetchBrk 0 16 a, fun _ _ => List.forall_mem_nil _⟩
  refine ⟨hfresh, (session_kept hfresh ?_).1⟩
  refine System.Reachable.step (a := .event false 'w' 3 1 .FIX) ?_ ⟨0, rfl⟩
  refine System.Reachable.step (a := .break_ 99 1 .FIX) ?_ ⟨0, rfl⟩
  exact System.Reachable.step (a := .break_ 3 2 .FIX) (System.Reachable.init rfl) ⟨0, rfl⟩

end Breaks

end Ucsim
