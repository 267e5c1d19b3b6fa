import Ucsim.Logic.Run
import Ucsim.Sim.AddressSpace
import Ucsim.Pobj.SortedList

/-!
# The bookkeeping of fetch breakpoints

A fetch breakpoint is an item of the collection `fbrk` and a flag of the cell at its address. Several
breakpoints may have one address, and one flag.
-/

namespace Ucsim

open Logic

variable {Hw : Type}

/-- `get_cell_flag(addr, CELL_FETCH_BRK)`. The cell is the one that `set_cell_flag` takes. The dummy cell
never has the flag. -/
def AddressSpace.getFetchBrk (sp : AddressSpace Hw) (addr : Int) : Bool :=
  if sp.validAddress addr then (sp.cells addr).fetchBrk else false

/-- `enum brk_perm`. -/
inductive BrkPerm
  | FIX | DYNAMIC
  deriving DecidableEq, Repr

/-- `cl_fetch_brk`. -/
structure FetchBrk where
  nr : Nat
  addr : Int
  perm : BrkPerm
  hit : Int
  cnt : Int
  deriving DecidableEq, Repr

/-- What the memory sees of it. -/
def FetchBrk.brk (b : FetchBrk) : Brk := { nr := b.nr, event := .none }

/-- The collection `fbrk`, its address space, and the counter that numbers breakpoints. -/
structure FetchBrks (Hw : Type) where
  rom : AddressSpace Hw
  items : List FetchBrk
  brk_counter : Nat

namespace FetchBrks

/-- `compare` of two numbers. -/
def compare (k1 k2 : Nat) : Int := if k1 = k2 then 0 else if k1 < k2 then -1 else 1

/-- `make_new_brknr`. `noEvents` says that there are no event breakpoints. -/
def make_new_brknr (noEvents : Bool) (s : FetchBrks Hw) : Nat :=
  if s.brk_counter = 0 then 1 else if s.items = [] ∧ noEvents then 1 else s.brk_counter + 1

/-- `add_bp`. The list is sorted by numbers, without duplicates. -/
def add_bp (bp : FetchBrk) (s : FetchBrks Hw) : FetchBrks Hw :=
  { s with
    items := SortedList.add s.items (fun i => compare ((s.items[i]?).elim 0 (·.nr)) bp.nr) false bp
    rom := s.rom.setBrk bp.addr bp.brk }

/-- `get_bp`: the first breakpoint at the address, if the flag is set, and its index. -/
def get_bp (addr : Int) (s : FetchBrks Hw) : Option (Nat × FetchBrk) := do
  if s.rom.validAddress addr ∧ s.rom.getFetchBrk addr then
    let idx ← s.items.findIdx? (·.addr = addr)
    let b ← s.items[idx]?
    return (idx, b)
  else none

/-- `del_bp` of an index. -/
def del_bp_at (idx : Nat) (s : FetchBrks Hw) : FetchBrks Hw :=
  match s.items[idx]? with
  | some bp => { s with rom := s.rom.delBrk bp.addr bp.brk, items := s.items.eraseIdx idx }
  | none => s

/-- `del_bp` of an address. -/
def del_bp (addr : Int) (s : FetchBrks Hw) : FetchBrks Hw :=
  match s.get_bp addr with
  | some (idx, _) => s.del_bp_at idx
  | none => s

/-- What `fetch` does for a breakpoint that it finds: `do_hit`, and the end of a dynamic breakpoint. -/
def hitBrk (PC : Int) (idx : Nat) (b : FetchBrk) (s : FetchBrks Hw) : Bool × FetchBrks Hw :=
  if b.cnt - 1 ≤ 0 then
    let s := { s with items := s.items.set idx { b with cnt := b.hit } }
    (true, if b.perm = .DYNAMIC then s.del_bp PC else s)
  else (false, { s with items := s.items.set idx { b with cnt := b.cnt - 1 } })

/-- `fetch`, up to the answer whether it stops. `go` is the state of the simulator. -/
def fetch (PC : Int) (go : Bool) (s : FetchBrks Hw) : Bool × FetchBrks Hw :=
  if go ∧ s.rom.getFetchBrk PC then
    match s.get_bp PC with
    | some (idx, b) => hitBrk PC idx b s
    | none => (false, s)
  else (false, s)

/-- The breakpoints at an address. -/
def brksAt (a : Int) (s : FetchBrks Hw) : List FetchBrk := s.items.filter (·.addr = a)

end FetchBrks

/-! ## Sessions -/

namespace AddressSpace

/-- The flag operations at valid addresses concern the cells of these addresses. -/
def TouchesOwn (sp : AddressSpace Hw) : Prop :=
  ∀ a, sp.validAddress a →
    (∀ setTo, sp.setFetchBrk a setTo = sp.modifyCell a fun c => { c with fetchBrk := setTo }) ∧
      sp.getFetchBrk a = (sp.cellAt a).fetchBrk

end AddressSpace

/-- A breakpoint counts the fetches at its address. It ends when it is a dynamic one and reaches its hit
count. -/
def FetchBrk.counted (PC : Int) (b : FetchBrk) : Option FetchBrk :=
  if b.addr = PC then
    if b.cnt ≤ 1 then
      if b.perm = .DYNAMIC then none else some { b with cnt := b.hit }
    else some { b with cnt := b.cnt - 1 }
  else some b

/-- The breakpoint stops at each fetch and stays. -/
def FetchBrk.Settled (b : FetchBrk) : Prop := b.cnt ≤ 1 ∧ b.perm = .FIX ∧ b.cnt = b.hit

/-- The breakpoints, those that there should be, and what the last fetch has done: whether it has stopped,
and whether it should have. -/
structure Session (Hw : Type) where
  brks : FetchBrks Hw
  wanted : List FetchBrk
  stopped : Bool
  reached : Bool

/-- A breakpoint is added or deleted, or an instruction is fetched. -/
inductive SessionEvent
  | add (addr : Int) (perm : BrkPerm) (hit : Int) (noEvents : Bool)
  | delAt (addr : Int)
  | delIdx (idx : Nat)
  | fetch (PC : Int) (go : Bool)
  deriving DecidableEq

namespace Session

/-- Nothing is fetched. -/
def withBrks (brks : FetchBrks Hw) (wanted : List FetchBrk) : Session Hw :=
  { brks := brks, wanted := wanted, stopped := false, reached := false }

/-- The breakpoint that is added. -/
def newBrk (brks : FetchBrks Hw) (addr : Int) (perm : BrkPerm) (hit : Int) (noEvents : Bool) : FetchBrk :=
  { nr := brks.make_new_brknr noEvents, addr := addr, perm := perm, hit := hit, cnt := hit }

/-- The step itself. Breakpoints are added at valid addresses only. Each of those that there should be counts
for itself, and the others stay when one is deleted. -/
def step (s : Session Hw) : SessionEvent → Session Hw
  | .add addr perm hit noEvents =>
    if s.brks.rom.validAddress addr then
      let bp := newBrk s.brks addr perm hit noEvents
      withBrks { s.brks.add_bp bp with brk_counter := bp.nr } (s.wanted ++ [bp])
    else withBrks s.brks s.wanted
  | .delAt addr => withBrks (s.brks.del_bp addr) (s.wanted.eraseP (·.addr = addr))
  | .delIdx idx => withBrks (s.brks.del_bp_at idx) (s.wanted.eraseIdx idx)
  | .fetch PC go =>
    { brks := (s.brks.fetch PC go).2
      wanted := if go then s.wanted.filterMap (·.counted PC) else s.wanted
      stopped := (s.brks.fetch PC go).1
      reached := go && (s.wanted.filter (·.addr = PC)).any fun b => decide (b.cnt ≤ 1) }

/-- A session without breakpoints. -/
def start (sp : AddressSpace Hw) : Session Hw := withBrks { rom := sp, items := [], brk_counter := 0 } []

/-- The flag operations touch the right cells, the flags show the breakpoints, each breakpoint is found, the
breakpoints and their counts are those that there should be, and the last fetch has stopped exactly if a
breakpoint has reached its hit count. -/
structure Booked (s : Session Hw) : Prop where
  own : s.brks.rom.TouchesOwn
  flags : ∀ a, s.brks.rom.validAddress a → (s.brks.rom.getFetchBrk a = true ↔ ∃ b ∈ s.brks.items, b.addr = a)
  enabled : ∀ b ∈ s.brks.items, ∃ p, s.brks.get_bp b.addr = some p
  kept : s.brks.items = s.wanted
  stops : s.stopped = s.reached

/-- No breakpoint is deleted while another one has its address. An address that several breakpoints share is
fetched only if all of them stop there each time. -/
def Unshared : SessionEvent → Session Hw → Prop
  | .add _ _ _ _, _ => True
  | .delAt a, s => (s.brks.brksAt a).length ≤ 1
  | .delIdx i, s => ∀ b, s.brks.items[i]? = some b → (s.brks.brksAt b.addr).length ≤ 1
  | .fetch PC go, s => go → ∀ b c rest, s.brks.brksAt PC = b :: c :: rest →
      b.cnt ≤ 1 ∧ b.perm = .FIX ∧ ∀ d ∈ c :: rest, d.Settled

end Session

/-! ## Flags -/

namespace AddressSpace

variable {sp : AddressSpace Hw}

theorem getFetchBrk_setFetchBrk (sp : AddressSpace Hw) (a b : Int) (setTo : Bool) :
    (sp.setFetchBrk a setTo).getFetchBrk b
      = if b = a ∧ sp.validAddress a then setTo else sp.getFetchBrk b := by
  by_cases hv : sp.validAddress a
  · simp only [setFetchBrk, if_pos hv, getFetchBrk]
    show (if sp.validAddress b then (Function.update sp.cells a _ b).fetchBrk else false) = _
    by_cases hb : b = a
    · subst hb
      rw [if_pos hv, if_pos ⟨rfl, hv⟩, Function.update_self]
    · have hne : ¬(b = a ∧ sp.validAddress a) := fun h => hb h.1
      rw [Function.update_of_ne hb, if_neg hne]
  · rw [setFetchBrk, if_neg hv, if_neg (fun h => hv h.2)]

theorem SameWiring.trans {sp' sp'' : AddressSpace Hw} (h : SameWiring sp sp') (h' : SameWiring sp' sp'') :
    SameWiring sp sp'' where
  startAddress := h'.startAddress.trans h.startAddress
  size := h'.size.trans h.size
  decoders := h'.decoders.trans h.decoders
  decoder := h'.decoder.trans h.decoder
  freshDecoder := h'.freshDecoder.trans h.freshDecoder
  data a := (h'.data a).trans (h.data a)
  mask a := (h'.mask a).trans (h.mask a)
  nonDecoded a := (h'.nonDecoded a).trans (h.nonDecoded a)

theorem SameWiring.validAddress_iff {sp' : AddressSpace Hw} (h : SameWiring sp sp') (a : Int) :
    sp'.validAddress a ↔ sp.validAddress a := by
  rw [validAddress, validAddress, h.startAddress, h.size]

/-- The cell that is taken for an address is the right one only where the space starts at 0. -/
theorem touchesOwn_iff (sp : AddressSpace Hw) :
    sp.TouchesOwn ↔ sp.startAddress = 0 ∨ ∀ a, ¬ sp.validAddress a := by
  constructor
  · intro hown
    by_cases hstart : sp.startAddress = 0
    · exact .inl hstart
    refine .inr fun a hv => ?_
    -- The flag of the cell at `a` is set, which is not `cells[a]`.
    have hset := (hown a hv).1 (!(sp.cellAt a).fetchBrk)
    have hcell := congrArg (fun sp' => (AddressSpace.cells sp' (a - sp.startAddress)).fetchBrk) hset
    have hne : a - sp.startAddress ≠ a := by omega
    simp only [setFetchBrk, modifyCell, if_pos hv, setCell, Function.update_of_ne hne, Function.update_self] at hcell
    exact absurd hcell.symm (Bool.not_ne_self _)
  · rintro (hstart | hnone) a hv
    · have hidx : a - sp.startAddress = a := by omega
      refine ⟨fun setTo => ?_, ?_⟩
      · rw [setFetchBrk, modifyCell, if_pos hv, if_pos hv, setCell, cellAt, hidx]
      · rw [getFetchBrk, if_pos hv, cellAt, hidx]
    · exact absurd hv (hnone a)

theorem SameWiring.touchesOwn_iff {sp' : AddressSpace Hw} (h : SameWiring sp sp') :
    sp'.TouchesOwn ↔ sp.TouchesOwn := by
  rw [AddressSpace.touchesOwn_iff, AddressSpace.touchesOwn_iff, h.startAddress]
  simp only [h.validAddress_iff]

end AddressSpace

/-! ## The collection -/

namespace FetchBrks

variable {s : FetchBrks Hw}

/-- The numbers of the breakpoints are in use, and their addresses are valid. -/
structure Invariant (s : FetchBrks Hw) : Prop where
  numbered : ∀ b ∈ s.items, 0 < b.nr ∧ b.nr ≤ s.brk_counter
  valid : ∀ b ∈ s.items, s.rom.validAddress b.addr

theorem Invariant.lt_new {noEvents : Bool} (h : Invariant s) :
    ∀ b ∈ s.items, b.nr < s.make_new_brknr noEvents := by
  intro b hb
  have hnr := h.numbered b hb
  have hne : s.items ≠ [] := List.ne_nil_of_mem hb
  rw [make_new_brknr, if_neg (by omega), if_neg (fun hnil => hne hnil.1)]
  omega

theorem make_new_brknr_pos (noEvents : Bool) (s : FetchBrks Hw) : 0 < s.make_new_brknr noEvents := by
  unfold make_new_brknr
  split
  · decide
  · split <;> omega

/-- A new breakpoint has the highest number, and comes last. -/
theorem add_bp_items {bp : FetchBrk} (h : ∀ b ∈ s.items, b.nr < bp.nr) :
    (s.add_bp bp).items = s.items ++ [bp] := by
  refine SortedList.add_of_neg bp fun i hi => ?_
  have hlt := h _ (List.getElem_mem hi)
  rw [List.getElem?_eq_getElem hi]
  show compare (s.items[i]).nr bp.nr < 0
  rw [compare, if_neg (by omega), if_pos hlt]
  decide

/-- `get_bp` takes the first breakpoint at the address. -/
theorem get_bp_first {a : Int} {l₁ l₂ : List FetchBrk} {b : FetchBrk} (hv : s.rom.validAddress a)
    (hflag : s.rom.getFetchBrk a = true) (hitems : s.items = l₁ ++ b :: l₂) (hbefore : ∀ c ∈ l₁, c.addr ≠ a)
    (hb : b.addr = a) : s.get_bp a = some (l₁.length, b) := by
  have hidx : s.items.findIdx? (·.addr = a) = some l₁.length := by
    have hnone : l₁.findIdx? (fun c => decide (c.addr = a)) = none :=
      List.findIdx?_eq_none_iff.mpr fun c hc => decide_eq_false (hbefore c hc)
    rw [hitems, List.findIdx?_append, hnone, List.findIdx?_cons, if_pos (decide_eq_true hb)]
    simp
  rw [get_bp, if_pos ⟨hv, hflag⟩, hidx, hitems]
  simp

theorem get_bp_unset {a : Int} (hflag : s.rom.getFetchBrk a = false) : s.get_bp a = none := by
  rw [get_bp, if_neg]
  rintro ⟨-, h⟩
  rw [hflag] at h
  cases h

/-- The first breakpoint at an address, what is before it and what is behind it. -/
theorem brksAt_cons {a : Int} {b : FetchBrk} {rest : List FetchBrk} (h : s.brksAt a = b :: rest) :
    ∃ l₁ l₂, s.items = l₁ ++ b :: l₂ ∧ (∀ c ∈ l₁, c.addr ≠ a) ∧ b.addr = a ∧
      l₂.filter (·.addr = a) = rest := by
  obtain ⟨l₁, l₂, hitems, hbefore, hb, hrest⟩ := List.filter_eq_cons_iff.mp h
  exact ⟨l₁, l₂, hitems, fun c hc hca => hbefore c hc (decide_eq_true hca), of_decide_eq_true hb, hrest⟩

theorem brksAt_nil {a : Int} : s.brksAt a = [] ↔ ∀ b ∈ s.items, b.addr ≠ a := by
  simp [brksAt, List.filter_eq_nil_iff]

/-- A breakpoint is alone at its address if the others have other ones. -/
theorem brksAt_length_le_one_iff {l₁ l₂ : List FetchBrk} {b : FetchBrk} (hitems : s.items = l₁ ++ b :: l₂) :
    (s.brksAt b.addr).length ≤ 1 ↔ ∀ c ∈ l₁ ++ l₂, c.addr ≠ b.addr := by
  have hcount : (s.brksAt b.addr).length = ((l₁ ++ l₂).filter (·.addr = b.addr)).length + 1 := by
    have hself : decide (b.addr = b.addr) = true := decide_eq_true rfl
    rw [brksAt, hitems, List.filter_append, List.filter_cons, if_pos hself, List.filter_append]
    simp only [List.length_append, List.length_cons]
    omega
  have hle (n : Nat) : n + 1 ≤ 1 ↔ n = 0 := by omega
  rw [hcount, hle, List.length_eq_zero_iff, List.filter_eq_nil_iff]
  simp only [decide_eq_true_eq]

theorem del_bp_at_append {l₁ l₂ : List FetchBrk} {b : FetchBrk} (hitems : s.items = l₁ ++ b :: l₂) :
    s.del_bp_at l₁.length = { s with rom := s.rom.delBrk b.addr b.brk, items := l₁ ++ l₂ } := by
  have hb : s.items[l₁.length]? = some b := by
    rw [hitems]
    simp
  have herase : s.items.eraseIdx l₁.length = l₁ ++ l₂ := by
    rw [hitems, List.eraseIdx_append_of_length_le (Nat.le_refl _), Nat.sub_self]
    rfl
  rw [del_bp_at, hb]
  dsimp only
  rw [herase]

/-- The counts of the breakpoints have changed, and some of them are gone. -/
structure Derived (s s' : FetchBrks Hw) : Prop where
  wiring : AddressSpace.SameWiring s.rom s'.rom
  counter : s'.brk_counter = s.brk_counter
  items : ∀ c ∈ s'.items, ∃ d ∈ s.items, c.nr = d.nr ∧ c.addr = d.addr

namespace Derived

variable {s' s'' : FetchBrks Hw}

theorem refl (s : FetchBrks Hw) : Derived s s :=
  ⟨AddressSpace.SameWiring.refl _, rfl, fun c hc => ⟨c, hc, rfl, rfl⟩⟩

theorem trans (h : Derived s s') (h' : Derived s' s'') : Derived s s'' := by
  refine ⟨h.wiring.trans h'.wiring, h'.counter.trans h.counter, fun c hc => ?_⟩
  obtain ⟨d, hd, hnr, haddr⟩ := h'.items c hc
  obtain ⟨e, he, hnr', haddr'⟩ := h.items d hd
  exact ⟨e, he, hnr.trans hnr', haddr.trans haddr'⟩

theorem invariant (h : Derived s s') (hs : Invariant s) : Invariant s' := by
  constructor
  · intro c hc
    obtain ⟨d, hd, hnr, -⟩ := h.items c hc
    rw [hnr, h.counter]
    exact hs.numbered d hd
  · intro c hc
    obtain ⟨d, hd, -, haddr⟩ := h.items c hc
    rw [haddr, h.wiring.validAddress_iff]
    exact hs.valid d hd

end Derived

theorem del_bp_at_derived (idx : Nat) (s : FetchBrks Hw) : Derived s (s.del_bp_at idx) := by
  unfold del_bp_at
  split
  · next bp _ =>
    exact ⟨AddressSpace.delBrk_sameWiring s.rom bp.addr bp.brk, rfl,
      fun c hc => ⟨c, List.mem_of_mem_eraseIdx hc, rfl, rfl⟩⟩
  · exact Derived.refl s

theorem del_bp_derived (addr : Int) (s : FetchBrks Hw) : Derived s (s.del_bp addr) := by
  unfold del_bp
  split
  · exact del_bp_at_derived _ s
  · exact Derived.refl s

theorem set_derived (idx : Nat) {b : FetchBrk} (hb : b ∈ s.items) (cnt : Int) :
    Derived s { s with items := s.items.set idx { b with cnt := cnt } } := by
  refine ⟨AddressSpace.SameWiring.refl _, rfl, fun c hc => ?_⟩
  rcases List.mem_or_eq_of_mem_set hc with hc | rfl
  · exact ⟨c, hc, rfl, rfl⟩
  · exact ⟨b, hb, rfl, rfl⟩

theorem mem_of_get_bp {a : Int} {idx : Nat} {b : FetchBrk} (h : s.get_bp a = some (idx, b)) : b ∈ s.items := by
  unfold get_bp at h
  split at h
  · obtain ⟨i, -, h⟩ := Option.bind_eq_some_iff.mp h
    obtain ⟨c, hc, heq⟩ := Option.bind_eq_some_iff.mp h
    cases heq
    exact List.mem_of_getElem? hc
  · cases h

theorem hitBrk_derived (PC : Int) (idx : Nat) {b : FetchBrk} (hb : b ∈ s.items) :
    Derived s (hitBrk PC idx b s).2 := by
  unfold hitBrk
  split
  · dsimp only
    split
    · exact (set_derived idx hb b.hit).trans (del_bp_derived PC _)
    · exact set_derived idx hb b.hit
  · exact set_derived idx hb _

theorem fetch_derived (PC : Int) (go : Bool) (s : FetchBrks Hw) : Derived s (s.fetch PC go).2 := by
  unfold fetch
  split
  · split
    · next idx b hget => exact hitBrk_derived PC idx (mem_of_get_bp hget)
    · exact Derived.refl s
  · exact Derived.refl s

end FetchBrks

/-! ## One step -/

namespace Session

variable {s : Session Hw}

theorem step_add {addr : Int} (hv : s.brks.rom.validAddress addr) (perm : BrkPerm) (hit : Int) (noEvents : Bool) :
    s.step (.add addr perm hit noEvents) =
      let bp := newBrk s.brks addr perm hit noEvents
      withBrks { s.brks.add_bp bp with brk_counter := bp.nr } (s.wanted ++ [bp]) :=
  if_pos hv

theorem step_add_invalid {addr : Int} (hv : ¬ s.brks.rom.validAddress addr) (perm : BrkPerm) (hit : Int)
    (noEvents : Bool) : s.step (.add addr perm hit noEvents) = withBrks s.brks s.wanted :=
  if_neg hv

theorem step_wiring (e : SessionEvent) : AddressSpace.SameWiring s.brks.rom (s.step e).brks.rom := by
  cases e with
  | add addr perm hit noEvents =>
    by_cases hv : s.brks.rom.validAddress addr
    · rw [step_add hv]
      exact AddressSpace.setBrk_sameWiring s.brks.rom addr (newBrk s.brks addr perm hit noEvents).brk
    · rw [step_add_invalid hv]
      exact AddressSpace.SameWiring.refl _
  | delAt addr => exact (FetchBrks.del_bp_derived addr s.brks).wiring
  | delIdx idx => exact (FetchBrks.del_bp_at_derived idx s.brks).wiring
  | fetch PC go => exact (FetchBrks.fetch_derived PC go s.brks).wiring

theorem step_invariant (e : SessionEvent) (h : FetchBrks.Invariant s.brks) :
    FetchBrks.Invariant (s.step e).brks := by
  cases e with
  | add addr perm hit noEvents =>
    by_cases hv : s.brks.rom.validAddress addr
    · have hlt := @FetchBrks.Invariant.lt_new _ _ noEvents h
      have hitems : (s.step (.add addr perm hit noEvents)).brks.items
          = s.brks.items ++ [newBrk s.brks addr perm hit noEvents] := by
        rw [step_add hv]
        exact FetchBrks.add_bp_items hlt
      have hcounter : (s.step (.add addr perm hit noEvents)).brks.brk_counter = s.brks.make_new_brknr noEvents := by
        rw [step_add hv]
        rfl
      constructor
      · intro b hb
        rw [hitems, List.mem_append, List.mem_singleton] at hb
        rw [hcounter]
        rcases hb with hb | rfl
        · exact ⟨(h.numbered b hb).1, (hlt b hb).le⟩
        · exact ⟨FetchBrks.make_new_brknr_pos noEvents s.brks, Nat.le_refl _⟩
      · intro b hb
        rw [hitems, List.mem_append, List.mem_singleton] at hb
        rw [(step_wiring _).validAddress_iff]
        rcases hb with hb | rfl
        · exact h.valid b hb
        · exact hv
    · rw [step_add_invalid hv]
      exact h
  | delAt addr => exact (FetchBrks.del_bp_derived addr s.brks).invariant h
  | delIdx idx => exact (FetchBrks.del_bp_at_derived idx s.brks).invariant h
  | fetch PC go => exact (FetchBrks.fetch_derived PC go s.brks).invariant h

/-- With the flags set right, each breakpoint is found. -/
theorem booked_iff (h : FetchBrks.Invariant s.brks) : s.Booked ↔ s.brks.rom.TouchesOwn ∧
    (∀ a, s.brks.rom.validAddress a → (s.brks.rom.getFetchBrk a = true ↔ ∃ b ∈ s.brks.items, b.addr = a)) ∧
    s.brks.items = s.wanted ∧ s.stopped = s.reached := by
  constructor
  · exact fun hb => ⟨hb.own, hb.flags, hb.kept, hb.stops⟩
  · rintro ⟨hown, hflags, hkept, hstops⟩
    refine ⟨hown, hflags, fun b hb => ?_, hkept, hstops⟩
    have hv := h.valid b hb
    cases hat : s.brks.brksAt b.addr with
    | nil => exact absurd rfl (FetchBrks.brksAt_nil.mp hat b hb)
    | cons c rest =>
      obtain ⟨l₁, l₂, hitems, hbefore, hc, -⟩ := FetchBrks.brksAt_cons hat
      exact ⟨_, FetchBrks.get_bp_first hv ((hflags _ hv).mpr ⟨b, hb, rfl⟩) hitems hbefore hc⟩

/-- A breakpoint that is deleted must not leave another one at its address. -/
theorem del_bp_at_booked_iff {l₁ l₂ : List FetchBrk} {b : FetchBrk} (h : FetchBrks.Invariant s.brks) (hs : s.Booked)
    (hitems : s.brks.items = l₁ ++ b :: l₂) (wanted : List FetchBrk) (stopped reached : Bool) :
    Booked { brks := s.brks.del_bp_at l₁.length, wanted := wanted, stopped := stopped, reached := reached } ↔
      (∀ c ∈ l₁ ++ l₂, c.addr ≠ b.addr) ∧ l₁ ++ l₂ = wanted ∧ stopped = reached := by
  have hb : b ∈ s.brks.items := by
    rw [hitems]
    exact List.mem_append_right _ List.mem_cons_self
  have hv := h.valid b hb
  have hderived := FetchBrks.del_bp_at_derived l₁.length s.brks
  have hown := hderived.wiring.touchesOwn_iff.mpr hs.own
  rw [booked_iff (hderived.invariant h)]
  dsimp only at hown ⊢
  rw [FetchBrks.del_bp_at_append hitems] at hown ⊢
  have hflag (a : Int) : (s.brks.rom.delBrk b.addr b.brk).getFetchBrk a
      = if a = b.addr then false else s.brks.rom.getFetchBrk a := by
    show (s.brks.rom.setFetchBrk b.addr false).getFetchBrk a = _
    rw [AddressSpace.getFetchBrk_setFetchBrk]
    simp only [hv, and_true]
  have hvalid (a : Int) := (AddressSpace.delBrk_sameWiring s.brks.rom b.addr b.brk).validAddress_iff a
  dsimp only
  simp only [hflag, hvalid]
  constructor
  · rintro ⟨-, hflags, hkept, hstops⟩
    refine ⟨fun c hc hca => ?_, hkept, hstops⟩
    have hset := (hflags b.addr hv).mpr ⟨c, hc, hca⟩
    rw [if_pos rfl] at hset
    cases hset
  · rintro ⟨hothers, hkept, hstops⟩
    refine ⟨hown, fun a ha => ?_, hkept, hstops⟩
    by_cases hab : a = b.addr
    · rw [if_pos hab]
      refine iff_of_false Bool.false_ne_true ?_
      rintro ⟨c, hc, hca⟩
      exact hothers c hc (hca.trans hab)
    · rw [if_neg hab, hs.flags a ha, hitems]
      simp only [List.mem_append, List.mem_cons]
      constructor
      · rintro ⟨c, hc | rfl | hc, hca⟩
        · exact ⟨c, .inl hc, hca⟩
        · exact absurd hca.symm hab
        · exact ⟨c, .inr hc, hca⟩
      · rintro ⟨c, hc | hc, hca⟩
        · exact ⟨c, .inl hc, hca⟩
        · exact ⟨c, .inr (.inr hc), hca⟩

/-- A count that changes concerns no flag. -/
theorem set_booked_iff {l₁ l₂ : List FetchBrk} {b : FetchBrk} (h : FetchBrks.Invariant s.brks) (hs : s.Booked)
    (hitems : s.brks.items = l₁ ++ b :: l₂) (cnt : Int) (wanted : List FetchBrk) (stopped reached : Bool) :
    Booked { brks := { s.brks with items := l₁ ++ { b with cnt := cnt } :: l₂ }
             wanted := wanted, stopped := stopped, reached := reached } ↔
      l₁ ++ { b with cnt := cnt } :: l₂ = wanted ∧ stopped = reached := by
  have hb : b ∈ s.brks.items := by
    rw [hitems]
    exact List.mem_append_right _ List.mem_cons_self
  have hset : s.brks.items.set l₁.length { b with cnt := cnt } = l₁ ++ { b with cnt := cnt } :: l₂ := by
    rw [hitems]
    simp
  have hderived := FetchBrks.set_derived l₁.length hb cnt
  rw [hset] at hderived
  rw [booked_iff (hderived.invariant h)]
  dsimp only
  constructor
  · exact fun ⟨_, _, hkept, hstops⟩ => ⟨hkept, hstops⟩
  · rintro ⟨hkept, hstops⟩
    refine ⟨hs.own, fun a ha => ?_, hkept, hstops⟩
    rw [hs.flags a ha, hitems]
    simp only [List.mem_append, List.mem_cons]
    constructor
    · rintro ⟨c, hc | rfl | hc, hca⟩
      · exact ⟨c, .inl hc, hca⟩
      · exact ⟨_, .inr (.inl rfl), hca⟩
      · exact ⟨c, .inr (.inr hc), hca⟩
    · rintro ⟨c, hc | rfl | hc, hca⟩
      · exact ⟨c, .inl hc, hca⟩
      · exact ⟨b, .inr (.inl rfl), hca⟩
      · exact ⟨c, .inr (.inr hc), hca⟩

/-- Nothing changes. -/
theorem same_booked (hs : s.Booked) (reached : Bool) :
    Booked { brks := s.brks, wanted := s.wanted, stopped := reached, reached := reached } :=
  ⟨hs.own, hs.flags, hs.enabled, hs.kept, rfl⟩

theorem add_booked (h : FetchBrks.Invariant s.brks) (hs : s.Booked) (addr : Int) (perm : BrkPerm) (hit : Int)
    (noEvents : Bool) : (s.step (.add addr perm hit noEvents)).Booked := by
  by_cases hv : s.brks.rom.validAddress addr
  · have hown := (step_wiring (.add addr perm hit noEvents)).touchesOwn_iff.mpr hs.own
    have hvalid (a : Int) := (@step_wiring _ s (.add addr perm hit noEvents)).validAddress_iff a
    rw [booked_iff (step_invariant _ h)]
    rw [step_add hv] at hown hvalid ⊢
    dsimp only [withBrks] at hown hvalid ⊢
    rw [FetchBrks.add_bp_items h.lt_new]
    refine ⟨hown, fun a ha => ?_, congrArg (· ++ _) hs.kept, rfl⟩
    have hflag : (s.brks.add_bp (newBrk s.brks addr perm hit noEvents)).rom.getFetchBrk a
        = if a = addr then true else s.brks.rom.getFetchBrk a := by
      show (s.brks.rom.setFetchBrk addr true).getFetchBrk a = _
      rw [AddressSpace.getFetchBrk_setFetchBrk]
      simp only [hv, and_true]
    rw [hflag]
    simp only [List.mem_append, List.mem_singleton]
    by_cases haddr : a = addr
    · rw [if_pos haddr]
      exact iff_of_true rfl ⟨_, .inr rfl, haddr.symm⟩
    · rw [if_neg haddr, hs.flags a ((hvalid a).mp ha)]
      constructor
      · rintro ⟨c, hc, hca⟩
        exact ⟨c, .inl hc, hca⟩
      · rintro ⟨c, hc | rfl, hca⟩
        · exact ⟨c, hc, hca⟩
        · exact absurd hca.symm haddr
  · rw [step_add_invalid hv]
    exact same_booked hs false

theorem getFetchBrk_eq_false (hs : s.Booked) {a : Int} (hat : s.brks.brksAt a = []) :
    s.brks.rom.getFetchBrk a = false := by
  by_cases hv : s.brks.rom.validAddress a
  · refine Bool.eq_false_iff.mpr fun hset => ?_
    obtain ⟨b, hb, hba⟩ := (hs.flags a hv).mp hset
    exact FetchBrks.brksAt_nil.mp hat b hb hba
  · exact if_neg hv

/-- The first breakpoint at an address is the one that is found. -/
theorem get_bp_cons (h : FetchBrks.Invariant s.brks) (hs : s.Booked) {a : Int} {l₁ l₂ : List FetchBrk} {b : FetchBrk}
    (hitems : s.brks.items = l₁ ++ b :: l₂) (hbefore : ∀ c ∈ l₁, c.addr ≠ a) (hb : b.addr = a) :
    s.brks.get_bp a = some (l₁.length, b) := by
  have hmem : b ∈ s.brks.items := by
    rw [hitems]
    exact List.mem_append_right _ List.mem_cons_self
  have hv : s.brks.rom.validAddress a := hb ▸ h.valid b hmem
  exact FetchBrks.get_bp_first hv ((hs.flags a hv).mpr ⟨b, hmem, hb⟩) hitems hbefore hb

theorem delAt_booked_iff (h : FetchBrks.Invariant s.brks) (hs : s.Booked) (a : Int) :
    (s.step (.delAt a)).Booked ↔ Unshared (.delAt a) s := by
  cases hat : s.brks.brksAt a with
  | nil =>
    have hdel : s.brks.del_bp a = s.brks := by
      rw [FetchBrks.del_bp, FetchBrks.get_bp_unset (getFetchBrk_eq_false hs hat)]
    have herase : s.wanted.eraseP (·.addr = a) = s.wanted := by
      refine List.eraseP_of_forall_not fun c hc hca => ?_
      rw [← hs.kept] at hc
      exact FetchBrks.brksAt_nil.mp hat c hc (of_decide_eq_true hca)
    have hnone : Unshared (.delAt a) s := by
      show (s.brks.brksAt a).length ≤ 1
      rw [hat]
      exact Nat.zero_le 1
    refine iff_of_true ?_ hnone
    show (withBrks (s.brks.del_bp a) (s.wanted.eraseP (·.addr = a))).Booked
    rw [hdel, herase]
    exact same_booked hs false
  | cons b rest =>
    obtain ⟨l₁, l₂, hitems, hbefore, rfl, -⟩ := FetchBrks.brksAt_cons hat
    have hdel : s.brks.del_bp b.addr = s.brks.del_bp_at l₁.length := by
      rw [FetchBrks.del_bp, get_bp_cons h hs hitems hbefore rfl]
    have herase : s.wanted.eraseP (·.addr = b.addr) = l₁ ++ l₂ := by
      rw [← hs.kept, hitems, List.eraseP_append_right _ (by simpa using hbefore),
        List.eraseP_cons, decide_eq_true rfl, cond_true]
    show (withBrks (s.brks.del_bp b.addr) (s.wanted.eraseP (·.addr = b.addr))).Booked ↔
      (s.brks.brksAt b.addr).length ≤ 1
    rw [hdel, herase, withBrks, del_bp_at_booked_iff h hs hitems, FetchBrks.brksAt_length_le_one_iff hitems]
    exact and_iff_left ⟨rfl, rfl⟩

theorem delIdx_booked_iff (h : FetchBrks.Invariant s.brks) (hs : s.Booked) (i : Nat) :
    (s.step (.delIdx i)).Booked ↔ Unshared (.delIdx i) s := by
  show (withBrks (s.brks.del_bp_at i) (s.wanted.eraseIdx i)).Booked ↔
    ∀ b, s.brks.items[i]? = some b → (s.brks.brksAt b.addr).length ≤ 1
  by_cases hi : i < s.brks.items.length
  · have hb : s.brks.items[i]? = some s.brks.items[i] := List.getElem?_eq_getElem hi
    have hitems : s.brks.items = s.brks.items.take i ++ s.brks.items[i] :: s.brks.items.drop (i + 1) := by
      rw [List.getElem_cons_drop hi, List.take_append_drop]
    have hlen : (s.brks.items.take i).length = i := List.length_take_of_le hi.le
    have hiff := del_bp_at_booked_iff h hs hitems (s.wanted.eraseIdx i) false false
    rw [hlen] at hiff
    rw [withBrks, hiff, hb, ← hs.kept, List.eraseIdx_eq_take_drop_succ]
    simp only [Option.some.injEq, forall_eq', and_true]
    rw [← FetchBrks.brksAt_length_le_one_iff hitems]
  · have hnone : s.brks.items[i]? = none := List.getElem?_eq_none (Nat.le_of_not_lt hi)
    have hdel : s.brks.del_bp_at i = s.brks := by
      rw [FetchBrks.del_bp_at, hnone]
    rw [hdel, ← hs.kept, List.eraseIdx_of_length_le (Nat.le_of_not_lt hi), hnone, hs.kept]
    exact iff_of_true (same_booked hs false) (fun b hb => by cases hb)

theorem counted_of_ne {PC : Int} {b : FetchBrk} (h : b.addr ≠ PC) : b.counted PC = some b := if_neg h

theorem counted_eq_self_iff {PC : Int} {b : FetchBrk} (h : b.addr = PC) : b.counted PC = some b ↔ b.Settled := by
  rw [FetchBrk.counted, if_pos h, FetchBrk.Settled]
  by_cases hcnt : b.cnt ≤ 1
  · rw [if_pos hcnt]
    cases hperm : b.perm with
    | FIX =>
      rw [if_neg (by decide), Option.some.injEq]
      constructor
      · exact fun heq => ⟨hcnt, rfl, (congrArg FetchBrk.cnt heq).symm⟩
      · rintro ⟨-, -, heq⟩
        obtain ⟨nr, addr, perm, hit, cnt⟩ := b
        cases hperm
        cases heq
        rfl
    | DYNAMIC =>
      rw [if_pos rfl]
      exact iff_of_false (by simp) (by simp)
  · rw [if_neg hcnt, Option.some.injEq]
    refine iff_of_false (fun heq => ?_) (fun hset => hcnt hset.1)
    have := congrArg FetchBrk.cnt heq
    dsimp only at this
    omega

theorem filterMap_counted_of_ne {PC : Int} {l : List FetchBrk} (h : ∀ b ∈ l, b.addr ≠ PC) :
    l.filterMap (·.counted PC) = l := by
  rw [List.filterMap_congr fun b hb => counted_of_ne (h b hb)]
  exact List.filterMap_some

/-- Counting leaves a list as it is if it leaves each of its breakpoints so. -/
theorem filterMap_counted_eq_self_iff {PC : Int} {l : List FetchBrk} :
    l.filterMap (·.counted PC) = l ↔ ∀ b ∈ l.filter (·.addr = PC), b.Settled := by
  induction l with
  | nil => simp
  | cons b l ih =>
    by_cases hb : b.addr = PC
    · rw [List.filter_cons, if_pos (decide_eq_true hb), List.forall_mem_cons, ← counted_eq_self_iff hb, ← ih]
      cases hcount : b.counted PC with
      | none =>
        rw [List.filterMap_cons_none hcount]
        -- Nothing is added that could make up for it.
        refine iff_of_false (fun heq => ?_) (fun h => by cases h.1)
        have hle := List.length_filterMap_le (·.counted PC) l
        rw [heq, List.length_cons] at hle
        omega
      | some c => rw [List.filterMap_cons_some hcount, List.cons.injEq, Option.some.injEq]
    · rw [List.filter_cons, if_neg (by simpa using hb), List.filterMap_cons_some (counted_of_ne hb), ← ih,
        List.cons.injEq]
      exact and_iff_right rfl

/-- No breakpoint is fetched. -/
theorem step_fetch_nil (hs : s.Booked) {PC : Int} (hat : s.brks.brksAt PC = []) (go : Bool) :
    s.step (.fetch PC go) = { brks := s.brks, wanted := s.wanted, stopped := false, reached := false } := by
  have hfetch : s.brks.fetch PC go = (false, s.brks) := by
    refine if_neg ?_
    rintro ⟨-, hset⟩
    rw [getFetchBrk_eq_false hs hat] at hset
    cases hset
  have hcount : s.wanted.filterMap (·.counted PC) = s.wanted := by
    rw [← hs.kept]
    exact filterMap_counted_of_ne (FetchBrks.brksAt_nil.mp hat)
  have hnone : s.wanted.filter (·.addr = PC) = [] := by
    rw [← hs.kept]
    exact hat
  simp only [step, hfetch, hcount, hnone, ite_self, List.any_nil, Bool.and_false]

/-- Where the fetched address has a breakpoint, the first one there is hit. -/
theorem fetch_cons (h : FetchBrks.Invariant s.brks) (hs : s.Booked) {l₁ l₂ : List FetchBrk} {b : FetchBrk}
    (hitems : s.brks.items = l₁ ++ b :: l₂) (hbefore : ∀ c ∈ l₁, c.addr ≠ b.addr) :
    s.brks.fetch b.addr true = FetchBrks.hitBrk b.addr l₁.length b s.brks := by
  have hget := get_bp_cons h hs hitems hbefore rfl
  have hflag : s.brks.rom.getFetchBrk b.addr = true := by
    refine Bool.not_eq_false _ ▸ fun hunset => ?_
    rw [FetchBrks.get_bp_unset hunset] at hget
    cases hget
  rw [FetchBrks.fetch, if_pos ⟨rfl, hflag⟩, hget]

theorem wanted_cons (hs : s.Booked) {l₁ l₂ : List FetchBrk} {b : FetchBrk} (hitems : s.brks.items = l₁ ++ b :: l₂)
    (hbefore : ∀ c ∈ l₁, c.addr ≠ b.addr) : s.wanted.filterMap (·.counted b.addr)
      = l₁ ++ ((b.counted b.addr).toList ++ l₂.filterMap (·.counted b.addr)) := by
  rw [← hs.kept, hitems, List.filterMap_append, filterMap_counted_of_ne hbefore, List.filterMap_cons]
  cases b.counted b.addr <;> rfl

theorem reached_cons (hs : s.Booked) {PC : Int} {b : FetchBrk} {rest : List FetchBrk}
    (hat : s.brks.brksAt PC = b :: rest) : (s.step (.fetch PC true)).reached = true ↔ ∃ c ∈ b :: rest, c.cnt ≤ 1 := by
  have hwanted : s.wanted.filter (·.addr = PC) = b :: rest := by
    rw [← hs.kept]
    exact hat
  show (true && (s.wanted.filter (·.addr = PC)).any _) = true ↔ _
  rw [hwanted, Bool.true_and, List.any_eq_true]
  simp only [decide_eq_true_eq]

/-- An address that several breakpoints share is fetched only if all of them stop there each time. -/
theorem fetch_unshared_iff {PC : Int} {b : FetchBrk} {rest : List FetchBrk} (hat : s.brks.brksAt PC = b :: rest) :
    Unshared (.fetch PC true) s ↔ rest = [] ∨ b.cnt ≤ 1 ∧ b.perm = .FIX ∧ ∀ d ∈ rest, d.Settled := by
  show (true = true → ∀ b c rest, s.brks.brksAt PC = b :: c :: rest → _) ↔ _
  rw [hat]
  cases rest with
  | nil =>
    refine iff_of_true (fun _ _ _ _ heq => ?_) (.inl rfl)
    cases heq
  | cons c rest =>
    constructor
    · exact fun h => .inr (h rfl b c rest rfl)
    · rintro (hnil | hall) - b' c' rest' heq
      · cases hnil
      · cases heq
        exact hall

section Hit

variable {l₁ l₂ : List FetchBrk} {b : FetchBrk} (h : FetchBrks.Invariant s.brks) (hs : s.Booked)
  (hitems : s.brks.items = l₁ ++ b :: l₂)

include hitems in
theorem set_items (c : FetchBrk) : s.brks.items.set l₁.length c = l₁ ++ c :: l₂ := by
  rw [hitems]
  simp

/-- What the session is after the first breakpoint at the fetched address was hit. -/
def afterHit (s : Session Hw) (l₁ : List FetchBrk) (b : FetchBrk) (l₂ : List FetchBrk) (reached : Bool) : Session Hw where
  brks := (FetchBrks.hitBrk b.addr l₁.length b s.brks).2
  wanted := l₁ ++ ((b.counted b.addr).toList ++ l₂.filterMap (·.counted b.addr))
  stopped := (FetchBrks.hitBrk b.addr l₁.length b s.brks).1
  reached := reached

include h hs hitems in
/-- The breakpoint counts. -/
theorem hit_counts_booked_iff (hcnt : ¬ b.cnt ≤ 1) (reached : Bool) :
    (afterHit s l₁ b l₂ reached).Booked ↔ (∀ c ∈ l₂.filter (·.addr = b.addr), c.Settled) ∧ reached = false := by
  have hcounted : b.counted b.addr = some { b with cnt := b.cnt - 1 } := by
    rw [FetchBrk.counted, if_pos rfl, if_neg hcnt]
  rw [afterHit, hcounted, FetchBrks.hitBrk, if_neg (by omega), set_items hitems, set_booked_iff h hs hitems,
    ← filterMap_counted_eq_self_iff]
  simp only [Option.toList_some, List.singleton_append, List.append_cancel_left_eq, List.cons.injEq, true_and]
  exact and_congr eq_comm eq_comm

include h hs hitems in
/-- The breakpoint has reached its hit count, and starts again. -/
theorem hit_fix_booked_iff (hcnt : b.cnt ≤ 1) (hperm : b.perm = .FIX) :
    (afterHit s l₁ b l₂ true).Booked ↔ ∀ c ∈ l₂.filter (·.addr = b.addr), c.Settled := by
  have hcounted : b.counted b.addr = some { b with cnt := b.hit } := by
    rw [FetchBrk.counted, if_pos rfl, if_pos hcnt, if_neg (by simp [hperm])]
  have hdynamic : ¬ b.perm = .DYNAMIC := by simp [hperm]
  rw [afterHit, hcounted, FetchBrks.hitBrk, if_pos (by omega)]
  dsimp only
  rw [if_neg hdynamic, set_items hitems, set_booked_iff h hs hitems, ← filterMap_counted_eq_self_iff]
  simp only [Option.toList_some, List.singleton_append, List.append_cancel_left_eq, List.cons.injEq, true_and, and_true]
  exact eq_comm

include h hs hitems in
/-- The breakpoint has reached its hit count, and is deleted. -/
theorem hit_dynamic_booked_iff (hbefore : ∀ c ∈ l₁, c.addr ≠ b.addr) (hcnt : b.cnt ≤ 1) (hperm : b.perm = .DYNAMIC) :
    (afterHit s l₁ b l₂ true).Booked ↔ l₂.filter (·.addr = b.addr) = [] := by
  have hcounted : b.counted b.addr = none := by
    rw [FetchBrk.counted, if_pos rfl, if_pos hcnt, if_pos hperm]
  -- The breakpoint that is deleted has its new count already.
  let b' : FetchBrk := { b with cnt := b.hit }
  let t : Session Hw :=
    { brks := { s.brks with items := l₁ ++ b' :: l₂ }, wanted := l₁ ++ b' :: l₂, stopped := true, reached := true }
  have ht : t.Booked := (set_booked_iff h hs hitems b.hit _ true true).mpr ⟨rfl, rfl⟩
  have hderived : FetchBrks.Derived s.brks t.brks := by
    have hb : b ∈ s.brks.items := by
      rw [hitems]
      exact List.mem_append_right _ List.mem_cons_self
    have hset := FetchBrks.set_derived l₁.length hb b.hit
    rwa [set_items hitems] at hset
  have hget : t.brks.get_bp b.addr = some (l₁.length, b') := get_bp_cons (hderived.invariant h) ht rfl hbefore rfl
  have hdel : t.brks.del_bp b.addr = t.brks.del_bp_at l₁.length := by
    rw [FetchBrks.del_bp, hget]
  rw [afterHit, hcounted, FetchBrks.hitBrk, if_pos (by omega)]
  dsimp only
  rw [if_pos hperm, set_items hitems]
  show Booked { brks := t.brks.del_bp b.addr, wanted := _, stopped := true, reached := true } ↔ _
  rw [hdel, del_bp_at_booked_iff (hderived.invariant h) ht rfl, List.filter_eq_nil_iff]
  simp only [decide_eq_true_eq]
  constructor
  · exact fun hothers c hc => hothers.1 c (List.mem_append_right _ hc)
  · intro hrest
    refine ⟨fun c hc => ?_, ?_, trivial⟩
    · rcases List.mem_append.mp hc with hc | hc
      · exact hbefore c hc
      · exact hrest c hc
    · rw [filterMap_counted_of_ne hrest]
      rfl

end Hit

/-- A fetch keeps the books if it counts all breakpoints at the address and lets none be lost. -/
theorem fetch_booked_iff (h : FetchBrks.Invariant s.brks) (hs : s.Booked) (PC : Int) (go : Bool) :
    (s.step (.fetch PC go)).Booked ↔ Unshared (.fetch PC go) s := by
  cases hat : s.brks.brksAt PC with
  | nil =>
    rw [step_fetch_nil hs hat]
    refine iff_of_true (same_booked hs false) fun _ b c rest heq => ?_
    rw [hat] at heq
    cases heq
  | cons b rest =>
    cases go with
    | false => exact iff_of_true (same_booked hs false) (fun hgo => by cases hgo)
    | true =>
      have hreached := reached_cons hs hat
      rw [fetch_unshared_iff hat]
      obtain ⟨l₁, l₂, hitems, hbefore, rfl, rfl⟩ := FetchBrks.brksAt_cons hat
      have hstep : s.step (.fetch b.addr true) = afterHit s l₁ b l₂ (s.step (.fetch b.addr true)).reached := by
        rw [afterHit, ← fetch_cons h hs hitems hbefore, ← wanted_cons hs hitems hbefore]
        rfl
      rw [hstep]
      by_cases hcnt : b.cnt ≤ 1
      · rw [hreached.mpr ⟨b, List.mem_cons_self, hcnt⟩]
        cases hperm : b.perm with
        | FIX =>
          rw [hit_fix_booked_iff h hs hitems hcnt hperm]
          constructor
          · exact fun hall => .inr ⟨hcnt, rfl, hall⟩
          · rintro (hnil | ⟨-, -, hall⟩)
            · rw [hnil]
              exact List.forall_mem_nil _
            · exact hall
        | DYNAMIC =>
          rw [hit_dynamic_booked_iff h hs hitems hbefore hcnt hperm]
          exact ⟨.inl, fun hor => hor.elim id fun hfix => by cases hfix.2.1⟩
      · rw [hit_counts_booked_iff h hs hitems hcnt, Bool.eq_false_iff, Ne, hreached]
        constructor
        · rintro ⟨hall, hnone⟩
          refine .inl (List.eq_nil_iff_forall_not_mem.mpr fun c hc => ?_)
          exact hnone ⟨c, List.mem_cons_of_mem _ hc, (hall c hc).1⟩
        · rintro (hnil | hone)
          · rw [hnil]
            refine ⟨List.forall_mem_nil _, ?_⟩
            rintro ⟨c, hc, hle⟩
            rw [List.mem_singleton] at hc
            exact hcnt (hc ▸ hle)
          · exact absurd hone.1 hcnt

/-! ## All sessions -/

/-- Breakpoints at addresses of their own are kept in order. -/
theorem booked_on_prefixes_iff {sp : AddressSpace Hw} (hfresh : ∀ a, sp.getFetchBrk a = false)
    (es : List SessionEvent) :
    (∀ p, p <+: es → (p.foldl step (start sp)).Booked) ↔
      (sp.startAddress = 0 ∨ ∀ a, ¬ sp.validAddress a) ∧
        ∀ p e, p ++ [e] <+: es → Unshared e (p.foldl step (start sp)) := by
  have hinv : FetchBrks.Invariant (start sp).brks := ⟨List.forall_mem_nil _, List.forall_mem_nil _⟩
  have hstep (_ : Unit) (s : Session Hw) (e : SessionEvent) (h : FetchBrks.Invariant s.brks) (hs : s.Booked) :
      (s.step e).Booked ↔ Unshared e s := by
    cases e with
    | add addr perm hit noEvents => exact iff_of_true (add_booked h hs addr perm hit noEvents) trivial
    | delAt a => exact delAt_booked_iff h hs a
    | delIdx i => exact delIdx_booked_iff h hs i
    | fetch PC go => exact fetch_booked_iff h hs PC go
  have hstart : (start sp).Booked ↔ sp.startAddress = 0 ∨ ∀ a, ¬ sp.validAddress a := by
    rw [booked_iff hinv, ← sp.touchesOwn_iff]
    refine and_iff_left ⟨fun a _ => ?_, rfl, rfl⟩
    refine iff_of_false (Bool.eq_false_iff.mp (hfresh a)) ?_
    rintro ⟨b, hb, -⟩
    cases hb
  have hruns (hs : (start sp).Booked) := @agree_on_prefixes_iff SessionEvent (Session Hw) Unit (fun _ _ => ()) step
    (fun _ s => s.Booked) (fun s => FetchBrks.Invariant s.brks) Unshared (fun _ e h => step_invariant e h) hstep () _
    hinv hs es
  rw [← hstart]
  constructor
  · exact fun hall => ⟨hall [] List.nil_prefix, (hruns (hall [] List.nil_prefix)).mp hall⟩
  · exact fun ⟨hs, hun⟩ => (hruns hs).mpr hun

theorem new_getFetchBrk (astart asize a : Int) : (@AddressSpace.new Hw astart asize).getFetchBrk a = false :=
  ite_self false

/-- Two breakpoints at two addresses. -/
theorem booked_two_addresses :
    let sp : AddressSpace Unit := AddressSpace.new 0 16
    (∀ p, p <+: [.add 3 .FIX 1 true, .add 5 .FIX 1 true, .delAt 3] → (p.foldl step (start sp)).Booked) ↔
      (sp.startAddress = 0 ∨ ∀ a, ¬ sp.validAddress a) ∧
        ∀ p e, p ++ [e] <+: [.add 3 .FIX 1 true, .add 5 .FIX 1 true, .delAt 3] →
          Unshared e (p.foldl step (start sp)) :=
  booked_on_prefixes_iff (new_getFetchBrk 0 16) _

/-- Of two breakpoints at one address, deleting one disables the other. -/
theorem not_booked_shared : ¬ ∀ sp : AddressSpace Unit, (∀ a, sp.getFetchBrk a = false) →
    ∀ es : List SessionEvent, (es.foldl step (start sp)).Booked := by
  intro h
  have hbooked := h (AddressSpace.new 0 16) (new_getFetchBrk 0 16)
    [.add 3 .FIX 1 true, .add 3 .FIX 1 true, .delAt 3]
  have hflag := (hbooked.flags 3 (by decide +kernel)).mpr ⟨_, List.mem_cons_self, rfl⟩
  exact absurd hflag (by decide +kernel)

end Session

end Ucsim
