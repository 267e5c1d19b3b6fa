import Ucsim.Sim.OperatorPlaces

/-!
# Event breakpoints do not disturb the program

A cell whose hardware operators come first is read and written while breakpoints on it are set and
deleted. The run is compared with the one in which no breakpoint is ever set: `bare` is the cell
without its breakpoint operators.
-/

namespace Ucsim

variable {Hw W : Type}

namespace Cell

variable {κ P : Type}

/-- The cell without its breakpoint operators. -/
def bare (c : Cell κ P Hw) : Cell κ P Hw :=
  { c with operators := c.operators.filter (·.kind.isHw) }

/-- The breakpoints that are set on the cell, in the order of their operators. -/
def brks (c : Cell κ P Hw) : List (OperatorKind Hw) :=
  (c.operators.map (·.kind)).filter (!·.isHw)

/-- Hardware operators come first, all operators have the mask of the cell, and those of breakpoints
are as `set_brk` creates them: the chains that `append_operator` makes of hardware that is registered
before breakpoints are set. -/
structure HwFirst (c : Cell κ P Hw) : Prop where
  order : c.operators = c.operators.filter (·.kind.isHw) ++ c.operators.filter (!·.kind.isHw)
  mask : ∀ o ∈ c.operators, o.mask = c.mask
  event : ∀ o ∈ c.operators, o.kind.isHw = false →
    ∃ brk, AddressSpace.brkOperator brk = some o.kind

/-- The places a write without breakpoints stores to. -/
def writePlaces (c : Cell κ P Hw) : List P :=
  match c.operators with
  | [] => [c.data]
  | o :: rest => Operator.places (o :: rest)

/-- The cell's own place, and that of the newest operator of each breakpoint, are among those that a
write without breakpoints stores to. -/
def BrksInPlace (c : Cell κ P Hw) : Prop :=
  c.data ∈ c.bare.writePlaces ∧
    ∀ brk, ∀ o ∈ (c.operators.filter (·.kind.matchBrk brk)).getLast?,
      o.data ∈ c.bare.writePlaces

end Cell

/-! ## One access -/

namespace Operator

variable {κ P : Type}

/-- What the way down of a read leaves in the store does not depend on the events. -/
theorem passRead_congr (H : Hardware κ P Hw W) (l : List (Operator κ P Hw)) :
    ∀ {s s' : Sys P W}, s.toStore = s'.toStore →
      (passRead H l s).toStore = (passRead H l s').toStore := by
  induction l with
  | nil => exact fun hst => hst
  | cons o rest ih =>
    intro s s' hst
    rw [passRead, passRead]
    cases o.kind with
    | hw h => exact ih (congrArg (fun st => (H.read h o.cell st).2.1) hst)
    | write bp => exact ih hst
    | read bp => exact ih hst

/-- The same of a write, whose value does not depend on them either. -/
theorem passWrite_congr (H : Hardware κ P Hw W) (l : List (Operator κ P Hw)) :
    ∀ {v : TMem} {s s' : Sys P W}, s.toStore = s'.toStore →
      (passWrite H l v s).1 = (passWrite H l v s').1 ∧
        (passWrite H l v s).2.toStore = (passWrite H l v s').2.toStore := by
  induction l with
  | nil => exact fun hst => ⟨rfl, hst⟩
  | cons o rest ih =>
    intro v s s' hst
    rw [passWrite, passWrite]
    cases o.kind with
    | hw h =>
      have hval : (s.call (H.write h o.cell v)).1 = (s'.call (H.write h o.cell v)).1 :=
        congrArg (fun st => (H.write h o.cell v st).1) hst
      dsimp only
      rw [hval]
      exact ih (congrArg (fun st => (H.write h o.cell v st).2.1) hst)
    | write bp => exact ih hst
    | read bp => exact ih hst

end Operator

namespace Cell

variable {κ P : Type} {c c₀ : Cell κ P Hw}

/-- Reading a cell has the side effects of running down its chain. -/
theorem read_snd (H : Hardware κ P Hw W) (c : Cell κ P Hw) (s : Sys P W) :
    (c.read H s).2 = Operator.passRead H c.operators s := by
  rw [read]
  cases c.operators with
  | nil => rfl
  | cons o next => exact Operator.read_snd H next o s

/-- `c₀` is the cell `c` without its breakpoint operators. -/
structure BareOf (c₀ c : Cell κ P Hw) : Prop where
  operators : c₀.operators = c.operators.filter (·.kind.isHw)
  data : c₀.data = c.data
  mask : c₀.mask = c.mask

theorem bareOf_bare (c : Cell κ P Hw) : BareOf c.bare c := ⟨rfl, rfl, rfl⟩

/-- The chain of a cell is that of its bare cell followed by breakpoint operators. -/
theorem HwFirst.split (h : c.HwFirst) (h₀ : BareOf c₀ c) :
    ∃ brks, c.operators = c₀.operators ++ brks ∧ (∀ x ∈ c₀.operators, x.kind.isHw = true) ∧
      (∀ x ∈ brks, x.kind.isHw = false) ∧ c.brks = brks.map (·.kind) := by
  refine ⟨c.operators.filter (!·.kind.isHw), ?_, ?_, ?_, ?_⟩
  · rw [h₀.operators]
    exact h.order
  · intro x hx
    rw [h₀.operators] at hx
    exact (List.mem_filter.mp hx).2
  · intro x hx
    simpa using (List.mem_filter.mp hx).2
  · rw [brks, List.filter_map]
    rfl

/-- The newest of all breakpoint operators is the newest of its own breakpoint. -/
theorem BrksInPlace.last (h : c.BrksInPlace) {l : List (Operator κ P Hw)} {o : Operator κ P Hw}
    (hops : c.operators = l ++ [o]) (ho : o.kind.isHw = false) : o.data ∈ c.bare.writePlaces := by
  have hmatch (brk : Brk) (hbrk : o.kind.matchBrk brk = true) : o.data ∈ c.bare.writePlaces := by
    refine h.2 brk o ?_
    rw [hops, List.filter_append, List.filter_singleton, hbrk]
    simp
  cases hk : o.kind with
  | hw hw => rw [hk] at ho; cases ho
  | write bp => exact hmatch bp (by rw [hk]; simp [OperatorKind.matchBrk])
  | read bp => exact hmatch bp (by rw [hk]; simp [OperatorKind.matchBrk])

/-- A read returns the value and leaves the store that it does without breakpoints. -/
theorem HwFirst.read_eq (h : c.HwFirst) (hin : c.BrksInPlace) (h₀ : BareOf c₀ c)
    (H : Hardware κ P Hw W) {s s' : Sys P W} (hst : s.toStore = s'.toStore) :
    (c.read H s).1 = (c₀.read H s').1 ∧ (c.read H s).2.toStore = (c₀.read H s').2.toStore := by
  obtain ⟨brks, hops, hhw, hbrk, -⟩ := h.split h₀
  have hstore : (c.read H s).2.toStore = (c₀.read H s').2.toStore := by
    rw [read_snd, read_snd, hops, Operator.passRead_append_brks H hbrk, Sys.addEvents_toStore]
    exact Operator.passRead_congr H _ hst
  refine ⟨?_, hstore⟩
  cases hhws : c₀.operators with
  | nil =>
    have hbare : (c₀.read H s').1 = s'.mem c₀.data := by
      rw [read, hhws]
    rw [hbare, h₀.data, ← hst]
    rw [hhws, List.nil_append] at hops
    cases hbrks : brks with
    | nil => rw [read, hops, hbrks]
    | cons o rest =>
      have hne : o :: rest ≠ [] := List.cons_ne_nil o rest
      -- the value comes from the newest breakpoint operator, whose place is the cell's
      have hread : (c.read H s).1 = s.mem ((o :: rest).getLast hne).data := by
        rw [read, hops, hbrks]
        exact Operator.read_brks_fst H rest o s (hbrks ▸ hbrk)
      have hlast : c.operators = (o :: rest).dropLast ++ [(o :: rest).getLast hne] := by
        rw [List.dropLast_append_getLast, hops, hbrks]
      have hdata := hin.last hlast (hbrk _ (hbrks ▸ List.getLast_mem hne))
      rw [writePlaces, show c.bare.operators = [] from h₀.operators.symm.trans hhws] at hdata
      rw [hread, List.mem_singleton.mp hdata]
      rfl
  | cons o rest =>
    have ho := hhw o (by rw [hhws]; exact List.mem_cons_self)
    cases hk : o.kind with
    | hw hw =>
      rw [read, read, hops, hhws]
      simp only [List.cons_append]
      rw [Operator.read_hw_fst H hk, Operator.read_hw_fst H hk]
      exact congrArg (fun st => (H.read hw o.cell st).1) hst
    | write bp => rw [hk] at ho; cases ho
    | read bp => rw [hk] at ho; cases ho

/-- The same of a read with `skip`. -/
theorem HwFirst.readSkip_eq (h : c.HwFirst) (hin : c.BrksInPlace) (h₀ : BareOf c₀ c)
    (H : Hardware κ P Hw W) (skip : HwCath) {s s' : Sys P W} (hst : s.toStore = s'.toStore) :
    (c.readSkip H skip s).1 = (c₀.readSkip H skip s').1 ∧
      (c.readSkip H skip s).2.toStore = (c₀.readSkip H skip s').2.toStore := by
  obtain ⟨brks, hops, hhw, hbrk, -⟩ := h.split h₀
  cases hhws : c₀.operators with
  | nil =>
    -- without hardware `skip` makes no difference
    have hbare : c₀.readSkip H skip s' = c₀.read H s' := by
      rw [readSkip, read, hhws]
    have hcell : c.readSkip H skip s = c.read H s := by
      rw [readSkip, read, hops, hhws, List.nil_append]
      cases hbrks : brks with
      | nil => rfl
      | cons o rest =>
        exact Operator.readSkip_brk H (hbrk o (by rw [hbrks]; exact List.mem_cons_self)) rest skip s
    rw [hbare, hcell]
    exact h.read_eq hin h₀ H hst
  | cons o rest =>
    have ho := hhw o (by rw [hhws]; exact List.mem_cons_self)
    cases hk : o.kind with
    | hw hw =>
      rw [readSkip, readSkip, hops, hhws]
      simp only [List.cons_append]
      rw [Operator.readSkip_hw H hk, Operator.readSkip_hw H hk]
      dsimp only
      rw [Operator.passRead_append_brks H hbrk, Sys.addEvents_toStore]
      split
      · exact ⟨congrArg (fun st => (H.read hw o.cell st).1) hst,
          Operator.passRead_congr H _ (congrArg (fun st => (H.read hw o.cell st).2.1) hst)⟩
      · exact ⟨congrArg (fun st => st.mem o.data) hst, Operator.passRead_congr H _ hst⟩
    | write bp => rw [hk] at ho; cases ho
    | read bp => rw [hk] at ho; cases ho

/-- Each read adds the read breakpoints to the events. -/
theorem HwFirst.read_events (h : c.HwFirst) (H : Hardware κ P Hw W) (s : Sys P W) :
    (c.read H s).2.events = (c.bare.read H s).2.events ++ c.brks.filterMap (·.readBrk) := by
  obtain ⟨brks, hops, hhw, hbrk, hbrks⟩ := h.split (bareOf_bare c)
  rw [read_snd, read_snd, hops, Operator.passRead_append_brks H hbrk, Sys.addEvents_events, hbrks,
    List.filterMap_map]
  rfl

theorem HwFirst.readSkip_events (h : c.HwFirst) (H : Hardware κ P Hw W) (skip : HwCath)
    (s : Sys P W) :
    (c.readSkip H skip s).2.events
      = (c.bare.readSkip H skip s).2.events ++ c.brks.filterMap (·.readBrk) := by
  obtain ⟨brks, hops, hhw, hbrk, hbrks⟩ := h.split (bareOf_bare c)
  cases hhws : c.bare.operators with
  | nil =>
    have hbare : c.bare.readSkip H skip s = c.bare.read H s := by
      rw [readSkip, read, hhws]
    have hcell : c.readSkip H skip s = c.read H s := by
      rw [readSkip, read, hops, hhws, List.nil_append]
      cases hb : brks with
      | nil => rfl
      | cons o rest =>
        exact Operator.readSkip_brk H (hbrk o (by rw [hb]; exact List.mem_cons_self)) rest skip s
    rw [hbare, hcell]
    exact h.read_events H s
  | cons o rest =>
    have ho := hhw o (by rw [hhws]; exact List.mem_cons_self)
    cases hk : o.kind with
    | hw hw =>
      rw [readSkip, readSkip, hops, hhws]
      simp only [List.cons_append]
      rw [Operator.readSkip_hw H hk, Operator.readSkip_hw H hk]
      dsimp only
      rw [Operator.passRead_append_brks H hbrk, Sys.addEvents_events, hbrks, List.filterMap_map]
      rfl
    | write bp => rw [hk] at ho; cases ho
    | read bp => rw [hk] at ho; cases ho

variable [DecidableEq P]

/-- A write is the way down the chain followed by the stores. -/
theorem write_eq (H : Hardware κ P Hw W) (hmask : ∀ o ∈ c.operators, o.mask = c.mask) (v : TMem)
    (s : Sys P W) :
    c.write H v s =
      let r := Operator.passWrite H c.operators v s
      (r.1 &&& c.mask, r.2.storeAll c.writePlaces (r.1 &&& c.mask)) := by
  rw [write, writePlaces]
  cases hops : c.operators with
  | nil => rfl
  | cons o next =>
    rw [hops] at hmask
    exact Operator.write_eq H c.mask next o v s hmask

omit [DecidableEq P] in
/-- With the breakpoints in place a write stores where it stores without them. -/
theorem HwFirst.mem_writePlaces (h : c.HwFirst) (hin : c.BrksInPlace) (h₀ : BareOf c₀ c) (p : P) :
    p ∈ c.writePlaces ↔ p ∈ c₀.writePlaces := by
  obtain ⟨brks, hops, hhw, hbrk, -⟩ := h.split h₀
  have hbare : c₀.writePlaces = c.bare.writePlaces := by
    rw [writePlaces, writePlaces, h₀.data, h₀.operators]
    rfl
  rcases List.eq_nil_or_concat' brks with rfl | ⟨l, o, rfl⟩
  · rw [List.append_nil] at hops
    rw [writePlaces, writePlaces, hops, h₀.data]
  · have hlast : c.operators = (c₀.operators ++ l) ++ [o] := by
      rw [hops, List.append_assoc]
    have hdata := hin.last hlast (hbrk o (by simp))
    rw [← hbare] at hdata
    have hplaces : p ∈ c.writePlaces ↔ p ∈ c₀.operators.map (·.data) ∨ o.data = p := by
      have hcons : c.writePlaces = Operator.places (c₀.operators ++ (l ++ [o])) := by
        rw [writePlaces, hops]
        cases hne : c₀.operators ++ (l ++ [o]) with
        | nil => simp at hne
        | cons x xs => rfl
      rw [hcons, Operator.mem_places_append hhw hbrk]
      simp
    rw [hplaces]
    cases hhws : c₀.operators with
    | nil =>
      rw [writePlaces, hhws] at hdata ⊢
      rw [List.mem_singleton] at hdata ⊢
      simp [hdata, eq_comm]
    | cons x xs =>
      have hmem (q : P) : q ∈ c₀.writePlaces ↔ q ∈ (x :: xs).map (·.data) := by
        have hnil : ∀ y ∈ ([] : List (Operator κ P Hw)), y.kind.isHw = false := by simp
        have hq := Operator.mem_places_append hhw hnil q
        rw [List.append_nil, hhws] at hq
        rw [writePlaces, hhws, hq]
        simp
      rw [hmem]
      rw [hmem] at hdata
      constructor
      · rintro (hp | rfl)
        · exact hp
        · exact hdata
      · exact Or.inl

/-- A write returns the value and leaves the store that it does without breakpoints. -/
theorem HwFirst.write_transparent (h : c.HwFirst) (hin : c.BrksInPlace) (h₀ : BareOf c₀ c)
    (H : Hardware κ P Hw W) (v : TMem) {s s' : Sys P W} (hst : s.toStore = s'.toStore) :
    (c.write H v s).1 = (c₀.write H v s').1 ∧
      (c.write H v s).2.toStore = (c₀.write H v s').2.toStore := by
  obtain ⟨brks, hops, hhw, hbrk, -⟩ := h.split h₀
  have hmask₀ : ∀ o ∈ c₀.operators, o.mask = c₀.mask := by
    intro o ho
    rw [h₀.mask]
    exact h.mask o (by rw [hops]; exact List.mem_append_left _ ho)
  obtain ⟨hval, hstore⟩ := Operator.passWrite_congr H c₀.operators (v := v) hst
  rw [write_eq H h.mask, write_eq H hmask₀, hops, Operator.passWrite_append_brks H hbrk, h₀.mask]
  dsimp only
  rw [hval]
  exact ⟨rfl, Sys.storeAll_toStore_congr (h.mem_writePlaces hin h₀) _ hstore⟩

/-- Each write adds the write breakpoints to the events. -/
theorem HwFirst.write_events (h : c.HwFirst) (H : Hardware κ P Hw W) (v : TMem) (s : Sys P W) :
    (c.write H v s).2.events
      = (c.bare.write H v s).2.events ++ c.brks.filterMap (·.writeBrk) := by
  obtain ⟨brks, hops, hhw, hbrk, hbrks⟩ := h.split (bareOf_bare c)
  have hmask₀ : ∀ o ∈ c.bare.operators, o.mask = c.bare.mask := fun o ho =>
    h.mask o (List.mem_of_mem_filter ho)
  rw [write_eq H h.mask, write_eq H hmask₀, hops, Operator.passWrite_append_brks H hbrk]
  dsimp only
  rw [Sys.storeAll_events, Sys.storeAll_events, Sys.addEvents_events, hbrks, List.filterMap_map]
  rfl

end Cell

/-! ## What can be done with a cell -/

/-- Setting and deleting breakpoints, and the three kinds of access. -/
inductive CellOp
  | setBrk (brk : Brk)
  | delBrk (brk : Brk)
  | read
  | readSkip (skip : HwCath)
  | write (v : TMem)
  deriving DecidableEq

namespace CellOp

/-- An access, which the program makes. -/
def isAccess : CellOp → Bool
  | .read | .readSkip _ | .write _ => true
  | .setBrk _ | .delBrk _ => false

/-- The breakpoints that are set after an operation. -/
def brksAfter (ks : List (OperatorKind Hw)) : CellOp → List (OperatorKind Hw)
  | .setBrk brk => ks ++ (AddressSpace.brkOperator brk).toList
  | .delBrk brk =>
    if (@AddressSpace.brkOperator Hw brk).isSome then ks.eraseP (·.matchBrk brk) else ks
  | .read | .readSkip _ | .write _ => ks

end CellOp

namespace AddressSpace

/-- The values read or written, the space and the system after a run. -/
structure CellRun (Hw W : Type) where
  values : List TMem
  space : AddressSpace Hw
  sys : Sys DataPtr W

/-- An operation on the cell at `a`. -/
def execCell (H : Hardware Int DataPtr Hw W) (a : Int) (r : CellRun Hw W) : CellOp → CellRun Hw W
  | .setBrk brk => { r with space := r.space.setBrk a brk }
  | .delBrk brk => { r with space := r.space.delBrk a brk }
  | .read =>
    let (v, sys) := (r.space.cellAt a).read H r.sys
    { r with values := r.values ++ [v], sys := sys }
  | .readSkip skip =>
    let (v, sys) := (r.space.cellAt a).readSkip H skip r.sys
    { r with values := r.values ++ [v], sys := sys }
  | .write v =>
    let (v, sys) := (r.space.cellAt a).write H v r.sys
    { r with values := r.values ++ [v], sys := sys }

/-- A sequence of operations on the cell at `a`. -/
def runCell (H : Hardware Int DataPtr Hw W) (a : Int) (ops : List CellOp) (sp : AddressSpace Hw)
    (s : Sys DataPtr W) : CellRun Hw W :=
  ops.foldl (execCell H a) { values := [], space := sp, sys := s }

/-- The space without the breakpoint operators of the cell at `a`. -/
def withoutBrks (sp : AddressSpace Hw) (a : Int) : AddressSpace Hw :=
  sp.setCell a (sp.cellAt a).bare

/-- What one expects of breakpoints on the cell at `a`: the run gives the values and leaves the store
of the run without breakpoints, the chain holds the breakpoints that are set, and each access adds
those of its kind to the events. -/
structure Transparent (sp : AddressSpace Hw) (a : Int) (H : Hardware Int DataPtr Hw W)
    (s : Sys DataPtr W) (ops : List CellOp) : Prop where
  values : (runCell H a ops sp s).values
    = (runCell H a (ops.filter (·.isAccess)) (sp.withoutBrks a) s).values
  store : (runCell H a ops sp s).sys.toStore
    = (runCell H a (ops.filter (·.isAccess)) (sp.withoutBrks a) s).sys.toStore
  chain : ((runCell H a ops sp s).space.cellAt a).operators.map (·.kind)
    = ((sp.cellAt a).operators.map (·.kind)).filter (·.isHw)
      ++ ops.foldl CellOp.brksAfter (sp.cellAt a).brks
  readEvents : ∀ t : Sys DataPtr W,
    (((runCell H a ops sp s).space.cellAt a).read H t).2.events
      = (((runCell H a ops sp s).space.cellAt a).bare.read H t).2.events
        ++ ((runCell H a ops sp s).space.cellAt a).brks.filterMap (·.readBrk)
  readSkipEvents : ∀ skip (t : Sys DataPtr W),
    (((runCell H a ops sp s).space.cellAt a).readSkip H skip t).2.events
      = (((runCell H a ops sp s).space.cellAt a).bare.readSkip H skip t).2.events
        ++ ((runCell H a ops sp s).space.cellAt a).brks.filterMap (·.readBrk)
  writeEvents : ∀ v (t : Sys DataPtr W),
    (((runCell H a ops sp s).space.cellAt a).write H v t).2.events
      = (((runCell H a ops sp s).space.cellAt a).bare.write H v t).2.events
        ++ ((runCell H a ops sp s).space.cellAt a).brks.filterMap (·.writeBrk)

/-! ## Setting and deleting breakpoints -/

/-- Erasing an item that passes the filter. -/
theorem filter_eraseP_of_imp {α : Type} {p q : α → Bool} (h : ∀ x, p x = true → q x = true) :
    ∀ l : List α, (l.eraseP p).filter q = (l.filter q).eraseP p
  | [] => rfl
  | x :: l => by
    have ih := filter_eraseP_of_imp h l
    cases hp : p x with
    | true => simp [hp, h x hp]
    | false =>
      cases hq : q x with
      | true => simp [hp, hq, ih]
      | false => simp [hp, hq, ih]

/-- Erasing an item that does not. -/
theorem filter_eraseP_of_disjoint {α : Type} {p q : α → Bool}
    (h : ∀ x, p x = true → q x = false) : ∀ l : List α, (l.eraseP p).filter q = l.filter q
  | [] => rfl
  | x :: l => by
    have ih := filter_eraseP_of_disjoint h l
    cases hp : p x with
    | true => simp [hp, h x hp]
    | false =>
      cases hq : q x with
      | true => simp [hp, hq, ih]
      | false => simp [hp, hq, ih]

theorem isHw_of_matchBrk {brk : Brk} {k : OperatorKind Hw} (h : k.matchBrk brk = true) :
    k.isHw = false := by
  cases k with
  | hw hw => cases h
  | write bp => rfl
  | read bp => rfl

theorem eq_of_matchBrk {brk brk' : Brk} {k : OperatorKind Hw} (h : k.matchBrk brk = true)
    (h' : k.matchBrk brk' = true) : brk = brk' := by
  cases k with
  | hw hw => cases h
  | write bp => exact (beq_iff_eq.mp h).symm.trans (beq_iff_eq.mp h')
  | read bp => exact (beq_iff_eq.mp h).symm.trans (beq_iff_eq.mp h')

theorem isHw_of_brkOperator {brk : Brk} {k : OperatorKind Hw} (h : brkOperator brk = some k) :
    k.isHw = false := by
  rw [brkOperator] at h
  split at h
  · cases h; rfl
  · cases h; rfl
  · cases h
  · cases h

theorem matchBrk_of_brkOperator {brk : Brk} {k : OperatorKind Hw} (h : brkOperator brk = some k) :
    k.matchBrk brk = true := by
  rw [brkOperator] at h
  split at h
  · cases h; exact beq_self_eq_true brk
  · cases h; exact beq_self_eq_true brk
  · cases h
  · cases h

variable {sp sp₀ : AddressSpace Hw} {a : Int} {ks : List (OperatorKind Hw)}

/-- The cell at `a` is that of `sp₀` but for its breakpoints, which are `ks` now. -/
structure Follows (sp₀ sp : AddressSpace Hw) (a : Int) (ks : List (OperatorKind Hw)) : Prop where
  valid : sp.validAddress a
  data : (sp.cellAt a).data = (sp₀.cellAt a).data
  mask : (sp.cellAt a).mask = (sp₀.cellAt a).mask
  hw : (sp.cellAt a).operators.filter (·.kind.isHw) = (sp₀.cellAt a).operators.filter (·.kind.isHw)
  hwFirst : (sp.cellAt a).HwFirst
  inPlace : (sp.cellAt a).BrksInPlace
  brks : (sp.cellAt a).brks = ks

/-- Where a write without breakpoints stores depends on the hardware operators only. -/
theorem writePlaces_bare_congr {κ P : Type} {c c' : Cell κ P Hw} (hdata : c'.data = c.data)
    (hhw : c'.operators.filter (·.kind.isHw) = c.operators.filter (·.kind.isHw)) :
    c'.bare.writePlaces = c.bare.writePlaces := by
  rw [Cell.writePlaces, Cell.writePlaces, Cell.bare, Cell.bare]
  dsimp only
  rw [hhw, hdata]

theorem Follows.setBrk (h : Follows sp₀ sp a ks) (brk : Brk) :
    Follows sp₀ (sp.setBrk a brk) a (CellOp.brksAfter ks (.setBrk brk)) := by
  have hs := setBrk_sameWiring sp a brk
  have hops := setBrk_operators sp a a brk
  rw [if_pos ⟨rfl, h.valid⟩] at hops
  have hvalid : (sp.setBrk a brk).validAddress a := by
    rw [validAddress, hs.startAddress, hs.size]
    exact h.valid
  cases hk : @brkOperator Hw brk with
  | none =>
    rw [hk, Option.toList_none, List.map_nil, List.append_nil] at hops
    have hbrks : CellOp.brksAfter ks (.setBrk brk) = ks := by
      rw [CellOp.brksAfter, hk]
      simp
    have hwp : ((sp.setBrk a brk).cellAt a).bare.writePlaces = (sp.cellAt a).bare.writePlaces :=
      writePlaces_bare_congr (hs.data a) (by rw [hops])
    refine ⟨hvalid, (hs.data a).trans h.data, (hs.mask a).trans h.mask, by rw [hops]; exact h.hw,
      ⟨by rw [hops]; exact h.hwFirst.order, by rw [hops, hs.mask]; exact h.hwFirst.mask,
        by rw [hops]; exact h.hwFirst.event⟩,
      ⟨by rw [hwp, hs.data]; exact h.inPlace.1, by rw [hwp, hops]; exact h.inPlace.2⟩, ?_⟩
    rw [hbrks, Cell.brks, hops]
    exact h.brks
  | some k =>
    have hkhw : k.isHw = false := isHw_of_brkOperator hk
    rw [hk, Option.toList_some, List.map_singleton] at hops
    have hfilter : ((sp.setBrk a brk).cellAt a).operators.filter (·.kind.isHw)
        = (sp.cellAt a).operators.filter (·.kind.isHw) := by
      rw [hops, List.filter_append]
      simp [hkhw]
    have hwp : ((sp.setBrk a brk).cellAt a).bare.writePlaces = (sp.cellAt a).bare.writePlaces :=
      writePlaces_bare_congr (hs.data a) hfilter
    refine ⟨hvalid, (hs.data a).trans h.data, (hs.mask a).trans h.mask, hfilter.trans h.hw,
      ⟨?_, ?_, ?_⟩, ⟨by rw [hwp, hs.data]; exact h.inPlace.1, ?_⟩, ?_⟩
    · rw [hfilter, hops, List.filter_append, ← List.append_assoc, ← h.hwFirst.order]
      simp [hkhw]
    · intro o ho
      rw [hops] at ho
      rw [hs.mask]
      rcases List.mem_append.mp ho with ho | ho
      · exact h.hwFirst.mask o ho
      · rw [List.mem_singleton.mp ho]
    · intro o ho hohw
      rw [hops] at ho
      rcases List.mem_append.mp ho with ho | ho
      · exact h.hwFirst.event o ho hohw
      · rw [List.mem_singleton.mp ho]
        exact ⟨brk, hk⟩
    · -- the new operator works on the cell's own place
      intro brk' o ho
      rw [hwp]
      rw [hops, List.filter_append, List.filter_singleton] at ho
      cases hm : k.matchBrk brk' with
      | true =>
        simp only [hm, cond_true, List.getLast?_append, List.getLast?_singleton, Option.some_or,
          Option.mem_some_iff] at ho
        rw [← ho]
        exact h.inPlace.1
      | false =>
        simp only [hm, cond_false, List.append_nil] at ho
        exact h.inPlace.2 brk' o ho
    · rw [CellOp.brksAfter, hk, ← h.brks, Cell.brks, Cell.brks, hops, List.map_append,
        List.filter_append]
      simp [hkhw]

theorem Follows.delBrk (h : Follows sp₀ sp a ks) (brk : Brk) :
    Follows sp₀ (sp.delBrk a brk) a (CellOp.brksAfter ks (.delBrk brk)) := by
  have hs := delBrk_sameWiring sp a brk
  have hops := delBrk_operators sp a a brk
  have hvalid : (sp.delBrk a brk).validAddress a := by
    rw [validAddress, hs.startAddress, hs.size]
    exact h.valid
  by_cases hsome : (@brkOperator Hw brk).isSome
  · rw [if_pos ⟨rfl, h.valid, hsome⟩] at hops
    have hfilter : ((sp.delBrk a brk).cellAt a).operators.filter (·.kind.isHw)
        = (sp.cellAt a).operators.filter (·.kind.isHw) := by
      rw [hops]
      exact filter_eraseP_of_disjoint (fun x hx => isHw_of_matchBrk hx) _
    have hnhw : ((sp.delBrk a brk).cellAt a).operators.filter (!·.kind.isHw)
        = ((sp.cellAt a).operators.filter (!·.kind.isHw)).eraseP (·.kind.matchBrk brk) := by
      rw [hops]
      exact filter_eraseP_of_imp (fun x hx => by simp [isHw_of_matchBrk hx]) _
    have hwp : ((sp.delBrk a brk).cellAt a).bare.writePlaces = (sp.cellAt a).bare.writePlaces :=
      writePlaces_bare_congr (hs.data a) hfilter
    refine ⟨hvalid, (hs.data a).trans h.data, (hs.mask a).trans h.mask, hfilter.trans h.hw,
      ⟨?_, ?_, ?_⟩, ⟨by rw [hwp, hs.data]; exact h.inPlace.1, ?_⟩, ?_⟩
    · rw [hfilter, hnhw, hops]
      nth_rewrite 1 [h.hwFirst.order]
      refine List.eraseP_append_right _ ?_
      intro x hx hmatch
      have hhw := (List.mem_filter.mp hx).2
      rw [isHw_of_matchBrk hmatch] at hhw
      cases hhw
    · intro o ho
      rw [hops] at ho
      rw [hs.mask]
      exact h.hwFirst.mask o (List.mem_of_mem_eraseP ho)
    · intro o ho
      rw [hops] at ho
      exact h.hwFirst.event o (List.mem_of_mem_eraseP ho)
    · intro brk' o ho
      rw [hwp]
      rw [hops] at ho
      refine h.inPlace.2 brk' o ?_
      by_cases hbrk : brk' = brk
      · subst hbrk
        rw [filter_eraseP_of_imp (fun x hx => hx)] at ho
        -- what is erased is the oldest operator of the breakpoint
        cases hl : (sp.cellAt a).operators.filter (·.kind.matchBrk brk') with
        | nil =>
          rw [hl] at ho
          cases ho
        | cons x rest =>
          have hx : x.kind.matchBrk brk' = true := by
            have hmem : x ∈ (sp.cellAt a).operators.filter (·.kind.matchBrk brk') := by
              rw [hl]
              exact List.mem_cons_self
            exact (List.mem_filter.mp hmem).2
          have herase : (x :: rest).eraseP (·.kind.matchBrk brk') = rest :=
            List.eraseP_cons_of_pos hx
          rw [hl, herase] at ho
          cases rest with
          | nil => cases ho
          | cons y ys => rw [List.getLast?_cons_cons]; exact ho
      · rw [filter_eraseP_of_disjoint] at ho
        · exact ho
        · intro x hx
          cases hx' : x.kind.matchBrk brk' with
          | false => rfl
          | true => exact absurd (eq_of_matchBrk hx' hx) hbrk
    · rw [CellOp.brksAfter, if_pos hsome, ← h.brks, Cell.brks, Cell.brks, List.filter_map,
        List.filter_map]
      show List.map _ (((sp.delBrk a brk).cellAt a).operators.filter (!·.kind.isHw)) = _
      rw [hnhw, List.eraseP_map]
      rfl
  · rw [if_neg (fun hc => hsome hc.2.2)] at hops
    have hwp : ((sp.delBrk a brk).cellAt a).bare.writePlaces = (sp.cellAt a).bare.writePlaces :=
      writePlaces_bare_congr (hs.data a) (by rw [hops])
    refine ⟨hvalid, (hs.data a).trans h.data, (hs.mask a).trans h.mask, by rw [hops]; exact h.hw,
      ⟨by rw [hops]; exact h.hwFirst.order, by rw [hops, hs.mask]; exact h.hwFirst.mask,
        by rw [hops]; exact h.hwFirst.event⟩,
      ⟨by rw [hwp, hs.data]; exact h.inPlace.1, by rw [hwp, hops]; exact h.inPlace.2⟩, ?_⟩
    rw [CellOp.brksAfter, if_neg hsome, Cell.brks, hops]
    exact h.brks

/-! ## Runs -/

/-- A run with breakpoints on the cell at `a` and the one without. -/
structure Matches (sp₀ : AddressSpace Hw) (a : Int) (r r₀ : CellRun Hw W)
    (ks : List (OperatorKind Hw)) : Prop where
  values : r.values = r₀.values
  store : r.sys.toStore = r₀.sys.toStore
  follows : Follows sp₀ r.space a ks
  bare : r₀.space = sp₀.withoutBrks a

/-- The cell of the run without breakpoints. -/
theorem Matches.bareOf {r r₀ : CellRun Hw W} (h : Matches sp₀ a r r₀ ks) :
    (r₀.space.cellAt a).BareOf (r.space.cellAt a) := by
  rw [h.bare, withoutBrks, cellAt_setCell_self]
  exact ⟨h.follows.hw.symm, h.follows.data.symm, h.follows.mask.symm⟩

/-- An access goes the same way in both runs, and the other operations go in one of them only. -/
theorem Matches.step {r r₀ : CellRun Hw W} (h : Matches sp₀ a r r₀ ks)
    (H : Hardware Int DataPtr Hw W) (op : CellOp) :
    Matches sp₀ a (execCell H a r op) (if op.isAccess then execCell H a r₀ op else r₀)
      (CellOp.brksAfter ks op) := by
  cases op with
  | setBrk brk => exact ⟨h.values, h.store, h.follows.setBrk brk, h.bare⟩
  | delBrk brk => exact ⟨h.values, h.store, h.follows.delBrk brk, h.bare⟩
  | read =>
    obtain ⟨hval, hstore⟩ := h.follows.hwFirst.read_eq h.follows.inPlace h.bareOf H h.store
    exact ⟨congrArg₂ (· ++ [·]) h.values hval, hstore, h.follows, h.bare⟩
  | readSkip skip =>
    obtain ⟨hval, hstore⟩ :=
      h.follows.hwFirst.readSkip_eq h.follows.inPlace h.bareOf H skip h.store
    exact ⟨congrArg₂ (· ++ [·]) h.values hval, hstore, h.follows, h.bare⟩
  | write v =>
    obtain ⟨hval, hstore⟩ :=
      h.follows.hwFirst.write_transparent h.follows.inPlace h.bareOf H v h.store
    exact ⟨congrArg₂ (· ++ [·]) h.values hval, hstore, h.follows, h.bare⟩

theorem Matches.run (H : Hardware Int DataPtr Hw W) (ops : List CellOp) :
    ∀ {r r₀ : CellRun Hw W} {ks : List (OperatorKind Hw)}, Matches sp₀ a r r₀ ks →
      Matches sp₀ a (ops.foldl (execCell H a) r)
        ((ops.filter (·.isAccess)).foldl (execCell H a) r₀) (ops.foldl CellOp.brksAfter ks) := by
  induction ops with
  | nil => exact fun h => h
  | cons op ops ih =>
    intro r r₀ ks h
    have hnext := ih (h.step H op)
    rw [List.foldl_cons, List.foldl_cons]
    cases hacc : op.isAccess with
    | true =>
      rw [hacc, if_pos rfl] at hnext
      rw [List.filter_cons_of_pos hacc, List.foldl_cons]
      exact hnext
    | false =>
      rw [hacc, if_neg (by simp)] at hnext
      rw [List.filter_cons_of_neg (by simp [hacc])]
      exact hnext

/-- With the breakpoints in place, they are transparent. -/
theorem transparent_of_inPlace (hv : sp.validAddress a) (hf : (sp.cellAt a).HwFirst)
    (hin : (sp.cellAt a).BrksInPlace) (H : Hardware Int DataPtr Hw W) (s : Sys DataPtr W)
    (ops : List CellOp) : Transparent sp a H s ops := by
  have hstart : Matches sp a (W := W) { values := [], space := sp, sys := s }
      { values := [], space := sp.withoutBrks a, sys := s } (sp.cellAt a).brks :=
    ⟨rfl, rfl, ⟨hv, rfl, rfl, rfl, hf, hin, rfl⟩, rfl⟩
  have hrun := hstart.run H ops
  have hfollows := hrun.follows
  refine ⟨hrun.values, hrun.store, ?_, fun t => hfollows.hwFirst.read_events H t,
    fun skip t => hfollows.hwFirst.readSkip_events H skip t,
    fun v t => hfollows.hwFirst.write_events H v t⟩
  have hmap := congrArg (List.map (·.kind)) hfollows.hwFirst.order
  rw [List.map_append, hfollows.hw] at hmap
  rw [← hfollows.brks, Cell.brks, List.filter_map, List.filter_map]
  exact hmap

/-! ## Breakpoints that are not in place -/

/-- Hardware that only counts as hardware. -/
def idleHardware (Hw : Type) : Hardware Int DataPtr Hw Unit where
  cathegory _ := .dummy
  read _ _ st := (0, st, [])
  write _ _ v st := (v, st, [])

theorem passWrite_idleHardware (l : List (Operator Int DataPtr Hw)) :
    ∀ (v : TMem) (s : Sys DataPtr Unit),
      (Operator.passWrite (idleHardware Hw) l v s).1 = v ∧
        (Operator.passWrite (idleHardware Hw) l v s).2.mem = s.mem := by
  induction l with
  | nil => exact fun v s => ⟨rfl, rfl⟩
  | cons o rest ih =>
    intro v s
    rw [Operator.passWrite]
    cases o.kind with
    | hw h => exact ih v _
    | write bp => exact ih v _
    | read bp => exact ih v s

/-- Writing 0 clears exactly the places that a write stores to. -/
theorem write_zero_mem {c : Cell Int DataPtr Hw} (hmask : ∀ o ∈ c.operators, o.mask = c.mask)
    (s : Sys DataPtr Unit) (p : DataPtr) :
    (c.write (idleHardware Hw) 0 s).2.mem p = if p ∈ c.writePlaces then 0 else s.mem p := by
  obtain ⟨hval, hmem⟩ := passWrite_idleHardware c.operators 0 s
  rw [Cell.write_eq _ hmask]
  dsimp only
  have hzero : (0 : TMem) &&& c.mask = 0 := BitVec.zero_and
  rw [Sys.storeAll_mem, hval, hmem, hzero]

/-- The newest operator of a chain is one of those that store. -/
theorem mem_writePlaces_last {c : Cell Int DataPtr Hw} {l : List (Operator Int DataPtr Hw)}
    {o : Operator Int DataPtr Hw} (hops : c.operators = l ++ [o]) : o.data ∈ c.writePlaces := by
  have hlast (l : List (Operator Int DataPtr Hw)) : o.data ∈ Operator.places (l ++ [o]) := by
    induction l with
    | nil => simp [Operator.places]
    | cons x rest ih =>
      cases hrest : rest ++ [o] with
      | nil => simp at hrest
      | cons y ys =>
        rw [List.cons_append, hrest, Operator.places, ← hrest]
        split
        · exact List.mem_cons_of_mem _ ih
        · exact ih
  rw [Cell.writePlaces, hops]
  cases hne : l ++ [o] with
  | nil => simp at hne
  | cons x xs =>
    show o.data ∈ Operator.places (x :: xs)
    rw [← hne]
    exact hlast l

/-- Deleting the breakpoints `bs` erases an operator of each. -/
theorem foldl_delBrk (H : Hardware Int DataPtr Hw Unit) (hv : sp.validAddress a) (bs : List Brk)
    (hbs : ∀ brk ∈ bs, (@brkOperator Hw brk).isSome) (s : Sys DataPtr Unit) :
    ∃ sp', (bs.map CellOp.delBrk).foldl (execCell H a) { values := [], space := sp, sys := s }
        = { values := [], space := sp', sys := s } ∧
      (sp'.cellAt a).operators
        = bs.foldl (fun ops brk => ops.eraseP (·.kind.matchBrk brk)) (sp.cellAt a).operators ∧
      (sp'.cellAt a).mask = (sp.cellAt a).mask := by
  induction bs generalizing sp with
  | nil => exact ⟨sp, rfl, rfl, rfl⟩
  | cons brk bs ih =>
    have hs := delBrk_sameWiring sp a brk
    have hops := delBrk_operators sp a a brk
    rw [if_pos ⟨rfl, hv, hbs brk List.mem_cons_self⟩] at hops
    have hvalid : (sp.delBrk a brk).validAddress a := by
      rw [validAddress, hs.startAddress, hs.size]
      exact hv
    obtain ⟨sp', hrun, hops', hmask'⟩ := ih hvalid (fun b hb => hbs b (List.mem_cons_of_mem _ hb))
    refine ⟨sp', hrun, ?_, hmask'.trans (hs.mask a)⟩
    rw [hops', hops, List.foldl_cons]

/-- The breakpoint of an operator. -/
def operatorBrk (o : Operator Int DataPtr Hw) : Option Brk :=
  match o.kind with
  | .hw _ => none
  | .write bp | .read bp => some bp

theorem matchBrk_iff (o : Operator Int DataPtr Hw) (brk : Brk) :
    o.kind.matchBrk brk = true ↔ operatorBrk o = some brk := by
  rw [operatorBrk]
  cases o.kind <;> simp [OperatorKind.matchBrk]

theorem isHw_iff (o : Operator Int DataPtr Hw) : o.kind.isHw = true ↔ operatorBrk o = none := by
  rw [operatorBrk]
  cases o.kind <;> simp [OperatorKind.isHw]

/-- An operator that none of the breakpoints matches stays in front. -/
theorem foldl_eraseP_cons {o : Operator Int DataPtr Hw} (bs : List Brk)
    (hbs : ∀ b ∈ bs, ¬ o.kind.matchBrk b = true) :
    ∀ l : List (Operator Int DataPtr Hw),
      bs.foldl (fun ops b => ops.eraseP (·.kind.matchBrk b)) (o :: l)
        = o :: bs.foldl (fun ops b => ops.eraseP (·.kind.matchBrk b)) l := by
  induction bs with
  | nil => exact fun l => rfl
  | cons b bs ih =>
    intro l
    have herase : (o :: l).eraseP (·.kind.matchBrk b) = o :: l.eraseP (·.kind.matchBrk b) :=
      List.eraseP_cons_of_neg (hbs b List.mem_cons_self)
    rw [List.foldl_cons, List.foldl_cons, herase]
    exact ih (fun b' hb' => hbs b' (List.mem_cons_of_mem _ hb')) _

/-- Erasing an operator for each breakpoint other than `brk` leaves the hardware and those of `brk`. -/
theorem foldl_eraseP_others (brk : Brk) :
    ∀ l : List (Operator Int DataPtr Hw),
      ((l.filterMap operatorBrk).filter (· ≠ brk)).foldl
          (fun ops b => ops.eraseP (·.kind.matchBrk b)) l
        = l.filter (fun o => o.kind.isHw || o.kind.matchBrk brk)
  | [] => rfl
  | o :: l => by
    have ih := foldl_eraseP_others brk l
    cases ho : operatorBrk o with
    | none =>
      have hhw := (isHw_iff o).mpr ho
      rw [List.filterMap_cons_none ho, foldl_eraseP_cons _ (fun b _ hb => by
        rw [matchBrk_iff, ho] at hb; cases hb), ih]
      simp [hhw]
    | some bp =>
      rw [List.filterMap_cons_some ho]
      by_cases hbp : bp = brk
      · -- the operator belongs to `brk`, which is not among those deleted
        subst hbp
        have hmatch := (matchBrk_iff o bp).mpr ho
        rw [List.filter_cons_of_neg (by simp), foldl_eraseP_cons _ (fun b hb hmb => by
          rw [matchBrk_iff, ho, Option.some_inj] at hmb
          subst hmb
          simp at hb), ih]
        simp [hmatch]
      · have hmatch := (matchBrk_iff o bp).mpr ho
        have herase : (o :: l).eraseP (·.kind.matchBrk bp) = l := List.eraseP_cons_of_pos hmatch
        have hnot : (o.kind.isHw || o.kind.matchBrk brk) = false := by
          rw [Bool.or_eq_false_iff]
          constructor
          · exact isHw_of_matchBrk hmatch
          · cases hm : o.kind.matchBrk brk with
            | false => rfl
            | true => exact absurd (eq_of_matchBrk hmatch hm) hbp
        rw [List.filter_cons_of_pos (by simpa using hbp), List.foldl_cons, herase, ih,
          List.filter_cons_of_neg (by simp [hnot])]

/-- Only the breakpoints that stay in place are transparent for every hardware and every sequence of
operations: a single write shows the difference. -/
theorem inPlace_of_transparent (hv : sp.validAddress a) (hf : (sp.cellAt a).HwFirst)
    (h : ∀ s ops, Transparent sp a (idleHardware Hw) s ops) : (sp.cellAt a).BrksInPlace := by
  let s : Sys DataPtr Unit := { mem := fun _ => 1, hw := (), events := [] }
  -- the write without breakpoints
  have hbare (p : DataPtr) :
      (runCell (idleHardware Hw) a [.write 0] (sp.withoutBrks a) s).sys.mem p
        = if p ∈ (sp.cellAt a).bare.writePlaces then 0 else 1 := by
    have hcell : (sp.withoutBrks a).cellAt a = (sp.cellAt a).bare := cellAt_setCell_self sp a _
    show (((sp.withoutBrks a).cellAt a).write (idleHardware Hw) 0 s).2.mem p = _
    rw [hcell, write_zero_mem (c := (sp.cellAt a).bare)
      (fun o ho => hf.mask o (List.mem_of_mem_filter ho))]
  constructor
  · by_contra hdata
    have hkind : @brkOperator Hw { nr := 0, event := .write } = some (.write { nr := 0, event := .write }) :=
      rfl
    have hstore := (h s [.setBrk { nr := 0, event := .write }, .write 0]).store
    have hmem := congrArg (fun st => st.mem (sp.cellAt a).data) hstore
    have hs := setBrk_sameWiring sp a { nr := 0, event := .write }
    have hops := setBrk_operators sp a a { nr := 0, event := .write }
    rw [if_pos ⟨rfl, hv⟩, hkind] at hops
    have hplace := mem_writePlaces_last hops
    have hrun : (runCell (idleHardware Hw) a [.setBrk { nr := 0, event := .write }, .write 0] sp
        s).sys.mem (sp.cellAt a).data = 0 := by
      show ((((sp.setBrk a { nr := 0, event := .write }).cellAt a)).write (idleHardware Hw) 0
        s).2.mem (sp.cellAt a).data = 0
      rw [write_zero_mem, if_pos hplace]
      intro o ho
      rw [hops] at ho
      rw [hs.mask]
      rcases List.mem_append.mp ho with ho | ho
      · exact hf.mask o ho
      · obtain ⟨k, -, rfl⟩ := List.mem_map.mp ho
        rfl
    have hfilter : [CellOp.setBrk { nr := 0, event := .write }, .write 0].filter (·.isAccess)
        = [.write 0] := rfl
    rw [hfilter] at hmem
    rw [hrun, hbare, if_neg hdata] at hmem
    revert hmem
    decide
  · intro brk o ho
    by_contra hdata
    let bs := ((sp.cellAt a).operators.filterMap operatorBrk).filter (· ≠ brk)
    have hbs : ∀ b ∈ bs, (@brkOperator Hw b).isSome := by
      intro b hb
      obtain ⟨o', ho', hbrk'⟩ := List.mem_filterMap.mp (List.mem_of_mem_filter hb)
      have hmatch := (matchBrk_iff o' b).mpr hbrk'
      obtain ⟨brk', hk⟩ := hf.event o' ho' (isHw_of_matchBrk hmatch)
      have hbb : b = brk' := eq_of_matchBrk hmatch (matchBrk_of_brkOperator hk)
      rw [hbb, hk]
      rfl
    obtain ⟨sp', hrun, hops, hmask⟩ := foldl_delBrk (idleHardware Hw) hv bs hbs s
    rw [foldl_eraseP_others] at hops
    -- the newest operator of `brk` is the newest of all now
    have hlast : ∃ l, (sp'.cellAt a).operators = l ++ [o] := by
      obtain ⟨l, hl⟩ := List.getLast?_eq_some_iff.mp ho
      refine ⟨(sp.cellAt a).operators.filter (·.kind.isHw) ++ l, ?_⟩
      rw [hops, List.append_assoc, ← hl]
      nth_rewrite 1 [hf.order]
      rw [List.filter_append, List.filter_filter, List.filter_filter]
      congr 1
      · exact List.filter_congr (fun x _ => by cases x.kind.isHw <;> simp)
      · refine List.filter_congr (fun x _ => ?_)
        cases hm : x.kind.matchBrk brk with
        | true => simp [isHw_of_matchBrk hm]
        | false => cases x.kind.isHw <;> simp
    obtain ⟨l, hlast⟩ := hlast
    have hplace := mem_writePlaces_last hlast
    have hmem := congrArg (fun st => st.mem o.data)
      (h s (bs.map CellOp.delBrk ++ [CellOp.write 0])).store
    have hfilter : (bs.map CellOp.delBrk ++ [CellOp.write 0]).filter CellOp.isAccess
        = [CellOp.write 0] := by
      rw [List.filter_append, List.filter_eq_nil_iff.mpr]
      · rfl
      · intro op hop
        obtain ⟨b, -, rfl⟩ := List.mem_map.mp hop
        simp [CellOp.isAccess]
    have hcleared : (runCell (idleHardware Hw) a (bs.map CellOp.delBrk ++ [CellOp.write 0]) sp
        s).sys.mem
        o.data = 0 := by
      rw [runCell, List.foldl_append, hrun]
      show ((sp'.cellAt a).write (idleHardware Hw) 0 s).2.mem o.data = 0
      rw [write_zero_mem, if_pos hplace]
      intro o' ho'
      rw [hops] at ho'
      rw [hmask]
      exact hf.mask o' (List.mem_of_mem_filter ho')
    rw [hfilter] at hmem
    rw [hcleared, hbare, if_neg hdata] at hmem
    revert hmem
    decide

/-- Breakpoints on a cell are transparent, whatever the hardware does and however they are set and
deleted, exactly if they are in place: the cell's own place, and that of the newest operator of each
breakpoint, are among those that a write without breakpoints stores to. -/
theorem transparent_iff_inPlace (hv : sp.validAddress a) (hf : (sp.cellAt a).HwFirst) :
    (∀ (W : Type) (H : Hardware Int DataPtr Hw W) (s : Sys DataPtr W) (ops : List CellOp),
      Transparent sp a H s ops) ↔ (sp.cellAt a).BrksInPlace := by
  constructor
  · intro h
    exact inPlace_of_transparent hv hf (h Unit (idleHardware Hw))
  · intro hin W H s ops
    exact transparent_of_inPlace hv hf hin H s ops

/-- A cell with hardware and a breakpoint. -/
def watchedSpace : AddressSpace Unit :=
  ((new 0 4).registerHw 0 ()).setBrk 0 { nr := 1, event := .write }

/-- The breakpoint on that cell is transparent. -/
theorem transparent_watchedSpace :
    (watchedSpace.cellAt 0).BrksInPlace ∧
      ∀ (W : Type) (H : Hardware Int DataPtr Unit W) (s : Sys DataPtr W) (ops : List CellOp),
        Transparent watchedSpace 0 H s ops := by
  have hops : (watchedSpace.cellAt 0).operators
      = [{ kind := .hw (), cell := 0, data := .heap 0, mask := 0xff },
        { kind := .write { nr := 1, event := .write }, cell := 0, data := .heap 0, mask := 0xff }] :=
    rfl
  have hplaces : (watchedSpace.cellAt 0).bare.writePlaces = [.heap 0] := rfl
  have hin : (watchedSpace.cellAt 0).BrksInPlace := by
    refine ⟨?_, ?_⟩
    · rw [hplaces]
      exact List.mem_singleton.mpr rfl
    · intro brk o ho
      have hmem := List.mem_of_mem_filter (List.mem_of_getLast? ho)
      rw [hops] at hmem
      rw [hplaces, List.mem_singleton]
      simp only [List.mem_cons, List.not_mem_nil, or_false] at hmem
      rcases hmem with rfl | rfl
      · rfl
      · rfl
  refine ⟨hin, (transparent_iff_inPlace (by decide) ⟨rfl, by decide, ?_⟩).mpr hin⟩
  intro o ho hhw
  rw [hops] at ho
  simp only [List.mem_cons, List.not_mem_nil, or_false] at ho
  rcases ho with rfl | rfl
  · cases hhw
  · exact ⟨{ nr := 1, event := .write }, rfl⟩

/-- If the cell is decoded after its hardware has been registered, a breakpoint that is set on it makes
a write reach its storage that does not without the breakpoint. -/
theorem not_transparent_registered_first :
    (spaceRuns Unit 0 4).Reachable (withWholeDecoder ((new 0 4).registerHw 0 ())) ∧
      ((withWholeDecoder ((new 0 4).registerHw 0 ())).cellAt 0).HwFirst ∧
        ¬ Transparent (withWholeDecoder ((new 0 4).registerHw 0 ())) 0 quietHardware
          { mem := fun _ => 0, hw := (), events := [] }
          [.setBrk { nr := 1, event := .write }, .write 5] := by
  refine ⟨reachable_registered_first, ⟨rfl, by decide, ?_⟩, fun h => ?_⟩
  · intro o ho hhw
    have hall : ∀ o ∈ ((withWholeDecoder ((new 0 4).registerHw 0 ())).cellAt 0).operators,
        o.kind.isHw = true := by decide
    rw [hall o ho] at hhw
    cases hhw
  · have hmem := congrArg (fun st => st.mem (.slot 0 0)) h.store
    revert hmem
    decide

end AddressSpace

end Ucsim
