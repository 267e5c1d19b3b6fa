import Ucsim.Sim.OperatorChain
import Ucsim.Sim.SpaceRun

/-!
# Operators and the storage of their cell

An operator keeps the data pointer that its cell had when the operator was created. `set_data`, which
could tell it a new one, is never called, so that a cell that is moved leaves its operators behind.
In a run that moves no cell with operators, reading and writing through the operators works on the
current storage of the cell.
-/

namespace Ucsim

open Logic

variable {Hw W : Type}

namespace AddressSpace

variable {sp sp' : AddressSpace Hw}

/-- All hardware reads a cell by `cell->get()`, as `cl_hw::read` does. -/
def ReadsByGet (sp : AddressSpace Hw) (H : Hardware Int DataPtr Hw W) : Prop :=
  ∀ h idx st, H.read h idx st = ((sp.cells idx).get st, st, [])

/-- No hardware alters the value that is written. -/
def KeepsValue (H : Hardware Int DataPtr Hw W) : Prop := ∀ h idx v st, (H.write h idx v st).1 = v

/-- Reading and writing the cell at `a` works on its current storage. -/
structure CellLaw (sp : AddressSpace Hw) (a : Int) : Prop where
  read : ∀ (W : Type) (H : Hardware Int DataPtr Hw W), sp.ReadsByGet H → ∀ s : Sys DataPtr W,
    ((sp.cellAt a).read H s).1 = (sp.cellAt a).get s.toStore
  write : ∀ (W : Type) (H : Hardware Int DataPtr Hw W), KeepsValue H → ∀ v (s : Sys DataPtr W),
    (sp.cellAt a).get ((sp.cellAt a).write H v s).2.toStore = v &&& (sp.cellAt a).mask

/-! ## The invariant -/

/-- The operators of each cell belong to it and have its data pointer and mask. -/
def InPlace (sp : AddressSpace Hw) : Prop :=
  ∀ a, ∀ o ∈ (sp.cellAt a).operators,
    o.cell = a - sp.startAddress ∧ o.data = (sp.cellAt a).data ∧ o.mask = (sp.cellAt a).mask

/-- A chain that works on one place stores there. -/
theorem mem_places {κ P : Type} {p : P} :
    ∀ l : List (Operator κ P Hw), l ≠ [] → (∀ o ∈ l, o.data = p) → p ∈ Operator.places l
  | [], hne, _ => absurd rfl hne
  | [o], _, hp => by simpa [Operator.places] using (hp o List.mem_cons_self).symm
  | o :: o' :: rest, _, hp => by
    have hrest := mem_places (o' :: rest) (List.cons_ne_nil _ _)
      (fun x hx => hp x (List.mem_cons_of_mem o hx))
    rw [Operator.places]
    split
    · exact List.mem_cons_of_mem _ hrest
    · exact hrest

/-- Hardware that does not alter the value passes it on. -/
theorem passWrite_keepsValue {H : Hardware Int DataPtr Hw W} (hH : KeepsValue H)
    (l : List (Operator Int DataPtr Hw)) (v : TMem) (s : Sys DataPtr W) :
    (Operator.passWrite H l v s).1 = v := by
  induction l generalizing s with
  | nil => rfl
  | cons o rest ih =>
    rw [Operator.passWrite]
    cases o.kind with
    | hw h =>
      have hval : (s.call (H.write h o.cell v)).1 = v := hH h o.cell v s.toStore
      dsimp only
      rw [hval]
      exact ih _
    | write bp => exact ih _
    | read bp => exact ih s

/-- Operators in place read the storage of the cell. -/
theorem read_inPlace {H : Hardware Int DataPtr Hw W} (hH : sp.ReadsByGet H) {a : Int}
    (next : List (Operator Int DataPtr Hw)) :
    ∀ (o : Operator Int DataPtr Hw) (s : Sys DataPtr W),
      (∀ x ∈ o :: next, x.cell = a - sp.startAddress ∧ x.data = (sp.cellAt a).data) →
        (o.read H next s).1 = (sp.cellAt a).get s.toStore := by
  induction next with
  | nil =>
    rintro ⟨kind, cell, data, mask⟩ s hin
    obtain ⟨hcell, hdata⟩ := hin _ List.mem_cons_self
    dsimp only at hcell hdata
    subst hcell hdata
    cases kind with
    | hw h => exact congrArg Prod.fst (hH h _ s.toStore)
    | write bp => rfl
    | read bp => rfl
  | cons n rest ih =>
    rintro ⟨kind, cell, data, mask⟩ s hin
    obtain ⟨hcell, hdata⟩ := hin _ List.mem_cons_self
    dsimp only at hcell hdata
    subst hcell hdata
    have hrest : ∀ x ∈ n :: rest, x.cell = a - sp.startAddress ∧ x.data = (sp.cellAt a).data :=
      fun x hx => hin x (List.mem_cons_of_mem _ hx)
    cases kind with
    | hw h => exact congrArg Prod.fst (hH h _ s.toStore)
    | write bp => exact ih n s hrest
    | read bp => exact ih n (s.addEvent bp) hrest

/-- Where all operators are in place, every cell satisfies its law. -/
theorem InPlace.cellLaw (h : InPlace sp) (a : Int) : CellLaw sp a := by
  have hin := h a
  constructor
  · intro W H hH s
    rw [Cell.read]
    cases hops : (sp.cellAt a).operators with
    | nil => rfl
    | cons o next =>
      rw [hops] at hin
      exact read_inPlace hH next o s (fun x hx => ⟨(hin x hx).1, (hin x hx).2.1⟩)
  · intro W H hH v s
    rw [Cell.write]
    cases hops : (sp.cellAt a).operators with
    | nil =>
      dsimp only
      rw [Cell.get, Sys.store_mem, Function.update_self]
    | cons o next =>
      rw [hops] at hin
      have hplace := mem_places (o :: next) (List.cons_ne_nil _ _) (fun x hx => (hin x hx).2.1)
      dsimp only
      rw [Operator.write_eq H (sp.cellAt a).mask next o v s (fun x hx => (hin x hx).2.2)]
      dsimp only
      rw [Cell.get, Sys.storeAll_mem, if_pos hplace, passWrite_keepsValue hH]

/-! ## Runs that move no cell with operators -/

/-- The operation moves no cell that has operators. A new decoder may take over a cell only with the
slot that the cell already has. Where it splits another decoder, the cells behind its range are decoded
again, which moves those among them that were not decoded. -/
def Undisturbed : SpaceOp Hw → AddressSpace Hw → Prop
  | .activate v, sp =>
    ∀ a, sp.checks v ≠ none → (sp.cellAt a).operators ≠ [] →
      (v.asBegin ≤ a → a ≤ v.asEnd → v.slotOf a = some (sp.cellAt a).data) ∧
        (InTail sp.freshDecoder v.asBegin v.asEnd sp a → (sp.cellAt a).nonDecoded = false)
  | .remove d, sp =>
    ∀ a, (sp.cellAt a).operators ≠ [] → (sp.decoder d).asBegin ≤ a → a ≤ (sp.decoder d).asEnd →
      (sp.cellAt a).nonDecoded = true
  | .registerHw _ _, _ | .setBrk _ _, _ | .delBrk _ _, _ => True

/-- Cells with operators that keep their data pointer keep the invariant. -/
theorem InPlace.congr (h : InPlace sp) (hstart : sp'.startAddress = sp.startAddress)
    (hoperators : ∀ a, (sp'.cellAt a).operators = (sp.cellAt a).operators)
    (hmask : ∀ a, (sp'.cellAt a).mask = (sp.cellAt a).mask)
    (hdata : ∀ a, (sp.cellAt a).operators ≠ [] → (sp'.cellAt a).data = (sp.cellAt a).data) :
    InPlace sp' := by
  intro a o ho
  rw [hoperators] at ho
  rw [hstart, hmask, hdata a (List.ne_nil_of_mem ho)]
  exact h a o ho

/-- Appending operators that are in place, or removing some, keeps the invariant. -/
theorem InPlace.sameWiring (h : InPlace sp) (hs : SameWiring sp sp')
    (hoperators : ∀ a, ∀ o ∈ (sp'.cellAt a).operators, o ∈ (sp.cellAt a).operators ∨
      (o.cell = a - sp.startAddress ∧ o.data = (sp.cellAt a).data ∧ o.mask = (sp.cellAt a).mask)) :
    InPlace sp' := by
  intro a o ho
  rw [hs.startAddress, hs.data, hs.mask]
  rcases hoperators a o ho with ho | ho
  · exact h a o ho
  · exact ho

theorem inTail_withNew {v : AddressDecoder} {b e a : Int}
    (h : InTail sp.freshDecoder b e (sp.withNew v true) a) : InTail sp.freshDecoder b e sp a := by
  obtain ⟨x, hx, hxd, hcov, h1, h2⟩ := h
  obtain ⟨i, hi, hlist⟩ : ∃ i ≤ sp.decoders.length,
      (sp.withNew v true).decoders = sp.decoders.insertIdx i sp.freshDecoder :=
    SortedList.add_duplicates _ _ _
  rw [hlist, List.mem_insertIdx hi] at hx
  have hold : (sp.withNew v true).decoder x = sp.decoder x := setDecoder_ne sp hxd v
  rw [hold] at hcov h2
  exact ⟨x, hx.resolve_left hxd, hxd, hcov, h1, h2⟩

/-- An operation that moves no cell with operators keeps all operators in place. -/
theorem SpaceStep.inPlace {op : SpaceOp Hw} (hst : SpaceStep op sp sp')
    (hwell : WellDecoded sp.freshDecoder sp) (hok : Undisturbed op sp) (h : InPlace sp) :
    InPlace sp' := by
  cases hst with
  | registerHw _ addr hw =>
    refine h.sameWiring (registerHw_sameWiring sp addr hw) ?_
    intro a o ho
    rw [registerHw_operators] at ho
    split at ho
    · rcases List.mem_append.mp ho with ho | ho
      · exact Or.inl ho
      · rw [List.mem_singleton] at ho
        subst ho
        exact Or.inr ⟨rfl, rfl, rfl⟩
    · exact Or.inl ho
  | setBrk _ addr brk =>
    refine h.sameWiring (setBrk_sameWiring sp addr brk) ?_
    intro a o ho
    rw [setBrk_operators] at ho
    split at ho
    · rcases List.mem_append.mp ho with ho | ho
      · exact Or.inl ho
      · obtain ⟨kind, -, rfl⟩ := List.mem_map.mp ho
        exact Or.inr ⟨rfl, rfl, rfl⟩
    · exact Or.inl ho
  | delBrk _ addr brk =>
    refine h.sameWiring (delBrk_sameWiring sp addr brk) ?_
    intro a o ho
    rw [delBrk_operators] at ho
    split at ho
    · exact Or.inl (List.mem_of_mem_eraseP ho)
    · exact Or.inl ho
  | @activate _ _ v chip hchecks hact =>
    have hdec := withNew_decoder sp v true
    have hlt : sp.freshDecoder < (sp.withNew v true).freshDecoder := Nat.lt_succ_self _
    obtain ⟨sp'', hact', hspec⟩ :=
      (hwell.withNew v true).activate hlt (by rw [hdec]; exact hchecks)
    obtain ⟨-, rfl⟩ := Prod.mk.inj (hact.unique hact')
    refine h.congr hspec.startAddress hspec.operators hspec.mask ?_
    intro a hops
    obtain ⟨hrange, htail⟩ := hok a (by rw [hchecks]; exact Option.some_ne_none chip) hops
    by_cases ha : v.asBegin ≤ a ∧ a ≤ v.asEnd
    · have hwired := hspec.wired a (by rw [hdec]; exact ha.1) (by rw [hdec]; exact ha.2)
      rw [hdec, hrange ha.1 ha.2, WiredTo] at hwired
      exact hwired.2
    · have hcell := hspec.cell a (by rw [hdec]; exact ha)
      rw [hdec, withNew_cellAt] at hcell
      refine congrArg Cell.data (hcell ?_)
      by_cases ht : InTail sp.freshDecoder v.asBegin v.asEnd sp a
      · exact Or.inl (htail ht)
      · exact Or.inr (fun ht' => ht (inTail_withNew ht'))
  | refuse _ => exact h
  | @remove _ x hx =>
    have hxd : x ≠ sp.freshDecoder := Nat.ne_of_lt (hwell.allocated x hx)
    obtain ⟨-, hundec, -, -⟩ := hwell.remove hx hxd (b := (sp.decoder x).asBegin)
      (e := (sp.decoder x).asEnd) ⟨Int.le_refl _, Int.le_refl _⟩
    refine h.congr hundec.startAddress hundec.operators hundec.mask ?_
    intro a hops
    by_cases ha : (sp.decoder x).asBegin ≤ a ∧ a ≤ (sp.decoder x).asEnd
    · -- a cell of the removed range that is not decoded stays where it is
      have hnd : ((sp.disconnDecoder x).cellAt a).nonDecoded = true := hok a hops ha.1 ha.2
      refine congrArg Cell.data ?_
      rw [deleteDecoder]
      split
      · exact undecodeCells_of_nonDecoded _ _ _ hnd
      · rfl
    · refine congrArg Cell.data (hundec.cell a ha (Or.inr ?_))
      -- no decoder of the list strictly covers the range of another
      rintro ⟨y, hy, hyd, ⟨hc1, hc2⟩, -, -⟩
      by_cases hyx : y = x
      · rw [hyx] at hc1
        omega
      · have hord := (hwell.decodes x hx hxd).ordered
        rcases hwell.apart y hy x hx hyd hxd hyx with hap | hap
        · omega
        · omega

/-- In every run that moves no cell with operators, all cells satisfy their law. -/
theorem cellLaw_of_undisturbed {astart asize : Int}
    (h : ((spaceRuns Hw astart asize).guard Undisturbed).Reachable sp) (a : Int) : CellLaw sp a := by
  have hinit (s : AddressSpace Hw) (hs : (spaceRuns Hw astart asize).init s) : InPlace s := by
    rw [show s = new astart asize from hs]
    intro a o ho
    cases ho
  have hin : InPlace sp := h.guard_invariant hinit fun op s t hreach hI hok hst =>
    SpaceStep.inPlace hst (wellDecoded_of_reachable hreach) hok hI
  exact hin.cellLaw a

/-- A decoder for the whole of a space of four cells. -/
def wholeDecoder : AddressDecoder :=
  { onSpace := true, memchip := some { id := 0, size := 4 }, asBegin := 0, asEnd := 3,
    chipBegin := 0, activated := false }

/-- The space after `activate` of that decoder. -/
def withWholeDecoder (sp : AddressSpace Unit) : AddressSpace Unit :=
  match activate 3 sp.freshDecoder (sp.withNew wholeDecoder true) with
  | some (_, sp) => sp
  | none => sp

/-- The law holds where the cells are decoded before hardware is registered on one of them. -/
theorem cellLaw_decoded_first :
    CellLaw ((withWholeDecoder (new 0 4)).registerHw 0 ()) 0 := by
  have hnew : ((spaceRuns Unit 0 4).guard Undisturbed).Reachable (new 0 4) :=
    System.Reachable.init rfl
  have hact : SpaceStep (.activate wholeDecoder) (new 0 4) (withWholeDecoder (new 0 4)) :=
    SpaceStep.activate (show (new 0 4 : AddressSpace Unit).checks wholeDecoder
      = some { id := 0, size := 4 } by decide) ⟨3, rfl⟩
  have hundisturbed : Undisturbed (.activate wholeDecoder) (new 0 4 : AddressSpace Unit) :=
    fun a _ hops => absurd rfl hops
  have hdecoded := hnew.step (S := (spaceRuns Unit 0 4).guard Undisturbed) ⟨hundisturbed, hact⟩
  have hreg : SpaceStep (.registerHw 0 ()) (withWholeDecoder (new 0 4))
      ((withWholeDecoder (new 0 4)).registerHw 0 ()) := SpaceStep.registerHw _ 0 ()
  have hregok : Undisturbed (.registerHw 0 ()) (withWholeDecoder (new 0 4)) := trivial
  exact cellLaw_of_undisturbed
    (hdecoded.step (S := (spaceRuns Unit 0 4).guard Undisturbed) ⟨hregok, hreg⟩) 0

/-- Hardware without callbacks of its own. -/
def quietHardware : Hardware Int DataPtr Unit Unit where
  cathegory _ := .dummy
  read _ _ st := (0, st, [])
  write _ _ v st := (v, st, [])

theorem reachable_registered_first :
    (spaceRuns Unit 0 4).Reachable (withWholeDecoder ((new 0 4).registerHw 0 ())) := by
  have hnew : (spaceRuns Unit 0 4).Reachable (new 0 4) := System.Reachable.init rfl
  have hreg : SpaceStep (.registerHw 0 ()) (new 0 4) ((new 0 4).registerHw 0 ()) :=
    SpaceStep.registerHw _ 0 ()
  have hact : SpaceStep (.activate wholeDecoder) ((new 0 4).registerHw 0 ())
      (withWholeDecoder ((new 0 4).registerHw 0 ())) :=
    SpaceStep.activate (show ((new 0 4 : AddressSpace Unit).registerHw 0 ()).checks wholeDecoder
      = some { id := 0, size := 4 } by decide) ⟨3, rfl⟩
  exact (hnew.step (S := spaceRuns Unit 0 4) hreg).step (S := spaceRuns Unit 0 4) hact

/-- If the hardware is registered first, a write through the operators of the cell does not reach its
storage. -/
theorem not_cellLaw_registered_first :
    (spaceRuns Unit 0 4).Reachable (withWholeDecoder ((new 0 4).registerHw 0 ())) ∧
      ¬ CellLaw (withWholeDecoder ((new 0 4).registerHw 0 ())) 0 := by
  refine ⟨reachable_registered_first, fun hlaw => ?_⟩
  have hwrite := hlaw.write Unit quietHardware (fun _ _ _ _ => rfl) 5
    { mem := fun _ => 0, hw := (), events := [] }
  revert hwrite
  decide

end AddressSpace

end Ucsim
