import Ucsim.Sim.Cell

/-!
# What a chain of operators does

A `write` runs down the chain, calling the hardware and recording the write breakpoints, and on the
way back stores the value at the place of every hardware operator and of the last operator. A `read`
runs down the chain as well; its value is that of the first hardware operator, and if there is none
the one at the place of the last operator. All operators are taken to have the same mask: the mask of
a cell never changes.
-/

namespace Ucsim

variable {κ P Hw W : Type}

namespace OperatorKind

/-- Is this a hardware operator? -/
def isHw : OperatorKind Hw → Bool
  | .hw _ => true
  | .write _ | .read _ => false

/-- The breakpoint of a write operator. -/
def writeBrk : OperatorKind Hw → Option Brk
  | .write bp => some bp
  | .hw _ | .read _ => none

/-- The breakpoint of a read operator. -/
def readBrk : OperatorKind Hw → Option Brk
  | .read bp => some bp
  | .hw _ | .write _ => none

end OperatorKind

namespace Sys

/-- Record breakpoints. -/
def addEvents (bps : List Brk) (s : Sys P W) : Sys P W := { s with events := s.events ++ bps }

@[simp] theorem addEvents_toStore (bps : List Brk) (s : Sys P W) :
    (s.addEvents bps).toStore = s.toStore := rfl

@[simp] theorem addEvents_events (bps : List Brk) (s : Sys P W) :
    (s.addEvents bps).events = s.events ++ bps := rfl

@[simp] theorem addEvents_nil (s : Sys P W) : s.addEvents [] = s := by
  simp [addEvents]

/-- Recording one breakpoint and then others is recording all of them. -/
theorem addEvents_addEvent (bp : Brk) (bps : List Brk) (s : Sys P W) :
    (s.addEvent bp).addEvents bps = s.addEvents (bp :: bps) := by
  simp [addEvents, addEvent]

variable [DecidableEq P]

/-- Store a value at several places. -/
def storeAll (ps : List P) (v : TMem) (s : Sys P W) : Sys P W :=
  ps.foldr (fun p s => s.store p v) s

@[simp] theorem storeAll_events (ps : List P) (v : TMem) (s : Sys P W) :
    (s.storeAll ps v).events = s.events := by
  induction ps with
  | nil => rfl
  | cons p ps ih => simpa [storeAll] using ih

@[simp] theorem storeAll_hw (ps : List P) (v : TMem) (s : Sys P W) :
    (s.storeAll ps v).hw = s.hw := by
  induction ps with
  | nil => rfl
  | cons p ps ih => simpa [storeAll] using ih

/-- After `storeAll` exactly the given places hold the value. -/
theorem storeAll_mem (ps : List P) (v : TMem) (s : Sys P W) (q : P) :
    (s.storeAll ps v).mem q = if q ∈ ps then v else s.mem q := by
  induction ps with
  | nil => simp [storeAll]
  | cons p ps ih =>
    have hcons : (s.storeAll (p :: ps) v).mem = Function.update (s.storeAll ps v).mem p v := rfl
    rw [hcons]
    by_cases hq : q = p
    · subst hq
      simp
    · rw [Function.update_of_ne hq, ih]
      simp [hq]

/-- The store left by `storeAll` depends on the set of places only. -/
theorem storeAll_toStore_congr {ps qs : List P} (h : ∀ p, p ∈ ps ↔ p ∈ qs) (v : TMem)
    {s t : Sys P W} (hst : s.toStore = t.toStore) :
    (s.storeAll ps v).toStore = (t.storeAll qs v).toStore := by
  have hmem : (s.storeAll ps v).mem = (t.storeAll qs v).mem := by
    funext q
    rw [storeAll_mem, storeAll_mem, hst]
    simp only [h]
  have hhw : (s.storeAll ps v).hw = (t.storeAll qs v).hw := by
    rw [storeAll_hw, storeAll_hw, hst]
  calc (s.storeAll ps v).toStore
      = ⟨(s.storeAll ps v).mem, (s.storeAll ps v).hw⟩ := rfl
    _ = (t.storeAll qs v).toStore := by rw [hmem, hhw]

end Sys

namespace Operator

/-- The side effects of a `read` that runs down a chain. -/
def passRead (H : Hardware κ P Hw W) : List (Operator κ P Hw) → Sys P W → Sys P W
  | [], s => s
  | o :: rest, s =>
    match o.kind with
    | .hw h => passRead H rest (s.call (H.read h o.cell)).2
    | .read bp => passRead H rest (s.addEvent bp)
    | .write _ => passRead H rest s

/-- The way down of a `write`: the value as the hardware changes it, and the side effects. -/
def passWrite (H : Hardware κ P Hw W) :
    List (Operator κ P Hw) → TMem → Sys P W → TMem × Sys P W
  | [], val, s => (val, s)
  | o :: rest, val, s =>
    match o.kind with
    | .hw h =>
      let r := s.call (H.write h o.cell val)
      passWrite H rest r.1 r.2
    | .write bp => passWrite H rest val (s.addEvent bp)
    | .read _ => passWrite H rest val s

/-- The places a `write` stores to: those of the hardware operators and of the last operator. -/
def places : List (Operator κ P Hw) → List P
  | [] => []
  | [o] => [o.data]
  | o :: o' :: rest => if o.kind.isHw then o.data :: places (o' :: rest) else places (o' :: rest)

/-- Reading a chain has the side effects of `passRead`. -/
theorem read_snd (H : Hardware κ P Hw W) (next : List (Operator κ P Hw)) :
    ∀ (o : Operator κ P Hw) (s : Sys P W), (o.read H next s).2 = passRead H (o :: next) s := by
  induction next with
  | nil =>
    rintro ⟨kind, cell, data, mask⟩ s
    cases kind <;> rfl
  | cons n rest ih =>
    rintro ⟨kind, cell, data, mask⟩ s
    cases kind with
    | hw h => exact ih n _
    | write bp => exact ih n s
    | read bp => exact ih n _

/-- A hardware operator at the head of a chain supplies the value. -/
theorem read_hw_fst (H : Hardware κ P Hw W) {o : Operator κ P Hw} {h : Hw} (ho : o.kind = .hw h)
    (next : List (Operator κ P Hw)) (s : Sys P W) :
    (o.read H next s).1 = (s.call (H.read h o.cell)).1 := by
  obtain ⟨kind, cell, data, mask⟩ := o
  subst ho
  cases next <;> rfl

/-- A chain of breakpoint operators reads the place of its last operator. -/
theorem read_brks_fst (H : Hardware κ P Hw W) (next : List (Operator κ P Hw)) :
    ∀ (o : Operator κ P Hw) (s : Sys P W),
      (∀ x ∈ o :: next, x.kind.isHw = false) →
        (o.read H next s).1 = s.mem ((o :: next).getLast (List.cons_ne_nil _ _)).data := by
  induction next with
  | nil =>
    rintro ⟨kind, cell, data, mask⟩ s hbrk
    cases kind with
    | hw h => simpa [OperatorKind.isHw] using hbrk _ (List.mem_cons_self)
    | write bp => rfl
    | read bp => rfl
  | cons n rest ih =>
    rintro ⟨kind, cell, data, mask⟩ s hbrk
    have hrest : ∀ x ∈ n :: rest, x.kind.isHw = false := fun x hx => hbrk x (by simp [hx])
    rw [List.getLast_cons (List.cons_ne_nil n rest)]
    cases kind with
    | hw h => simpa [OperatorKind.isHw] using hbrk _ (List.mem_cons_self)
    | write bp => exact ih n s hrest
    | read bp => exact ih n (s.addEvent bp) hrest

/-- A hardware operator that is read with `skip`. -/
theorem readSkip_hw (H : Hardware κ P Hw W) {o : Operator κ P Hw} {h : Hw} (ho : o.kind = .hw h)
    (next : List (Operator κ P Hw)) (skip : HwCath) (s : Sys P W) :
    o.readSkip H next skip s =
      let r := if H.cathegory h ≠ skip then s.call (H.read h o.cell) else (s.mem o.data, s)
      (r.1, passRead H next r.2) := by
  obtain ⟨kind, cell, data, mask⟩ := o
  subst ho
  cases next with
  | nil => rfl
  | cons n rest => exact Prod.ext rfl (read_snd H rest n _)

/-- A breakpoint operator takes no notice of `skip`. -/
theorem readSkip_brk (H : Hardware κ P Hw W) {o : Operator κ P Hw} (ho : o.kind.isHw = false)
    (next : List (Operator κ P Hw)) (skip : HwCath) (s : Sys P W) :
    o.readSkip H next skip s = o.read H next s := by
  obtain ⟨kind, cell, data, mask⟩ := o
  cases kind with
  | hw h => cases ho
  | write bp => rfl
  | read bp => rfl

/-- Masking twice is masking once. -/
theorem and_mask_mask (v m : TMem) : v &&& m &&& m = v &&& m := by
  rw [BitVec.and_assoc, BitVec.and_self]

variable [DecidableEq P]

/-- A `write` is the way down followed by the stores. -/
theorem write_eq (H : Hardware κ P Hw W) (m : TMem) (next : List (Operator κ P Hw)) :
    ∀ (o : Operator κ P Hw) (val : TMem) (s : Sys P W), (∀ x ∈ o :: next, x.mask = m) →
      o.write H next val s =
        let r := passWrite H (o :: next) val s
        (r.1 &&& m, r.2.storeAll (places (o :: next)) (r.1 &&& m)) := by
  induction next with
  | nil =>
    rintro ⟨kind, cell, data, mask⟩ val s hmask
    obtain rfl : mask = m := hmask _ List.mem_cons_self
    cases kind <;> rfl
  | cons n rest ih =>
    rintro ⟨kind, cell, data, mask⟩ val s hmask
    obtain rfl : mask = m := hmask _ List.mem_cons_self
    have hrest : ∀ x ∈ n :: rest, x.mask = mask := fun x hx => hmask x (by simp [hx])
    cases kind with
    | hw h =>
      -- the value comes back masked, so masking it once more changes nothing
      rw [write]
      simp only [ih n _ _ hrest, and_mask_mask]
      rfl
    | write bp => exact ih n val (s.addEvent bp) hrest
    | read bp => exact ih n val s hrest

/-! ## Breakpoint operators behind the hardware operators -/

omit [DecidableEq P] in
/-- Breakpoint operators add the read breakpoints to the events of a `read`. -/
theorem passRead_append_brks (H : Hardware κ P Hw W) {hws brks : List (Operator κ P Hw)}
    (hbrk : ∀ x ∈ brks, x.kind.isHw = false) (s : Sys P W) :
    passRead H (hws ++ brks) s
      = (passRead H hws s).addEvents (brks.filterMap (·.kind.readBrk)) := by
  induction hws generalizing s with
  | nil =>
    induction brks generalizing s with
    | nil => simp [passRead]
    | cons o rest ih =>
      have hrest : ∀ x ∈ rest, x.kind.isHw = false := fun x hx => hbrk x (by simp [hx])
      have ho := hbrk o (by simp)
      rw [List.nil_append, passRead]
      cases hk : o.kind with
      | hw h => simp [hk, OperatorKind.isHw] at ho
      | write bp => simpa [hk, OperatorKind.readBrk, passRead] using ih hrest s
      | read bp =>
        have := ih hrest (s.addEvent bp)
        rw [List.nil_append, passRead, Sys.addEvents_addEvent] at this
        simpa [hk, OperatorKind.readBrk, passRead] using this
  | cons o rest ih =>
    rw [List.cons_append, passRead, passRead]
    cases o.kind with
    | hw h => exact ih _
    | write bp => exact ih _
    | read bp => exact ih _

omit [DecidableEq P] in
/-- Breakpoint operators add the write breakpoints to the events of a `write` and leave the value. -/
theorem passWrite_append_brks (H : Hardware κ P Hw W) {hws brks : List (Operator κ P Hw)}
    (hbrk : ∀ x ∈ brks, x.kind.isHw = false) (val : TMem) (s : Sys P W) :
    passWrite H (hws ++ brks) val s
      = ((passWrite H hws val s).1,
          (passWrite H hws val s).2.addEvents (brks.filterMap (·.kind.writeBrk))) := by
  induction hws generalizing val s with
  | nil =>
    induction brks generalizing s with
    | nil => simp [passWrite]
    | cons o rest ih =>
      have hrest : ∀ x ∈ rest, x.kind.isHw = false := fun x hx => hbrk x (by simp [hx])
      have ho := hbrk o (by simp)
      rw [List.nil_append, passWrite]
      cases hk : o.kind with
      | hw h => simp [hk, OperatorKind.isHw] at ho
      | write bp =>
        have := ih hrest (s.addEvent bp)
        rw [List.nil_append, passWrite, Sys.addEvents_addEvent] at this
        simpa [hk, OperatorKind.writeBrk, passWrite] using this
      | read bp => simpa [hk, OperatorKind.writeBrk, passWrite] using ih hrest s
  | cons o rest ih =>
    rw [List.cons_append, passWrite, passWrite]
    cases o.kind with
    | hw h => exact ih _ _
    | write bp => exact ih _ _
    | read bp => exact ih _ _

omit [DecidableEq P] in
/-- A place is written by hardware operators followed by breakpoint operators iff it belongs to one
of the former or to the last of the latter. -/
theorem mem_places_append {hws brks : List (Operator κ P Hw)}
    (hhw : ∀ x ∈ hws, x.kind.isHw = true) (hbrk : ∀ x ∈ brks, x.kind.isHw = false) (p : P) :
    p ∈ places (hws ++ brks) ↔
      p ∈ hws.map (·.data) ∨ ∃ o, brks.getLast? = some o ∧ o.data = p := by
  induction hws with
  | nil =>
    induction brks with
    | nil => simp [places]
    | cons o rest ih =>
      have hrest : ∀ x ∈ rest, x.kind.isHw = false := fun x hx => hbrk x (by simp [hx])
      have ho := hbrk o (by simp)
      cases rest with
      | nil => simp [places, eq_comm]
      | cons n rest =>
        rw [List.nil_append, places, ho, if_neg (by simp)]
        simpa [List.getLast?_cons_cons] using ih hrest
  | cons o rest ih =>
    have hrest : ∀ x ∈ rest, x.kind.isHw = true := fun x hx => hhw x (by simp [hx])
    have ho := hhw o (by simp)
    have ih := ih hrest
    cases h : rest ++ brks with
    | nil =>
      obtain ⟨rfl, rfl⟩ := List.append_eq_nil_iff.mp h
      simp [places]
    | cons n l =>
      rw [List.cons_append, h, places, ho, if_pos rfl, List.mem_cons, ← h, ih]
      simp [or_assoc, eq_comm]

/-! ## Chains that work on one place -/

omit [DecidableEq P] in
/-- What every callback keeps of the store, reading a chain keeps. -/
theorem passRead_invariant {H : Hardware κ P Hw W} {J : Store P W → Prop} :
    ∀ {l : List (Operator κ P Hw)},
      (∀ o ∈ l, ∀ h, o.kind = .hw h → ∀ st, J st → J (H.read h o.cell st).2.1) →
        ∀ {s : Sys P W}, J s.toStore → J (passRead H l s).toStore
  | [], _, _, hs => hs
  | o :: rest, hl, s, hs => by
    have hrest := passRead_invariant (s := s) fun x hx => hl x (List.mem_cons_of_mem o hx)
    rw [passRead]
    cases hk : o.kind with
    | hw h =>
      exact passRead_invariant (fun x hx => hl x (List.mem_cons_of_mem o hx))
        (hl o List.mem_cons_self h hk _ hs)
    | write bp => exact hrest hs
    | read bp => exact passRead_invariant (fun x hx => hl x (List.mem_cons_of_mem o hx)) hs

omit [DecidableEq P] in
/-- A chain whose callbacks change nothing records read breakpoints only. -/
theorem passRead_silent {H : Hardware κ P Hw W} :
    ∀ {l : List (Operator κ P Hw)},
      (∀ o ∈ l, ∀ h, o.kind = .hw h → ∀ st, (H.read h o.cell st).2 = (st, [])) →
        ∀ s : Sys P W, passRead H l s = s.addEvents (l.filterMap (·.kind.readBrk))
  | [], _, s => by simp [passRead]
  | o :: rest, hl, s => by
    have hrest := passRead_silent fun x hx => hl x (List.mem_cons_of_mem o hx)
    rw [passRead]
    cases hk : o.kind with
    | hw h =>
      have hcall : (s.call (H.read h o.cell)).2 = s := by
        rw [Sys.call, hl o List.mem_cons_self h hk]
        simp
      simpa [hk, OperatorKind.readBrk, hcall] using hrest s
    | write bp => simpa [hk, OperatorKind.readBrk] using hrest s
    | read bp =>
      have hbrk := hrest (s.addEvent bp)
      rw [Sys.addEvents_addEvent] at hbrk
      simpa [hk, OperatorKind.readBrk] using hbrk

omit [DecidableEq P] in
/-- Callbacks that do the same to a store and to its image under `f` pass the same value down the chain. -/
theorem passWrite_map {H H' : Hardware κ P Hw W} {f : Store P W → Store P W} :
    ∀ {l : List (Operator κ P Hw)},
      (∀ o ∈ l, ∀ h, o.kind = .hw h → ∀ v st, H'.write h o.cell v (f st) =
        ((H.write h o.cell v st).1, f (H.write h o.cell v st).2.1, (H.write h o.cell v st).2.2)) →
        ∀ (v : TMem) (s : Sys P W), passWrite H' l v { toStore := f s.toStore, events := s.events } =
          ((passWrite H l v s).1,
            { toStore := f (passWrite H l v s).2.toStore, events := (passWrite H l v s).2.events })
  | [], _, _, _ => rfl
  | o :: rest, hl, v, s => by
    have hrest := passWrite_map fun x hx => hl x (List.mem_cons_of_mem o hx)
    rw [passWrite, passWrite]
    cases hk : o.kind with
    | hw h =>
      dsimp only
      rw [← hrest, Sys.call, Sys.call, hl o List.mem_cons_self h hk]
    | write bp => exact hrest v (s.addEvent bp)
    | read bp => exact hrest v s

omit [DecidableEq P] in
/-- What every callback keeps of the value and the store, writing a chain keeps on the way down. -/
theorem passWrite_invariant {H : Hardware κ P Hw W} {J : TMem → Store P W → Prop} :
    ∀ {l : List (Operator κ P Hw)},
      (∀ o ∈ l, ∀ h, o.kind = .hw h → ∀ v st, J v st →
        J (H.write h o.cell v st).1 (H.write h o.cell v st).2.1) →
        ∀ {v : TMem} {s : Sys P W}, J v s.toStore →
          J (passWrite H l v s).1 (passWrite H l v s).2.toStore
  | [], _, _, _, hs => hs
  | o :: rest, hl, v, s, hs => by
    rw [passWrite]
    cases hk : o.kind with
    | hw h =>
      exact passWrite_invariant (fun x hx => hl x (List.mem_cons_of_mem o hx))
        (hl o List.mem_cons_self h hk _ _ hs)
    | write bp => exact passWrite_invariant (fun x hx => hl x (List.mem_cons_of_mem o hx)) hs
    | read bp => exact passWrite_invariant (fun x hx => hl x (List.mem_cons_of_mem o hx)) hs

omit [DecidableEq P] in
/-- A chain at one place, with hardware that returns what is stored there, reads that place. -/
theorem read_fst_eq {H : Hardware κ P Hw W} {p : P} (next : List (Operator κ P Hw)) :
    ∀ (o : Operator κ P Hw) (s : Sys P W), (∀ x ∈ o :: next, x.data = p) →
      (∀ x ∈ o :: next, ∀ h, x.kind = .hw h → ∀ st : Store P W, st.mem = s.mem →
        (H.read h x.cell st).1 = s.mem p) →
        (o.read H next s).1 = s.mem p := by
  induction next with
  | nil =>
    rintro ⟨kind, cell, data, mask⟩ s hdata hread
    have hp : data = p := hdata _ List.mem_cons_self
    subst hp
    cases kind with
    | hw h => exact hread _ List.mem_cons_self h rfl s.toStore rfl
    | write bp => rfl
    | read bp => rfl
  | cons n rest ih =>
    rintro ⟨kind, cell, data, mask⟩ s hdata hread
    have hdata' : ∀ x ∈ n :: rest, x.data = p := fun x hx => hdata x (List.mem_cons_of_mem _ hx)
    have hread' := fun x hx => hread x (List.mem_cons_of_mem _ hx)
    cases kind with
    | hw h => exact hread _ List.mem_cons_self h rfl s.toStore rfl
    | write bp => exact ih n s hdata' hread'
    | read bp => exact ih n (s.addEvent bp) hdata' hread'

/-- A chain at one place stores there. -/
theorem storeAll_places {p : P} (v : TMem) (s : Sys P W) :
    ∀ l : List (Operator κ P Hw), l ≠ [] → (∀ o ∈ l, o.data = p) →
      s.storeAll (places l) v = s.store p v
  | [], hne, _ => absurd rfl hne
  | [o], _, hp => by
    rw [places, hp o List.mem_cons_self]
    rfl
  | o :: o' :: rest, _, hp => by
    have hrest := storeAll_places v s (o' :: rest) (List.cons_ne_nil _ _)
      (fun x hx => hp x (List.mem_cons_of_mem o hx))
    rw [places]
    split
    · have hcons : s.storeAll (o.data :: places (o' :: rest)) v
          = (s.storeAll (places (o' :: rest)) v).store o.data v := rfl
      rw [hcons, hrest, hp o List.mem_cons_self]
      simp [Sys.store]
    · exact hrest

end Operator

end Ucsim
