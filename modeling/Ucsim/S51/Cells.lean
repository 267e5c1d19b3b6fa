import Ucsim.S51.Memory

/-!
# What the operations on a cell do

All operators of a cell of the board work on its own place. So a cell operation is a walk through the
callbacks followed by one store. Where the devices are quiet, it reads and writes that one byte; a write
of the accumulator also sets the parity flag.
-/

namespace Ucsim.S51

open Logic

variable {Dev V : Type} {D : Devices Dev V}

/-- The devices on a cell read it by `cell->get()`, do not alter the value written and leave all other
bytes alone. -/
structure Devices.QuietAt (D : Devices Dev V) (c : Site) : Prop where
  read_val : ∀ d ∈ D.registered c, ∀ st, (D.read d c st).1 = st.mem c
  read_mem : ∀ d ∈ D.registered c, ∀ st, (D.read d c st).2.1.mem = st.mem
  write_val : ∀ d ∈ D.registered c, ∀ v st, (D.write d c v st).1 = v
  write_mem : ∀ d ∈ D.registered c, ∀ v st, (D.write d c v st).2.1.mem = st.mem

/-- A cell without devices is quiet. -/
theorem Devices.quietAt_of_nil {c : Site} (h : D.registered c = []) : D.QuietAt c where
  read_val := by simp [h]
  read_mem := by simp [h]
  write_val := by simp [h]
  write_mem := by simp [h]

theorem Devices.quietAt_core {r : Int} (h : r ∈ coreRegisters) : D.QuietAt (.sfr r) :=
  quietAt_of_nil (D.registered_core r h)

theorem Devices.quietAt_code {sp : Space} {idx : Int} (h : sp.isCode) : D.QuietAt (.cell sp idx) :=
  quietAt_of_nil (D.registered_code sp idx h)

/-- The status byte `p` with the parity flag of `v`. -/
def withParity (v p : TMem) : TMem := if parity (v.setWidth 8) then p ||| bmP else p &&& ~~~bmP

/-! ## Callbacks of the core's own elements -/

theorem mem_hws {h : CoreHw Dev} {c : Site} :
    h ∈ D.hws c ↔ (∃ d ∈ D.registered c, h = .device d) ∨
      ((c = .sfr Reg.IE ∨ c = .sfr Reg.TCON) ∧ h = .interrupt) ∨
      ((c = acc ∨ c = .sfr Reg.SP) ∧ h = .dummy) := by
  rw [Devices.hws, List.mem_append, List.mem_append, List.mem_map]
  constructor
  · rintro ((⟨d, hd, rfl⟩ | hi) | hd)
    · exact Or.inl ⟨d, hd, rfl⟩
    · split at hi
      · next hc => exact Or.inr (Or.inl ⟨hc, by simpa using hi⟩)
      · simp at hi
    · split at hd
      · next hc => exact Or.inr (Or.inr ⟨hc, by simpa using hd⟩)
      · simp at hd
  · rintro (⟨d, hd, rfl⟩ | ⟨hc, rfl⟩ | ⟨hc, rfl⟩)
    · exact Or.inl (Or.inl ⟨d, hd, rfl⟩)
    · exact Or.inl (Or.inr (by simp [hc]))
    · exact Or.inr (by simp [hc])

@[simp] theorem interruptWrite_mem (c : Site) (v : TMem) (st : St V) :
    (interruptWrite c v st).mem = st.mem := by
  rw [interruptWrite]
  split <;> rfl

/-- The dummy changes memory for the accumulator only. -/
theorem dummyWrite_mem (c : Site) (v : TMem) (st : St V) :
    (dummyWrite c v st).mem
      = if c = acc then Function.update st.mem psw (withParity v (st.mem psw)) else st.mem := by
  rw [dummyWrite, withParity]
  split
  · split <;> rfl
  · split <;> rfl

/-- On a quiet cell every callback of `read` returns the byte and leaves memory alone. -/
theorem Devices.QuietAt.read {c : Site} (hq : D.QuietAt c) {h : CoreHw Dev} (hh : h ∈ D.hws c)
    (st : St V) :
    (D.hardware.read h c st).1 = st.mem c ∧ (D.hardware.read h c st).2.1.mem = st.mem := by
  rcases mem_hws.mp hh with ⟨d, hd, rfl⟩ | ⟨-, rfl⟩ | ⟨-, rfl⟩
  · exact ⟨hq.read_val d hd st, hq.read_mem d hd st⟩
  · exact ⟨rfl, rfl⟩
  · exact ⟨rfl, rfl⟩

/-- On a quiet cell every callback of `write` passes the value on, and only the dummy's on the
accumulator changes memory. -/
theorem Devices.QuietAt.write {c : Site} (hq : D.QuietAt c) {h : CoreHw Dev} (hh : h ∈ D.hws c)
    (hc : c ≠ acc) (v : TMem) (st : St V) :
    (D.hardware.write h c v st).1 = v ∧ (D.hardware.write h c v st).2.1.mem = st.mem := by
  rcases mem_hws.mp hh with ⟨d, hd, rfl⟩ | ⟨-, rfl⟩ | ⟨-, rfl⟩
  · exact ⟨hq.write_val d hd v st, hq.write_mem d hd v st⟩
  · exact ⟨rfl, interruptWrite_mem c v st⟩
  · refine ⟨rfl, (dummyWrite_mem c v st).trans ?_⟩
    rw [if_neg hc]

/-! ## The chain of a cell -/

namespace Site

/-- All operators of a cell belong to it and work on its place. -/
theorem mem_operators {brks : Site → List Brk} {c : Site} {o : Operator Site Site (CoreHw Dev)}
    (ho : o ∈ operators D brks c) : o.cell = c ∧ o.data = c ∧ o.mask = 0xff := by
  obtain ⟨kind, -, rfl⟩ := List.mem_map.mp ho
  exact ⟨rfl, rfl, rfl⟩

/-- The hardware operators of a cell call the elements registered on it. -/
theorem hw_of_mem_operators {brks : Site → List Brk} {c : Site}
    {o : Operator Site Site (CoreHw Dev)} (ho : o ∈ operators D brks c) {h : CoreHw Dev}
    (hk : o.kind = .hw h) : h ∈ D.hws c := by
  obtain ⟨kind, hkind, rfl⟩ := List.mem_map.mp ho
  rcases List.mem_append.mp hkind with hw | hbrk
  · obtain ⟨h', hh', rfl⟩ := List.mem_map.mp hw
    cases hk
    exact hh'
  · obtain ⟨b, -, hb⟩ := List.mem_filterMap.mp hbrk
    change kind = .hw h at hk
    rw [hk, AddressSpace.brkOperator] at hb
    split at hb <;> simp at hb

/-- The operators of any cell belong to it, and those of the dummy cell are none. -/
theorem mem_toCell_operators {s : MemState V} {c : Site} {o : Operator Site Site (CoreHw Dev)}
    (ho : o ∈ (c.toCell D s).operators) :
    (o.cell = c ∧ o.data = c ∧ o.mask = 0xff) ∧ ∀ h, o.kind = .hw h → h ∈ D.hws c := by
  cases c with
  | cell sp idx => exact ⟨mem_operators ho, fun h hk => hw_of_mem_operators ho hk⟩
  | dummy sp => exact absurd ho List.not_mem_nil

@[simp] theorem toCell_data (s : MemState V) (c : Site) : (c.toCell D s).data = c := by
  cases c <;> rfl

@[simp] theorem toCell_mask (s : MemState V) (c : Site) : (c.toCell D s).mask = 0xff := by
  cases c <;> rfl

@[simp] theorem get_run (c : Site) (s : MemState V) :
    (c.get D).run s = .ok (s.sys.mem c, s) := by
  rw [get, Program.run_modifyGet_ok, Cell.get, toCell_data]

/-- What `read` does to the memory system. -/
theorem cell_read_snd (c : Site) (s : MemState V) :
    ((c.toCell D s).read D.hardware s.sys).2
      = Operator.passRead D.hardware (c.toCell D s).operators s.sys := by
  rw [Cell.read]
  cases (c.toCell D s).operators with
  | nil => rfl
  | cons o next => exact Operator.read_snd D.hardware next o s.sys

/-- What `write` does to the memory system: the callbacks, then one store. -/
theorem cell_write (c : Site) (v : TMem) (s : MemState V) :
    (c.toCell D s).write D.hardware v s.sys
      = let r := Operator.passWrite D.hardware (c.toCell D s).operators v s.sys
        (r.1 &&& 0xff, r.2.store c (r.1 &&& 0xff)) := by
  rw [Cell.write]
  cases hops : (c.toCell D s).operators with
  | nil =>
    rw [toCell_mask, toCell_data]
    rfl
  | cons o next =>
    have hmem : ∀ x ∈ o :: next, x ∈ (c.toCell D s).operators := fun x hx => by rwa [hops]
    dsimp only
    rw [Operator.write_eq D.hardware 0xff next o v s.sys
      (fun x hx => (mem_toCell_operators (hmem x hx)).1.2.2)]
    dsimp only
    rw [Operator.storeAll_places _ _ _ (List.cons_ne_nil o next)
      (fun x hx => (mem_toCell_operators (hmem x hx)).1.2.1)]

/-- What the callbacks of a read keep, `read` keeps. -/
theorem read_keeps {J : St V → Prop} {c : Site}
    (h : ∀ hw ∈ D.hws c, ∀ st, J st → J (D.hardware.read hw c st).2.1) :
    Program.Keeps (fun s => J s.sys.toStore) (c.read D) := by
  refine Program.Keeps.modifyGet fun s hs => ?_
  dsimp only
  rw [cell_read_snd]
  refine Operator.passRead_invariant (fun o ho hw hk st hst => ?_) hs
  obtain ⟨⟨hcell, -, -⟩, hhw⟩ := mem_toCell_operators ho
  rw [hcell]
  exact h hw (hhw hw hk) st hst

/-- What the callbacks of a read keep, `read` with an element to skip keeps. -/
theorem readSkip_keeps {J : St V → Prop} {c : Site} (skip : HwCath)
    (h : ∀ hw ∈ D.hws c, ∀ st, J st → J (D.hardware.read hw c st).2.1) :
    Program.Keeps (fun s => J s.sys.toStore) (c.readSkip D skip) := by
  refine Program.Keeps.modifyGet fun s hs => ?_
  dsimp only
  have hkeeps : ∀ o ∈ (c.toCell D s).operators, ∀ hw, o.kind = .hw hw → ∀ st, J st →
      J (D.hardware.read hw o.cell st).2.1 := by
    intro o ho hw hk st hst
    obtain ⟨⟨hcell, -, -⟩, hhw⟩ := mem_toCell_operators ho
    rw [hcell]
    exact h hw (hhw hw hk) st hst
  rw [Cell.readSkip]
  cases hops : (c.toCell D s).operators with
  | nil => exact hs
  | cons o next =>
    rw [hops] at hkeeps
    have hnext := fun x hx => hkeeps x (List.mem_cons_of_mem o hx)
    -- only the first operator is read with `skip`
    have hall : J (o.read D.hardware next s.sys).2.toStore := by
      rw [Operator.read_snd]
      exact Operator.passRead_invariant hkeeps hs
    have hpass : ∀ u : Sys Site (HwState V), J u.toStore →
        J (Operator.passRead D.hardware next u).toStore :=
      fun u hu => Operator.passRead_invariant hnext hu
    cases hk : o.kind with
    | hw hw =>
      dsimp only
      rw [Operator.readSkip_hw D.hardware hk]
      dsimp only
      split
      · exact hpass _ (hkeeps o List.mem_cons_self hw hk _ hs)
      · exact hpass _ hs
    | write bp =>
      dsimp only
      rw [Operator.readSkip_brk D.hardware (by rw [hk]; rfl)]
      exact hall
    | read bp =>
      dsimp only
      rw [Operator.readSkip_brk D.hardware (by rw [hk]; rfl)]
      exact hall

/-- What the callbacks of a write keep of the value and the store holds before the store to the cell. -/
theorem write_triple {J : TMem → St V → Prop} {Q : TMem → MemState V → Prop} {sp : Space} {idx : Int}
    {v : TMem}
    (h : ∀ hw ∈ D.hws (.cell sp idx), ∀ v st, J v st →
      J (D.hardware.write hw (.cell sp idx) v st).1 (D.hardware.write hw (.cell sp idx) v st).2.1)
    (hQ : ∀ w (s : MemState V) (u : Sys Site (HwState V)), J w u.toStore →
      Q (w &&& 0xff) { s with sys := u.store (.cell sp idx) (w &&& 0xff) }) :
    Program.Triple (fun s => J v s.sys.toStore) ((Site.cell sp idx).write D v) Q := by
  refine Program.Triple.modifyGet fun s hs => ?_
  rw [cell_write]
  refine hQ _ s _ (Operator.passWrite_invariant (fun o ho hw hk w st hst => ?_) hs)
  obtain ⟨⟨hcell, -, -⟩, hhw⟩ := mem_toCell_operators ho
  rw [hcell]
  exact h hw (hhw hw hk) w st hst

end Site

/-! ## Quiet cells -/

/-- Started at `s`, the program returns `v` and leaves the bytes `mem`. Besides them it changes nothing
but the hardware state and the list of events. -/
def Yields {α : Type} (x : MemProg V α) (s : MemState V) (v : α) (mem : Site → TMem) : Prop :=
  ∃ u : Sys Site (HwState V), x.run s = .ok (v, { s with sys := u }) ∧ u.mem = mem

namespace Yields

variable {α β : Type} {x : MemProg V α} {s : MemState V} {v : α} {mem mem' : Site → TMem}

theorem pure (v : α) (s : MemState V) : Yields (pure v) s v s.sys.mem := ⟨s.sys, rfl, rfl⟩

theorem bind (hx : Yields x s v mem) {f : α → MemProg V β} {w : β}
    (hf : ∀ u : Sys Site (HwState V), u.mem = mem → Yields (f v) { s with sys := u } w mem') :
    Yields (x >>= f) s w mem' := by
  obtain ⟨u, hrun, hmem⟩ := hx
  obtain ⟨u', hrun', hmem'⟩ := hf u hmem
  exact ⟨u', (Program.run_bind_of_ok hrun f).trans hrun', hmem'⟩

theorem returns (hx : Yields x s v mem) : x.Returns s v := by
  obtain ⟨u, hrun, -⟩ := hx
  exact ⟨_, hrun⟩

/-- The value is determined. -/
theorem val_eq (hx : Yields x s v mem) {w : α} {t : MemState V} (h : x.run s = .ok (w, t)) :
    w = v := by
  obtain ⟨u, hrun, -⟩ := hx
  rw [hrun, Except.ok.injEq, Prod.mk.injEq] at h
  exact h.1.symm

end Yields

/-- The bytes after `v` is written to a cell: the accumulator takes the parity flag along. -/
def stored (c : Site) (v : TMem) (mem : Site → TMem) : Site → TMem :=
  Function.update (if c = acc then Function.update mem psw (withParity v (mem psw)) else mem) c
    (v &&& 0xff)

namespace Site

/-- A cell whose callbacks return the byte and leave memory alone reads as its byte. -/
theorem read_yields {c : Site}
    (h : ∀ hw ∈ D.hws c, ∀ st : St V,
      (D.hardware.read hw c st).1 = st.mem c ∧ (D.hardware.read hw c st).2.1.mem = st.mem)
    (s : MemState V) : Yields (c.read D) s (s.sys.mem c) s.sys.mem := by
  refine ⟨((c.toCell D s).read D.hardware s.sys).2, ?_, ?_⟩
  · have hval : ((c.toCell D s).read D.hardware s.sys).1 = s.sys.mem c := by
      rw [Cell.read]
      cases hops : (c.toCell D s).operators with
      | nil => rw [toCell_data]
      | cons o next =>
        have hmem : ∀ x ∈ o :: next, x ∈ (c.toCell D s).operators := fun x hx => by rwa [hops]
        refine Operator.read_fst_eq next o s.sys
          (fun x hx => (mem_toCell_operators (hmem x hx)).1.2.1) (fun x hx hw hk st hst => ?_)
        obtain ⟨⟨hcell, -, -⟩, hhw⟩ := mem_toCell_operators (hmem x hx)
        rw [hcell, (h hw (hhw hw hk) st).1, hst]
    rw [read, Program.run_modifyGet_ok]
    dsimp only
    rw [hval]
  · rw [cell_read_snd]
    exact Operator.passRead_invariant (J := fun st => st.mem = s.sys.mem)
      (fun o ho hw hk st hst => by
        obtain ⟨⟨hcell, -, -⟩, hhw⟩ := mem_toCell_operators ho
        rw [hcell, (h hw (hhw hw hk) st).2, hst]) rfl

/-- A quiet cell reads as its byte. -/
theorem read_quiet {c : Site} (hq : D.QuietAt c) (s : MemState V) :
    Yields (c.read D) s (s.sys.mem c) s.sys.mem :=
  read_yields (fun _ hh st => hq.read hh st) s

/-- The way down the chain of a quiet cell. On the accumulator the dummy is the only hardware, and it
sets the parity flag. -/
theorem passWrite_quiet {c : Site} (hq : D.QuietAt c) (v : TMem) (s : MemState V) :
    let r := Operator.passWrite D.hardware (c.toCell D s).operators v s.sys
    r.1 = v ∧ r.2.mem
      = if c = acc then Function.update s.sys.mem psw (withParity v (s.sys.mem psw))
        else s.sys.mem := by
  by_cases hacc : c = acc
  · have hreg : D.registered acc = [] := D.registered_core Reg.ACC (by decide)
    have hhws : D.hws acc = [CoreHw.dummy] := by
      rw [Devices.hws, hreg]
      rfl
    have hops : (acc.toCell D s).operators
        = ([OperatorKind.hw CoreHw.dummy] ++
            (s.brks acc).filterMap AddressSpace.brkOperator).map
          fun kind => { kind := kind, cell := acc, data := acc, mask := 0xff } := by
      have hacc' : (acc.toCell D s).operators = operators D s.brks acc := rfl
      rw [hacc', operators, hhws]
      rfl
    subst hacc
    rw [hops, List.map_append]
    have hbrk : ∀ x ∈ ((s.brks acc).filterMap AddressSpace.brkOperator).map
        (fun kind => (⟨kind, acc, acc, 0xff⟩ : Operator Site Site (CoreHw Dev))),
        x.kind.isHw = false := by
      intro x hx
      obtain ⟨kind, hkind, rfl⟩ := List.mem_map.mp hx
      obtain ⟨b, -, hb⟩ := List.mem_filterMap.mp hkind
      rw [AddressSpace.brkOperator] at hb
      split at hb <;> simp at hb <;> subst hb <;> rfl
    intro r
    have hr : r = _ := Operator.passWrite_append_brks D.hardware hbrk v s.sys
    rw [hr, if_pos rfl]
    refine ⟨rfl, ?_⟩
    have hdummy := dummyWrite_mem acc v s.sys.toStore
    rw [if_pos rfl] at hdummy
    exact hdummy
  · intro r
    have hr : r.1 = v ∧ r.2.mem = s.sys.mem := Operator.passWrite_invariant (H := D.hardware)
      (J := fun w st => w = v ∧ st.mem = s.sys.mem)
      (fun o ho h hk w st hst => by
        obtain ⟨⟨hcell, -, -⟩, hhw⟩ := mem_toCell_operators ho
        obtain ⟨hw, hm⟩ := hq.write (hhw h hk) hacc w st
        rw [hcell]
        exact ⟨hw.trans hst.1, hm.trans hst.2⟩) ⟨rfl, rfl⟩
    rw [if_neg hacc]
    exact hr

/-- A write to a quiet cell stores the byte. -/
theorem write_quiet {sp : Space} {idx : Int} (hq : D.QuietAt (.cell sp idx)) (v : TMem)
    (s : MemState V) :
    Yields ((Site.cell sp idx).write D v) s (v &&& 0xff) (stored (.cell sp idx) v s.sys.mem) := by
  obtain ⟨hval, hmem⟩ := passWrite_quiet hq v s
  refine ⟨(Operator.passWrite D.hardware ((Site.cell sp idx).toCell D s).operators v s.sys).2.store
    (.cell sp idx) (v &&& 0xff), ?_, ?_⟩
  · rw [write, Program.run_modifyGet_ok]
    dsimp only
    rw [cell_write]
    dsimp only
    rw [hval]
  · rw [Sys.store_mem, hmem, stored]

end Site

end Ucsim.S51
