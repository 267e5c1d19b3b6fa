import Ucsim.Sim.Breakpoints
import Ucsim.S51.LockstepInst

/-!
# Event breakpoints in a session

Rounds and resets of the controller, with event breakpoints set and deleted between them. A round that records an event
stops the simulation, and it is started again for the next one. The session is compared with the one in which no event
breakpoint is ever set.
-/

namespace Ucsim.S51

open Logic Program

variable {Dev V : Type} {D : Devices Dev V} {T : Bool → Bool → Prop}

-- an instance for each step of the longest program
set_option synthInstance.maxSize 1024

/-! ## Cells with breakpoints -/

/-- The memories differ in event breakpoints and in recorded events. -/
def SameButBrks (m m' : MemState V) : Prop :=
  ∃ brks events, m' = { m with sys := { m.sys with events := events }, brks := brks }

/-- An operator of a cell: it works on the cell that it hangs on. -/
abbrev operatorOn (c : Site) (kind : OperatorKind (CoreHw Dev)) : Operator Site Site (CoreHw Dev) :=
  { kind := kind, cell := c, data := c, mask := 0xff }

/-- The operators of the hardware on a cell. -/
def hwOps (D : Devices Dev V) (c : Site) : List (Operator Site Site (CoreHw Dev)) :=
  (D.hws c).map fun h => operatorOn c (.hw h)

/-- The operators of the breakpoints on a cell. -/
def brkOps (m : MemState V) (c : Site) : List (Operator Site Site (CoreHw Dev)) :=
  ((m.brks c).filterMap AddressSpace.brkOperator).map (operatorOn c)

theorem operators_split (m : MemState V) (c : Site) :
    Site.operators D m.brks c = hwOps D c ++ brkOps m c := by
  rw [Site.operators, List.map_append, List.map_map]
  rfl

theorem hwOps_isHw {c : Site} : ∀ o ∈ hwOps D c, o.kind.isHw = true := by
  intro o ho
  obtain ⟨h, -, rfl⟩ := List.mem_map.mp ho
  rfl

theorem brkOps_kind {m : MemState V} {c : Site} {o : Operator Site Site (CoreHw Dev)}
    (ho : o ∈ brkOps m c) : ∃ brk, AddressSpace.brkOperator brk = some o.kind := by
  obtain ⟨kind, hkind, rfl⟩ := List.mem_map.mp ho
  obtain ⟨brk, -, hbrk⟩ := List.mem_filterMap.mp hkind
  exact ⟨brk, hbrk⟩

theorem brkOps_isHw {m : MemState V} {c : Site} :
    ∀ o ∈ (brkOps m c : List (Operator Site Site (CoreHw Dev))), o.kind.isHw = false := by
  intro o ho
  obtain ⟨brk, hbrk⟩ := brkOps_kind ho
  exact AddressSpace.isHw_of_brkOperator hbrk

/-- What is in front of a list in which `p` holds nowhere. -/
theorem filter_front {α : Type} {p : α → Bool} {l k : List α} (hl : ∀ a ∈ l, p a = true) (hk : ∀ a ∈ k, p a = false) :
    (l ++ k).filter p = l := by
  rw [List.filter_append, List.filter_eq_self.mpr hl, List.filter_eq_nil_iff.mpr fun a ha => by simp [hk a ha],
    List.append_nil]

theorem filter_back {α : Type} {p : α → Bool} {l k : List α} (hl : ∀ a ∈ l, p a = true) (hk : ∀ a ∈ k, p a = false) :
    (l ++ k).filter (fun a => !p a) = k := by
  rw [List.filter_append, List.filter_eq_nil_iff.mpr fun a ha => by simp [hl a ha],
    List.filter_eq_self.mpr fun a ha => by simp [hk a ha], List.nil_append]

section Cells

variable (m : MemState V) (sp : Space) (idx : Int)

theorem toCell_split :
    ((Site.cell sp idx).toCell D m).operators = hwOps D (.cell sp idx) ++ brkOps m (.cell sp idx) :=
  operators_split m _

theorem mem_toCell {o : Operator Site Site (CoreHw Dev)} (ho : o ∈ ((Site.cell sp idx).toCell D m).operators) :
    o.data = .cell sp idx ∧ o.mask = 0xff := by
  obtain ⟨kind, -, rfl⟩ := List.mem_map.mp ho
  exact ⟨rfl, rfl⟩

/-- Hardware is registered before breakpoints are set. -/
theorem toCell_hwFirst : ((Site.cell sp idx).toCell D m).HwFirst where
  order := by
    rw [toCell_split]
    rw [filter_front hwOps_isHw brkOps_isHw, filter_back hwOps_isHw brkOps_isHw]
  mask o ho := (mem_toCell m sp idx ho).2
  event o ho hhw := by
    rw [toCell_split] at ho
    rcases List.mem_append.mp ho with ho | ho
    · rw [hwOps_isHw o ho] at hhw
      cases hhw
    · exact brkOps_kind ho

theorem toCell_bare_operators :
    ((Site.cell sp idx).toCell D m).bare.operators = hwOps D (.cell sp idx) := by
  change List.filter _ ((Site.cell sp idx).toCell D m).operators = _
  rw [toCell_split]
  exact filter_front hwOps_isHw brkOps_isHw

/-- All operators of a cell work on its own place. -/
theorem toCell_brksInPlace : ((Site.cell sp idx).toCell D m).BrksInPlace := by
  have hplace : Site.cell sp idx ∈ ((Site.cell sp idx).toCell D m).bare.writePlaces := by
    rw [Cell.writePlaces, toCell_bare_operators]
    cases hops : hwOps D (.cell sp idx) with
    | nil => exact List.mem_singleton.mpr rfl
    | cons o rest =>
      have hhw : ∀ x ∈ o :: rest, x.kind.isHw = true := hops ▸ hwOps_isHw
      have hmem : o ∈ hwOps D (.cell sp idx) := hops ▸ List.mem_cons_self
      obtain ⟨h, -, rfl⟩ := List.mem_map.mp hmem
      have hnone : ∀ x ∈ ([] : List (Operator Site Site (CoreHw Dev))), x.kind.isHw = false := by simp
      have hplaces := Operator.mem_places_append hhw hnone (Site.cell sp idx)
      rw [List.append_nil] at hplaces
      exact hplaces.mpr (.inl (List.mem_map.mpr ⟨_, List.mem_cons_self, rfl⟩))
  refine ⟨hplace, fun brk o ho => ?_⟩
  rw [(mem_toCell m sp idx (List.mem_of_mem_filter (List.mem_of_getLast? ho))).1]
  exact hplace

/-- The same cell without its breakpoints. -/
theorem toCell_bareOf (m' : MemState V) :
    Cell.BareOf ((Site.cell sp idx).toCell D m).bare ((Site.cell sp idx).toCell D m') where
  operators := by
    rw [toCell_bare_operators, toCell_split]
    exact (filter_front hwOps_isHw brkOps_isHw).symm
  data := rfl
  mask := rfl

end Cells

/-! ## Accesses -/

theorem SameButBrks.toStore {m m' : MemState V} (h : SameButBrks m m') : m.sys.toStore = m'.sys.toStore := by
  obtain ⟨brks, events, rfl⟩ := h
  rfl

/-- Accesses to a cell that give the same value and leave the same store. -/
theorem sameButBrks_access (acc : MemState V → TMem × Sys Site (HwState V))
    (h : ∀ m m', SameButBrks m m' → (acc m).1 = (acc m').1 ∧ (acc m).2.toStore = (acc m').2.toStore) :
    Alike SameButBrks (modifyGet fun m => ((acc m).1, { m with sys := (acc m).2 }) : MemProg V TMem)
      (modifyGet fun m => ((acc m).1, { m with sys := (acc m).2 })) := by
  refine Alike.modifyGet (fun m m' hm => (h m m' hm).1) fun m m' hm => ?_
  have hstore := (h m m' hm).2
  obtain ⟨brks, events, rfl⟩ := hm
  generalize acc m = r at hstore ⊢
  generalize acc _ = q at hstore ⊢
  obtain ⟨v, st, evs⟩ := r
  obtain ⟨v', st', evs'⟩ := q
  obtain rfl : st = st' := hstore
  exact ⟨brks, evs', rfl⟩

/-- A change of the store and of the events that depends on the store only. -/
theorem sameButBrks_modify (f : St V → St V × List Brk) :
    Alike SameButBrks
      (modify fun m =>
        let r := f m.sys.toStore
        { m with sys := { toStore := r.1, events := m.sys.events ++ r.2 } } : MemProg V Unit)
      (modify fun m =>
        let r := f m.sys.toStore
        { m with sys := { toStore := r.1, events := m.sys.events ++ r.2 } }) := by
  refine Alike.modifyGet (fun _ _ _ => rfl) ?_
  rintro m m' ⟨brks, events, rfl⟩
  exact ⟨brks, _, rfl⟩

theorem alike_readBrks (c : Site) : Alike SameButBrks (c.read D) (c.read D) := by
  refine sameButBrks_access _ fun m m' hm => ?_
  cases c with
  | dummy sp => exact ⟨congrArg (fun st : St V => st.mem (.dummy sp)) hm.toStore, hm.toStore⟩
  | cell sp idx =>
    have hbare := (toCell_hwFirst m sp idx).read_eq (toCell_brksInPlace m sp idx) (toCell_bareOf (D := D) m sp idx m)
      D.hardware (s := m.sys) rfl
    have hbare' := (toCell_hwFirst m' sp idx).read_eq (toCell_brksInPlace m' sp idx) (toCell_bareOf (D := D) m sp idx m')
      D.hardware hm.toStore.symm
    exact ⟨hbare.1.trans hbare'.1.symm, hbare.2.trans hbare'.2.symm⟩

theorem alike_readSkipBrks (c : Site) (skip : HwCath) : Alike SameButBrks (c.readSkip D skip) (c.readSkip D skip) := by
  refine sameButBrks_access _ fun m m' hm => ?_
  cases c with
  | dummy sp => exact ⟨congrArg (fun st : St V => st.mem (.dummy sp)) hm.toStore, hm.toStore⟩
  | cell sp idx =>
    have hbare := (toCell_hwFirst m sp idx).readSkip_eq (toCell_brksInPlace m sp idx)
      (toCell_bareOf (D := D) m sp idx m) D.hardware skip (s := m.sys) rfl
    have hbare' := (toCell_hwFirst m' sp idx).readSkip_eq (toCell_brksInPlace m' sp idx)
      (toCell_bareOf (D := D) m sp idx m') D.hardware skip hm.toStore.symm
    exact ⟨hbare.1.trans hbare'.1.symm, hbare.2.trans hbare'.2.symm⟩

instance : SameCells (SameButBrks (V := V)) where
  mem c m m' _ hm := congrArg (fun st : St V => st.mem c) hm.toStore
  store c v m m' _ := by
    rintro ⟨brks, events, rfl⟩
    exact ⟨brks, events, rfl⟩
  mov b m m' := by
    rintro ⟨brks, events, rfl⟩
    exact ⟨brks, events, rfl⟩
  reti b m m' := by
    rintro ⟨brks, events, rfl⟩
    exact ⟨brks, events, rfl⟩
  err e m m' := by
    rintro ⟨brks, events, rfl⟩
    exact ⟨brks, events, rfl⟩
  rand m m' := by
    rintro ⟨brks, events, rfl⟩
    rfl
  shift m m' := by
    rintro ⟨brks, events, rfl⟩
    exact ⟨brks, events, rfl⟩

theorem alike_writeBrks (c : Site) (v : TMem) : Alike SameButBrks (c.write D v) (c.write D v) := by
  cases c with
  | dummy sp => exact alike_setRandom sp
  | cell sp idx =>
    refine sameButBrks_access (fun m => ((Site.cell sp idx).toCell D m).write D.hardware v m.sys) fun m m' hm => ?_
    have hbare := (toCell_hwFirst m sp idx).write_transparent (toCell_brksInPlace m sp idx)
      (toCell_bareOf (D := D) m sp idx m) D.hardware v (s := m.sys) rfl
    have hbare' := (toCell_hwFirst m' sp idx).write_transparent (toCell_brksInPlace m' sp idx)
      (toCell_bareOf (D := D) m sp idx m') D.hardware v hm.toStore.symm
    exact ⟨hbare.1.trans hbare'.1.symm, hbare.2.trans hbare'.2.symm⟩

instance inStep_brks : InStep D D SameButBrks where
  read := alike_readBrks
  write c v := by
    have hwrite := alike_writeBrks (D := D) c v
    infer_instance
  writeSame c v _ := alike_writeBrks c v

instance samePorts_brks : SamePorts D D SameButBrks where
  readSkip := alike_readSkipBrks
  write := alike_writeBrks

/-! ### Cells of any register -/

/-- What changes a cell by a value of the cell. -/
theorem alike_storeBrks {α : Type} (c : Site) (val : TMem → α) (f : TMem → TMem) :
    Alike SameButBrks (modifyGet fun m => (val (m.sys.mem c), m.withSys (m.sys.store c (f (m.sys.mem c)))) : MemProg V α)
      (modifyGet fun m => (val (m.sys.mem c), m.withSys (m.sys.store c (f (m.sys.mem c))))) := by
  refine Alike.modifyGet ?_ ?_
  · rintro m m' ⟨brks, events, rfl⟩
    rfl
  · rintro m m' ⟨brks, events, rfl⟩
    exact ⟨brks, events, rfl⟩

instance alike_cellGetBrks (c : Site) : Alike SameButBrks (c.get D) (c.get D) := by
  constructor
  intro m m' hm
  rw [Site.get_run, Site.get_run, congrArg Store.mem hm.toStore]
  exact .ok _ hm

instance alike_cellSetBrks (c : Site) (v : TMem) : Alike SameButBrks (c.set D v) (c.set D v) := by
  cases c with
  | cell sp idx => exact alike_storeBrks (.cell sp idx) (fun _ => v &&& 0xff) fun _ => v &&& 0xff
  | dummy sp => exact alike_setRandom sp

instance alike_cellSetBit1Brks (c : Site) (bits : TMem) : Alike SameButBrks (c.setBit1 D bits) (c.setBit1 D bits) := by
  have hstore := alike_storeBrks (V := V) c (fun _ => ()) fun d => d ||| (bits &&& 0xff)
  cases c with
  | cell sp idx => exact hstore
  | dummy sp => exact hstore

instance alike_cellSetBit0Brks (c : Site) (bits : TMem) : Alike SameButBrks (c.setBit0 D bits) (c.setBit0 D bits) := by
  have hstore := alike_storeBrks (V := V) c (fun _ => ()) fun d => d &&& ~~~(bits &&& 0xff)
  cases c with
  | cell sp idx => exact hstore
  | dummy sp => exact hstore

instance alike_sfrGetBrks (addr : Int) : Alike SameButBrks (Space.sfr.get D addr) (Space.sfr.get D addr) := by
  change Alike _ (Space.sfr.getCells D addr) (Space.sfr.getCells D addr)
  unfold Space.getCells
  infer_instance

instance alike_sfrSetBrks (addr : Int) (v : TMem) : Alike SameButBrks (Space.sfr.set D addr v) (Space.sfr.set D addr v) := by
  change Alike _ (Space.sfr.setCells D addr v) (Space.sfr.setCells D addr v)
  unfold Space.setCells
  infer_instance

instance alike_sfrWriteBrks (addr : Int) (v : TMem) :
    Alike SameButBrks (Space.sfr.write D addr v) (Space.sfr.write D addr v) := by
  change Alike _ (Space.sfr.writeCells D addr v) (Space.sfr.writeCells D addr v)
  unfold Space.writeCells
  infer_instance

instance alike_sfrSetBit0Brks (addr : Int) (bits : TMem) :
    Alike SameButBrks (Space.sfr.setBit0 D addr bits) (Space.sfr.setBit0 D addr bits) := by
  unfold Space.setBit0
  infer_instance

/-! ## The hardware and the interrupt system -/

instance alike_devicesTick (cycles : Int) : Alike SameButBrks (devicesTick D cycles) (devicesTick D cycles) :=
  sameButBrks_modify (D.tick cycles)

instance alike_interruptTick : Alike SameButBrks (interruptTick D) (interruptTick D) := by
  have hbits : ∀ hw : HwState V, Alike SameButBrks
      (do
        if !hw.bitIT0 && !hw.bitINT0 then (Site.sfr Reg.TCON).setBit1 D bmIE0
        if !hw.bitIT1 && !hw.bitINT1 then (Site.sfr Reg.TCON).setBit1 D bmIE1 : MemProg V Unit)
      (do
        if !hw.bitIT0 && !hw.bitINT0 then (Site.sfr Reg.TCON).setBit1 D bmIE0
        if !hw.bitIT1 && !hw.bitINT1 then (Site.sfr Reg.TCON).setBit1 D bmIE1) := fun hw => inferInstance
  constructor
  rintro m m' ⟨brks, events, rfl⟩
  exact (hbits m.sys.hw).run m _ ⟨brks, events, rfl⟩

instance alike_tickHw (cycles : Int) : Alike SameButBrks (tickHw D cycles) (tickHw D cycles) := by
  unfold tickHw
  infer_instance

instance alike_requested (src : ItSrc) : Alike SameButBrks (requested D src) (requested D src) := by
  unfold requested
  infer_instance

instance alike_itPriority (ieMask : UChar) : Alike SameButBrks (itPriority D ieMask) (itPriority D ieMask) := by
  unfold itPriority
  infer_instance

section Core

/-- Look at the state, memory included. -/
theorem alike_getBrks {α : Type} {f g : Uc V → UcProg V α}
    (hf : ∀ u m go, SameButBrks u.mem m → Alike (OnUc SameButBrks T) (f u) (g { u with mem := m, simGo := go })) :
    Alike (OnUc SameButBrks T) (get >>= f) (get >>= g) := by
  constructor
  rintro u u' ⟨m, go, rfl, hm, hT⟩
  exact (hf u m go hm).run u _ ⟨m, go, rfl, hm, hT⟩

instance alike_onHwBrks (f : HwState V → HwState V) : Alike (OnUc SameButBrks T) (onHw f : UcProg V Unit) (onHw f) := by
  refine Alike.modifyGet (fun _ _ _ => rfl) ?_
  rintro u u' ⟨m, go, rfl, ⟨brks, events, rfl⟩, hT⟩
  exact ⟨_, go, rfl, ⟨brks, events, rfl⟩, hT⟩

instance alike_state (s : CpuState) : Alike (OnUc SameButBrks T) (modify fun u => { u with state := s } : UcProg V Unit)
    (modify fun u => { u with state := s }) := alike_core (fun _ _ _ => rfl) fun _ => ⟨rfl, rfl⟩

instance alike_result (res : Res) : Alike (OnUc SameButBrks T) (modify fun u => { u with result := res } : UcProg V Unit)
    (modify fun u => { u with result := res }) := alike_core (fun _ _ _ => rfl) fun _ => ⟨rfl, rfl⟩

instance alike_acceptIt (il : ItLevel) : Alike (OnUc SameButBrks T) (acceptIt D il) (acceptIt D il) := by
  have hpush : Alike (OnUc SameButBrks T) (modify fun u => { u with itLevels := il :: u.itLevels } : UcProg V Unit)
      (modify fun u => { u with itLevels := il :: u.itLevels }) := alike_core (fun _ _ _ => rfl) fun _ => ⟨rfl, rfl⟩
  unfold acceptIt
  infer_instance

instance alike_leaveIdle : Alike (OnUc SameButBrks T) (leaveIdle D) (leaveIdle D) := by
  unfold leaveIdle
  infer_instance

instance alike_acceptSource (src : ItSrc) (pr : Int) :
    Alike (OnUc SameButBrks T) (acceptSource D src pr) (acceptSource D src pr) := by
  unfold acceptSource
  infer_instance

instance alike_takeSource (src : ItSrc) (pr : Int) :
    Alike (OnUc SameButBrks T) (takeSource D src pr) (takeSource D src pr) := by
  unfold takeSource
  infer_instance

/-- What goes on with the top level. -/
theorem alike_topLevel {f g : ItLevel → UcProg V Res} (hf : ∀ il, Alike (OnUc SameButBrks T) (f il) (g il)) :
    Alike (OnUc SameButBrks T)
      (do
        match (← get).itLevels with
        | [] => throw .noLevel
        | il :: _ => f il)
      (do
        match (← get).itLevels with
        | [] => throw .noLevel
        | il :: _ => g il) := by
  refine @alike_get _ _ _ _ _ _ fun u m go => ?_
  dsimp only
  cases u.itLevels with
  | nil => exact Alike.throw _
  | cons il _ => exact hf il

instance alike_scanSources (srcs : List ItSrc) :
    Alike (OnUc SameButBrks T) (scanSources D srcs) (scanSources D srcs) := by
  induction srcs with
  | nil => exact Alike.pure _
  | cons src rest ih =>
    have hscan : ∀ pr : Int, _ := fun pr => alike_topLevel (V := V) (T := T)
      (f := fun il => if il.level ≥ 0 ∧ pr ≤ il.level then scanSources D rest else takeSource D src pr)
      (g := fun il => if il.level ≥ 0 ∧ pr ≤ il.level then scanSources D rest else takeSource D src pr)
      fun il => inferInstance
    unfold scanSources
    infer_instance

instance alike_doInterrupt : Alike (OnUc SameButBrks T) (doInterrupt D) (doInterrupt D) := by
  unfold doInterrupt
  refine alike_getBrks fun u m go hm => ?_
  obtain ⟨brks, events, rfl⟩ := hm
  dsimp only
  infer_instance

instance alike_idlePd : Alike (OnUc SameButBrks T) (idlePd D) (idlePd D) := by
  unfold idlePd
  infer_instance

instance alike_checkInterrupts : Alike (OnUc SameButBrks T) (checkInterrupts D) (checkInterrupts D) := by
  unfold checkInterrupts
  infer_instance

/-- The controller with other event breakpoints and events. -/
abbrev Uc.withBrks (u : Uc V) (brks : Site → List Brk) (events : List Brk) : Uc V :=
  { u with mem := { u.mem with sys := { u.mem.sys with events := events }, brks := brks } }

/-- Looking for a fetch breakpoint. -/
theorem fetchBrkHit_run (u : Uc V) : ∃ (hit : Bool) (fbrk : List FetchBrk) (fetchBrk : Int → Bool), ∀ brks events,
    fetchBrkHit.run (u.withBrks brks events) =
      .ok (hit, { u.withBrks brks events with
        fbrk := fbrk, mem := { (u.withBrks brks events).mem with fetchBrk := fetchBrk } }) := by
  unfold fetchBrkHit
  by_cases hcond : u.simGo ∧ u.mem.fetchBrk u.PC ∧ ¬ Space.rom.invalid u.PC
  · have hrun : ∀ (x y : UcProg V Bool) (v : Uc V), (if u.simGo ∧ u.mem.fetchBrk u.PC ∧ ¬ Space.rom.invalid u.PC then x
        else y).run v = x.run v := fun x y v => by rw [if_pos hcond]
    cases hfind : u.fbrk.find? (·.addr = u.PC) with
    | none =>
      refine ⟨false, u.fbrk, u.mem.fetchBrk, fun brks events => (hrun _ _ _).trans ?_⟩
      rw [hfind]
      rfl
    | some brk =>
      let counted (cnt : Int) : List FetchBrk :=
        u.fbrk.modify (u.fbrk.findIdx (·.addr = u.PC)) fun b => { b with cnt := cnt }
      by_cases hcnt : brk.cnt - 1 > 0
      · refine ⟨false, counted (brk.cnt - 1), u.mem.fetchBrk, fun brks events => (hrun _ _ _).trans ?_⟩
        rw [hfind]
        dsimp only
        rw [if_pos hcnt]
        rfl
      · by_cases hdynamic : brk.dynamic
        · refine ⟨true, u.fbrk.eraseP (·.addr = u.PC), Function.update u.mem.fetchBrk u.PC false, fun brks events => (hrun _ _ _).trans ?_⟩
          rw [hfind]
          dsimp only
          rw [if_neg hcnt, if_pos hdynamic]
          rfl
        · refine ⟨true, counted brk.hit, u.mem.fetchBrk, fun brks events => (hrun _ _ _).trans ?_⟩
          rw [hfind]
          dsimp only
          rw [if_neg hcnt, if_neg hdynamic]
          rfl
  · refine ⟨false, u.fbrk, u.mem.fetchBrk, fun brks events => ?_⟩
    exact congrArg (fun x : UcProg V Bool => x.run (u.withBrks brks events)) (if_neg hcond)

/-- Fetch breakpoints are looked for while the simulation goes on, so it has to go on in both runs. -/
instance alike_fetchBrkHit : Alike (OnUc SameButBrks Eq) (fetchBrkHit : UcProg V Bool) fetchBrkHit := by
  constructor
  rintro u u' ⟨_, _, rfl, ⟨brks, events, rfl⟩, rfl⟩
  obtain ⟨hit, fbrk, fetchBrk, hrun⟩ := fetchBrkHit_run u
  have hleft : fetchBrkHit.run u = _ := hrun u.mem.brks u.mem.sys.events
  have hright : fetchBrkHit.run (u.withBrks brks events) = _ := hrun brks events
  rw [hleft]
  refine Eq.subst (motive := EndAlike _ _) hright.symm ?_
  exact .ok hit ⟨_, _, rfl, ⟨brks, events, rfl⟩, rfl⟩

/-! ## Rounds -/

/-- The code is executed unless the fetch has met a breakpoint. -/
theorem alike_fetched (code : Option TMem) : Alike (OnUc SameButBrks Eq)
    (match code with
      | none => return .breakpoint
      | some code => do
        tick 1
        dispatch D code : UcProg V Res)
    (match code with
      | none => return .breakpoint
      | some code => do
        tick 1
        dispatch D code) := by
  have hdispatch : ∀ code, Alike (OnUc SameButBrks Eq) (dispatch D code) (dispatch D code) := fun code =>
    dispatch_alike cases_alike_same fun _ _ => trivial
  cases code <;> infer_instance

variable (D) in
theorem alike_execInst : Alike (OnUc SameButBrks Eq) (execInst D) (execInst D) := by
  have hstart : Alike (OnUc SameButBrks Eq) (modify fun u => { u with instPC := u.PC } : UcProg V Unit)
      (modify fun u => { u with instPC := u.PC }) := alike_core (fun _ _ _ => rfl) fun _ => ⟨rfl, rfl⟩
  have hfetch : Alike (OnUc SameButBrks Eq) (fetchInst D) (fetchInst D) := by
    unfold fetchInst
    infer_instance
  have hexec := alike_fetched (D := D)
  unfold execInst
  infer_instance

/-- The simulation may have stopped in one of the runs. -/
abbrev Either (_ _ : Bool) : Prop := True

instance alike_simStop : Alike (OnUc SameButBrks Either) (simStop : UcProg V Unit) simStop := by
  refine Alike.modifyGet (fun _ _ _ => rfl) ?_
  rintro u u' ⟨m, go, rfl, hm, -⟩
  exact ⟨m, false, rfl, hm, trivial⟩

instance alike_checkErrors : Alike (OnUc SameButBrks Either) (checkErrors : UcProg V Unit) checkErrors := by
  have hclear : Alike (OnUc SameButBrks Either) (modify fun u => { u with mem := { u.mem with errors := [] } } : UcProg V Unit)
      (modify fun u => { u with mem := { u.mem with errors := [] } }) := by
    refine Alike.modifyGet (fun _ _ _ => rfl) ?_
    rintro u u' ⟨m, go, rfl, ⟨brks, events, rfl⟩, -⟩
    exact ⟨_, go, rfl, ⟨brks, events, rfl⟩, trivial⟩
  unfold checkErrors
  refine alike_getBrks fun u m go hm => ?_
  obtain ⟨brks, events, rfl⟩ := hm
  dsimp only
  infer_instance

/-- The runs need not agree on whether the simulation stops. -/
theorem alike_stopIf {α : Type} {x y : UcProg V α} [hx : Alike (OnUc SameButBrks Either) x y] (c c' : Prop) [Decidable c]
    [Decidable c'] : Alike (OnUc SameButBrks Either) (if c then simStop >>= fun _ => x else x)
      (if c' then simStop >>= fun _ => y else y) := by
  have hleft : Alike (OnUc SameButBrks Either) (simStop >>= fun _ => x) y := by
    constructor
    rintro u u' ⟨m, go, rfl, hm, -⟩
    exact hx.run { u with simGo := false } _ ⟨m, go, rfl, hm, trivial⟩
  have hright : Alike (OnUc SameButBrks Either) x (simStop >>= fun _ => y) := by
    constructor
    rintro u u' ⟨m, go, rfl, hm, -⟩
    exact hx.run u { u with mem := m, simGo := false } ⟨m, false, rfl, hm, trivial⟩
  by_cases h : c <;> by_cases h' : c' <;> simp only [h, h', if_true, if_false] <;> infer_instance

instance alike_postInst : Alike (OnUc SameButBrks Either) (postInst D) (postInst D) := by
  have hexec : Alike (OnUc SameButBrks Either) (modify fun u => { u with instExec := false } : UcProg V Unit)
      (modify fun u => { u with instExec := false }) := alike_core (fun _ _ _ => rfl) fun _ => ⟨rfl, rfl⟩
  have hevents : Alike (OnUc SameButBrks Either)
      (do
        if (← get).mem.sys.events ≠ [] then simStop
        modify fun u => { u with instExec := false } : UcProg V Unit)
      (do
        if (← get).mem.sys.events ≠ [] then simStop
        modify fun u => { u with instExec := false }) := alike_getBrks fun _ _ _ _ => alike_stopIf _ _
  have herrors : Alike (OnUc SameButBrks Either)
      (do
        if (← get).mem.errors ≠ [] then checkErrors
        if (← get).mem.sys.events ≠ [] then simStop
        modify fun u => { u with instExec := false } : UcProg V Unit)
      (do
        if (← get).mem.errors ≠ [] then checkErrors
        if (← get).mem.sys.events ≠ [] then simStop
        modify fun u => { u with instExec := false }) := by
    refine alike_getBrks fun u m go hm => ?_
    obtain ⟨brks, events, rfl⟩ := hm
    dsimp only
    infer_instance
  unfold postInst
  infer_instance

instance alike_idleRound : Alike (OnUc SameButBrks Either) (idleRound D) (idleRound D) := by
  have hticks : Alike (OnUc SameButBrks Either) (modify fun u => { u with instTicks := 1 } : UcProg V Unit)
      (modify fun u => { u with instTicks := 1 }) := alike_core (fun _ _ _ => rfl) fun _ => ⟨rfl, rfl⟩
  unfold idleRound
  infer_instance

instance alike_checkStop (input : Bool) : Alike (OnUc SameButBrks Either) (checkStop input : UcProg V Unit) (checkStop input) := by
  unfold checkStop
  infer_instance

theorem onUc_eq_either (u u' : Uc V) (h : OnUc SameButBrks Eq u u') : OnUc SameButBrks Either u u' := by
  obtain ⟨m, go, rfl, hm, -⟩ := h
  exact ⟨m, go, rfl, hm, trivial⟩

variable (D) in
/-- The fetch of the instruction is the last that looks at whether the simulation goes on. -/
theorem goRound_alikeTo : AlikeTo (OnUc SameButBrks Eq) (OnUc SameButBrks Either) (goRound D) (goRound D) := by
  have hexec := alike_execInst D
  have hpre : Alike (OnUc SameButBrks Eq) (preInst : UcProg V Unit) preInst := by
    refine Alike.modifyGet (fun _ _ _ => rfl) ?_
    rintro u u' ⟨m, go, rfl, ⟨brks, events, rfl⟩, hgo⟩
    exact ⟨_, go, rfl, ⟨brks, [], rfl⟩, hgo⟩
  have hresult : ∀ res, Alike (OnUc SameButBrks Either)
      (do
        modify fun u => { u with result := res }
        postInst D)
      (do
        modify fun u => { u with result := res }
        postInst D) := fun res => inferInstance
  unfold goRound
  have hsame : ∀ {α : Type} {x : UcProg V α}, Alike (OnUc SameButBrks Eq) x x →
      AlikeTo (OnUc SameButBrks Eq) (OnUc SameButBrks Eq) x x := fun h => AlikeTo.of_alike h fun _ _ h => h
  refine (hsame inferInstance).bind fun _ => (hsame hpre).bind fun _ => (hsame hexec).bind fun res => ?_
  exact AlikeTo.of_alike (hresult res) onUc_eq_either

variable (D) in
theorem round_alikeTo (input : Bool) :
    AlikeTo (OnUc SameButBrks Eq) (OnUc SameButBrks Either) (round D input) (round D input) := by
  have hcheck : Alike (OnUc SameButBrks Either) (do checkInterrupts D; checkStop input) (do checkInterrupts D; checkStop input) :=
    inferInstance
  unfold round
  refine AlikeTo.bind (R := OnUc SameButBrks Eq) (AlikeTo.of_alike (alike_result .go) fun _ _ h => h) fun _ => ?_
  rintro u u' ⟨m, go, rfl, hm, hgo⟩
  refine AlikeTo.ite (P := OnUc SameButBrks Eq) ?_ ?_ u _ ⟨m, go, rfl, hm, hgo⟩
  · exact (goRound_alikeTo D).bind fun _ => AlikeTo.of_alike hcheck fun _ _ h => h
  · have hidle : Alike (OnUc SameButBrks Either) (do idleRound D; checkInterrupts D; checkStop input)
        (do idleRound D; checkInterrupts D; checkStop input) := inferInstance
    exact AlikeTo.of_alike hidle onUc_eq_either

end Core

/-! ## Reset -/

section Reset

instance alike_resetHw : Alike (OnUc SameButBrks T) (resetHw D) (resetHw D) := by
  have hdevices := sameButBrks_modify D.reset
  unfold resetHw
  infer_instance

instance alike_ucReset : Alike (OnUc SameButBrks T) (ucReset D) (ucReset D) := by
  have hstart : Alike (OnUc SameButBrks T)
      (modify fun u =>
        { u with instPC := 0, PC := 0, state := .go, ticks := 0, itLevels := u.itLevels.dropWhile (·.level ≥ 0) } :
          UcProg V Unit)
      (modify fun u =>
        { u with instPC := 0, PC := 0, state := .go, ticks := 0, itLevels := u.itLevels.dropWhile (·.level ≥ 0) }) :=
    alike_core (fun _ _ _ => rfl) fun _ => ⟨rfl, rfl⟩
  have hops : Alike (OnUc SameButBrks T) (modify fun u => { u with stackOps := [] } : UcProg V Unit)
      (modify fun u => { u with stackOps := [] }) := alike_core (fun _ _ _ => rfl) fun _ => ⟨rfl, rfl⟩
  unfold ucReset
  infer_instance

instance alike_clearSfr : Alike (OnUc SameButBrks T) (clearSfr D) (clearSfr D) := by
  have hset : ∀ l : List Nat, Alike (OnUc SameButBrks T) (l.forM fun i => Space.sfr.set D (0x80 + i) 0 : UcProg V Unit)
      (l.forM fun i => Space.sfr.set D (0x80 + i) 0) := fun l => Alike.forM l fun _ => inferInstance
  have hwrite : ∀ (l : List Int) (v : TMem), Alike (OnUc SameButBrks T)
      (l.forM fun r => do
        let _ ← Space.sfr.write D r v : UcProg V Unit)
      (l.forM fun r => do
        let _ ← Space.sfr.write D r v) := fun l v => Alike.forM l fun _ => inferInstance
  unfold clearSfr
  infer_instance

theorem alike_reset : Alike (OnUc SameButBrks T) (reset D) (reset D) := by
  unfold reset
  infer_instance

end Reset

/-! ## Sessions -/

/-- `do_inst(1)`. Input on the frozen console is looked for while the processor is powered down. -/
def doInst (D : Devices Dev V) (input : Bool) : UcProg V Unit := do
  if (← get).state = .pd then modify fun u => { u with result := .go }
  else round D false
  if (← get).state = .pd ∧ input then
    modify fun u => { u with result := .user }
    simStop

/-- What the user does in a session. -/
inductive Action
  /-- Start the simulation, which executes an instruction in the main loop. -/
  | go (input : Bool)
  /-- Execute an instruction while the simulation stands still. -/
  | step (input : Bool)
  | reset
  | setBrk (c : Site) (brk : Brk)
  | delBrk (c : Site) (brk : Brk)
  deriving DecidableEq

namespace Action

/-- Is it more than a change of event breakpoints? -/
def runsProgram : Action → Bool
  | .go _ | .step _ | .reset => true
  | .setBrk .. | .delBrk .. => false

/-- Execute the action. -/
def exec (D : Devices Dev V) : Action → UcProg V Unit
  | .go input => do
    modify fun u => { u with simGo := true }
    doInst D input
  | .step input => do
    modify fun u => { u with simGo := false }
    doInst D input
  | .reset => S51.reset D
  | .setBrk c brk =>
    modify fun u => { u with mem := { u.mem with brks := Function.update u.mem.brks c (u.mem.brks c ++ [brk]) } }
  | .delBrk c brk =>
    modify fun u => { u with mem := { u.mem with brks := Function.update u.mem.brks c ((u.mem.brks c).erase brk) } }

end Action

/-- A session: the actions one after the other. -/
def session (D : Devices Dev V) (actions : List Action) : UcProg V Unit := actions.forM (Action.exec D)

variable (D) in
theorem doInst_alikeTo (input : Bool) :
    AlikeTo (OnUc SameButBrks Eq) (OnUc SameButBrks Either) (doInst D input) (doInst D input) := by
  have hend : Alike (OnUc SameButBrks Either)
      (do
        if (← get).state = .pd ∧ input then
          modify fun u => { u with result := .user }
          simStop : UcProg V Unit)
      (do
        if (← get).state = .pd ∧ input then
          modify fun u => { u with result := .user }
          simStop) := inferInstance
  unfold doInst
  rintro u u' ⟨m, go, rfl, hm, hgo⟩
  refine AlikeTo.ite (P := OnUc SameButBrks Eq) ?_ ?_ u _ ⟨m, go, rfl, hm, hgo⟩
  · exact (AlikeTo.of_alike (alike_result .go) onUc_eq_either).bind fun _ => AlikeTo.of_alike hend fun _ _ h => h
  · exact (round_alikeTo D false).bind fun _ => AlikeTo.of_alike hend fun _ _ h => h

/-- To switch the simulation on or off makes the runs agree on it. -/
theorem setGo_alikeTo (go : Bool) : AlikeTo (OnUc SameButBrks Either) (OnUc SameButBrks Eq)
    (modify fun u => { u with simGo := go } : UcProg V Unit) (modify fun u => { u with simGo := go }) := by
  rintro u u' ⟨m, _, rfl, hm, -⟩
  exact .ok () ⟨m, go, rfl, hm, rfl⟩

variable (D) in
theorem exec_alike (a : Action) (ha : a.runsProgram = true) : Alike (OnUc SameButBrks Either) (a.exec D) (a.exec D) := by
  cases a with
  | go input => exact ⟨(setGo_alikeTo true).bind fun _ => doInst_alikeTo D input⟩
  | step input => exact ⟨(setGo_alikeTo false).bind fun _ => doInst_alikeTo D input⟩
  | reset => exact alike_reset
  | setBrk c brk => cases ha
  | delBrk c brk => cases ha

variable (D) in
/-- A change of breakpoints leaves everything else alone. -/
theorem exec_brks (a : Action) (ha : a.runsProgram = false) (u : Uc V) :
    ∃ v, (a.exec D).run u = .ok ((), v) ∧ OnUc SameButBrks Either v u := by
  cases a with
  | go input => cases ha
  | step input => cases ha
  | reset => cases ha
  | setBrk c brk => exact ⟨_, rfl, _, _, rfl, ⟨u.mem.brks, u.mem.sys.events, rfl⟩, trivial⟩
  | delBrk c brk => exact ⟨_, rfl, _, _, rfl, ⟨u.mem.brks, u.mem.sys.events, rfl⟩, trivial⟩

theorem onUc_trans {u v w : Uc V} (huv : OnUc SameButBrks Either u v) (hvw : OnUc SameButBrks Either v w) :
    OnUc SameButBrks Either u w := by
  obtain ⟨m, go, rfl, ⟨brks, events, rfl⟩, -⟩ := huv
  obtain ⟨m', go', rfl, ⟨brks', events', rfl⟩, -⟩ := hvw
  exact ⟨_, go', rfl, ⟨brks', events', rfl⟩, trivial⟩

/-- Event breakpoints do not disturb a session: whatever breakpoints are set at its start, and however they are set and
deleted between the instructions, the program computes what it computes without any of these changes. What may differ is
which breakpoints are set, which events are recorded, and whether the simulation has stopped. -/
theorem event_breakpoints_transparent (D : Devices Dev V) (actions : List Action) (u : Uc V) (brks : Site → List Brk) :
    EndAlike (OnUc SameButBrks fun _ _ => True) ((session D actions).run u)
      ((session D (actions.filter (·.runsProgram))).run { u with mem := { u.mem with brks := brks } }) := by
  have hrun : ∀ (actions : List Action) (u u' : Uc V), OnUc SameButBrks Either u u' →
      EndAlike (OnUc SameButBrks Either) ((session D actions).run u)
        ((session D (actions.filter (·.runsProgram))).run u') := by
    intro actions
    induction actions with
    | nil => exact fun u u' h => .ok () h
    | cons a actions ih =>
      intro u u' h
      cases ha : a.runsProgram with
      | true =>
        rw [List.filter_cons_of_pos ha]
        have hbind := AlikeTo.bind (AlikeTo.of_alike (exec_alike D a ha) fun _ _ h => h) fun _ : Unit => ih
        exact hbind u u' h
      | false =>
        rw [List.filter_cons_of_neg (by simp [ha])]
        obtain ⟨v, hv, hvu⟩ := exec_brks D a ha u
        have hsession : (session D (a :: actions)).run u = (session D actions).run v := run_bind_of_ok hv _
        rw [hsession]
        exact ih v u' (onUc_trans hvu h)
  exact hrun actions u _ ⟨_, _, rfl, ⟨brks, u.mem.sys.events, rfl⟩, trivial⟩

end Ucsim.S51
