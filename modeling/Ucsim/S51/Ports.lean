import Ucsim.S51.Cells
import Ucsim.S51.Core

/-!
# The ports

`cl_port`: a latch, which is the register's cell, and the pins. A read of the cell calls the port unless the reader
skips it, and a write tells the partners when the latch is going to change. On the board of this module the ports are
the only devices. What partners do is not modelled, only what they are told.
-/

namespace Ucsim.S51

open Logic Program

/-- The `id` of a port. -/
abbrev Port := Fin 4

/-- `cl_partner_hw`. -/
structure PartnerHw where
  cathegory : HwCath
  id : Nat
  deriving DecidableEq, Repr

/-- `ev_port_changed`. -/
structure EvPortChanged where
  id : Port
  addr : Int
  prevValue : TMem
  newValue : TMem
  pins : TMem
  newPins : TMem
  deriving DecidableEq, Repr

/-- The pins of all ports, and the calls of `happen` in their order. The field `prev`, which nothing reads, is left
out. -/
structure PortsState where
  portPins : Port → UChar
  happened : List (PartnerHw × EvPortChanged)

namespace Port

/-- `addr_p`. -/
def addrP : Port → Int
  | 0 => Reg.P0
  | 1 => Reg.P1
  | 2 => Reg.P2
  | 3 => Reg.P3

/-- `cell_p`. -/
def cellP (i : Port) : Site := .sfr i.addrP

/-- The partners that `init` makes. -/
def partners : Port → List PartnerHw
  | 0 | 2 => []
  | 1 => [⟨.timer, 2⟩, ⟨.pca, 0⟩]
  | 3 => [⟨.timer, 0⟩, ⟨.timer, 1⟩, ⟨.interrupt, 0⟩, ⟨.dummy, 0⟩]

theorem cellP_inj {i j : Port} : i.cellP = j.cellP ↔ i = j := by
  revert i j
  decide

theorem mem_range (i : Port) : 0x80 ≤ i.addrP ∧ i.addrP < 0x100 := by
  revert i
  decide

end Port

/-! ## Callbacks -/

/-- `cl_partner_hw::happen`. A partner that the controller does not have is not called. -/
def PartnerHw.happen (present : PartnerHw → Bool) (ph : PartnerHw) (ep : EvPortChanged) (p : PortsState) : PortsState :=
  if present ph then { p with happened := p.happened ++ [(ph, ep)] } else p

/-- `inform_partners(EV_PORT_CHANGED, &ep)`. -/
def Port.informPartners (present : PartnerHw → Bool) (i : Port) (ep : EvPortChanged) (p : PortsState) : PortsState :=
  i.partners.foldl (fun p ph => ph.happen present ep p) p

/-- Informing the partners of a list appends a call for each one that the controller has. -/
theorem foldl_happen (present : PartnerHw → Bool) (ep : EvPortChanged) (l : List PartnerHw) (p : PortsState) :
    l.foldl (fun p ph => ph.happen present ep p) p
      = { p with happened := p.happened ++ (l.filter present).map fun ph => (ph, ep) } := by
  induction l generalizing p with
  | nil => simp
  | cons ph l ih =>
    rw [List.foldl_cons, ih, PartnerHw.happen]
    by_cases h : present ph = true
    · simp [h]
    · simp [h]

theorem informPartners_eq (present : PartnerHw → Bool) (i : Port) (ep : EvPortChanged) (p : PortsState) :
    i.informPartners present ep p
      = { p with happened := p.happened ++ (i.partners.filter present).map fun ph => (ph, ep) } :=
  foldl_happen present ep i.partners p

/-- Change the state of the ports. -/
def onPorts (f : PortsState → PortsState) (st : St PortsState) : St PortsState :=
  { st with hw := { st.hw with devices := f st.hw.devices } }

/-- `cl_port::read`. -/
def Port.read (i : Port) (c : Site) (st : St PortsState) : TMem := st.mem c &&& tmem (st.hw.devices.portPins i)

/-- The event of a write. -/
def Port.changed (i : Port) (val : TMem) (st : St PortsState) : EvPortChanged where
  id := i
  addr := i.addrP
  prevValue := st.mem i.cellP
  newValue := val
  pins := tmem (st.hw.devices.portPins i)
  newPins := tmem (st.hw.devices.portPins i)

/-- `cl_port::write`: the value that it leaves in `*val`, and what it changes. -/
def Port.write (present : PartnerHw → Bool) (i : Port) (val : TMem) (st : St PortsState) : TMem × St PortsState :=
  let val := val &&& 0xff
  let ep := i.changed val st
  (val, if ep.prevValue ≠ ep.newValue then onPorts (i.informPartners present ep) st else st)

/-- The ports on a cell. -/
def portsOn (c : Site) : List Port := (List.finRange 4).filter (·.cellP = c)

theorem portsOn_cellP (i : Port) : portsOn i.cellP = [i] := by
  revert i
  decide

theorem portsOn_eq_nil {c : Site} (h : ∀ i : Port, c ≠ i.cellP) : portsOn c = [] := by
  apply List.filter_eq_nil_iff.mpr
  intro i _
  simpa using (h i).symm

theorem cell_ne_cellP {sp : Space} {idx : Int} (h : sp.isCode) (i : Port) : Site.cell sp idx ≠ i.cellP := by
  intro heq
  obtain ⟨rfl, -⟩ := Site.cell.injEq .. ▸ heq
  cases h

theorem portsOn_code (sp : Space) (idx : Int) (h : sp.isCode) : portsOn (.cell sp idx) = [] :=
  portsOn_eq_nil (cell_ne_cellP h)

theorem core_ne_cellP {r : Int} (h : r ∈ coreRegisters) (i : Port) : Site.sfr r ≠ i.cellP := by
  have hne : ∀ i : Port, ∀ r ∈ coreRegisters, r ≠ i.addrP := by decide
  exact fun heq => hne i r h (Site.sfr_inj.mp heq)

theorem portsOn_core (r : Int) (hr : r ∈ coreRegisters) : portsOn (.sfr r) = [] := portsOn_eq_nil (core_ne_cellP hr)

@[simp] theorem onPorts_mem (f : PortsState → PortsState) (st : St PortsState) : (onPorts f st).mem = st.mem := rfl

@[simp] theorem Port.write_mem (present : PartnerHw → Bool) (i : Port) (val : TMem) (st : St PortsState) :
    (i.write present val st).2.mem = st.mem := by
  unfold Port.write
  dsimp only
  split <;> rfl

/-- The board with the ports. -/
def portBoard (present : PartnerHw → Bool) : Devices Port PortsState where
  cathegory _ := .port
  registered := portsOn
  read i c st := (i.read c st, st, [])
  write i _ val st := ((i.write present val st).1, (i.write present val st).2, [])
  tick _ st := (st, [])
  reset st := (st, [])
  registered_core := portsOn_core
  registered_code := portsOn_code
  read_fmap i hi := absurd hi (by
    have hfmap : portsOn (.sfr Reg.FMAP) = [] := by decide
    simp [hfmap])
  read_bytes _ _ _ h := h
  write_bytes i _ v st h := by simpa using h
  tick_bytes _ _ h := h
  reset_bytes _ h := h
  read_reti _ _ _ := rfl
  write_reti i _ v st := by
    simp only [Port.write]
    split <;> rfl
  tick_reti _ _ := rfl
  reset_reti _ := rfl

/-! ## The cell of a port -/

/-- The breakpoint operators of a cell. -/
def brkOperators (brks : Site → List Brk) (c : Site) : List (Operator Site Site (CoreHw Port)) :=
  ((brks c).filterMap AddressSpace.brkOperator).map fun kind => { kind := kind, cell := c, data := c, mask := 0xff }

theorem brkOperators_isHw {brks : Site → List Brk} {c : Site} : ∀ o ∈ brkOperators brks c, o.kind.isHw = false := by
  intro o ho
  obtain ⟨kind, hkind, rfl⟩ := List.mem_map.mp ho
  obtain ⟨b, -, hb⟩ := List.mem_filterMap.mp hkind
  rw [AddressSpace.brkOperator] at hb
  split at hb <;> simp at hb <;> subst hb <;> rfl

section Cell

variable {D : Devices Port PortsState} (hD : D.registered = portsOn) (i : Port) (m : MemState PortsState)

include hD in
/-- The port is the only element on its cell. -/
theorem hws_cellP : D.hws i.cellP = [.device i] := by
  have hcore : ∀ i : Port, ¬ (i.cellP = .sfr Reg.IE ∨ i.cellP = .sfr Reg.TCON) ∧ ¬ (i.cellP = acc ∨ i.cellP = .sfr Reg.SP) := by
    decide
  rw [Devices.hws, hD, portsOn_cellP, if_neg (hcore i).1, if_neg (hcore i).2]
  rfl

/-- The operator of the port. -/
def Port.operator : Operator Site Site (CoreHw Port) :=
  { kind := .hw (.device i), cell := i.cellP, data := i.cellP, mask := 0xff }

include hD in
theorem operators_cellP : (i.cellP.toCell D m).operators = i.operator :: brkOperators m.brks i.cellP := by
  have hops : (i.cellP.toCell D m).operators = Site.operators D m.brks i.cellP := rfl
  rw [hops, Site.operators, hws_cellP hD, List.map_append]
  rfl

/-- The breakpoints that a read of the cell records. -/
def readBrks (brks : Site → List Brk) (c : Site) : List Brk := (brkOperators brks c).filterMap (·.kind.readBrk)

/-- The breakpoints that a write of the cell records. -/
def writeBrks (brks : Site → List Brk) (c : Site) : List Brk := (brkOperators brks c).filterMap (·.kind.writeBrk)

theorem passRead_brks (H : Hardware Site Site (CoreHw Port) (HwState PortsState)) (brks : Site → List Brk) (c : Site)
    (s : Sys Site (HwState PortsState)) :
    Operator.passRead H (brkOperators brks c) s = s.addEvents (readBrks brks c) := by
  have hpass : Operator.passRead H ([] ++ brkOperators brks c) s = s.addEvents (readBrks brks c) :=
    Operator.passRead_append_brks H brkOperators_isHw s
  exact hpass

include hD in
/-- A read that skips the ports returns the latch. Read breakpoints are recorded all the same. -/
theorem cellP_readSkip (hcath : D.cathegory i = .port) :
    (i.cellP.readSkip D .port).run m
      = .ok (m.sys.mem i.cellP, { m with sys := m.sys.addEvents (readBrks m.brks i.cellP) }) := by
  rw [Site.readSkip, run_modifyGet_ok, Cell.readSkip, operators_cellP hD]
  dsimp only
  rw [Operator.readSkip_hw D.hardware (h := .device i) rfl]
  dsimp only
  rw [if_neg (show ¬ D.hardware.cathegory (.device i) ≠ .port from not_not_intro hcath), passRead_brks]
  rfl

include hD in
/-- A read returns what the port says. -/
theorem cellP_read (hread : ∀ st, D.read i i.cellP st = ((D.read i i.cellP st).1, st, [])) :
    (i.cellP.read D).run m = .ok ((D.read i i.cellP m.sys.toStore).1,
      { m with sys := m.sys.addEvents (readBrks m.brks i.cellP) }) := by
  have hcall : m.sys.call (D.hardware.read (.device i) i.cellP) = ((D.read i i.cellP m.sys.toStore).1, m.sys) := by
    change m.sys.call (D.read i i.cellP) = _
    rw [Sys.call, hread]
    simp
  rw [Site.read, run_modifyGet_ok, Cell.read, operators_cellP hD]
  dsimp only
  have hfst := Operator.read_hw_fst D.hardware (o := i.operator) (h := .device i) rfl (brkOperators m.brks i.cellP) m.sys
  have hsnd := Operator.read_snd D.hardware (brkOperators m.brks i.cellP) i.operator m.sys
  rw [hfst, hsnd, Operator.passRead]
  change Except.ok ((m.sys.call (D.hardware.read (.device i) i.cellP)).1,
    { m with sys := Operator.passRead D.hardware _ (m.sys.call (D.hardware.read (.device i) i.cellP)).2 }) = _
  rw [hcall, passRead_brks]

include hD in
/-- A write calls the port and stores the value that the port leaves. -/
theorem cellP_write (hwrite : ∀ v st, (D.write i i.cellP v st).2.2 = []) (v : TMem) :
    (i.cellP.write D v).run m =
      let r := D.write i i.cellP v m.sys.toStore
      .ok (r.1 &&& 0xff, { m with
        sys :=
          { toStore := { r.2.1 with mem := Function.update r.2.1.mem i.cellP (r.1 &&& 0xff) }
            events := m.sys.events ++ writeBrks m.brks i.cellP } }) := by
  have hrun : (i.cellP.write D v).run m = .ok (((i.cellP.toCell D m).write D.hardware v m.sys).1,
      { m with sys := ((i.cellP.toCell D m).write D.hardware v m.sys).2 }) := rfl
  have hcall : m.sys.call (D.hardware.write (.device i) i.cellP v) = ((D.write i i.cellP v m.sys.toStore).1,
      { toStore := (D.write i i.cellP v m.sys.toStore).2.1, events := m.sys.events }) := by
    change m.sys.call (D.write i i.cellP v) = _
    rw [Sys.call, hwrite, List.append_nil]
  have hpass : Operator.passWrite D.hardware ([i.operator] ++ brkOperators m.brks i.cellP) v m.sys = _ :=
    Operator.passWrite_append_brks D.hardware brkOperators_isHw v m.sys
  have hone : Operator.passWrite D.hardware [i.operator] v m.sys = m.sys.call (D.hardware.write (.device i) i.cellP v) :=
    rfl
  rw [hone, hcall, List.singleton_append] at hpass
  rw [hrun, Site.cell_write, operators_cellP hD, hpass]
  rfl

end Cell

/-! ## Reading and writing a port -/

section Board

variable (present : PartnerHw → Bool) (i : Port) (m : MemState PortsState)

/-- The memory and the hardware after a write. -/
def Port.stored (v : TMem) (st : St PortsState) : St PortsState :=
  { (i.write present v st).2 with mem := Function.update st.mem i.cellP (v &&& 0xff) }

/-- A read-modify-write instruction gets the latch. -/
theorem readLatch_run : (i.cellP.readSkip (portBoard present) .port).run m
    = .ok (m.sys.mem i.cellP, { m with sys := m.sys.addEvents (readBrks m.brks i.cellP) }) :=
  cellP_readSkip (D := portBoard present) rfl i m rfl

/-- Any other reader gets latch AND pins. -/
theorem readPins_run : (i.cellP.read (portBoard present)).run m
    = .ok (m.sys.mem i.cellP &&& tmem (m.sys.hw.devices.portPins i),
        { m with sys := m.sys.addEvents (readBrks m.brks i.cellP) }) :=
  cellP_read (D := portBoard present) rfl i m fun _ => rfl

theorem writePort_run (v : TMem) : (i.cellP.write (portBoard present) v).run m
    = .ok (v &&& 0xff, { m with
        sys := { toStore := i.stored present v m.sys.toStore, events := m.sys.events ++ writeBrks m.brks i.cellP } }) := by
  have hmem := Port.write_mem present i v m.sys.toStore
  have hrun := cellP_write (D := portBoard present) rfl i m (fun _ _ => rfl) v
  change _ = Except.ok (v &&& 0xff &&& 0xff, { m with
    sys :=
      { toStore :=
          { (i.write present v m.sys.toStore).2 with
            mem := Function.update (i.write present v m.sys.toStore).2.mem i.cellP (v &&& 0xff &&& 0xff) }
        events := m.sys.events ++ writeBrks m.brks i.cellP } }) at hrun
  rw [hmem, Operator.and_mask_mask] at hrun
  exact hrun

end Board

end Ucsim.S51
