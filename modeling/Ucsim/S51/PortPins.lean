import Ucsim.S51.LockstepInst
import Ucsim.S51.Operands

/-!
# What the pins show

A second board, whose registers of ports hold what the pins show: latch AND pins. The instructions that do not read a
latch do the same on both boards.
-/

namespace Ucsim.S51

open Logic Program

/-- The board whose registers of ports hold what the pins show. -/
def pinBoard : Devices Port PortsState where
  cathegory _ := .port
  registered := portsOn
  read _ c st := (st.mem c, st, [])
  write i _ val st := (val &&& tmem (st.hw.devices.portPins i), st, [])
  tick _ st := (st, [])
  reset st := (st, [])
  registered_core := portsOn_core
  registered_code := portsOn_code
  read_fmap _ _ _ := rfl
  read_bytes _ _ _ h := h
  write_bytes _ _ _ _ h := h
  tick_bytes _ _ h := h
  reset_bytes _ h := h
  read_reti _ _ _ := rfl
  write_reti _ _ _ _ := rfl
  tick_reti := (portBoard fun _ => false).tick_reti
  reset_reti := (portBoard fun _ => false).reset_reti

/-! ## The bytes that are shown -/

/-- What a reader of a cell sees that holds `v`: the pins take part if it belongs to a port. -/
def masked (p : PortsState) (c : Site) (v : TMem) : TMem :=
  match portsOn c with
  | [] => v
  | i :: _ => v &&& tmem (p.portPins i)

/-- What the readers of the cells see. -/
def seen (st : St PortsState) (c : Site) : TMem := masked st.hw.devices c (st.mem c)

/-- What partners were told is forgotten. -/
def PortsState.forget (p : PortsState) : PortsState := { p with happened := [] }

/-- The memory and the hardware of the second board. -/
def shown (st : St PortsState) : St PortsState := onPorts PortsState.forget { st with mem := seen st }

/-- The memory system of the second board. -/
def shownSys (s : Sys Site (HwState PortsState)) : Sys Site (HwState PortsState) :=
  { toStore := shown s.toStore, events := s.events }

/-- The second memory system shows what the first one holds. -/
def Shows (s s' : Sys Site (HwState PortsState)) : Prop := s' = shownSys s

theorem masked_cellP (p : PortsState) (i : Port) (v : TMem) : masked p i.cellP v = v &&& tmem (p.portPins i) := by
  rw [masked, portsOn_cellP]

theorem masked_of_ne (p : PortsState) {c : Site} (h : ∀ i : Port, c ≠ i.cellP) (v : TMem) : masked p c v = v := by
  rw [masked, portsOn_eq_nil h]

theorem seen_of_ne (st : St PortsState) {c : Site} (h : ∀ i : Port, c ≠ i.cellP) : seen st c = st.mem c :=
  masked_of_ne _ h _

@[simp] theorem shown_mem (st : St PortsState) : (shown st).mem = seen st := rfl

/-- A byte changes. -/
theorem shown_update (st : St PortsState) (c : Site) (v : TMem) :
    shown { st with mem := Function.update st.mem c v } =
      { shown st with mem := Function.update (shown st).mem c (masked (shown st).hw.devices c v) } := by
  have hmem : seen { st with mem := Function.update st.mem c v } =
      Function.update (seen st) c (masked st.hw.devices c v) := by
    funext d
    unfold seen
    dsimp only
    by_cases hd : d = c
    · rw [hd, Function.update_self, Function.update_self]
    · rw [Function.update_of_ne hd, Function.update_of_ne hd]
  rw [shown, hmem]
  rfl

theorem shownSys_store (s : Sys Site (HwState PortsState)) (c : Site) (v : TMem) :
    shownSys (s.store c v) = (shownSys s).store c (masked s.hw.devices c v) := by
  have hstore := shown_update s.toStore c v
  unfold shownSys Sys.store
  rw [hstore]
  rfl

/-- What partners are told is not shown. -/
theorem shown_inform (present : PartnerHw → Bool) (i : Port) (ep : EvPortChanged) (st : St PortsState) :
    shown (onPorts (i.informPartners present ep) st) = shown st := by
  unfold shown onPorts
  rw [informPartners_eq]
  rfl

/-- A port that is written shows what it showed, until the value is stored. -/
theorem shown_write (present : PartnerHw → Bool) (i : Port) (v : TMem) (st : St PortsState) :
    shown (i.write present v st).2 = shown st := by
  unfold Port.write
  dsimp only
  split
  · exact shown_inform present i _ st
  · rfl

/-! ## Cells of the two boards -/

section Cells

variable {D : Devices Port PortsState} (hD : D.registered = portsOn) (present : PartnerHw → Bool) {c : Site}

include hD in
/-- A cell that belongs to no port reads as its byte. -/
theorem other_read (hc : ∀ i : Port, c ≠ i.cellP) (m : MemState PortsState) :
    (c.read D).run m = .ok (m.sys.mem c,
      { m with sys := m.sys.addEvents ((c.toCell D m).operators.filterMap (·.kind.readBrk)) }) := by
  have hsilent : D.SilentAt c := Devices.silentAt_of_nil (by rw [hD, portsOn_eq_nil hc])
  obtain ⟨u, hrun, -⟩ := Site.read_yields (D := D) (c := c)
    (fun hw hhw st => by rw [hsilent hw hhw]; exact ⟨rfl, rfl⟩) m
  have hsnd : ((c.toCell D m).read D.hardware m.sys).2
      = m.sys.addEvents ((c.toCell D m).operators.filterMap (·.kind.readBrk)) := by
    rw [Site.cell_read_snd]
    refine Operator.passRead_silent (fun o ho hw hk st => ?_) m.sys
    obtain ⟨⟨hcell, -, -⟩, hhw⟩ := Site.mem_toCell_operators ho
    rw [hcell, hsilent hw (hhw hw hk)]
  rw [hrun, Except.ok.injEq, Prod.mk.injEq]
  refine ⟨rfl, ?_⟩
  have hfun : (c.read D).run m = .ok (((c.toCell D m).read D.hardware m.sys).1,
      { m with sys := ((c.toCell D m).read D.hardware m.sys).2 }) := rfl
  rw [hfun, Except.ok.injEq, Prod.mk.injEq] at hrun
  rw [← hrun.2, hsnd]

/-- The operators of a cell are the same on both boards. -/
theorem toCell_operators (m : MemState PortsState) (sys : Sys Site (HwState PortsState)) :
    (c.toCell pinBoard (m.withSys sys)).operators = (c.toCell (portBoard present) m).operators := by
  cases c <;> rfl

theorem shown_psw (st : St PortsState) (w : TMem) :
    shown { st with mem := Function.update st.mem psw w } = { shown st with mem := Function.update (seen st) psw w } := by
  have hmasked : masked (shown st).hw.devices psw w = w := masked_of_ne _ NotPort.ne w
  rw [shown_update, hmasked]
  rfl

theorem dummyWrite_shown (c : Site) (v : TMem) (st : St PortsState) :
    dummyWrite c v (shown st) = shown (dummyWrite c v st) := by
  have hseen : (shown st).mem psw = st.mem psw := seen_of_ne st (NotPort.ne (c := psw))
  unfold dummyWrite
  rw [hseen]
  by_cases hacc : c = acc
  · rw [if_pos hacc, if_pos hacc]
    by_cases hp : parity (v.setWidth 8) = true
    · rw [if_pos hp, if_pos hp, shown_psw]
      rfl
    · rw [if_neg hp, if_neg hp, shown_psw]
      rfl
  · rw [if_neg hacc, if_neg hacc]
    by_cases hsp : c = .sfr Reg.SP
    · rw [if_pos hsp, if_pos hsp]
      rfl
    · rw [if_neg hsp, if_neg hsp]

/-- The elements of the core do the same to what is shown. -/
theorem core_write {hw : CoreHw Port} (hc : ∀ i : Port, c ≠ i.cellP) (hhw : hw ∈ (portBoard present).hws c) (v : TMem)
    (st : St PortsState) :
    pinBoard.hardware.write hw c v (shown st) = (((portBoard present).hardware.write hw c v st).1,
      shown ((portBoard present).hardware.write hw c v st).2.1,
      ((portBoard present).hardware.write hw c v st).2.2) := by
  rcases mem_hws.mp hhw with ⟨i, hi, rfl⟩ | ⟨-, rfl⟩ | ⟨-, rfl⟩
  · have hnil : (portBoard present).registered c = [] := portsOn_eq_nil hc
    rw [hnil] at hi
    exact absurd hi List.not_mem_nil
  · change (v, interruptWrite c v (shown st), []) = (v, shown (interruptWrite c v st), [])
    unfold interruptWrite
    split <;> rfl
  · change (v, dummyWrite c v (shown st), []) = (v, shown (dummyWrite c v st), [])
    rw [dummyWrite_shown]

end Cells

section Boards

variable {present : PartnerHw → Bool}

instance : SameCells (OnSys Shows) := by
  refine sameCells_onSys ?_ ?_ ?_ ?_
  · intro c s s' hc hs
    obtain rfl := hs
    exact (seen_of_ne s.toStore hc).symm
  · intro c v s s' hc hs
    obtain rfl := hs
    change _ = shownSys (s.store c v)
    rw [shownSys_store, masked_of_ne _ hc]
  · intro b s s' hs
    obtain rfl := hs
    rfl
  · intro b s s' hs
    obtain rfl := hs
    rfl

/-- A write of a cell that belongs to no port does the same on both boards. -/
theorem other_write {c : Site} (hc : ∀ i : Port, c ≠ i.cellP) (v : TMem) :
    Alike (OnSys Shows) (c.write (portBoard present) v) (c.write pinBoard v) := by
  constructor
  rintro m m' ⟨sys, rfl, hsys⟩
  obtain rfl : sys = shownSys m.sys := hsys
  cases c with
  | dummy sp =>
    have hdummy : Alike (OnSys Shows) (Site.setRandom (.dummy sp) : MemProg PortsState TMem) (Site.setRandom (.dummy sp)) :=
      alike_setRandom sp
    exact hdummy.run m _ ⟨_, rfl, rfl⟩
  | cell sp idx =>
    have hops : ∀ o ∈ ((Site.cell sp idx).toCell (portBoard present) m).operators, ∀ hw, o.kind = .hw hw → ∀ w st,
        pinBoard.hardware.write hw o.cell w (shown st) = (((portBoard present).hardware.write hw o.cell w st).1,
          shown ((portBoard present).hardware.write hw o.cell w st).2.1,
          ((portBoard present).hardware.write hw o.cell w st).2.2) := by
      intro o ho hw hk w st
      obtain ⟨⟨hcell, -, -⟩, hhw⟩ := Site.mem_toCell_operators ho
      rw [hcell]
      exact core_write present hc (hhw hw hk) w st
    have hpass := Operator.passWrite_map hops v m.sys
    have hrun : ∀ (D : Devices Port PortsState) (n : MemState PortsState), ((Site.cell sp idx).write D v).run n =
        .ok ((((Site.cell sp idx).toCell D n).write D.hardware v n.sys).1,
          { n with sys := (((Site.cell sp idx).toCell D n).write D.hardware v n.sys).2 }) := fun _ _ => rfl
    rw [hrun, hrun, Site.cell_write, Site.cell_write, toCell_operators present m (shownSys m.sys)]
    change EndAlike _ _ (.ok ((Operator.passWrite pinBoard.hardware _ v (shownSys m.sys)).1 &&& 0xff, _))
    unfold shownSys
    rw [hpass]
    refine .ok _ ⟨_, rfl, ?_⟩
    change _ = shownSys (Sys.store _ _ _)
    rw [shownSys_store, masked_of_ne _ hc]
    rfl

/-- The register of a port shows on the first board what it holds on the second. -/
theorem cellP_read_alike (i : Port) : Alike (OnSys Shows) (i.cellP.read (portBoard present)) (i.cellP.read pinBoard) := by
  constructor
  rintro m m' ⟨sys, rfl, hsys⟩
  obtain rfl : sys = shownSys m.sys := hsys
  have hpins : (pinBoard.read i i.cellP (shownSys m.sys).toStore).1
      = m.sys.mem i.cellP &&& tmem (m.sys.hw.devices.portPins i) := masked_cellP _ i _
  rw [readPins_run, cellP_read (D := pinBoard) rfl i (m.withSys (shownSys m.sys)) fun _ => rfl, hpins]
  exact .ok _ ⟨_, rfl, rfl⟩

/-- A new latch is shown with the pins. -/
theorem shown_stored (i : Port) (v : TMem) (st : St PortsState) :
    shown (i.stored present v st) =
      { shown st with
        mem := Function.update (shown st).mem i.cellP (v &&& tmem (st.hw.devices.portPins i) &&& 0xff) } := by
  have hmem := Port.write_mem present i v st
  have hstored : i.stored present v st = { (i.write present v st).2 with
      mem := Function.update (i.write present v st).2.mem i.cellP (v &&& 0xff) } := by
    rw [hmem]
    rfl
  rw [hstored, shown_update, shown_write, masked_cellP, BitVec.and_assoc, BitVec.and_assoc, BitVec.and_comm (0xff : TMem)]
  rfl

theorem cellP_write_alike (i : Port) (v : TMem) : Alike (OnSys Shows) (discard (i.cellP.write (portBoard present) v))
    (discard (i.cellP.write pinBoard v)) := by
  constructor
  rintro m m' ⟨sys, rfl, hsys⟩
  obtain rfl : sys = shownSys m.sys := hsys
  have hrun : ∀ {x : MemProg PortsState TMem} {a : TMem} {n n' : MemState PortsState}, x.run n = .ok (a, n') →
      (discard x).run n = .ok ((), n') := fun h => run_bind_of_ok h fun _ => pure ()
  rw [hrun (writePort_run present i m v),
    hrun (cellP_write (D := pinBoard) rfl i (m.withSys (shownSys m.sys)) (fun _ _ => rfl) v)]
  refine .ok () ⟨_, rfl, ?_⟩
  change _ = (⟨shown (i.stored present v m.sys.toStore), _⟩ : Sys Site (HwState PortsState))
  rw [shown_stored]
  rfl

instance : InStep (portBoard present) pinBoard (OnSys Shows) where
  read c := by
    by_cases hc : ∀ i : Port, c ≠ i.cellP
    · constructor
      rintro m m' ⟨sys, rfl, hsys⟩
      obtain rfl : sys = shownSys m.sys := hsys
      rw [other_read (D := portBoard present) rfl hc, other_read (D := pinBoard) rfl hc,
        toCell_operators present m (shownSys m.sys)]
      have hval : (shownSys m.sys).mem c = m.sys.mem c := seen_of_ne m.sys.toStore hc
      rw [hval]
      exact .ok _ ⟨_, rfl, rfl⟩
    · obtain ⟨i, rfl⟩ := not_forall_not.mp hc
      exact cellP_read_alike i
  write c v := by
    by_cases hc : ∀ i : Port, c ≠ i.cellP
    · have hwrite : Alike (OnSys Shows) (c.write (portBoard present) v) (c.write pinBoard v) := other_write hc v
      infer_instance
    · obtain ⟨i, rfl⟩ := not_forall_not.mp hc
      exact cellP_write_alike i v
  writeSame c v hc := other_write hc v

/-- An instruction that does not read a latch sees nothing of a port but latch AND pins: on the board whose registers
hold just that it does the same. -/
theorem dispatch_shows {code : TMem} (hcode : ∀ label ∈ latchCodes, code ≠ tmem label) :
    Alike (OnMem Shows) (dispatch (portBoard present) code) (dispatch pinBoard code) :=
  Alike.congr onUc_onSys (dispatch_alike cases_alike fun label hlabel hmem => hcode label hmem hlabel)

end Boards

end Ucsim.S51
