import Ucsim.S51.Element
import Ucsim.S51.MemoryMap

/-!
# Elements that use `xram`

An element may read and write `xram` itself. On a board of its own such a write ends at the physical byte
of the address, and runs the callbacks of the element if the byte is one of its registers.
-/

namespace Ucsim.S51

open Logic

/-- `MCON` is read without side effects. -/
theorem read_mcon_run {Dev V : Type} (D : Devices Dev V) (s : MemState V) :
    ∃ u : Sys Site (HwState V), (Space.sfr.readCells D Reg.MCON).run s
        = .ok (s.sys.mem mcon, { s with sys := u }) ∧ u.toStore = s.sys.toStore := by
  have hhws : D.hws mcon = [] := by
    rw [Devices.hws, D.registered_core Reg.MCON (by decide)]
    rfl
  obtain ⟨u, hrun, -⟩ := Site.read_quiet (D := D) (c := mcon) (Devices.quietAt_core (by decide)) s
  refine ⟨u, ?_, ?_⟩
  · rw [Space.readCells, if_neg (by decide)]
    exact hrun
  · have hsys : ((mcon.toCell D s).read D.hardware s.sys).2 = u :=
      congrArg (fun r => MemState.sys r.2) (Except.ok.inj hrun)
    rw [← hsys, Site.cell_read_snd]
    refine Operator.passRead_invariant (J := fun st => st = s.sys.toStore) ?_ rfl
    intro o ho hw hk
    have hmem := (Site.mem_toCell_operators ho).2 hw hk
    rw [hhws] at hmem
    exact absurd hmem List.not_mem_nil

/-- `xram->write` is a write of the physical byte, after `MCON` may have been read. -/
theorem writeXram_run {Dev V : Type} (D : Devices Dev V) {a : Int} (ha : ¬ Space.xram.invalid a)
    (v : TMem) (s : MemState V) :
    ∃ u : Sys Site (HwState V), u.toStore = s.sys.toStore ∧
      (Space.xram.write D a v).run s
        = ((xramByte (s.sys.mem mcon) a).write D v).run { s with sys := u } := by
  have hrange : 0 ≤ a ∧ a < 0x10000 := by
    have hstart : Space.xram.startAddress = 0 := rfl
    have hsize : Space.xram.size = 0x10000 := rfl
    rw [Space.invalid] at ha
    omega
  have hcells {sp : Space} (hsp : sp.startAddress = 0) (i : Int) : sp.cells i = .cell sp i := by
    rw [Space.cells, hsp, Int.sub_zero]
  have hwrite : Space.xram.write D a v = Space.writeXram D a v := rfl
  rw [hwrite, Space.writeXram, if_neg ha, xramByte]
  by_cases hlow : a < 0x2000
  · have hv : ¬ Space.sram.invalid a :=
      Space.not_invalid hrange.1 (by simpa [Space.startAddress, Space.size] using hlow)
    refine ⟨s.sys, rfl, ?_⟩
    rw [if_pos hlow, if_pos hlow, Space.writeSram, if_neg hv, sramByte]
    by_cases hiram : a ≥ 0x1F00
    · have hv' : ¬ Space.iram.invalid (a - Space.iram.xramOffset) := by
        have hoffset : Space.iram.xramOffset = 0x1F00 := rfl
        exact Space.iram_valid (by omega) (by omega)
      rw [if_pos hiram, if_pos hiram, Space.writeCells, if_neg hv', hcells rfl]
      rfl
    · rw [if_neg hiram, if_neg hiram, hcells rfl]
  · rw [if_neg hlow, if_neg hlow]
    by_cases hsfr : a ≥ 0x7080 ∧ a < 0x7100
    · have hv : ¬ Space.sfr.invalid (a - Space.sfr.xramOffset) := by
        have hoffset : Space.sfr.xramOffset = 0x7000 := rfl
        exact Space.sfr_valid (by omega) (by omega)
      refine ⟨s.sys, rfl, ?_⟩
      rw [if_pos hsfr, if_pos hsfr, Space.writeCells, if_neg hv]
      rfl
    · rw [if_neg hsfr, if_neg hsfr]
      by_cases hhigh : a ≥ 0x8000
      · obtain ⟨u, hrun, hu⟩ := read_mcon_run D s
        refine ⟨u, hu, ?_⟩
        rw [if_pos hhigh, if_pos hhigh, Program.run_bind_of_ok hrun, bankByte]
        dsimp only
        cases hk : Space.flashbank (s.sys.mem mcon &&& 0x07).toNat with
        | none =>
          dsimp only
          rw [hcells rfl]
          rfl
        | some bank =>
          obtain ⟨-, hsize, hstart⟩ := flashbank_code hk
          have hv : ¬ bank.invalid (a % 0x8000) := Space.not_invalid (by omega) (by omega)
          dsimp only
          rw [Space.writeCells, if_neg hv, hcells hstart]
          rfl
      · refine ⟨s.sys, rfl, ?_⟩
        rw [if_neg hhigh, if_neg hhigh, hcells rfl]

namespace Element

variable {W : Type} (E : Element W)

/-- A byte is written to a cell of the board. -/
def writeCell (c : Site) (v : TMem) (st : ElementSt W) : ElementSt W :=
  let st := E.calls c v (E.operators c) st
  { st with mem := stored c v st.mem }

/-- `xram->write`. An invalid address ends the simulator. -/
def xramWrite (a : Int) (v : TMem) (st : ElementSt W) : Option (ElementSt W) :=
  if Space.xram.invalid a then none else some (E.writeCell (xramByte (st.mem mcon) a) v st)

/-- `xram->read`, where reads have no callbacks. -/
def xramRead (a : Int) (st : ElementSt W) : TMem := st.mem (xramByte (st.mem mcon) a)

variable {E}

/-- The accumulator is no register of the element. -/
theorem writeCell_of_operators {c : Site} (hc : E.operators c ≠ 0) (v : TMem) (st : ElementSt W) :
    E.writeCell c v st = E.writeReg c v st := by
  have hacc : c ≠ acc := by
    rintro rfl
    exact hc (E.operators_core (r := Reg.ACC) (by decide))
  rw [writeCell, writeReg, stored, if_neg hacc]

/-- Other cells have no callbacks. -/
theorem writeCell_plain {c : Site} (hc : E.operators c = 0) (v : TMem) (st : ElementSt W) :
    E.writeCell c v st = { st with mem := stored c v st.mem } := by
  rw [writeCell, hc]
  rfl

theorem registered_nil {c : Site} (hc : E.operators c = 0) : E.board.registered c = [] := by
  change List.replicate (E.operators c) () = []
  rw [hc]
  rfl

/-- The core's own hardware leaves the element alone. -/
theorem passWrite_devices {c : Site} (hc : E.operators c = 0) (v : TMem) (s : MemState W) :
    (Operator.passWrite E.board.hardware (c.toCell E.board s).operators v s.sys).2.hw.devices
      = s.sys.hw.devices := by
  refine Operator.passWrite_invariant (J := fun _ (st : St W) => st.hw.devices = s.sys.hw.devices) ?_ rfl
  intro o ho hw hk w st hst
  obtain ⟨⟨hcell, -, -⟩, hhw⟩ := Site.mem_toCell_operators ho
  rw [hcell]
  rcases mem_hws.mp (hhw hw hk) with ⟨d, hd, -⟩ | ⟨-, rfl⟩ | ⟨-, rfl⟩
  · rw [registered_nil hc] at hd
    exact absurd hd List.not_mem_nil
  · change (interruptWrite c w st).hw.devices = _
    rw [interruptWrite]
    split <;> exact hst
  · change (dummyWrite c w st).hw.devices = _
    rw [dummyWrite]
    split
    · split <;> exact hst
    · split <;> exact hst

/-- Writing a cell on the board. -/
theorem cell_write_run {sp : Space} {idx : Int} (v : TMem) (s : MemState W) :
    ∃ t, ((Site.cell sp idx).write E.board v).run s = .ok (v &&& 0xff, t) ∧
      view t.sys.toStore = E.writeCell (.cell sp idx) v (view s.sys.toStore) := by
  by_cases hc : E.operators (.cell sp idx) = 0
  · have hq : E.board.QuietAt (.cell sp idx) := Devices.quietAt_of_nil (registered_nil hc)
    obtain ⟨hval, hmem⟩ := Site.passWrite_quiet hq v s
    refine ⟨{ s with sys := (Operator.passWrite E.board.hardware
      ((Site.cell sp idx).toCell E.board s).operators v s.sys).2.store (.cell sp idx) (v &&& 0xff) }, ?_, ?_⟩
    · rw [Site.write, Program.run_modifyGet_ok]
      dsimp only
      rw [Site.cell_write]
      dsimp only
      rw [hval]
    · have hdev := passWrite_devices hc v s
      rw [writeCell_plain hc]
      dsimp only [view]
      rw [Sys.store_mem, hmem]
      exact congrArg (fun d => (⟨_, d⟩ : ElementSt W)) hdev
  · obtain ⟨t, hrun, hview, -⟩ := write_run (E := E) hc v s
    exact ⟨t, hrun, hview.trans (writeCell_of_operators hc v _).symm⟩

/-- `xramWrite` is what the board does. -/
theorem xramWrite_run (a : Int) (v : TMem) (s : MemState W) :
    match E.xramWrite a v (view s.sys.toStore) with
    | some st => ∃ t, (Space.xram.write E.board a v).run s = .ok (v &&& 0xff, t) ∧ view t.sys.toStore = st
    | none => (Space.xram.write E.board a v).run s = .error .invalidAddress := by
  unfold xramWrite
  by_cases ha : Space.xram.invalid a
  · rw [if_pos ha]
    have hwrite : Space.xram.write E.board a v = Space.writeXram E.board a v := rfl
    rw [hwrite, Space.writeXram, if_pos ha]
    rfl
  · rw [if_neg ha]
    obtain ⟨u, hu, hrun⟩ := writeXram_run E.board ha v s
    have hsite : ∃ sp idx, xramByte (s.sys.mem mcon) a = .cell sp idx := by
      unfold xramByte sramByte bankByte
      split
      · split <;> exact ⟨_, _, rfl⟩
      · split
        · exact ⟨_, _, rfl⟩
        · split <;> exact ⟨_, _, rfl⟩
    obtain ⟨sp, idx, hc⟩ := hsite
    obtain ⟨t, ht, hview⟩ := cell_write_run v { s with sys := u }
    dsimp only
    rw [hrun, hc]
    refine ⟨t, ht, ?_⟩
    rw [hview]
    dsimp only
    rw [hu]
    exact congrArg (fun c => E.writeCell c v _) hc.symm

end Element

end Ucsim.S51
