import Ucsim.S51.CspFrame
import Ucsim.S51.CspRuns
import Ucsim.S51.RadioCells

/-!
# Uses of cells

The CSP and the radio use their cells through pointers that are assigned where the cells are registered. An
instruction that uses another pointer fails. A step of the radio does not depend on any other cell.
-/

namespace Ucsim.S51

open Logic

/-! ## The uses -/

/-- The registers that callbacks compare the cell with. -/
inductive Callback
  | RFD | CLKCONCMD | RFST
  deriving DecidableEq, Repr

/-- The cell of the register. -/
def Callback.cell : Callback → Site
  | RFD => .sfr 0xD9
  | CLKCONCMD => .sfr 0xC6
  | RFST => .sfr Reg.RFST

/-- The element that has the callback registers the cell. -/
def Callback.Registered : Callback → Prop
  | RFD => RFD.cell ∈ Radio.registered
  | CLKCONCMD => CLKCONCMD.cell ∈ Radio.registered
  | RFST => ∃ c : CspCell, c.pointer = some RFST.cell

/-- The functions of the radio that use cells. -/
inductive RadioFunction
  | fsm (csp : Radio.Strobes)
  | doRX
  | doTX
  | tick (csp : Radio.Strobes)
  | write (c : Site) (v : TMem)

/-- The function itself. -/
def RadioFunction.run : RadioFunction → RadioSt → Except Fault RadioSt
  | fsm csp => Radio.fsm csp
  | doRX => Radio.doRX
  | doTX => Radio.doTX
  | tick csp => Radio.tick csp
  | write c v => Radio.write c v

/-- A use of cells, in some state: an instruction or a strobe of the CSP, a function of the radio, the read
of one of its cells, or the comparison of a callback. -/
inductive Use
  | instruction (inp : Csp.Input) (code : BitVec 8) (st : CspSt)
  | strobe (inp : Csp.Input) (v : BitVec 8) (st : CspSt)
  | radio (f : RadioFunction) (st : RadioSt)
  | read (c : Site) (hc : c ∈ Radio.registered) (st : RadioSt)
  | callback (c : Callback)

namespace Use

/-- No pointer is used that has not been assigned. Where the radio is concerned, the other cells may hold
anything. -/
def Assigned : Use → Prop
  | instruction inp code st => ∀ c, Csp.exec_inst inp (code.setWidth 16) st ≠ .error (.unassigned c)
  | strobe inp v st => ∀ c, Csp.writeRfst inp (v.setWidth 16) st ≠ .error (.unassigned c)
  | radio f st => ∀ m, f.run (Radio.overlay m st) = (f.run st).map (Radio.overlay m)
  | read c _ st => ∀ m, Radio.read c (Radio.overlay m st) = (Radio.read c st).map fun p => (p.1, Radio.overlay m p.2)
  | callback c => c.Registered

/-- The instruction has all its cells, and the register is the one of the CSP. -/
def Condition : Use → Prop
  | instruction _ code _ => code.setWidth 16 ∉ Csp.faulty
  | strobe _ v _ => v.setWidth 16 &&& (0xF0 : TMem) = 0xE0 → v.setWidth 16 ∉ Csp.faulty
  | radio _ _ | read _ _ _ => True
  | callback c => c = .RFST

end Use

/-! ## The CSP -/

namespace Csp

/-- An instruction has its cells or fails, in every state. -/
theorem exec_inst_assigned_iff (inp : Input) (v : BitVec 8) (st : CspSt) :
    (∀ c, exec_inst inp (v.setWidth 16) st ≠ .error (.unassigned c)) ↔ v.setWidth 16 ∉ faulty := by
  rw [exec_inst_eq]
  constructor
  · intro h hfaulty
    obtain ⟨c, hc, -⟩ := body_fails inp _ hfaulty st
    apply h c
    rw [hc]
    rfl
  · intro h c
    obtain ⟨st₁, h₁, -⟩ := body_runs inp (setWidth_lt v) h st
    rw [h₁]
    intro herr
    cases herr

/-- Storing a byte of the program uses no pointer. -/
theorem storeProgram_assigned (v : TMem) (st : CspSt) (c : CspCell) :
    storeProgram v st ≠ .error (.unassigned c) := by
  unfold storeProgram
  dsimp only
  split <;> (intro herr; cases herr)

theorem writeRfst_assigned_iff (inp : Input) (v : BitVec 8) (st : CspSt) :
    (∀ c, writeRfst inp (v.setWidth 16) st ≠ .error (.unassigned c)) ↔
      (v.setWidth 16 &&& (0xF0 : TMem) = 0xE0 → v.setWidth 16 ∉ faulty) := by
  obtain ⟨st₁, h₁, -⟩ := runs_beforeStrobe (v.setWidth 16) st
  have hrun : writeRfst inp (v.setWidth 16) st = if v.setWidth 16 &&& (0xF0 : TMem) = 0xE0 then
      exec_inst inp (v.setWidth 16) st₁ else storeProgram (v.setWidth 16) st₁ := by
    rw [writeRfst_eq, h₁]
    rfl
  rw [hrun]
  by_cases hstrobe : v.setWidth 16 &&& (0xF0 : TMem) = 0xE0
  · rw [if_pos hstrobe, exec_inst_assigned_iff]
    exact ⟨fun h _ => h, fun h => h hstrobe⟩
  · rw [if_neg hstrobe]
    exact iff_of_true (storeProgram_assigned _ _) fun h => absurd h hstrobe

end Csp

/-! ## The radio -/

theorem RadioFunction.run_local (f : RadioFunction) : Radio.Local f.run := by
  cases f with
  | fsm csp => exact Radio.local_fsm csp
  | doRX => exact Radio.local_doRX
  | doTX => exact Radio.local_doTX
  | tick csp => exact Radio.local_tick csp
  | write c v => exact Radio.local_write c v

/-- The radio registers no special function register. -/
theorem sfr_not_registered (r : Int) : Site.sfr r ∉ Radio.registered := by
  intro h
  obtain ⟨a, ha⟩ := Radio.xram_of_touchedSite (.inl h)
  injection ha with hspace
  cases hspace

theorem Callback.registered_iff (c : Callback) : c.Registered ↔ c = .RFST := by
  cases c with
  | RFD => exact iff_of_false (sfr_not_registered 0xD9) (by decide)
  | CLKCONCMD => exact iff_of_false (sfr_not_registered 0xC6) (by decide)
  | RFST => exact iff_of_true ⟨.cell_rfst, rfl⟩ rfl

/-! ## All uses -/

/-- The cells of a use are registered exactly if it is no instruction without its cells and no callback of
the radio. -/
theorem assigned_iff (u : Use) : u.Assigned ↔ u.Condition := by
  cases u with
  | instruction inp code st => exact Csp.exec_inst_assigned_iff inp code st
  | strobe inp v st => exact Csp.writeRfst_assigned_iff inp v st
  | radio f st => exact iff_of_true (fun m => f.run_local m st) trivial
  | read c hc st => exact iff_of_true (fun m => Radio.read_over m st (.inl hc)) trivial
  | callback c => exact c.registered_iff

/-- `SET_CMP1` writes the timer's cells, which no list assigns. -/
theorem set_cmp1_unassigned : ¬ ∀ u : Use, u.Assigned := by
  intro h
  have hcode : ∀ c, Csp.exec_inst ⟨0, false⟩ 0xBE { mem := fun _ => 0, hw := Csp.blank }
      ≠ .error (.unassigned c) := h (.instruction ⟨0, false⟩ 0xBE { mem := fun _ => 0, hw := Csp.blank })
  exact absurd rfl (hcode .cell_t2msel)

end Ucsim.S51
