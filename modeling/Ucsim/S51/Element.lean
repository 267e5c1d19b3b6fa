import Ucsim.S51.Cells
import Ucsim.Sim.Breakpoints

/-!
# A hardware element on the board

An element registers on cells, some of them more than once, and answers their reads and writes. On a
board of its own, a write of a register runs the callbacks of the element and stores the byte.
-/

namespace Ucsim.S51

open Logic

namespace Reg

def IRCON : Int := 0xC0
def CLKCONCMD : Int := 0xC6

end Reg

/-! Channels and counter bytes are numbered by `Fin`. With instances of these names a literal is the same
term in every definition. -/

instance neZeroThree : NeZero 3 := ⟨Nat.succ_ne_zero 2⟩

instance neZeroFive : NeZero 5 := ⟨Nat.succ_ne_zero 4⟩

/-- The memory and the state of an element. -/
abbrev ElementSt (W : Type) := Store Site W

namespace ElementSt

variable {W : Type}

/-- A byte is stored in a cell. -/
def store (c : Site) (v : TMem) (st : ElementSt W) : ElementSt W :=
  { st with mem := Function.update st.mem c (v &&& 0xff) }

/-- `cell->set_bit1(bits)`. -/
def setBit1 (c : Site) (bits : TMem) (st : ElementSt W) : ElementSt W := store c (st.mem c ||| (bits &&& 0xff)) st

/-- `cell->set_bit0(bits)`. -/
def setBit0 (c : Site) (bits : TMem) (st : ElementSt W) : ElementSt W :=
  store c (st.mem c &&& ~~~(bits &&& 0xff)) st

/-- The data of the element are changed. -/
def update (f : W → W) (st : ElementSt W) : ElementSt W := { st with hw := f st.hw }

variable {c d : Site} {st : ElementSt W}

@[simp] theorem store_hw (v : TMem) : (store c v st).hw = st.hw := rfl

@[simp] theorem setBit1_hw (bits : TMem) : (setBit1 c bits st).hw = st.hw := rfl

@[simp] theorem setBit0_hw (bits : TMem) : (setBit0 c bits st).hw = st.hw := rfl

theorem store_mem_of_ne (h : c ≠ d) (v : TMem) : (store d v st).mem c = st.mem c := Function.update_of_ne h _ _

theorem setBit1_mem_of_ne (h : c ≠ d) (bits : TMem) : (setBit1 d bits st).mem c = st.mem c :=
  store_mem_of_ne h _

theorem setBit0_mem_of_ne (h : c ≠ d) (bits : TMem) : (setBit0 d bits st).mem c = st.mem c :=
  store_mem_of_ne h _

theorem isBytes_store (h : IsBytes st.mem) (c : Site) (v : TMem) : IsBytes (store c v st).mem :=
  isBytes_update h c (and_lt_byte v)

theorem isBytes_setBit1 (h : IsBytes st.mem) (c : Site) (bits : TMem) : IsBytes (setBit1 c bits st).mem :=
  isBytes_store h c _

theorem isBytes_setBit0 (h : IsBytes st.mem) (c : Site) (bits : TMem) : IsBytes (setBit0 c bits st).mem :=
  isBytes_store h c _

end ElementSt

/-- Is the cell one of a space that instructions are fetched from? -/
def Site.isCode : Site → Bool
  | .cell sp _ => sp.isCode
  | .dummy _ => false

/-- An element with the state `W`. `registered` are the cells of its `register_cell` calls, and the
callbacks leave `*val` alone. -/
structure Element (W : Type) where
  cathegory : HwCath
  registered : List Site
  read : Site → ElementSt W → TMem
  write : Site → TMem → ElementSt W → ElementSt W
  registered_core : ∀ r ∈ coreRegisters ++ [Reg.FMAP, Reg.IE, Reg.TCON], Site.sfr r ∉ registered
  registered_code : ∀ c ∈ registered, c.isCode = false
  write_bytes : ∀ c v st, IsBytes st.mem → IsBytes (write c v st).mem

namespace Element

variable {W : Type} (E : Element W)

/-- How many operators of the element a cell has. -/
def operators (c : Site) : Nat := E.registered.count c

theorem operators_core {r : Int} (hr : r ∈ coreRegisters ++ [Reg.FMAP, Reg.IE, Reg.TCON]) :
    E.operators (.sfr r) = 0 := List.count_eq_zero.mpr (E.registered_core r hr)

theorem operators_code {sp : Space} (h : sp.isCode) (idx : Int) : E.operators (.cell sp idx) = 0 :=
  List.count_eq_zero.mpr fun hmem => by
    have hcode := E.registered_code _ hmem
    rw [Site.isCode, h] at hcode
    cases hcode

/-- What the element sees of the board. -/
def view (st : St W) : ElementSt W := { mem := st.mem, hw := st.hw.devices }

/-- The board after the element has changed what it sees. -/
def put (st : St W) (e : ElementSt W) : St W :=
  { mem := e.mem, hw := { st.hw with devices := e.hw } }

/-- The board with this element. -/
def board : Devices Unit W where
  cathegory _ := E.cathegory
  registered c := List.replicate (E.operators c) ()
  read _ c st := (E.read c (view st), st, [])
  write _ c v st := (v, put st (E.write c v (view st)), [])
  tick _ st := (st, [])
  reset st := (st, [])
  registered_core r hr := by
    rw [E.operators_core (List.mem_append_left _ hr)]
    rfl
  registered_code sp idx h := by
    rw [E.operators_code h idx]
    rfl
  read_fmap d hd := by
    rw [E.operators_core (r := Reg.FMAP) (by decide)] at hd
    cases hd
  read_bytes _ _ _ h := h
  write_bytes _ c v st h := E.write_bytes c v (view st) h
  tick_bytes _ _ h := h
  reset_bytes _ h := h
  read_reti _ _ _ := rfl
  write_reti _ _ _ _ := rfl
  tick_reti _ _ := rfl
  reset_reti _ := rfl

/-- The callbacks of a write. -/
def calls (c : Site) (v : TMem) : Nat → ElementSt W → ElementSt W
  | 0, st => st
  | n + 1, st => calls c v n (E.write c v st)

/-- A byte is written to a register. -/
def writeReg (c : Site) (v : TMem) (st : ElementSt W) : ElementSt W :=
  let st := E.calls c v (E.operators c) st
  { st with mem := Function.update st.mem c (v &&& 0xff) }

/-- Bytes are written to registers, one after the other. -/
def writeRegs (ws : List (Site × TMem)) (st : ElementSt W) : ElementSt W :=
  ws.foldl (fun st w => E.writeReg w.1 w.2 st) st

/-- What a register reads as. -/
def readReg (c : Site) (st : ElementSt W) : TMem :=
  if E.operators c = 0 then st.mem c else E.read c st

/-! ## The element in the memory system -/

variable {E}

/-- No other hardware is on the cells of the element. -/
theorem hws_eq {c : Site} (hc : E.operators c ≠ 0) :
    E.board.hws c = List.replicate (E.operators c) (.device ()) := by
  have hne : ∀ r ∈ coreRegisters ++ [Reg.FMAP, Reg.IE, Reg.TCON], c ≠ .sfr r := by
    rintro r hr rfl
    exact hc (E.operators_core hr)
  rw [Devices.hws, if_neg, if_neg]
  · simp [board]
  · rintro (h | h)
    · exact hne Reg.ACC (by decide) h
    · exact hne Reg.SP (by decide) h
  · rintro (h | h)
    · exact hne Reg.IE (by decide) h
    · exact hne Reg.TCON (by decide) h

/-- The way down of a write: the callbacks of the element, and the breakpoints. -/
theorem passWrite_calls {c : Site} {v : TMem} {brks : List (Operator Site Site (CoreHw Unit))}
    (hbrk : ∀ x ∈ brks, x.kind.isHw = false) (n : Nat) (s : Sys Site (HwState W)) :
    (Operator.passWrite E.board.hardware
        (List.replicate n { kind := .hw (.device ()), cell := c, data := c, mask := 0xff } ++ brks) v s).1 = v ∧
      (Operator.passWrite E.board.hardware
        (List.replicate n { kind := .hw (.device ()), cell := c, data := c, mask := 0xff } ++ brks) v s).2.toStore
      = put s.toStore (E.calls c v n (view s.toStore)) := by
  rw [Operator.passWrite_append_brks _ hbrk]
  induction n generalizing s with
  | zero => exact ⟨rfl, rfl⟩
  | succ n ih =>
    rw [List.replicate_succ, Operator.passWrite]
    exact ih _

/-- The operators on a register: those of the element, and the breakpoints. -/
theorem operators_eq {sp : Space} {idx : Int} (hc : E.operators (.cell sp idx) ≠ 0) (s : MemState W) :
    ∃ brks : List (Operator Site Site (CoreHw Unit)),
      ((Site.cell sp idx).toCell E.board s).operators
        = List.replicate (E.operators (.cell sp idx))
            { kind := .hw (.device ()), cell := .cell sp idx, data := .cell sp idx, mask := 0xff } ++ brks ∧
      ∀ x ∈ brks, x.kind.isHw = false := by
  refine ⟨((s.brks (.cell sp idx)).filterMap AddressSpace.brkOperator).map fun kind =>
    { kind := kind, cell := .cell sp idx, data := .cell sp idx, mask := 0xff }, ?_, ?_⟩
  · change Site.operators E.board s.brks (.cell sp idx) = _
    rw [Site.operators, hws_eq hc, List.map_append, List.map_replicate, List.map_replicate]
  · intro x hx
    obtain ⟨kind, hkind, rfl⟩ := List.mem_map.mp hx
    obtain ⟨b, -, hb⟩ := List.mem_filterMap.mp hkind
    exact AddressSpace.isHw_of_brkOperator hb

/-- Writing a register on the board. -/
theorem write_run {sp : Space} {idx : Int} (hc : E.operators (.cell sp idx) ≠ 0) (v : TMem)
    (s : MemState W) :
    ∃ t, ((Site.cell sp idx).write E.board v).run s = .ok (v &&& 0xff, t) ∧
      view t.sys.toStore = E.writeReg (.cell sp idx) v (view s.sys.toStore) ∧ t.brks = s.brks := by
  have hrun : ((Site.cell sp idx).write E.board v).run s
      = .ok ((((Site.cell sp idx).toCell E.board s).write E.board.hardware v s.sys).1,
          { s with sys := (((Site.cell sp idx).toCell E.board s).write E.board.hardware v s.sys).2 }) := rfl
  obtain ⟨brks, hops, hbrk⟩ := operators_eq hc s
  rw [hrun, Site.cell_write, hops]
  obtain ⟨hval, hstore⟩ :=
    passWrite_calls (E := E) (v := v) hbrk (E.operators (.cell sp idx)) s.sys
  dsimp only
  rw [hval]
  refine ⟨_, rfl, ?_, rfl⟩
  dsimp only [view, Sys.store]
  rw [hstore]
  rfl

end Element

end Ucsim.S51
