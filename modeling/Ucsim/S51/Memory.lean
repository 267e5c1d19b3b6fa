import Ucsim.S51.Board
import Ucsim.Sim.OperatorChain

/-!
# Memory of the 8051 core

`cl_address_space::read`, `get`, `write` and `set` go by the name of the space: `rom` reads the flash
banks and `sram`, `xram` maps `sram`, the special function registers and a flash bank, `sram` maps
`iram`. Each branch of these functions is a definition here.
-/

namespace Ucsim.S51

open Logic

/-- What ends the simulator: the assertions of the memory system, and `il->level` without a level. -/
inductive Abort
  | invalidFmap | invalidAddress | noLevel
  deriving DecidableEq, Repr

/-- The errors handed to `cl_uc::error`. -/
inductive UcError
  | memInvalidAddress (sp : Space) (addr : Int)
  | unknownCode
  | stackTrackerWrongHandle (writeOp : Bool)
  | stackTrackerEmpty
  | stackTrackerUnmatch
  | stackTrackerInconsistent (unreadBytes : Nat)
  deriving DecidableEq, Repr

/-- The state of the memory system. `brks` are the event breakpoints set on a cell, `fetchBrk` the
`CELL_FETCH_BRK` flags of `rom`, `rand` what `rand()` is going to return. -/
structure MemState (V : Type) where
  sys : Sys Site (HwState V)
  brks : Site → List Brk
  fetchBrk : Int → Bool
  errors : List UcError
  rand : Nat → TMem

abbrev MemProg (V α : Type) := Program Abort (MemState V) α

/-- Memory without breakpoints and devices. -/
def blank (mem : Site → TMem) : MemState Unit where
  sys :=
    { mem := mem
      hw :=
        { wasReti := false, bitIT0 := false, bitIT1 := false, bitINT0 := false, bitINT1 := false
          spMax := 0, spAvg := 0, prevP1 := 0, prevP3 := 0, movInstruction := false, devices := () }
      events := [] }
  brks _ := []
  fetchBrk _ := false
  errors := []
  rand _ := 0

variable {Dev V : Type} (D : Devices Dev V)

/-! ## Cells -/

namespace Site

/-- The operators of a cell: the hardware, then the event breakpoints. -/
def operators (brks : Site → List Brk) (c : Site) : List (Operator Site Site (CoreHw Dev)) :=
  ((D.hws c).map OperatorKind.hw ++ (brks c).filterMap AddressSpace.brkOperator).map fun kind =>
    { kind := kind, cell := c, data := c, mask := 0xff }

/-- The cell as an object. -/
def toCell (s : MemState V) : Site → Cell Site Site (CoreHw Dev)
  | .cell sp idx =>
    { data := .cell sp idx
      mask := 0xff
      nonDecoded := !sp.decoded idx
      fetchBrk := sp = .rom && s.fetchBrk idx
      operators := operators D s.brks (.cell sp idx) }
  | .dummy sp =>
    { data := .dummy sp, mask := 0xff, nonDecoded := true, fetchBrk := false, operators := [] }

/-- `read(void)`. -/
def read (c : Site) : MemProg V TMem :=
  modifyGet fun s =>
    let r := (c.toCell D s).read D.hardware s.sys
    (r.1, { s with sys := r.2 })

/-- `read(enum hw_cath skip)`. -/
def readSkip (c : Site) (skip : HwCath) : MemProg V TMem :=
  modifyGet fun s =>
    let r := (c.toCell D s).readSkip D.hardware skip s.sys
    (r.1, { s with sys := r.2 })

/-- `get(void)`. -/
def get (c : Site) : MemProg V TMem :=
  modifyGet fun s => ((c.toCell D s).get s.sys.toStore, s)

/-- `cl_dummy_cell::write` and `set`: the value is random. -/
def setRandom (c : Site) : MemProg V TMem :=
  modifyGet fun s =>
    let d := s.rand 0 &&& 0xff
    (d, { s with sys := s.sys.store c d, rand := fun n => s.rand (n + 1) })

/-- `write(t_mem val)`. -/
def write (c : Site) (val : TMem) : MemProg V TMem :=
  match c with
  | .cell _ _ =>
    modifyGet fun s =>
      let r := (c.toCell D s).write D.hardware val s.sys
      (r.1, { s with sys := r.2 })
  | .dummy _ => c.setRandom

/-- `set(t_mem val)`. -/
def set (c : Site) (val : TMem) : MemProg V TMem :=
  match c with
  | .cell _ _ =>
    modifyGet fun s =>
      let r := (c.toCell D s).set val s.sys
      (r.1, { s with sys := r.2 })
  | .dummy _ => c.setRandom

/-- `add(long what)`. -/
def add (c : Site) (what : Int) : MemProg V TMem :=
  modifyGet fun s =>
    let r := (c.toCell D s).add what s.sys
    (r.1, { s with sys := r.2 })

/-- `wadd(long what)`. -/
def wadd (c : Site) (what : Int) : MemProg V TMem := do
  let d ← c.get D
  c.write D ((d + BitVec.ofInt 16 what) &&& 0xff)

/-- `set_bit1(t_mem bits)`. -/
def setBit1 (c : Site) (bits : TMem) : MemProg V Unit :=
  modifyGet fun s => ((), { s with sys := (c.toCell D s).setBit1 bits s.sys })

/-- `set_bit0(t_mem bits)`. -/
def setBit0 (c : Site) (bits : TMem) : MemProg V Unit :=
  modifyGet fun s => ((), { s with sys := (c.toCell D s).setBit0 bits s.sys })

end Site

/-! ## Address spaces -/

namespace Space

/-- The check `idx >= size || addr < start_address`. -/
def invalid (sp : Space) (addr : Int) : Prop :=
  addr - sp.startAddress ≥ sp.size ∨ addr < sp.startAddress

instance (sp : Space) (addr : Int) : Decidable (sp.invalid addr) :=
  inferInstanceAs (Decidable (_ ∨ _))

/-- `err_inv_addr`. -/
def errInvAddr (sp : Space) (addr : Int) : MemProg V Unit :=
  modifyGet fun s => ((), { s with errors := s.errors ++ [.memInvalidAddress sp addr] })

/-- `cells + idx`. -/
def cells (sp : Space) (addr : Int) : Site := .cell sp (addr - sp.startAddress)

/-- `get_cell`. -/
def getCell (sp : Space) (addr : Int) : MemProg V Site :=
  if sp.invalid addr then do
    sp.errInvAddr addr
    return .dummy sp
  else return sp.cells addr

/-- The four case labels of the bank switches. -/
def flashbank : Nat → Option Space
  | 0 => some .flashbank0
  | 1 => some .flashbank1
  | 2 => some .flashbank2
  | 3 => some .flashbank3
  | _ => none

/-- The last branch of `read`. -/
def readCells (sp : Space) (addr : Int) : MemProg V TMem :=
  if sp.invalid addr then do
    sp.errInvAddr addr
    (Site.dummy sp).read D
  else (sp.cells addr).read D

/-- `sram->read`. -/
def readSram (addr : Int) : MemProg V TMem :=
  if addr ≥ 0x1F00 then iram.readCells D (addr - iram.xramOffset) else (sram.cells addr).read D

/-- `xram->read`. -/
def readXram (idx : Int) : MemProg V TMem :=
  if idx < 0x2000 then readSram D idx
  else if idx ≥ 0x7080 ∧ idx < 0x7100 then sfr.readCells D (idx - sfr.xramOffset)
  else if idx ≥ 0x8000 then do
    let memctr := (← sfr.readCells D Reg.MCON) &&& 0x07
    let idx := idx % 0x8000
    match flashbank memctr.toNat with
    | some bank => bank.readCells D idx
    | none => (xram.cells idx).read D
  else (xram.cells idx).read D

/-- `rom->read`. -/
def readRom (idx : Int) : MemProg V TMem :=
  if idx < 0x8000 then flashbank0.readCells D idx
  else do
    let execFromSram := (← sfr.readCells D Reg.MCON) &&& 0x08
    let idx := idx % 0x8000
    if execFromSram ≠ 0 ∧ idx < 0x2000 then readSram D idx
    else
      let fmap := (← sfr.readCells D Reg.FMAP) &&& 0x07
      match flashbank fmap.toNat with
      | some bank => bank.readCells D idx
      | none => throw .invalidFmap

/-- `read(t_addr addr)`. -/
def read (sp : Space) (addr : Int) : MemProg V TMem :=
  match sp with
  | .rom => readRom D addr
  | .xram => readXram D addr
  | .sram => readSram D addr
  | .iram | .sfr | .flashbank0 | .flashbank1 | .flashbank2 | .flashbank3 => sp.readCells D addr

/-- `read(t_addr addr, enum hw_cath skip)`: no space is mapped into another one here. -/
def readSkip (sp : Space) (addr : Int) (skip : HwCath) : MemProg V TMem :=
  if sp.invalid addr then do
    sp.errInvAddr addr
    (Site.dummy sp).read D
  else (sp.cells addr).readSkip D skip

/-- The last branch of `get`. -/
def getCells (sp : Space) (addr : Int) : MemProg V TMem :=
  if sp.invalid addr then do
    sp.errInvAddr addr
    (Site.dummy sp).get D
  else (sp.cells addr).get D

/-- `sram->get`. -/
def getSram (addr : Int) : MemProg V TMem :=
  if addr ≥ 0x1F00 then iram.getCells D (addr - iram.xramOffset) else (sram.cells addr).get D

/-- `xram->get`. -/
def getXram (idx : Int) : MemProg V TMem :=
  if idx < 0x2000 then getSram D idx
  else if idx ≥ 0x7080 ∧ idx < 0x7100 then sfr.getCells D (idx - sfr.xramOffset)
  else if idx ≥ 0x8000 then do
    let memctr := (← sfr.readCells D Reg.MCON) &&& 0x07
    let idx := idx % 0x8000
    match flashbank memctr.toNat with
    | some bank => bank.getCells D idx
    | none => (xram.cells idx).get D
  else (xram.cells idx).get D

/-- `rom->get`. -/
def getRom (idx : Int) : MemProg V TMem :=
  if idx < 0x8000 then flashbank0.getCells D idx
  else do
    let fmap := (← sfr.readCells D Reg.FMAP) &&& 0x07
    let execFromSram := (← sfr.readCells D Reg.MCON) &&& 0x08
    let idx := idx % 0x8000
    if execFromSram ≠ 0 ∧ idx < 0x2000 then getSram D idx
    else
      match flashbank fmap.toNat with
      | some bank => bank.getCells D idx
      | none => (rom.cells idx).get D

/-- `get(t_addr addr)`. -/
def get (sp : Space) (addr : Int) : MemProg V TMem :=
  match sp with
  | .rom => getRom D addr
  | .xram => getXram D addr
  | .sram => getSram D addr
  | .iram | .sfr | .flashbank0 | .flashbank1 | .flashbank2 | .flashbank3 => sp.getCells D addr

/-- The check at the head of `write` and its last line. -/
def writeCells (sp : Space) (addr : Int) (val : TMem) : MemProg V TMem :=
  if sp.invalid addr then throw .invalidAddress else (sp.cells addr).write D val

/-- `sram->write`. -/
def writeSram (addr : Int) (val : TMem) : MemProg V TMem :=
  if sram.invalid addr then throw .invalidAddress
  else if addr ≥ 0x1F00 then iram.writeCells D (addr - iram.xramOffset) val
  else (sram.cells addr).write D val

/-- `xram->write`. -/
def writeXram (idx : Int) (val : TMem) : MemProg V TMem :=
  if xram.invalid idx then throw .invalidAddress
  else if idx < 0x2000 then writeSram D idx val
  else if idx ≥ 0x7080 ∧ idx < 0x7100 then sfr.writeCells D (idx - sfr.xramOffset) val
  else if idx ≥ 0x8000 then do
    let memctr := (← sfr.readCells D Reg.MCON) &&& 0x07
    let idx := idx % 0x8000
    match flashbank memctr.toNat with
    | some bank => bank.writeCells D idx val
    | none => (xram.cells idx).write D val
  else (xram.cells idx).write D val

/-- `write(t_addr addr, t_mem val)`. -/
def write (sp : Space) (addr : Int) (val : TMem) : MemProg V TMem :=
  match sp with
  | .xram => writeXram D addr val
  | .sram => writeSram D addr val
  | .rom | .iram | .sfr | .flashbank0 | .flashbank1 | .flashbank2 | .flashbank3 =>
    sp.writeCells D addr val

/-- The check at the head of `set` and its last line. -/
def setCells (sp : Space) (addr : Int) (val : TMem) : MemProg V Unit :=
  if sp.invalid addr then do
    sp.errInvAddr addr
    discard ((Site.dummy sp).set D val)
  else discard ((sp.cells addr).set D val)

/-- `sram->set`. -/
def setSram (addr : Int) (val : TMem) : MemProg V Unit :=
  if sram.invalid addr then sram.setCells D addr val
  else if addr ≥ 0x1F00 then iram.setCells D (addr - iram.xramOffset) val
  else discard ((sram.cells addr).set D val)

/-- `xram->set`. The cases of the bank switch have no `break`: the selected bank, those after it and
the cell of `xram` are all set. -/
def setXram (idx : Int) (val : TMem) : MemProg V Unit :=
  if xram.invalid idx then xram.setCells D idx val
  else if idx < 0x2000 then setSram D idx val
  else if idx ≥ 0x7080 ∧ idx < 0x7100 then sfr.setCells D (idx - sfr.xramOffset) val
  else if idx ≥ 0x8000 then do
    let memctr := (← sfr.readCells D Reg.MCON) &&& 0x07
    let idx := idx % 0x8000
    [flashbank0, flashbank1, flashbank2, flashbank3].drop memctr.toNat |>.forM
      (·.setCells D idx val)
    discard ((xram.cells idx).set D val)
  else discard ((xram.cells idx).set D val)

/-- `set(t_addr addr, t_mem val)`. -/
def set (sp : Space) (addr : Int) (val : TMem) : MemProg V Unit :=
  match sp with
  | .xram => setXram D addr val
  | .sram => setSram D addr val
  | .rom | .iram | .sfr | .flashbank0 | .flashbank1 | .flashbank2 | .flashbank3 =>
    sp.setCells D addr val

/-- `wadd(t_addr addr, long what)`. -/
def wadd (sp : Space) (addr : Int) (what : Int) : MemProg V TMem := do
  if sp.invalid addr then sp.errInvAddr addr
  (sp.cells addr).wadd D what

/-- `set_bit1(t_addr addr, t_mem bits)`. -/
def setBit1 (sp : Space) (addr : Int) (bits : TMem) : MemProg V Unit :=
  if sp.invalid addr then return else (sp.cells addr).setBit1 D bits

/-- `set_bit0(t_addr addr, t_mem bits)`. -/
def setBit0 (sp : Space) (addr : Int) (bits : TMem) : MemProg V Unit :=
  if sp.invalid addr then return else (sp.cells addr).setBit0 D bits

/-- `inc_address(t_addr addr)` of a space that starts at 0. The remainder is that of C. -/
def incAddress (sp : Space) (addr : Int) : Int := (addr + 1).tmod sp.size

/-- The first loop of `validate_address`: `n` bounds the rounds. -/
def validateLoop (sp : Space) : Nat → Int → Int
  | 0, addr => addr
  | n + 1, addr => if addr < sp.startAddress then validateLoop sp n (addr + sp.size) else addr

/-- `validate_address`. -/
def validateAddress (sp : Space) (addr : Int) : Int :=
  let addr := sp.validateLoop (sp.startAddress - addr).toNat addr
  if addr > sp.startAddress + sp.size then
    (addr - sp.startAddress).tmod sp.size + sp.startAddress
  else addr

end Space

end Ucsim.S51
