import Ucsim.Logic.Run
import Ucsim.Sim.SpaceRun

/-!
# External memory of the R series

A chip of the R series has 256 bytes of external memory on board, which take the place of the first 256
bytes outside while EXTRAM is clear in AUXR. Each write of AUXR makes a decoder for this window.
-/

namespace Ucsim.S51.Uc51r

open Logic AddressSpace

variable {Hw W : Type}

def bmEXTRAM : TMem := 0x02

/-- The third and the fourth chip that `make_memories` makes. -/
def xram_chip : MemoryChip := { id := 2, size := 0x10000 }

def eram_chip : MemoryChip := { id := 3, size := 0x100 }

/-- `new cl_address_decoder(xram, chip, 0, aend, 0)`. -/
def decoderTo (chip : MemoryChip) (asEnd : Int) : AddressDecoder :=
  { onSpace := true, memchip := some chip, asBegin := 0, asEnd := asEnd, chipBegin := 0, activated := false }

/-- A new decoder is added to the list and activated. -/
def addActivated (v : AddressDecoder) (xram : AddressSpace Hw) : AddressSpace Hw :=
  let sp := xram.withNew v true
  match activate (2 * sp.decoders.length + 4) xram.freshDecoder sp with
  | some (_, sp) => sp
  | none => sp

/-- The space `xram` after `make_memories`. -/
def make_memories : AddressSpace Hw := addActivated (decoderTo xram_chip 0xffff) (new 0 0x10000)

/-- `cl_uc51r_dummy_hw::write` for the cell of AUXR. -/
def writeAuxr (val : TMem) (xram : AddressSpace Hw) : AddressSpace Hw :=
  addActivated (decoderTo (if val &&& bmEXTRAM ≠ 0 then xram_chip else eram_chip) 0xff) xram

/-! ## Accesses -/

/-- The name of the space, and what `get_name` gives for the members `rom`, `xram` and `sram`, if they lead to
an object. Names are compared as pointers. `define_memories` sets these members, and `make_memories` of the R
series does not call it: they hold what happens to be there. -/
structure Members where
  asname : Nat
  rom : Option Nat
  xram : Option Nat
  sram : Option Nat
  deriving DecidableEq

/-- An access concerns `cells[idx]`, or another memory. -/
inductive Target
  | cell | elsewhere
  deriving DecidableEq

namespace Members

/-- The comparisons that `write` makes for a valid address. -/
def writeTarget (m : Members) (idx : Int) : Option Target :=
  match m.xram with
  | none => none
  | some xram =>
    if m.asname = xram then
      if idx < 0x2000 then some .elsewhere
      else if idx ≥ 0x7080 ∧ idx < 0x7100 then some .elsewhere
      else if idx ≥ 0x8000 then some .elsewhere
      else some .cell
    else
      match m.sram with
      | none => none
      | some sram => if m.asname = sram ∧ idx ≥ 0x1F00 then some .elsewhere else some .cell

/-- `read` compares with `rom` first. -/
def readTarget (m : Members) (idx : Int) : Option Target :=
  match m.rom with
  | none => none
  | some rom => if m.asname = rom then some .elsewhere else m.writeTarget idx

end Members

/-- External memory, with what the last access has returned, and whether one has not come to its cell. -/
structure St (Hw W : Type) where
  xram : AddressSpace Hw
  sys : Sys DataPtr W
  val : TMem
  astray : Bool

/-- AUXR is written, or a byte of `xram` is read or written. -/
inductive Event
  | auxr (val : TMem)
  | read (addr : BitVec 16)
  | write (addr : BitVec 16) (val : TMem)
  deriving DecidableEq

/-- One event. -/
def step (H : Hardware Int DataPtr Hw W) (m : Members) (s : St Hw W) : Event → St Hw W
  | .auxr val => { s with xram := writeAuxr val s.xram }
  | .read addr =>
    if m.readTarget (addr.toNat - s.xram.startAddress) = some .cell then
      let (val, sys) := (s.xram.cellAt addr.toNat).read H s.sys
      { s with sys := sys, val := val }
    else { s with astray := true }
  | .write addr val =>
    if m.writeTarget (addr.toNat - s.xram.startAddress) = some .cell then
      let (val, sys) := (s.xram.cellAt addr.toNat).write H val s.sys
      { s with sys := sys, val := val }
    else { s with astray := true }

def start (sys : Sys DataPtr W) : St Hw W := { xram := make_memories, sys := sys, val := 0, astray := false }

/-! ## What the memory is for -/

/-- Two memories and the bit that chooses between them. -/
structure Banks where
  extram : Bool
  eram : Nat → TMem
  xram : Nat → TMem
  val : TMem

namespace Banks

/-- Whether an address is one of the bytes on board. -/
def onBoard (b : Banks) (addr : BitVec 16) : Prop := addr.toNat < 0x100 ∧ b.extram = false

instance (b : Banks) (addr : BitVec 16) : Decidable (b.onBoard addr) := inferInstanceAs (Decidable (_ ∧ _))

def step (b : Banks) : Event → Banks
  | .auxr val => { b with extram := decide (val &&& bmEXTRAM ≠ 0) }
  | .read addr => { b with val := if b.onBoard addr then b.eram addr.toNat else b.xram addr.toNat }
  | .write addr val =>
    if b.onBoard addr then
      { b with eram := Function.update b.eram addr.toNat (val &&& 0xff), val := val &&& 0xff }
    else { b with xram := Function.update b.xram addr.toNat (val &&& 0xff), val := val &&& 0xff }

/-- Before AUXR is written all bytes are outside. -/
def start (sys : Sys DataPtr W) : Banks where
  extram := true
  eram i := sys.mem (.slot eram_chip.id i)
  xram i := sys.mem (.slot xram_chip.id i)
  val := 0

end Banks

/-- The chip that the window shows. -/
def windowChip (extram : Bool) : MemoryChip := if extram then xram_chip else eram_chip

/-- Each address is backed by the memory that is chosen for it and has one decoder, both memories have kept
what was written to them, and the accesses have had their effect. -/
structure Switched (b : Banks) (s : St Hw W) : Prop where
  arrived : s.astray = false
  val : s.val = b.val
  window : ∀ a, 0 ≤ a → a ≤ 0xff → s.xram.BackedBy a (windowChip b.extram) a
  above : ∀ a, 0x100 ≤ a → a ≤ 0xffff → s.xram.BackedBy a xram_chip a
  eram : ∀ i : Nat, i < 0x100 → s.sys.mem (.slot eram_chip.id i) = b.eram i
  xram : ∀ i : Nat, i < 0x10000 → s.sys.mem (.slot xram_chip.id i) = b.xram i
  decoded : ∀ a, 0 ≤ a → a ≤ 0xffff →
    ∃! d, d ∈ s.xram.decoders ∧ (s.xram.decoder d).asBegin ≤ a ∧ a ≤ (s.xram.decoder d).asEnd

/-- An access comes to its cell. -/
def Event.Arrives (m : Members) : Event → Prop
  | .auxr _ => True
  | .read addr => m.readTarget addr.toNat = some .cell
  | .write addr _ => m.writeTarget addr.toNat = some .cell

/-! ## The decoders -/

/-- All addresses have decoders, and no operator hangs on a cell. -/
structure Invariant (sp : AddressSpace Hw) : Prop where
  well : WellDecoded sp.freshDecoder sp
  startAddress : sp.startAddress = 0
  operators : ∀ a, (sp.cellAt a).operators = []
  mask : ∀ a, (sp.cellAt a).mask = 0xff
  covered : ∀ a, 0 ≤ a → a ≤ 0xffff → Covered sp.freshDecoder sp a

variable {sp : AddressSpace Hw}

theorem mem_withNew {v : AddressDecoder} {x : DecoderPtr} :
    x ∈ (sp.withNew v true).decoders ↔ x = sp.freshDecoder ∨ x ∈ sp.decoders := by
  obtain ⟨i, hi, hlist⟩ : ∃ i ≤ sp.decoders.length,
      (sp.withNew v true).decoders = sp.decoders.insertIdx i sp.freshDecoder :=
    SortedList.add_duplicates _ _ _
  rw [hlist, List.mem_insertIdx hi]

theorem withNew_decoder_ne {v : AddressDecoder} {x : DecoderPtr} (h : x ≠ sp.freshDecoder) :
    (sp.withNew v true).decoder x = sp.decoder x :=
  setDecoder_ne sp h v

/-- A new decoder that `activate` accepts. -/
theorem addActivated_spec (h : WellDecoded sp.freshDecoder sp) {v : AddressDecoder} {chip : MemoryChip}
    (hchecks : sp.checks v = some chip) :
    (∃ fuel, activate fuel sp.freshDecoder (sp.withNew v true) = some (true, addActivated v sp)) ∧
      Activated sp.freshDecoder (sp.withNew v true) (addActivated v sp) := by
  have hlt : sp.freshDecoder < (sp.withNew v true).freshDecoder := Nat.lt_succ_self _
  have hnew : (sp.withNew v true).checks ((sp.withNew v true).decoder sp.freshDecoder) = some chip := by
    rw [withNew_decoder, withNew_checks]
    exact hchecks
  obtain ⟨sp', hact, hspec⟩ := (h.withNew v true).activate_fuel hlt hnew
  have heq : addActivated v sp = sp' := by
    rw [addActivated, hact]
  rw [heq]
  exact ⟨⟨_, hact⟩, hspec⟩

/-- What is in the range of the new decoder has it, and the rest keeps the one it had: as the range begins
where the space does, no decoder is split. -/
theorem addActivated_covered (h : WellDecoded sp.freshDecoder sp) {chip : MemoryChip} {asEnd : Int}
    (hchecks : sp.checks (decoderTo chip asEnd) = some chip) (hstart : sp.startAddress = 0) {a : Int}
    (hc : (0 ≤ a ∧ a ≤ asEnd) ∨ Covered sp.freshDecoder sp a) :
    ∃ x ∈ (addActivated (decoderTo chip asEnd) sp).decoders,
      ((addActivated (decoderTo chip asEnd) sp).decoder x).asBegin ≤ a ∧
        a ≤ ((addActivated (decoderTo chip asEnd) sp).decoder x).asEnd := by
  obtain ⟨⟨fuel, hact⟩, hspec⟩ := addActivated_spec h hchecks
  have hnew : (sp.withNew (decoderTo chip asEnd) true).decoder sp.freshDecoder = decoderTo chip asEnd :=
    withNew_decoder sp _ true
  by_cases hin : 0 ≤ a ∧ a ≤ asEnd
  · refine ⟨sp.freshDecoder, hspec.self_mem.mpr (mem_withNew.mpr (.inl rfl)), ?_⟩
    rw [hspec.self, hnew]
    exact hin
  · obtain ⟨x, hx, hxd, hrange⟩ := hc.resolve_left hin
    have hcovered := (h.withNew (decoderTo chip asEnd) true).activate_covered
      (by rw [hnew, withNew_checks]; exact hchecks) ?_ hact (a := a) (by rw [hnew]; exact hin)
      ⟨x, mem_withNew.mpr (.inr hx), hxd, by rw [withNew_decoder_ne hxd]; exact hrange⟩
    · obtain ⟨y, hy, -, hyrange⟩ := hcovered
      exact ⟨y, hy, hyrange⟩
    · intro y hy hyd hcov
      have hlow := (h.decodes y ((mem_withNew.mp hy).resolve_left hyd) hyd).low
      rw [hnew, withNew_decoder_ne hyd] at hcov
      have hbegin : (0 : Int) > (sp.decoder y).asBegin := hcov.1
      omega

/-- A decoder for the window passes the checks. -/
theorem Invariant.checks (h : Invariant sp) {chip : MemoryChip} (hchip : 0x100 ≤ chip.size) :
    sp.checks (decoderTo chip 0xff) = some chip := by
  obtain ⟨x, hx, hxd, -, hend⟩ := h.covered 0xffff (by decide) (by decide)
  have hhigh := (h.well.decodes x hx hxd).high
  have hstart := h.startAddress
  refine (checks_eq_some_iff _ _).mpr ⟨rfl, rfl, rfl, ?_⟩
  dsimp only [decoderTo]
  omega

theorem addActivated_invariant (h : WellDecoded sp.freshDecoder sp) (hstart : sp.startAddress = 0)
    (hops : ∀ a, (sp.cellAt a).operators = []) (hmask : ∀ a, (sp.cellAt a).mask = 0xff) {chip : MemoryChip}
    {asEnd : Int} (hchecks : sp.checks (decoderTo chip asEnd) = some chip)
    (hc : ∀ a, 0 ≤ a → a ≤ 0xffff → (0 ≤ a ∧ a ≤ asEnd) ∨ Covered sp.freshDecoder sp a) :
    Invariant (addActivated (decoderTo chip asEnd) sp) := by
  have hlt : sp.freshDecoder < (sp.withNew (decoderTo chip asEnd) true).freshDecoder := Nat.lt_succ_self _
  obtain ⟨-, hspec⟩ := addActivated_spec h hchecks
  have hwell := hspec.wellDecoded (mem_withNew.mpr (.inl rfl)) hlt
  refine ⟨hwell, hspec.startAddress.trans hstart, fun a => (hspec.operators a).trans ?_,
    fun a => (hspec.mask a).trans ?_, fun a h0 hend => ?_⟩
  · rw [withNew_cellAt]
    exact hops a
  · rw [withNew_cellAt]
    exact hmask a
  · obtain ⟨x, hx, hrange⟩ := addActivated_covered h hchecks hstart (hc a h0 hend)
    exact ⟨x, hx, Nat.ne_of_lt (hwell.allocated x hx), hrange⟩

theorem invariant_make_memories : Invariant (make_memories : AddressSpace Hw) := by
  have hwell : WellDecoded (new 0 0x10000 : AddressSpace Hw).freshDecoder (new 0 0x10000 : AddressSpace Hw) :=
    wellDecoded_new 0 0x10000
  have hchecks : (new 0 0x10000 : AddressSpace Hw).checks (decoderTo xram_chip 0xffff) = some xram_chip := by
    refine (checks_eq_some_iff _ _).mpr ⟨rfl, rfl, rfl, ?_⟩
    simp [decoderTo, xram_chip, AddressSpace.new]
  exact addActivated_invariant hwell rfl (fun _ => rfl) (fun _ => rfl) hchecks (fun a h0 hend => .inl ⟨h0, hend⟩)

theorem Invariant.writeAuxr (h : Invariant sp) (val : TMem) : Invariant (writeAuxr val sp) := by
  have hchip : 0x100 ≤ (if val &&& bmEXTRAM ≠ 0 then xram_chip else eram_chip).size := by
    split <;> decide
  exact addActivated_invariant h.well h.startAddress h.operators h.mask (h.checks hchip)
    (fun a h0 hend => .inr (h.covered a h0 hend))

/-- Each address has one decoder. -/
theorem Invariant.existsUnique (h : Invariant sp) {a : Int} (h0 : 0 ≤ a) (hend : a ≤ 0xffff) :
    ∃! d, d ∈ sp.decoders ∧ (sp.decoder d).asBegin ≤ a ∧ a ≤ (sp.decoder d).asEnd := by
  obtain ⟨x, hx, hxd, hrange⟩ := h.covered a h0 hend
  refine ⟨x, ⟨hx, hrange⟩, ?_⟩
  rintro y ⟨hy, hyrange⟩
  by_contra hne
  have hyd : y ≠ sp.freshDecoder := Nat.ne_of_lt (h.well.allocated y hy)
  rcases h.well.apart y hy x hx hyd hxd hne with hap | hap
  · omega
  · omega

/-- The new decoder backs its range. -/
theorem addActivated_backedBy (h : WellDecoded sp.freshDecoder sp) {chip : MemoryChip} {asEnd : Int}
    (hchecks : sp.checks (decoderTo chip asEnd) = some chip) (hsize : asEnd < chip.size) {a : Int} (h0 : 0 ≤ a)
    (hend : a ≤ asEnd) : (addActivated (decoderTo chip asEnd) sp).BackedBy a chip a := by
  obtain ⟨-, hspec⟩ := addActivated_spec h hchecks
  have hnew : (sp.withNew (decoderTo chip asEnd) true).decoder sp.freshDecoder = decoderTo chip asEnd :=
    withNew_decoder sp _ true
  have hwired := hspec.wired a (by rw [hnew]; exact h0) (by rw [hnew]; exact hend)
  have hslot : (decoderTo chip asEnd).slotOf a = some (.slot chip.id a) := by
    rw [AddressDecoder.slotOf]
    show chip.getSlot (0 + (a - 0)) = _
    rw [show 0 + (a - 0) = a by omega, MemoryChip.getSlot, if_neg (by omega)]
  rw [hnew, hslot] at hwired
  exact ⟨hwired.1, hwired.2, h0, by omega⟩

/-- The rest of the space is left alone. -/
theorem addActivated_backedBy_of_above (h : WellDecoded sp.freshDecoder sp) {chip chip' : MemoryChip} {asEnd : Int}
    (hchecks : sp.checks (decoderTo chip asEnd) = some chip) {a i : Int} (hout : asEnd < a)
    (hb : sp.BackedBy a chip' i) : (addActivated (decoderTo chip asEnd) sp).BackedBy a chip' i := by
  obtain ⟨-, hspec⟩ := addActivated_spec h hchecks
  have hnew : (sp.withNew (decoderTo chip asEnd) true).decoder sp.freshDecoder = decoderTo chip asEnd :=
    withNew_decoder sp _ true
  have hcell : (addActivated (decoderTo chip asEnd) sp).cellAt a = sp.cellAt a := by
    rw [← withNew_cellAt sp (decoderTo chip asEnd) true a]
    refine hspec.cell a ?_ (.inl ?_)
    · rw [hnew]
      show ¬ (0 ≤ a ∧ a ≤ asEnd)
      omega
    · rw [withNew_cellAt]
      exact hb.1
  rw [BackedBy, hcell]
  exact hb

/-! ## One event -/

section Step

variable {H : Hardware Int DataPtr Hw W} {m : Members} {b : Banks} {s : St Hw W}

theorem auxr_switched (h : Invariant s.xram) (hs : Switched b s) (val : TMem) :
    Switched (b.step (.auxr val)) (step H m s (.auxr val)) := by
  have hchip : windowChip (decide (val &&& bmEXTRAM ≠ 0)) = if val &&& bmEXTRAM ≠ 0 then xram_chip else eram_chip := by
    simp only [windowChip, decide_eq_true_eq]
  have hsize : 0x100 ≤ (if val &&& bmEXTRAM ≠ 0 then xram_chip else eram_chip).size := by
    split <;> decide
  refine ⟨hs.arrived, hs.val, fun a h0 hend => ?_, fun a h0 hend => ?_, hs.eram, hs.xram,
    fun a => (h.writeAuxr val).existsUnique⟩
  · show (writeAuxr val s.xram).BackedBy a (windowChip (decide (val &&& bmEXTRAM ≠ 0))) a
    rw [hchip]
    exact addActivated_backedBy h.well (h.checks hsize) (by omega) h0 hend
  · exact addActivated_backedBy_of_above h.well (h.checks hsize) (by omega) (hs.above a h0 hend)

/-- The chip that backs an address. -/
def chipAt (b : Banks) (addr : BitVec 16) : MemoryChip := if b.onBoard addr then eram_chip else xram_chip

theorem Switched.backedBy (hs : Switched b s) (addr : BitVec 16) :
    s.xram.BackedBy addr.toNat (chipAt b addr) addr.toNat := by
  unfold chipAt
  by_cases hon : b.onBoard addr
  · have hlow := hon.1
    have hwindow := hs.window addr.toNat (by omega) (by omega)
    rw [if_pos hon]
    rwa [hon.2] at hwindow
  rw [if_neg hon]
  by_cases hlow : addr.toNat < 0x100
  · have hext : b.extram = true := Bool.not_eq_false _ ▸ fun hoff => hon ⟨hlow, hoff⟩
    have hwindow := hs.window addr.toNat (by omega) (by omega)
    rwa [hext] at hwindow
  · have hlt := addr.isLt
    exact hs.above addr.toNat (by omega) (by omega)

theorem Switched.mem_chipAt (hs : Switched b s) (addr : BitVec 16) :
    s.sys.mem (.slot (chipAt b addr).id addr.toNat)
      = if b.onBoard addr then b.eram addr.toNat else b.xram addr.toNat := by
  unfold chipAt
  by_cases hon : b.onBoard addr
  · rw [if_pos hon, if_pos hon]
    exact hs.eram _ hon.1
  · rw [if_neg hon, if_neg hon]
    exact hs.xram _ addr.isLt

/-- A byte that is read is the one that the memory chosen for it has there. -/
theorem read_switched (h : Invariant s.xram) (hs : Switched b s) {addr : BitVec 16}
    (harrives : m.readTarget addr.toNat = some .cell) :
    Switched (b.step (.read addr)) (step H m s (.read addr)) := by
  have hread : (s.xram.cellAt addr.toNat).read H s.sys
      = (if b.onBoard addr then b.eram addr.toNat else b.xram addr.toNat, s.sys) := by
    rw [Cell.read, h.operators]
    dsimp only
    rw [(hs.backedBy addr).2.1, hs.mem_chipAt]
  have hstep : step H m s (.read addr)
      = { s with val := if b.onBoard addr then b.eram addr.toNat else b.xram addr.toNat } := by
    rw [step, h.startAddress, Int.sub_zero, if_pos harrives, hread]
  rw [hstep]
  exact ⟨hs.arrived, rfl, hs.window, hs.above, hs.eram, hs.xram, hs.decoded⟩

/-- A byte that is written changes the memory chosen for it, at its address. -/
theorem write_switched (h : Invariant s.xram) (hs : Switched b s) {addr : BitVec 16} {val : TMem}
    (harrives : m.writeTarget addr.toNat = some .cell) :
    Switched (b.step (.write addr val)) (step H m s (.write addr val)) := by
  have hwrite : (s.xram.cellAt addr.toNat).write H val s.sys
      = (val &&& 0xff, s.sys.store (.slot (chipAt b addr).id addr.toNat) (val &&& 0xff)) := by
    rw [Cell.write, h.operators, h.mask, (hs.backedBy addr).2.1]
  have hstep : step H m s (.write addr val) =
      { s with sys := s.sys.store (.slot (chipAt b addr).id addr.toNat) (val &&& 0xff), val := val &&& 0xff } := by
    rw [step, h.startAddress, Int.sub_zero, if_pos harrives, hwrite]
  have hids : eram_chip.id ≠ xram_chip.id := by decide
  rw [hstep, Banks.step]
  unfold chipAt
  by_cases hon : b.onBoard addr
  · rw [if_pos hon, if_pos hon]
    refine ⟨hs.arrived, rfl, hs.window, hs.above, fun i hi => ?_, fun i hi => ?_, hs.decoded⟩
    · show Function.update s.sys.mem _ _ _ = Function.update b.eram addr.toNat _ i
      by_cases hia : i = addr.toNat
      · rw [hia, Function.update_self, Function.update_self]
      · have hne : DataPtr.slot eram_chip.id i ≠ .slot eram_chip.id addr.toNat := by
          simp only [Ne, DataPtr.slot.injEq, true_and]
          omega
        rw [Function.update_of_ne hne, Function.update_of_ne hia]
        exact hs.eram i hi
    · have hne : DataPtr.slot xram_chip.id i ≠ .slot eram_chip.id addr.toNat := by
        simp only [Ne, DataPtr.slot.injEq, hids.symm, false_and, not_false_iff]
      have hstore : Function.update s.sys.mem (.slot eram_chip.id addr.toNat) (val &&& 0xff) (.slot xram_chip.id i)
          = s.sys.mem (.slot xram_chip.id i) := Function.update_of_ne hne _ _
      exact hstore.trans (hs.xram i hi)
  · rw [if_neg hon, if_neg hon]
    refine ⟨hs.arrived, rfl, hs.window, hs.above, fun i hi => ?_, fun i hi => ?_, hs.decoded⟩
    · have hne : DataPtr.slot eram_chip.id i ≠ .slot xram_chip.id addr.toNat := by
        simp only [Ne, DataPtr.slot.injEq, hids, false_and, not_false_iff]
      have hstore : Function.update s.sys.mem (.slot xram_chip.id addr.toNat) (val &&& 0xff) (.slot eram_chip.id i)
          = s.sys.mem (.slot eram_chip.id i) := Function.update_of_ne hne _ _
      exact hstore.trans (hs.eram i hi)
    · show Function.update s.sys.mem _ _ _ = Function.update b.xram addr.toNat _ i
      by_cases hia : i = addr.toNat
      · rw [hia, Function.update_self, Function.update_self]
      · have hne : DataPtr.slot xram_chip.id i ≠ .slot xram_chip.id addr.toNat := by
          simp only [Ne, DataPtr.slot.injEq, true_and]
          omega
        rw [Function.update_of_ne hne, Function.update_of_ne hia]
        exact hs.xram i hi

theorem step_invariant (h : Invariant s.xram) (e : Event) : Invariant (step H m s e).xram := by
  cases e with
  | auxr val => exact h.writeAuxr val
  | read addr =>
    rw [step]
    split
    · exact h
    · exact h
  | write addr val =>
    rw [step]
    split
    · exact h
    · exact h

/-- An event keeps the memories as they should be exactly if it comes to its cell. -/
theorem step_switched_iff (h : Invariant s.xram) (hs : Switched b s) (e : Event) :
    Switched (b.step e) (step H m s e) ↔ e.Arrives m := by
  cases e with
  | auxr val => exact iff_of_true (auxr_switched h hs val) trivial
  | read addr =>
    refine ⟨fun hafter => ?_, read_switched h hs⟩
    by_contra hne
    have hgone : ¬ m.readTarget addr.toNat = some .cell := hne
    have hastray : (step H m s (.read addr)).astray = true := by
      rw [step, h.startAddress, Int.sub_zero, if_neg hgone]
    rw [hafter.arrived] at hastray
    cases hastray
  | write addr val =>
    refine ⟨fun hafter => ?_, write_switched h hs⟩
    by_contra hne
    have hgone : ¬ m.writeTarget addr.toNat = some .cell := hne
    have hastray : (step H m s (.write addr val)).astray = true := by
      rw [step, h.startAddress, Int.sub_zero, if_neg hgone]
    rw [hafter.arrived] at hastray
    cases hastray

end Step

/-! ## All sequences of events -/

theorem start_switched (sys : Sys DataPtr W) : Switched (Banks.start sys) (start sys : St Hw W) := by
  have hwell : WellDecoded (new 0 0x10000 : AddressSpace Hw).freshDecoder (new 0 0x10000 : AddressSpace Hw) :=
    wellDecoded_new 0 0x10000
  have hchecks : (new 0 0x10000 : AddressSpace Hw).checks (decoderTo xram_chip 0xffff) = some xram_chip := by
    refine (checks_eq_some_iff _ _).mpr ⟨rfl, rfl, rfl, ?_⟩
    simp [decoderTo, xram_chip, AddressSpace.new]
  have hsize : (0xffff : Int) < xram_chip.size := by simp [xram_chip]
  have hbacked {a : Int} (h0 : 0 ≤ a) (hend : a ≤ 0xffff) :
      (make_memories : AddressSpace Hw).BackedBy a xram_chip a :=
    addActivated_backedBy hwell hchecks hsize h0 hend
  refine ⟨rfl, rfl, fun a h0 hend => ?_, fun a h0 hend => ?_, fun _ _ => rfl, fun _ _ => rfl,
    fun a => invariant_make_memories.existsUnique⟩
  · have hle : a ≤ 0xffff := by omega
    exact hbacked h0 hle
  · have hle : 0 ≤ a := by omega
    exact hbacked hle hend

/-- External memory works through all sequences of switches and accesses exactly if each access comes to its
cell. -/
theorem switched_iff (H : Hardware Int DataPtr Hw W) (m : Members) (sys : Sys DataPtr W) (es : List Event) :
    (∀ p, p <+: es → Switched (p.foldl Banks.step (Banks.start sys)) (p.foldl (step H m) (start sys))) ↔
      ∀ e ∈ es, e.Arrives m := by
  have hinv : Invariant (start sys : St Hw W).xram := invariant_make_memories
  have hagree := @agree_on_prefixes_iff Event (St Hw W) Banks Banks.step (step H m) Switched
    (fun s => Invariant s.xram) (fun e _ => e.Arrives m) (fun s e h => step_invariant h e)
    (fun b s e h hs => step_switched_iff h hs e) (Banks.start sys) (start sys) hinv (start_switched sys) es
  rw [hagree]
  constructor
  · intro h e he
    obtain ⟨p, q, rfl⟩ := List.append_of_mem he
    exact h p e ⟨q, by simp⟩
  · intro h p e hp
    exact h e (hp.subset (List.mem_append_right p List.mem_cons_self))

/-- The members of the space lead to no object. -/
theorem not_switched_unassigned : ¬ ∀ (H : Hardware Int DataPtr Unit Unit) (m : Members) (sys : Sys DataPtr Unit)
    (es : List Event), Switched (es.foldl Banks.step (Banks.start sys)) (es.foldl (step H m) (start sys)) := by
  intro h
  let H : Hardware Int DataPtr Unit Unit :=
    { cathegory := fun _ => .dummy, read := fun _ _ s => (0, s, []), write := fun _ _ v s => (v, s, []) }
  let m : Members := { asname := 0, rom := none, xram := none, sram := none }
  let sys : Sys DataPtr Unit := { mem := fun _ => 0, hw := (), events := [] }
  have hswitched := h H m sys [.read 0]
  have hastray : (step H m (start sys) (.read 0)).astray = true := by
    have hnone (idx : Int) : m.readTarget idx ≠ some .cell := nofun
    rw [step, if_neg (hnone _)]
  have harrived : (step H m (start sys) (.read 0)).astray = false := hswitched.arrived
  rw [hastray] at harrived
  cases harrived

end Ucsim.S51.Uc51r
