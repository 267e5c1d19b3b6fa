import Ucsim.S51.Exec
import Ucsim.S51.Movx

/-!
# What instructions read

Fetching code and reading registers of the core changes nothing but the list of events and the program
counter. So the operands of an instruction are functions of the memory and hardware state it starts in.
-/

namespace Ucsim.S51

open Logic Program

variable {Dev V : Type} {D : Devices Dev V}

/-- The memory system is at this memory and hardware state. -/
def AtMem (st : St V) (s : MemState V) : Prop := s.sys.toStore = st

/-- The controller is at this memory and hardware state and program counter. -/
def At (st : St V) (pc : Int) (u : Uc V) : Prop := u.mem.sys.toStore = st ∧ u.PC = pc

/-- At the state `st` the program returns `a` and changes neither memory nor hardware. -/
def Reads {α : Type} (x : MemProg V α) (st : St V) (a : α) : Prop :=
  Triple (AtMem st) x fun b s => b = a ∧ AtMem st s

/-- The same for a program of the core, which stays at its program counter. -/
def ReadsAt {α : Type} (x : UcProg V α) (st : St V) (pc : Int) (a : α) : Prop :=
  Triple (At st pc) x fun b u => b = a ∧ At st pc u

namespace Reads

variable {α β : Type} {x : MemProg V α} {st : St V} {a : α} {b : β}

theorem pure (a : α) (st : St V) : Reads (pure a) st a := Triple.pure fun _ hs => ⟨rfl, hs⟩

/-- Go on with the value read. -/
theorem bind_triple {f : α → MemProg V β} {Q : β → MemState V → Prop} (hx : Reads x st a)
    (hf : Triple (AtMem st) (f a) Q) : Triple (AtMem st) (x >>= f) Q :=
  Triple.bind hx fun a' s c t hs hrun => by
    obtain ⟨rfl, hs⟩ := hs
    exact hf s c t hs hrun

theorem bind {f : α → MemProg V β} (hx : Reads x st a) (hf : Reads (f a) st b) :
    Reads (x >>= f) st b := hx.bind_triple hf

theorem ite {c : Prop} [Decidable c] {y : MemProg V α} (hx : c → Reads x st a)
    (hy : ¬ c → Reads y st a) : Reads (if c then x else y) st a := Triple.ite hx hy

/-- The program inside the core. -/
theorem core (hx : Reads x st a) (pc : Int) : ReadsAt (x : UcProg V α) st pc a := by
  intro u b v hu hrun
  obtain ⟨s, hs, rfl⟩ := run_zoom_ok.mp hrun
  obtain ⟨rfl, hst⟩ := hx _ _ _ hu.1 hs
  exact ⟨rfl, hst, hu.2⟩

end Reads

namespace ReadsAt

variable {α β : Type} {x : UcProg V α} {st : St V} {pc : Int} {a : α} {b : β}

/-- Go on with the value read. -/
theorem bind_triple {f : α → UcProg V β} {Q : β → Uc V → Prop} (hx : ReadsAt x st pc a)
    (hf : Triple (At st pc) (f a) Q) : Triple (At st pc) (x >>= f) Q :=
  Triple.bind hx fun a' s c t hs hrun => by
    obtain ⟨rfl, hs⟩ := hs
    exact hf s c t hs hrun

theorem bind {f : α → UcProg V β} (hx : ReadsAt x st pc a) (hf : ReadsAt (f a) st pc b) :
    ReadsAt (x >>= f) st pc b := hx.bind_triple hf

end ReadsAt

/-- A byte is the `uchar` that it is cut to. -/
theorem tmem_uchar {v : TMem} (h : v.toNat < 0x100) : tmem (uchar v) = v := by
  apply BitVec.eq_of_toNat_eq
  rw [BitVec.toNat_setWidth, BitVec.toNat_setWidth, Nat.mod_eq_of_lt h]
  exact Nat.mod_eq_of_lt v.isLt

/-! ## Cells whose callbacks do nothing -/

/-- The callbacks of a read of the cell do nothing. -/
def Devices.SilentAt (D : Devices Dev V) (c : Site) : Prop :=
  ∀ hw ∈ D.hws c, ∀ st : St V, D.hardware.read hw c st = (st.mem c, st, [])

theorem Devices.silentAt_of_nil {c : Site} (h : D.registered c = []) : D.SilentAt c := by
  intro hw hhw st
  rcases mem_hws.mp hhw with ⟨d, hd, rfl⟩ | ⟨-, rfl⟩ | ⟨-, rfl⟩
  · rw [h] at hd
    exact absurd hd List.not_mem_nil
  · rfl
  · rfl

theorem Devices.silentAt_core {r : Int} (h : r ∈ coreRegisters) : D.SilentAt (.sfr r) :=
  silentAt_of_nil (D.registered_core r h)

theorem Devices.silentAt_code {sp : Space} {idx : Int} (h : sp.isCode) : D.SilentAt (.cell sp idx) :=
  silentAt_of_nil (D.registered_code sp idx h)

theorem Devices.silentAt_fmap : D.SilentAt fmap := by
  intro hw hhw st
  rcases mem_hws.mp hhw with ⟨d, hd, rfl⟩ | ⟨-, rfl⟩ | ⟨-, rfl⟩
  · exact D.read_fmap d hd st
  · rfl
  · rfl

/-- A cell whose callbacks do nothing reads as its byte. -/
theorem Site.read_reads {c : Site} (h : D.SilentAt c) (st : St V) : Reads (c.read D) st (st.mem c) := by
  intro s a t hs hrun
  have hkeeps := Site.read_keeps (D := D) (J := fun st' => st' = st) (c := c)
    (fun hw hhw st' hst => by rw [h hw hhw]; exact hst) s a t hs hrun
  obtain ⟨u, hrun', -⟩ := Site.read_yields (D := D) (c := c)
    (fun hw hhw st' => by rw [h hw hhw]; exact ⟨rfl, rfl⟩) s
  rw [hrun', Except.ok.injEq, Prod.mk.injEq] at hrun
  refine ⟨?_, hkeeps⟩
  rw [← hrun.1, ← hs]

theorem Site.readDummy_reads (sp : Space) (st : St V) :
    Reads ((Site.dummy sp).read D) st (st.mem (.dummy sp)) := by
  intro s a t hs hrun
  cases hrun
  exact ⟨by rw [← hs]; rfl, hs⟩

theorem Site.get_reads (c : Site) (st : St V) : Reads (c.get D) st (st.mem c) := by
  intro s a t hs hrun
  rw [Site.get_run] at hrun
  cases hrun
  exact ⟨by rw [← hs], hs⟩

/-! ## Address spaces -/

/-- The cell that `get_cell` finds. -/
def Space.cellAt (sp : Space) (addr : Int) : Site := if sp.invalid addr then .dummy sp else sp.cells addr

theorem errInvAddr_reads (sp : Space) (addr : Int) (st : St V) : Reads (sp.errInvAddr addr) st () := by
  intro s a t hs hrun
  cases hrun
  exact ⟨rfl, hs⟩

theorem getCell_reads (sp : Space) (addr : Int) (st : St V) :
    Reads (sp.getCell addr) st (sp.cellAt addr) := by
  unfold Space.getCell Space.cellAt
  by_cases hinv : sp.invalid addr
  · rw [if_pos hinv, if_pos hinv]
    exact (errInvAddr_reads sp addr st).bind (Reads.pure _ st)
  · rw [if_neg hinv, if_neg hinv]
    exact Reads.pure _ st

theorem readCells_reads {sp : Space} {addr : Int} (h : D.SilentAt (sp.cells addr)) (st : St V) :
    Reads (sp.readCells D addr) st (st.mem (sp.cellAt addr)) := by
  unfold Space.readCells Space.cellAt
  by_cases hinv : sp.invalid addr
  · rw [if_pos hinv, if_pos hinv]
    exact (errInvAddr_reads sp addr st).bind (Site.readDummy_reads sp st)
  · rw [if_neg hinv, if_neg hinv]
    exact Site.read_reads h st

theorem Space.cellAt_of_valid {sp : Space} {addr : Int} (h : ¬ sp.invalid addr) :
    sp.cellAt addr = sp.cells addr := if_neg h

/-- A register of the core reads as its byte. -/
theorem sfrRead_reads {r : Int} (hr : r ∈ coreRegisters) (st : St V) :
    Reads (Space.sfr.read D r) st (st.mem (.sfr r)) := by
  have hv : ∀ r ∈ coreRegisters, ¬ Space.sfr.invalid r := by decide
  have hread : Reads (Space.sfr.readCells D r) st _ := readCells_reads (Devices.silentAt_core hr) st
  rwa [Space.cellAt_of_valid (hv r hr)] at hread

theorem sfrGet_reads {r : Int} (hv : ¬ Space.sfr.invalid r) (st : St V) :
    Reads (Space.sfr.get D r) st (st.mem (.sfr r)) := by
  change Reads (Space.sfr.getCells D r) st _
  unfold Space.getCells
  rw [if_neg hv]
  exact Site.get_reads _ st

theorem accRead_reads (st : St V) : Reads (acc.read D) st (st.mem acc) :=
  Site.read_reads (Devices.silentAt_core (by decide)) st

/-! ## Code -/

/-- The code byte at an address. -/
def codeAt (st : St V) (pc : Int) : TMem := st.mem (romByte (st.mem mcon) (st.mem fmap) pc)

theorem readSram_reads {a : Int} (h0 : 0 ≤ a) (h1 : a < 0x2000) (st : St V) :
    Reads (Space.readSram D a) st (st.mem (sramByte a)) := by
  unfold Space.readSram sramByte
  by_cases ha : a ≥ 0x1F00
  · have hcells : Space.iram.cells (a - Space.iram.xramOffset) = .cell .iram (a - 0x1F00) := by
      simp [Space.cells, Space.startAddress, Space.xramOffset]
    have hread : Reads (Space.iram.readCells D (a - Space.iram.xramOffset)) st _ :=
      readCells_reads (by rw [hcells]; exact Devices.silentAt_code rfl) st
    rw [Space.cellAt_of_valid (Space.iram_valid (by simp only [Space.xramOffset]; omega)
      (by simp only [Space.xramOffset]; omega)), hcells] at hread
    rwa [if_pos ha, if_pos ha]
  · have hcells : Space.sram.cells a = .cell .sram a := by simp [Space.cells, Space.startAddress]
    rw [if_neg ha, if_neg ha, hcells]
    exact Site.read_reads (Devices.silentAt_code rfl) st

/-- A bank switch reads the selected bank, or fails. -/
theorem readBank_reads {i : Int} (h0 : 0 ≤ i) (h1 : i < 0x8000) (k : Nat) (st : St V) :
    Reads (match Space.flashbank k with
      | some bank => bank.readCells D i
      | none => throw .invalidFmap) st (st.mem (.cell ((Space.flashbank k).getD .rom) i)) := by
  cases hk : Space.flashbank k with
  | none => exact Triple.throw
  | some bank =>
    obtain ⟨hcode, hsize, hstart⟩ := flashbank_code hk
    have hcells : bank.cells i = .cell bank i := by rw [Space.cells, hstart, Int.sub_zero]
    have hread : Reads (bank.readCells D i) st _ :=
      readCells_reads (by rw [hcells]; exact Devices.silentAt_code hcode) st
    rwa [Space.cellAt_of_valid (Space.not_invalid (by omega) (by omega)), hcells] at hread

theorem readRom_reads {pc : Int} (h0 : 0 ≤ pc) (st : St V) :
    Reads (Space.readRom D pc) st (codeAt st pc) := by
  have hmcon : Reads (Space.sfr.readCells D Reg.MCON) st (st.mem mcon) := sfrRead_reads (by decide) st
  have hfmap : Reads (Space.sfr.readCells D Reg.FMAP) st (st.mem fmap) := by
    have hread : Reads (Space.sfr.readCells D Reg.FMAP) st _ :=
      readCells_reads Devices.silentAt_fmap st
    rwa [Space.cellAt_of_valid (by decide)] at hread
  unfold Space.readRom codeAt romByte
  by_cases hlow : pc < 0x8000
  · rw [if_pos hlow, if_pos hlow]
    exact readBank_reads h0 hlow 0 st
  · rw [if_neg hlow, if_neg hlow]
    refine hmcon.bind ?_
    dsimp only
    by_cases hsram : st.mem mcon &&& 0x08 ≠ 0 ∧ pc % 0x8000 < 0x2000
    · rw [if_pos hsram, if_pos hsram]
      exact readSram_reads (by omega) hsram.2 st
    · rw [if_neg hsram, if_neg hsram]
      exact hfmap.bind (readBank_reads (by omega) (by omega) _ st)

/-- The next address. -/
abbrev incPC (pc : Int) : Int := Space.rom.incAddress pc

theorem incPC_nonneg {pc : Int} (h : 0 ≤ pc) : 0 ≤ incPC pc := Int.tmod_nonneg _ (by omega)

theorem incPC_lt (pc : Int) : incPC pc < 0x10000 := Int.tmod_lt_of_pos _ (by decide)

/-- Look at the state. -/
theorem get_bind {α : Type} {st : St V} {pc : Int} {f : Uc V → UcProg V α} {Q : α → Uc V → Prop}
    (hf : ∀ u, At st pc u → Triple (fun v => v = u) (f u) Q) : Triple (At st pc) (get >>= f) Q :=
  Triple.bind (Q := fun u v => v = u ∧ At st pc u) (Triple.get fun _ hu => ⟨rfl, hu⟩)
    fun u v a w hv hrun => hf u hv.2 v a w hv.1 hrun

/-- `PC= rom->inc_address(PC)`. -/
theorem nextPC_triple (st : St V) (pc : Int) (code : TMem) :
    Triple (At st pc) (do
      setPC (Space.rom.incAddress (← get).PC)
      return code : UcProg V TMem) fun a u => a = code ∧ At st (incPC pc) u := by
  refine get_bind fun u hu => ?_
  refine Triple.bind (Q := fun _ v => At st (incPC pc) v) (Triple.modifyGet fun v hv => ?_) fun _ =>
    Triple.pure fun v hv => ⟨rfl, hv⟩
  subst hv
  exact ⟨hu.1, by rw [← hu.2]⟩

/-- `fetch` reads the code byte at the program counter and goes on to the next address. -/
theorem fetch_triple {st : St V} {pc : Int} (h0 : 0 ≤ pc) :
    Triple (At st pc) (fetch D) fun a u => a = codeAt st pc ∧ At st (incPC pc) u := by
  unfold fetch
  refine get_bind fun u hu => ?_
  rintro v a w rfl hrun
  rw [hu.2] at hrun
  have hread : Triple (At st pc) ((Space.rom.read D pc : MemProg V TMem) >>= fun code => do
      setPC (Space.rom.incAddress (← get).PC)
      return code : UcProg V TMem) fun a u => a = codeAt st pc ∧ At st (incPC pc) u :=
    ((readRom_reads h0 st).core pc).bind_triple (nextPC_triple st pc _)
  exact hread v a w hu hrun

/-- Go on after a fetch. -/
theorem fetch_bind {α : Type} {st : St V} {pc : Int} (h0 : 0 ≤ pc) {f : TMem → UcProg V α}
    {Q : α → Uc V → Prop} (hf : Triple (At st (incPC pc)) (f (codeAt st pc)) Q) :
    Triple (At st pc) (fetch D >>= f) Q :=
  Triple.bind (fetch_triple h0) fun a' s c t hs hrun => by
    obtain ⟨rfl, hs⟩ := hs
    exact hf s c t hs hrun

/-! ## Operands -/

theorem tick_reads (n : Int) (st : St V) (pc : Int) : ReadsAt (tick n) st pc () :=
  Triple.modifyGet fun _ hu => ⟨rfl, hu⟩

/-- The cell of a direct address. -/
def directSite (addr : TMem) : Site :=
  if (addr.toNat : Int) < 0x80 then .cell .iram addr.toNat else Space.sfr.cellAt addr.toNat

theorem iram_cellAt {a : Int} (h0 : 0 ≤ a) (h1 : a < 0x100) : Space.iram.cellAt a = .cell .iram a := by
  rw [Space.cellAt_of_valid (Space.iram_valid h0 h1), Space.cells]
  simp [Space.startAddress]

theorem getDirect_reads (addr : TMem) (st : St V) (pc : Int) :
    ReadsAt (getDirect addr) st pc (directSite addr) := by
  unfold getDirect directSite
  by_cases h : (addr.toNat : Int) < 0x80
  · rw [if_pos h, if_pos (by exact h), ← iram_cellAt (by omega) (by omega)]
    exact (getCell_reads .iram addr.toNat st).core pc
  · rw [if_neg h, if_neg (by exact h)]
    exact (getCell_reads .sfr addr.toNat st).core pc

theorem getReg_reads (n : UChar) (st : St V) (pc : Int) :
    ReadsAt (getReg D n) st pc (regSite st.mem n) := by
  unfold getReg
  have hlt := regIndex_lt (st.mem psw) n
  rw [regSite, ← iram_cellAt (by omega) (by omega)]
  exact ((Site.get_reads psw st).core pc).bind ((getCell_reads .iram _ st).core pc)

/-- The cell that a register points to. -/
def indirectSite (mem : Site → TMem) (code : UChar) : Site :=
  Space.iram.cellAt (mem (regSite mem (code &&& 0x01))).toNat

theorem getIndirect_reads (code : UChar) (st : St V) (pc : Int) :
    ReadsAt (getIndirect D code) st pc (indirectSite st.mem code) := by
  unfold getIndirect indirectSite
  refine (getReg_reads (code &&& 0x01) st pc).bind ?_
  refine ((Site.read_reads (Devices.silentAt_code rfl) st).core pc).bind ?_
  exact (getCell_reads .iram _ st).core pc

end Ucsim.S51
