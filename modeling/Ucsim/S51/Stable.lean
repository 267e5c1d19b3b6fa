import Ucsim.S51.Exec
import Ucsim.S51.Cells

/-!
# What all instructions keep

A property of the memory system and one of the program counter and the interrupt levels. Instance
resolution proves that an instruction keeps them, from the operations on cells and the uses of the
program counter that the instruction consists of.
-/

namespace Ucsim.S51

open Logic Program

variable {Dev V : Type} {D : Devices Dev V}

/-- The bytes, the hardware and the events satisfy `K`. -/
def HoldsMem (K : Sys Site (HwState V) → Prop) (s : MemState V) : Prop := K s.sys

/-- The program counter and the levels satisfy `P`, the memory system `K`. -/
def Holds (P : Int → List ItLevel → Prop) (K : Sys Site (HwState V) → Prop) (u : Uc V) : Prop :=
  P u.PC u.itLevels ∧ K u.mem.sys

/-! ## Properties of the memory system -/

/-- The operations on cells that keep `K`, with the parity flag in view: only single flags of `PSW` are
written, and only the operators know when the accumulator changes. -/
class StableBytes (D : Devices Dev V) (K : Sys Site (HwState V) → Prop) : Prop where
  read : ∀ c, Keeps (HoldsMem K) (Site.read D c)
  readSkip : ∀ c k, Keeps (HoldsMem K) (Site.readSkip D c k)
  write : ∀ c v, c ≠ psw → Keeps (HoldsMem K) (Site.write D c v)
  add : ∀ c w, c ≠ psw → c ≠ acc → Keeps (HoldsMem K) (Site.add D c w)
  setBit1 : ∀ c bits, c ≠ acc → (c = psw → bits &&& bmP = 0) →
    Keeps (HoldsMem K) (Site.setBit1 D c bits)
  setBit0 : ∀ c bits, c ≠ acc → (c = psw → bits &&& bmP = 0) →
    Keeps (HoldsMem K) (Site.setBit0 D c bits)

/-- The flags that instructions raise and lower keep `K`. -/
class StableFlags (K : Sys Site (HwState V) → Prop) : Prop where
  mov : ∀ b s, K s → K { s with hw := { s.hw with movInstruction := b } }
  reti : ∀ s, K s → K { s with hw := { s.hw with wasReti := true } }

/-- `K` is a property of the bytes alone. -/
class OfBytes (K : Sys Site (HwState V) → Prop) : Prop where
  of_mem : ∀ s t, t.mem = s.mem → K s → K t

instance (K : Sys Site (HwState V) → Prop) [h : OfBytes K] : StableFlags K :=
  ⟨fun _ s => h.of_mem s _ rfl, fun s => h.of_mem s _ rfl⟩

/-- All operations on cells keep `K`. -/
class StableAllBytes (D : Devices Dev V) (K : Sys Site (HwState V) → Prop) : Prop extends
    StableBytes D K where
  writeAll : ∀ c v, Keeps (HoldsMem K) (Site.write D c v)
  setAll : ∀ c v, Keeps (HoldsMem K) (Site.set D c v)

/-- The cell is not that of `PSW`. -/
class NotPsw (c : Site) : Prop where
  ne : c ≠ psw

/-- A cell of `iram`, or its dummy cell. -/
def IramCell := { c : Site // (∃ i, c = .cell .iram i) ∨ c = .dummy .iram }

instance : NotPsw acc := ⟨by decide⟩
instance (c : IramCell) : NotPsw c.val := ⟨by
  obtain ⟨c, ⟨i, rfl⟩ | rfl⟩ := c <;> simp [psw, Site.sfr]⟩
instance (sp : Space) : NotPsw (.dummy sp) := ⟨by simp [psw, Site.sfr]⟩
instance : NotPsw (Space.sfr.cells Reg.ACC) := ⟨by decide⟩
instance : NotPsw (Space.sfr.cells Reg.B) := ⟨by decide⟩
instance : NotPsw (Space.sfr.cells Reg.SP) := ⟨by decide⟩
instance : NotPsw (Space.sfr.cells Reg.DPL) := ⟨by decide⟩
instance : NotPsw (Space.sfr.cells Reg.DPH) := ⟨by decide⟩

/-- The cell is neither that of `PSW` nor the accumulator. -/
class NotFlags (c : Site) : Prop where
  ne_psw : c ≠ psw
  ne_acc : c ≠ acc

instance (c : IramCell) : NotFlags c.val where
  ne_psw := NotPsw.ne
  ne_acc := by obtain ⟨c, ⟨i, rfl⟩ | rfl⟩ := c <;> simp [acc, Site.sfr]
instance : NotFlags (Space.sfr.cells Reg.PCON) := ⟨by decide, by decide⟩
instance : NotFlags (Site.sfr Reg.TCON) := ⟨by decide, by decide⟩

/-- The mask leaves the parity flag out. -/
class FlagMask (mask : TMem) : Prop where
  and_bmP : mask &&& bmP = 0

instance : FlagMask bmCY := ⟨by decide⟩
instance : FlagMask bmOV := ⟨by decide⟩
instance : FlagMask bmAC := ⟨by decide⟩

section Cells

variable {K : Sys Site (HwState V) → Prop}

/-- What leaves the memory system alone keeps every property of it. -/
theorem kept_modifyGet {α : Type} {f : MemState V → α × MemState V}
    (h : ∀ s, (f s).2.sys = s.sys) : Kept (HoldsMem K) (modifyGet f : MemProg V α) :=
  ⟨Keeps.modifyGet fun s hs => by rw [HoldsMem, h]; exact hs⟩

instance kept_cellGet (c : Site) : Kept (HoldsMem K) (c.get D) := kept_modifyGet fun _ => rfl

instance kept_errInvAddr (sp : Space) (addr : Int) :
    Kept (HoldsMem K) (sp.errInvAddr addr : MemProg V Unit) := kept_modifyGet fun _ => rfl

instance kept_getCell (sp : Space) (addr : Int) :
    Kept (HoldsMem K) (sp.getCell addr : MemProg V Site) := by
  unfold Space.getCell
  infer_instance

variable [h : StableBytes D K]

instance kept_cellRead (c : Site) : Kept (HoldsMem K) (c.read D) := ⟨h.read c⟩

instance kept_cellReadSkip (c : Site) (skip : HwCath) : Kept (HoldsMem K) (c.readSkip D skip) :=
  ⟨h.readSkip c skip⟩

instance kept_cellWrite (c : Site) (v : TMem) [hc : NotPsw c] : Kept (HoldsMem K) (c.write D v) :=
  ⟨h.write c v hc.ne⟩

instance kept_cellWadd (c : Site) (what : Int) [NotPsw c] : Kept (HoldsMem K) (c.wadd D what) := by
  unfold Site.wadd
  infer_instance

instance kept_readCells (sp : Space) (addr : Int) : Kept (HoldsMem K) (sp.readCells D addr) := by
  unfold Space.readCells
  infer_instance

instance kept_readSram (addr : Int) : Kept (HoldsMem K) (Space.readSram D addr) := by
  unfold Space.readSram
  infer_instance

instance kept_readXram (addr : Int) : Kept (HoldsMem K) (Space.readXram D addr) := by
  have hbank : ∀ d : TMem, Kept (HoldsMem K) (match Space.flashbank d.toNat with
      | some bank => bank.readCells D (addr % 0x8000)
      | none => (Space.xram.cells (addr % 0x8000)).read D) := by
    intro d
    split <;> infer_instance
  unfold Space.readXram
  infer_instance

instance kept_readRom (addr : Int) : Kept (HoldsMem K) (Space.readRom D addr) := by
  have hbank : ∀ d : TMem, Kept (HoldsMem K) (match Space.flashbank d.toNat with
      | some bank => bank.readCells D (addr % 0x8000)
      | none => throw .invalidFmap) := by
    intro d
    split <;> infer_instance
  unfold Space.readRom
  infer_instance

instance kept_read (sp : Space) (addr : Int) : Kept (HoldsMem K) (sp.read D addr) := by
  unfold Space.read
  split <;> infer_instance

instance kept_readSkip (sp : Space) (addr : Int) (skip : HwCath) :
    Kept (HoldsMem K) (sp.readSkip D addr skip) := by
  unfold Space.readSkip
  infer_instance

omit h in
instance kept_sfrGet (addr : Int) : Kept (HoldsMem K) (Space.sfr.get D addr) := by
  change Kept _ (Space.sfr.getCells D addr)
  unfold Space.getCells
  infer_instance

instance kept_sfrWrite (addr : Int) (v : TMem) [NotPsw (Space.sfr.cells addr)] :
    Kept (HoldsMem K) (Space.sfr.write D addr v) := by
  change Kept _ (Space.sfr.writeCells D addr v)
  unfold Space.writeCells
  infer_instance

instance kept_wadd (sp : Space) (addr what : Int) [NotPsw (sp.cells addr)] :
    Kept (HoldsMem K) (sp.wadd D addr what) := by
  unfold Space.wadd
  infer_instance

instance kept_add (c : Site) (what : Int) [hc : NotFlags c] : Kept (HoldsMem K) (c.add D what) :=
  ⟨h.add c what hc.ne_psw hc.ne_acc⟩

instance kept_cellSetBit1 (c : Site) (bits : TMem) [hc : NotFlags c] :
    Kept (HoldsMem K) (c.setBit1 D bits) :=
  ⟨h.setBit1 c bits hc.ne_acc fun hpsw => absurd hpsw hc.ne_psw⟩

instance kept_setBit0 (sp : Space) (addr : Int) (bits : TMem) [hc : NotFlags (sp.cells addr)] :
    Kept (HoldsMem K) (sp.setBit0 D addr bits) := by
  have hcell : Kept (HoldsMem K) ((sp.cells addr).setBit0 D bits) :=
    ⟨h.setBit0 _ bits hc.ne_acc fun hpsw => absurd hpsw hc.ne_psw⟩
  unfold Space.setBit0
  infer_instance

/-- Setting or clearing a flag of `PSW` other than the parity. -/
instance kept_setFlag (newbit : Bool) (mask : TMem) [hm : FlagMask mask] :
    Kept (HoldsMem K) (sfrSetBit D newbit Reg.PSW mask) := by
  have hpsw : Space.sfr.cells Reg.PSW ≠ acc := by decide
  have h1 : Kept (HoldsMem K) ((Space.sfr.cells Reg.PSW).setBit1 D mask) :=
    ⟨h.setBit1 _ mask hpsw fun _ => hm.and_bmP⟩
  have h0 : Kept (HoldsMem K) ((Space.sfr.cells Reg.PSW).setBit0 D mask) :=
    ⟨h.setBit0 _ mask hpsw fun _ => hm.and_bmP⟩
  unfold sfrSetBit Space.setBit1 Space.setBit0
  infer_instance

instance kept_sfrSetC (newC : Bool) : Kept (HoldsMem K) (sfrSetC D newC) :=
  kept_setFlag newC bmCY

omit h in
instance kept_sfrGetC : Kept (HoldsMem K) (sfrGetC D) := by
  unfold sfrGetC
  infer_instance

end Cells

section AllCells

variable {K : Sys Site (HwState V) → Prop} [h : StableAllBytes D K]

instance kept_cellWriteAll (c : Site) (v : TMem) : Kept (HoldsMem K) (c.write D v) := ⟨h.writeAll c v⟩

instance kept_cellSet (c : Site) (v : TMem) : Kept (HoldsMem K) (c.set D v) := ⟨h.setAll c v⟩

instance kept_writeCells (sp : Space) (addr : Int) (v : TMem) :
    Kept (HoldsMem K) (sp.writeCells D addr v) := by
  unfold Space.writeCells
  infer_instance

instance kept_writeSram (addr : Int) (v : TMem) : Kept (HoldsMem K) (Space.writeSram D addr v) := by
  unfold Space.writeSram
  infer_instance

instance kept_writeXram (addr : Int) (v : TMem) : Kept (HoldsMem K) (Space.writeXram D addr v) := by
  have hbank : ∀ d : TMem, Kept (HoldsMem K) (match Space.flashbank d.toNat with
      | some bank => bank.writeCells D (addr % 0x8000) v
      | none => (Space.xram.cells (addr % 0x8000)).write D v) := by
    intro d
    split <;> infer_instance
  unfold Space.writeXram
  infer_instance

instance kept_write (sp : Space) (addr : Int) (v : TMem) :
    Kept (HoldsMem K) (sp.write D addr v) := by
  unfold Space.write
  split <;> infer_instance

end AllCells

/-! ## The core -/

theorem onMem_bind {α β : Type} (x : MemProg V α) (f : α → MemProg V β) :
    onMem (x >>= f) = onMem x >>= fun a => onMem (f a) := by
  unfold onMem
  refine zoom_bind (fun _ _ => ?_) (fun _ _ _ => ?_) x f <;> rfl

theorem onMem_pure {α : Type} (a : α) : onMem (pure a : MemProg V α) = pure a := by
  unfold onMem
  exact zoom_pure (fun _ => by rfl) a

/-- Fetching keeps the property of the program counter. -/
class Fetches (P : Int → List ItLevel → Prop) : Prop where
  inc : ∀ pc levels, P pc levels → P (Space.rom.incAddress pc) levels

/-- A jump inside the code space keeps it. -/
class Calls (P : Int → List ItLevel → Prop) : Prop where
  call : ∀ pc pc' levels, 0 ≤ pc' → pc' < 0x10000 → P pc levels → P pc' levels

/-- Every jump to an address that is not negative keeps it. -/
class Jumps (P : Int → List ItLevel → Prop) : Prop where
  jump : ∀ pc pc' levels, 0 ≤ pc' → P pc levels → P pc' levels

instance (P : Int → List ItLevel → Prop) [h : Jumps P] : Calls P :=
  ⟨fun pc pc' levels h0 _ => h.jump pc pc' levels h0⟩

/-- Interrupt service keeps it: a level above the top is pushed, and `RETI` pops one. -/
class Serves (P : Int → List ItLevel → Prop) : Prop where
  push : ∀ pc new il below, P pc (il :: below) → il.level < 0 ∨ il.level < new.level →
    new.level = 0 ∨ new.level = 1 → P pc (new :: il :: below)
  pop : ∀ pc levels, P pc levels → P pc (retiLevels levels)

section Core

variable {P : Int → List ItLevel → Prop} {K : Sys Site (HwState V) → Prop}

instance kept_onMem {α : Type} {x : MemProg V α} [hx : Kept (HoldsMem K) x] :
    Kept (Holds P K) (x : UcProg V α) := by
  constructor
  intro u a v hu hrun
  obtain ⟨s, hs, rfl⟩ := run_zoom_ok.mp hrun
  exact ⟨hu.1, hx.keeps _ _ _ hu.2 hs⟩

instance kept_onMem' {α : Type} {x : MemProg V α} [Kept (HoldsMem K) x] : Kept (Holds P K) (onMem x) :=
  kept_onMem (x := x)

/-- What leaves the program counter, the levels and the memory system alone keeps the properties. -/
theorem kept_core {α : Type} {f : Uc V → α × Uc V}
    (h : ∀ u, (f u).2.PC = u.PC ∧ (f u).2.itLevels = u.itLevels ∧ (f u).2.mem.sys = u.mem.sys) : Kept (Holds P K) (modifyGet f : UcProg V α) := by
  constructor
  refine Keeps.modifyGet fun u hu => ?_
  obtain ⟨hPC, hlevels, hmem⟩ := h u
  rw [Holds, hPC, hlevels, hmem]
  exact hu

instance kept_tick (cycles : Int) : Kept (Holds P K) (tick cycles : UcProg V Unit) :=
  kept_core fun _ => ⟨rfl, rfl, rfl⟩

instance kept_onHw [h : OfBytes K] (f : HwState V → HwState V) : Kept (Holds P K) (onHw f) :=
  ⟨Keeps.modifyGet fun u hu => ⟨hu.1, h.of_mem u.mem.sys _ rfl hu.2⟩⟩

instance kept_setMovInstruction [h : StableFlags K] (b : Bool) :
    Kept (Holds P K) (setMovInstruction b : UcProg V Unit) :=
  ⟨Keeps.modifyGet fun _ hu => ⟨hu.1, h.mov b _ hu.2⟩⟩

instance kept_setWasReti [h : StableFlags K] :
    Kept (Holds P K) (onHw fun h => { h with wasReti := true } : UcProg V Unit) :=
  ⟨Keeps.modifyGet fun _ hu => ⟨hu.1, h.reti _ hu.2⟩⟩

instance kept_error (e : UcError) : Kept (Holds P K) (error e : UcProg V Unit) :=
  kept_core fun _ => ⟨rfl, rfl, rfl⟩

instance kept_simStop : Kept (Holds P K) (simStop : UcProg V Unit) :=
  kept_core fun _ => ⟨rfl, rfl, rfl⟩

instance kept_stackWrite (op : StackOp) : Kept (Holds P K) (stackWrite op : UcProg V Unit) := by
  have hpush : Kept (Holds P K) (modify fun u => { u with stackOps := op :: u.stackOps } :
      UcProg V Unit) := kept_core fun _ => ⟨rfl, rfl, rfl⟩
  unfold stackWrite
  infer_instance

theorem kept_setPC (addr : Int) (h : ∀ pc levels, P pc levels → P addr levels) :
    Kept (Holds P K) (setPC addr : UcProg V Unit) :=
  ⟨Keeps.modifyGet fun _ hu => ⟨h _ _ hu.1, hu.2⟩⟩

instance kept_stackRead (op : StackOp) : Kept (Holds P K) (stackRead op : UcProg V Unit) := by
  have hpop : Kept (Holds P K) (modify fun u =>
      { u with stackOps := u.stackOps.dropWhile (·.canRemoved op) } : UcProg V Unit) :=
    kept_core fun _ => ⟨rfl, rfl, rfl⟩
  have htop : ∀ ops : List StackOp, Kept (Holds P K) (match ops with
      | [] => pure ()
      | top :: _ =>
        if top.spAfter ≠ op.spAfter then
          error (.stackTrackerInconsistent (top.spAfter - op.spAfter).natAbs)
        else pure () : UcProg V Unit) := by
    intro ops
    split <;> infer_instance
  unfold stackRead
  refine @Kept.ite _ _ _ _ _ _ _ _ inferInstance (@Kept.bind _ _ _ _ _ _ _ inferInstance fun u => ?_)
  split <;> infer_instance

end Core

section Iram

variable {α : Type} {P : Int → List ItLevel → Prop} {K : Sys Site (HwState V) → Prop}

/-- `get_cell` of `iram` finds a cell of `iram`. -/
theorem iram_getCell (addr : Int) :
    Triple (Holds P K) (onMem (Space.iram.getCell addr) : UcProg V Site)
      fun c u => (∃ c' : IramCell, c = c'.val) ∧ Holds P K u := by
  have hcell : Triple (fun _ => True) (Space.iram.getCell addr : MemProg V Site)
      fun c _ => ∃ c' : IramCell, c = c'.val := by
    rw [Space.getCell]
    refine Triple.ite (fun _ => ?_) (fun _ => ?_)
    · exact Triple.bind (Q := fun _ _ => True) (Triple.modifyGet fun _ _ => trivial) fun _ =>
        Triple.pure fun _ _ => ⟨⟨_, Or.inr rfl⟩, rfl⟩
    · exact Triple.pure fun _ _ => ⟨⟨_, Or.inl ⟨_, rfl⟩⟩, rfl⟩
  intro u c v hu hrun
  have hkeeps : Kept (Holds P K) (onMem (Space.iram.getCell addr) : UcProg V Site) := inferInstance
  refine ⟨?_, hkeeps.keeps _ _ _ hu hrun⟩
  obtain ⟨m, hm, rfl⟩ := run_zoom_ok.mp hrun
  exact hcell _ _ _ trivial hm

/-- A program that goes on with a cell of `iram`. -/
instance kept_iramCell (addr : Int) {f : Site → UcProg V α}
    [hf : ∀ c : IramCell, Kept (Holds P K) (f c.val)] :
    Kept (Holds P K) (onMem (Space.iram.getCell addr) >>= f) := by
  refine ⟨Triple.bind (iram_getCell addr) fun c => ?_⟩
  rintro u a v ⟨⟨c', rfl⟩, hu⟩ hrun
  exact (hf c').keeps u a v hu hrun

end Iram

section Fetch

variable {α : Type} {P : Int → List ItLevel → Prop} {K : Sys Site (HwState V) → Prop}

/-- A register is a cell of `iram`. -/
instance kept_getReg (regnum : UChar) {f : Site → UcProg V α}
    [hf : ∀ c : IramCell, Kept (Holds P K) (f c.val)] : Kept (Holds P K) (getReg D regnum >>= f) := by
  simp only [getReg, bind_assoc]
  infer_instance

instance kept_regCell (regnum : UChar) : Kept (Holds P K) (getReg D regnum) := by
  unfold getReg
  infer_instance

instance kept_getDirect (addr : TMem) : Kept (Holds P K) (getDirect addr : UcProg V Site) := by
  unfold getDirect
  infer_instance

/-- `PC= rom->inc_address(PC)`, and what follows. -/
instance kept_incPC [hP : Fetches P] {f : Unit → UcProg V α} [hf : ∀ a, Kept (Holds P K) (f a)] :
    Kept (Holds P K) (do
      let u ← get
      setPC (Space.rom.incAddress u.PC) >>= f) := by
  constructor
  refine Triple.bind (Q := fun u v => u = v ∧ Holds P K v) (Triple.get fun u hu => ⟨rfl, hu⟩) fun u => ?_
  refine Triple.bind (Q := fun _ => Holds P K) (Triple.modifyGet fun v hv => ?_) fun a => (hf a).keeps
  obtain ⟨rfl, hu⟩ := hv
  exact ⟨hP.inc _ _ hu.1, hu.2⟩

/-- Counting a breakpoint. -/
instance kept_fetchBrkHit : Kept (Holds P K) (fetchBrkHit : UcProg V Bool) := by
  have hcount : ∀ l, Kept (Holds P K) (modify fun v => { v with fbrk := l } : UcProg V Unit) := fun l =>
    kept_core fun _ => ⟨rfl, rfl, rfl⟩
  have hdel : ∀ l a, Kept (Holds P K) (modify fun v =>
      { v with
        fbrk := l
        mem := { v.mem with fetchBrk := Function.update v.mem.fetchBrk a false } } : UcProg V Unit) :=
    fun l a => kept_core fun _ => ⟨rfl, rfl, rfl⟩
  unfold fetchBrkHit
  refine @Kept.bind _ _ _ _ _ _ _ inferInstance fun u => ?_
  refine @Kept.ite _ _ _ _ _ _ _ _ ?_ inferInstance
  split <;> infer_instance

variable [h : StableBytes D K]

/-- So is the cell that a register points to. -/
instance kept_getIndirect (code : UChar) {f : Site → UcProg V α}
    [hf : ∀ c : IramCell, Kept (Holds P K) (f c.val)] : Kept (Holds P K) (getIndirect D code >>= f) := by
  simp only [getIndirect, bind_assoc]
  infer_instance

instance kept_indirectCell (code : UChar) : Kept (Holds P K) (getIndirect D code) := by
  unfold getIndirect
  infer_instance

instance kept_fetch [Fetches P] : Kept (Holds P K) (fetch D) := by
  unfold fetch
  infer_instance

instance kept_fetchInst [Fetches P] : Kept (Holds P K) (fetchInst D) := by
  unfold fetchInst
  infer_instance

end Fetch

section Jumps

variable {P : Int → List ItLevel → Prop} {K : Sys Site (HwState V) → Prop}

theorem validateLoop_nonneg (n : Nat) {addr : Int} (h : -addr ≤ n) :
    0 ≤ Space.rom.validateLoop n addr := by
  induction n generalizing addr with
  | zero =>
    rw [Space.validateLoop]
    omega
  | succ n ih =>
    rw [Space.validateLoop]
    split
    · refine ih ?_
      simp only [Space.size]
      omega
    · next hlt =>
      simp only [Space.startAddress] at hlt
      omega

/-- `validate_address` returns no negative address. -/
theorem validateAddress_nonneg (addr : Int) : 0 ≤ Space.rom.validateAddress addr := by
  have hloop : 0 ≤ Space.rom.validateLoop (0 - addr).toNat addr := validateLoop_nonneg _ (by omega)
  unfold Space.validateAddress
  simp only [Space.startAddress, sub_zero, zero_add, add_zero]
  split
  · exact Int.tmod_nonneg _ hloop
  · exact hloop

instance kept_setPC_validate [hP : Jumps P] (addr : Int) :
    Kept (Holds P K) (setPC (Space.rom.validateAddress addr) : UcProg V Unit) :=
  kept_setPC _ fun _ _ => hP.jump _ _ _ (validateAddress_nonneg addr)

instance kept_setPC_tmem [hP : Jumps P] (h l : TMem) :
    Kept (Holds P K) (setPC (h.toNat * 256 + l.toNat) : UcProg V Unit) :=
  kept_setPC _ fun _ _ => hP.jump _ _ _ (by omega)

instance kept_setPC_uchar [hP : Calls P] (h l : UChar) :
    Kept (Holds P K) (setPC (h.toNat * 256 + l.toNat) : UcProg V Unit) :=
  kept_setPC _ fun _ _ => hP.call _ _ _ (by omega) (by omega)

instance kept_setPC_page [hP : Calls P] (PC : Int) (code l : UChar) :
    Kept (Holds P K) (setPC (pageAddress PC code l) : UcProg V Unit) :=
  kept_setPC _ fun _ _ => hP.call _ _ _ (Int.natCast_nonneg _) (Int.ofNat_lt.mpr (BitVec.isLt _))

instance kept_jumpRel [Jumps P] (jaddr : UChar) :
    Kept (Holds P K) (jumpRel jaddr : UcProg V Unit) := by
  unfold jumpRel
  infer_instance

/-- `RETI` pops a level. -/
instance kept_retiLevels [hP : Serves P] :
    Kept (Holds P K) (modify fun u => { u with itLevels := retiLevels u.itLevels } : UcProg V Unit) :=
  ⟨Keeps.modifyGet fun _ hu => ⟨hP.pop _ _ hu.1, hu.2⟩⟩

end Jumps

end Ucsim.S51
