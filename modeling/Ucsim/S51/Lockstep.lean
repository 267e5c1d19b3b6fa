import Ucsim.Logic.Lockstep
import Ucsim.S51.Ports
import Ucsim.S51.Stable

/-!
# Two boards in step

The same instruction on two boards, from related states of the memory system. Instance resolution proves that it ends
alike, from what the operations on cells do. The value that a write returns is not compared, as instructions use it
for registers of the core and cells of `iram` only.
-/

namespace Ucsim.S51

open Logic Program

variable {Dev V : Type} {D D' : Devices Dev V} {R : Sys Site (HwState V) → Sys Site (HwState V) → Prop}
  {Q : MemState V → MemState V → Prop} {T : Bool → Bool → Prop}

/-! ## Related states -/

/-- Change what the cells, the hardware and the list of events hold. -/
abbrev MemState.withSys (m : MemState V) (sys : Sys Site (HwState V)) : MemState V := { m with sys := sys }

/-- The same for the controller. -/
abbrev Uc.withSys (u : Uc V) (sys : Sys Site (HwState V)) : Uc V := { u with mem := u.mem.withSys sys }

/-- The memory systems are related, and nothing else differs. -/
def OnSys (R : Sys Site (HwState V) → Sys Site (HwState V) → Prop) (m m' : MemState V) : Prop :=
  ∃ sys, m' = m.withSys sys ∧ R m.sys sys

/-- The controllers differ in the memory systems only, which are related. -/
def OnMem (R : Sys Site (HwState V) → Sys Site (HwState V) → Prop) (u u' : Uc V) : Prop :=
  ∃ sys, u' = u.withSys sys ∧ R u.mem.sys sys

/-- The cell is no register of a port. -/
class NotPort (c : Site) : Prop where
  ne : ∀ i : Port, c ≠ i.cellP

instance : NotPort psw := ⟨core_ne_cellP (by decide)⟩
instance : NotPort acc := ⟨core_ne_cellP (by decide)⟩
instance : NotPort (Space.sfr.cells Reg.ACC) := ⟨core_ne_cellP (r := Reg.ACC) (by decide)⟩
instance : NotPort (Space.sfr.cells Reg.B) := ⟨core_ne_cellP (r := Reg.B) (by decide)⟩
instance : NotPort (Space.sfr.cells Reg.PSW) := ⟨core_ne_cellP (r := Reg.PSW) (by decide)⟩
instance : NotPort (Space.sfr.cells Reg.SP) := ⟨core_ne_cellP (r := Reg.SP) (by decide)⟩
instance : NotPort (Space.sfr.cells Reg.DPL) := ⟨core_ne_cellP (r := Reg.DPL) (by decide)⟩
instance : NotPort (Space.sfr.cells Reg.DPH) := ⟨core_ne_cellP (r := Reg.DPH) (by decide)⟩
instance (sp : Space) : NotPort (.dummy sp) := ⟨fun i => by simp [Port.cellP, Site.sfr]⟩
instance (c : IramCell) : NotPort c.val := ⟨fun i => by
  obtain ⟨c, ⟨j, rfl⟩ | rfl⟩ := c <;> simp [Port.cellP, Site.sfr]⟩

/-- The controllers differ in the memory and in whether the simulation goes on. Both are related. -/
def OnUc (Q : MemState V → MemState V → Prop) (T : Bool → Bool → Prop) (u u' : Uc V) : Prop :=
  ∃ m go, u' = { u with mem := m, simGo := go } ∧ Q u.mem m ∧ T u.simGo go

theorem onUc_onSys (u u' : Uc V) : OnUc (OnSys R) Eq u u' ↔ OnMem R u u' := by
  constructor
  · rintro ⟨_, _, rfl, ⟨sys, rfl, hR⟩, rfl⟩
    exact ⟨sys, rfl, hR⟩
  · rintro ⟨sys, rfl, hR⟩
    exact ⟨_, _, rfl, ⟨sys, rfl, hR⟩, rfl⟩

/-- Related memories hold the same bytes outside of the registers of ports, and stay related when such a byte, a flag
of the hardware, the list of errors or the source of random bytes changes in both. -/
class SameCells (Q : MemState V → MemState V → Prop) : Prop where
  mem : ∀ c m m', (∀ i : Port, c ≠ i.cellP) → Q m m' → m.sys.mem c = m'.sys.mem c
  store : ∀ c v m m', (∀ i : Port, c ≠ i.cellP) → Q m m' →
    Q (m.withSys (m.sys.store c v)) (m'.withSys (m'.sys.store c v))
  mov : ∀ b m m', Q m m' →
    Q (m.withSys { m.sys with hw := { m.sys.hw with movInstruction := b } })
      (m'.withSys { m'.sys with hw := { m'.sys.hw with movInstruction := b } })
  reti : ∀ b m m', Q m m' →
    Q (m.withSys { m.sys with hw := { m.sys.hw with wasReti := b } })
      (m'.withSys { m'.sys with hw := { m'.sys.hw with wasReti := b } })
  err : ∀ e m m', Q m m' → Q { m with errors := m.errors ++ [e] } { m' with errors := m'.errors ++ [e] }
  rand : ∀ m m', Q m m' → m.rand = m'.rand
  shift : ∀ m m', Q m m' →
    Q { m with rand := fun n => m.rand (n + 1) } { m' with rand := fun n => m'.rand (n + 1) }

/-- What is related in the cells and the hardware only. -/
theorem sameCells_onSys (hmem : ∀ c s s', (∀ i : Port, c ≠ i.cellP) → R s s' → s.mem c = s'.mem c)
    (hstore : ∀ c v s s', (∀ i : Port, c ≠ i.cellP) → R s s' → R (s.store c v) (s'.store c v))
    (hmov : ∀ b s s', R s s' →
      R { s with hw := { s.hw with movInstruction := b } } { s' with hw := { s'.hw with movInstruction := b } })
    (hreti : ∀ b s s', R s s' →
      R { s with hw := { s.hw with wasReti := b } } { s' with hw := { s'.hw with wasReti := b } }) :
    SameCells (OnSys R) where
  mem c m m' hc := by
    rintro ⟨sys, rfl, hR⟩
    exact hmem c _ _ hc hR
  store c v m m' hc := by
    rintro ⟨sys, rfl, hR⟩
    exact ⟨_, rfl, hstore c v _ _ hc hR⟩
  mov b m m' := by
    rintro ⟨sys, rfl, hR⟩
    exact ⟨_, rfl, hmov b _ _ hR⟩
  reti b m m' := by
    rintro ⟨sys, rfl, hR⟩
    exact ⟨_, rfl, hreti b _ _ hR⟩
  err e m m' := by
    rintro ⟨sys, rfl, hR⟩
    exact ⟨sys, rfl, hR⟩
  rand m m' := by
    rintro ⟨sys, rfl, hR⟩
    rfl
  shift m m' := by
    rintro ⟨sys, rfl, hR⟩
    exact ⟨sys, rfl, hR⟩

/-- Reads and writes of cells do the same on the two boards. The register of a port may return another value when it
is written. -/
class InStep (D D' : Devices Dev V) (Q : MemState V → MemState V → Prop) : Prop extends SameCells Q where
  read : ∀ c, Alike Q (Site.read D c) (Site.read D' c)
  write : ∀ c v, Alike Q (discard (Site.write D c v)) (discard (Site.write D' c v))
  writeSame : ∀ c v, (∀ i : Port, c ≠ i.cellP) → Alike Q (Site.write D c v) (Site.write D' c v)

/-- The registers of ports are no exception: a read that skips an element does the same on the two boards, and so does
every write. -/
class SamePorts (D D' : Devices Dev V) (Q : MemState V → MemState V → Prop) : Prop where
  readSkip : ∀ c k, Alike Q (Site.readSkip D c k) (Site.readSkip D' c k)
  write : ∀ c v, Alike Q (Site.write D c v) (Site.write D' c v)

/-! ## Operations on cells -/

section Cells

instance alike_errInvAddr (sp : Space) (addr : Int) [h : SameCells Q] :
    Alike Q (sp.errInvAddr addr : MemProg V Unit) (sp.errInvAddr addr) :=
  Alike.modifyGet (fun _ _ _ => rfl) fun m m' hQ => h.err _ m m' hQ

instance alike_getCell (sp : Space) (addr : Int) [SameCells Q] :
    Alike Q (sp.getCell addr : MemProg V Site) (sp.getCell addr) := by
  unfold Space.getCell
  infer_instance

section Bytes

variable [h : SameCells Q]

instance alike_cellGet (c : Site) [hc : NotPort c] : Alike Q (c.get D) (c.get D') := by
  constructor
  intro m m' hQ
  rw [Site.get_run, Site.get_run, h.mem c _ _ hc.ne hQ]
  exact .ok _ hQ

/-- What stores a value that depends on the cell only. -/
theorem alike_store {α : Type} (c : Site) [hc : NotPort c] (val : TMem → α) (f : TMem → TMem) :
    Alike Q (modifyGet fun m => (val (m.sys.mem c), m.withSys (m.sys.store c (f (m.sys.mem c)))) : MemProg V α)
      (modifyGet fun m => (val (m.sys.mem c), m.withSys (m.sys.store c (f (m.sys.mem c))))) := by
  refine Alike.modifyGet ?_ ?_
  · intro m m' hQ
    simp only [h.mem c _ _ hc.ne hQ]
  · intro m m' hQ
    simp only [h.mem c _ _ hc.ne hQ]
    exact h.store c _ _ _ hc.ne hQ

instance alike_setRandom (sp : Space) :
    Alike Q (Site.setRandom (.dummy sp) : MemProg V TMem) (Site.setRandom (.dummy sp)) := by
  refine Alike.modifyGet ?_ ?_
  · intro m m' hQ
    rw [h.rand _ _ hQ]
  · intro m m' hQ
    have hval : m'.rand 0 = m.rand 0 := by rw [h.rand _ _ hQ]
    dsimp only
    rw [hval]
    exact h.shift _ _ (h.store (.dummy sp) _ _ _ NotPort.ne hQ)

instance alike_cellSet (c : Site) (v : TMem) [NotPort c] : Alike Q (c.set D v) (c.set D' v) := by
  cases c with
  | cell sp idx => exact alike_store (.cell sp idx) (fun _ => v &&& 0xff) fun _ => v &&& 0xff
  | dummy sp => exact alike_setRandom sp

instance alike_cellAdd (c : Site) (what : Int) [NotPort c] : Alike Q (c.add D what) (c.add D' what) := by
  have hstore := alike_store (Q := Q) c (fun d => (d + BitVec.ofInt 16 what) &&& 0xff)
    fun d => (d + BitVec.ofInt 16 what) &&& 0xff
  cases c with
  | cell sp idx => exact hstore
  | dummy sp => exact hstore

instance alike_cellSetBit1 (c : Site) (bits : TMem) [NotPort c] :
    Alike Q (c.setBit1 D bits) (c.setBit1 D' bits) := by
  have hstore := alike_store (Q := Q) c (fun _ => ()) fun d => d ||| (bits &&& 0xff)
  cases c with
  | cell sp idx => exact hstore
  | dummy sp => exact hstore

instance alike_cellSetBit0 (c : Site) (bits : TMem) [NotPort c] :
    Alike Q (c.setBit0 D bits) (c.setBit0 D' bits) := by
  have hstore := alike_store (Q := Q) c (fun _ => ()) fun d => d &&& ~~~(bits &&& 0xff)
  cases c with
  | cell sp idx => exact hstore
  | dummy sp => exact hstore

instance alike_setFlag (newbit : Bool) (mask : TMem) :
    Alike Q (sfrSetBit D newbit Reg.PSW mask) (sfrSetBit D' newbit Reg.PSW mask) := by
  unfold sfrSetBit Space.setBit1 Space.setBit0
  infer_instance

instance alike_sfrSetC (newC : Bool) : Alike Q (sfrSetC D newC) (sfrSetC D' newC) := alike_setFlag newC bmCY

instance alike_sfrGet (addr : Int) [NotPort (Space.sfr.cells addr)] :
    Alike Q (Space.sfr.get D addr) (Space.sfr.get D' addr) := by
  change Alike _ (Space.sfr.getCells D addr) (Space.sfr.getCells D' addr)
  unfold Space.getCells
  infer_instance

end Bytes

variable [h : InStep D D' Q]

instance alike_cellRead (c : Site) : Alike Q (c.read D) (c.read D') := h.read c

instance alike_cellWrite (c : Site) (v : TMem) : Alike Q (discard (c.write D v)) (discard (c.write D' v)) :=
  h.write c v

instance alike_cellWriteSame (c : Site) (v : TMem) [hc : NotPort c] :
    Alike Q (c.write D v) (c.write D' v) := h.writeSame c v hc.ne

instance alike_cellWadd (c : Site) (what : Int) [NotPort c] : Alike Q (c.wadd D what) (c.wadd D' what) := by
  unfold Site.wadd
  infer_instance

instance alike_readCells (sp : Space) (addr : Int) : Alike Q (sp.readCells D addr) (sp.readCells D' addr) := by
  unfold Space.readCells
  infer_instance

instance alike_readSram (addr : Int) : Alike Q (Space.readSram D addr) (Space.readSram D' addr) := by
  unfold Space.readSram
  infer_instance

/-- The bank switches. -/
theorem alike_bank {α : Type} (k : Nat) {f g : Space → MemProg V α} {x y : MemProg V α}
    [hf : ∀ bank, Alike Q (f bank) (g bank)] [hx : Alike Q x y] :
    Alike Q (match Space.flashbank k with | some bank => f bank | none => x)
      (match Space.flashbank k with | some bank => g bank | none => y) := by
  cases Space.flashbank k with
  | none => exact hx
  | some bank => exact hf bank

instance alike_readXram (addr : Int) : Alike Q (Space.readXram D addr) (Space.readXram D' addr) := by
  have hbank (d : TMem) := alike_bank (Q := Q) d.toNat (f := fun bank => bank.readCells D (addr % 0x8000))
    (g := fun bank => bank.readCells D' (addr % 0x8000)) (x := (Space.xram.cells (addr % 0x8000)).read D)
    (y := (Space.xram.cells (addr % 0x8000)).read D')
  unfold Space.readXram
  infer_instance

instance alike_readRom (addr : Int) : Alike Q (Space.readRom D addr) (Space.readRom D' addr) := by
  have hbank (d : TMem) := alike_bank (Q := Q) d.toNat (f := fun bank => bank.readCells D (addr % 0x8000))
    (g := fun bank => bank.readCells D' (addr % 0x8000)) (x := throw .invalidFmap) (y := throw .invalidFmap)
  unfold Space.readRom
  infer_instance

instance alike_read (sp : Space) (addr : Int) : Alike Q (sp.read D addr) (sp.read D' addr) := by
  unfold Space.read
  cases sp <;> infer_instance

instance alike_sfrGetC : Alike Q (sfrGetC D) (sfrGetC D') := by
  unfold sfrGetC
  infer_instance

/-! ### Writes -/

instance alike_writeCells (sp : Space) (addr : Int) (v : TMem) :
    Alike Q (discard (sp.writeCells D addr v)) (discard (sp.writeCells D' addr v)) := by
  unfold Space.writeCells
  infer_instance

instance alike_writeSram (addr : Int) (v : TMem) :
    Alike Q (discard (Space.writeSram D addr v)) (discard (Space.writeSram D' addr v)) := by
  unfold Space.writeSram
  infer_instance

instance alike_writeXram (addr : Int) (v : TMem) :
    Alike Q (discard (Space.writeXram D addr v)) (discard (Space.writeXram D' addr v)) := by
  have hbank (d : TMem) : Alike Q
      (discard (match Space.flashbank d.toNat with
        | some bank => bank.writeCells D (addr % 0x8000) v
        | none => (Space.xram.cells (addr % 0x8000)).write D v))
      (discard (match Space.flashbank d.toNat with
        | some bank => bank.writeCells D' (addr % 0x8000) v
        | none => (Space.xram.cells (addr % 0x8000)).write D' v)) := by
    cases Space.flashbank d.toNat <;> infer_instance
  unfold Space.writeXram
  infer_instance

instance alike_write (sp : Space) (addr : Int) (v : TMem) :
    Alike Q (discard (sp.write D addr v)) (discard (sp.write D' addr v)) := by
  unfold Space.write
  cases sp <;> infer_instance

/-- A register that belongs to no port. -/
instance alike_sfrWrite (addr : Int) (v : TMem) [NotPort (Space.sfr.cells addr)] :
    Alike Q (Space.sfr.write D addr v) (Space.sfr.write D' addr v) := by
  change Alike _ (Space.sfr.writeCells D addr v) (Space.sfr.writeCells D' addr v)
  unfold Space.writeCells
  infer_instance

instance alike_wadd (sp : Space) (addr what : Int) [NotPort (sp.cells addr)] :
    Alike Q (sp.wadd D addr what) (sp.wadd D' addr what) := by
  unfold Space.wadd
  infer_instance

instance alike_dptrInWindow : Alike Q (dptrInWindow D) (dptrInWindow D') := by
  unfold dptrInWindow
  infer_instance

instance alike_addA (ac data : UChar) (orgC : Bool) : Alike Q (addA D ac data orgC) (addA D' ac data orgC) := by
  unfold addA
  infer_instance

end Cells

/-! ## The core -/

section Core

instance alike_onMem {α : Type} {x y : MemProg V α} [hx : Alike Q x y] :
    Alike (OnUc Q T) (x : UcProg V α) (y : UcProg V α) := by
  constructor
  rintro u u' ⟨m, go, rfl, hQ, hT⟩
  have hends : EndAlike Q (x.run u.mem) (y.run m) := hx.run _ _ hQ
  change EndAlike _ ((zoom Uc.mem (fun m u => { u with mem := m }) x).run u)
    ((zoom Uc.mem (fun m u => { u with mem := m }) y).run { u with mem := m, simGo := go })
  rw [run_zoom, run_zoom]
  dsimp only
  generalize x.run u.mem = r at hends ⊢
  generalize y.run m = q at hends ⊢
  cases hends with
  | ok a h => exact .ok a ⟨_, _, rfl, h, hT⟩
  | error e => exact .error e

instance alike_onMem' {α : Type} {x y : MemProg V α} [Alike Q x y] : Alike (OnUc Q T) (onMem x) (onMem y) :=
  alike_onMem (x := x) (y := y)

/-- A write of the memory system whose value is not used. -/
instance alike_onMem_discard {α : Type} {x y : MemProg V α} [hx : Alike Q (discard x) (discard y)] :
    Alike (OnUc Q T) (discard (x : UcProg V α)) (discard (y : UcProg V α)) := by
  have hzoom : ∀ z : MemProg V α, discard (z : UcProg V α) = ((discard z : MemProg V Unit) : UcProg V Unit) := by
    intro z
    have hbind := onMem_bind z fun _ => pure ()
    rw [onMem_pure] at hbind
    exact hbind.symm
  rw [hzoom, hzoom]
  exact alike_onMem

/-- What neither looks at the memory and at `simGo` nor changes them. -/
theorem alike_core {α : Type} {f : Uc V → α × Uc V}
    (h : ∀ u m go, f { u with mem := m, simGo := go } = ((f u).1, { (f u).2 with mem := m, simGo := go }))
    (hsame : ∀ u, (f u).2.mem = u.mem ∧ (f u).2.simGo = u.simGo) :
    Alike (OnUc Q T) (modifyGet f : UcProg V α) (modifyGet f) := by
  refine Alike.modifyGet ?_ ?_
  · rintro u u' ⟨m, go, rfl, -, -⟩
    rw [h u m go]
  · rintro u u' ⟨m, go, rfl, hQ, hT⟩
    refine ⟨m, go, by rw [h u m go], ?_, ?_⟩
    · rwa [(hsame u).1]
    · rwa [(hsame u).2]

/-- Look at the state: what is read depends neither on the memory nor on `simGo`. -/
instance alike_get {α : Type} {f g : Uc V → UcProg V α}
    [hf : ∀ u m go, Alike (OnUc Q T) (f u) (g { u with mem := m, simGo := go })] :
    Alike (OnUc Q T) (get >>= f) (get >>= g) := by
  constructor
  rintro u u' ⟨m, go, rfl, hQ, hT⟩
  exact (hf u m go).run u _ ⟨m, go, rfl, hQ, hT⟩

instance alike_tick (cycles : Int) : Alike (OnUc Q T) (tick cycles : UcProg V Unit) (tick cycles) :=
  alike_core (fun _ _ _ => rfl) fun _ => ⟨rfl, rfl⟩

instance alike_setPC (addr : Int) : Alike (OnUc Q T) (setPC addr : UcProg V Unit) (setPC addr) :=
  alike_core (fun _ _ _ => rfl) fun _ => ⟨rfl, rfl⟩

section Errors

variable [h : SameCells Q]

instance alike_error (e : UcError) : Alike (OnUc Q T) (error e : UcProg V Unit) (error e) := by
  refine Alike.modifyGet (fun _ _ _ => rfl) ?_
  rintro u u' ⟨m, go, rfl, hQ, hT⟩
  exact ⟨_, _, rfl, h.err e _ _ hQ, hT⟩

instance alike_stackWrite (op : StackOp) : Alike (OnUc Q T) (stackWrite op : UcProg V Unit) (stackWrite op) := by
  have hpush : Alike (OnUc Q T) (modify fun u => { u with stackOps := op :: u.stackOps } : UcProg V Unit)
      (modify fun u => { u with stackOps := op :: u.stackOps }) := alike_core (fun _ _ _ => rfl) fun _ => ⟨rfl, rfl⟩
  unfold stackWrite
  infer_instance

instance alike_stackRead (op : StackOp) : Alike (OnUc Q T) (stackRead op : UcProg V Unit) (stackRead op) := by
  have hpop : Alike (OnUc Q T) (modify fun u => { u with stackOps := u.stackOps.dropWhile (·.canRemoved op) } : UcProg V Unit)
      (modify fun u => { u with stackOps := u.stackOps.dropWhile (·.canRemoved op) }) :=
    alike_core (fun _ _ _ => rfl) fun _ => ⟨rfl, rfl⟩
  have htop : ∀ ops : List StackOp, Alike (OnUc Q T) (match ops with
      | [] => pure ()
      | top :: _ =>
        if top.spAfter ≠ op.spAfter then
          error (.stackTrackerInconsistent (top.spAfter - op.spAfter).natAbs)
        else pure () : UcProg V Unit) (match ops with
      | [] => pure ()
      | top :: _ =>
        if top.spAfter ≠ op.spAfter then
          error (.stackTrackerInconsistent (top.spAfter - op.spAfter).natAbs)
        else pure ()) := by
    intro ops
    cases ops <;> infer_instance
  unfold stackRead
  refine @Alike.ite _ _ _ _ _ _ _ _ _ _ _ inferInstance (@alike_get _ _ _ _ _ _ fun u m go => ?_)
  change Alike _ (match u.stackOps with | [] => _ | top :: _ => _) (match u.stackOps with | [] => _ | top :: _ => _)
  cases u.stackOps <;> infer_instance

instance alike_jumpRel (jaddr : UChar) : Alike (OnUc Q T) (jumpRel jaddr : UcProg V Unit) (jumpRel jaddr) := by
  unfold jumpRel
  infer_instance

instance alike_getDirect (addr : TMem) : Alike (OnUc Q T) (getDirect addr : UcProg V Site) (getDirect addr) := by
  unfold getDirect
  infer_instance

end Errors

variable [h : InStep D D' Q]

instance alike_fetch : Alike (OnUc Q T) (fetch D) (fetch D') := by
  unfold fetch
  infer_instance

end Core

/-! ## Cells of `iram` -/

section Iram

variable {α : Type} {f g : Site → UcProg V α}

/-- Programs that go on with a cell of `iram`. -/
instance alike_iramCell (addr : Int) [hs : SameCells Q] [hf : ∀ c : IramCell, Alike (OnUc Q T) (f c.val) (g c.val)] :
    Alike (OnUc Q T) (onMem (Space.iram.getCell addr) >>= f) (onMem (Space.iram.getCell addr) >>= g) := by
  have hdummy := hf ⟨.dummy .iram, Or.inr rfl⟩
  have hcell := hf ⟨Space.iram.cells addr, Or.inl ⟨_, rfl⟩⟩
  constructor
  rintro u u' ⟨m, go, rfl, hQ, hT⟩
  by_cases hinv : Space.iram.invalid addr
  · have hrun : ∀ v : Uc V, (onMem (Space.iram.getCell addr)).run v = .ok (.dummy .iram,
        { v with mem := { v.mem with errors := v.mem.errors ++ [.memInvalidAddress .iram addr] } }) := by
      intro v
      unfold Space.getCell
      rw [if_pos hinv]
      rfl
    rw [run_bind_of_ok (hrun u), run_bind_of_ok (hrun _)]
    exact hdummy.run _ _ ⟨_, _, rfl, hs.err _ _ _ hQ, hT⟩
  · have hrun : ∀ v : Uc V, (onMem (Space.iram.getCell addr)).run v = .ok (Space.iram.cells addr, v) := by
      intro v
      unfold Space.getCell
      rw [if_neg hinv]
      rfl
    rw [run_bind_of_ok (hrun u), run_bind_of_ok (hrun _)]
    exact hcell.run _ _ ⟨_, _, rfl, hQ, hT⟩

section Registers

variable [h : SameCells Q]

instance alike_register (regnum : UChar) : Alike (OnUc Q T) (getReg D regnum) (getReg D' regnum) := by
  unfold getReg
  infer_instance

instance alike_getReg (regnum : UChar) [hf : ∀ c : IramCell, Alike (OnUc Q T) (f c.val) (g c.val)] :
    Alike (OnUc Q T) (getReg D regnum >>= f) (getReg D' regnum >>= g) := by
  simp only [getReg, bind_assoc]
  infer_instance

end Registers

variable [h : InStep D D' Q]

instance alike_indirectCell (code : UChar) : Alike (OnUc Q T) (getIndirect D code) (getIndirect D' code) := by
  unfold getIndirect
  infer_instance

instance alike_getIndirect (code : UChar) [hf : ∀ c : IramCell, Alike (OnUc Q T) (f c.val) (g c.val)] :
    Alike (OnUc Q T) (getIndirect D code >>= f) (getIndirect D' code >>= g) := by
  simp only [getIndirect, bind_assoc]
  infer_instance

end Iram

end Ucsim.S51
