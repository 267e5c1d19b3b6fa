import Ucsim.S51.Exec
import Ucsim.S51.MemoryMap

/-!
# Loads and stores of external memory

The four `MOVX` instructions against `xram->read` and `xram->write`. Three of them handle the window of
the special function registers on their own, and hand `sfr` an address that it does not have.
-/

namespace Ucsim.S51

open Logic

variable {Dev V : Type} {D : Devices Dev V}

/-! ## Steps of the core that only read -/

/-- Started at `u`, the program returns `a` and leaves the bytes `mem`. Of the memory system it changes
nothing else but the hardware state and the list of events. -/
def Steps {α : Type} (x : UcProg V α) (u : Uc V) (a : α) (mem : Site → TMem) : Prop :=
  ∃ (v : Uc V) (sys : Sys Site (HwState V)), x.run u = .ok (a, v) ∧ v.mem = { u.mem with sys := sys } ∧
    sys.mem = mem

namespace Steps

variable {α β : Type} {x : UcProg V α} {f : α → UcProg V β} {u : Uc V} {a : α} {b : β}
  {mem mem' : Site → TMem}

theorem pure (a : α) (u : Uc V) : Steps (pure a) u a u.mem.sys.mem := ⟨u, u.mem.sys, rfl, rfl, rfl⟩

theorem onHw (g : HwState V → HwState V) (u : Uc V) : Steps (onHw g) u () u.mem.sys.mem :=
  ⟨_, { u.mem.sys with hw := g u.mem.sys.hw }, rfl, rfl, rfl⟩

theorem onMem {y : MemProg V α} (h : Yields y u.mem a mem) : Steps (y : UcProg V α) u a mem := by
  obtain ⟨sys, hrun, hmem⟩ := h
  exact ⟨{ u with mem := { u.mem with sys := sys } }, sys, Program.run_zoom_ok.mpr ⟨_, hrun, rfl⟩, rfl,
    hmem⟩

theorem bind (hx : Steps x u a mem) (hf : ∀ v : Uc V, v.mem.sys.mem = mem → Steps (f a) v b mem') :
    Steps (x >>= f) u b mem' := by
  obtain ⟨v, sys, hrun, hv, hmem⟩ := hx
  obtain ⟨w, sys', hrun', hw, hmem'⟩ := hf v (by rw [hv, hmem])
  exact ⟨w, sys', (Program.run_bind_of_ok hrun f).trans hrun', by rw [hw, hv], hmem'⟩

/-- A program that fails after its first part. -/
theorem bind_error {e : Abort} (hx : Steps x u a mem)
    (hf : ∀ v : Uc V, v.mem.sys.mem = mem → (f a).run v = .error e) : (x >>= f).run u = .error e := by
  obtain ⟨v, sys, hrun, hv, hmem⟩ := hx
  exact (Program.run_bind_of_ok hrun f).trans (hf v (by rw [hv, hmem]))

end Steps

/-- Reading a register of the core. -/
theorem sfr_read_core {r : Int} (hr : r ∈ coreRegisters) (s : MemState V) :
    Yields (Space.sfr.read D r) s (s.sys.mem (.sfr r)) s.sys.mem := by
  have hv : ∀ r ∈ coreRegisters, ¬ Space.sfr.invalid r := by decide
  exact readCells_quiet (hv r hr) (Devices.quietAt_core hr) s

/-- Reading a register that the devices leave alone. -/
theorem sfr_read_quiet {r : Int} (hv : ¬ Space.sfr.invalid r) (hq : D.QuietAt (.sfr r))
    (s : MemState V) : Yields (Space.sfr.read D r) s (s.sys.mem (.sfr r)) s.sys.mem :=
  readCells_quiet hv hq s

theorem acc_read (s : MemState V) : Yields (acc.read D) s (s.sys.mem acc) s.sys.mem :=
  Site.read_quiet (Devices.quietAt_core (by decide)) s

theorem acc_write (v : TMem) (s : MemState V) :
    Yields (acc.write D v) s (v &&& 0xff) (stored acc v s.sys.mem) :=
  Site.write_quiet (Devices.quietAt_core (by decide)) v s

/-- The cell of register `n` of the current bank. -/
def regSite (mem : Site → TMem) (n : UChar) : Site :=
  .cell .iram (((mem psw &&& (bmRS0 ||| bmRS1)) ||| (tmem n &&& 0x07)).toNat : Int)

theorem regIndex_lt (pw : TMem) (n : UChar) :
    ((pw &&& (bmRS0 ||| bmRS1)) ||| (tmem n &&& 0x07)).toNat < 0x100 := by
  have hbank : (pw &&& (bmRS0 ||| bmRS1)).toNat < 2 ^ 8 := by
    rw [BitVec.toNat_and]
    exact Nat.and_lt_two_pow _ (by decide)
  have hn : (tmem n &&& 0x07).toNat < 2 ^ 8 := by
    rw [BitVec.toNat_and]
    exact Nat.and_lt_two_pow _ (by decide)
  rw [BitVec.toNat_or]
  exact Nat.or_lt_two_pow hbank hn

/-- `get_reg` finds the cell of the register. -/
theorem getReg_steps (n : UChar) (u : Uc V) :
    Steps (getReg D n) u (regSite u.mem.sys.mem n) u.mem.sys.mem := by
  have hpsw : Yields (psw.get D) u.mem (u.mem.sys.mem psw) u.mem.sys.mem :=
    ⟨u.mem.sys, Site.get_run psw u.mem, rfl⟩
  refine (Steps.onMem hpsw).bind fun v hv => ?_
  have hcell : Space.iram.getCell (((u.mem.sys.mem psw &&& (bmRS0 ||| bmRS1)) |||
      (tmem n &&& 0x07)).toNat : Int) = (Pure.pure (regSite u.mem.sys.mem n) : MemProg V Site) := by
    have hlt := regIndex_lt (u.mem.sys.mem psw) n
    rw [Space.getCell, if_neg (Space.iram_valid (by omega) (by omega)), Space.cells, regSite]
    simp [Space.startAddress]
  change Steps (onMem (Space.iram.getCell _)) v _ _
  rw [hcell, ← hv]
  exact Steps.onMem (Yields.pure _ v.mem)

/-! ## Addresses in the registers -/

/-- Change a byte of memory. -/
def Uc.setByte (u : Uc V) (c : Site) (v : TMem) : Uc V :=
  { u with mem := { u.mem with sys := { u.mem.sys with mem := Function.update u.mem.sys.mem c v } } }

@[simp] theorem Uc.setByte_mem (u : Uc V) (c : Site) (v : TMem) :
    (u.setByte c v).mem.sys.mem = Function.update u.mem.sys.mem c v := rfl

/-- The state with `DPTR` = `p`. -/
def Uc.withDptr (u : Uc V) (p : BitVec 16) : Uc V :=
  (u.setByte (.sfr Reg.DPH) (p >>> 8)).setByte (.sfr Reg.DPL) (p &&& 0xff)

/-- The state with `MPAGE:Ri` = `p` for the register of the instruction `code`. -/
def Uc.withRi (u : Uc V) (code : UChar) (p : BitVec 16) : Uc V :=
  (u.setByte (.sfr Reg.MPAGE) (p >>> 8)).setByte (regSite u.mem.sys.mem (code &&& 0x01)) (p &&& 0xff)

/-- The window of the special function registers in `xram`. -/
def SfrWindow (p : BitVec 16) : Prop := 0x7080 ≤ p.toNat ∧ p.toNat < 0x7100

instance (p : BitVec 16) : Decidable (SfrWindow p) := inferInstanceAs (Decidable (_ ∧ _))

/-- The address that the two bytes make up. -/
theorem address_bytes (p : BitVec 16) :
    ((p >>> 8).toNat : Int) * 256 + ((p &&& 0xff).toNat : Int) = p.toNat := by
  rw [toNat_high, toNat_low]
  omega

theorem high_eq_iff (p : BitVec 16) : p >>> 8 = 0x70 ↔ p.toNat / 256 = 0x70 := by
  rw [← BitVec.toNat_inj, toNat_high]
  rfl

/-- The test of the instructions for the window. -/
theorem sfrWindow_iff (p : BitVec 16) :
    p >>> 8 = 0x70 ∧ (p &&& 0xff).toNat ≥ 0x80 ↔ SfrWindow p := by
  rw [high_eq_iff, toNat_low, SfrWindow]
  omega

/-! ## Stores -/

/-- The state holds the address in `DPTR`. -/
structure HoldsDptr (u : Uc V) (p : BitVec 16) : Prop where
  high : u.mem.sys.mem (.sfr Reg.DPH) = p >>> 8
  low : u.mem.sys.mem (.sfr Reg.DPL) = p &&& 0xff

/-- The state holds the address in `MPAGE:Ri`. -/
structure HoldsRi (u : Uc V) (code : UChar) (p : BitVec 16) : Prop where
  high : u.mem.sys.mem (.sfr Reg.MPAGE) = p >>> 8
  low : u.mem.sys.mem (regSite u.mem.sys.mem (code &&& 0x01)) = p &&& 0xff

theorem holdsDptr_withDptr (u : Uc V) (p : BitVec 16) : HoldsDptr (u.withDptr p) p where
  high := by
    rw [Uc.withDptr, Uc.setByte_mem, Function.update_of_ne (by decide), Uc.setByte_mem]
    exact Function.update_self ..
  low := by
    rw [Uc.withDptr, Uc.setByte_mem]
    exact Function.update_self ..

theorem holdsRi_withRi (u : Uc V) (code : UChar) (p : BitVec 16) : HoldsRi (u.withRi code p) code p where
  high := by
    rw [Uc.withRi, Uc.setByte_mem, Function.update_of_ne (by simp [regSite, Site.sfr]), Uc.setByte_mem]
    exact Function.update_self ..
  low := by
    have hpsw : (u.withRi code p).mem.sys.mem psw = u.mem.sys.mem psw := by
      rw [Uc.withRi, Uc.setByte_mem, Function.update_of_ne (by simp [regSite, psw, Site.sfr]),
        Uc.setByte_mem]
      exact Function.update_of_ne (by decide) _ _
    have hreg : regSite (u.withRi code p).mem.sys.mem (code &&& 0x01)
        = regSite u.mem.sys.mem (code &&& 0x01) := by rw [regSite, hpsw, regSite]
    rw [hreg, Uc.withRi, Uc.setByte_mem]
    exact Function.update_self ..

/-- The cells of a state with the address in the registers hold bytes. -/
theorem isBytes_withDptr {u : Uc V} (hb : IsBytes u.mem.sys.mem) (p : BitVec 16) :
    IsBytes (u.withDptr p).mem.sys.mem :=
  isBytes_update (isBytes_update hb _ (by rw [toNat_high]; omega)) _ (by rw [toNat_low]; omega)

theorem isBytes_withRi {u : Uc V} (hb : IsBytes u.mem.sys.mem) (code : UChar) (p : BitVec 16) :
    IsBytes (u.withRi code p).mem.sys.mem :=
  isBytes_update (isBytes_update hb _ (by rw [toNat_high]; omega)) _ (by rw [toNat_low]; omega)

/-- What a store instruction finds out first: the address, whether it is in the window, the accumulator. -/
abbrev StoreArgs := Int × Bool × TMem

/-- `MOVX @DPTR,A` up to its store. -/
def dptrStoreArgs (D : Devices Dev V) : UcProg V StoreArgs := do
  let h ← Space.sfr.read D Reg.DPH
  let l ← Space.sfr.read D Reg.DPL
  let inWindow ← dptrInWindow D
  let v ← acc.read D
  return (h.toNat * 256 + l.toNat, inWindow, v)

/-- `MOVX @Ri,A` up to its store. -/
def riStoreArgs (D : Devices Dev V) (code : UChar) : UcProg V StoreArgs := do
  let reg ← getReg D (code &&& 0x01)
  let d ← reg.read D
  let mpage ← Space.sfr.read D Reg.MPAGE
  let v ← acc.read D
  return (mpage.toNat * 256 + d.toNat, decide (mpage = 0x70 ∧ d.toNat ≥ 0x80), v)

theorem instMovxSdptrA_eq (code : UChar) :
    instMovxSdptrA D code = dptrStoreArgs D >>= fun r =>
      if r.2.1 then do
        let _ ← Space.sfr.write D r.1 r.2.2
        tick 1
        return .go
      else do
        let _ ← Space.xram.write D r.1 r.2.2
        let _ ← acc.read D
        tick 1
        return .go := by
  simp only [instMovxSdptrA, dptrStoreArgs, bind_assoc, pure_bind]

theorem instMovxSriA_eq (code : UChar) :
    instMovxSriA D code = riStoreArgs D code >>= fun r =>
      if r.2.1 then do
        let _ ← Space.sfr.write D r.1 r.2.2
        tick 1
        return .go
      else do
        let _ ← Space.xram.write D r.1 r.2.2
        tick 1
        return .go := by
  simp only [instMovxSriA, riStoreArgs, bind_assoc, pure_bind, decide_eq_true_eq]

/-- The address test reads `DPH` again, and `DPL` if it has to. -/
theorem dptrInWindow_yields {s : MemState V} {p : BitVec 16} (hh : s.sys.mem (.sfr Reg.DPH) = p >>> 8)
    (hl : s.sys.mem (.sfr Reg.DPL) = p &&& 0xff) :
    Yields (dptrInWindow D) s (decide (SfrWindow p)) s.sys.mem := by
  refine (sfr_read_core (by decide) s).bind fun u hu => ?_
  rw [hh]
  by_cases hhigh : p >>> 8 = 0x70
  · rw [if_pos hhigh]
    refine (sfr_read_core (by decide) _).bind fun u' hu' => ?_
    have hwin : decide (SfrWindow p) = decide ((p &&& 0xff).toNat ≥ 0x80) := by
      rw [decide_eq_decide, ← sfrWindow_iff]
      exact and_iff_right hhigh
    dsimp only
    rw [hu, hl, hwin, ← hu, ← hu']
    exact Yields.pure _ _
  · rw [if_neg hhigh, decide_eq_false fun h => hhigh ((sfrWindow_iff p).mpr h).1, ← hu]
    exact Yields.pure false _

theorem dptrStoreArgs_steps {u : Uc V} {p : BitVec 16} (hp : HoldsDptr u p) :
    Steps (dptrStoreArgs D) u ((p.toNat : Int), decide (SfrWindow p), u.mem.sys.mem acc)
      u.mem.sys.mem := by
  rw [dptrStoreArgs]
  refine (Steps.onMem (sfr_read_core (by decide) u.mem)).bind fun v₁ h₁ => ?_
  have hl := sfr_read_core (D := D) (r := Reg.DPL) (by decide) v₁.mem
  rw [h₁] at hl
  refine (Steps.onMem hl).bind fun v₂ h₂ => ?_
  have hwin := dptrInWindow_yields (D := D) (s := v₂.mem) (p := p) (by rw [h₂]; exact hp.high)
    (by rw [h₂]; exact hp.low)
  rw [h₂] at hwin
  refine (Steps.onMem hwin).bind fun v₃ h₃ => ?_
  have hacc := acc_read (D := D) v₃.mem
  rw [h₃] at hacc
  refine (Steps.onMem hacc).bind fun v₄ h₄ => ?_
  rw [hp.high, hp.low, address_bytes, ← h₄]
  exact Steps.pure _ v₄

theorem riStoreArgs_steps {u : Uc V} {code : UChar} {p : BitVec 16} (hp : HoldsRi u code p)
    (hq : D.QuietAt (.sfr Reg.MPAGE)) :
    Steps (riStoreArgs D code) u ((p.toNat : Int), decide (SfrWindow p), u.mem.sys.mem acc)
      u.mem.sys.mem := by
  rw [riStoreArgs]
  refine (getReg_steps (code &&& 0x01) u).bind fun v₁ h₁ => ?_
  have hd := Site.read_quiet (D := D) (c := regSite u.mem.sys.mem (code &&& 0x01))
    (Devices.quietAt_code rfl) v₁.mem
  rw [h₁] at hd
  refine (Steps.onMem hd).bind fun v₂ h₂ => ?_
  have hpage := sfr_read_quiet (D := D) (by decide) hq v₂.mem
  rw [h₂] at hpage
  refine (Steps.onMem hpage).bind fun v₃ h₃ => ?_
  have hacc := acc_read (D := D) v₃.mem
  rw [h₃] at hacc
  refine (Steps.onMem hacc).bind fun v₄ h₄ => ?_
  rw [hp.high, hp.low, address_bytes, decide_eq_decide.mpr (sfrWindow_iff p), ← h₄]
  exact Steps.pure _ v₄

/-! ## Agreement with `xram` -/

/-- The instruction stores the accumulator as `xram->write` does, and reports no error. -/
def Stores (D : Devices Dev V) (inst : UcProg V Res) (u : Uc V) (p : BitVec 16) : Prop :=
  ∃ v a m, inst.run u = .ok (.go, v) ∧
    (Space.xram.write D p.toNat (u.mem.sys.mem acc)).run u.mem = .ok (a, m) ∧
    v.mem.sys.mem = m.sys.mem ∧ v.mem.errors = u.mem.errors

/-- The instruction loads what `xram->read` returns, and reports no error. -/
def Loads (D : Devices Dev V) (inst : UcProg V Res) (u : Uc V) (p : BitVec 16) : Prop :=
  ∃ v w, inst.run u = .ok (.go, v) ∧ (Space.xram.read D p.toNat).Returns u.mem w ∧
    v.mem.sys.mem acc = w ∧ v.mem.errors = u.mem.errors

/-- All forms of `MOVX` agree with `xram` at the address. -/
structure MovxAgrees (D : Devices Dev V) (u : Uc V) (p : BitVec 16) : Prop where
  storeDptr : ∀ code, Stores D (instMovxSdptrA D code) (u.withDptr p) p
  storeRi : ∀ code, Stores D (instMovxSriA D code) (u.withRi code p) p
  loadDptr : ∀ code, Loads D (instMovxASdptr D code) (u.withDptr p) p
  loadRi : ∀ code, Loads D (instMovxASri D code) (u.withRi code p) p

theorem Steps.stores {inst : UcProg V Res} {u : Uc V} {p : BitVec 16}
    (hq : D.QuietAt (xramByte (u.mem.sys.mem mcon) p.toNat))
    (h : Steps inst u .go
      (stored (xramByte (u.mem.sys.mem mcon) p.toNat) (u.mem.sys.mem acc) u.mem.sys.mem)) :
    Stores D inst u p := by
  obtain ⟨v, sys, hrun, hv, hmem⟩ := h
  obtain ⟨sys', hrun', hmem'⟩ :=
    writeXram_yields (by omega) (by have := p.isLt; omega) hq (u.mem.sys.mem acc)
  exact ⟨v, _, _, hrun, hrun', by rw [hv, hmem, hmem'], by rw [hv]⟩

theorem Steps.loads {inst : UcProg V Res} {u : Uc V} {p : BitVec 16} (hb : IsBytes u.mem.sys.mem)
    (hq : D.QuietAt (xramByte (u.mem.sys.mem mcon) p.toNat))
    (h : Steps inst u .go
      (stored acc (u.mem.sys.mem (xramByte (u.mem.sys.mem mcon) p.toNat)) u.mem.sys.mem)) :
    Loads D inst u p := by
  obtain ⟨v, sys, hrun, hv, hmem⟩ := h
  have hread := readXram_yields (by omega) (by have := p.isLt; omega) hq
  refine ⟨v, _, hrun, hread.returns, ?_, by rw [hv]⟩
  rw [hv, hmem, stored_apply, if_pos rfl, byte_and (hb _)]

/-- Outside of the window the store goes to `xram`. -/
theorem store_steps {args : UcProg V StoreArgs} {u : Uc V} {p : BitVec 16} (hwin : ¬ SfrWindow p)
    (hargs : Steps args u ((p.toNat : Int), decide (SfrWindow p), u.mem.sys.mem acc) u.mem.sys.mem)
    (hq : D.QuietAt (xramByte (u.mem.sys.mem mcon) p.toNat)) {x : StoreArgs → UcProg V Res}
    {rest : UcProg V Res} (hrest : ∀ v : Uc V, Steps rest v .go v.mem.sys.mem) :
    Steps (args >>= fun r => if r.2.1 then x r else do
        let _ ← Space.xram.write D r.1 r.2.2
        rest) u .go
      (stored (xramByte (u.mem.sys.mem mcon) p.toNat) (u.mem.sys.mem acc) u.mem.sys.mem) := by
  refine hargs.bind fun v hv => ?_
  rw [if_neg (by simpa using hwin)]
  rw [← hv] at hq ⊢
  refine (Steps.onMem (writeXram_yields (by omega) (by have := p.isLt; omega) hq _)).bind
    fun w hw => ?_
  rw [← hw]
  exact hrest w

/-- In the window the store is handed to `sfr`, which has no such address. -/
theorem store_error {args : UcProg V StoreArgs} {u : Uc V} {p : BitVec 16} (hwin : SfrWindow p)
    (hargs : Steps args u ((p.toNat : Int), decide (SfrWindow p), u.mem.sys.mem acc) u.mem.sys.mem)
    {x y : StoreArgs → UcProg V Res} :
    (args >>= fun r => if r.2.1 then do
        let _ ← Space.sfr.write D r.1 r.2.2
        x r
      else y r).run u = .error .invalidAddress := by
  refine hargs.bind_error fun v hv => ?_
  have hinv : Space.sfr.invalid p.toNat := by
    rw [Space.invalid]
    left
    simp only [Space.startAddress, Space.size]
    have := hwin.1
    omega
  have hthrow : Space.sfr.write D p.toNat (u.mem.sys.mem acc) = throw .invalidAddress := if_pos hinv
  rw [if_pos (by simpa using hwin)]
  dsimp only
  rw [hthrow]
  rfl

theorem tick_steps (n : Int) (u : Uc V) : Steps (do tick n; return .go : UcProg V Res) u .go u.mem.sys.mem :=
  ⟨_, u.mem.sys, rfl, rfl, rfl⟩

/-- `MOVX A,@DPTR` loads from `xram`, in the window too. -/
theorem instMovxASdptr_steps {u : Uc V} {p : BitVec 16} (hp : HoldsDptr u p)
    (hq : D.QuietAt (xramByte (u.mem.sys.mem mcon) p.toNat)) (code : UChar) :
    Steps (instMovxASdptr D code) u .go
      (stored acc (u.mem.sys.mem (xramByte (u.mem.sys.mem mcon) p.toNat)) u.mem.sys.mem) := by
  rw [instMovxASdptr]
  refine (Steps.onHw _ u).bind fun v₁ h₁ => ?_
  have hh := sfr_read_core (D := D) (r := Reg.DPH) (by decide) v₁.mem
  rw [h₁, hp.high] at hh
  refine (Steps.onMem hh).bind fun v₂ h₂ => ?_
  have hl := sfr_read_core (D := D) (r := Reg.DPL) (by decide) v₂.mem
  rw [h₂, hp.low] at hl
  refine (Steps.onMem hl).bind fun v₃ h₃ => ?_
  rw [← h₃] at hq
  have hx := readXram_yields (by omega) (by have := p.isLt; omega) hq
  rw [h₃] at hx
  rw [address_bytes]
  refine (Steps.onMem hx).bind fun v₄ h₄ => ?_
  have hw := acc_write (D := D) (u.mem.sys.mem (xramByte (u.mem.sys.mem mcon) p.toNat)) v₄.mem
  rw [h₄] at hw
  refine (Steps.onMem hw).bind fun v₅ h₅ => ?_
  rw [← h₅]
  exact (Steps.onHw _ v₅).bind fun v₆ h₆ => h₆ ▸ tick_steps 1 v₆

/-- Outside of the window `MOVX A,@Ri` loads from `xram`. -/
theorem instMovxASri_steps {u : Uc V} {code : UChar} {p : BitVec 16} (hp : HoldsRi u code p)
    (hwin : ¬ SfrWindow p) (hpage : D.QuietAt (.sfr Reg.MPAGE))
    (hq : D.QuietAt (xramByte (u.mem.sys.mem mcon) p.toNat)) :
    Steps (instMovxASri D code) u .go
      (stored acc (u.mem.sys.mem (xramByte (u.mem.sys.mem mcon) p.toNat)) u.mem.sys.mem) := by
  rw [instMovxASri]
  refine (getReg_steps (code &&& 0x01) u).bind fun v₁ h₁ => ?_
  have hd := Site.read_quiet (D := D) (c := regSite u.mem.sys.mem (code &&& 0x01))
    (Devices.quietAt_code rfl) v₁.mem
  rw [h₁, hp.low] at hd
  refine (Steps.onMem hd).bind fun v₂ h₂ => ?_
  have hm := sfr_read_quiet (D := D) (by decide) hpage v₂.mem
  rw [h₂, hp.high] at hm
  refine (Steps.onMem hm).bind fun v₃ h₃ => ?_
  rw [if_neg (fun h => hwin ((sfrWindow_iff p).mp h)), address_bytes]
  rw [← h₃] at hq
  have hx := readXram_yields (by omega) (by have := p.isLt; omega) hq
  rw [h₃] at hx
  refine (Steps.onMem hx).bind fun v₄ h₄ => ?_
  have hw := acc_write (D := D) (u.mem.sys.mem (xramByte (u.mem.sys.mem mcon) p.toNat)) v₄.mem
  rw [h₄] at hw
  refine (Steps.onMem hw).bind fun v₅ h₅ => ?_
  rw [← h₅]
  exact tick_steps 1 v₅

/-- In the window `MOVX @DPTR,A` fails an assertion. -/
theorem instMovxSdptrA_error {u : Uc V} {p : BitVec 16} (hp : HoldsDptr u p) (hwin : SfrWindow p)
    (code : UChar) : (instMovxSdptrA D code).run u = .error .invalidAddress := by
  rw [instMovxSdptrA_eq]
  exact store_error hwin (dptrStoreArgs_steps hp)

/-- `MOVX` agrees with `xram` exactly outside of the window of the special function registers. -/
theorem movxAgrees_iff (hq : ∀ c, D.QuietAt c) {u : Uc V} (hb : IsBytes u.mem.sys.mem) (p : BitVec 16) :
    MovxAgrees D u p ↔ ¬ SfrWindow p := by
  constructor
  · intro h hwin
    obtain ⟨v, a, m, hrun, -⟩ := h.storeDptr 0xf0
    rw [instMovxSdptrA_error (holdsDptr_withDptr u p) hwin] at hrun
    cases hrun
  · intro hwin
    refine ⟨fun code => ?_, fun code => ?_, fun code => ?_, fun code => ?_⟩
    · refine Steps.stores (hq _) ?_
      rw [instMovxSdptrA_eq]
      refine store_steps hwin (dptrStoreArgs_steps (holdsDptr_withDptr u p)) (hq _) fun v => ?_
      exact (Steps.onMem (acc_read v.mem)).bind fun w hw => hw ▸ tick_steps 1 w
    · refine Steps.stores (hq _) ?_
      rw [instMovxSriA_eq]
      exact store_steps hwin (riStoreArgs_steps (holdsRi_withRi u code p) (hq _)) (hq _) (tick_steps 1)
    · exact Steps.loads (isBytes_withDptr hb p) (hq _)
        (instMovxASdptr_steps (holdsDptr_withDptr u p) (hq _) code)
    · exact Steps.loads (isBytes_withRi hb code p) (hq _)
        (instMovxASri_steps (holdsRi_withRi u code p) hwin (hq _) (hq _))

theorem noDevices_quiet (c : Site) : noDevices.QuietAt c := Devices.quietAt_of_nil rfl

/-- `MOVX` at 0x1234. -/
theorem movxAgrees_low : MovxAgrees noDevices (bare fun _ => 0) 0x1234 ↔ ¬ SfrWindow 0x1234 :=
  movxAgrees_iff (u := bare fun _ => 0) noDevices_quiet (fun _ => Nat.zero_lt_succ _) 0x1234

set_option maxRecDepth 20000 in
/-- At 0x70E0, the accumulator's address in `xram`, a store fails an assertion, and `MOVX A,@Ri` reports
an invalid address. -/
theorem not_movxAgrees_acc :
    ¬ MovxAgrees noDevices (bare fun _ => 0) 0x70E0 ∧
      (instMovxSdptrA noDevices 0xf0).run ((bare fun _ => 0).withDptr 0x70E0)
        = .error .invalidAddress ∧
      ∃ v, (instMovxASri noDevices 0xe2).run ((bare fun _ => 0).withRi 0xe2 0x70E0) = .ok (.go, v) ∧
        v.mem.errors = [.memInvalidAddress .sfr 0x70E0] := by
  have herror := instMovxSdptrA_error (D := noDevices) (u := (bare fun _ => 0).withDptr 0x70E0)
    (holdsDptr_withDptr _ _) ⟨by decide, by decide⟩ 0xf0
  refine ⟨fun h => ?_, herror, _, rfl, rfl⟩
  obtain ⟨v, a, m, hrun, -⟩ := h.storeDptr 0xf0
  rw [herror] at hrun
  cases hrun

end Ucsim.S51
