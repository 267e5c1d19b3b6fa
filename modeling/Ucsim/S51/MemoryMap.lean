import Ucsim.S51.Cells

/-!
# The memory map of the CC2530

Where reads and writes of the address spaces end up. The windows nest: `xram` shows `sram`, the special
function registers and a flash bank, `sram` shows `iram`, and `rom` shows the flash banks and `sram`.
-/

namespace Ucsim.S51

open Logic

variable {Dev V : Type} {D : Devices Dev V}

/-- The register that selects the flash bank of `xram`, and with bit 3 the `sram` in `rom`. -/
abbrev mcon : Site := .sfr Reg.MCON

/-- The register that selects the flash bank of `rom`. -/
abbrev fmap : Site := .sfr Reg.FMAP

/-- The byte behind an address of `sram`. -/
def sramByte (a : Int) : Site := if a ≥ 0x1F00 then .cell .iram (a - 0x1F00) else .cell .sram a

/-- Byte `i` of the flash bank that a register value selects, and of `sp` if there is no such bank. -/
def bankByte (sp : Space) (reg : TMem) (i : Int) : Site :=
  .cell ((Space.flashbank (reg &&& 0x07).toNat).getD sp) i

/-- The physical byte of an address of `xram`. -/
def xramByte (m : TMem) (a : Int) : Site :=
  if a < 0x2000 then sramByte a
  else if a ≥ 0x7080 ∧ a < 0x7100 then .sfr (a - 0x7000)
  else if a ≥ 0x8000 then bankByte .xram m (a % 0x8000)
  else .cell .xram a

/-- The physical byte of an address of `rom`. -/
def romByte (m f : TMem) (a : Int) : Site :=
  if a < 0x8000 then .cell .flashbank0 a
  else if m &&& 0x08 ≠ 0 ∧ a % 0x8000 < 0x2000 then sramByte (a % 0x8000)
  else bankByte .rom f (a % 0x8000)

/-! ## Single spaces -/

theorem Space.not_invalid {sp : Space} {addr : Int} (h0 : sp.startAddress ≤ addr)
    (h1 : addr < sp.startAddress + sp.size) : ¬ sp.invalid addr := by
  rw [Space.invalid]
  omega

theorem Space.sfr_valid {a : Int} (h0 : 0x80 ≤ a) (h1 : a < 0x100) : ¬ Space.sfr.invalid a :=
  Space.not_invalid h0 (by simpa [Space.startAddress, Space.size] using h1)

theorem Space.iram_valid {a : Int} (h0 : 0 ≤ a) (h1 : a < 0x100) : ¬ Space.iram.invalid a :=
  Space.not_invalid h0 (by simpa [Space.startAddress, Space.size] using h1)

theorem readCells_quiet {sp : Space} {addr : Int} (hv : ¬ sp.invalid addr)
    (hq : D.QuietAt (sp.cells addr)) (s : MemState V) :
    Yields (sp.readCells D addr) s (s.sys.mem (sp.cells addr)) s.sys.mem := by
  rw [Space.readCells, if_neg hv]
  exact Site.read_quiet hq s

theorem writeCells_quiet {sp : Space} {addr : Int} (hv : ¬ sp.invalid addr)
    (hq : D.QuietAt (sp.cells addr)) (v : TMem) (s : MemState V) :
    Yields (sp.writeCells D addr v) s (v &&& 0xff) (stored (sp.cells addr) v s.sys.mem) := by
  rw [Space.writeCells, if_neg hv]
  exact Site.write_quiet hq v s

/-- `MCON` is read without side effects on memory. -/
theorem read_mcon (s : MemState V) :
    Yields (Space.sfr.readCells D Reg.MCON) s (s.sys.mem mcon) s.sys.mem :=
  readCells_quiet (by decide) (Devices.quietAt_core (by decide)) s

/-- Reading `FMAP` calls devices, which only look at the register. -/
theorem read_fmap (s : MemState V) :
    Yields (Space.sfr.readCells D Reg.FMAP) s (s.sys.mem fmap) s.sys.mem := by
  have hcells : Space.sfr.cells Reg.FMAP = fmap := rfl
  rw [Space.readCells, if_neg (by decide), hcells]
  have hread : ∀ h ∈ D.hws fmap, ∀ st : St V,
      D.hardware.read h fmap st = (st.mem fmap, st, []) := by
    intro h hh st
    rcases mem_hws.mp hh with ⟨d, hd, rfl⟩ | ⟨-, rfl⟩ | ⟨-, rfl⟩
    · exact D.read_fmap d hd st
    · rfl
    · rfl
  exact Site.read_yields (fun h hh st => by rw [hread h hh st]; exact ⟨rfl, rfl⟩) s

theorem flashbank_code {k : Nat} {bank : Space} (h : Space.flashbank k = some bank) :
    bank.isCode = true ∧ bank.size = 0x8000 ∧ bank.startAddress = 0 := by
  match k with
  | 0 | 1 | 2 | 3 =>
    cases h
    exact ⟨rfl, rfl, rfl⟩
  | _ + 4 => cases h

/-- A bank switch reads the selected bank. -/
theorem readBank (sp : Space) {i : Int} (h0 : 0 ≤ i) (h1 : i < 0x8000) {k : Nat} {s : MemState V}
    {x : MemProg V TMem} (hx : Space.flashbank k = none →
      Yields x s (s.sys.mem (.cell sp i)) s.sys.mem) :
    Yields (match Space.flashbank k with
      | some bank => bank.readCells D i
      | none => x) s (s.sys.mem (.cell ((Space.flashbank k).getD sp) i)) s.sys.mem := by
  cases hk : Space.flashbank k with
  | none => exact hx hk
  | some bank =>
    obtain ⟨hcode, hsize, hstart⟩ := flashbank_code hk
    have hcells : bank.cells i = .cell bank i := by rw [Space.cells, hstart, Int.sub_zero]
    have hv : ¬ bank.invalid i := Space.not_invalid (by omega) (by omega)
    have hread := readCells_quiet (D := D) hv (by rw [hcells]; exact Devices.quietAt_code hcode) s
    rwa [hcells] at hread

/-! ## Reads -/

theorem readSram_yields {a : Int} (h0 : 0 ≤ a) (h1 : a < 0x2000) (s : MemState V) :
    Yields (Space.readSram D a) s (s.sys.mem (sramByte a)) s.sys.mem := by
  rw [Space.readSram, sramByte]
  split
  · have hcells : Space.iram.cells (a - 0x1F00) = .cell .iram (a - 0x1F00) := by
      simp [Space.cells, Space.startAddress]
    have hread := readCells_quiet (D := D)
      (Space.iram_valid (a := a - 0x1F00) (by omega) (by omega))
      (by rw [hcells]; exact Devices.quietAt_code rfl) s
    rwa [hcells] at hread
  · have hcells : Space.sram.cells a = .cell .sram a := by simp [Space.cells, Space.startAddress]
    rw [hcells]
    exact Site.read_quiet (Devices.quietAt_code rfl) s

/-- `xram->read` reads the physical byte. -/
theorem readXram_yields {a : Int} (h0 : 0 ≤ a) (h1 : a < 0x10000) {s : MemState V}
    (hq : D.QuietAt (xramByte (s.sys.mem mcon) a)) :
    Yields (Space.readXram D a) s (s.sys.mem (xramByte (s.sys.mem mcon) a)) s.sys.mem := by
  have hcells (i : Int) : Space.xram.cells i = .cell .xram i := by
    simp [Space.cells, Space.startAddress]
  rw [xramByte] at hq ⊢
  rw [Space.readXram]
  split at hq
  · next hlow =>
    rw [if_pos hlow, if_pos hlow]
    exact readSram_yields h0 hlow s
  · next hlow =>
    rw [if_neg hlow, if_neg hlow]
    split at hq
    · next hsfr =>
      rw [if_pos hsfr, if_pos hsfr]
      exact readCells_quiet (Space.sfr_valid (a := a - 0x7000) (by omega) (by omega)) hq s
    · next hsfr =>
      rw [if_neg hsfr, if_neg hsfr]
      split at hq
      · next hhigh =>
        rw [if_pos hhigh, if_pos hhigh]
        refine Yields.bind (read_mcon s) fun u hu => ?_
        rw [bankByte] at hq ⊢
        rw [← hu]
        refine readBank .xram (by omega) (by omega) fun hnone => ?_
        rw [hu] at hnone
        rw [hnone] at hq
        rw [hcells]
        exact Site.read_quiet hq _
      · next hhigh =>
        rw [if_neg hhigh, if_neg hhigh, hcells]
        exact Site.read_quiet hq s

/-- `rom->read` reads the physical byte if it selects one of the four banks. -/
theorem readRom_yields {a : Int} (h0 : 0 ≤ a) {s : MemState V}
    (hfmap : (s.sys.mem fmap &&& 0x07).toNat < 4) :
    Yields (Space.readRom D a) s (s.sys.mem (romByte (s.sys.mem mcon) (s.sys.mem fmap) a))
      s.sys.mem := by
  rw [Space.readRom, romByte]
  split
  · next hlow =>
    exact readBank (k := 0) (x := throw .invalidFmap) .rom h0 hlow (fun h => nomatch h)
  · next hlow =>
    refine Yields.bind (read_mcon s) fun u hu => ?_
    dsimp only
    by_cases hsram : s.sys.mem mcon &&& 0x08 ≠ 0 ∧ a % 0x8000 < 0x2000
    · rw [if_pos hsram, if_pos hsram, ← hu]
      exact readSram_yields (by omega) hsram.2 _
    · rw [if_neg hsram, if_neg hsram]
      refine Yields.bind (read_fmap _) fun u' hu' => ?_
      rw [bankByte, ← hu, ← hu']
      rw [← hu, ← hu'] at hfmap
      refine readBank .rom (by omega) (by omega) fun hnone => ?_
      -- a selected bank exists
      have : ∀ k < 4, Space.flashbank k ≠ none := by decide
      exact absurd hnone (this _ hfmap)

/-! ## Writes -/

/-- A bank switch writes the selected bank. -/
theorem writeBank (sp : Space) {i : Int} (h0 : 0 ≤ i) (h1 : i < 0x8000) {k : Nat} {v : TMem}
    {s : MemState V} {x : MemProg V TMem} (hx : Space.flashbank k = none →
      Yields x s (v &&& 0xff) (stored (.cell sp i) v s.sys.mem)) :
    Yields (match Space.flashbank k with
      | some bank => bank.writeCells D i v
      | none => x) s (v &&& 0xff)
      (stored (.cell ((Space.flashbank k).getD sp) i) v s.sys.mem) := by
  cases hk : Space.flashbank k with
  | none => exact hx hk
  | some bank =>
    obtain ⟨hcode, hsize, hstart⟩ := flashbank_code hk
    have hcells : bank.cells i = .cell bank i := by rw [Space.cells, hstart, Int.sub_zero]
    have hv : ¬ bank.invalid i := Space.not_invalid (by omega) (by omega)
    have hwrite :=
      writeCells_quiet (D := D) hv (by rw [hcells]; exact Devices.quietAt_code hcode) v s
    rwa [hcells] at hwrite

theorem writeSram_yields {a : Int} (h0 : 0 ≤ a) (h1 : a < 0x2000) (v : TMem) (s : MemState V) :
    Yields (Space.writeSram D a v) s (v &&& 0xff) (stored (sramByte a) v s.sys.mem) := by
  have hv : ¬ Space.sram.invalid a :=
    Space.not_invalid h0 (by simpa [Space.startAddress, Space.size] using h1)
  rw [Space.writeSram, if_neg hv, sramByte]
  split
  · have hcells : Space.iram.cells (a - 0x1F00) = .cell .iram (a - 0x1F00) := by
      simp [Space.cells, Space.startAddress]
    have hwrite := writeCells_quiet (D := D)
      (Space.iram_valid (a := a - 0x1F00) (by omega) (by omega))
      (by rw [hcells]; exact Devices.quietAt_code rfl) v s
    rwa [hcells] at hwrite
  · have hcells : Space.sram.cells a = .cell .sram a := by simp [Space.cells, Space.startAddress]
    rw [hcells]
    exact Site.write_quiet (Devices.quietAt_code rfl) v s

/-- `xram->write` stores to the physical byte. -/
theorem writeXram_yields {a : Int} (h0 : 0 ≤ a) (h1 : a < 0x10000) {s : MemState V}
    (hq : D.QuietAt (xramByte (s.sys.mem mcon) a)) (v : TMem) :
    Yields (Space.writeXram D a v) s (v &&& 0xff)
      (stored (xramByte (s.sys.mem mcon) a) v s.sys.mem) := by
  have hcells (i : Int) : Space.xram.cells i = .cell .xram i := by
    simp [Space.cells, Space.startAddress]
  have hv : ¬ Space.xram.invalid a :=
    Space.not_invalid h0 (by simpa [Space.startAddress, Space.size] using h1)
  rw [xramByte] at hq ⊢
  rw [Space.writeXram, if_neg hv]
  split at hq
  · next hlow =>
    rw [if_pos hlow, if_pos hlow]
    exact writeSram_yields h0 hlow v s
  · next hlow =>
    rw [if_neg hlow, if_neg hlow]
    split at hq
    · next hsfr =>
      rw [if_pos hsfr, if_pos hsfr]
      exact writeCells_quiet (Space.sfr_valid (a := a - 0x7000) (by omega) (by omega)) hq v s
    · next hsfr =>
      rw [if_neg hsfr, if_neg hsfr]
      split at hq
      · next hhigh =>
        rw [if_pos hhigh, if_pos hhigh]
        refine Yields.bind (read_mcon s) fun u hu => ?_
        rw [bankByte] at hq ⊢
        rw [← hu]
        refine writeBank .xram (by omega) (by omega) fun hnone => ?_
        rw [hu] at hnone
        rw [hnone] at hq
        rw [hcells]
        exact Site.write_quiet hq v _
      · next hhigh =>
        rw [if_neg hhigh, if_neg hhigh, hcells]
        exact Site.write_quiet hq v s

/-! ## The memory map -/

/-- The bytes after a write to an address of `xram`, at another physical byte. -/
theorem stored_apply (c d : Site) (v : TMem) (mem : Site → TMem) :
    stored c v mem d
      = if d = c then v &&& 0xff
        else if c = acc ∧ d = psw then withParity v (mem psw) else mem d := by
  rw [stored]
  by_cases hd : d = c
  · subst hd
    rw [Function.update_self, if_pos rfl]
  · rw [Function.update_of_ne hd, if_neg hd]
    by_cases hc : c = acc
    · rw [if_pos hc]
      by_cases hp : d = psw
      · rw [hp, Function.update_self, if_pos ⟨hc, rfl⟩]
      · rw [Function.update_of_ne hp, if_neg (fun h => hp h.2)]
    · rw [if_neg hc, if_neg (fun h => hc h.1)]

/-- The map as the address spaces show it at a state. -/
structure MemoryMap (D : Devices Dev V) (s : MemState V) : Prop where
  /-- A write to `xram` is read back wherever the byte shows and nowhere else. The write of the
  accumulator updates the parity flag. -/
  write_read : ∀ a b : Int, ∀ v : TMem, 0 ≤ a → a < 0x10000 → 0 ≤ b → b < 0x10000 →
    v.toNat < 0x100 → D.QuietAt (xramByte (s.sys.mem mcon) a) →
    D.QuietAt (xramByte (s.sys.mem mcon) b) → xramByte (s.sys.mem mcon) a ≠ mcon →
    ∃ t old, (Space.xram.write D a v).run s = .ok (v, t) ∧
      (Space.xram.read D b).Returns s old ∧
      (Space.xram.read D b).Returns t
        (if xramByte (s.sys.mem mcon) b = xramByte (s.sys.mem mcon) a then v
        else if xramByte (s.sys.mem mcon) a = acc ∧ xramByte (s.sys.mem mcon) b = psw then
          withParity v old
        else old)
  iram_window : ∀ i : Int, 0 ≤ i → i < 0x100 →
    Space.iram.read D i = Space.xram.read D (0x1F00 + i)
  sfr_window : ∀ r : Int, 0x80 ≤ r → r < 0x100 →
    Space.sfr.read D r = Space.xram.read D (0x7000 + r)
  rom_low : ∀ c : Int, 0 ≤ c → c < 0x8000 →
    (Space.rom.read D c).Returns s (s.sys.mem (.cell .flashbank0 c))
  rom_sram : ∀ c : Int, 0x8000 ≤ c → c - 0x8000 < 0x2000 → s.sys.mem mcon &&& 0x08 ≠ 0 →
    (Space.rom.read D c).Returns s (s.sys.mem (sramByte (c - 0x8000)))
  rom_bank : ∀ (c : Int) (bank : Space), 0x8000 ≤ c → c < 0x10000 →
    ¬ (s.sys.mem mcon &&& 0x08 ≠ 0 ∧ c - 0x8000 < 0x2000) →
    Space.flashbank (s.sys.mem fmap &&& 0x07).toNat = some bank →
    (Space.rom.read D c).Returns s (s.sys.mem (.cell bank (c - 0x8000)))

/-- `MCON` is stored to at its own address only. -/
theorem stored_mcon {c : Site} (hc : c ≠ mcon) (v : TMem) (mem : Site → TMem) :
    stored c v mem mcon = mem mcon := by
  rw [stored_apply, if_neg (Ne.symm hc), if_neg (fun h => absurd h.2 (by decide))]

/-- In every state the spaces show the map. -/
theorem memoryMap (D : Devices Dev V) (s : MemState V) : MemoryMap D s where
  write_read a b v ha0 ha1 hb0 hb1 hv hqa hqb hne := by
    obtain ⟨u, hwrite, hmem⟩ := writeXram_yields ha0 ha1 hqa v
    rw [byte_and hv] at hwrite
    have hold := readXram_yields hb0 hb1 hqb
    have hmcon : u.mem mcon = s.sys.mem mcon := by rw [hmem]; exact stored_mcon hne v s.sys.mem
    rw [← hmcon] at hqb
    have hnew := readXram_yields (s := { s with sys := u }) hb0 hb1 hqb
    refine ⟨_, _, hwrite, hold.returns, ?_⟩
    have hval : u.mem (xramByte (u.mem mcon) b)
        = if xramByte (s.sys.mem mcon) b = xramByte (s.sys.mem mcon) a then v
          else if xramByte (s.sys.mem mcon) a = acc ∧ xramByte (s.sys.mem mcon) b = psw then
            withParity v (s.sys.mem (xramByte (s.sys.mem mcon) b))
          else s.sys.mem (xramByte (s.sys.mem mcon) b) := by
      rw [hmcon, hmem, stored_apply, byte_and hv]
      split
      · rfl
      · split
        · next h => rw [h.2]
        · rfl
    rw [← hval]
    exact hnew.returns
  iram_window i h0 h1 := by
    have hxram : Space.xram.read D (0x1F00 + i) = Space.iram.readCells D (0x1F00 + i - 0x1F00) := by
      change Space.readXram D (0x1F00 + i) = _
      rw [Space.readXram, if_pos (by omega), Space.readSram, if_pos (by omega)]
      rfl
    rw [hxram, add_sub_cancel_left]
    rfl
  sfr_window r h0 h1 := by
    have hxram : Space.xram.read D (0x7000 + r) = Space.sfr.readCells D (0x7000 + r - 0x7000) := by
      change Space.readXram D (0x7000 + r) = _
      rw [Space.readXram, if_neg (by omega), if_pos (by omega)]
      rfl
    rw [hxram, add_sub_cancel_left]
    rfl
  rom_low c h0 h1 := by
    change (Space.readRom D c).Returns s _
    rw [Space.readRom, if_pos h1]
    exact (readBank (k := 0) (x := throw .invalidFmap) .rom h0 h1
      (fun h => nomatch h)).returns
  rom_sram c h0 h1 hexec := by
    have hidx : c % 0x8000 = c - 0x8000 := by omega
    change (Space.readRom D c).Returns s _
    rw [Space.readRom, if_neg (by omega)]
    refine (?_ : Yields _ s _ s.sys.mem).returns
    refine (read_mcon s).bind fun u hu => ?_
    dsimp only
    rw [hidx, if_pos ⟨hexec, h1⟩, ← hu]
    exact readSram_yields (by omega) h1 _
  rom_bank c bank h0 h1 hexec hbank := by
    have hidx : c % 0x8000 = c - 0x8000 := by omega
    have hfmap : (s.sys.mem fmap &&& 0x07).toNat < 4 := by
      have : ∀ k, ¬ k < 4 → Space.flashbank k = none := by
        intro k hk
        match k with
        | 0 | 1 | 2 | 3 => omega
        | _ + 4 => rfl
      by_contra hk
      rw [this _ hk] at hbank
      cases hbank
    have hread := readRom_yields (D := D) (a := c) (by omega) hfmap
    rw [romByte, if_neg (by omega), hidx, if_neg hexec, bankByte, hbank] at hread
    exact hread.returns

/-! ## The accumulator is no plain byte -/

/-- A write to an address of `xram` changes no byte that has another physical byte. -/
def WritesApart (D : Devices Dev V) (s : MemState V) : Prop :=
  ∀ a b : Int, ∀ v : TMem, 0 ≤ a → a < 0x10000 → 0 ≤ b → b < 0x10000 → v.toNat < 0x100 →
    xramByte (s.sys.mem mcon) a ≠ mcon →
    xramByte (s.sys.mem mcon) b ≠ xramByte (s.sys.mem mcon) a → ∀ t old,
    (Space.xram.write D a v).run s = .ok (v, t) → (Space.xram.read D b).Returns s old →
    (Space.xram.read D b).Returns t old

/-- No callback of the core's own hardware alters the value that is written. Yet a 1 written to the
accumulator at `0x70E0` appears in the status byte at `0x70D0` as well, and the top page of `sram` in
`rom` is that of `iram`. -/
theorem not_writesApart_acc :
    (∀ h c v st, (noDevices.hardware.write h c v st).1 = v) ∧
      ¬ WritesApart noDevices (blank fun _ => 0) ∧
      (Space.rom.read noDevices 0x9F00).Returns
        (blank fun c => if c = mcon then 8 else if c = .cell .sram 0x1F00 then 1 else 0) 0 := by
  refine ⟨?_, ?_, ⟨_, rfl⟩⟩
  · rintro (d | _ | _) c v st
    · exact d.elim
    · rfl
    · rfl
  · intro h
    obtain ⟨t, ht⟩ := h 0x70E0 0x70D0 1 (by decide) (by decide) (by decide) (by decide) (by decide)
      (by decide) (by decide) _ 0 rfl ⟨_, rfl⟩
    have hne : (1 : TMem) ≠ 0 := by decide
    exact hne (congrArg Prod.fst (Except.ok.inj ht))

end Ucsim.S51
