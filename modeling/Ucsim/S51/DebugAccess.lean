import Ucsim.S51.MemoryMap

/-!
# Debug access: `get` and `set`

`get` and `set` repeat the bank switches of `read` and `write` without the callbacks. They do not agree
with each other everywhere: `rom` is set in cells that nothing reads, and the bank switch of `xram->set`
falls through.
-/

namespace Ucsim.S51

open Logic

variable {Dev V : Type} {D : Devices Dev V}

/-- The physical byte of an address. -/
def spaceByte (m f : TMem) : Space → Int → Site
  | .rom, a => romByte m f a
  | .xram, a => xramByte m a
  | .sram, a => sramByte a
  | sp, a => sp.cells a

/-- The flash banks in the order of the bank switch. -/
def flashbanks : List Space := [.flashbank0, .flashbank1, .flashbank2, .flashbank3]

/-- The cells that `set` stores to. -/
def setSites (m : TMem) : Space → Int → List Site
  | .rom, a => [.cell .rom a]
  | .xram, a =>
    if a ≥ 0x8000 then
      (flashbanks.drop (m &&& 0x07).toNat).map (.cell · (a % 0x8000)) ++ [.cell .xram (a % 0x8000)]
    else [xramByte m a]
  | .sram, a => [sramByte a]
  | sp, a => [sp.cells a]

/-! ## What `get` and `set` do -/

theorem get_yields (c : Site) (s : MemState V) : Yields (c.get D) s (s.sys.mem c) s.sys.mem :=
  ⟨s.sys, Site.get_run c s, rfl⟩

theorem getCells_yields {sp : Space} {a : Int} (hv : ¬ sp.invalid a) (s : MemState V) :
    Yields (sp.getCells D a) s (s.sys.mem (sp.cells a)) s.sys.mem := by
  rw [Space.getCells, if_neg hv]
  exact get_yields _ s

/-- A bank switch gets from the selected bank. -/
theorem getBank (sp : Space) {i : Int} (h0 : 0 ≤ i) (h1 : i < 0x8000) {k : Nat} {s : MemState V}
    {x : MemProg V TMem} (hx : Space.flashbank k = none →
      Yields x s (s.sys.mem (.cell sp i)) s.sys.mem) :
    Yields (match Space.flashbank k with
      | some bank => bank.getCells D i
      | none => x) s (s.sys.mem (.cell ((Space.flashbank k).getD sp) i)) s.sys.mem := by
  cases hk : Space.flashbank k with
  | none => exact hx hk
  | some bank =>
    obtain ⟨-, hsize, hstart⟩ := flashbank_code hk
    have hcells : bank.cells i = .cell bank i := by rw [Space.cells, hstart, Int.sub_zero]
    have hv : ¬ bank.invalid i := Space.not_invalid (by omega) (by omega)
    have hget := getCells_yields (D := D) hv s
    rwa [hcells] at hget

theorem getSram_yields {a : Int} (h0 : 0 ≤ a) (h1 : a < 0x2000) (s : MemState V) :
    Yields (Space.getSram D a) s (s.sys.mem (sramByte a)) s.sys.mem := by
  rw [Space.getSram, sramByte]
  split
  · have hcells : Space.iram.cells (a - 0x1F00) = .cell .iram (a - 0x1F00) := by
      simp [Space.cells, Space.startAddress]
    have hget := getCells_yields (D := D)
      (Space.iram_valid (a := a - 0x1F00) (by omega) (by omega)) s
    rwa [hcells] at hget
  · have hcells : Space.sram.cells a = .cell .sram a := by simp [Space.cells, Space.startAddress]
    rw [hcells]
    exact get_yields _ s

theorem getXram_yields {a : Int} (h0 : 0 ≤ a) (s : MemState V) :
    Yields (Space.getXram D a) s (s.sys.mem (xramByte (s.sys.mem mcon) a)) s.sys.mem := by
  have hcells (i : Int) : Space.xram.cells i = .cell .xram i := by
    simp [Space.cells, Space.startAddress]
  rw [Space.getXram, xramByte]
  split
  · next hlow => exact getSram_yields h0 hlow s
  · split
    · exact getCells_yields (Space.sfr_valid (a := a - 0x7000) (by omega) (by omega)) s
    · split
      · refine Yields.bind (read_mcon s) fun u hu => ?_
        rw [bankByte, ← hu]
        refine getBank .xram (by omega) (by omega) fun _ => ?_
        rw [hcells]
        exact get_yields _ _
      · rw [hcells]
        exact get_yields _ s

theorem getRom_yields {a : Int} (h0 : 0 ≤ a) (s : MemState V) :
    Yields (Space.getRom D a) s (s.sys.mem (romByte (s.sys.mem mcon) (s.sys.mem fmap) a))
      s.sys.mem := by
  rw [Space.getRom, romByte]
  split
  · next hlow =>
    exact getBank (k := 0) (x := (Space.rom.cells a).get D) .rom h0 hlow (by rintro ⟨⟩)
  · next hlow =>
    refine Yields.bind (read_fmap s) fun u hu => ?_
    refine Yields.bind (read_mcon _) fun u' hu' => ?_
    have hmem : u'.mem = s.sys.mem := hu'.trans hu
    dsimp only
    rw [hu]
    by_cases hsram : s.sys.mem mcon &&& 0x08 ≠ 0 ∧ a % 0x8000 < 0x2000
    · rw [if_pos hsram, if_pos hsram, ← hmem]
      exact getSram_yields (by omega) hsram.2 _
    · rw [if_neg hsram, if_neg hsram, bankByte, ← hmem]
      refine getBank .rom (by omega) (by omega) fun _ => ?_
      have hcells : Space.rom.cells (a % 0x8000) = .cell .rom (a % 0x8000) := by
        simp [Space.cells, Space.startAddress]
      rw [hcells]
      exact get_yields _ _

/-- `get` returns the physical byte. -/
theorem spaceGet_yields {sp : Space} {a : Int} (hv : ¬ sp.invalid a) (s : MemState V) :
    Yields (sp.get D a) s (s.sys.mem (spaceByte (s.sys.mem mcon) (s.sys.mem fmap) sp a))
      s.sys.mem := by
  have hrange : ¬ (a - sp.startAddress ≥ sp.size ∨ a < sp.startAddress) := hv
  cases sp with
  | rom => exact getRom_yields (by simp [Space.startAddress] at hrange; omega) s
  | xram => exact getXram_yields (by simp [Space.startAddress] at hrange; omega) s
  | sram =>
    simp only [Space.startAddress, Space.size] at hrange
    exact getSram_yields (by omega) (by omega) s
  | iram | sfr | flashbank0 | flashbank1 | flashbank2 | flashbank3 => exact getCells_yields hv s

/-- The bytes after `v` is set in some cells. -/
def setBytes (cs : List Site) (v : TMem) (mem : Site → TMem) : Site → TMem :=
  fun c => if c ∈ cs then v &&& 0xff else mem c

theorem set_yields (sp : Space) (idx : Int) (v : TMem) (s : MemState V) :
    Yields (discard ((Site.cell sp idx).set D v)) s () (setBytes [.cell sp idx] v s.sys.mem) := by
  refine ⟨s.sys.store (.cell sp idx) (v &&& 0xff), rfl, ?_⟩
  funext c
  rw [Sys.store_mem, Function.update_apply, setBytes]
  simp

theorem setCells_yields {sp : Space} {a : Int} (hv : ¬ sp.invalid a) (v : TMem) (s : MemState V) :
    Yields (sp.setCells D a v) s () (setBytes [sp.cells a] v s.sys.mem) := by
  rw [Space.setCells, if_neg hv]
  exact set_yields sp _ v s

/-- Setting one byte in several spaces. -/
theorem setBanks_yields {i : Int} (h0 : 0 ≤ i) (h1 : i < 0x8000) (v : TMem) :
    ∀ (banks : List Space) (s : MemState V), (∀ bank ∈ banks, bank ∈ flashbanks) →
      Yields (banks.forM (·.setCells D i v)) s () (setBytes (banks.map (.cell · i)) v s.sys.mem)
  | [], s, _ => by
    refine ⟨s.sys, rfl, ?_⟩
    funext c
    simp [setBytes]
  | bank :: banks, s, hbanks => by
    have hbank : ∀ b ∈ flashbanks, b.startAddress = 0 ∧ b.size = 0x8000 := by decide
    obtain ⟨hstart, hsize⟩ := hbank bank (hbanks bank List.mem_cons_self)
    have hcells : bank.cells i = .cell bank i := by rw [Space.cells, hstart, Int.sub_zero]
    have hv : ¬ bank.invalid i := Space.not_invalid (by omega) (by omega)
    have hset := setCells_yields (D := D) hv v s
    rw [hcells] at hset
    refine Yields.bind hset fun u hu => ?_
    have hrest := setBanks_yields h0 h1 v banks { s with sys := u }
      (fun b hb => hbanks b (List.mem_cons_of_mem bank hb))
    have hmem : setBytes ((bank :: banks).map (Site.cell · i)) v s.sys.mem
        = setBytes (banks.map (Site.cell · i)) v u.mem := by
      funext c
      rw [hu, setBytes, setBytes, setBytes]
      by_cases hc : c = .cell bank i
      · simp [hc]
      · simp [hc]
    rw [hmem]
    exact hrest

theorem setSram_yields {a : Int} (h0 : 0 ≤ a) (h1 : a < 0x2000) (v : TMem) (s : MemState V) :
    Yields (Space.setSram D a v) s () (setBytes [sramByte a] v s.sys.mem) := by
  have hv : ¬ Space.sram.invalid a :=
    Space.not_invalid h0 (by simpa [Space.startAddress, Space.size] using h1)
  rw [Space.setSram, if_neg hv, sramByte]
  split
  · have hcells : Space.iram.cells (a - 0x1F00) = .cell .iram (a - 0x1F00) := by
      simp [Space.cells, Space.startAddress]
    have hset := setCells_yields (D := D)
      (Space.iram_valid (a := a - 0x1F00) (by omega) (by omega)) v s
    rwa [hcells] at hset
  · have hcells : Space.sram.cells a = .cell .sram a := by simp [Space.cells, Space.startAddress]
    rw [hcells]
    exact set_yields .sram a v s

theorem setXram_yields {a : Int} (h0 : 0 ≤ a) (h1 : a < 0x10000) (v : TMem) (s : MemState V) :
    Yields (Space.setXram D a v) s ()
      (setBytes (setSites (s.sys.mem mcon) .xram a) v s.sys.mem) := by
  have hcells (i : Int) : Space.xram.cells i = .cell .xram i := by
    simp [Space.cells, Space.startAddress]
  have hv : ¬ Space.xram.invalid a :=
    Space.not_invalid h0 (by simpa [Space.startAddress, Space.size] using h1)
  rw [Space.setXram, if_neg hv, setSites, xramByte]
  split
  · next hlow =>
    rw [if_neg (show ¬ a ≥ 0x8000 by omega)]
    exact setSram_yields h0 hlow v s
  · split
    · next hsfr =>
      rw [if_neg (show ¬ a ≥ 0x8000 by omega)]
      exact setCells_yields (Space.sfr_valid (a := a - 0x7000) (by omega) (by omega)) v s
    · split
      · refine Yields.bind (read_mcon s) fun u hu => ?_
        have hbanks := setBanks_yields (D := D) (i := a % 0x8000) (by omega) (by omega) v
          (flashbanks.drop (s.sys.mem mcon &&& 0x07).toNat) { s with sys := u }
          (fun b hb => List.mem_of_mem_drop hb)
        refine Yields.bind hbanks fun u' hu' => ?_
        have hset := set_yields (D := D) .xram (a % 0x8000) v { s with sys := u' }
        have hmem : setBytes ((flashbanks.drop (s.sys.mem mcon &&& 0x07).toNat).map
              (Site.cell · (a % 0x8000)) ++ [.cell .xram (a % 0x8000)]) v s.sys.mem
            = setBytes [.cell .xram (a % 0x8000)] v u'.mem := by
          funext c
          rw [hu', setBytes, setBytes, setBytes, hu]
          by_cases hc : c = .cell .xram (a % 0x8000)
          · simp [hc]
          · simp [hc]
        rw [hmem, hcells]
        exact hset
      · rw [hcells]
        exact set_yields .xram a v s

/-- `set` stores to the cells `setSites` and leaves all other bytes alone. -/
theorem spaceSet_yields {sp : Space} {a : Int} (hv : ¬ sp.invalid a) (v : TMem) (s : MemState V) :
    Yields (sp.set D a v) s () (setBytes (setSites (s.sys.mem mcon) sp a) v s.sys.mem) := by
  have hrange : ¬ (a - sp.startAddress ≥ sp.size ∨ a < sp.startAddress) := hv
  cases sp with
  | rom =>
    have hset := setCells_yields (D := D) hv v s
    have hcells : Space.rom.cells a = .cell .rom a := by simp [Space.cells, Space.startAddress]
    rw [hcells] at hset
    exact hset
  | xram =>
    simp only [Space.startAddress, Space.size] at hrange
    exact setXram_yields (by omega) (by omega) v s
  | sram =>
    simp only [Space.startAddress, Space.size] at hrange
    exact setSram_yields (by omega) (by omega) v s
  | iram | sfr | flashbank0 | flashbank1 | flashbank2 | flashbank3 => exact setCells_yields hv v s

/-! ## When `get` and `set` agree -/

/-- After `set(a, v)`, `get(a)` returns `v`, and `get` of every address with another physical byte
returns what it returned before. -/
def DebugConsistent (D : Devices Dev V) (s : MemState V) (sp : Space) (a : Int) (v : TMem) : Prop :=
  ∃ t, (sp.set D a v).run s = .ok ((), t) ∧ (sp.get D a).Returns t v ∧
    ∀ (sp' : Space) (b : Int), ¬ sp'.invalid b →
      spaceByte (s.sys.mem mcon) (s.sys.mem fmap) sp' b
        ≠ spaceByte (s.sys.mem mcon) (s.sys.mem fmap) sp a →
      ∀ r, (sp'.get D b).Returns s r → (sp'.get D b).Returns t r

/-- The index of an `xram` cell that reads of `xram` never reach. -/
def XramHidden (i : Int) : Prop := i < 0x2000 ∨ (i ≥ 0x7080 ∧ i < 0x7100)

/-- The cells that `set` should not store to hold the value already. In `rom` that is the byte read, in
the banked window of `xram` the same byte of the higher banks and of the space's own cell. -/
def SetHarmless (s : MemState V) (sp : Space) (a : Int) (v : TMem) : Prop :=
  match sp with
  | .rom => s.sys.mem (romByte (s.sys.mem mcon) (s.sys.mem fmap) a) = v
  | .xram => a ≥ 0x8000 →
    (∀ bank ∈ flashbanks.drop ((s.sys.mem mcon &&& 0x07).toNat + 1),
      s.sys.mem (.cell bank (a % 0x8000)) = v) ∧
    (XramHidden (a % 0x8000) ∨ s.sys.mem (.cell .xram (a % 0x8000)) = v)
  | _ => True

/-- A byte that some address shows. -/
def Shown (s : MemState V) (c : Site) : Prop :=
  ∃ (sp : Space) (b : Int), ¬ sp.invalid b ∧
    spaceByte (s.sys.mem mcon) (s.sys.mem fmap) sp b = c

/-- What consistency asks of the cells that `set` stores to. -/
theorem debugConsistent_iff_sites {s : MemState V} {sp : Space} {a : Int} {v : TMem}
    (hv : ¬ sp.invalid a) (hbyte : v.toNat < 0x100)
    (hm : mcon ∉ setSites (s.sys.mem mcon) sp a) (hf : fmap ∉ setSites (s.sys.mem mcon) sp a) :
    DebugConsistent D s sp a v ↔
      (spaceByte (s.sys.mem mcon) (s.sys.mem fmap) sp a ∈ setSites (s.sys.mem mcon) sp a ∨
        s.sys.mem (spaceByte (s.sys.mem mcon) (s.sys.mem fmap) sp a) = v) ∧
      ∀ c ∈ setSites (s.sys.mem mcon) sp a,
        c ≠ spaceByte (s.sys.mem mcon) (s.sys.mem fmap) sp a → Shown s c → s.sys.mem c = v := by
  obtain ⟨u, hrun, hmem⟩ := spaceSet_yields (D := D) hv v s
  have happly (c : Site) : u.mem c
      = if c ∈ setSites (s.sys.mem mcon) sp a then v else s.sys.mem c := by
    rw [hmem, setBytes, byte_and hbyte]
  have hm' : u.mem mcon = s.sys.mem mcon := by rw [happly, if_neg hm]
  have hf' : u.mem fmap = s.sys.mem fmap := by rw [happly, if_neg hf]
  -- after the step the spaces show the same map
  have hget {sp' : Space} {b : Int} (hb : ¬ sp'.invalid b) :
      Yields (sp'.get D b) { s with sys := u }
        (u.mem (spaceByte (s.sys.mem mcon) (s.sys.mem fmap) sp' b)) u.mem := by
    have := spaceGet_yields (D := D) hb { s with sys := u }
    dsimp only at this
    rwa [hm', hf'] at this
  constructor
  · rintro ⟨t, hset, ⟨t', hself⟩, hother⟩
    rw [hrun, Except.ok.injEq, Prod.mk.injEq] at hset
    obtain ⟨-, rfl⟩ := hset
    refine ⟨?_, ?_⟩
    · have hval := (hget hv).val_eq hself
      rw [happly] at hval
      split at hval
      · next hin => exact Or.inl hin
      · exact Or.inr hval.symm
    · rintro c hc hne ⟨sp', b, hb, rfl⟩
      obtain ⟨t'', hafter⟩ := hother sp' b hb hne _ (spaceGet_yields hb s).returns
      have hval := (hget hb).val_eq hafter
      rwa [happly, if_pos hc] at hval
  · rintro ⟨hself, hother⟩
    refine ⟨_, hrun, ?_, ?_⟩
    · have hval : u.mem (spaceByte (s.sys.mem mcon) (s.sys.mem fmap) sp a) = v := by
        rw [happly]
        split
        · rfl
        · next hnot => exact hself.resolve_left hnot
      rw [← hval]
      exact (hget hv).returns
    · rintro sp' b hb hne r ⟨t, hr⟩
      have hold := (spaceGet_yields hb s).val_eq hr
      have hval : u.mem (spaceByte (s.sys.mem mcon) (s.sys.mem fmap) sp' b) = r := by
        rw [happly, hold]
        split
        · next hin => exact (hother _ hin hne ⟨sp', b, hb, rfl⟩).symm
        · rfl
      rw [← hval]
      exact (hget hb).returns

/-- The selected bank, and the banks behind it. -/
theorem flashbank_drop : ∀ k < 4, ∃ bank, Space.flashbank k = some bank ∧
    flashbanks.drop k = bank :: flashbanks.drop (k + 1) ∧ bank ∉ flashbanks.drop (k + 1) := by
  decide

/-- A register that selects an existing bank shows a byte of it. -/
theorem bankByte_mem {reg : TMem} (h : (reg &&& 0x07).toNat < 4) (sp : Space) (i : Int) :
    ∃ bank ∈ flashbanks, bankByte sp reg i = .cell bank i := by
  obtain ⟨bank, hbank, hdrop, -⟩ := flashbank_drop _ h
  refine ⟨bank, List.mem_of_mem_drop (i := (reg &&& 0x07).toNat) ?_, ?_⟩
  · rw [hdrop]
    exact List.mem_cons_self
  · rw [bankByte, hbank]
    rfl

/-- The spaces whose cells hold the bytes that the map shows. -/
def physicalSpaces : List Space :=
  [.flashbank0, .flashbank1, .flashbank2, .flashbank3, .sram, .iram, .sfr]

theorem flashbanks_physical : ∀ bank ∈ flashbanks, bank ∈ physicalSpaces := by decide

theorem sramByte_physical (a : Int) : ∃ sp ∈ physicalSpaces, ∃ i, sramByte a = .cell sp i := by
  rw [sramByte]
  split
  · exact ⟨.iram, by decide, _, rfl⟩
  · exact ⟨.sram, by decide, _, rfl⟩

/-- An address shows a cell of one of those spaces, or it is an address of `xram` that is mapped nowhere
else. -/
theorem spaceByte_cases {m f : TMem} (hm : (m &&& 0x07).toNat < 4) (hf : (f &&& 0x07).toNat < 4)
    (sp : Space) (b : Int) :
    (∃ sp' ∈ physicalSpaces, ∃ i, spaceByte m f sp b = .cell sp' i) ∨
      (spaceByte m f sp b = .cell .xram b ∧ ¬ XramHidden b) := by
  have hbank {reg : TMem} (h : (reg &&& 0x07).toNat < 4) (own : Space) (i : Int) :
      ∃ sp' ∈ physicalSpaces, ∃ j, bankByte own reg i = .cell sp' j := by
    obtain ⟨bank, hmem, hbyte⟩ := bankByte_mem h own i
    exact ⟨bank, flashbanks_physical bank hmem, i, hbyte⟩
  cases sp with
  | rom =>
    refine Or.inl ?_
    rw [spaceByte, romByte]
    split
    · exact ⟨.flashbank0, by decide, _, rfl⟩
    · split
      · exact sramByte_physical _
      · exact hbank hf .rom _
  | xram =>
    rw [spaceByte, xramByte]
    split
    · exact Or.inl (sramByte_physical b)
    · next hlow =>
      split
      · exact Or.inl ⟨.sfr, by decide, _, rfl⟩
      · next hsfr =>
        split
        · exact Or.inl (hbank hm .xram _)
        · exact Or.inr ⟨rfl, fun h => h.elim hlow hsfr⟩
  | sram => exact Or.inl (sramByte_physical b)
  | iram => exact Or.inl ⟨.iram, by decide, _, rfl⟩
  | sfr => exact Or.inl ⟨.sfr, by decide, _, rfl⟩
  | flashbank0 => exact Or.inl ⟨.flashbank0, by decide, _, rfl⟩
  | flashbank1 => exact Or.inl ⟨.flashbank1, by decide, _, rfl⟩
  | flashbank2 => exact Or.inl ⟨.flashbank2, by decide, _, rfl⟩
  | flashbank3 => exact Or.inl ⟨.flashbank3, by decide, _, rfl⟩

/-- No address shows a cell of `rom`. -/
theorem not_shown_rom {s : MemState V} (hm : (s.sys.mem mcon &&& 0x07).toNat < 4)
    (hf : (s.sys.mem fmap &&& 0x07).toNat < 4) (i : Int) : ¬ Shown s (.cell .rom i) := by
  rintro ⟨sp, b, -, h⟩
  rcases spaceByte_cases hm hf sp b with ⟨sp', hsp', j, hbyte⟩ | ⟨hbyte, -⟩
  · rw [hbyte] at h
    cases h
    exact absurd hsp' (by decide)
  · rw [hbyte] at h
    cases h

/-- Only `xram` shows its own cells, and not the hidden ones. -/
theorem shown_xram_iff {s : MemState V} (hm : (s.sys.mem mcon &&& 0x07).toNat < 4)
    (hf : (s.sys.mem fmap &&& 0x07).toNat < 4) {i : Int} (h0 : 0 ≤ i) (h1 : i < 0x8000) :
    Shown s (.cell .xram i) ↔ ¬ XramHidden i := by
  constructor
  · rintro ⟨sp, b, -, h⟩
    rcases spaceByte_cases hm hf sp b with ⟨sp', hsp', j, hbyte⟩ | ⟨hbyte, hhidden⟩
    · rw [hbyte] at h
      cases h
      exact absurd hsp' (by decide)
    · rw [hbyte] at h
      cases h
      exact hhidden
  · intro hhidden
    rw [XramHidden] at hhidden
    refine ⟨.xram, i, Space.not_invalid h0 ?_, ?_⟩
    · simp only [Space.startAddress, Space.size]
      omega
    · rw [spaceByte, xramByte, if_neg (by omega), if_neg (by omega), if_neg (by omega)]

/-- A flash bank shows its own bytes. -/
theorem shown_flashbank {s : MemState V} {bank : Space} (hbank : bank ∈ flashbanks) {i : Int}
    (h0 : 0 ≤ i) (h1 : i < 0x8000) : Shown s (.cell bank i) := by
  have hfacts : ∀ b ∈ flashbanks, b.startAddress = 0 ∧ b.size = 0x8000 := by decide
  obtain ⟨hstart, hsize⟩ := hfacts bank hbank
  refine ⟨bank, i, Space.not_invalid (by omega) (by omega), ?_⟩
  have hcells : bank.cells i = .cell bank i := by rw [Space.cells, hstart, Int.sub_zero]
  rw [← hcells]
  rcases List.mem_cons.mp hbank with rfl | hbank
  · rfl
  rcases List.mem_cons.mp hbank with rfl | hbank
  · rfl
  rcases List.mem_cons.mp hbank with rfl | hbank
  · rfl
  · obtain rfl := List.mem_singleton.mp hbank
    rfl

/-- The bank switch of `set` stores to no register. -/
theorem sfr_not_mem_banks (r : Int) (k : Nat) (i : Int) :
    Site.sfr r ∉ (flashbanks.drop k).map (Site.cell · i) ++ [.cell .xram i] := by
  intro h
  rcases List.mem_append.mp h with hbank | hxram
  · obtain ⟨bank, hmem, heq⟩ := List.mem_map.mp hbank
    cases heq
    exact absurd (List.mem_of_mem_drop hmem) (by decide)
  · simp [Site.sfr] at hxram

/-- The banked window of `xram`: the switch falls through to the banks behind the selected one and to
the space's own cell. -/
theorem debugConsistent_banked {s : MemState V} {a : Int} {v : TMem} (hv : ¬ Space.xram.invalid a)
    (hbyte : v.toNat < 0x100) (hm : (s.sys.mem mcon &&& 0x07).toNat < 4)
    (hf : (s.sys.mem fmap &&& 0x07).toNat < 4) (hhigh : a ≥ 0x8000) :
    DebugConsistent D s .xram a v ↔ SetHarmless s .xram a v := by
  have hi0 : 0 ≤ a % 0x8000 := by omega
  have hi1 : a % 0x8000 < 0x8000 := by omega
  obtain ⟨bank, hbank, hdrop, hnot⟩ := flashbank_drop _ hm
  have htarget : spaceByte (s.sys.mem mcon) (s.sys.mem fmap) .xram a = .cell bank (a % 0x8000) := by
    rw [spaceByte, xramByte, if_neg (by omega), if_neg (by omega), if_pos hhigh, bankByte, hbank]
    rfl
  have hsites : setSites (s.sys.mem mcon) .xram a
      = (flashbanks.drop (s.sys.mem mcon &&& 0x07).toNat).map (Site.cell · (a % 0x8000))
        ++ [.cell .xram (a % 0x8000)] := by
    rw [setSites, if_pos hhigh]
  have hxram : Space.xram ∉ flashbanks := by decide
  have hbank' : bank ∈ flashbanks := by
    refine List.mem_of_mem_drop (i := (s.sys.mem mcon &&& 0x07).toNat) ?_
    rw [hdrop]
    exact List.mem_cons_self
  rw [debugConsistent_iff_sites hv hbyte (by rw [hsites]; exact sfr_not_mem_banks _ _ _)
    (by rw [hsites]; exact sfr_not_mem_banks _ _ _), hsites, htarget, hdrop]
  constructor
  · rintro ⟨-, hother⟩ -
    refine ⟨fun b hb => ?_, ?_⟩
    · refine hother _ ?_ ?_ (shown_flashbank (List.mem_of_mem_drop hb) hi0 hi1)
      · exact List.mem_append_left _ (List.mem_map.mpr ⟨b, List.mem_cons_of_mem bank hb, rfl⟩)
      · intro h
        cases h
        exact hnot hb
    · by_cases hhidden : XramHidden (a % 0x8000)
      · exact Or.inl hhidden
      · refine Or.inr (hother _ (by simp) ?_ ((shown_xram_iff hm hf hi0 hi1).mpr hhidden))
        intro h
        cases h
        exact hxram hbank'
  · intro hharmless
    obtain ⟨hbanks, hown⟩ := hharmless hhigh
    refine ⟨Or.inl (by simp), fun c hc hne hshown => ?_⟩
    rcases List.mem_append.mp hc with hmem | hmem
    · obtain ⟨b, hb, rfl⟩ := List.mem_map.mp hmem
      rcases List.mem_cons.mp hb with rfl | hb
      · exact absurd rfl hne
      · exact hbanks b hb
    · obtain rfl := List.mem_singleton.mp hmem
      exact hown.resolve_left ((shown_xram_iff hm hf hi0 hi1).mp hshown)

/-- `set` and `get` agree iff `set` stores no further byte that differs. -/
theorem debugConsistent_iff (D : Devices Dev V) {s : MemState V} {sp : Space} {a : Int} {v : TMem}
    (hv : ¬ sp.invalid a) (hbyte : v.toNat < 0x100) (hm : (s.sys.mem mcon &&& 0x07).toNat < 4)
    (hf : (s.sys.mem fmap &&& 0x07).toNat < 4)
    (hmcon : spaceByte (s.sys.mem mcon) (s.sys.mem fmap) sp a ≠ mcon)
    (hfmap : spaceByte (s.sys.mem mcon) (s.sys.mem fmap) sp a ≠ fmap) :
    DebugConsistent D s sp a v ↔ SetHarmless s sp a v := by
  -- one cell is set, the one that is read
  have hsingle (hsites : setSites (s.sys.mem mcon) sp a
      = [spaceByte (s.sys.mem mcon) (s.sys.mem fmap) sp a]) : DebugConsistent D s sp a v := by
    rw [debugConsistent_iff_sites hv hbyte (by rw [hsites]; simpa using hmcon.symm)
      (by rw [hsites]; simpa using hfmap.symm), hsites]
    refine ⟨Or.inl List.mem_cons_self, fun c hc hne => ?_⟩
    exact absurd (List.mem_singleton.mp hc) hne
  cases sp with
  | rom =>
    have hsites : setSites (s.sys.mem mcon) .rom a = [.cell .rom a] := rfl
    have hne : spaceByte (s.sys.mem mcon) (s.sys.mem fmap) .rom a ≠ .cell .rom a :=
      fun h => not_shown_rom hm hf a ⟨.rom, a, hv, h⟩
    rw [debugConsistent_iff_sites hv hbyte (by rw [hsites]; simp [Site.sfr])
      (by rw [hsites]; simp [Site.sfr]), hsites]
    constructor
    · rintro ⟨hself, -⟩
      exact hself.resolve_left (by simpa using hne)
    · intro hval
      refine ⟨Or.inr hval, fun c hc _ hshown => ?_⟩
      rw [List.mem_singleton.mp hc] at hshown
      exact absurd hshown (not_shown_rom hm hf a)
  | xram =>
    by_cases hhigh : a ≥ 0x8000
    · exact debugConsistent_banked hv hbyte hm hf hhigh
    · have hsites : setSites (s.sys.mem mcon) .xram a
          = [spaceByte (s.sys.mem mcon) (s.sys.mem fmap) .xram a] := by
        rw [setSites, if_neg hhigh]
        rfl
      exact ⟨fun _ h => absurd h hhigh, fun _ => hsingle hsites⟩
  | sram => exact ⟨fun _ => trivial, fun _ => hsingle rfl⟩
  | iram | sfr | flashbank0 | flashbank1 | flashbank2 | flashbank3 =>
    exact ⟨fun _ => trivial, fun _ => hsingle rfl⟩

/-- The theorem at work: `set` through the window of `iram`. -/
theorem debugConsistent_iram_window :
    DebugConsistent noDevices (blank fun _ => 0) .xram 0x1F05 7 :=
  (debugConsistent_iff noDevices (by decide) (by decide) (by decide) (by decide) (by decide)
    (by decide)).mpr (fun h => absurd h (by decide))

/-- With bank 0 selected, `xram->set(0x8000, 1)` sets byte 0 of all four banks, and `rom->set(0, 1)` is
not seen by `rom->get(0)`. -/
theorem not_debugConsistent_banked :
    ¬ DebugConsistent noDevices (blank fun _ => 0) .xram 0x8000 1 ∧
      ¬ DebugConsistent noDevices (blank fun _ => 0) .rom 0 1 := by
  constructor
  · rw [debugConsistent_banked (by decide) (by decide) (by decide) (by decide) (by decide)]
    intro h
    exact absurd ((h (by decide)).1 .flashbank1 (by decide)) (by decide)
  · rw [debugConsistent_iff_sites (by decide) (by decide) (by decide) (by decide)]
    rintro ⟨hin | hval, -⟩
    · exact absurd hin (by decide)
    · exact absurd hval (by decide)

end Ucsim.S51
