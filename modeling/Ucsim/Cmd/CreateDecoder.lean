import Ucsim.Sim.SpaceRun

/-!
# The command that creates an address decoder

`memory createaddressdecoder` takes an address space and a chip, and in its longer forms the range of
addresses and the first slot of the chip. It checks them before a decoder is added to the space and
activated, and `activate` checks them once more.
-/

namespace Ucsim.Cmd

open AddressSpace Logic

variable {Hw : Type}

/-- The answers of the command when it does not create a decoder. -/
inductive Refusal
  | notAddressSpace | notMemoryChip | wrongAddressArea | wrongChipArea | outOfAddressSpace
  | outOfChipSize
  deriving DecidableEq, Repr

/-- The forms of the command line: `m` is a memory, `n` a number. -/
inductive CreateLine
  | mm
  | mmn (chip_begin : BitVec 64)
  | mnm (as_begin : BitVec 64)
  | mnmn (as_begin chip_begin : BitVec 64)
  | mnnm (as_begin as_end : BitVec 64)
  | mnnmn (as_begin as_end chip_begin : BitVec 64)

/-- A `long` as a `t_addr`. -/
def toAddr (n : BitVec 64) : Int := (n.setWidth 32).toInt

/-- The variables `as_begin`, `as_end` and `chip_begin` of the command. -/
structure DecoderArea where
  as_begin : Int
  as_end : Int
  chip_begin : Int
  deriving DecidableEq, Repr

/-- `highest_valid_address`. -/
def highestValidAddress (sp : AddressSpace Hw) : Int := sp.startAddress + sp.size - 1

/-- The variables after the command line has been read. -/
def CreateLine.area (sp : AddressSpace Hw) : CreateLine → DecoderArea
  | .mm => ⟨0, highestValidAddress sp, 0⟩
  | .mmn chip_begin => ⟨0, highestValidAddress sp, toAddr chip_begin⟩
  | .mnm as_begin => ⟨toAddr as_begin, highestValidAddress sp, 0⟩
  | .mnmn as_begin chip_begin => ⟨toAddr as_begin, highestValidAddress sp, toAddr chip_begin⟩
  | .mnnm as_begin as_end => ⟨toAddr as_begin, toAddr as_end, 0⟩
  | .mnnmn as_begin as_end chip_begin => ⟨toAddr as_begin, toAddr as_end, toAddr chip_begin⟩

/-- The checks of the command, `as` being the space `sp` or no address space, and `chip` a chip or none. -/
def createRefusal (sp : AddressSpace Hw) (isSpace : Bool) (chip : Option MemoryChip) (r : DecoderArea) :
    Option Refusal :=
  if isSpace = false then some .notAddressSpace
  else
    match chip with
    | none => some .notMemoryChip
    | some chip =>
      if r.as_begin > r.as_end then some .wrongAddressArea
      else if r.chip_begin ≥ chip.size then some .wrongChipArea
      else if r.as_begin < sp.startAddress ∨ r.as_end ≥ highestValidAddress sp then
        some .outOfAddressSpace
      else if r.as_end - r.as_begin > chip.size - r.chip_begin then some .outOfChipSize
      else none

/-- `new cl_address_decoder(as, chip, as_begin, as_end, chip_begin)`. -/
def DecoderArea.decoder (r : DecoderArea) (isSpace : Bool) (chip : Option MemoryChip) : AddressDecoder :=
  { onSpace := isSpace, memchip := chip, asBegin := r.as_begin, asEnd := r.as_end,
    chipBegin := r.chip_begin, activated := false }

/-- The command: its answer and the space it leaves; `none` when the fuel of `activate` runs out. -/
def createAddressDecoder (fuel : Nat) (sp : AddressSpace Hw) (isSpace : Bool) (chip : Option MemoryChip)
    (line : CreateLine) : Option (Option Refusal × AddressSpace Hw) :=
  let r := line.area sp
  match createRefusal sp isSpace chip r with
  | some refusal => some (some refusal, sp)
  | none =>
    (activate fuel sp.freshDecoder (sp.withNew (r.decoder isSpace chip) true)).map fun a => (none, a.2)

/-- The command ends with this answer and space. -/
def Creates (sp : AddressSpace Hw) (chip : MemoryChip) (line : CreateLine)
    (r : Option Refusal × AddressSpace Hw) : Prop :=
  ∃ fuel, createAddressDecoder fuel sp true (some chip) line = some r

/-! ## What the command is for -/

/-- The range lies in the space, and its last address has a slot. -/
def DecoderArea.Valid (r : DecoderArea) (sp : AddressSpace Hw) (chip : MemoryChip) : Prop :=
  sp.startAddress ≤ r.as_begin ∧ r.as_begin ≤ r.as_end ∧ r.as_end ≤ highestValidAddress sp ∧
    0 ≤ r.chip_begin + (r.as_end - r.as_begin) ∧ r.chip_begin + (r.as_end - r.as_begin) < chip.size

/-- A new decoder for the range is in the list, activated. -/
structure Added (sp : AddressSpace Hw) (v : AddressDecoder) (sp' : AddressSpace Hw) : Prop where
  mem : sp.freshDecoder ∈ sp'.decoders
  self : sp'.decoder sp.freshDecoder = { v with activated := true }

/-- The command adds a decoder for a valid range, and nothing changes for another one. -/
def CreateRight (sp : AddressSpace Hw) (chip : MemoryChip) (line : CreateLine) : Prop :=
  ∃ refusal sp', Creates sp chip line (refusal, sp') ∧
    ((line.area sp).Valid sp chip → Added sp ((line.area sp).decoder true (some chip)) sp') ∧
    (¬ (line.area sp).Valid sp chip → sp' = sp)

/-- A valid range up to the last address of the space. -/
def DecoderArea.EndsLast (r : DecoderArea) (sp : AddressSpace Hw) (chip : MemoryChip) : Prop :=
  r.Valid sp chip ∧ r.as_end = highestValidAddress sp

/-- A range before the last address of the space that is one slot too long for the chip, or ends in front
of its first slot. -/
def DecoderArea.MissesChip (r : DecoderArea) (sp : AddressSpace Hw) (chip : MemoryChip) : Prop :=
  sp.startAddress ≤ r.as_begin ∧ r.as_begin ≤ r.as_end ∧ r.as_end < highestValidAddress sp ∧
    r.chip_begin < chip.size ∧ r.chip_begin + (r.as_end - r.as_begin) ≤ chip.size ∧
    (r.chip_begin + (r.as_end - r.as_begin) = chip.size ∨ r.chip_begin + (r.as_end - r.as_begin) < 0)

section

variable {sp : AddressSpace Hw} {chip : MemoryChip} {r : DecoderArea}

theorem createRefusal_eq_none_iff :
    createRefusal sp true (some chip) r = none ↔
      r.as_begin ≤ r.as_end ∧ r.chip_begin < chip.size ∧ sp.startAddress ≤ r.as_begin ∧
        r.as_end < highestValidAddress sp ∧ r.as_end - r.as_begin ≤ chip.size - r.chip_begin := by
  simp only [createRefusal, Bool.true_eq_false, if_false]
  by_cases hord : r.as_begin > r.as_end
  · simp only [if_pos hord, reduceCtorEq, false_iff]
    omega
  · rw [if_neg hord]
    by_cases hchip : r.chip_begin ≥ chip.size
    · simp only [if_pos hchip, reduceCtorEq, false_iff]
      omega
    · rw [if_neg hchip]
      by_cases hspace : r.as_begin < sp.startAddress ∨ r.as_end ≥ highestValidAddress sp
      · simp only [if_pos hspace, reduceCtorEq, false_iff]
        omega
      · rw [if_neg hspace]
        by_cases hsize : r.as_end - r.as_begin > chip.size - r.chip_begin
        · simp only [if_pos hsize, reduceCtorEq, false_iff]
          omega
        · simp only [if_neg hsize, true_iff]
          omega

/-- What the command accepts passes the checks of `activate`. -/
theorem checks_of_accepted (h : createRefusal sp true (some chip) r = none) :
    sp.checks (r.decoder true (some chip)) = some chip := by
  obtain ⟨hord, hchip, hlow, hhigh, hsize⟩ := createRefusal_eq_none_iff.1 h
  rw [checks_eq_some_iff]
  simp only [highestValidAddress] at hhigh
  exact ⟨rfl, rfl, rfl, hord, hchip, hlow, by simp only [DecoderArea.decoder]; omega, hsize⟩

/-- The command accepts the valid ranges before the last address, and those that miss the chip. -/
theorem accepted_iff :
    createRefusal sp true (some chip) r = none ↔
      r.Valid sp chip ∧ ¬ r.EndsLast sp chip ∨ r.MissesChip sp chip := by
  rw [createRefusal_eq_none_iff]
  simp only [DecoderArea.EndsLast, DecoderArea.Valid, DecoderArea.MissesChip]
  omega

theorem not_missesChip_of_valid (h : r.Valid sp chip) : ¬ r.MissesChip sp chip := by
  simp only [DecoderArea.Valid, DecoderArea.MissesChip] at h ⊢
  omega

theorem creates_refused {line : CreateLine} {refusal : Refusal}
    (h : createRefusal sp true (some chip) (line.area sp) = some refusal) :
    Creates sp chip line (some refusal, sp) := by
  refine ⟨0, ?_⟩
  simp only [createAddressDecoder, h]

theorem Creates.unique {line : CreateLine} {a b : Option Refusal × AddressSpace Hw}
    (ha : Creates sp chip line a) (hb : Creates sp chip line b) : a = b := by
  obtain ⟨fuel, hfuel⟩ := ha
  obtain ⟨fuel', hfuel'⟩ := hb
  simp only [createAddressDecoder] at hfuel hfuel'
  cases h : createRefusal sp true (some chip) (line.area sp) with
  | some refusal =>
    rw [h] at hfuel hfuel'
    exact (Option.some.inj hfuel).symm.trans (Option.some.inj hfuel')
  | none =>
    simp only [h, Option.map_eq_some_iff] at hfuel hfuel'
    obtain ⟨x, hx, rfl⟩ := hfuel
    obtain ⟨y, hy, rfl⟩ := hfuel'
    rw [Activates.unique ⟨fuel, hx⟩ ⟨fuel', hy⟩]

/-- An accepted decoder is added and activated. -/
theorem creates_accepted {line : CreateLine} (hwell : WellDecoded sp.freshDecoder sp)
    (h : createRefusal sp true (some chip) (line.area sp) = none) :
    ∃ sp', Creates sp chip line (none, sp') ∧ Added sp ((line.area sp).decoder true (some chip)) sp' := by
  have hnew := hwell.withNew ((line.area sp).decoder true (some chip)) true
  have hself := withNew_decoder sp ((line.area sp).decoder true (some chip)) true
  have hlt : sp.freshDecoder < (sp.withNew ((line.area sp).decoder true (some chip)) true).freshDecoder := by
    rw [withNew_freshDecoder]
    exact Nat.lt_succ_self _
  have hchecks := checks_of_accepted h
  rw [← withNew_checks sp ((line.area sp).decoder true (some chip)) _ true, ← hself] at hchecks
  obtain ⟨sp', ⟨fuel, hact⟩, hspec⟩ := hnew.activate hlt hchecks
  refine ⟨sp', ⟨fuel, ?_⟩, ?_, ?_⟩
  · simp only [createAddressDecoder, h, hact, Option.map_some]
  · obtain ⟨i, hi, hlist⟩ : ∃ i ≤ sp.decoders.length,
        (sp.withNew ((line.area sp).decoder true (some chip)) true).decoders =
          sp.decoders.insertIdx i sp.freshDecoder := SortedList.add_duplicates _ _ _
    rw [hspec.self_mem, hlist, List.mem_insertIdx hi]
    exact .inl rfl
  · rw [hspec.self, hself]

theorem not_added_self (hwell : WellDecoded sp.freshDecoder sp) (v : AddressDecoder) : ¬ Added sp v sp :=
  fun h => absurd (hwell.allocated _ h.mem) (Nat.lt_irrefl _)

end

/-- The command is right except for valid ranges that end with the space, which it refuses, and for ranges
that it accepts although they miss the chip. What it accepts passes the checks of `activate`. -/
theorem createRight_iff {astart asize : Int} {sp : AddressSpace Hw} (h : (spaceRuns Hw astart asize).Reachable sp)
    (chip : MemoryChip) (line : CreateLine) :
    (CreateRight sp chip line ↔ ¬ (line.area sp).EndsLast sp chip ∧ ¬ (line.area sp).MissesChip sp chip) ∧
      (createRefusal sp true (some chip) (line.area sp) = none →
        sp.checks ((line.area sp).decoder true (some chip)) = some chip) := by
  have hwell := wellDecoded_of_reachable h
  refine ⟨?_, checks_of_accepted⟩
  cases hrefusal : createRefusal sp true (some chip) (line.area sp) with
  | some refusal =>
    have hcreates := creates_refused hrefusal
    have hnot := mt accepted_iff.2 (by rw [hrefusal]; exact fun hc => by cases hc)
    constructor
    · rintro ⟨a, sp', hr, hvalid, -⟩
      obtain ⟨-, rfl⟩ := Prod.mk.inj (hr.unique hcreates)
      exact ⟨fun hend => not_added_self hwell _ (hvalid hend.1), fun hmiss => hnot (.inr hmiss)⟩
    · rintro ⟨hend, -⟩
      exact ⟨_, _, hcreates, fun hvalid => absurd (.inl ⟨hvalid, hend⟩) hnot, fun _ => rfl⟩
  | none =>
    obtain ⟨sp', hcreates, hadded⟩ := creates_accepted hwell hrefusal
    constructor
    · rintro ⟨a, sp'', hr, hvalid, hinvalid⟩
      obtain ⟨-, rfl⟩ := Prod.mk.inj (hr.unique hcreates)
      by_cases hv : (line.area sp).Valid sp chip
      · have hmiss := not_missesChip_of_valid hv
        exact ⟨((accepted_iff.1 hrefusal).resolve_right hmiss).2, hmiss⟩
      · -- the space has changed
        rw [hinvalid hv] at hadded
        exact absurd hadded (not_added_self hwell _)
    · rintro ⟨-, hmiss⟩
      have hvalid := ((accepted_iff.1 hrefusal).resolve_right hmiss).1
      exact ⟨none, sp', hcreates, fun _ => hadded, fun hnot => absurd hvalid hnot⟩

/-- Two cells of an empty space of four on a chip of two. -/
theorem createRight_two :
    CreateRight (new 0 4 : AddressSpace Unit) { id := 0, size := 2 } (.mnnm 1 2) := by
  refine ((createRight_iff (System.Reachable.init rfl : (spaceRuns Unit 0 4).Reachable _) _ _).1).2 ?_
  simp only [DecoderArea.EndsLast, DecoderArea.Valid, DecoderArea.MissesChip]
  decide

/-- The shortest form on an empty space of four cells and a chip of four is refused. -/
theorem create_whole_space_refused :
    Creates (new 0 4 : AddressSpace Unit) { id := 0, size := 4 } .mm (some .outOfAddressSpace, new 0 4) ∧
      ¬ CreateRight (new 0 4 : AddressSpace Unit) { id := 0, size := 4 } .mm := by
  have hwell : WellDecoded 0 (new 0 4 : AddressSpace Unit) := wellDecoded_new 0 4
  have hcreates : Creates (new 0 4 : AddressSpace Unit) { id := 0, size := 4 } .mm
      (some .outOfAddressSpace, new 0 4) := creates_refused rfl
  refine ⟨hcreates, ?_⟩
  rintro ⟨a, sp', hr, hvalid, -⟩
  obtain ⟨-, rfl⟩ := Prod.mk.inj (hr.unique hcreates)
  exact not_added_self hwell _ (hvalid (by simp only [DecoderArea.Valid]; decide))

end Ucsim.Cmd
