import Ucsim.S51.HexFile

/-!
# The image in a HEX file

A well-formed file describes the contents of the 64K code space. `read_hex_file` stores it through flash
bank 0, which holds the lower half only.
-/

namespace Ucsim.S51

open Logic Format

/-- A record of type 0: an address and the bytes from there on, inside the code space. -/
structure DataRecord where
  addr : Nat
  data : List UChar
  addr_lt : addr < 0x10000
  length_lt : data.length < 0x100
  end_le : addr + data.length ≤ 0x10000

namespace DataRecord

/-- The bytes of the record as one of a type. -/
def bytes (r : DataRecord) (rtyp chk : UChar) : List UChar :=
  BitVec.ofNat 8 r.data.length :: BitVec.ofNat 8 (r.addr / 256) :: BitVec.ofNat 8 r.addr :: rtyp ::
    (r.data ++ [chk])

end DataRecord

/-- The file is a sequence of records of type 0, ended by one of type 1. Between the records there is no
colon. -/
inductive HexText : List DataRecord → List UChar → Prop
  | last {gap cs rest : List UChar} {r : DataRecord} {chk : UChar} : 0x3a ∉ gap →
      Encodes (r.bytes 1 chk) cs → byteSum (r.bytes 1 chk) = 0 →
      HexText [] (gap ++ 0x3a :: (cs ++ rest))
  | data {gap cs text : List UChar} {r : DataRecord} {chk : UChar} {rs : List DataRecord} : 0x3a ∉ gap →
      Encodes (r.bytes 0 chk) cs → byteSum (r.bytes 0 chk) = 0 → HexText rs text →
      HexText (r :: rs) (gap ++ 0x3a :: (cs ++ text))

/-- The byte for an address among bytes that start at `addr`. -/
def byteFrom : Nat → List UChar → Int → Option UChar
  | _, [], _ => none
  | addr, b :: data, a => if a = addr then some b else byteFrom (addr + 1) data a

/-- The last byte that the records give for an address. -/
def given : List DataRecord → Int → Option UChar
  | [], _ => none
  | r :: rs, a => (given rs a).or (byteFrom r.addr r.data a)

/-- The number of data bytes. -/
def imageBytes (rs : List DataRecord) : Nat := (rs.map fun r => r.data.length).sum

/-! ## Reading well-formed records -/

section

variable {lone : UChar → UChar × UChar}

/-- Two digits. -/
theorem strtol_digits {c d : UChar} {h l : Nat} (hc : hexDigit c = some h) (hd : hexDigit d = some l) :
    strtol (c, d) = h * 16 + l := by
  unfold strtol
  simp only [hc, hd]

theorem scanByte_digits {b c d : UChar} {h l : Nat} (hc : hexDigit c = some h) (hd : hexDigit d = some l)
    (hb : b.toNat = h * 16 + l) (rest : List UChar) :
    scanByte lone (c :: d :: rest) = some (b, rest) := by
  have hbyte : BitVec.ofInt 8 (strtol (c, d)) = b := by
    have hval : (h * 16 + l : Int) = (b.toNat : Int) := by
      rw [hb]
      rfl
    rw [strtol_digits hc hd, hval, BitVec.ofInt_natCast, BitVec.ofNat_toNat, BitVec.setWidth_eq]
  rw [scanByte, scan2, Option.map_some, hbyte]

theorem scanBytes_encodes {bs cs : List UChar} (h : Encodes bs cs) (rest : List UChar) :
    scanBytes lone bs.length (cs ++ rest) = some (bs, rest) := by
  induction h with
  | nil => rfl
  | cons hc hd hb _ ih =>
    simp only [List.length_cons, scanBytes, List.cons_append, scanByte_digits hc hd hb, Option.bind_eq_bind,
      Option.bind_some, ih, Option.pure_def]

/-- A record is read as it is written. -/
theorem scanRecord_encodes {r : DataRecord} {rtyp chk : UChar} {cs : List UChar}
    (h : Encodes (r.bytes rtyp chk) cs) (rest : List UChar) :
    scanRecord lone (cs ++ rest)
      = some ({ addr := BitVec.ofNat 32 r.addr, rtyp := rtyp, data := r.data, chk := chk }, rest) := by
  unfold DataRecord.bytes at h
  cases h with
  | cons hc₀ hd₀ hb₀ h =>
    cases h with
    | cons hc₁ hd₁ hb₁ h =>
      cases h with
      | cons hc₂ hd₂ hb₂ h =>
        cases h with
        | cons hc₃ hd₃ hb₃ h =>
          obtain ⟨ds, es, rfl, hdata, hchk⟩ := h.split
          obtain ⟨c₄, d₄, x₄, y₄, rfl, hc₄, hd₄, hb₄⟩ := hchk.byte
          have hlen : (BitVec.ofNat 8 r.data.length).toNat = r.data.length := by
            rw [BitVec.toNat_ofNat, Nat.mod_eq_of_lt r.length_lt]
          simp only [scanRecord, List.cons_append, scanByte_digits hc₀ hd₀ hb₀, scan2, Option.bind_eq_bind,
            Option.bind_some, scanByte_digits hc₃ hd₃ hb₃, hlen, List.append_assoc]
          rw [scanBytes_encodes hdata]
          simp only [List.nil_append, Option.bind_some, scanByte_digits hc₄ hd₄ hb₄, Option.pure_def,
            Option.some.injEq, Prod.mk.injEq, HexRecord.mk.injEq, and_true]
          have haddr : r.addr = (BitVec.ofNat 8 (r.addr / 256)).toNat * 256 + (BitVec.ofNat 8 r.addr).toNat := by
            have := r.addr_lt
            rw [BitVec.toNat_ofNat, BitVec.toNat_ofNat]
            omega
          rw [strtol_digits hc₁ hd₁, strtol_digits hc₂ hd₂, haddr, hb₁, hb₂]
          exact BitVec.ofInt_natCast 32 _

/-- What is left of the first colon is skipped. -/
theorem afterColon_gap {gap f : List UChar} (h : 0x3a ∉ gap) : afterColon (gap ++ 0x3a :: f) = some f := by
  induction gap with
  | nil => rfl
  | cons c gap ih =>
    rw [List.mem_cons, not_or] at h
    rw [List.cons_append, afterColon, if_neg (Ne.symm h.1), ih h.2]

/-- A well-formed record has the sum 0. -/
theorem sum_bytes {r : DataRecord} {rtyp chk : UChar} (h : byteSum (r.bytes rtyp chk) = 0) :
    ({ addr := BitVec.ofNat 32 r.addr, rtyp := rtyp, data := r.data, chk := chk } : HexRecord).sum = 0 := by
  have hhigh : (BitVec.ofNat 32 r.addr >>> 8).setWidth 8 = BitVec.ofNat 8 (r.addr / 256) := by
    apply BitVec.eq_of_toNat_eq
    have := r.addr_lt
    rw [BitVec.toNat_setWidth, BitVec.toNat_ushiftRight, BitVec.toNat_ofNat, BitVec.toNat_ofNat,
      Nat.shiftRight_eq_div_pow]
    omega
  have hlow : (BitVec.ofNat 32 r.addr).setWidth 8 = BitVec.ofNat 8 r.addr := by
    apply BitVec.eq_of_toNat_eq
    rw [BitVec.toNat_setWidth, BitVec.toNat_ofNat, BitVec.toNat_ofNat]
    omega
  rw [HexRecord.sum, hhigh, hlow, ← h]
  simp only [DataRecord.bytes, byteSum, byteSum_append]
  rw [add_zero]
  ac_rfl

/-- The accepted records of a well-formed file are its data records. -/
theorem hexRecords_text {rs : List DataRecord} {file : List UChar} (h : HexText rs file) {fuel : Nat}
    (hfuel : file.length < fuel) :
    ((hexRecords lone fuel file).filter isAccepted).map (fun p => (p.2.addr, p.2.data))
      = rs.map fun r => (BitVec.ofNat 32 r.addr, r.data) := by
  induction h generalizing fuel with
  | last hgap henc hsum =>
    cases fuel with
    | zero => omega
    | succ fuel =>
      rw [hexRecords, afterColon_gap hgap]
      dsimp only
      rw [scanRecord_encodes henc]
      simp [isAccepted]
  | data hgap henc hsum _ ih =>
    cases fuel with
    | zero => omega
    | succ fuel =>
      rw [hexRecords, afterColon_gap hgap]
      dsimp only
      rw [scanRecord_encodes henc]
      simp only [List.length_append, List.length_cons] at hfuel
      have hrest := @ih fuel (by omega)
      simp only [List.filter_cons, isAccepted, sum_bytes hsum, and_self, decide_true, if_true, List.map_cons,
        hrest, show ¬ (0 : UChar) = 1 by decide, if_false]

end

/-! ## The image -/

theorem byteFrom_lt {addr : Nat} {data : List UChar} {a : Int} (h : a < addr) : byteFrom addr data a = none := by
  induction data generalizing addr with
  | nil => rfl
  | cons b data ih =>
    rw [byteFrom, if_neg (by omega), ih (by omega)]

theorem flash_cellAt {addr : Nat} (h : addr < 0x8000) : Space.flashbank0.cellAt addr = .cell .flashbank0 addr := by
  rw [Space.cellAt_of_valid (Space.not_invalid (by simp [Space.startAddress])
    (by simp only [Space.startAddress, Space.size]; omega)), Space.cells]
  simp [Space.startAddress]

theorem flash_cellAt_ge {addr : Nat} (h : 0x8000 ≤ addr) : Space.flashbank0.cellAt addr = noFlash := by
  refine if_pos (Or.inl ?_)
  simp only [Space.startAddress, Space.size]
  omega

/-- The bytes of the lower half are stored. -/
theorem storedFrom_flash {addr : Nat} {data : List UChar} (hend : addr + data.length ≤ 0x10000)
    (mem : Site → TMem) {a : Int} (ha : a < 0x8000) :
    storedFrom data (BitVec.ofNat 32 addr) mem (.cell .flashbank0 a)
      = ((byteFrom addr data a).map tmem).getD (mem (.cell .flashbank0 a)) := by
  induction data generalizing addr mem with
  | nil => rfl
  | cons b data ih =>
    rw [List.length_cons] at hend
    have hint : (BitVec.ofNat 32 addr).toInt = addr := by
      rw [BitVec.toInt_ofNat', Int.bmod_eq_of_le] <;> omega
    have hsucc : BitVec.ofNat 32 addr + 1 = BitVec.ofNat 32 (addr + 1) := (BitVec.ofNat_add_ofNat addr 1)
    rw [storedFrom, hint, hsucc, ih (by omega), byteFrom]
    by_cases haddr : a = addr
    · rw [if_pos haddr, byteFrom_lt (by omega), flash_cellAt (by omega), haddr]
      exact Function.update_self _ _ _
    · rw [if_neg haddr]
      congr 1
      refine Function.update_of_ne (fun heq => ?_) _ _
      by_cases hlow : addr < 0x8000
      · rw [flash_cellAt hlow] at heq
        cases heq
        exact haddr rfl
      · rw [flash_cellAt_ge (by omega)] at heq
        cases heq

/-- Nothing else is. -/
theorem storedFrom_other {c : Site} (hc : c ≠ noFlash) (hflash : ∀ a, c ≠ .cell .flashbank0 a)
    (data : List UChar) (addr : BitVec 32) (mem : Site → TMem) : storedFrom data addr mem c = mem c := by
  induction data generalizing addr mem with
  | nil => rfl
  | cons b data ih =>
    rw [storedFrom, ih]
    refine Function.update_of_ne (fun heq => ?_) _ _
    unfold Space.cellAt at heq
    split at heq
    · exact hc heq
    · exact hflash _ heq

theorem storedRecords_other {c : Site} (hc : c ≠ noFlash) (hflash : ∀ a, c ≠ .cell .flashbank0 a)
    (ps : List (List UChar × HexRecord)) (mem : Site → TMem) : storedRecords ps mem c = mem c := by
  induction ps generalizing mem with
  | nil => rfl
  | cons p ps ih => rw [storedRecords, ih, storedFrom_other hc hflash]

section

variable {ps : List (List UChar × HexRecord)} {rs : List DataRecord}

theorem storedRecords_flash
    (h : ps.map (fun p => (p.2.addr, p.2.data)) = rs.map fun r => (BitVec.ofNat 32 r.addr, r.data))
    (mem : Site → TMem) {a : Int} (ha : a < 0x8000) : storedRecords ps mem (.cell .flashbank0 a)
      = ((given rs a).map tmem).getD (mem (.cell .flashbank0 a)) := by
  induction rs generalizing ps mem with
  | nil =>
    obtain rfl := List.map_eq_nil_iff.mp h
    rfl
  | cons r rs ih =>
    cases ps with
    | nil => cases h
    | cons p ps =>
      rw [List.map_cons, List.map_cons, List.cons.injEq, Prod.mk.injEq] at h
      obtain ⟨⟨haddr, hdata⟩, hrest⟩ := h
      rw [storedRecords, ih hrest, haddr, hdata, storedFrom_flash r.end_le mem ha, given]
      cases given rs a <;> rfl

theorem dataBytes_eq
    (h : ps.map (fun p => (p.2.addr, p.2.data)) = rs.map fun r => (BitVec.ofNat 32 r.addr, r.data)) :
    dataBytes ps = imageBytes rs := by
  have hlen := congrArg (fun l => (l.map fun q : BitVec 32 × List UChar => q.2.length).sum) h
  simp only [List.map_map] at hlen
  exact hlen

end

variable {Dev V : Type} {D : Devices Dev V}

/-- After loading, the lower half of the code space holds the image, and the upper half what it held
before. -/
theorem hexImage_run (lone : UChar → UChar × UChar) {rs : List DataRecord} {file : List UChar}
    (hfile : HexText rs file) {s : CodeState V} (hfmap : s.mem.sys.mem fmap &&& 0x07 = 1)
    (hmcon : s.mem.sys.mem mcon &&& 0x08 = 0) :
    ∃ t, (readHexFile lone D (some file)).run s = .ok ((imageBytes rs : Int), t) ∧
      ∀ a, 0 ≤ a → romAt t.mem.sys.mem a = if a < 0x8000
        then ((given rs a).map tmem).getD (romAt s.mem.sys.mem a) else romAt s.mem.sys.mem a := by
  have hrecords : (accepted lone file).map (fun p => (p.2.addr, p.2.data))
      = rs.map fun r => (BitVec.ofNat 32 r.addr, r.data) := hexRecords_text hfile (Nat.lt_succ_self _)
  obtain ⟨t, hrun, ht⟩ := readHexFile_run (D := D) lone file s
  rw [dataBytes_eq hrecords] at hrun
  refine ⟨t, hrun, fun a h0 => ?_⟩
  have hother : ∀ c, c ≠ noFlash → (∀ a, c ≠ .cell .flashbank0 a) → t.mem.sys.mem c = s.mem.sys.mem c :=
    fun c hc hflash => (ht c hc).trans (storedRecords_other hc hflash _ _)
  have hmcon' : t.mem.sys.mem mcon = s.mem.sys.mem mcon :=
    hother mcon (by decide) fun a h => by cases h
  have hfmap' : t.mem.sys.mem fmap = s.mem.sys.mem fmap :=
    hother fmap (by decide) fun a h => by cases h
  unfold romAt romByte
  rw [hmcon', hfmap']
  by_cases hlow : a < 0x8000
  · rw [if_pos hlow, if_pos hlow, ht _ (by simp)]
    exact storedRecords_flash hrecords _ hlow
  · rw [if_neg hlow, if_neg hlow, if_neg (fun h => h.1 hmcon), bankByte, hfmap]
    exact hother _ (by rintro ⟨⟩) fun a h => by cases h

/-- After the file is loaded the code space holds its image: an address shows the last byte given for it,
or what it showed before. The value is the number of bytes. -/
def LoadsImage (D : Devices Dev V) (lone : UChar → UChar × UChar) (file : List UChar) (rs : List DataRecord)
    (s : CodeState V) : Prop :=
  ∃ t, (readHexFile lone D (some file)).run s = .ok ((imageBytes rs : Int), t) ∧
    ∀ a, 0 ≤ a → a < 0x10000 → ∀ old, (Space.rom.get D a).Returns s.mem old →
      (Space.rom.get D a).Returns t.mem (((given rs a).map tmem).getD old)

/-- A file is loaded iff every byte that it gives for the upper half is there already. -/
theorem loadsImage_iff (D : Devices Dev V) (lone : UChar → UChar × UChar) {rs : List DataRecord}
    {file : List UChar} (hfile : HexText rs file) {s : CodeState V}
    (hfmap : s.mem.sys.mem fmap &&& 0x07 = 1) (hmcon : s.mem.sys.mem mcon &&& 0x08 = 0) :
    LoadsImage D lone file rs s ↔ ∀ a, 0x8000 ≤ a → a < 0x10000 → ∀ b, given rs a = some b →
      (Space.rom.get D a).Returns s.mem (tmem b) := by
  obtain ⟨t, hrun, ht⟩ := hexImage_run (D := D) lone hfile hfmap hmcon
  have hget : ∀ a, 0 ≤ a → ∀ (u : CodeState V) v, (Space.rom.get D a).Returns u.mem v ↔
      v = romAt u.mem.sys.mem a := by
    intro a h0 u v
    have hyields := getRom_yields (D := D) h0 u.mem
    exact ⟨fun ⟨m, hm⟩ => hyields.val_eq hm, fun h => h ▸ hyields.returns⟩
  constructor
  · rintro ⟨t', hrun', hload⟩ a h0 h1 b hb
    rw [hrun, Except.ok.injEq, Prod.mk.injEq] at hrun'
    obtain ⟨-, rfl⟩ := hrun'
    have hnew := hload a (by omega) h1 _ ((hget a (by omega) s _).mpr rfl)
    rw [hget a (by omega), ht a (by omega), if_neg (by omega), hb] at hnew
    exact (hget a (by omega) s _).mpr hnew
  · intro h
    refine ⟨t, hrun, fun a h0 h1 old hold => ?_⟩
    rw [hget a h0] at hold ⊢
    rw [ht a h0, hold]
    split
    · rfl
    · next hlow =>
      cases hb : given rs a with
      | none => rfl
      | some b => exact (hget a h0 s _).mp (h a (by omega) h1 b hb)

/-- The memory with flash bank 1 in the upper half of the code space. -/
def bankOne : CodeState Unit where
  mem := blank (Function.update (fun _ => 0) fmap 1)
  inst _ := false

/-- One byte at address 0. -/
def lowRecord : DataRecord := ⟨0, [0x5a], by decide, by decide, by decide⟩

/-- One byte at address 0x8000. -/
def highRecord : DataRecord := ⟨0x8000, [0x5a], by decide, by decide, by decide⟩

/-- `:00000001FF`. -/
def lastLine : List UChar := [0x3a, 0x30, 0x30, 0x30, 0x30, 0x30, 0x30, 0x30, 0x31, 0x46, 0x46]

theorem lastLine_text : HexText [] lastLine := by
  have hdigits : Encodes (DataRecord.bytes ⟨0, [], by decide, by decide, by decide⟩ 1 0xff) lastLine.tail := by
    refine .cons rfl rfl (by decide) (.cons rfl rfl (by decide) (.cons rfl rfl (by decide) ?_))
    exact .cons rfl rfl (by decide) (.cons rfl rfl (by decide) .nil)
  have htext : HexText [] ([] ++ 0x3a :: (lastLine.tail ++ [])) :=
    HexText.last List.not_mem_nil hdigits (by decide)
  exact htext

/-- `:010000005AA5` and the last line. -/
theorem lowFile_text : HexText [lowRecord]
    ([] ++ 0x3a :: ([0x30, 0x31, 0x30, 0x30, 0x30, 0x30, 0x30, 0x30, 0x35, 0x41, 0x41, 0x35] ++ lastLine)) := by
  have hdigits : Encodes (lowRecord.bytes 0 0xa5)
      [0x30, 0x31, 0x30, 0x30, 0x30, 0x30, 0x30, 0x30, 0x35, 0x41, 0x41, 0x35] := by
    refine .cons rfl rfl (by decide) (.cons rfl rfl (by decide) (.cons rfl rfl (by decide) ?_))
    exact .cons rfl rfl (by decide) (.cons rfl rfl (by decide) (.cons rfl rfl (by decide) .nil))
  exact HexText.data List.not_mem_nil hdigits (by decide) lastLine_text

/-- The byte of the record is loaded. -/
theorem loadsImage_low : LoadsImage noDevices (fun c => (c, c))
    ([] ++ 0x3a :: ([0x30, 0x31, 0x30, 0x30, 0x30, 0x30, 0x30, 0x30, 0x35, 0x41, 0x41, 0x35] ++ lastLine))
    [lowRecord] bankOne := by
  refine (loadsImage_iff noDevices (fun c => (c, c)) lowFile_text rfl rfl).mpr fun a h0 _ b hb => ?_
  have hnone : given [lowRecord] a = none := by
    simp [given, lowRecord, byteFrom, show a ≠ 0 by omega]
  rw [hnone] at hb
  cases hb

/-- `:018000005A25` and the last line: the byte is lost. -/
theorem not_loadsImage_high : ¬ ∀ (rs : List DataRecord) (file : List UChar) (s : CodeState Unit),
    HexText rs file → s.mem.sys.mem fmap &&& 0x07 = 1 → s.mem.sys.mem mcon &&& 0x08 = 0 →
    LoadsImage noDevices (fun c => (c, c)) file rs s := by
  intro h
  have htext : HexText [highRecord]
      ([] ++ 0x3a :: ([0x30, 0x31, 0x38, 0x30, 0x30, 0x30, 0x30, 0x30, 0x35, 0x41, 0x32, 0x35] ++ lastLine)) := by
    have hdigits : Encodes (highRecord.bytes 0 0x25)
        [0x30, 0x31, 0x38, 0x30, 0x30, 0x30, 0x30, 0x30, 0x35, 0x41, 0x32, 0x35] := by
      refine .cons rfl rfl (by decide) (.cons rfl rfl (by decide) (.cons rfl rfl (by decide) ?_))
      exact .cons rfl rfl (by decide) (.cons rfl rfl (by decide) (.cons rfl rfl (by decide) .nil))
    exact HexText.data List.not_mem_nil hdigits (by decide) lastLine_text
  obtain ⟨t, hrun, hload⟩ := h _ _ bankOne htext rfl rfl
  obtain ⟨t', hrun', ht'⟩ := hexImage_run (D := noDevices) (fun c => (c, c)) htext (s := bankOne) rfl rfl
  rw [hrun, Except.ok.injEq, Prod.mk.injEq] at hrun'
  obtain ⟨-, rfl⟩ := hrun'
  have hold : (Space.rom.get noDevices 0x8000).Returns bankOne.mem 0 :=
    (getRom_yields (D := noDevices) (by decide) bankOne.mem).returns
  obtain ⟨m, hnew⟩ := hload 0x8000 (by decide) (by decide) 0 hold
  have hval := (getRom_yields (D := noDevices) (by decide) t.mem).val_eq hnew
  have hrom := ht' 0x8000 (by decide)
  rw [if_neg (by decide)] at hrom
  rw [romAt] at hrom
  rw [hrom] at hval
  exact absurd hval (by decide)

end Ucsim.S51
