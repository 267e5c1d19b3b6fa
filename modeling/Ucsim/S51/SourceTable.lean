import Mathlib.Tactic.FinCases
import Ucsim.S51.Radio

/-!
# The source address table

The radio keeps the bytes of `xram` from 0x6100 on in three tables of its own: words of sixteen bits,
which alternate between `PanId` and `shortAddr`, and words of 32 bits, `ExtAddr`.
-/

namespace Ucsim.S51

open Logic

namespace Radio

/-! ## Bytes of words -/

/-- Byte `k` of a word. -/
def lane {w : Nat} (k : Nat) (x : BitVec w) : BitVec 8 := x.extractLsb' (8 * k) 8

@[simp] theorem getLsbD_lane {w : Nat} (k : Nat) (x : BitVec w) (i : Nat) :
    (lane k x).getLsbD i = (decide (i < 8) && x.getLsbD (8 * k + i)) := by
  rw [lane, BitVec.getLsbD_extractLsb']

theorem toNat_lane {w : Nat} (k : Nat) (x : BitVec w) :
    (lane k x).toNat = x.toNat / 2 ^ (8 * k) % 256 := by
  rw [lane, BitVec.extractLsb'_toNat, Nat.shiftRight_eq_div_pow]

theorem lane_setWidth (v : BitVec 8) : lane 0 (v.setWidth 16) = v := by
  apply BitVec.eq_of_toNat_eq
  rw [toNat_lane, BitVec.toNat_setWidth]
  omega

/-- The mask 0xFF. -/
def byteMask (w : Nat) : BitVec w := (BitVec.allOnes 8).setWidth w

theorem getLsbD_byteMask (w i : Nat) :
    (byteMask w).getLsbD i = (decide (i < w) && decide (i < 8)) := by
  rw [byteMask, BitVec.getLsbD_setWidth, BitVec.getLsbD_allOnes]

/-- A sum of words without a common bit. -/
theorem add_eq_or_of_masks {a b : TMem} (h : a &&& b = 0) (v w : TMem) :
    (w &&& a) + (v &&& b) = (w &&& a) ||| (v &&& b) := by
  apply BitVec.add_eq_or_of_and_eq_zero
  have hac : w &&& a &&& (v &&& b) = w &&& v &&& (a &&& b) := by ac_rfl
  rw [hac, h]
  exact BitVec.and_zero

theorem lane_lowByte (v w : TMem) {k : Nat} (hk : k < 2) :
    lane k (lowByte v w) = if k = 0 then lane 0 v else lane k w := by
  have hmask : (0xFF : TMem) = byteMask 16 := by decide
  have hhigh : (0xFF00 : TMem) = byteMask 16 <<< 8 := by decide
  rw [lowByte, add_eq_or_of_masks (by decide), hhigh, hmask]
  apply BitVec.eq_of_getLsbD_eq
  intro i hi
  rw [apply_ite (fun x : BitVec 8 => x.getLsbD i)]
  simp only [getLsbD_lane, BitVec.getLsbD_or, BitVec.getLsbD_and, BitVec.getLsbD_shiftLeft,
    getLsbD_byteMask]
  grind

theorem lane_highByte (v w : TMem) {k : Nat} (hk : k < 2) :
    lane k (highByte v w) = if k = 1 then lane 0 v else lane k w := by
  have hmask : (0xFF : TMem) = byteMask 16 := by decide
  have hshift : (v &&& 0xFF) <<< 8 = v <<< 8 &&& (0xFF : TMem) <<< 8 :=
    BitVec.shiftLeft_and_distrib v 0xFF 8
  rw [highByte, hshift, add_eq_or_of_masks (by decide), hmask]
  apply BitVec.eq_of_getLsbD_eq
  intro i hi
  rw [apply_ite (fun x : BitVec 8 => x.getLsbD i)]
  simp only [getLsbD_lane, BitVec.getLsbD_or, BitVec.getLsbD_and, BitVec.getLsbD_shiftLeft,
    getLsbD_byteMask]
  grind

theorem lane_extByte (v : BitVec 8) (w : BitVec 32) {j k : Nat} (hk : k < 4) :
    lane k (extByte (v.setWidth 16) j w) = if k = j then v else lane k w := by
  have hmask : (0xFF : BitVec 32) = byteMask 32 := by decide
  have hones : (0xFFFFFFFF : BitVec 32) = BitVec.allOnes 32 := by decide
  have hshift : j <<< 3 = 8 * j := by
    rw [Nat.shiftLeft_eq]
    omega
  rw [extByte, hmask, hones, hshift]
  apply BitVec.eq_of_getLsbD_eq
  intro i hi
  rw [apply_ite (fun x : BitVec 8 => x.getLsbD i)]
  simp only [getLsbD_lane, BitVec.getLsbD_or, BitVec.getLsbD_and, BitVec.getLsbD_shiftLeft,
    BitVec.getLsbD_xor, BitVec.getLsbD_allOnes, BitVec.getLsbD_setWidth,
    getLsbD_byteMask]
  grind

/-! ## One write -/

/-- What a write does to a word of sixteen bits. -/
def setHalf (k : Nat) (v w : TMem) : TMem := if k = 0 then lowByte v w else highByte v w

theorem lane_setHalf (v : BitVec 8) (w : TMem) {k l : Nat} (hk : k < 2) (hl : l < 2) :
    lane l (setHalf k (v.setWidth 16) w) = if l = k then v else lane l w := by
  unfold setHalf
  split
  next h => rw [lane_lowByte _ _ hl, lane_setWidth, h]
  next h =>
    have hk1 : k = 1 := by omega
    rw [lane_highByte _ _ hl, lane_setWidth, hk1]

/-- The place of a word of sixteen bits. -/
def shortPlace (j : Fin 12) (n : Fin 2) : Fin 24 := ⟨2 * j + n, by omega⟩

/-- The tables after a write of byte `k` of the word `n` of the entry `j`. -/
def setEntry (j : Fin 12) (n : Fin 2) (k : Fin 4) (v : TMem) (t : SourceTables) : SourceTables where
  PanId := if (k : Nat) < 2 then
      Function.update t.PanId (shortPlace j n) (setHalf k v (t.PanId (shortPlace j n)))
    else t.PanId
  shortAddr := if (k : Nat) < 2 then t.shortAddr
    else Function.update t.shortAddr (shortPlace j n)
      (setHalf (k - 2) v (t.shortAddr (shortPlace j n)))
  ExtAddr := Function.update t.ExtAddr j
    (Function.update (t.ExtAddr j) n (extByte v k (t.ExtAddr j n)))

theorem updateShort_eq (j : Fin 12) (n : Fin 2) (k : Fin 4) (v : TMem) (t : SourceTables) :
    updateShort (8 * j + 4 * n + k) (2 * j + n) v t
      = .ok { setEntry j n k v t with ExtAddr := t.ExtAddr } := by
  have hlane : (8 * j + 4 * n + k : Int) - (2 * j + n : Int) <<< (2 : Nat) = k := by
    rw [Int.shiftLeft_eq]
    omega
  have hin : InRange 24 (2 * j + n : Int) := ⟨by omega, by omega⟩
  have hplace : Table.place (2 * j + n : Int) hin = shortPlace j n :=
    Fin.ext (by simp only [Table.place, shortPlace]; omega)
  rw [updateShort, hlane]
  simp only [Table.modify_of_inRange hin, hplace]
  fin_cases k <;> rfl

theorem updateExt_eq (j : Fin 12) (n : Fin 2) (k : Fin 4) (v : TMem) (t : SourceTables) :
    updateExt (8 * j + 4 * n + k) j v t
      = .ok { t with ExtAddr := (setEntry j n k v t).ExtAddr } := by
  have hbyte : (8 * j + 4 * n + k : Int) - (j : Int) <<< (3 : Nat) = 4 * n + k := by
    rw [Int.shiftLeft_eq]
    omega
  have hn : (if 4 * (n : Int) + k ≥ 4 then 1 else 0 : Int) = n := by split <;> omega
  have hk : (if 4 * (n : Int) + k ≥ 4 then 4 * n + k - 4 else 4 * n + k : Int).toNat = k := by
    split <;> omega
  have hj : InRange 12 (j : Int) := ⟨by omega, by omega⟩
  have hin : InRange 2 (n : Int) := ⟨by omega, by omega⟩
  simp only [updateExt, hbyte, hn, hk, Table.get_of_inRange hj, Table.place_coe]
  change (Table.modify (t.ExtAddr j) (n : Int) (extByte v k) >>= _) = _
  rw [Table.modify_of_inRange hin, Table.place_coe]
  change (t.ExtAddr.set (j : Int) _ >>= _) = _
  rw [Table.set_of_inRange hj, Table.place_coe]
  rfl

/-- A write of the table finds all its indices in range. -/
theorem writeSourceTable_eq (j : Fin 12) (n : Fin 2) (k : Fin 4) (v : TMem) (t : SourceTables) :
    writeSourceTable (8 * j + 4 * n + k) v t = .ok (setEntry j n k v t) := by
  have hidx : (8 * j + 4 * n + k : Int) >>> (2 : Nat) = 2 * j + n := by
    rw [Int.shiftRight_eq_div_pow]
    omega
  have hext : (2 * j + n : Int) >>> (1 : Nat) = j := by
    rw [Int.shiftRight_eq_div_pow]
    omega
  simp only [writeSourceTable, hidx, hext]
  rw [updateShort_eq]
  exact updateExt_eq j n k v _

/-! ## The mirror -/

/-- The tables hold the bytes `b`, byte for byte. -/
structure Mirrors (b : Nat → TMem) (t : SourceTables) : Prop where
  PanId (i : Fin 24) {k : Nat} : k < 2 → (lane k (t.PanId i)).toNat = (b (4 * i + k)).toNat
  shortAddr (i : Fin 24) {k : Nat} : k < 2 →
    (lane k (t.shortAddr i)).toNat = (b (4 * i + 2 + k)).toNat
  ExtAddr (j : Fin 12) (n : Fin 2) {k : Nat} : k < 4 →
    (lane k (t.ExtAddr j n)).toNat = (b (8 * j + 4 * n + k)).toNat

/-- The words are the little-endian values of the bytes `b`. -/
structure Agrees (b : Nat → TMem) (t : SourceTables) : Prop where
  PanId (i : Fin 24) : (t.PanId i).toNat = (b (4 * i)).toNat + 2 ^ 8 * (b (4 * i + 1)).toNat
  shortAddr (i : Fin 24) :
    (t.shortAddr i).toNat = (b (4 * i + 2)).toNat + 2 ^ 8 * (b (4 * i + 3)).toNat
  ExtAddr_low (j : Fin 12) : (t.ExtAddr j 0).toNat = (b (8 * j)).toNat + 2 ^ 8 * (b (8 * j + 1)).toNat +
    2 ^ 16 * (b (8 * j + 2)).toNat + 2 ^ 24 * (b (8 * j + 3)).toNat
  ExtAddr_high (j : Fin 12) : (t.ExtAddr j 1).toNat = (b (8 * j + 4)).toNat +
    2 ^ 8 * (b (8 * j + 5)).toNat + 2 ^ 16 * (b (8 * j + 6)).toNat + 2 ^ 24 * (b (8 * j + 7)).toNat

/-- A word of sixteen bits from its bytes. -/
theorem toNat_of_lanes {x : BitVec 16} {b₀ b₁ : Nat} (h₀ : (lane 0 x).toNat = b₀)
    (h₁ : (lane 1 x).toNat = b₁) : x.toNat = b₀ + 2 ^ 8 * b₁ := by
  rw [toNat_lane] at h₀ h₁
  have hx := x.isLt
  omega

/-- A word of 32 bits from its bytes. -/
theorem toNat_of_lanes₄ {x : BitVec 32} {b₀ b₁ b₂ b₃ : Nat} (h₀ : (lane 0 x).toNat = b₀)
    (h₁ : (lane 1 x).toNat = b₁) (h₂ : (lane 2 x).toNat = b₂) (h₃ : (lane 3 x).toNat = b₃) :
    x.toNat = b₀ + 2 ^ 8 * b₁ + 2 ^ 16 * b₂ + 2 ^ 24 * b₃ := by
  rw [toNat_lane] at h₀ h₁ h₂ h₃
  have hx := x.isLt
  omega

theorem Mirrors.agrees {b : Nat → TMem} {t : SourceTables} (h : Mirrors b t) : Agrees b t where
  PanId i := toNat_of_lanes (h.PanId i (by decide)) (h.PanId i (by decide))
  shortAddr i := toNat_of_lanes (h.shortAddr i (by decide)) (h.shortAddr i (by decide))
  ExtAddr_low j := toNat_of_lanes₄ (h.ExtAddr j 0 (by decide)) (h.ExtAddr j 0 (by decide))
    (h.ExtAddr j 0 (by decide)) (h.ExtAddr j 0 (by decide))
  ExtAddr_high j := toNat_of_lanes₄ (h.ExtAddr j 1 (by decide)) (h.ExtAddr j 1 (by decide))
    (h.ExtAddr j 1 (by decide)) (h.ExtAddr j 1 (by decide))

/-- A word in which one byte is replaced. -/
theorem lane_update {b : Nat → TMem} {p base k l : Nat} {v : BitVec 8} {x : BitVec 8}
    (hp : p = base + k) (hx : l ≠ k → x.toNat = (b (base + l)).toNat) :
    (if l = k then v else x).toNat
      = (Function.update b p (v.setWidth 16) (base + l)).toNat := by
  rw [hp]
  by_cases h : l = k
  · rw [if_pos h, h, Function.update_self, BitVec.toNat_setWidth]
    omega
  · rw [if_neg h, Function.update_of_ne (by omega)]
    exact hx h

/-- A write keeps the tables and the bytes in step. -/
theorem Mirrors.setEntry {b : Nat → TMem} {t : SourceTables} (h : Mirrors b t) (j : Fin 12)
    (n : Fin 2) (k : Fin 4) (v : BitVec 8) :
    Mirrors (Function.update b (8 * j + 4 * n + k) (v.setWidth 16))
      (Radio.setEntry j n k (v.setWidth 16) t) where
  PanId i l hl := by
    have hi : i = shortPlace j n ↔ (i : Nat) = 2 * j + n := Fin.ext_iff
    by_cases hk : (k : Nat) < 2
    · simp only [Radio.setEntry, if_pos hk]
      by_cases heq : i = shortPlace j n
      · rw [← heq, Function.update_self, lane_setHalf v _ hk hl]
        exact lane_update (by omega) fun _ => h.PanId i hl
      · rw [Function.update_of_ne heq, Function.update_of_ne (by omega)]
        exact h.PanId i hl
    · simp only [Radio.setEntry, if_neg hk]
      rw [Function.update_of_ne (by omega)]
      exact h.PanId i hl
  shortAddr i l hl := by
    have hi : i = shortPlace j n ↔ (i : Nat) = 2 * j + n := Fin.ext_iff
    by_cases hk : (k : Nat) < 2
    · simp only [Radio.setEntry, if_pos hk]
      rw [Function.update_of_ne (by omega)]
      exact h.shortAddr i hl
    · simp only [Radio.setEntry, if_neg hk]
      by_cases heq : i = shortPlace j n
      · rw [← heq, Function.update_self, lane_setHalf v _ (by omega) hl]
        exact lane_update (by omega) fun _ => h.shortAddr i hl
      · rw [Function.update_of_ne heq, Function.update_of_ne (by omega)]
        exact h.shortAddr i hl
  ExtAddr j' n' l hl := by
    simp only [Radio.setEntry]
    by_cases hj : j' = j
    · subst hj
      rw [Function.update_self]
      by_cases hn : n' = n
      · subst hn
        rw [Function.update_self, lane_extByte v _ hl]
        exact lane_update rfl fun _ => h.ExtAddr j' n' hl
      · rw [Function.update_of_ne hn, Function.update_of_ne (by omega)]
        exact h.ExtAddr j' n' hl
    · rw [Function.update_of_ne hj, Function.update_of_ne (by omega)]
      exact h.ExtAddr j' n' hl

/-- A write of byte `p` of the table finds its indices in range. -/
theorem Mirrors.write {b : Nat → TMem} {t : SourceTables} (h : Mirrors b t) (p : Fin 96)
    (v : BitVec 8) : ∃ t', writeSourceTable p (v.setWidth 16) t = .ok t' ∧
      Mirrors (Function.update b p (v.setWidth 16)) t' := by
  obtain ⟨j, n, k, hp⟩ : ∃ (j : Fin 12) (n : Fin 2) (k : Fin 4), (p : Nat) = 8 * j + 4 * n + k :=
    ⟨⟨p / 8, by omega⟩, ⟨p / 4 % 2, by omega⟩, ⟨p % 4, by omega⟩, by simp only; omega⟩
  have hpi : (p : Int) = 8 * j + 4 * n + k := by omega
  rw [hpi, hp, writeSourceTable_eq]
  exact ⟨_, rfl, h.setEntry j n k v⟩

/-! ## Runs of writes -/

/-- Byte `p` of the table in the memory; 0xCC if none of the writes `ws` was to it. -/
def tableByte (ws : List (Fin 96 × BitVec 8)) (mem : Site → TMem) (p : Nat) : TMem :=
  if p ∈ ws.map fun w => (w.1 : Nat) then mem (.cell .xram (Reg.PANID_00_0 + p)) else 0xCC

theorem tableByte_append (ws : List (Fin 96 × BitVec 8)) (w : Fin 96 × BitVec 8)
    (mem : Site → TMem) (v : TMem) :
    tableByte (ws ++ [w]) (Function.update mem (.cell .xram (Reg.PANID_00_0 + (w.1 : Nat))) v)
      = Function.update (tableByte ws mem) w.1 v := by
  funext p
  have hmem : p ∈ (ws ++ [w]).map (fun w => (w.1 : Nat)) ↔
      p ∈ ws.map (fun w => (w.1 : Nat)) ∨ p = w.1 := by
    rw [List.map_append, List.mem_append, List.map_singleton, List.mem_singleton]
  by_cases hp : p = w.1
  · rw [hp, tableByte, if_pos, Function.update_self, Function.update_self]
    rw [← hp]
    exact hmem.mpr (Or.inr hp)
  · rw [Function.update_of_ne hp, tableByte, tableByte, Function.update_of_ne]
    · exact if_congr (hmem.trans (or_iff_left hp)) rfl rfl
    · intro hcell
      rw [Site.cell.injEq] at hcell
      omega

/-- A byte is written to the table: the callback, and the store. -/
def storeByte (st : RadioSt) (w : Fin 96 × BitVec 8) : Except Fault RadioSt := do
  let c : Site := .cell .xram (Reg.PANID_00_0 + (w.1 : Nat))
  let st ← write c (w.2.setWidth 16) st
  return { st with mem := Function.update st.mem c (w.2.setWidth 16 &&& 0xff) }

/-- What the writes `ws` have kept. -/
structure Mirrored (ws : List (Fin 96 × BitVec 8)) (st : RadioSt) : Prop where
  cell_rfd : st.hw.cell_rfd = none
  cell_clkconcmd : st.hw.cell_clkconcmd = none
  tables : Mirrors (tableByte ws st.mem) st.hw.tables

theorem setWidth_and_ff (v : BitVec 8) : v.setWidth 16 &&& 0xff = v.setWidth 16 :=
  byte_and (by rw [BitVec.toNat_setWidth]; omega)

theorem isWithinRange_table (p : Fin 96) :
    isWithinRange (.cell .xram (Reg.PANID_00_0 + (p : Nat))) = 0x6100 + (p : Nat) := by
  rw [isWithinRange, Reg.PANID_00_0, if_pos]
  omega

/-- The callback of a write runs once. -/
theorem operators_table (p : Fin 96) :
    element.operators (.cell .xram (Reg.PANID_00_0 + (p : Nat))) = 1 := by
  have hothers : ∀ c ∈ registered.take 69, isWithinRange c = 0 := by decide +kernel
  have hsplit : registered = registered.take 69 ++ tableCells := rfl
  change registered.count _ = 1
  rw [hsplit, List.count_append, List.count_eq_zero.mpr, Nat.zero_add, tableCells]
  · rw [List.count_map_of_injective (List.range 96) (fun i : Nat => Site.cell .xram (Reg.PANID_00_0 + i))]
    · exact List.count_eq_one_of_mem List.nodup_range (List.mem_range.mpr p.isLt)
    · intro i k hik
      simp only [Site.cell.injEq] at hik
      omega
  · intro hmem
    have hzero := hothers _ hmem
    rw [isWithinRange_table] at hzero
    omega

theorem Mirrored.storeByte {ws : List (Fin 96 × BitVec 8)} {st : RadioSt} (h : Mirrored ws st)
    (w : Fin 96 × BitVec 8) : ∃ st', Radio.storeByte st w = .ok st' ∧ Mirrored (ws ++ [w]) st' ∧
      element.writeReg (.cell .xram (Reg.PANID_00_0 + (w.1 : Nat))) (w.2.setWidth 16) st = st' := by
  obtain ⟨tables, htables, hmirrors⟩ := h.tables.write w.1 w.2
  have hwrite : write (.cell .xram (Reg.PANID_00_0 + (w.1 : Nat))) (w.2.setWidth 16) st
      = .ok { st with hw := { st.hw with tables := tables } } := by
    have hclk : (if st.hw.cell_clkconcmd = some (.cell .xram (Reg.PANID_00_0 + (w.1 : Nat))) then
        writeClkconcmd (w.2.setWidth 16) st else st) = st := by
      rw [h.cell_clkconcmd]
      exact if_neg (by simp)
    have hrfd : ¬ st.hw.cell_rfd = some (.cell .xram (Reg.PANID_00_0 + (w.1 : Nat))) := by
      rw [h.cell_rfd]
      simp
    unfold write
    dsimp only
    rw [hclk, if_neg hrfd, isWithinRange_table]
    change (if (0x6100 + (w.1 : Nat) : Int) ≠ 0 then _ else _) = _
    rw [if_pos (by omega), show (0x6100 + (w.1 : Nat) - 0x6100 : Int) = (w.1 : Nat) by omega, htables]
    rfl
  refine ⟨_, bind_eq_ok.mpr ⟨_, hwrite, rfl⟩, ⟨h.cell_rfd, h.cell_clkconcmd, ?_⟩, ?_⟩
  · rw [setWidth_and_ff, tableByte_append]
    exact hmirrors
  · rw [Element.writeReg, operators_table]
    simp only [Element.calls, element, hwrite]

/-- The write path of `xram` at the table. -/
theorem writeXram_table (p : Fin 96) (v : TMem) (s : MemState Radio) :
    ∃ t, (Space.xram.write element.board (Reg.PANID_00_0 + (p : Nat)) v).run s = .ok (v &&& 0xff, t) ∧
      Element.view t.sys.toStore = element.writeReg (.cell .xram (Reg.PANID_00_0 + (p : Nat))) v
        (Element.view s.sys.toStore) := by
  have hp : Reg.PANID_00_0 = 0x6100 := rfl
  have hpath : Space.xram.write element.board (Reg.PANID_00_0 + (p : Nat)) v
      = (Site.cell .xram (Reg.PANID_00_0 + (p : Nat))).write element.board v := by
    rw [Space.write, Space.writeXram, if_neg, if_neg (by omega), if_neg (by omega), if_neg (by omega)]
    · rfl
    · simp only [Space.invalid, Space.startAddress, Space.size]
      omega
  have hop : element.operators (.cell .xram (Reg.PANID_00_0 + (p : Nat))) ≠ 0 := by
    rw [operators_table]
    decide
  obtain ⟨t, hrun, hview, -⟩ := Element.write_run hop v s
  rw [hpath]
  exact ⟨t, hrun, hview⟩

/-- The bytes `ws` are written to the table through `xram`. -/
def writeBytes (ws : List (Fin 96 × BitVec 8)) : MemProg Radio Unit :=
  ws.forM fun w => discard
    (Space.xram.write element.board (Reg.PANID_00_0 + (w.1 : Nat)) (w.2.setWidth 16))

theorem Mirrored.writeBytes {ws : List (Fin 96 × BitVec 8)} {s : MemState Radio}
    (h : Mirrored ws (Element.view s.sys.toStore)) (ws' : List (Fin 96 × BitVec 8)) :
    ∃ t, (Radio.writeBytes ws').run s = .ok ((), t) ∧
      ws'.foldlM Radio.storeByte (Element.view s.sys.toStore) = .ok (Element.view t.sys.toStore) ∧
      Mirrored (ws ++ ws') (Element.view t.sys.toStore) := by
  induction ws' generalizing ws s with
  | nil =>
    refine ⟨s, rfl, rfl, ?_⟩
    rwa [List.append_nil]
  | cons w ws' ih =>
    obtain ⟨t, hrun, hview⟩ := writeXram_table w.1 (w.2.setWidth 16) s
    obtain ⟨st, hstore, hmirrored, hreg⟩ := h.storeByte w
    rw [hreg] at hview
    obtain ⟨u, hrest, hfold, hu⟩ := ih (hview.symm ▸ hmirrored)
    refine ⟨u, ?_, ?_, ?_⟩
    · have hfirst : (discard (Space.xram.write element.board (Reg.PANID_00_0 + (w.1 : Nat))
          (w.2.setWidth 16)) : MemProg Radio Unit).run s = .ok ((), t) := by
        exact Program.run_bind_of_ok hrun fun _ => pure ()
      exact (Program.run_bind_of_ok hfirst _).trans hrest
    · rw [List.foldlM_cons, hstore]
      change ws'.foldlM Radio.storeByte st = _
      rw [← hview]
      exact hfold
    · rwa [List.append_assoc] at hu

theorem lane_initial {k : Nat} (hk : k < 2) : (lane k (0xCCCC : TMem)).toNat = 0xCC := by
  obtain rfl | rfl : k = 0 ∨ k = 1 := by omega
  all_goals rfl

theorem lane_initial₄ {k : Nat} (hk : k < 4) : (lane k (0xCCCCCCCC : BitVec 32)).toNat = 0xCC := by
  obtain rfl | rfl | rfl | rfl : k = 0 ∨ k = 1 ∨ k = 2 ∨ k = 3 := by omega
  all_goals rfl

/-- The board when the radio has just been reset. -/
def afterReset (s : MemState Radio) (RXframe TXframe : Frame) (ACKsent radioAnswer : Bool) : MemState Radio :=
  { s with sys := { s.sys with hw := { s.sys.hw with
      devices := init RXframe TXframe ACKsent radioAnswer s.sys.mem } } }

theorem mirrored_afterReset (s : MemState Radio) (RXframe TXframe : Frame) (ACKsent radioAnswer : Bool) :
    Mirrored [] (Element.view (afterReset s RXframe TXframe ACKsent radioAnswer).sys.toStore) where
  cell_rfd := rfl
  cell_clkconcmd := rfl
  tables := {
    PanId := fun _ _ hk => lane_initial hk
    shortAddr := fun _ _ hk => lane_initial hk
    ExtAddr := fun _ _ _ hk => lane_initial₄ hk }

/-- **The tables mirror the memory.** After any bytes written through `xram`, the words are the
little-endian values of the bytes in the memory, with 0xCC for bytes that were never written, and no
write has used an index outside the tables. -/
theorem sourceTables_mirror (s : MemState Radio) (RXframe TXframe : Frame) (ACKsent radioAnswer : Bool)
    (ws : List (Fin 96 × BitVec 8)) :
    ∃ t, (writeBytes ws).run (afterReset s RXframe TXframe ACKsent radioAnswer) = .ok ((), t) ∧
      ws.foldlM storeByte (Element.view (afterReset s RXframe TXframe ACKsent radioAnswer).sys.toStore)
        = .ok (Element.view t.sys.toStore) ∧
      Agrees (tableByte ws t.sys.mem) t.sys.hw.devices.tables := by
  obtain ⟨t, hrun, hstore, hmirrored⟩ := (mirrored_afterReset s RXframe TXframe ACKsent radioAnswer).writeBytes ws
  exact ⟨t, hrun, hstore, hmirrored.tables.agrees⟩

end Radio

end Ucsim.S51
