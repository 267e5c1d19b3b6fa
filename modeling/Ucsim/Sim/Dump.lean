import Mathlib.Data.List.Pairwise
import Ucsim.Sim.Searching

/-!
# Dumping a memory

`dump` prints lines of `bpl` cells. Both of its loops stop in front of the highest valid address, and a line that
ends early is filled up with blanks, which are counted like cells in the address to go on from.
-/

namespace Ucsim

/-- A memory with what its dumps need: the width of a cell, and where the next dump goes on. -/
structure DumpMemory extends CMemory where
  width : Nat
  dump_finished : Int

/-- A line of a dump: its address, the cells, and the number of blanks behind them. -/
structure DumpLine where
  address : Int
  data : List Nat
  blanks : Nat

namespace CMemory

/-- `lowest_valid_address`. -/
def lowest_valid_address (m : CMemory) : Int := m.start_address

/-- `highest_valid_address`. -/
def highest_valid_address (m : CMemory) : Int := m.start_address + m.size - 1

/-- The loop over the cells of a line, with the rest of the `bpl` cells. -/
def dataLoop (m : CMemory) (start stop : Int) : Nat → Int → List Nat
  | 0, _ => []
  | k + 1, i =>
    if start + i < m.highest_valid_address ∧ start + i ≤ stop then m.get (start + i) :: dataLoop m start stop k (i + 1)
    else []

end CMemory

namespace DumpMemory

/-- The blanks of a cell that is not printed. -/
def cell_blanks (m : DumpMemory) : Nat := m.width / 4 + (if m.width % 4 ≠ 0 then 1 else 0) + 1

/-- The loop over the lines. The first argument bounds their number, and there is no result if it is too small. -/
def dumpLoop (m : DumpMemory) (stop : Int) (bpl : Nat) : Nat → Int → Int → Option (List DumpLine × Int)
  | fuel, start, dump_finished =>
    if start ≤ stop ∧ start < m.highest_valid_address then
      match fuel with
      | 0 => none
      | fuel + 1 =>
        let data := m.dataLoop start stop bpl 0
        -- the blanks run `i` up to `bpl`
        let i := if data.length < bpl then bpl else data.length
        let line := { address := start, data, blanks := (bpl - data.length) * m.cell_blanks }
        (dumpLoop m stop bpl fuel (start + bpl) (start + i)).map fun r => (line :: r.1, r.2)
    else some ([], dump_finished)

/-- `dump`: the lines printed, and the memory with `dump_finished`, which is returned. -/
def dump (m : DumpMemory) (start stop : Int) (bpl : Nat) : Option (List DumpLine × DumpMemory) :=
  let lva := m.lowest_valid_address
  let hva := m.highest_valid_address
  let start := if start < lva then lva else start
  let stop := if hva < stop then hva else stop
  (dumpLoop m stop bpl (hva - start).toNat start m.dump_finished).map fun r => (r.1, { m with dump_finished := r.2 })

/-- `dump(con)`. -/
def dump_con (m : DumpMemory) : Option (List DumpLine × DumpMemory) :=
  m.dump m.dump_finished (m.dump_finished + 10 * 8 - 1) 8

/-- `init`, as far as the dumps need it. -/
def init (m : DumpMemory) : DumpMemory := { m with dump_finished := m.start_address }

/-- So many continuations, one after the other. -/
def continued : Nat → DumpMemory → Option (List DumpLine × DumpMemory)
  | 0, m => some ([], m)
  | n + 1, m => do
    let (before, m) ← continued n m
    let (lines, m) ← m.dump_con
    return (before ++ lines, m)

end DumpMemory

/-! ## What a dump is for -/

namespace CMemory

/-- The cells from an address on. -/
def cellsFrom (m : CMemory) : Int → Nat → List (Int × Nat)
  | _, 0 => []
  | a, n + 1 => (a, m.get a) :: cellsFrom m (a + 1) n

end CMemory

/-- The cells that a line shows. -/
def DumpLine.cells (l : DumpLine) : List (Int × Nat) := l.data.mapIdx fun k d => (l.address + k, d)

namespace DumpMemory

/-- The cells that a dump shows. -/
def shown (lines : List DumpLine) : List (Int × Nat) := lines.flatMap DumpLine.cells

/-- Each cell of an interval is in a list exactly once, in increasing order of the addresses. -/
structure ListsOnce (m : DumpMemory) (first last : Int) (cells : List (Int × Nat)) : Prop where
  increasing : (cells.map Prod.fst).Pairwise (· < ·)
  mem_iff : ∀ a d, (a, d) ∈ cells ↔ first ≤ a ∧ a ≤ last ∧ d = m.get a

/-- The interval to print, clipped to the valid addresses. -/
def first (m : DumpMemory) (start : Int) : Int := max start m.lowest_valid_address

def last (m : DumpMemory) (stop : Int) : Int := min stop m.highest_valid_address

/-- A dump shows each cell of the interval once and returns the address following the last one. -/
def DumpRight (m : DumpMemory) (start stop : Int) (bpl : Nat) : Prop :=
  ∃ lines m', m.dump start stop bpl = some (lines, m') ∧
    m.ListsOnce (m.first start) (m.last stop) (shown lines) ∧
    ∀ a d, (shown lines).getLast? = some (a, d) → m'.dump_finished = a + 1

/-- The continuations from the start address on list each byte of the memory exactly once. -/
def ListsAll (m : DumpMemory) (n : Nat) : Prop :=
  ∃ lines m', continued n m.init = some (lines, m') ∧
    m.ListsOnce m.lowest_valid_address m.highest_valid_address (shown lines)

end DumpMemory

/-! ## Cells -/

namespace CMemory

variable (m : CMemory)

theorem length_cellsFrom (n : Nat) : ∀ a, (m.cellsFrom a n).length = n := by
  induction n with
  | zero => exact fun a => rfl
  | succ n ih => exact fun a => congrArg Nat.succ (ih (a + 1))

theorem cellsFrom_add (n k : Nat) : ∀ a, m.cellsFrom a (n + k) = m.cellsFrom a n ++ m.cellsFrom (a + n) k := by
  induction n with
  | zero =>
    intro a
    rw [Nat.zero_add, Int.natCast_zero, Int.add_zero]
    rfl
  | succ n ih =>
    intro a
    have hnext : a + ((n + 1 : Nat) : Int) = a + 1 + n := by omega
    rw [Nat.succ_add, cellsFrom, ih, hnext]
    rfl

theorem mem_cellsFrom (n : Nat) : ∀ a b d, (b, d) ∈ m.cellsFrom a n ↔ a ≤ b ∧ b < a + n ∧ d = m.get b := by
  induction n with
  | zero =>
    intro a b d
    refine ⟨nofun, fun h => ?_⟩
    omega
  | succ n ih =>
    intro a b d
    rw [cellsFrom, List.mem_cons, ih, Prod.mk.injEq]
    constructor
    · rintro (⟨rfl, rfl⟩ | ⟨hle, hlt, hd⟩)
      · exact ⟨Int.le_refl b, by omega, rfl⟩
      · exact ⟨by omega, by omega, hd⟩
    · rintro ⟨hle, hlt, rfl⟩
      rcases Int.lt_or_eq_of_le hle with hlt' | rfl
      · exact .inr ⟨by omega, by omega, rfl⟩
      · exact .inl ⟨rfl, rfl⟩

theorem increasing_cellsFrom (n : Nat) : ∀ a, ((m.cellsFrom a n).map Prod.fst).Pairwise (· < ·) := by
  induction n with
  | zero => exact fun a => .nil
  | succ n ih =>
    intro a
    rw [cellsFrom, List.map_cons, List.pairwise_cons]
    refine ⟨fun b hb => ?_, ih (a + 1)⟩
    obtain ⟨⟨b, d⟩, hmem, rfl⟩ := List.mem_map.mp hb
    have hle := ((m.mem_cellsFrom n (a + 1) b d).mp hmem).1
    exact hle

theorem getLast_cellsFrom (a : Int) (n : Nat) : (m.cellsFrom a (n + 1)).getLast? = some (a + n, m.get (a + n)) := by
  rw [cellsFrom_add m n 1 a]
  exact List.getLast?_concat

/-- The cells of a line. -/
theorem dataLoop_eq (start stop : Int) (k : Nat) : ∀ i : Int, m.dataLoop start stop k i =
    (m.cellsFrom (start + i) (min k (min (stop + 1) m.highest_valid_address - (start + i)).toNat)).map Prod.snd := by
  induction k with
  | zero =>
    intro i
    rw [Nat.zero_min]
    rfl
  | succ k ih =>
    intro i
    rw [dataLoop]
    by_cases hin : start + i < m.highest_valid_address ∧ start + i ≤ stop
    · have hcount : min (k + 1) (min (stop + 1) m.highest_valid_address - (start + i)).toNat =
          min k (min (stop + 1) m.highest_valid_address - (start + (i + 1))).toNat + 1 := by omega
      rw [if_pos hin, ih, hcount, cellsFrom, List.map_cons, Int.add_assoc]
    · have hcount : min (k + 1) (min (stop + 1) m.highest_valid_address - (start + i)).toNat = 0 := by omega
      rw [if_neg hin, hcount]
      rfl

end CMemory

theorem DumpLine.cells_eq (m : CMemory) (n : Nat) : ∀ (a : Int) (blanks : Nat),
    DumpLine.cells { address := a, data := (m.cellsFrom a n).map Prod.snd, blanks } = m.cellsFrom a n := by
  induction n with
  | zero => exact fun a blanks => rfl
  | succ n ih =>
    intro a blanks
    have hrest := ih (a + 1) blanks
    simp only [DumpLine.cells] at hrest ⊢
    rw [CMemory.cellsFrom, List.map_cons, List.mapIdx_cons]
    refine congrArg₂ List.cons (by simp) (Eq.trans ?_ hrest)
    congr 1
    funext k d
    rw [CMemory.add_succ]

/-! ## The loop -/

namespace DumpMemory

variable {m : DumpMemory}

/-- How many cells are shown from an address on: none of them is the last of the memory. -/
def count (m : DumpMemory) (stop start : Int) : Nat := (min (stop + 1) m.highest_valid_address - start).toNat

/-- What the loop does from an address on. -/
structure Dumped (m : DumpMemory) (stop : Int) (bpl : Nat) (start finished : Int) (r : List DumpLine × Int) : Prop where
  shown_eq : shown r.1 = m.cellsFrom start (m.count stop start)
  nothing : m.count stop start = 0 → r.2 = finished
  filled : 0 < m.count stop start → ∃ q : Nat, r.2 = start + (q * bpl : Nat) ∧ m.count stop start ≤ q * bpl ∧
    q * bpl < m.count stop start + bpl

theorem dumpLoop_dumped {stop : Int} {bpl : Nat} (hbpl : 0 < bpl) (fuel : Nat) : ∀ start finished,
    m.highest_valid_address - start ≤ fuel →
      ∃ r, dumpLoop m stop bpl fuel start finished = some r ∧ Dumped m stop bpl start finished r := by
  have hdone : ∀ start finished, ¬ (start ≤ stop ∧ start < m.highest_valid_address) →
      Dumped m stop bpl start finished ([], finished) := by
    intro start finished hend
    have hzero : m.count stop start = 0 := by
      unfold count
      omega
    exact ⟨by rw [hzero]; rfl, fun _ => rfl, fun hpos => absurd hpos (by omega)⟩
  induction fuel with
  | zero =>
    intro start finished hfuel
    have hend : ¬ (start ≤ stop ∧ start < m.highest_valid_address) := by omega
    exact ⟨_, if_neg hend, hdone start finished hend⟩
  | succ fuel ih =>
    intro start finished hfuel
    rw [dumpLoop]
    by_cases hin : start ≤ stop ∧ start < m.highest_valid_address
    · have hcount : 0 < m.count stop start := by
        unfold count
        omega
      have hnext : m.count stop (start + bpl) = m.count stop start - bpl := by
        unfold count
        omega
      have hdata : m.dataLoop start stop bpl 0 =
          (m.cellsFrom start (min bpl (m.count stop start))).map Prod.snd := by
        rw [CMemory.dataLoop_eq, Int.add_zero]
        rfl
      have hi : (if min bpl (m.count stop start) < bpl then bpl else min bpl (m.count stop start)) = bpl := by
        split <;> omega
      obtain ⟨r, hr, hdumped⟩ := ih (start + bpl) (start + bpl) (by omega)
      rw [if_pos hin]
      dsimp only
      rw [hdata, List.length_map, CMemory.length_cellsFrom, hi, hr]
      refine ⟨_, rfl, ?_, fun hzero => absurd hcount (by omega), fun _ => ?_⟩
      · change DumpLine.cells _ ++ shown r.1 = _
        rw [DumpLine.cells_eq, hdumped.shown_eq, hnext]
        rcases Nat.le_total bpl (m.count stop start) with hle | hle
        · rw [Nat.min_eq_left hle, ← CMemory.cellsFrom_add, Nat.add_sub_cancel' hle]
        · rw [Nat.min_eq_right hle, Nat.sub_eq_zero_of_le hle]
          exact List.append_nil _
      · change ∃ q : Nat, r.2 = start + (q * bpl : Nat) ∧ _
        rcases Nat.eq_zero_or_pos (m.count stop (start + bpl)) with hzero | hpos
        · refine ⟨1, ?_, by omega, by omega⟩
          rw [hdumped.nothing hzero, Nat.one_mul]
        · obtain ⟨q, hq, hle, hlt⟩ := hdumped.filled hpos
          refine ⟨q + 1, ?_, ?_, ?_⟩
          · rw [hq, Nat.succ_mul]
            omega
          · rw [Nat.succ_mul]
            omega
          · rw [Nat.succ_mul]
            omega
    · exact ⟨_, if_neg hin, hdone start finished hin⟩

theorem dump_dumped (m : DumpMemory) (start stop : Int) {bpl : Nat} (hbpl : 0 < bpl) :
    ∃ r, m.dump start stop bpl = some (r.1, { m with dump_finished := r.2 }) ∧
      Dumped m (m.last stop) bpl (m.first start) m.dump_finished r := by
  have hfirst : (if start < m.lowest_valid_address then m.lowest_valid_address else start) = m.first start := by
    unfold first
    split <;> omega
  have hlast : (if m.highest_valid_address < stop then m.highest_valid_address else stop) = m.last stop := by
    unfold last
    split <;> omega
  obtain ⟨r, hr, hdumped⟩ := dumpLoop_dumped (m := m) hbpl
    (m.highest_valid_address - m.first start).toNat (m.first start) m.dump_finished (Int.self_le_toNat _)
  refine ⟨r, ?_, hdumped⟩
  simp only [dump, hfirst, hlast, hr, Option.map_some]

theorem listsOnce_cellsFrom {first last : Int} {n : Nat} (h : ∀ a, first ≤ a → (a < first + n ↔ a ≤ last)) :
    m.ListsOnce first last (m.cellsFrom first n) where
  increasing := m.increasing_cellsFrom n first
  mem_iff a d := by
    rw [m.mem_cellsFrom n first a d]
    constructor
    · rintro ⟨hle, hlt, hd⟩
      exact ⟨hle, (h a hle).mp hlt, hd⟩
    · rintro ⟨hle, hlt, hd⟩
      exact ⟨hle, (h a hle).mpr hlt, hd⟩

/-- The multiples of `bpl` that a dump ends at. -/
theorem ends_iff_dvd {n q bpl : Nat} (hle : n ≤ q * bpl) (hlt : q * bpl < n + bpl) : q * bpl = n ↔ bpl ∣ n := by
  constructor
  · rintro rfl
    exact Nat.dvd_mul_left ..
  · rintro ⟨p, rfl⟩
    rw [Nat.mul_comm bpl p] at hle hlt ⊢
    have hbpl : 0 < bpl := by omega
    have hpq : p ≤ q := Nat.le_of_mul_le_mul_right hle hbpl
    rw [← Nat.succ_mul] at hlt
    have hqp : q < p + 1 := Nat.lt_of_mul_lt_mul_right hlt
    rw [Nat.le_antisymm hpq (Nat.le_of_lt_succ hqp)]

theorem dumpRight_of {start stop : Int} {bpl : Nat} (hbpl : 0 < bpl)
    (h : m.last stop < m.first start ∨
      stop < m.highest_valid_address ∧ (bpl : Int) ∣ m.last stop - m.first start + 1) : m.DumpRight start stop bpl := by
  obtain ⟨r, hr, hdumped⟩ := m.dump_dumped start stop hbpl
  refine ⟨r.1, _, hr, ?_, ?_⟩
  · rw [hdumped.shown_eq]
    refine listsOnce_cellsFrom fun a ha => ?_
    unfold count
    rcases h with hempty | ⟨hstop, -⟩
    · omega
    · have hlast : m.last stop < m.highest_valid_address := Int.lt_of_le_of_lt (Int.min_le_left ..) hstop
      omega
  · intro a d hlast
    rw [hdumped.shown_eq] at hlast
    rcases Nat.eq_zero_or_pos (m.count (m.last stop) (m.first start)) with hzero | hpos
    · rw [hzero] at hlast
      cases hlast
    · obtain ⟨n, hn⟩ := Nat.exists_eq_add_of_lt hpos
      rw [Nat.zero_add] at hn
      obtain ⟨q, hq, hle, hlt⟩ := hdumped.filled hpos
      rw [hn, CMemory.getLast_cellsFrom] at hlast
      obtain ⟨rfl, -⟩ : m.first start + n = a ∧ _ := by simpa using hlast
      have hcount : (m.count (m.last stop) (m.first start) : Int) = m.last stop - m.first start + 1 := by
        unfold count at hpos ⊢
        rcases h with hempty | ⟨hstop, -⟩
        · omega
        · have hlast : m.last stop < m.highest_valid_address := Int.lt_of_le_of_lt (Int.min_le_left ..) hstop
          omega
      have hdvd : bpl ∣ m.count (m.last stop) (m.first start) := by
        rcases h with hempty | ⟨-, hdvd⟩
        · omega
        · rw [← hcount] at hdvd
          exact Int.natCast_dvd_natCast.mp hdvd
      change r.2 = _
      rw [hq, (ends_iff_dvd hle hlt).mpr hdvd, hn]
      omega

theorem of_dumpRight {start stop : Int} {bpl : Nat} (hbpl : 0 < bpl) (h : m.DumpRight start stop bpl) :
    m.last stop < m.first start ∨
      stop < m.highest_valid_address ∧ (bpl : Int) ∣ m.last stop - m.first start + 1 := by
  obtain ⟨r, hr, hdumped⟩ := m.dump_dumped start stop hbpl
  obtain ⟨lines, m', hr', honce, hend⟩ := h
  obtain ⟨rfl, rfl⟩ : r.1 = lines ∧ { m with dump_finished := r.2 } = m' := by simpa using hr.symm.trans hr'
  rcases Int.lt_or_le (m.last stop) (m.first start) with hempty | hle
  · exact .inl hempty
  -- the last cell of the interval is shown, so it is not the last of the memory
  have hshown := (honce.mem_iff (m.last stop) _).mpr ⟨hle, Int.le_refl _, rfl⟩
  rw [hdumped.shown_eq, m.mem_cellsFrom] at hshown
  have hlt : m.last stop < m.highest_valid_address := by
    have hcount := hshown.2.1
    unfold count at hcount
    omega
  have hlast : m.last stop = stop := by
    unfold last at hlt ⊢
    omega
  refine .inr ⟨hlast ▸ hlt, ?_⟩
  have hcount : (m.count (m.last stop) (m.first start) : Int) = m.last stop - m.first start + 1 := by
    unfold count
    omega
  obtain ⟨n, hn⟩ : ∃ n, m.count (m.last stop) (m.first start) = n + 1 := ⟨_, (Nat.succ_pred (by omega)).symm⟩
  obtain ⟨q, hq, hqle, hqlt⟩ := hdumped.filled (by omega)
  have hfinished : r.2 = m.first start + n + 1 := by
    refine hend (m.first start + n) (m.get (m.first start + n)) ?_
    rw [hdumped.shown_eq, hn]
    exact m.getLast_cellsFrom _ n
  rw [← hcount]
  exact Int.natCast_dvd_natCast.mpr ((ends_iff_dvd hqle hqlt).mp (by omega))

/-! ## The continuations -/

theorem ListsOnce.append {a f last : Int} {cells : List (Int × Nat)} {n : Nat} (h : m.ListsOnce a (f - 1) cells)
    (haf : a ≤ f) (hlast : f + n = last + 1) : m.ListsOnce a last (cells ++ m.cellsFrom f n) where
  increasing := by
    rw [List.map_append, List.pairwise_append]
    refine ⟨h.increasing, m.increasing_cellsFrom n f, fun x hx y hy => ?_⟩
    obtain ⟨⟨x, d⟩, hxd, rfl⟩ := List.mem_map.mp hx
    obtain ⟨⟨y, e⟩, hye, rfl⟩ := List.mem_map.mp hy
    have hxf := ((h.mem_iff x d).mp hxd).2.1
    have hfy := ((m.mem_cellsFrom n f y e).mp hye).1
    change x < y
    omega
  mem_iff x d := by
    rw [List.mem_append, h.mem_iff, m.mem_cellsFrom n f x d]
    constructor
    · rintro (⟨hle, hlt, hd⟩ | ⟨hle, hlt, hd⟩)
      · exact ⟨hle, by omega, hd⟩
      · exact ⟨by omega, by omega, hd⟩
    · rintro ⟨hle, hlt, hd⟩
      rcases Int.lt_or_le x f with hxf | hfx
      · exact .inl ⟨hle, by omega, hd⟩
      · exact .inr ⟨hfx, by omega, hd⟩

/-- One continuation shows the cells up to where the next one goes on, but never the last of the memory. -/
theorem dump_con_lists {f : Int} (hf : m.start_address ≤ f) {before : List DumpLine}
    (h : m.ListsOnce m.start_address (min f m.highest_valid_address - 1) (shown before)) :
    ∃ lines f', dump_con { m with dump_finished := f } = some (lines, { m with dump_finished := f' }) ∧
      m.start_address ≤ f' ∧
      m.ListsOnce m.start_address (min f' m.highest_valid_address - 1) (shown (before ++ lines)) := by
  obtain ⟨r, hr, hdumped⟩ := dump_dumped { m with dump_finished := f } f (f + 10 * 8 - 1) (show 0 < 8 by decide)
  have hfirst : DumpMemory.first { m with dump_finished := f } f = f := Int.max_eq_left hf
  rw [hfirst] at hdumped
  have hcount : (DumpMemory.count { m with dump_finished := f } (DumpMemory.last { m with dump_finished := f }
      (f + 10 * 8 - 1)) f) = (min (f + 80) m.highest_valid_address - f).toNat := by
    unfold count last
    dsimp only
    omega
  have hshown : shown (before ++ r.1) = shown before ++ m.cellsFrom f (min (f + 80) m.highest_valid_address - f).toNat := by
    rw [← hcount, shown, List.flatMap_append]
    exact congrArg _ hdumped.shown_eq
  have hnothing := hdumped.nothing
  have hfilled := hdumped.filled
  rw [hcount] at hnothing hfilled
  refine ⟨r.1, r.2, hr, ?_⟩
  rw [hshown]
  rcases Nat.eq_zero_or_pos (min (f + 80) m.highest_valid_address - f).toNat with hzero | hpos
  · rw [hnothing hzero, hzero]
    refine ⟨hf, ?_⟩
    rwa [CMemory.cellsFrom, List.append_nil]
  · obtain ⟨q, hq, hle, hlt⟩ := hfilled hpos
    have hcells : ((min (f + 80) m.highest_valid_address - f).toNat : Int) = min (f + 80) m.highest_valid_address - f :=
      Int.toNat_of_nonneg (by omega)
    generalize (min (f + 80) m.highest_valid_address - f).toNat = k at hcells hpos hle hlt ⊢
    refine ⟨by omega, ?_⟩
    have hmin : min f m.highest_valid_address = f := by omega
    rw [hmin] at h
    exact h.append hf (by omega)

theorem continued_lists (m : DumpMemory) (n : Nat) :
    ∃ lines f, continued n m.init = some (lines, { m with dump_finished := f }) ∧ m.start_address ≤ f ∧
      m.ListsOnce m.start_address (min f m.highest_valid_address - 1) (shown lines) := by
  induction n with
  | zero =>
    refine ⟨[], m.start_address, rfl, Int.le_refl _, .nil, fun a d => ⟨nofun, fun h => ?_⟩⟩
    omega
  | succ n ih =>
    obtain ⟨before, f, hrun, hf, hlists⟩ := ih
    obtain ⟨lines, f', hcon, hf', hlists'⟩ := dump_con_lists hf hlists
    refine ⟨before ++ lines, f', ?_, hf', hlists'⟩
    simp only [continued, hrun, hcon, Option.bind_eq_bind, Option.bind_some, Option.pure_def]

/-- The continuations list a memory only if it has no cells: the last one is never shown. -/
theorem listsAll_iff (m : DumpMemory) (n : Nat) : m.ListsAll n ↔ m.size ≤ 0 := by
  obtain ⟨lines, f, hrun, -, hlists⟩ := m.continued_lists n
  constructor
  · rintro ⟨lines', m', hrun', hall⟩
    obtain ⟨rfl, -⟩ : lines = lines' ∧ _ := by simpa using hrun.symm.trans hrun'
    by_contra hsize
    have hvalid : m.lowest_valid_address ≤ m.highest_valid_address := by
      unfold CMemory.lowest_valid_address CMemory.highest_valid_address
      omega
    have hmem := (hall.mem_iff m.highest_valid_address _).mpr ⟨hvalid, Int.le_refl _, rfl⟩
    have hle := ((hlists.mem_iff _ _).mp hmem).2.1
    omega
  · intro hsize
    refine ⟨lines, _, hrun, hlists.increasing, fun a d => ?_⟩
    rw [hlists.mem_iff]
    unfold CMemory.lowest_valid_address CMemory.highest_valid_address
    constructor <;> intro h <;> omega

/-- A dump is right exactly if the interval is empty, or ends in front of the highest valid address and fills its last
line; and the continuations list every byte exactly if there is none. -/
theorem dump_iff (m : DumpMemory) (start stop : Int) {bpl : Nat} (hbpl : 0 < bpl) (n : Nat) :
    (m.DumpRight start stop bpl ↔
      m.last stop < m.first start ∨
        stop < m.highest_valid_address ∧ (bpl : Int) ∣ m.last stop - m.first start + 1) ∧
      (m.ListsAll n ↔ m.size ≤ 0) :=
  ⟨⟨of_dumpRight hbpl, dumpRight_of hbpl⟩, m.listsAll_iff n⟩

/-- A memory of 32 cells. -/
def ram32 : DumpMemory where
  start_address := 0
  size := 32
  get _ := 0
  width := 8
  dump_finished := 0

/-- Two lines of eight cells. -/
theorem dump_iff_ram32 : 0 < 8 ∧ ram32.DumpRight 0 15 8 :=
  ⟨by decide, (dump_iff ram32 0 15 (show 0 < 8 by decide) 0).1.mpr (.inr ⟨by decide, by decide⟩)⟩

/-- The last cell is not shown, the address after a line that ends early is not returned, and no sequence of
continuations shows the last cell. -/
theorem dump_wrong : ¬ ram32.DumpRight 0 31 8 ∧ ¬ ram32.DumpRight 0 4 8 ∧ ¬ ∃ n, ram32.ListsAll n := by
  refine ⟨fun h => ?_, fun h => ?_, fun ⟨n, h⟩ => ?_⟩
  · exact absurd (of_dumpRight (by decide) h) (by decide)
  · exact absurd (of_dumpRight (by decide) h) (by decide)
  · exact absurd ((ram32.listsAll_iff n).mp h) (by decide)

end DumpMemory

end Ucsim
