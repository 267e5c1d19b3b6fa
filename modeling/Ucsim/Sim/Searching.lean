import Mathlib.Order.Basic

/-!
# Searching a memory

`search_next` compares a pattern with the cells from one address after the other. Its loop runs as long as
the pattern ends below `size`, which is the end of a memory that starts at 0.
-/

namespace Ucsim

/-- A memory as `cl_memory` sees it. -/
structure CMemory where
  start_address : Int
  size : Int
  get : Int → Nat

namespace CMemory

/-- `valid_address`. -/
def valid_address (m : CMemory) (addr : Int) : Prop := m.start_address ≤ addr ∧ addr < m.start_address + m.size

instance (m : CMemory) (addr : Int) : Decidable (m.valid_address addr) := inferInstanceAs (Decidable (_ ∧ _))

/-- `isalpha`. -/
def isalpha (d : Nat) : Bool := 65 ≤ d ∧ d ≤ 90 ∨ 97 ≤ d ∧ d ≤ 122

/-- `toupper`. -/
def toupper (d : Nat) : Nat := if 97 ≤ d ∧ d ≤ 122 then d - 32 else d

/-- What is compared of a value. -/
def compared (case_sensitive : Bool) (d : Nat) : Nat :=
  if ¬ case_sensitive then (if isalpha d then toupper d else d) else d

/-- The inner loop of `search_next`, from `a + i` on with the rest of the array: the match, and the addresses read. -/
def matchLoop (m : CMemory) (case_sensitive : Bool) : Int → List Nat → Bool × List Int
  | _, [] => (true, [])
  | addr, d2 :: rest =>
    if compared case_sensitive (m.get addr) = compared case_sensitive d2 then
      let r := matchLoop m case_sensitive (addr + 1) rest
      (r.1, addr :: r.2)
    else (false, [addr])

/-- The outer loop: what it has found, where it stops, and the addresses read. The first argument bounds the number of
passes, and there is no result if it is too small. -/
def searchLoop (m : CMemory) (case_sensitive : Bool) (array : List Nat) : Nat → Int → Option (Bool × Int × List Int)
  | fuel, a =>
    if a + array.length ≤ m.size then
      match fuel with
      | 0 => none
      | fuel + 1 =>
        let r := matchLoop m case_sensitive a array
        if r.1 then some (true, a, r.2)
        else (searchLoop m case_sensitive array fuel (a + 1)).map fun s => (s.1, s.2.1, r.2 ++ s.2.2)
    else some (false, a, [])

/-- `search_next`: its result, what is left in `*addr`, and the addresses read. -/
def search_next (m : CMemory) (case_sensitive : Bool) (array : List Nat) (addr : Option Int) :
    Option (Bool × Option Int × List Int) :=
  let a := addr.getD 0
  if m.size < a + array.length then some (false, addr, [])
  else
    (searchLoop m case_sensitive array (m.size - a - array.length + 1).toNat a).map fun r =>
      (r.1, addr.map fun _ => r.2.1, r.2.2)

/-! ## What a search is for -/

/-- The cell at `a + i` agrees with the pattern. -/
def Agrees (m : CMemory) (case_sensitive : Bool) (array : List Nat) (a : Int) (i : Nat) : Prop :=
  ∀ d ∈ array[i]?, compared case_sensitive (m.get (a + i)) = compared case_sensitive d

/-- All cells of the pattern match. -/
def Matches (m : CMemory) (case_sensitive : Bool) (array : List Nat) (a : Int) : Prop :=
  ∀ i, m.Agrees case_sensitive array a i

/-- The pattern matches inside of the memory, from `start` on. -/
def MatchesInside (m : CMemory) (case_sensitive : Bool) (array : List Nat) (start a : Int) : Prop :=
  start ≤ a ∧ a + array.length ≤ m.start_address + m.size ∧ m.Matches case_sensitive array a

/-- The search finds the lowest match, fails only if there is none, and reads valid addresses only. -/
def SearchRight (m : CMemory) (case_sensitive : Bool) (array : List Nat) (addr : Option Int) : Prop :=
  ∃ found at_ reads, m.search_next case_sensitive array addr = some (found, at_, reads) ∧
    (found = true → ∃ a, at_ = addr.map (fun _ => a) ∧ m.MatchesInside case_sensitive array (addr.getD 0) a ∧
      ∀ b, m.MatchesInside case_sensitive array (addr.getD 0) b → a ≤ b) ∧
    (found = false ↔ ∀ a, ¬ m.MatchesInside case_sensitive array (addr.getD 0) a) ∧
    ∀ r ∈ reads, m.valid_address r

/-- A memory with a match has one that ends within `size`. -/
def EndsWithin (m : CMemory) (case_sensitive : Bool) (array : List Nat) (start : Int) : Prop :=
  ∀ a, m.MatchesInside case_sensitive array start a →
    ∃ b ≤ a, m.MatchesInside case_sensitive array start b ∧ b + array.length ≤ m.size

/-- A memory without a match does not end, below `size`, like the pattern begins. -/
def EndsApart (m : CMemory) (case_sensitive : Bool) (array : List Nat) (start : Int) : Prop :=
  (∀ a, ¬ m.MatchesInside case_sensitive array start a) →
    ∀ a, start ≤ a → m.start_address + m.size < a + array.length → a + array.length ≤ m.size →
      ∃ i : Nat, a + i < m.start_address + m.size ∧ ¬ m.Agrees case_sensitive array a i

/-! ## The loops -/

section

variable {m : CMemory} {case_sensitive : Bool} {array : List Nat}

theorem add_succ (a : Int) (i : Nat) : a + ((i + 1 : Nat) : Int) = a + 1 + i := by
  omega

theorem agrees_cons {d : Nat} {a : Int} {i : Nat} :
    m.Agrees case_sensitive (d :: array) a (i + 1) ↔ m.Agrees case_sensitive array (a + 1) i := by
  unfold Agrees
  rw [List.getElem?_cons_succ, add_succ]

theorem agrees_zero {d : Nat} {a : Int} :
    m.Agrees case_sensitive (d :: array) a 0 ↔ compared case_sensitive (m.get a) = compared case_sensitive d := by
  simp [Agrees]

theorem matches_cons {d : Nat} {a : Int} :
    m.Matches case_sensitive (d :: array) a ↔
      compared case_sensitive (m.get a) = compared case_sensitive d ∧ m.Matches case_sensitive array (a + 1) := by
  constructor
  · exact fun h => ⟨agrees_zero.mp (h 0), fun i => agrees_cons.mp (h (i + 1))⟩
  · rintro ⟨hfirst, hrest⟩ (_ | i)
    · exact agrees_zero.mpr hfirst
    · exact agrees_cons.mpr (hrest i)

/-- The inner loop finds whether the pattern matches. -/
theorem matchLoop_fst (array : List Nat) : ∀ a, (matchLoop m case_sensitive a array).1 = true ↔
    m.Matches case_sensitive array a := by
  induction array with
  | nil => exact fun a => ⟨fun _ i => by simp [Agrees], fun _ => rfl⟩
  | cons d rest ih =>
    intro a
    rw [matches_cons, matchLoop]
    split
    next heq => rw [← ih (a + 1)]; simp only [heq, true_and]
    next hne => simp only [hne, false_and, Bool.false_eq_true]

/-- It reads the cells up to the first that does not agree. -/
theorem mem_matchLoop (array : List Nat) : ∀ a r, r ∈ (matchLoop m case_sensitive a array).2 ↔
    ∃ i : Nat, i < array.length ∧ r = a + i ∧ ∀ j < i, m.Agrees case_sensitive array a j := by
  induction array with
  | nil => exact fun a r => ⟨nofun, fun ⟨i, hi, _⟩ => absurd hi (Nat.not_lt_zero i)⟩
  | cons d rest ih =>
    intro a r
    have hfirst : (∃ i : Nat, i < (d :: rest).length ∧ r = a + i ∧
          ∀ j < i, m.Agrees case_sensitive (d :: rest) a j) ↔
        r = a ∨ compared case_sensitive (m.get a) = compared case_sensitive d ∧
          ∃ i : Nat, i < rest.length ∧ r = a + 1 + i ∧ ∀ j < i, m.Agrees case_sensitive rest (a + 1) j := by
      constructor
      · rintro ⟨_ | i, hi, rfl, hbefore⟩
        · exact .inl (Int.add_zero a)
        · refine .inr ⟨agrees_zero.mp (hbefore 0 (Nat.zero_lt_succ i)), i, Nat.lt_of_succ_lt_succ hi, add_succ a i, ?_⟩
          exact fun j hj => agrees_cons.mp (hbefore (j + 1) (Nat.succ_lt_succ hj))
      · rintro (rfl | ⟨heq, i, hi, rfl, hbefore⟩)
        · exact ⟨0, Nat.zero_lt_succ _, (Int.add_zero r).symm, nofun⟩
        · refine ⟨i + 1, Nat.succ_lt_succ hi, (add_succ a i).symm, ?_⟩
          rintro (_ | j) hj
          · exact agrees_zero.mpr heq
          · exact agrees_cons.mpr (hbefore j (Nat.lt_of_succ_lt_succ hj))
    rw [hfirst, matchLoop]
    split
    next heq => simp only [List.mem_cons, ih (a + 1), heq, true_and]
    next hne => simp only [List.mem_singleton, hne, false_and, or_false]

/-- What a search from an address has found. -/
structure Scanned (m : CMemory) (case_sensitive : Bool) (array : List Nat) (a : Int) (r : Bool × Int × List Int) : Prop where
  found : r.1 = true → a ≤ r.2.1 ∧ r.2.1 + array.length ≤ m.size ∧ m.Matches case_sensitive array r.2.1 ∧
    ∀ b, a ≤ b → b < r.2.1 → ¬ m.Matches case_sensitive array b
  missed : r.1 = false → ∀ b, a ≤ b → b + array.length ≤ m.size → ¬ m.Matches case_sensitive array b
  reads : ∀ x, x ∈ r.2.2 ↔ ∃ b, a ≤ b ∧ b + array.length ≤ m.size ∧ (r.1 = true → b ≤ r.2.1) ∧
    x ∈ (matchLoop m case_sensitive b array).2

theorem searchLoop_stop (fuel : Nat) {a : Int} (h : ¬ a + array.length ≤ m.size) :
    searchLoop m case_sensitive array fuel a = some (false, a, []) := by
  cases fuel <;> exact if_neg h

theorem searchLoop_scanned (fuel : Nat) : ∀ a, m.size - a - array.length < fuel →
    ∃ r, searchLoop m case_sensitive array fuel a = some r ∧ Scanned m case_sensitive array a r := by
  have hdone : ∀ a, ¬ a + array.length ≤ m.size → Scanned m case_sensitive array a (false, a, []) := by
    refine fun a hend => ⟨nofun, fun _ b hb hbs => absurd hbs (by omega), fun x => ⟨nofun, ?_⟩⟩
    rintro ⟨b, hb, hbs, -⟩
    omega
  induction fuel with
  | zero =>
    intro a hfuel
    have hend : ¬ a + array.length ≤ m.size := by omega
    exact ⟨_, searchLoop_stop 0 hend, hdone a hend⟩
  | succ fuel ih =>
    intro a hfuel
    by_cases hin : a + array.length ≤ m.size
    · rw [searchLoop, if_pos hin]
      dsimp only
      by_cases hmatch : (matchLoop m case_sensitive a array).1 = true
      · rw [if_pos hmatch]
        have hm := (matchLoop_fst array a).mp hmatch
        refine ⟨_, rfl, fun _ => ⟨Int.le_refl a, hin, hm, fun b hb hba => absurd hb (Int.not_le.mpr hba)⟩, nofun, fun x => ?_⟩
        constructor
        · exact fun hx => ⟨a, Int.le_refl a, hin, fun _ => Int.le_refl a, hx⟩
        · rintro ⟨b, hb, -, hba, hx⟩
          obtain rfl : b = a := Int.le_antisymm (hba rfl) hb
          exact hx
      · rw [if_neg hmatch]
        have hm := mt (matchLoop_fst array a).mpr hmatch
        obtain ⟨r, hr, hscan⟩ := ih (a + 1) (by omega)
        rw [hr]
        refine ⟨_, rfl, ?_, ?_, ?_⟩
        · intro hfound
          obtain ⟨hle, hsize, hmatches, hbefore⟩ := hscan.found hfound
          refine ⟨Int.le_trans (Int.le_of_lt (Int.lt_succ a)) hle, hsize, hmatches, fun b hb hbr => ?_⟩
          rcases Int.lt_or_eq_of_le hb with hlt | rfl
          · exact hbefore b (by omega) hbr
          · exact hm
        · intro hmissed b hb hbs
          rcases Int.lt_or_eq_of_le hb with hlt | rfl
          · exact hscan.missed hmissed b (by omega) hbs
          · exact hm
        · intro x
          change x ∈ (matchLoop m case_sensitive a array).2 ++ r.2.2 ↔ _
          rw [List.mem_append, hscan.reads]
          constructor
          · rintro (hx | ⟨b, hb, hbs, hbr, hx⟩)
            · exact ⟨a, Int.le_refl a, hin, fun hfound => Int.le_of_lt (hscan.found hfound).1, hx⟩
            · exact ⟨b, by omega, hbs, hbr, hx⟩
          · rintro ⟨b, hb, hbs, hbr, hx⟩
            rcases Int.lt_or_eq_of_le hb with hlt | rfl
            · exact .inr ⟨b, by omega, hbs, hbr, hx⟩
            · exact .inl hx
    · exact ⟨_, searchLoop_stop _ hin, hdone a hin⟩

/-- The test before the loop is one that the loop makes too. -/
theorem search_next_eq (addr : Option Int) : m.search_next case_sensitive array addr =
    (searchLoop m case_sensitive array (m.size - addr.getD 0 - array.length + 1).toNat (addr.getD 0)).map fun r =>
      (r.1, addr.map fun _ => r.2.1, r.2.2) := by
  unfold search_next
  dsimp only
  split
  next hend =>
    rw [searchLoop_stop _ (Int.not_le.mpr hend)]
    cases addr <;> rfl
  next => rfl

variable (m case_sensitive array) in
/-- `search_next` ends, with what it has scanned from its address on. -/
theorem search_next_scanned (addr : Option Int) : ∃ r : Bool × Int × List Int,
    m.search_next case_sensitive array addr = some (r.1, addr.map fun _ => r.2.1, r.2.2) ∧
      Scanned m case_sensitive array (addr.getD 0) r := by
  have hfuel : m.size - addr.getD 0 - array.length < (m.size - addr.getD 0 - array.length + 1).toNat := by omega
  obtain ⟨r, hr, hscan⟩ := searchLoop_scanned (m := m) _ (addr.getD 0) hfuel
  refine ⟨r, ?_, hscan⟩
  rw [search_next_eq, hr]
  rfl

/-- An address of the pattern that ends inside of the memory is valid. -/
theorem valid_of_mem {start a x : Int} (hstart : m.valid_address start) (ha : start ≤ a)
    (hend : a + array.length ≤ m.start_address + m.size) (hx : x ∈ (matchLoop m case_sensitive a array).2) :
    m.valid_address x := by
  obtain ⟨i, hi, rfl, -⟩ := (mem_matchLoop array a x).mp hx
  have hlow := hstart.1
  constructor <;> omega

theorem searchRight_of {addr : Option Int} (hstart : m.valid_address (addr.getD 0))
    (hwithin : m.EndsWithin case_sensitive array (addr.getD 0))
    (hapart : m.EndsApart case_sensitive array (addr.getD 0)) : m.SearchRight case_sensitive array addr := by
  obtain ⟨⟨found, a, reads⟩, hr, hscan⟩ := search_next_scanned m case_sensitive array addr
  refine ⟨found, _, reads, hr, ?_⟩
  cases found with
  | true =>
    obtain ⟨hle, hsize, hmatches, hbefore⟩ : addr.getD 0 ≤ a ∧ a + array.length ≤ m.size ∧
        m.Matches case_sensitive array a ∧ ∀ b, addr.getD 0 ≤ b → b < a → ¬ m.Matches case_sensitive array b :=
      hscan.found rfl
    -- the match is inside of the memory
    have hend : a + array.length ≤ m.start_address + m.size := by
      by_contra hout
      have hnone : ∀ b, ¬ m.MatchesInside case_sensitive array (addr.getD 0) b :=
        fun b ⟨hb, hbend, hbm⟩ => hbefore b hb (by omega) hbm
      obtain ⟨i, -, hi⟩ := hapart hnone a hle (by omega) hsize
      exact hi (hmatches i)
    refine ⟨fun _ => ⟨a, rfl, ⟨hle, hend, hmatches⟩, fun b hb => ?_⟩, ⟨nofun, fun hnone => ?_⟩, fun x hx => ?_⟩
    · by_contra hlt
      exact hbefore b hb.1 (Int.not_le.mp hlt) hb.2.2
    · exact absurd ⟨hle, hend, hmatches⟩ (hnone a)
    · obtain ⟨b, hb, -, hba, hx⟩ := (hscan.reads x).mp hx
      have hba : b ≤ a := hba rfl
      exact valid_of_mem hstart hb (by omega) hx
  | false =>
    have hnone : ∀ b, ¬ m.MatchesInside case_sensitive array (addr.getD 0) b := by
      intro b hb
      obtain ⟨c, -, hc, hcs⟩ := hwithin b hb
      exact hscan.missed rfl c hc.1 hcs hc.2.2
    refine ⟨nofun, ⟨fun _ => hnone, fun _ => rfl⟩, fun x hx => ?_⟩
    obtain ⟨b, hb, hbs, -, hx⟩ := (hscan.reads x).mp hx
    obtain ⟨i, hi, rfl, hagree⟩ := (mem_matchLoop array b x).mp hx
    have hlow := hstart.1
    refine ⟨by omega, ?_⟩
    by_contra hout
    -- everything up to the end of the memory agrees
    obtain ⟨j, hj, hdiff⟩ := hapart hnone b hb (by omega) hbs
    exact hdiff (hagree j (by omega))

theorem endsWithin_of {addr : Option Int} (h : m.SearchRight case_sensitive array addr) :
    m.EndsWithin case_sensitive array (addr.getD 0) := by
  intro a ha
  obtain ⟨⟨found, c, reads⟩, hr, hscan⟩ := search_next_scanned m case_sensitive array addr
  obtain ⟨found', at_, reads', hr', -, hnone, -⟩ := h
  obtain ⟨rfl, -⟩ : found = found' ∧ _ := by simpa using hr.symm.trans hr'
  cases found with
  | false => exact absurd ha (hnone.mp rfl a)
  | true =>
    obtain ⟨hle, hsize, hmatches, hbefore⟩ : addr.getD 0 ≤ c ∧ c + array.length ≤ m.size ∧
        m.Matches case_sensitive array c ∧ ∀ b, addr.getD 0 ≤ b → b < c → ¬ m.Matches case_sensitive array b :=
      hscan.found rfl
    have hca : c ≤ a := by
      by_contra hlt
      exact hbefore a ha.1 (Int.not_le.mp hlt) ha.2.2
    have hend := ha.2.1
    exact ⟨c, hca, ⟨hle, by omega, hmatches⟩, hsize⟩

theorem endsApart_of (hne : array ≠ []) {addr : Option Int} (h : m.SearchRight case_sensitive array addr) :
    m.EndsApart case_sensitive array (addr.getD 0) := by
  intro hnone a ha hout hsize
  obtain ⟨⟨found, c, reads⟩, hr, hscan⟩ := search_next_scanned m case_sensitive array addr
  obtain ⟨found', at_, reads', hr', -, hfound, hvalid⟩ := h
  obtain ⟨rfl, -, rfl⟩ : found = found' ∧ _ ∧ reads = reads' := by simpa using hr.symm.trans hr'
  obtain rfl := hfound.mpr hnone
  by_contra hagree
  simp only [not_exists, not_and, not_not] at hagree
  -- the first address behind the memory is read
  have hlen := List.length_pos_iff.mpr hne
  obtain ⟨i, hi⟩ : ∃ i : Nat, (i : Int) = max 0 (m.start_address + m.size - a) := ⟨_, Int.toNat_of_nonneg (by omega)⟩
  have hread : a + i ∈ reads := by
    refine (hscan.reads _).mpr ⟨a, ha, hsize, nofun, (mem_matchLoop array a _).mpr ⟨i, by omega, rfl, ?_⟩⟩
    exact fun j hj => hagree j (by omega)
  have hlt := (hvalid _ hread).2
  omega

end

/-- A search is right exactly if a memory with a match has one that ends within `size`, and one without does not end,
below `size`, like the pattern begins. -/
theorem search_next_iff (m : CMemory) (case_sensitive : Bool) {array : List Nat} (hne : array ≠ []) {addr : Option Int}
    (hstart : m.valid_address (addr.getD 0)) :
    m.SearchRight case_sensitive array addr ↔
      m.EndsWithin case_sensitive array (addr.getD 0) ∧ m.EndsApart case_sensitive array (addr.getD 0) :=
  ⟨fun h => ⟨endsWithin_of h, endsApart_of hne h⟩, fun h => searchRight_of hstart h.1 h.2⟩

/-- The special function registers of an 8051, with a 7 in the first of them. -/
def sfr7 : CMemory where
  start_address := 0x80
  size := 0x80
  get addr := if addr = 0x80 then 7 else 0

/-- The same cells in a memory that starts at 0. -/
def ram7 : CMemory where
  start_address := 0
  size := 0x80
  get addr := if addr = 0 then 7 else 0

/-- The search for 7 from the start. -/
theorem search_next_iff_ram7 : ([7] : List Nat) ≠ [] ∧ ram7.valid_address ((some 0).getD 0) ∧
    (ram7.SearchRight true [7] (some 0) ↔
      ram7.EndsWithin true [7] ((some 0).getD 0) ∧ ram7.EndsApart true [7] ((some 0).getD 0)) :=
  ⟨by decide, by decide, search_next_iff ram7 true (by decide) (by decide)⟩

/-- The search in the registers ends before it begins. -/
theorem search_next_misses : sfr7.valid_address 0x80 ∧ sfr7.MatchesInside true [7] 0x80 0x80 ∧
    ¬ sfr7.SearchRight true [7] (some 0x80) := by
  have hinside : sfr7.MatchesInside true [7] 0x80 0x80 := by
    refine ⟨by decide, by decide, matches_cons.mpr ⟨by decide, fun i => ?_⟩⟩
    simp [Agrees]
  refine ⟨by decide, hinside, fun h => ?_⟩
  obtain ⟨b, -, hb, hend⟩ := endsWithin_of h 0x80 hinside
  have hlow : (0x80 : Int) ≤ b := hb.1
  have hend : b + 1 ≤ 0x80 := hend
  omega

end CMemory

end Ucsim
