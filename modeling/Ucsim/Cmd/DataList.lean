import Ucsim.Cmd.Escapes
import Ucsim.Sim.Searching

/-!
# Data lists of commands

`set_data_list` collects the parameters behind the fixed ones in one array of memory values: a string
gives one element for each of its bytes, a number one element. The array grows by `realloc`. The list
is then written to a memory by `set memory` or searched for by `where`.
-/

namespace Ucsim.Cmd

/-- `t_mem`. -/
abbrev TMem := BitVec 16

/-- A string or a numeric parameter of a command; the number is a `long`. -/
inductive Param
  | str (s : CString)
  | int (i_value : BitVec 64)

namespace Buffer

variable {α : Type}

/-- `realloc` of a buffer. For no elements the memory is freed and there is no new one. -/
def realloc (p : Buffer α) (size : Nat) : Option (Buffer α) :=
  if size = 0 then none else some ⟨size, p.written.take size, List.length_take_le size p.written⟩

/-- `array[i]= x`, where the elements before `i` are written and no others. -/
def store (p : Buffer α) (i : Nat) (x : α) : Option (Buffer α) :=
  if i = p.written.length then p.put x else none

end Buffer

/-- The variables `array` and `len` of `set_data_list`; `array` is missing when the pointer is null. -/
structure DataList where
  array : Option (Buffer TMem)
  len : Nat

namespace DataList

/-- The elements of the array. -/
def elements (l : DataList) : List TMem :=
  match l.array with
  | none => []
  | some p => p.written

/-- `array= malloc(..)` or `array= realloc(array, ..)` for `l` more elements. -/
def grow (d : DataList) (l : Nat) : DataList :=
  match d.array with
  | none => { d with array := some (Buffer.malloc l) }
  | some p => { d with array := p.realloc (l + d.len) }

/-- `array[len]= x; len++`. -/
def append (d : DataList) (x : TMem) : Option DataList := do
  let p ← d.array
  let p ← p.store d.len x
  return { array := some p, len := d.len + 1 }

/-- The loop over the characters of a string. A `char` is signed, and the value stored is the converted
`int`. -/
def appendChars : DataList → List Byte → Option DataList
  | d, [] => some d
  | d, c :: rest => do
    let d ← d.append (c.signExtend 16)
    d.appendChars rest

/-- One round of `set_data_list`. -/
def addParam (d : DataList) : Param → Option DataList
  | .str s => do
    let (str, l) ← procEscape s
    (d.grow l).appendChars (str.written.take l)
  | .int i_value => (d.grow 1).append (i_value.setWidth 16)

end DataList

/-- `set_data_list`: the list and the new `*iparm`. -/
def setDataList (params : List Param) (iparm : Nat) : Option (DataList × Nat) := do
  let list ← (params.drop iparm).foldlM DataList.addParam { array := none, len := 0 }
  return (list, max iparm params.length)

/-! ## What a list should contain -/

namespace Param

/-- The bytes of a string, its escape sequences replaced. -/
def bytes (s : CString) : List Byte :=
  match procEscape s with
  | some (p, l) => p.written.take l
  | none => []

/-- The elements that a parameter stands for. -/
def values : Param → List Int
  | .str s => (bytes s).map fun b => (b.toNat : Int)
  | .int i_value => [i_value.toInt]

/-- The elements that `set_data_list` makes of a parameter. -/
def stored : Param → List TMem
  | .str s => (bytes s).map fun b => b.signExtend 16
  | .int i_value => [i_value.setWidth 16]

/-- The string has no byte above 0x7F, the number is a `t_mem`. -/
def Plain : Param → Prop
  | .str s => ∀ b ∈ bytes s, b.toNat ≤ 0x7F
  | .int i_value => 0 ≤ i_value.toInt ∧ i_value.toInt ≤ 0xFFFF

end Param

/-! ## Building the array -/

/-- The list holds these elements in order. -/
structure Holds (d : DataList) (e : List TMem) : Prop where
  elements_eq : d.elements = e
  len_eq : d.len = e.length

theorem holds_grow {d : DataList} {e : List TMem} (h : Holds d e) (l : Nat) :
    Holds (d.grow l) e ∧ (0 < l → ∃ p, (d.grow l).array = some p ∧ e.length + l ≤ p.size) := by
  obtain ⟨helements, hlen⟩ := h
  cases harray : d.array with
  | none =>
    have hnil : e = [] := by
      rw [← helements]
      simp [DataList.elements, harray]
    subst hnil
    refine ⟨⟨?_, ?_⟩, fun _ => ⟨Buffer.malloc l, ?_, ?_⟩⟩
    · simp [DataList.grow, harray, DataList.elements]
    · simpa [DataList.grow, harray] using hlen
    · simp [DataList.grow, harray]
    · simp
  | some p =>
    have hwritten : p.written = e := by
      rw [← helements]
      simp [DataList.elements, harray]
    by_cases hzero : l + d.len = 0
    · -- nothing is in the list and nothing comes
      have hnil : e = [] := List.length_eq_zero_iff.1 (by omega)
      subst hnil
      refine ⟨⟨?_, ?_⟩, fun hl => by omega⟩
      · simp [DataList.grow, harray, DataList.elements, Buffer.realloc, hzero]
      · simpa [DataList.grow, harray] using hlen
    · have hnew : p.realloc (l + d.len) =
          some ⟨l + d.len, p.written.take (l + d.len), List.length_take_le _ p.written⟩ := if_neg hzero
      refine ⟨⟨?_, ?_⟩, fun _ => ⟨_, by simp only [DataList.grow, harray]; exact hnew, ?_⟩⟩
      · simp only [DataList.grow, harray, DataList.elements, hnew, hwritten]
        exact List.take_of_length_le (by omega)
      · simpa [DataList.grow, harray] using hlen
      · simp only
        omega

/-- A store behind the elements of the list. -/
theorem append_spec {d : DataList} {e : List TMem} {p : Buffer TMem} (h : Holds d e)
    (harray : d.array = some p) (hroom : e.length < p.size) (x : TMem) :
    ∃ d' q, d.append x = some d' ∧ Holds d' (e ++ [x]) ∧ d'.array = some q ∧ q.size = p.size := by
  obtain ⟨helements, hlen⟩ := h
  have hwritten : p.written = e := by
    rw [← helements]
    simp [DataList.elements, harray]
  obtain ⟨q, hq, hsize, hqwritten⟩ := p.put_spec x (by rw [hwritten]; exact hroom)
  refine ⟨{ array := some q, len := d.len + 1 }, q, ?_, ⟨?_, ?_⟩, rfl, hsize⟩
  · have hindex : d.len = p.written.length := by rw [hlen, hwritten]
    simp only [DataList.append, harray, Option.bind_eq_bind, Option.bind_some, Buffer.store, hindex,
      if_true, hq, Option.pure_def]
  · simp only [DataList.elements, hqwritten, hwritten]
  · simp [hlen]

theorem appendChars_spec (l : List Byte) {d : DataList} {e : List TMem} (h : Holds d e)
    (hroom : 0 < l.length → ∃ p, d.array = some p ∧ e.length + l.length ≤ p.size) :
    ∃ d', d.appendChars l = some d' ∧ Holds d' (e ++ l.map fun b => b.signExtend 16) := by
  induction l generalizing d e with
  | nil => exact ⟨d, rfl, by simpa using h⟩
  | cons c rest ih =>
    obtain ⟨p, harray, hsize⟩ := hroom (by simp)
    simp only [List.length_cons] at hsize
    obtain ⟨d₁, q, hd₁, hholds, hq, hqsize⟩ := append_spec h harray (by omega) (c.signExtend 16)
    obtain ⟨d₂, hd₂, hholds₂⟩ := ih hholds fun _ => ⟨q, hq, by simp; omega⟩
    refine ⟨d₂, ?_, by simpa using hholds₂⟩
    rw [DataList.appendChars, hd₁]
    exact hd₂

/-- A parameter adds its elements. -/
theorem addParam_spec {d : DataList} {e : List TMem} (h : Holds d e) (p : Param) :
    ∃ d', d.addParam p = some d' ∧ Holds d' (e ++ p.stored) := by
  cases p with
  | str s =>
    obtain ⟨bytes, ⟨str, l⟩, hescaped⟩ := exists_escaped s
    obtain ⟨hresult, -, hwritten, hl, -⟩ := hescaped
    simp only at hwritten hl
    have htake : str.written.take l = bytes := by rw [hwritten, hl, List.take_left']; rfl
    have hbytes : Param.bytes s = bytes := by simp only [Param.bytes, hresult, htake]
    obtain ⟨hgrown, hroom⟩ := holds_grow h l
    obtain ⟨d', hd', hholds⟩ := appendChars_spec bytes hgrown (by rw [← hl]; exact hroom)
    refine ⟨d', ?_, by rw [Param.stored, hbytes]; exact hholds⟩
    simp only [DataList.addParam, hresult, Option.bind_eq_bind, Option.bind_some, htake, hd']
  | int i_value =>
    obtain ⟨hgrown, hroom⟩ := holds_grow h 1
    obtain ⟨q, hq, hsize⟩ := hroom Nat.one_pos
    obtain ⟨d', _, hd', hholds, _⟩ := append_spec hgrown hq (by omega) (i_value.setWidth 16)
    exact ⟨d', hd', hholds⟩

/-- The rounds add the elements of one parameter after the other. -/
theorem foldlM_spec (l : List Param) {d : DataList} {e : List TMem} (h : Holds d e) :
    ∃ d', l.foldlM DataList.addParam d = some d' ∧ Holds d' (e ++ l.flatMap Param.stored) := by
  induction l generalizing d e with
  | nil => exact ⟨d, rfl, by simpa using h⟩
  | cons p rest ih =>
    obtain ⟨d₁, hd₁, hholds⟩ := addParam_spec h p
    obtain ⟨d₂, hd₂, hholds₂⟩ := ih hholds
    refine ⟨d₂, ?_, by simpa using hholds₂⟩
    rw [List.foldlM_cons, hd₁]
    exact hd₂

/-- `set_data_list` gives the elements of all parameters, without writing behind the array. -/
theorem setDataList_spec (params : List Param) (iparm : Nat) :
    ∃ list, setDataList params iparm = some (list, max iparm params.length) ∧
      Holds list ((params.drop iparm).flatMap Param.stored) := by
  obtain ⟨list, hlist, hholds⟩ :=
    foldlM_spec (params.drop iparm) (d := { array := none, len := 0 }) (e := []) ⟨rfl, rfl⟩
  refine ⟨list, ?_, by simpa using hholds⟩
  simp only [setDataList, hlist, Option.bind_eq_bind, Option.bind_some, Option.pure_def]

/-! ## The elements and the values -/

/-- The element that a `char` becomes. -/
theorem signExtend_toNat (b : Byte) :
    (b.signExtend 16).toNat = if b.toNat ≤ 0x7F then b.toNat else 0xFF00 + b.toNat := by
  revert b
  decide

theorem setWidth_toNat_eq_iff (v : BitVec 64) :
    ((v.setWidth 16).toNat : Int) = v.toInt ↔ 0 ≤ v.toInt ∧ v.toInt ≤ 0xFFFF := by
  have hlt : v.toNat < 2 ^ 64 := v.isLt
  rw [BitVec.toNat_setWidth, BitVec.toInt_eq_toNat_cond]
  split <;> omega

namespace Param

theorem stored_length (p : Param) : p.stored.length = p.values.length := by
  cases p <;> simp [stored, values]

theorem stored_eq_iff (p : Param) : (p.stored.map fun x => (x.toNat : Int)) = p.values ↔ p.Plain := by
  cases p with
  | str s =>
    simp only [stored, values, Plain, List.map_map, List.map_inj_left, Function.comp_apply]
    refine forall₂_congr fun b _ => ?_
    rw [signExtend_toNat]
    split <;> omega
  | int i_value =>
    simp only [stored, values, Plain, List.map_cons, List.map_nil, List.cons.injEq, and_true]
    exact setWidth_toNat_eq_iff i_value

/-- The elements of the parameter are values of a cell with `width` bits. -/
def Fits (width : Nat) : Param → Prop
  | .str s => ∀ b ∈ bytes s, (if b.toNat ≤ 0x7F then b.toNat else 0xFF00 + b.toNat) < 2 ^ width
  | .int i_value => i_value.toNat % 2 ^ 16 < 2 ^ width

theorem fits_iff (width : Nat) (p : Param) : p.Fits width ↔ ∀ x ∈ p.stored, x.toNat < 2 ^ width := by
  cases p with
  | str s =>
    simp only [Fits, stored, List.mem_map, forall_exists_index, and_imp, forall_apply_eq_imp_iff₂]
    refine forall₂_congr fun b _ => ?_
    rw [signExtend_toNat]
  | int i_value => simp [Fits, stored]

end Param

/-- Lists that are put together of parts with the same lengths are equal when the parts are. -/
theorem stored_flatMap_eq_iff (l : List Param) :
    ((l.flatMap Param.stored).map fun x => (x.toNat : Int)) = l.flatMap Param.values ↔
      ∀ p ∈ l, p.Plain := by
  induction l with
  | nil => simp
  | cons p rest ih =>
    rw [List.flatMap_cons, List.flatMap_cons, List.map_append, List.forall_mem_cons, ← ih,
      ← p.stored_eq_iff]
    have hlength : (p.stored.map fun x => (x.toNat : Int)).length = p.values.length := by
      rw [List.length_map, p.stored_length]
    constructor
    · exact fun h => List.append_inj h hlength
    · rintro ⟨hfirst, hrest⟩
      rw [hfirst, hrest]

theorem stored_flatMap_length (l : List Param) :
    (l.flatMap Param.stored).length = (l.flatMap Param.values).length := by
  simp only [List.length_flatMap, Param.stored_length]

/-! ## Writing a list to a memory and searching for it -/

/-- A memory whose cells hold values of `width` bits. -/
structure Ram where
  memory : CMemory
  width : Nat
  get_lt : ∀ a, memory.get a < 2 ^ width

namespace Ram

/-- `mem->write`: the bits that the cell does not have are lost. -/
def write (m : Ram) (addr : Int) (val : TMem) : Ram :=
  { m with
    memory := { m.memory with get := Function.update m.memory.get addr (val.toNat % 2 ^ m.width) }
    get_lt := by
      intro a
      simp only [Function.update_apply]
      split
      · exact Nat.mod_lt _ (Nat.two_pow_pos _)
      · exact m.get_lt a }

/-- The loop of `set memory`. -/
def writeLoop : List TMem → Int → Ram → Ram
  | [], _, m => m
  | x :: rest, addr, m => if m.memory.valid_address addr then writeLoop rest (addr + 1) (m.write addr x) else m

/-- `set memory mem start array`. -/
def setMemory (m : Ram) (start : Int) (array : List TMem) : Ram :=
  if array.length = 0 then m
  else if start < m.memory.start_address then m
  else writeLoop array start m

/-- `where`: does the first search find the list? -/
def Found (m : Ram) (case_sensitive : Bool) (array : List TMem) : Prop :=
  ∃ addr reads, m.memory.search_next case_sensitive (array.map BitVec.toNat) (some 0) = some (true, addr, reads)

/-- The list lies in the memory at the address. -/
def HasArea (m : Ram) (start : Int) (len : Nat) : Prop :=
  m.memory.start_address ≤ start ∧ start + len ≤ m.memory.start_address + m.memory.size

/-- The list is at an address that the search looks at. -/
def HasCopy (m : Ram) (case_sensitive : Bool) (array : List TMem) (a : Int) : Prop :=
  0 ≤ a ∧ a + array.length ≤ m.memory.size ∧ m.memory.Matches case_sensitive (array.map BitVec.toNat) a

/-- What the loop leaves: the elements as far as the cells have bits, and the cells below. -/
theorem writeLoop_spec (array : List TMem) (start : Int) (m : Ram) (h : m.HasArea start array.length) :
    (writeLoop array start m).width = m.width ∧
      (writeLoop array start m).memory.start_address = m.memory.start_address ∧
      (writeLoop array start m).memory.size = m.memory.size ∧
      (∀ a < start, (writeLoop array start m).memory.get a = m.memory.get a) ∧
      ∀ (i : Nat) (x : TMem), array[i]? = some x → (writeLoop array start m).memory.get (start + i) = x.toNat % 2 ^ m.width := by
  induction array generalizing start m with
  | nil => exact ⟨rfl, rfl, rfl, fun _ _ => rfl, fun i x hx => by simp at hx⟩
  | cons x rest ih =>
    obtain ⟨hlow, hhigh⟩ := h
    simp only [List.length_cons, Nat.cast_add, Nat.cast_one] at hhigh
    have hvalid : m.memory.valid_address start := ⟨hlow, by omega⟩
    have harea : (m.write start x).HasArea (start + 1) rest.length := by
      constructor <;> simp only [write] <;> omega
    obtain ⟨hwidth, hstart, hsize, hbelow, helements⟩ := ih (start + 1) (m.write start x) harea
    rw [writeLoop, if_pos hvalid]
    refine ⟨hwidth, hstart, hsize, fun a ha => ?_, fun i y hy => ?_⟩
    · rw [hbelow a (by omega)]
      simp only [write]
      exact Function.update_of_ne (by omega) _ _
    · cases i with
      | zero =>
        obtain rfl : x = y := by simpa using hy
        -- the first element is below the rest
        have hfirst := hbelow start (by omega)
        rw [Nat.cast_zero, add_zero, hfirst]
        exact Function.update_self _ _ _
      | succ i =>
        have hrest := helements i y (by simpa using hy)
        rw [CMemory.add_succ, hrest]
        rfl

/-- Upper and lower case letters are the same to a search that is not case sensitive. -/
theorem compared_false (d : Nat) :
    CMemory.compared false d = if 97 ≤ d ∧ d ≤ 122 then d - 32 else d := by
  by_cases hlower : 97 ≤ d ∧ d ≤ 122
  · simp [CMemory.compared, CMemory.isalpha, CMemory.toupper, hlower]
  · simp [CMemory.compared, CMemory.toupper, hlower]

/-- Values of a cell are not taken for larger ones. -/
theorem compared_ne {width x d : Nat} (case_sensitive : Bool) (hx : x < 2 ^ width) (hd : ¬ d < 2 ^ width) :
    CMemory.compared case_sensitive x ≠ CMemory.compared case_sensitive d := by
  cases case_sensitive with
  | true =>
    have hself : ∀ y, CMemory.compared true y = y := fun y => rfl
    rw [hself, hself]
    omega
  | false =>
    rw [compared_false, compared_false]
    by_cases hlower : 97 ≤ d ∧ d ≤ 122
    · -- a lower case letter has bit 6, so the cell has at most 6 bits
      have hwidth : 2 ^ width ≤ 2 ^ 6 := by
        apply Nat.pow_le_pow_right (by omega)
        by_contra hlarge
        have := Nat.pow_le_pow_right (n := 2) (by omega) (show 7 ≤ width by omega)
        omega
      rw [if_pos hlower]
      split <;> omega
    · rw [if_neg hlower]
      split <;> omega

/-- A search finds what lies at or behind address 0 and ends within `size`. -/
theorem found_iff (m : Ram) (case_sensitive : Bool) (array : List TMem) :
    m.Found case_sensitive array ↔ ∃ a, m.HasCopy case_sensitive array a := by
  obtain ⟨⟨found, a, reads⟩, hr, hscan⟩ :=
    CMemory.search_next_scanned m.memory case_sensitive (array.map BitVec.toNat) (some 0)
  have hzero : (some (0 : Int)).getD 0 = 0 := rfl
  rw [hzero] at hscan
  constructor
  · rintro ⟨addr, reads', hfound⟩
    rw [hr] at hfound
    simp only [Option.some.injEq, Prod.mk.injEq] at hfound
    obtain ⟨hle, hsize, hmatches, -⟩ := hscan.found hfound.1
    exact ⟨a, hle, by simpa using hsize, hmatches⟩
  · rintro ⟨b, hb, hsize, hmatches⟩
    cases found with
    | true => exact ⟨_, _, hr⟩
    | false => exact absurd hmatches (hscan.missed rfl b hb (by simpa using hsize))

/-- A list with an element that no cell can hold is nowhere. -/
theorem HasCopy.lt {m : Ram} {case_sensitive : Bool} {array : List TMem} {a : Int}
    (h : m.HasCopy case_sensitive array a) {x : TMem} (hx : x ∈ array) : x.toNat < 2 ^ m.width := by
  obtain ⟨i, hi⟩ := List.mem_iff_getElem?.1 hx
  by_contra hlarge
  have hmatch := h.2.2 i x.toNat (by simp [hi])
  exact compared_ne case_sensitive (m.get_lt _) hlarge hmatch

/-- After `set memory` the search finds the list when the cells can hold its elements, and it lies within
the first `size` addresses or elsewhere once more. -/
theorem found_setMemory_iff (m : Ram) (case_sensitive : Bool) (array : List TMem) (start : Int)
    (h : m.HasArea start array.length) :
    (m.setMemory start array).Found case_sensitive array ↔
      (∀ x ∈ array, x.toNat < 2 ^ m.width) ∧
        (0 ≤ start ∧ start + array.length ≤ m.memory.size ∨
          ∃ a ≠ start, (m.setMemory start array).HasCopy case_sensitive array a) := by
  have hset : m.setMemory start array = writeLoop array start m := by
    rw [setMemory]
    split
    next hnil =>
      rw [List.length_eq_zero_iff.1 hnil]
      rfl
    next => exact if_neg (by have := h.1; omega)
  obtain ⟨hwidth, -, hsize, -, helements⟩ := writeLoop_spec array start m h
  rw [found_iff, hset]
  constructor
  · rintro ⟨a, ha⟩
    refine ⟨fun x hx => by rw [← hwidth]; exact ha.lt hx, ?_⟩
    by_cases hstart : a = start
    · subst hstart
      exact .inl ⟨ha.1, by rw [← hsize]; exact ha.2.1⟩
    · exact .inr ⟨a, hstart, ha⟩
  · rintro ⟨hfits, ⟨hpos, hend⟩ | ⟨a, -, ha⟩⟩
    · refine ⟨start, hpos, by rw [hsize]; exact hend, fun i d hd => ?_⟩
      obtain ⟨x, hx, rfl⟩ : ∃ x, array[i]? = some x ∧ x.toNat = d := by simpa using hd
      rw [helements i x hx, Nat.mod_eq_of_lt (hfits x (List.mem_of_getElem? hx))]
    · exact ⟨a, ha⟩

end Ram

/-- `set_data_list` builds a list of the right length inside its array. The elements are the values of the
parameters when these are plain, and a list that was written to a memory is found there when the cells can
hold its elements. -/
theorem setDataList_right_iff (params : List Param) (iparm : Nat) :
    ∃ list, setDataList params iparm = some (list, max iparm params.length) ∧
      list.elements.length = list.len ∧ list.len = ((params.drop iparm).flatMap Param.values).length ∧
      ((list.elements.map fun x => (x.toNat : Int)) = (params.drop iparm).flatMap Param.values ↔
        ∀ p ∈ params.drop iparm, p.Plain) ∧
      ∀ (m : Ram) (case_sensitive : Bool) (start : Int), m.HasArea start list.len →
        ((m.setMemory start list.elements).Found case_sensitive list.elements ↔
          (∀ p ∈ params.drop iparm, p.Fits m.width) ∧
            (0 ≤ start ∧ start + list.len ≤ m.memory.size ∨
              ∃ a ≠ start, (m.setMemory start list.elements).HasCopy case_sensitive list.elements a)) := by
  obtain ⟨list, hlist, helements, hlen⟩ := setDataList_spec params iparm
  refine ⟨list, hlist, by rw [helements, hlen], by rw [hlen, stored_flatMap_length], ?_, ?_⟩
  · rw [helements]
    exact stored_flatMap_eq_iff _
  · intro m case_sensitive start harea
    have hfits : (∀ p ∈ params.drop iparm, p.Fits m.width) ↔ ∀ x ∈ list.elements, x.toNat < 2 ^ m.width := by
      rw [helements]
      simp only [Param.fits_iff, List.mem_flatMap, forall_exists_index, and_imp]
      exact ⟨fun h x p hp hx => h p hp x hx, fun h p hp x hx => h x p hp hx⟩
    have hlength : list.len = list.elements.length := by rw [helements, hlen]
    rw [hlength] at harea ⊢
    rw [hfits]
    exact Ram.found_setMemory_iff m case_sensitive list.elements start harea

/-- The string of the byte 0xE9. -/
def highByte : CString := ⟨[0xE9], by decide⟩

/-- 16 cells of 8 bits from address 0 on. -/
def ram16 : Ram := ⟨⟨0, 16, fun _ => 0⟩, 8, fun _ => Nat.two_pow_pos 8⟩

/-- The byte 0xE9 becomes the element 0xFFE9, which no cell of 8 bits holds. -/
theorem setDataList_highByte :
    ∃ list next, setDataList [.str highByte] 0 = some (list, next) ∧ list.elements = [0xFFE9] ∧
      Param.values (.str highByte) = [0xE9] ∧
      ¬ (ram16.setMemory 0 list.elements).Found true list.elements := by
  obtain ⟨list, hlist, helements, -⟩ := setDataList_spec [.str highByte] 0
  have hwrites : Writes false [0xE9] highByte.chars := .raw (by decide) (by decide) nofun (.nil false)
  obtain ⟨⟨p, l⟩, hresult, -, hwritten, hl, -⟩ := escaped_of_writes hwrites
  simp only at hwritten hl
  have hbytes : Param.bytes highByte = [0xE9] := by
    simp only [Param.bytes, hresult, hwritten, hl]
    rfl
  have hlist' : list.elements = [0xFFE9] := by
    rw [helements]
    simp only [List.drop_zero, List.flatMap_cons, List.flatMap_nil, List.append_nil, Param.stored, hbytes]
    rfl
  refine ⟨list, _, hlist, hlist', by simp only [Param.values, hbytes]; rfl, ?_⟩
  rw [hlist', Ram.found_setMemory_iff ram16 true [0xFFE9] 0 (by constructor <;> decide)]
  rintro ⟨hfits, -⟩
  exact absurd (hfits 0xFFE9 (by simp)) (by decide)

end Ucsim.Cmd
