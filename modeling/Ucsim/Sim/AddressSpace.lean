import Ucsim.Sim.Cell

/-!
# Address spaces: cells, storage and breakpoints

An address space owns an array of cells. A cell that is not decoded keeps its value in a place of its
own, got from `malloc`; a decoded one points into a slot of a memory chip. `decode_cell` and
`undecode_cell` move a cell between the two, `register_hw` and `set_brk` hang operators on it.
-/

namespace Ucsim

/-- Where a data pointer points: into the array of a chip, or to a place got from `malloc`. -/
inductive DataPtr
  | slot (chip : Nat) (addr : Int)
  | heap (n : Nat)
  deriving DecidableEq, Repr

/-- `cl_memory_chip`, told from the others by `id`. -/
structure MemoryChip where
  id : Nat
  size : Int
  deriving DecidableEq, Repr

/-- `get_slot`. There is no lower bound check, so a negative address yields a pointer in front of the
array. -/
def MemoryChip.getSlot (chip : MemoryChip) (addr : Int) : Option DataPtr :=
  if chip.size ≤ addr then none else some (.slot chip.id addr)

/-- A cell of an address space, which callbacks know by its index in `cells`. -/
abbrev SpaceCell (Hw : Type) := Cell Int DataPtr Hw

/-- `cl_address_decoder`. `onSpace` tells whether `address_space` points to the space (it is null
otherwise), `memchip` is null if the constructor was not given a chip. -/
structure AddressDecoder where
  onSpace : Bool
  memchip : Option MemoryChip
  asBegin : Int
  asEnd : Int
  chipBegin : Int
  activated : Bool
  deriving DecidableEq, Repr

/-- A pointer to a decoder object. -/
abbrev DecoderPtr := Nat

/-- `cl_address_space`, with the decoder objects it refers to. The places `heap n` with
`n < freshHeap` and the decoder objects below `freshDecoder` have been allocated. -/
structure AddressSpace (Hw : Type) where
  startAddress : Int
  size : Int
  cells : Int → SpaceCell Hw
  decoders : List DecoderPtr
  decoder : DecoderPtr → AddressDecoder
  freshHeap : Nat
  freshDecoder : Nat

variable {Hw W : Type}

namespace AddressSpace

/-- `init_constructor`: no cell is decoded, none has an operator, and there is no decoder. -/
def new (astart asize : Int) : AddressSpace Hw where
  startAddress := astart
  size := asize
  cells idx :=
    { data := .heap idx.toNat, mask := 0xff, nonDecoded := true, fetchBrk := false, operators := [] }
  decoders := []
  decoder _ :=
    { onSpace := false, memchip := none, asBegin := 0, asEnd := 0, chipBegin := 0,
      activated := false }
  freshHeap := asize.toNat
  freshDecoder := 0

/-- `valid_address`. -/
def validAddress (sp : AddressSpace Hw) (addr : Int) : Prop :=
  addr ≥ sp.startAddress ∧ addr < sp.startAddress + sp.size

instance (sp : AddressSpace Hw) (addr : Int) : Decidable (sp.validAddress addr) :=
  inferInstanceAs (Decidable (_ ∧ _))

/-- The cell at an address. -/
def cellAt (sp : AddressSpace Hw) (addr : Int) : SpaceCell Hw :=
  sp.cells (addr - sp.startAddress)

/-- Replace the cell at an address. -/
def setCell (sp : AddressSpace Hw) (addr : Int) (c : SpaceCell Hw) : AddressSpace Hw :=
  { sp with cells := Function.update sp.cells (addr - sp.startAddress) c }

/-- `cells[idx]` for an index that satisfies the check at the head of most functions,
`idx >= size || addr < start_address`, with the cell changed by `f`. -/
def modifyCell (sp : AddressSpace Hw) (addr : Int) (f : SpaceCell Hw → SpaceCell Hw) :
    AddressSpace Hw :=
  if sp.validAddress addr then sp.setCell addr (f (sp.cellAt addr)) else sp

/-- `set_cell_flag(addr, set_to, CELL_FETCH_BRK)`. The cell is taken at `cells + addr`, not at
`cells + idx`. An invalid address sets the flag of the dummy cell. -/
def setFetchBrk (sp : AddressSpace Hw) (addr : Int) (setTo : Bool) : AddressSpace Hw :=
  if sp.validAddress addr then
    { sp with
      cells := Function.update sp.cells addr { sp.cells addr with fetchBrk := setTo } }
  else sp

/-- `register_hw`. -/
def registerHw (sp : AddressSpace Hw) (addr : Int) (hw : Hw) : AddressSpace Hw :=
  sp.modifyCell addr fun c => c.addHw (addr - sp.startAddress) hw

/-- `set_brk`. -/
def setBrk (sp : AddressSpace Hw) (addr : Int) (brk : Brk) : AddressSpace Hw :=
  let op (kind : OperatorKind Hw) (c : SpaceCell Hw) : SpaceCell Hw :=
    c.appendOperator
      { kind := kind, cell := addr - sp.startAddress, data := c.data, mask := c.mask }
  match brk.event.kind with
  | .write => sp.modifyCell addr (op (.write brk))
  | .read => sp.modifyCell addr (op (.read brk))
  | .fetch => sp.setFetchBrk addr true
  | .other => sp

/-- `del_brk`. -/
def delBrk (sp : AddressSpace Hw) (addr : Int) (brk : Brk) : AddressSpace Hw :=
  match brk.event.kind with
  | .write | .read => sp.modifyCell addr (·.delOperator brk)
  | .fetch => sp.setFetchBrk addr false
  | .other => sp

/-- `cl_memory_cell::un_decode` on the cell at an address of the space. -/
def unDecode (sp : AddressSpace Hw) (addr : Int) : AddressSpace Hw :=
  if (sp.cellAt addr).nonDecoded then sp
  else
    { sp.setCell addr { sp.cellAt addr with data := .heap sp.freshHeap, nonDecoded := true } with
      freshHeap := sp.freshHeap + 1 }

/-- `cl_memory_cell::decode` on the cell at an address of the space. -/
def decode (sp : AddressSpace Hw) (addr : Int) (chip : MemoryChip) (chipaddr : Int) :
    AddressSpace Hw :=
  match chip.getSlot chipaddr with
  | some p => sp.setCell addr { sp.cellAt addr with data := p, nonDecoded := false }
  | none =>
    { sp.setCell addr { sp.cellAt addr with data := .heap sp.freshHeap, nonDecoded := true } with
      freshHeap := sp.freshHeap + 1 }

/-- `undecode_cell`. -/
def undecodeCell (sp : AddressSpace Hw) (addr : Int) : AddressSpace Hw :=
  if sp.validAddress addr then sp.unDecode addr else sp

/-- `decode_cell`. Its result, whether the cell is decoded now, only chooses a debug message. -/
def decodeCell (sp : AddressSpace Hw) (addr : Int) (chip : MemoryChip) (chipaddr : Int) :
    AddressSpace Hw :=
  if sp.validAddress addr then (sp.unDecode addr).decode addr chip chipaddr else sp

/-! ## What decoding does to the cells

`SameBut S sp sp'` is the frame of all operations that move cells: they leave the operators and masks
of all cells, every cell outside `S`, and the decoders alone.
-/

@[simp] theorem cellAt_setCell_self (sp : AddressSpace Hw) (a : Int) (c : SpaceCell Hw) :
    (sp.setCell a c).cellAt a = c := by
  simp [cellAt, setCell]

theorem cellAt_setCell_ne (sp : AddressSpace Hw) {a b : Int} (h : b ≠ a) (c : SpaceCell Hw) :
    (sp.setCell a c).cellAt b = sp.cellAt b := by
  have hidx : b - sp.startAddress ≠ a - sp.startAddress := by omega
  exact Function.update_of_ne hidx _ _

/-- `sp'` is `sp` with the cells at the addresses in `S` moved. -/
structure SameBut (S : Int → Prop) (sp sp' : AddressSpace Hw) : Prop where
  startAddress : sp'.startAddress = sp.startAddress
  size : sp'.size = sp.size
  decoders : sp'.decoders = sp.decoders
  decoder : sp'.decoder = sp.decoder
  freshDecoder : sp'.freshDecoder = sp.freshDecoder
  operators : ∀ a, (sp'.cellAt a).operators = (sp.cellAt a).operators
  mask : ∀ a, (sp'.cellAt a).mask = (sp.cellAt a).mask
  fetchBrk : ∀ a, (sp'.cellAt a).fetchBrk = (sp.cellAt a).fetchBrk
  cell : ∀ a, ¬ S a → sp'.cellAt a = sp.cellAt a

namespace SameBut

variable {S T : Int → Prop} {sp sp' sp'' : AddressSpace Hw}

theorem refl (S : Int → Prop) (sp : AddressSpace Hw) : SameBut S sp sp where
  startAddress := rfl
  size := rfl
  decoders := rfl
  decoder := rfl
  freshDecoder := rfl
  operators _ := rfl
  mask _ := rfl
  fetchBrk _ := rfl
  cell _ _ := rfl

theorem trans (h : SameBut S sp sp') (h' : SameBut S sp' sp'') : SameBut S sp sp'' where
  startAddress := h'.startAddress.trans h.startAddress
  size := h'.size.trans h.size
  decoders := h'.decoders.trans h.decoders
  decoder := h'.decoder.trans h.decoder
  freshDecoder := h'.freshDecoder.trans h.freshDecoder
  operators a := (h'.operators a).trans (h.operators a)
  mask a := (h'.mask a).trans (h.mask a)
  fetchBrk a := (h'.fetchBrk a).trans (h.fetchBrk a)
  cell a ha := (h'.cell a ha).trans (h.cell a ha)

theorem mono (h : SameBut S sp sp') (hST : ∀ a, S a → T a) : SameBut T sp sp' where
  startAddress := h.startAddress
  size := h.size
  decoders := h.decoders
  decoder := h.decoder
  freshDecoder := h.freshDecoder
  operators := h.operators
  mask := h.mask
  fetchBrk := h.fetchBrk
  cell a ha := h.cell a (fun hS => ha (hST a hS))

theorem validAddress_iff (h : SameBut S sp sp') (a : Int) :
    sp'.validAddress a ↔ sp.validAddress a := by
  rw [validAddress, validAddress, h.startAddress, h.size]

end SameBut

/-- Moving one cell. -/
theorem sameBut_move (sp : AddressSpace Hw) (a : Int) (p : DataPtr) (nd : Bool) (n : Nat) :
    SameBut (· = a) sp
      { sp.setCell a { sp.cellAt a with data := p, nonDecoded := nd } with freshHeap := n } := by
  have hcell (b : Int) : (sp.setCell a { sp.cellAt a with data := p, nonDecoded := nd }).cellAt b
      = { sp.cellAt b with
          data := if b = a then p else (sp.cellAt b).data
          nonDecoded := if b = a then nd else (sp.cellAt b).nonDecoded } := by
    by_cases h : b = a
    · subst h
      simp
    · rw [cellAt_setCell_ne sp h]
      simp [h]
  exact
    { startAddress := rfl
      size := rfl
      decoders := rfl
      decoder := rfl
      freshDecoder := rfl
      operators := fun b => (congrArg Cell.operators (hcell b) :)
      mask := fun b => (congrArg Cell.mask (hcell b) :)
      fetchBrk := fun b => (congrArg Cell.fetchBrk (hcell b) :)
      cell := fun b h => cellAt_setCell_ne sp h _ }

theorem unDecode_sameBut (sp : AddressSpace Hw) (a : Int) : SameBut (· = a) sp (sp.unDecode a) := by
  rw [unDecode]
  split
  · exact SameBut.refl _ sp
  · exact sameBut_move sp a _ _ _

/-- A non-decoded cell is left as it is. -/
theorem unDecode_of_nonDecoded {sp : AddressSpace Hw} {a : Int}
    (h : (sp.cellAt a).nonDecoded = true) : sp.unDecode a = sp := by
  rw [unDecode, if_pos h]

theorem unDecode_nonDecoded (sp : AddressSpace Hw) (a : Int) :
    ((sp.unDecode a).cellAt a).nonDecoded = true := by
  rw [unDecode]
  split
  · assumption
  · exact congrArg Cell.nonDecoded (cellAt_setCell_self sp a _)

theorem decode_sameBut (sp : AddressSpace Hw) (a : Int) (chip : MemoryChip) (ca : Int) :
    SameBut (· = a) sp (sp.decode a chip ca) := by
  rw [decode]
  split
  · exact sameBut_move sp a _ _ sp.freshHeap
  · exact sameBut_move sp a _ _ _

theorem undecodeCell_sameBut (sp : AddressSpace Hw) (a : Int) :
    SameBut (· = a) sp (sp.undecodeCell a) := by
  rw [undecodeCell]
  split
  · exact unDecode_sameBut sp a
  · exact SameBut.refl _ sp

theorem decodeCell_sameBut (sp : AddressSpace Hw) (a : Int) (chip : MemoryChip) (ca : Int) :
    SameBut (· = a) sp (sp.decodeCell a chip ca) := by
  rw [decodeCell]
  split
  · exact (unDecode_sameBut sp a).trans (decode_sameBut _ a chip ca)
  · exact SameBut.refl _ sp

/-- The cell at `a` is wired to the slot `p`, or to a place of its own if there is no such slot. -/
def WiredTo (sp : AddressSpace Hw) (a : Int) (p : Option DataPtr) : Prop :=
  match p with
  | some p => (sp.cellAt a).nonDecoded = false ∧ (sp.cellAt a).data = p
  | none => (sp.cellAt a).nonDecoded = true

theorem WiredTo.congr {sp sp' : AddressSpace Hw} {a : Int} {p : Option DataPtr}
    (hw : sp.WiredTo a p) (h : sp'.cellAt a = sp.cellAt a) : sp'.WiredTo a p := by
  cases p with
  | none => rw [WiredTo] at hw ⊢; rw [h]; exact hw
  | some p => rw [WiredTo] at hw ⊢; rw [h]; exact hw

theorem decodeCell_wiredTo {sp : AddressSpace Hw} {a : Int} (ha : sp.validAddress a)
    (chip : MemoryChip) (ca : Int) :
    (sp.decodeCell a chip ca).WiredTo a (chip.getSlot ca) := by
  rw [decodeCell, if_pos ha, decode]
  cases chip.getSlot ca with
  | none => exact congrArg Cell.nonDecoded (cellAt_setCell_self _ a _)
  | some p =>
    exact ⟨congrArg Cell.nonDecoded (cellAt_setCell_self _ a _),
      congrArg Cell.data (cellAt_setCell_self _ a _)⟩

/-! ## What registering hardware and setting breakpoints does to the cells -/

/-- `sp'` is `sp` with other operators and fetch flags on its cells. -/
structure SameWiring (sp sp' : AddressSpace Hw) : Prop where
  startAddress : sp'.startAddress = sp.startAddress
  size : sp'.size = sp.size
  decoders : sp'.decoders = sp.decoders
  decoder : sp'.decoder = sp.decoder
  freshDecoder : sp'.freshDecoder = sp.freshDecoder
  data : ∀ a, (sp'.cellAt a).data = (sp.cellAt a).data
  mask : ∀ a, (sp'.cellAt a).mask = (sp.cellAt a).mask
  nonDecoded : ∀ a, (sp'.cellAt a).nonDecoded = (sp.cellAt a).nonDecoded

theorem SameWiring.refl (sp : AddressSpace Hw) : SameWiring sp sp :=
  ⟨rfl, rfl, rfl, rfl, rfl, fun _ => rfl, fun _ => rfl, fun _ => rfl⟩

theorem modifyCell_cellAt (sp : AddressSpace Hw) (a b : Int) (f : SpaceCell Hw → SpaceCell Hw) :
    (sp.modifyCell a f).cellAt b
      = if b = a ∧ sp.validAddress a then f (sp.cellAt b) else sp.cellAt b := by
  rw [modifyCell]
  by_cases hv : sp.validAddress a
  · rw [if_pos hv]
    by_cases hb : b = a
    · subst hb
      rw [cellAt_setCell_self, if_pos ⟨rfl, hv⟩]
    · rw [cellAt_setCell_ne sp hb, if_neg (fun h => hb h.1)]
  · rw [if_neg hv, if_neg (fun h => hv h.2)]

theorem modifyCell_sameWiring (sp : AddressSpace Hw) (a : Int) {f : SpaceCell Hw → SpaceCell Hw}
    (hf : ∀ c, (f c).data = c.data ∧ (f c).mask = c.mask ∧ (f c).nonDecoded = c.nonDecoded) :
    SameWiring sp (sp.modifyCell a f) := by
  have hcell (b : Int) : ((sp.modifyCell a f).cellAt b).data = (sp.cellAt b).data ∧
      ((sp.modifyCell a f).cellAt b).mask = (sp.cellAt b).mask ∧
      ((sp.modifyCell a f).cellAt b).nonDecoded = (sp.cellAt b).nonDecoded := by
    rw [modifyCell_cellAt]
    split
    · exact hf _
    · exact ⟨rfl, rfl, rfl⟩
  have hspace : (sp.modifyCell a f).startAddress = sp.startAddress ∧
      (sp.modifyCell a f).size = sp.size ∧ (sp.modifyCell a f).decoders = sp.decoders ∧
      (sp.modifyCell a f).decoder = sp.decoder ∧
      (sp.modifyCell a f).freshDecoder = sp.freshDecoder := by
    rw [modifyCell]
    split <;> exact ⟨rfl, rfl, rfl, rfl, rfl⟩
  obtain ⟨h1, h2, h3, h4, h5⟩ := hspace
  exact ⟨h1, h2, h3, h4, h5, fun b => (hcell b).1, fun b => (hcell b).2.1, fun b => (hcell b).2.2⟩

/-- The fetch flag is all that changes, be it on the cell at `addr` or on the one at index `addr`. -/
theorem setFetchBrk_cellAt (sp : AddressSpace Hw) (a b : Int) (setTo : Bool) :
    ∃ flag, (sp.setFetchBrk a setTo).cellAt b = { sp.cellAt b with fetchBrk := flag } := by
  rw [setFetchBrk]
  split
  · by_cases hb : b - sp.startAddress = a
    · refine ⟨setTo, ?_⟩
      show Function.update sp.cells a _ (b - sp.startAddress) = _
      rw [hb, Function.update_self, cellAt, hb]
    · refine ⟨(sp.cellAt b).fetchBrk, ?_⟩
      exact Function.update_of_ne hb _ _
  · exact ⟨(sp.cellAt b).fetchBrk, rfl⟩

theorem setFetchBrk_sameWiring (sp : AddressSpace Hw) (a : Int) (setTo : Bool) :
    SameWiring sp (sp.setFetchBrk a setTo) := by
  have hspace : (sp.setFetchBrk a setTo).startAddress = sp.startAddress ∧
      (sp.setFetchBrk a setTo).size = sp.size ∧ (sp.setFetchBrk a setTo).decoders = sp.decoders ∧
      (sp.setFetchBrk a setTo).decoder = sp.decoder ∧
      (sp.setFetchBrk a setTo).freshDecoder = sp.freshDecoder := by
    rw [setFetchBrk]
    split <;> exact ⟨rfl, rfl, rfl, rfl, rfl⟩
  obtain ⟨h1, h2, h3, h4, h5⟩ := hspace
  have hcell (b : Int) := setFetchBrk_cellAt sp a b setTo
  refine ⟨h1, h2, h3, h4, h5, fun b => ?_, fun b => ?_, fun b => ?_⟩
  all_goals
    obtain ⟨flag, hflag⟩ := hcell b
    rw [hflag]

theorem registerHw_sameWiring (sp : AddressSpace Hw) (a : Int) (hw : Hw) :
    SameWiring sp (sp.registerHw a hw) :=
  modifyCell_sameWiring sp a (fun _ => ⟨rfl, rfl, rfl⟩)

theorem setBrk_sameWiring (sp : AddressSpace Hw) (a : Int) (brk : Brk) :
    SameWiring sp (sp.setBrk a brk) := by
  rw [setBrk]
  cases brk.event.kind with
  | write => exact modifyCell_sameWiring sp a (fun _ => ⟨rfl, rfl, rfl⟩)
  | read => exact modifyCell_sameWiring sp a (fun _ => ⟨rfl, rfl, rfl⟩)
  | fetch => exact setFetchBrk_sameWiring sp a true
  | other => exact SameWiring.refl sp

theorem delBrk_sameWiring (sp : AddressSpace Hw) (a : Int) (brk : Brk) :
    SameWiring sp (sp.delBrk a brk) := by
  rw [delBrk]
  cases brk.event.kind with
  | write => exact modifyCell_sameWiring sp a (fun _ => ⟨rfl, rfl, rfl⟩)
  | read => exact modifyCell_sameWiring sp a (fun _ => ⟨rfl, rfl, rfl⟩)
  | fetch => exact setFetchBrk_sameWiring sp a false
  | other => exact SameWiring.refl sp

/-- The kind of operator that `set_brk` creates. -/
def brkOperator (brk : Brk) : Option (OperatorKind Hw) :=
  match brk.event.kind with
  | .write => some (.write brk)
  | .read => some (.read brk)
  | .fetch | .other => none

/-- `set_brk` appends at most one operator, which works on the cell's place. -/
theorem setBrk_operators (sp : AddressSpace Hw) (a b : Int) (brk : Brk) :
    ((sp.setBrk a brk).cellAt b).operators
      = if b = a ∧ sp.validAddress a then
          (sp.cellAt b).operators ++ (brkOperator brk).toList.map fun kind =>
            { kind := kind, cell := b - sp.startAddress, data := (sp.cellAt b).data,
              mask := (sp.cellAt b).mask }
        else (sp.cellAt b).operators := by
  rw [setBrk, brkOperator]
  cases brk.event.kind with
  | write =>
    simp only [modifyCell_cellAt]
    split
    · next h => rw [h.1]; rfl
    · rfl
  | read =>
    simp only [modifyCell_cellAt]
    split
    · next h => rw [h.1]; rfl
    · rfl
  | fetch =>
    obtain ⟨flag, hflag⟩ := setFetchBrk_cellAt sp a b true
    simp [hflag]
  | other => simp

/-- `del_brk` removes the first operator of the breakpoint. -/
theorem delBrk_operators (sp : AddressSpace Hw) (a b : Int) (brk : Brk) :
    ((sp.delBrk a brk).cellAt b).operators
      = if b = a ∧ sp.validAddress a ∧ (@brkOperator Hw brk).isSome then
          (sp.cellAt b).operators.eraseP (·.kind.matchBrk brk)
        else (sp.cellAt b).operators := by
  rw [delBrk, brkOperator]
  cases brk.event.kind with
  | write =>
    simp only [modifyCell_cellAt, Option.isSome_some, and_true]
    split <;> rfl
  | read =>
    simp only [modifyCell_cellAt, Option.isSome_some, and_true]
    split <;> rfl
  | fetch =>
    obtain ⟨flag, hflag⟩ := setFetchBrk_cellAt sp a b false
    simp [hflag]
  | other => simp

theorem registerHw_operators (sp : AddressSpace Hw) (a b : Int) (hw : Hw) :
    ((sp.registerHw a hw).cellAt b).operators
      = if b = a ∧ sp.validAddress a then
          (sp.cellAt b).operators ++
            [{ kind := .hw hw, cell := b - sp.startAddress, data := (sp.cellAt b).data,
               mask := (sp.cellAt b).mask }]
        else (sp.cellAt b).operators := by
  rw [registerHw, modifyCell_cellAt]
  split
  · next h => rw [h.1]; rfl
  · rfl

end AddressSpace

end Ucsim
