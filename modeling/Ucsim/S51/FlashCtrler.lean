import Ucsim.S51.Element
import Ucsim.S51.Operands

/-!
# The flash controller

`cl_CC2530_flash_ctrler` erases the pages of the flash banks, and writes words of four bytes that arrive at
`FWDATA`. The counters of writes and the times, which are only printed, are left out, and so are the lock
bits, which nothing reads.
-/

namespace Ucsim.S51

open Logic ElementSt

namespace Reg

def FCTL : Int := 0x6270
def FADDRL : Int := 0x6271
def FADDRH : Int := 0x6272
def FWDATA : Int := 0x6273

end Reg

/-- The data of the flash controller. `StartAddr` are the addresses in `PageTab`. -/
structure FlashCtrler where
  StartAddr : Fin 128 → Int
  flash : Space
  writing : Bool
  regFull : Bool
  reg : BitVec 32
  address : BitVec 32
  TXNum : Nat

/-- The flash controller and the memory. -/
abbrev FlashSt := ElementSt FlashCtrler

namespace FlashCtrler

def bmBUSY : TMem := 0x80
def bmFULL : TMem := 0x40
def bmWRITE : TMem := 0x02
def bmERASE : TMem := 0x01

def cell_faddrh : Site := .cell .xram Reg.FADDRH
def cell_faddrl : Site := .cell .xram Reg.FADDRL
def cell_fctl : Site := .cell .xram Reg.FCTL
def cell_fwdata : Site := .cell .xram Reg.FWDATA

/-- `flash->write(addr, val)`. Without such an address an assertion fails; built without assertions, which is what
is modelled, the dummy cell is written. -/
def flashByte (addr : Int) (v : TMem) (st : FlashSt) : FlashSt := store (st.hw.flash.cellAt addr) v st

/-- `reset`. The bank that is selected stays. -/
def reset : FlashSt → FlashSt := update fun f =>
  { f with
    StartAddr := fun i => i.val <<< 10
    writing := false, regFull := false, reg := 0, address := 0, TXNum := 0 }

/-! ## Erasing -/

/-- The bank of a page, and what its start is moved by. -/
def pageBank (pageNumber : Fin 128) : Space × Int :=
  if pageNumber.val < 32 then (.flashbank0, 0)
  else if pageNumber.val < 64 then (.flashbank1, 0x8000)
  else if pageNumber.val < 96 then (.flashbank2, 0x10000)
  else (.flashbank3, 0x18000)

/-- The bank is selected. Each time, the start of a page in a bank behind the first is moved. -/
def selectPage (pageNumber : Fin 128) : FlashSt → FlashSt := update fun f =>
  { f with
    StartAddr := Function.update f.StartAddr pageNumber (f.StartAddr pageNumber - (pageBank pageNumber).2)
    flash := (pageBank pageNumber).1 }

/-- The loop of `erasePage`. -/
def eraseBytes (base : Int) (n : Nat) (st : FlashSt) : FlashSt :=
  (List.range n).foldl (fun st (i : Nat) => flashByte (base + i) 0xFF st) st

/-- `erasePage`. -/
def erasePage (pageNumber : Fin 128) (st : FlashSt) : FlashSt :=
  let st := setBit1 cell_fctl bmBUSY (selectPage pageNumber st)
  setBit0 cell_fctl bmBUSY (eraseBytes (st.hw.StartAddr pageNumber) 1024 st)

/-- `ChipErase`. -/
def ChipErase (st : FlashSt) : FlashSt := (List.finRange 128).foldl (fun st i => erasePage i st) st

/-! ## Writing -/

/-- The byte of the register that `flashWrite` writes at its turn. -/
def regByte (reg : BitVec 32) (i : Nat) : TMem := (reg >>> (8 * i) &&& 0xFF).setWidth 16

/-- The address of that byte. -/
def dest (address : BitVec 32) (i : Nat) : Int := (((address &&& 0x3FFF) <<< (2 : Nat)) + BitVec.ofNat 32 i).toInt

/-- `flashWrite`. -/
def flashWrite (st : FlashSt) : FlashSt :=
  let st := (List.range 4).foldl (fun st (i : Nat) => flashByte (dest st.hw.address i) (regByte st.hw.reg i) st) st
  update (fun f => { f with regFull := false })
    (setBit0 cell_fctl bmFULL (update (fun f => { f with reg := 0 }) st))

/-! ## The callback -/

/-- The bank that the address selects. -/
def addressBank (address : BitVec 32) (flash : Space) : Space :=
  (Space.flashbank ((address &&& 0xC000) >>> (14 : Nat)).toNat).getD flash

/-- An address is taken over. -/
def setAddress (address : BitVec 32) : FlashSt → FlashSt := update fun f =>
  { f with address := address, flash := addressBank address f.flash }

/-- The page of a value of `FADDRH`. -/
def pageOf (faddrh : TMem) : Fin 128 := ⟨(faddrh >>> (1 : Nat)).toNat % 128, Nat.mod_lt _ (by decide)⟩

/-- The branch of `write` for `FCTL`. -/
def writeFctl (v : TMem) (st : FlashSt) : FlashSt :=
  let st := if v &&& bmERASE ≠ 0 then erasePage (pageOf (st.mem cell_faddrh)) st else st
  update (fun f => { f with writing := decide (v &&& bmWRITE ≠ 0) }) st

/-- A byte is taken into the register. The last one of four starts the write. -/
def takeByte (v : TMem) (st : FlashSt) : FlashSt :=
  let st := if st.hw.TXNum = 0 then update (fun f => { f with reg := 0 }) st else st
  let st := update (fun f =>
    { f with reg := f.reg ||| v.setWidth 32 <<< (8 * f.TXNum), TXNum := f.TXNum + 1 }) st
  if st.hw.TXNum = 4 then
    flashWrite (update (fun f => { f with regFull := true, TXNum := 0 }) (setBit1 cell_fctl bmFULL st))
  else st

/-- The branch of `write` for `FWDATA`. -/
def writeFwdata (v : TMem) (st : FlashSt) : FlashSt :=
  if st.hw.regFull = false ∧ st.hw.writing then takeByte v st else st

/-- `write`. The branch of `CLKCONCMD` changes a frequency only. -/
def write (c : Site) (v : TMem) (st : FlashSt) : FlashSt :=
  if c = cell_fctl then writeFctl v st
  else if c = cell_faddrh then
    setAddress (v.setWidth 32 <<< (8 : Nat) + (st.mem cell_faddrl).setWidth 32) st
  else if c = cell_faddrl then
    setAddress ((st.mem cell_faddrh).setWidth 32 <<< (8 : Nat) + v.setWidth 32) st
  else if c = cell_fwdata then writeFwdata v st
  else st

/-- The cells that `init` registers. -/
def registered : List Site := [cell_faddrh, cell_faddrl, cell_fctl, cell_fwdata, .sfr Reg.CLKCONCMD]

/-! ## Memory that is written byte by byte -/

/-- Bytes are stored one after the other. -/
def storeBytes (g : Nat → Site) (f : Nat → TMem) (l : List Nat) (m : Site → TMem) : Site → TMem :=
  l.foldl (fun m i => Function.update m (g i) (f i &&& 0xff)) m

theorem storeBytes_of_ne {g : Nat → Site} {f : Nat → TMem} {l : List Nat} {m : Site → TMem} {c : Site}
    (h : ∀ i ∈ l, c ≠ g i) : storeBytes g f l m c = m c := by
  induction l generalizing m with
  | nil => rfl
  | cons i l ih =>
    rw [List.forall_mem_cons] at h
    exact (ih h.2).trans (Function.update_of_ne h.1 _ _)

/-- What is stored in a cell depends on the places and the bytes of the list only. -/
theorem storeBytes_congr {g g' : Nat → Site} {f f' : Nat → TMem} {l : List Nat} {m m' : Site → TMem} {c : Site}
    (hg : ∀ i ∈ l, g i = g' i) (hf : ∀ i ∈ l, f i = f' i) (hm : m c = m' c) :
    storeBytes g f l m c = storeBytes g' f' l m' c := by
  induction l generalizing m m' with
  | nil => exact hm
  | cons i l ih =>
    rw [List.forall_mem_cons] at hg hf
    refine ih hg.2 hf.2 ?_
    dsimp only
    rw [hg.1, hf.1, Function.update_apply, Function.update_apply, hm]

theorem isBytes_storeBytes (g : Nat → Site) (f : Nat → TMem) (l : List Nat) {m : Site → TMem}
    (h : IsBytes m) : IsBytes (storeBytes g f l m) := by
  induction l generalizing m with
  | nil => exact h
  | cons i l ih => exact ih (isBytes_update h _ (and_lt_byte _))

/-- Bytes at consecutive places of a space. -/
theorem storeBytes_consecutive (sp : Space) (a : Int) (f : Nat → TMem) (n : Nat) (m : Site → TMem)
    (b : Space) (x : Int) :
    storeBytes (fun i => .cell sp (a + i)) f (List.range n) m (.cell b x)
      = if b = sp ∧ a ≤ x ∧ x < a + n then f (x - a).toNat &&& 0xff else m (.cell b x) := by
  induction n with
  | zero => exact (if_neg (by omega)).symm
  | succ n ih =>
    unfold storeBytes at ih ⊢
    rw [List.range_succ, List.foldl_append]
    by_cases hlast : b = sp ∧ x = a + n
    · obtain ⟨rfl, rfl⟩ := hlast
      have hindex : (a + n - a).toNat = n := by omega
      rw [if_pos ⟨rfl, by omega, by omega⟩, hindex]
      exact Function.update_self _ _ _
    · have hne : Site.cell b x ≠ .cell sp (a + n) := by
        intro heq
        injection heq with hsp hx
        exact hlast ⟨hsp, hx⟩
      refine (Function.update_of_ne hne _ _).trans (ih.trans ?_)
      have hiff : (b = sp ∧ a ≤ x ∧ x < a + n) ↔ (b = sp ∧ a ≤ x ∧ x < a + (n + 1 : Nat)) := by
        constructor
        · rintro ⟨hsp, hlo, hhi⟩
          exact ⟨hsp, hlo, by omega⟩
        · rintro ⟨hsp, hlo, hhi⟩
          exact ⟨hsp, hlo, by_contra fun hge => hlast ⟨hsp, by omega⟩⟩
      simp only [hiff]

/-- The bank stays the same while bytes are written. -/
theorem foldl_flashByte (g : Nat → Int) (f : Nat → TMem) (l : List Nat) (st : FlashSt) :
    l.foldl (fun st i => flashByte (g i) (f i) st) st
      = { st with mem := storeBytes (fun i => st.hw.flash.cellAt (g i)) f l st.mem } := by
  induction l generalizing st with
  | nil => rfl
  | cons i l ih => exact ih (flashByte (g i) (f i) st)

theorem eraseBytes_eq (base : Int) (n : Nat) (st : FlashSt) : eraseBytes base n st
    = { st with mem := storeBytes (fun i => st.hw.flash.cellAt (base + i)) (fun _ => 0xFF) (List.range n) st.mem } :=
  foldl_flashByte _ _ _ st

theorem eraseBytes_mem_of_ne {base : Int} {n : Nat} {st : FlashSt} {c : Site}
    (h : ∀ i < n, c ≠ st.hw.flash.cellAt (base + (i : Nat))) : (eraseBytes base n st).mem c = st.mem c := by
  rw [eraseBytes_eq]
  exact storeBytes_of_ne fun i hi => h i (List.mem_range.mp hi)

theorem isBytes_eraseBytes (base : Int) (n : Nat) {st : FlashSt} (h : IsBytes st.mem) :
    IsBytes (eraseBytes base n st).mem := by
  rw [eraseBytes_eq]
  exact isBytes_storeBytes _ _ _ h

/-- The start of the page that is erased. -/
def eraseStart (pageNumber : Fin 128) (st : FlashSt) : Int :=
  st.hw.StartAddr pageNumber - (pageBank pageNumber).2

/-- The page is erased in its bank, from this start. -/
theorem erasePage_eq (pageNumber : Fin 128) (st : FlashSt) : erasePage pageNumber st
    = setBit0 cell_fctl bmBUSY (eraseBytes (eraseStart pageNumber st) 1024
        (setBit1 cell_fctl bmBUSY (selectPage pageNumber st))) := by
  have hstart : (setBit1 cell_fctl bmBUSY (selectPage pageNumber st)).hw.StartAddr pageNumber
      = eraseStart pageNumber st := Function.update_self _ _ _
  rw [← hstart]
  rfl

theorem erasePage_mem (pageNumber : Fin 128) (st : FlashSt) {c : Site} (hfctl : c ≠ cell_fctl)
    (hpage : ∀ i < 1024, c ≠ (pageBank pageNumber).1.cellAt (eraseStart pageNumber st + (i : Nat))) :
    (erasePage pageNumber st).mem c = st.mem c := by
  have hflash : (setBit1 cell_fctl bmBUSY (selectPage pageNumber st)).hw.flash = (pageBank pageNumber).1 := rfl
  rw [← hflash] at hpage
  rw [erasePage_eq, setBit0_mem_of_ne hfctl, eraseBytes_mem_of_ne hpage, setBit1_mem_of_ne hfctl]
  rfl

theorem erasePage_hw (pageNumber : Fin 128) (st : FlashSt) :
    (erasePage pageNumber st).hw = (selectPage pageNumber st).hw := by
  rw [erasePage_eq, eraseBytes_eq]
  rfl

theorem isBytes_erasePage (pageNumber : Fin 128) {st : FlashSt} (h : IsBytes st.mem) :
    IsBytes (erasePage pageNumber st).mem := by
  rw [erasePage_eq]
  apply isBytes_setBit0
  apply isBytes_eraseBytes
  exact isBytes_setBit1 h _ _

/-- The four bytes of a word are stored. -/
def storeWord (st : FlashSt) : FlashSt :=
  let place := fun i => st.hw.flash.cellAt (dest st.hw.address i)
  { st with mem := storeBytes place (regByte st.hw.reg) (List.range 4) st.mem }

theorem flashWrite_eq (st : FlashSt) : flashWrite st
    = update (fun f => { f with reg := 0, regFull := false }) (setBit0 cell_fctl bmFULL (storeWord st)) := by
  unfold flashWrite storeWord
  rfl

theorem isBytes_flashWrite {st : FlashSt} (h : IsBytes st.mem) : IsBytes (flashWrite st).mem := by
  have hword : IsBytes (storeWord st).mem := isBytes_storeBytes _ _ _ h
  rw [flashWrite_eq]
  exact isBytes_setBit0 hword _ _

theorem isBytes_takeByte (v : TMem) {st : FlashSt} (h : IsBytes st.mem) : IsBytes (takeByte v st).mem := by
  unfold takeByte
  extract_lets st₁ st₂
  have hst₁ : IsBytes st₁.mem := by
    unfold st₁
    split <;> exact h
  split
  · apply isBytes_flashWrite
    have hst₂ : IsBytes st₂.mem := hst₁
    exact isBytes_setBit1 hst₂ _ _
  · exact hst₁

theorem isBytes_write (c : Site) (v : TMem) {st : FlashSt} (h : IsBytes st.mem) :
    IsBytes (write c v st).mem := by
  unfold write
  split_ifs
  · have hmem : (writeFctl v st).mem
        = (if v &&& bmERASE ≠ 0 then erasePage (pageOf (st.mem cell_faddrh)) st else st).mem := rfl
    rw [hmem]
    split
    · exact isBytes_erasePage _ h
    · exact h
  · exact h
  · exact h
  · unfold writeFwdata
    split
    · exact isBytes_takeByte v h
    · exact h
  · exact h

/-- The controller as an element of the board. -/
def element : Element FlashCtrler where
  cathegory := .cc2530FlashController
  registered := registered
  read c st := st.mem c
  write := write
  registered_core := by decide +kernel
  registered_code := by decide
  write_bytes _ _ _ h := isBytes_write _ _ h

/-- A byte that is written to a register is stored behind the callback. -/
theorem writeReg_eq (c : Site) (v : TMem) (st : FlashSt) :
    element.writeReg c v st = store c v (write c v st) := by
  have hcount : registered.count c = 0 ∨ registered.count c = 1 := by
    have hle : registered.count c ≤ 1 := List.nodup_iff_count_le_one.mp (by decide) c
    omega
  rcases hcount with h | h
  · have hnot : c ∉ registered := List.count_eq_zero.mp h
    simp only [registered, List.mem_cons, not_or] at hnot
    obtain ⟨hh, hl, hctl, hdata, -⟩ := hnot
    have hwrite : write c v st = st := by
      unfold write
      rw [if_neg hctl, if_neg hh, if_neg hl, if_neg hdata]
    rw [hwrite]
    unfold Element.writeReg
    have hops : element.operators c = 0 := h
    rw [hops]
    rfl
  · unfold Element.writeReg
    have hops : element.operators c = 1 := h
    rw [hops]
    rfl

end FlashCtrler

end Ucsim.S51
