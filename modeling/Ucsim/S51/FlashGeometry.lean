import Mathlib.Data.List.GetD
import Mathlib.Tactic.IntervalCases
import Ucsim.Logic.Run
import Ucsim.S51.DebugAccess
import Ucsim.S51.FlashCtrler

/-!
# Where the flash controller erases and writes

A word address selects a bank by its upper two bits, and four bytes in it by the others. Half of these
places are behind the end of the bank. A page is erased in the same bank, but from another start.
-/

namespace Ucsim.S51

open Logic ElementSt

namespace FlashCtrler

/-! ## Words and pages -/

/-- The word address in `FADDRH` and `FADDRL`. -/
def word (mem : Site → TMem) : BitVec 16 := (mem cell_faddrh).setWidth 8 ++ (mem cell_faddrl).setWidth 8

/-- The page of a word address. -/
def page (W : BitVec 16) : Fin 128 := pageOf (W >>> (8 : Nat))

/-- The bank with this number. -/
def bankAt (k : Nat) : Space := (Space.flashbank k).getD .flashbank0

/-- The bank of a word address. -/
def wordBank (W : BitVec 16) : Space := bankAt (W.toNat / 0x4000)

/-- The address of its first byte. -/
def wordStart (W : BitVec 16) : Int := 4 * (W.toNat % 0x4000 : Nat)

/-- A byte of the flash. -/
def FlashByte (c : Site) : Prop := ∃ b ∈ flashbanks, ∃ x : Int, 0 ≤ x ∧ x < 0x8000 ∧ c = .cell b x

theorem bankAt_mem {k : Nat} (h : k < 4) : bankAt k ∈ flashbanks := by
  have hall : ∀ k < 4, bankAt k ∈ flashbanks := by decide
  exact hall k h

theorem bankAt_injective {j k : Nat} (hj : j < 4) (hk : k < 4) (h : bankAt j = bankAt k) : j = k := by
  have hall : ∀ j < 4, ∀ k < 4, bankAt j = bankAt k → j = k := by decide
  exact hall j hj k hk h

theorem word_div_lt (W : BitVec 16) : W.toNat / 0x4000 < 4 := by omega

theorem page_val (W : BitVec 16) : (page W).val = W.toNat / 512 := by
  unfold page pageOf
  simp only [BitVec.toNat_ushiftRight, Nat.shiftRight_eq_div_pow]
  omega

theorem pageBank_fst (p : Fin 128) : (pageBank p).1 = bankAt (p.val / 32) := by
  have hall : ∀ p : Fin 128, (pageBank p).1 = bankAt (p.val / 32) := by decide
  exact hall p

/-- Erasing and writing select the same bank. -/
theorem pageBank_page (W : BitVec 16) : (pageBank (page W)).1 = wordBank W := by
  have hdiv : (page W).val / 32 = W.toNat / 0x4000 := by
    rw [page_val]
    omega
  rw [pageBank_fst, hdiv]
  rfl

theorem addressBank_eq (W : BitVec 16) (flash : Space) : addressBank (W.setWidth 32) flash = wordBank W := by
  have hindex : ((W.setWidth 32 &&& 0xC000) >>> (14 : Nat)).toNat = W.toNat / 0x4000 := by
    rw [BitVec.toNat_ushiftRight, BitVec.toNat_and, BitVec.toNat_setWidth_of_le (by decide),
      Nat.shiftRight_and_distrib]
    have hmod := Nat.and_two_pow_sub_one_eq_mod (W.toNat >>> 14) 2
    rw [Nat.shiftRight_eq_div_pow] at hmod ⊢
    refine hmod.trans ?_
    omega
  have hsome : ∀ k < 4, ∃ b, Space.flashbank k = some b := by
    intro k hk
    obtain ⟨b, hb, -⟩ := flashbank_drop k hk
    exact ⟨b, hb⟩
  obtain ⟨b, hb⟩ := hsome _ (word_div_lt W)
  unfold addressBank wordBank bankAt
  rw [hindex, hb]
  rfl

theorem dest_eq (W : BitVec 16) {i : Nat} (hi : i < 4) : dest (W.setWidth 32) i = wordStart W + i := by
  have hmask : (W.setWidth 32 &&& 0x3FFF).toNat = W.toNat % 0x4000 := by
    rw [BitVec.toNat_and, BitVec.toNat_setWidth_of_le (by decide)]
    exact Nat.and_two_pow_sub_one_eq_mod W.toNat 14
  have hnat : ((W.setWidth 32 &&& 0x3FFF) <<< (2 : Nat) + BitVec.ofNat 32 i).toNat = 4 * (W.toNat % 0x4000) + i := by
    rw [BitVec.toNat_add, BitVec.toNat_shiftLeft, hmask, BitVec.toNat_ofNat, Nat.shiftLeft_eq]
    omega
  unfold dest wordStart
  rw [BitVec.toInt_eq_toNat_of_lt (by rw [hnat]; omega), hnat]
  push_cast
  rfl

theorem word_eq (h l : BitVec 8) :
    (h.setWidth 16).setWidth 32 <<< (8 : Nat) + (l.setWidth 16).setWidth 32 = (h ++ l).setWidth 32 := by
  apply BitVec.eq_of_toNat_eq
  have happend : (h ++ l).toNat = h.toNat * 256 + l.toNat := by
    rw [BitVec.toNat_append, ← Nat.shiftLeft_add_eq_or_of_lt l.isLt, Nat.shiftLeft_eq]
  rw [BitVec.toNat_setWidth_of_le (by decide), happend]
  simp only [BitVec.toNat_add, BitVec.toNat_shiftLeft, BitVec.toNat_setWidth, Nat.shiftLeft_eq]
  omega

/-! ## The bytes of the register -/

theorem regByte_zero (i : Nat) : regByte 0 i = 0 := by
  unfold regByte
  simp

theorem regByte_or (r s : BitVec 32) (i : Nat) : regByte (r ||| s) i = regByte r i ||| regByte s i := by
  unfold regByte
  rw [BitVec.ushiftRight_or_distrib, BitVec.and_or_distrib_right, BitVec.setWidth_or]

/-- A byte moved to its place. -/
theorem regByte_shift (v : BitVec 8) {n i : Nat} (hn : n < 4) (hi : i < 4) :
    regByte ((v.setWidth 16).setWidth 32 <<< (8 * n)) i = if i = n then v.setWidth 16 else 0 := by
  apply BitVec.eq_of_toNat_eq
  have hv := v.isLt
  unfold regByte
  have hlow : ((v.setWidth 16).setWidth 32 <<< (8 * n)).toNat = v.toNat * 256 ^ n := by
    have hpow : 256 ^ n = 2 ^ (8 * n) := by norm_num [pow_mul]
    rw [BitVec.toNat_shiftLeft, Nat.shiftLeft_eq, hpow, BitVec.toNat_setWidth_of_le (by decide),
      BitVec.toNat_setWidth_of_le (by decide)]
    apply Nat.mod_eq_of_lt
    interval_cases n <;> omega
  have hbyte (x : BitVec 32) : ((x >>> (8 * i) &&& 0xFF).setWidth 16).toNat = x.toNat / 256 ^ i % 256 := by
    have hpow : 256 ^ i = 2 ^ (8 * i) := by norm_num [pow_mul]
    rw [BitVec.toNat_setWidth, BitVec.toNat_and, BitVec.toNat_ushiftRight, Nat.shiftRight_eq_div_pow, hpow]
    have hmod := Nat.and_two_pow_sub_one_eq_mod (x.toNat / 2 ^ (8 * i)) 8
    refine (congrArg (· % 2 ^ 16) hmod).trans ?_
    omega
  rw [hbyte, hlow]
  split
  · next heq =>
    rw [heq, Nat.mul_div_cancel _ (Nat.pow_pos (by decide)), BitVec.toNat_setWidth_of_le (by decide)]
    exact Nat.mod_eq_of_lt hv
  · next hne =>
    interval_cases n <;> interval_cases i <;> simp_all <;> omega

/-! ## Runs -/

/-- The controller and the memory, with the bytes of the current word that have been taken. `pointed` says
that a byte of the address has been written since the last reset. -/
structure State where
  st : FlashSt
  taken : List (BitVec 8)
  pointed : Bool

namespace State

/-- The word address that the program sees. -/
def word (s : State) : BitVec 16 := FlashCtrler.word s.st.mem

/-- The program writes a byte. -/
def write (c : Site) (v : BitVec 8) (s : State) : State where
  st := element.writeReg c (v.setWidth 16) s.st
  taken :=
    if c = cell_fwdata ∧ s.st.hw.writing then if s.taken.length = 3 then [] else s.taken ++ [v]
    else s.taken
  pointed := s.pointed || decide (c = cell_faddrh ∨ c = cell_faddrl)

/-- The memory is changed otherwise. -/
def set (c : Site) (v : TMem) (s : State) : State := { s with st := store c v s.st }

end State

/-- A step of a run. -/
inductive Label
  | write (c : Site) (v : BitVec 8)
  | set (c : Site) (v : TMem)
  | reset

/-- The step itself. The address is written by the program only. -/
def step : Label → State → Option State
  | .write c v, s => some (s.write c v)
  | .set c v, s => if c = cell_faddrh ∨ c = cell_faddrl then none else some (s.set c v)
  | .reset, s => some { st := FlashCtrler.reset s.st, taken := [], pointed := false }

/-- The runs from the constructor, which erases the chip. -/
def system : System Label State where
  init s := (∃ st₀ : FlashSt, IsBytes st₀.mem ∧ st₀.hw.flash = .flashbank0 ∧
    s.st = ChipErase (FlashCtrler.reset st₀)) ∧ s.taken = [] ∧ s.pointed = false
  step a s s' := step a s = some s'

/-- What holds in every run. -/
structure Invariant (s : State) : Prop where
  isBytes : IsBytes s.st.mem
  bank : s.st.hw.flash ∈ flashbanks
  notFull : s.st.hw.regFull = false
  TXNum : s.st.hw.TXNum = s.taken.length
  short : s.taken.length < 4
  reg : ∀ i < 4, regByte s.st.hw.reg i = (s.taken.getD i 0).setWidth 16
  address : s.pointed → s.st.hw.address = s.word.setWidth 32 ∧ s.st.hw.flash = wordBank s.word

/-! ## The cells of a bank -/

theorem flash_cellAt_cases {b : Space} (hb : b ∈ flashbanks) (a : Int) :
    0 ≤ a ∧ a < 0x8000 ∧ b.cellAt a = .cell b a ∨ (a < 0 ∨ 0x8000 ≤ a) ∧ b.cellAt a = .dummy b := by
  have hfacts : ∀ b ∈ flashbanks, b.startAddress = 0 ∧ b.size = 0x8000 := by decide
  obtain ⟨hstart, hsize⟩ := hfacts b hb
  have hcells : b.cells a = .cell b a := by
    simp only [flashbanks, List.mem_cons, List.not_mem_nil, or_false] at hb
    rcases hb with rfl | rfl | rfl | rfl <;> exact congrArg (Site.cell _) (Int.sub_zero a)
  by_cases hv : b.invalid a
  · refine .inr ⟨?_, if_pos hv⟩
    unfold Space.invalid at hv
    omega
  · have hcell : b.cellAt a = .cell b a := (if_neg hv).trans hcells
    unfold Space.invalid at hv
    exact .inl ⟨by omega, by omega, hcell⟩

/-- Bytes of the flash are no registers. -/
theorem xram_ne_cellAt {b : Space} (hb : b ∈ flashbanks) (a x : Int) : Site.cell .xram x ≠ b.cellAt a := by
  intro heq
  rcases flash_cellAt_cases hb a with ⟨-, -, h⟩ | ⟨-, h⟩
  · rw [h] at heq
    injection heq with hspace
    rw [← hspace] at hb
    exact absurd hb (by decide)
  · rw [h] at heq
    cases heq

theorem FlashByte.ne_xram {c : Site} (h : FlashByte c) (x : Int) : c ≠ .cell .xram x := by
  obtain ⟨b, hb, y, -, -, rfl⟩ := h
  intro heq
  injection heq with hspace
  rw [hspace] at hb
  exact absurd hb (by decide)

/-! ## Taking a byte -/

/-- The byte is in the register. -/
def loaded (v : TMem) : FlashSt → FlashSt := update fun f =>
  { f with
    reg := (if f.TXNum = 0 then 0 else f.reg) ||| v.setWidth 32 <<< (8 * f.TXNum)
    TXNum := f.TXNum + 1 }

/-- The register is full, and taken to be empty again. -/
def full (v : TMem) (st : FlashSt) : FlashSt :=
  update (fun f => { f with regFull := true, TXNum := 0 }) (setBit1 cell_fctl bmFULL (loaded v st))

theorem takeByte_eq (v : TMem) (st : FlashSt) :
    takeByte v st = if st.hw.TXNum + 1 = 4 then flashWrite (full v st) else loaded v st := by
  have hloaded : update (fun f => { f with reg := f.reg ||| v.setWidth 32 <<< (8 * f.TXNum), TXNum := f.TXNum + 1 })
      (if st.hw.TXNum = 0 then update (fun f => { f with reg := 0 }) st else st) = loaded v st := by
    unfold loaded update
    by_cases h : st.hw.TXNum = 0
    · simp only [if_pos h]
    · simp only [if_neg h]
  unfold takeByte
  dsimp only
  rw [hloaded]
  rfl

/-- The register holds the bytes that have been taken. -/
theorem loaded_reg {s : State} (h : Invariant s) (v : BitVec 8) {i : Nat} (hi : i < 4) :
    regByte (loaded (v.setWidth 16) s.st).hw.reg i = ((s.taken ++ [v]).getD i 0).setWidth 16 := by
  have hold : regByte (if s.st.hw.TXNum = 0 then 0 else s.st.hw.reg) i = (s.taken.getD i 0).setWidth 16 := by
    split
    · next hzero =>
      have hnil : s.taken = [] := List.length_eq_zero_iff.mp (h.TXNum ▸ hzero)
      rw [regByte_zero, hnil]
      rfl
    · exact h.reg i hi
  change regByte ((if s.st.hw.TXNum = 0 then 0 else s.st.hw.reg) |||
    (v.setWidth 16).setWidth 32 <<< (8 * s.st.hw.TXNum)) i = _
  rw [regByte_or, hold, regByte_shift v (h.TXNum ▸ h.short) hi, h.TXNum]
  rcases Nat.lt_trichotomy i s.taken.length with hlt | rfl | hgt
  · rw [if_neg (Nat.ne_of_lt hlt), List.getD_append _ _ _ _ hlt]
    simp
  · rw [if_pos rfl, List.getD_append_right _ _ _ _ le_rfl, List.getD_eq_default _ _ le_rfl]
    simp
  · rw [if_neg (Nat.ne_of_gt hgt), List.getD_eq_default _ _ (by omega), List.getD_eq_default _ _ (by simp; omega)]
    simp

/-! ## The invariant -/

theorem word_update {mem : Site → TMem} {c : Site} (hc : ¬ (c = cell_faddrh ∨ c = cell_faddrl)) (v : TMem) :
    word (Function.update mem c v) = word mem := by
  rw [not_or] at hc
  unfold word
  rw [Function.update_of_ne (Ne.symm hc.1), Function.update_of_ne (Ne.symm hc.2)]

/-- The word address, if both halves are what they have been. -/
theorem word_congr {mem mem' : Site → TMem} (h : ∀ a : Int, a ≠ Reg.FCTL → mem' (.cell .xram a) = mem (.cell .xram a)) :
    word mem' = word mem := by
  unfold word
  rw [cell_faddrh, cell_faddrl, h _ (by decide), h _ (by decide)]

/-- The halves of a word address are bytes of memory. -/
theorem setWidth_byte {v : TMem} (h : v.toNat < 0x100) : (v.setWidth 8).setWidth 16 = v := by
  apply BitVec.eq_of_toNat_eq
  rw [BitVec.toNat_setWidth_of_le (by decide), BitVec.toNat_setWidth]
  exact Nat.mod_eq_of_lt h

theorem page_word {mem : Site → TMem} (h : IsBytes mem) : page (word mem) = pageOf (mem cell_faddrh) := by
  have hhigh : word mem >>> (8 : Nat) = mem cell_faddrh := by
    have hbyte : ((mem cell_faddrh).setWidth 8).toNat = (mem cell_faddrh).toNat := by
      rw [BitVec.toNat_setWidth]
      exact Nat.mod_eq_of_lt (h cell_faddrh)
    have hlow := ((mem cell_faddrl).setWidth 8).isLt
    apply BitVec.eq_of_toNat_eq
    unfold word
    rw [BitVec.toNat_ushiftRight, BitVec.toNat_append, ← Nat.shiftLeft_add_eq_or_of_lt hlow, hbyte,
      Nat.shiftLeft_eq, Nat.shiftRight_eq_div_pow]
    omega
  unfold page
  rw [hhigh]

theorem Invariant.set {s : State} (h : Invariant s) {c : Site} (hc : ¬ (c = cell_faddrh ∨ c = cell_faddrl))
    (v : TMem) : Invariant (s.set c v) where
  isBytes := isBytes_store h.isBytes c v
  bank := h.bank
  notFull := h.notFull
  TXNum := h.TXNum
  short := h.short
  reg := h.reg
  address hp := by
    have hword : (s.set c v).word = s.word := word_update hc _
    rw [hword]
    exact h.address hp

/-- Erasing the page of the address selects the bank that the address has selected. -/
theorem Invariant.erasePage {s : State} (h : Invariant s) {p : Fin 128} (hpage : s.pointed → p = page s.word) :
    Invariant { s with st := FlashCtrler.erasePage p s.st } := by
  have hmem : (pageBank p).1 ∈ flashbanks := by
    rw [pageBank_fst]
    exact bankAt_mem (by omega)
  have hword : FlashCtrler.word (FlashCtrler.erasePage p s.st).mem = s.word := by
    refine word_congr fun a ha => erasePage_mem _ _ (fun heq => ha ?_) fun i _ => ?_
    · injection heq
    · exact xram_ne_cellAt hmem _ _
  refine ⟨isBytes_erasePage _ h.isBytes, ?_, ?_, ?_, h.short, ?_, fun hp => ?_⟩
  · rw [erasePage_hw]
    exact hmem
  · rw [erasePage_hw]
    exact h.notFull
  · rw [erasePage_hw]
    exact h.TXNum
  · rw [erasePage_hw]
    exact h.reg
  · have hflash : (pageBank p).1 = wordBank s.word := by
      rw [hpage hp]
      exact pageBank_page _
    unfold State.word
    rw [erasePage_hw, hword]
    exact ⟨(h.address hp).1, hflash⟩

/-- What of the data the invariant does not speak of. -/
theorem Invariant.of_writing {s : State} (h : Invariant s) (writing : Bool) :
    Invariant { s with st := update (fun f => { f with writing := writing }) s.st } :=
  ⟨h.isBytes, h.bank, h.notFull, h.TXNum, h.short, h.reg, h.address⟩

theorem Invariant.writeFctl {s : State} (h : Invariant s) (v : TMem) :
    Invariant { s with st := FlashCtrler.writeFctl v s.st } := by
  unfold FlashCtrler.writeFctl
  split
  · exact (h.erasePage fun _ => (page_word h.isBytes).symm).of_writing _
  · exact h.of_writing _

/-- The last byte of a word empties the register. -/
theorem full_word (v : TMem) {st : FlashSt} (hbank : st.hw.flash ∈ flashbanks) :
    word (flashWrite (full v st)).mem = word st.mem := by
  refine word_congr fun a ha => ?_
  have hfctl : Site.cell .xram a ≠ cell_fctl := fun heq => ha (by injection heq)
  rw [flashWrite_eq]
  refine (setBit0_mem_of_ne hfctl _).trans ((storeBytes_of_ne fun i _ => xram_ne_cellAt hbank _ _).trans ?_)
  exact setBit1_mem_of_ne hfctl _

theorem Invariant.takeByte {s : State} (h : Invariant s) (v : BitVec 8) :
    Invariant { s with
      st := FlashCtrler.takeByte (v.setWidth 16) s.st
      taken := if s.taken.length = 3 then [] else s.taken ++ [v] } := by
  have hbytes := isBytes_takeByte (v.setWidth 16) h.isBytes
  rw [takeByte_eq, h.TXNum] at hbytes ⊢
  by_cases hlast : s.taken.length = 3
  · have hlast' : s.taken.length + 1 = 4 := by omega
    rw [if_pos hlast'] at hbytes
    rw [if_pos hlast', if_pos hlast]
    refine ⟨hbytes, h.bank, rfl, rfl, Nat.succ_pos 3, fun i _ => ?_, fun hp => ?_⟩
    · exact regByte_zero i
    · unfold State.word
      rw [full_word _ h.bank]
      exact h.address hp
  · have hlast' : ¬ s.taken.length + 1 = 4 := by omega
    rw [if_neg hlast'] at hbytes
    rw [if_neg hlast', if_neg hlast]
    refine ⟨hbytes, h.bank, h.notFull, ?_, ?_, fun i hi => loaded_reg h v hi, h.address⟩
    · rw [List.length_append, ← h.TXNum]
      rfl
    · rw [List.length_append]
      exact Nat.lt_of_le_of_ne h.short hlast'

/-- A half of the address is written. -/
theorem Invariant.setAddress {s : State} (h : Invariant s) {c : Site} {v : BitVec 8} {address : BitVec 32}
    (haddress : address = (word (Function.update s.st.mem c (v.setWidth 16))).setWidth 32) :
    Invariant { s with
      st := store c (v.setWidth 16) (FlashCtrler.setAddress address s.st)
      pointed := true } := by
  have hword : State.word { s with
      st := store c (v.setWidth 16) (FlashCtrler.setAddress address s.st)
      pointed := true } = word (Function.update s.st.mem c (v.setWidth 16)) := by
    unfold State.word store
    rw [byte_and (setWidth_lt v)]
    rfl
  refine ⟨isBytes_store h.isBytes _ _, ?_, h.notFull, h.TXNum, h.short, h.reg, fun _ => ?_⟩
  · have hflash : addressBank address s.st.hw.flash ∈ flashbanks := by
      rw [haddress, addressBank_eq]
      exact bankAt_mem (word_div_lt _)
    exact hflash
  · rw [hword]
    refine ⟨haddress, ?_⟩
    rw [← addressBank_eq _ s.st.hw.flash, ← haddress]
    rfl

theorem taken_of_ne {c : Site} (hc : c ≠ cell_fwdata) (v : BitVec 8) (s : State) : (s.write c v).taken = s.taken :=
  if_neg fun h => hc h.1

theorem pointed_of_not {c : Site} (hc : ¬ (c = cell_faddrh ∨ c = cell_faddrl)) (v : BitVec 8) (s : State) :
    (s.write c v).pointed = s.pointed := by
  change (s.pointed || decide _) = s.pointed
  rw [decide_eq_false hc, Bool.or_false]

theorem setWidth_setWidth (v : BitVec 8) : (v.setWidth 16).setWidth 8 = v := by
  apply BitVec.eq_of_toNat_eq
  rw [BitVec.toNat_setWidth, BitVec.toNat_setWidth_of_le (by decide)]
  exact Nat.mod_eq_of_lt v.isLt

/-- Half of the address is written. -/
theorem State.write_address {c : Site} (v : BitVec 8) (s : State) (hc : c = cell_faddrh ∨ c = cell_faddrl)
    {address : BitVec 32} (hwrite : FlashCtrler.write c (v.setWidth 16) s.st = setAddress address s.st) :
    s.write c v = { s with st := store c (v.setWidth 16) (setAddress address s.st), pointed := true } := by
  have hne : c ≠ cell_fwdata := by
    rcases hc with rfl | rfl <;> decide
  have hpointed : (s.pointed || decide (c = cell_faddrh ∨ c = cell_faddrl)) = true := by
    rw [decide_eq_true hc, Bool.or_true]
  have htaken := taken_of_ne hne v s
  rw [← hwrite, ← writeReg_eq, ← hpointed, ← htaken]
  rfl

/-- Behind the callback of another register than those of the address. -/
theorem Invariant.write_of {s s₁ : State} (h₁ : Invariant s₁) {c : Site}
    (hc : ¬ (c = cell_faddrh ∨ c = cell_faddrl)) {v : BitVec 8}
    (hst : s₁.st = FlashCtrler.write c (v.setWidth 16) s.st) (htaken : (s.write c v).taken = s₁.taken)
    (hpointed : s₁.pointed = s.pointed) : Invariant (s.write c v) := by
  have heq : s.write c v = s₁.set c (v.setWidth 16) := by
    unfold State.set
    rw [hst, ← htaken, hpointed, ← pointed_of_not hc v s, ← writeReg_eq]
    rfl
  rw [heq]
  exact h₁.set hc _

theorem Invariant.write {s : State} (h : Invariant s) (c : Site) (v : BitVec 8) : Invariant (s.write c v) := by
  by_cases hfctl : c = cell_fctl
  · subst hfctl
    exact (h.writeFctl (v.setWidth 16)).write_of (by decide) rfl (taken_of_ne (by decide) v s) rfl
  by_cases hh : c = cell_faddrh
  · subst hh
    have haddress : (v.setWidth 16).setWidth 32 <<< (8 : Nat) + (s.st.mem cell_faddrl).setWidth 32
        = (FlashCtrler.word (Function.update s.st.mem cell_faddrh (v.setWidth 16))).setWidth 32 := by
      have hlow : Function.update s.st.mem cell_faddrh (v.setWidth 16) cell_faddrl = s.st.mem cell_faddrl :=
        Function.update_of_ne (by decide) _ _
      unfold FlashCtrler.word
      rw [Function.update_self, hlow, setWidth_setWidth, ← word_eq, setWidth_byte (h.isBytes _)]
    have heq := State.write_address v s (.inl rfl) rfl
    rw [heq]
    exact h.setAddress haddress
  by_cases hl : c = cell_faddrl
  · subst hl
    have haddress : (s.st.mem cell_faddrh).setWidth 32 <<< (8 : Nat) + (v.setWidth 16).setWidth 32
        = (FlashCtrler.word (Function.update s.st.mem cell_faddrl (v.setWidth 16))).setWidth 32 := by
      have hhigh : Function.update s.st.mem cell_faddrl (v.setWidth 16) cell_faddrh = s.st.mem cell_faddrh :=
        Function.update_of_ne (by decide) _ _
      unfold FlashCtrler.word
      rw [Function.update_self, hhigh, setWidth_setWidth, ← word_eq, setWidth_byte (h.isBytes _)]
    have heq := State.write_address v s (.inr rfl) rfl
    rw [heq]
    exact h.setAddress haddress
  have hc : ¬ (c = cell_faddrh ∨ c = cell_faddrl) := not_or.mpr ⟨hh, hl⟩
  by_cases hdata : c = cell_fwdata
  · subst hdata
    by_cases hwriting : s.st.hw.writing
    · refine (h.takeByte v).write_of hc ?_ (if_pos ⟨rfl, hwriting⟩) rfl
      exact (if_pos ⟨h.notFull, hwriting⟩ : writeFwdata _ s.st = _).symm
    · refine h.write_of hc ?_ (if_neg fun h => hwriting h.2) rfl
      exact (if_neg fun h => hwriting h.2 : writeFwdata _ s.st = _).symm
  · refine h.write_of hc ?_ (taken_of_ne hdata v s) rfl
    unfold FlashCtrler.write
    rw [if_neg hfctl, if_neg hh, if_neg hl, if_neg hdata]

theorem Invariant.reset {s : State} (h : Invariant s) :
    Invariant { st := FlashCtrler.reset s.st, taken := [], pointed := false } :=
  ⟨h.isBytes, h.bank, rfl, rfl, Nat.succ_pos 3, fun i _ => regByte_zero i, fun hp => by cases hp⟩

theorem reachable_invariant {s : State} (h : system.Reachable s) : Invariant s := by
  refine h.invariant (fun s hs => ?_) fun a s s' _ hinv hst => ?_
  · obtain ⟨⟨st₀, hbytes, hflash, hst⟩, htaken, hpointed⟩ := hs
    have hreset : Invariant { st := FlashCtrler.reset st₀, taken := [], pointed := false } := by
      refine ⟨hbytes, ?_, rfl, rfl, Nat.succ_pos 3, fun i _ => regByte_zero i, fun hp => by cases hp⟩
      change st₀.hw.flash ∈ flashbanks
      rw [hflash]
      decide
    have herased : Invariant { st := ChipErase (FlashCtrler.reset st₀), taken := [], pointed := false } :=
      foldl_invariant (I := fun st => Invariant { st := st, taken := [], pointed := false })
        (fun st i hi => hi.erasePage fun hp => by cases hp) hreset _
    have heq : s = { st := ChipErase (FlashCtrler.reset st₀), taken := [], pointed := false } := by
      rw [← hst, ← htaken, ← hpointed]
    rw [heq]
    exact herased
  · cases a with
    | write c v =>
      cases hst
      exact hinv.write c v
    | set c v =>
      unfold system step at hst
      dsimp only at hst
      split at hst
      · cases hst
      · next hc =>
        cases hst
        exact hinv.set hc v
    | reset =>
      cases hst
      exact hinv.reset

/-! ## The geometry -/

/-- The next byte at `FWDATA` completes a word at the address that the program has set. -/
structure Ready (s : State) : Prop where
  reachable : system.Reachable s
  pointed : s.pointed
  writing : s.st.hw.writing
  taken : s.taken.length = 3

/-- The memory after that byte. -/
def completed (s : State) (v : BitVec 8) : Site → TMem := (s.write cell_fwdata v).st.mem

/-- Each word that is completed at the address is stored at this place, and nothing else of the flash is
changed. -/
def StoredAt (W : BitVec 16) (b : Space) (a : Int) : Prop :=
  ∀ s v, Ready s → s.word = W → ∀ b' x, FlashByte (.cell b' x) →
    completed s v (.cell b' x)
      = if b' = b ∧ a ≤ x ∧ x < a + 4 then ((s.taken ++ [v]).getD (x - a).toNat 0).setWidth 16
        else s.st.mem (.cell b' x)

/-- There is one place inside a bank for the words at the address. -/
def Stores (W : BitVec 16) : Prop :=
  ∃ b a, FlashByte (.cell b a) ∧ FlashByte (.cell b (a + 3)) ∧ StoredAt W b a

/-- The bytes of the flash that words of the page change. -/
def writtenPage (p : Fin 128) : Set Site :=
  { c | FlashByte c ∧ ∃ s v, Ready s ∧ page s.word = p ∧ completed s v c ≠ s.st.mem c }

/-- The bytes of the flash that this write of `FCTL` changes, whatever they have been. -/
def erased (s : State) (v : BitVec 8) : Set Site :=
  { c | FlashByte c ∧ ∃ u, ((s.set c u).write cell_fctl v).st.mem c ≠ (s.set c u).st.mem c }

/-- Erasing the page changes exactly the bytes that its words change. -/
def ErasesPage (p : Fin 128) : Prop :=
  ∀ s v, system.Reachable s → page s.word = p → (v.setWidth 16 &&& bmERASE) ≠ 0 → erased s v = writtenPage p

/-- No byte that words at the address change is changed by words of another page. -/
def Apart (W : BitVec 16) : Prop :=
  ∀ s t v w c, Ready s → Ready t → s.word = W → page t.word ≠ page W → FlashByte c →
    completed s v c ≠ s.st.mem c → completed t w c = t.st.mem c

/-- Erasing and writing describe one partition, as far as a word address shows. -/
structure Geometry (W : BitVec 16) : Prop where
  stores : Stores W
  erases : ErasesPage (page W)
  apart : Apart W

/-! ## Where words are stored -/

/-- The byte completes a word, whose bytes are stored one by one. -/
theorem completed_eq {s : State} (h : Ready s) (v : BitVec 8) {c : Site} (hc : FlashByte c) :
    completed s v c = storeBytes (fun i => (wordBank s.word).cellAt (wordStart s.word + (i : Nat)))
      (fun i => ((s.taken ++ [v]).getD i 0).setWidth 16) (List.range 4) s.st.mem c := by
  have hinv := reachable_invariant h.reachable
  obtain ⟨haddress, hflash⟩ := hinv.address h.pointed
  have hlast : s.st.hw.TXNum + 1 = 4 := by rw [hinv.TXNum, h.taken]
  have htake : writeFwdata (v.setWidth 16) s.st = flashWrite (full (v.setWidth 16) s.st) := by
    rw [writeFwdata, if_pos ⟨hinv.notFull, h.writing⟩, takeByte_eq, if_pos hlast]
  have hwrite : completed s v c = (flashWrite (full (v.setWidth 16) s.st)).mem c := by
    unfold completed State.write
    rw [writeReg_eq, ← htake]
    exact Function.update_of_ne (hc.ne_xram _) _ _
  rw [hwrite, flashWrite_eq]
  refine (setBit0_mem_of_ne (hc.ne_xram _) _).trans (storeBytes_congr (fun i hi => ?_) (fun i hi => ?_) ?_)
  · have hplace : (full (v.setWidth 16) s.st).hw.flash.cellAt (dest (full (v.setWidth 16) s.st).hw.address i)
        = s.st.hw.flash.cellAt (dest s.st.hw.address i) := rfl
    rw [hplace, haddress, hflash, dest_eq _ (List.mem_range.mp hi)]
  · exact loaded_reg hinv v (List.mem_range.mp hi)
  · exact setBit1_mem_of_ne (hc.ne_xram _) _

theorem bit13_iff (W : BitVec 16) : W.getLsbD 13 = false ↔ W.toNat % 0x4000 < 0x2000 := by
  rw [BitVec.getLsbD, Nat.testBit_eq_decide_div_mod_eq, decide_eq_false_iff_not]
  omega

theorem wordBank_mem (W : BitVec 16) : wordBank W ∈ flashbanks := bankAt_mem (word_div_lt W)

/-- In the lower half of its addresses, a bank has room for the word. -/
theorem storedAt_of_low {W : BitVec 16} (hW : W.getLsbD 13 = false) : StoredAt W (wordBank W) (wordStart W) := by
  rw [bit13_iff] at hW
  rintro s v h rfl b' x hbyte
  have hplace : ∀ i ∈ List.range 4, (wordBank s.word).cellAt (wordStart s.word + (i : Nat))
      = .cell (wordBank s.word) (wordStart s.word + (i : Nat)) := by
    intro i hi
    have hlt := List.mem_range.mp hi
    rcases flash_cellAt_cases (wordBank_mem s.word) (wordStart s.word + (i : Nat)) with ⟨-, -, hcell⟩ | ⟨hout, -⟩
    · exact hcell
    · unfold wordStart at hout
      omega
  rw [completed_eq h v hbyte, storeBytes_congr hplace (fun i _ => rfl) rfl, storeBytes_consecutive,
    byte_and (setWidth_lt _)]
  rfl

/-- In the upper half, the word is lost. -/
theorem completed_of_high {s : State} (h : Ready s) (hW : s.word.getLsbD 13 = true) (v : BitVec 8) {c : Site}
    (hc : FlashByte c) : completed s v c = s.st.mem c := by
  have hhigh : ¬ s.word.toNat % 0x4000 < 0x2000 := by
    rw [← bit13_iff, hW]
    decide
  rw [completed_eq h v hc]
  refine storeBytes_of_ne fun i _ => ?_
  rcases flash_cellAt_cases (wordBank_mem s.word) (wordStart s.word + (i : Nat)) with ⟨-, hlt, -⟩ | ⟨-, hdummy⟩
  · unfold wordStart at hlt
    omega
  · rw [hdummy]
    obtain ⟨b, -, x, -, -, rfl⟩ := hc
    exact fun heq => by cases heq

/-! ## A run to each address -/

/-- A word at the address has been begun with these bytes. The flash is what it was before. -/
structure Begun (s₀ : State) (W : BitVec 16) (bs : List (BitVec 8)) (s : State) : Prop where
  reachable : system.Reachable s
  pointed : s.pointed
  writing : s.st.hw.writing
  word : s.word = W
  taken : s.taken = bs
  flash : ∀ c, FlashByte c → s.st.mem c = s₀.st.mem c

/-- Writing a register keeps the flash where the callback does. -/
theorem store_flash {c d : Site} (hc : FlashByte c) {x : Int} (hd : d = .cell .xram x) (v : TMem) (st : FlashSt) :
    (store d v st).mem c = st.mem c := Function.update_of_ne (hd ▸ hc.ne_xram x) _ _

theorem writeFctl_enable (st : FlashSt) :
    writeFctl ((0x02 : BitVec 8).setWidth 16) st = update (fun f => { f with writing := true }) st := by
  have herase : ¬ ((0x02 : BitVec 8).setWidth 16 &&& bmERASE ≠ 0) := by decide
  unfold writeFctl
  rw [if_neg herase]
  rfl

theorem reachable_write {s : State} (h : system.Reachable s) (c : Site) (v : BitVec 8) :
    system.Reachable (s.write c v) := by
  have hstep : step (.write c v) s = some (s.write c v) := rfl
  exact h.step hstep

theorem reachable_reset {s : State} (h : system.Reachable s) :
    system.Reachable { st := FlashCtrler.reset s.st, taken := [], pointed := false } := by
  have hstep : step .reset s = some { st := FlashCtrler.reset s.st, taken := [], pointed := false } := rfl
  exact h.step hstep

/-- The address is set, and writing is enabled. -/
theorem begun_nil {s₀ : State} (h : system.Reachable s₀) (W : BitVec 16) : ∃ s, Begun s₀ W [] s := by
  obtain ⟨s₁, hs₁, h₁⟩ : ∃ s₁ : State,
      s₁ = { st := FlashCtrler.reset s₀.st, taken := [], pointed := false } ∧ system.Reachable s₁ :=
    ⟨_, rfl, reachable_reset h⟩
  let hi := W.extractLsb' 8 8
  let lo := W.extractLsb' 0 8
  have hhigh := State.write_address hi s₁ (.inl rfl) rfl
  have hlow := State.write_address lo (s₁.write cell_faddrh hi) (.inr rfl) rfl
  have hst : (((s₁.write cell_faddrh hi).write cell_faddrl lo).write cell_fctl 0x02).st
      = store cell_fctl ((0x02 : BitVec 8).setWidth 16) (update (fun f => { f with writing := true })
          ((s₁.write cell_faddrh hi).write cell_faddrl lo).st) := by
    rw [← writeFctl_enable, State.write, writeReg_eq]
    rfl
  refine ⟨((s₁.write cell_faddrh hi).write cell_faddrl lo).write cell_fctl 0x02,
    reachable_write (reachable_write (reachable_write h₁ _ _) _ _) _ _, ?_, ?_, ?_, ?_, fun c hc => ?_⟩
  · rw [pointed_of_not (by decide), hlow]
  · rw [hst]
    rfl
  · have hword : FlashCtrler.word (Function.update (Function.update s₁.st.mem cell_faddrh (hi.setWidth 16))
        cell_faddrl (lo.setWidth 16)) = W := by
      unfold FlashCtrler.word
      rw [Function.update_self, Function.update_of_ne (by decide), Function.update_self, setWidth_setWidth,
        setWidth_setWidth]
      have happend : hi ++ lo = W.extractLsb' 0 16 := BitVec.extractLsb'_append_extractLsb'_eq_extractLsb' rfl
      rw [happend, BitVec.extractLsb'_eq_self]
    unfold State.word
    rw [hst]
    refine (word_update (by decide) _).trans ?_
    rw [← hword, hlow, hhigh]
    unfold store
    rw [byte_and (setWidth_lt hi), byte_and (setWidth_lt lo)]
    rfl
  · rw [taken_of_ne (by decide), hlow, hhigh, hs₁]
  · rw [hst]
    refine (@store_flash c cell_fctl hc _ rfl _ _).trans ?_
    change ((s₁.write cell_faddrh hi).write cell_faddrl lo).st.mem c = _
    rw [hlow]
    refine (@store_flash c cell_faddrl hc _ rfl _ _).trans ?_
    change (s₁.write cell_faddrh hi).st.mem c = _
    rw [hhigh]
    refine (@store_flash c cell_faddrh hc _ rfl _ _).trans ?_
    rw [hs₁]
    rfl

/-- The next byte is taken. -/
theorem Begun.next {s₀ s : State} {W : BitVec 16} {bs : List (BitVec 8)} (h : Begun s₀ W bs s)
    (hlen : bs.length < 3) (b : BitVec 8) : Begun s₀ W (bs ++ [b]) (s.write cell_fwdata b) := by
  have hinv := reachable_invariant h.reachable
  have hlast : ¬ s.st.hw.TXNum + 1 = 4 := by
    rw [hinv.TXNum, h.taken]
    omega
  have hwrite : writeFwdata (b.setWidth 16) s.st = loaded (b.setWidth 16) s.st := by
    rw [writeFwdata, if_pos ⟨hinv.notFull, h.writing⟩, takeByte_eq, if_neg hlast]
  have hst : (s.write cell_fwdata b).st = store cell_fwdata (b.setWidth 16) (loaded (b.setWidth 16) s.st) := by
    rw [← hwrite, State.write, writeReg_eq]
    rfl
  have htaken : (s.write cell_fwdata b).taken = s.taken ++ [b] := by
    have hne : ¬ s.taken.length = 3 := by
      rw [h.taken]
      omega
    exact (if_pos ⟨rfl, h.writing⟩).trans (if_neg hne)
  refine ⟨reachable_write h.reachable _ _, ?_, ?_, ?_, ?_, fun c hc => ?_⟩
  · rw [pointed_of_not (by decide)]
    exact h.pointed
  · rw [hst]
    exact h.writing
  · unfold State.word
    rw [hst, ← h.word]
    exact word_update (by decide) _
  · rw [htaken, h.taken]
  · rw [hst, ← h.flash c hc]
    exact store_flash hc rfl _ _

/-- From any state, a run completes three bytes of a word at the address. The flash is not changed before the
last one. -/
theorem exists_ready {s₀ : State} (h : system.Reachable s₀) (W : BitVec 16) (b₀ b₁ b₂ : BitVec 8) :
    ∃ s, Ready s ∧ s.word = W ∧ s.taken = [b₀, b₁, b₂] ∧ ∀ c, FlashByte c → s.st.mem c = s₀.st.mem c := by
  obtain ⟨s, hs⟩ := begun_nil h W
  have hthree := ((hs.next (Nat.succ_pos 2) b₀).next (Nat.succ_lt_succ (Nat.succ_pos 1)) b₁).next
    (Nat.lt_succ_self 2) b₂
  refine ⟨_, ⟨hthree.reachable, hthree.pointed, hthree.writing, ?_⟩, hthree.word, hthree.taken, hthree.flash⟩
  rw [hthree.taken]
  rfl

/-- There is a run. -/
theorem exists_reachable : ∃ s, system.Reachable s := by
  let f : FlashCtrler :=
    { StartAddr := fun _ => 0, flash := .flashbank0, writing := false, regFull := false, reg := 0, address := 0
      TXNum := 0 }
  let st₀ : FlashSt := { mem := fun _ => 0, hw := f }
  have hbytes : IsBytes st₀.mem := fun _ => Nat.succ_pos 0xff
  exact ⟨{ st := ChipErase (FlashCtrler.reset st₀), taken := [], pointed := false },
    .init ⟨⟨st₀, hbytes, rfl, rfl⟩, rfl, rfl⟩⟩

/-! ## Storing -/

theorem flashByte_place {W : BitVec 16} (hW : W.getLsbD 13 = false) {i : Nat} (hi : i < 4) :
    FlashByte (.cell (wordBank W) (wordStart W + (i : Nat))) := by
  rw [bit13_iff] at hW
  unfold wordStart
  exact ⟨wordBank W, wordBank_mem W, _, by omega, by omega, rfl⟩

theorem stores_iff (W : BitVec 16) : Stores W ↔ W.getLsbD 13 = false := by
  constructor
  · rintro ⟨b, a, -, hlast, hstored⟩
    by_contra hhigh
    obtain ⟨s₀, hs₀⟩ := exists_reachable
    obtain ⟨s, hs, hword, htaken, -⟩ := exists_ready hs₀ W 0 0 0
    have hlost (v : BitVec 8) : v.setWidth 16 = s.st.mem (.cell b (a + 3)) := by
      have hstore := hstored s v hs hword b (a + 3) hlast
      have hindex : (a + 3 - a).toNat = 3 := by omega
      rw [if_pos ⟨rfl, by omega, by omega⟩, hindex, htaken,
        completed_of_high hs (hword ▸ Bool.not_eq_false _ ▸ hhigh) v hlast] at hstore
      exact hstore.symm
    exact absurd ((hlost 0).trans (hlost 1).symm) (by decide)
  · intro hlow
    have hfirst := flashByte_place hlow (Nat.succ_pos 3)
    rw [Nat.cast_zero, add_zero] at hfirst
    exact ⟨_, _, hfirst, flashByte_place hlow (Nat.lt_succ_self 3), storedAt_of_low hlow⟩

/-- What a word changes is at its place. -/
theorem place_of_changed {s : State} (h : Ready s) {v : BitVec 8} {c : Site} (hc : FlashByte c)
    (hne : completed s v c ≠ s.st.mem c) :
    ∃ i < 4, c = .cell (wordBank s.word) (wordStart s.word + (i : Nat)) := by
  by_contra hnot
  push Not at hnot
  apply hne
  rw [completed_eq h v hc]
  refine storeBytes_of_ne fun i hi => ?_
  rcases flash_cellAt_cases (wordBank_mem s.word) (wordStart s.word + (i : Nat)) with ⟨-, -, hcell⟩ | ⟨-, hdummy⟩
  · rw [hcell]
    exact hnot i (List.mem_range.mp hi)
  · rw [hdummy]
    obtain ⟨b, -, x, -, -, rfl⟩ := hc
    exact fun heq => by cases heq

/-- The place of a word tells its address. -/
theorem word_of_place {V W : BitVec 16} {i j : Nat} (hi : i < 4) (hj : j < 4)
    (h : Site.cell (wordBank V) (wordStart V + i) = .cell (wordBank W) (wordStart W + j)) : V = W := by
  injection h with hbank hstart
  have hdiv := bankAt_injective (word_div_lt V) (word_div_lt W) hbank
  unfold wordStart at hstart
  apply BitVec.eq_of_toNat_eq
  omega

theorem apart (W : BitVec 16) : Apart W := by
  rintro s t v w c hs ht rfl hpage hc hne
  by_contra hne'
  obtain ⟨i, hi, rfl⟩ := place_of_changed hs hc hne
  obtain ⟨j, hj, heq⟩ := place_of_changed ht hc hne'
  apply hpage
  rw [word_of_place hi hj heq]

/-! ## Erasing -/

/-- Every byte at the place of a word is changed in some run. -/
theorem place_mem_writtenPage {W : BitVec 16} (hW : W.getLsbD 13 = false) {i : Nat} (hi : i < 4) :
    Site.cell (wordBank W) (wordStart W + (i : Nat)) ∈ writtenPage (page W) := by
  have hbyte := flashByte_place hW hi
  obtain ⟨s₀, hs₀⟩ := exists_reachable
  obtain ⟨b, hb⟩ : ∃ b : BitVec 8, b.setWidth 16 ≠ s₀.st.mem (.cell (wordBank W) (wordStart W + (i : Nat))) := by
    by_contra hall
    push Not at hall
    exact absurd ((hall 0).trans (hall 1).symm) (by decide)
  obtain ⟨s, hs, hword, htaken, hflash⟩ := exists_ready hs₀ W b b b
  refine ⟨hbyte, s, b, hs, congrArg page hword, ?_⟩
  rw [storedAt_of_low hW s b hs hword _ _ hbyte, if_pos ⟨rfl, by omega, by omega⟩, htaken, hflash _ hbyte]
  have hindex : (wordStart W + (i : Nat) - wordStart W).toNat = i := by omega
  have hget : ([b, b, b] ++ [b]).getD i 0 = b := by
    interval_cases i <;> rfl
  rw [hindex, hget]
  exact hb

/-- What is erased is one of 1024 bytes from the start of the page. -/
theorem place_of_erased {s : State} {v : BitVec 8} {c : Site} (h : c ∈ erased s v) :
    ∃ i < 1024, c = (pageBank (pageOf (s.st.mem cell_faddrh))).1.cellAt
      (eraseStart (pageOf (s.st.mem cell_faddrh)) s.st + (i : Nat)) := by
  obtain ⟨hc, u, hne⟩ := h
  by_contra hnot
  push Not at hnot
  apply hne
  have hfctl : c ≠ cell_fctl := hc.ne_xram _
  have hpage : (s.set c u).st.mem cell_faddrh = s.st.mem cell_faddrh :=
    Function.update_of_ne (hc.ne_xram _).symm _ _
  have hwrite : ((s.set c u).write cell_fctl v).st.mem c
      = (if v.setWidth 16 &&& bmERASE ≠ 0 then
          FlashCtrler.erasePage (pageOf ((s.set c u).st.mem cell_faddrh)) (s.set c u).st
        else (s.set c u).st).mem c := by
    rw [State.write, writeReg_eq]
    exact Function.update_of_ne hfctl _ _
  rw [hwrite, hpage]
  split
  · exact erasePage_mem _ _ hfctl hnot
  · rfl

/-- Two bytes of the flash that are erased are less than 1024 apart. -/
theorem erased_close {s : State} {v : BitVec 8} {b : Space} {x y : Int} (hx : .cell b x ∈ erased s v)
    (hy : .cell b y ∈ erased s v) : y < x + 1024 := by
  obtain ⟨i, hi, hxeq⟩ := place_of_erased hx
  obtain ⟨j, hj, hyeq⟩ := place_of_erased hy
  have hmem : (pageBank (pageOf (s.st.mem cell_faddrh))).1 ∈ flashbanks := by
    rw [pageBank_fst]
    exact bankAt_mem (by omega)
  have hplace {a z : Int} (h : Site.cell b z = (pageBank (pageOf (s.st.mem cell_faddrh))).1.cellAt a) : z = a := by
    rcases flash_cellAt_cases hmem a with ⟨-, -, hcell⟩ | ⟨-, hdummy⟩
    · rw [hcell] at h
      injection h
    · rw [hdummy] at h
      cases h
  have hxi := hplace hxeq
  have hyj := hplace hyeq
  omega

/-- The words of a page that are stored reach further than what is erased. -/
theorem bit13_of_erasesPage {W : BitVec 16} (h : ErasesPage (page W)) : W.getLsbD 13 = true := by
  by_contra hhigh
  have hlow : W.getLsbD 13 = false := Bool.not_eq_true _ ▸ hhigh
  have hmod := (bit13_iff W).mp hlow
  obtain ⟨s₀, hs₀⟩ := exists_reachable
  obtain ⟨s, hs, hword, -, -⟩ := exists_ready hs₀ W 0 0 0
  have heq : erased s 0x01 = writtenPage (page W) :=
    h s 0x01 hs.reachable (congrArg page hword) (by decide)
  let first : BitVec 16 := BitVec.ofNat 16 (W.toNat / 512 * 512)
  let last : BitVec 16 := BitVec.ofNat 16 (W.toNat / 512 * 512 + 511)
  have hfirst : first.toNat = W.toNat / 512 * 512 := by
    rw [BitVec.toNat_ofNat]
    omega
  have hlast : last.toNat = W.toNat / 512 * 512 + 511 := by
    rw [BitVec.toNat_ofNat]
    omega
  have hmem {V : BitVec 16} (hV : V.toNat / 512 = W.toNat / 512) {i : Nat} (hi : i < 4) :
      Site.cell (wordBank W) (wordStart V + (i : Nat)) ∈ erased s 0x01 := by
    have hpage : page V = page W := by
      apply Fin.ext
      rw [page_val, page_val, hV]
    have hbank : wordBank V = wordBank W := by
      rw [← pageBank_page, hpage, pageBank_page]
    have hV13 : V.getLsbD 13 = false := by
      rw [bit13_iff]
      omega
    rw [heq, ← hpage, ← hbank]
    exact place_mem_writtenPage hV13 hi
  have hclose := erased_close (@hmem first (by omega) 0 (by omega)) (@hmem last (by omega) 3 (by omega))
  unfold wordStart at hclose
  omega

/-! ## The geometry -/

/-- A word address whose bank has room for the word stores it, but its page is not what is erased. The other
words are lost. Words of different pages never meet. -/
theorem flash_geometry (W : BitVec 16) :
    (Stores W ↔ W.getLsbD 13 = false) ∧ (ErasesPage (page W) → W.getLsbD 13 = true) ∧ Apart W ∧
      ¬ Geometry W := by
  refine ⟨stores_iff W, bit13_of_erasesPage, apart W, fun h => ?_⟩
  have hlow := (stores_iff W).mp h.stores
  rw [bit13_of_erasesPage h.erases] at hlow
  cases hlow

/-- Erasing the first page leaves the upper half of it. -/
theorem not_geometry_zero : ¬ Geometry 0 := by
  intro h
  exact absurd (bit13_of_erasesPage h.erases) (by decide)

end FlashCtrler

end Ucsim.S51
