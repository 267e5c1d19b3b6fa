import Mathlib.Tactic.Ring
import Ucsim.S51.FlashGeometry

/-!
# Erasing a page again

`erasePage` moves the start of a page in a bank behind the first one each time, and only `reset` moves it back. The chip
is erased by the constructor already.
-/

namespace Ucsim.S51

open Logic ElementSt

namespace FlashCtrler

/-! ## What an erase is for -/

/-- The bytes of a page. -/
def InPage (p : Fin 128) (c : Site) : Prop :=
  ∃ x : Int, (p.val % 32 * 1024 : Nat) ≤ x ∧ x < (p.val % 32 * 1024 : Nat) + 1024 ∧ c = .cell (pageBank p).1 x

/-- An erase accesses addresses of the flash only, sets the bytes of its page and leaves the others alone. -/
structure ErasedRight (p : Fin 128) (st : FlashSt) : Prop where
  valid : ∀ i : Nat, i < 1024 → 0 ≤ eraseStart p st + i ∧ eraseStart p st + i < 0x8000
  page : ∀ c, InPage p c → (erasePage p st).mem c = 0xFF
  others : ∀ c, c ≠ cell_fctl → ¬ InPage p c → (erasePage p st).mem c = st.mem c

/-- Erasing the page once more is right too, and changes nothing. -/
structure Repeatable (p : Fin 128) (st : FlashSt) : Prop where
  again : ErasedRight p (erasePage p st)
  same : (erasePage p (erasePage p st)).mem = (erasePage p st).mem

/-! ## Runs -/

/-- What is done to the controller. `set` is a change of a cell by others than its callback. -/
inductive FlashOp
  | erase (p : Fin 128)
  | write (c : Site) (v : TMem)
  | set (c : Site) (v : TMem)

/-- The controller after an operation. -/
def FlashOp.run (st : FlashSt) : FlashOp → FlashSt
  | erase p => erasePage p st
  | write c v => element.writeReg c v st
  | set c v => store c v st

/-- The page that an operation erases. -/
def FlashOp.erased (st : FlashSt) : FlashOp → Option (Fin 128)
  | erase p => some p
  | write c v => if c = cell_fctl ∧ v &&& bmERASE ≠ 0 then some (pageOf (st.mem cell_faddrh)) else none
  | set _ _ => none

/-- One more erase of a page. -/
def counted (n : Fin 128 → Nat) (page : Option (Fin 128)) : Fin 128 → Nat :=
  page.elim n fun p => Function.update n p (n p + 1)

/-- The runs of the controller since its construction, with how often each page was erased since the last reset. -/
inductive FlashRun : (Fin 128 → Nat) → FlashSt → Prop
  | construct (st : FlashSt) : FlashRun (fun _ => 1) (ChipErase (reset st))
  | reset {n st} (h : FlashRun n st) : FlashRun (fun _ => 0) (reset st)
  | op {n st} (h : FlashRun n st) (op : FlashOp) : FlashRun (counted n (op.erased st)) (op.run st)

/-! ## Where the pages start -/

/-- What the bank of a page is moved by. -/
theorem pageBank_snd (p : Fin 128) : (pageBank p).2 = (0x8000 * (p.val / 32) : Nat) := by
  have hall : ∀ p : Fin 128, (pageBank p).2 = (0x8000 * (p.val / 32) : Nat) := by decide
  exact hall p

theorem erasePage_StartAddr (p : Fin 128) (st : FlashSt) : (erasePage p st).hw.StartAddr =
    Function.update st.hw.StartAddr p (st.hw.StartAddr p - (pageBank p).2) := by
  rw [erasePage_hw]
  rfl

theorem takeByte_StartAddr (v : TMem) (st : FlashSt) : (takeByte v st).hw.StartAddr = st.hw.StartAddr := by
  rw [takeByte_eq]
  split
  · rw [flashWrite_eq]
    rfl
  · rfl

theorem writeFctl_StartAddr (v : TMem) (st : FlashSt) : (writeFctl v st).hw.StartAddr =
    if v &&& bmERASE ≠ 0 then (erasePage (pageOf (st.mem cell_faddrh)) st).hw.StartAddr else st.hw.StartAddr := by
  have hupdate (st : FlashSt) :
      (update (fun f => { f with writing := decide (v &&& bmWRITE ≠ 0) }) st).hw.StartAddr = st.hw.StartAddr := rfl
  unfold writeFctl
  dsimp only
  rw [hupdate, apply_ite fun st : FlashSt => st.hw.StartAddr]

theorem write_StartAddr {c : Site} (hctl : c ≠ cell_fctl) (v : TMem) (st : FlashSt) :
    (write c v st).hw.StartAddr = st.hw.StartAddr := by
  unfold write
  rw [if_neg hctl]
  split
  · rfl
  · split
    · rfl
    · split
      · unfold writeFwdata
        split
        · exact takeByte_StartAddr _ _
        · rfl
      · rfl

/-- The starts after so many erases. -/
def Starts (n : Fin 128 → Nat) (st : FlashSt) : Prop :=
  ∀ p, st.hw.StartAddr p = p.val * 1024 - n p * (pageBank p).2

theorem Starts.erasePage {n : Fin 128 → Nat} {st : FlashSt} (h : Starts n st) (p : Fin 128) :
    Starts (Function.update n p (n p + 1)) (FlashCtrler.erasePage p st) := by
  intro q
  rw [erasePage_StartAddr, Function.update_apply, Function.update_apply]
  split
  next heq =>
    rw [heq, h p]
    push_cast
    ring
  next => exact h q

theorem Starts.congr {n : Fin 128 → Nat} {st st' : FlashSt} (h : Starts n st)
    (hsame : st'.hw.StartAddr = st.hw.StartAddr) : Starts n st' := fun p => by
  rw [hsame]
  exact h p

theorem Starts.op {n : Fin 128 → Nat} {st : FlashSt} (h : Starts n st) (op : FlashOp) :
    Starts (counted n (op.erased st)) (op.run st) := by
  cases op with
  | erase p => exact h.erasePage p
  | set c v => exact h.congr rfl
  | write c v =>
    have hrun : (FlashOp.run st (.write c v)).hw = (write c v st).hw := by
      rw [FlashOp.run, writeReg_eq]
      rfl
    have herased : (FlashOp.write c v).erased st =
      if c = cell_fctl ∧ v &&& bmERASE ≠ 0 then some (pageOf (st.mem cell_faddrh)) else none := rfl
    rw [herased]
    by_cases hctl : c = cell_fctl
    · have hfctl : (write c v st).hw = (writeFctl v st).hw := by
        unfold write
        rw [if_pos hctl]
      by_cases herase : v &&& bmERASE ≠ 0
      · rw [if_pos ⟨hctl, herase⟩]
        refine (h.erasePage _).congr ?_
        rw [hrun, hfctl, writeFctl_StartAddr, if_pos herase]
      · rw [if_neg fun hboth => herase hboth.2]
        refine h.congr ?_
        rw [hrun, hfctl, writeFctl_StartAddr, if_neg herase]
    · rw [if_neg fun hboth => hctl hboth.1]
      refine h.congr ?_
      rw [hrun, write_StartAddr hctl]

theorem starts_reset (st : FlashSt) : Starts (fun _ => 0) (reset st) := by
  intro p
  have hstart : (reset st).hw.StartAddr p = (p.val <<< 10 : Nat) := rfl
  rw [hstart, Nat.shiftLeft_eq]
  push_cast
  ring

/-- The chip is erased page by page. -/
theorem Starts.erasePages {n : Fin 128 → Nat} {st : FlashSt} (h : Starts n st) {l : List (Fin 128)} (hl : l.Nodup) :
    Starts (fun p => if p ∈ l then n p + 1 else n p) (l.foldl (fun st i => FlashCtrler.erasePage i st) st) := by
  induction l generalizing n st with
  | nil => exact h
  | cons q l ih =>
    obtain ⟨hq, hl⟩ := List.nodup_cons.mp hl
    have hrest := ih (h.erasePage q) hl
    have hcounts : (fun p => if p ∈ l then Function.update n q (n q + 1) p + 1 else Function.update n q (n q + 1) p) =
        fun p => if p ∈ q :: l then n p + 1 else n p := by
      funext p
      by_cases hpq : p = q
      · rw [hpq, if_neg hq, Function.update_self, if_pos List.mem_cons_self]
      · rw [Function.update_of_ne hpq]
        simp only [List.mem_cons, hpq, false_or]
    rwa [hcounts] at hrest

theorem FlashRun.starts {n : Fin 128 → Nat} {st : FlashSt} (h : FlashRun n st) : Starts n st := by
  induction h with
  | construct st =>
    have hall := (starts_reset st).erasePages (List.nodup_finRange 128)
    simp only [List.mem_finRange, if_true] at hall
    exact hall
  | reset _ _ => exact starts_reset _
  | op _ op ih => exact ih.op op

/-! ## One erase -/

theorem pageBank_mem (p : Fin 128) : (pageBank p).1 ∈ flashbanks := by
  rw [pageBank_fst]
  exact bankAt_mem (by omega)

/-- From its own place in the bank a page is erased rightly. -/
theorem erasedRight_of_start {p : Fin 128} {st : FlashSt} (hstart : eraseStart p st = (p.val % 32 * 1024 : Nat)) :
    ErasedRight p st := by
  have hcell : ∀ i ∈ List.range 1024, (pageBank p).1.cellAt (eraseStart p st + (i : Nat)) =
      .cell (pageBank p).1 (eraseStart p st + (i : Nat)) := by
    intro i hi
    have hlt := List.mem_range.mp hi
    rcases flash_cellAt_cases (pageBank_mem p) (eraseStart p st + (i : Nat)) with ⟨-, -, h⟩ | ⟨hout, -⟩
    · exact h
    · omega
  have hmem : ∀ c, c ≠ cell_fctl → (erasePage p st).mem c =
      storeBytes (fun i => .cell (pageBank p).1 (eraseStart p st + (i : Nat))) (fun _ => 0xFF) (List.range 1024)
        st.mem c := by
    intro c hc
    have hselected : (setBit1 cell_fctl bmBUSY (selectPage p st)).mem c = st.mem c := setBit1_mem_of_ne hc _
    have hflash : (setBit1 cell_fctl bmBUSY (selectPage p st)).hw.flash = (pageBank p).1 := rfl
    rw [erasePage_eq, setBit0_mem_of_ne hc]
    generalize setBit1 cell_fctl bmBUSY (selectPage p st) = st' at hselected hflash
    rw [eraseBytes_eq, hflash]
    dsimp only
    exact storeBytes_congr hcell (fun _ _ => rfl) hselected
  refine ⟨fun i hi => by omega, fun c hc => ?_, fun c hc hout => ?_⟩
  · obtain ⟨x, hlo, hhi, rfl⟩ := hc
    have hne : Site.cell (pageBank p).1 x ≠ cell_fctl := by
      intro heq
      have hspace : (pageBank p).1 = .xram := by injection heq
      have hbank := pageBank_mem p
      rw [hspace] at hbank
      exact absurd hbank (by decide)
    rw [hmem _ hne, storeBytes_consecutive, if_pos ⟨rfl, by omega, by omega⟩]
    decide
  · rw [hmem c hc]
    refine storeBytes_of_ne fun i hi heq => hout ⟨_, ?_, ?_, heq⟩
    · omega
    · have hlt := List.mem_range.mp hi
      omega

/-- An erase is right if and only if the page is in the first bank or was not erased since the last reset. -/
theorem erasedRight_iff {n : Fin 128 → Nat} {st : FlashSt} (h : Starts n st) (p : Fin 128) :
    ErasedRight p st ↔ p.val < 32 ∨ n p = 0 := by
  have hstart : eraseStart p st = p.val * 1024 - n p * (0x8000 * (p.val / 32) : Nat) - (0x8000 * (p.val / 32) : Nat) := by
    rw [eraseStart, h p, pageBank_snd]
  constructor
  · intro hright
    by_contra hneither
    obtain ⟨hbank, herased⟩ := not_or.mp hneither
    obtain ⟨k, hk⟩ := Nat.exists_eq_succ_of_ne_zero herased
    have hvalid := (hright.valid 0 (by decide)).1
    rw [hstart, hk] at hvalid
    have hdiv : p.val = 32 * (p.val / 32) + p.val % 32 := (Nat.div_add_mod _ _).symm
    have hpos : 1 ≤ p.val / 32 := by omega
    push_cast at hvalid
    have hmul : 0 ≤ (k : Int) * (32768 * (p.val / 32 : Nat)) := by positivity
    push_cast at hvalid hmul
    rw [add_mul] at hvalid
    omega
  · intro hcond
    apply erasedRight_of_start
    rw [hstart]
    rcases hcond with hbank | herased
    · have hzero : p.val / 32 = 0 := by omega
      rw [hzero]
      simp only [Nat.cast_zero, mul_zero, sub_zero]
      omega
    · rw [herased]
      simp only [Nat.cast_zero, zero_mul, sub_zero]
      omega

/-- The counts when a page has been erased once more. -/
theorem FlashRun.erase {n : Fin 128 → Nat} {st : FlashSt} (h : FlashRun n st) (p : Fin 128) :
    Starts (Function.update n p (n p + 1)) (erasePage p st) := h.starts.erasePage p

/-- The busy bit is set and cleared. -/
def notBusy (v : TMem) : TMem :=
  (((v ||| (bmBUSY &&& 0xff)) &&& 0xff) &&& ~~~(bmBUSY &&& 0xff)) &&& 0xff

theorem notBusy_idem (v : TMem) : notBusy (notBusy v) = notBusy v := by
  unfold notBusy
  ext i hi
  simp only [BitVec.getElem_and, BitVec.getElem_or, BitVec.getElem_not]
  generalize (bmBUSY)[i] = b
  generalize (0xff : TMem)[i] = m
  cases v[i] <;> cases b <;> cases m <;> rfl

theorem erasePage_fctl (p : Fin 128) (st : FlashSt) : (erasePage p st).mem cell_fctl = notBusy (st.mem cell_fctl) := by
  have hbusy : (setBit1 cell_fctl bmBUSY (selectPage p st)).mem cell_fctl =
      (st.mem cell_fctl ||| (bmBUSY &&& 0xff)) &&& 0xff := Function.update_self cell_fctl _ st.mem
  have hflash : (setBit1 cell_fctl bmBUSY (selectPage p st)).hw.flash = (pageBank p).1 := rfl
  rw [erasePage_eq]
  generalize setBit1 cell_fctl bmBUSY (selectPage p st) = st' at hbusy hflash
  have hbytes : (eraseBytes (eraseStart p st) 1024 st').mem cell_fctl = st'.mem cell_fctl := by
    refine eraseBytes_mem_of_ne fun i _ => ?_
    rw [hflash]
    exact xram_ne_cellAt (pageBank_mem p) _ _
  generalize eraseBytes (eraseStart p st) 1024 st' = st'' at hbytes
  have hstore : (setBit0 cell_fctl bmBUSY st'').mem cell_fctl =
      (st''.mem cell_fctl &&& ~~~(bmBUSY &&& 0xff)) &&& 0xff := Function.update_self cell_fctl _ st''.mem
  rw [hstore, hbytes, hbusy]
  rfl

/-- What an erase leaves is not changed by another one from the same place. -/
theorem erasePage_idem {p : Fin 128} {st : FlashSt} (h : ErasedRight p st) (h' : ErasedRight p (erasePage p st)) :
    (erasePage p (erasePage p st)).mem = (erasePage p st).mem := by
  funext c
  by_cases hpage : InPage p c
  · rw [h'.page c hpage, h.page c hpage]
  · by_cases hc : c = cell_fctl
    · rw [hc, erasePage_fctl, erasePage_fctl, notBusy_idem]
    · exact h'.others c hc hpage

/-- In every run, an erase is right if and only if the page is in the first bank or was not erased since the last reset,
and repeatable if and only if the page is in the first bank. -/
theorem page_erase_iff {n : Fin 128 → Nat} {st : FlashSt} (h : FlashRun n st) (p : Fin 128) :
    (ErasedRight p st ↔ p.val < 32 ∨ n p = 0) ∧ (ErasedRight p st ∧ Repeatable p st ↔ p.val < 32) := by
  have hone := erasedRight_iff h.starts p
  have htwo := erasedRight_iff (h.erase p) p
  rw [Function.update_self, or_iff_left (Nat.succ_ne_zero _)] at htwo
  refine ⟨hone, fun hboth => htwo.mp hboth.2.again, fun hbank => ?_⟩
  have hright := hone.mpr (.inl hbank)
  have hagain := htwo.mpr hbank
  exact ⟨hright, hagain, erasePage_idem hright hagain⟩

/-- A memory of zeros, before the constructor. -/
def blank : FlashSt where
  mem _ := 0
  hw := { StartAddr := fun _ => 0, flash := .flashbank0, writing := false, regFull := false, reg := 0, address := 0,
          TXNum := 0 }

/-- The first page may be erased behind the constructor. -/
theorem page_erase_iff_first : ErasedRight 0 (ChipErase (reset blank)) ∧ Repeatable 0 (ChipErase (reset blank)) :=
  (page_erase_iff (.construct blank) 0).2.mpr (by decide)

/-- The first page of the second bank may not. -/
theorem not_erased_again : ¬ ∀ (n : Fin 128 → Nat) (st : FlashSt) (p : Fin 128), FlashRun n st →
    ErasedRight p st ∧ Repeatable p st := by
  intro h
  have hrun := FlashRun.construct blank
  have hright := (h _ _ 32 hrun).1
  rw [erasedRight_iff hrun.starts] at hright
  exact absurd hright (by decide)

end FlashCtrler

end Ucsim.S51
