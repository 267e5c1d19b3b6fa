import Ucsim.S51.Uc390

/-!
# Bytes on the stack of the DS390

Bytes that are pushed and popped move the level of the stack, which counts on through SP and ESP. What the
instructions do is told by the bytes they put there or take away and by the operation they tell the tracker.
-/

namespace Ucsim.S51

/-- The errors that `stack_write` and `stack_read` raise. -/
def UcError.ofTracker : UcError → Bool
  | .memInvalidAddress .. | .unknownCode => false
  | .stackTrackerWrongHandle _ | .stackTrackerEmpty | .stackTrackerUnmatch | .stackTrackerInconsistent _ => true

namespace Uc390

variable {σ : Type}

namespace Machine

def sp (s : Machine σ) : UChar := s.sfr.cell SP

def esp (s : Machine σ) : UChar := s.sfr.cell ESP

def acon (s : Machine σ) : UChar := s.sfr.cell ACON

def withSfr (s : Machine σ) (addr val : UChar) : Machine σ :=
  { s with sfr := { s.sfr with cell := Function.update s.sfr.cell addr val } }

/-- The level of the stack: SP, or ESP and SP. -/
def level (s : Machine σ) : Nat := if SA s.acon then s.esp.toNat * 256 + s.sp.toNat else s.sp.toNat

/-- The memory of the stack. -/
def byteAt (s : Machine σ) (p : Nat) : UChar := if SA s.acon then s.ixram p else s.iram (BitVec.ofNat 8 p)

end Machine

/-- The last byte of the stack memory. -/
def limit (acon : UChar) : Nat := if SA acon then 0x3ff else 0xff

/-! ## One byte -/

theorem wide_eq (sp esp : UChar) : wide sp esp = (esp.toNat * 256 + sp.toNat) % 0x400 := by
  have hmask : (esp &&& 0x3).toNat = esp.toNat % 4 := by
    rw [BitVec.toNat_and]
    exact Nat.and_two_pow_sub_one_eq_mod _ 2
  have hsp := sp.isLt
  rw [wide, hmask]
  omega

theorem push_byte_run (s : Machine σ) (uc : UChar) : ((push_byte uc).run s).2 =
    if SA s.acon then
      (if s.sp + 1 = 0 then
        { (s.withSfr SP (s.sp + 1)).withSfr ESP (s.esp + 1) with
          ixram := Function.update s.ixram (wide (s.sp + 1) (s.esp + 1)) uc }
      else { s.withSfr SP (s.sp + 1) with ixram := Function.update s.ixram (wide (s.sp + 1) s.esp) uc })
    else { s.withSfr SP (s.sp + 1) with iram := Function.update s.iram (s.sp + 1) uc } := by
  have hrun : ((push_byte uc).run s).2 = ((if SA s.acon then (do
        if s.sp + 1 = 0 then let _ ← wadd ESP 1
        set_ixram (wide (s.sp + 1) (← get_sfr ESP)) uc)
      else set_iram (s.sp + 1) uc : Prog σ Unit).run (s.withSfr SP (s.sp + 1))).2 := rfl
  rw [hrun]
  by_cases hSA : SA s.acon
  · rw [if_pos hSA, if_pos hSA]
    by_cases hsp : s.sp + 1 = 0
    · rw [if_pos hsp, if_pos hsp]
      rfl
    · rw [if_neg hsp, if_neg hsp]
      rfl
  · rw [if_neg hSA, if_neg hSA]
    rfl

theorem pop_byte_run (s : Machine σ) : pop_byte.run s =
    if SA s.acon then
      (s.ixram (wide s.sp s.esp),
        if s.sp - 1 = 0xff then (s.withSfr SP (s.sp - 1)).withSfr ESP (s.esp - 1) else s.withSfr SP (s.sp - 1))
    else (s.iram s.sp, s.withSfr SP (s.sp - 1)) := by
  have hrun : pop_byte.run s = ((if SA s.acon then (do
        let temp := (← get).ixram (wide (← get_sfr SP) (← get_sfr ESP))
        let sp ← wadd SP (-1)
        if sp = 0xff then let _ ← wadd ESP (-1)
        return temp)
      else (do
        let temp := (← get).iram (← get_sfr SP)
        let _ ← wadd SP (-1)
        return temp) : Prog σ UChar).run s) := rfl
  have hSP : s.sp + -1 = s.sp - 1 := (BitVec.sub_eq_add_neg _ _).symm
  have hESP : s.esp + -1 = s.esp - 1 := (BitVec.sub_eq_add_neg _ _).symm
  rw [hrun, ← hSP, ← hESP]
  by_cases hSA : SA s.acon
  · rw [if_pos hSA, if_pos hSA]
    have hnext : ((do
        let temp := (← get).ixram (wide (← get_sfr SP) (← get_sfr ESP))
        let sp ← wadd SP (-1)
        if sp = 0xff then let _ ← wadd ESP (-1)
        return temp : Prog σ UChar).run s) = ((do
        if s.sp + -1 = 0xff then let _ ← wadd ESP (-1)
        return s.ixram (wide s.sp s.esp) : Prog σ UChar).run (s.withSfr SP (s.sp + -1))) := rfl
    rw [hnext]
    by_cases hsp : s.sp + -1 = 0xff
    · rw [if_pos hsp, if_pos hsp]
      rfl
    · rw [if_neg hsp, if_neg hsp]
      rfl
  · rw [if_neg hSA, if_neg hSA]
    rfl

/-! ## The level and the bytes below it -/

namespace Machine

def push (s : Machine σ) (uc : UChar) : Machine σ := ((push_byte uc).run s).2

def top (s : Machine σ) : UChar := (pop_byte.run s).1

def pop (s : Machine σ) : Machine σ := (pop_byte.run s).2

theorem sp_lt (s : Machine σ) : s.sp.toNat < 0x100 := s.sp.isLt

theorem push_of_SA {s : Machine σ} (h : SA s.acon = true) (uc : UChar) : s.push uc =
    if s.sp + 1 = 0 then
      { (s.withSfr SP (s.sp + 1)).withSfr ESP (s.esp + 1) with
        ixram := Function.update s.ixram (wide (s.sp + 1) (s.esp + 1)) uc }
    else { s.withSfr SP (s.sp + 1) with ixram := Function.update s.ixram (wide (s.sp + 1) s.esp) uc } := by
  rw [push, push_byte_run, if_pos h]

theorem push_of_not_SA {s : Machine σ} (h : SA s.acon = false) (uc : UChar) :
    s.push uc = { s.withSfr SP (s.sp + 1) with iram := Function.update s.iram (s.sp + 1) uc } := by
  rw [push, push_byte_run, if_neg (by simp [h])]

theorem pop_of_SA {s : Machine σ} (h : SA s.acon = true) :
    s.pop = if s.sp - 1 = 0xff then (s.withSfr SP (s.sp - 1)).withSfr ESP (s.esp - 1)
      else s.withSfr SP (s.sp - 1) := by
  rw [pop, pop_byte_run, if_pos h]

theorem pop_of_not_SA {s : Machine σ} (h : SA s.acon = false) : s.pop = s.withSfr SP (s.sp - 1) := by
  rw [pop, pop_byte_run, if_neg (by simp [h])]

/-- The byte on top is that of the level. -/
theorem top_eq (s : Machine σ) : s.top = s.byteAt (s.level % 0x400) := by
  have hsp := s.sp_lt
  rw [top, pop_byte_run, byteAt, level]
  split
  · rw [wide_eq]
  · rw [Nat.mod_eq_of_lt (by omega), BitVec.ofNat_toNat, BitVec.setWidth_eq]

/-- The errors of the tracker. -/
def trackerErrors (s : Machine σ) : List UcError := s.errors.filter UcError.ofTracker

/-- What leaves ACON, the tracker and its errors alone. -/
structure Beside (s t : Machine σ) : Prop where
  acon : t.acon = s.acon
  stackOps : t.stackOps = s.stackOps
  errors : t.trackerErrors = s.trackerErrors

theorem Beside.trans {s t u : Machine σ} (h : Beside s t) (h' : Beside t u) : Beside s u :=
  ⟨h'.acon.trans h.acon, h'.stackOps.trans h.stackOps, h'.errors.trans h.errors⟩

theorem push_beside (s : Machine σ) (uc : UChar) : Beside s (s.push uc) := by
  cases hSA : SA s.acon with
  | true =>
    rw [push_of_SA hSA]
    split
    · exact ⟨rfl, rfl, rfl⟩
    · exact ⟨rfl, rfl, rfl⟩
  | false =>
    rw [push_of_not_SA hSA]
    exact ⟨rfl, rfl, rfl⟩

theorem pop_beside (s : Machine σ) : Beside s s.pop := by
  cases hSA : SA s.acon with
  | true =>
    rw [pop_of_SA hSA]
    split
    · exact ⟨rfl, rfl, rfl⟩
    · exact ⟨rfl, rfl, rfl⟩
  | false =>
    rw [pop_of_not_SA hSA]
    exact ⟨rfl, rfl, rfl⟩

theorem level_of_SA {s : Machine σ} (h : SA s.acon = true) : s.level = s.esp.toNat * 256 + s.sp.toNat := if_pos h

theorem level_of_not_SA {s : Machine σ} (h : SA s.acon = false) : s.level = s.sp.toNat := if_neg (by simp [h])

theorem sp_eq_level (s : Machine σ) : s.sp.toNat = s.level % 0x100 := by
  have hsp := s.sp_lt
  rw [level]
  split
  · omega
  · omega

theorem sp_congr {s t : Machine σ} (h : s.level = t.level) : s.sp = t.sp := by
  apply BitVec.eq_of_toNat_eq
  rw [s.sp_eq_level, t.sp_eq_level, h]

/-- SP counts on, over its end as well. -/
theorem push_sp (s : Machine σ) (uc : UChar) : (s.push uc).sp = s.sp + 1 := by
  cases hSA : SA s.acon with
  | true =>
    rw [push_of_SA hSA]
    split
    · rfl
    · rfl
  | false =>
    rw [push_of_not_SA hSA]
    rfl

theorem push_level {s : Machine σ} (hroom : s.level % 0x400 + 1 ≤ limit s.acon) (uc : UChar) :
    (s.push uc).level = s.level + 1 := by
  have hsp := s.sp_lt
  have hesp := s.esp.isLt
  have hacon := (s.push_beside uc).acon
  cases hSA : SA s.acon with
  | true =>
    rw [level_of_SA (by rw [hacon, hSA]), level_of_SA hSA, push_of_SA hSA]
    rw [level_of_SA hSA, limit, if_pos hSA] at hroom
    split
    case isTrue hzero =>
      show (s.esp + 1).toNat * 256 + (s.sp + 1).toNat = s.esp.toNat * 256 + s.sp.toNat + 1
      bv_omega
    case isFalse hzero =>
      show s.esp.toNat * 256 + (s.sp + 1).toNat = s.esp.toNat * 256 + s.sp.toNat + 1
      bv_omega
  | false =>
    rw [level_of_not_SA (by rw [hacon, hSA]), level_of_not_SA hSA, push_of_not_SA hSA]
    rw [level_of_not_SA hSA, limit, if_neg (by simp [hSA])] at hroom
    show (s.sp + 1).toNat = s.sp.toNat + 1
    bv_omega

theorem pop_level {s : Machine σ} (hpos : 1 ≤ s.level % 0x400) : s.pop.level + 1 = s.level := by
  have hsp := s.sp_lt
  have hesp := s.esp.isLt
  have hacon := s.pop_beside.acon
  cases hSA : SA s.acon with
  | true =>
    rw [level_of_SA (by rw [hacon, hSA]), level_of_SA hSA, pop_of_SA hSA]
    rw [level_of_SA hSA] at hpos
    split
    case isTrue hzero =>
      show (s.esp - 1).toNat * 256 + (s.sp - 1).toNat + 1 = s.esp.toNat * 256 + s.sp.toNat
      bv_omega
    case isFalse hzero =>
      show s.esp.toNat * 256 + (s.sp - 1).toNat + 1 = s.esp.toNat * 256 + s.sp.toNat
      bv_omega
  | false =>
    rw [level_of_not_SA (by rw [hacon, hSA]), level_of_not_SA hSA, pop_of_not_SA hSA]
    rw [level_of_not_SA hSA] at hpos
    show (s.sp - 1).toNat + 1 = s.sp.toNat
    bv_omega

theorem pop_byteAt (s : Machine σ) (p : Nat) : s.pop.byteAt p = s.byteAt p := by
  rw [byteAt, byteAt, s.pop_beside.acon]
  cases hSA : SA s.acon with
  | true =>
    rw [if_pos rfl, if_pos rfl, pop_of_SA hSA]
    split
    · rfl
    · rfl
  | false =>
    rw [pop_of_not_SA hSA]
    rfl

/-- The bytes after a push. -/
theorem push_byteAt {s : Machine σ} (hroom : s.level % 0x400 + 1 ≤ limit s.acon) (uc : UChar) {p : Nat}
    (hp : p ≤ s.level % 0x400 + 1) :
    (s.push uc).byteAt p = if p = s.level % 0x400 + 1 then uc else s.byteAt p := by
  have hsp := s.sp_lt
  have hesp := s.esp.isLt
  rw [byteAt, byteAt, (s.push_beside uc).acon]
  cases hSA : SA s.acon with
  | true =>
    rw [level_of_SA hSA, limit, if_pos hSA] at hroom
    rw [if_pos rfl, if_pos rfl, push_of_SA hSA, level_of_SA hSA]
    split
    case isTrue hzero =>
      have hplace : wide (s.sp + 1) (s.esp + 1) = (s.esp.toNat * 256 + s.sp.toNat) % 0x400 + 1 := by
        rw [wide_eq]
        bv_omega
      show Function.update s.ixram (wide (s.sp + 1) (s.esp + 1)) uc p = _
      rw [hplace, Function.update_apply]
    case isFalse hzero =>
      have hplace : wide (s.sp + 1) s.esp = (s.esp.toNat * 256 + s.sp.toNat) % 0x400 + 1 := by
        rw [wide_eq]
        bv_omega
      show Function.update s.ixram (wide (s.sp + 1) s.esp) uc p = _
      rw [hplace, Function.update_apply]
  | false =>
    rw [level_of_not_SA hSA, limit, if_neg (by simp [hSA])] at hroom
    rw [level_of_not_SA hSA] at hp
    rw [push_of_not_SA hSA, level_of_not_SA hSA]
    have hplace : BitVec.ofNat 8 p = s.sp + 1 ↔ p = s.sp.toNat % 0x400 + 1 := by
      constructor
      · intro h
        bv_omega
      · intro h
        bv_omega
    show Function.update s.iram (s.sp + 1) uc (BitVec.ofNat 8 p) = _
    rw [Function.update_apply]
    exact if_congr hplace rfl rfl

end Machine

/-! ## Bytes on the stack -/

/-- The bytes lie one on the other, the first of the list on top. -/
def Holds (mem : Nat → UChar) (base : Nat) : List UChar → Prop
  | [] => True
  | b :: bs => mem (base + (bs.length + 1)) = b ∧ Holds mem base bs

theorem Holds.congr {mem mem' : Nat → UChar} {base : Nat} {bs : List UChar} (h : Holds mem base bs)
    (hsame : ∀ p, base < p → p ≤ base + bs.length → mem' p = mem p) : Holds mem' base bs := by
  induction bs with
  | nil => trivial
  | cons b bs ih =>
    rw [List.length_cons] at hsame
    obtain ⟨htop, hrest⟩ := h
    constructor
    · rw [hsame _ (by omega) (by omega)]
      exact htop
    · exact ih hrest fun p hlow hhigh => hsame p hlow (by omega)

theorem limit_le (acon : UChar) : limit acon ≤ 0x3ff := by
  rw [limit]
  split
  · omega
  · omega

/-- The bytes have been put on a stack of this level, and ACON has not changed. -/
structure Stacked (base : Nat) (acon : UChar) (content : List UChar) (s : Machine σ) : Prop where
  acon_eq : s.acon = acon
  level_eq : s.level = base + content.length
  fits : base % 0x400 + content.length ≤ limit acon
  holds : Holds s.byteAt (base % 0x400) content

namespace Stacked

variable {base : Nat} {acon b : UChar} {content : List UChar} {s t : Machine σ}

theorem place (h : Stacked base acon content s) : s.level % 0x400 = base % 0x400 + content.length := by
  have hlimit := limit_le acon
  have hfits := h.fits
  rw [h.level_eq]
  omega

theorem push (h : Stacked base acon content s) (hroom : base % 0x400 + (content.length + 1) ≤ limit acon) :
    Stacked base acon (b :: content) (s.push b) := by
  have hplace := h.place
  have hnext : s.level % 0x400 + 1 ≤ limit s.acon := by
    rw [h.acon_eq, hplace]
    exact hroom
  refine ⟨(s.push_beside b).acon.trans h.acon_eq, ?_, hroom, ?_, ?_⟩
  · rw [Machine.push_level hnext, h.level_eq, List.length_cons, Nat.add_assoc]
  · rw [Machine.push_byteAt hnext b (by omega), if_pos (by omega)]
  · refine h.holds.congr fun p hlow hhigh => ?_
    rw [Machine.push_byteAt hnext b (by omega), if_neg (by omega)]

theorem top (h : Stacked base acon (b :: content) s) : s.top = b := by
  rw [s.top_eq, h.place]
  exact h.holds.1

theorem pop (h : Stacked base acon (b :: content) s) : Stacked base acon content s.pop := by
  have hplace := h.place
  have hfits := h.fits
  have hlevel := h.level_eq
  rw [List.length_cons] at hplace hfits hlevel
  have hdown := Machine.pop_level (s := s) (by omega)
  refine ⟨s.pop_beside.acon.trans h.acon_eq, by omega, by omega, ?_⟩
  exact h.holds.2.congr fun p _ _ => s.pop_byteAt p

end Stacked

/-- ACON, the level and that many bytes below it are the same. -/
structure Keeps (n : Nat) (s t : Machine σ) : Prop where
  acon : t.acon = s.acon
  level : t.level = s.level
  bytes : ∀ p, s.level % 0x400 < p + n → p ≤ s.level % 0x400 → t.byteAt p = s.byteAt p

theorem Keeps.of_cells {s t : Machine σ} (hcell : t.sfr.cell = s.sfr.cell) (hiram : t.iram = s.iram)
    (hixram : t.ixram = s.ixram) (n : Nat) : Keeps n s t := by
  have hsp : t.sp = s.sp := congrFun hcell SP
  have hesp : t.esp = s.esp := congrFun hcell ESP
  have hacon : t.acon = s.acon := congrFun hcell ACON
  refine ⟨hacon, ?_, fun p _ _ => ?_⟩
  · rw [Machine.level, Machine.level, hacon, hsp, hesp]
  · rw [Machine.byteAt, Machine.byteAt, hacon, hiram, hixram]

theorem Stacked.keep {base : Nat} {acon : UChar} {content : List UChar} {s t : Machine σ}
    (h : Stacked base acon content s) (hkeep : Keeps content.length s t) : Stacked base acon content t := by
  have hplace := h.place
  refine ⟨hkeep.acon.trans h.acon_eq, hkeep.level.trans h.level_eq, h.fits, ?_⟩
  exact h.holds.congr fun p hlow hhigh => hkeep.bytes p (by omega) (by omega)

/-! ## The instructions -/

/-- What leaves the stack, its pointer and the tracker alone. -/
structure Quiet (s t : Machine σ) : Prop where
  sp : t.sp = s.sp
  esp : t.esp = s.esp
  iram : t.iram = s.iram
  ixram : t.ixram = s.ixram
  beside : Machine.Beside s t

namespace Quiet

variable {s t u : Machine σ}

theorem trans (h : Quiet s t) (h' : Quiet t u) : Quiet s u :=
  ⟨h'.sp.trans h.sp, h'.esp.trans h.esp, h'.iram.trans h.iram, h'.ixram.trans h.ixram, h.beside.trans h'.beside⟩

theorem keeps (h : Quiet s t) (n : Nat) : Keeps n s t where
  acon := h.beside.acon
  level := by rw [Machine.level, Machine.level, h.beside.acon, h.sp, h.esp]
  bytes p _ _ := by rw [Machine.byteAt, Machine.byteAt, h.beside.acon, h.iram, h.ixram]

end Quiet

theorem fetch_quiet (s : Machine σ) : Quiet s (fetch.run s).2 ∧ (fetch.run s).2.PC = (s.PC + 1) % 0x20000 := by
  have hrun : (fetch.run s) = ((do
      if 0x20000 ≤ s.PC then error (.memInvalidAddress .rom s.PC)
      set_PC ((s.PC + 1) % 0x20000)
      return (← get).rom s.PC : Prog σ UChar).run s) := rfl
  rw [hrun]
  by_cases hPC : 0x20000 ≤ s.PC
  · rw [if_pos hPC]
    refine ⟨⟨rfl, rfl, rfl, rfl, rfl, rfl, ?_⟩, rfl⟩
    show (s.errors ++ [UcError.memInvalidAddress .rom s.PC]).filter UcError.ofTracker = _
    rw [List.filter_append]
    exact List.append_nil _
  · rw [if_neg hPC]
    exact ⟨⟨rfl, rfl, rfl, rfl, rfl, rfl, rfl⟩, rfl⟩

namespace Machine

/-- Behind the code of the instruction. -/
def started (s : Machine σ) : Machine σ := (start_inst.run s).2

/-- The code of the next instruction. -/
def next (s : Machine σ) : UChar := (start_inst.run s).1

def fetched (s : Machine σ) : Machine σ := (fetch.run s).2

def step (R : Rest σ) (s : Machine σ) : Machine σ := ((exec_inst R).run s).2

def accepted (il : ItLevel) (s : Machine σ) : Machine σ := ((accept_it il).run s).2

variable {R : Rest σ} {s : Machine σ}

theorem step_eq {code : UChar} (hcode : s.next = code) : s.step R = ((dispatch R code).run s.started).2 := by
  rw [← hcode]
  rfl

theorem fetched_PC (s : Machine σ) : s.fetched.PC = (s.PC + 1) % 0x20000 := (fetch_quiet s).2

theorem fetched_quiet (s : Machine σ) : Quiet s s.fetched := (fetch_quiet s).1

theorem started_quiet (s : Machine σ) : Quiet s s.started := by
  have h := fetched_quiet { s with instPC := s.PC }
  exact ⟨h.sp, h.esp, h.iram, h.ixram, h.beside.acon, h.beside.stackOps, h.beside.errors⟩

theorem started_PC (s : Machine σ) : s.started.PC = (s.PC + 1) % 0x20000 := fetched_PC { s with instPC := s.PC }

/-- The byte that `PUSH` pushes, and the machine that has read it. -/
def pushes (R : Rest σ) (s : Machine σ) : UChar × Machine σ :=
  ((get_direct (fetch.run s.started).1).read R).run s.started.fetched

end Machine

/-- An instruction has pushed bytes, the last one first. -/
structure Pushed (bytes : List UChar) (s t : Machine σ) : Prop where
  acon : t.acon = s.acon
  sp : t.sp = s.sp + BitVec.ofNat 8 bytes.length
  stacked : ∀ base acon content, Stacked base acon content s →
    base % 0x400 + (content.length + bytes.length) ≤ limit acon → Stacked base acon (bytes ++ content) t

/-- The tracker has got an operation that tells how the stack pointer went. -/
def Tracked (kind : StackOpKind) (s t : Machine σ) : Prop :=
  ∃ PC, t.stackOps = ⟨kind, PC, s.sp.toNat, t.sp.toNat⟩ :: s.stackOps

namespace Pushed

variable {s t u : Machine σ} {bytes bytes' : List UChar}

theorem after (hkeep : ∀ n, Keeps n s t) (h : Pushed bytes t u) : Pushed bytes s u where
  acon := h.acon.trans (hkeep 0).acon
  sp := h.sp.trans (congrArg (· + _) (Machine.sp_congr (hkeep 0).level))
  stacked base acon content hs := h.stacked base acon content (hs.keep (hkeep content.length))

theorem before (h : Pushed bytes s t) (hkeep : ∀ n, Keeps n t u) : Pushed bytes s u where
  acon := (hkeep 0).acon.trans h.acon
  sp := (Machine.sp_congr (hkeep 0).level).trans h.sp
  stacked base acon content hs hroom := (h.stacked base acon content hs hroom).keep (hkeep _)

theorem trans (h : Pushed bytes s t) (h' : Pushed bytes' t u) : Pushed (bytes' ++ bytes) s u := by
  refine ⟨h'.acon.trans h.acon, ?_, fun base acon content hs hroom => ?_⟩
  · rw [h'.sp, h.sp, List.length_append, Nat.add_comm, BitVec.ofNat_add, BitVec.add_assoc]
  rw [List.length_append] at hroom
  rw [List.append_assoc]
  refine h'.stacked _ _ _ (h.stacked _ _ _ hs (by omega)) ?_
  rw [List.length_append]
  omega

theorem push (s : Machine σ) (b : UChar) : Pushed [b] s (s.push b) :=
  ⟨(s.push_beside b).acon, s.push_sp b, fun _ _ _ hs hroom => hs.push hroom⟩

end Pushed

theorem direct_read_quiet (R : Rest σ) (cell : Direct) (s : Machine σ) : Quiet s ((cell.read R).run s).2 := by
  cases cell with
  | iram addr => exact ⟨rfl, rfl, rfl, rfl, rfl, rfl, rfl⟩
  | sfr addr =>
    refine ⟨?_, ?_, rfl, rfl, ?_, rfl, rfl⟩
    · exact R.read_keeps s.ticks addr s.sfr SP (.inl rfl)
    · exact R.read_keeps s.ticks addr s.sfr ESP (.inr (.inl rfl))
    · exact R.read_keeps s.ticks addr s.sfr ACON (.inr (.inr rfl))

theorem step_push (R : Rest σ) {s : Machine σ} (hcode : s.next = 0xc0) :
    Pushed [(s.pushes R).1] s (s.step R) ∧ Tracked (.push (tmem (s.pushes R).1)) s (s.step R) := by
  have hread : Quiet s (s.pushes R).2 :=
    (s.started_quiet.trans s.started.fetched_quiet).trans (direct_read_quiet R _ s.started.fetched)
  have hsp : s.started.fetched.sp = s.sp := (s.started_quiet.trans s.started.fetched_quiet).sp
  have hstep : s.step R = ((do
      stack_write (← stack_op (.push (tmem (s.pushes R).1)) s.started.fetched.sp)
      tick 1
      return .go : Prog σ Res).run ((s.pushes R).2.push (s.pushes R).1)).2 := by
    rw [Machine.step_eq hcode]
    rfl
  have hpushed := (Pushed.push (s.pushes R).2 (s.pushes R).1).after hread.keeps
  have hops := ((s.pushes R).2.push_beside (s.pushes R).1).stackOps.trans hread.beside.stackOps
  rw [hstep, hsp]
  constructor
  · exact hpushed.before (Keeps.of_cells rfl rfl rfl)
  · exact ⟨((s.pushes R).2.push (s.pushes R).1).instPC, congrArg _ hops⟩

/-- The bytes of a return address. -/
def returnBytes (acon : UChar) (addr : Nat) : List UChar :=
  if AM1 acon then [xByte addr, highByte addr, lowByte addr] else [highByte addr, lowByte addr]

theorem returnBytes_of_AM1 {acon : UChar} (h : AM1 acon = true) (addr : Nat) :
    returnBytes acon addr = [xByte addr, highByte addr, lowByte addr] := if_pos h

theorem returnBytes_of_not_AM1 {acon : UChar} (h : AM1 acon = false) (addr : Nat) :
    returnBytes acon addr = [highByte addr, lowByte addr] := if_neg (by simp [h])

theorem push_push (s : Machine σ) (b c : UChar) : Pushed [c, b] s ((s.push b).push c) :=
  (Pushed.push s b).trans (Pushed.push (s.push b) c)

/-- What the tracker is told about a call or an interrupt. -/
def callKind (addr : BitVec 16) (operand pushed : Nat) : StackOpKind :=
  if addr ≠ 0 then .intr addr.toNat pushed else .call operand pushed

theorem lcall_to_spec (addr : BitVec 16) (operand : Nat) (s : Machine σ) :
    Pushed (returnBytes s.acon s.PC) s ((lcall_to addr operand).run s).2 ∧
      if AM1 s.acon then ((lcall_to addr operand).run s).2.stackOps = s.stackOps
      else Tracked (callKind addr operand s.PC) s ((lcall_to addr operand).run s).2 := by
  have hbeside := ((s.push_beside (lowByte s.PC)).trans ((s.push (lowByte s.PC)).push_beside (highByte s.PC)))
  have htwo := push_push s (lowByte s.PC) (highByte s.PC)
  have hrun : ((lcall_to addr operand).run s).2 = ((do
      if AM1 ((s.push (lowByte s.PC)).push (highByte s.PC)).acon then
        push_byte (xByte s.PC)
        set_PC (if addr ≠ 0 then addr.toNat else operand)
      else if addr ≠ 0 then
        set_PC addr.toNat
        stack_write (← stack_op (.intr addr.toNat s.PC) s.sp)
      else
        set_PC operand
        stack_write (← stack_op (.call operand s.PC) s.sp)
      return .go : Prog σ Res).run ((s.push (lowByte s.PC)).push (highByte s.PC))).2 := rfl
  rw [hrun, hbeside.acon]
  cases hAM : AM1 s.acon with
  | true =>
    rw [if_pos rfl, if_pos rfl, returnBytes_of_AM1 hAM]
    have hthree := htwo.trans (Pushed.push ((s.push (lowByte s.PC)).push (highByte s.PC)) (xByte s.PC))
    constructor
    · exact hthree.before (Keeps.of_cells rfl rfl rfl)
    · exact (Machine.push_beside _ (xByte s.PC)).stackOps.trans hbeside.stackOps
  | false =>
    rw [returnBytes_of_not_AM1 hAM, callKind, if_neg Bool.false_ne_true, if_neg Bool.false_ne_true]
    by_cases haddr : addr ≠ 0
    · rw [if_pos haddr, if_pos haddr]
      exact ⟨htwo.before (Keeps.of_cells rfl rfl rfl), ⟨_, congrArg _ hbeside.stackOps⟩⟩
    · rw [if_neg haddr, if_neg haddr]
      exact ⟨htwo.before (Keeps.of_cells rfl rfl rfl), ⟨_, congrArg _ hbeside.stackOps⟩⟩

/-- Fetching the operand of a call. -/
theorem operand_spec (s : Machine σ) (n : Nat) (hPC : s.PC = (n + 1) % 0x20000) :
    Quiet s ((operand false).run s).2 ∧
      ((operand false).run s).2.PC = (n + if AM1 s.acon then 4 else 3) % 0x20000 := by
  have hrun : ((operand false).run s) = ((do
      let x ← if AM1 s.acon then fetch else pure 0
      let h ← fetch
      let l ← fetch
      return address x h l : Prog σ Nat).run s) := rfl
  rw [hrun]
  cases hAM : AM1 s.acon with
  | true =>
    refine ⟨(s.fetched_quiet.trans s.fetched.fetched_quiet).trans s.fetched.fetched.fetched_quiet, ?_⟩
    show s.fetched.fetched.fetched.PC = _
    rw [Machine.fetched_PC, Machine.fetched_PC, Machine.fetched_PC, hPC, if_pos rfl]
    omega
  | false =>
    refine ⟨s.fetched_quiet.trans s.fetched.fetched_quiet, ?_⟩
    show s.fetched.fetched.PC = _
    rw [Machine.fetched_PC, Machine.fetched_PC, hPC, if_neg Bool.false_ne_true]
    omega

theorem step_lcall (R : Rest σ) {s : Machine σ} (hcode : s.next = 0x12) {addr : Nat}
    (haddr : addr = (s.PC + if AM1 s.acon then 4 else 3) % 0x20000) :
    Pushed (returnBytes s.acon addr) s (s.step R) ∧
      if AM1 s.acon then (s.step R).stackOps = s.stackOps
      else ∃ called, Tracked (.call called addr) s (s.step R) := by
  obtain ⟨hquiet, hPC⟩ := operand_spec s.started s.PC s.started_PC
  have hq := s.started_quiet.trans hquiet
  rw [s.started_quiet.beside.acon, ← haddr] at hPC
  have hstep : s.step R =
      ((lcall_to 0 ((operand false).run s.started).1).run ((operand false).run s.started).2).2 := by
    rw [Machine.step_eq hcode]
    rfl
  obtain ⟨hpushed, hops⟩ := lcall_to_spec 0 ((operand false).run s.started).1 ((operand false).run s.started).2
  rw [hstep]
  rw [hPC, hq.beside.acon] at hpushed hops
  refine ⟨hpushed.after hq.keeps, ?_⟩
  split
  case isTrue hAM =>
    rw [if_pos hAM] at hops
    exact hops.trans hq.beside.stackOps
  case isFalse hAM =>
    rw [if_neg hAM] at hops
    obtain ⟨PC, hentry⟩ := hops
    rw [hq.sp, hq.beside.stackOps] at hentry
    exact ⟨_, PC, hentry⟩

/-- What `accept_it` does before the call. -/
def Machine.accepting (s : Machine σ) (il : ItLevel) : Machine σ :=
  { s.withSfr PCON (s.sfr.cell PCON &&& ~~~0x01) with
    state := .go
    itLevels := il :: s.itLevels
    ticks := s.ticks + 1 * 12
    instTicks := s.instTicks + 1 }

/-- An interrupt, whose service routine is not at address 0. -/
theorem accepted_spec {il : ItLevel} (hil : il.addr ≠ 0) (s : Machine σ) :
    Pushed (returnBytes s.acon s.PC) s (s.accepted il) ∧
      if AM1 s.acon then (s.accepted il).stackOps = s.stackOps
      else ∃ called, Tracked (.intr called s.PC) s (s.accepted il) := by
  have hstep : s.accepted il = ((lcall_to il.addr 0).run (s.accepting il)).2 := by
    have hrun : s.accepted il = ((if ((lcall_to il.addr 0).run (s.accepting il)).1 ≠ .go then
        pure ((lcall_to il.addr 0).run (s.accepting il)).1
      else pure .interrupt : Prog σ Res).run ((lcall_to il.addr 0).run (s.accepting il)).2).2 := rfl
    rw [hrun]
    split
    · rfl
    · rfl
  have hkeep : ∀ n, Keeps n s (s.accepting il) := fun n => ⟨rfl, rfl, fun _ _ _ => rfl⟩
  obtain ⟨hpushed, hops⟩ := lcall_to_spec il.addr 0 (s.accepting il)
  rw [callKind, if_pos hil] at hops
  rw [hstep]
  refine ⟨hpushed.after hkeep, ?_⟩
  split
  case isTrue hAM => exact (if_pos hAM ▸ hops :)
  case isFalse hAM =>
    have hentry : Tracked (.intr il.addr.toNat s.PC) (s.accepting il) ((lcall_to il.addr 0).run (s.accepting il)).2 :=
      (if_neg hAM ▸ hops :)
    exact ⟨_, hentry⟩

theorem push_three (s : Machine σ) (x h l : UChar) (addr : Nat) :
    ((do push_byte l; push_byte h; push_byte x; set_PC addr : Prog σ Unit).run s).2.stackOps = s.stackOps ∧
      Pushed [x, h, l] s ((do push_byte l; push_byte h; push_byte x; set_PC addr : Prog σ Unit).run s).2 := by
  have hrun : ((do push_byte l; push_byte h; push_byte x; set_PC addr : Prog σ Unit).run s).2 =
      { ((s.push l).push h).push x with PC := addr } := rfl
  have hbeside := ((s.push_beside l).trans ((s.push l).push_beside h)).trans (((s.push l).push h).push_beside x)
  have hthree := (push_push s l h).trans (Pushed.push ((s.push l).push h) x)
  rw [hrun]
  exact ⟨hbeside.stackOps, hthree.before (Keeps.of_cells rfl rfl rfl)⟩

theorem acall_flat_spec (code : UChar) (s : Machine σ) :
    ((acall_flat code).run s).2.stackOps = s.fetched.fetched.stackOps ∧
      Pushed [xByte s.fetched.fetched.PC, highByte s.fetched.fetched.PC, lowByte s.fetched.fetched.PC]
        s.fetched.fetched ((acall_flat code).run s).2 := by
  have hrun : ((acall_flat code).run s).2 = ((do
      push_byte (lowByte s.fetched.fetched.PC)
      push_byte (highByte s.fetched.fetched.PC)
      push_byte (xByte s.fetched.fetched.PC)
      set_PC ((s.fetched.fetched.PC &&& 0xf800) |||
        address ((code >>> 5) &&& 0x07) (fetch.run s).1 (fetch.run s.fetched).1) : Prog σ Unit).run
          s.fetched.fetched).2 := rfl
  rw [hrun]
  exact push_three _ _ _ _ _

theorem acall_stock_spec (code : UChar) (s : Machine σ) (hSA : SA s.fetched.acon = false) :
    Pushed [highByte s.fetched.PC, lowByte s.fetched.PC] s.fetched ((acall_stock code).run s).2 := by
  have hnext : SA (s.fetched.push (lowByte s.fetched.PC)).acon = false := by
    rw [(Machine.push_beside _ _).acon]
    exact hSA
  refine (push_push s.fetched _ _).before fun n => ?_
  rw [Machine.push_of_not_SA hnext, Machine.push_of_not_SA hSA]
  exact ⟨rfl, rfl, fun _ _ _ => rfl⟩

/-- `ACALL` does not tell the tracker. It uses the 8-bit stack if addresses have 16 bits. -/
theorem step_acall (R : Rest σ) {s : Machine σ} (hcode : s.next &&& 0x1f = 0x11) :
    (s.step R).stackOps = s.stackOps ∧ (s.step R).acon = s.acon ∧
      (AM1 s.acon = true ∨ SA s.acon = false → ∀ addr, addr = (s.PC + if AM1 s.acon then 3 else 2) % 0x20000 →
        Pushed (returnBytes s.acon addr) s (s.step R)) := by
  have hstep : s.step R = ((do
      if AM1 s.started.acon then acall_flat s.next else acall_stock s.next
      tick 1
      return .go : Prog σ Res).run s.started).2 := by
    rw [Machine.step_eq rfl, dispatch, if_pos hcode]
    rfl
  have hone := s.started_quiet.trans s.started.fetched_quiet
  have htwo := hone.trans s.started.fetched.fetched_quiet
  rw [hstep, s.started_quiet.beside.acon]
  cases hAM : AM1 s.acon with
  | true =>
    obtain ⟨hops, hpushed⟩ := acall_flat_spec s.next s.started
    refine ⟨hops.trans htwo.beside.stackOps, hpushed.acon.trans htwo.beside.acon, fun _ addr haddr => ?_⟩
    have hPC : s.started.fetched.fetched.PC = addr := by
      rw [haddr, Machine.fetched_PC, Machine.fetched_PC, s.started_PC, if_pos rfl]
      omega
    rw [hPC] at hpushed
    rw [returnBytes_of_AM1 hAM]
    exact (hpushed.after htwo.keeps).before (Keeps.of_cells rfl rfl rfl)
  | false =>
    refine ⟨hone.beside.stackOps, hone.beside.acon, fun hmode addr haddr => ?_⟩
    have hSA : SA s.acon = false := hmode.resolve_left Bool.false_ne_true
    have hpushed := acall_stock_spec s.next s.started (by rw [hone.beside.acon]; exact hSA)
    have hPC : s.started.fetched.PC = addr := by
      rw [haddr, Machine.fetched_PC, s.started_PC, if_neg Bool.false_ne_true]
      omega
    rw [hPC] at hpushed
    rw [returnBytes_of_not_AM1 hAM]
    exact (hpushed.after hone.keeps).before (Keeps.of_cells rfl rfl rfl)

/-! ## Reading back -/

theorem address_bytes {addr : Nat} (h : addr < 0x1000000) :
    address (xByte addr) (highByte addr) (lowByte addr) = addr := by
  rw [address, xByte, highByte, lowByte, BitVec.toNat_ofNat, BitVec.toNat_ofNat, BitVec.toNat_ofNat,
    Nat.shiftRight_eq_div_pow, Nat.shiftRight_eq_div_pow]
  omega

theorem address_lt (h l : UChar) : address 0 h l < 0x10000 := by
  have hh := h.isLt
  have hl := l.isLt
  show 0 * 256 * 256 + h.toNat * 256 + l.toNat < 0x10000
  omega

theorem address_high_low {addr : Nat} (h : addr < 0x10000) : address 0 (highByte addr) (lowByte addr) = addr := by
  have hx : xByte addr = 0 := by
    rw [xByte, Nat.shiftRight_eq_div_pow, Nat.div_eq_of_lt h]
    rfl
  rw [← hx]
  exact address_bytes (by omega)

/-- How many addresses the bytes of a return address can tell apart. -/
def addresses (acon : UChar) : Nat := if AM1 acon then 0x1000000 else 0x10000

/-- The bytes of an address are popped. -/
structure PopsPC (s t : Machine σ) : Prop where
  acon : t.acon = s.acon
  lt : AM1 s.acon = false → t.PC < 0x10000
  stacked : ∀ base acon content addr, Stacked base acon (returnBytes s.acon addr ++ content) s →
    Stacked base acon content t ∧ (addr < addresses s.acon → t.PC = addr)

theorem pop_PC_spec (s : Machine σ) : Machine.Beside s (pop_PC.run s).2 ∧ PopsPC s (pop_PC.run s).2 := by
  have hrun : (pop_PC.run s).2 = ((if AM1 s.acon then (do
        let x ← pop_byte
        let h ← pop_byte
        let l ← pop_byte
        tick 1
        tick 1
        set_PC (address x h l))
      else (do
        let h ← pop_byte
        let l ← pop_byte
        tick 1
        set_PC (address 0 h l)) : Prog σ Unit).run s).2 := rfl
  have hbeside := s.pop_beside.trans s.pop.pop_beside
  rw [hrun]
  cases hAM : AM1 s.acon with
  | true =>
    have hthree := hbeside.trans s.pop.pop.pop_beside
    have hflat : ¬true = false := by decide
    refine ⟨⟨hthree.acon, hthree.stackOps, hthree.errors⟩, hthree.acon, ?_, ?_⟩
    · exact fun h => absurd (hAM.symm.trans h) hflat
    intro base acon content addr hs
    rw [returnBytes_of_AM1 hAM] at hs
    have hx : Stacked base acon (xByte addr :: highByte addr :: lowByte addr :: content) s := hs
    refine ⟨hx.pop.pop.pop.keep ?_, fun haddr => ?_⟩
    · refine Keeps.of_cells ?_ ?_ ?_ _
      all_goals rfl
    · rw [addresses, if_pos hAM] at haddr
      show address s.top s.pop.top s.pop.pop.top = addr
      rw [hx.top, hx.pop.top, hx.pop.pop.top]
      exact address_bytes haddr
  | false =>
    have hlt := address_lt s.top s.pop.top
    refine ⟨⟨hbeside.acon, hbeside.stackOps, hbeside.errors⟩, hbeside.acon, fun _ => hlt, ?_⟩
    intro base acon content addr hs
    rw [returnBytes_of_not_AM1 hAM] at hs
    have hh : Stacked base acon (highByte addr :: lowByte addr :: content) s := hs
    refine ⟨hh.pop.pop.keep ?_, fun haddr => ?_⟩
    · refine Keeps.of_cells ?_ ?_ ?_ _
      all_goals rfl
    · rw [addresses, if_neg (by simp [hAM])] at haddr
      show address 0 s.top s.pop.top = addr
      rw [hh.top, hh.pop.top]
      exact address_high_low haddr

theorem PopsPC.after {s t u : Machine σ} (hquiet : Quiet s t) (h : PopsPC t u) : PopsPC s u where
  acon := h.acon.trans hquiet.beside.acon
  lt hAM := h.lt (hquiet.beside.acon ▸ hAM)
  stacked base acon content addr hs := by
    have hstacked := h.stacked base acon content addr
    rw [hquiet.beside.acon] at hstacked
    exact hstacked (hs.keep (hquiet.keeps _))

theorem PopsPC.before {s t u : Machine σ} (h : PopsPC s t) (hkeep : ∀ n, Keeps n t u) (hPC : u.PC = t.PC) :
    PopsPC s u where
  acon := (hkeep 0).acon.trans h.acon
  lt hAM := hPC ▸ h.lt hAM
  stacked base acon content addr hs := by
    obtain ⟨hstacked, hvalue⟩ := h.stacked base acon content addr hs
    exact ⟨hstacked.keep (hkeep _), fun haddr => hPC.trans (hvalue haddr)⟩

/-- The tracker has been read by an operation that tells how the stack pointer went. -/
def ReadBy (kind : StackOpKind) (s t : Machine σ) : Prop :=
  ∃ PC, t.stackOps = (StackOp.readFrom ⟨kind, PC, s.sp.toNat, t.sp.toNat⟩ s.stackOps).1 ∧
    t.trackerErrors = s.trackerErrors ++ (StackOp.readFrom ⟨kind, PC, s.sp.toNat, t.sp.toNat⟩ s.stackOps).2

theorem readFrom_errors (op : StackOp) (ops : List StackOp) :
    (op.readFrom ops).2.filter UcError.ofTracker = (op.readFrom ops).2 := by
  rw [List.filter_eq_self]
  intro e he
  unfold StackOp.readFrom at he
  split at he
  case isTrue => cases List.mem_singleton.mp he; rfl
  case isFalse =>
    split at he
    case h_1 => cases List.mem_singleton.mp he; rfl
    case h_2 top rest =>
      rcases List.mem_append.mp he with htop | hrest
      · rw [StackOp.unmatched] at htop
        split at htop
        · cases htop
        · cases List.mem_singleton.mp htop; rfl
      · unfold StackOp.inconsistent at hrest
        split at hrest
        · cases hrest
        · split at hrest
          · cases List.mem_singleton.mp hrest; rfl
          · cases hrest

theorem stack_read_readBy {s t : Machine σ} (kind : StackOpKind) (hops : t.stackOps = s.stackOps)
    (herrors : t.trackerErrors = s.trackerErrors) :
    ReadBy kind s ((do stack_read (← stack_op kind s.sp) : Prog σ Unit).run t).2 := by
  refine ⟨t.instPC, ?_, ?_⟩
  · rw [← hops]
    rfl
  · rw [← hops, ← herrors, ← readFrom_errors]
    exact List.filter_append _ _

theorem step_ret (R : Rest σ) {s : Machine σ} (hcode : s.next = 0x22) :
    PopsPC s (s.step R) ∧ ReadBy (.ret (s.step R).PC) s (s.step R) := by
  obtain ⟨hbeside, hpops⟩ := pop_PC_spec s.started
  have hstep : s.step R = ((do
      stack_read (← stack_op (.ret (pop_PC.run s.started).2.PC) s.started.sp) : Prog σ Unit).run
        (pop_PC.run s.started).2).2 := by
    rw [Machine.step_eq hcode]
    rfl
  have hPC : (s.step R).PC = (pop_PC.run s.started).2.PC := by
    rw [hstep]
    rfl
  have hread := stack_read_readBy (s := s) (.ret (pop_PC.run s.started).2.PC)
    (hbeside.stackOps.trans s.started_quiet.beside.stackOps) (hbeside.errors.trans s.started_quiet.beside.errors)
  rw [hPC, hstep, s.started_quiet.sp]
  refine ⟨(hpops.after s.started_quiet).before (Keeps.of_cells rfl rfl rfl) rfl, hread⟩

theorem step_reti (R : Rest σ) {s : Machine σ} (hcode : s.next = 0x32) :
    PopsPC s (s.step R) ∧ ReadBy (.iret (s.step R).PC) s (s.step R) := by
  obtain ⟨hbeside, hpops⟩ := pop_PC_spec s.started
  have hstep : s.step R = ((do
      stack_read (← stack_op (.iret (pop_PC.run s.started).2.PC) s.started.sp) : Prog σ Unit).run
        (leave_level.run (pop_PC.run s.started).2).2).2 := by
    rw [Machine.step_eq hcode]
    rfl
  have hPC : (s.step R).PC = (pop_PC.run s.started).2.PC := by
    rw [hstep]
    rfl
  have hread := stack_read_readBy (s := s) (t := (leave_level.run (pop_PC.run s.started).2).2)
    (.iret (pop_PC.run s.started).2.PC) (hbeside.stackOps.trans s.started_quiet.beside.stackOps)
    (hbeside.errors.trans s.started_quiet.beside.errors)
  rw [hPC, hstep, s.started_quiet.sp]
  refine ⟨(hpops.after s.started_quiet).before (Keeps.of_cells rfl rfl rfl) rfl, hread⟩

/-- What `POP` has popped, before it writes the byte to its cell. -/
def Machine.popped (s : Machine σ) : Machine σ := s.started.fetched.pop

/-- The byte that `POP` delivers. -/
def Machine.delivers (s : Machine σ) : UChar := s.started.fetched.top

theorem direct_write_ops (R : Rest σ) (val : UChar) (cell : Direct) (s : Machine σ) :
    ((cell.write R val).run s).2.stackOps = s.stackOps ∧
      ((cell.write R val).run s).2.trackerErrors = s.trackerErrors := by
  cases cell with
  | iram addr => exact ⟨rfl, rfl⟩
  | sfr addr => exact ⟨rfl, rfl⟩

theorem step_pop (R : Rest σ) {s : Machine σ} (hcode : s.next = 0xd0) :
    ReadBy (.pop (tmem s.delivers)) s (s.step R) := by
  have hquiet := s.started_quiet.trans s.started.fetched_quiet
  obtain ⟨hops, herrors⟩ := direct_write_ops R s.delivers (get_direct (fetch.run s.started).1) s.popped
  have hbeside := hquiet.beside.trans s.started.fetched.pop_beside
  have hstep : s.step R = ((do
      stack_read (← stack_op (.pop (tmem s.delivers)) s.started.sp)
      tick 1 : Prog σ Unit).run (((get_direct (fetch.run s.started).1).write R s.delivers).run s.popped).2).2 := by
    rw [Machine.step_eq hcode]
    rfl
  rw [hstep, s.started_quiet.sp]
  exact stack_read_readBy (s := s) (.pop (tmem s.delivers)) (hops.trans hbeside.stackOps)
    (herrors.trans hbeside.errors)

end Uc390

end Ucsim.S51
