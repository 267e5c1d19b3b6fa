import Ucsim.Z80.Stack

/-!
# Block instructions

`LDIR`, `LDDR`, `CPIR` and `CPDR` beside the loops of `LDI`, `LDD`, `CPI` and `CPD` that they stand for. The copies are
these loops. The searches stop at the byte they look for, where the loops have gone one further.
-/

namespace Ucsim.Z80

/-! ## Loops of single instructions -/

/-- The instructions that are repeated. -/
inductive Single
  | LDI | LDD | CPI | CPD
  deriving DecidableEq, Repr

namespace Single

def code : Single → BitVec 8
  | .LDI => 0xA0
  | .CPI => 0xA1
  | .LDD => 0xA8
  | .CPD => 0xA9

/-- Whether A is compared with the byte at HL. -/
def Compares : Single → Prop
  | .LDI | .LDD => False
  | .CPI | .CPD => True

end Single

/-- The machine after the case of `inst_ed` for a code. -/
def Machine.ed (s : Machine) (code : BitVec 8) : Machine := ((switchGo edCases code).run s).2

/-- The instruction is the last one of its loop: it leaves BC at 0, or the byte that it compares equals A. -/
def Single.Ends (i : Single) (s : Machine) : Prop :=
  (s.ed i.code).regs.BC.word = 0 ∨ i.Compares ∧ s.ram s.regs.HL.word = s.regs.A

/-- The instruction is repeated up to the one that ends the loop. -/
inductive Repeated (i : Single) : Machine → Machine → Prop
  | last {s : Machine} (h : i.Ends s) : Repeated i s (s.ed i.code)
  | again {s t : Machine} (h : ¬ i.Ends s) (hrest : Repeated i (s.ed i.code) t) : Repeated i s t

/-- How often a loop runs that counts BC down to 0. -/
def rounds (w : BitVec 16) : Nat := if w = 0 then 0x10000 else w.toNat

theorem rounds_pos (w : BitVec 16) : 0 < rounds w := by
  unfold rounds
  split
  · decide
  · next h => bv_omega

theorem rounds_le (w : BitVec 16) : rounds w ≤ 0x10000 := by
  unfold rounds
  split <;> omega

theorem ofNat_rounds (w : BitVec 16) : BitVec.ofNat 16 (rounds w) = w := by
  unfold rounds
  split
  · next h => rw [h]; rfl
  · simp

/-- A loop that goes on has one round less ahead. -/
theorem rounds_pred {w : BitVec 16} (h : w - 1 ≠ 0) : rounds (w - 1) + 1 = rounds w := by
  unfold rounds
  rw [if_neg h]
  split
  · next hw => rw [hw]; rfl
  · bv_omega

theorem rounds_eq_one {w : BitVec 16} (h : w - 1 = 0) : rounds w = 1 := by
  have hw : w = 1 := by bv_omega
  rw [hw]
  rfl

/-! ## Copies -/

/-- The flags that a copy clears. -/
def Machine.cleared (s : Machine) : Machine :=
  { s with regs := { s.regs with F := s.regs.F &&& ~~~(BIT_P ||| BIT_N ||| BIT_A) } }

/-- One byte has been copied. -/
def Machine.moved (dir : BitVec 16) (s : Machine) : Machine := ((moveByte dir).run s).2

/-- P tells whether BC has reached 0. -/
def Machine.flagged (s : Machine) : Machine :=
  { s with regs := { s.regs with F := orIf (s.regs.BC.word ≠ 0) BIT_P s.regs.F } }

theorem ed_LDI (s : Machine) : s.ed Single.LDI.code = (s.cleared.moved 1).flagged := rfl

theorem ed_LDD (s : Machine) : s.ed Single.LDD.code = (s.cleared.moved (-1)).flagged := rfl

@[simp] theorem moved_BC (dir : BitVec 16) (s : Machine) :
    (s.moved dir).regs.BC.word = s.regs.BC.word - 1 := by
  rw [BitVec.sub_eq_add_neg]
  exact RegPair.word_ofWord _

theorem flagged_BC (s : Machine) : s.flagged.regs.BC = s.regs.BC := rfl

theorem cleared_BC (s : Machine) : s.cleared.regs.BC = s.regs.BC := rfl

theorem flagged_of_zero {s : Machine} (h : s.regs.BC.word = 0) : s.flagged = s := by
  have hF : orIf (s.regs.BC.word ≠ 0) BIT_P s.regs.F = s.regs.F := if_neg (not_not_intro h)
  unfold Machine.flagged
  rw [hF]

/-- Clearing the flags again removes what the copy has set. -/
theorem cleared_flagged (dir : BitVec 16) (s : Machine) :
    (s.cleared.moved dir).flagged.cleared = s.cleared.moved dir := by
  have hkept : ∀ F : BitVec 8, F &&& ~~~(BIT_P ||| BIT_N ||| BIT_A) &&& ~~~(BIT_P ||| BIT_N ||| BIT_A) =
      F &&& ~~~(BIT_P ||| BIT_N ||| BIT_A) := by decide
  have hset : ∀ F : BitVec 8, (F &&& ~~~(BIT_P ||| BIT_N ||| BIT_A) ||| BIT_P) &&& ~~~(BIT_P ||| BIT_N ||| BIT_A) =
      F &&& ~~~(BIT_P ||| BIT_N ||| BIT_A) := by decide
  have hF : orIf ((s.cleared.moved dir).regs.BC.word ≠ 0) BIT_P (s.cleared.moved dir).regs.F &&&
      ~~~(BIT_P ||| BIT_N ||| BIT_A) = (s.cleared.moved dir).regs.F := by
    unfold orIf
    split
    · exact hset s.regs.F
    · exact hkept s.regs.F
  have hcleared : (s.cleared.moved dir).flagged.cleared = { s.cleared.moved dir with
      regs := { (s.cleared.moved dir).regs with
        F := orIf ((s.cleared.moved dir).regs.BC.word ≠ 0) BIT_P (s.cleared.moved dir).regs.F &&&
          ~~~(BIT_P ||| BIT_N ||| BIT_A) } } := rfl
  rw [hcleared, hF]

theorem whileBC_succ (body : Prog Unit) (n : Nat) (s : Machine) :
    ((whileBC body (n + 1)).run s).2 = if (body.run s).2.regs.BC.word ≠ 0 then
      ((whileBC body n).run (body.run s).2).2 else (body.run s).2 := by
  have hrun : ((whileBC body (n + 1)).run s).2 =
      ((if (body.run s).2.regs.BC.word ≠ 0 then whileBC body n else pure ()).run (body.run s).2).2 := rfl
  rw [hrun]
  split <;> rfl

/-- The loop inside the instruction, without the flags, is the loop of the single instructions. The induction is on
the rounds, and the states agree after the flags have been cleared. -/
theorem whileBC_repeated {i : Single} {dir : BitVec 16} (hi : ∀ s : Machine, s.ed i.code = (s.cleared.moved dir).flagged)
    (hcopy : ¬ i.Compares) (n : Nat) (s : Machine) (hn : rounds s.regs.BC.word ≤ n) :
    Repeated i s ((whileBC (moveByte dir) n).run s.cleared).2 := by
  induction n generalizing s with
  | zero => exact absurd (rounds_pos s.regs.BC.word) (by omega)
  | succ n ih =>
    have hBC : (s.ed i.code).regs.BC.word = s.regs.BC.word - 1 := by
      rw [hi s, flagged_BC, moved_BC, cleared_BC]
    have hmoved : ((moveByte dir).run s.cleared).2 = s.cleared.moved dir := rfl
    rw [whileBC_succ, hmoved]
    by_cases hzero : s.regs.BC.word - 1 = 0
    · have hend : (s.cleared.moved dir).regs.BC.word = 0 := by
        rw [moved_BC, cleared_BC]
        exact hzero
      rw [if_neg (not_not_intro hend), ← flagged_of_zero hend, ← hi s]
      exact .last (.inl (hBC.trans hzero))
    · have hgo : (s.cleared.moved dir).regs.BC.word ≠ 0 := by
        rw [moved_BC, cleared_BC]
        exact hzero
      have hmore : ¬ i.Ends s := by
        rintro (hend | ⟨hcompares, _⟩)
        · exact hzero (hBC.symm.trans hend)
        · exact hcopy hcompares
      have hrest := ih (s.ed i.code) (by rw [hBC]; have := rounds_pred hzero; omega)
      rw [hi s, cleared_flagged] at hrest
      rw [if_pos hgo]
      refine .again hmore ?_
      rw [hi s]
      exact hrest

/-! ## Searches -/

/-- `k` bytes have been passed over. -/
def Machine.passes (dir : BitVec 16) (k : Nat) (s : Machine) : Machine :=
  { s with regs := { s.regs with
      HL := .ofWord (s.regs.HL.word + BitVec.ofNat 16 k * dir), BC := .ofWord (s.regs.BC.word - BitVec.ofNat 16 k) } }

def Machine.withF (s : Machine) (F : BitVec 8) : Machine := { s with regs := { s.regs with F := F } }

/-- The byte that is `k` steps away from HL. -/
def Machine.byteAt (dir : BitVec 16) (s : Machine) (k : Nat) : BitVec 8 :=
  s.ram (s.regs.HL.word + BitVec.ofNat 16 k * dir)

/-- A search compares `n` bytes with A: all but the last differ from it, and it ends with one that does not or with the
last that BC counts. -/
structure Searched (dir : BitVec 16) (s : Machine) (n : Nat) : Prop where
  pos : 0 < n
  le : n ≤ rounds s.regs.BC.word
  differ : ∀ k, k + 1 < n → s.byteAt dir k ≠ s.regs.A
  last : n = rounds s.regs.BC.word ∨ s.byteAt dir (n - 1) = s.regs.A

theorem mul_down (w : BitVec 16) : w * -1 = -w := by
  have hone : w * 1 = w := BitVec.mul_one w
  rw [BitVec.mul_neg, hone]

theorem Searched.unique {dir : BitVec 16} {s : Machine} {m n : Nat} (hm : Searched dir s m) (hn : Searched dir s n) :
    m = n := by
  rcases lt_trichotomy m n with hlt | heq | hgt
  · rcases hm.last with hend | hfound
    · have := hn.le
      omega
    · have := hm.pos
      exact absurd hfound (hn.differ (m - 1) (by omega))
  · exact heq
  · rcases hn.last with hend | hfound
    · have := hm.le
      omega
    · have := hn.pos
      exact absurd hfound (hm.differ (n - 1) (by omega))

section Passing

variable (dir : BitVec 16) (s : Machine)

@[simp] theorem passes_A (k : Nat) : (s.passes dir k).regs.A = s.regs.A := rfl

@[simp] theorem passes_ram (k : Nat) : (s.passes dir k).ram = s.ram := rfl

@[simp] theorem passes_HL (k : Nat) :
    (s.passes dir k).regs.HL.word = s.regs.HL.word + BitVec.ofNat 16 k * dir := RegPair.word_ofWord _

@[simp] theorem passes_BC (k : Nat) :
    (s.passes dir k).regs.BC.word = s.regs.BC.word - BitVec.ofNat 16 k := RegPair.word_ofWord _

@[simp] theorem withF_A (F : BitVec 8) : (s.withF F).regs.A = s.regs.A := rfl

@[simp] theorem withF_ram (F : BitVec 8) : (s.withF F).ram = s.ram := rfl

@[simp] theorem withF_HL (F : BitVec 8) : (s.withF F).regs.HL = s.regs.HL := rfl

@[simp] theorem withF_BC (F : BitVec 8) : (s.withF F).regs.BC = s.regs.BC := rfl

@[simp] theorem withF_F (F : BitVec 8) : (s.withF F).regs.F = F := rfl

@[simp] theorem withF_passes (F : BitVec 8) (k : Nat) : (s.withF F).passes dir k = (s.passes dir k).withF F := rfl

@[simp] theorem withF_withF (F G : BitVec 8) : (s.withF F).withF G = s.withF G := rfl

theorem passes_zero : s.passes dir 0 = s := by
  have hHL : RegPair.ofWord (s.regs.HL.word + BitVec.ofNat 16 0 * dir) = s.regs.HL := by simp
  have hBC : RegPair.ofWord (s.regs.BC.word - BitVec.ofNat 16 0) = s.regs.BC := by simp
  rw [Machine.passes, hHL, hBC]

theorem passes_passes (j k : Nat) : (s.passes dir j).passes dir k = s.passes dir (j + k) := by
  have hHL : s.regs.HL.word + BitVec.ofNat 16 j * dir + BitVec.ofNat 16 k * dir =
      s.regs.HL.word + BitVec.ofNat 16 (j + k) * dir := by
    rw [BitVec.ofNat_add, BitVec.add_mul, BitVec.add_assoc]
  have hBC : s.regs.BC.word - BitVec.ofNat 16 j - BitVec.ofNat 16 k = s.regs.BC.word - BitVec.ofNat 16 (j + k) := by
    rw [BitVec.ofNat_add, BitVec.sub_sub]
  unfold Machine.passes
  simp only [RegPair.word_ofWord, hHL, hBC]

theorem byteAt_passes (j k : Nat) : (s.passes dir j).byteAt dir k = s.byteAt dir (j + k) := by
  unfold Machine.byteAt
  rw [passes_ram, passes_HL, BitVec.ofNat_add, BitVec.add_mul, BitVec.add_assoc]

theorem byteAt_zero : s.byteAt dir 0 = s.ram s.regs.HL.word := by
  unfold Machine.byteAt
  simp

end Passing

theorem Searched.one {dir : BitVec 16} {s : Machine}
    (h : s.regs.BC.word - 1 = 0 ∨ s.ram s.regs.HL.word = s.regs.A) : Searched dir s 1 where
  pos := Nat.one_pos
  le := rounds_pos _
  differ k hk := absurd hk (by omega)
  last := h.imp (fun hzero => (rounds_eq_one hzero).symm) fun hfound => (byteAt_zero dir s).trans hfound

/-- The flags of the state do not matter for what a search compares. -/
theorem Searched.of_withF {dir : BitVec 16} {s : Machine} {F : BitVec 8} {n : Nat} (h : Searched dir (s.withF F) n) :
    Searched dir s n := ⟨h.pos, h.le, h.differ, h.last⟩

theorem Searched.succ {dir : BitVec 16} {s : Machine} {n : Nat} (h : Searched dir (s.passes dir 1) n)
    (hgo : s.regs.BC.word - 1 ≠ 0) (hdiffer : s.ram s.regs.HL.word ≠ s.regs.A) : Searched dir s (n + 1) := by
  have hrounds : rounds (s.passes dir 1).regs.BC.word + 1 = rounds s.regs.BC.word := by
    rw [passes_BC]
    exact rounds_pred hgo
  refine ⟨Nat.succ_pos n, ?_, ?_, ?_⟩
  · have := h.le
    omega
  · intro k hk
    cases k with
    | zero =>
      rw [byteAt_zero]
      exact hdiffer
    | succ k =>
      have hnext := h.differ k (by omega)
      rw [byteAt_passes, Nat.add_comm 1 k] at hnext
      exact hnext
  · refine h.last.imp (fun hend => by omega) fun hfound => ?_
    have hpos := h.pos
    have hindex : 1 + (n - 1) = n + 1 - 1 := by omega
    rw [byteAt_passes, hindex] at hfound
    exact hfound

/-- What a search inside the instruction leaves: the byte that was found is not passed. -/
def Machine.searched (dir : BitVec 16) (n : Nat) (s : Machine) : Machine :=
  if s.byteAt dir (n - 1) = s.regs.A then (s.passes dir (n - 1)).withF (s.regs.F ||| (BIT_Z ||| BIT_P))
  else s.passes dir n

theorem whileBCUnless_succ (dir : BitVec 16) (n : Nat) (s : Machine) :
    ((whileBCUnless (searchByte dir) (n + 1)).run s).2 =
      if s.regs.A = s.ram s.regs.HL.word then s.withF (s.regs.F ||| (BIT_Z ||| BIT_P))
      else if s.regs.BC.word - 1 ≠ 0 then ((whileBCUnless (searchByte dir) n).run (s.passes dir 1)).2
      else s.passes dir 1 := by
  have hone : BitVec.ofNat 16 1 * dir = dir := BitVec.one_mul dir
  have hpass : ((do step .HL dir; step .BC (-1) : Prog Unit).run s).2 = s.passes dir 1 := by
    have hrun : ((do step .HL dir; step .BC (-1) : Prog Unit).run s).2 = { s with regs := { s.regs with
        HL := .ofWord (s.regs.HL.word + dir), BC := .ofWord (s.regs.BC.word + -1) } } := rfl
    rw [hrun, Machine.passes, hone, ← BitVec.sub_eq_add_neg]
    rfl
  by_cases hfound : s.regs.A = s.ram s.regs.HL.word
  · have hsearch : (searchByte dir).run s = (true, s.withF (s.regs.F ||| (BIT_Z ||| BIT_P))) := by
      have hrun : (searchByte dir).run s = (if decide (s.regs.A = s.ram s.regs.HL.word) = true then
        (do setFlags (BIT_Z ||| BIT_P); return true : Prog Bool) else
        (do step .HL dir; step .BC (-1); return false : Prog Bool)).run s := rfl
      rw [hrun, if_pos (decide_eq_true hfound)]
      rfl
    have hloop : ((whileBCUnless (searchByte dir) (n + 1)).run s).2 =
        ((if ((searchByte dir).run s).1 = true then pure () else
          (do if (← word .BC) ≠ 0 then whileBCUnless (searchByte dir) n : Prog Unit)).run
            ((searchByte dir).run s).2).2 := rfl
    rw [hloop, hsearch, if_pos hfound]
    rfl
  · have hsearch : (searchByte dir).run s = (false, s.passes dir 1) := by
      have hrun : (searchByte dir).run s = (if decide (s.regs.A = s.ram s.regs.HL.word) = true then
        (do setFlags (BIT_Z ||| BIT_P); return true : Prog Bool) else
        (do step .HL dir; step .BC (-1); return false : Prog Bool)).run s := rfl
      rw [hrun, if_neg (by simpa using hfound), ← hpass]
      rfl
    have hloop : ((whileBCUnless (searchByte dir) (n + 1)).run s).2 =
        ((if ((searchByte dir).run s).1 = true then pure () else
          (do if (← word .BC) ≠ 0 then whileBCUnless (searchByte dir) n : Prog Unit)).run
            ((searchByte dir).run s).2).2 := rfl
    have htest : ((do if (← word .BC) ≠ 0 then whileBCUnless (searchByte dir) n : Prog Unit).run
        (s.passes dir 1)).2 = ((if (s.passes dir 1).regs.BC.word ≠ 0 then whileBCUnless (searchByte dir) n
          else pure ()).run (s.passes dir 1)).2 := rfl
    have hBC : (s.passes dir 1).regs.BC.word = s.regs.BC.word - 1 := passes_BC dir s 1
    rw [hloop, hsearch, if_neg hfound, if_neg Bool.false_ne_true, htest, hBC]
    split <;> rfl

/-- The search inside the instruction, by induction on the rounds. -/
theorem whileBCUnless_searched (dir : BitVec 16) (n : Nat) (s : Machine) (hn : rounds s.regs.BC.word ≤ n) :
    ∃ k, Searched dir s k ∧ ((whileBCUnless (searchByte dir) n).run s).2 = s.searched dir k := by
  induction n generalizing s with
  | zero => exact absurd (rounds_pos s.regs.BC.word) (by omega)
  | succ n ih =>
    rw [whileBCUnless_succ]
    by_cases hfound : s.regs.A = s.ram s.regs.HL.word
    · refine ⟨1, .one (.inr hfound.symm), ?_⟩
      rw [if_pos hfound, Machine.searched, byteAt_zero, if_pos hfound.symm, passes_zero]
    · rw [if_neg hfound]
      by_cases hzero : s.regs.BC.word - 1 = 0
      · refine ⟨1, .one (.inl hzero), ?_⟩
        rw [if_neg (not_not_intro hzero), Machine.searched, byteAt_zero, if_neg (Ne.symm hfound)]
      · have hrounds := rounds_pred hzero
        obtain ⟨k, hk, hrun⟩ := ih (s.passes dir 1) (by rw [passes_BC]; change rounds (s.regs.BC.word - 1) ≤ n; omega)
        have hpos := hk.pos
        have hindex : 1 + (k - 1) = k + 1 - 1 := by omega
        refine ⟨k + 1, hk.succ hzero (Ne.symm hfound), ?_⟩
        rw [if_pos hzero, hrun, Machine.searched, Machine.searched, byteAt_passes, passes_passes, passes_passes,
          hindex, Nat.add_comm 1 k]
        rfl

/-! ## The loops of single searches -/

theorem run_seq {α : Type} (f : Prog Unit) (g : Prog α) (s : Machine) :
    (do f; g : Prog α).run s = g.run (f.run s).2 := rfl

/-- The end of a single search. -/
theorem pass_run (s : Machine) : ((do step .HL 1; step .BC (-1); flagBC : Prog Unit).run s).2 =
    (s.passes 1 1).withF (orIf (s.regs.BC.word - 1 ≠ 0) BIT_P s.regs.F) := by
  have hrun : ∀ a b : BitVec 16, ((do step .HL a; step .BC b; flagBC : Prog Unit).run s).2 =
      { s with regs := { s.regs with
        HL := .ofWord (s.regs.HL.word + a), BC := .ofWord (s.regs.BC.word + b),
        F := orIf ((RegPair.ofWord (s.regs.BC.word + b)).word ≠ 0) BIT_P s.regs.F } } := fun _ _ => rfl
  have hone : BitVec.ofNat 16 1 * 1 = 1 := BitVec.mul_one _
  rw [hrun, ← BitVec.sub_eq_add_neg, RegPair.word_ofWord, Machine.passes, hone]
  rfl

/-- `CPI`. -/
theorem ed_CPI (s : Machine) : s.ed Single.CPI.code = (s.passes 1 1).withF
    (orIf (s.regs.BC.word - 1 ≠ 0) BIT_P (cp_bytereg (s.ram s.regs.HL.word) s.regs).F) := by
  have hrun : s.ed Single.CPI.code = ((do step .HL 1; step .BC (-1); flagBC : Prog Unit).run
      (s.withF (cp_bytereg (s.ram s.regs.HL.word) s.regs).F)).2 := rfl
  rw [hrun, pass_run]
  rfl

/-- `CPD`, which moves HL upwards. -/
theorem ed_CPD (s : Machine) : s.ed Single.CPD.code = (s.passes 1 1).withF
    (orIf (s.regs.BC.word - 1 ≠ 0) BIT_P (if s.regs.A = s.ram s.regs.HL.word
      then s.regs.F &&& ~~~BIT_ALL ||| (BIT_Z ||| BIT_P) else s.regs.F &&& ~~~BIT_ALL)) := by
  have hrun : s.ed Single.CPD.code = ((if decide (s.regs.A = s.ram s.regs.HL.word) = true then
      (do setFlags (BIT_Z ||| BIT_P); step .HL 1; step .BC (-1); flagBC : Prog Unit)
      else (do step .HL 1; step .BC (-1); flagBC : Prog Unit)).run (s.withF (s.regs.F &&& ~~~BIT_ALL))).2 := rfl
  rw [hrun]
  by_cases hfound : s.regs.A = s.ram s.regs.HL.word
  · rw [if_pos (decide_eq_true hfound), if_pos hfound, run_seq, pass_run]
    rfl
  · rw [if_neg (by simpa using hfound), if_neg hfound, pass_run]
    rfl

/-- A search that is repeated: it passes one byte, and no flag changes that it does not name. -/
def Single.Passes (i : Single) (dir : BitVec 16) : Prop :=
  i.Compares ∧ ∀ s : Machine, ∃ F, s.ed i.code = (s.passes dir 1).withF F ∧ F &&& ~~~BIT_ALL = s.regs.F &&& ~~~BIT_ALL

theorem orIf_kept {c : Prop} [Decidable c] {bits F : BitVec 8} (h : bits &&& ~~~BIT_ALL = 0) :
    orIf c bits F &&& ~~~BIT_ALL = F &&& ~~~BIT_ALL := by
  unfold orIf
  split
  · rw [BitVec.and_comm, BitVec.and_or_distrib_left, BitVec.and_comm (~~~BIT_ALL) bits, h]
    exact BitVec.or_zero.trans (BitVec.and_comm _ _)
  · rfl

theorem CPI_passes : Single.CPI.Passes 1 := by
  refine ⟨trivial, fun s => ⟨_, ed_CPI s, ?_⟩⟩
  have hclear : s.regs.F &&& ~~~BIT_ALL &&& ~~~BIT_ALL = s.regs.F &&& ~~~BIT_ALL := by
    rw [BitVec.and_assoc, BitVec.and_self]
  have hN : ∀ F : BitVec 8, (F ||| BIT_N) &&& ~~~BIT_ALL = F &&& ~~~BIT_ALL := by decide
  rw [orIf_kept (by decide)]
  change orZS _ _ &&& _ = _
  rw [orZS, orIf_kept (by decide), orIf_kept (by decide), hN, orIf_kept (by decide), hclear]

theorem CPD_passes : Single.CPD.Passes 1 := by
  refine ⟨trivial, fun s => ⟨_, ed_CPD s, ?_⟩⟩
  have hclear : ∀ F : BitVec 8, F &&& ~~~BIT_ALL &&& ~~~BIT_ALL = F &&& ~~~BIT_ALL := by decide
  have hset : ∀ F : BitVec 8, (F &&& ~~~BIT_ALL ||| (BIT_Z ||| BIT_P)) &&& ~~~BIT_ALL = F &&& ~~~BIT_ALL := by decide
  rw [orIf_kept (by decide)]
  split
  · exact hset _
  · exact hclear _

/-- The loop has compared as many bytes as a search, and its last instruction starts behind all but one of them. -/
theorem repeated_search {i : Single} {dir : BitVec 16} (hi : i.Passes dir) {s t : Machine} (h : Repeated i s t) :
    ∃ k F, Searched dir s (k + 1) ∧ F &&& ~~~BIT_ALL = s.regs.F &&& ~~~BIT_ALL ∧
      t = ((s.passes dir k).withF F).ed i.code := by
  induction h with
  | @last s hend =>
    obtain ⟨F, hstep, _⟩ := hi.2 s
    refine ⟨0, s.regs.F, .one ?_, rfl, ?_⟩
    · refine hend.imp (fun hzero => ?_) fun hfound => hfound.2
      have hBC : (s.ed i.code).regs.BC.word = s.regs.BC.word - 1 := by
        rw [hstep]
        exact passes_BC dir s 1
      exact hBC.symm.trans hzero
    · rw [passes_zero]
      rfl
  | @again s t hmore hrest ih =>
    obtain ⟨F, hstep, hF⟩ := hi.2 s
    have hBC : (s.ed i.code).regs.BC.word = s.regs.BC.word - 1 := by
      rw [hstep]
      exact passes_BC dir s 1
    have hgo : s.regs.BC.word - 1 ≠ 0 := fun hzero => hmore (.inl (hBC.trans hzero))
    have hdiffer : s.ram s.regs.HL.word ≠ s.regs.A := fun hfound => hmore (.inr ⟨hi.1, hfound⟩)
    obtain ⟨k, G, hsearch, hG, ht⟩ := ih
    rw [hstep] at hsearch hG ht
    rw [withF_passes, passes_passes, withF_withF, Nat.add_comm] at ht
    exact ⟨k + 1, G, hsearch.of_withF.succ hgo hdiffer, hG.trans hF, ht⟩

/-- Such a loop ends, by induction on the rounds. -/
theorem repeated_exists {i : Single} {dir : BitVec 16} (hi : i.Passes dir) (n : Nat) (s : Machine)
    (hn : rounds s.regs.BC.word ≤ n) : ∃ t, Repeated i s t := by
  induction n generalizing s with
  | zero => exact absurd (rounds_pos s.regs.BC.word) (by omega)
  | succ n ih =>
    by_cases hend : i.Ends s
    · exact ⟨_, .last hend⟩
    · obtain ⟨F, hstep, _⟩ := hi.2 s
      have hBC : (s.ed i.code).regs.BC.word = s.regs.BC.word - 1 := by
        rw [hstep]
        exact passes_BC dir s 1
      have hgo : s.regs.BC.word - 1 ≠ 0 := fun hzero => hend (.inl (hBC.trans hzero))
      have hrounds := rounds_pred hgo
      obtain ⟨t, ht⟩ := ih (s.ed i.code) (by rw [hBC]; omega)
      exact ⟨t, .again hend ht⟩

/-! ## The instructions -/

/-- The instructions that run a loop of their own, and `CPD`, which moves HL. -/
inductive BlockInst
  | LDIR | LDDR | CPIR | CPDR | CPD
  deriving DecidableEq, Repr

namespace BlockInst

def code : BlockInst → BitVec 8
  | .LDIR => 0xB0
  | .LDDR => 0xB8
  | .CPIR => 0xB1
  | .CPDR => 0xB9
  | .CPD => 0xA9

/-- What an instruction should lead to, from the state in which it has been fetched. The registers include the flags. -/
def Right : BlockInst → Machine → Machine → Prop
  | .LDIR, s, r => ∃ t, Repeated .LDI s t ∧ r.regs = t.regs ∧ r.ram = t.ram
  | .LDDR, s, r => ∃ t, Repeated .LDD s t ∧ r.regs = t.regs ∧ r.ram = t.ram
  | .CPIR, s, r => ∃ t, Repeated .CPI s t ∧ r.regs = t.regs ∧
      ∃ n, Searched 1 s n ∧ r.regs.HL.word = s.regs.HL.word + BitVec.ofNat 16 n
  | .CPDR, s, r => ∃ t, Repeated .CPD s t ∧ r.regs = t.regs ∧
      ∃ n, Searched (-1) s n ∧ r.regs.HL.word = s.regs.HL.word - BitVec.ofNat 16 n
  | .CPD, s, r => r.regs.HL.word = s.regs.HL.word - 1

/-- When an instruction leads there: a search downwards must miss its byte on both sides of HL, and end where the
loop that goes upwards does. -/
def Follows : BlockInst → Machine → Prop
  | .LDIR, _ | .LDDR, _ => True
  | .CPIR, _ | .CPD, _ => False
  | .CPDR, s => (s.regs.BC.word = 0 ∨ s.regs.BC.word = 0x8000) ∧
      ∀ k < rounds s.regs.BC.word, s.byteAt 1 k ≠ s.regs.A ∧ s.byteAt (-1) k ≠ s.regs.A

end BlockInst

/-- The case of `inst_ed` behind the prefix. -/
theorem step_ed {s : Machine} {code : BitVec 8} (h : s.At [0xED, code]) : s.step = s.skip.ticked.skip.ed code := by
  have hrun : s.step = ((switchGo edCases s.skip.next).run s.skip.ticked.skip).2 := step_eq h.1
  rw [hrun, h.2.1]
  rfl

theorem ed_eq (s : Machine) (code : BitVec 8) : s.ed code = ((switchGo edCases code).run s).2 := rfl

theorem loop_run (f : Regs → Regs) (body : Prog Unit) (n : Nat) (s : Machine) :
    ((go (do setRegs f; whileBC body n)).run s).2 = ((whileBC body n).run { s with regs := f s.regs }).2 := rfl

theorem ed_LDIR (s : Machine) :
    s.ed BlockInst.LDIR.code = ((whileBC (moveByte 1) 0x10000).run s.cleared).2 := by
  have hcase : switchGo edCases BlockInst.LDIR.code =
      go (do clearFlags (BIT_P ||| BIT_N ||| BIT_A); whileBC (moveByte 1) 0x10000) := rfl
  rw [ed_eq, hcase]
  exact loop_run _ _ _ s

theorem ed_LDDR (s : Machine) :
    s.ed BlockInst.LDDR.code = ((whileBC (moveByte (-1)) 0x10000).run s.cleared).2 := by
  have hcase : switchGo edCases BlockInst.LDDR.code =
      go (do clearFlags (BIT_P ||| BIT_N ||| BIT_A); whileBC (moveByte (-1)) 0x10000) := rfl
  rw [ed_eq, hcase]
  exact loop_run _ _ _ s

theorem ed_CPIR (s : Machine) : s.ed BlockInst.CPIR.code =
    ((whileBCUnless (searchByte 1) 0x10000).run (s.withF (s.regs.F &&& ~~~BIT_ALL ||| (BIT_N ||| BIT_P)))).2 := rfl

theorem ed_CPDR (s : Machine) : s.ed BlockInst.CPDR.code =
    ((whileBCUnless (searchByte (-1)) 0x10000).run (s.withF (s.regs.F &&& ~~~BIT_ALL))).2 := rfl

theorem orIf_P_iff {c : Prop} [Decidable c] {F : BitVec 8} (hF : F &&& BIT_P = 0) :
    orIf c BIT_P F &&& BIT_P ≠ 0 ↔ c := by
  have hset : ∀ F : BitVec 8, (F ||| BIT_P) &&& BIT_P ≠ 0 := by decide
  unfold orIf
  split
  · next h => exact iff_of_true (hset F) h
  · next h => exact iff_of_false (not_not_intro hF) h

/-- After `CPI` P tells whether bytes are left. -/
theorem ed_CPI_P (s : Machine) : (s.ed Single.CPI.code).regs.F &&& BIT_P ≠ 0 ↔ s.regs.BC.word - 1 ≠ 0 := by
  have hclear : ∀ F : BitVec 8, F &&& ~~~BIT_ALL &&& BIT_P = 0 := by decide
  have hor : ∀ F bits : BitVec 8, bits &&& BIT_P = 0 → F &&& BIT_P = 0 → (F ||| bits) &&& BIT_P = 0 := by
    intro F bits hbits hF
    rw [BitVec.and_comm, BitVec.and_or_distrib_left, BitVec.and_comm _ F, BitVec.and_comm _ bits, hF, hbits]
    rfl
  have horIf : ∀ (c : Prop) [Decidable c] (F bits : BitVec 8), bits &&& BIT_P = 0 → F &&& BIT_P = 0 →
      orIf c bits F &&& BIT_P = 0 := by
    intro c _ F bits hbits hF
    unfold orIf
    split
    · exact hor F bits hbits hF
    · exact hF
  rw [ed_CPI, withF_F]
  refine orIf_P_iff ?_
  refine horIf _ _ _ (by decide) (horIf _ _ _ (by decide) (hor _ _ (by decide) (horIf _ _ _ (by decide) (hclear _))))

/-- `CPIR` misses its loop for every memory: where it finds the byte HL stays on it, and where it does not P stays set. -/
theorem CPIR_differs {s t : Machine} (h : Repeated .CPI s t) : (s.ed BlockInst.CPIR.code).regs ≠ t.regs := by
  intro hregs
  obtain ⟨k, F, hloop, _, rfl⟩ := repeated_search CPI_passes h
  obtain ⟨n, hsearch, hrun⟩ := whileBCUnless_searched 1 0x10000
    (s.withF (s.regs.F &&& ~~~BIT_ALL ||| (BIT_N ||| BIT_P))) (rounds_le _)
  have hn : n = k + 1 := hsearch.of_withF.unique hloop
  subst hn
  rw [← ed_CPIR] at hrun
  have hstep : (((s.passes 1 k).withF F).ed Single.CPI.code).regs.HL.word = s.regs.HL.word + BitVec.ofNat 16 (k + 1) := by
    rw [ed_CPI, withF_passes, passes_passes]
    simp
  by_cases hfound : s.byteAt 1 k = s.regs.A
  · -- HL differs
    have hHL : (s.ed BlockInst.CPIR.code).regs.HL.word = s.regs.HL.word + BitVec.ofNat 16 k := by
      rw [hrun, Machine.searched]
      exact (congrArg (fun m : Machine => m.regs.HL.word) (if_pos hfound)).trans (by simp)
    rw [← hregs, hHL, BitVec.ofNat_add] at hstep
    bv_omega
  · -- P differs: the loop has counted BC down to 0
    have hend : k + 1 = rounds s.regs.BC.word := hloop.last.resolve_right hfound
    have hBC : ((s.passes 1 k).withF F).regs.BC.word - 1 = 0 := by
      have hw := ofNat_rounds s.regs.BC.word
      rw [← hend, BitVec.ofNat_add] at hw
      rw [withF_BC, passes_BC]
      bv_omega
    have hP : (((s.passes 1 k).withF F).ed Single.CPI.code).regs.F &&& BIT_P = 0 := by
      by_contra hset
      exact (ed_CPI_P _).mp hset hBC
    have hset : ∀ F : BitVec 8, (F &&& ~~~BIT_ALL ||| (BIT_N ||| BIT_P)) &&& BIT_P ≠ 0 := by decide
    refine hset s.regs.F ?_
    have hF : (s.ed BlockInst.CPIR.code).regs.F = s.regs.F &&& ~~~BIT_ALL ||| (BIT_N ||| BIT_P) := by
      rw [hrun, Machine.searched]
      exact (congrArg (fun m : Machine => m.regs.F) (if_neg hfound)).trans rfl
    rw [← hF, hregs]
    exact hP

/-- `CPDR` as a search: what it leaves when it finds its byte, and when it does not. -/
theorem CPDR_searched (s : Machine) : ∃ n, Searched (-1) s n ∧
    (s.byteAt (-1) (n - 1) = s.regs.A → (s.ed BlockInst.CPDR.code).regs.HL.word =
      s.regs.HL.word + BitVec.ofNat 16 (n - 1) * -1) ∧
    (s.byteAt (-1) (n - 1) ≠ s.regs.A →
      s.ed BlockInst.CPDR.code = (s.passes (-1) n).withF (s.regs.F &&& ~~~BIT_ALL)) := by
  obtain ⟨n, hsearch, hrun⟩ := whileBCUnless_searched (-1) 0x10000 (s.withF (s.regs.F &&& ~~~BIT_ALL)) (rounds_le _)
  rw [← ed_CPDR] at hrun
  refine ⟨n, hsearch.of_withF, fun hfound => ?_, fun hmissed => ?_⟩
  · rw [hrun, Machine.searched]
    exact (congrArg (fun m : Machine => m.regs.HL.word) (if_pos hfound)).trans (passes_HL _ _ _)
  · rw [hrun, Machine.searched]
    exact if_neg hmissed

/-- After the last `CPD` of a loop. -/
theorem ed_CPD_last {s : Machine} {k : Nat} {F : BitVec 8} (hend : k + 1 = rounds s.regs.BC.word)
    (hF : F &&& ~~~BIT_ALL = s.regs.F &&& ~~~BIT_ALL) :
    ((s.passes 1 k).withF F).ed Single.CPD.code = (s.passes 1 (k + 1)).withF (if s.byteAt 1 k = s.regs.A
      then s.regs.F &&& ~~~BIT_ALL ||| (BIT_Z ||| BIT_P) else s.regs.F &&& ~~~BIT_ALL) := by
  have hBC : ¬ ((s.passes 1 k).withF F).regs.BC.word - 1 ≠ 0 := by
    have hw := ofNat_rounds s.regs.BC.word
    rw [← hend, BitVec.ofNat_add] at hw
    rw [withF_BC, passes_BC]
    bv_omega
  have hbyte : ((s.passes 1 k).withF F).ram ((s.passes 1 k).withF F).regs.HL.word = s.byteAt 1 k := by
    rw [withF_ram, passes_ram, withF_HL, passes_HL, Machine.byteAt]
  rw [ed_CPD, withF_passes, withF_withF, passes_passes, hbyte, orIf, if_neg hBC, withF_A, passes_A, withF_F, hF]
  simp only [eq_comm]

theorem CPDR_right {s : Machine} (h : BlockInst.CPDR.Follows s) :
    BlockInst.CPDR.Right s (s.ed BlockInst.CPDR.code) := by
  obtain ⟨hcount, hmiss⟩ := h
  obtain ⟨n, hdown, _, hmissed⟩ := CPDR_searched s
  obtain ⟨t, ht⟩ := repeated_exists CPD_passes 0x10000 s (rounds_le _)
  obtain ⟨k, F, hup, hF, hlast⟩ := repeated_search CPD_passes ht
  have hn : n = rounds s.regs.BC.word := by
    refine hdown.last.resolve_right fun hfound => ?_
    have := hdown.pos
    have := hdown.le
    exact (hmiss (n - 1) (by omega)).2 hfound
  have hk : k + 1 = rounds s.regs.BC.word := by
    refine hup.last.resolve_right fun hfound => ?_
    have := hup.le
    exact (hmiss k (by omega)).1 hfound
  have hbefore : n - 1 < rounds s.regs.BC.word := by have := hdown.pos; omega
  have hr := hmissed (hmiss (n - 1) hbefore).2
  have hend : t = (s.passes 1 (k + 1)).withF (s.regs.F &&& ~~~BIT_ALL) := by
    rw [hlast, ed_CPD_last hk hF, if_neg (hmiss k (by omega)).1]
  have hturn : s.regs.BC.word * -1 = s.regs.BC.word * 1 := by
    rcases hcount with hzero | hhalf
    · rw [hzero]
      decide
    · rw [hhalf]
      decide
  have hpass : s.passes (-1) n = s.passes 1 (k + 1) := by
    unfold Machine.passes
    rw [hn, hk, ofNat_rounds, hturn]
  refine ⟨t, ht, ?_, n, hdown, ?_⟩
  · rw [hr, hend, hpass]
  · rw [hr, withF_HL, passes_HL, mul_down, ← BitVec.sub_eq_add_neg]

theorem CPDR_follows {s : Machine} (h : BlockInst.CPDR.Right s (s.ed BlockInst.CPDR.code)) :
    BlockInst.CPDR.Follows s := by
  obtain ⟨t, ht, hregs, m, hm, hstepped⟩ := h
  obtain ⟨n, hdown, hfinds, hmissed⟩ := CPDR_searched s
  obtain ⟨k, F, hup, hF, hlast⟩ := repeated_search CPD_passes ht
  have hmn : m = n := hm.unique hdown
  subst hmn
  -- a byte that is found is not passed
  have hmiss : s.byteAt (-1) (m - 1) ≠ s.regs.A := by
    intro hfound
    have hHL := hfinds hfound
    have hm1 : BitVec.ofNat 16 m = BitVec.ofNat 16 (m - 1) + BitVec.ofNat 16 1 := by
      rw [← BitVec.ofNat_add, Nat.sub_add_cancel hdown.pos]
    rw [hstepped, hm1, mul_down] at hHL
    bv_omega
  have hr := hmissed hmiss
  have hmend : m = rounds s.regs.BC.word := hdown.last.resolve_right hmiss
  have hpassed : t = (s.passes 1 (k + 1)).withF t.regs.F := by
    rw [hlast, ed_CPD, withF_passes, withF_withF, passes_passes]
    rfl
  -- both have counted BC down to 0
  have hBC : s.regs.BC.word - BitVec.ofNat 16 m = s.regs.BC.word - BitVec.ofNat 16 (k + 1) := by
    have hword := congrArg (fun r : Regs => r.BC.word) hregs
    rw [hr, hpassed] at hword
    simpa using hword
  have hk : k + 1 = rounds s.regs.BC.word := by
    have := hup.le
    have := rounds_le s.regs.BC.word
    have hw := ofNat_rounds s.regs.BC.word
    rw [hmend, hw] at hBC
    have hzero : s.regs.BC.word = BitVec.ofNat 16 (k + 1) := by bv_omega
    unfold rounds
    split <;> bv_omega
  have hend := ed_CPD_last hk hF
  rw [← hlast] at hend
  have hHL : s.regs.HL.word + s.regs.BC.word * -1 = s.regs.HL.word + s.regs.BC.word * 1 := by
    have hw := ofNat_rounds s.regs.BC.word
    have hword := congrArg (fun r : Regs => r.HL.word) hregs
    rw [hr, hpassed, withF_HL, withF_HL, passes_HL, passes_HL, hmend, hk, hw] at hword
    exact hword
  have hupmiss : s.byteAt 1 k ≠ s.regs.A := by
    intro hfound
    have hZ : ∀ F : BitVec 8, F &&& ~~~BIT_ALL ≠ F &&& ~~~BIT_ALL ||| (BIT_Z ||| BIT_P) := by decide
    rw [if_pos hfound] at hend
    have hflags := congrArg Regs.F hregs
    rw [hr, hend] at hflags
    exact hZ s.regs.F hflags
  refine ⟨?_, fun j hj => ⟨?_, ?_⟩⟩
  · have hup : s.regs.BC.word * 1 = s.regs.BC.word := BitVec.mul_one _
    rw [mul_down, hup] at hHL
    bv_omega
  · rcases Nat.lt_or_ge (j + 1) (k + 1) with hlt | hge
    · exact hup.differ j hlt
    · have hjk : j = k := by omega
      rw [hjk]
      exact hupmiss
  · rcases Nat.lt_or_ge (j + 1) m with hlt | hge
    · exact hdown.differ j hlt
    · have hjm : j = m - 1 := by omega
      rw [hjm]
      exact hmiss

/-- `CPD` steps to the wrong side. -/
theorem CPD_HL (s : Machine) : (s.ed BlockInst.CPD.code).regs.HL.word ≠ s.regs.HL.word - 1 := by
  have hHL : (s.ed BlockInst.CPD.code).regs.HL.word = s.regs.HL.word + 1 := by
    have hed : s.ed BlockInst.CPD.code = s.ed Single.CPD.code := rfl
    rw [hed, ed_CPD]
    simp
  rw [hHL]
  bv_omega

/-- Each instruction, in the state in which it has been fetched. -/
theorem ed_right_iff (i : BlockInst) (s : Machine) : i.Right s (s.ed i.code) ↔ i.Follows s := by
  cases i with
  | LDIR =>
    rw [ed_LDIR]
    exact iff_of_true ⟨_, whileBC_repeated ed_LDI id 0x10000 s (rounds_le _), rfl, rfl⟩ trivial
  | LDDR =>
    rw [ed_LDDR]
    exact iff_of_true ⟨_, whileBC_repeated ed_LDD id 0x10000 s (rounds_le _), rfl, rfl⟩ trivial
  | CPIR =>
    refine iff_of_false ?_ id
    rintro ⟨t, ht, hregs, _⟩
    exact CPIR_differs ht hregs
  | CPDR => exact ⟨CPDR_follows, CPDR_right⟩
  | CPD => exact iff_of_false (CPD_HL s) id

/-- The copies are the loops of their single instructions, from every state. `CPIR` and `CPD` never do what they should,
and `CPDR` does it when BC is 0 or 0x8000 and the byte is missing on both sides of HL. -/
theorem block_right_iff {i : BlockInst} {s : Machine} (h : s.At [0xED, i.code]) :
    i.Right s.skip.ticked.skip s.step ↔ i.Follows s := by
  rw [step_ed h, ed_right_iff]
  cases i <;> exact Iff.rfl

/-- Memory with a block instruction at 0 and nothing else. -/
def blockRam (i : BlockInst) (a : BitVec 16) : BitVec 8 := if a = 0 then 0xED else if a = 1 then i.code else 0

/-- `LDIR` is the loop of `LDI`. -/
theorem block_right_LDIR :
    BlockInst.LDIR.Right (Machine.start (blockRam .LDIR)).skip.ticked.skip (Machine.start (blockRam .LDIR)).step :=
  (block_right_iff ⟨rfl, rfl, trivial⟩).mpr trivial

/-- `CPIR` at the byte it looks for. -/
theorem CPIR_wrong :
    ¬ BlockInst.CPIR.Right (Machine.start (blockRam .CPIR)).skip.ticked.skip (Machine.start (blockRam .CPIR)).step := by
  have hstep : (Machine.start (blockRam .CPIR)).step = (Machine.start (blockRam .CPIR)).skip.ticked.skip.ed 0xB1 :=
    step_ed ⟨rfl, rfl, trivial⟩
  rintro ⟨t, ht, hregs, _⟩
  rw [hstep] at hregs
  exact CPIR_differs ht hregs

end Ucsim.Z80
