import Mathlib.Tactic.FinCases
import Ucsim.Hc08.Addresses
import Ucsim.Logic.Bits

/-!
# Compare and branch

The flags that the comparisons of the HC08 leave, and what its conditional branches make of them.
-/

namespace Ucsim.Hc08

open Logic.Bits

/-! ## Flags -/

section Flags

variable (r : Regs) {f g : BitVec 8} (c : Bool)

theorem or_and_self (x f : BitVec 8) : (x ||| f) &&& f = f := by
  ext i hi
  simp only [BitVec.getElem_and, BitVec.getElem_or]
  cases x[i] <;> cases f[i] <;> rfl

theorem not_and_of_disjoint (h : f &&& g = 0) : ~~~f &&& g = g := by
  ext i hi
  have hbit : (f &&& g)[i] = (0 : BitVec 8)[i] := by rw [h]
  simp only [BitVec.getElem_and, BitVec.getElem_not, BitVec.getElem_zero, BitVec.ofNat_eq_ofNat] at hbit ⊢
  revert hbit
  cases f[i] <;> cases g[i] <;> decide

theorem has_assign_self (hf : f ≠ 0) : (r.FLAG_ASSIGN f c).has f = c := by
  unfold Regs.FLAG_ASSIGN Regs.has
  cases c with
  | true =>
    rw [if_pos rfl, or_and_self]
    exact decide_eq_true hf
  | false =>
    rw [if_neg Bool.false_ne_true, BitVec.and_assoc, BitVec.not_and_self, BitVec.ofNat_eq_ofNat,
      BitVec.and_zero]
    rfl

/-- Another flag is assigned. -/
theorem has_assign_other (h : f &&& g = 0) : (r.FLAG_ASSIGN f c).has g = r.has g := by
  unfold Regs.FLAG_ASSIGN Regs.has
  cases c with
  | true => rw [if_pos rfl, BitVec.and_or_distrib_right, h, BitVec.ofNat_eq_ofNat, BitVec.or_zero]
  | false => rw [if_neg Bool.false_ne_true, BitVec.and_assoc, not_and_of_disjoint h]

/-- `FLAG_NZ` assigns two flags. -/
theorem FLAG_NZ_eq (v : BitVec 8) :
    r.FLAG_NZ v = (r.FLAG_ASSIGN BIT_N (v &&& 0x80 ≠ 0)).FLAG_ASSIGN BIT_Z (v = 0) := by
  unfold Regs.FLAG_NZ Regs.FLAG_ASSIGN
  congr 1
  by_cases hn : v &&& 0x80 = 0 <;> by_cases hz : v = 0
  all_goals
    simp only [hn, hz, ne_eq, not_true_eq_false, not_false_eq_true, decide_true, decide_false, if_true, if_false,
      Bool.false_eq_true]
    ext i hi
    interval_cases i <;> simp [BIT_N, BIT_Z]

end Flags

/-! ## The difference of two operands -/

section Difference

variable {w : Nat} (a m : BitVec w)

/-- The difference of operands, as an `int`. -/
def difference : BitVec 32 := a.setWidth 32 - m.setWidth 32

theorem difference_toNat (hw : w = 8 ∨ w = 16) :
    (difference a m).toNat = if m.toNat ≤ a.toNat then a.toNat - m.toNat else 2 ^ 32 - (m.toNat - a.toNat) := by
  have ha := a.isLt
  have hm := m.isLt
  unfold difference
  rcases hw with rfl | rfl <;> rw [BitVec.toNat_sub, BitVec.toNat_setWidth, BitVec.toNat_setWidth] <;> split <;> omega

/-- The bit behind the operands is the borrow. -/
theorem difference_borrow (hw : w = 8 ∨ w = 16) : (difference a m).getLsbD w = decide (a < m) := by
  have ha := a.isLt
  have hm := m.isLt
  have hlt : a < m ↔ a.toNat < m.toNat := BitVec.lt_def
  unfold BitVec.getLsbD
  rw [Nat.testBit_eq_decide_div_mod_eq, difference_toNat a m hw, decide_eq_decide, hlt]
  rcases hw with rfl | rfl <;> split <;> omega

/-- The bits of the operands hold their difference. -/
theorem difference_setWidth (hw : w = 8 ∨ w = 16) : (difference a m).setWidth w = a - m := by
  have ha := a.isLt
  have hm := m.isLt
  apply BitVec.eq_of_toNat_eq
  rw [BitVec.toNat_setWidth, difference_toNat a m hw, BitVec.toNat_sub]
  rcases hw with rfl | rfl <;> split <;> omega

theorem difference_top (hw : w = 8 ∨ w = 16) : (difference a m).getLsbD (w - 1) = (a - m).msb := by
  rw [← difference_setWidth a m hw, BitVec.msb_eq_getLsbD_last, BitVec.getLsbD_setWidth]
  have hlt : w - 1 < w := by omega
  rw [decide_eq_true hlt, Bool.true_and]

/-- The bit from which V is taken. -/
theorem overflow_bit (hw : w = 8 ∨ w = 16) :
    (a.setWidth 32 ^^^ m.setWidth 32 ^^^ difference a m ^^^ (difference a m).sshiftRight 1).getLsbD (w - 1) =
      (a.msb ^^ m.msb ^^ (a - m).msb ^^ decide (a < m)) := by
  have hlt : decide (w - 1 < 32) = true := decide_eq_true (by omega)
  have hge : decide (32 ≤ w - 1) = false := decide_eq_false (by omega)
  have hin : 1 + (w - 1) < 32 := by omega
  have hnext : 1 + (w - 1) = w := by omega
  rw [BitVec.getLsbD_xor, BitVec.getLsbD_xor, BitVec.getLsbD_xor, BitVec.getLsbD_setWidth, BitVec.getLsbD_setWidth,
    difference_top a m hw, BitVec.getLsbD_sshiftRight, hlt, hge, if_pos hin, hnext, difference_borrow a m hw,
    BitVec.msb_eq_getLsbD_last (x := a), BitVec.msb_eq_getLsbD_last (x := m), Bool.true_and, Bool.true_and, Bool.not_false, Bool.true_and]

/-- N and V say how the operands compare as signed numbers. -/
theorem signs : ((a - m).msb ^^ (a.msb ^^ m.msb ^^ (a - m).msb ^^ decide (a < m))) = decide (a.toInt < m.toInt) := by
  have hslt : decide (a.toInt < m.toInt) = ((a.msb != m.msb) ^^ decide (a < m)) := BitVec.slt_eq_ult
  rw [hslt]
  generalize (a - m).msb = x, a.msb = y, m.msb = z, decide (a < m) = b
  revert x y z b
  decide

end Difference

/-- The flags say how two operands compare. -/
structure Compared (r : Regs) {w : Nat} (a m : BitVec w) : Prop where
  C : r.has BIT_C = decide (a < m)
  Z : r.has BIT_Z = decide (a = m)
  NV : (r.has BIT_N ^^ r.has BIT_V) = decide (a.toInt < m.toInt)

theorem Compared.congr {r t : Regs} {w : Nat} {a m : BitVec w} (h : Compared r a m) (hP : t.P = r.P) :
    Compared t a m := by
  have hhas (f : BitVec 8) : t.has f = r.has f := by
    unfold Regs.has
    rw [hP]
  exact ⟨(hhas _).trans h.C, (hhas _).trans h.Z, by rw [hhas, hhas, h.NV]⟩

/-- The flags of a difference. -/
theorem compared_of_flags {w : Nat} {a m : BitVec w} {r : Regs} (hC : r.has BIT_C = decide (a < m))
    (hZ : r.has BIT_Z = decide (a = m)) (hN : r.has BIT_N = (a - m).msb)
    (hV : r.has BIT_V = (a.msb ^^ m.msb ^^ (a - m).msb ^^ decide (a < m))) : Compared r a m :=
  ⟨hC, hZ, by rw [hN, hV, signs]⟩

theorem resultFlags_compared (a m : BitVec 8) (r : Regs) : Compared (resultFlags a m (int a - int m) r) a m := by
  have hw : 8 = 8 ∨ 8 = 16 := .inl rfl
  have hV : decide (0x80 &&& (int a ^^^ int m ^^^ difference a m ^^^ (difference a m).sshiftRight 1) ≠ 0) = _ :=
    (twoPow_and (k := 7) _ (by decide)).trans (overflow_bit a m hw)
  have hC : decide (0x100 &&& difference a m ≠ 0) = _ :=
    (twoPow_and (k := 8) _ (by decide)).trans (difference_borrow a m hw)
  have hN : decide (a - m &&& 0x80 ≠ 0) = (a - m).msb := and_twoPow (k := 7) (a - m) (by decide)
  have hflags : resultFlags a m (int a - int m) r =
      (((r.FLAG_ASSIGN BIT_N (a - m).msb).FLAG_ASSIGN BIT_Z (a = m)).FLAG_ASSIGN BIT_V
        (a.msb ^^ m.msb ^^ (a - m).msb ^^ decide (a < m))).FLAG_ASSIGN BIT_C (a < m) := by
    have hdiff : int a - int m = difference a m := rfl
    have hz : decide (a - m = 0) = decide (a = m) := decide_eq_decide.mpr sub_eq_zero
    unfold resultFlags
    rw [hdiff, FLAG_NZ_eq, difference_setWidth a m hw, hz, hV, hC, hN]
  rw [hflags]
  refine compared_of_flags ?_ ?_ ?_ ?_
  · rw [has_assign_self _ _ (by decide)]
  · rw [has_assign_other _ _ (by decide), has_assign_other _ _ (by decide), has_assign_self _ _ (by decide)]
  · rw [has_assign_other _ _ (by decide), has_assign_other _ _ (by decide), has_assign_other _ _ (by decide),
      has_assign_self _ _ (by decide)]
  · rw [has_assign_other _ _ (by decide), has_assign_self _ _ (by decide)]

theorem and_ffff_eq_zero (x : BitVec 32) : x &&& 0xffff = 0 ↔ x.setWidth 16 = 0 := by
  have hmod : x.toNat &&& 65535 = x.toNat % 2 ^ 16 := Nat.and_two_pow_sub_one_eq_mod x.toNat 16
  have hleft : x &&& 0xffff = 0 ↔ x.toNat % 2 ^ 16 = 0 := by
    rw [← hmod]
    exact BitVec.toNat_inj.symm
  have hright : x.setWidth 16 = 0 ↔ x.toNat % 2 ^ 16 = 0 := BitVec.toNat_inj.symm
  rw [hleft, hright]

theorem cphxFlags_compared (m : BitVec 16) (r : Regs) : Compared (cphxFlags m r) r.hx m := by
  have hw : 16 = 8 ∨ 16 = 16 := .inr rfl
  generalize ha : r.hx = a
  have hV : decide (0x8000 &&& (a.setWidth 32 ^^^ m.setWidth 32 ^^^ difference a m ^^^
      (difference a m).sshiftRight 1) ≠ 0) = _ := (twoPow_and (k := 15) _ (by decide)).trans (overflow_bit a m hw)
  have hC : decide (0x10000 &&& difference a m ≠ 0) = _ :=
    (twoPow_and (k := 16) _ (by decide)).trans (difference_borrow a m hw)
  have hN : decide (difference a m &&& 0x8000 ≠ 0) = (a - m).msb :=
    (and_twoPow (k := 15) _ (by decide)).trans (difference_top a m hw)
  have hZ : decide (difference a m &&& 0xffff = 0) = decide (a = m) := by
    rw [decide_eq_decide, and_ffff_eq_zero, difference_setWidth a m hw]
    exact sub_eq_zero
  have hflags : cphxFlags m r = (((r.FLAG_ASSIGN BIT_V (a.msb ^^ m.msb ^^ (a - m).msb ^^ decide (a < m))).FLAG_ASSIGN BIT_C
      (a < m)).FLAG_ASSIGN BIT_N (a - m).msb).FLAG_ASSIGN BIT_Z (a = m) := by
    have hdiff : a.setWidth 32 - m.setWidth 32 = difference a m := rfl
    unfold cphxFlags
    rw [ha]
    dsimp only
    rw [hdiff, hV, hC, hN, hZ]
  rw [hflags]
  refine compared_of_flags ?_ ?_ ?_ ?_
  · rw [has_assign_other _ _ (by decide), has_assign_other _ _ (by decide), has_assign_self _ _ (by decide)]
  · rw [has_assign_self _ _ (by decide)]
  · rw [has_assign_other _ _ (by decide), has_assign_self _ _ (by decide)]
  · rw [has_assign_other _ _ (by decide), has_assign_other _ _ (by decide), has_assign_other _ _ (by decide),
      has_assign_self _ _ (by decide)]

/-! ## The comparisons -/

variable {code : BitVec 8} {pre : Bool} {s : Machine}

/-- The operand of an instruction for A or X. -/
def operandByte (code : BitVec 8) (pre : Bool) (s : Machine) : BitVec 8 :=
  if high code = 0xa then s.nextByte 0 else s.byteAt (address code pre s)

/-- The opcodes of SUB, CMP and CPX. -/
def IsCompare (code : BitVec 8) (pre : Bool) : Prop :=
  low code ∈ [0x0, 0x1, 0x3] ∧ if pre then high code ∈ [0xd, 0xe] else high code ∈ [0xa, 0xb, 0xc, 0xd, 0xe, 0xf]

/-- The instruction at PC compares a register with an operand: SUB, CMP and CPX in all their addressing modes, and
the two of CPHX. -/
inductive Machine.Compares (s : Machine) : {w : Nat} → BitVec w → BitVec w → Prop
  | byte (hop : IsCompare s.opcode s.prefixed) :
      s.Compares (if low s.opcode = 0x3 then s.regs.X else s.regs.A) (operandByte s.opcode s.prefixed s.body)
  | immediate (hop : s.code = 0x65) : s.Compares s.regs.hx (s.body.nextByte 0 ++ s.body.nextByte 1)
  | direct (hop : s.code = 0x75) :
      s.Compares s.regs.hx (s.byteAt (s.body.nextByte 0).toNat ++ s.byteAt ((s.body.nextByte 0).toNat + 1))

theorem operation_regs (f : BitVec 8 → Regs → Regs) (code : BitVec 8) (pre : Bool) (s : Machine) :
    ((operation f code pre).run s).2.regs = f (operandByte code pre s) s.regs := by
  unfold operandByte
  by_cases h : high code = 0xa
  · rw [if_pos h, operation_run_imm f h]
  · rw [if_neg h, operation_run f h]

/-- The body of a comparison. -/
def compareInst (code : BitVec 8) : BitVec 8 → Bool → Prog Res :=
  if low code = 0x0 then inst_sub else if low code = 0x1 then inst_cmp else inst_cpx

theorem dispatch_compare (h : IsCompare code false) : dispatch code = compareInst code code false := by
  obtain ⟨hlow, hhigh⟩ := h
  have hdispatch : dispatch code = accumulatorCodes code := by
    unfold dispatch
    generalize high code = n at hhigh
    rw [if_neg Bool.false_ne_true] at hhigh
    fin_cases hhigh <;> rfl
  rw [hdispatch]
  unfold accumulatorCodes compareInst
  generalize low code = n at hlow
  fin_cases hlow <;> rfl

theorem prefixed_compare (h : IsCompare code true) : prefixedCodes code = compareInst code code true := by
  obtain ⟨hlow, hhigh⟩ := h
  unfold prefixedCodes compareInst
  generalize high code = n at hhigh
  generalize low code = k at hlow
  rw [if_pos rfl] at hhigh
  fin_cases hhigh <;> fin_cases hlow <;> rfl

theorem compareInst_compared (hlow : low code ∈ [0x0, 0x1, 0x3]) (pre : Bool) (s : Machine) :
    Compared ((compareInst code code pre).run s).2.regs (if low code = 0x3 then s.regs.X else s.regs.A)
        (operandByte code pre s) ∧
      ((compareInst code code pre).run s).2.regs.VECTOR = s.regs.VECTOR := by
  have hregs := fun f => operation_regs f code pre s
  unfold compareInst
  rcases List.mem_cons.mp hlow with h | h
  · rw [if_pos h, if_neg (by omega), inst_sub, hregs]
    exact ⟨(resultFlags_compared s.regs.A _ s.regs).congr rfl, rfl⟩
  rcases List.mem_pair.mp h with h | h
  · rw [if_neg (by omega), if_pos h, if_neg (by omega), inst_cmp, hregs]
    exact ⟨resultFlags_compared s.regs.A _ s.regs, rfl⟩
  · rw [if_neg (by omega), if_neg (by omega), if_pos h, inst_cpx, hregs]
    exact ⟨resultFlags_compared s.regs.X _ s.regs, rfl⟩

/-- What an instruction that compares leaves. -/
theorem compares_step (hV : s.regs.VECTOR = false) {w : Nat} {a m : BitVec w} (h : s.Compares a m) :
    Compared s.step.regs a m ∧ s.step.regs.VECTOR = false := by
  have hrun : s.step = ((dispatch s.code).run s.fetched).2 := congrArg Prod.snd (exec_inst_run hV)
  cases h with
  | byte hop =>
    have hbody : s.step = ((compareInst s.opcode s.opcode s.prefixed).run s.body).2 ∧ s.body.regs = s.regs := by
      unfold Machine.opcode Machine.body at *
      by_cases hcode : s.code = 0x9e
      · have hpre : s.prefixed = true := decide_eq_true hcode
        simp only [hpre, if_true] at hop ⊢
        refine ⟨?_, rfl⟩
        rw [hrun, hcode, ← prefixed_compare hop]
        rfl
      · have hpre : s.prefixed = false := decide_eq_false hcode
        simp only [hpre, Bool.false_eq_true, if_false] at hop ⊢
        refine ⟨?_, rfl⟩
        rw [hrun, dispatch_compare hop]
    obtain ⟨hcompared, hvector⟩ := compareInst_compared hop.1 s.prefixed s.body
    rw [hbody.1, ← hbody.2]
    exact ⟨hcompared, hvector.trans (hbody.2 ▸ hV)⟩
  | immediate hop =>
    have hbody : s.body = s.fetched := by
      unfold Machine.body Machine.prefixed
      rw [hop]
      rfl
    rw [hrun, hop, hbody]
    exact ⟨cphxFlags_compared _ s.regs, hV⟩
  | direct hop =>
    have hbody : s.body = s.fetched := by
      unfold Machine.body Machine.prefixed
      rw [hop]
      rfl
    rw [hrun, hop, hbody]
    exact ⟨cphxFlags_compared _ s.regs, hV⟩

/-! ## The branches -/

/-- BHI, BLS, BCC, BCS, BNE, BEQ, BGE, BLT, BGT and BLE. -/
def relationOps : List (BitVec 8) := [0x22, 0x23, 0x24, 0x25, 0x26, 0x27, 0x90, 0x91, 0x92, 0x93]

/-- The relation that a branch is to be taken for. -/
def relation (code : BitVec 8) {w : Nat} (a m : BitVec w) : Bool :=
  match code with
  | 0x22 => m < a
  | 0x23 => a ≤ m
  | 0x24 => m ≤ a
  | 0x25 => a < m
  | 0x26 => a ≠ m
  | 0x27 => a = m
  | 0x90 => m.toInt ≤ a.toInt
  | 0x91 => a.toInt < m.toInt
  | 0x92 => m.toInt < a.toInt
  | _ => a.toInt ≤ m.toInt

namespace Machine

/-- The address behind a branch of two bytes at PC. -/
def behind (s : Machine) : Int := advance 2 s.PC

/-- The displacement of a branch of two bytes at PC. -/
def offset (s : Machine) : Int := (s.skip.code).toInt

/-- The branch at PC is taken exactly if the relation holds, and goes on modulo 0x10000. -/
def BranchesOn (s : Machine) (rel : Bool) : Prop :=
  taken s.code s.regs = some rel ∧ s.step.PC = if rel then (s.behind + s.offset) % 0x10000 else s.behind

end Machine

/-- A branch decides its relation: not BHI and BLS below, and not BGT and BLE of equal operands. -/
def Decides (code : BitVec 8) {w : Nat} (a m : BitVec w) : Prop :=
  ¬(code ∈ [0x22, 0x23] ∧ a < m) ∧ ¬(code ∈ [0x92, 0x93] ∧ a = m)

/-- Operands as numbers. -/
theorem unsigned_cases {w : Nat} (a m : BitVec w) :
    (a < m ∧ a ≠ m ∧ ¬ m < a ∧ a ≤ m ∧ ¬ m ≤ a) ∨ (¬ a < m ∧ a = m ∧ ¬ m < a ∧ a ≤ m ∧ m ≤ a) ∨
      (¬ a < m ∧ a ≠ m ∧ m < a ∧ ¬ a ≤ m ∧ m ≤ a) := by
  have heq : a = m ↔ a.toNat = m.toNat := BitVec.toNat_inj.symm
  simp only [BitVec.lt_def, BitVec.le_def, ne_eq, heq]
  omega

/-- Operands as signed numbers. -/
theorem signed_cases {w : Nat} (a m : BitVec w) :
    (a.toInt < m.toInt ∧ a ≠ m ∧ ¬ m.toInt < a.toInt ∧ a.toInt ≤ m.toInt ∧ ¬ m.toInt ≤ a.toInt) ∨
      (¬ a.toInt < m.toInt ∧ a = m ∧ ¬ m.toInt < a.toInt ∧ a.toInt ≤ m.toInt ∧ m.toInt ≤ a.toInt) ∨
        (¬ a.toInt < m.toInt ∧ a ≠ m ∧ m.toInt < a.toInt ∧ ¬ a.toInt ≤ m.toInt ∧ m.toInt ≤ a.toInt) := by
  have heq : a = m ↔ a.toInt = m.toInt := BitVec.toInt_inj.symm
  simp only [ne_eq, heq]
  omega

theorem taken_iff_decides {r : Regs} {w : Nat} {a m : BitVec w} (h : Compared r a m) :
    ∀ code ∈ relationOps, taken code r = some (relation code a m) ↔ Decides code a m := by
  have hdecides (c : BitVec 8) (t : Bool) (ht : taken c r = some t)
      (hiff : t = relation c a m ↔ Decides c a m) : taken c r = some (relation c a m) ↔ Decides c a m := by
    rw [ht, Option.some.injEq]
    exact hiff
  refine List.forall_mem_cons.mpr ⟨?_, ?_⟩
  · refine hdecides _ (r.has BIT_C || !r.has BIT_Z) rfl ?_
    rw [h.C, h.Z]
    rcases unsigned_cases a m with hc | hc | hc <;> simp [relation, Decides, hc]
  refine List.forall_mem_cons.mpr ⟨?_, ?_⟩
  · refine hdecides _ (!(r.has BIT_C || !r.has BIT_Z)) rfl ?_
    rw [h.C, h.Z]
    rcases unsigned_cases a m with hc | hc | hc <;> simp [relation, Decides, hc]
  refine List.forall_mem_cons.mpr ⟨?_, ?_⟩
  · refine hdecides _ (!r.has BIT_C) rfl ?_
    rw [h.C]
    rcases unsigned_cases a m with hc | hc | hc <;> simp [relation, Decides, hc]
  refine List.forall_mem_cons.mpr ⟨?_, ?_⟩
  · refine hdecides _ (!!r.has BIT_C) rfl ?_
    rw [h.C]
    rcases unsigned_cases a m with hc | hc | hc <;> simp [relation, Decides, hc]
  refine List.forall_mem_cons.mpr ⟨?_, ?_⟩
  · refine hdecides _ (!r.has BIT_Z) rfl ?_
    rw [h.Z]
    rcases unsigned_cases a m with hc | hc | hc <;> simp [relation, Decides, hc]
  refine List.forall_mem_cons.mpr ⟨?_, ?_⟩
  · refine hdecides _ (!!r.has BIT_Z) rfl ?_
    rw [h.Z]
    rcases unsigned_cases a m with hc | hc | hc <;> simp [relation, Decides, hc]
  refine List.forall_mem_cons.mpr ⟨?_, ?_⟩
  · refine hdecides _ (!(r.has BIT_N ^^ r.has BIT_V)) rfl ?_
    rw [h.NV]
    rcases signed_cases a m with hc | hc | hc <;> simp [relation, Decides, hc]
  refine List.forall_mem_cons.mpr ⟨?_, ?_⟩
  · refine hdecides _ (!!(r.has BIT_N ^^ r.has BIT_V)) rfl ?_
    rw [h.NV]
    rcases signed_cases a m with hc | hc | hc <;> simp [relation, Decides, hc]
  refine List.forall_mem_cons.mpr ⟨?_, ?_⟩
  · refine hdecides _ (!(r.has BIT_N ^^ r.has BIT_V) || r.has BIT_Z) rfl ?_
    rw [h.NV, h.Z]
    rcases signed_cases a m with hc | hc | hc <;> simp [relation, Decides, hc]
  refine List.forall_mem_singleton.mpr ?_
  refine hdecides _ (!(!(r.has BIT_N ^^ r.has BIT_V) || r.has BIT_Z)) rfl ?_
  rw [h.NV, h.Z]
  rcases signed_cases a m with hc | hc | hc <;> simp [relation, Decides, hc]

theorem relationOps_kind : ∀ code ∈ relationOps, code ≠ 0x9e ∧ kind code = .branch 0 ∧
    (high code = 0x2 ∨ high code = 0x9 ∧ low code ≠ 0xb) := by
  decide

theorem branch_step (hV : s.regs.VECTOR = false) (hop : s.code ∈ relationOps) :
    s.step.PC = if taken s.code s.regs = some true then s.behind + s.offset else s.behind := by
  obtain ⟨hne, hkind, hhigh⟩ := relationOps_kind _ hop
  have hstep : s.step = ((dispatch s.code).run s.fetched).2 := congrArg Prod.snd (exec_inst_run hV)
  have hPC := (dispatch_follows hne s.fetched).PC
  rw [hkind, ← hstep] at hPC
  have htakes : takes s.code false s.fetched = decide (taken s.code s.regs = some true) := by
    unfold takes
    rcases hhigh with h | ⟨h, _⟩ <;> rw [h] <;> rfl
  have hofs : displacement s.code false s.fetched 0 = s.skip.code :=
    displacement_eq (fun h => hhigh.elim (fun h2 => h.2.2.1 h2) fun h9 => h9.2 h.1) 0
  rw [hPC, branchTo_eq htakes hofs]
  simp only [decide_eq_true_eq]
  rfl

theorem emod_eq_iff (x : Int) : x = x % 0x10000 ↔ InRange x := by
  unfold InRange
  omega

/-- After a comparison a branch is taken exactly if its relation holds, and goes on modulo 0x10000, if and only if it
decides its relation and its target, if it is to be taken, is in 0..0xFFFF. -/
theorem branch_correct_iff (hV : s.regs.VECTOR = false) {w : Nat} {a m : BitVec w} (hcmp : s.Compares a m)
    (hop : s.step.code ∈ relationOps) : s.step.BranchesOn (relation s.step.code a m) ↔
      Decides s.step.code a m ∧ (relation s.step.code a m → InRange (s.step.behind + s.step.offset)) := by
  obtain ⟨hcompared, hvector⟩ := compares_step hV hcmp
  unfold Machine.BranchesOn
  rw [← taken_iff_decides hcompared _ hop, branch_step hvector hop]
  refine and_congr_right fun htaken => ?_
  rw [htaken]
  cases relation s.step.code a m with
  | false => exact iff_of_true rfl nofun
  | true => exact (emod_eq_iff _).trans ⟨fun h _ => h, fun h => h rfl⟩

/-- `CMP #2` and `BHI` at 0x8000, with a value in A. -/
def compareTwo (A : BitVec 8) : Machine where
  regs := { A := A, P := 0x60, H := 0, X := 0, SP := 0xff, VECTOR := false }
  PC := 0x8000
  ram := fun addr => if addr = 0x8000 then 0xa1 else if addr = 0x8001 then 0x02 else if addr = 0x8002 then 0x22 else 0x05
  dummy := fun _ => 0
  ticks := 0
  out := []
  accesses := []

/-- `BHI` is taken for 3. -/
theorem branch_correct_three : (compareTwo 3).step.BranchesOn (relation 0x22 (3 : BitVec 8) 2) :=
  (branch_correct_iff (s := compareTwo 3) rfl (.byte ⟨by decide, by decide⟩) (by decide)).mpr
    ⟨⟨by decide, by decide⟩, fun _ => by decide⟩

/-- BHI is taken for 1 and 2. -/
theorem BHI_below : ¬ ∀ (s : Machine) (w : Nat) (a m : BitVec w), s.regs.VECTOR = false → s.Compares a m →
    s.step.code ∈ relationOps → s.step.BranchesOn (relation s.step.code a m) := by
  intro h
  have hbranches := h (compareTwo 1) 8 _ _ rfl (.byte ⟨by decide, by decide⟩) (by decide)
  exact absurd hbranches.1 (by decide)

end Ucsim.Hc08
