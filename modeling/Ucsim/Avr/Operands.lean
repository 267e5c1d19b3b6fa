import Mathlib.Data.List.Perm.Basic
import Mathlib.Tactic.IntervalCases
import Ucsim.Avr.Exec

/-!
# Operands

What the bodies of `exec_inst` take out of their words, beside what `disass` prints for the same words.
-/

namespace Ucsim.Avr

open Logic

/-! ## What the bodies depend on -/

/-- What an operand has from the word. -/
def Operand.word : Operand → BitVec 16
  | .reg n | .imm n | .bit n | .io n | .disp n | .data n => n
  | .target _ => 0

/-- Two codes with the same operands do the same. -/
def Determined (body : BitVec 16 → Inst) : Prop := ∀ code code',
  (∀ PC second, (body code).uses PC second = (body code').uses PC second) → (body code).run = (body code').run

theorem determined_const (i : Inst) : Determined fun _ => i := fun _ _ _ => rfl

theorem determined_inst1 {o : BitVec 16 → Operand} {f : BitVec 16 → BitVec 16} {body : BitVec 16 → Prog Unit}
    (ho : ∀ d, (o d).word = d) : Determined fun code => inst1 o (f code) body := by
  intro code code' h
  have hops : [f code] = [f code'] := by simpa [inst1, inst, ho] using congrArg (List.map Operand.word) (h 0 0)
  dsimp only
  rw [List.singleton_inj.mp hops]

theorem determined_inst2 {o p : BitVec 16 → Operand} {f g : BitVec 16 → BitVec 16}
    {body : BitVec 16 → BitVec 16 → Prog Unit} (ho : ∀ d, (o d).word = d) (hp : ∀ r, (p r).word = r) :
    Determined fun code => inst2 o p (f code) (g code) body := by
  intro code code' h
  have hops : f code = f code' ∧ g code = g code' := by
    simpa [inst2, inst, ho, hp] using congrArg (List.map Operand.word) (h 0 0)
  dsimp only
  rw [hops.1, hops.2]

/-- What an instruction takes from its word are its operands. -/
theorem uses_determine : ∀ p ∈ cases, Determined p.body := by
  simp only [cases, List.forall_mem_cons, List.not_mem_nil, false_imp_iff, implies_true, and_true]
  and_intros
  all_goals first
    | exact determined_const _
    | exact determined_inst1 fun _ => rfl
    | exact determined_inst2 (fun _ => rfl) fun _ => rfl
    | intro code code' h
  all_goals
    simp only [ori_Rd_K, andi_Rd_K, rjmp_k, rcall_k, jmp_k, call_k, std_Z_q_Rr, std_Y_q_Rr, std, lds_Rd_k, sts_k_Rr,
      brbs_s_k, brbc_s_k, branch, cpse_Rd_Rr, sbrc_Rr_b, sbrs_Rr_b, inst, List.cons.injEq, Operand.reg.injEq,
      Operand.imm.injEq, Operand.bit.injEq, Operand.disp.injEq, Operand.target.injEq, and_true, forall_and, forall_const] at h
    simp [ori_Rd_K, andi_Rd_K, rjmp_k, rcall_k, jmp_k, call_k, std_Z_q_Rr, std_Y_q_Rr, std, lds_Rd_k, sts_k_Rr,
      brbs_s_k, brbc_s_k, branch, cpse_Rd_Rr, sbrc_Rr_b, sbrs_Rr_b, inst, h]

/-! ## Agreement -/

/-- Targets count modulo the size of the program memory. -/
def Operand.modulo : Operand → Operand
  | .target k => .target (k % 0x10000)
  | o => o

/-- Two lists of operands, in any order. -/
def Same (used shown : List Operand) : Prop := (used.map Operand.modulo).Perm (shown.map Operand.modulo)

/-- The disassembler shows the operands of an instruction at an address. `second` and `second'` are what `fetch` and
`get_mem` read behind it. -/
def Shown (code second second' : BitVec 16) (addr : Int) (i : Inst) : Prop :=
  ∃ row, Pattern.find disass_avr code = some row ∧
    Same (i.uses (inc_address addr) second) (row.operands code second' addr)

/-- The codes of bodies that do nothing but return, `nop` and `wdr` apart. -/
def unimplemented : List (Pattern 16 Unit) :=
  [⟨0xffff, 0x9419, ()⟩, ⟨0xffff, 0x9519, ()⟩, ⟨0xffff, 0x95d8, ()⟩, ⟨0xffff, 0x95e8, ()⟩, ⟨0xffff, 0x95f8, ()⟩,
   ⟨0xff00, 0x0100, ()⟩, ⟨0xff00, 0x0200, ()⟩, ⟨0xff00, 0x0300, ()⟩, ⟨0xfe0f, 0x9004, ()⟩, ⟨0xfe0f, 0x9005, ()⟩,
   ⟨0xfe0f, 0x9006, ()⟩, ⟨0xfe0f, 0x9007, ()⟩]

/-- `CPI`, `SBCI`, `SUBI`, `ORI` and `ANDI`, and `SBIW` with a constant that it takes to be negative. -/
def misread : List (Pattern 16 Unit) :=
  [⟨0xf000, 0x3000, ()⟩, ⟨0xf000, 0x4000, ()⟩, ⟨0xf000, 0x5000, ()⟩, ⟨0xf000, 0x6000, ()⟩, ⟨0xf000, 0x7000, ()⟩,
   ⟨0xff80, 0x9780, ()⟩]

/-- `LDS`, `STS`, `JMP` and `CALL`. -/
def twoWords : List (Pattern 16 Unit) :=
  [⟨0xfe0f, 0x9000, ()⟩, ⟨0xfe0f, 0x9200, ()⟩, ⟨0xfe0e, 0x940c, ()⟩, ⟨0xfe0e, 0x940e, ()⟩]

/-- The operands agree unless they are misread, or the second word is not the same. -/
def Agrees (code : BitVec 16) (i : Inst) : Prop :=
  ∀ second second' addr, Shown code second second' addr i ↔
    Pattern.find misread code = none ∧ (Pattern.find twoWords code ≠ none → second = second')

section Rows

variable {code mask value : BitVec 16} {i : Inst} {row : Pattern 16 DisEntry} {rest : List (Pattern 16 DisEntry)}

/-- An instruction with a row of its own. -/
theorem agrees_of_row (hcode : code &&& mask = value)
    (hfirst : disass_avr.filter (Pattern.meets mask value) = row :: rest) (hcovers : row.Covers mask value)
    (hread : misread.filter (Pattern.meets mask value) = []) (hword : twoWords.filter (Pattern.meets mask value) = [])
    (hsame : ∀ second second' addr, Same (i.uses (inc_address addr) second) (row.body.operands code second' addr)) :
    Agrees code i := fun second second' addr =>
  iff_of_true ⟨row.body, Pattern.find_of_first hcode hfirst hcovers, hsame second second' addr⟩
    ⟨Pattern.find_none_of_filter hcode hread, fun h => absurd (Pattern.find_none_of_filter hcode hword) h⟩

/-- An instruction in one word that is never misread. -/
theorem agrees_of_shown (hcode : code &&& mask = value) (hread : misread.filter (Pattern.meets mask value) = [])
    (hword : twoWords.filter (Pattern.meets mask value) = []) (hshown : ∀ second second' addr, Shown code second second' addr i) :
    Agrees code i := fun second second' addr =>
  iff_of_true (hshown second second' addr)
    ⟨Pattern.find_none_of_filter hcode hread, fun h => absurd (Pattern.find_none_of_filter hcode hword) h⟩

theorem shown_iff (hcode : code &&& mask = value) (hfirst : disass_avr.filter (Pattern.meets mask value) = row :: rest)
    (hcovers : row.Covers mask value) (second second' : BitVec 16) (addr : Int) : Shown code second second' addr i ↔
      Same (i.uses (inc_address addr) second) (row.body.operands code second' addr) := by
  unfold Shown
  rw [Pattern.find_of_first hcode hfirst hcovers]
  exact ⟨fun ⟨_, hrow, hsame⟩ => Option.some.inj hrow ▸ hsame, fun hsame => ⟨_, rfl, hsame⟩⟩

/-- An instruction that never has the operands that are shown. -/
theorem agrees_of_misread {q : Pattern 16 Unit} (hcode : code &&& mask = value)
    (hfirst : disass_avr.filter (Pattern.meets mask value) = row :: rest) (hcovers : row.Covers mask value)
    (hq : q ∈ misread) (hread : q.Covers mask value)
    (hdiffer : ∀ second second' addr, ¬ Same (i.uses (inc_address addr) second) (row.body.operands code second' addr)) :
    Agrees code i := by
  intro second second' addr
  rw [shown_iff hcode hfirst hcovers]
  exact iff_of_false (hdiffer second second' addr) fun hagree =>
    Pattern.find_isSome_of_mem hq (Pattern.fits_of_covers hcode hread) hagree.1

/-- An instruction in two words. -/
theorem agrees_of_twoWords {q : Pattern 16 Unit} (hcode : code &&& mask = value)
    (hfirst : disass_avr.filter (Pattern.meets mask value) = row :: rest) (hcovers : row.Covers mask value)
    (hread : misread.filter (Pattern.meets mask value) = []) (hq : q ∈ twoWords) (hword : q.Covers mask value)
    (hsame : ∀ second second' addr,
      Same (i.uses (inc_address addr) second) (row.body.operands code second' addr) ↔ second = second') :
    Agrees code i := by
  intro second second' addr
  rw [shown_iff hcode hfirst hcovers, hsame]
  have htwo := Pattern.find_isSome_of_mem hq (Pattern.fits_of_covers hcode hword)
  exact ⟨fun heq => ⟨Pattern.find_none_of_filter hcode hread, fun _ => heq⟩, fun h => h.2 htwo⟩

end Rows

/-! ## Targets -/

theorem validate_address_emod (addr : Int) : validate_address addr % 0x10000 = addr % 0x10000 := by
  unfold validate_address
  dsimp only
  split_ifs <;> omega

theorem inc_address_emod (addr : Int) : inc_address addr % 0x10000 = (addr + 1) % 0x10000 := by
  have hsum := Int.mul_tdiv_add_tmod (addr + 1) 0x10000
  unfold inc_address
  omega

theorem target12_modulo (code : BitVec 16) (addr : Int) :
    (Operand.target (target12 (inc_address addr) code)).modulo =
      (Operand.target (validate_address (signedFrom 0x800 (code &&& 0xfff) + 1 + addr))).modulo := by
  have hinc := inc_address_emod addr
  unfold Operand.modulo target12
  dsimp only
  rw [validate_address_emod, validate_address_emod, Int.add_emod, hinc, ← Int.add_emod]
  congr 2
  omega

theorem target7_modulo (code : BitVec 16) (addr : Int) :
    (Operand.target (target7 (inc_address addr) code)).modulo =
      (Operand.target (signedFrom 0x40 (bits code 0x3f8 3) + 1 + addr)).modulo := by
  have hinc := inc_address_emod addr
  unfold Operand.modulo target7
  dsimp only
  rw [validate_address_emod, Int.add_emod, hinc, ← Int.add_emod]
  congr 2
  omega

theorem target22_modulo (code second second' : BitVec 16) : (Operand.target (target22 code second)).modulo =
    (Operand.target ((k6 code).toNat * 0x10000 + second'.toNat)).modulo ↔ second = second' := by
  have hlt := second.isLt
  have hlt' := second'.isLt
  unfold Operand.modulo target22
  dsimp only
  rw [Operand.target.injEq, validate_address_emod]
  constructor
  · intro heq
    exact BitVec.eq_of_toNat_eq (by omega)
  · rintro rfl
    rfl

/-! ## Instructions whose fields are computed in another way -/

theorem ldi_agrees {code : BitVec 16} (h : code &&& 0xf000 = 0xe000) : Agrees code (ldi_Rd_K code) := by
  refine agrees_of_row h rfl (by decide) rfl rfl fun _ _ _ => ?_
  have hsum : d4 code + 16 = 16 + bits code 0xf0 4 := BitVec.add_comm _ _
  change Same [.reg (d4 code + 16), .imm (K8 code)] _
  rw [hsum]
  exact .refl _

theorem mul_agrees {code : BitVec 16} (h : code &&& 0xfc00 = 0x9c00) : Agrees code (mul_Rd_Rr code) := by
  refine agrees_of_row h rfl (by decide) rfl rfl fun _ _ _ => ?_
  have hfield : code >>> 4 &&& 0x1f = bits code 0x1f0 4 := by
    unfold bits
    rw [BitVec.ushiftRight_and_distrib]
    rfl
  change Same [.reg (code >>> 4 &&& 0x1f), .reg (r5 code)] _
  rw [hfield]
  exact .refl _

theorem rjmp_agrees {code : BitVec 16} (h : code &&& 0xf000 = 0xc000) : Agrees code (rjmp_k code) :=
  agrees_of_row h rfl (by decide) rfl rfl fun _ _ addr => .of_eq (congrArg (fun o => [o]) (target12_modulo code addr))

theorem rcall_agrees {code : BitVec 16} (h : code &&& 0xf000 = 0xd000) : Agrees code (rcall_k code) :=
  agrees_of_row h rfl (by decide) rfl rfl fun _ _ addr => .of_eq (congrArg (fun o => [o]) (target12_modulo code addr))

/-- The sum is shifted with the 16 in it. -/
theorem dSum_ne (code : BitVec 16) : dSum code ≠ 16 + bits code 0xf0 4 := by
  have hand : (code &&& 0xf0).toNat ≤ 0xf0 := by
    rw [BitVec.toNat_and]
    exact Nat.and_le_right
  unfold dSum bits
  generalize code &&& 0xf0 = x at hand ⊢
  bv_omega

/-- `CPI`, `SBCI` and `SUBI` use the wrong register. -/
theorem dSum_differs (code K K' : BitVec 16) :
    ¬ Same [.reg (dSum code), .imm K] [.reg (16 + bits code 0xf0 4), .imm K'] := by
  intro hsame
  have hmem : Operand.reg (dSum code) ∈ [Operand.reg (16 + bits code 0xf0 4), Operand.imm K'] :=
    hsame.subset (List.mem_cons_self (a := Operand.reg (dSum code)))
  rcases List.mem_pair.mp hmem with h | h
  · exact dSum_ne code (Operand.reg.inj h)
  · exact nomatch h

theorem cpi_agrees {code : BitVec 16} (h : code &&& 0xf000 = 0x3000) : Agrees code (cpi_Rd_K code) :=
  agrees_of_misread (q := ⟨0xf000, 0x3000, ()⟩) h rfl (by decide) (by decide) (by decide) fun _ _ _ =>
    dSum_differs code _ _

theorem sbci_agrees {code : BitVec 16} (h : code &&& 0xf000 = 0x4000) : Agrees code (sbci_Rd_K code) :=
  agrees_of_misread (q := ⟨0xf000, 0x4000, ()⟩) h rfl (by decide) (by decide) (by decide) fun _ _ _ =>
    dSum_differs code _ _

theorem subi_agrees {code : BitVec 16} (h : code &&& 0xf000 = 0x5000) : Agrees code (subi_Rd_K code) :=
  agrees_of_misread (q := ⟨0xf000, 0x5000, ()⟩) h rfl (by decide) (by decide) (by decide) fun _ _ _ =>
    dSum_differs code _ _

/-- `ORI` and `ANDI` use two registers. -/
theorem ori_agrees {code : BitVec 16} (h : code &&& 0xf000 = 0x6000) : Agrees code (ori_Rd_K code) :=
  agrees_of_misread (q := ⟨0xf000, 0x6000, ()⟩) h rfl (by decide) (by decide) (by decide) fun _ _ _ hsame =>
    nomatch hsame.length_eq

theorem andi_agrees {code : BitVec 16} (h : code &&& 0xf000 = 0x7000) : Agrees code (andi_Rd_K code) :=
  agrees_of_misread (q := ⟨0xf000, 0x7000, ()⟩) h rfl (by decide) (by decide) (by decide) fun _ _ _ hsame =>
    nomatch hsame.length_eq

theorem same_right_iff (o : Operand) {a b : Operand} : Same [o, a] [o, b] ↔ a.modulo = b.modulo :=
  (List.perm_cons o.modulo).trans List.singleton_perm_singleton

theorem same_left_iff (o : Operand) {a b : Operand} : Same [a, o] [b, o] ↔ a.modulo = b.modulo :=
  (List.perm_append_right_iff [o.modulo]).trans List.singleton_perm_singleton

theorem same_single_iff {a b : Operand} : Same [a] [b] ↔ a.modulo = b.modulo := List.singleton_perm_singleton

/-- The sign that `SBIW` takes its constant to have. -/
theorem K6_sign (code : BitVec 16) : K6 code &&& 0x20 = if code.getLsbD 7 then 0x20 else 0 := by
  have hbit : (K6 code).getLsbD 5 = code.getLsbD 7 := by
    unfold K6 bits
    simp only [BitVec.getLsbD_or, BitVec.getLsbD_ushiftRight, BitVec.getLsbD_and]
    have hin : (0xc0 : BitVec 16).getLsbD (2 + 5) = true := by decide
    have hout : (0xf : BitVec 16).getLsbD 5 = false := by decide
    rw [hin, hout, Bool.and_true, Bool.and_false, Bool.or_false]
  rw [← hbit]
  exact BitVec.and_twoPow _ 5

theorem misread_sbiw {code : BitVec 16} (h : code &&& 0xff00 = 0x9700) :
    Pattern.find misread code = none ↔ code.getLsbD 7 = false := by
  have hfilter : Pattern.find misread code = Pattern.find [⟨0xff80, 0x9780, ()⟩] code := Pattern.find_filter h
  have hbits : code &&& 0xff80 = 0x9700 ||| if code.getLsbD 7 then 0x80 else 0 := by
    have hor : (0xff80 : BitVec 16) = 0xff00 ||| 0x80 := rfl
    have hsign : code &&& 0x80 = if code.getLsbD 7 then 0x80 else 0 := BitVec.and_twoPow code 7
    rw [hor, BitVec.and_or_distrib_left, h, hsign]
  rw [hfilter]
  cases hsign : code.getLsbD 7 with
  | true =>
    rw [hsign] at hbits
    refine iff_of_false (fun hnone => ?_) Bool.noConfusion
    exact Pattern.find_isSome_of_mem (List.mem_singleton_self _) (decide_eq_true hbits) hnone
  | false =>
    rw [hsign] at hbits
    refine iff_of_true (Pattern.find_cons_of_not_fits fun hfit => ?_) rfl
    have heq : code &&& 0xff80 = 0x9780 := of_decide_eq_true hfit
    rw [hbits] at heq
    revert heq
    decide

/-- The constant of `SBIW` is taken for a signed one. -/
theorem sbiw_agrees {code : BitVec 16} (h : code &&& 0xff00 = 0x9700) : Agrees code (sbiw_Rdl_K code) := by
  intro second second' addr
  have htwo : Pattern.find twoWords code = none := Pattern.find_none_of_filter h rfl
  rw [shown_iff h rfl (by decide), misread_sbiw h]
  have hsame : Same [.reg (dl code), .imm (signed6 (K6 code))] [.reg (dl code), .imm (K6 code)] ↔
      signed6 (K6 code) = K6 code := (same_right_iff _).trans (Operand.imm.injEq _ _ ▸ Iff.rfl)
  refine (Iff.trans hsame ?_).trans (and_iff_left fun hno => absurd htwo hno).symm
  unfold signed6 orIf
  rw [K6_sign]
  cases code.getLsbD 7 with
  | true =>
    have hbit : (K6 code).getLsbD 6 = false := by
      unfold K6 bits
      simp only [BitVec.getLsbD_or, BitVec.getLsbD_ushiftRight, BitVec.getLsbD_and]
      have hout : (0xc0 : BitVec 16).getLsbD (2 + 6) = false := by decide
      have hout' : (0xf : BitVec 16).getLsbD 6 = false := by decide
      rw [hout, hout', Bool.and_false, Bool.and_false, Bool.or_false]
    refine iff_of_false (fun heq => ?_) Bool.noConfusion
    have hset : (K6 code ||| 0xffc0).getLsbD 6 = true := by
      rw [BitVec.getLsbD_or]
      exact Bool.or_true _
    have hbits := congrArg (·.getLsbD 6) heq
    exact Bool.noConfusion ((hset.symm.trans hbits).trans hbit)
  | false => exact iff_of_true rfl rfl

theorem lds_agrees {code : BitVec 16} (h : code &&& 0xfe0f = 0x9000) : Agrees code (lds_Rd_k code) := by
  refine agrees_of_twoWords (q := ⟨0xfe0f, 0x9000, ()⟩) h rfl (by decide) rfl (by decide) (by decide)
    fun second second' _ => ?_
  refine (same_right_iff (.reg (d5 code))).trans ?_
  exact ⟨Operand.data.inj, congrArg Operand.data⟩

theorem sts_agrees {code : BitVec 16} (h : code &&& 0xfe0f = 0x9200) : Agrees code (sts_k_Rr code) := by
  refine agrees_of_twoWords (q := ⟨0xfe0f, 0x9200, ()⟩) h rfl (by decide) rfl (by decide) (by decide)
    fun second second' _ => ?_
  refine (same_left_iff (.reg (d5 code))).trans ?_
  exact ⟨Operand.data.inj, congrArg Operand.data⟩

theorem jmp_agrees {code value : BitVec 16} (hvalue : value = 0x940c ∨ value = 0x940d) (h : code &&& 0xfe0f = value) :
    Agrees code (jmp_k code) := by
  have htarget := fun second second' (_ : Int) => same_single_iff.trans (target22_modulo code second second')
  rcases hvalue with rfl | rfl
  · exact agrees_of_twoWords (q := ⟨0xfe0e, 0x940c, ()⟩) h rfl (by decide) rfl (by decide) (by decide) htarget
  · exact agrees_of_twoWords (q := ⟨0xfe0e, 0x940c, ()⟩) h rfl (by decide) rfl (by decide) (by decide) htarget

theorem call_agrees {code value : BitVec 16} (hvalue : value = 0x940e ∨ value = 0x940f) (h : code &&& 0xfe0f = value) :
    Agrees code (call_k code) := by
  have htarget := fun second second' (_ : Int) => same_single_iff.trans (target22_modulo code second second')
  rcases hvalue with rfl | rfl
  · exact agrees_of_twoWords (q := ⟨0xfe0e, 0x940e, ()⟩) h rfl (by decide) rfl (by decide) (by decide) htarget
  · exact agrees_of_twoWords (q := ⟨0xfe0e, 0x940e, ()⟩) h rfl (by decide) rfl (by decide) (by decide) htarget

/-! ## Names that stand for operands -/

theorem low_bits (code : BitVec 16) : ∃ s < 8, code &&& 7 = BitVec.ofNat 16 s := by
  have hlt : (code &&& 7).toNat < 8 := by
    rw [BitVec.toNat_and]
    exact Nat.lt_of_le_of_lt Nat.and_le_right (by decide)
  exact ⟨(code &&& 7).toNat, hlt, ((BitVec.ofNat_toNat 16 _).trans (BitVec.setWidth_eq _)).symm⟩

/-- A branch whose flag is in its name. -/
theorem branch_shown {code value : BitVec 16} {taken : BitVec 16 → Bool} {s : BitVec 16} {row : Pattern 16 DisEntry}
    {rest : List (Pattern 16 DisEntry)} (hs : code &&& 7 = s) (h : code &&& 0xfc00 = value)
    (hfirst : disass_avr.filter (Pattern.meets 0xfc07 (value ||| s)) = row :: rest)
    (hcovers : row.Covers 0xfc07 (value ||| s))
    (hrow : ∀ second' addr, row.body.operands code second' addr =
      [.bit s, .target (signedFrom 0x40 (bits code 0x3f8 3) + 1 + addr)]) (second second' : BitVec 16) (addr : Int) :
    Shown code second second' addr (branch taken code) := by
  have hcode : code &&& 0xfc07 = value ||| s := by
    have hor : (0xfc07 : BitVec 16) = 0xfc00 ||| 7 := rfl
    rw [hor, BitVec.and_or_distrib_left, h, hs]
  refine ⟨row.body, Pattern.find_of_first hcode hfirst hcovers, ?_⟩
  rw [hrow, ← hs]
  exact (same_right_iff (.bit (b3 code))).mpr (target7_modulo code addr)

theorem brbs_agrees {code : BitVec 16} (h : code &&& 0xfc00 = 0xf000) : Agrees code (brbs_s_k code) := by
  refine agrees_of_shown h rfl rfl ?_
  obtain ⟨s, hs, hlow⟩ := low_bits code
  interval_cases s <;> exact branch_shown hlow h rfl (by decide) fun _ _ => rfl

theorem brbc_agrees {code : BitVec 16} (h : code &&& 0xfc00 = 0xf400) : Agrees code (brbc_s_k code) := by
  refine agrees_of_shown h rfl rfl ?_
  obtain ⟨s, hs, hlow⟩ := low_bits code
  interval_cases s <;> exact branch_shown hlow h rfl (by decide) fun _ _ => rfl

/-- A displacement of 0 has a row without it. -/
theorem displaced_shown {code value : BitVec 16} {i : Inst} {plain row : Pattern 16 DisEntry}
    (h : code &&& 0xf208 = value) (hrows : disass_avr.filter (Pattern.meets 0xf208 value) = [plain, row])
    (hmask : plain.mask = 0xfe0f) (hvalue : plain.value &&& 0x2c07 = 0) (hcovers : row.Covers 0xf208 value)
    (hplain : q6 code = 0 → ∀ second second' addr,
      Same (i.uses (inc_address addr) second) (plain.body.operands code second' addr))
    (hrow : ∀ second second' addr, Same (i.uses (inc_address addr) second) (row.body.operands code second' addr))
    (second second' : BitVec 16) (addr : Int) : Shown code second second' addr i := by
  have hfind : Pattern.find disass_avr code = Pattern.find [plain, row] code := by
    rw [Pattern.find_filter h, hrows]
  unfold Shown
  by_cases hfit : plain.fits code
  · have hcode : code &&& 0xfe0f = plain.value := hmask ▸ of_decide_eq_true hfit
    have hq : code &&& 0x2c07 = 0 := (Pattern.and_of_sub hcode rfl).trans hvalue
    have hzero : q6 code = 0 := by
      have h2000 : code &&& 0x2000 = 0 := (Pattern.and_of_sub hq rfl).trans rfl
      have hc00 : code &&& 0xc00 = 0 := (Pattern.and_of_sub hq rfl).trans rfl
      have h7 : code &&& 7 = 0 := (Pattern.and_of_sub hq rfl).trans rfl
      unfold q6 bits
      rw [h2000, hc00, h7]
      rfl
    rw [hfind, Pattern.find_cons_of_fits hfit]
    exact ⟨_, rfl, hplain hzero second second' addr⟩
  · rw [hfind, Pattern.find_cons_of_not_fits hfit, Pattern.find_cons_of_fits (Pattern.fits_of_covers h hcovers)]
    exact ⟨_, rfl, hrow second second' addr⟩

theorem ldd_Z_agrees {code : BitVec 16} (h : code &&& 0xf208 = 0x8000) : Agrees code (ldd_Rd_Z_q code) := by
  refine agrees_of_shown h rfl rfl (displaced_shown h rfl rfl (by decide) (by decide) ?_ fun _ _ _ => .refl _)
  intro hzero _ _ _
  change Same [.reg (d5 code), .disp (q6 code)] [.disp 0, .reg (d5 code)]
  rw [hzero]
  exact .swap _ _ _

theorem ldd_Y_agrees {code : BitVec 16} (h : code &&& 0xf208 = 0x8008) : Agrees code (ldd_Rd_Y_q code) := by
  refine agrees_of_shown h rfl rfl (displaced_shown h rfl rfl (by decide) (by decide) ?_ fun _ _ _ => .refl _)
  intro hzero _ _ _
  change Same [.reg (d5 code), .disp (q6 code)] [.disp 0, .reg (d5 code)]
  rw [hzero]
  exact .swap _ _ _

theorem std_Z_agrees {code : BitVec 16} (h : code &&& 0xf208 = 0x8200) : Agrees code (std_Z_q_Rr code) := by
  refine agrees_of_shown h rfl rfl (displaced_shown h rfl rfl (by decide) (by decide) ?_ fun _ _ _ => .refl _)
  intro hzero _ _ _
  change Same [.disp (q6 code), .reg (d5 code)] [.disp 0, .reg (d5 code)]
  rw [hzero]
  exact .refl _

theorem std_Y_agrees {code : BitVec 16} (h : code &&& 0xf208 = 0x8208) : Agrees code (std_Y_q_Rr code) := by
  refine agrees_of_shown h rfl rfl (displaced_shown h rfl rfl (by decide) (by decide) ?_ fun _ _ _ => .refl _)
  intro hzero _ _ _
  change Same [.disp (q6 code), .reg (d5 code)] [.disp 0, .reg (d5 code)]
  rw [hzero]
  exact .refl _

/-! ## All instructions -/

/-- `SER` is behind `LDI`, which has its codes. -/
theorem decode_ser (code : BitVec 16) : decode code =
    (Pattern.find (cases.filter fun p => decide (p.value ≠ 0xef0f)) code).map (· code) := by
  have hldi : (⟨0xf000, 0xe000, ldi_Rd_K⟩ : Pattern 16 (BitVec 16 → Inst)) ∈ cases.take 113 :=
    List.mem_of_getElem (i := 42) (h := by decide) rfl
  have hcases : cases = cases.take 113 ++ ⟨0xff0f, 0xef0f, ser_Rd⟩ :: cases.drop 114 := rfl
  have hbefore : (cases.take 113).filter (fun p => decide (p.value ≠ 0xef0f)) = cases.take 113 :=
    List.filter_eq_self.mpr (by decide)
  have hbehind : (cases.drop 114).filter (fun p => decide (p.value ≠ 0xef0f)) = cases.drop 114 := rfl
  have hfind : Pattern.find cases code = Pattern.find (cases.take 113 ++ cases.drop 114) code := by
    rw [hcases]
    exact Pattern.find_redundant hldi (by decide)
  unfold decode
  rw [hfind]
  nth_rewrite 3 [hcases]
  rw [List.filter_append, hbefore, List.filter_cons_of_neg (by decide), hbehind]

/-- A case of `exec_inst` that does nothing. -/
theorem stub_agrees {code mask value : BitVec 16} {i : Inst} (h : code &&& mask = value)
    (hcovers : (unimplemented.any fun q => decide (q.Covers mask value)) = true)
    (himpl : Pattern.find unimplemented code = none) : Agrees code i := by
  obtain ⟨q, hq, hcover⟩ := List.any_eq_true.mp hcovers
  exact absurd himpl (Pattern.find_isSome_of_mem hq (Pattern.fits_of_covers h (of_decide_eq_true hcover)))

theorem cases_agree : ∀ p ∈ cases.filter (fun p => decide (p.value ≠ 0xef0f)), ∀ code, code &&& p.mask = p.value →
    Pattern.find unimplemented code = none → Agrees code (p.body code) := by
  repeat' (first
    | exact List.forall_mem_nil _
    | refine List.forall_mem_cons.mpr ⟨fun _ h _ => agrees_of_row h rfl (by decide) rfl rfl fun _ _ _ => .refl _, ?_⟩
    | refine List.forall_mem_cons.mpr ⟨fun _ h => stub_agrees h rfl, ?_⟩)
  refine List.forall_mem_cons.mpr ⟨fun _ h _ => cpi_agrees h, ?_⟩
  refine List.forall_mem_cons.mpr ⟨fun _ h _ => sbci_agrees h, ?_⟩
  refine List.forall_mem_cons.mpr ⟨fun _ h _ => subi_agrees h, ?_⟩
  refine List.forall_mem_cons.mpr ⟨fun _ h _ => ori_agrees h, ?_⟩
  refine List.forall_mem_cons.mpr ⟨fun _ h _ => andi_agrees h, ?_⟩
  refine List.forall_mem_cons.mpr ⟨fun _ h _ => rjmp_agrees h, ?_⟩
  refine List.forall_mem_cons.mpr ⟨fun _ h _ => rcall_agrees h, ?_⟩
  refine List.forall_mem_cons.mpr ⟨fun _ h _ => ldi_agrees h, ?_⟩
  repeat' (first
    | exact List.forall_mem_nil _
    | refine List.forall_mem_cons.mpr ⟨fun _ h _ => agrees_of_row h rfl (by decide) rfl rfl fun _ _ _ => .refl _, ?_⟩
    | refine List.forall_mem_cons.mpr ⟨fun _ h => stub_agrees h rfl, ?_⟩)
  refine List.forall_mem_cons.mpr ⟨fun _ h _ => ldd_Z_agrees h, ?_⟩
  refine List.forall_mem_cons.mpr ⟨fun _ h _ => ldd_Y_agrees h, ?_⟩
  refine List.forall_mem_cons.mpr ⟨fun _ h _ => std_Z_agrees h, ?_⟩
  refine List.forall_mem_cons.mpr ⟨fun _ h _ => std_Y_agrees h, ?_⟩
  repeat' (first
    | exact List.forall_mem_nil _
    | refine List.forall_mem_cons.mpr ⟨fun _ h _ => agrees_of_row h rfl (by decide) rfl rfl fun _ _ _ => .refl _, ?_⟩
    | refine List.forall_mem_cons.mpr ⟨fun _ h => stub_agrees h rfl, ?_⟩)
  refine List.forall_mem_cons.mpr ⟨fun _ h _ => sbiw_agrees h, ?_⟩
  refine List.forall_mem_cons.mpr ⟨fun _ h _ => lds_agrees h, ?_⟩
  repeat' (first
    | exact List.forall_mem_nil _
    | refine List.forall_mem_cons.mpr ⟨fun _ h _ => agrees_of_row h rfl (by decide) rfl rfl fun _ _ _ => .refl _, ?_⟩
    | refine List.forall_mem_cons.mpr ⟨fun _ h => stub_agrees h rfl, ?_⟩)
  refine List.forall_mem_cons.mpr ⟨fun _ h _ => sts_agrees h, ?_⟩
  repeat' (first
    | exact List.forall_mem_nil _
    | refine List.forall_mem_cons.mpr ⟨fun _ h _ => agrees_of_row h rfl (by decide) rfl rfl fun _ _ _ => .refl _, ?_⟩
    | refine List.forall_mem_cons.mpr ⟨fun _ h => stub_agrees h rfl, ?_⟩)
  refine List.forall_mem_cons.mpr ⟨fun _ h _ => jmp_agrees (.inl rfl) h, ?_⟩
  refine List.forall_mem_cons.mpr ⟨fun _ h _ => jmp_agrees (.inr rfl) h, ?_⟩
  refine List.forall_mem_cons.mpr ⟨fun _ h _ => call_agrees (.inl rfl) h, ?_⟩
  refine List.forall_mem_cons.mpr ⟨fun _ h _ => call_agrees (.inr rfl) h, ?_⟩
  repeat' (first
    | exact List.forall_mem_nil _
    | refine List.forall_mem_cons.mpr ⟨fun _ h _ => agrees_of_row h rfl (by decide) rfl rfl fun _ _ _ => .refl _, ?_⟩
    | refine List.forall_mem_cons.mpr ⟨fun _ h => stub_agrees h rfl, ?_⟩)
  refine List.forall_mem_cons.mpr ⟨fun _ h _ => mul_agrees h, ?_⟩
  repeat' (first
    | exact List.forall_mem_nil _
    | refine List.forall_mem_cons.mpr ⟨fun _ h _ => agrees_of_row h rfl (by decide) rfl rfl fun _ _ _ => .refl _, ?_⟩
    | refine List.forall_mem_cons.mpr ⟨fun _ h => stub_agrees h rfl, ?_⟩)
  refine List.forall_mem_cons.mpr ⟨fun _ h _ => brbs_agrees h, ?_⟩
  refine List.forall_mem_cons.mpr ⟨fun _ h _ => brbc_agrees h, ?_⟩
  repeat' (first
    | exact List.forall_mem_nil _
    | refine List.forall_mem_cons.mpr ⟨fun _ h _ => agrees_of_row h rfl (by decide) rfl rfl fun _ _ _ => .refl _, ?_⟩)

theorem decode_agrees {code : BitVec 16} {i : Inst} (h : decode code = some i)
    (himpl : Pattern.find unimplemented code = none) : Agrees code i := by
  rw [decode_ser] at h
  obtain ⟨body, hfind, rfl⟩ := Option.map_eq_some_iff.mp h
  obtain ⟨p, hp, hcode, rfl⟩ := Pattern.find_some hfind
  exact cases_agree p hp code hcode himpl

/-- Beside the misread ones, instructions in two words at the last address can differ: `fetch` wraps around, the
disassembler does not. -/
theorem operands_shown_iff (s : Machine) {i : Inst} (h : decode s.code = some i)
    (himpl : Pattern.find unimplemented s.code = none) :
    (∃ shown, s.disass s.PC = some shown ∧ Same (i.uses (inc_address s.PC) (s.romAt (inc_address s.PC))) shown) ↔
      Pattern.find misread s.code = none ∧
        (Pattern.find twoWords s.code ≠ none → s.romAt (inc_address s.PC) = s.romAt (s.PC + 1)) := by
  refine Iff.trans ?_ (decode_agrees h himpl (s.romAt (inc_address s.PC)) (s.romAt (s.PC + 1)) s.PC)
  unfold Machine.disass Shown
  constructor
  · rintro ⟨shown, hdisass, hsame⟩
    obtain ⟨row, hrow, rfl⟩ := Option.map_eq_some_iff.mp hdisass
    exact ⟨row, hrow, hsame⟩
  · rintro ⟨row, hrow, hsame⟩
    exact ⟨_, congrArg (Option.map _) hrow, hsame⟩

/-- `add r1,r2`. -/
theorem operands_shown_ADD :
    let s : Machine := ⟨fun _ => 0, fun _ => 0x0c12, 0, 0, 0, 0, false⟩
    (∃ shown, s.disass s.PC = some shown ∧
      Same ((add_Rd_Rr 0x0c12).uses (inc_address s.PC) (s.romAt (inc_address s.PC))) shown) ↔
      Pattern.find misread s.code = none ∧
        (Pattern.find twoWords s.code ≠ none → s.romAt (inc_address s.PC) = s.romAt (s.PC + 1)) :=
  operands_shown_iff ⟨fun _ => 0, fun _ => 0x0c12, 0, 0, 0, 0, false⟩ rfl rfl

/-- `cpi r16,0` compares r1. -/
theorem CPI_differs :
    let s : Machine := ⟨fun _ => 0, fun _ => 0x3000, 0, 0, 0, 0, false⟩
    decode s.code = some (cpi_Rd_K s.code) ∧
      (cpi_Rd_K s.code).uses (inc_address s.PC) (s.romAt (inc_address s.PC)) = [.reg 1, .imm 0] ∧
      s.disass s.PC = some [.reg 16, .imm 0] ∧ ¬ Same [.reg 1, .imm 0] [.reg 16, .imm 0] :=
  ⟨rfl, by decide, by decide, by unfold Same; decide⟩

end Ucsim.Avr
