import Ucsim.Z80.Fetches

/-!
# Conditions

Jumps, calls, returns and relative jumps under the same condition, and where they lead.
-/

namespace Ucsim.Z80

/-! ## Instructions with a condition -/

/-- The conditions, in the order of the opcodes. -/
inductive Cc
  | NZ | Z | NC | C | PO | PE | P | M
  deriving DecidableEq, Repr

def Cc.number : Cc → Nat
  | NZ => 0
  | Z => 1
  | NC => 2
  | C => 3
  | PO => 4
  | PE => 5
  | P => 6
  | M => 7

def Cc.complement : Cc → Cc
  | NZ => Z
  | Z => NZ
  | NC => C
  | C => NC
  | PO => PE
  | PE => PO
  | P => M
  | M => P

inductive Kind
  | JP | CALL | RET | JR
  deriving DecidableEq, Repr

namespace Kind

/-- The code of the instruction without a condition. -/
def always : Kind → BitVec 8
  | JP => 0xC3
  | CALL => 0xCD
  | RET => 0xC9
  | JR => 0x18

/-- The code under a condition. -/
def code (k : Kind) (cc : Cc) : BitVec 8 :=
  match k with
  | JP => BitVec.ofNat 8 (0xC2 + 8 * cc.number)
  | CALL => BitVec.ofNat 8 (0xC4 + 8 * cc.number)
  | RET => BitVec.ofNat 8 (0xC0 + 8 * cc.number)
  | JR => BitVec.ofNat 8 (0x20 + 8 * cc.number)

/-- `JR` has the first four conditions only. -/
def Exists (k : Kind) (cc : Cc) : Prop := k = JR → cc.number < 4

/-- The bytes behind the code. -/
def operands : Kind → Nat
  | JP => 2
  | CALL => 2
  | RET => 0
  | JR => 1

end Kind

/-- The instruction at PC does what the one without a condition does. -/
def Machine.Takes (t : Machine) (k : Kind) : Prop := t.step = ((dispatch k.always).run t.skip.ticked).2

/-- The instruction at PC is passed over. -/
def Machine.Follows (t : Machine) (k : Kind) : Prop :=
  t.step = { t with PC := advance (1 + k.operands) t.PC, ticks := t.ticks + 1 }

/-- With these flags the instruction is taken, wherever it is. -/
def Kind.Taken (k : Kind) (cc : Cc) (F : BitVec 8) : Prop :=
  ∀ t : Machine, t.regs.F = F → t.next = k.code cc → t.Takes k

def Kind.NotTaken (k : Kind) (cc : Cc) (F : BitVec 8) : Prop :=
  ∀ t : Machine, t.regs.F = F → t.next = k.code cc → t.Follows k

/-! ## What the codes test -/

/-- The branch of the code. -/
def Kind.holds (k : Kind) (F : BitVec 8) (cc : Cc) : Bool :=
  match k with
  | .JP => jpCondition F cc.number
  | _ => condition F cc.number

/-- The instruction with the result of its test. -/
def Kind.body : Kind → Bool → Prog Res
  | JP, c => go (jpIf c)
  | CALL, c => go (callIf c)
  | RET, c => go (retIf c)
  | JR, c => do
    let j ← fetch
    go (jrIf c j)

theorem Cc.number_lt (cc : Cc) : cc.number < 8 := by cases cc <;> decide

theorem dispatch_always (k : Kind) (s : Machine) : (dispatch k.always).run s = (k.body true).run s := by
  cases k <;> rfl

theorem dispatch_kind {k : Kind} {cc : Cc} (h : k.Exists cc) (s : Machine) :
    (dispatch (k.code cc)).run s = (k.body (k.holds s.regs.F cc)).run s := by
  cases k with
  | JP => exact dispatch_jp cc.number cc.number_lt s
  | CALL => exact dispatch_call cc.number cc.number_lt s
  | RET => exact dispatch_ret cc.number cc.number_lt s
  | JR => exact dispatch_jr cc.number (h rfl) s

variable {k : Kind} {cc : Cc} {F : BitVec 8}

theorem step_body (h : k.Exists cc) {t : Machine} (hcode : t.next = k.code cc) :
    t.step = ((k.body (k.holds t.regs.F cc)).run t.skip.ticked).2 := by
  rw [step_eq hcode, dispatch_kind h]
  rfl

theorem taken_of_holds (h : k.Exists cc) (hholds : k.holds F cc = true) : k.Taken cc F := by
  intro t hF hcode
  rw [Machine.Takes, step_body h hcode, hF, hholds, dispatch_always]

theorem notTaken_of_not_holds (h : k.Exists cc) (hholds : k.holds F cc = false) : k.NotTaken cc F := by
  intro t hF hcode
  rw [Machine.Follows, step_body h hcode, hF, hholds]
  cases k <;> rfl

/-- A machine with such an instruction everywhere. -/
def everywhere (F code : BitVec 8) : Machine := { Machine.start (fun _ => code) with regs := { Regs.zero with F := F } }

/-- To be taken and to be passed over are different things. -/
theorem not_both (htaken : k.Taken cc F) (hnot : k.NotTaken cc F) : False := by
  have htakes := htaken (everywhere F (k.code cc)) rfl rfl
  have hpasses := hnot (everywhere F (k.code cc)) rfl rfl
  have heq := htakes.symm.trans hpasses
  rw [dispatch_always] at heq
  cases k with
  | JP =>
    have hPC : ((Kind.JP.code cc ++ Kind.JP.code cc : BitVec 16).toNat : Int) = 3 := congrArg Machine.PC heq
    revert hPC
    cases cc <;> decide
  | CALL =>
    have hSP : (0 : BitVec 16) - 2 = 0 := congrArg (fun t => t.regs.SP) heq
    exact absurd hSP (by decide)
  | RET =>
    have hSP : (0 : BitVec 16) + 2 = 0 := congrArg (fun t => t.regs.SP) heq
    exact absurd hSP (by decide)
  | JR =>
    have hPC : 2 + (Kind.JR.code cc).toInt = 2 := congrArg Machine.PC heq
    revert hPC
    cases cc <;> decide

theorem taken_iff (h : k.Exists cc) : k.Taken cc F ↔ k.holds F cc = true := by
  refine ⟨fun htaken => ?_, taken_of_holds h⟩
  by_contra hholds
  exact not_both htaken (notTaken_of_not_holds h (Bool.eq_false_iff.mpr hholds))

theorem notTaken_iff (h : k.Exists cc) : k.NotTaken cc F ↔ k.holds F cc = false := by
  refine ⟨fun hnot => ?_, notTaken_of_not_holds h⟩
  by_contra hholds
  exact not_both (taken_of_holds h (eq_true_of_ne_false hholds)) hnot

/-! ## Agreement -/

/-- All instructions with the condition are taken, or none of them. -/
def Agree (cc : Cc) (F : BitVec 8) : Prop :=
  (∀ k : Kind, k.Exists cc → k.Taken cc F) ∨ ∀ k : Kind, k.Exists cc → k.NotTaken cc F

/-- The conditions that `inst_jp` tests the other way round. -/
def Cc.IsParity (cc : Cc) : Prop := cc = PO ∨ cc = PE

theorem holds_jp_of_parity (h : cc.IsParity) (F : BitVec 8) : Kind.JP.holds F cc = !Kind.CALL.holds F cc := by
  rcases h with rfl | rfl <;> simp [Kind.holds, jpCondition, condition, Cc.number]

theorem holds_of_not_parity (h : ¬cc.IsParity) (k : Kind) (F : BitVec 8) : k.holds F cc = condition F cc.number := by
  cases k with
  | JP =>
    cases cc with
    | PO => exact absurd (.inl rfl) h
    | PE => exact absurd (.inr rfl) h
    | _ => rfl
  | CALL => rfl
  | RET => rfl
  | JR => rfl

theorem agree_iff (cc : Cc) (F : BitVec 8) : Agree cc F ↔ ¬cc.IsParity := by
  constructor
  · intro hagree hparity
    have hjp := holds_jp_of_parity hparity F
    rcases hagree with htaken | hnot
    · rw [(taken_iff (k := .JP) nofun).mp (htaken .JP nofun),
        (taken_iff (k := .CALL) nofun).mp (htaken .CALL nofun)] at hjp
      exact absurd hjp (by decide)
    · rw [(notTaken_iff (k := .JP) nofun).mp (hnot .JP nofun),
        (notTaken_iff (k := .CALL) nofun).mp (hnot .CALL nofun)] at hjp
      exact absurd hjp (by decide)
  · intro hparity
    cases hcond : condition F cc.number with
    | true => exact .inl fun k hk => taken_of_holds hk ((holds_of_not_parity hparity k F).trans hcond)
    | false => exact .inr fun k hk => notTaken_of_not_holds hk ((holds_of_not_parity hparity k F).trans hcond)

theorem holds_complement (k : Kind) (cc : Cc) (F : BitVec 8) : k.holds F cc.complement = !k.holds F cc := by
  cases cc <;> cases k <;> simp [Kind.holds, jpCondition, condition, Cc.number, Cc.complement]

theorem exists_complement (h : k.Exists cc) : k.Exists cc.complement := by
  intro hk
  have hlt := h hk
  revert hlt
  cases cc <;> decide

/-- Exactly one of a condition and its complement is taken. -/
theorem opposite (h : k.Exists cc) (F : BitVec 8) :
    k.Taken cc F ∧ k.NotTaken cc.complement F ∨ k.NotTaken cc F ∧ k.Taken cc.complement F := by
  rw [taken_iff h, notTaken_iff h, taken_iff (exists_complement h), notTaken_iff (exists_complement h),
    holds_complement]
  cases k.holds F cc <;> decide

/-! ## Targets -/

/-- The word behind the code. -/
def Machine.operand (t : Machine) : BitVec 16 := t.skip.skip.next ++ t.skip.next

theorem jp_target {t : Machine} (htakes : t.Takes .JP) : t.step.PC = t.operand.toNat := by
  rw [htakes, dispatch_always]
  rfl

/-- A byte below the stack pointer that a pushed word does not change. -/
theorem Pushed.same_iff {sp w : BitVec 16} {ram : BitVec 16 → BitVec 8} {s : Machine} (h : Pushed sp ram w s)
    (a : BitVec 16) : s.ram a = ram a ↔
      (a = sp - 2 → w.extractLsb' 0 8 = ram a) ∧ (a = sp - 1 → w.extractLsb' 8 8 = ram a) := by
  have hlow : s.ram (sp - 2) = w.extractLsb' 0 8 := by rw [← h.word, low_wordAt]
  have hhigh : s.ram (sp - 1) = w.extractLsb' 8 8 := by
    have hnext : sp - 2 + 1 = sp - 1 := by bv_omega
    rw [← h.word, high_wordAt, hnext]
  by_cases ha : a = sp - 2
  · rw [ha, hlow]
    simp
  by_cases hb : a = sp - 1
  · rw [hb, hhigh]
    simp
  · exact iff_of_true (h.frame a ha hb) ⟨fun heq => absurd heq ha, fun heq => absurd heq hb⟩

/-- The address is one of the memory, or is taken modulo its size. -/
def Machine.Has (t : Machine) (addr : Int) : Prop := t.dummy = none ∨ InRange addr

/-- A word that is pushed leaves the byte at an address. The high byte of one that is pushed at the last address is
lost, and the dummy cell gets its next number. -/
def Machine.PushLeaves (t : Machine) (v : BitVec 16) (addr : Int) : Prop :=
  (t.Has addr → (BitVec.ofInt 16 addr = t.regs.SP - 2 → v.extractLsb' 0 8 = t.ram (BitVec.ofInt 16 addr)) ∧
    (BitVec.ofInt 16 addr = t.regs.SP - 1 → t.dummy = none ∨ t.regs.SP ≠ 1 →
      v.extractLsb' 8 8 = t.ram (BitVec.ofInt 16 addr))) ∧
  (¬t.Has addr → t.regs.SP = 1 → t.dummy.map (· 1) = t.dummy.map (· 0))

/-- What a call pushes does not change the bytes of its operand. -/
def Machine.KeepsOperand (t : Machine) : Prop :=
  t.PushLeaves (t.after 3) t.skip.PC ∧ t.PushLeaves (t.after 3) t.skip.skip.PC

/-- The second byte of a word is beyond the memory exactly at the last address. -/
theorem inRange_succ_iff (sp : BitVec 16) : InRange ((sp - 2).toNat + 1) ↔ sp ≠ 1 := by
  unfold InRange
  bv_omega

/-- The low byte of a word has been pushed. -/
def Machine.lowPushed (s : Machine) (v : BitVec 16) : Machine :=
  { s with
    regs := { s.regs with SP := s.regs.SP - 2 }
    ram := Function.update s.ram (s.regs.SP - 2) (v.extractLsb' 0 8) }

theorem push2_run (v : BitVec 16) (s : Machine) :
    ((push2 v).run s).2 = (s.lowPushed v).stored ((s.regs.SP - 2).toNat + 1) (v.extractLsb' 8 8) := rfl

section Push

variable (regs : Regs) (PC : Int) (ram : BitVec 16 → BitVec 8) (d : Nat → BitVec 8) (ticks : Nat)
  (out : List (BitVec 8)) (v : BitVec 16) (addr : Int)

/-- A word that is not pushed at the last address has nothing to do with the dummy cell. -/
theorem push2_leaves_inside (h : regs.SP ≠ 1) :
    ((push2 v).run ⟨regs, PC, ram, some d, ticks, out⟩).2.readAt addr =
      (⟨regs, PC, ram, some d, ticks, out⟩ : Machine).readAt addr ↔
      (⟨regs, PC, ram, some d, ticks, out⟩ : Machine).PushLeaves v addr := by
  have hin : InRange ((regs.SP - 2).toNat + 1) := (inRange_succ_iff regs.SP).mpr h
  have hram : ((push2 v).run ⟨regs, PC, ram, some d, ticks, out⟩).2.ram =
      ((push2 v).run ⟨regs, PC, ram, none, ticks, out⟩).2.ram := by
    rw [push2_run, push2_run, Machine.stored, Machine.stored, if_pos (.inr hin), if_pos (.inl rfl)]
    rfl
  have hdummy : ((push2 v).run ⟨regs, PC, ram, some d, ticks, out⟩).2.dummy = some d := by
    rw [push2_run, Machine.stored]
    exact congrArg some (if_pos hin)
  have hpushed := push2_pushed v (s := ⟨regs, PC, ram, none, ticks, out⟩) rfl
  have hSP : ¬regs.SP = 1#16 := h
  by_cases hin : InRange addr
  · simp only [Machine.readAt, hdummy, if_pos hin, hram, hpushed.same_iff]
    simp [Machine.PushLeaves, Machine.Has, hin, hSP]
  · simp [Machine.readAt, hdummy, hin, Machine.PushLeaves, Machine.Has, hSP]

/-- At the last address the high byte gets lost. -/
theorem push2_leaves_last (h : regs.SP = 1) :
    ((push2 v).run ⟨regs, PC, ram, some d, ticks, out⟩).2.readAt addr =
      (⟨regs, PC, ram, some d, ticks, out⟩ : Machine).readAt addr ↔
      (⟨regs, PC, ram, some d, ticks, out⟩ : Machine).PushLeaves v addr := by
  have hout : ¬InRange ((regs.SP - 2).toNat + 1) := fun hin => (inRange_succ_iff regs.SP).mp hin h
  have hram : ((push2 v).run ⟨regs, PC, ram, some d, ticks, out⟩).2.ram =
      Function.update ram (regs.SP - 2) (v.extractLsb' 0 8) := by
    rw [push2_run, Machine.stored, if_neg]
    · rfl
    · exact not_or.mpr ⟨Option.some_ne_none d, hout⟩
  have hdummy : ((push2 v).run ⟨regs, PC, ram, some d, ticks, out⟩).2.dummy = some fun n => d (n + 1) := by
    rw [push2_run, Machine.stored]
    exact congrArg some (if_neg hout)
  by_cases hin : InRange addr
  · by_cases hlow : BitVec.ofInt 16 addr = 65535#16
    · simp [Machine.readAt, hdummy, hram, hin, Machine.PushLeaves, Machine.Has, h, hlow]
    · simp [Machine.readAt, hdummy, hram, hin, Machine.PushLeaves, Machine.Has, h, hlow]
  · simp [Machine.readAt, hdummy, hin, Machine.PushLeaves, Machine.Has, h]

end Push

theorem push2_leaves_iff (v : BitVec 16) (s : Machine) (addr : Int) :
    ((push2 v).run s).2.readAt addr = s.readAt addr ↔ s.PushLeaves v addr := by
  obtain ⟨regs, PC, ram, dummy, ticks, out⟩ := s
  cases dummy with
  | none =>
    have hpushed := push2_pushed v (s := ⟨regs, PC, ram, none, ticks, out⟩) rfl
    have hread : ((push2 v).run ⟨regs, PC, ram, none, ticks, out⟩).2.readAt addr =
        ((push2 v).run ⟨regs, PC, ram, none, ticks, out⟩).2.ram (BitVec.ofInt 16 addr) := rfl
    refine (Eq.congr hread rfl).trans ((hpushed.same_iff _).trans ?_)
    simp [Machine.PushLeaves, Machine.Has]
  | some d =>
    by_cases h : regs.SP = 1
    · exact push2_leaves_last regs PC ram d ticks out v addr h
    · exact push2_leaves_inside regs PC ram d ticks out v addr h

/-- The operand is fetched from where the address has been pushed already. -/
theorem call_target_iff {t : Machine} (htakes : t.Takes .CALL) :
    t.step.PC = t.operand.toNat ↔ t.KeepsOperand := by
  let u := ((push2 (t.after 3)).run t).2
  have hv : BitVec.ofInt 16 (t.skip.ticked.PC + 2) = t.after 3 := ofInt_incAddress t.PC 2
  have hPC : t.step.PC = (u.readAt t.skip.skip.PC ++ u.readAt t.skip.PC).toNat := by
    rw [htakes, dispatch_always]
    simp only [u, ← hv]
    rfl
  have hoperand : t.operand = t.readAt t.skip.skip.PC ++ t.readAt t.skip.PC := rfl
  rw [hPC, hoperand, Int.ofNat_inj, BitVec.toNat_inj, append_eq_iff, push2_leaves_iff, push2_leaves_iff]
  exact and_comm

/-! ## Relative jumps -/

/-- Where a relative jump should lead: the address behind it and the signed displacement, modulo the memory. -/
def Machine.relative (t : Machine) : Int := (t.PC + 2 + t.skip.next.toInt) % 0x10000

theorem jr_PC {t : Machine} (h : t.TakesJr) : t.step.PC = advance 2 t.PC + t.skip.next.toInt := by
  rcases h with hcode | ⟨hcode, hcount⟩ | ⟨n, hn, hcond, hcode⟩
  · rw [step_eq hcode]
    rfl
  · have hdjnz : dispatch 0x10 = inst_djnz := rfl
    have hdecide : decide (t.skip.ticked.regs.BC.h - 1 ≠ 0) = true := decide_eq_true hcount
    rw [step_eq hcode, hdjnz, inst_djnz_run, hdecide]
    rfl
  · have hflags : condition t.skip.ticked.regs.F n = true := hcond
    rw [step_eq hcode, dispatch_jr n hn, hflags]
    rfl

/-- The sum of the address behind the jump and the displacement is an address. -/
def Machine.InMemory (t : Machine) : Prop :=
  0 ≤ advance 2 t.PC + t.skip.next.toInt ∧ advance 2 t.PC + t.skip.next.toInt < 0x10000

theorem jr_target_iff {t : Machine} (h : t.TakesJr) : t.step.PC = t.relative ↔ t.InMemory := by
  have hmod := advance_emod 2 t.PC
  rw [jr_PC h, Machine.relative, Machine.InMemory]
  omega

/-! ## A machine and a condition -/

/-- What the instructions with a condition are to do: the same one with the same flags, the opposite with the
complement, and to lead to their operands. -/
structure Machine.ConditionsRight (t : Machine) (cc : Cc) : Prop where
  agree : Agree cc t.regs.F
  opposite : ∀ k : Kind, k.Exists cc →
    k.Taken cc t.regs.F ∧ k.NotTaken cc.complement t.regs.F ∨ k.NotTaken cc t.regs.F ∧ k.Taken cc.complement t.regs.F
  jump : t.next = Kind.JP.code cc → t.Takes .JP → t.step.PC = t.operand.toNat
  call : t.next = Kind.CALL.code cc → t.Takes .CALL → t.step.PC = t.operand.toNat
  relative : t.TakesJr → t.step.PC = t.relative

/-- When they do so. -/
structure Machine.ConditionsMet (t : Machine) (cc : Cc) : Prop where
  parity : ¬cc.IsParity
  call : t.next = Kind.CALL.code cc → t.Takes .CALL → t.KeepsOperand
  relative : t.TakesJr → t.InMemory

/-- The conditions are right exactly if they are not of parity, no call changes its own operand, and no relative jump
leaves the memory. -/
theorem conditions_right_iff (t : Machine) (cc : Cc) : t.ConditionsRight cc ↔ t.ConditionsMet cc := by
  constructor
  · rintro ⟨hagree, -, -, hcall, hrelative⟩
    exact ⟨(agree_iff cc _).mp hagree, fun hcode htakes => (call_target_iff htakes).mp (hcall hcode htakes),
      fun hjr => (jr_target_iff hjr).mp (hrelative hjr)⟩
  · rintro ⟨hparity, hcall, hrelative⟩
    exact ⟨(agree_iff cc _).mpr hparity, fun k hk => opposite hk _, fun _ htakes => jp_target htakes,
      fun hcode htakes => (call_target_iff htakes).mpr (hcall hcode htakes),
      fun hjr => (jr_target_iff hjr).mpr (hrelative hjr)⟩

/-- `JP PO` is taken with the parity flag set, and `CALL PO` is not. -/
theorem po_disagrees : Kind.JP.Taken .PO BIT_P ∧ Kind.CALL.NotTaken .PO BIT_P ∧ ¬ Agree .PO BIT_P ∧
    ¬ (everywhere BIT_P 0).ConditionsRight .PO := by
  have hagree : ¬ Agree .PO BIT_P := fun h => (agree_iff .PO BIT_P).mp h (.inl rfl)
  exact ⟨taken_of_holds nofun rfl, notTaken_of_not_holds nofun rfl, hagree, fun h => hagree h.agree⟩

end Ucsim.Z80
