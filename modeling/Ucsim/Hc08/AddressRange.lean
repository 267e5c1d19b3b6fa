import Ucsim.Hc08.Addresses

/-!
# Leaving the 64K space

An instruction stays in the 64K space unless a sum leaves it: an offset and H:X or SP, the stack pointer and the place
of a byte on the stack, or a branch that is taken.
-/

namespace Ucsim.Hc08

variable {code : BitVec 8} {pre : Bool} {s : Machine} {PC : Int}

/-! ## Conditions -/

/-- The sum for an effective address stays in the range. -/
def AddressFits (code : BitVec 8) (pre : Bool) (s : Machine) : Prop :=
  match high code with
  | 0x6 | 0xe => (s.nextByte 0).toNat + base pre s.regs ≤ 0xffff
  | 0xd => (s.nextByte 0 ++ s.nextByte 1).toNat + base pre s.regs ≤ 0xffff
  | _ => True

/-- A branch stays in the range. -/
def BranchFits (code : BitVec 8) (pre : Bool) (s : Machine) (n : Nat) : Prop :=
  if takes code pre s then InRange (advance (n + 1) s.PC + (displacement code pre s n).toInt)
  else InRange (advance (n + 1) s.PC)

/-- An instruction of a kind stays in the range. -/
def Kind.Fits (k : Kind) (code : BitVec 8) (pre : Bool) (s : Machine) : Prop :=
  match k with
  | stop | push => InRange s.PC
  | pull => s.regs.SP.toNat + 1 ≤ 0xffff ∧ InRange s.PC
  | straight n | fixed n => InRange (advance n s.PC)
  | operand => AddressFits code pre s ∧ InRange (advance (operandBytes code) s.PC)
  | jump => AddressFits code pre s
  | jsr => s.regs.SP ≠ 0 ∧ AddressFits code pre s
  | bsr => s.regs.SP ≠ 0 ∧ InRange (advance 1 s.PC + (s.nextByte 0).toInt)
  | swi => s.regs.SP ≠ 0
  | rts => s.regs.SP.toNat + 2 ≤ 0xffff
  | rti => s.regs.SP.toNat + 5 ≤ 0xffff
  | branch n => BranchFits code pre s n
  | branchOperand => AddressFits code pre s ∧ BranchFits code pre s (operandBytes code)

theorem base_nonneg (pre : Bool) (r : Regs) : 0 ≤ base pre r := by
  unfold base
  split <;> exact Int.natCast_nonneg _

theorem address_inRange (code : BitVec 8) (pre : Bool) (s : Machine) :
    InRange (address code pre s) ↔ AddressFits code pre s := by
  have hbase := base_nonneg pre s.regs
  have hsum (v : Nat) : InRange ((v : Int) + base pre s.regs) ↔ (v : Int) + base pre s.regs ≤ 0xffff := by
    unfold InRange
    omega
  have hbyte := (byte_inRange (s.nextByte 0)).1
  have hword := word_inRange (s.nextByte 0 ++ s.nextByte 1)
  have hhx := word_inRange s.regs.hx
  have hlt := high_lt code
  unfold address AddressFits
  generalize high code = n at hlt
  interval_cases n
  case «6» => exact hsum _
  case «14» => exact hsum _
  case «13» => exact hsum _
  case «0» => exact iff_of_true hbyte trivial
  case «1» => exact iff_of_true hbyte trivial
  case «3» => exact iff_of_true hbyte trivial
  case «11» => exact iff_of_true hbyte trivial
  case «7» => exact iff_of_true hhx trivial
  case «15» => exact iff_of_true hhx trivial
  case «12» => exact iff_of_true hword trivial
  all_goals exact iff_of_true (show InRange resHALT by decide) trivial

theorem branchTo_inRange (n : Nat) : InRange (branchTo code pre s n) ↔ BranchFits code pre s n := by
  unfold branchTo BranchFits
  split <;> rfl

/-- PC is in its range. -/
def Kind.Continues (k : Kind) (code : BitVec 8) (pre : Bool) (s : Machine) : Prop :=
  ∀ pc, k.next code pre s = some pc → InRange pc

theorem Kind.continues_iff {k : Kind} {pc : Int} (h : k.next code pre s = some pc) :
    k.Continues code pre s ↔ InRange pc := by
  unfold Kind.Continues
  rw [h]
  exact ⟨fun hall => hall pc rfl, fun hpc _ heq => Option.some.inj heq ▸ hpc⟩

theorem Kind.reaches_and_continues (k : Kind) (code : BitVec 8) (pre : Bool) (s : Machine) :
    k.Reaches code pre s ∧ k.Continues code pre s ↔ k.Fits code pre s := by
  have hea := address_inRange code pre s
  cases k with
  | stop => exact (and_iff_right trivial).trans (continues_iff rfl)
  | straight n => exact (and_iff_right trivial).trans (continues_iff rfl)
  | fixed n => exact (and_iff_right trivial).trans (continues_iff rfl)
  | push => exact (and_iff_right trivial).trans (continues_iff rfl)
  | pull => exact and_congr_right fun _ => continues_iff rfl
  | operand => exact and_congr hea (continues_iff rfl)
  | jump => exact (and_iff_right trivial).trans ((continues_iff rfl).trans hea)
  | jsr => exact and_congr_right fun _ => (continues_iff rfl).trans hea
  | bsr => exact and_congr_right fun _ => continues_iff rfl
  | swi => exact and_iff_left nofun
  | rts => exact and_iff_left nofun
  | rti => exact and_iff_left nofun
  | branch n => exact (and_iff_right trivial).trans ((continues_iff rfl).trans (branchTo_inRange n))
  | branchOperand => exact and_congr hea ((continues_iff rfl).trans (branchTo_inRange _))

theorem Follows.continues {x : Prog Res} {k : Kind} (h : Follows x k code pre s) :
    InRange (x.run s).2.PC ↔ k.Continues code pre s := by
  have hPC := h.PC
  cases hnext : k.next code pre s with
  | some pc =>
    rw [hnext] at hPC
    rw [Kind.continues_iff hnext, ← hPC]
  | none =>
    rw [hnext] at hPC
    obtain ⟨v, hv⟩ := hPC
    rw [hv]
    refine iff_of_true (word_inRange v) fun pc heq => ?_
    rw [hnext] at heq
    exact absurd heq nofun

/-! ## The instruction -/

namespace Machine

/-- No address has been passed to `ram`. -/
def fresh (s : Machine) : Machine := { s with accesses := [] }

/-- The instruction at PC passes addresses to `ram` that it has, and leaves PC in its range. -/
def Stays (s : Machine) : Prop := s.fresh.step.Within ∧ InRange s.fresh.step.PC

/-- The instruction at PC takes the reset vector, or its sums stay in the range. -/
def Fits (s : Machine) : Prop := s.regs.VECTOR ∨ s.kindOf.Fits s.opcode s.prefixed s.body

end Machine

section Fresh

variable (s : Machine) (code : BitVec 8) (pre : Bool)

theorem fresh_body : s.fresh.body = s.body.fresh := by
  have hpre : s.fresh.prefixed = s.prefixed := rfl
  unfold Machine.body
  rw [hpre]
  split <;> rfl

theorem fresh_address : address code pre s.fresh = address code pre s := rfl

theorem fresh_displacement (n : Nat) : displacement code pre s.fresh n = displacement code pre s n := by
  unfold displacement
  rw [fresh_address]
  split
  · unfold Machine.nextByte
    rw [Machine.stored_PC, Machine.stored_PC]
    exact Machine.byteAt_stored (s := s) (t := s.fresh) rfl rfl _ _ _
  · rfl

theorem fresh_branchFits (n : Nat) : BranchFits code pre s.fresh n ↔ BranchFits code pre s n := by
  have htakes : takes code pre s.fresh = takes code pre s := rfl
  unfold BranchFits
  rw [fresh_displacement, htakes]
  rfl

/-- The conditions do not depend on the log of accesses. -/
theorem fresh_fits (k : Kind) : k.Fits code pre s.fresh ↔ k.Fits code pre s := by
  cases k with
  | branch n => exact fresh_branchFits s code pre n
  | branchOperand => exact and_congr_right fun _ => fresh_branchFits s code pre _
  | _ => exact Iff.rfl

/-- Taking the reset vector. -/
theorem exec_inst_vector {s : Machine} (h : s.regs.VECTOR = true) : exec_inst.run s = (do
    setPC (← get2 0xfffe).toNat
    onRegs fun r => { r with VECTOR := false }
    return .go : Prog Res).run s := by
  have hrun : exec_inst.run s = (if s.regs.VECTOR then do
      setPC (← get2 0xfffe).toNat
      onRegs fun r => { r with VECTOR := false }
      return .go
    else execute : Prog Res).run s := rfl
  rw [hrun, h]
  rfl

theorem vector_stays (h : s.regs.VECTOR = true) : s.Stays := by
  have hstep := congrArg Prod.snd (exec_inst_vector (s := s.fresh) h)
  have hwithin : s.fresh.step.Within ↔ ((get2 0xfffe).run s.fresh).2.Within := by
    unfold Machine.step
    rw [hstep]
    exact Machine.within_congr rfl
  refine ⟨?_, ?_⟩
  · rw [hwithin, get2_within]
    exact ⟨nofun, by decide, by decide⟩
  · unfold Machine.step
    rw [hstep]
    exact word_inRange _

end Fresh

/-- Every address that an instruction passes to `ram`, and PC after it, is in 0..0xFFFF if and only if the sums for
its effective address, for its place on the stack and for its target are. -/
theorem stays_iff_fits (s : Machine) : s.Stays ↔ s.Fits := by
  unfold Machine.Fits
  by_cases h : s.regs.VECTOR = true
  · exact iff_of_true (vector_stays s h) (.inl h)
  obtain ⟨x, hrun, hfollows⟩ := exec_follows (s := s.fresh) (Bool.eq_false_of_not_eq_true h)
  have hstep : s.fresh.step = (x.run s.fresh.body).2 := congrArg Prod.snd hrun
  have hnone : s.fresh.body.Within := by
    rw [fresh_body]
    exact nofun
  unfold Machine.Stays
  rw [hstep, hfollows.within, hfollows.continues, and_iff_right hnone, Kind.reaches_and_continues, fresh_body, fresh_fits,
    or_iff_right h]
  rfl

/-- `LDA 1,X` with 0xFFFF in H:X. -/
def indexedLoad : Machine where
  regs := { A := 0, P := 0x60, H := 0xff, X := 0xff, SP := 0xff, VECTOR := false }
  PC := 0x8000
  ram := fun addr => if addr = 0x8000 then 0xe6 else if addr = 0x8001 then 0x01 else 0
  dummy := fun _ => 0
  ticks := 0
  out := []
  accesses := []

/-- The load reads at 0x10000. -/
theorem indexedLoad_leaves : ¬ ∀ s : Machine, InRange s.PC → s.Stays := by
  intro h
  have hstays := (h indexedLoad (by decide)).1
  exact absurd (hstays 0x10000 (by decide)) (by decide)

end Ucsim.Hc08
