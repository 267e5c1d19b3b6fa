import Ucsim.Hc08.Branches

/-!
# Bit instructions of the HC08

BSET and BCLR (0x10 to 0x1F) change a bit of a byte in the direct page, BRSET and BRCLR (0x00 to 0x0F)
branch on one. The number of the bit is in bits 1 to 3 of the opcode; the even opcodes are BSET and BRSET.
-/

namespace Ucsim.Hc08

open Logic.Bits

/-! ## The bit of an instruction -/

/-- BCLR and BRCLR. -/
def IsClear (code : BitVec 8) : Prop := code &&& 1 ≠ 0

instance (code : BitVec 8) : Decidable (IsClear code) := inferInstanceAs (Decidable (_ ≠ _))

/-- The number of the bit. -/
def bitNumber (code : BitVec 8) : Nat := (code >>> 1 &&& 7).toNat

namespace Machine

variable (s : Machine)

/-- The address of the operand. -/
def direct : BitVec 16 := s.skip.code.setWidth 16

/-- The bit that the instruction at PC names. -/
def bit : Bool := (s.ram s.direct).getLsbD (bitNumber s.code)

/-- The displacement of an instruction of three bytes. -/
def lastOffset : Int := s.skip.skip.code.toInt

/-- Exactly the bit that the instruction names is changed, to `b`. -/
def SetsBit (b : Bool) : Prop :=
  ∀ a k, k < 8 → (s.step.ram a).getLsbD k =
    if a = s.direct ∧ k = bitNumber s.code then b else (s.ram a).getLsbD k

/-- PC is behind the three bytes of the instruction, and behind that by the displacement when `b` holds;
addresses are taken modulo 0x10000. -/
def BranchesIf (b : Bool) : Prop :=
  s.step.PC % 0x10000 = (if b then advance 3 s.PC + s.lastOffset else advance 3 s.PC) % 0x10000

/-- What a bit instruction should do: BSET and BCLR change the bit, BRSET and BRCLR branch on it, copy it
to C and leave the memory as it is. -/
def BitRight : Prop :=
  if high s.code = 1 then s.SetsBit (!IsClear s.code)
  else s.BranchesIf (s.bit ^^ IsClear s.code) ∧ s.step.regs.has BIT_C = s.bit ∧ s.step.ram = s.ram

end Machine

theorem bitNumber_lt (code : BitVec 8) : bitNumber code < 8 := by
  rw [bitNumber, BitVec.toNat_and]
  exact Nat.lt_of_le_of_lt Nat.and_le_right (by decide)

theorem bitOf_eq_twoPow (code : BitVec 8) : bitOf code = BitVec.twoPow 8 (bitNumber code) := by
  rw [bitOf, bitNumber, BitVec.twoPow_eq]

/-- The mask of the instruction picks the bit. -/
theorem and_bitOf (m : BitVec 8) (code : BitVec 8) :
    decide (m &&& bitOf code ≠ 0) = m.getLsbD (bitNumber code) := by
  rw [bitOf_eq_twoPow]
  exact and_twoPow m (bitNumber_lt code)

theorem setBit_bitOf (m code : BitVec 8) :
    (if IsClear code then m &&& ~~~bitOf code else m ||| bitOf code) =
      setBit m (bitNumber code) (!IsClear code) := by
  rw [bitOf_eq_twoPow, setBit]
  by_cases hclear : IsClear code <;> simp [hclear]

/-! ## The instructions -/

variable {code : BitVec 8} {s : Machine}

/-- The byte in the direct page. -/
theorem byteAt_direct (t : Machine) (x : BitVec 8) : t.byteAt (x.toNat : Int) = t.ram (x.setWidth 16) := by
  have hlt := x.isLt
  have hin : InRange (x.toNat : Int) := ⟨by omega, by omega⟩
  rw [Machine.byteAt, if_pos hin]
  congr 1
  apply BitVec.eq_of_toNat_eq
  rw [BitVec.toNat_setWidth, BitVec.ofInt_natCast, BitVec.toNat_ofNat]

theorem stored_direct (t : Machine) (x val : BitVec 8) :
    (t.stored (x.toNat : Int) val).ram = Function.update t.ram (x.setWidth 16) val := by
  have hlt := x.isLt
  have hin : InRange (x.toNat : Int) := ⟨by omega, by omega⟩
  have haddr : BitVec.ofInt 16 (x.toNat : Int) = x.setWidth 16 := by
    apply BitVec.eq_of_toNat_eq
    rw [BitVec.toNat_setWidth, BitVec.ofInt_natCast, BitVec.toNat_ofNat]
  rw [Machine.stored, if_pos hin, haddr]

/-- The operand of a bit instruction is in the direct page. -/
theorem address_direct (h : high code = 0 ∨ high code = 1) (t : Machine) :
    address code false t = (t.nextByte 0).toNat := by
  unfold address
  rcases h with h | h <;> rw [h] <;> rfl

theorem operandBytes_direct (h : high code = 0 ∨ high code = 1) : operandBytes code = 1 := by
  unfold operandBytes
  rcases h with h | h <;> rw [h] <;> rfl

/-- BSET and BCLR write the byte with the bit set or cleared. -/
theorem inst_bitsetclear_ram (h : high code = 1) (t : Machine) :
    ((inst_bitsetclear code false).run t).2.ram =
      Function.update t.ram ((t.nextByte 0).setWidth 16)
        (if IsClear code then t.ram ((t.nextByte 0).setWidth 16) &&& ~~~bitOf code
          else t.ram ((t.nextByte 0).setWidth 16) ||| bitOf code) := by
  have hrun : (inst_bitsetclear code false).run t = (go (do
      let m ← get1 ((fetchea code false).run t).1
      if code &&& 1 ≠ 0 then store1 ((fetchea code false).run t).1 (m &&& ~~~bitOf code)
      else store1 ((fetchea code false).run t).1 (m ||| bitOf code))).run ((fetchea code false).run t).2 := rfl
  rw [fetchea_run, address_direct (.inr h), operandBytes_direct (.inr h)] at hrun
  rw [hrun, ← byteAt_direct]
  by_cases hclear : IsClear code
  · have hodd : code &&& 1 ≠ 0 := hclear
    simp only [if_pos hodd, if_pos hclear]
    exact stored_direct _ _ _
  · have heven : ¬ code &&& 1 ≠ 0 := hclear
    simp only [if_neg heven, if_neg hclear]
    exact stored_direct _ _ _

/-- The condition of the branch: the bit for the odd opcodes, its negation for the even ones. -/
theorem bittest_taken (code m : BitVec 8) :
    (if code &&& 1 ≠ 0 then decide (m &&& bitOf code ≠ 0) else decide (m &&& bitOf code = 0)) =
      (m.getLsbD (bitNumber code) ^^ !IsClear code) := by
  rw [← and_bitOf]
  by_cases hclear : IsClear code
  · have hodd : code &&& 1 ≠ 0 := hclear
    simp only [if_pos hodd, hclear, decide_true, Bool.not_true, Bool.xor_false]
  · have heven : ¬ code &&& 1 ≠ 0 := hclear
    simp only [if_neg heven, hclear, decide_false, Bool.not_false, Bool.xor_true, decide_not, Bool.not_not]

/-- What BRSET and BRCLR leave. -/
theorem inst_bittestsetclear_run (h : high code = 0) (t : Machine) {b : Bool}
    (hb : (t.ram ((t.nextByte 0).setWidth 16)).getLsbD (bitNumber code) = b) :
    ((inst_bittestsetclear code false).run t).2.PC =
        (if b ^^ !IsClear code then advance 2 t.PC + (t.nextByte 1).toInt else advance 2 t.PC) ∧
      ((inst_bittestsetclear code false).run t).2.regs = t.regs.FLAG_ASSIGN BIT_C b ∧
      ((inst_bittestsetclear code false).run t).2.ram = t.ram := by
  have hrun : (inst_bittestsetclear code false).run t = (go (do
      let m ← get1 ((fetchea code false).run t).1
      let ofs ← fetch
      branchIf (if code &&& 1 ≠ 0 then m &&& bitOf code ≠ 0 else m &&& bitOf code = 0) ofs
      onRegs (Regs.FLAG_ASSIGN BIT_C (m &&& bitOf code ≠ 0)))).run ((fetchea code false).run t).2 := rfl
  rw [fetchea_run, address_direct (.inl h), operandBytes_direct (.inl h)] at hrun
  have hm : (t.byteAt (t.nextByte 0).toNat).getLsbD (bitNumber code) = b := by rw [byteAt_direct, hb]
  have htaken := bittest_taken code (t.byteAt (t.nextByte 0).toNat)
  have hcarry := and_bitOf (t.byteAt (t.nextByte 0).toNat) code
  rw [hm] at htaken hcarry
  have hend : ((inst_bittestsetclear code false).run t).2 = ((do
      branchIf (b ^^ !IsClear code) (t.nextByte 1)
      onRegs (Regs.FLAG_ASSIGN BIT_C b) : Prog Unit).run
        { (t.skips 2) with accesses := (t.nextByte 0).toNat :: t.accesses }).2 := by
    rw [hrun, ← htaken, ← hcarry]
    rfl
  rw [hend]
  cases (b ^^ !IsClear code) <;> exact ⟨rfl, rfl, rfl⟩

/-! ## A step -/

theorem step_bitsetclear (hV : s.regs.VECTOR = false) (h : high s.code = 1) :
    s.step = ((inst_bitsetclear s.code false).run s.fetched).2 := by
  have hdispatch : dispatch s.code = inst_bitsetclear s.code false := by
    unfold dispatch
    rw [h]
    rfl
  rw [← hdispatch]
  exact congrArg Prod.snd (exec_inst_run hV)

theorem step_bittestsetclear (hV : s.regs.VECTOR = false) (h : high s.code = 0) :
    s.step = ((inst_bittestsetclear s.code false).run s.fetched).2 := by
  have hdispatch : dispatch s.code = inst_bittestsetclear s.code false := by
    unfold dispatch
    rw [h]
    rfl
  rw [← hdispatch]
  exact congrArg Prod.snd (exec_inst_run hV)

/-- BSET and BCLR change exactly their bit. -/
theorem setsBit_step (hV : s.regs.VECTOR = false) (h : high s.code = 1) : s.SetsBit (!IsClear s.code) := by
  intro a k _
  have hdirect : (s.fetched.nextByte 0).setWidth 16 = s.direct := rfl
  have hram : s.fetched.ram = s.ram := rfl
  rw [step_bitsetclear hV h, inst_bitsetclear_ram h, hdirect, hram, setBit_bitOf, Function.update_apply]
  by_cases ha : a = s.direct
  · subst ha
    rw [if_pos rfl, getLsbD_setBit (bitNumber_lt _)]
    exact if_congr (and_iff_right rfl).symm rfl rfl
  · rw [if_neg ha, if_neg fun hc => ha hc.1]

/-- Where BRSET and BRCLR go on. -/
theorem bittest_step (hV : s.regs.VECTOR = false) (h : high s.code = 0) :
    s.step.PC = (if s.bit ^^ !IsClear s.code then advance 3 s.PC + s.lastOffset else advance 3 s.PC) ∧
      s.step.regs.has BIT_C = s.bit ∧ s.step.ram = s.ram := by
  obtain ⟨hPC, hregs, hram⟩ := inst_bittestsetclear_run h s.fetched (b := s.bit) rfl
  rw [step_bittestsetclear hV h]
  refine ⟨hPC, ?_, hram⟩
  rw [hregs]
  exact has_assign_self _ _ (by decide)

/-- A branch and the instruction behind it are different places unless the displacement is 0. -/
theorem branchesIf_not_iff (s : Machine) {b : Bool}
    (hPC : s.step.PC = if !b then advance 3 s.PC + s.lastOffset else advance 3 s.PC) :
    s.BranchesIf b ↔ s.lastOffset = 0 := by
  have hlow := BitVec.le_toInt s.skip.skip.code
  have hhigh := BitVec.toInt_lt (x := s.skip.skip.code)
  have hoffset : s.lastOffset = s.skip.skip.code.toInt := rfl
  rw [Machine.BranchesIf, hPC]
  cases b with
  | true =>
    simp only [Bool.not_true, Bool.false_eq_true, if_false, if_true]
    omega
  | false =>
    simp only [Bool.not_false, Bool.false_eq_true, if_false, if_true]
    omega

/-- BSET and BCLR are right. BRSET and BRCLR copy the bit to C and leave the memory, but they branch the
wrong way round, so that they are right only if they go on at the same place in both cases. -/
theorem bitRight_iff (hV : s.regs.VECTOR = false) (h : high s.code = 0 ∨ high s.code = 1) :
    s.BitRight ↔ high s.code = 1 ∨ s.lastOffset = 0 := by
  unfold Machine.BitRight
  rcases h with h | h
  · have hne : ¬ high s.code = 1 := by omega
    obtain ⟨hPC, hC, hram⟩ := bittest_step hV h
    have hother : (s.bit ^^ !IsClear s.code) = !(s.bit ^^ IsClear s.code) := by
      cases s.bit <;> simp
    rw [hother] at hPC
    rw [if_neg hne, branchesIf_not_iff s hPC, or_iff_right hne]
    exact and_iff_left ⟨hC, hram⟩
  · rw [if_pos h]
    exact iff_of_true (setsBit_step hV h) (.inl h)

/-- An instruction with the direct address 0x40 at 0x8000, a displacement of 4, and a byte at 0x40. -/
def bitMachine (code m : BitVec 8) : Machine where
  regs := { A := 0, P := 0x60, H := 0, X := 0, SP := 0xff, VECTOR := false }
  PC := 0x8000
  ram := fun addr =>
    if addr = 0x8000 then code else if addr = 0x8001 then 0x40 else if addr = 0x8002 then 0x04
    else if addr = 0x40 then m else 0
  dummy := fun _ => 0
  ticks := 0
  out := []
  accesses := []

/-- BSET 3. -/
theorem bitRight_bset_3 : (bitMachine 0x16 0).BitRight :=
  (bitRight_iff (s := bitMachine 0x16 0) rfl (by decide)).mpr (by decide)

/-- `BRSET 0` does not branch although the bit is 1. -/
theorem brset_not_right : (bitMachine 0x00 1).bit = true ∧ (bitMachine 0x00 1).step.PC = 0x8003 ∧
    ¬ (bitMachine 0x00 1).BitRight := by
  refine ⟨by decide, (bittest_step (s := bitMachine 0x00 1) rfl (by decide)).1, fun h => ?_⟩
  have hbranches : (bitMachine 0x00 1).BranchesIf true := h.1
  have hzero := (branchesIf_not_iff _ (bittest_step (s := bitMachine 0x00 1) rfl (by decide)).1).1 hbranches
  exact absurd hzero (by decide)

end Ucsim.Hc08
