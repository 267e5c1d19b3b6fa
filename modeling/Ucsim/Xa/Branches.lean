import Ucsim.Xa.Exec

/-!
# Relative branches

A displacement counts words. Most branches take its byte for a number without sign, so that they never go back. The signed
comparisons of flags fail where N and V are both set. `CJNE` goes on where its operands are equal, and finds the second one
elsewhere than `get_dir_name` shows it.
-/

namespace Ucsim.Xa

/-! ## What a branch should do -/

def Mnemonic.isBranch : Mnemonic → Bool
  | .BCC | .BCS | .BEQ | .BG | .BGE | .BGT | .BL | .BLE | .BLT | .BMI | .BNE | .BNV | .BOV | .BPL | .BR | .JB | .JNB
  | .JBC | .JZ | .JNZ | .CJNE | .DJNZ => true
  | _ => false

/-- Where the displacement is. -/
def relAt : Operands → Nat
  | .REL8 => 1
  | .BIT_REL8 | .DIRECT_REL8 | .REG_DIRECT_REL8 => 3
  | _ => 2

/-- The flags on which a conditional branch has to be taken: of a comparison, that the destination is greater or less than
the source, without or with a sign. -/
def flagCondition (flags : BitVec 8) : Mnemonic → Bool
  | .BCC => !has flags BIT_C
  | .BCS => has flags BIT_C
  | .BEQ => has flags BIT_Z
  | .BG => !(has flags BIT_Z || has flags BIT_C)
  | .BGE => has flags BIT_N == has flags BIT_V
  | .BGT => !has flags BIT_Z && has flags BIT_N == has flags BIT_V
  | .BL => has flags BIT_Z || has flags BIT_C
  | .BLE => has flags BIT_Z || has flags BIT_N != has flags BIT_V
  | .BLT => has flags BIT_N != has flags BIT_V
  | .BMI => has flags BIT_N
  | .BNE => !has flags BIT_Z
  | .BNV => !has flags BIT_V
  | .BOV => has flags BIT_V
  | .BPL => !has flags BIT_N
  | _ => true

/-- A branch takes the flags for the opposite: N and V are set, and the code compares them as numbers. -/
def flagsMistaken (flags : BitVec 8) : Mnemonic → Bool
  | .BGE | .BLT => has flags BIT_N && has flags BIT_V
  | .BGT | .BLE => !has flags BIT_Z && has flags BIT_N && has flags BIT_V
  | _ => false

namespace Machine

variable (s : Machine) (code : BitVec 16)

/-- The bit of a `JB`. -/
def bit : Bool :=
  let bit := (code &&& 3) <<< 8 + (s.codeAt 2).setWidth 16
  decide (s.direct1 (byteOfBit bit) &&& maskOfBit bit ≠ 0)

/-- The operands of a `CJNE` differ. -/
def Differ : Operands → Prop
  | .REG_DIRECT_REL8 =>
    if IsWord code then s.wordReg (RI_F0 code) ≠ s.direct2 (s.directAddr code)
    else s.byteReg (RI_F0 code) ≠ s.direct1 (s.directAddr code)
  | .REG_DATA8_REL8 => s.byteReg (RI_F0 code) ≠ s.codeAt 3
  | .REG_DATA16_REL8 => s.wordReg (RI_F0 code) ≠ s.codeAt 3 ++ s.codeAt 4
  | .IREG_DATA8_REL8 => s.mem1 (s.wordReg (RI_70 code)).toNat ≠ s.codeAt 3
  | _ => s.mem2 (s.wordReg (RI_70 code)).toNat ≠ s.codeAt 3 ++ s.codeAt 4

/-- The operand of a `DJNZ` is not zero when it has been decremented. -/
def Counts : Operands → Prop
  | .REG_REL8 =>
    if IsWord code then s.wordReg (RI_F0 code) - 1 ≠ 0 else s.byteReg (RI_F0 code) - 1 ≠ 0
  | _ =>
    if IsWord code then s.direct2 (s.directAddr code) - 1 ≠ 0 else s.direct1 (s.directAddr code) - 1 ≠ 0

/-- The branch has to be taken. -/
def Taken (row : DisEntry) : Prop :=
  match row.mnemonic with
  | .CJNE => s.Differ code row.operands
  | .DJNZ => s.Counts code row.operands
  | .JB | .JBC => s.bit code = true
  | .JNB => s.bit code = false
  | .JZ => s.byteReg 8 = 0
  | .JNZ => s.byteReg 8 ≠ 0
  | mnemonic => flagCondition s.psw mnemonic = true

variable (row : DisEntry)

def rel : BitVec 8 := s.codeAt (relAt row.operands)

/-- The address after the instruction. -/
def after : Int := s.place row.length

/-- The target: the displacement counts words from the address after the instruction, and the sum is made even. -/
def target : Int := (2 * (s.rel row).toInt + s.PC + row.length) % 0x10000 / 2 * 2

/-- The branch goes on where it should. -/
def RightBranch : Prop := (s.Taken code row → s.step.PC = s.target row) ∧ (¬ s.Taken code row → s.step.PC = s.after row)

/-! ## When it does -/

/-- The target is ahead and inside of `rom`. -/
def Forward : Prop := (s.rel row).toNat < 0x80 ∧ s.after row + 2 * (s.rel row).toNat < 0x10000

/-- The byte that `CJNE` takes for its second operand. -/
def cjneByte : BitVec 8 := s.direct1 ((code &&& 7) <<< 4 ||| (s.codeAt 2).setWidth 16)

/-- The word that it takes, with one more byte fetched. -/
def cjneWord : BitVec 16 :=
  s.direct1 ((code &&& 7) <<< 4 ||| ((s.codeAt 3).setWidth 16 + 1)) ++
    s.direct1 ((code &&& 7) <<< 4 ||| (s.codeAt 2).setWidth 16)

/-- The register equals what `CJNE` compares it with. -/
def FoundEqual : Prop :=
  if IsWord code then s.wordReg (RI_F0 code) = s.cjneWord code else s.byteReg (RI_F0 code) = s.cjneByte code

instance : Decidable (s.FoundEqual code) := by
  unfold FoundEqual
  infer_instance

/-- When `CJNE` with a direct operand goes on where it should. -/
def CjneRight : Prop :=
  if IsWord code then
    s.Differ code row.operands ∧ s.after row % 2 = 1 ∧
      (s.FoundEqual code → (s.rel row).toInt = (s.codeAt 4).toNat + 1 ∧
        s.place 5 + 2 * (s.codeAt 4).toNat < 0x10000) ∧
      (¬ s.FoundEqual code → s.rel row = 1)
  else
    (s.Differ code row.operands → s.after row % 2 = 0 ∧ (s.FoundEqual code → s.Forward row) ∧
      (¬ s.FoundEqual code → s.rel row = 0)) ∧
    (¬ s.Differ code row.operands → s.FoundEqual code → s.rel row = 0)

/-- When a branch goes on where it should. -/
def BranchFits : Prop :=
  match row.mnemonic, row.operands with
  | .CJNE, .REG_DIRECT_REL8 => s.CjneRight code row
  | .CJNE, _ => s.Differ code row.operands ∧ s.rel row = 0xff ∧ s.PC % 2 = 0
  | .DJNZ, .REG_REL8 => s.Taken code row →
    0 ≤ s.after row + 2 * (s.rel row).toInt ∧ s.after row + 2 * (s.rel row).toInt < 0x10000
  | .DJNZ, _ | .JZ, _ => s.Taken code row → s.Forward row ∧ s.after row % 2 = 0
  | mnemonic, _ =>
    if flagsMistaken s.psw mnemonic then s.after row % 2 = 0 ∧ s.rel row = 0 else s.Taken code row → s.Forward row

end Machine

/-! ## Where the instructions go on -/

section Runs

variable (s : Machine) (code : BitVec 16)

theorem rel8_run (n : Nat) : rel8.run (s.advanced n) = (2 * ((s.codeAt n).toNat : Int), s.advanced (n + 1)) := by
  unfold rel8
  rw [run_bind_of (Machine.fetch_advanced _)]
  rfl

theorem directReg_run : (directReg code).run (s.advanced 2) = (s.directAddr code, s.advanced 3) := by
  unfold directReg
  rw [run_bind_of (Machine.fetch_advanced _)]
  rfl

theorem bitAddr_run : (bitAddr code).run (s.advanced 2) = ((code &&& 3) <<< 8 + (s.codeAt 2).setWidth 16, s.advanced 3) := by
  unfold bitAddr
  rw [run_bind_of (Machine.fetch_advanced _)]
  rfl

/-- Where a branch that is taken goes on. -/
def Machine.jumped (n : Nat) : Int := even24 (s.place (n + 1) + 2 * (s.codeAt n).toNat)

theorem branch_PC (taken : BitVec 8 → Bool) :
    ((branch taken).run (s.advanced 1)).2.PC = if taken s.psw then s.jumped 1 else s.place 2 := by
  unfold branch
  rw [run_bind_of (rel8_run s 1)]
  change (StateT.run (if taken s.psw then jumpEven _ else pure () : Prog Unit) (s.advanced 2)).2.PC = _
  cases taken s.psw <;> rfl

theorem jb_PC : ((inst_JB code).run (s.advanced 2)).2.PC = if s.bit code then s.jumped 3 else s.place 4 := by
  unfold inst_JB
  rw [run_bind_of (bitAddr_run s code), run_bind_of (rel8_run s 3)]
  change (StateT.run (if s.bit code then jumpEven _ else pure () : Prog Unit) (s.advanced 4)).2.PC = _
  cases s.bit code <;> rfl

theorem jnb_PC : ((inst_JNB code).run (s.advanced 2)).2.PC = if s.bit code = false then s.jumped 3 else s.place 4 := by
  unfold inst_JNB
  rw [run_bind_of (bitAddr_run s code), run_bind_of (rel8_run s 3)]
  change (StateT.run (if !s.bit code then jumpEven _ else pure () : Prog Unit) (s.advanced 4)).2.PC = _
  cases s.bit code <;> rfl

theorem jbc_PC : ((inst_JBC code).run (s.advanced 2)).2.PC = if s.bit code then s.jumped 3 else s.place 4 := by
  unfold inst_JBC
  rw [run_bind_of (bitAddr_run s code), run_bind_of (rel8_run s 3)]
  change (StateT.run (do
    if s.bit code then jumpEven _
    set_bit _ false : Prog Unit) (s.advanced 4)).2.PC = _
  cases s.bit code <;> rfl

theorem jnz_PC : (inst_JNZ.run (s.advanced 1)).2.PC = if s.byteReg 8 ≠ 0 then s.jumped 1 else s.place 2 := by
  unfold inst_JNZ
  rw [run_bind_of (rel8_run s 1)]
  change (StateT.run (if s.byteReg 8 ≠ 0 then jumpEven _ else pure () : Prog Unit) (s.advanced 2)).2.PC = _
  split <;> rfl

theorem jz_PC : (inst_JZ.run (s.advanced 1)).2.PC =
    if s.byteReg 8 = 0 then s.place 2 + 2 * (s.codeAt 1).toNat else s.place 2 := by
  unfold inst_JZ
  rw [run_bind_of (rel8_run s 1)]
  change (StateT.run (if s.byteReg 8 = 0 then jumpBy _ else pure () : Prog Unit) (s.advanced 2)).2.PC = _
  split <;> rfl

theorem djnz_direct_PC : ((decrementDirect code).run (s.advanced 2)).2.PC =
    if IsWord code ∧ s.direct2 (s.directAddr code) - 1 ≠ 0 ∨ ¬ IsWord code ∧ s.direct1 (s.directAddr code) - 1 ≠ 0 then
      s.place 4 + 2 * (s.codeAt 3).toNat
    else s.place 4 := by
  unfold decrementDirect
  rw [run_bind_of (directReg_run s code), run_bind_of (rel8_run s 3)]
  by_cases hword : IsWord code
  · simp only [hword, not_true_eq_false, false_and, true_and, or_false, if_true]
    change (StateT.run (do
      set_word_direct _ (return s.direct2 (s.directAddr code) - 1)
      if s.direct2 (s.directAddr code) - 1 ≠ 0 then jumpBy _ else pure () : Prog Unit) (s.advanced 4)).2.PC = _
    split <;> rfl
  · simp only [hword, not_false_eq_true, false_and, true_and, false_or, if_false]
    have hbyte : s.direct1 (s.directAddr code) - 1 = low (s.direct2 (s.directAddr code) - 1) := by
      rw [low_sub, Machine.low_direct2]
      rfl
    rw [hbyte]
    change (StateT.run (do
      set_byte_direct _ (low (s.direct2 (s.directAddr code) - 1))
      if low (s.direct2 (s.directAddr code) - 1) ≠ 0 then jumpBy _ else pure () : Prog Unit) (s.advanced 4)).2.PC = _
    split <;> rfl

theorem djnz_reg_PC : ((inst_DJNZ code .REG_REL8).run (s.advanced 2)).2.PC =
    if IsWord code ∧ s.wordReg (RI_F0 code) - 1 ≠ 0 ∨ ¬ IsWord code ∧ s.byteReg (RI_F0 code) - 1 ≠ 0 then
      even24 (s.place 3 + 2 * (s.codeAt 2).toInt)
    else s.place 3 := by
  unfold inst_DJNZ
  dsimp only
  rw [run_bind_of (Machine.fetch_advanced _)]
  by_cases hword : IsWord code
  · simp only [hword, not_true_eq_false, false_and, true_and, or_false, if_true]
    change (StateT.run (do
      set_psw _
      set_reg2 (RI_F0 code) (return s.wordReg (RI_F0 code) - 1)
      if s.wordReg (RI_F0 code) - 1 ≠ 0 then jumpEven _ else pure () : Prog Unit) (s.advanced 3)).2.PC = _
    split <;> rfl
  · simp only [hword, not_false_eq_true, false_and, true_and, false_or, if_false]
    change (StateT.run (do
      set_psw _
      set_reg1 (RI_F0 code) (s.byteReg (RI_F0 code) - 1)
      if s.byteReg (RI_F0 code) - 1 ≠ 0 then jumpEven _ else pure () : Prog Unit) (s.advanced 3)).2.PC = _
    split <;> rfl

/-- `CJNE` leaves Z for the operands it has found equal. -/
theorem cjneFlags_Z {w : Nat} (dst src : BitVec w) (flags : BitVec 8) :
    has (cjneFlags dst src flags) BIT_Z = decide (dst = src) := by
  have hflags : ∀ (less equal : Bool) (flags : BitVec 8),
      has (orIf (less = true) BIT_N (orIf (equal = true) BIT_Z (flags &&& ~~~BIT_ALL))) BIT_Z = equal := by
    decide +kernel
  have hcase := hflags (decide (dst < src)) (decide (dst = src)) flags
  simpa only [cjneFlags, orIf, decide_eq_true_eq] using hcase

theorem jumpOnZero_PC (flags : BitVec 8) (addr : Int) :
    ((do
      set_psw flags
      if has flags BIT_Z then jumpBy addr : Prog Unit).run s).2.PC =
    if has flags BIT_Z = true then s.PC + addr else s.PC := by
  cases has flags BIT_Z <;> rfl

theorem cjne_word_PC (hword : IsWord code) : ((inst_CJNE code .REG_DIRECT_REL8).run (s.advanced 2)).2.PC =
    if s.FoundEqual code then s.place 5 + 2 * (s.codeAt 4).toNat else s.place 5 := by
  have hrun : ((inst_CJNE code .REG_DIRECT_REL8).run (s.advanced 2)).2.PC =
      if has (cjneFlags (s.wordReg (RI_F0 code)) (s.cjneWord code) s.psw) BIT_Z = true then
        s.place 5 + 2 * (s.codeAt 4).toNat
      else s.place 5 := by
    unfold inst_CJNE
    dsimp only
    rw [if_pos hword, run_bind_of (Machine.fetch_advanced _), run_bind_of (get_byte_direct_run _ _),
      run_bind_of (Machine.fetch_advanced _), run_bind_of (get_byte_direct_run _ _), run_bind_of (rel8_run s 4),
      run_bind_of (reg2_run _ _), run_bind_of (get_psw_run _)]
    exact jumpOnZero_PC (s.advanced 5) _ _
  rw [hrun, cjneFlags_Z]
  unfold Machine.FoundEqual
  simp only [hword, if_true, decide_eq_true_eq]

theorem cjne_byte_PC (hword : ¬ IsWord code) : ((inst_CJNE code .REG_DIRECT_REL8).run (s.advanced 2)).2.PC =
    if s.FoundEqual code then s.place 4 + 2 * (s.codeAt 3).toNat else s.place 4 := by
  have hrun : ((inst_CJNE code .REG_DIRECT_REL8).run (s.advanced 2)).2.PC =
      if has (cjneFlags (s.byteReg (RI_F0 code)) (s.cjneByte code) s.psw) BIT_Z = true then
        s.place 4 + 2 * (s.codeAt 3).toNat
      else s.place 4 := by
    unfold inst_CJNE
    dsimp only
    rw [if_neg hword, run_bind_of (Machine.fetch_advanced _), run_bind_of (get_byte_direct_run _ _),
      run_bind_of (rel8_run s 3), run_bind_of (reg1_run _ _), run_bind_of (get_psw_run _)]
    exact jumpOnZero_PC (s.advanced 4) _ _
  rw [hrun, cjneFlags_Z]
  unfold Machine.FoundEqual
  simp only [hword, if_false, decide_eq_true_eq]

end Runs

/-! ## The rows -/

/-- The operands and the length of a branch. -/
def DisEntry.IsBranchRow (row : DisEntry) : Prop :=
  match row.mnemonic with
  | .CJNE => row.is1byte = false ∧
    (row.operands = .REG_DIRECT_REL8 ∧ row.length = 4 ∨ row.operands = .REG_DATA8_REL8 ∧ row.length = 4 ∨
      row.operands = .REG_DATA16_REL8 ∧ row.length = 5 ∨ row.operands = .IREG_DATA8_REL8 ∧ row.length = 4 ∨
      row.operands = .IREG_DATA16_REL8 ∧ row.length = 5)
  | .DJNZ => row.is1byte = false ∧
    (row.operands = .REG_REL8 ∧ row.length = 3 ∨ row.operands = .DIRECT_REL8 ∧ row.length = 4)
  | .JB | .JBC | .JNB => row.is1byte = false ∧ row.operands = .BIT_REL8 ∧ row.length = 4
  | _ => row.is1byte = true ∧ row.operands = .REL8 ∧ row.length = 2

instance (row : DisEntry) : Decidable row.IsBranchRow := by
  unfold DisEntry.IsBranchRow
  split <;> infer_instance

theorem branchRow : ∀ p ∈ disass_xa, p.body.mnemonic.isBranch = true → p.body.IsBranchRow := by decide +kernel

/-! ## The displacements -/

section Displacements

variable {a : Int} (ha : 0 ≤ a) (hlt : a < 0x10000) (d : BitVec 8)

include ha hlt

/-- A displacement without sign, with the sum made even. -/
theorem even24_toNat_iff : even24 (a + 2 * d.toNat) = (a + 2 * d.toInt) % 0x10000 / 2 * 2 ↔
    d.toNat < 0x80 ∧ a + 2 * d.toNat < 0x10000 := by
  have hd := d.isLt
  have hint := BitVec.toInt_eq_toNat_cond d
  unfold even24
  split at hint <;> omega

/-- A displacement without sign, with the sum left as it is. -/
theorem plain_toNat_iff : a + 2 * d.toNat = (a + 2 * d.toInt) % 0x10000 / 2 * 2 ↔
    (d.toNat < 0x80 ∧ a + 2 * d.toNat < 0x10000) ∧ a % 2 = 0 := by
  have hd := d.isLt
  have hint := BitVec.toInt_eq_toNat_cond d
  split at hint <;> omega

theorem even24_toInt_iff : even24 (a + 2 * d.toInt) = (a + 2 * d.toInt) % 0x10000 / 2 * 2 ↔
    0 ≤ a + 2 * d.toInt ∧ a + 2 * d.toInt < 0x10000 := by
  have hd := d.isLt
  have hint := BitVec.toInt_eq_toNat_cond d
  unfold even24
  split at hint <;> omega

/-- The target of a branch that is not taken. -/
theorem stay_iff : a = (a + 2 * d.toInt) % 0x10000 / 2 * 2 ↔ a % 2 = 0 ∧ d = 0 := by
  have hzero : d = 0 ↔ d.toNat = 0 := BitVec.toNat_inj.symm
  have hd := d.isLt
  have hint := BitVec.toInt_eq_toNat_cond d
  rw [hzero]
  split at hint <;> omega

end Displacements

/-! ## The branches -/

section Right

variable {s : Machine} {code : BitVec 16} {row : DisEntry}

theorem Machine.target_eq (s : Machine) (row : DisEntry) :
    s.target row = (s.after row + 2 * (s.rel row).toInt) % 0x10000 / 2 * 2 := by
  unfold Machine.target Machine.after Machine.place
  omega

section Jumps

variable {T : Prop} [Decidable T] (hT : s.Taken code row ↔ T)

include hT

/-- A branch that goes to `x` when it is taken. -/
theorem right_iff_of_PC {x : Int} (hPC : s.step.PC = if T then x else s.after row) :
    s.RightBranch code row ↔ (s.Taken code row → x = s.target row) := by
  unfold Machine.RightBranch
  rw [hPC, hT]
  constructor
  · intro ⟨htaken, _⟩ h
    simpa only [if_pos h] using htaken h
  · intro h
    refine ⟨fun ht => ?_, fun hn => if_neg hn⟩
    rw [if_pos ht]
    exact h ht

/-- A branch that leaves the sign out and makes its target even. -/
theorem forward_iff (hPC : s.step.PC = if T then even24 (s.after row + 2 * (s.rel row).toNat) else s.after row) :
    s.RightBranch code row ↔ (s.Taken code row → s.Forward row) := by
  rw [right_iff_of_PC hT hPC, Machine.target_eq]
  exact imp_congr_right fun _ =>
    even24_toNat_iff (Machine.place_nonneg _) (Machine.place_lt _) (s.rel row)

/-- A branch that leaves the sign out and its target as it is. -/
theorem plain_iff (hPC : s.step.PC = if T then s.after row + 2 * (s.rel row).toNat else s.after row) :
    s.RightBranch code row ↔ (s.Taken code row → s.Forward row ∧ s.after row % 2 = 0) := by
  rw [right_iff_of_PC hT hPC, Machine.target_eq]
  exact imp_congr_right fun _ =>
    plain_toNat_iff (Machine.place_nonneg _) (Machine.place_lt _) (s.rel row)

end Jumps

/-- The instruction from the machine that has fetched its opcode. -/
theorem step_PC_eq (h : s.InRange) (hd : s.decoded = some (code, row)) : s.step.PC =
    ((inst code row.operands row.mnemonic).run (s.ticked.advanced (if row.is1byte then 1 else 2))).2.PC := by
  rw [step_eq hd, (decoded_spec h hd).2]

/-- The branches on the flags. -/
def Mnemonic.onFlags : Mnemonic → Bool
  | .BCC | .BCS | .BEQ | .BG | .BGE | .BGT | .BL | .BLE | .BLT | .BMI | .BNE | .BNV | .BOV | .BPL | .BR => true
  | _ => false

/-- The code takes the branch if it has to, or if it mistakes the flags. -/
theorem onFlags_run {m : Mnemonic} (hm : m.onFlags = true) (operands : Operands) :
    inst code operands m = go (branch fun flags => flagCondition flags m ^^ flagsMistaken flags m) := by
  have hsame {f g : BitVec 8 → Bool} (h : ∀ flags, f flags = g flags) : go (branch f) = go (branch g) :=
    congrArg (fun taken => go (branch taken)) (funext h)
  cases m <;> first | exact absurd hm (by decide) | exact hsame (by decide +kernel)

/-- A branch that takes the flags for the opposite is right where it leads nowhere. -/
theorem mistaken_iff {T : Bool} (hT : s.Taken code row ↔ T = true)
    (hPC : s.step.PC = if (!T) = true then even24 (s.after row + 2 * (s.rel row).toNat) else s.after row) :
    s.RightBranch code row ↔ s.after row % 2 = 0 ∧ s.rel row = 0 := by
  have hnonneg : 0 ≤ s.after row := Machine.place_nonneg _
  have hlt : s.after row < 0x10000 := Machine.place_lt _
  unfold Machine.RightBranch
  rw [hT, hPC, Machine.target_eq]
  cases T with
  | true =>
    rw [← stay_iff hnonneg hlt (s.rel row)]
    simp
  | false =>
    have hzero : s.rel row = 0 ↔ (s.rel row).toNat = 0 := BitVec.toNat_inj.symm
    have hd := (s.rel row).isLt
    rw [hzero]
    simp only [Bool.not_false, if_true, Bool.false_eq_true, IsEmpty.forall_iff, not_false_eq_true, forall_const, true_and]
    unfold even24
    omega

theorem onFlags_iff {m : Mnemonic} (hm : m.onFlags = true) (h : s.InRange)
    (hd : s.decoded = some (code, ⟨true, 2, m, .REL8⟩)) :
    s.RightBranch code ⟨true, 2, m, .REL8⟩ ↔ s.BranchFits code ⟨true, 2, m, .REL8⟩ := by
  have hfits : s.BranchFits code ⟨true, 2, m, .REL8⟩ =
      if flagsMistaken s.psw m then s.after ⟨true, 2, m, .REL8⟩ % 2 = 0 ∧ s.rel ⟨true, 2, m, .REL8⟩ = 0
      else s.Taken code ⟨true, 2, m, .REL8⟩ → s.Forward ⟨true, 2, m, .REL8⟩ := by
    cases m <;> first | exact absurd hm (by decide) | rfl
  have htaken : s.Taken code ⟨true, 2, m, .REL8⟩ ↔ flagCondition s.psw m = true := by
    cases m <;> first | exact absurd hm (by decide) | rfl
  have hPC : s.step.PC = if (flagCondition s.psw m ^^ flagsMistaken s.psw m) = true then
      even24 (s.after ⟨true, 2, m, .REL8⟩ + 2 * (s.rel ⟨true, 2, m, .REL8⟩).toNat)
      else s.after ⟨true, 2, m, .REL8⟩ := by
    rw [step_PC_eq h hd, onFlags_run hm]
    exact branch_PC s.ticked fun flags => flagCondition flags m ^^ flagsMistaken flags m
  rw [hfits]
  cases hmistaken : flagsMistaken s.psw m with
  | true =>
    rw [hmistaken, Bool.xor_true] at hPC
    exact mistaken_iff htaken hPC
  | false =>
    rw [hmistaken, Bool.xor_false] at hPC
    exact forward_iff htaken hPC

section Djnz

theorem counts_iff_reg : s.Counts code .REG_REL8 ↔
    IsWord code ∧ s.wordReg (RI_F0 code) - 1 ≠ 0 ∨ ¬ IsWord code ∧ s.byteReg (RI_F0 code) - 1 ≠ 0 := by
  unfold Machine.Counts
  by_cases hword : IsWord code <;> simp only [hword, if_true, if_false, true_and, false_and, not_true, not_false_eq_true, or_false, false_or]

theorem counts_iff_direct : s.Counts code .DIRECT_REL8 ↔
    IsWord code ∧ s.direct2 (s.directAddr code) - 1 ≠ 0 ∨ ¬ IsWord code ∧ s.direct1 (s.directAddr code) - 1 ≠ 0 := by
  unfold Machine.Counts
  by_cases hword : IsWord code <;> simp only [hword, if_true, if_false, true_and, false_and, not_true, not_false_eq_true, or_false, false_or]

end Djnz

/-- `CJNE` with data goes on behind its opcode. -/
theorem cjne_data_PC (h : s.InRange) {operands : Operands} {length : Nat}
    (hd : s.decoded = some (code, ⟨false, length, .CJNE, operands⟩)) (hop : operands ≠ .REG_DIRECT_REL8)
    (hop' : operands ≠ .DIRECT_REL8) : s.step.PC = s.place 2 := by
  rw [step_PC_eq h hd]
  change ((inst_CJNE code operands).run (s.ticked.advanced 2)).2.PC = _
  unfold inst_CJNE
  split
  · exact absurd rfl hop
  · exact absurd rfl hop'
  · rfl

/-- Behind the opcode is the target of a displacement of -1. -/
theorem behind_opcode_iff {n : Nat} (hn : n = 4 ∨ n = 5) (d : BitVec 8) :
    s.place 2 = (s.place n + 2 * d.toInt) % 0x10000 / 2 * 2 ↔ d = 0xff ∧ s.PC % 2 = 0 := by
  have hff : d = 0xff ↔ d.toNat = 255 := BitVec.toNat_inj.symm
  have hd := d.isLt
  have hint := BitVec.toInt_eq_toNat_cond d
  rw [hff]
  unfold Machine.place
  rcases hn with rfl | rfl <;> split at hint <;> omega

theorem cjne_data_iff (h : s.InRange) {operands : Operands} {length : Nat}
    (hd : s.decoded = some (code, ⟨false, length, .CJNE, operands⟩))
    (hdata : operands = .REG_DATA8_REL8 ∧ length = 4 ∨ operands = .REG_DATA16_REL8 ∧ length = 5 ∨
      operands = .IREG_DATA8_REL8 ∧ length = 4 ∨ operands = .IREG_DATA16_REL8 ∧ length = 5) :
    s.RightBranch code ⟨false, length, .CJNE, operands⟩ ↔ s.BranchFits code ⟨false, length, .CJNE, operands⟩ := by
  have hlength : length = 4 ∨ length = 5 := by
    rcases hdata with ⟨_, h4⟩ | ⟨_, h5⟩ | ⟨_, h4⟩ | ⟨_, h5⟩
    exacts [.inl h4, .inr h5, .inl h4, .inr h5]
  have hPC : s.step.PC = s.place 2 := by
    apply cjne_data_PC h hd <;> rintro rfl <;> simp only [reduceCtorEq, false_and, or_self] at hdata
  have hfits : s.BranchFits code ⟨false, length, .CJNE, operands⟩ ↔
      s.Differ code operands ∧ s.rel ⟨false, length, .CJNE, operands⟩ = 0xff ∧ s.PC % 2 = 0 := by
    rcases hdata with ⟨rfl, _⟩ | ⟨rfl, _⟩ | ⟨rfl, _⟩ | ⟨rfl, _⟩ <;> exact Iff.rfl
  have hafter : s.place 2 ≠ s.place length := by
    unfold Machine.place
    omega
  unfold Machine.RightBranch
  rw [hfits, hPC, Machine.target_eq, ← behind_opcode_iff hlength]
  constructor
  · intro ⟨htaken, hnot⟩
    have hdiffer : s.Differ code operands := by
      by_contra hequal
      exact hafter (hnot hequal)
    exact ⟨hdiffer, htaken hdiffer⟩
  · intro ⟨hdiffer, htarget⟩
    exact ⟨fun _ => htarget, fun hequal => absurd hdiffer hequal⟩

/-- One byte behind the instruction the target is even. -/
theorem behind_stay_iff (d : BitVec 8) : s.place 5 = (s.place 4 + 2 * d.toInt) % 0x10000 / 2 * 2 ↔
    s.place 4 % 2 = 1 ∧ d = 1 := by
  have hone : d = 1 ↔ d.toNat = 1 := BitVec.toNat_inj.symm
  have hd := d.isLt
  have hint := BitVec.toInt_eq_toNat_cond d
  rw [hone]
  unfold Machine.place
  split at hint <;> omega

theorem behind_toNat_iff (d e : BitVec 8) :
    s.place 5 + 2 * e.toNat = (s.place 4 + 2 * d.toInt) % 0x10000 / 2 * 2 ↔
    s.place 4 % 2 = 1 ∧ d.toInt = e.toNat + 1 ∧ s.place 5 + 2 * e.toNat < 0x10000 := by
  have hd := d.isLt
  have he := e.isLt
  have hint := BitVec.toInt_eq_toNat_cond d
  unfold Machine.place
  split at hint <;> omega

theorem cjne_word_iff (hword : IsWord code) (h : s.InRange)
    (hd : s.decoded = some (code, ⟨false, 4, .CJNE, .REG_DIRECT_REL8⟩)) :
    s.RightBranch code ⟨false, 4, .CJNE, .REG_DIRECT_REL8⟩ ↔ s.CjneRight code ⟨false, 4, .CJNE, .REG_DIRECT_REL8⟩ := by
  have hPC : s.step.PC = if s.FoundEqual code then s.place 5 + 2 * (s.codeAt 4).toNat else s.place 5 :=
    (step_PC_eq h hd).trans (cjne_word_PC s.ticked code hword)
  have hafter : s.step.PC ≠ s.place 4 := by
    rw [hPC]
    unfold Machine.place
    split <;> omega
  have htarget : s.step.PC = (s.place 4 + 2 * (s.codeAt 3).toInt) % 0x10000 / 2 * 2 ↔
      s.place 4 % 2 = 1 ∧
        (s.FoundEqual code → (s.codeAt 3).toInt = (s.codeAt 4).toNat + 1 ∧ s.place 5 + 2 * (s.codeAt 4).toNat < 0x10000) ∧
        (¬ s.FoundEqual code → s.codeAt 3 = 1) := by
    rw [hPC]
    by_cases hfound : s.FoundEqual code
    · simp only [hfound, if_true, forall_const, not_true_eq_false, IsEmpty.forall_iff, and_true]
      exact behind_toNat_iff _ _
    · simp only [hfound, if_false, forall_const, not_false_eq_true, IsEmpty.forall_iff, true_and]
      exact behind_stay_iff _
  unfold Machine.RightBranch Machine.CjneRight
  rw [if_pos hword, Machine.target_eq]
  change (s.Differ code .REG_DIRECT_REL8 → s.step.PC = (s.place 4 + 2 * (s.codeAt 3).toInt) % 0x10000 / 2 * 2) ∧
    (¬ s.Differ code .REG_DIRECT_REL8 → s.step.PC = s.place 4) ↔ s.Differ code .REG_DIRECT_REL8 ∧ _
  rw [htarget]
  constructor
  · intro ⟨htaken, hnot⟩
    have hdiffer : s.Differ code .REG_DIRECT_REL8 := by
      by_contra hequal
      exact hafter (hnot hequal)
    exact ⟨hdiffer, htaken hdiffer⟩
  · intro ⟨hdiffer, hright⟩
    exact ⟨fun _ => hright, fun hequal => absurd hdiffer hequal⟩

theorem cjne_byte_iff (hword : ¬ IsWord code) (h : s.InRange)
    (hd : s.decoded = some (code, ⟨false, 4, .CJNE, .REG_DIRECT_REL8⟩)) :
    s.RightBranch code ⟨false, 4, .CJNE, .REG_DIRECT_REL8⟩ ↔ s.CjneRight code ⟨false, 4, .CJNE, .REG_DIRECT_REL8⟩ := by
  have hPC : s.step.PC = if s.FoundEqual code then s.place 4 + 2 * (s.codeAt 3).toNat else s.place 4 :=
    (step_PC_eq h hd).trans (cjne_byte_PC s.ticked code hword)
  have hnonneg : 0 ≤ s.place 4 := Machine.place_nonneg 4
  have hlt : s.place 4 < 0x10000 := Machine.place_lt 4
  have hzero : s.codeAt 3 = 0 ↔ (s.codeAt 3).toNat = 0 := BitVec.toNat_inj.symm
  have hplain := plain_toNat_iff hnonneg hlt (s.codeAt 3)
  have hstay := stay_iff hnonneg hlt (s.codeAt 3)
  unfold Machine.RightBranch Machine.CjneRight
  rw [if_neg hword, Machine.target_eq, hPC]
  change (s.Differ code .REG_DIRECT_REL8 → _ = (s.place 4 + 2 * (s.codeAt 3).toInt) % 0x10000 / 2 * 2) ∧
      (¬ s.Differ code .REG_DIRECT_REL8 → _ = s.place 4) ↔
    (s.Differ code .REG_DIRECT_REL8 → s.place 4 % 2 = 0 ∧
      (s.FoundEqual code → (s.codeAt 3).toNat < 0x80 ∧ s.place 4 + 2 * (s.codeAt 3).toNat < 0x10000) ∧
      (¬ s.FoundEqual code → s.codeAt 3 = 0)) ∧
    (¬ s.Differ code .REG_DIRECT_REL8 → s.FoundEqual code → s.codeAt 3 = 0)
  by_cases hfound : s.FoundEqual code
  · simp only [hfound, if_true, forall_const, not_true_eq_false, IsEmpty.forall_iff, and_true]
    rw [hplain]
    refine and_congr (imp_congr_right fun _ => and_comm) (imp_congr_right fun _ => ?_)
    rw [hzero]
    omega
  · simp only [hfound, if_false, forall_const, not_false_eq_true, IsEmpty.forall_iff, implies_true, and_true, true_and]
    rw [hstay]

theorem cjne_direct_iff (h : s.InRange) (hd : s.decoded = some (code, ⟨false, 4, .CJNE, .REG_DIRECT_REL8⟩)) :
    s.RightBranch code ⟨false, 4, .CJNE, .REG_DIRECT_REL8⟩ ↔ s.CjneRight code ⟨false, 4, .CJNE, .REG_DIRECT_REL8⟩ := by
  by_cases hword : IsWord code
  · exact cjne_word_iff hword h hd
  · exact cjne_byte_iff hword h hd

/-- A relative branch of the XA goes on where it should in these states and in no others. -/
theorem relative_branch_iff (h : s.InRange) (hd : s.decoded = some (code, row)) (hb : row.mnemonic.isBranch = true) :
    s.RightBranch code row ↔ s.BranchFits code row := by
  have hrow : row.IsBranchRow := by
    obtain ⟨p, hp, rfl, _⟩ := (decoded_spec h hd).1
    exact branchRow p hp hb
  obtain ⟨is1byte, length, mnemonic, operands⟩ := row
  cases mnemonic
  case JB =>
    obtain ⟨rfl, rfl, rfl⟩ := hrow
    apply forward_iff (T := s.bit code = true) Iff.rfl
    rw [step_PC_eq h hd]
    exact jb_PC s.ticked code
  case JBC =>
    obtain ⟨rfl, rfl, rfl⟩ := hrow
    apply forward_iff (T := s.bit code = true) Iff.rfl
    rw [step_PC_eq h hd]
    exact jbc_PC s.ticked code
  case JNB =>
    obtain ⟨rfl, rfl, rfl⟩ := hrow
    apply forward_iff (T := s.bit code = false) Iff.rfl
    rw [step_PC_eq h hd]
    exact jnb_PC s.ticked code
  case JNZ =>
    obtain ⟨rfl, rfl, rfl⟩ := hrow
    apply forward_iff (T := s.byteReg 8 ≠ 0) Iff.rfl
    rw [step_PC_eq h hd]
    exact jnz_PC s.ticked
  case JZ =>
    obtain ⟨rfl, rfl, rfl⟩ := hrow
    apply plain_iff (T := s.byteReg 8 = 0) Iff.rfl
    rw [step_PC_eq h hd]
    exact jz_PC s.ticked
  case DJNZ =>
    obtain ⟨rfl, ⟨rfl, rfl⟩ | ⟨rfl, rfl⟩⟩ := hrow
    · have hPC : s.step.PC = _ := (step_PC_eq h hd).trans (djnz_reg_PC s.ticked code)
      have htaken : s.Taken code ⟨false, 3, .DJNZ, .REG_REL8⟩ ↔ _ := counts_iff_reg
      rw [right_iff_of_PC htaken hPC, Machine.target_eq]
      exact imp_congr_right fun _ => even24_toInt_iff (Machine.place_nonneg _) (Machine.place_lt _) _
    · have htaken : s.Taken code ⟨false, 4, .DJNZ, .DIRECT_REL8⟩ ↔ _ := counts_iff_direct
      apply plain_iff htaken
      rw [step_PC_eq h hd]
      exact djnz_direct_PC s.ticked code
  case CJNE =>
    obtain ⟨rfl, ⟨rfl, rfl⟩ | hdata⟩ := hrow
    · exact cjne_direct_iff h hd
    · exact cjne_data_iff h hd hdata
  all_goals first
    | exact absurd hb Bool.false_ne_true
    | obtain ⟨rfl, rfl, rfl⟩ := hrow
      exact onFlags_iff rfl h hd

end Right

/-- A `BR` to itself, at 0x100. -/
def selfBranch : Machine where
  sfr := fun _ => 0
  iram := ⟨fun _ => 0, fun _ => 0⟩
  xram := ⟨fun _ => 0, fun _ => 0⟩
  rom := ⟨fun a => if a = 0x100 then 0xfe else 0xff, fun _ => 0⟩
  PC := 0x100
  ticks := 0
  out := []

/-- It goes on 512 bytes behind its target. -/
theorem br_backwards : selfBranch.decoded = some (0xfe00, ⟨true, 2, .BR, .REL8⟩) ∧
    selfBranch.target ⟨true, 2, .BR, .REL8⟩ = 0x100 ∧ selfBranch.step.PC = 0x300 ∧
    ¬ selfBranch.RightBranch 0xfe00 ⟨true, 2, .BR, .REL8⟩ := by
  have hdecoded : selfBranch.decoded = some (0xfe00, ⟨true, 2, .BR, .REL8⟩) := by decide +kernel
  have htarget : selfBranch.target ⟨true, 2, .BR, .REL8⟩ = 0x100 := by decide
  have hPC : selfBranch.step.PC = 0x300 := by
    rw [step_PC_eq (by decide) hdecoded]
    decide
  refine ⟨hdecoded, htarget, hPC, fun hright => ?_⟩
  have hgoes := hright.1 rfl
  rw [hPC, htarget] at hgoes
  exact absurd hgoes (by decide)

/-- A `BR` over two bytes. -/
def shortBranch : Machine := { selfBranch with rom := ⟨fun a => if a = 0x100 then 0xfe else 1, fun _ => 0⟩ }

theorem relative_branch_iff_br : shortBranch.RightBranch 0xfe00 ⟨true, 2, .BR, .REL8⟩ := by
  have hforward : shortBranch.Forward ⟨true, 2, .BR, .REL8⟩ := ⟨by decide, by decide⟩
  exact (relative_branch_iff (by decide) (by decide +kernel) rfl).mpr fun _ => hforward

end Ucsim.Xa
