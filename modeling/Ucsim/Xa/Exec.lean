import Ucsim.Logic.Pattern
import Ucsim.Xa.Inst

/-!
# Execution

`disass_xa` of `glob.cc` and `exec_inst` of `xa.cc`.
-/

namespace Ucsim.Xa

open Logic

/-- The mnemonics that are in the table. -/
inductive Mnemonic
  | ADD | ADDC | ADDS | AND | ANL | ASL | ASR | BCC | BCS | BEQ | BG | BGE | BGT | BKPT | BL | BLE | BLT | BMI | BNE
  | BNV | BOV | BPL | BR | CALL | CJNE | CLR | CMP | CPL | DA | DIV_w | DIV_d | DIVU_b | DIVU_w | DIVU_d | DJNZ
  | FCALL | FJMP | JB | JBC | JMP | JNB | JNZ | JZ | LEA | MOV | MOVC | NEG | NOP | NORM | OR | ORL | POP | POPU
  | PUSH | PUSHU | RESET | RET | RETI | SETB | SEXT | SUB | SUBB | TRAP | XOR
  deriving DecidableEq, Repr

/-- `xa_dis_entry`, without the kind of branch. -/
structure DisEntry where
  is1byte : Bool
  length : Nat
  mnemonic : Mnemonic
  operands : Operands
  deriving DecidableEq, Repr

/-- A row whose first byte is the whole code. -/
def one (code mask : BitVec 16) (length : Nat) (mnemonic : Mnemonic) (operands : Operands) : Pattern 16 DisEntry :=
  ⟨mask, code, ⟨true, length, mnemonic, operands⟩⟩

def two (code mask : BitVec 16) (length : Nat) (mnemonic : Mnemonic) (operands : Operands) : Pattern 16 DisEntry :=
  ⟨mask, code, ⟨false, length, mnemonic, operands⟩⟩

/-- The rows of an instruction that includes `inst_gen.cc`. -/
def arithRows (op : BitVec 16) (m : Mnemonic) : List (Pattern 16 DisEntry) :=
  [two (op <<< 12 + 0x0100) 0xf700 2 m .REG_REG, two (op <<< 12 + 0x0200) 0xf708 2 m .REG_IREG,
   two (op <<< 12 + 0x0208) 0xf708 2 m .IREG_REG, two (op <<< 12 + 0x0400) 0xf708 3 m .REG_IREGOFF8,
   two (op <<< 12 + 0x0408) 0xf708 3 m .IREGOFF8_REG, two (op <<< 12 + 0x0500) 0xf708 4 m .REG_IREGOFF16,
   two (op <<< 12 + 0x0508) 0xf708 4 m .IREGOFF16_REG, two (op <<< 12 + 0x0300) 0xf708 2 m .REG_IREGINC,
   two (op <<< 12 + 0x0308) 0xf708 2 m .IREGINC_REG, two (op <<< 12 + 0x0608) 0xf708 3 m .DIRECT_REG,
   two (op <<< 12 + 0x0600) 0xf708 3 m .REG_DIRECT, two (op + 0x9100) 0xff0f 3 m .REG_DATA8,
   two (op + 0x9900) 0xff0f 4 m .REG_DATA16, two (op + 0x9200) 0xff8f 3 m .IREG_DATA8,
   two (op + 0x9a00) 0xff8f 4 m .IREG_DATA16, two (op + 0x9300) 0xff8f 3 m .IREGINC_DATA8,
   two (op + 0x9b00) 0xff8f 4 m .IREGINC_DATA16, two (op + 0x9400) 0xff8f 4 m .IREGOFF8_DATA8,
   two (op + 0x9c00) 0xff8f 5 m .IREGOFF8_DATA16, two (op + 0x9500) 0xff8f 5 m .IREGOFF16_DATA8,
   two (op + 0x9d00) 0xff8f 6 m .IREGOFF16_DATA16, two (op + 0x9600) 0xff8f 4 m .DIRECT_DATA8,
   two (op + 0x9e00) 0xff8f 5 m .DIRECT_DATA16]

/-- `disass_xa`, without the row of `BAD_OPCODE` at its end. -/
def disass_xa : List (Pattern 16 DisEntry) :=
  arithRows 0 .ADD ++
  arithRows 1 .ADDC ++
  [two 0x1408 0xf780 2 .ADDS .REG_DATA4, two 0x1408 0xf780 2 .ADDS .IREG_DATA4,
   two 0x1408 0xf780 2 .ADDS .IREGINC_DATA4, two 0x1408 0xf780 3 .ADDS .IREGOFF8_DATA4,
   two 0x1408 0xf780 4 .ADDS .IREGOFF16_DATA4, two 0x1408 0xf780 3 .ADDS .DIRECT_DATA4] ++
  arithRows 5 .AND ++
  [two 0x0840 0xfffc 3 .ANL .CY_BIT, two 0x0850 0xfffc 3 .ANL .CY_NOTBIT, two 0xc150 0xf300 2 .ASL .REG_REG,
   two 0xdd00 0xff00 2 .ASL .REG_DATA5, two 0xd100 0xf700 2 .ASL .REG_DATA4, two 0xc250 0xf300 2 .ASR .REG_REG,
   two 0xde00 0xff00 2 .ASR .REG_DATA5, two 0xd200 0xf700 2 .ASR .REG_DATA4, one 0xf000 0xff00 2 .BCC .REL8,
   one 0xf100 0xff00 2 .BCS .REL8, one 0xf300 0xff00 2 .BEQ .REL8, one 0xf800 0xff00 2 .BG .REL8,
   one 0xfa00 0xff00 2 .BGE .REL8, one 0xfc00 0xff00 2 .BGT .REL8, one 0xff00 0xff00 1 .BKPT .NO_OPERANDS,
   one 0xf900 0xff00 2 .BL .REL8, one 0xfd00 0xff00 2 .BLE .REL8, one 0xfb00 0xff00 2 .BLT .REL8,
   one 0xf700 0xff00 2 .BMI .REL8, one 0xf200 0xff00 2 .BNE .REL8, one 0xf400 0xff00 2 .BNV .REL8,
   one 0xf500 0xff00 2 .BOV .REL8, one 0xf600 0xff00 2 .BPL .REL8, one 0xfe00 0xff00 2 .BR .REL8,
   one 0xc500 0xff00 3 .CALL .REL16, two 0xc600 0xfff8 2 .CALL .IREG, two 0xe200 0xf708 4 .CJNE .REG_DIRECT_REL8,
   two 0xe300 0xff0f 4 .CJNE .REG_DATA8_REL8, two 0xeb00 0xff0f 5 .CJNE .REG_DATA16_REL8,
   two 0xe308 0xff8f 4 .CJNE .IREG_DATA8_REL8, two 0xeb08 0xff8f 5 .CJNE .IREG_DATA16_REL8,
   two 0x0800 0xfffc 3 .CLR .BIT_ALONE] ++
  arithRows 4 .CMP ++
  [two 0x900c 0xf70f 2 .CPL .REG, two 0x9008 0xff0f 2 .DA .REG, two 0xe708 0xff00 2 .DIV_w .REG_REG,
   two 0xe80b 0xff0f 3 .DIV_w .REG_DATA8, two 0xef00 0xff10 2 .DIV_d .REG_REG, two 0xe909 0xff1f 4 .DIV_d .REG_DATA16,
   two 0xe101 0xff00 3 .DIVU_b .REG_REG, two 0xe801 0xff0f 3 .DIVU_b .REG_DATA8, two 0xe500 0xff00 2 .DIVU_w .REG_REG,
   two 0xe803 0xff0f 3 .DIVU_w .REG_DATA8, two 0xed00 0xff10 2 .DIVU_d .REG_REG,
   two 0xe901 0xff1f 4 .DIVU_d .REG_DATA16, two 0x8708 0xf70f 3 .DJNZ .REG_REL8,
   two 0xe208 0xf7f8 4 .DJNZ .DIRECT_REL8, one 0xc400 0xff00 4 .FCALL .ADDR24, one 0xd400 0xff00 4 .FJMP .ADDR24,
   two 0x9780 0xfffc 4 .JB .BIT_REL8, two 0x97c0 0xfffc 4 .JBC .BIT_REL8, one 0xd500 0xff00 3 .JMP .REL16,
   two 0xd670 0xfff8 2 .JMP .IREG, two 0xd646 0xffff 2 .JMP .A_PLUSDPTR, two 0xd660 0xfff8 2 .JMP .IIREG,
   two 0x97a0 0xfffc 4 .JNB .BIT_REL8, one 0xee00 0xff00 2 .JNZ .REL8, one 0xec00 0xff00 2 .JZ .REL8,
   two 0x4000 0xff88 3 .LEA .REG_REGOFF8, two 0x4800 0xff88 3 .LEA .REG_REGOFF16] ++
  arithRows 8 .MOV ++
  [two 0x9700 0xf788 4 .MOV .DIRECT_DIRECT, two 0x900f 0xff0f 2 .MOV .REG_USP, two 0x980f 0xff0f 2 .MOV .USP_REG,
   two 0x0820 0xfffc 3 .MOV .CY_BIT, two 0x0830 0xfffc 3 .MOV .BIT_CY, two 0x8000 0xf308 2 .MOVC .REG_IREGINC,
   two 0x904e 0xffff 2 .MOVC .A_APLUSDPTR, two 0x904c 0xffff 2 .MOVC .A_APLUSPC, two 0x900b 0xf70f 2 .NEG .REG,
   one 0x0000 0xff00 1 .NOP .NO_OPERANDS, two 0xc300 0xff00 2 .NORM .REG_REG] ++
  arithRows 6 .OR ++
  [two 0x0860 0xfffc 3 .ORL .CY_BIT, two 0x0870 0xfffc 3 .ORL .CY_NOTBIT, two 0x8710 0xf7f8 3 .POP .DIRECT,
   one 0x2700 0xb700 2 .POP .RLIST, two 0x8700 0xf7f8 3 .POPU .DIRECT, one 0x3700 0xb700 2 .POPU .RLIST,
   two 0x8730 0xf7f8 3 .PUSH .DIRECT, one 0x0700 0xb700 2 .PUSH .RLIST, two 0x8720 0xf7f8 3 .PUSHU .DIRECT,
   one 0x1700 0xb700 2 .PUSHU .RLIST, two 0xd610 0xffff 2 .RESET .NO_OPERANDS, two 0xd680 0xffff 2 .RET .NO_OPERANDS,
   two 0xd690 0xffff 2 .RETI .NO_OPERANDS, two 0x0810 0xfffc 3 .SETB .BIT_ALONE, two 0x9009 0xf70f 2 .SEXT .REG] ++
  arithRows 2 .SUB ++
  arithRows 3 .SUBB ++
  [two 0xd630 0xfff0 2 .TRAP .DATA4] ++
  arithRows 7 .XOR

/-- The rows that a first byte is compared with. -/
def disass_xa1 : List (Pattern 16 DisEntry) := disass_xa.filter (·.body.is1byte)

/-- The opcode at PC: one byte if there is a row for it, two bytes otherwise. -/
def decode : Prog (Option (BitVec 16 × DisEntry)) := do
  let code1 ← fetch
  tick 1
  let code := code1 ++ (0 : BitVec 8)
  match Pattern.find disass_xa1 code with
  | some row => return some (code, row)
  | none =>
    let code := code ||| (← fetch).setWidth 16
    return (Pattern.find disass_xa code).map fun row => (code, row)

/-- A body that always goes on. -/
def go (body : Prog Unit) : Prog Res := do
  body
  return .go

/-- The `switch` of `exec_inst`. -/
def inst (code : BitVec 16) (operands : Operands) : Mnemonic → Prog Res
  | .ADD => go (inst_ADD code operands)
  | .ADDC => go (inst_ADDC code operands)
  | .AND => go (inst_AND code operands)
  | .ANL => go (inst_ANL code operands)
  | .ASL => go (inst_ASL code operands)
  | .ASR => go (inst_ASR code operands)
  | .BCC => go inst_BCC
  | .BCS => go inst_BCS
  | .BEQ => go inst_BEQ
  | .BG => go inst_BG
  | .BGE => go inst_BGE
  | .BGT => go inst_BGT
  | .BL => go inst_BL
  | .BLE => go inst_BLE
  | .BLT => go inst_BLT
  | .BMI => go inst_BMI
  | .BNE => go inst_BNE
  | .BNV => go inst_BNV
  | .BOV => go inst_BOV
  | .BPL => go inst_BPL
  | .BR => go inst_BR
  | .CALL => go (inst_CALL code operands)
  | .CJNE => go (inst_CJNE code operands)
  | .CLR => go (inst_CLR code)
  | .CMP => go (inst_CMP code operands)
  | .DJNZ => go (inst_DJNZ code operands)
  | .JB => go (inst_JB code)
  | .JBC => go (inst_JBC code)
  | .JMP => go (inst_JMP code operands)
  | .JNB => go (inst_JNB code)
  | .JNZ => go inst_JNZ
  | .JZ => go inst_JZ
  | .LEA => go (inst_LEA code operands)
  | .MOV => go (inst_MOV code operands)
  | .MOVC => go (inst_MOVC code operands)
  | .OR => go (inst_OR code operands)
  | .POP | .POPU => go (inst_POP code operands)
  | .PUSH | .PUSHU => go (inst_PUSH code operands)
  | .RET => go inst_RET
  | .RETI => go inst_RETI
  | .SETB => go (inst_SETB code)
  | .SEXT => go (inst_SEXT code)
  | .SUB => go (inst_SUB code operands)
  | .SUBB => go (inst_SUBB code operands)
  | .TRAP => inst_TRAP code
  | .XOR => go (inst_XOR code operands)
  -- `NOP`, and what is not done yet
  | .NOP | .ADDS | .BKPT | .CPL | .DA | .DIV_w | .DIV_d | .DIVU_b | .DIVU_w | .DIVU_d | .FCALL | .FJMP | .NEG | .NORM
  | .ORL | .RESET => go notDone

/-- `exec_inst`. After a code that is not in the table PC is set back by one byte. -/
def exec_inst : Prog Res := do
  match ← decode with
  | some (code, row) => inst code row.operands row.mnemonic
  | none =>
    setPC (inc_address (← get).PC (-1))
    return .invInst

/-- The machine after an instruction. -/
def Machine.step (s : Machine) : Machine := (exec_inst.run s).2

/-- The code and the row of the next instruction. -/
def Machine.decoded (s : Machine) : Option (BitVec 16 × DisEntry) := (decode.run s).1

/-- The machine when the opcode has been fetched. -/
def Machine.fetched (s : Machine) : Machine := (decode.run s).2

theorem exec_inst_run (s : Machine) : exec_inst.run s = (match s.decoded with
    | some (code, row) => inst code row.operands row.mnemonic
    | none => do
      setPC (inc_address (← get).PC (-1))
      return .invInst : Prog Res).run s.fetched := rfl

theorem step_eq {s : Machine} {code : BitVec 16} {row : DisEntry} (h : s.decoded = some (code, row)) :
    s.step = ((inst code row.operands row.mnemonic).run s.fetched).2 := by
  unfold Machine.step
  rw [exec_inst_run, h]

theorem step_undecoded {s : Machine} (h : s.decoded = none) :
    s.step = { s.fetched with PC := inc_address s.fetched.PC (-1) } := by
  unfold Machine.step
  rw [exec_inst_run, h]
  rfl

/-! ## The bytes of an instruction -/

namespace Machine

/-- The address `n` bytes behind PC. -/
def place (s : Machine) (n : Nat) : Int := (s.PC + n) % 0x10000

/-- The byte `n` behind PC. -/
def codeAt (s : Machine) (n : Nat) : BitVec 8 := s.romAt (s.place n)

/-- The direct address of 11 bits in an instruction. -/
def directAddr (s : Machine) (code : BitVec 16) : BitVec 16 := (code &&& 7) <<< 8 ||| (s.codeAt 2).setWidth 16

/-- The machine with PC moved over `n` bytes. -/
def advanced (s : Machine) (n : Nat) : Machine := { s with PC := s.place n }

/-- The machine with one tick more. -/
def ticked (s : Machine) : Machine := { s with ticks := s.ticks + 1 }

/-- PC is an address of `rom`. -/
def InRange (s : Machine) : Prop := 0 ≤ s.PC ∧ s.PC < 0x10000

instance (s : Machine) : Decidable s.InRange := inferInstanceAs (Decidable (_ ∧ _))

variable {s : Machine}

theorem place_nonneg (n : Nat) : 0 ≤ s.place n := Int.emod_nonneg _ (by decide)

theorem place_lt (n : Nat) : s.place n < 0x10000 := Int.emod_lt_of_pos _ (by decide)

theorem place_zero (h : s.InRange) : s.place 0 = s.PC := by
  unfold place
  have hPC := Int.emod_eq_of_lt h.1 h.2
  simpa using hPC

theorem place_succ (n : Nat) : inc_address (s.place n) 1 = s.place (n + 1) := by
  have hnonneg := place_nonneg (s := s) n
  unfold inc_address
  rw [Int.tmod_eq_emod_of_nonneg (by omega)]
  unfold place
  omega

theorem fetch_advanced (n : Nat) : fetch.run (s.advanced n) = (s.codeAt n, s.advanced (n + 1)) := by
  change ((s.advanced n).romAt (s.place n), { s.advanced n with PC := inc_address (s.place n) 1 }) = _
  rw [place_succ]
  rfl

end Machine

section Decoding

variable {s : Machine} {code : BitVec 16} {row : DisEntry}

/-- The first byte in the upper half of a code. -/
def Machine.code1 (s : Machine) : BitVec 16 := s.codeAt 0 ++ (0 : BitVec 8)

/-- A code of two bytes. -/
def Machine.code2 (s : Machine) : BitVec 16 := s.code1 ||| (s.codeAt 1).setWidth 16

/-- `decode` with any two tables. -/
theorem lookups_run (one two : BitVec 16 → Option DisEntry) (h : s.InRange) :
    (do
      let code1 ← fetch
      tick 1
      let code := code1 ++ (0 : BitVec 8)
      match one code with
      | some row => return some (code, row)
      | none =>
        let code := code ||| (← fetch).setWidth 16
        return (two code).map fun row => (code, row) : Prog (Option (BitVec 16 × DisEntry))).run s =
    match one s.code1 with
    | some row => (some (s.code1, row), s.ticked.advanced 1)
    | none => ((two s.code2).map fun row => (s.code2, row), s.ticked.advanced 2) := by
  have hfirst : fetch.run s = (s.codeAt 0, s.advanced 1) := by
    have hzero : s.advanced 0 = s := by
      unfold Machine.advanced
      rw [Machine.place_zero h]
    have hfetch := Machine.fetch_advanced (s := s) 0
    rwa [hzero] at hfetch
  have hsecond : fetch.run (s.ticked.advanced 1) = (s.codeAt 1, s.ticked.advanced 2) :=
    Machine.fetch_advanced (s := s.ticked) 1
  rw [run_bind_of hfirst]
  change StateT.run (match one s.code1 with
      | some row => (return some (s.code1, row) : Prog _)
      | none => do
        let code := s.code1 ||| (← fetch).setWidth 16
        return (two code).map fun row => (code, row)) (s.ticked.advanced 1) = _
  cases one s.code1 with
  | some row => rfl
  | none =>
    dsimp only
    rw [run_bind_of hsecond]
    rfl

theorem decode_run (h : s.InRange) : decode.run s =
    match Pattern.find disass_xa1 s.code1 with
    | some row => (some (s.code1, row), s.ticked.advanced 1)
    | none => ((Pattern.find disass_xa s.code2).map fun row => (s.code2, row), s.ticked.advanced 2) :=
  lookups_run (Pattern.find disass_xa1) (Pattern.find disass_xa) h

/-- The first byte of an opcode decides whether a row of one byte fits. -/
theorem masks_of_one : ∀ p ∈ disass_xa1, p.mask &&& 0xff = 0 := by decide +kernel

theorem fits_code1 {p : Pattern 16 DisEntry} (hp : p ∈ disass_xa1) (h : p.fits s.code2) : p.fits s.code1 := by
  have hmask : p.mask &&& 0xff = 0 := masks_of_one p hp
  have hbyte : (s.codeAt 1).setWidth 16 &&& p.mask = (0 : BitVec 16) := by
    have hlow : (s.codeAt 1).setWidth 16 = (s.codeAt 1).setWidth 16 &&& (0xff : BitVec 16) := by
      have hlt := (s.codeAt 1).isLt
      apply BitVec.eq_of_toNat_eq
      rw [BitVec.toNat_and, BitVec.toNat_setWidth, Nat.mod_eq_of_lt (by omega)]
      exact (Nat.and_two_pow_sub_one_of_lt_two_pow hlt).symm
    rw [hlow, BitVec.and_assoc, BitVec.and_comm _ p.mask, hmask]
    exact BitVec.and_zero
  have hfit : s.code2 &&& p.mask = p.value := of_decide_eq_true h
  refine decide_eq_true ?_
  rw [← hfit]
  unfold Machine.code2
  rw [BitVec.and_or_distrib_right, hbyte]
  exact BitVec.or_zero.symm

/-- What has been fetched with a code, and where its row comes from. -/
theorem decoded_spec (h : s.InRange) (hd : s.decoded = some (code, row)) :
    (∃ p ∈ disass_xa, p.body = row ∧ p.fits code) ∧
      s.fetched = s.ticked.advanced (if row.is1byte then 1 else 2) := by
  have hone : ∀ p ∈ disass_xa1, p ∈ disass_xa ∧ p.body.is1byte := fun p hp => List.mem_filter.mp hp
  unfold Machine.decoded at hd
  unfold Machine.fetched
  rw [decode_run h] at hd ⊢
  cases hfind : Pattern.find disass_xa1 s.code1 with
  | some found =>
    rw [hfind] at hd
    simp only [Option.some.injEq, Prod.mk.injEq] at hd
    obtain ⟨rfl, rfl⟩ := hd
    obtain ⟨p, hp, hfit, hbody⟩ := Pattern.find_some hfind
    obtain ⟨hmem, hbyte⟩ := hone p hp
    refine ⟨⟨p, hmem, hbody, decide_eq_true hfit⟩, ?_⟩
    rw [← hbody, if_pos hbyte]
  | none =>
    rw [hfind] at hd
    obtain ⟨found, hfound, heq⟩ := Option.map_eq_some_iff.mp hd
    simp only [Prod.mk.injEq] at heq
    obtain ⟨rfl, rfl⟩ := heq
    obtain ⟨p, hp, hfit, hbody⟩ := Pattern.find_some hfound
    refine ⟨⟨p, hp, hbody, decide_eq_true hfit⟩, ?_⟩
    have hbyte : ¬ found.is1byte := by
      intro hyes
      have hmem : p ∈ disass_xa1 := List.mem_filter.mpr ⟨hp, hbody.symm ▸ hyes⟩
      exact Pattern.find_isSome_of_mem hmem (fits_code1 hmem (decide_eq_true hfit)) hfind
    rw [if_neg hbyte]

end Decoding

end Ucsim.Xa
