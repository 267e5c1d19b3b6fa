import Ucsim.Hc08.Inst

/-!
# Executing an instruction of the HC08
-/

namespace Ucsim.Hc08

/-- The opcodes from 0x30 to 0x7F. -/
def operandCodes (code : BitVec 8) : Prog Res :=
  match low code with
  | 0x0 => inst_neg code false
  | 0x1 => inst_cbeq code false
  | 0x2 =>
    match code with
    | 0x42 => inst_mul code false
    | 0x52 => inst_div code false
    | 0x62 => inst_nsa code false
    | 0x72 => inst_daa code false
    | _ => return .halt
  | 0x3 => inst_com code false
  | 0x4 => inst_lsr code false
  | 0x5 =>
    match code with
    | 0x35 => inst_sthx code false
    | 0x45 | 0x55 => inst_ldhx code false
    | 0x65 | 0x75 => inst_cphx code false
    | _ => return .halt
  | 0x6 => inst_ror code false
  | 0x7 => inst_asr code false
  | 0x8 => inst_lsl code false
  | 0x9 => inst_rol code false
  | 0xa => inst_dec code false
  | 0xb => inst_dbnz code false
  | 0xc => inst_inc code false
  | 0xd => inst_tst code false
  | 0xe =>
    match code with
    | 0x4e | 0x5e | 0x6e | 0x7e => inst_mov code false
    | _ => return .halt
  | 0xf => inst_clr code false
  | _ => return .halt

/-- The opcodes from 0xA0 to 0xFF. -/
def accumulatorCodes (code : BitVec 8) : Prog Res :=
  match low code with
  | 0x0 => inst_sub code false
  | 0x1 => inst_cmp code false
  | 0x2 => inst_sbc code false
  | 0x3 => inst_cpx code false
  | 0x4 => inst_and code false
  | 0x5 => inst_bit code false
  | 0x6 => inst_lda code false
  | 0x7 => if code = 0xa7 then inst_ais code false else inst_sta code false
  | 0x8 => inst_eor code false
  | 0x9 => inst_adc code false
  | 0xa => inst_ora code false
  | 0xb => inst_add code false
  | 0xc => if code = 0xac then return .halt else inst_jmp code false
  | 0xd => if code = 0xad then inst_bsr code false else inst_jsr code false
  | 0xe => inst_ldx code false
  | 0xf => if code = 0xaf then inst_aix code false else inst_stx code false
  | _ => return .halt

/-- `putchar(regs.A)`. -/
def putA : Prog Res := do
  modify fun s => { s with out := s.out ++ [s.regs.A] }
  return .go

/-- The opcodes behind 0x9E. -/
def prefixedCodes (code : BitVec 8) : Prog Res :=
  match high code with
  | 0x6 =>
    match low code with
    | 0x0 => inst_neg code true
    | 0x1 => inst_cbeq code true
    | 0x3 => inst_com code true
    | 0x4 => inst_lsr code true
    | 0x6 => inst_ror code true
    | 0x7 => inst_asr code true
    | 0x8 => inst_lsl code true
    | 0x9 => inst_rol code true
    | 0xa => inst_dec code true
    | 0xb => inst_dbnz code true
    | 0xc => inst_inc code true
    | 0xd => inst_tst code true
    | 0xf => inst_clr code true
    | _ => return .halt
  | 0xd | 0xe =>
    match low code with
    | 0x0 => inst_sub code true
    | 0x1 => inst_cmp code true
    | 0x2 => inst_sbc code true
    | 0x3 => inst_cpx code true
    | 0x4 => inst_and code true
    | 0x5 => inst_bit code true
    | 0x6 => inst_lda code true
    | 0x7 => inst_sta code true
    | 0x8 => inst_eor code true
    | 0x9 => inst_adc code true
    | 0xa => inst_ora code true
    | 0xb => inst_add code true
    | 0xc => return .halt
    | 0xd => putA
    | 0xe => inst_ldx code true
    | 0xf => inst_stx code true
    | _ => return .halt
  | _ => return .halt

/-- The opcodes from 0x80 to 0x8F. -/
def stackCodes (code : BitVec 8) : Prog Res :=
  match low code with
  | 0x0 => inst_rti code false
  | 0x1 => inst_rts code false
  | 0x3 => inst_swi code false
  | 0x4 | 0x5 => inst_transfer code false
  | 0x6 | 0x7 | 0x8 | 0x9 | 0xa | 0xb => inst_pushpull code false
  | 0xc => inst_clrh code false
  | 0xe => inst_stop code false
  | 0xf => inst_wait code false
  | _ => return .halt

/-- The opcodes from 0x90 to 0x9F. The one without a case runs into the opcodes from 0xA0. -/
def registerCodes (code : BitVec 8) : Prog Res :=
  match low code with
  | 0x0 | 0x1 | 0x2 | 0x3 => inst_condbranch code false
  | 0x4 | 0x5 | 0x7 | 0xf => inst_transfer code false
  | 0x8 | 0x9 | 0xa | 0xb => inst_setclearflags code false
  | 0xc => inst_rsp code false
  | 0xd => inst_nop code false
  | 0xe => do prefixedCodes (← fetch)
  | _ => accumulatorCodes code

/-- The `switch` of `exec_inst`. What stands behind it in the source is not reached. -/
def dispatch (code : BitVec 8) : Prog Res :=
  match high code with
  | 0x0 => inst_bittestsetclear code false
  | 0x1 => inst_bitsetclear code false
  | 0x2 => inst_condbranch code false
  | 0x3 | 0x4 | 0x5 | 0x6 | 0x7 => operandCodes code
  | 0x8 => stackCodes code
  | 0x9 => registerCodes code
  | 0xa | 0xb | 0xc | 0xd | 0xe | 0xf => accumulatorCodes code
  | _ => return .halt

/-- The instruction at PC. -/
def execute : Prog Res := do
  let code ← fetch
  tick 1
  dispatch code

/-- `exec_inst`. -/
def exec_inst : Prog Res := do
  if (← get).regs.VECTOR then
    setPC (← get2 0xfffe).toNat
    onRegs fun r => { r with VECTOR := false }
    return .go
  else execute

/-- `reset`. `cl_uc::reset` clears PC. -/
def Machine.reset (s : Machine) : Machine :=
  { s with regs := { s.regs with SP := 0xff, A := 0, X := 0, H := 0, P := 0x60, VECTOR := true }, PC := 0, ticks := 0 }

namespace Machine

/-- The state after the result of the instruction at PC. -/
def step (s : Machine) : Machine := (exec_inst.run s).2

/-- The opcode. -/
def code (s : Machine) : BitVec 8 := s.byteAt s.PC

/-- The state when a byte has been fetched. -/
def skip (s : Machine) : Machine := { s with PC := inc_address s.PC }

/-- The state in which the body of an instruction starts. -/
def fetched (s : Machine) : Machine := { s.skip with ticks := s.ticks + 1 }

end Machine

theorem exec_inst_run {s : Machine} (h : s.regs.VECTOR = false) : exec_inst.run s = (dispatch s.code).run s.fetched := by
  have hrun : exec_inst.run s = (if s.regs.VECTOR then do
      setPC (← get2 0xfffe).toNat
      onRegs fun r => { r with VECTOR := false }
      return .go
    else execute : Prog Res).run s := rfl
  rw [hrun, h]
  rfl

end Ucsim.Hc08
