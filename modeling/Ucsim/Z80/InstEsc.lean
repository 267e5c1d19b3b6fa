import Ucsim.Z80.Inst

/-!
# Instructions behind CB and ED

The functions of `inst_cb.cc` and `inst_ed.cc`.
-/

namespace Ucsim.Z80

/-! ## Shifts and bits -/

/-- A shift of the operand that the last bits of the code name, in the group that starts at `base`. -/
def shiftOperand (op : BitVec 8 → BitVec 8 → BitVec 8 × BitVec 8) (base : Nat) (code : BitVec 8) : Prog Res :=
  go (switch
    [([base], onByte op .bc_h), ([base + 1], onByte op .bc_l), ([base + 2], onByte op .de_h),
     ([base + 3], onByte op .de_l), ([base + 4], onByte op .hl_h), ([base + 5], onByte op .hl_l),
     ([base + 6], do onMem op (← word .HL)), ([base + 7], onByte op .A)]
    (pure ()) code)

def inst_cb_rlc : BitVec 8 → Prog Res := shiftOperand rlc_byte 0x00

def inst_cb_rrc : BitVec 8 → Prog Res := shiftOperand rrc_byte 0x08

def inst_cb_rl : BitVec 8 → Prog Res := shiftOperand rl_byte 0x10

def inst_cb_rr : BitVec 8 → Prog Res := shiftOperand rr_byte 0x18

def inst_cb_sla : BitVec 8 → Prog Res := shiftOperand sla_byte 0x20

def inst_cb_sra : BitVec 8 → Prog Res := shiftOperand sra_byte 0x28

def inst_cb_slia : BitVec 8 → Prog Res := shiftOperand slia_byte 0x30

def inst_cb_srl : BitVec 8 → Prog Res := shiftOperand srl_byte 0x38

/-- `bit_bitnum`. -/
def bit_bitnum (code : BitVec 8) : Nat := (code >>> 3 &&& 7).toNat

/-- `inst_cb_bit`. Its operands are those of the shifts. -/
def inst_cb_bit (code : BitVec 8) : Prog Res := shiftOperand (bit_byte (bit_bitnum code)) 0x00 (code &&& 7)

/-- A byte without one of its bits. -/
def res_byte (bitnum : Nat) (reg F : BitVec 8) : BitVec 8 × BitVec 8 := (reg &&& ~~~((1 : BitVec 8) <<< bitnum), F)

/-- A byte with one of its bits. -/
def set_byte (bitnum : Nat) (reg F : BitVec 8) : BitVec 8 × BitVec 8 := (reg ||| 1 <<< bitnum, F)

/-- `inst_cb_res`. For A the mask is the number of the bit. -/
def inst_cb_res (code : BitVec 8) : Prog Res :=
  if code &&& 7 = 7 then
    go (setRegs fun g => { g with A := g.A &&& ~~~BitVec.ofNat 8 (bit_bitnum code) })
  else shiftOperand (res_byte (bit_bitnum code)) 0x00 (code &&& 7)

/-- `inst_cb_set`. The `switch` is over the whole code. -/
def inst_cb_set (code : BitVec 8) : Prog Res :=
  let op := set_byte (bit_bitnum code)
  go (switch
    [([0x0], onByte op .bc_h), ([0x1], onByte op .bc_l), ([0x2], onByte op .de_h), ([0x3], onByte op .de_l),
     ([0x4], onByte op .hl_h), ([0x5], onByte op .hl_h), ([0x6], do onMem op (← word .HL)),
     ([0x7], onByte op .de_h)]
    (pure ()) code)

/-- The end of a `switch` that knows no case for a code. -/
def unknown : Prog Res := do
  modify fun s => { s with PC := incAddress s.PC (-1) }
  return .invInst

/-- `inst_cb`. -/
def inst_cb : Prog Res := do
  let code ← fetch
  tick
  switch
    [(List.range' 0x00 8, inst_cb_rlc code), (List.range' 0x08 8, inst_cb_rrc code),
     (List.range' 0x10 8, inst_cb_rl code), (List.range' 0x18 8, inst_cb_rr code),
     (List.range' 0x20 8, inst_cb_sla code), (List.range' 0x28 8, inst_cb_sra code),
     (List.range' 0x30 8, inst_cb_slia code), (List.range' 0x38 8, inst_cb_srl code),
     (List.range' 0x40 64, inst_cb_bit code), (List.range' 0x80 64, inst_cb_res code),
     (List.range' 0xC0 64, inst_cb_set code)]
    unknown code

/-! ## Block instructions and others -/

/-- A `do … while (regs.BC != 0)`. The body counts BC down, so that 0x10000 rounds are enough. -/
def whileBC (body : Prog Unit) : Nat → Prog Unit
  | 0 => pure ()
  | n + 1 => do
    body
    if (← word .BC) ≠ 0 then whileBC body n

/-- `whileBC` with a body that may leave the loop. -/
def whileBCUnless (body : Prog Bool) : Nat → Prog Unit
  | 0 => pure ()
  | n + 1 => do
    if ← body then pure ()
    else if (← word .BC) ≠ 0 then whileBCUnless body n

/-- A word register is moved by one. -/
def step (r : Word) (by1 : BitVec 16) : Prog Unit := do setWord r ((← word r) + by1)

def clearFlags (bits : BitVec 8) : Prog Unit := setRegs fun g => { g with F := g.F &&& ~~~bits }

def setFlags (bits : BitVec 8) : Prog Unit := setRegs fun g => { g with F := g.F ||| bits }

/-- `if (regs.BC != 0) regs.F |= BIT_P`. -/
def flagBC : Prog Unit := setRegs fun g => { g with F := orIf (g.BC.word ≠ 0) BIT_P g.F }

/-- One byte of LDI and its relatives. -/
def moveByte (dir : BitVec 16) : Prog Unit := do
  store1 (← word .DE) (← get1 (← word .HL))
  step .HL dir
  step .DE dir
  step .BC (-1)

/-- `if ((regs.A - get1(regs.HL)) == 0)`. -/
def sameByte : Prog Bool := do return decide ((← byte .A) = (← get1 (← word .HL)))

/-- One byte of CPIR and CPDR. -/
def searchByte (dir : BitVec 16) : Prog Bool := do
  if ← sameByte then
    setFlags (BIT_Z ||| BIT_P)
    return true
  else
    step .HL dir
    step .BC (-1)
    return false

/-- The cases of `inst_ed`. The input and output instructions do nothing. -/
def edCases : List (List Nat × Prog Unit) :=
  [([0x42], setRegs fun g => sbc_HL_wordreg g.BC.word g), ([0x43], do store2 (← fetch2) (← word .BC)),
   ([0x44], setRegs fun g =>
      let A := g.A - g.A
      { g with A := A, F := orZS A (g.F &&& ~~~BIT_ALL ||| BIT_N) }),
   ([0x45, 0x4D], do setPC (← pop2)), ([0x47], setRegs fun g => { g with iv := g.A }),
   ([0x48, 0x49, 0x4F, 0x50, 0x51, 0x58, 0x59, 0x68, 0x69, 0x70, 0x71, 0x78, 0x79, 0xA2, 0xA3, 0xAA, 0xAB],
      pure ()),
   ([0x4A], setRegs fun g => adc_HL_wordreg g.BC.word g), ([0x4B], do setWord .BC (← get2 (← fetch2))),
   ([0x52], setRegs fun g => sbc_HL_wordreg g.DE.word g), ([0x53], do store2 (← fetch2) (← word .DE)),
   ([0x57], setRegs fun g => { g with A := g.iv }), ([0x5A], setRegs fun g => adc_HL_wordreg g.DE.word g),
   ([0x5B], do setWord .DE (← get2 (← fetch2))), ([0x62], setRegs fun g => sbc_HL_wordreg g.HL.word g),
   ([0x63], do store2 (← fetch2) (← word .HL)), ([0x6A], setRegs fun g => adc_HL_wordreg g.HL.word g),
   ([0x6B], do setWord .HL (← get2 (← fetch2))), ([0x72], setRegs fun g => sbc_HL_wordreg g.SP g),
   ([0x73], do store2 (← fetch2) (← word .SP)), ([0x7A], setRegs fun g => adc_HL_wordreg g.SP g),
   ([0x7B], do setWord .SP (← get2 (← fetch2))),
   ([0xA0], do
      clearFlags (BIT_P ||| BIT_N ||| BIT_A)
      moveByte 1
      flagBC),
   ([0xA1], do
      aluMem cp_bytereg (← word .HL)
      step .HL 1
      step .BC (-1)
      flagBC),
   ([0xA8], do
      clearFlags (BIT_P ||| BIT_N ||| BIT_A)
      moveByte (-1)
      flagBC),
   ([0xA9], do
      -- CPD moves HL upwards
      clearFlags BIT_ALL
      if ← sameByte then setFlags (BIT_Z ||| BIT_P)
      step .HL 1
      step .BC (-1)
      flagBC),
   ([0xB0], do
      clearFlags (BIT_P ||| BIT_N ||| BIT_A)
      whileBC (moveByte 1) 0x10000),
   ([0xB1], do
      clearFlags BIT_ALL
      setFlags (BIT_N ||| BIT_P)
      whileBCUnless (searchByte 1) 0x10000),
   ([0xB8], do
      clearFlags (BIT_P ||| BIT_N ||| BIT_A)
      whileBC (moveByte (-1)) 0x10000),
   ([0xB9], do
      clearFlags BIT_ALL
      whileBCUnless (searchByte (-1)) 0x10000)]

/-- `inst_ed`. -/
def inst_ed : Prog Res := do
  let code ← fetch
  switchGo edCases code

end Ucsim.Z80
