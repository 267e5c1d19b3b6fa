import Ucsim.Z80.Machine

/-!
# Instructions without a prefix

The functions of `inst.cc`. A list gives the cases of a `switch`.
-/

namespace Ucsim.Z80

/-! ## Statements -/

/-- A `switch` over bodies that end with `resGO`. -/
def switchGo (cases : List (List Nat × Prog Unit)) (code : BitVec 8) : Prog Res :=
  switch (cases.map fun c => (c.1, go c.2)) (return .invInst) code

/-- One byte register is assigned to another. -/
def copy (dst src : Byte) : Prog Unit := do setByte dst (← byte src)

def copyWord (dst src : Word) : Prog Unit := do setWord dst (← word src)

/-- `dst = get1(addr)`. -/
def load (dst : Byte) (addr : Word) : Prog Unit := do setByte dst (← get1 (← word addr))

/-- `store1(addr, src)`. -/
def save (addr : Word) (src : Byte) : Prog Unit := do store1 (← word addr) (← byte src)

/-- An operation on A and a register. -/
def alu (op : BitVec 8 → Regs → Regs) (r : Byte) : Prog Unit := setRegs fun g => op (g.byte r) g

/-- An operation on A and a byte in memory. -/
def aluMem (op : BitVec 8 → Regs → Regs) (addr : BitVec 16) : Prog Unit := do
  let tmp ← get1 addr
  setRegs (op tmp)

/-- An operation on A and the next byte. -/
def aluImm (op : BitVec 8 → Regs → Regs) : Prog Unit := do
  let tmp ← fetch
  setRegs (op tmp)

/-- Whether one of the flags is set. -/
def flag (bits : BitVec 8) : Prog Bool := do return decide ((← byte .F) &&& bits ≠ 0)

/-! ## Loads, increments and arithmetic -/

def inst_nop : Prog Res := return .go

/-- `inst_ld`. -/
def inst_ld (code : BitVec 8) : Prog Res :=
  -- the case of HALT is in `inst_halt` too
  if code = 0x76 then return .halt else switchGo
  [([0x01], do setWord .BC (← fetch2)), ([0x02], save .BC .A), ([0x06], do setByte .bc_h (← fetch)),
   ([0x0A], load .A .BC), ([0x0E], do setByte .bc_l (← fetch)), ([0x11], do setWord .DE (← fetch2)),
   ([0x12], save .DE .A), ([0x16], do setByte .de_h (← fetch)), ([0x1A], load .A .DE),
   ([0x1E], do setByte .de_l (← fetch)), ([0x21], do setWord .HL (← fetch2)),
   ([0x22], do store2 (← fetch2) (← word .HL)), ([0x26], do setByte .hl_h (← fetch)),
   ([0x2A], do setWord .HL (← get2 (← fetch2))), ([0x2E], do setByte .hl_l (← fetch)),
   ([0x31], do setWord .SP (← fetch2)), ([0x32], do store1 (← fetch2) (← byte .A)),
   ([0x36], do store1 (← word .HL) (← fetch)), ([0x3A], do setByte .A (← get1 (← fetch2))),
   ([0x3E], do setByte .A (← fetch)), ([0x40], pure ()), ([0x41], copy .bc_h .bc_l),
   ([0x42], copy .bc_h .de_h), ([0x43], copy .bc_h .de_l), ([0x44], copy .bc_h .hl_h),
   ([0x45], copy .bc_h .hl_l), ([0x46], load .bc_h .HL), ([0x47], copy .bc_h .A),
   ([0x48], copy .bc_l .bc_h), ([0x49], pure ()), ([0x4A], copy .bc_l .de_h), ([0x4B], copy .bc_l .de_l),
   ([0x4C], copy .bc_l .hl_h), ([0x4D], copy .bc_l .hl_l), ([0x4E], load .bc_l .HL),
   ([0x4F], copy .bc_l .A), ([0x50], copy .de_h .bc_h), ([0x51], copy .de_h .bc_l), ([0x52], pure ()),
   ([0x53], copy .de_h .de_l), ([0x54], copy .de_h .hl_h), ([0x55], copy .de_h .hl_l),
   ([0x56], load .de_h .HL), ([0x57], copy .de_h .A), ([0x58], copy .de_l .bc_h),
   ([0x59], copy .de_l .bc_l), ([0x5A], copy .de_l .de_h), ([0x5B], pure ()), ([0x5C], copy .de_l .hl_h),
   ([0x5D], copy .de_l .hl_l), ([0x5E], load .de_l .HL), ([0x5F], copy .de_l .A),
   ([0x60], copy .hl_h .bc_h), ([0x61], copy .hl_h .bc_l), ([0x62], copy .hl_h .de_h),
   ([0x63], copy .hl_h .de_l), ([0x64], copy .hl_h .hl_h), ([0x65], copy .hl_h .hl_l),
   ([0x66], load .hl_h .HL), ([0x67], copy .hl_h .A), ([0x68], copy .hl_l .bc_h),
   ([0x69], copy .hl_l .bc_l), ([0x6A], copy .hl_l .de_h), ([0x6B], copy .hl_l .de_l),
   ([0x6C], copy .hl_l .hl_h), ([0x6D], pure ()), ([0x6E], load .hl_l .HL), ([0x6F], copy .hl_l .A),
   ([0x70], save .HL .bc_h), ([0x71], save .HL .bc_l), ([0x72], save .HL .de_h), ([0x73], save .HL .de_l),
   ([0x74], save .HL .hl_h), ([0x75], save .HL .hl_l), ([0x77], save .HL .A), ([0x78], copy .A .bc_h),
   ([0x79], copy .A .bc_l), ([0x7A], copy .A .de_h), ([0x7B], copy .A .de_l), ([0x7C], copy .A .hl_h),
   ([0x7D], copy .A .hl_l), ([0x7E], load .A .HL), ([0x7F], pure ()), ([0xF9], copyWord .SP .HL)]
  code

def inst_inc : BitVec 8 → Prog Res := switchGo
  [([0x03], do setWord .BC ((← word .BC) + 1)), ([0x04], onByte inc .bc_h), ([0x0C], onByte inc .bc_l),
   ([0x13], do setWord .DE ((← word .DE) + 1)), ([0x14], onByte inc .de_h), ([0x1C], onByte inc .de_l),
   ([0x23], do setWord .HL ((← word .HL) + 1)), ([0x24], onByte inc .hl_h), ([0x2C], onByte inc .hl_l),
   ([0x33], do setWord .SP ((← word .SP) + 1)), ([0x34], do onMem inc (← word .HL)),
   ([0x3C], onByte inc .A)]

def inst_dec : BitVec 8 → Prog Res := switchGo
  [([0x05], onByte dec .bc_h), ([0x0B], do setWord .BC ((← word .BC) - 1)), ([0x0D], onByte dec .bc_l),
   ([0x15], onByte dec .de_h), ([0x1B], do setWord .DE ((← word .DE) - 1)), ([0x1D], onByte dec .de_l),
   ([0x25], onByte dec .hl_h), ([0x2B], do setWord .HL ((← word .HL) - 1)), ([0x2D], onByte dec .hl_l),
   ([0x35], do onMem dec (← word .HL)), ([0x3B], do setWord .SP ((← word .SP) - 1)),
   ([0x3D], onByte dec .A)]

/-- `add_HL_Word`. It clears all flags. -/
def add_HL_Word (r : Word) : Prog Unit := setRegs fun g =>
  let tmp := g.HL.word.setWidth 32 + (g.word r).setWidth 32
  { g with HL := .ofWord (tmp.setWidth 16), F := orIf (0xffff < tmp) BIT_C (g.F &&& ~~~BIT_ALL) }

def inst_add : BitVec 8 → Prog Res := switchGo
  [([0x09], add_HL_Word .BC), ([0x19], add_HL_Word .DE), ([0x29], add_HL_Word .HL),
   ([0x39], add_HL_Word .SP), ([0x80], alu add_A_bytereg .bc_h), ([0x81], alu add_A_bytereg .bc_l),
   ([0x82], alu add_A_bytereg .de_h), ([0x83], alu add_A_bytereg .de_l), ([0x84], alu add_A_bytereg .hl_h),
   ([0x85], alu add_A_bytereg .hl_l), ([0x86], do aluMem add_A_bytereg (← word .HL)),
   ([0x87], alu add_A_bytereg .A), ([0xC6], aluImm add_A_bytereg)]

def inst_adc : BitVec 8 → Prog Res := switchGo
  [([0x88], alu adc_A_bytereg .bc_h), ([0x89], alu adc_A_bytereg .bc_l), ([0x8A], alu adc_A_bytereg .de_h),
   ([0x8B], alu adc_A_bytereg .de_l), ([0x8C], alu adc_A_bytereg .hl_h), ([0x8D], alu adc_A_bytereg .hl_l),
   ([0x8E], do aluMem adc_A_bytereg (← word .HL)), ([0x8F], alu adc_A_bytereg .A),
   ([0xCE], aluImm adc_A_bytereg)]

def inst_sub : BitVec 8 → Prog Res := switchGo
  [([0x90], alu sub_A_bytereg .bc_h), ([0x91], alu sub_A_bytereg .bc_l), ([0x92], alu sub_A_bytereg .de_h),
   ([0x93], alu sub_A_bytereg .de_l), ([0x94], alu sub_A_bytereg .hl_h), ([0x95], alu sub_A_bytereg .hl_l),
   ([0x96], do aluMem sub_A_bytereg (← word .HL)), ([0x97], setByte .A 0), ([0xD6], aluImm sub_A_bytereg)]

def inst_sbc : BitVec 8 → Prog Res := switchGo
  [([0x98], alu sbc_A_bytereg .bc_h), ([0x99], alu sbc_A_bytereg .bc_l), ([0x9A], alu sbc_A_bytereg .de_h),
   ([0x9B], alu sbc_A_bytereg .de_l), ([0x9C], alu sbc_A_bytereg .hl_h), ([0x9D], alu sbc_A_bytereg .hl_l),
   ([0x9E], do aluMem sbc_A_bytereg (← word .HL)), ([0x9F], alu sbc_A_bytereg .A),
   ([0xDE], aluImm sbc_A_bytereg)]

def inst_and : BitVec 8 → Prog Res := switchGo
  [([0xA0], alu and_A_bytereg .bc_h), ([0xA1], alu and_A_bytereg .bc_l), ([0xA2], alu and_A_bytereg .de_h),
   ([0xA3], alu and_A_bytereg .de_l), ([0xA4], alu and_A_bytereg .hl_h), ([0xA5], alu and_A_bytereg .hl_l),
   ([0xA6], do aluMem and_A_bytereg (← word .HL)), ([0xA7], alu and_A_bytereg .A),
   ([0xE6], aluImm and_A_bytereg)]

def inst_xor : BitVec 8 → Prog Res := switchGo
  [([0xA8], alu xor_A_bytereg .bc_h), ([0xA9], alu xor_A_bytereg .bc_l), ([0xAA], alu xor_A_bytereg .de_h),
   ([0xAB], alu xor_A_bytereg .de_l), ([0xAC], alu xor_A_bytereg .hl_h), ([0xAD], alu xor_A_bytereg .hl_l),
   ([0xAE], do aluMem xor_A_bytereg (← word .HL)), ([0xAF], alu xor_A_bytereg .A),
   ([0xEE], aluImm xor_A_bytereg)]

def inst_or : BitVec 8 → Prog Res := switchGo
  [([0xB0], alu or_A_bytereg .bc_h), ([0xB1], alu or_A_bytereg .bc_l), ([0xB2], alu or_A_bytereg .de_h),
   ([0xB3], alu or_A_bytereg .de_l), ([0xB4], alu or_A_bytereg .hl_h), ([0xB5], alu or_A_bytereg .hl_l),
   ([0xB6], do aluMem or_A_bytereg (← word .HL)), ([0xB7], alu or_A_bytereg .A),
   ([0xF6], aluImm or_A_bytereg)]

def inst_cp : BitVec 8 → Prog Res := switchGo
  [([0xB8], alu cp_bytereg .bc_h), ([0xB9], alu cp_bytereg .bc_l), ([0xBA], alu cp_bytereg .de_h),
   ([0xBB], alu cp_bytereg .de_l), ([0xBC], alu cp_bytereg .hl_h), ([0xBD], alu cp_bytereg .hl_l),
   ([0xBE], do aluMem cp_bytereg (← word .HL)), ([0xBF], alu cp_bytereg .A), ([0xFE], aluImm cp_bytereg)]

/-! ## Accumulator and flags -/

def inst_rlca : Prog Res := go (onByte rlc_byte .A)

def inst_rrca : Prog Res := go (onByte rrc_byte .A)

def inst_rla : Prog Res := go (onByte rl_byte .A)

def inst_rra : Prog Res := go (onByte rr_byte .A)

def inst_daa : Prog Res := go (setRegs fun g =>
  let incr : BitVec 8 := if g.F &&& BIT_A ≠ 0 ∨ 9 < g.A &&& 0x0f then 6 else 0
  let incr := if g.F &&& BIT_C ≠ 0 ∨ 0x90 < g.A &&& 0xf0 then incr ||| 0x60 else incr
  if g.F &&& BIT_N ≠ 0 then sub_A_bytereg incr g
  else
    let incr := if 0x90 < g.A ∧ 9 < g.A &&& 0x0f then incr ||| 0x60 else incr
    add_A_bytereg incr g)

def inst_cpl : Prog Res := go (setRegs fun g => { g with F := g.F ||| (BIT_A ||| BIT_N), A := ~~~g.A })

def inst_scf : Prog Res := go (setRegs fun g => { g with F := g.F ||| BIT_C })

def inst_ccf : Prog Res := go (setRegs fun g => { g with F := g.F ^^^ BIT_C })

def inst_halt : Prog Res := return .halt

def inst_di : Prog Res := return .go

def inst_ei : Prog Res := return .go

def inst_out : Prog Res := return .go

def inst_in : Prog Res := return .go

/-! ## Exchanges -/

/-- `EX (SP),` a word register. -/
def exSP (r : Word) : Prog Unit := do
  let tempw ← word r
  setWord r (← get2 (← word .SP))
  store2 (← word .SP) tempw

def inst_ex : BitVec 8 → Prog Res := switchGo
  [([0x08], setRegs fun g => { g with aA := g.A, A := g.aA, aF := g.F, F := g.aF }),
   ([0xE3], exSP .HL),
   ([0xEB], do
      let tempw ← word .DE
      copyWord .DE .HL
      setWord .HL tempw)]

/-- `inst_exx`. The alternate registers are copied, and those of DE twice. -/
def inst_exx : Prog Res := go (setRegs fun g => { g with BC := g.aBC, DE := g.aDE })

/-! ## Stack, jumps and calls -/

def inst_push : BitVec 8 → Prog Res := switchGo
  [([0xC5], do push2 (← word .BC)), ([0xD5], do push2 (← word .DE)), ([0xE5], do push2 (← word .HL)),
   ([0xF5], do push1 (← byte .A); push1 (← byte .F))]

/-- `get1(regs.SP++)`. -/
def get1SP : Prog (BitVec 8) := do
  let val ← get1 (← word .SP)
  setWord .SP ((← word .SP) + 1)
  return val

def inst_pop : BitVec 8 → Prog Res := switchGo
  [([0xC1], do setWord .BC (← pop2)), ([0xD1], do setWord .DE (← pop2)), ([0xE1], do setWord .HL (← pop2)),
   ([0xF1], do setByte .F (← get1SP); setByte .A (← get1SP))]

/-- `push2(PC+2)`. -/
def pushPC : Prog Unit := do push2 (BitVec.ofInt 16 ((← get).PC + 2))

/-- A restart. It pushes the same as a call, although it has no operand. -/
def rst (addr : BitVec 16) : Prog Unit := do
  pushPC
  setPC addr

/-- `RST 8` is a service of the simulator. -/
def rst8 : Prog Res := do
  let A ← byte .A
  if A = 0 then return .exit
  else if A = 1 then
    let l ← byte .hl_l
    go (modify fun s => { s with out := s.out ++ [l] })
  else return .go

def inst_rst (code : BitVec 8) : Prog Res :=
  if code = 0xCF then rst8 else switchGo
  [([0xC7], rst 0x00), ([0xD7], rst 0x10), ([0xDF], rst 0x18), ([0xE7], rst 0x20), ([0xEF], rst 0x28),
   ([0xF7], rst 0x30), ([0xFF], rst 0x38)]
  code

/-- `pop2(PC)` under a condition. -/
def retIf (c : Bool) : Prog Unit := if c then do setPC (← pop2) else pure ()

def inst_ret : BitVec 8 → Prog Res := switchGo
  [([0xC0], do retIf !(← flag BIT_Z)), ([0xC8], do retIf (← flag BIT_Z)), ([0xC9], retIf true),
   ([0xD0], do retIf !(← flag BIT_C)), ([0xD8], do retIf (← flag BIT_C)), ([0xE0], do retIf !(← flag BIT_P)),
   ([0xE8], do retIf (← flag BIT_P)), ([0xF0], do retIf !(← flag BIT_S)), ([0xF8], do retIf (← flag BIT_S))]

/-- A call under a condition. The operand is fetched after the address has been pushed. -/
def callIf (c : Bool) : Prog Unit :=
  if c then do
    pushPC
    setPC (← fetch2)
  else do
    let _ ← fetch2

def inst_call : BitVec 8 → Prog Res := switchGo
  [([0xC4], do callIf !(← flag BIT_Z)), ([0xCC], do callIf (← flag BIT_Z)), ([0xCD], callIf true),
   ([0xD4], do callIf !(← flag BIT_C)), ([0xDC], do callIf (← flag BIT_C)), ([0xE4], do callIf !(← flag BIT_P)),
   ([0xEC], do callIf (← flag BIT_P)), ([0xF4], do callIf !(← flag BIT_S)), ([0xFC], do callIf (← flag BIT_S))]

/-- A jump under a condition. -/
def jpIf (c : Bool) : Prog Unit :=
  if c then do setPC (← fetch2) else do
    let _ ← fetch2

/-- `inst_jp`. The conditions of `E2` and `EA` are the other way round than those of the calls. -/
def inst_jp : BitVec 8 → Prog Res := switchGo
  [([0xC2], do jpIf !(← flag BIT_Z)), ([0xC3], jpIf true), ([0xCA], do jpIf (← flag BIT_Z)),
   ([0xD2], do jpIf !(← flag BIT_C)), ([0xDA], do jpIf (← flag BIT_C)), ([0xE2], do jpIf (← flag BIT_P)),
   ([0xE9], do setPC (← word .HL)), ([0xEA], do jpIf !(← flag BIT_P)), ([0xF2], do jpIf !(← flag BIT_S)),
   ([0xFA], do jpIf (← flag BIT_S))]

/-- `PC += j` under a condition. The sum is not brought back into the address space. -/
def jrIf (c : Bool) (j : BitVec 8) : Prog Unit :=
  if c then modify fun s => { s with PC := s.PC + j.toInt } else pure ()

def inst_djnz : Prog Res := go do
  let j ← fetch
  setByte .bc_h ((← byte .bc_h) - 1)
  jrIf (decide ((← byte .bc_h) ≠ 0)) j

def inst_jr (code : BitVec 8) : Prog Res := do
  let j ← fetch
  switchGo
    [([0x18], jrIf true j), ([0x20], do jrIf (!(← flag BIT_Z)) j), ([0x28], do jrIf (← flag BIT_Z) j),
     ([0x30], do jrIf (!(← flag BIT_C)) j), ([0x38], do jrIf (← flag BIT_C) j)]
    code

end Ucsim.Z80
