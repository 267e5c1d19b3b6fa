import Ucsim.Z80.InstEsc

/-!
# Instructions behind DD and FD

The functions of `inst_xd.cc` and `inst_xxcb.cc`, which are compiled for both index registers.
-/

namespace Ucsim.Z80

/-- What the macros `regs_iX_h`, `regs_iX_l` and `regs_IX_OR_IY` stand for. -/
structure Index where
  h : Byte
  l : Byte
  w : Word
  deriving DecidableEq, Repr

namespace Index

def IX : Index := ⟨.ix_h, .ix_l, .IX⟩

def IY : Index := ⟨.iy_h, .iy_l, .IY⟩

/-- `add_u16_disp(regs_IX_OR_IY, fetch())`. -/
def disp (X : Index) : Prog (BitVec 16) := do return add_u16_disp (← word X.w) (← fetch)

end Index

/-! ## The instructions with the index register -/

variable (X : Index)

/-- `inst_Xd_ld`. In three of the cases the register is H or L. -/
def inst_Xd_ld : BitVec 8 → Prog Res := switchGo
  [([0x21], do setWord X.w (← fetch2)), ([0x22], do store2 (← fetch2) (← word X.w)),
   ([0x26], do setByte X.h (← fetch)), ([0x2A], do setWord X.w (← get2 (← fetch2))),
   ([0x2E], do setByte X.l (← fetch)), ([0x36], do store1 (← X.disp) (← fetch)), ([0x44], copy .bc_h X.h),
   ([0x45], copy .bc_h X.l), ([0x46], do setByte .bc_h (← get1 (← X.disp))), ([0x4C], copy .bc_l X.h),
   ([0x4D], copy .bc_l X.l), ([0x4E], do setByte .bc_l (← get1 (← X.disp))), ([0x54], copy .de_h X.h),
   ([0x55], copy .de_h X.l), ([0x56], do setByte .de_h (← get1 (← X.disp))), ([0x5C], copy .de_l .hl_h),
   ([0x5D], copy .de_l .hl_l), ([0x5E], do setByte .de_l (← get1 (← X.disp))), ([0x60], copy X.h .bc_h),
   ([0x61], copy X.h .bc_l), ([0x62], copy X.h .de_h), ([0x63], copy X.h .de_l), ([0x64], pure ()),
   ([0x65], copy X.h X.l), ([0x66], do setByte .hl_h (← get1 (← X.disp))), ([0x67], copy X.h .A),
   ([0x68], copy X.l .bc_h), ([0x69], copy X.l .bc_l), ([0x6A], copy X.l .de_h), ([0x6B], copy X.l .de_l),
   ([0x6C], copy X.l .hl_h), ([0x6D], pure ()), ([0x6E], do setByte .hl_l (← get1 (← X.disp))),
   ([0x6F], copy X.l .A), ([0x70], do store1 (← X.disp) (← byte .bc_h)),
   ([0x71], do store1 (← X.disp) (← byte .bc_l)), ([0x72], do store1 (← X.disp) (← byte .de_h)),
   ([0x73], do store1 (← X.disp) (← byte .de_l)), ([0x74], do store1 (← X.disp) (← byte .hl_h)),
   ([0x75], do store1 (← X.disp) (← byte .hl_l)), ([0x77], do store1 (← X.disp) (← byte .A)),
   ([0x7C], copy .A X.h), ([0x7D], copy .A X.l), ([0x7E], do setByte .A (← get1 (← X.disp))),
   ([0xF9], copyWord .SP X.w)]

/-- `add_IX_Word`. -/
def add_IX_Word (r : Word) : Prog Unit := setRegs fun g =>
  let tmp := (g.word X.w).setWidth 32 + (g.word r).setWidth 32
  { g.setWord (tmp.setWidth 16) X.w with
    F := orIf (0xffff < tmp) BIT_C (g.F &&& ~~~(BIT_A ||| BIT_N ||| BIT_C)) }

def inst_Xd_add : BitVec 8 → Prog Res := switchGo
  [([0x09], add_IX_Word X .BC), ([0x19], add_IX_Word X .DE), ([0x29], add_IX_Word X X.w),
   ([0x39], add_IX_Word X .SP), ([0x84], alu add_A_bytereg X.h), ([0x85], alu add_A_bytereg X.l),
   ([0x86], do aluMem add_A_bytereg (← X.disp))]

def inst_Xd_inc : BitVec 8 → Prog Res := switchGo
  [([0x23], do setWord X.w ((← word X.w) + 1)), ([0x24], onByte inc X.h), ([0x2C], onByte inc X.l),
   ([0x34], do onMem inc (← X.disp))]

/-- `inst_Xd_dec`. One of the cases names IX. -/
def inst_Xd_dec : BitVec 8 → Prog Res := switchGo
  [([0x25], onByte dec X.h), ([0x2B], do setWord .IX ((← word .IX) - 1)), ([0x2D], onByte dec X.l),
   ([0x35], do onMem dec (← X.disp))]

def inst_Xd_misc : BitVec 8 → Prog Res := switchGo
  [([0x8C], alu adc_A_bytereg X.h), ([0x8D], alu adc_A_bytereg X.l),
   ([0x8E], do aluMem adc_A_bytereg (← X.disp)), ([0x94], alu sub_A_bytereg X.h),
   ([0x95], alu sub_A_bytereg X.l), ([0x96], do aluMem sub_A_bytereg (← X.disp)),
   ([0x9C], alu sbc_A_bytereg X.h), ([0x9D], alu sbc_A_bytereg X.l),
   ([0x9E], do aluMem sbc_A_bytereg (← X.disp)), ([0xA4], alu and_A_bytereg X.h),
   ([0xA5], alu and_A_bytereg X.l), ([0xA6], do aluMem and_A_bytereg (← X.disp)),
   ([0xAC], alu xor_A_bytereg X.h), ([0xAD], alu xor_A_bytereg X.l),
   ([0xAE], do aluMem xor_A_bytereg (← X.disp)), ([0xB4], alu or_A_bytereg X.h),
   ([0xB5], alu or_A_bytereg X.l), ([0xB6], do aluMem or_A_bytereg (← X.disp)),
   ([0xBC], alu cp_bytereg X.h), ([0xBD], alu cp_bytereg X.l), ([0xBE], do aluMem cp_bytereg (← X.disp))]

/-! ## Shifts and bits with the index register -/

/-- A byte register gets the new value of the byte in memory. -/
def copyOut (tmp : BitVec 8) (base : Nat) (code : BitVec 8) : Prog Res :=
  switchGo
    [([base], setByte .bc_h tmp), ([base + 1], setByte .bc_l tmp), ([base + 2], setByte .de_h tmp),
     ([base + 3], setByte .de_l tmp), ([base + 4], setByte .hl_h tmp), ([base + 5], setByte .hl_l tmp),
     ([base + 6], pure ()), ([base + 7], setByte .A tmp)]
    code

/-- The byte at the address is changed, copied to the register that `dst` chooses, and written back if there is
one. -/
def updateByte (op : BitVec 8 → BitVec 8 → BitVec 8 × BitVec 8) (dst : BitVec 8 → Prog Res) (n_offset : BitVec 8) :
    Prog Res := do
  let addr := add_u16_disp (← word X.w) n_offset
  let tmp ← onTmp op (← get1 addr)
  let res ← dst tmp
  if res = .go then store1 addr tmp
  return res

def inst_XXcb_rlc (n_offset code : BitVec 8) : Prog Res := updateByte X rlc_byte (copyOut · 0x00 code) n_offset

def inst_XXcb_rrc (n_offset code : BitVec 8) : Prog Res := updateByte X rrc_byte (copyOut · 0x08 code) n_offset

def inst_XXcb_rl (n_offset code : BitVec 8) : Prog Res := updateByte X rl_byte (copyOut · 0x10 code) n_offset

def inst_XXcb_rr (n_offset code : BitVec 8) : Prog Res := updateByte X rr_byte (copyOut · 0x18 code) n_offset

def inst_XXcb_sla (n_offset code : BitVec 8) : Prog Res := updateByte X sla_byte (copyOut · 0x20 code) n_offset

def inst_XXcb_sra (n_offset code : BitVec 8) : Prog Res := updateByte X sra_byte (copyOut · 0x28 code) n_offset

def inst_XXcb_slia (n_offset code : BitVec 8) : Prog Res := updateByte X slia_byte (copyOut · 0x30 code) n_offset

def inst_XXcb_srl (n_offset code : BitVec 8) : Prog Res := updateByte X srl_byte (copyOut · 0x38 code) n_offset

def inst_XXcb_bit (n_offset code : BitVec 8) : Prog Res :=
  updateByte X (bit_byte (bit_bitnum code)) (fun _ => return .go) n_offset

def inst_XXcb_res (n_offset code : BitVec 8) : Prog Res :=
  updateByte X (res_byte (bit_bitnum code)) (copyOut · 0x00 (code &&& 7)) n_offset

/-- `inst_XXcb_set`. The `switch` is over the whole code, and four of its cases assign to D. -/
def inst_XXcb_set (n_offset code : BitVec 8) : Prog Res :=
  updateByte X (set_byte (bit_bitnum code))
    (fun tmp => switchGo
      [([0x0], setByte .bc_h tmp), ([0x1], setByte .bc_l tmp), ([0x2], setByte .de_h tmp),
       ([0x3], setByte .de_l tmp), ([0x4], setByte .de_h tmp), ([0x5], setByte .de_h tmp), ([0x6], pure ()),
       ([0x7], setByte .de_h tmp)]
      code)
    n_offset

/-- `inst_XXcb`. -/
def inst_XXcb : Prog Res := do
  let n_offset ← fetch
  let code ← fetch
  tick
  switch
    [(List.range' 0x00 8, inst_XXcb_rlc X n_offset code), (List.range' 0x08 8, inst_XXcb_rrc X n_offset code),
     (List.range' 0x10 8, inst_XXcb_rl X n_offset code), (List.range' 0x18 8, inst_XXcb_rr X n_offset code),
     (List.range' 0x20 8, inst_XXcb_sla X n_offset code), (List.range' 0x28 8, inst_XXcb_sra X n_offset code),
     (List.range' 0x30 8, inst_XXcb_slia X n_offset code), (List.range' 0x38 8, inst_XXcb_srl X n_offset code),
     ([0x46, 0x4E, 0x56, 0x5E, 0x66, 0x6E, 0x76, 0x7E], inst_XXcb_bit X n_offset code),
     (List.range' 0x80 64, inst_XXcb_res X n_offset code), (List.range' 0xC0 64, inst_XXcb_set X n_offset code)]
    unknown code

/-! ## Dispatch -/

/-- The `switch` of `inst_Xd`. -/
def dispatchXd (code : BitVec 8) : Prog Res :=
  switch
    [([0x21, 0x22, 0x26, 0x2A, 0x2E, 0x36, 0x44, 0x45, 0x46, 0x4C, 0x4D, 0x4E, 0x54, 0x55, 0x56, 0x5C, 0x5D, 0x5E,
        0x60, 0x61, 0x62, 0x63, 0x64, 0x66, 0x67, 0x68, 0x69, 0x6A, 0x6B, 0x6C, 0x6D, 0x6E, 0x6F, 0x70, 0x71, 0x72,
        0x73, 0x74, 0x75, 0x77, 0x7C, 0x7D, 0x7E, 0xF9], inst_Xd_ld X code),
     ([0x23, 0x24, 0x2C, 0x34], inst_Xd_inc X code),
     ([0x09, 0x19, 0x29, 0x39, 0x84, 0x85, 0x86], inst_Xd_add X code),
     ([0x25, 0x2B, 0x2D, 0x35], inst_Xd_dec X code),
     ([0x8C, 0x8D, 0x8E, 0x94, 0x95, 0x96, 0x9C, 0x9D, 0x9E, 0xA4, 0xA5, 0xA6, 0xAC, 0xAD, 0xAE, 0xB4, 0xB5, 0xB6,
        0xBC, 0xBD, 0xBE], inst_Xd_misc X code),
     ([0xCB], inst_XXcb X),
     ([0xE1], go do setWord X.w (← pop2)),
     ([0xE3], go (exSP X.w)),
     ([0xE5], go do push2 (← word X.w)),
     ([0xE9], go do setPC (← word X.w))]
    (return .invInst) code

/-- `inst_Xd`. -/
def inst_Xd : Prog Res := do
  let code ← fetch
  dispatchXd X code

/-- `inst_dd`. -/
def inst_dd : Prog Res := inst_Xd .IX

/-- `inst_fd`. -/
def inst_fd : Prog Res := inst_Xd .IY

end Ucsim.Z80
