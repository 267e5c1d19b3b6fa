import Ucsim.Avr.MultiPrecision

/-!
# The flags of a result

The instructions compute S in several ways: from N and V, by turning it over, by comparing the result, by copying N. In
each of them it is N XOR V after all, and Z says that the result is zero.
-/

namespace Ucsim.Avr

open Logic

/-- S is N XOR V. -/
def SignRight (sreg : BitVec 8) : Prop := sreg.getLsbD 4 = (sreg.getLsbD 2 ^^ sreg.getLsbD 3)

instance (sreg : BitVec 8) : Decidable (SignRight sreg) := inferInstanceAs (Decidable (_ = _))

/-! ## Bits of a new `SREG` -/

attribute [local simp] BIT_C BIT_H BIT_S BIT_V BIT_N BIT_Z BIT_SUB BIT_SHIFT

/-- The same in 16 bits. -/
def SignRight16 (sreg : BitVec 16) : Prop := sreg.getLsbD 4 = (sreg.getLsbD 2 ^^ sreg.getLsbD 3)

theorem low_flag (v : BitVec 16) {k : Nat} (hk : k < 8) : (v.setWidth 8).getLsbD k = v.getLsbD k := by
  rw [BitVec.getLsbD_setWidth, decide_eq_true hk, Bool.true_and]

theorem SignRight16.byte {sreg : BitVec 16} (h : SignRight16 sreg) : SignRight (sreg.setWidth 8) := by
  unfold SignRight
  rw [low_flag _ (by decide), low_flag _ (by decide), low_flag _ (by decide)]
  exact h

@[local simp] theorem and_0x8000 (x : BitVec 16) : x &&& 32768#16 = 0#16 ↔ x[15] = false := and_bit x 15 (by decide)

section Bits

variable (D R result res sreg : BitVec 16)

theorem sub_plain_sign : SignRight16 (sub_plain D R sreg).2 := by
  simp [SignRight16, sub_plain, sub_flags]
  cases D[7] <;> cases R[7] <;> cases (D - R)[7] <;> rfl

theorem sub_carry_sign : SignRight16 (sub_carry D R sreg).2 := by
  by_cases h : Differs D R sreg
  · simp [SignRight16, sub_carry_of_differs h, sub_flags]
  · simp [SignRight16, sub_carry_of_not_differs h, sub_flags]

theorem add_flags_sign : SignRight16 (add_flags D R result res sreg) := by
  unfold SignRight16 add_flags
  cases h : res[7] <;> simp [h]

theorem add_flags_Z : (add_flags D R result res sreg).getLsbD 1 = decide (res = 0) := by
  unfold add_flags
  cases h : res[7] <;> simp [h]

theorem shift_flags_sign (c : Bool) :
    SignRight16 (shift_flags c res (orIf c BIT_C (sreg &&& ~~~BIT_SHIFT))) := by
  simp [SignRight16, shift_flags]
  cases res[7] <;> cases c <;> rfl

theorem shift_flags_Z (c : Bool) :
    (shift_flags c res (orIf c BIT_C (sreg &&& ~~~BIT_SHIFT))).getLsbD 1 = decide (res = 0) := by
  simp [shift_flags]

theorem adiw_flags_sign : SignRight16 (adiw_flags D res sreg) := by
  unfold SignRight16 adiw_flags
  cases h : res[15] <;> simp [h]

theorem adiw_flags_Z : (adiw_flags D res sreg).getLsbD 1 = decide (res = 0) := by
  unfold adiw_flags
  cases h : res[15] <;> simp [h]

theorem sbiw_flags_sign : SignRight16 (sbiw_flags D res sreg) := by
  simp [SignRight16, sbiw_flags]
  cases res[15] <;> simp

theorem sbiw_flags_Z : (sbiw_flags D res sreg).getLsbD 1 = decide (res = 0) := by
  simp [sbiw_flags]

/-- The flags after a logical instruction. -/
def zn0s_flags (data sreg : BitVec 16) : BitVec 16 :=
  putIf (data &&& 0xff &&& 0x80 ≠ 0) (BIT_N ||| BIT_S) (putIf (data &&& 0xff = 0) BIT_Z (sreg &&& ~~~BIT_V))

theorem zn0s_flags_sign : SignRight16 (zn0s_flags res sreg) := by
  simp [SignRight16, zn0s_flags]

theorem zn0s_flags_Z : (zn0s_flags res sreg).getLsbD 1 = decide (res.setWidth 8 = 0) := by
  unfold zn0s_flags
  rw [BitVec.getLsbD_eq_getElem (by decide), putIf_getElem, putIf_getElem, ← decide_eq_decide.mpr (low_byte_zero res)]
  rfl

end Bits

theorem signed_low_byte (x : BitVec 16) : (signed x).setWidth 8 = x.setWidth 8 := by
  unfold signed orIf
  split_ifs
  · rw [BitVec.setWidth_or]
    exact BitVec.or_zero
  · rfl

/-- Signs do not matter in the low byte of a difference. -/
theorem signed_difference (D R : BitVec 16) : (signed D - signed R).setWidth 8 = D.setWidth 8 - R.setWidth 8 := by
  have hsum : (signed D - signed R).setWidth 8 + (signed R).setWidth 8 = (signed D).setWidth 8 := by
    rw [← BitVec.setWidth_add _ _ (by decide), BitVec.sub_add_cancel]
  rw [← signed_low_byte D, ← signed_low_byte R, ← hsum, BitVec.add_sub_cancel]

theorem word_zero (x : BitVec 16) : x = 0 ↔ x.setWidth 8 = 0 ∧ (x >>> 8).setWidth 8 = 0 := by
  have hx := x.isLt
  rw [← BitVec.toNat_inj, ← BitVec.toNat_inj, ← BitVec.toNat_inj, BitVec.toNat_setWidth, BitVec.toNat_setWidth,
    BitVec.toNat_ushiftRight, Nat.shiftRight_eq_div_pow]
  change x.toNat = 0 ↔ x.toNat % 2 ^ 8 = 0 ∧ x.toNat / 2 ^ 8 % 2 ^ 8 = 0
  omega

theorem masked_zero (x : BitVec 16) : (x &&& 0xff).setWidth 8 = 0 ↔ x &&& 0xff = 0 := by
  rw [low_byte, low_byte_zero]

/-! ## Results -/

/-- What Z tells about: a register that is stored, a word that is stored, or a difference that is not. -/
inductive Result
  | register (d : BitVec 16)
  | word (dl : BitVec 16)
  | difference (d : BitVec 16) (right : Machine → BitVec 8)
  /-- Z depends on the one before. -/
  | several

/-- Z is set when the result is zero, and only then. -/
def Result.Told (s s' : Machine) : Result → Prop
  | register d => (s'.ram SREG).getLsbD 1 = true ↔ s'.ram d = 0
  | word dl => (s'.ram SREG).getLsbD 1 = true ↔ s'.ram dl = 0 ∧ s'.ram (dl + 1) = 0
  | difference d right => (s'.ram SREG).getLsbD 1 = true ↔ s.ram d - right s = 0
  | several => True

/-- The flags after an instruction. -/
def FlagsRight (s : Machine) (r : Result) : Prop := SignRight (s.step.ram SREG) ∧ r.Told s s.step

section Results

variable {s : Machine} {d v f : BitVec 16}

/-- A register is stored, and then `SREG`. -/
theorem flags_register (hd : d.toNat < 32)
    (hram : s.step.ram = Function.update (Function.update s.ram d (v.setWidth 8)) SREG (f.setWidth 8))
    (hsign : SignRight16 f) (hzero : f.getLsbD 1 = decide (v.setWidth 8 = 0)) : FlagsRight s (.register d) := by
  have hsreg : s.step.ram SREG = f.setWidth 8 := by rw [hram, Function.update_self]
  have hbyte : s.step.ram d = v.setWidth 8 := by rw [hram, Function.update_of_ne (ne_SREG hd), Function.update_self]
  refine ⟨hsreg ▸ hsign.byte, ?_⟩
  unfold Result.Told
  dsimp only
  rw [hsreg, hbyte, low_flag _ (by decide), hzero, decide_eq_true_iff]

theorem flags_onReg {uses : List Operand} {op : BitVec 16 → BitVec 16 → BitVec 16 × BitVec 16}
    (hdecode : decode s.code = some (inst uses (onReg d op))) (hd : d.toNat < 32)
    (hsign : ∀ (D : BitVec 8) sreg, SignRight16 (op (D.setWidth 16) sreg).2)
    (hzero : ∀ (D : BitVec 8) sreg, (op (D.setWidth 16) sreg).2.getLsbD 1 = decide ((op (D.setWidth 16) sreg).1.setWidth 8 = 0)) :
    FlagsRight s (.register d) := by
  refine flags_register hd ?_ (hsign (s.ram d) ((s.ram SREG).setWidth 16)) (hzero _ _)
  rw [step_eq hdecode]
  rfl

/-- What a subtraction leaves. -/
theorem subtract_ram {uses : List Operand} {sub : BitVec 16 → BitVec 16 → BitVec 16 → BitVec 16 × BitVec 16}
    {right : Prog (BitVec 16)} {R : BitVec 16} (hdecode : decode s.code = some (inst uses (subtract sub d right)))
    (hright : right.run s.fetched = (R, s.fetched)) :
    let p := sub (signed ((s.ram d).setWidth 16)) (signed R)
      ((s.ram SREG).setWidth 16)
    s.step.ram = Function.update (Function.update s.ram d (p.1.setWidth 8)) SREG (p.2.setWidth 8) := by
  rw [step_eq hdecode]
  change (((subtract sub d right).run s.fetched).2).ram = _
  unfold subtract
  rw [StateT.run_bind, hright]
  rfl

/-- What a comparison leaves. -/
theorem comparison_ram {uses : List Operand} {sub : BitVec 16 → BitVec 16 → BitVec 16 → BitVec 16 × BitVec 16}
    {right : Prog (BitVec 16)} {R : BitVec 16} (hdecode : decode s.code = some (inst uses (comparison sub d right)))
    (hright : right.run s.fetched = (R, s.fetched)) :
    s.step.ram = Function.update s.ram SREG
      ((sub (signed ((s.ram d).setWidth 16)) (signed R) ((s.ram SREG).setWidth 16)).2.setWidth 8) := by
  rw [step_eq hdecode]
  change (((comparison sub d right).run s.fetched).2).ram = _
  unfold comparison
  rw [StateT.run_bind, hright]
  rfl

theorem flags_subtract {uses : List Operand} {right : Prog (BitVec 16)} {R : BitVec 16}
    (hdecode : decode s.code = some (inst uses (subtract sub_plain d right))) (hd : d.toNat < 32)
    (hright : right.run s.fetched = (R, s.fetched)) : FlagsRight s (.register d) := by
  refine flags_register hd (subtract_ram hdecode hright) (sub_plain_sign _ _ _) ?_
  rw [BitVec.getLsbD_eq_getElem (by decide), sub_plain_Z]
  exact decide_eq_decide.mpr (masked_zero _).symm

theorem flags_comparison {uses : List Operand} {right : Prog (BitVec 16)} {R : BitVec 16} {y : Machine → BitVec 8}
    (hdecode : decode s.code = some (inst uses (comparison sub_plain d right)))
    (hright : right.run s.fetched = (R, s.fetched)) (hy : y s = R.setWidth 8) : FlagsRight s (.difference d y) := by
  have hsreg : s.step.ram SREG = _ :=
    (congrFun (comparison_ram hdecode hright) SREG).trans (Function.update_self ..)
  refine ⟨hsreg ▸ (sub_plain_sign _ _ _).byte, ?_⟩
  unfold Result.Told
  dsimp only
  rw [hsreg, low_flag _ (by decide), BitVec.getLsbD_eq_getElem (by decide), sub_plain_Z, decide_eq_true_iff,
    low_byte_zero, signed_difference, byte_word, hy]

/-- With a carry, Z is not about the difference alone. -/
theorem flags_subtract_carry {uses : List Operand} {right : Prog (BitVec 16)} {R : BitVec 16}
    (hdecode : decode s.code = some (inst uses (subtract sub_carry d right)))
    (hright : right.run s.fetched = (R, s.fetched)) : FlagsRight s .several := by
  have hsreg : s.step.ram SREG = _ := (congrFun (subtract_ram hdecode hright) SREG).trans (Function.update_self ..)
  exact ⟨hsreg ▸ (sub_carry_sign _ _ _).byte, trivial⟩

theorem flags_comparison_carry {uses : List Operand} {right : Prog (BitVec 16)} {R : BitVec 16}
    (hdecode : decode s.code = some (inst uses (comparison sub_carry d right)))
    (hright : right.run s.fetched = (R, s.fetched)) : FlagsRight s .several := by
  have hsreg : s.step.ram SREG = _ := (congrFun (comparison_ram hdecode hright) SREG).trans (Function.update_self ..)
  exact ⟨hsreg ▸ (sub_carry_sign _ _ _).byte, trivial⟩

theorem flags_addTo {uses : List Operand} {r : BitVec 16} {carry : BitVec 16 → BitVec 16}
    (hdecode : decode s.code = some (inst uses (addTo d r carry))) (hd : d.toNat < 32) : FlagsRight s (.register d) := by
  have hram : s.step.ram = _ := congrArg Machine.ram (step_eq hdecode)
  refine flags_register hd hram (add_flags_sign _ _ _ _ _) ?_
  rw [add_flags_Z]
  exact decide_eq_decide.mpr (masked_zero _).symm

theorem flags_logic {uses : List Operand} {body : Prog Unit} (data : BitVec 16)
    (hdecode : decode s.code = some (inst uses body)) (hd : d.toNat < 32)
    (hbody : body.run s.fetched = (logic d data).run s.fetched) : FlagsRight s (.register d) := by
  have hram : s.step.ram = Function.update (Function.update s.ram d (data.setWidth 8)) SREG
      ((zn0s_flags data ((Function.update s.ram d (data.setWidth 8) SREG).setWidth 16)).setWidth 8) := by
    rw [step_eq hdecode]
    change ((body.run s.fetched).2).ram = _
    rw [hbody]
    rfl
  exact flags_register hd hram (zn0s_flags_sign _ _) (zn0s_flags_Z _ _)

/-- A word in two registers and `SREG` get new values. -/
theorem word_ram {uses : List Operand} {op : BitVec 16 → BitVec 16} {flags : BitVec 16 → BitVec 16 → BitVec 16 → BitVec 16}
    (hdecode : decode s.code = some (inst uses do
      let D ← readWord d
      writeWord d (op D)
      write SREG (flags D (op D) (← read SREG))
      tick 1)) (hd : d.toNat < 31) :
    let D := (s.ram (d + 1)).setWidth 16 * 256 + (s.ram d).setWidth 16
    (∃ sreg, s.step.ram SREG = (flags D (op D) sreg).setWidth 8) ∧ s.step.ram d = (op D).setWidth 8 ∧
      s.step.ram (d + 1) = (op D >>> 8).setWidth 8 := by
  have hnext : (d + 1).toNat = d.toNat + 1 := by
    rw [BitVec.toNat_add]
    exact Nat.mod_eq_of_lt (Nat.lt_trans (Nat.succ_lt_succ hd) (by decide))
  have hne : d ≠ d + 1 := by
    intro heq
    rw [← heq] at hnext
    omega
  let D := (s.ram (d + 1)).setWidth 16 * 256 + (s.ram d).setWidth 16
  let res := op D
  let written := Function.update (Function.update s.ram (d + 1) ((res >>> 8 &&& 0xff).setWidth 8)) d ((res &&& 0xff).setWidth 8)
  have hram : s.step.ram = Function.update written SREG ((flags D res ((written SREG).setWidth 16)).setWidth 8) := by
    rw [step_eq hdecode]
    rfl
  refine ⟨⟨(written SREG).setWidth 16, ?_⟩, ?_, ?_⟩
  · rw [hram, Function.update_self]
  · rw [hram, Function.update_of_ne (ne_SREG (by omega)), ← low_byte]
    exact Function.update_self ..
  · rw [hram, Function.update_of_ne (ne_SREG (by omega)), ← low_byte]
    exact (Function.update_of_ne hne.symm ..).trans (Function.update_self ..)

theorem flags_word {uses : List Operand} {op : BitVec 16 → BitVec 16} {flags : BitVec 16 → BitVec 16 → BitVec 16 → BitVec 16}
    (hdecode : decode s.code = some (inst uses do
      let D ← readWord d
      writeWord d (op D)
      write SREG (flags D (op D) (← read SREG))
      tick 1)) (hd : d.toNat < 31) (hsign : ∀ D res sreg, SignRight16 (flags D res sreg))
    (hzero : ∀ D res sreg, (flags D res sreg).getLsbD 1 = decide (res = 0)) : FlagsRight s (.word d) := by
  obtain ⟨⟨sreg, hsreg⟩, hlow, hhigh⟩ := word_ram hdecode hd
  refine ⟨hsreg ▸ (hsign _ _ _).byte, ?_⟩
  unfold Result.Told
  dsimp only
  rw [hsreg, low_flag _ (by decide), hzero, decide_eq_true_iff, hlow, hhigh]
  exact word_zero _

end Results

/-! ## The table -/

theorem dSum_lt (code : BitVec 16) : (dSum code).toNat < 32 := by
  have hand : (code &&& 0xf0).toNat ≤ 0xf0 := by
    rw [BitVec.toNat_and]
    exact Nat.and_le_right
  unfold dSum
  rw [BitVec.toNat_ushiftRight, Nat.shiftRight_eq_div_pow, BitVec.toNat_add]
  change (16 + (code &&& 0xf0).toNat) % 2 ^ 16 / 2 ^ 4 < 32
  omega

theorem bits_le (code mask : BitVec 16) (n : Nat) : (bits code mask n).toNat ≤ mask.toNat / 2 ^ n := by
  unfold bits
  rw [BitVec.toNat_ushiftRight, Nat.shiftRight_eq_div_pow, BitVec.toNat_and]
  exact Nat.div_le_div_right Nat.and_le_right

theorem upper_lt (code : BitVec 16) : (d4 code + 16).toNat < 32 := by
  have hbits : (d4 code).toNat ≤ 15 := bits_le code 0xf0 4
  rw [BitVec.toNat_add]
  change ((d4 code).toNat + 16) % 2 ^ 16 < 32
  omega

theorem dl_lt (code : BitVec 16) : (dl code).toNat < 31 := by
  have hbits : (bits code 0x30 4).toNat ≤ 3 := bits_le code 0x30 4
  unfold dl
  rw [BitVec.toNat_add, BitVec.toNat_mul]
  change (24 + 2 * (bits code 0x30 4).toNat % 2 ^ 16) % 2 ^ 16 < 31
  omega

/-- The constant of `cpi` and of the subtractions. -/
def constant (code : BitVec 16) : Machine → BitVec 8 := fun _ => (KShort code).setWidth 8

/-- The arithmetic, logical, comparing, counting and shifting instructions but `mul`, and what Z tells about after them. -/
def flagged : List (Pattern 16 (BitVec 16 → Result)) :=
  [⟨0xf000, 0x3000, fun code => .difference (dSum code) (constant code)⟩,
   ⟨0xf000, 0x4000, fun _ => .several⟩,
   ⟨0xf000, 0x5000, fun code => .register (dSum code)⟩,
   ⟨0xf000, 0x6000, fun code => .register (d4 code + 16)⟩,
   ⟨0xf000, 0x7000, fun code => .register (d4 code + 16)⟩,
   ⟨0xfc00, 0x0400, fun _ => .several⟩,
   ⟨0xfc00, 0x0800, fun _ => .several⟩,
   ⟨0xfc00, 0x0c00, fun code => .register (d5 code)⟩,
   ⟨0xfc00, 0x1400, fun code => .difference (d5 code) fun s => s.ram (r5 code)⟩,
   ⟨0xfc00, 0x1800, fun code => .register (d5 code)⟩,
   ⟨0xfc00, 0x1c00, fun code => .register (d5 code)⟩,
   ⟨0xfc00, 0x2000, fun code => .register (d5 code)⟩,
   ⟨0xfc00, 0x2400, fun code => .register (d5 code)⟩,
   ⟨0xfc00, 0x2800, fun code => .register (d5 code)⟩,
   ⟨0xff00, 0x9600, fun code => .word (dl code)⟩,
   ⟨0xff00, 0x9700, fun code => .word (dl code)⟩,
   ⟨0xfe0f, 0x9400, fun code => .register (d5 code)⟩,
   ⟨0xfe0f, 0x9401, fun code => .register (d5 code)⟩,
   ⟨0xfe0f, 0x9403, fun code => .register (d5 code)⟩,
   ⟨0xfe0f, 0x9405, fun code => .register (d5 code)⟩,
   ⟨0xfe0f, 0x9406, fun code => .register (d5 code)⟩,
   ⟨0xfe0f, 0x9407, fun code => .register (d5 code)⟩,
   ⟨0xfe0f, 0x940a, fun code => .register (d5 code)⟩]

section Instructions

variable {s : Machine}

theorem flagsRight_cpi (h : s.code &&& 0xf000 = 0x3000) : FlagsRight s (.difference (dSum s.code) (constant s.code)) := by
  have hdecode := decode_of_first h rfl (by decide)
  exact flags_comparison hdecode rfl rfl

theorem flagsRight_sbci (h : s.code &&& 0xf000 = 0x4000) : FlagsRight s (.several) := by
  have hdecode := decode_of_first h rfl (by decide)
  exact flags_subtract_carry hdecode rfl

theorem flagsRight_subi (h : s.code &&& 0xf000 = 0x5000) : FlagsRight s (.register (dSum s.code)) := by
  have hdecode := decode_of_first h rfl (by decide)
  exact flags_subtract hdecode (dSum_lt _) rfl

theorem flagsRight_ori (h : s.code &&& 0xf000 = 0x6000) : FlagsRight s (.register (d4 s.code + 16)) := by
  have hdecode := decode_of_first h rfl (by decide)
  exact flags_logic (K8 s.code ||| (s.ram (d4 s.code)).setWidth 16) hdecode (upper_lt _) rfl

theorem flagsRight_andi (h : s.code &&& 0xf000 = 0x7000) : FlagsRight s (.register (d4 s.code + 16)) := by
  have hdecode := decode_of_first h rfl (by decide)
  exact flags_logic (K8 s.code &&& (s.ram (d4 s.code)).setWidth 16) hdecode (upper_lt _) rfl

theorem flagsRight_cpc (h : s.code &&& 0xfc00 = 0x0400) : FlagsRight s (.several) := by
  have hdecode := decode_of_first h rfl (by decide)
  exact flags_comparison_carry hdecode rfl

theorem flagsRight_sbc (h : s.code &&& 0xfc00 = 0x0800) : FlagsRight s (.several) := by
  have hdecode := decode_of_first h rfl (by decide)
  exact flags_subtract_carry hdecode rfl

theorem flagsRight_add (h : s.code &&& 0xfc00 = 0x0c00) : FlagsRight s (.register (d5 s.code)) := by
  have hdecode := decode_of_first h rfl (by decide)
  exact flags_addTo hdecode (d5_lt _)

theorem flagsRight_cp (h : s.code &&& 0xfc00 = 0x1400) : FlagsRight s (.difference (d5 s.code) fun s' => s'.ram (r5 s.code)) := by
  have hdecode := decode_of_first h rfl (by decide)
  exact flags_comparison hdecode rfl (byte_word _).symm

theorem flagsRight_sub (h : s.code &&& 0xfc00 = 0x1800) : FlagsRight s (.register (d5 s.code)) := by
  have hdecode := decode_of_first h rfl (by decide)
  exact flags_subtract hdecode (d5_lt _) rfl

theorem flagsRight_adc (h : s.code &&& 0xfc00 = 0x1c00) : FlagsRight s (.register (d5 s.code)) := by
  have hdecode := decode_of_first h rfl (by decide)
  exact flags_addTo hdecode (d5_lt _)

theorem flagsRight_and (h : s.code &&& 0xfc00 = 0x2000) : FlagsRight s (.register (d5 s.code)) := by
  have hdecode := decode_of_first h rfl (by decide)
  exact flags_logic ((s.ram (d5 s.code)).setWidth 16 &&& (s.ram (r5 s.code)).setWidth 16) hdecode (d5_lt _) rfl

theorem flagsRight_eor (h : s.code &&& 0xfc00 = 0x2400) : FlagsRight s (.register (d5 s.code)) := by
  have hdecode := decode_of_first h rfl (by decide)
  exact flags_logic ((s.ram (d5 s.code)).setWidth 16 ^^^ (s.ram (r5 s.code)).setWidth 16) hdecode (d5_lt _) rfl

theorem flagsRight_or (h : s.code &&& 0xfc00 = 0x2800) : FlagsRight s (.register (d5 s.code)) := by
  have hdecode := decode_of_first h rfl (by decide)
  exact flags_logic ((s.ram (d5 s.code)).setWidth 16 ||| (s.ram (r5 s.code)).setWidth 16) hdecode (d5_lt _) rfl

theorem flagsRight_adiw (h : s.code &&& 0xff00 = 0x9600) : FlagsRight s (.word (dl s.code)) := by
  have hdecode := decode_of_first h rfl (by decide)
  exact flags_word hdecode (dl_lt _) (fun _ _ _ => adiw_flags_sign _ _ _) (fun _ _ _ => adiw_flags_Z _ _ _)

theorem flagsRight_sbiw (h : s.code &&& 0xff00 = 0x9700) : FlagsRight s (.word (dl s.code)) := by
  have hdecode := decode_of_first h rfl (by decide)
  exact flags_word hdecode (dl_lt _) (fun _ _ _ => sbiw_flags_sign _ _ _) (fun _ _ _ => sbiw_flags_Z _ _ _)

theorem flagsRight_com (h : s.code &&& 0xfe0f = 0x9400) : FlagsRight s (.register (d5 s.code)) := by
  have hdecode := decode_of_first h rfl (by decide)
  refine flags_onReg hdecode (d5_lt _) (fun D sreg => ?_) fun D sreg => ?_
  · simp [SignRight16]
  · simpa using (masked_zero (~~~D.setWidth 16)).symm

/-- The negated byte is above 0x80 when it has a sign and is not 0x80 itself. -/
theorem neg_sign (D : BitVec 8) : let res := ~~~D.setWidth 16 + 1#16
    decide (128#16 < res &&& 255#16) = (res.getLsbD 7 ^^ decide (res &&& 255#16 = 128#16)) := by
  decide +revert +kernel

theorem flagsRight_neg (h : s.code &&& 0xfe0f = 0x9401) : FlagsRight s (.register (d5 s.code)) := by
  have hdecode := decode_of_first h rfl (by decide)
  refine flags_onReg hdecode (d5_lt _) (fun D sreg => ?_) fun D sreg => ?_
  · simp [SignRight16]
    split_ifs <;> simp [neg_sign D]
  · have hmasked := masked_zero (~~~D.setWidth 16 + 1)
    by_cases hzero : ~~~D.setWidth 16 + 1 &&& 0xff = 0
    · simp only [hzero]
      simp
    · have hbyte := mt hmasked.mp hzero
      simp only [hzero, hbyte]
      simp

/-- A byte that has become zero has no sign. -/
theorem inc_zero (D : BitVec 8) : let data := D.setWidth 16 + 1#16
    data.setWidth 8 = 0#8 ↔ data.getLsbD 7 = false ∧ data &&& 255#16 = 0#16 := by
  decide +revert +kernel

theorem flagsRight_inc (h : s.code &&& 0xfe0f = 0x9403) : FlagsRight s (.register (d5 s.code)) := by
  have hdecode := decode_of_first h rfl (by decide)
  refine flags_onReg hdecode (d5_lt _) (fun D sreg => ?_) fun D sreg => ?_
  · simp [SignRight16]
    split_ifs <;> simp
  · simp [inc_zero]
    split_ifs with hsign <;> simp [hsign]

theorem flagsRight_asr (h : s.code &&& 0xfe0f = 0x9405) : FlagsRight s (.register (d5 s.code)) := by
  have hdecode := decode_of_first h rfl (by decide)
  refine flags_onReg hdecode (d5_lt _) (fun D sreg => shift_flags_sign _ _ _) fun D sreg => ?_
  rw [shift_flags_Z]
  exact decide_eq_decide.mpr (masked_zero _).symm

theorem flagsRight_lsr (h : s.code &&& 0xfe0f = 0x9406) : FlagsRight s (.register (d5 s.code)) := by
  have hdecode := decode_of_first h rfl (by decide)
  refine flags_onReg hdecode (d5_lt _) (fun D sreg => ?_) fun D sreg => ?_
  · simp [SignRight16]
  · simpa using (masked_zero (D.setWidth 16 >>> 1)).symm

theorem flagsRight_ror (h : s.code &&& 0xfe0f = 0x9407) : FlagsRight s (.register (d5 s.code)) := by
  have hdecode := decode_of_first h rfl (by decide)
  refine flags_onReg hdecode (d5_lt _) (fun D sreg => shift_flags_sign _ _ _) fun D sreg => ?_
  rw [shift_flags_Z]
  exact decide_eq_decide.mpr (masked_zero _).symm

theorem flagsRight_dec (h : s.code &&& 0xfe0f = 0x940a) : FlagsRight s (.register (d5 s.code)) := by
  have hdecode := decode_of_first h rfl (by decide)
  refine flags_onReg hdecode (d5_lt _) (fun D sreg => ?_) fun D sreg => ?_
  · simp [SignRight16]
    cases (D.setWidth 16 - 1#16)[7] <;> simp
  · simpa using (masked_zero (D.setWidth 16 - 1)).symm

/-- A row of the table tells about the flags. -/
theorem flagged_right {p : Pattern 16 (BitVec 16 → Result)} (hp : p ∈ flagged) (h : s.code &&& p.mask = p.value) :
    FlagsRight s (p.body s.code) := by
  simp only [flagged, List.mem_cons, List.not_mem_nil, or_false] at hp
  rcases hp with rfl | rfl | rfl | rfl | rfl | rfl | rfl | rfl | rfl | rfl | rfl | rfl | rfl | rfl | rfl | rfl | rfl | rfl |
    rfl | rfl | rfl | rfl | rfl
  · exact flagsRight_cpi h
  · exact flagsRight_sbci h
  · exact flagsRight_subi h
  · exact flagsRight_ori h
  · exact flagsRight_andi h
  · exact flagsRight_cpc h
  · exact flagsRight_sbc h
  · exact flagsRight_add h
  · exact flagsRight_cp h
  · exact flagsRight_sub h
  · exact flagsRight_adc h
  · exact flagsRight_and h
  · exact flagsRight_eor h
  · exact flagsRight_or h
  · exact flagsRight_adiw h
  · exact flagsRight_sbiw h
  · exact flagsRight_com h
  · exact flagsRight_neg h
  · exact flagsRight_inc h
  · exact flagsRight_asr h
  · exact flagsRight_lsr h
  · exact flagsRight_ror h
  · exact flagsRight_dec h

/-- `mul` changes C alone. -/
theorem mul_keeps (h : s.code &&& 0xfc00 = 0x9c00) (hright : SignRight (s.ram SREG)) : SignRight (s.step.ram SREG) := by
  have hdecode := decode_of_first h rfl (by decide)
  let result := (s.ram (r5 s.code)).setWidth 16 * (s.ram (s.code >>> 4 &&& 0x1f)).setWidth 16
  let resh := result >>> 8 &&& 0xff
  let written := Function.update (Function.update s.ram 0 ((result &&& 0xff).setWidth 8)) 1 (resh.setWidth 8)
  let sreg := orIf (resh &&& 0x80 ≠ 0) BIT_C ((written SREG).setWidth 16 &&& ~~~BIT_C)
  have hram : s.step.ram = Function.update written SREG (sreg.setWidth 8) := by
    rw [step_eq hdecode]
    rfl
  have hkept : written SREG = s.ram SREG :=
    (Function.update_of_ne (show SREG ≠ 1 by decide) ..).trans (Function.update_of_ne (show SREG ≠ 0 by decide) ..)
  have hsign : SignRight16 sreg := by
    unfold SignRight at hright
    simpa [SignRight16, sreg, hkept] using hright
  rw [hram, Function.update_self]
  exact hsign.byte

end Instructions

/-! ## Runs -/

/-- The machine after some instructions. -/
def Machine.run (s : Machine) (n : Nat) : Machine := Machine.step^[n] s

/-- The instruction is one of the table. -/
def Machine.IsFlagged (s : Machine) : Prop := ∃ p ∈ flagged, s.code &&& p.mask = p.value

/-- In a run `SREG` is changed by instructions of the table and by `mul` only. -/
def Machine.OnlyComputes (s : Machine) : Prop :=
  ∀ n, (s.run n).step.ram SREG ≠ (s.run n).ram SREG → (s.run n).IsFlagged ∨ (s.run n).code &&& 0xfc00 = 0x9c00

theorem sign_step {s : Machine} (hcomputes : s.step.ram SREG ≠ s.ram SREG → s.IsFlagged ∨ s.code &&& 0xfc00 = 0x9c00)
    (hright : SignRight (s.ram SREG)) : SignRight (s.step.ram SREG) := by
  by_cases hsame : s.step.ram SREG = s.ram SREG
  · rwa [hsame]
  · rcases hcomputes hsame with ⟨p, hp, hfits⟩ | hmul
    · exact (flagged_right hp hfits).1
    · exact mul_keeps hmul hright

/-- The flags are right in every run, and S is N xor V while instructions only compute. -/
theorem flags_of_run (s : Machine) :
    (∀ n, ∀ p ∈ flagged, (s.run n).code &&& p.mask = p.value → FlagsRight (s.run n) (p.body (s.run n).code)) ∧
      (s.OnlyComputes → SignRight (s.ram SREG) → ∀ n, SignRight ((s.run n).ram SREG)) := by
  refine ⟨fun n p hp hfits => flagged_right hp hfits, fun honly hstart n => ?_⟩
  induction n with
  | zero => exact hstart
  | succ n ih =>
    have hnext : s.run (n + 1) = (s.run n).step := Function.iterate_succ_apply' _ _ _
    rw [hnext]
    exact sign_step (honly n) ih

/-- A program memory full of `add r0,r0`. -/
def doubling (r0 : BitVec 8) : Machine where
  ram := Function.update (fun _ => 0) 0 r0
  rom _ := 0x0c00
  ramDummy := 0
  romDummy := 0x0c00
  PC := 0
  ticks := 0
  sleep_executed := false

theorem doubling_code (r0 : BitVec 8) (n : Nat) :
    ((doubling r0).run n).rom = (doubling r0).rom ∧ ((doubling r0).run n).romDummy = (doubling r0).romDummy ∧
      ((doubling r0).run n).code = 0x0c00 := by
  have hcode : ∀ t : Machine, t.rom = (doubling r0).rom → t.romDummy = (doubling r0).romDummy → t.code = 0x0c00 := by
    intro t hrom hdummy
    unfold Machine.code Machine.romAt
    rw [hrom, hdummy]
    split_ifs <;> rfl
  induction n with
  | zero => exact ⟨rfl, rfl, hcode _ rfl rfl⟩
  | succ n ih =>
    obtain ⟨hrom, hdummy, hnow⟩ := ih
    have hnext : (doubling r0).run (n + 1) = ((doubling r0).run n).step := Function.iterate_succ_apply' _ _ _
    obtain ⟨-, -, hrom', hdummy'⟩ := acts_ADD (show (0x0c00 : BitVec 16) &&& 0xfc00 = 0x0c00 by decide) _ hnow
    rw [hnext]
    exact ⟨hrom'.trans hrom, hdummy'.trans hdummy, hcode _ (hrom'.trans hrom) (hdummy'.trans hdummy)⟩

theorem doubling_computes (r0 : BitVec 8) : (doubling r0).OnlyComputes := by
  intro n _
  refine .inl ⟨⟨0xfc00, 0x0c00, fun code => .register (d5 code)⟩, by simp [flagged], ?_⟩
  rw [(doubling_code r0 n).2.2]
  rfl

/-- Twice 0x80 is 0 with a carry and an overflow. -/
theorem flags_of_run_0x80 : FlagsRight (doubling 0x80) (.register 0) ∧ ∀ n, SignRight (((doubling 0x80).run n).ram SREG) :=
  ⟨(flags_of_run (doubling 0x80)).1 0 ⟨0xfc00, 0x0c00, fun code => .register (d5 code)⟩ (by simp [flagged]) (by decide),
    (flags_of_run (doubling 0x80)).2 (doubling_computes 0x80) (by decide)⟩

end Ucsim.Avr
