import Ucsim.Avr.Sreg
import Ucsim.Logic.Digits

/-!
# Arithmetic on several bytes

Chains of `ADD` and `ADC`, `SUB` and `SBC`, `CP` and `CPC`. An instruction of a chain works on two bytes and `SREG`, so that
a chain goes from digit to digit of two numbers with `SREG` in between.
-/

namespace Ucsim.Avr

open Logic Logic.Digits

/-! ## Bytes -/

/-- What an instruction makes of two registers and `SREG`. -/
abbrev ByteOp := BitVec 8 → BitVec 8 → BitVec 8 → BitVec 8 × BitVec 8

def addOp (carry : BitVec 16 → BitVec 16) : ByteOp := fun x y f =>
  let D := x.setWidth 16
  let R := y.setWidth 16
  let sreg := f.setWidth 16
  let result := D + R + carry sreg
  ((result &&& 0xff).setWidth 8, (add_flags D R result (result &&& 0xff) sreg).setWidth 8)

def subOp (sub : BitVec 16 → BitVec 16 → BitVec 16 → BitVec 16 × BitVec 16) : ByteOp := fun x y f =>
  let p := sub (signed (x.setWidth 16)) (signed (y.setWidth 16)) (f.setWidth 16)
  (p.1.setWidth 8, p.2.setWidth 8)

/-- The register stays. -/
def cmpOp (sub : BitVec 16 → BitVec 16 → BitVec 16 → BitVec 16 × BitVec 16) : ByteOp := fun x y f =>
  let p := sub (signed (x.setWidth 16)) (signed (y.setWidth 16)) (f.setWidth 16)
  (x, p.2.setWidth 8)

theorem low_byte (v : BitVec 16) : (v &&& 0xff).setWidth 8 = v.setWidth 8 := by
  rw [BitVec.setWidth_and]
  exact BitVec.and_allOnes

theorem low_byte_zero (v : BitVec 16) : v &&& 0xff = 0 ↔ v.setWidth 8 = 0 := by
  have hmod : (v &&& 0xff).toNat = v.toNat % 2 ^ 8 := by
    rw [BitVec.toNat_and]
    exact Nat.and_two_pow_sub_one_eq_mod _ 8
  rw [← BitVec.toNat_inj, ← BitVec.toNat_inj, hmod, BitVec.toNat_setWidth]
  rfl

theorem high_byte (v : BitVec 16) : v &&& ~~~0xff = 0 ↔ v.toNat < 256 := by
  constructor
  · intro h
    have hlow : v = v &&& 0xff := calc
      v = v &&& (0xff ||| ~~~0xff) := BitVec.and_allOnes.symm
      _ = v &&& 0xff ||| v &&& ~~~0xff := BitVec.and_or_distrib_left
      _ = v &&& 0xff := by rw [h]; exact BitVec.or_zero
    rw [hlow, BitVec.toNat_and]
    exact Nat.lt_of_le_of_lt Nat.and_le_right (by decide)
  · intro h
    have hbyte : ∀ y : BitVec 8, y.setWidth 16 &&& ~~~0xff = 0 := by decide +kernel
    have hv : v = (v.setWidth 8).setWidth 16 := by
      refine BitVec.eq_of_toNat_eq ?_
      rw [BitVec.toNat_setWidth, BitVec.toNat_setWidth]
      omega
    rw [hv]
    exact hbyte _

theorem signed_toNat (x : BitVec 8) :
    (signed (x.setWidth 16)).toNat = x.toNat + if 128 ≤ x.toNat then 0xff00 else 0 := by
  decide +revert +kernel

theorem signed_sign (x : BitVec 8) (h7 : 7 < 16) : (signed (x.setWidth 16))[7] = x[7] := by
  decide +revert +kernel

theorem signed_sub (x y : BitVec 8) : (signed (x.setWidth 16) - signed (y.setWidth 16)).setWidth 8 = x - y := by
  have hx := signed_toNat x
  have hy := signed_toNat y
  apply BitVec.eq_of_toNat_eq
  rw [BitVec.toNat_setWidth, BitVec.toNat_sub, BitVec.toNat_sub, hx, hy]
  split_ifs <;> omega

theorem signed_sub_sign (x y : BitVec 8) (h7 : 7 < 16) :
    (signed (x.setWidth 16) - signed (y.setWidth 16))[7] = (x - y)[7] := by
  rw [← signed_sub x y, BitVec.getElem_setWidth]
  rfl

theorem differs_toNat (D R f : BitVec 16) (h0 : 0 < 16) : Differs D R f ↔ D.toNat ≠ R.toNat + f[0].toNat := by
  have hc : (f &&& BIT_C).toNat = f[0].toNat := by
    have hbit : f &&& BIT_C = BitVec.setWidth 16 (BitVec.ofBool f[0]) := by
      ext i hi
      cases i with
      | zero => simp [BIT_C]
      | succ i => simp [BIT_C]
    rw [hbit]
    cases f[0] <;> rfl
  have hlt := f[0].toNat_le
  have hR := R.isLt
  have hD := D.isLt
  have hsum : (R.setWidth 32 + (f &&& BIT_C).setWidth 32).toNat = R.toNat + f[0].toNat := by
    rw [BitVec.toNat_add, BitVec.toNat_setWidth, BitVec.toNat_setWidth, hc]
    omega
  have hleft : (D.setWidth 32).toNat = D.toNat := by
    rw [BitVec.toNat_setWidth]
    omega
  unfold Differs
  rw [sub_sub, ne_eq, sub_eq_zero, ← BitVec.toNat_inj, hsum, hleft]

/-- The difference of signed bytes is not the one of bytes when the borrow carries over. -/
theorem differs_iff (x y f : BitVec 8) :
    Differs (signed (x.setWidth 16)) (signed (y.setWidth 16)) (f.setWidth 16) ↔
      ¬ ((difference x y f[0]).1 = 0 ∧ ¬ (f[0] = true ∧ (y = 0x7f ∨ y = 0xff))) := by
  have hflag : (f.setWidth 16)[0] = f[0] := by simp
  have hdigit := difference_toNat (by decide) x y f[0]
  have hzero : (difference x y f[0]).1 = 0 ↔ (difference x y f[0]).1.toNat = 0 := BitVec.toNat_inj.symm
  have h7f : y = 0x7f ↔ y.toNat = 127 := BitVec.toNat_inj.symm
  have hff : y = 0xff ↔ y.toNat = 255 := BitVec.toNat_inj.symm
  have hx := x.isLt
  have hy := y.isLt
  have hd := (difference x y f[0]).1.isLt
  have hb := (difference x y f[0]).2.toNat_le
  rw [differs_toNat _ _ _ (by decide), hflag, signed_toNat, signed_toNat, hzero, h7f, hff]
  generalize (difference x y f[0]).1.toNat = t at hdigit hd
  generalize (difference x y f[0]).2.toNat = b at hdigit hb
  generalize x.toNat = X at hdigit hx
  generalize y.toNat = Y at hdigit hy
  cases hf : f[0] with
  | false =>
    rw [hf, Bool.toNat_false] at hdigit
    rw [Bool.toNat_false]
    simp only [Bool.false_eq_true, false_and, not_false_eq_true, and_true, ne_eq, not_iff_not]
    split_ifs <;> omega
  | true =>
    rw [hf, Bool.toNat_true] at hdigit
    rw [Bool.toNat_true]
    simp only [true_and, ne_eq, not_iff_not]
    split_ifs <;> omega

theorem sign_toNat (x : BitVec 8) : x[7] = decide (128 ≤ x.toNat) := BitVec.msb_eq_decide x

theorem borrow_bit (x y : BitVec 8) (c : Bool) :
    borrowBit x[7] y[7] (difference x y c).1[7] = (difference x y c).2 := by
  have hdigit := difference_toNat (by decide) x y c
  have hx := x.isLt
  have hy := y.isLt
  have hc := c.toNat_le
  have hd := (difference x y c).1.isLt
  rw [sign_toNat, sign_toNat, sign_toNat]
  unfold borrowBit
  cases hb : (difference x y c).2 with
  | false =>
    rw [hb, Bool.toNat_false] at hdigit
    generalize (difference x y c).1.toNat = t at hdigit hd
    by_cases hX : 128 ≤ x.toNat <;> by_cases hY : 128 ≤ y.toNat <;> by_cases ht : 128 ≤ t <;> simp [hX, hY, ht] <;> omega
  | true =>
    rw [hb, Bool.toNat_true] at hdigit
    generalize (difference x y c).1.toNat = t at hdigit hd
    by_cases hX : 128 ≤ x.toNat <;> by_cases hY : 128 ≤ y.toNat <;> by_cases ht : 128 ≤ t <;> simp [hX, hY, ht] <;> omega

/-! ## Additions -/

def ADD : ByteOp := addOp fun _ => 0

def ADC : ByteOp := addOp fun sreg => if sreg &&& BIT_C ≠ 0 then 1 else 0

theorem addOp_eq {carry : BitVec 16 → BitVec 16} (x y : BitVec 8) {f : BitVec 8} {c : Bool}
    (hc : carry (f.setWidth 16) = BitVec.ofNat 16 c.toNat) :
    (addOp carry x y f).1 = (sum x y c).1 ∧ (addOp carry x y f).2[0] = (sum x y c).2 := by
  have hx := x.isLt
  have hy := y.isLt
  have hlt := c.toNat_le
  have hresult : (x.setWidth 16 + y.setWidth 16 + carry (f.setWidth 16)).toNat = x.toNat + y.toNat + c.toNat := by
    rw [hc, BitVec.toNat_add, BitVec.toNat_add, BitVec.toNat_setWidth, BitVec.toNat_setWidth, BitVec.toNat_ofNat]
    omega
  constructor
  · refine (low_byte _).trans (BitVec.eq_of_toNat_eq ?_)
    rw [BitVec.toNat_setWidth, hresult]
    unfold sum
    rw [BitVec.toNat_add, BitVec.toNat_add, BitVec.toNat_ofNat]
    omega
  · unfold addOp sum
    rw [BitVec.getElem_setWidth, BitVec.getLsbD_eq_getElem (by decide), add_flags_C]
    refine decide_eq_decide.mpr ?_
    rw [ne_eq, high_byte, hresult, not_lt]
    rfl

theorem ADD_eq (x y f : BitVec 8) : (ADD x y f).1 = (sum x y false).1 ∧ (ADD x y f).2[0] = (sum x y false).2 :=
  addOp_eq x y rfl

theorem ADC_eq (x y f : BitVec 8) : (ADC x y f).1 = (sum x y f[0]).1 ∧ (ADC x y f).2[0] = (sum x y f[0]).2 := by
  refine addOp_eq x y ?_
  cases h : f[0] <;> simp [BIT_C, h]

/-! ## Subtractions -/

def SUB : ByteOp := subOp sub_plain

def SBC : ByteOp := subOp sub_carry

def CP : ByteOp := cmpOp sub_plain

def CPC : ByteOp := cmpOp sub_carry

theorem difference_false (x y : BitVec 8) : (difference x y false).1 = x - y := BitVec.sub_zero _

theorem flag_setWidth (v : BitVec 16) (k : Nat) (hk : k < 8) : (v.setWidth 8)[k] = v[k] := by
  rw [BitVec.getElem_setWidth, BitVec.getLsbD_eq_getElem]

theorem CP_C (x y f : BitVec 8) : (CP x y f).2[0] = (difference x y false).2 := by
  have hsub := signed_sub_sign x y
  unfold CP cmpOp
  rw [flag_setWidth _ _ (by decide), sub_plain_C, signed_sign, signed_sign, hsub, ← difference_false, borrow_bit]

theorem CP_Z (x y f : BitVec 8) : (CP x y f).2[1] = decide (x = y) := by
  unfold CP cmpOp
  rw [flag_setWidth _ _ (by decide), sub_plain_Z]
  refine decide_eq_decide.mpr ?_
  rw [low_byte_zero, signed_sub, sub_eq_zero]

theorem CP_S (x y f : BitVec 8) : (CP x y f).2[4] = if x[7] = y[7] then (difference x y false).2 else x[7] := by
  have hborrow := borrow_bit x y false
  rw [difference_false] at hborrow
  unfold CP cmpOp
  rw [flag_setWidth _ _ (by decide), sub_plain_S, signed_sign, signed_sign, signed_sub_sign, ← hborrow]
  unfold borrowBit
  cases x[7] <;> cases y[7] <;> cases (x - y)[7] <;> rfl

theorem SUB_eq (x y f : BitVec 8) :
    (SUB x y f).1 = (difference x y false).1 ∧ (SUB x y f).2[0] = (difference x y false).2 := by
  refine ⟨?_, CP_C x y f⟩
  rw [difference_false, ← signed_sub]
  exact low_byte _

theorem CPC_C (x y f : BitVec 8) : (CPC x y f).2[0] = (!x[7] && y[7]) := by
  unfold CPC cmpOp
  rw [flag_setWidth _ _ (by decide), sub_carry_C, signed_sign, signed_sign]

theorem CPC_S (x y f : BitVec 8) : (CPC x y f).2[4] = (x[7] && !y[7]) := by
  unfold CPC cmpOp
  rw [flag_setWidth _ _ (by decide), sub_carry_S, signed_sign, signed_sign]

theorem CPC_Z (x y f : BitVec 8) : (CPC x y f).2[1] = (f[1] &&
    decide ((difference x y f[0]).1 = 0 ∧ ¬ (f[0] = true ∧ (y = 0x7f ∨ y = 0xff)))) := by
  unfold CPC cmpOp
  have hflag : (f.setWidth 16)[1] = f[1] := by simp
  rw [flag_setWidth _ _ (by decide), sub_carry_Z, hflag, ← decide_not]
  refine congrArg _ (decide_eq_decide.mpr ?_)
  rw [differs_iff, not_not]

theorem SBC_C (x y f : BitVec 8) : (SBC x y f).2[0] = (!x[7] && y[7]) := CPC_C x y f

theorem SBC_res (x y f : BitVec 8) : (SBC x y f).1 =
    if (difference x y f[0]).1 = 0 ∧ ¬ (f[0] = true ∧ (y = 0x7f ∨ y = 0xff)) then 0 else 1 := by
  unfold SBC subOp
  split_ifs with h
  · rw [sub_carry_of_not_differs (mt (differs_iff x y f).mp (not_not.mpr h))]
    rfl
  · rw [sub_carry_of_differs ((differs_iff x y f).mpr h)]
    rfl

/-! ## Chains of bytes -/

theorem ripple_ADC (l : List (BitVec 8 × BitVec 8)) (f : BitVec 8) :
    (ripple ADC l f).1 = (ripple sum l f[0]).1 ∧ (ripple ADC l f).2[0] = (ripple sum l f[0]).2 := by
  induction l generalizing f with
  | nil => exact ⟨rfl, rfl⟩
  | cons p l ih =>
    obtain ⟨x, y⟩ := p
    obtain ⟨hbyte, hcarry⟩ := ADC_eq x y f
    have hrest := ih (ADC x y f).2
    rw [hcarry] at hrest
    exact ⟨congrArg₂ _ hbyte hrest.1, hrest.2⟩

/-- The bytes of a difference that `SBC` gets right. -/
def ByteRight (x y : BitVec 8) (c : Bool) : Prop :=
  (difference x y c).1 = 1 ∨ (difference x y c).1 = 0 ∧ ¬ (c = true ∧ (y = 0x7f ∨ y = 0xff))

instance (x y : BitVec 8) (c : Bool) : Decidable (ByteRight x y c) := inferInstanceAs (Decidable (_ ∨ _))

/-- `SBC` gets all bytes right, given the borrow that goes into the first one. -/
def AllRight : List (BitVec 8 × BitVec 8) → Bool → Prop
  | [], _ => True
  | (x, y) :: l, c => ByteRight x y c ∧ AllRight l (difference x y c).2

theorem SBC_right (x y f : BitVec 8) : (SBC x y f).1 = (difference x y f[0]).1 ↔ ByteRight x y f[0] := by
  rw [SBC_res]
  unfold ByteRight
  split_ifs with h
  · exact iff_of_true h.1.symm (.inr h)
  · exact ⟨fun heq => .inl heq.symm, fun hright => (hright.resolve_right h).symm⟩

/-- A byte that is 0 or 1 has no sign, as the result of `SBC`. -/
theorem SBC_borrow {x y f : BitVec 8} (h : ByteRight x y f[0]) : (SBC x y f).2[0] = (difference x y f[0]).2 := by
  have hsign : (difference x y f[0]).1[7] = false := by
    rcases h with hone | ⟨hzero, -⟩
    · rw [hone]
      rfl
    · rw [hzero]
      rfl
  rw [SBC_C, ← borrow_bit, hsign]
  cases x[7] <;> cases y[7] <;> rfl

theorem ripple_SBC (l : List (BitVec 8 × BitVec 8)) (f : BitVec 8) :
    ((ripple SBC l f).1 = (ripple difference l f[0]).1 ↔ AllRight l f[0]) ∧
      (AllRight l f[0] → (ripple SBC l f).2[0] = (ripple difference l f[0]).2) := by
  induction l generalizing f with
  | nil => exact ⟨iff_of_true rfl trivial, fun _ => rfl⟩
  | cons p l ih =>
    obtain ⟨x, y⟩ := p
    have hrest := ih (SBC x y f).2
    have hcons : (ripple SBC ((x, y) :: l) f).1 = (ripple difference ((x, y) :: l) f[0]).1 ↔
        (SBC x y f).1 = (difference x y f[0]).1 ∧
          (ripple SBC l (SBC x y f).2).1 = (ripple difference l (difference x y f[0]).2).1 := List.cons.injEq _ _ _ _ ▸ Iff.rfl
    by_cases h : ByteRight x y f[0]
    · rw [SBC_borrow h] at hrest
      refine ⟨hcons.trans (and_congr (SBC_right x y f) hrest.1), fun hall => hrest.2 hall.2⟩
    · exact ⟨hcons.trans (iff_of_false (fun hno => h ((SBC_right x y f).mp hno.1)) fun hno => h hno.1),
        fun hall => absurd hall.1 h⟩

theorem ripple_CPC (l : List (BitVec 8 × BitVec 8)) (f : BitVec 8) : (ripple CPC l f).1 = l.map Prod.fst := by
  induction l generalizing f with
  | nil => rfl
  | cons p l ih => exact congrArg _ (ih _)

/-- Z says that all bytes are equal, as long as it comes without C. -/
theorem ripple_CPC_Z (l : List (BitVec 8 × BitVec 8)) {f : BitVec 8} (h : f[1] = true → f[0] = false) :
    (ripple CPC l f).2[1] = true ↔ f[1] = true ∧ ∀ p ∈ l, p.1 = p.2 := by
  induction l generalizing f with
  | nil => exact (and_iff_left fun _ hp => nomatch hp).symm
  | cons p l ih =>
    obtain ⟨x, y⟩ := p
    have hZ : (CPC x y f).2[1] = true ↔ f[1] = true ∧ x = y := by
      rw [CPC_Z, Bool.and_eq_true, decide_eq_true_iff]
      refine and_congr_right fun hf => ?_
      rw [h hf, difference_false]
      simp only [Bool.false_eq_true, false_and, not_false_eq_true, and_true]
      exact sub_eq_zero
    have hC : (CPC x y f).2[1] = true → (CPC x y f).2[0] = false := by
      intro hz
      rw [CPC_C, (hZ.mp hz).2]
      cases y[7] <;> rfl
    refine (ih hC).trans ?_
    rw [hZ, List.forall_mem_cons, and_assoc]

/-! ## Instructions -/

theorem r5_lt (code : BitVec 16) : (r5 code).toNat < 32 := by
  have hhigh : (bits code 0x200 5).toNat < 2 ^ 5 := by
    have hand : (code &&& 0x200).toNat ≤ 0x200 := by
      rw [BitVec.toNat_and]
      exact Nat.and_le_right
    unfold bits
    rw [BitVec.toNat_ushiftRight, Nat.shiftRight_eq_div_pow]
    omega
  have hlow : (code &&& 0xf).toNat < 2 ^ 5 := by
    rw [BitVec.toNat_and]
    exact Nat.lt_of_le_of_lt Nat.and_le_right (by decide)
  exact Nat.or_lt_two_pow hhigh hlow

theorem ne_SREG {r : BitVec 16} (h : r.toNat < 32) : r ≠ SREG := by
  rintro rfl
  exact absurd h (by decide)

/-- An instruction works on its two registers and `SREG` as a byte operation says. -/
def Acts (code : BitVec 16) (op : ByteOp) : Prop :=
  ∀ s : Machine, s.code = code →
    let p := op (s.ram (d5 code)) (s.ram (r5 code)) (s.ram SREG)
    s.step.ram = Function.update (Function.update s.ram (d5 code) p.1) SREG p.2 ∧
      s.step.PC = inc_address s.PC ∧ s.step.rom = s.rom ∧ s.step.romDummy = s.romDummy

theorem acts_ADD {code : BitVec 16} (h : code &&& 0xfc00 = 0x0c00) : Acts code ADD := by
  rintro s rfl
  rw [step_eq (decode_of_first h rfl (by decide))]
  exact ⟨rfl, rfl, rfl, rfl⟩

theorem acts_ADC {code : BitVec 16} (h : code &&& 0xfc00 = 0x1c00) : Acts code ADC := by
  rintro s rfl
  rw [step_eq (decode_of_first h rfl (by decide))]
  exact ⟨rfl, rfl, rfl, rfl⟩

theorem acts_SUB {code : BitVec 16} (h : code &&& 0xfc00 = 0x1800) : Acts code SUB := by
  rintro s rfl
  rw [step_eq (decode_of_first h rfl (by decide))]
  exact ⟨rfl, rfl, rfl, rfl⟩

theorem acts_SBC {code : BitVec 16} (h : code &&& 0xfc00 = 0x0800) : Acts code SBC := by
  rintro s rfl
  rw [step_eq (decode_of_first h rfl (by decide))]
  exact ⟨rfl, rfl, rfl, rfl⟩

theorem acts_CP {code : BitVec 16} (h : code &&& 0xfc00 = 0x1400) : Acts code CP := by
  rintro s rfl
  rw [step_eq (decode_of_first h rfl (by decide))]
  refine ⟨?_, rfl, rfl, rfl⟩
  change _ = Function.update (Function.update s.ram (d5 s.code) (s.ram (d5 s.code))) SREG _
  rw [Function.update_eq_self]
  rfl

theorem acts_CPC {code : BitVec 16} (h : code &&& 0xfc00 = 0x0400) : Acts code CPC := by
  rintro s rfl
  rw [step_eq (decode_of_first h rfl (by decide))]
  refine ⟨?_, rfl, rfl, rfl⟩
  change _ = Function.update (Function.update s.ram (d5 s.code) (s.ram (d5 s.code))) SREG _
  rw [Function.update_eq_self]
  rfl

/-! ## Chains of instructions -/

/-- Words at consecutive addresses of the program memory. -/
def Machine.Holds (s : Machine) : Int → List (BitVec 16) → Prop
  | _, [] => True
  | addr, code :: codes => s.romAt addr = code ∧ s.Holds (inc_address addr) codes

/-- The registers that instructions name. -/
def registers (codes : List (BitVec 16)) : List (BitVec 16) := codes.flatMap fun code => [d5 code, r5 code]

/-- The bytes in them, of both operands. -/
def Machine.operands (s : Machine) (codes : List (BitVec 16)) : List (BitVec 8 × BitVec 8) :=
  codes.map fun code => (s.ram (d5 code), s.ram (r5 code))

/-- The bytes in the destinations. -/
def Machine.results (s : Machine) (codes : List (BitVec 16)) : List (BitVec 8) := codes.map fun code => s.ram (d5 code)

theorem Machine.Holds.congr {s t : Machine} (hrom : t.rom = s.rom) (hdummy : t.romDummy = s.romDummy) {addr : Int}
    {codes : List (BitVec 16)} (h : s.Holds addr codes) : t.Holds addr codes := by
  induction codes generalizing addr with
  | nil => trivial
  | cons code codes ih =>
    refine ⟨?_, ih h.2⟩
    rw [← h.1]
    unfold Machine.romAt
    rw [hrom, hdummy]

theorem mem_registers_lt {codes : List (BitVec 16)} {r : BitVec 16} (h : r ∈ registers codes) : r.toNat < 32 := by
  obtain ⟨code, -, hr⟩ := List.mem_flatMap.mp h
  rcases List.mem_pair.mp hr with rfl | rfl
  · exact d5_lt code
  · exact r5_lt code

theorem operands_congr {s t : Machine} {codes : List (BitVec 16)} (h : ∀ r ∈ registers codes, t.ram r = s.ram r) :
    t.operands codes = s.operands codes := by
  refine List.map_congr_left fun code hcode => ?_
  have hd : d5 code ∈ registers codes := List.mem_flatMap.mpr ⟨code, hcode, List.mem_cons_self⟩
  have hr : r5 code ∈ registers codes := List.mem_flatMap.mpr ⟨code, hcode, List.mem_cons_of_mem _ List.mem_cons_self⟩
  rw [h _ hd, h _ hr]

/-- What an instruction of a chain leaves for the others. -/
theorem Acts.rest {code : BitVec 16} {op : ByteOp} (hacts : Acts code op) {s : Machine} {codes : List (BitVec 16)}
    (hholds : s.Holds s.PC (code :: codes)) (hdistinct : (registers (code :: codes)).Nodup) :
    s.step.Holds s.step.PC codes ∧ s.step.operands codes = s.operands codes := by
  obtain ⟨hram, hPC, hrom, hdummy⟩ := hacts s hholds.1
  refine ⟨?_, operands_congr fun r hr => ?_⟩
  · rw [hPC]
    exact hholds.2.congr hrom hdummy
  · have hne : r ≠ d5 code := by
      rintro rfl
      exact (List.nodup_cons.mp hdistinct).1 (List.mem_cons_of_mem _ hr)
    rw [hram, Function.update_of_ne (ne_SREG (mem_registers_lt hr)), Function.update_of_ne hne]

/-- A program changes only `SREG` and the destinations of its words. -/
def Machine.KeepsOthers (s s' : Machine) (codes : List (BitVec 16)) : Prop :=
  ∀ addr, addr ≠ SREG → (∀ code ∈ codes, addr ≠ d5 code) → s'.ram addr = s.ram addr

/-- The machine after a chain. -/
def Machine.after (s : Machine) (codes : List (BitVec 16)) : Machine := Machine.step^[codes.length] s

/-- An instruction, and the rest of the chain after it. -/
theorem Acts.before {code : BitVec 16} {op : ByteOp} (hacts : Acts code op) {s : Machine} {codes : List (BitVec 16)}
    (hcode : s.code = code) (hdistinct : (registers (code :: codes)).Nodup)
    (hframe : s.step.KeepsOthers (s.step.after codes) codes) :
    let p := op (s.ram (d5 code)) (s.ram (r5 code)) (s.ram SREG)
    s.step.ram SREG = p.2 ∧ (s.after (code :: codes)).results (code :: codes) = p.1 :: (s.step.after codes).results codes ∧
      s.KeepsOthers (s.after (code :: codes)) (code :: codes) := by
  obtain ⟨hram, -⟩ := hacts s hcode
  have hsreg : s.step.ram SREG = (op (s.ram (d5 code)) (s.ram (r5 code)) (s.ram SREG)).2 := by
    rw [hram, Function.update_self]
  have hbyte : s.step.ram (d5 code) = (op (s.ram (d5 code)) (s.ram (r5 code)) (s.ram SREG)).1 := by
    rw [hram, Function.update_of_ne (ne_SREG (d5_lt code)), Function.update_self]
  have hkept : (s.step.after codes).ram (d5 code) = s.step.ram (d5 code) := by
    refine hframe _ (ne_SREG (d5_lt code)) fun c hc heq => ?_
    have hmem : d5 c ∈ registers codes := List.mem_flatMap.mpr ⟨c, hc, List.mem_cons_self⟩
    exact (List.nodup_cons.mp hdistinct).1 (List.mem_cons_of_mem _ (heq ▸ hmem))
  refine ⟨hsreg, congrArg (· :: _) (hkept.trans hbyte), fun addr hne hothers => ?_⟩
  have hlater := hframe addr hne fun c hc => hothers c (List.mem_cons_of_mem _ hc)
  have hnow : s.step.ram addr = s.ram addr := by
    rw [hram, Function.update_of_ne hne, Function.update_of_ne (hothers code List.mem_cons_self)]
  exact hlater.trans hnow

/-- A chain of the same instruction. -/
theorem run_ripple {op : ByteOp} {codes : List (BitVec 16)} (hacts : ∀ code ∈ codes, Acts code op) {s : Machine}
    (hholds : s.Holds s.PC codes) (hdistinct : (registers codes).Nodup) :
    (s.after codes).results codes = (ripple op (s.operands codes) (s.ram SREG)).1 ∧
      (s.after codes).ram SREG = (ripple op (s.operands codes) (s.ram SREG)).2 ∧ s.KeepsOthers (s.after codes) codes := by
  induction codes generalizing s with
  | nil => exact ⟨rfl, rfl, fun _ _ _ => rfl⟩
  | cons code codes ih =>
    have hcode := hacts code List.mem_cons_self
    obtain ⟨hrest, hoperands⟩ := hcode.rest hholds hdistinct
    have htail : (registers codes).Nodup := (List.nodup_cons.mp (List.nodup_cons.mp hdistinct).2).2
    obtain ⟨hresults, hflags, hframe⟩ := ih (fun c hc => hacts c (List.mem_cons_of_mem _ hc)) hrest htail
    obtain ⟨hsreg, hcons, hkeeps⟩ := hcode.before hholds.1 hdistinct hframe
    rw [hoperands, hsreg] at hresults hflags
    exact ⟨hcons.trans (congrArg _ hresults), hflags, hkeeps⟩

/-! ## Additions, subtractions and comparisons -/

inductive Chain
  | add | sub | cp
  deriving DecidableEq

/-- The code and the operation of the first instruction. -/
def Chain.first : Chain → BitVec 16 × ByteOp
  | .add => (0x0c00, ADD)
  | .sub => (0x1800, SUB)
  | .cp => (0x1400, CP)

/-- The code and the operation of the others. -/
def Chain.next : Chain → BitVec 16 × ByteOp
  | .add => (0x1c00, ADC)
  | .sub => (0x0800, SBC)
  | .cp => (0x0400, CPC)

/-- The words of a chain on registers that are all distinct. -/
structure Chain.Program (k : Chain) where
  head : BitVec 16
  tail : List (BitVec 16)
  head_code : head &&& 0xfc00 = k.first.1
  tail_code : ∀ code ∈ tail, code &&& 0xfc00 = k.next.1
  distinct : (registers (head :: tail)).Nodup

def Chain.Program.codes {k : Chain} (P : k.Program) : List (BitVec 16) := P.head :: P.tail

theorem Chain.acts_first {k : Chain} {code : BitVec 16} (h : code &&& 0xfc00 = k.first.1) : Acts code k.first.2 := by
  cases k with
  | add => exact acts_ADD h
  | sub => exact acts_SUB h
  | cp => exact acts_CP h

theorem Chain.acts_next {k : Chain} {code : BitVec 16} (h : code &&& 0xfc00 = k.next.1) : Acts code k.next.2 := by
  cases k with
  | add => exact acts_ADC h
  | sub => exact acts_SBC h
  | cp => exact acts_CPC h

/-- What the first instruction and the others do. -/
theorem Chain.Program.run {k : Chain} (P : k.Program) {s : Machine} (hholds : s.Holds s.PC P.codes) :
    let p := k.first.2 (s.ram (d5 P.head)) (s.ram (r5 P.head)) (s.ram SREG)
    let q := ripple k.next.2 (s.operands P.tail) p.2
    (s.after P.codes).results P.codes = p.1 :: q.1 ∧ (s.after P.codes).ram SREG = q.2 ∧
      s.KeepsOthers (s.after P.codes) P.codes := by
  have hhead := Chain.acts_first P.head_code
  obtain ⟨hrest, hoperands⟩ := hhead.rest hholds P.distinct
  have htail : (registers P.tail).Nodup := (List.nodup_cons.mp (List.nodup_cons.mp P.distinct).2).2
  obtain ⟨hresults, hflags, hframe⟩ := run_ripple (fun c hc => Chain.acts_next (P.tail_code c hc)) hrest htail
  obtain ⟨hsreg, hcons, hkeeps⟩ := hhead.before hholds.1 P.distinct hframe
  rw [hoperands, hsreg] at hresults hflags
  exact ⟨hcons.trans (congrArg _ hresults), hflags, hkeeps⟩

/-- The numbers in the first and in the second registers. -/
def lefts (l : List (BitVec 8 × BitVec 8)) : List (BitVec 8) := l.map Prod.fst

def rights (l : List (BitVec 8 × BitVec 8)) : List (BitVec 8) := l.map Prod.snd

/-- What a chain is for. -/
def Chain.Correct (k : Chain) (codes : List (BitVec 16)) (s s' : Machine) : Prop :=
  let a := lefts (s.operands codes)
  let b := rights (s.operands codes)
  let sreg := s'.ram SREG
  match k with
  | .add => value (s'.results codes) = (value a + value b) % (2 ^ 8) ^ codes.length ∧
      (sreg[0] = true ↔ (2 ^ 8) ^ codes.length ≤ value a + value b)
  | .sub => value (s'.results codes) = (value a + ((2 ^ 8) ^ codes.length - value b)) % (2 ^ 8) ^ codes.length ∧
      (sreg[0] = true ↔ value a < value b)
  | .cp => (∀ addr, addr ≠ SREG → s'.ram addr = s.ram addr) ∧ (sreg[0] = true ↔ value a < value b) ∧
      (sreg[1] = true ↔ value a = value b) ∧ (sreg[4] = true ↔ signedValue a < signedValue b)

/-- When it does what it is for. -/
def Chain.Condition : Chain → List (BitVec 8 × BitVec 8) → Prop
  | .add, _ => True
  | .sub, [] => True
  | .sub, (x, y) :: l => AllRight l (difference x y false).2
  | .cp, l => l.length = 1 ∨ value (rights l) ≤ value (lefts l) ∨ ¬ (Negative (lefts l) ↔ Negative (rights l))

theorem add_correct (P : Chain.add.Program) {s : Machine} (h : s.Holds s.PC P.codes) :
    Chain.add.Correct P.codes s (s.after P.codes) := by
  obtain ⟨hresults, hsreg, -⟩ := P.run h
  have hADD : (ADD (s.ram (d5 P.head)) (s.ram (r5 P.head)) (s.ram SREG)).1 = _ ∧ _ := ADD_eq _ _ _
  have hrest := ripple_ADC (s.operands P.tail) (ADD (s.ram (d5 P.head)) (s.ram (r5 P.head)) (s.ram SREG)).2
  rw [hADD.2] at hrest
  have hsum := value_ripple_sum (by decide) (s.operands P.codes)
  have hlength : (s.operands P.codes).length = P.codes.length := List.length_map _
  rw [hlength] at hsum
  have hbytes : (s.after P.codes).results P.codes = (ripple sum (s.operands P.codes) false).1 :=
    hresults.trans (congrArg₂ _ hADD.1 hrest.1)
  have hcarry : ((s.after P.codes).ram SREG)[0] = (ripple sum (s.operands P.codes) false).2 := by
    rw [hsreg]
    exact hrest.2
  unfold Chain.Correct
  dsimp only
  rw [hbytes, hcarry]
  exact hsum

theorem sub_correct_iff (P : Chain.sub.Program) {s : Machine} (h : s.Holds s.PC P.codes) :
    Chain.sub.Correct P.codes s (s.after P.codes) ↔ Chain.sub.Condition (s.operands P.codes) := by
  obtain ⟨hresults, hsreg, -⟩ := P.run h
  have hSUB := SUB_eq (s.ram (d5 P.head)) (s.ram (r5 P.head)) (s.ram SREG)
  have hrest := ripple_SBC (s.operands P.tail) (SUB (s.ram (d5 P.head)) (s.ram (r5 P.head)) (s.ram SREG)).2
  rw [hSUB.2] at hrest
  have hdifference := value_ripple_difference (by decide) (s.operands P.codes)
  have hlength : (s.operands P.codes).length = P.codes.length := List.length_map _
  rw [hlength] at hdifference
  have hbytes : (s.after P.codes).results P.codes = (ripple difference (s.operands P.codes) false).1 ↔
      Chain.sub.Condition (s.operands P.codes) := by
    rw [hresults]
    refine Iff.trans ?_ hrest.1
    exact (List.cons.injEq _ _ _ _ ▸ Iff.rfl : _ ↔ _ ∧ _).trans (and_iff_right hSUB.1)
  have hresult_length : ((s.after P.codes).results P.codes).length = (ripple difference (s.operands P.codes) false).1.length := by
    rw [ripple_length, hlength]
    exact List.length_map _
  unfold Chain.Correct
  dsimp only
  unfold lefts rights
  rw [← hdifference.1, ← hdifference.2, value_inj hresult_length, hbytes]
  refine and_iff_left_of_imp fun hall => ?_
  rw [hsreg]
  exact Bool.eq_iff_iff.mp (hrest.2 hall)

theorem negative_concat (l : List (BitVec 8)) (x : BitVec 8) : Negative (l ++ [x]) ↔ x[7] = true := by
  unfold Negative
  rw [List.length_append]
  exact value_concat_msb (by decide) l x

/-- The flags of a comparison in one byte. -/
theorem CP_flags (x y f : BitVec 8) :
    ((CP x y f).2[0] = true ↔ value [x] < value [y]) ∧ ((CP x y f).2[1] = true ↔ value [x] = value [y]) ∧
      ((CP x y f).2[4] = true ↔ signedValue [x] < signedValue [y]) := by
  have hborrow : (difference x y false).2 = true ↔ value [x] < value [y] :=
    (value_ripple_difference (by decide) [(x, y)]).2
  have hlength : [x].length = [y].length := rfl
  have hx : Negative [x] ↔ x[7] = true := negative_concat [] x
  have hy : Negative [y] ↔ y[7] = true := negative_concat [] y
  refine ⟨?_, ?_, ?_⟩
  · rw [CP_C, hborrow]
  · rw [CP_Z, decide_eq_true_iff, value_inj hlength, List.singleton_inj]
  · rw [CP_S, signedValue_lt_iff hlength, hx, hy, ← hborrow]
    cases x[7] <;> cases y[7] <;> simp

/-- The flags of a comparison in several bytes. -/
theorem CPC_flags (x₀ y₀ f : BitVec 8) (l : List (BitVec 8 × BitVec 8)) (x y : BitVec 8) :
    let sreg := (ripple CPC (l ++ [(x, y)]) (CP x₀ y₀ f).2).2
    (sreg[0] = true ↔ x[7] = false ∧ y[7] = true) ∧
      (sreg[1] = true ↔ x₀ = y₀ ∧ ∀ p ∈ l ++ [(x, y)], p.1 = p.2) ∧ (sreg[4] = true ↔ x[7] = true ∧ y[7] = false) := by
  have hZ : (CP x₀ y₀ f).2[1] = true → (CP x₀ y₀ f).2[0] = false := by
    rw [CP_Z, CP_C, decide_eq_true_iff]
    rintro rfl
    exact decide_eq_false (Nat.lt_irrefl _)
  have hflags : (ripple CPC (l ++ [(x, y)]) (CP x₀ y₀ f).2).2 = (CPC x y (ripple CPC l (CP x₀ y₀ f).2).2).2 :=
    ripple_concat l x y (CP x₀ y₀ f).2
  refine ⟨?_, ?_, ?_⟩
  · rw [hflags, CPC_C]
    cases x[7] <;> simp
  · rw [ripple_CPC_Z _ hZ, CP_Z, decide_eq_true_iff]
  · rw [hflags, CPC_S]
    cases y[7] <;> simp

theorem cp_keeps (P : Chain.cp.Program) {s : Machine} (h : s.Holds s.PC P.codes) (addr : BitVec 16) (hne : addr ≠ SREG) :
    (s.after P.codes).ram addr = s.ram addr := by
  obtain ⟨hresults, -, hframe⟩ := P.run h
  have hsame : (s.after P.codes).results P.codes = s.results P.codes := by
    have hrest := ripple_CPC (s.operands P.tail) (CP (s.ram (d5 P.head)) (s.ram (r5 P.head)) (s.ram SREG)).2
    exact hresults.trans (congrArg _ (hrest.trans List.map_map))
  by_cases hmem : ∃ code ∈ P.codes, addr = d5 code
  · obtain ⟨code, hcode, rfl⟩ := hmem
    exact List.map_inj_left.mp hsame code hcode
  · exact hframe addr hne fun code hcode heq => hmem ⟨code, hcode, heq⟩

theorem pairs_equal (l : List (BitVec 8 × BitVec 8)) : value (lefts l) = value (rights l) ↔ ∀ p ∈ l, p.1 = p.2 := by
  unfold lefts rights
  rw [value_inj (by rw [List.length_map, List.length_map]), List.map_inj_left]

theorem cp_correct_iff (P : Chain.cp.Program) {s : Machine} (h : s.Holds s.PC P.codes) :
    Chain.cp.Correct P.codes s (s.after P.codes) ↔ Chain.cp.Condition (s.operands P.codes) := by
  obtain ⟨-, hsreg, -⟩ := P.run h
  have hkeeps := cp_keeps P h
  have hcodes : s.operands P.codes = (s.ram (d5 P.head), s.ram (r5 P.head)) :: s.operands P.tail := rfl
  change _ = (ripple CPC _ (CP _ _ _).2).2 at hsreg
  unfold Chain.Correct Chain.Condition
  dsimp only
  rw [hsreg, hcodes, and_iff_right hkeeps]
  rcases List.eq_nil_or_concat (s.operands P.tail) with hnil | ⟨l, ⟨x, y⟩, hconcat⟩
  · rw [hnil]
    exact iff_of_true (CP_flags _ _ _) (.inl rfl)
  · rw [List.concat_eq_append] at hconcat
    obtain ⟨hC, hZ, hS⟩ := CPC_flags (s.ram (d5 P.head)) (s.ram (r5 P.head)) (s.ram SREG) l x y
    rw [← hconcat] at hC hZ hS
    have hlength : (lefts ((s.ram (d5 P.head), s.ram (r5 P.head)) :: s.operands P.tail)).length =
        (rights ((s.ram (d5 P.head), s.ram (r5 P.head)) :: s.operands P.tail)).length := by
      unfold lefts rights
      rw [List.length_map, List.length_map]
    have ha : Negative (lefts ((s.ram (d5 P.head), s.ram (r5 P.head)) :: s.operands P.tail)) ↔ x[7] = true := by
      unfold lefts
      rw [hconcat, ← List.cons_append, List.map_append]
      exact negative_concat _ x
    have hb : Negative (rights ((s.ram (d5 P.head), s.ram (r5 P.head)) :: s.operands P.tail)) ↔ y[7] = true := by
      unfold rights
      rw [hconcat, ← List.cons_append, List.map_append]
      exact negative_concat _ y
    have hone : ((s.ram (d5 P.head), s.ram (r5 P.head)) :: s.operands P.tail).length ≠ 1 := by
      rw [hconcat]
      simp
    have hlt := value_lt_iff hlength
    rw [ha, hb] at hlt
    rw [hC, hZ, hS, pairs_equal, signedValue_lt_iff hlength, ha, hb, List.forall_mem_cons, or_iff_right hone, ← not_lt]
    generalize (value (lefts _) < value (rights _)) = less at hlt ⊢
    cases hx : x[7] <;> cases hy : y[7] <;> simp_all

/-- A chain is right exactly under the condition of its kind. -/
theorem chain_correct_iff (k : Chain) (P : k.Program) (s : Machine) (h : s.Holds s.PC P.codes) :
    k.Correct P.codes s (s.after P.codes) ↔ k.Condition (s.operands P.codes) := by
  cases k with
  | add => exact iff_of_true (add_correct P h) trivial
  | sub => exact sub_correct_iff P h
  | cp => exact cp_correct_iff P h

/-- `sub r0,r2` and `sbc r1,r3`. -/
def subtractWord : Chain.sub.Program :=
  ⟨0x1802, [0x0813], rfl, List.forall_mem_singleton.mpr rfl, by decide +kernel⟩

/-- The machine in front of it, with a number in `r1:r0`. -/
def beforeSubtractWord (low high : BitVec 8) : Machine where
  ram := Function.update (Function.update (fun _ => 0) 0 low) 1 high
  rom addr := if addr = 0 then 0x1802 else 0x0813
  ramDummy := 0
  romDummy := 0
  PC := 0
  ticks := 0
  sleep_executed := false

/-- `sub` and `sbc` of two words. -/
theorem chain_correct_0100 :
    Chain.sub.Correct subtractWord.codes (beforeSubtractWord 0 1) ((beforeSubtractWord 0 1).after subtractWord.codes) ↔
      Chain.sub.Condition ((beforeSubtractWord 0 1).operands subtractWord.codes) :=
  chain_correct_iff .sub subtractWord (beforeSubtractWord 0 1) ⟨rfl, rfl, trivial⟩

/-- 0x200 minus 0 is 0x100. -/
theorem SBC_0200_differs :
    let s := beforeSubtractWord 0 2
    s.Holds s.PC subtractWord.codes ∧ value (lefts (s.operands subtractWord.codes)) = 0x200 ∧
      value (rights (s.operands subtractWord.codes)) = 0 ∧
      value ((s.after subtractWord.codes).results subtractWord.codes) = 0x100 ∧
      ¬ Chain.sub.Correct subtractWord.codes s (s.after subtractWord.codes) := by
  refine ⟨⟨rfl, rfl, trivial⟩, by decide +kernel, by decide +kernel, by decide +kernel, fun h => ?_⟩
  have hbytes := h.1
  revert hbytes
  decide +kernel

end Ucsim.Avr
