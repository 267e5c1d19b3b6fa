import Ucsim.Logic.Digits
import Ucsim.S51.DebugAccess
import Ucsim.S51.Operands
import Ucsim.S51.Stable

/-!
# Arithmetic on several bytes

`ADDC`, `SUBB` and `DA` in programs that go through the bytes of two numbers. Between two of the instructions a program may
do anything that keeps the carry flag.
-/

namespace Ucsim.S51

open Logic Logic.Digits Program

variable {Dev V : Type} {D : Devices Dev V}

/-! ## Flags -/

/-- The accumulator. -/
def Uc.A (u : Uc V) : UChar := uchar (u.mem.sys.mem acc)

/-- The carry flag. -/
def Uc.CY (u : Uc V) : Bool := decide (u.mem.sys.mem psw &&& bmCY ≠ 0)

/-- The auxiliary carry flag. -/
def Uc.AC (u : Uc V) : Bool := decide (u.mem.sys.mem psw &&& bmAC ≠ 0)

/-- A byte in which bits are set or cleared. -/
def putBits (newbit : Bool) (bits v : TMem) : TMem :=
  if newbit then v ||| (bits &&& 0xff) else v &&& ~~~(bits &&& 0xff)

theorem sfrSetBit_psw (newbit : Bool) (bits : TMem) (s : MemState V) :
    Yields (sfrSetBit D newbit Reg.PSW bits) s ()
      (Function.update s.sys.mem psw (putBits newbit bits (s.sys.mem psw))) := by
  cases newbit with
  | false => exact ⟨_, rfl, rfl⟩
  | true => exact ⟨_, rfl, rfl⟩

theorem acc_ne_psw : acc ≠ psw := by decide

theorem and_bmCY (v : TMem) : decide (v &&& bmCY ≠ 0) = v.getLsbD 7 := by
  have hbit : v &&& bmCY = if v.getLsbD 7 then bmCY else 0 := BitVec.and_twoPow v 7
  rw [hbit]
  cases v.getLsbD 7 <;> rfl

theorem and_bmAC (v : TMem) : decide (v &&& bmAC ≠ 0) = v.getLsbD 6 := by
  have hbit : v &&& bmAC = if v.getLsbD 6 then bmAC else 0 := BitVec.and_twoPow v 6
  rw [hbit]
  cases v.getLsbD 6 <;> rfl

/-- The flags after an addition. -/
theorem putBits_flags (c o a : Bool) (v : TMem) :
    (putBits a bmAC (putBits o bmOV (putBits c bmCY v))).getLsbD 7 = c ∧
      (putBits a bmAC (putBits o bmOV (putBits c bmCY v))).getLsbD 6 = a := by
  cases c <;> cases o <;> cases a <;> simp [putBits, bmCY, bmOV, bmAC]

/-! ## Additions -/

/-- What all forms of `ADDC` do when they have their operand. -/
def addcEnd (D : Devices Dev V) (data : UChar) : UcProg V Res := do
  let ac := uchar (← acc.get D)
  let orgC ← sfrGetC D
  addA D ac data orgC
  return .go

theorem accGet_steps (u : Uc V) : Steps (onMem (acc.get D)) u (u.mem.sys.mem acc) u.mem.sys.mem :=
  Steps.onMem ⟨u.mem.sys, Site.get_run acc u.mem, rfl⟩

theorem sfrGetC_steps (u : Uc V) : Steps (onMem (sfrGetC D)) u u.CY u.mem.sys.mem :=
  Steps.onMem ⟨u.mem.sys, rfl, rfl⟩

/-- The bytes after an addition. -/
def added (ac data : UChar) (c : Bool) (mem : Site → TMem) : Site → TMem :=
  let n := if c then 1 else 0
  let newC : Bool := ac.toNat + data.toNat + n > 255
  let newA : Bool := ((ac &&& 0x0f).toNat + (data &&& 0x0f).toNat + n) &&& 0xf0 ≠ 0
  let c6 : Bool := ((ac &&& 0x7f).toNat + (data &&& 0x7f).toNat + n) &&& 0x80 ≠ 0
  let mem := stored acc (BitVec.ofNat 16 (ac.toNat + data.toNat + n)) mem
  Function.update mem psw (putBits newA bmAC (putBits (newC != c6) bmOV (putBits newC bmCY (mem psw))))

theorem addA_yields (ac data : UChar) (c : Bool) (s : MemState V) :
    Yields (addA D ac data c) s () (added ac data c s.sys.mem) := by
  unfold addA added
  refine (acc_write _ s).bind fun u hu => ?_
  refine (sfrSetBit_psw _ _ _).bind fun u' hu' => ?_
  refine (sfrSetBit_psw _ _ _).bind fun u'' hu'' => ?_
  have hlast := sfrSetBit_psw (D := D) (decide
    (((ac &&& 0x0f).toNat + (data &&& 0x0f).toNat + if c then 1 else 0) &&& 0xf0 ≠ 0)) bmAC { s with sys := u'' }
  dsimp only at hu hu' hu'' hlast
  rw [hu'', hu', hu] at hlast
  simpa only [Function.update_self, Function.update_idem] using hlast

theorem addcEnd_steps (data : UChar) (u : Uc V) :
    Steps (addcEnd D data) u .go (added u.A data u.CY u.mem.sys.mem) := by
  unfold addcEnd
  refine (accGet_steps u).bind fun v hv => ?_
  have hCY : v.CY = u.CY := by
    unfold Uc.CY
    rw [hv]
  refine (sfrGetC_steps v).bind fun w hw => ?_
  rw [hCY]
  refine (Steps.onMem (addA_yields _ _ _ w.mem)).bind fun x hx => ?_
  rw [hw, hv] at hx
  exact hx ▸ Steps.pure _ x

theorem toNat_and_0f (v : UChar) : (v &&& 0x0f).toNat = v.toNat % 16 := by
  rw [BitVec.toNat_and]
  exact Nat.and_two_pow_sub_one_eq_mod _ 4

theorem added_acc (ac data : UChar) (c : Bool) (mem : Site → TMem) :
    uchar (added ac data c mem acc) = (sum ac data c).1 := by
  have hlow : ∀ v : TMem, uchar (v &&& 0xff) = uchar v := fun v => by
    unfold uchar
    rw [BitVec.setWidth_and]
    exact BitVec.and_allOnes
  unfold added stored
  rw [Function.update_of_ne acc_ne_psw, Function.update_self, hlow]
  refine BitVec.eq_of_toNat_eq ?_
  unfold sum
  rw [BitVec.toNat_setWidth, BitVec.toNat_ofNat, BitVec.toNat_add, BitVec.toNat_add, BitVec.toNat_ofNat]
  cases c <;> simp

theorem added_CY (ac data : UChar) (c : Bool) (mem : Site → TMem) :
    decide (added ac data c mem psw &&& bmCY ≠ 0) = (sum ac data c).2 := by
  unfold added
  rw [Function.update_self, and_bmCY, (putBits_flags _ _ _ _).1]
  have hc : c.toNat = if c then 1 else 0 := by cases c <;> rfl
  rw [sum, hc]
  exact decide_eq_decide.mpr Iff.rfl

/-- The carry out of the low nibble. -/
theorem added_AC (ac data : UChar) (c : Bool) (mem : Site → TMem) :
    decide (added ac data c mem psw &&& bmAC ≠ 0) = decide (16 ≤ ac.toNat % 16 + data.toNat % 16 + c.toNat) := by
  have hnibble : ∀ t < 32, t &&& 0xf0 ≠ 0 ↔ 16 ≤ t := by decide
  have hc : c.toNat = if c then 1 else 0 := by cases c <;> rfl
  have hlt := c.toNat_le
  unfold added
  rw [Function.update_self, and_bmAC, (putBits_flags _ _ _ _).2, toNat_and_0f, toNat_and_0f, ← hc]
  exact decide_eq_decide.mpr (hnibble _ (by omega))

/-! ## Subtractions -/

/-- What all forms of `SUBB` do when they have their operand. They differ in how they put `PSW`. -/
def subbEnd (D : Devices Dev V) (put : TMem → MemProg V TMem) (data : UChar) : UcProg V Res := do
  let ac := uchar (← acc.get D)
  let pw := uchar (← psw.get D)
  let _ ← acc.write D (tmem (subbResult ac data (tmem pw &&& bmCY ≠ 0)))
  let _ ← put (subbFlags ac data pw)
  return .go

/-- The program puts a byte into `PSW`. -/
def PutsPsw (put : TMem → MemProg V TMem) : Prop :=
  ∀ v s, Yields (put v) s (v &&& 0xff) (Function.update s.sys.mem psw (v &&& 0xff))

theorem pswWrite_puts : PutsPsw (psw.write D) := fun v s =>
  Site.write_quiet (Devices.quietAt_core (by decide)) v s

theorem pswSet_puts : PutsPsw (psw.set D) := fun _ _ => ⟨_, rfl, rfl⟩

theorem pswGet_steps (u : Uc V) : Steps (onMem (psw.get D)) u (u.mem.sys.mem psw) u.mem.sys.mem :=
  Steps.onMem ⟨u.mem.sys, Site.get_run psw u.mem, rfl⟩

/-- The accumulator and `PSW` get new bytes. -/
def flagged (ac flags : TMem) (mem : Site → TMem) : Site → TMem :=
  Function.update (stored acc ac mem) psw (flags &&& 0xff)

theorem flagged_steps {put : TMem → MemProg V TMem} (hput : PutsPsw put) (f : UChar → UChar → TMem × TMem) (u : Uc V) :
    Steps (do
      let ac := uchar (← acc.get D)
      let pw := uchar (← psw.get D)
      let _ ← acc.write D (f ac pw).1
      let _ ← put (f ac pw).2
      return .go : UcProg V Res) u .go
      (flagged (f u.A (uchar (u.mem.sys.mem psw))).1 (f u.A (uchar (u.mem.sys.mem psw))).2 u.mem.sys.mem) := by
  refine (accGet_steps u).bind fun v hv => ?_
  refine (pswGet_steps v).bind fun w hw => ?_
  rw [hv]
  refine (Steps.onMem (acc_write _ w.mem)).bind fun x hx => ?_
  refine (Steps.onMem (hput _ x.mem)).bind fun y hy => ?_
  rw [hx, hw, hv] at hy
  have hmem : y.mem.sys.mem = flagged (f u.A (uchar (u.mem.sys.mem psw))).1 (f u.A (uchar (u.mem.sys.mem psw))).2
      u.mem.sys.mem := hy
  exact hmem ▸ Steps.pure _ y

theorem flagged_acc (ac : UChar) (flags : TMem) (mem : Site → TMem) : uchar (flagged (tmem ac) flags mem acc) = ac := by
  unfold flagged stored
  rw [Function.update_of_ne acc_ne_psw, Function.update_self, byte_and (by rw [BitVec.toNat_setWidth]; omega)]
  simp

theorem flagged_CY (ac flags : TMem) (mem : Site → TMem) :
    decide (flagged ac flags mem psw &&& bmCY ≠ 0) = flags.getLsbD 7 := by
  unfold flagged
  rw [Function.update_self, and_bmCY]
  simp

theorem subbEnd_steps {put : TMem → MemProg V TMem} (hput : PutsPsw put) (data : UChar) (u : Uc V) :
    let pw := uchar (u.mem.sys.mem psw)
    Steps (subbEnd D put data) u .go
      (flagged (tmem (subbResult u.A data (tmem pw &&& bmCY ≠ 0))) (subbFlags u.A data pw) u.mem.sys.mem) :=
  flagged_steps hput (fun ac pw => (tmem (subbResult ac data (tmem pw &&& bmCY ≠ 0)), subbFlags ac data pw)) u

theorem pswByte_CY (p : TMem) : decide (tmem (uchar p) &&& bmCY ≠ 0) = decide (p &&& bmCY ≠ 0) := by
  rw [and_bmCY, and_bmCY]
  simp

theorem subbResult_eq (ac data : UChar) (c : Bool) : subbResult ac data c = (difference ac data c).1 := by
  cases c <;> rfl

theorem subbFlags_CY (ac data pw : UChar) :
    (subbFlags ac data pw).getLsbD 7 = (difference ac data (decide (tmem pw &&& bmCY ≠ 0))).2 := by
  have hmask : ∀ (c : Prop) [Decidable c] (bits : TMem),
      (if c then bits else 0 : TMem).getLsbD 7 = (decide c && bits.getLsbD 7) := fun c _ bits => by
    by_cases hc : c <;> simp [hc]
  unfold subbFlags difference
  simp only [BitVec.getLsbD_or, BitVec.getLsbD_and, hmask]
  cases hc : decide (tmem pw &&& bmCY ≠ 0) <;> simp [bmCY, bmOV, bmAC]

/-! ## Decimal adjustment -/

/-- Two decimal digits in a byte. -/
def Packed (x : UChar) : Prop := x.toNat % 16 ≤ 9 ∧ x.toNat / 16 ≤ 9

instance (x : UChar) : Decidable (Packed x) := inferInstanceAs (Decidable (_ ∧ _))

/-- The number that they stand for. -/
def decimal (x : UChar) : Nat := 10 * (x.toNat / 16) + x.toNat % 16

theorem toNat_and_f0 (v : UChar) : (v &&& 0xf0).toNat = v.toNat / 16 * 16 := by
  decide +revert +kernel

theorem byte_CY (p : UChar) : (p &&& uchar bmCY ≠ 0) ↔ p.getLsbD 7 = true := by
  decide +revert +kernel

theorem byte_AC (p : UChar) : (p &&& uchar bmAC ≠ 0) ↔ p.getLsbD 6 = true := by
  decide +revert +kernel

theorem or_CY (p : UChar) : (p ||| uchar bmCY).getLsbD 7 = true := by
  rw [BitVec.getLsbD_or]
  exact Bool.or_true _

/-- A step of the adjustment: something is added, and CY is set if it goes beyond a byte. -/
def adjust (what : UChar) (r : UChar × UChar) : UChar × UChar :=
  (r.1 + what, if r.1.toNat + what.toNat > 255 then r.2 ||| uchar bmCY else r.2)

theorem decimalAdjust_eq (ac pw : UChar) : decimalAdjust ac pw =
    let r := if ac.toNat % 16 > 9 ∨ pw.getLsbD 6 = true then adjust 0x06 (ac, pw) else (ac, pw)
    if r.1.toNat / 16 > 9 ∨ r.2.getLsbD 7 = true then adjust 0x60 r else r := by
  have hhigh : ∀ v : UChar, (v &&& 0xf0).toNat > 0x90 ↔ v.toNat / 16 > 9 := fun v => by
    rw [toNat_and_f0]
    omega
  unfold decimalAdjust
  simp only [toNat_and_0f, byte_AC, byte_CY, hhigh]
  rfl

theorem adjust_toNat (what : UChar) (r : UChar × UChar) : (adjust what r).1.toNat = (r.1.toNat + what.toNat) % 256 :=
  BitVec.toNat_add _ _

theorem adjust_CY (what : UChar) (r : UChar × UChar) :
    (adjust what r).2.getLsbD 7 = (r.2.getLsbD 7 || decide (r.1.toNat + what.toNat > 255)) := by
  unfold adjust
  by_cases h : r.1.toNat + what.toNat > 255
  · rw [if_pos h, or_CY, decide_eq_true h, Bool.or_true]
  · rw [if_neg h, decide_eq_false h, Bool.or_false]

/-- The sum of the low digits, with the carry. -/
def lowSum (x y : UChar) (c : Bool) : Nat := x.toNat % 16 + y.toNat % 16 + c.toNat

/-- The first step of the adjustment carries from the low digit to the high one. What goes beyond the byte is in CY. -/
theorem adjust_low {x y pw : UChar} {c : Bool} (hx : Packed x) (hy : Packed y)
    (hCY : pw.getLsbD 7 = (sum x y c).2) (hAC : pw.getLsbD 6 = decide (16 ≤ lowSum x y c)) :
    let ac := (sum x y c).1
    let r := if ac.toNat % 16 > 9 ∨ pw.getLsbD 6 = true then adjust 0x06 (ac, pw) else (ac, pw)
    r.1.toNat + 256 * (r.2.getLsbD 7).toNat =
      16 * (x.toNat / 16 + y.toNat / 16) + lowSum x y c + if lowSum x y c > 9 then 6 else 0 := by
  obtain ⟨hxl, hxh⟩ := hx
  obtain ⟨hyl, hyh⟩ := hy
  have hlt := c.toNat_le
  have hsum := sum_toNat (by decide) x y c
  have hbyte := (sum x y c).1.isLt
  have hcarry := (sum x y c).2.toNat_le
  have hcond : (sum x y c).1.toNat % 16 > 9 ∨ pw.getLsbD 6 = true ↔ lowSum x y c > 9 := by
    rw [hAC, decide_eq_true_iff]
    unfold lowSum
    omega
  intro ac r
  have hr : r = if lowSum x y c > 9 then adjust 0x06 (ac, pw) else (ac, pw) := if_congr hcond rfl rfl
  rw [hr]
  unfold lowSum
  split_ifs with h
  · rw [adjust_toNat, adjust_CY, hCY]
    change (ac.toNat + 6) % 256 + 256 * ((sum x y c).2 || decide (ac.toNat + 6 > 255)).toNat = _
    change ac.toNat + 2 ^ 8 * _ = _ at hsum
    change ac.toNat < 2 ^ 8 at hbyte
    cases hC : (sum x y c).2 with
    | false =>
      rw [hC, Bool.toNat_false] at hsum
      rw [Bool.false_or]
      by_cases hover : ac.toNat + 6 > 255
      · rw [decide_eq_true hover, Bool.toNat_true]
        omega
      · rw [decide_eq_false hover, Bool.toNat_false]
        omega
    | true =>
      rw [hC, Bool.toNat_true] at hsum
      rw [Bool.true_or, Bool.toNat_true]
      omega
  · rw [hCY]
    change ac.toNat + 256 * (sum x y c).2.toNat = _
    change ac.toNat + 2 ^ 8 * _ = _ at hsum
    omega

/-- The adjustment after the addition of decimal digits. -/
theorem decimalAdjust_sum {x y pw : UChar} {c : Bool} (hx : Packed x) (hy : Packed y)
    (hCY : pw.getLsbD 7 = (sum x y c).2) (hAC : pw.getLsbD 6 = decide (16 ≤ lowSum x y c)) :
    let r := decimalAdjust (sum x y c).1 pw
    Packed r.1 ∧ decimal r.1 + 100 * (r.2.getLsbD 7).toNat = decimal x + decimal y + c.toNat := by
  have hlow := adjust_low hx hy hCY hAC
  rw [decimalAdjust_eq]
  dsimp only at hlow ⊢
  generalize (if (sum x y c).1.toNat % 16 > 9 ∨ pw.getLsbD 6 = true then adjust 0x06 ((sum x y c).1, pw)
    else ((sum x y c).1, pw)) = r at hlow ⊢
  obtain ⟨hxl, hxh⟩ := hx
  obtain ⟨hyl, hyh⟩ := hy
  have hlt := c.toNat_le
  have hbyte := r.1.isLt
  have hsum : lowSum x y c = x.toNat % 16 + y.toNat % 16 + c.toNat := rfl
  have hcond : r.1.toNat / 16 > 9 ∨ r.2.getLsbD 7 = true ↔
      x.toNat / 16 + y.toNat / 16 + (if lowSum x y c > 9 then 1 else 0) > 9 := by
    cases hC : r.2.getLsbD 7 with
    | false =>
      rw [hC, Bool.toNat_false] at hlow
      simp only [Bool.false_eq_true, or_false]
      split_ifs at hlow ⊢ <;> omega
    | true =>
      rw [hC, Bool.toNat_true] at hlow
      simp only [or_true, true_iff]
      split_ifs at hlow ⊢ <;> omega
  unfold Packed decimal
  by_cases h : r.1.toNat / 16 > 9 ∨ r.2.getLsbD 7 = true
  · have hhigh := hcond.mp h
    rw [if_pos h, adjust_toNat, adjust_CY]
    change ((r.1.toNat + 96) % 256 % 16 ≤ 9 ∧ (r.1.toNat + 96) % 256 / 16 ≤ 9) ∧ 10 * ((r.1.toNat + 96) % 256 / 16) +
      (r.1.toNat + 96) % 256 % 16 + 100 * (r.2.getLsbD 7 || decide (r.1.toNat + 96 > 255)).toNat = _
    have hset : (r.2.getLsbD 7 || decide (r.1.toNat + 96 > 255)) = true := by
      rcases h with hover | hC
      · rw [decide_eq_true (by omega), Bool.or_true]
      · rw [hC, Bool.true_or]
    rw [hset, Bool.toNat_true]
    cases hC : r.2.getLsbD 7 with
    | false =>
      rw [hC, Bool.toNat_false] at hlow
      split_ifs at hlow hhigh <;> omega
    | true =>
      rw [hC, Bool.toNat_true] at hlow
      split_ifs at hlow hhigh <;> omega
  · have hhigh := mt hcond.mpr h
    have hC : r.2.getLsbD 7 = false := Bool.eq_false_iff.mpr fun hC => h (.inr hC)
    rw [if_neg h, hC, Bool.toNat_false]
    rw [hC, Bool.toNat_false] at hlow
    split_ifs at hlow hhigh <;> omega

/-! ## Operands -/

/-- How the forms of `ADDC` and `SUBB` get their operands. -/
def operand (D : Devices Dev V) (code : UChar) : UcProg V UChar :=
  if code &&& 0x0f = 0x04 then do
    return uchar (← fetch D)
  else if code &&& 0x0f = 0x05 then do
    let cell ← getDirect (← fetch D)
    return uchar (← cell.read D)
  else if code &&& 0x0e = 0x06 then do
    let cell ← getIndirect D code
    return uchar (← cell.read D)
  else do
    let reg ← getReg D (code &&& 0x07)
    return uchar (← reg.read D)

def addcCodes : List UChar := [0x34, 0x35, 0x36, 0x37, 0x38, 0x39, 0x3a, 0x3b, 0x3c, 0x3d, 0x3e, 0x3f]

def subbCodes : List UChar := [0x94, 0x95, 0x96, 0x97, 0x98, 0x99, 0x9a, 0x9b, 0x9c, 0x9d, 0x9e, 0x9f]

/-- No device touches the accumulator or `PSW` when a cell is read. -/
def Devices.SparesFlags (D : Devices Dev V) : Prop :=
  ∀ d c st, (D.read d c st).2.1.mem acc = st.mem acc ∧ (D.read d c st).2.1.mem psw = st.mem psw

/-- The accumulator and `PSW` have these bytes. -/
def FlagsAre (a p : TMem) (s : Sys Site (HwState V)) : Prop := s.mem acc = a ∧ s.mem psw = p

section Reads

variable (hD : D.SparesFlags) {a p : TMem}

include hD

theorem read_flags (c : Site) : Keeps (HoldsMem (FlagsAre a p)) (c.read D) := by
  refine Site.read_keeps (J := fun st : St V => st.mem acc = a ∧ st.mem psw = p) fun hw hhw st hst => ?_
  rcases mem_hws.mp hhw with ⟨d, -, rfl⟩ | ⟨-, rfl⟩ | ⟨-, rfl⟩
  · obtain ⟨hacc, hpsw⟩ := hD d c st
    exact ⟨hacc.trans hst.1, hpsw.trans hst.2⟩
  · exact hst
  · exact hst

theorem readCells_flags (sp : Space) (addr : Int) : Kept (HoldsMem (FlagsAre a p)) (sp.readCells D addr) := by
  have hread (c : Site) : Kept (HoldsMem (FlagsAre a p)) (c.read D) := ⟨read_flags hD c⟩
  unfold Space.readCells
  infer_instance

theorem readRom_flags (addr : Int) : Kept (HoldsMem (FlagsAre a p)) (Space.readRom D addr) := by
  have hread (c : Site) : Kept (HoldsMem (FlagsAre a p)) (c.read D) := ⟨read_flags hD c⟩
  have hcells (sp : Space) (addr : Int) : Kept (HoldsMem (FlagsAre a p)) (sp.readCells D addr) :=
    readCells_flags hD sp addr
  have hsram (addr : Int) : Kept (HoldsMem (FlagsAre a p)) (Space.readSram D addr) := by
    unfold Space.readSram
    infer_instance
  unfold Space.readRom
  refine ⟨Keeps.ite (hcells _ _).keeps ((hcells _ _).keeps.bind fun ctl => ?_)⟩
  refine Keeps.ite (hsram _).keeps ((hcells _ _).keeps.bind fun d => ?_)
  dsimp only
  split
  · exact (hcells _ _).keeps
  · exact Keeps.throw

/-- Getting an operand changes neither the accumulator nor `PSW`. -/
theorem operand_flags (code : UChar) : Kept (Holds (fun _ _ => True) (FlagsAre a p)) (operand D code) := by
  have hread (c : Site) : Kept (HoldsMem (FlagsAre a p)) (c.read D) := ⟨read_flags hD c⟩
  have hrom (addr : Int) : Kept (HoldsMem (FlagsAre a p)) (Space.rom.read D addr) := readRom_flags hD addr
  have hPC (addr : Int) : Kept (Holds (fun _ _ => True) (FlagsAre a p)) (setPC addr : UcProg V Unit) :=
    kept_setPC addr fun _ _ _ => trivial
  have hfetch : Kept (Holds (fun _ _ => True) (FlagsAre a p)) (fetch D) := by
    unfold fetch
    infer_instance
  unfold operand getIndirect
  infer_instance

end Reads

theorem FlagsAre.of_operand (hD : D.SparesFlags) {code : UChar} {u u' : Uc V} {b : UChar}
    (h : (operand D code).run u = .ok (b, u')) : u'.A = u.A ∧ u'.CY = u.CY ∧ u'.AC = u.AC := by
  obtain ⟨-, hacc, hpsw⟩ := (operand_flags hD code).keeps u b u' ⟨trivial, rfl, rfl⟩ h
  refine ⟨congrArg uchar hacc, ?_, ?_⟩
  · unfold Uc.CY
    rw [hpsw]
  · unfold Uc.AC
    rw [hpsw]

/-! ## The forms of the instructions -/

section Forms

variable {u u' : Uc V} {b : UChar}

/-- An instruction that gets its operand and goes on with it. -/
theorem run_operand {x : UcProg V TMem} {f : UChar → UcProg V Res} {t : Uc V}
    (h : (do return uchar (← x) : UcProg V UChar).run u = .ok (b, t)) :
    (x >>= fun v => f (uchar v)).run u = (f b).run t := by
  obtain ⟨v, w, hx, hpure⟩ := run_bind_ok.mp h
  obtain ⟨rfl, rfl⟩ : uchar v = b ∧ w = t := by simpa using Except.ok.inj hpure
  exact run_bind_of_ok hx _

/-- An instruction that gets the accumulator before it reads the cell of its operand. -/
theorem run_cell (hD : D.SparesFlags) {x : UcProg V Site} {g : UChar → UChar → UcProg V Res}
    {t : Uc V}
    (h : (do
      let cell ← x
      return uchar (← cell.read D) : UcProg V UChar).run u = .ok (b, t)) :
    (do
      let cell ← x
      let ac := uchar (← acc.get D)
      let data := uchar (← cell.read D)
      g ac data : UcProg V Res).run u = (do
      let ac := uchar (← acc.get D)
      g ac b : UcProg V Res).run t := by
  obtain ⟨cell, w, hx, hrest⟩ := run_bind_ok.mp h
  obtain ⟨v, w', hread, hpure⟩ := run_bind_ok.mp hrest
  obtain ⟨rfl, rfl⟩ : uchar v = b ∧ w' = t := by simpa using Except.ok.inj hpure
  have hget (v : Uc V) : (onMem (acc.get D)).run v = .ok (v.mem.sys.mem acc, v) :=
    run_zoom_ok.mpr ⟨v.mem, Site.get_run acc v.mem, rfl⟩
  have hacc : w'.mem.sys.mem acc = w.mem.sys.mem acc := by
    have hzoom : (onMem (cell.read D)).run w = .ok (v, w') := hread
    obtain ⟨s, hs, rfl⟩ := run_zoom_ok.mp hzoom
    exact (read_flags hD cell w.mem v s ⟨rfl, rfl⟩ hs).1
  refine (run_bind_of_ok hx _).trans ((run_bind_of_ok (hget w) _).trans ((run_bind_of_ok hread _).trans ?_))
  refine Eq.trans ?_ (run_bind_of_ok (hget w') _).symm
  rw [hacc]

theorem run_direct {f : UChar → UcProg V Res} (h : (do
      let cell ← getDirect (← fetch D)
      return uchar (← cell.read D) : UcProg V UChar).run u = .ok (b, u')) :
    (do
      let cell ← getDirect (← fetch D)
      let data := uchar (← cell.read D)
      f data : UcProg V Res).run u = (f b).run u' := by
  have hrun := run_operand (x := do let cell ← getDirect (← fetch D); cell.read D) (f := f) (u := u) (b := b) (t := u')
    (by simpa only [bind_assoc] using h)
  simpa only [bind_assoc] using hrun

theorem run_reg {n : UChar} {f : UChar → UcProg V Res} (h : (do
      let reg ← getReg D n
      return uchar (← reg.read D) : UcProg V UChar).run u = .ok (b, u')) :
    (do
      let reg ← getReg D n
      let data := uchar (← reg.read D)
      f data : UcProg V Res).run u = (f b).run u' := by
  have hrun := run_operand (x := do let reg ← getReg D n; reg.read D) (f := f) (u := u) (b := b) (t := u')
    (by simpa only [bind_assoc] using h)
  simpa only [bind_assoc] using hrun

theorem run_indirect {code : UChar} {f : UChar → UcProg V Res} (h : (do
      let cell ← getIndirect D code
      return uchar (← cell.read D) : UcProg V UChar).run u = .ok (b, u')) :
    (do
      let cell ← getIndirect D code
      let data := uchar (← cell.read D)
      f data : UcProg V Res).run u = (f b).run u' := by
  have hrun := run_operand (x := do let cell ← getIndirect D code; cell.read D) (f := f) (u := u) (b := b) (t := u')
    (by simpa only [bind_assoc] using h)
  simpa only [bind_assoc] using hrun

theorem addc_run (hD : D.SparesFlags) {code : UChar} (hcode : code ∈ addcCodes)
    (h : (operand D code).run u = .ok (b, u')) : (dispatch D (tmem code)).run u = (addcEnd D b).run u' := by
  have hindirect (h : (do
      let cell ← getIndirect D code
      return uchar (← cell.read D) : UcProg V UChar).run u = .ok (b, u')) :
      (instAddcASri D code).run u = (addcEnd D b).run u' :=
    run_cell hD (x := getIndirect D code) (g := fun ac data => do
      let orgC ← sfrGetC D
      addA D ac data orgC
      return .go) h
  unfold addcCodes at hcode
  simp only [List.mem_cons, List.not_mem_nil, or_false] at hcode
  rcases hcode with rfl | rfl | rfl | rfl | hcode
  · exact run_operand (x := fetch D) (f := addcEnd D) h
  · exact run_direct (f := addcEnd D) h
  · exact hindirect h
  · exact hindirect h
  · rcases hcode with rfl | rfl | rfl | rfl | rfl | rfl | rfl | rfl <;>
      exact run_reg (f := addcEnd D) h

theorem subb_run (hD : D.SparesFlags) {code : UChar} (hcode : code ∈ subbCodes)
    (h : (operand D code).run u = .ok (b, u')) :
    ∃ put : TMem → MemProg V TMem, PutsPsw put ∧ (dispatch D (tmem code)).run u = (subbEnd D put b).run u' := by
  unfold subbCodes at hcode
  simp only [List.mem_cons, List.not_mem_nil, or_false] at hcode
  rcases hcode with rfl | rfl | rfl | rfl | hcode
  · exact ⟨_, pswWrite_puts, run_operand (x := fetch D) (f := subbEnd D (psw.write D)) h⟩
  · refine ⟨_, pswSet_puts (D := D), ?_⟩
    have hrun := run_cell hD (x := do getDirect (← fetch D)) (g := fun ac data => do
      let pw := uchar (← psw.get D)
      let _ ← acc.write D (tmem (subbResult ac data (tmem pw &&& bmCY ≠ 0)))
      let _ ← psw.set D (subbFlags ac data pw)
      return .go) (u := u) (b := b) (t := u') (by
        rw [bind_assoc]
        exact h)
    rw [bind_assoc] at hrun
    exact hrun
  · exact ⟨_, pswWrite_puts, run_indirect (f := subbEnd D (psw.write D)) h⟩
  · exact ⟨_, pswWrite_puts, run_indirect (f := subbEnd D (psw.write D)) h⟩
  · refine ⟨_, pswWrite_puts (D := D), ?_⟩
    rcases hcode with rfl | rfl | rfl | rfl | rfl | rfl | rfl | rfl <;>
      exact run_reg (f := subbEnd D (psw.write D)) h

end Forms

/-! ## One byte -/

/-- The instruction with one of the codes is executed with the operand `b`. -/
def Executes (D : Devices Dev V) (codes : List UChar) (u : Uc V) (b : UChar) (v : Uc V) : Prop :=
  ∃ code ∈ codes, (∃ u', (operand D code).run u = .ok (b, u')) ∧ (dispatch D (tmem code)).run u = .ok (.go, v)

/-- `ADDC` and then `DA A`, which finds the accumulator and both carry flags as `ADDC` left them. -/
def ExecutesDecimal (D : Devices Dev V) (u : Uc V) (b : UChar) (v : Uc V) : Prop :=
  ∃ w w', Executes D addcCodes u b w ∧ w'.A = w.A ∧ w'.CY = w.CY ∧ w'.AC = w.AC ∧
    (dispatch D 0xd4).run w' = .ok (.go, v)

theorem addc_ends (hD : D.SparesFlags) {code : UChar} (hcode : code ∈ addcCodes) {u u' : Uc V} {b : UChar}
    (h : (operand D code).run u = .ok (b, u')) :
    ∃ v, (dispatch D (tmem code)).run u = .ok (.go, v) ∧ v.A = (sum u.A b u.CY).1 ∧ v.CY = (sum u.A b u.CY).2 ∧
      v.AC = decide (16 ≤ lowSum u.A b u.CY) := by
  obtain ⟨hA, hCY, -⟩ := FlagsAre.of_operand hD h
  obtain ⟨v, sys, hrun, hv, hmem⟩ := addcEnd_steps (D := D) b u'
  have hbytes : v.mem.sys.mem = added u.A b u.CY u'.mem.sys.mem := by rw [hv, hmem, hA, hCY]
  refine ⟨v, (addc_run hD hcode h).trans hrun, ?_, ?_, ?_⟩
  · unfold Uc.A
    rw [hbytes, added_acc]
    rfl
  · unfold Uc.CY
    rw [hbytes, added_CY]
    rfl
  · unfold Uc.AC
    rw [hbytes, added_AC]
    rfl

theorem subb_ends (hD : D.SparesFlags) {code : UChar} (hcode : code ∈ subbCodes) {u u' : Uc V} {b : UChar}
    (h : (operand D code).run u = .ok (b, u')) :
    ∃ v, (dispatch D (tmem code)).run u = .ok (.go, v) ∧ v.A = (difference u.A b u.CY).1 ∧
      v.CY = (difference u.A b u.CY).2 := by
  obtain ⟨hA, hCY, -⟩ := FlagsAre.of_operand hD h
  obtain ⟨put, hput, hdispatch⟩ := subb_run hD hcode h
  obtain ⟨v, sys, hrun, hv, hmem⟩ := subbEnd_steps (D := D) hput b u'
  have hc : decide (tmem (uchar (u'.mem.sys.mem psw)) &&& bmCY ≠ 0) = u.CY := (pswByte_CY _).trans hCY
  have hbytes : v.mem.sys.mem = _ := (congrArg (fun m => m.sys.mem) hv).trans hmem
  refine ⟨v, hdispatch.trans hrun, ?_, ?_⟩
  · unfold Uc.A
    rw [hbytes, flagged_acc, subbResult_eq, hc, hA]
    rfl
  · unfold Uc.CY
    rw [hbytes, flagged_CY, subbFlags_CY, hc, hA]
    rfl

theorem da_ends (u : Uc V) :
    ∃ v, (dispatch D 0xd4).run u = .ok (.go, v) ∧ v.A = (decimalAdjust u.A (uchar (u.mem.sys.mem psw))).1 ∧
      v.CY = (decimalAdjust u.A (uchar (u.mem.sys.mem psw))).2.getLsbD 7 := by
  obtain ⟨v, sys, hrun, hv, hmem⟩ := flagged_steps (D := D) pswWrite_puts
    (fun ac pw => (tmem (decimalAdjust ac pw).1, tmem (decimalAdjust ac pw).2)) u
  have hbytes : v.mem.sys.mem = _ := (congrArg (fun m => m.sys.mem) hv).trans hmem
  refine ⟨v, hrun, ?_, ?_⟩
  · unfold Uc.A
    rw [hbytes, flagged_acc]
    rfl
  · unfold Uc.CY
    rw [hbytes, flagged_CY]
    simp [Uc.A]

theorem Executes.addc (hD : D.SparesFlags) {u v : Uc V} {b : UChar} (h : Executes D addcCodes u b v) :
    v.A = (sum u.A b u.CY).1 ∧ v.CY = (sum u.A b u.CY).2 ∧ v.AC = decide (16 ≤ lowSum u.A b u.CY) := by
  obtain ⟨code, hcode, ⟨u', hoperand⟩, hrun⟩ := h
  obtain ⟨w, hrun', hfacts⟩ := addc_ends hD hcode hoperand
  rw [hrun] at hrun'
  cases hrun'
  exact hfacts

theorem Executes.subb (hD : D.SparesFlags) {u v : Uc V} {b : UChar} (h : Executes D subbCodes u b v) :
    v.A = (difference u.A b u.CY).1 ∧ v.CY = (difference u.A b u.CY).2 := by
  obtain ⟨code, hcode, ⟨u', hoperand⟩, hrun⟩ := h
  obtain ⟨w, hrun', hfacts⟩ := subb_ends hD hcode hoperand
  rw [hrun] at hrun'
  cases hrun'
  exact hfacts

theorem ExecutesDecimal.packed (hD : D.SparesFlags) {u v : Uc V} {b : UChar} (h : ExecutesDecimal D u b v)
    (ha : Packed u.A) (hb : Packed b) :
    Packed v.A ∧ decimal v.A + 100 * v.CY.toNat = decimal u.A + decimal b + u.CY.toNat := by
  obtain ⟨w, w', hadd, hA, hCY, hAC, hrun⟩ := h
  obtain ⟨hA', hCY', hAC'⟩ := hadd.addc hD
  obtain ⟨v', hrun', hvA, hvCY⟩ := da_ends (D := D) w'
  rw [hrun] at hrun'
  cases hrun'
  have h7 : (uchar (w'.mem.sys.mem psw)).getLsbD 7 = w'.CY := by
    unfold Uc.CY
    rw [and_bmCY]
    simp
  have h6 : (uchar (w'.mem.sys.mem psw)).getLsbD 6 = w'.AC := by
    unfold Uc.AC
    rw [and_bmAC]
    simp
  rw [hvA, hvCY, hA, hA']
  exact decimalAdjust_sum ha hb (h7.trans (hCY.trans hCY')) (h6.trans (hAC.trans hAC'))

/-! ## Several bytes -/

/-- A program that goes through the bytes of two numbers. In front of each step it loads the accumulator and keeps CY. The
bytes of a step are those of the numbers and of the result. -/
inductive Bytewise (step : Uc V → UChar → Uc V → Prop) : Uc V → List (UChar × UChar × UChar) → Uc V → Prop
  | nil (u : Uc V) : Bytewise step u [] u
  | cons {u u₁ v₁ v : Uc V} {b : UChar} {l : List (UChar × UChar × UChar)} :
    u₁.CY = u.CY → step u₁ b v₁ → Bytewise step v₁ l v → Bytewise step u ((u₁.A, b, v₁.A) :: l) v

/-- The first and the second operand and the result. -/
def firsts (l : List (UChar × UChar × UChar)) : List UChar := l.map fun p => p.1

def seconds (l : List (UChar × UChar × UChar)) : List UChar := l.map fun p => p.2.1

def outcomes (l : List (UChar × UChar × UChar)) : List UChar := l.map fun p => p.2.2

theorem Bytewise.ripple {step : Uc V → UChar → Uc V → Prop} {op : UChar → UChar → Bool → UChar × Bool}
    (hstep : ∀ u b v, step u b v → v.A = (op u.A b u.CY).1 ∧ v.CY = (op u.A b u.CY).2) {u v : Uc V}
    {l : List (UChar × UChar × UChar)} (h : Bytewise step u l v) :
    outcomes l = (Digits.ripple op (l.map fun p => (p.1, p.2.1)) u.CY).1 ∧
      v.CY = (Digits.ripple op (l.map fun p => (p.1, p.2.1)) u.CY).2 := by
  induction h with
  | nil u => exact ⟨rfl, rfl⟩
  | cons hCY hrun _ ih =>
    obtain ⟨hA, hC⟩ := hstep _ _ _ hrun
    rw [hC, hCY] at ih
    rw [hCY] at hA
    exact ⟨congrArg₂ _ hA ih.1, ih.2⟩

/-- Where a step can be taken with each byte in the accumulator and each carry, a program goes through any two numbers. -/
theorem Bytewise.exists_of_step {step : Uc V → UChar → Uc V → Prop}
    (hstep : ∀ a b c, ∃ u v : Uc V, u.A = a ∧ u.CY = c ∧ step u b v) (l : List (UChar × UChar)) (u : Uc V) :
    ∃ v l', Bytewise step u l' v ∧ firsts l' = l.map Prod.fst ∧ seconds l' = l.map Prod.snd := by
  induction l generalizing u with
  | nil => exact ⟨u, [], .nil u, rfl, rfl⟩
  | cons p l ih =>
    obtain ⟨u₁, v₁, hA, hCY, hone⟩ := hstep p.1 p.2 u.CY
    obtain ⟨v, l', hrest, hfirsts, hseconds⟩ := ih v₁
    refine ⟨v, _, .cons hCY hone hrest, ?_, ?_⟩
    · exact congrArg₂ List.cons hA hfirsts
    · exact congrArg (List.cons p.2) hseconds

/-- The value of digits of two decimals each. -/
def decimalValue (l : List UChar) : Nat := Nat.ofDigits 100 (l.map decimal)

theorem Bytewise.decimal (hD : D.SparesFlags) {u v : Uc V} {l : List (UChar × UChar × UChar)}
    (h : Bytewise (ExecutesDecimal D) u l v) (ha : ∀ x ∈ firsts l, Packed x) (hb : ∀ x ∈ seconds l, Packed x) :
    (∀ x ∈ outcomes l, Packed x) ∧ decimalValue (outcomes l) + 100 ^ l.length * v.CY.toNat =
      decimalValue (firsts l) + decimalValue (seconds l) + u.CY.toNat := by
  induction h with
  | nil u => exact ⟨fun _ hx => (List.not_mem_nil hx).elim, by simp [decimalValue, outcomes, firsts, seconds]⟩
  | @cons u u₁ v₁ v b l hCY hrun _ ih =>
    obtain ⟨hpacked, hbyte⟩ := hrun.packed hD (ha _ List.mem_cons_self) (hb _ List.mem_cons_self)
    obtain ⟨hall, hrest⟩ := ih (fun x hx => ha x (List.mem_cons_of_mem _ hx)) fun x hx => hb x (List.mem_cons_of_mem _ hx)
    refine ⟨List.forall_mem_cons.mpr ⟨hpacked, hall⟩, ?_⟩
    rw [hCY] at hbyte
    unfold decimalValue outcomes firsts seconds at hrest ⊢
    simp only [List.map_cons, Nat.ofDigits_cons, List.length_cons, Nat.pow_succ]
    linear_combination hbyte + 100 * hrest

/-- Every `ADDC`, `SUBB` and `DA` ends, and chains of them add and subtract in several bytes. -/
theorem multi_byte_arithmetic (D : Devices Dev V) (hD : D.SparesFlags) :
    (∀ code ∈ addcCodes ++ subbCodes, ∀ (u : Uc V) b u', (operand D code).run u = .ok (b, u') →
      ∃ v, (dispatch D (tmem code)).run u = .ok (.go, v)) ∧
    (∀ u : Uc V, ∃ v, (dispatch D 0xd4).run u = .ok (.go, v)) ∧
    (∀ (u v : Uc V) l, Bytewise (Executes D addcCodes) u l v →
      value (outcomes l) + (2 ^ 8) ^ l.length * v.CY.toNat = value (firsts l) + value (seconds l) + u.CY.toNat) ∧
    (∀ (u v : Uc V) l, Bytewise (Executes D subbCodes) u l v →
      value (outcomes l) + value (seconds l) + u.CY.toNat = value (firsts l) + (2 ^ 8) ^ l.length * v.CY.toNat) ∧
    ∀ (u v : Uc V) l, Bytewise (ExecutesDecimal D) u l v → (∀ x ∈ firsts l, Packed x) → (∀ x ∈ seconds l, Packed x) →
      (∀ x ∈ outcomes l, Packed x) ∧ decimalValue (outcomes l) + 100 ^ l.length * v.CY.toNat =
        decimalValue (firsts l) + decimalValue (seconds l) + u.CY.toNat := by
  refine ⟨fun code hcode u b u' h => ?_, fun u => ?_, fun u v l h => ?_, fun u v l h => ?_, fun u v l h => h.decimal hD⟩
  · rcases List.mem_append.mp hcode with hadd | hsub
    · obtain ⟨v, hrun, -⟩ := addc_ends hD hadd h
      exact ⟨v, hrun⟩
    · obtain ⟨v, hrun, -⟩ := subb_ends hD hsub h
      exact ⟨v, hrun⟩
  · obtain ⟨v, hrun, -⟩ := da_ends (D := D) u
    exact ⟨v, hrun⟩
  · obtain ⟨hresult, hcarry⟩ := h.ripple fun u b v hstep => ⟨(hstep.addc hD).1, (hstep.addc hD).2.1⟩
    have hsum := ripple_sum (by decide) (l.map fun p => (p.1, p.2.1)) u.CY
    rw [List.map_map, List.map_map, List.length_map] at hsum
    rw [hresult, hcarry]
    exact hsum
  · obtain ⟨hresult, hcarry⟩ := h.ripple fun u b v hstep => hstep.subb hD
    have hdifference := ripple_difference (by decide) (l.map fun p => (p.1, p.2.1)) u.CY
    rw [List.map_map, List.map_map, List.length_map] at hdifference
    rw [hresult, hcarry]
    exact hdifference

/-- A controller without devices. Each byte that is neither the accumulator nor `PSW` is the operand. -/
def loaded (a b : UChar) (c : Bool) : Uc Unit :=
  bare fun s => if s = acc then tmem a else if s = psw then (if c then bmCY else 0) else tmem b

theorem loaded_bytes (a b : UChar) (c : Bool) : (loaded a b c).A = a ∧ (loaded a b c).CY = c := by
  refine ⟨?_, ?_⟩
  · simp [Uc.A, loaded, bare, blank]
  · cases c <;> simp [Uc.CY, loaded, bare, blank, acc_ne_psw.symm, bmCY]

/-- The operand of the immediate forms. -/
theorem loaded_operand (code : UChar) (hcode : code &&& 0x0f = 0x04) (a b : UChar) (c : Bool) :
    ∃ u', (operand noDevices code).run (loaded a b c) = .ok (b, u') := by
  have hbyte : uchar (tmem b) = b := by simp
  unfold operand
  rw [if_pos hcode]
  have hfetch : ∃ u', (do return uchar (← fetch noDevices) : UcProg Unit UChar).run (loaded a b c) =
      .ok (uchar (tmem b), u') := ⟨_, rfl⟩
  rwa [hbyte] at hfetch

/-- Two bytes are added with a carry into the second one, subtracted with a borrow, and added as decimals. -/
theorem multi_byte_two :
    (∃ (u v : Uc Unit) (l : List (UChar × UChar × UChar)), Bytewise (Executes noDevices addcCodes) u l v ∧
      firsts l = [0xff, 0x12] ∧ seconds l = [0x02, 0xf0] ∧
      value (outcomes l) + (2 ^ 8) ^ l.length * v.CY.toNat = 0x12ff + 0xf002 + 1) ∧
    (∃ (u v : Uc Unit) (l : List (UChar × UChar × UChar)), Bytewise (Executes noDevices subbCodes) u l v ∧
      firsts l = [0x00, 0x12] ∧ seconds l = [0x01, 0x34] ∧
      value (outcomes l) + 0x3401 + 1 = 0x1200 + (2 ^ 8) ^ l.length * v.CY.toNat) ∧
    ∃ (u v : Uc Unit) (l : List (UChar × UChar × UChar)), Bytewise (ExecutesDecimal noDevices) u l v ∧
      firsts l = [0x99, 0x45] ∧ seconds l = [0x27, 0x61] ∧ (∀ x ∈ outcomes l, Packed x) ∧
      decimalValue (outcomes l) + 100 ^ l.length * v.CY.toNat = 4599 + 6127 + 1 := by
  have hspares : noDevices.SparesFlags := fun d => d.elim
  obtain ⟨-, -, hadd, hsub, hdecimal⟩ := multi_byte_arithmetic noDevices hspares
  have haddStep : ∀ a b c, ∃ u v : Uc Unit, u.A = a ∧ u.CY = c ∧ Executes noDevices addcCodes u b v := by
    intro a b c
    obtain ⟨u', hoperand⟩ := loaded_operand 0x34 (by decide) a b c
    obtain ⟨v, hrun, -⟩ := addc_ends hspares (by decide : (0x34 : UChar) ∈ addcCodes) hoperand
    obtain ⟨hA, hCY⟩ := loaded_bytes a b c
    exact ⟨loaded a b c, v, hA, hCY, 0x34, by decide, ⟨u', hoperand⟩, hrun⟩
  have hsubStep : ∀ a b c, ∃ u v : Uc Unit, u.A = a ∧ u.CY = c ∧ Executes noDevices subbCodes u b v := by
    intro a b c
    obtain ⟨u', hoperand⟩ := loaded_operand 0x94 (by decide) a b c
    obtain ⟨v, hrun, -⟩ := subb_ends hspares (by decide : (0x94 : UChar) ∈ subbCodes) hoperand
    obtain ⟨hA, hCY⟩ := loaded_bytes a b c
    exact ⟨loaded a b c, v, hA, hCY, 0x94, by decide, ⟨u', hoperand⟩, hrun⟩
  have hdecimalStep : ∀ a b c, ∃ u v : Uc Unit, u.A = a ∧ u.CY = c ∧ ExecutesDecimal noDevices u b v := by
    intro a b c
    obtain ⟨u, w, hA, hCY, hrun⟩ := haddStep a b c
    obtain ⟨v, hda, -⟩ := da_ends (D := noDevices) w
    exact ⟨u, v, hA, hCY, w, w, hrun, rfl, rfl, rfl, hda⟩
  have hcarry : (loaded 0 0 true).CY = true := (loaded_bytes 0 0 true).2
  refine ⟨?_, ?_, ?_⟩
  · obtain ⟨v, l, h, hfirsts, hseconds⟩ :=
      Bytewise.exists_of_step haddStep [(0xff, 0x02), (0x12, 0xf0)] (loaded 0 0 true)
    have hvalue := hadd _ _ _ h
    rw [hfirsts, hseconds, hcarry] at hvalue
    exact ⟨_, v, l, h, hfirsts, hseconds, hvalue⟩
  · obtain ⟨v, l, h, hfirsts, hseconds⟩ :=
      Bytewise.exists_of_step hsubStep [(0x00, 0x01), (0x12, 0x34)] (loaded 0 0 true)
    have hvalue := hsub _ _ _ h
    rw [hfirsts, hseconds, hcarry] at hvalue
    exact ⟨_, v, l, h, hfirsts, hseconds, hvalue⟩
  · obtain ⟨v, l, h, hfirsts, hseconds⟩ :=
      Bytewise.exists_of_step hdecimalStep [(0x99, 0x27), (0x45, 0x61)] (loaded 0 0 true)
    obtain ⟨hpacked, hvalue⟩ := hdecimal _ _ _ h (by rw [hfirsts]; decide) (by rw [hseconds]; decide)
    rw [hfirsts, hseconds, hcarry] at hvalue
    exact ⟨_, v, l, h, hfirsts, hseconds, hpacked, hvalue⟩

end Ucsim.S51
