import Ucsim.Logic.Decimal
import Ucsim.Z80.MultiByte

/-!
# Decimal arithmetic

`ADC` and `SBC`, each with `DAA` behind it. The half carry is never recorded, and `DAA` forgets the carry that it finds.
-/

namespace Ucsim.Z80

open Logic Logic.Digits Logic.Decimal

/-! ## The correction -/

/-- The registers after `DAA`. -/
def adjusted (g : Regs) : Regs :=
  let incr : BitVec 8 := if g.F &&& BIT_A ≠ 0 ∨ 9 < g.A &&& 0x0f then 6 else 0
  let incr := if g.F &&& BIT_C ≠ 0 ∨ 0x90 < g.A &&& 0xf0 then incr ||| 0x60 else incr
  if g.F &&& BIT_N ≠ 0 then sub_A_bytereg incr g
  else
    let incr := if 0x90 < g.A ∧ 9 < g.A &&& 0x0f then incr ||| 0x60 else incr
    add_A_bytereg incr g

theorem daa_regs {s : Machine} (h : s.next = 0x27) : s.step.regs = adjusted s.regs := by
  rw [step_eq h]
  rfl

theorem low_digit (x : BitVec 8) : 9 < x &&& 0x0f ↔ 9 < x.toNat % 16 := by decide +revert

theorem high_digit (x : BitVec 8) : 0x90 < x &&& 0xf0 ↔ 0xa0 ≤ x.toNat := by decide +revert

/-- The correction of a sum. -/
def addIncr (a : Nat) (c : Bool) : Nat :=
  (if 9 < a % 16 then 6 else 0) + if c ∨ 0xa0 ≤ a ∨ 0x90 < a ∧ 9 < a % 16 then 0x60 else 0

/-- The correction of a difference. -/
def subIncr (a : Nat) (c : Bool) : Nat := (if 9 < a % 16 then 6 else 0) + if c ∨ 0xa0 ≤ a then 0x60 else 0

section Adjusted

variable {g : Regs}

/-- Behind an addition there is no half carry. -/
theorem adjusted_sum (hA : g.F &&& BIT_A = 0) (hN : g.F &&& BIT_N = 0) :
    adjusted g = add_A_bytereg (BitVec.ofNat 8 (addIncr g.A.toNat g.carry)) g := by
  have hcarry : g.F &&& BIT_C ≠ 0 ↔ g.carry = true := by simp [Regs.carry]
  have hlarge : (0x90 : BitVec 8) < g.A ↔ 0x90 < g.A.toNat := BitVec.lt_def
  unfold adjusted addIncr
  simp only [hA, hN, hcarry, low_digit, high_digit, hlarge, ne_eq, not_true_eq_false, false_or, if_false]
  congr 1
  by_cases hlow : 9 < g.A.toNat % 16 <;> by_cases hhigh : 0xa0 ≤ g.A.toNat <;> by_cases hnine : 0x90 < g.A.toNat <;>
    cases g.carry <;> simp [hlow, hhigh, hnine]

theorem adjusted_difference (hA : g.F &&& BIT_A = 0) (hN : g.F &&& BIT_N ≠ 0) :
    adjusted g = sub_A_bytereg (BitVec.ofNat 8 (subIncr g.A.toNat g.carry)) g := by
  have hcarry : g.F &&& BIT_C ≠ 0 ↔ g.carry = true := by simp [Regs.carry]
  unfold adjusted subIncr
  rw [if_pos hN]
  simp only [hA, hcarry, low_digit, high_digit, ne_eq, not_true_eq_false, false_or]
  congr 1
  by_cases hlow : 9 < g.A.toNat % 16 <;> by_cases hhigh : 0xa0 ≤ g.A.toNat <;>
    cases g.carry <;> simp [hlow, hhigh]

end Adjusted

/-! ## Two instructions on digits -/

/-- `ADC` and `DAA`. -/
def adcDaa (x y : BitVec 8) (c : Bool) : BitVec 8 × Bool :=
  let q := sum x y c
  sum q.1 (BitVec.ofNat 8 (addIncr q.1.toNat q.2)) false

/-- `SBC` and `DAA`. -/
def sbcDaa (x y : BitVec 8) (c : Bool) : BitVec 8 × Bool :=
  let q := difference x y c
  difference q.1 (BitVec.ofNat 8 (subIncr q.1.toNat q.2)) false

theorem orIf_clear {bits m : BitVec 8} (hbits : bits &&& m = 0) (c : Prop) [Decidable c] (F : BitVec 8) :
    orIf c bits F &&& m = F &&& m := by
  unfold orIf
  split
  · rw [BitVec.and_or_distrib_right, hbits]
    exact BitVec.or_zero
  · rfl

/-- The flags of an addition. -/
theorem adc_clears (y : BitVec 8) (g : Regs) :
    (adc_A_bytereg y g).F &&& BIT_A = 0 ∧ (adc_A_bytereg y g).F &&& BIT_N = 0 := by
  have hA : ∀ F : BitVec 8, F &&& ~~~BIT_ALL &&& BIT_A = 0 := by decide
  have hN : ∀ F : BitVec 8, F &&& ~~~BIT_ALL &&& BIT_N = 0 := by decide
  simp only [adc_A_bytereg, orZS]
  rw [orIf_clear (by decide), orIf_clear (by decide), orIf_clear (by decide), hA, orIf_clear (by decide),
    orIf_clear (by decide), orIf_clear (by decide), hN]
  exact ⟨rfl, rfl⟩

theorem sbc_marks (y : BitVec 8) (g : Regs) :
    (sbc_A_bytereg y g).F &&& BIT_A = 0 ∧ (sbc_A_bytereg y g).F &&& BIT_N ≠ 0 := by
  have hA : ∀ F : BitVec 8, F &&& ~~~BIT_ALL &&& BIT_A = 0 := by decide
  have hnone : BIT_N &&& BIT_A = 0 := by decide
  have hN : ∀ F : BitVec 8, (F ||| BIT_N) &&& BIT_N ≠ 0 := by decide
  simp only [sbc_A_bytereg, orZS]
  refine ⟨?_, hN _⟩
  rw [BitVec.and_or_distrib_right, hnone, orIf_clear (by decide), orIf_clear (by decide), orIf_clear (by decide), hA]
  rfl

variable {u : Machine}

theorem adc_daa_step {x : Source} (hat : Alu.ADC.At u x) (hdaa : u.step.next = 0x27) :
    u.step.step.regs.A = (adcDaa u.regs.A (x.value u) u.carry).1 ∧
      u.step.step.carry = (adcDaa u.regs.A (x.value u) u.carry).2 := by
  obtain ⟨hregs, -⟩ := alu_not_self hat fun hself => absurd hself.1 (by decide)
  have hflags := adc_clears (x.value u) u.regs
  obtain ⟨hdigit, hcarry⟩ := adc_digits u.regs (x.value u)
  have hadjusted := adjusted_sum hflags.1 hflags.2
  rw [hdigit, hcarry] at hadjusted
  have hstep : u.step.step.regs = _ := (daa_regs hdaa).trans ((congrArg adjusted hregs).trans hadjusted)
  have hlast := add_digits (adc_A_bytereg (x.value u) u.regs)
    (BitVec.ofNat 8 (addIncr (sum u.regs.A (x.value u) u.carry).1.toNat (sum u.regs.A (x.value u) u.carry).2))
  rw [hdigit] at hlast
  exact ⟨(congrArg Regs.A hstep).trans hlast.1, (congrArg Regs.carry hstep).trans hlast.2⟩

theorem sbc_daa_step {x : Source} (hat : Alu.SBC.At u x) (hdaa : u.step.next = 0x27) :
    u.step.step.regs.A = (sbcDaa u.regs.A (x.value u) u.carry).1 ∧
      u.step.step.carry = (sbcDaa u.regs.A (x.value u) u.carry).2 := by
  obtain ⟨hregs, -⟩ := alu_not_self hat fun hself => absurd hself.1 (by decide)
  have hflags := sbc_marks (x.value u) u.regs
  obtain ⟨hdigit, hcarry⟩ := sbc_digits u.regs (x.value u)
  have hadjusted := adjusted_difference hflags.1 hflags.2
  rw [hdigit, hcarry] at hadjusted
  have hstep : u.step.step.regs = _ := (daa_regs hdaa).trans ((congrArg adjusted hregs).trans hadjusted)
  have hlast := sub_digits (sbc_A_bytereg (x.value u) u.regs)
    (BitVec.ofNat 8 (subIncr (difference u.regs.A (x.value u) u.carry).1.toNat (difference u.regs.A (x.value u) u.carry).2))
  rw [hdigit] at hlast
  exact ⟨(congrArg Regs.A hstep).trans hlast.1, (congrArg Regs.carry hstep).trans hlast.2⟩

/-! ## When the digits are right -/

theorem addIncr_lt (a : Nat) (c : Bool) : addIncr a c < 256 := by
  unfold addIncr
  split_ifs <;> decide

theorem subIncr_lt (a : Nat) (c : Bool) : subIncr a c < 256 := by
  unfold subIncr
  split_ifs <;> decide

/-- The outcome for a sum, of which only the sums of the digits matter. -/
theorem adcDaa_toNat (x y : BitVec 8) (c : Bool) :
    let s := x.toNat + y.toNat + c.toNat
    let incr := addIncr (s % 256) (decide (256 ≤ s))
    (adcDaa x y c).1.toNat = (s % 256 + incr) % 256 ∧ (adcDaa x y c).2 = decide (256 ≤ s % 256 + incr) := by
  have hdigit : (sum x y c).1.toNat = (x.toNat + y.toNat + c.toNat) % 256 := by simp [sum, BitVec.toNat_add]
  have hcarry : (sum x y c).2 = decide (256 ≤ x.toNat + y.toNat + c.toNat) := rfl
  have hlt := addIncr_lt ((x.toNat + y.toNat + c.toNat) % 256) (decide (256 ≤ x.toNat + y.toNat + c.toNat))
  unfold adcDaa
  dsimp only
  rw [hdigit, hcarry]
  constructor
  · simp [sum, BitVec.toNat_add]
  · simp [sum, Nat.mod_eq_of_lt hlt]

/-- The outcome for a difference. -/
theorem sbcDaa_toNat (x y : BitVec 8) (c : Bool) :
    let d := 256 + x.toNat - (y.toNat + c.toNat)
    let incr := subIncr (d % 256) (decide (d < 256))
    (sbcDaa x y c).1.toNat = (256 + d % 256 - incr) % 256 ∧ (sbcDaa x y c).2 = decide (d % 256 < incr) := by
  have hx := x.isLt
  have hy := y.isLt
  have hc := c.toNat_le
  have hdigit (x y : BitVec 8) (c : Bool) :
      (difference x y c).1.toNat = (256 + x.toNat - (y.toNat + c.toNat)) % 256 := by
    have hx := x.isLt
    have hy := y.isLt
    have hdifference := difference_toNat (by decide) x y c
    have hlt := (difference x y c).1.isLt
    have hb := (difference x y c).2.toNat_le
    have hc := c.toNat_le
    omega
  have hcarry : (difference x y c).2 = decide (256 + x.toNat - (y.toNat + c.toNat) < 256) :=
    decide_eq_decide.mpr (by omega)
  have hlt := subIncr_lt ((256 + x.toNat - (y.toNat + c.toNat)) % 256)
    (decide (256 + x.toNat - (y.toNat + c.toNat) < 256))
  have hincr := Nat.mod_eq_of_lt hlt
  have hlast (a b : BitVec 8) : (difference a b false).2 = decide (a.toNat < b.toNat) := rfl
  unfold sbcDaa
  dsimp only
  rw [hdigit, hlast, hdigit, hcarry, BitVec.toNat_ofNat, hincr]
  exact ⟨rfl, rfl⟩

/-- The sums of two digits each, up to 19 and 18. -/
theorem sum_table : ∀ l < 20, ∀ h < 19,
    let s := 16 * h + l
    let d := 10 * h + l
    let incr := addIncr (s % 256) (decide (256 ≤ s))
    ((s % 256 + incr) % 256 = 16 * (d % 100 / 10) + d % 100 % 10 ∧
      decide (256 ≤ s % 256 + incr) = decide (100 ≤ d)) ↔ l ≤ 15 ∧ h ≤ 15 := by
  decide +kernel

/-- The differences of two digits each, with 10 and 9 added to them. -/
theorem difference_table : ∀ l < 20, ∀ h < 19,
    let s := 16 * h + l + 102
    let d := 10 * h + l
    let incr := subIncr (s % 256) (decide (s < 256))
    ((256 + s % 256 - incr) % 256 = 16 * (d % 100 / 10) + d % 100 % 10 ∧
      decide (s % 256 < incr) = decide (d < 100)) ↔ 4 ≤ l ∧ 256 ≤ s := by
  decide +kernel

/-- With another carry the digits of a sum are others. -/
theorem sum_seen : ∀ l < 19, ∀ h < 19, ∀ c c' : Bool,
    let s := 16 * h + l + c.toNat
    let d := 10 * h + l + c'.toNat
    (s % 256 + addIncr (s % 256) (decide (256 ≤ s))) % 256 = 16 * (d % 100 / 10) + d % 100 % 10 → c = c' := by
  decide +kernel

theorem difference_seen : ∀ l < 19, ∀ h < 19, ∀ c c' : Bool,
    let s := 16 * h + l + 103 - c.toNat
    let d := 10 * h + l + 1 - c'.toNat
    (256 + s % 256 - subIncr (s % 256) (decide (s < 256))) % 256 = 16 * (d % 100 / 10) + d % 100 % 10 → c = c' := by
  decide +kernel

variable {x y : BitVec 8}

theorem adcDaa_eq_iff (hx : Packed x) (hy : Packed y) (c : Bool) :
    adcDaa x y c = decimalSum x y c ↔
      x.toNat % 16 + y.toNat % 16 + c.toNat ≤ 15 ∧ x.toNat / 16 + y.toNat / 16 ≤ 15 := by
  obtain ⟨hxl, hxh⟩ := hx
  obtain ⟨hyl, hyh⟩ := hy
  have hc := c.toNat_le
  have htable := sum_table (x.toNat % 16 + y.toNat % 16 + c.toNat) (by omega) (x.toNat / 16 + y.toNat / 16) (by omega)
  obtain ⟨hdigit, hcarry⟩ := adcDaa_toNat x y c
  have hs : 16 * (x.toNat / 16 + y.toNat / 16) + (x.toNat % 16 + y.toNat % 16 + c.toNat) =
      x.toNat + y.toNat + c.toNat := by omega
  have hd : 10 * (x.toNat / 16 + y.toNat / 16) + (x.toNat % 16 + y.toNat % 16 + c.toNat) =
      decimal x + decimal y + c.toNat := by
    unfold decimal
    omega
  rw [hs, hd] at htable
  refine Iff.trans ?_ htable
  rw [Prod.ext_iff, ← BitVec.toNat_inj, hdigit, hcarry, decimalSum, pack_toNat (Nat.mod_lt _ (by decide))]

theorem adcDaa_seen (hx : Packed x) (hy : Packed y) {c c' : Bool} (h : (adcDaa x y c).1 = (decimalSum x y c').1) :
    c = c' := by
  obtain ⟨hxl, hxh⟩ := hx
  obtain ⟨hyl, hyh⟩ := hy
  have hs : x.toNat + y.toNat + c.toNat =
      16 * (x.toNat / 16 + y.toNat / 16) + (x.toNat % 16 + y.toNat % 16) + c.toNat := by omega
  have hd : decimal x + decimal y + c'.toNat =
      10 * (x.toNat / 16 + y.toNat / 16) + (x.toNat % 16 + y.toNat % 16) + c'.toNat := by
    unfold decimal
    omega
  apply sum_seen (x.toNat % 16 + y.toNat % 16) (by omega) (x.toNat / 16 + y.toNat / 16) (by omega)
  have hbytes := congrArg BitVec.toNat h
  rw [(adcDaa_toNat x y c).1, decimalSum, pack_toNat (Nat.mod_lt _ (by decide)), hs, hd] at hbytes
  exact hbytes

theorem sbcDaa_eq_iff (hx : Packed x) (hy : Packed y) (c : Bool) :
    sbcDaa x y c = decimalDifference x y c ↔
      y.toNat % 16 + c.toNat ≤ x.toNat % 16 + 6 ∧ y.toNat + c.toNat ≤ x.toNat := by
  obtain ⟨hxl, hxh⟩ := hx
  obtain ⟨hyl, hyh⟩ := hy
  have hc := c.toNat_le
  have htable := difference_table (10 + x.toNat % 16 - (y.toNat % 16 + c.toNat)) (by omega)
    (9 + x.toNat / 16 - y.toNat / 16) (by omega)
  obtain ⟨hdigit, hcarry⟩ := sbcDaa_toNat x y c
  have hs : 16 * (9 + x.toNat / 16 - y.toNat / 16) + (10 + x.toNat % 16 - (y.toNat % 16 + c.toNat)) + 102 =
      256 + x.toNat - (y.toNat + c.toNat) := by omega
  have hd : 10 * (9 + x.toNat / 16 - y.toNat / 16) + (10 + x.toNat % 16 - (y.toNat % 16 + c.toNat)) =
      100 + decimal x - (decimal y + c.toNat) := by
    unfold decimal
    omega
  have hborrow : decide (decimal x < decimal y + c.toNat) = decide (100 + decimal x - (decimal y + c.toNat) < 100) :=
    decide_eq_decide.mpr (by unfold decimal; omega)
  rw [hs, hd] at htable
  refine Iff.trans ?_ (htable.trans ?_)
  · rw [Prod.ext_iff, ← BitVec.toNat_inj, hdigit, hcarry, decimalDifference, pack_toNat (Nat.mod_lt _ (by decide)),
      hborrow]
  · omega

theorem sbcDaa_seen (hx : Packed x) (hy : Packed y) {c c' : Bool}
    (h : (sbcDaa x y c).1 = (decimalDifference x y c').1) : c = c' := by
  obtain ⟨hxl, hxh⟩ := hx
  obtain ⟨hyl, hyh⟩ := hy
  have hs : 256 + x.toNat - (y.toNat + c.toNat) =
      16 * (9 + x.toNat / 16 - y.toNat / 16) + (9 + x.toNat % 16 - y.toNat % 16) + 103 - c.toNat := by omega
  have hd : 100 + decimal x - (decimal y + c'.toNat) =
      10 * (9 + x.toNat / 16 - y.toNat / 16) + (9 + x.toNat % 16 - y.toNat % 16) + 1 - c'.toNat := by
    unfold decimal
    omega
  apply difference_seen (9 + x.toNat % 16 - y.toNat % 16) (by omega) (9 + x.toNat / 16 - y.toNat / 16) (by omega)
  have hbytes := congrArg BitVec.toNat h
  rw [(sbcDaa_toNat x y c).1, decimalDifference, pack_toNat (Nat.mod_lt _ (by decide)), hs, hd] at hbytes
  exact hbytes

/-! ## Chains -/

/-- `ADC` or `SBC`. -/
inductive Dec
  | add | sub
  deriving DecidableEq, Repr

namespace Dec

def alu : Dec → Alu
  | add => .ADC
  | sub => .SBC

/-- What the instructions do to the digits. -/
def op : Dec → BitVec 8 → BitVec 8 → Bool → BitVec 8 × Bool
  | add => adcDaa
  | sub => sbcDaa

/-- What they should do. -/
def digits : Dec → BitVec 8 → BitVec 8 → Bool → BitVec 8 × Bool
  | add => decimalSum
  | sub => decimalDifference

end Dec

/-- A program goes through the bytes of two numbers, with the instruction and `DAA` at each of them. In between it keeps
C. -/
inductive DecimalChain (o : Dec) : Machine → List (Limb 8) → Machine → Prop
  | nil (s : Machine) : DecimalChain o s [] s
  | cons {s u t : Machine} {x : Source} {l : List (Limb 8)} (hcarry : u.carry = s.carry) (hat : o.alu.At u x)
      (hdaa : u.step.next = 0x27) (h : DecimalChain o u.step.step l t) :
      DecimalChain o s (⟨u.next, u.regs.A, x.value u, u.step.step.regs.A⟩ :: l) t

variable {o : Dec} {s t : Machine} {l : List (Limb 8)}

theorem dec_step {x : Source} (hat : o.alu.At u x) (hdaa : u.step.next = 0x27) :
    u.step.step.regs.A = (o.op u.regs.A (x.value u) u.carry).1 ∧
      u.step.step.carry = (o.op u.regs.A (x.value u) u.carry).2 := by
  cases o with
  | add => exact adc_daa_step hat hdaa
  | sub => exact sbc_daa_step hat hdaa

theorem DecimalChain.ripple (h : DecimalChain o s l t) :
    (outcomes l, t.carry) = Digits.ripple o.op (pairs l) s.carry := by
  induction h with
  | nil s => rfl
  | cons hcarry hat hdaa _ ih =>
    obtain ⟨hdigit, hlast⟩ := dec_step hat hdaa
    rw [hlast, hcarry] at ih
    rw [hcarry] at hdigit
    have hall := Prod.ext_iff.mp ih
    exact Prod.ext (congrArg₂ _ hdigit hall.1) hall.2

/-- The results are packed digits, and with C they are those of the sum or the difference. -/
def Dec.Right (o : Dec) (l : List (Limb 8)) (t : Machine) : Prop :=
  (∀ r ∈ outcomes l, Packed r) ∧
    match o with
    | .add => decimalValue (outcomes l) + 100 ^ l.length * t.carry.toNat =
        decimalValue (firsts l) + decimalValue (seconds l)
    | .sub => decimalValue (outcomes l) + decimalValue (seconds l) =
        decimalValue (firsts l) + 100 ^ l.length * t.carry.toNat

/-- All operands are packed. -/
def AllPacked (l : List (Limb 8)) : Prop := ∀ p ∈ l, Packed p.x ∧ Packed p.y

theorem AllPacked.pairs (h : AllPacked l) : ∀ p ∈ Z80.pairs l, Packed p.1 ∧ Packed p.2 := by
  intro p hp
  obtain ⟨q, hq, rfl⟩ := List.mem_map.mp hp
  exact h q hq

theorem right_iff_ripple (o : Dec) (t : Machine) (hl : AllPacked l) :
    o.Right l t ↔ (outcomes l, t.carry) = Digits.ripple o.digits (pairs l) false := by
  have hlength : (outcomes l).length = (pairs l).length := by simp [outcomes, pairs]
  cases o with
  | add =>
    have hiff := sum_digits_iff hl.pairs false hlength t.carry
    rw [pairs_fst, pairs_snd, pairs_length, Bool.toNat_false, Nat.add_zero] at hiff
    exact hiff
  | sub =>
    have hiff := difference_digits_iff hl.pairs false hlength t.carry
    rw [pairs_fst, pairs_snd, pairs_length, Bool.toNat_false, Nat.add_zero] at hiff
    exact hiff

/-! ## When chains are right -/

/-- No digit of a sum, with what is carried into its byte, is above 15. -/
def SumFits : List (BitVec 8 × BitVec 8) → Bool → Prop
  | [], _ => True
  | (x, y) :: l, c => (x.toNat % 16 + y.toNat % 16 + c.toNat ≤ 15 ∧ x.toNat / 16 + y.toNat / 16 ≤ 15) ∧
      SumFits l (decimalSum x y c).2

/-- No byte of a difference is below 0, and no low digit below -6. -/
def DifferenceFits (l : List (BitVec 8 × BitVec 8)) : Prop :=
  ∀ p ∈ l, p.2.toNat % 16 ≤ p.1.toNat % 16 + 6 ∧ p.2.toNat ≤ p.1.toNat

theorem sum_agree_iff {l : List (BitVec 8 × BitVec 8)} (hl : ∀ p ∈ l, Packed p.1 ∧ Packed p.2) (c : Bool) :
    AgreeAlong adcDaa decimalSum l c ↔ SumFits l c := by
  induction l generalizing c with
  | nil => exact Iff.rfl
  | cons p l ih =>
    obtain ⟨x, y⟩ := p
    obtain ⟨⟨hx, hy⟩, hl⟩ := List.forall_mem_cons.mp hl
    exact and_congr (adcDaa_eq_iff hx hy c) (ih hl _)

theorem decimal_le {x y : BitVec 8} (hx : Packed x) (hy : Packed y) (h : y.toNat ≤ x.toNat) : decimal y ≤ decimal x := by
  obtain ⟨hxl, hxh⟩ := hx
  obtain ⟨hyl, hyh⟩ := hy
  unfold decimal
  omega

/-- Without a borrow the next byte is like the first one. -/
theorem difference_agree_iff {l : List (BitVec 8 × BitVec 8)} (hl : ∀ p ∈ l, Packed p.1 ∧ Packed p.2) :
    AgreeAlong sbcDaa decimalDifference l false ↔ DifferenceFits l := by
  induction l with
  | nil => exact iff_of_true trivial (List.forall_mem_nil _)
  | cons p l ih =>
    obtain ⟨x, y⟩ := p
    obtain ⟨⟨hx, hy⟩, hl⟩ := List.forall_mem_cons.mp hl
    have hbyte := sbcDaa_eq_iff hx hy false
    rw [Bool.toNat_false, Nat.add_zero, Nat.add_zero] at hbyte
    refine Iff.trans ?_ List.forall_mem_cons.symm
    refine and_congr_right_iff.mpr ?_ |>.trans (and_congr_left' hbyte)
    intro heq
    have hborrow : (decimalDifference x y false).2 = false := by
      have hle := decimal_le hx hy (hbyte.mp heq).2
      exact decide_eq_false (by simpa using hle)
    rw [hborrow]
    exact ih hl

/-- When a chain leaves the right digits. -/
def Dec.Fits : Dec → List (Limb 8) → Prop
  | add, l => SumFits (pairs l) false
  | sub, l => DifferenceFits (pairs l)

/-- `ADC` and `DAA` add decimal numbers exactly if no digit of the sum goes above 15, and `SBC` and `DAA` subtract them
exactly if no byte borrows and no low digit goes below -6. -/
theorem decimal_right_iff (o : Dec) {s t : Machine} {l : List (Limb 8)} (hC : s.carry = false)
    (h : DecimalChain o s l t) (hl : AllPacked l) : o.Right l t ↔ o.Fits l := by
  rw [right_iff_ripple o t hl, h.ripple, hC]
  cases o with
  | add =>
    have hseen : ∀ x y c c', Packed x ∧ Packed y → (adcDaa x y c).1 = (decimalSum x y c').1 → c = c' :=
      fun _ _ _ _ hxy heq => adcDaa_seen hxy.1 hxy.2 heq
    exact (ripple_eq_iff (P := fun p => Packed p.1 ∧ Packed p.2) hseen hl.pairs false).trans
      (sum_agree_iff hl.pairs false)
  | sub =>
    have hseen : ∀ x y c c', Packed x ∧ Packed y → (sbcDaa x y c).1 = (decimalDifference x y c').1 → c = c' :=
      fun _ _ _ _ hxy heq => sbcDaa_seen hxy.1 hxy.2 heq
    exact (ripple_eq_iff (P := fun p => Packed p.1 ∧ Packed p.2) hseen hl.pairs false).trans
      (difference_agree_iff hl.pairs)

/-- A program at 0, with `a` in A. -/
def adding (a : BitVec 8) (program : List (BitVec 8)) : Machine :=
  { Machine.start (fun addr => program.getD addr.toNat 0) with regs := { Regs.zero with A := a } }

/-- `ADC A,0x10` and `DAA`, `LD A,0x12`, and `ADC A,0x34` and `DAA`. -/
def addingTwo : Machine := adding 0x95 [0xCE, 0x10, 0x27, 0x3E, 0x12, 0xCE, 0x34, 0x27]

/-- 1295 and 3410 are 4705. -/
theorem decimal_right_1295_3410 : addingTwo.step.step.carry = true ∧
    Dec.add.Right [⟨0xCE, 0x95, 0x10, 0x05⟩, ⟨0xCE, 0x12, 0x34, 0x47⟩] addingTwo.step.step.step.step.step := by
  have hlow : addingTwo.step.step.regs.A = 0x05 := by decide +kernel
  have hhigh : addingTwo.step.step.step.step.step.regs.A = 0x47 := by decide +kernel
  have hchain := DecimalChain.cons (o := .add) (s := addingTwo) (x := .imm) rfl rfl rfl
    (.cons (u := addingTwo.step.step.step) (x := .imm) (by decide +kernel) rfl (by decide +kernel) (.nil _))
  rw [hlow, hhigh] at hchain
  have hpacked : AllPacked [⟨0xCE, 0x95, 0x10, 0x05⟩, ⟨0xCE, 0x12, 0x34, 0x47⟩] := by unfold AllPacked; decide
  refine ⟨by decide +kernel, (decimal_right_iff .add rfl hchain hpacked).mpr ?_⟩
  exact ⟨⟨by decide, by decide⟩, ⟨by decide, by decide⟩, trivial⟩

/-- 9 and 9 are 12 too. -/
theorem decimal_09_09_differs : DecimalChain .add (adding 9 [0xCE, 9, 0x27]) [⟨0xCE, 9, 9, 0x12⟩]
      (adding 9 [0xCE, 9, 0x27]).step.step ∧
    ¬ Dec.add.Right [⟨0xCE, 9, 9, 0x12⟩] (adding 9 [0xCE, 9, 0x27]).step.step := by
  have hA : (adding 9 [0xCE, 9, 0x27]).step.step.regs.A = 0x12 := by decide +kernel
  have hcarry : (adding 9 [0xCE, 9, 0x27]).step.step.carry = false := by decide +kernel
  have hchain := DecimalChain.cons (o := .add) (u := adding 9 [0xCE, 9, 0x27]) (x := .imm) rfl rfl rfl (.nil _)
  rw [hA] at hchain
  refine ⟨hchain, fun h => ?_⟩
  have hvalue : decimalValue [(0x12 : BitVec 8)] + 100 ^ 1 * (adding 9 [0xCE, 9, 0x27]).step.step.carry.toNat =
      decimalValue [(9 : BitVec 8)] + decimalValue [(9 : BitVec 8)] := h.2
  rw [hcarry] at hvalue
  exact absurd hvalue (by decide)

end Ucsim.Z80
