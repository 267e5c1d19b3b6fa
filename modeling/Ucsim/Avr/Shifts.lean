import Ucsim.Avr.MultiPrecision
import Ucsim.Logic.DigitShift

/-!
# Shifts of several bytes

`LSR`, `ASR` and `ROR` on the most significant byte, and `ROR` on the bytes behind it. C goes from one to the next.
-/

namespace Ucsim.Avr

open Logic Logic.Digits

/-! ## One byte -/

inductive Shift
  | lsr | asr | ror
  deriving DecidableEq

def Shift.code : Shift → BitVec 16
  | .lsr => 0x9406
  | .asr => 0x9405
  | .ror => 0x9407

/-- The carry of the machine. -/
def Machine.carry (s : Machine) : Bool := (s.ram SREG).getLsbD 0

/-- What an instruction leaves in its register. `ROR` leaves 0x80 for all but 0 without a carry. -/
def Shift.res (x : BitVec 8) (c : Bool) : Shift → BitVec 8
  | .lsr => x >>> 1
  | .asr => x.sshiftRight 1
  | .ror => if x >>> 1 ≠ 0 ∨ c = true then 0x80 else 0

/-- A register has got a byte and C a bit. Besides them only `SREG` may have changed. -/
structure Moved (s : Machine) (d : BitVec 16) (res : BitVec 8) (out : Bool) (t : Machine) : Prop where
  reg : t.ram d = res
  carry : t.carry = out
  frame : ∀ addr, addr ≠ SREG → addr ≠ d → t.ram addr = s.ram addr
  PC : t.PC = inc_address s.PC
  rom : t.rom = s.rom
  romDummy : t.romDummy = s.romDummy

section OneByte

variable {s : Machine}

/-- An instruction that works on one register and `SREG`. -/
theorem moved_onReg {uses : List Operand} {d : BitVec 16} {op : BitVec 16 → BitVec 16 → BitVec 16 × BitVec 16}
    (hdecode : decode s.code = some (inst uses (onReg d op))) (hd : d ≠ SREG) :
    let p := op ((s.ram d).setWidth 16) ((s.ram SREG).setWidth 16)
    Moved s d (p.1.setWidth 8) (p.2.getLsbD 0) s.step := by
  have hram : s.step.ram = Function.update (Function.update s.ram d
      ((op ((s.ram d).setWidth 16) ((s.ram SREG).setWidth 16)).1.setWidth 8)) SREG
      ((op ((s.ram d).setWidth 16) ((s.ram SREG).setWidth 16)).2.setWidth 8) := by
    rw [step_eq hdecode]
    rfl
  refine ⟨?_, ?_, fun addr hsreg hne => ?_, ?_, ?_, ?_⟩
  · rw [hram, Function.update_of_ne hd, Function.update_self]
  · unfold Machine.carry
    rw [hram, Function.update_self, BitVec.getLsbD_setWidth]
    exact Bool.true_and _
  · rw [hram, Function.update_of_ne hsreg, Function.update_of_ne hne]
  · rw [step_eq hdecode]
    rfl
  · rw [step_eq hdecode]
    rfl
  · rw [step_eq hdecode]
    rfl

theorem shift_flags_C (c : Bool) (res sreg : BitVec 16) : (shift_flags c res sreg).getLsbD 0 = sreg.getLsbD 0 := by
  simp [shift_flags, BIT_N, BIT_V, BIT_S, BIT_Z]

/-- The bit that goes out is in C. -/
theorem out_C {c : Prop} [Decidable c] {x : BitVec 8} (hc : c ↔ x.setWidth 16 &&& 1 ≠ 0) (bits sreg : BitVec 16)
    (hbits : bits.getLsbD 0 = true) : (orIf c bits (sreg &&& ~~~BIT_SHIFT)).getLsbD 0 = x.getLsbD 0 := by
  rw [BitVec.getLsbD_eq_getElem (by decide)] at hbits
  simp [hbits, hc, BIT_SHIFT, BIT_C, BIT_S, BIT_V, BIT_N, BIT_Z]

/-- Z is another flag. -/
theorem orIf_Z_C (c : Prop) [Decidable c] (sreg : BitVec 16) : (orIf c BIT_Z sreg).getLsbD 0 = sreg.getLsbD 0 := by
  simp [BIT_Z]

theorem Moved.congr {d : BitVec 16} {res res' : BitVec 8} {out out' : Bool} {t : Machine} (h : Moved s d res out t)
    (hres : res = res') (hout : out = out') : Moved s d res' out' t := hres ▸ hout ▸ h

/-- What `ROR` looks at: the shifted byte and the old C. -/
theorem ror_res (x f : BitVec 8) :
    ((if x.setWidth 16 >>> 1 ||| f.setWidth 16 &&& BIT_C ≠ 0 then (0x80 : BitVec 16) else 0) &&& 0xff).setWidth 8 =
      Shift.ror.res x (f.getLsbD 0) := by
  have hcarry : ∀ f : BitVec 8, f.setWidth 16 &&& BIT_C = (BitVec.ofBool (f.getLsbD 0)).setWidth 16 := by decide
  have hbyte : ∀ x : BitVec 8, ∀ c : Bool,
      ((if x.setWidth 16 >>> 1 ||| (BitVec.ofBool c).setWidth 16 ≠ 0 then (0x80 : BitVec 16) else 0) &&& 0xff).setWidth 8 =
        Shift.ror.res x c := by decide
  rw [hcarry, hbyte]

/-- What each instruction does with its byte and with C. -/
theorem shift_moved (k : Shift) (h : s.code &&& 0xfe0f = k.code) :
    Moved s (d5 s.code) (k.res (s.ram (d5 s.code)) s.carry) ((s.ram (d5 s.code)).getLsbD 0) s.step := by
  have hd : d5 s.code ≠ SREG := ne_SREG (d5_lt s.code)
  cases k with
  | lsr =>
    have hres : ∀ x : BitVec 8, (x.setWidth 16 >>> 1 &&& 0xff).setWidth 8 = x >>> 1 := by decide
    refine (moved_onReg (decode_of_first h rfl (by decide)) hd).congr (hres _) ?_
    exact (orIf_Z_C _ _).trans (out_C Iff.rfl (BIT_C ||| BIT_V ||| BIT_S) ((s.ram SREG).setWidth 16) rfl)
  | asr =>
    have hres : ∀ x : BitVec 8,
        (orIf (x.setWidth 16 >>> 1 &&& 0x40 ≠ 0) 0x80 (x.setWidth 16 >>> 1) &&& 0xff).setWidth 8 = x.sshiftRight 1 := by
      decide
    refine (moved_onReg (decode_of_first h rfl (by decide)) hd).congr (hres _) ?_
    exact (shift_flags_C _ _ _).trans (out_C decide_eq_true_iff BIT_C ((s.ram SREG).setWidth 16) rfl)
  | ror =>
    refine (moved_onReg (decode_of_first h rfl (by decide)) hd).congr (ror_res _ _) ?_
    exact (shift_flags_C _ _ _).trans (out_C decide_eq_true_iff BIT_C ((s.ram SREG).setWidth 16) rfl)

end OneByte

/-! ## The bytes behind the first one -/

/-- `ROR` on one byte after the other. -/
def rotated : Bool → List (BitVec 8) → List (BitVec 8) × Bool
  | c, [] => ([], c)
  | c, x :: l =>
    let q := rotated (x.getLsbD 0) l
    (Shift.ror.res x c :: q.1, q.2)

/-- The bytes that `ROR` gets right. -/
theorem ror_right (c : Bool) (x : BitVec 8) : Shift.ror.res x c = shiftDigit c x ↔ x.toNat ≤ 1 := by decide +revert

theorem rotated_out (c : Bool) (l : List (BitVec 8)) : (rotated c l).2 = (shiftRight c l).2 := by
  induction l generalizing c with
  | nil => rfl
  | cons x l ih => exact ih _

theorem rotated_right (c : Bool) (l : List (BitVec 8)) : (rotated c l).1 = (shiftRight c l).1 ↔ ∀ x ∈ l, x.toNat ≤ 1 := by
  induction l generalizing c with
  | nil => exact iff_of_true rfl (List.forall_mem_nil _)
  | cons x l ih =>
    rw [List.forall_mem_cons, ← ror_right c x, ← ih (x.getLsbD 0)]
    exact List.cons.injEq _ _ _ _ ▸ Iff.rfl

/-! ## Programs -/

/-- The words of a shift of several bytes, the most significant one first. The registers are all distinct. -/
structure Shift.Program (k : Shift) where
  head : BitVec 16
  tail : List (BitVec 16)
  head_code : head &&& 0xfe0f = k.code
  tail_code : ∀ code ∈ tail, code &&& 0xfe0f = Shift.ror.code
  distinct : ((head :: tail).map d5).Nodup

def Shift.Program.codes {k : Shift} (P : k.Program) : List (BitVec 16) := P.head :: P.tail

section Programs

variable {s : Machine} {code : BitVec 16} {codes : List (BitVec 16)} {res : BitVec 8} {out : Bool}

/-- The rest of the words and of the bytes after an instruction. -/
theorem Moved.rest (h : Moved s (d5 code) res out s.step) (hholds : s.Holds s.PC (code :: codes))
    (hdistinct : ((code :: codes).map d5).Nodup) :
    s.step.Holds s.step.PC codes ∧ s.step.results codes = s.results codes := by
  constructor
  · rw [h.PC]
    exact hholds.2.congr h.rom h.romDummy
  · refine List.map_congr_left fun c hc => h.frame _ (ne_SREG (d5_lt c)) fun heq => ?_
    exact (List.nodup_cons.mp hdistinct).1 (List.mem_map.mpr ⟨c, hc, heq⟩)

/-- The byte of an instruction stays as it is when the others are shifted. -/
theorem Moved.before (h : Moved s (d5 code) res out s.step) (hdistinct : ((code :: codes).map d5).Nodup)
    (hframe : s.step.KeepsOthers (s.step.after codes) codes) :
    (s.after (code :: codes)).results (code :: codes) = res :: (s.step.after codes).results codes ∧
      s.KeepsOthers (s.after (code :: codes)) (code :: codes) := by
  have hkept : (s.step.after codes).ram (d5 code) = s.step.ram (d5 code) := by
    refine hframe _ (ne_SREG (d5_lt code)) fun c hc heq => ?_
    exact (List.nodup_cons.mp hdistinct).1 (List.mem_map.mpr ⟨c, hc, heq.symm⟩)
  refine ⟨congrArg (· :: _) (hkept.trans h.reg), fun addr hne hothers => ?_⟩
  have hlater := hframe addr hne fun c hc => hothers c (List.mem_cons_of_mem _ hc)
  exact hlater.trans (h.frame addr hne (hothers code List.mem_cons_self))

theorem run_rotated (hcodes : ∀ code ∈ codes, code &&& 0xfe0f = Shift.ror.code) (hholds : s.Holds s.PC codes)
    (hdistinct : (codes.map d5).Nodup) :
    (s.after codes).results codes = (rotated s.carry (s.results codes)).1 ∧
      (s.after codes).carry = (rotated s.carry (s.results codes)).2 ∧ s.KeepsOthers (s.after codes) codes := by
  induction codes generalizing s with
  | nil => exact ⟨rfl, rfl, fun _ _ _ => rfl⟩
  | cons code codes ih =>
    obtain ⟨rfl, -⟩ := id hholds
    have hmoved := shift_moved .ror (hcodes _ List.mem_cons_self)
    obtain ⟨hrest, hbytes⟩ := hmoved.rest hholds hdistinct
    obtain ⟨hresults, hcarry, hframe⟩ :=
      ih (fun c hc => hcodes c (List.mem_cons_of_mem _ hc)) hrest (List.nodup_cons.mp hdistinct).2
    obtain ⟨hcons, hkeeps⟩ := hmoved.before hdistinct hframe
    rw [hbytes, hmoved.carry] at hresults hcarry
    exact ⟨hcons.trans (congrArg _ hresults), hcarry, hkeeps⟩

end Programs

/-- What a program leaves in its registers and in C. -/
theorem Shift.Program.run {k : Shift} (P : k.Program) {s : Machine} (hholds : s.Holds s.PC P.codes) :
    let x := s.ram (d5 P.head)
    let q := rotated (x.getLsbD 0) (s.results P.tail)
    (s.after P.codes).results P.codes = k.res x s.carry :: q.1 ∧ (s.after P.codes).carry = q.2 := by
  have hcode : s.code = P.head := hholds.1
  have hmoved : Moved s (d5 P.head) _ _ s.step := hcode ▸ shift_moved k (hcode ▸ P.head_code)
  obtain ⟨hrest, hbytes⟩ := hmoved.rest hholds P.distinct
  obtain ⟨hresults, hcarry, hframe⟩ := run_rotated P.tail_code hrest (List.nodup_cons.mp P.distinct).2
  obtain ⟨hcons, -⟩ := hmoved.before P.distinct hframe
  rw [hbytes, hmoved.carry] at hresults hcarry
  exact ⟨hcons.trans (congrArg _ hresults), hcarry⟩

/-! ## The shifted number -/

/-- The bit that should come in on the left. -/
def Shift.comesIn (x : BitVec 8) (c : Bool) : Shift → Bool
  | .lsr => false
  | .asr => x.msb
  | .ror => c

/-- What a program is for: the number in its registers is halved, as a signed one by `ASR` and with C above it by `ROR`.
C is the bit that the number loses. -/
def Shift.Correct (k : Shift) (codes : List (BitVec 16)) (s s' : Machine) : Prop :=
  let v := s.results codes
  let v' := s'.results codes
  (match k with
    | .lsr => number v' = number v / 2
    | .asr => signedNumber v' = signedNumber v / 2
    | .ror => number v' = (s.carry.toNat * (2 ^ 8) ^ codes.length + number v) / 2) ∧
  (s'.carry = true ↔ number v % 2 = 1)

/-- When it does what it is for: the bytes that `ROR` shifts are 0 or 1. -/
def Shift.Program.Condition {k : Shift} (P : k.Program) (s : Machine) : Prop :=
  (k = .ror → (s.ram (d5 P.head)).toNat ≤ 1) ∧ ∀ code ∈ P.tail, (s.ram (d5 code)).toNat ≤ 1

/-- The instruction for the first byte. -/
theorem first_right (k : Shift) (x : BitVec 8) (c : Bool) :
    k.res x c = shiftDigit (k.comesIn x c) x ↔ (k = .ror → x.toNat ≤ 1) := by
  cases k with
  | lsr =>
    have hlsr : ∀ x : BitVec 8, Shift.lsr.res x c = shiftDigit false x := by decide +revert
    exact iff_of_true (hlsr x) nofun
  | asr =>
    have hasr : ∀ x : BitVec 8, Shift.asr.res x c = shiftDigit x.msb x := by decide +revert
    exact iff_of_true (hasr x) nofun
  | ror => exact (ror_right c x).trans ⟨fun h _ => h, fun h => h rfl⟩

/-- A program is correct if it shifts the digits of the number. -/
theorem Shift.Program.correct_iff_digits {k : Shift} (P : k.Program) {s : Machine} (hholds : s.Holds s.PC P.codes) :
    k.Correct P.codes s (s.after P.codes) ↔
      (s.after P.codes).results P.codes = (shiftRight (k.comesIn (s.ram (d5 P.head)) s.carry) (s.results P.codes)).1 := by
  obtain ⟨-, hcarry⟩ := P.run hholds
  have hbytes : s.results P.codes = s.ram (d5 P.head) :: s.results P.tail := rfl
  have hlength : ((s.after P.codes).results P.codes).length =
      (shiftRight (k.comesIn (s.ram (d5 P.head)) s.carry) (s.results P.codes)).1.length := by
    rw [shiftRight_length]
    exact (List.length_map _).trans (List.length_map _).symm
  have hcodes : (s.results P.codes).length = P.codes.length := List.length_map _
  have hout : (s.after P.codes).carry = true ↔ number (s.results P.codes) % 2 = 1 := by
    rw [hcarry, rotated_out, ← shiftRight_out (by decide) (k.comesIn (s.ram (d5 P.head)) s.carry) (s.results P.codes)
      (hbytes ▸ List.cons_ne_nil _ _)]
    rfl
  refine (and_iff_left hout).trans ?_
  cases k with
  | lsr =>
    have hhalf := shiftRight_halves (by decide) false (s.results P.codes)
    rw [Bool.toNat_false, Nat.zero_mul, Nat.zero_add] at hhalf
    dsimp only
    rw [← number_inj hlength, ← hhalf]
    rfl
  | asr =>
    dsimp only
    rw [← signedNumber_inj hlength]
    have hsigned := shiftRight_signed (by decide) (s.ram (d5 P.head)) (s.results P.tail)
    rw [← hbytes] at hsigned
    rw [← hsigned]
    rfl
  | ror =>
    dsimp only
    rw [← number_inj hlength, ← hcodes, ← shiftRight_halves (by decide)]
    rfl

/-- A shift of several bytes is correct exactly if `ROR` shifts nothing but 0 and 1. -/
theorem shift_correct_iff (k : Shift) (P : k.Program) (s : Machine) (hholds : s.Holds s.PC P.codes) :
    k.Correct P.codes s (s.after P.codes) ↔ P.Condition s := by
  obtain ⟨hresults, -⟩ := P.run hholds
  rw [P.correct_iff_digits hholds, hresults]
  have hcons : (shiftRight (k.comesIn (s.ram (d5 P.head)) s.carry) (s.results P.codes)).1 =
      shiftDigit (k.comesIn (s.ram (d5 P.head)) s.carry) (s.ram (d5 P.head)) ::
        (shiftRight ((s.ram (d5 P.head)).getLsbD 0) (s.results P.tail)).1 := rfl
  have htail : (∀ x ∈ s.results P.tail, x.toNat ≤ 1) ↔ ∀ code ∈ P.tail, (s.ram (d5 code)).toNat ≤ 1 := List.forall_mem_map
  rw [hcons, List.cons.injEq, first_right, rotated_right, htail]
  rfl

/-- `lsr r1` and `ror r0`. -/
def shiftWord : Shift.lsr.Program :=
  ⟨0x9416, [0x9407], rfl, List.forall_mem_singleton.mpr rfl, by decide⟩

/-- The machine in front of it, with a number in `r1:r0`. -/
def beforeShiftWord (low high : BitVec 8) : Machine where
  ram := Function.update (Function.update (fun _ => 0) 0 low) 1 high
  rom addr := if addr = 0 then 0x9416 else 0x9407
  ramDummy := 0
  romDummy := 0
  PC := 0
  ticks := 0
  sleep_executed := false

/-- 0x0301 is shifted. -/
theorem shift_correct_0301 : Shift.lsr.Correct shiftWord.codes (beforeShiftWord 1 3)
      ((beforeShiftWord 1 3).after shiftWord.codes) ↔ shiftWord.Condition (beforeShiftWord 1 3) :=
  shift_correct_iff .lsr shiftWord (beforeShiftWord 1 3) ⟨rfl, rfl, trivial⟩

/-- Half of 4 is 0x80. -/
theorem shift_4_differs :
    let s := beforeShiftWord 4 0
    s.Holds s.PC shiftWord.codes ∧ number (s.results shiftWord.codes) = 4 ∧
      number ((s.after shiftWord.codes).results shiftWord.codes) = 0x80 ∧
      ¬ Shift.lsr.Correct shiftWord.codes s (s.after shiftWord.codes) := by
  have hafter : number (((beforeShiftWord 4 0).after shiftWord.codes).results shiftWord.codes) = 0x80 := by decide +kernel
  have hbefore : number ((beforeShiftWord 4 0).results shiftWord.codes) = 4 := by decide +kernel
  refine ⟨⟨rfl, rfl, trivial⟩, hbefore, hafter, fun h => ?_⟩
  have hhalf : number _ = number _ / 2 := h.1
  rw [hafter, hbefore] at hhalf
  exact absurd hhalf (by decide)

end Ucsim.Avr
