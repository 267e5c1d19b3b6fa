import Mathlib.Tactic.FinCases
import Ucsim.Logic.Run
import Ucsim.S51.Element

/-!
# The MAC timer

`cl_CC2530_timer2`: sixteen-bit registers and overflow bytes in five banks, which `T2MSEL` switches
behind `T2M0` and `T2M1` and behind `T2MOVF0` to `T2MOVF2`.
-/

namespace Ucsim.S51

open Logic

namespace Reg

def T2CTRL : Int := 0x94
def T2EVTCFG : Int := 0x9C
def T2IRQF : Int := 0xA1
def T2M0 : Int := 0xA2
def T2M1 : Int := 0xA3
def T2MOVF0 : Int := 0xA4
def T2MOVF1 : Int := 0xA5
def T2MOVF2 : Int := 0xA6
def T2IRQM : Int := 0xA7
def T2MSEL : Int := 0xC3
def CSPX : Int := 0x61E2
def CSPT : Int := 0x61E5

end Reg

/-- The banks, in the order of the cases of `switch (t2msel)`. -/
inductive Bank
  | count | cap | per | cmp1 | cmp2
  deriving DecidableEq, Repr

/-- The bank that `t2msel` or `t2movfsel` selects. -/
def Bank.select (sel : TMem) : Option Bank :=
  if sel = 0 then some .count
  else if sel = 1 then some .cap
  else if sel = 2 then some .per
  else if sel = 3 then some .cmp1
  else if sel = 4 then some .cmp2
  else none

/-- The case of a bank. -/
def Bank.sel : Bank → TMem
  | .count => 0
  | .cap => 1
  | .per => 2
  | .cmp1 => 3
  | .cmp2 => 4

/-- The timer. `value` are `count`, `t2_cap`, `t2_per`, `t2_cmp1` and `t2_cmp2`, all of them of sixteen
bits, and `OVF` the `char`s `OVF0`, `OVFcap0`, `OVFper0`, `OVFcmp1_0`, `OVFcmp2_0` and so on. -/
structure MacTimer where
  run : Bool
  mode : Int
  event : Bool
  T2_EVENT1 : Bool
  T2_EVENT2 : Bool
  t2msel : TMem
  t2movfsel : TMem
  value : Bank → BitVec 16
  OVF : Bank → Fin 3 → BitVec 8

namespace MacTimer

/-- `reset`. -/
def reset : MacTimer where
  run := false
  mode := 0
  event := false
  T2_EVENT1 := false
  T2_EVENT2 := false
  t2msel := 0
  t2movfsel := 0
  value _ := 0
  OVF _ _ := 0

def count (t : MacTimer) : BitVec 16 := t.value .count

/-- Assigns to the register of a bank. -/
def setValue (t : MacTimer) (b : Bank) (v : BitVec 16) : MacTimer :=
  { t with value := Function.update t.value b v }

@[simp] theorem setValue_value (t : MacTimer) (b : Bank) (v : BitVec 16) :
    (t.setValue b v).value = Function.update t.value b v := rfl

/-- Assigns to an overflow byte of a bank: `char`s take the low byte. -/
def setOVF (t : MacTimer) (b : Bank) (i : Fin 3) (v : TMem) : MacTimer :=
  { t with OVF := Function.update t.OVF b (Function.update (t.OVF b) i (v.setWidth 8)) }

/-- What a write of `T2MOVF0`, `T2MOVF1` or `T2MOVF2` does. -/
def writeOVF (t : MacTimer) (i : Fin 3) (v : TMem) : MacTimer :=
  match Bank.select t.t2movfsel with
  | some b => t.setOVF b i v
  | none => t

/-- `write`. -/
def write (c : Site) (v : TMem) (st : ElementSt MacTimer) : ElementSt MacTimer :=
  let t := st.hw
  let t := if c = .sfr Reg.T2CTRL then { t with run := v &&& 0x01 ≠ 0 } else t
  let t := if c = .sfr Reg.T2MSEL then
      { t with t2movfsel := v >>> 4 &&& 0x07, t2msel := v &&& 0x07 }
    else t
  let t := if c = .sfr Reg.T2M0 then
      match Bank.select t.t2msel with
      | some b => t.setValue b v
      | none => t
    else t
  let t := if c = .sfr Reg.T2M1 then
      match Bank.select t.t2msel with
      | some b =>
        -- A write of the count of a timer that runs starts the delta mode.
        let t := if b = .count ∧ t.run then { t with mode := 1 } else t
        t.setValue b (v <<< 8 + st.mem (.sfr Reg.T2M0))
      | none => t
    else t
  let t := if c = .sfr Reg.T2MOVF0 then t.writeOVF 0 v else t
  let t := if c = .sfr Reg.T2MOVF1 then t.writeOVF 1 v else t
  let t := if c = .sfr Reg.T2MOVF2 then t.writeOVF 2 v else t
  { st with hw := t }

/-- What a read of `T2MOVF0`, `T2MOVF1` or `T2MOVF2` returns: the `char` is made a `t_mem`. -/
def readOVF (t : MacTimer) (i : Fin 3) (default : TMem) : TMem :=
  match Bank.select t.t2movfsel with
  | some b => (t.OVF b i).signExtend 16
  | none => default

/-- `read`. -/
def read (c : Site) (st : ElementSt MacTimer) : TMem :=
  let t := st.hw
  if c = .sfr Reg.T2M0 then
    match Bank.select t.t2msel with
    | some b => t.value b &&& 0xFF
    | none => st.mem c
  else if c = .sfr Reg.T2M1 then
    match Bank.select t.t2msel with
    | some b => t.value b >>> 8 &&& 0xFF
    | none => st.mem c
  else if c = .sfr Reg.T2MOVF0 then t.readOVF 0 (st.mem c)
  else if c = .sfr Reg.T2MOVF1 then t.readOVF 1 (st.mem c)
  else if c = .sfr Reg.T2MOVF2 then t.readOVF 2 (st.mem c)
  else st.mem c

/-- The cells that `init` registers. -/
def registered : List Site :=
  [.sfr Reg.T2CTRL, .sfr Reg.T2EVTCFG, .sfr Reg.T2MSEL, .sfr Reg.T2M0, .sfr Reg.T2M1, .sfr Reg.IRCON,
    .sfr Reg.T2IRQF, .sfr Reg.T2MOVF0, .sfr Reg.T2MOVF1, .sfr Reg.T2MOVF2, .sfr Reg.CLKCONCMD,
    .cell .xram Reg.CSPT, .sfr 0x94, .sfr 0xc1, .sfr 0xc2]

/-- The timer as an element of the board. -/
def element : Element MacTimer where
  cathegory := .macTimer
  registered := registered
  read := read
  write := write
  registered_core := by decide
  registered_code := by decide
  write_bytes _ _ _ h := h

/-! ## The banks -/

/-- The registers that the banks are read and written with. -/
inductive BankReg
  | T2MSEL
  | T2M0
  | T2M1
  | T2MOVF (i : Fin 3)
  deriving DecidableEq, Repr

/-- The cell of a register. -/
def BankReg.site : BankReg → Site
  | .T2MSEL => .sfr Reg.T2MSEL
  | .T2M0 => .sfr Reg.T2M0
  | .T2M1 => .sfr Reg.T2M1
  | .T2MOVF i => .sfr (Reg.T2MOVF0 + i)

/-- Bytes are written to the registers. -/
def writes (ws : List (BankReg × TMem)) (st : ElementSt MacTimer) : ElementSt MacTimer :=
  element.writeRegs (ws.map fun w => (w.1.site, w.2)) st

/-- What a write does to the timer. -/
def bankWrite (t : MacTimer) (t2m0 : TMem) : BankReg → TMem → MacTimer
  | .T2MSEL, v => { t with t2movfsel := v >>> 4 &&& 0x07, t2msel := v &&& 0x07 }
  | .T2M0, v =>
    match Bank.select t.t2msel with
    | some b => t.setValue b v
    | none => t
  | .T2M1, v =>
    match Bank.select t.t2msel with
    | some b =>
      (if b = .count ∧ t.run then { t with mode := 1 } else t).setValue b (v <<< 8 + t2m0)
    | none => t
  | .T2MOVF i, v => t.writeOVF i v

theorem operators_site (r : BankReg) : element.operators r.site = 1 := by
  cases r with
  | T2MOVF i => fin_cases i <;> decide
  | _ => decide

/-- Each register is written by one branch of `write`. -/
theorem writeReg_site (r : BankReg) (v : TMem) (st : ElementSt MacTimer) :
    element.writeReg r.site v st
      = { mem := Function.update st.mem r.site (v &&& 0xff),
          hw := bankWrite st.hw (st.mem (.sfr Reg.T2M0)) r v } := by
  have hcalls : element.calls r.site v (element.operators r.site) st = write r.site v st := by
    rw [operators_site]
    rfl
  rw [Element.writeReg, hcalls]
  cases r with
  | T2MOVF i => fin_cases i <;> rfl
  | _ => rfl

/-- What the banks are for: every selector has registers of its own, which keep the last byte written
to them. The fields `t2msel` and `t2movfsel` are the selectors in force. -/
structure Banks where
  t2msel : TMem
  t2movfsel : TMem
  T2M0 : Bank → TMem
  T2M1 : Bank → TMem
  T2MOVF : Bank → Fin 3 → TMem

/-- A byte is written to a register. -/
def Banks.write (s : Banks) : BankReg × TMem → Banks
  | (.T2MSEL, v) => { s with t2msel := v &&& 0x07, t2movfsel := v >>> 4 &&& 0x07 }
  | (.T2M0, v) =>
    match Bank.select s.t2msel with
    | some b => { s with T2M0 := Function.update s.T2M0 b (v &&& 0xff) }
    | none => s
  | (.T2M1, v) =>
    match Bank.select s.t2msel with
    | some b => { s with T2M1 := Function.update s.T2M1 b (v &&& 0xff) }
    | none => s
  | (.T2MOVF i, v) =>
    match Bank.select s.t2movfsel with
    | some b =>
      { s with T2MOVF := Function.update s.T2MOVF b (Function.update (s.T2MOVF b) i (v &&& 0xff)) }
    | none => s

/-- The registers read as `s` says under the selectors in force. -/
def ReadsAs (s : Banks) (st : ElementSt MacTimer) : Prop :=
  (∀ b, Bank.select st.hw.t2msel = some b →
    element.readReg BankReg.T2M0.site st = s.T2M0 b ∧
      element.readReg BankReg.T2M1.site st = s.T2M1 b) ∧
  ∀ b, Bank.select st.hw.t2movfsel = some b →
    ∀ i, element.readReg (BankReg.T2MOVF i).site st = s.T2MOVF b i

/-- The registers read as `s` says, under the selectors in force and under any that are written next. -/
structure Shows (s : Banks) (st : ElementSt MacTimer) : Prop where
  t2msel : st.hw.t2msel = s.t2msel
  t2movfsel : st.hw.t2movfsel = s.t2movfsel
  now : ReadsAs s st
  next : ∀ v, ReadsAs s (element.writeReg BankReg.T2MSEL.site v st)

/-- The condition on a write: it leaves the other byte of the register as it reads. A write of `T2M0`
assigns all sixteen bits, and a write of `T2M1` takes the low byte from the cell `T2M0`. An overflow
byte is made a `t_mem` with its sign. -/
def Separate (w : BankReg × TMem) (st : ElementSt MacTimer) : Prop :=
  match w.1 with
  | .T2MSEL => True
  | .T2M0 => ∀ b, Bank.select st.hw.t2msel = some b → w.2 >>> 8 = st.hw.value b >>> 8
  | .T2M1 => ∀ b, Bank.select st.hw.t2msel = some b →
      st.mem (.sfr Reg.T2M0) = st.hw.value b &&& 0xff
  | .T2MOVF _ => ∀ b, Bank.select st.hw.t2movfsel = some b → (w.2.setWidth 8).msb = false

/-- The fields of the timer are what `s` says. -/
structure Agrees (s : Banks) (t : MacTimer) : Prop where
  t2msel : t.t2msel = s.t2msel
  t2movfsel : t.t2movfsel = s.t2movfsel
  low : ∀ b, t.value b &&& 0xff = s.T2M0 b
  high : ∀ b, t.value b >>> 8 = s.T2M1 b
  ovf : ∀ b i, (t.OVF b i).signExtend 16 = s.T2MOVF b i

variable {s : Banks} {st : ElementSt MacTimer}

theorem high_and (x : BitVec 16) : x >>> 8 &&& (0xff : BitVec 16) = x >>> 8 := by
  apply byte_and
  rw [toNat_high]
  omega

theorem readReg_T2M0 {b : Bank} (h : Bank.select st.hw.t2msel = some b) :
    element.readReg BankReg.T2M0.site st = st.hw.value b &&& 0xff := by
  rw [Element.readReg, if_neg (by rw [operators_site]; decide)]
  change MacTimer.read (.sfr Reg.T2M0) st = _
  rw [MacTimer.read, if_pos rfl, h]

theorem readReg_T2M1 {b : Bank} (h : Bank.select st.hw.t2msel = some b) :
    element.readReg BankReg.T2M1.site st = st.hw.value b >>> 8 := by
  rw [Element.readReg, if_neg (by rw [operators_site]; decide), ← high_and]
  change MacTimer.read (.sfr Reg.T2M1) st = _
  rw [MacTimer.read, if_neg (by decide), if_pos rfl, h]

theorem readReg_T2MOVF {b : Bank} (h : Bank.select st.hw.t2movfsel = some b) (i : Fin 3) :
    element.readReg (BankReg.T2MOVF i).site st = (st.hw.OVF b i).signExtend 16 := by
  rw [Element.readReg, if_neg (by rw [operators_site]; decide)]
  have hovf : ∀ v, st.hw.readOVF i v = (st.hw.OVF b i).signExtend 16 := fun v => by
    rw [readOVF, h]
  rw [← hovf (st.mem (BankReg.T2MOVF i).site)]
  fin_cases i <;> rfl

/-- Every bank can be selected. -/
theorem exists_select (b b' : Bank) :
    ∃ v : TMem, Bank.select (v &&& 0x07) = some b ∧ Bank.select (v >>> 4 &&& 0x07) = some b' := by
  refine ⟨b.sel ||| b'.sel <<< 4, ?_⟩
  cases b <;> cases b' <;> decide

theorem readsAs_of_agrees (h : Agrees s st.hw) : ReadsAs s st := by
  refine ⟨fun b hb => ⟨?_, ?_⟩, fun b hb i => ?_⟩
  · rw [readReg_T2M0 hb, h.low]
  · rw [readReg_T2M1 hb, h.high]
  · rw [readReg_T2MOVF hb, h.ovf]

/-- What the registers read as under all selectors is what the fields are. -/
theorem shows_iff : Shows s st ↔ Agrees s st.hw := by
  constructor
  · intro h
    have hsel : ∀ b b', ∃ v, ReadsAs s (element.writeReg BankReg.T2MSEL.site v st) ∧
        Bank.select (element.writeReg BankReg.T2MSEL.site v st).hw.t2msel = some b ∧
        Bank.select (element.writeReg BankReg.T2MSEL.site v st).hw.t2movfsel = some b' ∧
        (element.writeReg BankReg.T2MSEL.site v st).hw.value = st.hw.value ∧
        (element.writeReg BankReg.T2MSEL.site v st).hw.OVF = st.hw.OVF := by
      intro b b'
      obtain ⟨v, hv, hv'⟩ := exists_select b b'
      refine ⟨v, h.next v, ?_⟩
      rw [writeReg_site]
      exact ⟨hv, hv', rfl, rfl⟩
    refine ⟨h.t2msel, h.t2movfsel, fun b => ?_, fun b => ?_, fun b i => ?_⟩
    · obtain ⟨v, hreads, hb, -, hvalue, -⟩ := hsel b b
      rw [← (hreads.1 b hb).1, readReg_T2M0 hb, hvalue]
    · obtain ⟨v, hreads, hb, -, hvalue, -⟩ := hsel b b
      rw [← (hreads.1 b hb).2, readReg_T2M1 hb, hvalue]
    · obtain ⟨v, hreads, -, hb, -, hovf⟩ := hsel b b
      rw [← hreads.2 b hb i, readReg_T2MOVF hb, hovf]
  · intro h
    refine ⟨h.t2msel, h.t2movfsel, readsAs_of_agrees h, fun v => ?_⟩
    -- The banks do not depend on the selectors in force.
    have hreads : ReadsAs (s.write (.T2MSEL, v)) (element.writeReg BankReg.T2MSEL.site v st) := by
      apply readsAs_of_agrees
      rw [writeReg_site]
      exact ⟨rfl, rfl, h.low, h.high, h.ovf⟩
    exact hreads

/-! ### One write -/

/-- Assigning to the register of a bank. -/
theorem agrees_setValue {t : MacTimer} {b : Bank} {v lo hi : TMem} {s' : Banks}
    (h : Agrees s t) (hmsel : s'.t2msel = s.t2msel) (hmovfsel : s'.t2movfsel = s.t2movfsel)
    (hlo : s'.T2M0 = Function.update s.T2M0 b lo) (hhi : s'.T2M1 = Function.update s.T2M1 b hi)
    (hovf : s'.T2MOVF = s.T2MOVF) :
    Agrees s' (t.setValue b v) ↔ v &&& 0xff = lo ∧ v >>> 8 = hi := by
  constructor
  · intro h'
    have hlow := h'.low b
    have hhigh := h'.high b
    rw [hlo, Function.update_self] at hlow
    rw [hhi, Function.update_self] at hhigh
    rw [setValue_value, Function.update_self] at hlow hhigh
    exact ⟨hlow, hhigh⟩
  · rintro ⟨rfl, rfl⟩
    refine ⟨h.t2msel.trans hmsel.symm, h.t2movfsel.trans hmovfsel.symm, fun b' => ?_, fun b' => ?_,
      fun b' i => ?_⟩
    · rw [hlo, setValue_value]
      by_cases hb : b' = b
      · rw [hb, Function.update_self, Function.update_self]
      · rw [Function.update_of_ne hb, Function.update_of_ne hb, h.low]
    · rw [hhi, setValue_value]
      by_cases hb : b' = b
      · rw [hb, Function.update_self, Function.update_self]
      · rw [Function.update_of_ne hb, Function.update_of_ne hb, h.high]
    · rw [hovf]
      exact h.ovf b' i

/-- The two bytes that a write of `T2M1` puts together. -/
theorem low_join (v : TMem) {m : TMem} (hm : m.toNat < 0x100) : v <<< 8 + m &&& 0xff = m := by
  apply BitVec.eq_of_toNat_eq
  rw [toNat_low, BitVec.toNat_add, BitVec.toNat_shiftLeft, Nat.shiftLeft_eq]
  omega

theorem high_join (v : TMem) {m : TMem} (hm : m.toNat < 0x100) :
    (v <<< 8 + m) >>> 8 = v &&& 0xff := by
  apply BitVec.eq_of_toNat_eq
  rw [toNat_high, toNat_low, BitVec.toNat_add, BitVec.toNat_shiftLeft, Nat.shiftLeft_eq]
  omega

/-- A `char` is made a `t_mem` with its sign. -/
theorem signExtend_low_iff (v : TMem) :
    (v.setWidth 8).signExtend 16 = v &&& 0xff ↔ (v.setWidth 8).msb = false := by
  rw [← BitVec.toNat_inj, BitVec.toNat_signExtend, toNat_low, BitVec.toNat_setWidth,
    BitVec.toNat_setWidth]
  cases (v.setWidth 8).msb with
  | false =>
    simp
    omega
  | true =>
    simp
    omega

/-- Assigning to an overflow byte of a bank. -/
theorem agrees_setOVF {t : MacTimer} (h : Agrees s t) (b : Bank) (i : Fin 3) (v : TMem) :
    Agrees
        { s with T2MOVF := Function.update s.T2MOVF b (Function.update (s.T2MOVF b) i (v &&& 0xff)) }
        (t.setOVF b i v) ↔
      (v.setWidth 8).msb = false := by
  rw [← signExtend_low_iff]
  constructor
  · intro h'
    have hovf := h'.ovf b i
    rw [setOVF] at hovf
    simpa only [Function.update_self] using hovf
  · intro hv
    refine ⟨h.t2msel, h.t2movfsel, h.low, h.high, fun b' i' => ?_⟩
    rw [setOVF]
    by_cases hb : b' = b
    · subst hb
      by_cases hi : i' = i
      · simpa only [hi, Function.update_self] using hv
      · simpa only [Function.update_self, Function.update_of_ne hi] using h.ovf b' i'
    · simpa only [Function.update_of_ne hb] using h.ovf b' i'

/-- A write keeps the banks as they should be when it meets the condition, and only then. -/
theorem agrees_bankWrite (h : Agrees s st.hw) (hbytes : IsBytes st.mem) (r : BankReg) (v : TMem) :
    Agrees (s.write (r, v)) (bankWrite st.hw (st.mem (.sfr Reg.T2M0)) r v) ↔ Separate (r, v) st := by
  have hsel : Bank.select st.hw.t2msel = Bank.select s.t2msel := by rw [h.t2msel]
  cases r with
  | T2MSEL => exact iff_of_true ⟨rfl, rfl, h.low, h.high, h.ovf⟩ trivial
  | T2M0 =>
    rw [Banks.write, bankWrite, Separate, hsel]
    cases Bank.select s.t2msel with
    | none => simpa using h
    | some b =>
      dsimp only
      have hhigh : s.T2M1 = Function.update s.T2M1 b (st.hw.value b >>> 8) := by
        rw [h.high, Function.update_eq_self]
      have hiff : v &&& 0xff = v &&& 0xff ∧ v >>> 8 = st.hw.value b >>> 8 ↔
          ∀ b', some b = some b' → v >>> 8 = st.hw.value b' >>> 8 := by simp
      refine Iff.trans ?_ hiff
      exact agrees_setValue h rfl rfl rfl hhigh rfl
  | T2M1 =>
    rw [Banks.write, bankWrite, Separate, hsel]
    cases Bank.select s.t2msel with
    | none => simpa using h
    | some b =>
      dsimp only
      have hlow : s.T2M0 = Function.update s.T2M0 b (st.hw.value b &&& 0xff) := by
        rw [h.low, Function.update_eq_self]
      have hrun : Agrees s (if b = .count ∧ st.hw.run then { st.hw with mode := 1 } else st.hw) := by
        split
        · exact ⟨h.t2msel, h.t2movfsel, h.low, h.high, h.ovf⟩
        · exact h
      have hiff : v <<< 8 + st.mem (.sfr Reg.T2M0) &&& 0xff = st.hw.value b &&& 0xff ∧
            (v <<< 8 + st.mem (.sfr Reg.T2M0)) >>> 8 = v &&& 0xff ↔
          ∀ b', some b = some b' → st.mem (.sfr Reg.T2M0) = st.hw.value b' &&& 0xff := by
        rw [low_join v (hbytes _), high_join v (hbytes _)]
        simp
      refine Iff.trans ?_ hiff
      exact agrees_setValue (s := s) hrun rfl rfl hlow rfl rfl
  | T2MOVF i =>
    rw [Banks.write, bankWrite, writeOVF, Separate, h.t2movfsel]
    cases Bank.select s.t2movfsel with
    | none => simpa using h
    | some b =>
      dsimp only
      refine (agrees_setOVF h b i v).trans ?_
      simp

theorem shows_write (h : Shows s st) (hbytes : IsBytes st.mem) (w : BankReg × TMem) :
    Shows (s.write w) (element.writeReg w.1.site w.2 st) ↔ Separate w st := by
  rw [shows_iff, writeReg_site]
  exact agrees_bankWrite (shows_iff.mp h) hbytes w.1 w.2

/-! ### Runs -/

theorem writes_eq (ws : List (BankReg × TMem)) (st : ElementSt MacTimer) :
    writes ws st = ws.foldl (fun st w => element.writeReg w.1.site w.2 st) st := List.foldl_map

theorem isBytes_writeReg (hbytes : IsBytes st.mem) (w : BankReg × TMem) :
    IsBytes (element.writeReg w.1.site w.2 st).mem := by
  rw [writeReg_site]
  exact isBytes_update hbytes _ (and_lt_byte w.2)

/-- Bytes are written to the registers in any order, under any selectors: after every write each
register reads, under each selector, as the byte last written to it, provided that every write leaves
the other byte of its register as it reads, and only then. -/
theorem bankedRegisters_iff (hbytes : IsBytes st.mem) (h : Shows s st) (ws : List (BankReg × TMem)) :
    (∀ l, l <+: ws → Shows (l.foldl Banks.write s) (writes l st)) ↔
      ∀ l w, l ++ [w] <+: ws → Separate w (writes l st) := by
  simp only [writes_eq]
  have hstep : ∀ (s : Banks) (st : ElementSt MacTimer) (w : BankReg × TMem), IsBytes st.mem → Shows s st →
      (Shows (s.write w) (element.writeReg w.1.site w.2 st) ↔ Separate w st) :=
    fun _ _ w hst hs => shows_write hs hst w
  exact agree_on_prefixes_iff (fun _ w hst => isBytes_writeReg hst w) hstep hbytes h ws

/-- The timer after `reset`, on an empty memory. -/
def resetSt : ElementSt MacTimer := { mem := fun _ => 0, hw := reset }

/-- All the registers read as zero. -/
def Banks.zero : Banks where
  t2msel := 0
  t2movfsel := 0
  T2M0 _ := 0
  T2M1 _ := 0
  T2MOVF _ _ := 0

theorem shows_resetSt : Shows Banks.zero resetSt :=
  shows_iff.mpr ⟨rfl, rfl, fun _ => (by decide : (0 : BitVec 16) &&& 0xff = 0),
    fun _ => (by decide : (0 : BitVec 16) >>> 8 = 0),
    fun _ _ => (by decide : (0 : BitVec 8).signExtend 16 = 0)⟩

/-- The low byte and then the high byte of the period. -/
theorem bankedRegisters_period :
    Shows ([(.T2MSEL, 2), (.T2M0, 0x34), (.T2M1, 0x12)].foldl Banks.write Banks.zero)
      (writes [(.T2MSEL, 2), (.T2M0, 0x34), (.T2M1, 0x12)] resetSt) := by
  have hbytes : IsBytes resetSt.mem := fun _ => Nat.zero_lt_succ _
  refine (bankedRegisters_iff hbytes shows_resetSt _).mpr ?_ _ (List.prefix_refl _)
  intro l w hl
  rcases l with _ | ⟨x, _ | ⟨y, _ | ⟨z, l⟩⟩⟩
  · obtain rfl : w = (.T2MSEL, 2) := by simpa using hl
    trivial
  · obtain ⟨rfl, rfl⟩ : x = (.T2MSEL, 2) ∧ w = (.T2M0, 0x34) := by simpa using hl
    intro b hb
    obtain rfl : Bank.per = b := Option.some.inj hb
    rfl
  · obtain ⟨rfl, rfl, rfl⟩ : x = (.T2MSEL, 2) ∧ y = (.T2M0, 0x34) ∧ w = (.T2M1, 0x12) := by
      simpa using hl
    intro b hb
    obtain rfl : Bank.per = b := Option.some.inj hb
    rfl
  · simp at hl

/-- The capture register is written between the two bytes of the count: `T2M0` reads 2 where 1 was
written. -/
theorem not_bankedRegisters :
    ¬ ∀ (s : Banks) (st : ElementSt MacTimer), IsBytes st.mem → Shows s st →
      ∀ ws, Shows (ws.foldl Banks.write s) (writes ws st) := by
  intro h
  have hbytes : IsBytes resetSt.mem := fun _ => Nat.zero_lt_succ _
  have hshows := h Banks.zero resetSt hbytes shows_resetSt
    [(.T2MSEL, 0), (.T2M0, 1), (.T2MSEL, 1), (.T2M0, 2), (.T2MSEL, 0), (.T2M1, 3)]
  have hread := (hshows.now.1 .count rfl).1
  revert hread
  decide

end MacTimer

end Ucsim.S51
