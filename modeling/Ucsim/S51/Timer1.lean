import Mathlib.Tactic.FinCases
import Mathlib.Tactic.IntervalCases
import Ucsim.Logic.Run
import Ucsim.S51.CcTimer

/-!
# Timer 1

Its write callback serves all of its registers and remembers in `channelID` and `high` which byte of
which compare value is written.
-/

namespace Ucsim.S51

open Logic

namespace Timer1

open CcTimer

/-- The cell of `RegCMPL`. -/
def regCMPL : Fin 5 → Site
  | 0 => .sfr Reg.T1CC0L
  | 1 => .sfr Reg.T1CC1L
  | 2 => .sfr Reg.T1CC2L
  | 3 => .cell .xram Reg.T1CC3L
  | 4 => .cell .xram Reg.T1CC4L

/-- The cell of `RegCMPH`. -/
def regCMPH : Fin 5 → Site
  | 0 => .sfr Reg.T1CC0H
  | 1 => .sfr Reg.T1CC1H
  | 2 => .sfr Reg.T1CC2H
  | 3 => .cell .xram Reg.T1CC3H
  | 4 => .cell .xram Reg.T1CC4H

/-- What `init` sets up. The schedule looks backwards for the channels 0 to 2 only, and only they may
replace -1. -/
def wiring : Wiring 16 where
  channels := [0, 1, 2, 3, 4]
  cell_txctl := .sfr Reg.T1CTL
  cell_OvfMaskReg := .sfr Reg.TIMIF
  cell_OvfFlagReg := .sfr Reg.T1STAT
  cell_FlagReg := .sfr Reg.T1STAT
  cell_tl := .sfr Reg.T1CNTL
  cell_th := some (.sfr Reg.T1CNTH)
  OVFMaskMask := 0x40
  OVFIFMask := 0x20
  IrconFlag := 0x02
  regCTL
    | 0 => .sfr Reg.T1CCTL0
    | 1 => .sfr Reg.T1CCTL1
    | 2 => .sfr Reg.T1CCTL2
    | 3 => .cell .xram Reg.T1CCTL3
    | 4 => .cell .xram Reg.T1CCTL4
  countMode t :=
    if t.mode = 1 then .freeRunning else if t.mode = 2 then .modulo else if t.mode = 3 then .upDown
    else .stop
  down i t := i < 3 ∧ t.mode = 3 ∧ t.up_down
  first i := i < 3
  flag i := 1 <<< i.val
  request i := 3 ≤ i

/-- The channel and the half that a compare register selects: the chain of `if`s in `write`. -/
def selected (c : Site) : Option (Fin 5 × Bool) :=
  if c = .sfr Reg.T1CC0H then some (0, true)
  else if c = .sfr Reg.T1CC0L then some (0, false)
  else if c = .sfr Reg.T1CC1H then some (1, true)
  else if c = .sfr Reg.T1CC1L then some (1, false)
  else if c = .sfr Reg.T1CC2H then some (2, true)
  else if c = .sfr Reg.T1CC2L then some (2, false)
  else if c = .cell .xram Reg.T1CC3H then some (3, true)
  else if c = .cell .xram Reg.T1CC3L then some (3, false)
  else if c = .cell .xram Reg.T1CC4H then some (4, true)
  else if c = .cell .xram Reg.T1CC4L then some (4, false)
  else none

/-- The compare value is assigned, whatever the register. -/
def setValRegCMP (t : CcTimer 16) (v : TMem) : CcTimer 16 :=
  let val := t.ValRegCMP t.channelID
  let val := if t.high then (val &&& (0xFF : TMem)) + v <<< 8 else (val &&& (0xFF00 : TMem)) + v
  { t with ValRegCMP := Function.update t.ValRegCMP t.channelID val }

/-- `write`. -/
def write (c : Site) (v : TMem) (st : CcSt 16) : CcSt 16 :=
  let st := baseWrite wiring c v st
  let t := if c = .sfr Reg.T1CTL then
      { st.hw with prescale :=
          if (v &&& bmDIV) >>> 2 ≠ 0 then 1 <<< (1 + ((v &&& bmDIV) >>> 1).toNat) else 1 }
    else st.hw
  let mem := if c = .sfr Reg.T1CC0H then
      Function.update (Function.update st.mem (.sfr Reg.T1STAT) (st.mem (.sfr Reg.T1STAT) ||| 1))
        (.sfr Reg.IRCON) (st.mem (.sfr Reg.IRCON) ||| wiring.IrconFlag)
    else st.mem
  let t := match selected c with
    | some (channelID, high) => { t with channelID := channelID, high := high }
    | none => t
  getNextCcEvent wiring { mem := mem, hw := setValRegCMP t v }

/-- The cells that the constructor of the template and `init` register. -/
def registered : List Site :=
  [.sfr Reg.CLKCONCMD, .sfr Reg.IRCON, .sfr Reg.T1STAT, .sfr Reg.T1CTL, .sfr Reg.T1CC0H, .sfr Reg.T1CC0L,
    .sfr Reg.T1CC1H, .sfr Reg.T1CC1L, .sfr Reg.T1CC2H, .sfr Reg.T1CC2L, .cell .xram Reg.T1CC3H,
    .cell .xram Reg.T1CC3L, .cell .xram Reg.T1CC4H, .cell .xram Reg.T1CC4L, .sfr Reg.TIMIF,
    .sfr Reg.T1STAT, .sfr Reg.T1STAT]

theorem write_mem (c : Site) (v : TMem) (st : CcSt 16) :
    (write c v st).mem
      = if c = .sfr Reg.T1CC0H then
          Function.update (Function.update st.mem (.sfr Reg.T1STAT) (st.mem (.sfr Reg.T1STAT) ||| 1))
            (.sfr Reg.IRCON) (st.mem (.sfr Reg.IRCON) ||| 0x02)
        else st.mem := by
  have hbase : (baseWrite wiring c v st).mem = st.mem := by
    rw [baseWrite]
    split <;> rfl
  rw [write, getNextCcEvent, hbase]
  rfl

/-- Timer 1 as an element of the board. The template and the timer have no `read`. -/
def element : Element (CcTimer 16) where
  cathegory := .timer
  registered := registered
  read c st := st.mem c
  write := write
  registered_core := by decide
  registered_code := by decide
  write_bytes c v st h := by
    rw [write_mem]
    split
    · exact isBytes_update (isBytes_update h _ (or_lt_byte (h _) (by decide))) _
        (or_lt_byte (h _) (by decide))
    · exact h

/-- What a capture writes: both halves of the count. -/
def store (i : Fin 5) (st : CcSt 16) : CcSt 16 :=
  let count := st.hw.count
  element.writeReg (regCMPL i) (count &&& 0xFF)
    (element.writeReg (regCMPH i) (count.sshiftRight 8) st)

/-! ## The compare values -/

/-- The registers that are written. -/
inductive Register
  | T1CTL
  | CLKCONCMD
  | T1STAT
  | TIMIF
  | IRCON
  | T1CCL (n : Fin 5)
  | T1CCH (n : Fin 5)
  deriving DecidableEq, Repr

/-- The cell of a register. -/
def Register.site : Register → Site
  | .T1CTL => .sfr Reg.T1CTL
  | .CLKCONCMD => .sfr Reg.CLKCONCMD
  | .T1STAT => .sfr Reg.T1STAT
  | .TIMIF => .sfr Reg.TIMIF
  | .IRCON => .sfr Reg.IRCON
  | .T1CCL n => regCMPL n
  | .T1CCH n => regCMPH n

/-- Bytes are written to the registers. -/
def writes (ws : List (Register × TMem)) (st : CcSt 16) : CcSt 16 :=
  element.writeRegs (ws.map fun w => (w.1.site, w.2)) st

/-- What the compare registers are for: each of them keeps the last byte written to it. -/
structure CompareBytes where
  high : Fin 5 → UChar
  low : Fin 5 → UChar

/-- A byte is written to a register. -/
def CompareBytes.write (s : CompareBytes) : Register × TMem → CompareBytes
  | (.T1CCL n, v) => { s with low := Function.update s.low n (v.setWidth 8) }
  | (.T1CCH n, v) => { s with high := Function.update s.high n (v.setWidth 8) }
  | _ => s

/-- The compare values are made of the bytes. -/
def Shows (s : CompareBytes) (st : CcSt 16) : Prop :=
  ∀ n, st.hw.ValRegCMP n = s.high n ++ s.low n

/-- A write writes the half of the compare value that is selected again with the byte it has. -/
def Rewrites (v : TMem) (t : CcTimer 16) : Prop :=
  if t.high then v &&& (0xff : TMem) = t.ValRegCMP t.channelID >>> 8
  else v = t.ValRegCMP t.channelID &&& (0xff : TMem)

/-- The condition on a write: a low half is written with a byte, and a register that is no half of a
compare value leaves the half selected last as it is. -/
def Separate (w : Register × TMem) (st : CcSt 16) : Prop :=
  match w.1 with
  | .T1CCH _ => True
  | .T1CCL _ => w.2.toNat < 0x100
  | .T1CTL | .CLKCONCMD | .T1STAT | .TIMIF | .IRCON => Rewrites w.2 st.hw

/-! ### One write -/

/-- The half of a compare value that a write assigns: that of its cell, or the one selected last. -/
def half (c : Site) (t : CcTimer 16) : Fin 5 × Bool := (selected c).getD (t.channelID, t.high)

/-- The compare value after its high or low half is assigned. -/
def assign (high : Bool) (v val : TMem) : TMem :=
  if high then (val &&& (0xFF : TMem)) + v <<< 8 else (val &&& (0xFF00 : TMem)) + v

/-- The template's part of a write leaves them alone. -/
theorem baseWrite_fields (c : Site) (v : TMem) (st : CcSt 16) :
    (baseWrite wiring c v st).hw.ValRegCMP = st.hw.ValRegCMP ∧
      (baseWrite wiring c v st).hw.channelID = st.hw.channelID ∧
      (baseWrite wiring c v st).hw.high = st.hw.high := by
  rw [baseWrite]
  split
  · exact ⟨rfl, rfl, rfl⟩
  · exact ⟨rfl, rfl, rfl⟩

/-- What a write does to the compare values and the selection. -/
theorem write_fields (c : Site) (v : TMem) (st : CcSt 16) :
    (write c v st).hw.ValRegCMP
        = Function.update st.hw.ValRegCMP (half c st.hw).1
            (assign (half c st.hw).2 v (st.hw.ValRegCMP (half c st.hw).1)) ∧
      half c (write c v st).hw = half c st.hw := by
  obtain ⟨hval, hch, hhigh⟩ := baseWrite_fields c v st
  rw [write, half, half]
  generalize baseWrite wiring c v st = st₁ at hval hch hhigh
  have ht : ∀ t : CcTimer 16, t = (if c = .sfr Reg.T1CTL then
      { st₁.hw with prescale :=
          if (v &&& bmDIV) >>> 2 ≠ 0 then 1 <<< (1 + ((v &&& bmDIV) >>> 1).toNat) else 1 }
      else st₁.hw) → t.ValRegCMP = st.hw.ValRegCMP ∧ t.channelID = st.hw.channelID ∧ t.high = st.hw.high := by
    rintro t rfl
    split
    · exact ⟨hval, hch, hhigh⟩
    · exact ⟨hval, hch, hhigh⟩
  obtain ⟨hval', hch', hhigh'⟩ := ht _ rfl
  cases hsel : selected c with
  | none =>
    simp only [getNextCcEvent, setValRegCMP, hval', hch', hhigh', assign, Option.getD_none]
    exact ⟨trivial, trivial⟩
  | some half =>
    simp only [getNextCcEvent, setValRegCMP, hval', assign, Option.getD_some]
    exact ⟨trivial, trivial⟩

/-- The callbacks of a write assign the same half again. -/
theorem calls_fields (c : Site) (v : TMem) (n : Nat) (st : CcSt 16) :
    (element.calls c v n st).hw.ValRegCMP
      = Function.update st.hw.ValRegCMP (half c st.hw).1
          ((assign (half c st.hw).2 v)^[n] (st.hw.ValRegCMP (half c st.hw).1)) := by
  induction n generalizing st with
  | zero => exact (Function.update_eq_self _ _).symm
  | succ n ih =>
    obtain ⟨hval, hhalf⟩ := write_fields c v st
    rw [Element.calls]
    refine (ih (write c v st)).trans ?_
    rw [hhalf, hval, Function.update_self, Function.update_idem, Function.iterate_succ_apply]

/-! ### The arithmetic of the halves -/

theorem toNat_mask_high (x : TMem) : (x &&& 0xFF00).toNat = x.toNat / 256 * 256 := by
  have hmask : x &&& (0xFF00 : TMem) = x >>> 8 <<< 8 := by
    ext i hi
    simp only [BitVec.getElem_and, BitVec.getElem_shiftLeft]
    interval_cases i <;> simp [BitVec.getLsbD_eq_getElem]
  have hlt := x.isLt
  rw [hmask, BitVec.toNat_shiftLeft, toNat_high, Nat.shiftLeft_eq]
  omega

theorem toNat_assign_high (v x : TMem) :
    (assign true v x).toNat = v.toNat % 256 * 256 + x.toNat % 256 := by
  rw [assign, if_pos rfl, BitVec.toNat_add, toNat_low, BitVec.toNat_shiftLeft, Nat.shiftLeft_eq]
  omega

theorem toNat_assign_low (v x : TMem) :
    (assign false v x).toNat = (x.toNat / 256 * 256 + v.toNat) % 65536 := by
  rw [assign, if_neg Bool.false_ne_true, BitVec.toNat_add, toNat_mask_high]

theorem toNat_append (h l : UChar) : (h ++ l : TMem).toNat = h.toNat * 256 + l.toNat := by
  rw [BitVec.toNat_append, ← Nat.shiftLeft_add_eq_or_of_lt l.isLt, Nat.shiftLeft_eq]

/-- A high half is always written right. -/
theorem assign_high (v : TMem) (h l : UChar) : assign true v (h ++ l) = v.setWidth 8 ++ l := by
  have hl := l.isLt
  apply BitVec.eq_of_toNat_eq
  rw [toNat_assign_high, toNat_append, toNat_append, BitVec.toNat_setWidth]
  omega

/-- A low half is written right when it is a byte. -/
theorem assign_low_iff (v : TMem) (h l : UChar) :
    assign false v (h ++ l) = h ++ v.setWidth 8 ↔ v.toNat < 0x100 := by
  have hl := l.isLt
  have hh := h.isLt
  have hv := v.isLt
  rw [← BitVec.toNat_inj, toNat_assign_low, toNat_append, toNat_append, BitVec.toNat_setWidth]
  omega

/-- A half stays as it is when it is written again, once or three times. -/
theorem iterate_assign_iff {n : Nat} (hn : n = 1 ∨ n = 3) (high : Bool) (v x : TMem) :
    (assign high v)^[n] x = x ↔
      if high then v &&& (0xff : TMem) = x >>> 8 else v = x &&& (0xff : TMem) := by
  have hv := v.isLt
  have hx := x.isLt
  cases high with
  | true =>
    rw [if_pos rfl, ← BitVec.toNat_inj, ← BitVec.toNat_inj, toNat_low, toNat_high]
    rcases hn with rfl | rfl
    · rw [Function.iterate_one, toNat_assign_high]
      omega
    · simp only [Function.iterate_succ_apply, Function.iterate_zero_apply, toNat_assign_high]
      omega
  | false =>
    rw [if_neg Bool.false_ne_true, ← BitVec.toNat_inj, ← BitVec.toNat_inj, toNat_low]
    rcases hn with rfl | rfl
    · rw [Function.iterate_one, toNat_assign_low]
      omega
    · simp only [Function.iterate_succ_apply, Function.iterate_zero_apply, toNat_assign_low]
      omega

/-! ### Runs -/

variable {s s' : CompareBytes} {st st' : CcSt 16}

/-- One compare value is assigned, and the bytes of the others stay. -/
theorem shows_update_iff (h : Shows s st) {n : Fin 5} {val : TMem}
    (hval : st'.hw.ValRegCMP = Function.update st.hw.ValRegCMP n val)
    (hothers : ∀ m, m ≠ n → s'.high m = s.high m ∧ s'.low m = s.low m) :
    Shows s' st' ↔ val = s'.high n ++ s'.low n := by
  constructor
  · intro h'
    rw [← h' n, hval, Function.update_self]
  · intro hn m
    rw [hval]
    by_cases hm : m = n
    · rw [hm, Function.update_self, hn]
    · rw [Function.update_of_ne hm, (hothers m hm).1, (hothers m hm).2]
      exact h m

theorem writeReg_fields (c : Site) (v : TMem) (st : CcSt 16) :
    (element.writeReg c v st).hw.ValRegCMP
      = Function.update st.hw.ValRegCMP (half c st.hw).1
          ((assign (half c st.hw).2 v)^[element.operators c] (st.hw.ValRegCMP (half c st.hw).1)) :=
  calls_fields c v (element.operators c) st

/-- The registers that are no halves select none. -/
theorem half_of_none {c : Site} (h : selected c = none) (t : CcTimer 16) :
    half c t = (t.channelID, t.high) := by
  rw [half, h]
  rfl

theorem selected_low (n : Fin 5) : selected (regCMPL n) = some (n, false) := by
  fin_cases n <;> decide

theorem selected_high (n : Fin 5) : selected (regCMPH n) = some (n, true) := by
  fin_cases n <;> decide

theorem operators_low (n : Fin 5) : element.operators (regCMPL n) = 1 := by
  fin_cases n <;> decide

theorem operators_high (n : Fin 5) : element.operators (regCMPH n) = 1 := by
  fin_cases n <;> decide

/-- A write of a register that is no half of a compare value. -/
theorem shows_other_iff (h : Shows s st) {c : Site} (hsel : selected c = none)
    (hops : element.operators c = 1 ∨ element.operators c = 3) (v : TMem) :
    Shows s (element.writeReg c v st) ↔ Rewrites v st.hw := by
  have hval := writeReg_fields c v st
  rw [half_of_none hsel] at hval
  rw [shows_update_iff h hval fun m _ => ⟨rfl, rfl⟩, ← h]
  exact iterate_assign_iff hops _ v _

/-- A write keeps the compare values as they should be when it meets the condition, and only then. -/
theorem shows_write (h : Shows s st) (w : Register × TMem) :
    Shows (s.write w) (element.writeReg w.1.site w.2 st) ↔ Separate w st := by
  obtain ⟨r, v⟩ := w
  dsimp only
  cases r with
  | T1CTL => exact shows_other_iff h (c := .sfr Reg.T1CTL) (by decide) (Or.inl (by decide)) v
  | CLKCONCMD => exact shows_other_iff h (c := .sfr Reg.CLKCONCMD) (by decide) (Or.inl (by decide)) v
  | T1STAT => exact shows_other_iff h (c := .sfr Reg.T1STAT) (by decide) (Or.inr (by decide)) v
  | TIMIF => exact shows_other_iff h (c := .sfr Reg.TIMIF) (by decide) (Or.inl (by decide)) v
  | IRCON => exact shows_other_iff h (c := .sfr Reg.IRCON) (by decide) (Or.inl (by decide)) v
  | T1CCL n =>
    have hval := writeReg_fields (regCMPL n) v st
    rw [operators_low, half, selected_low, Option.getD_some, Function.iterate_one] at hval
    have hothers : ∀ m, m ≠ n → (s.write (.T1CCL n, v)).high m = s.high m ∧
        (s.write (.T1CCL n, v)).low m = s.low m :=
      fun m hm => ⟨rfl, Function.update_of_ne hm _ _⟩
    refine (shows_update_iff h hval hothers).trans ?_
    dsimp only [CompareBytes.write, Separate]
    rw [Function.update_self, h n]
    exact assign_low_iff v (s.high n) (s.low n)
  | T1CCH n =>
    have hval := writeReg_fields (regCMPH n) v st
    rw [operators_high, half, selected_high, Option.getD_some, Function.iterate_one] at hval
    have hothers : ∀ m, m ≠ n → (s.write (.T1CCH n, v)).high m = s.high m ∧
        (s.write (.T1CCH n, v)).low m = s.low m :=
      fun m hm => ⟨Function.update_of_ne hm _ _, rfl⟩
    refine (shows_update_iff h hval hothers).trans ?_
    dsimp only [CompareBytes.write, Separate]
    rw [Function.update_self, h n]
    exact iff_true_intro (assign_high v (s.high n) (s.low n))

theorem writes_eq (ws : List (Register × TMem)) (st : CcSt 16) :
    writes ws st = ws.foldl (fun st w => element.writeReg w.1.site w.2 st) st := List.foldl_map

/-- Bytes are written to the registers of the timer in any order: after every write the compare values
are made of the bytes last written to the compare registers, provided that every write meets the
condition, and only then. -/
theorem compareValues_iff (h : Shows s st) (ws : List (Register × TMem)) :
    (∀ l, l <+: ws → Shows (l.foldl CompareBytes.write s) (writes l st)) ↔
      ∀ l w, l ++ [w] <+: ws → Separate w (writes l st) := by
  simp only [writes_eq]
  have hstep : ∀ (s : CompareBytes) (st : CcSt 16) (w : Register × TMem), True → Shows s st →
      (Shows (s.write w) (element.writeReg w.1.site w.2 st) ↔ Separate w st) :=
    fun _ _ w _ hs => shows_write hs w
  exact agree_on_prefixes_iff (fun _ _ _ => trivial) hstep trivial h ws

/-- The timer after `init`, on an empty memory. -/
def resetSt : CcSt 16 where
  mem _ := 0
  hw :=
    { count := 0, NextCmpEvent := 0, mode := 0, TR := 0, prescale := 1, up_down := false,
      up_down_changed := false, PinEvent := false, IOPin := fun _ => false,
      ExIOPin := fun _ => false, ValRegCMP := fun _ => 0, channelID := 0, high := false }

theorem shows_resetSt : Shows { high := fun _ => 0, low := fun _ => 0 } resetSt :=
  fun _ => (by decide : (0 : BitVec 16) = (0 : UChar) ++ (0 : UChar))

/-- The two bytes of a compare value. -/
theorem compareValues_channel :
    Shows ([(.T1CCL 1, 0x34), (.T1CCH 1, 0x12)].foldl CompareBytes.write
        { high := fun _ => 0, low := fun _ => 0 })
      (writes [(.T1CCL 1, 0x34), (.T1CCH 1, 0x12)] resetSt) := by
  refine (compareValues_iff shows_resetSt _).mpr ?_ _ (List.prefix_refl _)
  intro l w hl
  rcases l with _ | ⟨x, _ | ⟨y, l⟩⟩
  · obtain rfl : w = (.T1CCL 1, 0x34) := by simpa using hl
    exact (by decide : (0x34 : TMem).toNat < 0x100)
  · obtain ⟨rfl, rfl⟩ : x = (.T1CCL 1, 0x34) ∧ w = (.T1CCH 1, 0x12) := by simpa using hl
    trivial
  · simp at hl

/-- A write of `T1CTL` goes to the low half of channel 0. -/
theorem not_compareValues :
    ¬ ∀ (s : CompareBytes) (st : CcSt 16), Shows s st →
      ∀ ws, Shows (ws.foldl CompareBytes.write s) (writes ws st) := by
  intro h
  have hval := h _ resetSt shows_resetSt [(.T1CTL, 1)] 0
  revert hval
  decide

end Timer1

end Ucsim.S51
