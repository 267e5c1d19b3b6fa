import Ucsim.S51.Uc390

/-!
# Timed access of the DS390

`cl_uc390_hw` guards bits of the special function registers. They are to be open to a write for a while after two
writes to TA. The other hardware does not alter the values that are written to the registers here.

The headers of the CC2530 give DPS, EXIF and MCON other addresses. DPS and P4CNT are the same cell then, and so are
MCON and TA.
-/

namespace Ucsim.S51.Uc390

/-! ## The hardware -/

def DPS : UChar := 0x92

def EXIF : UChar := 0xa9

def P4CNT : UChar := 0x92

def P5CNT : UChar := 0xa2

def C0C : UChar := 0xa3

def PMR : UChar := 0xc4

def MCON : UChar := 0xc7

def TA : UChar := 0xc7

def COR : UChar := 0xce

def MCNT1 : UChar := 0xd2

def WDCON : UChar := 0xd8

def C1C : UChar := 0xe3

/-- `cl_uc390_hw`. -/
structure Hw where
  ctmTicks : Nat
  timedAccessState : Nat
  timedAccessTicks : Nat
  deriving DecidableEq, Repr

/-- The test in front of a protected bit. -/
def Hw.locked (hw : Hw) (now : Nat) : Bool := hw.timedAccessState ≠ 2 ∨ hw.timedAccessTicks + 2 * 12 < now

/-- What a write to TA is to do. -/
def Hw.access (hw : Hw) (now : Nat) (val : UChar) : Hw :=
  if val = 0xaa then { hw with timedAccessState := 1, timedAccessTicks := now }
  else if val = 0x55 ∧ hw.timedAccessState = 1 ∧ now ≤ hw.timedAccessTicks + 2 * 12 then
    { hw with timedAccessState := 2, timedAccessTicks := now }
  else { hw with timedAccessState := 0 }

def Hw.reset (hw : Hw) : Hw := { hw with ctmTicks := 0, timedAccessState := 0 }

namespace Sfr

/-- `cl_uc390_hw::read`. -/
def hw_read (now : Nat) (addr : UChar) (s : Sfr Hw) : UChar × Sfr Hw :=
  if addr = EXIF ∧ s.hw.ctmTicks ≠ 0 ∧ s.hw.ctmTicks + 65535 ≤ now then
    (s.cell EXIF ||| 0x08,
      { s with cell := Function.update s.cell EXIF (s.cell EXIF ||| 0x08), hw := { s.hw with ctmTicks := 0 } })
  else (s.cell addr, s)

/-- `cl_uc390_hw::write`: the value that comes to the cell, and what else happens. The branches of P4CNT and TA are
not reached. -/
def hw_write (now : Nat) (addr val : UChar) (s : Sfr Hw) : UChar × Sfr Hw :=
  if addr = DPS then ((val &&& 0xe5) ||| 0x04, s)
  else if addr = EXIF then
    let val := if s.hw.locked now then (val &&& ~~~0x01) ||| (s.cell EXIF &&& 0x01) else val
    ((val &&& 0x0c) ||| (val &&& ~~~0x0c), s)
  else if addr = P4CNT then ((if s.hw.locked now then s.cell P4CNT else val) ||| 0x80, s)
  else if addr = ACON then
    let val :=
      if s.hw.locked now then s.cell ACON
      else if s.cell MCON &&& 0xc0 = 0xc0 then val &&& ~~~0x04 else val
    (val ||| 0xf8, s)
  else if addr = P5CNT then (if s.hw.locked now then (val &&& ~~~0x07) ||| (s.cell P5CNT &&& 0x07) else val, s)
  else if addr = C0C then (if s.hw.locked now then (val &&& ~~~0x08) ||| (s.cell C0C &&& 0x08) else val, s)
  else if addr = PMR then
    (val ||| 0x03,
      if val &&& 0xd0 = 0x90 then
        { s with
          cell := Function.update s.cell EXIF (s.cell EXIF &&& ~~~0x08)
          hw := { s.hw with ctmTicks := now } }
      else { s with hw := { s.hw with ctmTicks := 0 } })
  else if addr = MCON then
    let val :=
      if s.hw.locked now then s.cell MCON
      else if s.cell ACON &&& 0x04 = 0x04 then val &&& ~~~0xc0 else val
    (val ||| 0x10, s)
  else if addr = TA then (val, { s with hw := s.hw.access now val })
  else if addr = COR then (if s.hw.locked now then s.cell COR else val, s)
  else if addr = MCNT1 then (val ||| 0x0f, s)
  else if addr = WDCON then (if s.hw.locked now then (val &&& ~~~0x4b) ||| (s.cell WDCON &&& 0x4b) else val, s)
  else if addr = C1C then (if s.hw.locked now then (val &&& ~~~0x08) ||| (s.cell C1C &&& 0x08) else val, s)
  else (val, s)

/-- The operators of a cell call the hardware once for each name of the register. -/
def operate (now : Nat) (addr val : UChar) (s : Sfr Hw) : UChar × Sfr Hw :=
  let r := s.hw_write now addr val
  if addr = P4CNT ∨ addr = TA then r.2.hw_write now addr r.1 else r

/-- `sfr->write`. -/
def write (now : Nat) (addr val : UChar) (s : Sfr Hw) : Sfr Hw :=
  { (s.operate now addr val).2 with
    cell := Function.update (s.operate now addr val).2.cell addr (s.operate now addr val).1 }

def writes (now : Nat) (s : Sfr Hw) (list : List (UChar × UChar)) : Sfr Hw :=
  list.foldl (fun s w => s.write now w.1 w.2) s

/-- `sfr->set`. -/
def set (addr val : UChar) (s : Sfr Hw) : Sfr Hw := { s with cell := Function.update s.cell addr val }

/-- `clear_sfr`. Cells are cleared first, and writes of 0 to cells without this hardware are left out. -/
def clear_sfr (flat24_flag : Bool) (s : Sfr Hw) : Sfr Hw :=
  let s := writes 0 { s with cell := fun _ => 0 }
    [(0x80, 0xff), (0x90, 0xff), (0xa0, 0xff), (0xb0, 0xff), (SP, 7),
     (0x80, 0xff), (SP, 7), (0x86, 0x04), (0x90, 0xff), (0x92, 0xbf), (ESP, 0xfc)]
  let s := s.set ACON (if flat24_flag then 0xfa else 0xf8)
  s.writes 0
    [(0xa0, 0xff), (0xa1, 0xff), (0xa3, 0x09), (0xb0, 0xff), (0xb8, 0x80), (0xc5, 0x10), (0xc6, 0x10), (0xc7, 0xff),
     (0xc9, 0xe4), (0xd2, 0x2f), (0xe3, 0x09)]

end Sfr

/-! ## Runs -/

/-- The registers, with the clock. -/
structure Clocked where
  sfr : Sfr Hw
  ticks : Nat

/-- What the registers see. -/
inductive Event
  | read (addr : UChar)
  | write (addr val : UChar)
  | tick (n : Nat)
  deriving DecidableEq, Repr

namespace Clocked

/-- `cl_uc390::reset`: the hardware first, then the registers. -/
def reset (flat24_flag : Bool) (s : Clocked) : Clocked where
  sfr := Sfr.clear_sfr flat24_flag { s.sfr with hw := s.sfr.hw.reset }
  ticks := 0

def step (s : Clocked) : Event → Clocked
  | .read addr => { s with sfr := (s.sfr.hw_read s.ticks addr).2 }
  | .write addr val => { s with sfr := s.sfr.write s.ticks addr val }
  | .tick n => { s with ticks := s.ticks + n }

/-- The last event comes first. -/
def run (s : Clocked) (history : List Event) : Clocked := history.foldr (fun e t => t.step e) s

/-- The writes to TA, with their times, the last one first. -/
def taWrites (s : Clocked) : List Event → List (UChar × Nat)
  | [] => []
  | e :: history =>
    match e with
    | .write addr val =>
      if addr = TA then (val, (s.run history).ticks) :: s.taWrites history else s.taWrites history
    | _ => s.taWrites history

/-- The last two writes to TA are 0xAA and 0x55, not more than 24 clocks apart, and the second one not more than 24
clocks ago. -/
def Window (s : Clocked) (history : List Event) : Prop :=
  ∃ first second rest, s.taWrites history = (0x55, second) :: (0xaa, first) :: rest ∧
    second ≤ first + 24 ∧ (s.run history).ticks ≤ second + 24

end Clocked

/-! ## Bits of the registers -/

/-- A register of `cl_uc390_hw`, with the bits that need a timed access and other bits that have a fixed value after a
write. -/
structure Register where
  addr : UChar
  guarded : UChar
  forced : UChar

/-- The bits that a write sets at any time. -/
def Register.unguarded (r : Register) : UChar := ~~~(r.guarded ||| r.forced)

def registers : List Register :=
  [⟨DPS, 0, 0x1e⟩, ⟨EXIF, 0x01, 0⟩, ⟨P4CNT, 0x7f, 0x80⟩, ⟨ACON, 0xff, 0⟩, ⟨P5CNT, 0x07, 0⟩, ⟨C0C, 0x08, 0⟩,
   ⟨PMR, 0, 0x03⟩, ⟨MCON, 0xef, 0x10⟩, ⟨TA, 0, 0⟩, ⟨COR, 0xff, 0⟩, ⟨MCNT1, 0, 0x0f⟩, ⟨WDCON, 0x4b, 0⟩,
   ⟨C1C, 0x08, 0⟩]

/-- IDM1:IDM0 = 11 and SA = 1. -/
def Sfr.Clash (s : Sfr Hw) : Prop := s.cell MCON &&& 0xc0 = 0xc0 ∧ s.cell ACON &&& 0x04 = 0x04

/-- What a write is to do in a state that a history has led to. -/
structure Clocked.Timed (s : Clocked) (history : List Event) (addr val : UChar) : Prop where
  /-- Guarded bits change only in the window. -/
  guarded : ∀ r ∈ registers,
    ((s.run history).step (.write addr val)).sfr.cell r.addr &&& r.guarded ≠
      (s.run history).sfr.cell r.addr &&& r.guarded → s.Window history
  /-- The other bits of the register, except for those with a fixed value, take the value that is written. -/
  unguarded : ∀ r ∈ registers, r.addr = addr →
    ((s.run history).step (.write addr val)).sfr.cell addr &&& r.unguarded = val &&& r.unguarded
  /-- Other registers take the whole value. -/
  other : (∀ r ∈ registers, r.addr ≠ addr) → ((s.run history).step (.write addr val)).sfr.cell addr = val

/-- The write to P4CNT leaves the register as it is, in the bits that it is guarded in, or falls into the window. The
write to TA brings the value that MCON has after it. -/
structure Clocked.Met (s : Clocked) (history : List Event) (addr val : UChar) : Prop where
  p4cnt : addr = P4CNT → s.Window history ∨ (val &&& 0x65) ||| 0x04 = (s.run history).sfr.cell P4CNT &&& 0x7f
  ta : addr = TA → val = (s.run history).sfr.cell TA ||| 0x10

/-! ## One write -/

/-- The old value where the mask is set, and the new one elsewhere. -/
theorem merged_and (mask val old : UChar) : ((val &&& ~~~mask) ||| (old &&& mask)) &&& mask = old &&& mask := by
  rw [BitVec.and_or_distrib_right, BitVec.and_assoc, BitVec.and_assoc, BitVec.and_self, BitVec.and_comm (~~~mask),
    BitVec.and_not_self]
  simp

theorem merged_and_not (mask val old : UChar) :
    ((val &&& ~~~mask) ||| (old &&& mask)) &&& ~~~mask = val &&& ~~~mask := by
  rw [BitVec.and_or_distrib_right, BitVec.and_assoc, BitVec.and_assoc, BitVec.and_self, BitVec.and_not_self]
  simp

theorem and_or_and_not (mask val : UChar) : (val &&& mask) ||| (val &&& ~~~mask) = val := by
  apply BitVec.eq_of_getLsbD_eq
  intro i hi
  simp only [BitVec.getLsbD_or, BitVec.getLsbD_and, BitVec.getLsbD_not, hi]
  cases mask.getLsbD i
  · simp
  · simp

/-- Bits that are set do not show under a mask beside them. -/
theorem or_and_beside {bits mask : UChar} (h : bits &&& mask = 0) (val : UChar) :
    (val ||| bits) &&& mask = val &&& mask := by
  rw [BitVec.and_or_distrib_right, h]
  simp

/-- A value that has the bits already. -/
theorem or_eq_self {bits val : UChar} (h : val &&& bits = bits) : val ||| bits = val := by
  rw [← h, BitVec.or_comm, BitVec.and_comm]
  apply BitVec.eq_of_getLsbD_eq
  intro i _
  cases hval : val.getLsbD i
  · simp [hval]
  · simp [hval]

theorem or_and_bits (bits val : UChar) : (val ||| bits) &&& bits = bits := by
  apply BitVec.eq_of_getLsbD_eq
  intro i _
  simp only [BitVec.getLsbD_and, BitVec.getLsbD_or]
  cases bits.getLsbD i
  · simp
  · simp

theorem and_not_and_beside {bits mask : UChar} (h : ~~~bits &&& mask = mask) (val : UChar) :
    val &&& ~~~bits &&& mask = val &&& mask := by
  rw [BitVec.and_assoc, h]

/-- What DPS is made of a value is made of it only once. -/
theorem dps_and_or (val : UChar) : ((((val &&& 0xe5) ||| 0x04) &&& 0xe5) ||| 0x04 : UChar) = (val &&& 0xe5) ||| 0x04 := by
  rw [BitVec.and_or_distrib_right, BitVec.and_assoc, BitVec.or_assoc]
  rfl

namespace Sfr

variable {now : Nat} {addr val : UChar} {s : Sfr Hw}

theorem hw_write_dps : s.hw_write now DPS val = ((val &&& 0xe5) ||| 0x04, s) := rfl

theorem hw_write_mcon : s.hw_write now MCON val =
    ((if s.hw.locked now then s.cell MCON
      else if s.cell ACON &&& 0x04 = 0x04 then val &&& ~~~0xc0 else val) ||| 0x10, s) := rfl

/-- The second call leaves what the first one has made. -/
theorem operate_eq : s.operate now addr val = s.hw_write now addr val := by
  unfold operate
  dsimp only
  split
  case isFalse => rfl
  case isTrue h =>
    rcases h with rfl | rfl
    · show ((((val &&& 0xe5) ||| 0x04) &&& 0xe5) ||| 0x04, s) = ((val &&& 0xe5) ||| 0x04, s)
      rw [dps_and_or]
    · show s.hw_write now MCON (s.hw_write now MCON val).1 = s.hw_write now MCON val
      rw [hw_write_mcon, hw_write_mcon]
      split
      · rfl
      · split
        · refine Prod.ext ?_ rfl
          show ((((val &&& ~~~0xc0) ||| 0x10) &&& ~~~0xc0) ||| 0x10 : UChar) = (val &&& ~~~0xc0) ||| 0x10
          rw [BitVec.and_or_distrib_right, BitVec.and_assoc, BitVec.or_assoc]
          rfl
        · refine Prod.ext ?_ rfl
          show ((val ||| 0x10) ||| 0x10 : UChar) = val ||| 0x10
          rw [BitVec.or_assoc]
          rfl

theorem write_cell (r : UChar) : (s.write now addr val).cell r =
    if r = addr then (s.hw_write now addr val).1 else (s.hw_write now addr val).2.cell r := by
  simp only [write, operate_eq, Function.update_apply]

theorem write_hw : (s.write now addr val).hw = (s.hw_write now addr val).2.hw := by
  rw [write, operate_eq]

theorem write_dps : s.write now DPS val = s.set DPS ((val &&& 0xe5) ||| 0x04) := by
  rw [write, operate_eq, hw_write_dps]
  rfl

theorem hw_write_plain (h : ∀ r ∈ registers, r.addr ≠ addr) : s.hw_write now addr val = (val, s) := by
  simp only [registers, List.forall_mem_cons, List.not_mem_nil, false_implies, implies_true, and_true] at h
  obtain ⟨h1, h2, h3, h4, h5, h6, h7, h8, h9, h10, h11, h12, h13⟩ := h
  simp only [hw_write, h1.symm, h2.symm, h3.symm, h4.symm, h5.symm, h6.symm, h7.symm, h8.symm, h9.symm, h10.symm,
    h11.symm, h12.symm, h13.symm, if_false]

/-- Nothing but a write to PMR does more than to set the register. -/
theorem hw_write_beside (hPMR : addr ≠ PMR) : (s.hw_write now addr val).2 = s := by
  by_cases hTA : addr = TA
  · rw [hTA]
    rfl
  · simp only [hw_write, hPMR, hTA, if_false, apply_ite Prod.snd, ite_self]

/-- Only CKRDY of EXIF changes with another register. -/
theorem hw_write_others (r mask : UChar) (hmask : r = EXIF → ~~~0x08 &&& mask = mask) :
    (s.hw_write now addr val).2.cell r &&& mask = s.cell r &&& mask := by
  by_cases hPMR : addr = PMR
  · rw [hPMR]
    show (if val &&& 0xd0 = 0x90 then _ else _ : Sfr Hw).cell r &&& mask = _
    split
    · by_cases hr : r = EXIF
      · simp only [hr, Function.update_self]
        exact and_not_and_beside (hmask hr) _
      · simp only [Function.update_of_ne hr]
    · rfl
  · rw [hw_write_beside hPMR]

/-- No write brings the hardware out of the state after a reset, as there is none that gets to TA. -/
theorem hw_write_state : (s.hw_write now addr val).2.hw.timedAccessState = s.hw.timedAccessState := by
  by_cases hPMR : addr = PMR
  · rw [hPMR]
    show (if val &&& 0xd0 = 0x90 then _ else _ : Sfr Hw).hw.timedAccessState = _
    split <;> rfl
  · rw [hw_write_beside hPMR]

/-- The registers some of whose bits are guarded. -/
def partly : List Register := [⟨EXIF, 0x01, 0⟩, ⟨P5CNT, 0x07, 0⟩, ⟨C0C, 0x08, 0⟩, ⟨WDCON, 0x4b, 0⟩, ⟨C1C, 0x08, 0⟩]

theorem hw_write_partly {r : Register} (h : r ∈ partly) : (s.hw_write now r.addr val).1 =
    if s.hw.locked now then (val &&& ~~~r.guarded) ||| (s.cell r.addr &&& r.guarded) else val := by
  simp only [partly, List.mem_cons, List.not_mem_nil, or_false] at h
  rcases h with rfl | rfl | rfl | rfl | rfl
  · exact and_or_and_not 0x0c _
  all_goals rfl

/-- Out of the window guarded bits stay, except for those of P4CNT. -/
theorem hw_write_guarded (hlocked : s.hw.locked now = true) (hforced : s.cell ACON &&& 0xf8 = 0xf8) {r : Register}
    (hr : r ∈ registers) (hP4CNT : r.addr ≠ P4CNT) :
    (s.hw_write now r.addr val).1 &&& r.guarded = s.cell r.addr &&& r.guarded := by
  by_cases hpartly : r ∈ partly
  · rw [hw_write_partly hpartly, if_pos hlocked]
    exact merged_and _ _ _
  simp only [registers, partly, List.mem_cons, List.not_mem_nil, or_false, not_or] at hr hpartly
  obtain ⟨h1, h2, h3, h4, h5⟩ := hpartly
  simp only [h1, h2, h3, h4, h5, false_or, or_false] at hr
  -- whole registers are left, two of them with bits that are always 1
  rcases hr with rfl | rfl | rfl | rfl | rfl | rfl | rfl | rfl
  · exact absurd rfl hP4CNT
  · exact absurd rfl hP4CNT
  · show ((if s.hw.locked now then s.cell ACON else _) ||| 0xf8) &&& 0xff = s.cell ACON &&& 0xff
    rw [if_pos hlocked, or_eq_self hforced]
  · exact BitVec.and_zero.trans BitVec.and_zero.symm
  · show ((if s.hw.locked now then s.cell MCON else _) ||| 0x10) &&& 0xef = s.cell MCON &&& 0xef
    rw [if_pos hlocked]
    exact or_and_beside rfl _
  · exact BitVec.and_zero.trans BitVec.and_zero.symm
  · show (if s.hw.locked now then s.cell COR else val) &&& 0xff = s.cell COR &&& 0xff
    rw [if_pos hlocked]
  · exact BitVec.and_zero.trans BitVec.and_zero.symm

/-- Bits that are neither guarded nor fixed take the value that is written, except for those of TA. -/
theorem hw_write_unguarded {r : Register} (hr : r ∈ registers) (hTA : r.addr ≠ TA) :
    (s.hw_write now r.addr val).1 &&& r.unguarded = val &&& r.unguarded := by
  by_cases hpartly : r ∈ partly
  · have hopen : r.unguarded = ~~~r.guarded := by
      simp only [partly, List.mem_cons, List.not_mem_nil, or_false] at hpartly
      rcases hpartly with rfl | rfl | rfl | rfl | rfl
      all_goals rfl
    rw [hw_write_partly hpartly, hopen]
    split
    · exact merged_and_not _ _ _
    · rfl
  simp only [registers, partly, List.mem_cons, List.not_mem_nil, or_false, not_or] at hr hpartly
  obtain ⟨h1, h2, h3, h4, h5⟩ := hpartly
  simp only [h1, h2, h3, h4, h5, false_or, or_false] at hr
  rcases hr with rfl | rfl | rfl | rfl | rfl | rfl | rfl | rfl
  · show ((val &&& 0xe5) ||| 0x04) &&& 0xe1 = val &&& 0xe1
    rw [or_and_beside rfl, BitVec.and_assoc]
    rfl
  · exact BitVec.and_zero.trans BitVec.and_zero.symm
  · exact BitVec.and_zero.trans BitVec.and_zero.symm
  · show (val ||| 0x03) &&& 0xfc = val &&& 0xfc
    exact or_and_beside rfl val
  · exact absurd rfl hTA
  · exact absurd rfl hTA
  · exact BitVec.and_zero.trans BitVec.and_zero.symm
  · show (val ||| 0x0f) &&& 0xf0 = val &&& 0xf0
    exact or_and_beside rfl val

theorem write_acon : (s.write now ACON val).cell ACON =
    (if s.hw.locked now then s.cell ACON
    else if s.cell MCON &&& 0xc0 = 0xc0 then val &&& ~~~0x04 else val) ||| 0xf8 := by
  rw [write_cell, if_pos rfl]
  rfl

/-- Cleared bits are not all set. -/
theorem and_not_and_ne {mask : UChar} (h : mask ≠ 0) (val : UChar) : val &&& ~~~mask &&& mask ≠ mask := by
  rw [BitVec.and_assoc, BitVec.and_comm (~~~mask), BitVec.and_not_self]
  simpa using h.symm

/-- Each of the two registers locks the other one out. -/
theorem write_clash (h : ¬s.Clash) : ¬(s.write now addr val).Clash := by
  rintro ⟨hmcon, hacon⟩
  by_cases hA : addr = ACON
  · subst hA
    have hsame : (s.write now ACON val).cell MCON = s.cell MCON := by
      rw [write_cell, if_neg (by decide)]
      rfl
    rw [hsame] at hmcon
    rw [write_acon, or_and_beside rfl, if_pos hmcon] at hacon
    split at hacon
    · exact h ⟨hmcon, hacon⟩
    · exact and_not_and_ne (by decide) _ hacon
  by_cases hM : addr = MCON
  · subst hM
    have hsame : (s.write now MCON val).cell ACON = s.cell ACON := by
      rw [write_cell, if_neg (by decide)]
      rfl
    rw [hsame] at hacon
    rw [write_cell, if_pos rfl, hw_write_mcon, or_and_beside rfl, if_pos hacon] at hmcon
    split at hmcon
    · exact h ⟨hmcon, hacon⟩
    · exact and_not_and_ne (by decide) _ hmcon
  · rw [write_cell, if_neg (Ne.symm hM), hw_write_others _ _ (fun hr => absurd hr (by decide))] at hmcon
    rw [write_cell, if_neg (Ne.symm hA), hw_write_others _ _ (fun hr => absurd hr (by decide))] at hacon
    exact h ⟨hmcon, hacon⟩

/-- What holds from the reset on: the guarded bits are never open, and the bits of ACON that are always 1 are 1. -/
structure Shut (s : Sfr Hw) : Prop where
  state : s.hw.timedAccessState = 0
  forced : s.cell ACON &&& 0xf8 = 0xf8

theorem Shut.locked (h : s.Shut) (now : Nat) : s.hw.locked now = true := by
  simp [Hw.locked, h.state]

theorem write_forced (hforced : s.cell ACON &&& 0xf8 = 0xf8) : (s.write now addr val).cell ACON &&& 0xf8 = 0xf8 := by
  by_cases hA : addr = ACON
  · rw [hA, write_acon]
    exact or_and_bits _ _
  · rw [write_cell, if_neg (Ne.symm hA), hw_write_others _ _ (fun hr => absurd hr (by decide))]
    exact hforced

theorem Shut.write (h : s.Shut) : (s.write now addr val).Shut :=
  ⟨by rw [write_hw, hw_write_state, h.state], write_forced h.forced⟩

theorem writes_state {s : Sfr Hw} (list : List (UChar × UChar)) (h : s.hw.timedAccessState = 0) :
    (s.writes now list).hw.timedAccessState = 0 := by
  induction list generalizing s with
  | nil => exact h
  | cons w list ih => exact ih (by rw [write_hw, hw_write_state, h])

theorem Shut.writes {s : Sfr Hw} (list : List (UChar × UChar)) (h : s.Shut) : (s.writes now list).Shut := by
  induction list generalizing s with
  | nil => exact h
  | cons w list ih => exact ih h.write

theorem set_cell : (s.set addr val).cell addr = val := Function.update_self ..

theorem hw_read_state : (s.hw_read now addr).2.hw.timedAccessState = s.hw.timedAccessState := by
  rw [hw_read]
  split <;> rfl

theorem hw_read_others {r : UChar} (hr : r ≠ EXIF) : (s.hw_read now addr).2.cell r = s.cell r := by
  rw [hw_read]
  split
  · exact Function.update_of_ne hr _ _
  · rfl

end Sfr

/-! ## Runs from the reset -/

namespace Clocked

theorem reset_shut (flat24_flag : Bool) (s : Clocked) : (s.reset flat24_flag).sfr.Shut := by
  apply Sfr.Shut.writes
  refine ⟨Sfr.writes_state _ rfl, ?_⟩
  rw [Sfr.set_cell]
  cases flat24_flag with
  | true => rfl
  | false => rfl

theorem step_shut {s : Clocked} (h : s.sfr.Shut) (e : Event) : (s.step e).sfr.Shut := by
  cases e with
  | tick n => exact h
  | read addr =>
    have hacon : (s.step (.read addr)).sfr.cell ACON = s.sfr.cell ACON := Sfr.hw_read_others (by decide)
    exact ⟨Sfr.hw_read_state.trans h.state, by rw [hacon, h.forced]⟩
  | write addr val => exact h.write

theorem run_shut {s : Clocked} (h : s.sfr.Shut) (history : List Event) : (s.run history).sfr.Shut := by
  induction history with
  | nil => exact h
  | cons e history ih => exact step_shut ih e

theorem step_clash {s : Clocked} (h : ¬s.sfr.Clash) (e : Event) : ¬(s.step e).sfr.Clash := by
  cases e with
  | tick n => exact h
  | read addr =>
    rintro ⟨hmcon, hacon⟩
    rw [Clocked.step, Sfr.hw_read_others (by decide)] at hmcon hacon
    exact h ⟨hmcon, hacon⟩
  | write addr val => exact Sfr.write_clash h

theorem run_clash {s : Clocked} (h : ¬s.sfr.Clash) (history : List Event) : ¬(s.run history).sfr.Clash := by
  induction history with
  | nil => exact h
  | cons e history ih => exact step_clash ih e

/-- In the window or out of it, a write does what it is to do unless the branch of DPS or that of MCON takes it away
from P4CNT or TA. -/
theorem timed_iff_met {s : Clocked} (hs : s.sfr.Shut) (history : List Event) (addr val : UChar) :
    s.Timed history addr val ↔ s.Met history addr val := by
  have hshut := run_shut hs history
  have hlocked := hshut.locked (s.run history).ticks
  have hstep (r : UChar) : ((s.run history).step (.write addr val)).sfr.cell r =
      if r = addr then ((s.run history).sfr.hw_write (s.run history).ticks addr val).1
      else ((s.run history).sfr.hw_write (s.run history).ticks addr val).2.cell r := Sfr.write_cell r
  have hdps : ∀ v : UChar, ((v &&& 0xe5) ||| 0x04) &&& 0x7f = (v &&& 0x65) ||| 0x04 := by
    intro v
    rw [BitVec.and_or_distrib_right, BitVec.and_assoc]
    rfl
  constructor
  · intro h
    refine ⟨?_, ?_⟩
    · rintro rfl
      by_contra hno
      obtain ⟨hwindow, hvalue⟩ := not_or.mp hno
      refine hwindow (h.guarded ⟨P4CNT, 0x7f, 0x80⟩ (by simp [registers]) fun hsame => hvalue ?_)
      rw [hstep, if_pos rfl] at hsame
      exact (hdps val).symm.trans hsame
    · rintro rfl
      have htaken := h.unguarded ⟨TA, 0, 0⟩ (by simp [registers]) rfl
      rw [hstep, if_pos rfl, show (TA : UChar) = MCON from rfl, Sfr.hw_write_mcon, if_pos hlocked] at htaken
      have hall : (Register.mk MCON 0 0).unguarded = BitVec.allOnes 8 := rfl
      rw [hall, BitVec.and_allOnes, BitVec.and_allOnes] at htaken
      exact htaken.symm
  · intro h
    refine ⟨fun r hr hchange => ?_, fun r hr haddr => ?_, fun hnone => ?_⟩
    · rw [hstep] at hchange
      by_cases haddr : r.addr = addr
      · rw [if_pos haddr] at hchange
        subst haddr
        by_cases hP4CNT : r.addr = P4CNT
        · refine (h.p4cnt hP4CNT).resolve_right fun hvalue => hchange ?_
          have hguarded : ∀ r ∈ registers, r.addr = P4CNT → r.guarded = 0 ∨ r.guarded = 0x7f := by decide
          rcases hguarded r hr hP4CNT with hnone | hall
          · rw [hnone]
            exact BitVec.and_zero.trans BitVec.and_zero.symm
          · rw [hall, hP4CNT, show (P4CNT : UChar) = DPS from rfl, Sfr.hw_write_dps]
            exact (hdps val).trans hvalue
        · exact absurd (Sfr.hw_write_guarded hlocked hshut.forced hr hP4CNT) hchange
      · rw [if_neg haddr] at hchange
        have hguarded : ∀ r ∈ registers, r.addr = EXIF → ~~~0x08 &&& r.guarded = r.guarded := by decide
        exact absurd (Sfr.hw_write_others r.addr r.guarded (hguarded r hr)) hchange
    · subst haddr
      rw [hstep, if_pos rfl]
      by_cases hTA : r.addr = TA
      · rw [hTA, show (TA : UChar) = MCON from rfl, Sfr.hw_write_mcon, if_pos hlocked, h.ta hTA]
        rfl
      · exact Sfr.hw_write_unguarded hr hTA
    · rw [hstep, if_pos rfl, Sfr.hw_write_plain hnone]

/-- After a reset a write does what it is to do exactly if its condition is met. IDM1:IDM0 and SA stay locked against
each other from any state. -/
theorem timed_access_iff (flat24_flag : Bool) (s : Clocked) :
    (∀ history addr val, (s.reset flat24_flag).Timed history addr val ↔ (s.reset flat24_flag).Met history addr val) ∧
      ∀ t, ¬t.sfr.Clash → ∀ history, ¬(run t history).sfr.Clash :=
  ⟨timed_iff_met (reset_shut flat24_flag s), fun _ ht history => run_clash ht history⟩

/-- Registers that are all 0. -/
def cleared : Clocked := ⟨⟨fun _ => 0, false, ⟨0, 0, 0⟩⟩, 0⟩

/-- A write to COR between 0xAA and 0x55 for TA, where both writes stay without effect, and ACON with SA. -/
theorem timed_access_iff_cor : (cleared.reset false).Timed [.tick 24, .write TA 0xaa] COR 1 ∧
    ¬(cleared.reset false).Timed [] TA 0xaa ∧ ¬(run cleared [.write MCON 0xc0, .write ACON 0xff]).sfr.Clash := by
  obtain ⟨htimed, hclash⟩ := timed_access_iff false cleared
  refine ⟨(htimed _ _ _).mpr ⟨fun h => absurd h (by decide), fun h => absurd h (by decide)⟩, fun h => ?_,
    hclash cleared (by unfold Sfr.Clash; decide) _⟩
  exact absurd (((htimed _ _ _).mp h).ta rfl) (by decide)

/-- Without any write to TA, a write to P4CNT changes bits that are guarded. 0xAA and 0x55 for TA do not get to its
cell, and a write to COR that follows them has no effect. -/
theorem p4cnt_not_timed : ¬(cleared.reset false).Timed [] P4CNT 0 ∧
    (cleared.reset false).sfr.cell P4CNT = 0xa5 ∧
    ((cleared.reset false).step (.write P4CNT 0)).sfr.cell P4CNT = 0x04 ∧
    ((cleared.reset false).step (.write TA 0xaa)).sfr.cell TA = 0x10 ∧
    ((cleared.reset false).run [.write COR 1, .write TA 0x55, .write TA 0xaa]).sfr.cell COR = 0 := by
  refine ⟨fun h => ?_, by decide, by decide, by decide, by decide⟩
  obtain ⟨_, _, _, hta, -⟩ := h.guarded ⟨P4CNT, 0x7f, 0x80⟩ (by simp [registers]) (by decide)
  cases hta

end Clocked

end Ucsim.S51.Uc390
