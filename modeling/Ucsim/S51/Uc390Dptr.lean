import Ucsim.S51.Uc390Jumps
import Ucsim.S51.Uc390Hw

/-!
# The two data pointers of the DS390

DPS selects one of two data pointers, and can have every instruction that uses the pointer switch to the other one. The
instructions refine a machine with two numbers, on which a loop that copies bytes is easy to follow.
-/

namespace Ucsim.S51.Uc390

/-! ## The instructions -/

def DPL : UChar := 0x82

def DPH : UChar := 0x83

def DPX : UChar := 0x93

def DPL1 : UChar := 0x84

def DPH1 : UChar := 0x85

def DPX1 : UChar := 0x95

def PSW : UChar := 0xd0

def ACC : UChar := 0xe0

/-- The DS390 with `xram`. -/
structure DataMachine extends Machine Hw where
  xram : Nat → UChar

/-- A byte of data memory. -/
inductive Place
  | xram (addr : Nat)
  | ixram (addr : Nat)
  deriving DecidableEq, Repr

/-- The sizes of the two memories. -/
def Place.Inside : Place → Prop
  | .xram addr => addr < 0x100080
  | .ixram addr => addr < 0x1000

instance : DecidablePred Place.Inside
  | .xram addr => inferInstanceAs (Decidable (addr < 0x100080))
  | .ixram addr => inferInstanceAs (Decidable (addr < 0x1000))

/-- With 24-bit addresses `ixram` is seen from 0x400000 on. -/
def place (am1 : Bool) (addr : Nat) : Place :=
  if 0x400000 ≤ addr ∧ am1 then .ixram (addr - 0x400000) else .xram addr

def DataMachine.byte (s : DataMachine) : Place → UChar
  | .xram addr => s.xram addr
  | .ixram addr => s.ixram addr

def DataMachine.setByte (s : DataMachine) (p : Place) (val : UChar) : DataMachine :=
  match p with
  | .xram addr => { s with xram := Function.update s.xram addr val }
  | .ixram addr => { s with ixram := Function.update s.ixram addr val }

abbrev DataProg := StateM DataMachine

/-- What does not concern `xram`. -/
def core {α : Type} (p : Prog Hw α) : DataProg α := modifyGet fun s =>
  ((p.run s.toMachine).1, { toMachine := (p.run s.toMachine).2, xram := s.xram })

/-- `sfr->read`. -/
def read_sfr (addr : UChar) : Prog Hw UChar := modifyGet fun s =>
  ((s.sfr.hw_read s.ticks addr).1, { s with sfr := (s.sfr.hw_read s.ticks addr).2 })

/-- `sfr->write`. -/
def write_sfr (addr val : UChar) : Prog Hw Unit := modify fun s => { s with sfr := s.sfr.write s.ticks addr val }

/-- `acc->write`: the hardware keeps the parity flag. -/
def write_acc (val : UChar) : Prog Hw Unit := do
  let psw ← get_sfr PSW
  set_sfr PSW (if parity val then psw ||| 0x01 else psw &&& ~~~0x01)
  set_sfr ACC val

/-- `read_mem` of `MEM_XRAM_ID`. -/
def read_mem (addr : Nat) : DataProg UChar := do
  let acon ← core (get_sfr ACON)
  return (← get).byte (place (AM1 acon) addr)

/-- `write_mem` of `MEM_XRAM_ID`. Nothing is written outside of the memory. -/
def write_mem (addr : Nat) (val : UChar) : DataProg Unit := do
  let acon ← core (get_sfr ACON)
  if (place (AM1 acon) addr).Inside then modify fun s => s.setByte (place (AM1 acon) addr) val

/-- `pl`, `ph` and `px`. -/
structure Dptr where
  pl : UChar
  ph : UChar
  px : UChar
  deriving DecidableEq, Repr

def dptr0 : Dptr := ⟨DPL, DPH, DPX⟩

def dptr1 : Dptr := ⟨DPL1, DPH1, DPX1⟩

/-- SEL. -/
def SEL (dps : UChar) : Bool := dps &&& 0x01 ≠ 0

/-- TSL: the pointers are switched. -/
def TSL (dps : UChar) : Bool := dps &&& 0x20 ≠ 0

/-- ID: the pointers are decremented. -/
def ID (dps : UChar) : Bool := dps &&& 0x80 ≠ 0

def select (dps : UChar) : Dptr := if SEL dps then dptr1 else dptr0

/-- The address in the registers. -/
def read_dptr (d : Dptr) : Prog Hw Nat := do
  let px ← if AM1 (← get_sfr ACON) then read_sfr d.px else pure 0
  let ph ← read_sfr d.ph
  let pl ← read_sfr d.pl
  return address px ph pl

/-- Auto-switch. -/
def switch_dptr (dps : UChar) : Prog Hw Unit := if TSL dps then write_sfr DPS (dps ^^^ 1) else pure ()

def inst_inc_dptr : Prog Hw Res := do
  let dps ← get_sfr DPS
  let d := select dps
  let dptr : BitVec 64 := BitVec.ofNat 64 (← read_dptr d)
  let dptr := if ID dps then dptr - 1 else dptr + 1
  if AM1 (← get_sfr ACON) then write_sfr d.px ((dptr >>> 16).setWidth 8)
  write_sfr d.ph ((dptr >>> 8).setWidth 8)
  write_sfr d.pl (dptr.setWidth 8)
  switch_dptr dps
  tick 1
  return .go

def inst_movx_a_Sdptr : DataProg Res := do
  let dps ← core (get_sfr DPS)
  let val ← read_mem (← core (read_dptr (select dps)))
  core (write_acc val)
  core (switch_dptr dps)
  core (tick 1)
  return .go

def inst_movx_Sdptr_a : DataProg Res := do
  let dps ← core (get_sfr DPS)
  write_mem (← core (read_dptr (select dps))) (← core (read_sfr ACC))
  core (switch_dptr dps)
  core (tick 1)
  return .go

/-- The `switch` of `exec_inst`, with the other instructions as a parameter. -/
def dispatch_data (other : UChar → DataProg Res) (code : UChar) : DataProg Res :=
  if code = 0xa3 then core inst_inc_dptr
  else if code = 0xe0 then inst_movx_a_Sdptr
  else if code = 0xf0 then inst_movx_Sdptr_a
  else other code

def exec_data (other : UChar → DataProg Res) : DataProg Res := do dispatch_data other (← core start_inst)

def DataMachine.step (other : UChar → DataProg Res) (s : DataMachine) : DataMachine := ((exec_data other).run s).2

/-! ## Two numbers -/

/-- The number of addresses that a pointer has. -/
def range (am1 : Bool) : Nat := if am1 then 0x1000000 else 0x10000

/-- A pointer after `n` steps. -/
def moved (am1 down : Bool) (p n : Nat) : Nat :=
  if down then (p + (range am1 - n % range am1)) % range am1 else (p + n) % range am1

/-- What the instructions are about: the two pointers are numbers, and SEL, TSL and ID are apart. -/
structure View where
  rom : Nat → UChar
  PC : Nat
  am1 : Bool
  tsl : Bool
  down : Bool
  sel : Bool
  p0 : Nat
  p1 : Nat
  acc : UChar
  byte : Place → UChar

attribute [ext] View

namespace View

def place (v : View) : Place := Uc390.place v.am1 (if v.sel then v.p1 else v.p0)

def switched (v : View) : View := { v with sel := v.sel ^^ v.tsl }

def load (v : View) : View := { v with acc := v.byte v.place }

def store (v : View) : View :=
  { v with byte := if v.place.Inside then Function.update v.byte v.place v.acc else v.byte }

def count (v : View) : View :=
  if v.sel then { v with p1 := moved v.am1 v.down v.p1 1 } else { v with p0 := moved v.am1 v.down v.p0 1 }

def started (v : View) : View := { v with PC := (v.PC + 1) % 0x20000 }

end View

/-- The number in the registers of a pointer. -/
def Dptr.value (d : Dptr) (cell : UChar → UChar) (am1 : Bool) : Nat :=
  address (if am1 then cell d.px else 0) (cell d.ph) (cell d.pl)

def DataMachine.view (s : DataMachine) : View where
  rom := s.rom
  PC := s.PC
  am1 := AM1 s.acon
  tsl := TSL (s.sfr.cell DPS)
  down := ID (s.sfr.cell DPS)
  sel := SEL (s.sfr.cell DPS)
  p0 := dptr0.value s.sfr.cell (AM1 s.acon)
  p1 := dptr1.value s.sfr.cell (AM1 s.acon)
  acc := s.sfr.cell ACC
  byte := s.byte

/-! ## Refinement -/

/-- DPS after a switch: `cl_uc390_hw` keeps TSL and ID. -/
theorem switched_dps : ∀ dps : UChar, SEL (((dps ^^^ 1) &&& 0xe5) ||| 0x04) = !SEL dps ∧
    TSL (((dps ^^^ 1) &&& 0xe5) ||| 0x04) = TSL dps ∧ ID (((dps ^^^ 1) &&& 0xe5) ||| 0x04) = ID dps := by
  decide

theorem address_mod (v : BitVec 64) :
    address ((v >>> 16).setWidth 8) ((v >>> 8).setWidth 8) (v.setWidth 8) = v.toNat % 0x1000000 ∧
      address 0 ((v >>> 8).setWidth 8) (v.setWidth 8) = v.toNat % 0x10000 := by
  have hzero : (0 : UChar).toNat = 0 := rfl
  simp only [address, BitVec.toNat_setWidth, BitVec.toNat_ushiftRight, Nat.shiftRight_eq_div_pow, hzero]
  omega

theorem count_toNat (down : Bool) {p : Nat} (hp : p < 0x1000000) :
    (if down then BitVec.ofNat 64 p - 1 else BitVec.ofNat 64 p + 1).toNat =
      if down then (p + (2 ^ 64 - 1)) % 2 ^ 64 else p + 1 := by
  have hone : (1 : BitVec 64).toNat = 1 := rfl
  cases down with
  | true =>
    simp only [if_true, BitVec.toNat_sub, BitVec.toNat_ofNat, hone]
    omega
  | false =>
    simp only [Bool.false_eq_true, if_false, BitVec.toNat_add, BitVec.toNat_ofNat, hone]
    omega

theorem range_le (am1 : Bool) : range am1 ≤ 0x1000000 := by
  cases am1 with
  | true => exact le_rfl
  | false => exact (by decide : 0x10000 ≤ 0x1000000)

/-- One step of a pointer, in the arithmetic of the instruction. -/
theorem moved_one (am1 down : Bool) {p : Nat} (hp : p < range am1) (v : BitVec 64)
    (hv : v = if down then BitVec.ofNat 64 p - 1 else BitVec.ofNat 64 p + 1) :
    address (if am1 then (v >>> 16).setWidth 8 else 0) ((v >>> 8).setWidth 8) (v.setWidth 8) = moved am1 down p 1 := by
  obtain ⟨hwide, hnarrow⟩ := address_mod v
  have hcount := count_toNat down (hp.trans_le (range_le am1))
  rw [← hv] at hcount
  cases am1 with
  | true =>
    rw [if_pos rfl, hwide, hcount, moved, range, if_pos rfl]
    cases down with
    | true =>
      rw [if_pos rfl, if_pos rfl]
      omega
    | false => rfl
  | false =>
    rw [if_neg Bool.false_ne_true, hnarrow, hcount, moved, range, if_neg Bool.false_ne_true]
    cases down with
    | true =>
      rw [if_pos rfl, if_pos rfl]
      omega
    | false => rfl

theorem value_lt (d : Dptr) (cell : UChar → UChar) (am1 : Bool) : d.value cell am1 < range am1 := by
  cases am1 with
  | true => exact address_lt_flat _ _ _
  | false => exact address_lt _ _

theorem read_dptr_run {d : Dptr} (hd : d = dptr0 ∨ d = dptr1) (m : Machine Hw) :
    (read_dptr d).run m = (d.value m.sfr.cell (AM1 m.acon), m) := by
  have hrun : (read_dptr d).run m = ((do
      let px ← if AM1 m.acon then read_sfr d.px else pure 0
      let ph ← read_sfr d.ph
      let pl ← read_sfr d.pl
      return address px ph pl : Prog Hw Nat).run m) := rfl
  rw [hrun, Dptr.value]
  -- none of the registers is EXIF
  rcases hd with rfl | rfl
  · cases AM1 m.acon with
    | true => rfl
    | false => rfl
  · cases AM1 m.acon with
    | true => rfl
    | false => rfl

theorem select_cases (dps : UChar) : select dps = dptr0 ∨ select dps = dptr1 := by
  rw [select]
  split
  · exact .inr rfl
  · exact .inl rfl

namespace DataMachine

def put (s : DataMachine) (addr val : UChar) : DataMachine := { s with sfr := s.sfr.set addr val }

def ticked (s : DataMachine) : DataMachine := { s with toMachine := ((tick 1).run s.toMachine).2 }

def dps (s : DataMachine) : UChar := s.sfr.cell DPS

/-- The address in the selected pointer. -/
def addr (s : DataMachine) : Nat := (select s.dps).value s.sfr.cell (AM1 s.acon)

def switched (s : DataMachine) (dps : UChar) : DataMachine :=
  if TSL dps then s.put DPS (((dps ^^^ 1) &&& 0xe5) ||| 0x04) else s

def loaded (s : DataMachine) : DataMachine :=
  (s.put PSW (if parity (s.byte (place (AM1 s.acon) s.addr)) then s.sfr.cell PSW ||| 0x01
    else s.sfr.cell PSW &&& ~~~0x01)).put ACC (s.byte (place (AM1 s.acon) s.addr))

def stored (s : DataMachine) : DataMachine :=
  if (place (AM1 s.acon) s.addr).Inside then s.setByte (place (AM1 s.acon) s.addr) (s.sfr.cell ACC) else s

/-- The register of `inc_dptr`. -/
def next (s : DataMachine) : BitVec 64 :=
  if ID s.dps then BitVec.ofNat 64 s.addr - 1 else BitVec.ofNat 64 s.addr + 1

def counted (s : DataMachine) : DataMachine :=
  ((if AM1 s.acon then s.put (select s.dps).px ((s.next >>> 16).setWidth 8) else s).put (select s.dps).ph
    ((s.next >>> 8).setWidth 8)).put (select s.dps).pl (s.next.setWidth 8)

theorem switch_dptr_run (dps : UChar) (s : DataMachine) :
    ((core (switch_dptr dps)).run s).2 = s.switched dps := by
  have hrun : ((core (switch_dptr dps)).run s).2 =
      ((core (if TSL dps then write_sfr DPS (dps ^^^ 1) else pure ())).run s).2 := rfl
  rw [hrun, switched]
  split
  · show { s with sfr := s.sfr.write s.ticks DPS (dps ^^^ 1) } = s.put DPS (((dps ^^^ 1) &&& 0xe5) ||| 0x04)
    rw [Sfr.write_dps]
    rfl
  · rfl

theorem movx_a_Sdptr_run (s : DataMachine) : (inst_movx_a_Sdptr.run s).2 = (s.loaded.switched s.dps).ticked := by
  have hrun : (inst_movx_a_Sdptr.run s).2 = ((do
      let val ← read_mem ((read_dptr (select s.dps)).run s.toMachine).1
      core (write_acc val)
      core (switch_dptr s.dps)
      core (tick 1)
      return .go : DataProg Res).run { s with toMachine := ((read_dptr (select s.dps)).run s.toMachine).2 }).2 := rfl
  rw [hrun, read_dptr_run (select_cases _), ← switch_dptr_run]
  rfl

theorem write_mem_run (s : DataMachine) (addr : Nat) (val : UChar) : ((write_mem addr val).run s).2 =
    if (place (AM1 s.acon) addr).Inside then s.setByte (place (AM1 s.acon) addr) val else s := by
  have hrun : ((write_mem addr val).run s).2 = ((if (place (AM1 s.acon) addr).Inside then
      modify fun s' => s'.setByte (place (AM1 s.acon) addr) val else pure () : DataProg Unit).run s).2 := rfl
  rw [hrun]
  split
  · rfl
  · rfl

theorem movx_Sdptr_a_run (s : DataMachine) : (inst_movx_Sdptr_a.run s).2 = (s.stored.switched s.dps).ticked := by
  have hrun : (inst_movx_Sdptr_a.run s).2 = ((do
      core (switch_dptr s.dps)
      core (tick 1)
      return .go : DataProg Res).run ((write_mem ((read_dptr (select s.dps)).run s.toMachine).1
        (((read_dptr (select s.dps)).run s.toMachine).2.sfr.cell ACC)).run
          { s with toMachine := ((read_dptr (select s.dps)).run s.toMachine).2 }).2).2 := rfl
  rw [hrun, read_dptr_run (select_cases _)]
  show ((do core (switch_dptr s.dps); core (tick 1); return .go : DataProg Res).run
    ((write_mem s.addr (s.sfr.cell ACC)).run s).2).2 = _
  rw [write_mem_run, ← stored, ← switch_dptr_run]
  rfl

/-- The writes of `inc_dptr`, and what comes behind. The registers of the pointers have no hardware. -/
theorem write_dptr_run {d : Dptr} (hd : d = dptr0 ∨ d = dptr1) (s : DataMachine) (x h l : UChar)
    (rest : Prog Hw Res) :
    ((core (do
      if AM1 s.acon then write_sfr d.px x
      write_sfr d.ph h
      write_sfr d.pl l
      rest)).run s).2 = ((core rest).run (((if AM1 s.acon then s.put d.px x else s).put d.ph h).put d.pl l)).2 := by
  rcases hd with rfl | rfl
  · cases AM1 s.acon with
    | true => rfl
    | false => rfl
  · cases AM1 s.acon with
    | true => rfl
    | false => rfl

theorem inc_dptr_run (s : DataMachine) : ((core inst_inc_dptr).run s).2 = (s.counted.switched s.dps).ticked := by
  have hrun : ((core inst_inc_dptr).run s).2 = ((core (do
      let dptr : BitVec 64 := BitVec.ofNat 64 ((read_dptr (select s.dps)).run s.toMachine).1
      let dptr := if ID s.dps then dptr - 1 else dptr + 1
      if AM1 ((read_dptr (select s.dps)).run s.toMachine).2.acon then
        write_sfr (select s.dps).px ((dptr >>> 16).setWidth 8)
      write_sfr (select s.dps).ph ((dptr >>> 8).setWidth 8)
      write_sfr (select s.dps).pl (dptr.setWidth 8)
      switch_dptr s.dps
      tick 1
      return Res.go)).run { s with toMachine := ((read_dptr (select s.dps)).run s.toMachine).2 }).2 := rfl
  rw [hrun, read_dptr_run (select_cases _)]
  show ((core (do
      if AM1 s.acon then write_sfr (select s.dps).px ((s.next >>> 16).setWidth 8)
      write_sfr (select s.dps).ph ((s.next >>> 8).setWidth 8)
      write_sfr (select s.dps).pl (s.next.setWidth 8)
      switch_dptr s.dps
      tick 1
      return Res.go)).run s).2 = _
  rw [write_dptr_run (select_cases _), ← counted, ← switch_dptr_run]
  rfl

theorem view_ticked (s : DataMachine) : s.ticked.view = s.view := rfl

theorem view_put_psw (s : DataMachine) (val : UChar) : (s.put PSW val).view = s.view := rfl

theorem view_put_acc (s : DataMachine) (val : UChar) : (s.put ACC val).view = { s.view with acc := val } := rfl

theorem view_put_dps (s : DataMachine) (val : UChar) :
    (s.put DPS val).view = { s.view with tsl := TSL val, down := ID val, sel := SEL val } := rfl

theorem view_setByte (s : DataMachine) (p : Place) (val : UChar) :
    (s.setByte p val).view = { s.view with byte := Function.update s.view.byte p val } := by
  have hbyte : (s.setByte p val).byte = Function.update s.byte p val := by
    funext q
    cases p with
    | xram addr =>
      cases q with
      | xram addr' => simp [byte, setByte, Function.update_apply]
      | ixram addr' => rfl
    | ixram addr =>
      cases q with
      | xram addr' => rfl
      | ixram addr' => simp [byte, setByte, Function.update_apply]
  cases p with
  | xram addr => exact View.ext rfl rfl rfl rfl rfl rfl rfl rfl rfl hbyte
  | ixram addr => exact View.ext rfl rfl rfl rfl rfl rfl rfl rfl rfl hbyte

theorem view_switched {s : DataMachine} {dps : UChar} (h : s.dps = dps) : (s.switched dps).view = s.view.switched := by
  obtain ⟨hsel, htsl, hid⟩ := switched_dps dps
  have hview : s.view.tsl = TSL dps ∧ s.view.down = ID dps ∧ s.view.sel = SEL dps := by
    rw [← h]
    exact ⟨rfl, rfl, rfl⟩
  obtain ⟨htsl', hid', hsel'⟩ := hview
  rw [switched, View.switched]
  cases hswitch : TSL dps with
  | true =>
    rw [if_pos rfl, view_put_dps, hsel, htsl, hid, ← htsl', ← hid', ← hsel', htsl', hswitch, Bool.xor_true]
  | false =>
    rw [if_neg Bool.false_ne_true]
    exact View.ext rfl rfl rfl rfl rfl (by rw [htsl', hswitch, Bool.xor_false]) rfl rfl rfl rfl

theorem view_place (s : DataMachine) : s.view.place = place (AM1 s.acon) s.addr := by
  have hsel : s.view.sel = SEL s.dps := rfl
  rw [View.place, addr, select, hsel]
  cases SEL s.dps with
  | true => rfl
  | false => rfl

theorem view_loaded (s : DataMachine) : s.loaded.view = s.view.load := by
  rw [loaded, view_put_acc, view_put_psw, ← view_place]
  rfl

theorem view_stored (s : DataMachine) : s.stored.view = s.view.store := by
  rw [stored, View.store, ← view_place]
  split
  · exact view_setByte s _ _
  · rfl

theorem view_put_dptr0 (s : DataMachine) (x h l : UChar) :
    (((if AM1 s.acon then s.put DPX x else s).put DPH h).put DPL l).view =
      { s.view with p0 := address (if AM1 s.acon then x else 0) h l } := by
  by_cases hAM : AM1 s.acon = true
  · rw [if_pos hAM, if_pos hAM]
    have hvalue : (((s.put DPX x).put DPH h).put DPL l).view.p0 = address (if AM1 s.acon then x else 0) h l := rfl
    rw [if_pos hAM] at hvalue
    exact View.ext rfl rfl rfl rfl rfl rfl hvalue rfl rfl rfl
  · rw [if_neg hAM, if_neg hAM]
    have hvalue : ((s.put DPH h).put DPL l).view.p0 = address (if AM1 s.acon then s.sfr.cell DPX else 0) h l := rfl
    rw [if_neg hAM] at hvalue
    exact View.ext rfl rfl rfl rfl rfl rfl hvalue rfl rfl rfl

theorem view_put_dptr1 (s : DataMachine) (x h l : UChar) :
    (((if AM1 s.acon then s.put DPX1 x else s).put DPH1 h).put DPL1 l).view =
      { s.view with p1 := address (if AM1 s.acon then x else 0) h l } := by
  by_cases hAM : AM1 s.acon = true
  · rw [if_pos hAM, if_pos hAM]
    have hvalue : (((s.put DPX1 x).put DPH1 h).put DPL1 l).view.p1 = address (if AM1 s.acon then x else 0) h l := rfl
    rw [if_pos hAM] at hvalue
    exact View.ext rfl rfl rfl rfl rfl rfl rfl hvalue rfl rfl
  · rw [if_neg hAM, if_neg hAM]
    have hvalue : ((s.put DPH1 h).put DPL1 l).view.p1 = address (if AM1 s.acon then s.sfr.cell DPX1 else 0) h l := rfl
    rw [if_neg hAM] at hvalue
    exact View.ext rfl rfl rfl rfl rfl rfl rfl hvalue rfl rfl

theorem view_counted (s : DataMachine) : s.counted.view = s.view.count := by
  have hmoved := moved_one (AM1 s.acon) (ID s.dps) (value_lt (select s.dps) s.sfr.cell (AM1 s.acon)) s.next rfl
  have hsel : s.view.sel = SEL s.dps := rfl
  rw [counted, View.count, hsel]
  rw [select] at hmoved ⊢
  cases hdps : SEL s.dps with
  | true =>
    simp only [hdps, if_true] at hmoved ⊢
    rw [dptr1, view_put_dptr1, hmoved]
    exact View.ext rfl rfl rfl rfl rfl (hsel.trans hdps) rfl rfl rfl rfl
  | false =>
    simp only [hdps, Bool.false_eq_true, if_false] at hmoved ⊢
    rw [dptr0, view_put_dptr0, hmoved]
    exact View.ext rfl rfl rfl rfl rfl (hsel.trans hdps) rfl rfl rfl rfl

theorem loaded_dps (s : DataMachine) : s.loaded.dps = s.dps := rfl

theorem stored_dps (s : DataMachine) : s.stored.dps = s.dps := by
  rw [stored]
  split
  · cases place (AM1 s.acon) s.addr with
    | xram addr => rfl
    | ixram addr => rfl
  · rfl

theorem counted_dps (s : DataMachine) : s.counted.dps = s.dps := by
  rw [counted]
  rcases select_cases s.dps with hd | hd
  · rw [hd]
    split
    · rfl
    · rfl
  · rw [hd]
    split
    · rfl
    · rfl

/-- Reading the code moves on, and leaves the rest alone. -/
theorem start_run {s : DataMachine} (hPC : s.PC < 0x20000) :
    ((core start_inst).run s).1 = s.rom s.PC ∧ ((core start_inst).run s).2.view = s.view.started := by
  have hrun : (core start_inst).run s = ((fetch.run { s.toMachine with instPC := s.PC }).1,
      { toMachine := ((tick 1).run (fetch.run { s.toMachine with instPC := s.PC }).2).2, xram := s.xram }) := rfl
  have hfetch := Machine.fetch_run (s := { s.toMachine with instPC := s.PC }) hPC
  rw [hrun, hfetch]
  exact ⟨rfl, rfl⟩

variable {other : UChar → DataProg Res} {s : DataMachine}

theorem step_eq {code : UChar} (hPC : s.PC < 0x20000) (hcode : s.rom s.PC = code) :
    s.step other = ((dispatch_data other code).run ((core start_inst).run s).2).2 := by
  rw [← hcode, ← (start_run hPC).1]
  rfl

/-- The instructions do what the machine with two numbers does. -/
theorem step_load {v : View} (h : s.view = v) (hPC : v.PC < 0x20000) (hcode : v.rom v.PC = 0xe0) :
    (s.step other).view = v.started.load.switched := by
  subst h
  have hview := (start_run hPC).2
  rw [step_eq hPC hcode]
  show (inst_movx_a_Sdptr.run ((core start_inst).run s).2).2.view = _
  rw [movx_a_Sdptr_run, view_ticked, view_switched (loaded_dps _), view_loaded, hview]

theorem step_store {v : View} (h : s.view = v) (hPC : v.PC < 0x20000) (hcode : v.rom v.PC = 0xf0) :
    (s.step other).view = v.started.store.switched := by
  subst h
  have hview := (start_run hPC).2
  rw [step_eq hPC hcode]
  show (inst_movx_Sdptr_a.run ((core start_inst).run s).2).2.view = _
  rw [movx_Sdptr_a_run, view_ticked, view_switched (stored_dps _), view_stored, hview]

theorem step_count {v : View} (h : s.view = v) (hPC : v.PC < 0x20000) (hcode : v.rom v.PC = 0xa3) :
    (s.step other).view = v.started.count.switched := by
  subst h
  have hview := (start_run hPC).2
  rw [step_eq hPC hcode]
  show ((core inst_inc_dptr).run ((core start_inst).run s).2).2.view = _
  rw [inc_dptr_run, view_ticked, view_switched (counted_dps _), view_counted, hview]

end DataMachine

/-! ## The loop -/

theorem moved_zero {am1 : Bool} (down : Bool) {p : Nat} (hp : p < range am1) : moved am1 down p 0 = p := by
  cases down with
  | true => simp [moved, Nat.mod_eq_of_lt hp]
  | false => simp [moved, Nat.mod_eq_of_lt hp]

theorem range_cases (am1 : Bool) : range am1 = 0x1000000 ∨ range am1 = 0x10000 := by
  cases am1 with
  | true => exact .inl rfl
  | false => exact .inr rfl

theorem moved_succ (am1 down : Bool) (p n : Nat) :
    moved am1 down (moved am1 down p n) 1 = moved am1 down p (n + 1) := by
  cases down with
  | true =>
    simp only [moved, if_true]
    rcases range_cases am1 with h | h
    · rw [h]
      omega
    · rw [h]
      omega
  | false => simp [moved, Nat.add_assoc]

/-- Where one pointer comes back, the other one does as well. -/
theorem moved_congr {am1 down : Bool} {p q m n : Nat} (h : moved am1 down p m = moved am1 down p n) :
    moved am1 down q m = moved am1 down q n := by
  cases down with
  | true =>
    simp only [moved, if_true] at h ⊢
    rcases range_cases am1 with hr | hr
    · rw [hr] at h ⊢
      omega
    · rw [hr] at h ⊢
      omega
  | false =>
    simp only [moved, Bool.false_eq_true, if_false] at h ⊢
    have hcongr : m ≡ n [MOD range am1] := Nat.ModEq.add_left_cancel' p h
    exact hcongr.add_left q

theorem place_inj {am1 : Bool} {a b : Nat} (h : place am1 a = place am1 b) : a = b := by
  unfold place at h
  split at h
  case isTrue ha =>
    split at h
    case isTrue hb =>
      have hsame := Place.ixram.inj h
      omega
    case isFalse => cases h
  case isFalse ha =>
    split at h
    case isTrue => cases h
    case isFalse => exact Place.xram.inj h

namespace View

/-- `MOVX A,@DPTR; MOVX @DPTR,A; INC DPTR; INC DPTR`. -/
def sequence (v : View) : View :=
  v.started.load.switched.started.store.switched.started.count.switched.started.count.switched

theorem count_code (v : View) : v.count.rom = v.rom ∧ v.count.PC = v.PC := by
  rw [count]
  split
  · exact ⟨rfl, rfl⟩
  · exact ⟨rfl, rfl⟩

theorem sequence_eq {v : View} (htsl : v.tsl = true) (hsel : v.sel = false)
    (hinside : (Uc390.place v.am1 v.p1).Inside) :
    v.sequence =
      { v with
        PC := (v.PC + 4) % 0x20000
        acc := v.byte (Uc390.place v.am1 v.p0)
        byte := Function.update v.byte (Uc390.place v.am1 v.p1) (v.byte (Uc390.place v.am1 v.p0))
        p0 := moved v.am1 v.down v.p0 1
        p1 := moved v.am1 v.down v.p1 1 } := by
  obtain ⟨rom, PC, am1, tsl, down, sel, p0, p1, acc, byte⟩ := v
  dsimp only at htsl hsel hinside
  subst htsl hsel
  have hPC : ((((PC + 1) % 0x20000 + 1) % 0x20000 + 1) % 0x20000 + 1) % 0x20000 = (PC + 4) % 0x20000 := by omega
  simp only [sequence, started, load, store, count, switched, place, Bool.xor_true, Bool.not_false, Bool.not_true,
    if_true, Bool.false_eq_true, if_false, if_pos hinside, hPC]

/-- The bytes that a pointer passes. -/
def passed (v : View) (p i : Nat) : Place := Uc390.place v.am1 (moved v.am1 v.down p i)

/-- What `n` of the sequences make of a machine. -/
structure Copied (v : View) (n : Nat) (v' : View) : Prop where
  rom : v'.rom = v.rom
  PC : v'.PC = (v.PC + 4 * n) % 0x20000
  am1 : v'.am1 = v.am1
  tsl : v'.tsl = true
  down : v'.down = v.down
  sel : v'.sel = false
  p0 : v'.p0 = moved v.am1 v.down v.p0 n
  p1 : v'.p1 = moved v.am1 v.down v.p1 n
  copied : ∀ i < n, v'.byte (v.passed v.p1 i) = v.byte (v.passed v.p0 i)
  others : ∀ q, (∀ i < n, q ≠ v.passed v.p1 i) → v'.byte q = v.byte q

theorem Copied.step {v v' : View} {n : Nat} (h : Copied v n v') (hinside : (v.passed v.p1 n).Inside)
    (hapart : ∀ i < n, v.passed v.p0 n ≠ v.passed v.p1 i) : Copied v (n + 1) v'.sequence := by
  have hsrc : Uc390.place v'.am1 v'.p0 = v.passed v.p0 n := by rw [h.am1, h.p0, passed]
  have hdst : Uc390.place v'.am1 v'.p1 = v.passed v.p1 n := by rw [h.am1, h.p1, passed]
  have hread : v'.byte (v.passed v.p0 n) = v.byte (v.passed v.p0 n) := h.others _ hapart
  rw [sequence_eq h.tsl h.sel (by rw [hdst]; exact hinside), hsrc, hdst, hread]
  refine ⟨h.rom, ?_, h.am1, h.tsl, h.down, h.sel, ?_, ?_, ?_, ?_⟩
  · show (v'.PC + 4) % 0x20000 = _
    rw [h.PC]
    omega
  · show moved v'.am1 v'.down v'.p0 1 = _
    rw [h.am1, h.down, h.p0, moved_succ]
  · show moved v'.am1 v'.down v'.p1 1 = _
    rw [h.am1, h.down, h.p1, moved_succ]
  · intro i hi
    by_cases hsame : v.passed v.p1 i = v.passed v.p1 n
    · -- the pointers have come back, both of them
      have hback : v.passed v.p0 i = v.passed v.p0 n :=
        congrArg (Uc390.place v.am1) (moved_congr (place_inj hsame))
      simp only [hsame, hback, Function.update_self]
    · have hlt : i < n := by
        rcases Nat.lt_succ_iff_lt_or_eq.mp hi with hlt | rfl
        · exact hlt
        · exact absurd rfl hsame
      simp only [Function.update_of_ne hsame]
      exact h.copied i hlt
  · intro q hq
    simp only [Function.update_of_ne (hq n (Nat.lt_succ_self n))]
    exact h.others q fun i hi => hq i (Nat.lt_succ_of_lt hi)

end View

namespace DataMachine

variable {other : UChar → DataProg Res} {s : DataMachine}

def run (other : UChar → DataProg Res) (n : Nat) (s : DataMachine) : DataMachine := (step other)^[n] s

/-- The code of the sequence. -/
def code (i : Nat) : UChar :=
  match i % 4 with
  | 0 => 0xe0
  | 1 => 0xf0
  | _ => 0xa3

/-- Four steps over the code of the sequence. -/
theorem run_sequence {t : DataMachine} (hPC : t.PC < 0x20000)
    (hcode : ∀ k < 4, t.rom ((t.PC + k) % 0x20000) = code k) : (run other 4 t).view = t.view.sequence := by
  have hcode0 := hcode 0 (by omega)
  have hcode1 := hcode 1 (by omega)
  have hcode2 := hcode 2 (by omega)
  have hcode3 := hcode 3 (by omega)
  have hPC2 : ((t.PC + 1) % 0x20000 + 1) % 0x20000 = (t.PC + 2) % 0x20000 := by omega
  have hPC3 : (((t.PC + 1) % 0x20000 + 1) % 0x20000 + 1) % 0x20000 = (t.PC + 3) % 0x20000 := by omega
  rw [Nat.add_zero, Nat.mod_eq_of_lt hPC] at hcode0
  rw [← hPC2] at hcode2
  rw [← hPC3] at hcode3
  have h1 : (t.step other).view = t.view.started.load.switched := step_load rfl hPC hcode0
  have h2 : ((t.step other).step other).view = t.view.started.load.switched.started.store.switched :=
    step_store h1 (Nat.mod_lt _ (by omega)) hcode1
  have h3 : (((t.step other).step other).step other).view =
      t.view.started.load.switched.started.store.switched.started.count.switched :=
    step_count h2 (Nat.mod_lt _ (by omega)) hcode2
  obtain ⟨hrom, hPC'⟩ := t.view.started.load.switched.started.store.switched.started.count_code
  apply step_count h3
  · exact hPC'.trans_lt (Nat.mod_lt _ (by omega))
  · show View.rom (View.count _) (View.PC (View.count _)) = _
    rw [hrom, hPC']
    exact hcode3

theorem run_copied (hTSL : TSL s.dps = true) (hSEL : SEL s.dps = false) (hPC : s.PC < 0x20000) {n : Nat}
    (hcode : ∀ i < 4 * n, s.rom ((s.PC + i) % 0x20000) = code i)
    (hinside : ∀ i < n, (s.view.passed s.view.p1 i).Inside)
    (hapart : ∀ i < n, ∀ j < n, s.view.passed s.view.p0 i ≠ s.view.passed s.view.p1 j) :
    View.Copied s.view n (run other (4 * n) s).view := by
  induction n with
  | zero =>
    have hp0 := moved_zero (ID s.dps) (value_lt dptr0 s.sfr.cell (AM1 s.acon))
    have hp1 := moved_zero (ID s.dps) (value_lt dptr1 s.sfr.cell (AM1 s.acon))
    exact ⟨rfl, (Nat.mod_eq_of_lt hPC).symm, rfl, hTSL, rfl, hSEL, hp0.symm, hp1.symm,
      fun i hi => absurd hi (Nat.not_lt_zero i), fun q _ => rfl⟩
  | succ n ih =>
    have h := ih (fun i hi => hcode i (by omega)) (fun i hi => hinside i (by omega))
      (fun i hi j hj => hapart i (by omega) j (by omega))
    have hrun : run other (4 * (n + 1)) s = run other 4 (run other (4 * n) s) := by
      rw [run, Nat.mul_succ, Nat.add_comm, Function.iterate_add_apply]
      rfl
    have hPC' : (run other (4 * n) s).PC = (s.PC + 4 * n) % 0x20000 := h.PC
    have hrom : (run other (4 * n) s).rom = s.rom := h.rom
    rw [hrun, run_sequence]
    · exact h.step (hinside n (by omega)) fun i hi => hapart n (by omega) i (by omega)
    · rw [hPC']
      omega
    · intro k hk
      have hsame := hcode (4 * n + k) (by omega)
      rw [hPC', hrom, Nat.mod_add_mod, Nat.add_assoc, hsame, code, Nat.mul_add_mod, ← code]

/-- With TSL set and DPTR0 selected, the sequence copies byte by byte from DPTR0 to DPTR1, in 16-bit and in 24-bit mode
and up as well as down. Ranges count as the pointers do. -/
theorem dual_copy (other : UChar → DataProg Res) {s : DataMachine} {n : Nat} (hTSL : TSL s.dps = true)
    (hSEL : SEL s.dps = false) (hPC : s.PC < 0x20000)
    (hcode : ∀ i < 4 * n, s.rom ((s.PC + i) % 0x20000) = code i)
    (hinside : ∀ i < n, (s.view.passed s.view.p0 i).Inside ∧ (s.view.passed s.view.p1 i).Inside)
    (hapart : ∀ i < n, ∀ j < n, s.view.passed s.view.p0 i ≠ s.view.passed s.view.p1 j) :
    (∀ i < n, (run other (4 * n) s).byte (s.view.passed s.view.p1 i) = s.byte (s.view.passed s.view.p0 i)) ∧
      (∀ q, (∀ i < n, q ≠ s.view.passed s.view.p1 i) → (run other (4 * n) s).byte q = s.byte q) ∧
      (run other (4 * n) s).view.p0 = moved (AM1 s.acon) (ID s.dps) s.view.p0 n ∧
      (run other (4 * n) s).view.p1 = moved (AM1 s.acon) (ID s.dps) s.view.p1 n ∧
      SEL (run other (4 * n) s).dps = false := by
  have h : View.Copied s.view n (run other (4 * n) s).view :=
    run_copied hTSL hSEL hPC hcode (fun i hi => (hinside i hi).2) hapart
  exact ⟨h.copied, h.others, h.p0, h.p1, h.sel⟩

/-- Two bytes are to go from 0x10 to 0x40. -/
def copying : DataMachine where
  rom := code
  iram _ := 0
  ixram _ := 0
  sfr :=
    { cell := fun a =>
        if a = DPS then 0x20 else if a = DPL then 0x10 else if a = DPL1 then 0x40 else if a = ACON then 0xf8 else 0
      wasReti := false
      hw := ⟨0, 0, 0⟩ }
  PC := 0
  instPC := 0
  state := .go
  ticks := 0
  instTicks := 0
  itLevels := []
  stackOps := []
  errors := []
  xram a := BitVec.ofNat 8 a

/-- Other instructions that do nothing. -/
def idle (_ : UChar) : DataProg Res := pure .go

/-- Two bytes are copied. -/
theorem dual_copy_copying : (run idle 8 copying).xram 0x41 = 0x11 ∧ (run idle 8 copying).view.p1 = 0x42 := by
  have hcode : ∀ i < 4 * 2, copying.rom ((copying.PC + i) % 0x20000) = code i := by decide
  obtain ⟨hcopied, -, -, hp1, -⟩ := dual_copy idle (n := 2) (s := copying) (by decide) (by decide) (by decide) hcode
    (by decide) (by decide)
  have hsrc : copying.view.passed copying.view.p0 1 = .xram 0x11 := by decide
  have hdst : copying.view.passed copying.view.p1 1 = .xram 0x41 := by decide
  have hbyte := hcopied 1 (by decide)
  rw [hsrc, hdst] at hbyte
  exact ⟨hbyte, hp1⟩

end DataMachine

end Ucsim.S51.Uc390
