import Mathlib.Tactic.FinCases
import Ucsim.S51.CcTimer

/-!
# Timers 3 and 4

The two timers with a count of eight bits and two channels are the same but for their registers.
-/

namespace Ucsim.S51

open Logic

namespace CcTimer

/-- What `init` of timer 3 or 4 sets up, for the registers of the timer. -/
def charWiring (TxCTL TxCNT TxCCTL0 TxCCTL1 : Int) (OVFIFMask IrconFlag : TMem) (decal : Nat) :
    Wiring 8 where
  channels := [0, 1]
  cell_txctl := .sfr TxCTL
  cell_OvfMaskReg := .sfr TxCTL
  cell_OvfFlagReg := .sfr Reg.TIMIF
  cell_FlagReg := .sfr Reg.TIMIF
  cell_tl := .sfr TxCNT
  cell_th := none
  OVFMaskMask := 0x08
  OVFIFMask := OVFIFMask
  IrconFlag := IrconFlag
  regCTL i := if i = 0 then .sfr TxCCTL0 else .sfr TxCCTL1
  countMode t :=
    if t.TR ≠ 0 then
      if t.mode = 0 then .freeRunning else if t.mode = 1 then .down else if t.mode = 2 then .modulo
      else .upDown
    else .stop
  down _ t := t.mode = 1 ∨ t.mode = 3 ∧ t.up_down
  first _ := true
  flag i := (1 <<< i.val) <<< decal
  request _ := true

/-- `write` of timer 3 or 4. -/
def charWrite (K : Wiring 8) (TxCC0 TxCC1 : Int) (c : Site) (v : TMem) (st : CcSt 8) : CcSt 8 :=
  let st := baseWrite K c v st
  let st := if c = K.cell_txctl then
      -- The test never holds: the bit that is masked is not the lowest.
      let mem := if v &&& 0x04 = 1 then Function.update st.mem K.cell_tl 0 else st.mem
      { mem := mem, hw := { st.hw with TR := v &&& 0x10, prescale := 1 <<< (v >>> 5).toNat } }
    else st
  if c = .sfr TxCC0 then
    getNextCcEvent K
      { st with hw := { st.hw with ValRegCMP := Function.update st.hw.ValRegCMP 0 (v.setWidth 8) } }
  else if c = .sfr TxCC1 then
    getNextCcEvent K
      { st with hw := { st.hw with ValRegCMP := Function.update st.hw.ValRegCMP 1 (v.setWidth 8) } }
  else st

theorem baseWrite_mem {w : Nat} (K : Wiring w) (c : Site) (v : TMem) (st : CcSt w) :
    (baseWrite K c v st).mem = st.mem := by
  rw [baseWrite]
  split <;> rfl

/-- The test for the clear bit. -/
theorem clear_test (v : TMem) : ¬ (v &&& 0x04 = 1) := by
  intro h
  have hbit := congrArg (fun x : TMem => x.getLsbD 0) h
  simp at hbit

/-- The timer's part of a write leaves memory alone. -/
theorem charWrite_mem (K : Wiring 8) (TxCC0 TxCC1 : Int) (c : Site) (v : TMem) (st : CcSt 8) :
    (charWrite K TxCC0 TxCC1 c v st).mem = st.mem := by
  have hctl : ∀ st' : CcSt 8, st' = (if c = K.cell_txctl then
      { mem := if v &&& 0x04 = 1 then Function.update (baseWrite K c v st).mem K.cell_tl 0
          else (baseWrite K c v st).mem,
        hw := { (baseWrite K c v st).hw with TR := v &&& 0x10, prescale := 1 <<< (v >>> 5).toNat } }
      else baseWrite K c v st) → st'.mem = st.mem := by
    rintro st' rfl
    rw [if_neg (clear_test v), ← baseWrite_mem K c v st]
    split <;> rfl
  rw [charWrite, ← hctl _ rfl]
  dsimp only
  split
  · rfl
  · split <;> rfl

end CcTimer

namespace Timer3

open CcTimer

/-- What `init` sets up. -/
def wiring : Wiring 8 := charWiring Reg.T3CTL Reg.T3CNT Reg.T3CCTL0 Reg.T3CCTL1 0x08 0x08 1

/-- `write`. -/
def write : Site → TMem → CcSt 8 → CcSt 8 := charWrite wiring Reg.T3CC0 Reg.T3CC1

/-- The cells that the constructor of the template and `init` register. -/
def registered : List Site :=
  [.sfr Reg.CLKCONCMD, .sfr Reg.IRCON, .sfr Reg.TIMIF, .sfr Reg.T3CTL, .sfr Reg.T3CC0, .sfr Reg.T3CC1,
    .sfr Reg.T3CTL, .sfr Reg.TIMIF, .sfr Reg.TIMIF]

/-- Timer 3 as an element of the board. -/
def element : Element (CcTimer 8) where
  cathegory := .timer
  registered := registered
  read c st := st.mem c
  write := write
  registered_core := by decide
  registered_code := by decide
  write_bytes c v st h := by
    rw [write, charWrite_mem]
    exact h

/-- What a capture writes: the count of timer 1. -/
def store (i : Fin 5) (st : CcSt 8) : CcSt 8 :=
  element.writeReg (if i = 0 then .sfr Reg.T3CC0 else .sfr Reg.T3CC1) (st.mem (.sfr Reg.T1CNTL)) st

end Timer3

namespace Timer4

open CcTimer

/-- What `init` sets up. -/
def wiring : Wiring 8 := charWiring Reg.T4CTL Reg.T4CNT Reg.T4CCTL0 Reg.T4CCTL1 0x10 0x10 4

/-- `write`. -/
def write : Site → TMem → CcSt 8 → CcSt 8 := charWrite wiring Reg.T4CC0 Reg.T4CC1

/-- The cells that the constructor of the template and `init` register. -/
def registered : List Site :=
  [.sfr Reg.CLKCONCMD, .sfr Reg.IRCON, .sfr Reg.TIMIF, .sfr Reg.T4CTL, .sfr Reg.T4CC0, .sfr Reg.T4CC1,
    .sfr Reg.T4CTL, .sfr Reg.TIMIF, .sfr Reg.TIMIF]

/-- Timer 4 as an element of the board. -/
def element : Element (CcTimer 8) where
  cathegory := .timer
  registered := registered
  read c st := st.mem c
  write := write
  registered_core := by decide
  registered_code := by decide
  write_bytes c v st h := by
    rw [write, charWrite_mem]
    exact h

/-- What a capture writes: the count of timer 1. -/
def store (i : Fin 5) (st : CcSt 8) : CcSt 8 :=
  element.writeReg (if i = 0 then .sfr Reg.T4CC0 else .sfr Reg.T4CC1) (st.mem (.sfr Reg.T1CNTL)) st

end Timer4

end Ucsim.S51
