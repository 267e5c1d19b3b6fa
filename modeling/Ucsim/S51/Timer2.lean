import Mathlib.Data.BitVec
import Ucsim.Logic.Run
import Ucsim.Logic.Odometer

/-!
# Timer 2

Timer 2 has 16 bits and the modes that T2CON and T2MOD choose.
-/

namespace Ucsim.S51

open Logic

/-- `T2MODE_RELOAD` and so on. -/
inductive Timer2Mode
  | RELOAD | CAPTURE | BAUDRATE | OFF | DOWN | CLKOUT
  deriving DecidableEq, Repr

def bmTF2 : BitVec 8 := 0x80

def bmEXF2 : BitVec 8 := 0x40

def bmRCLK : BitVec 8 := 0x20

def bmTCLK : BitVec 8 := 0x10

def bmEXEN2 : BitVec 8 := 0x08

def bmTR2 : BitVec 8 := 0x04

def bmC_T2 : BitVec 8 := 0x02

def bmCP_RL2 : BitVec 8 := 0x01

def bmT2OE : BitVec 8 := 0x02

def bmDCEN : BitVec 8 := 0x01

def bmT2 : BitVec 8 := 0x01

/-- The `features` that the constructor is given. -/
structure Timer2Features where
  t2_down : Bool
  t2_clock_out : Bool
  deriving DecidableEq, Repr

/-- `cl_timer2` with its cells and the latch of port 1. `exf2it` tells whether this interrupt source is active.
`overflows` and `modeChanges` are the events that the partners are informed of. `clocks` and `noted` record how
often the count has been moved and how often that has set TF2. -/
structure Timer2 where
  mode : Timer2Mode
  C_T : Bool
  TR : Bool
  RCLK : Bool
  TCLK : Bool
  CP_RL2 : Bool
  EXEN2 : Bool
  bit_dcen : Bool
  bit_t2oe : Bool
  bit_t2ex : Bool
  T_edge : Nat
  t2ex_edge : Nat
  tl : BitVec 8
  th : BitVec 8
  rcap2l : BitVec 8
  rcap2h : BitVec 8
  tcon : BitVec 8
  p1 : BitVec 8
  exf2it : Bool
  overflows : Nat
  modeChanges : List (BitVec 8)
  clocks : Nat
  noted : Nat
  deriving DecidableEq, Repr

namespace Timer2

/-! ## Registers and pins -/

/-- The edges are forgotten when the mode changes or the timer is switched. -/
def forgetEdges (old t : Timer2) : Timer2 :=
  if t.mode ≠ old.mode ∨ t.TR ≠ old.TR then { t with T_edge := 0, t2ex_edge := 0 } else t

/-- The partners are told of a new mode. -/
def informModeChange (old : Timer2) (val : BitVec 8) (t : Timer2) : Timer2 :=
  if t.mode ≠ old.mode then { t with modeChanges := t.modeChanges ++ [val] } else t

/-- The mode that a write of T2CON sets. -/
def t2conMode (val : BitVec 8) : Timer2Mode :=
  let RCLK := val &&& bmRCLK ≠ 0
  let TCLK := val &&& bmTCLK ≠ 0
  let CP_RL2 := val &&& bmCP_RL2 ≠ 0
  if ¬ (RCLK ∨ TCLK) ∧ ¬ CP_RL2 then .RELOAD
  else if ¬ (RCLK ∨ TCLK) ∧ CP_RL2 then .CAPTURE
  else if RCLK ∨ TCLK then .BAUDRATE
  else .OFF

/-- `write` on the cell of T2CON, which then has the value. -/
def writeT2con (val : BitVec 8) (t : Timer2) : Timer2 :=
  forgetEdges t (informModeChange t val
    { t with
      exf2it := true
      C_T := val &&& bmC_T2 ≠ 0
      TR := val &&& bmTR2 ≠ 0
      RCLK := val &&& bmRCLK ≠ 0
      TCLK := val &&& bmTCLK ≠ 0
      CP_RL2 := val &&& bmCP_RL2 ≠ 0
      EXEN2 := val &&& bmEXEN2 ≠ 0
      mode := t2conMode val
      tcon := val })

/-- DCEN turns the reload mode into the down-capable one. -/
def enterDown (features : Timer2Features) (t : Timer2) : Timer2 :=
  if features.t2_down ∧ t.bit_dcen ∧ t.mode = .RELOAD then { t with mode := .DOWN, exf2it := false } else t

/-- T2OE turns any mode into the clock-out mode. -/
def enterClkout (features : Timer2Features) (t : Timer2) : Timer2 :=
  if features.t2_clock_out ∧ t.bit_t2oe then { t with mode := .CLKOUT } else t

/-- `write` on the cell of T2MOD. -/
def writeT2mod (features : Timer2Features) (val : BitVec 8) (t : Timer2) : Timer2 :=
  forgetEdges t (enterClkout features (enterDown features
    { t with exf2it := true, bit_dcen := val &&& bmDCEN ≠ 0, bit_t2oe := val &&& bmT2OE ≠ 0 }))

/-! ## Counting -/

/-- The count gets the value in RCAP2. -/
def reload (t : Timer2) : Timer2 := { t with th := t.rcap2h, tl := t.rcap2l }

/-- The counter sets TF2. -/
def setTF2 (t : Timer2) : Timer2 := { t with tcon := t.tcon ||| bmTF2, noted := t.noted + 1 }

/-- `inform_partners(EV_OVERFLOW, 0)`. -/
def overflow (t : Timer2) : Timer2 := { t with overflows := t.overflows + 1 }

/-- TH and TL are moved up by one. -/
def add (t : Timer2) : Timer2 :=
  let tl := t.tl + 1
  { t with tl := tl, th := if tl = 0 then t.th + 1 else t.th, clocks := t.clocks + 1 }

/-- TL and then TH have come to 0. -/
def carried (t : Timer2) : Prop := t.add.tl = 0 ∧ t.add.th = 0

instance (t : Timer2) : Decidable t.carried := inferInstanceAs (Decidable (_ ∧ _))

/-- The body of the loop of `do_t2_baud`. -/
def countBaud (t : Timer2) : Timer2 := if t.carried then t.add.reload.overflow else t.add

/-- The one count of `do_t2_capture`. -/
def countCapture (t : Timer2) : Timer2 := if t.carried then t.add.setTF2 else t.add

/-- The one count of `do_t2_reload`, and of the first loop of `do_t2_down` when TL comes to 0. -/
def countReload (t : Timer2) : Timer2 := if t.carried then t.add.setTF2.reload else t.add

/-- TH and TL are moved down by one. -/
def sub (t : Timer2) : Timer2 :=
  let tl := t.tl - 1
  { t with tl := tl, th := if tl = 0xff then t.th - 1 else t.th, clocks := t.clocks + 1 }

/-- The two registers as one number. -/
def count (t : Timer2) : Nat := t.th.toNat * 256 + t.tl.toNat

def rcap2 (t : Timer2) : Nat := t.rcap2h.toNat * 256 + t.rcap2l.toNat

/-- The body of the second loop of `do_t2_down`. -/
def countDown (t : Timer2) : Timer2 :=
  if t.sub.count < t.rcap2 then { t.sub.setTF2 with th := 0xff, tl := 0xff } else t.sub

/-- The body of the loop of `do_t2_clock_out`. -/
def countClkout (t : Timer2) : Timer2 :=
  if t.carried then
    let t := t.add.reload.overflow
    if t.C_T then t else { t with p1 := t.p1 ^^^ bmT2 }
  else t.add

/-- An edge on T2EX that has been recorded sets EXF2. -/
def takeT2ex (onEdge : Timer2 → Timer2) (t : Timer2) : Timer2 :=
  if t.EXEN2 ∧ t.t2ex_edge ≠ 0 then { onEdge { t with tcon := t.tcon ||| bmEXF2 } with t2ex_edge := 0 } else t

/-- How often to count, and the edges on T2 that are left. -/
def takeCycles (cycles : Nat) (t : Timer2) : Nat × Timer2 :=
  if t.C_T then (t.T_edge, { t with T_edge := 0 }) else (cycles, t)

/-- `do_t2_baud`. -/
def do_t2_baud (cycles : Nat) (t : Timer2) : Timer2 :=
  let t := t.takeT2ex id
  if t.TR then
    let (n, t) := t.takeCycles (cycles * 6)
    countBaud^[n] t
  else t

/-- `do_t2_capture`. It counts once, whatever `cycles` is. -/
def do_t2_capture (cycles : Nat) (t : Timer2) : Timer2 :=
  let t := t.takeT2ex fun t => { t with rcap2h := t.th, rcap2l := t.tl }
  if t.TR then countCapture (t.takeCycles cycles).2 else t

/-- `do_t2_reload`. It counts once, whatever `cycles` is. -/
def do_t2_reload (cycles : Nat) (t : Timer2) : Timer2 :=
  let t := t.takeT2ex reload
  if t.TR then countReload (t.takeCycles cycles).2 else t

/-- The loops of `do_t2_down` as they go on. The `else` belongs to the test of TL, so that the second loop stands
inside the first one. Both of them count `cycles` down, and both end where that is 0 before a count. -/
inductive DownLoop
  | up (cycles : Int) (t : Timer2) (toggle : Bool)
  | down (cycles : Int) (t : Timer2) (toggle : Bool)
  | done (t : Timer2) (toggle : Bool)

/-- One test of `cycles--`, with the body after it. -/
def DownLoop.step : DownLoop → DownLoop
  | .up cycles t toggle =>
    if cycles = 0 then .done t toggle
    else if t.add.tl = 0 then .up (cycles - 1) t.countReload (toggle || t.carried)
    else .down (cycles - 1) t.add toggle
  | .down cycles t toggle =>
    if cycles = 0 then .up (cycles - 1) t toggle
    else .down (cycles - 1) t.countDown (toggle || t.sub.count < t.rcap2)
  | .done t toggle => .done t toggle

/-- What the loops come to. `none` stands for the endless run that the second loop leads to: it leaves `cycles` at
-1, which is counted down until the `int` overflows. -/
def downLoop : Nat → Timer2 → Bool → Option (Timer2 × Bool)
  | 0, t, toggle => some (t, toggle)
  | n + 1, t, toggle =>
    if t.add.tl = 0 then downLoop n t.countReload (toggle || t.carried) else none

/-- `do_t2_down`. With T2EX low there is no loop at all. The toggle is one of a pin, with the mask of EXF2. -/
def do_t2_down (cycles : Nat) (t : Timer2) : Option Timer2 :=
  if t.TR then
    let (n, t) := t.takeCycles cycles
    if t.bit_t2ex then
      (downLoop n t false).map fun (t, toggle) => if toggle then { t with p1 := t.p1 ^^^ bmEXF2 } else t
    else some t
  else some t

/-- `do_t2_clock_out`. -/
def do_t2_clock_out (cycles : Nat) (t : Timer2) : Timer2 :=
  let t := t.takeT2ex id
  if t.TR then
    let (n, t) := t.takeCycles (cycles * 6)
    countClkout^[n] t
  else t

/-- `tick`, if it comes back. -/
def tick (cycles : Nat) (t : Timer2) : Option Timer2 :=
  match t.mode with
  | .BAUDRATE => some (t.do_t2_baud cycles)
  | .CAPTURE => some (t.do_t2_capture cycles)
  | .RELOAD => some (t.do_t2_reload cycles)
  | .DOWN => t.do_t2_down cycles
  | .CLKOUT => some (t.do_t2_clock_out cycles)
  | .OFF => some t

/-! ## The loops of the down-capable mode -/

/-- The second loop has been entered. -/
def DownLoop.Endless : DownLoop → Prop
  | .up cycles _ _ => cycles < 0
  | .down _ _ _ => True
  | .done _ _ => False

theorem DownLoop.Endless.step {l : DownLoop} (h : l.Endless) : l.step.Endless := by
  rcases l with ⟨cycles, t, toggle⟩ | ⟨cycles, t, toggle⟩ | ⟨t, toggle⟩
  · have hneg : cycles < 0 := h
    rw [DownLoop.step, if_neg (by omega)]
    split
    · show cycles - 1 < 0
      omega
    · trivial
  · rw [DownLoop.step]
    split
    · next hzero =>
      show cycles - 1 < 0
      omega
    · trivial
  · exact h.elim

theorem DownLoop.step_done (k : Nat) (t : Timer2) (toggle : Bool) :
    DownLoop.step^[k] (.done t toggle) = .done t toggle :=
  Function.iterate_fixed rfl k

/-- Once the second loop has been entered, there is no way out of the two. -/
theorem DownLoop.Endless.not_done {l : DownLoop} (h : l.Endless) (k : Nat) (t : Timer2) (toggle : Bool) :
    DownLoop.step^[k] l ≠ .done t toggle := by
  induction k generalizing l with
  | zero =>
    rintro rfl
    exact h
  | succ k ih =>
    rw [Function.iterate_succ_apply]
    exact ih h.step

/-- `downLoop` gives what the loops end with, and nothing exactly if they do not end. -/
theorem downLoop_eq_some_iff (n : Nat) (t t' : Timer2) (toggle toggle' : Bool) :
    downLoop n t toggle = some (t', toggle') ↔ ∃ k, DownLoop.step^[k] (.up n t toggle) = .done t' toggle' := by
  induction n generalizing t toggle with
  | zero =>
    constructor
    · intro h
      obtain ⟨rfl, rfl⟩ := Prod.mk.inj (Option.some.inj h)
      exact ⟨1, rfl⟩
    · rintro ⟨_ | k, hk⟩
      · cases hk
      · have hstep : DownLoop.step (.up (0 : Nat) t toggle) = .done t toggle := rfl
        rw [Function.iterate_succ_apply, hstep, DownLoop.step_done] at hk
        obtain ⟨rfl, rfl⟩ := DownLoop.done.inj hk
        rfl
  | succ n ih =>
    have hcycles : ((n + 1 : Nat) : Int) - 1 = n := by omega
    by_cases htl : t.add.tl = 0
    · have hstep : DownLoop.step (.up (n + 1 : Nat) t toggle) = .up n t.countReload (toggle || t.carried) := by
        rw [DownLoop.step, if_neg (by omega), if_pos htl, hcycles]
      rw [downLoop, if_pos htl, ih]
      constructor
      · rintro ⟨k, hk⟩
        exact ⟨k + 1, by rw [Function.iterate_succ_apply, hstep, hk]⟩
      · rintro ⟨_ | k, hk⟩
        · cases hk
        · exact ⟨k, by rwa [Function.iterate_succ_apply, hstep] at hk⟩
    · have hstep : DownLoop.step (.up (n + 1 : Nat) t toggle) = .down n t.add toggle := by
        rw [DownLoop.step, if_neg (by omega), if_neg htl, hcycles]
      rw [downLoop, if_neg htl]
      refine iff_of_false (by simp) ?_
      rintro ⟨_ | k, hk⟩
      · cases hk
      · rw [Function.iterate_succ_apply, hstep] at hk
        exact DownLoop.Endless.not_done (l := .down n t.add toggle) trivial k t' toggle' hk

/-! ## Mode selection -/

/-- A write of T2CON or T2MOD. -/
inductive ModeWrite
  | t2con (val : BitVec 8)
  | t2mod (val : BitVec 8)
  deriving DecidableEq

/-- The last values of T2CON and T2MOD. -/
structure ModeRegs where
  t2con : BitVec 8
  t2mod : BitVec 8

def ModeRegs.write (r : ModeRegs) : ModeWrite → ModeRegs
  | .t2con val => { r with t2con := val }
  | .t2mod val => { r with t2mod := val }

/-- The mode that the two registers choose. -/
def ModeRegs.mode (features : Timer2Features) (r : ModeRegs) : Timer2Mode :=
  if r.t2con &&& bmRCLK ≠ 0 ∨ r.t2con &&& bmTCLK ≠ 0 then .BAUDRATE
  else if features.t2_clock_out ∧ r.t2mod &&& bmT2OE ≠ 0 then .CLKOUT
  else if r.t2con &&& bmCP_RL2 ≠ 0 then .CAPTURE
  else if features.t2_down ∧ r.t2mod &&& bmDCEN ≠ 0 then .DOWN
  else .RELOAD

def writeMode (features : Timer2Features) (t : Timer2) : ModeWrite → Timer2
  | .t2con val => t.writeT2con val
  | .t2mod val => t.writeT2mod features val

/-- The mode is the one that the registers choose, and the interrupt source of EXF2 is active outside the
down-capable mode. -/
structure Selected (features : Timer2Features) (r : ModeRegs) (t : Timer2) : Prop where
  dcen : t.bit_dcen = decide (r.t2mod &&& bmDCEN ≠ 0)
  t2oe : t.bit_t2oe = decide (r.t2mod &&& bmT2OE ≠ 0)
  mode : t.mode = r.mode features
  source : t.exf2it = true ↔ t.mode ≠ .DOWN

/-- T2CON leaves aside what T2MOD says, and T2MOD only knows the way into its two modes. -/
def Selects (features : Timer2Features) : ModeWrite → Timer2 → Prop
  | .t2con val, t => ¬ (val &&& bmRCLK ≠ 0 ∨ val &&& bmTCLK ≠ 0) →
      ¬ (features.t2_clock_out ∧ t.bit_t2oe) ∧ (val &&& bmCP_RL2 ≠ 0 ∨ ¬ (features.t2_down ∧ t.bit_dcen))
  | .t2mod val, t => match t.mode with
    | .BAUDRATE => ¬ (features.t2_clock_out ∧ val &&& bmT2OE ≠ 0)
    | .RELOAD => ¬ ((features.t2_down ∧ val &&& bmDCEN ≠ 0) ∧ features.t2_clock_out ∧ val &&& bmT2OE ≠ 0)
    | .DOWN | .CLKOUT => features.t2_clock_out ∧ val &&& bmT2OE ≠ 0
    | .CAPTURE | .OFF => True

section Modes

variable {features : Timer2Features} {r : ModeRegs} {t : Timer2}

/-- What the choice of the mode depends on is not concerned by forgotten edges. -/
@[simp] theorem forgetEdges_mode (old t : Timer2) : (forgetEdges old t).mode = t.mode := by
  unfold forgetEdges
  split <;> rfl

@[simp] theorem forgetEdges_exf2it (old t : Timer2) : (forgetEdges old t).exf2it = t.exf2it := by
  unfold forgetEdges
  split <;> rfl

@[simp] theorem forgetEdges_bit_dcen (old t : Timer2) : (forgetEdges old t).bit_dcen = t.bit_dcen := by
  unfold forgetEdges
  split <;> rfl

@[simp] theorem forgetEdges_bit_t2oe (old t : Timer2) : (forgetEdges old t).bit_t2oe = t.bit_t2oe := by
  unfold forgetEdges
  split <;> rfl

@[simp] theorem informModeChange_mode (old t : Timer2) (val : BitVec 8) :
    (informModeChange old val t).mode = t.mode := by
  unfold informModeChange
  split <;> rfl

@[simp] theorem informModeChange_exf2it (old t : Timer2) (val : BitVec 8) :
    (informModeChange old val t).exf2it = t.exf2it := by
  unfold informModeChange
  split <;> rfl

@[simp] theorem informModeChange_bit_dcen (old t : Timer2) (val : BitVec 8) :
    (informModeChange old val t).bit_dcen = t.bit_dcen := by
  unfold informModeChange
  split <;> rfl

@[simp] theorem informModeChange_bit_t2oe (old t : Timer2) (val : BitVec 8) :
    (informModeChange old val t).bit_t2oe = t.bit_t2oe := by
  unfold informModeChange
  split <;> rfl

/-- The last of the four modes is not reached. -/
theorem t2conMode_eq (val : BitVec 8) : t2conMode val =
    if val &&& bmRCLK ≠ 0 ∨ val &&& bmTCLK ≠ 0 then .BAUDRATE
    else if val &&& bmCP_RL2 ≠ 0 then .CAPTURE else .RELOAD := by
  unfold t2conMode
  dsimp only
  by_cases hbaud : val &&& bmRCLK ≠ 0 ∨ val &&& bmTCLK ≠ 0
  · rw [if_neg (fun h => h.1 hbaud), if_neg (fun h => h.1 hbaud), if_pos hbaud, if_pos hbaud]
  · by_cases hcapture : val &&& bmCP_RL2 ≠ 0
    · rw [if_neg (fun h => h.2 hcapture), if_pos ⟨hbaud, hcapture⟩, if_neg hbaud, if_pos hcapture]
    · rw [if_pos ⟨hbaud, hcapture⟩, if_neg hbaud, if_neg hcapture]

@[simp] theorem enterDown_bits (t : Timer2) :
    (enterDown features t).bit_dcen = t.bit_dcen ∧ (enterDown features t).bit_t2oe = t.bit_t2oe := by
  unfold enterDown
  split <;> exact ⟨rfl, rfl⟩

@[simp] theorem enterClkout_bits (t : Timer2) : (enterClkout features t).bit_dcen = t.bit_dcen ∧
    (enterClkout features t).bit_t2oe = t.bit_t2oe ∧ (enterClkout features t).exf2it = t.exf2it := by
  unfold enterClkout
  split <;> exact ⟨rfl, rfl, rfl⟩

theorem enterClkout_mode (t : Timer2) :
    (enterClkout features t).mode = if features.t2_clock_out ∧ t.bit_t2oe then .CLKOUT else t.mode := by
  unfold enterClkout
  split <;> rfl

theorem enterDown_mode (t : Timer2) : (enterDown features t).mode
    = if features.t2_down ∧ t.bit_dcen ∧ t.mode = .RELOAD then .DOWN else t.mode := by
  unfold enterDown
  split <;> rfl

theorem enterDown_exf2it (t : Timer2) : (enterDown features t).exf2it
    = if features.t2_down ∧ t.bit_dcen ∧ t.mode = .RELOAD then false else t.exf2it := by
  unfold enterDown
  split <;> rfl

/-- What a write of T2MOD does to the mode. -/
theorem writeT2mod_mode (features : Timer2Features) (val : BitVec 8) (t : Timer2) :
    (t.writeT2mod features val).mode =
        (if features.t2_clock_out ∧ val &&& bmT2OE ≠ 0 then .CLKOUT
          else if features.t2_down ∧ val &&& bmDCEN ≠ 0 ∧ t.mode = .RELOAD then .DOWN else t.mode) ∧
      ((t.writeT2mod features val).exf2it =
        if features.t2_down ∧ val &&& bmDCEN ≠ 0 ∧ t.mode = .RELOAD then false else true) ∧
      (t.writeT2mod features val).bit_dcen = decide (val &&& bmDCEN ≠ 0) ∧
      (t.writeT2mod features val).bit_t2oe = decide (val &&& bmT2OE ≠ 0) := by
  unfold writeT2mod
  simp only [forgetEdges_mode, forgetEdges_exf2it, forgetEdges_bit_dcen, forgetEdges_bit_t2oe, enterClkout_bits,
    enterClkout_mode, enterDown_bits, enterDown_mode, enterDown_exf2it, decide_eq_true_eq, and_self]

/-- A write of T2CON keeps the selection exactly if the registers choose one of the three modes that T2CON
knows of. -/
theorem writeT2con_selected_iff (h : Selected features r t) (val : BitVec 8) :
    Selected features (r.write (.t2con val)) (t.writeT2con val) ↔ Selects features (.t2con val) t := by
  have hmode : (t.writeT2con val).mode = t2conMode val := by simp [writeT2con]
  have hsource : (t.writeT2con val).exf2it = true := by simp [writeT2con]
  have hdcen : (t.writeT2con val).bit_dcen = t.bit_dcen := by simp [writeT2con]
  have ht2oe : (t.writeT2con val).bit_t2oe = t.bit_t2oe := by simp [writeT2con]
  have hequiv : Selected features (r.write (.t2con val)) (t.writeT2con val) ↔
      t2conMode val = (r.write (.t2con val)).mode features := by
    constructor
    · intro hs
      rw [← hs.mode, hmode]
    · intro heq
      refine ⟨hdcen.trans h.dcen, ht2oe.trans h.t2oe, hmode.trans heq, ?_⟩
      rw [hsource, hmode, t2conMode_eq]
      refine iff_of_true rfl ?_
      split
      · decide
      · split <;> decide
  rw [hequiv, t2conMode_eq]
  show _ = ModeRegs.mode features { r with t2con := val } ↔ (¬ (val &&& bmRCLK ≠ 0 ∨ val &&& bmTCLK ≠ 0) →
    ¬ (features.t2_clock_out ∧ t.bit_t2oe) ∧ (val &&& bmCP_RL2 ≠ 0 ∨ ¬ (features.t2_down ∧ t.bit_dcen)))
  rw [h.dcen, h.t2oe, ModeRegs.mode]
  simp only [decide_eq_true_eq]
  by_cases hbaud : val &&& bmRCLK ≠ 0 ∨ val &&& bmTCLK ≠ 0
  · rw [if_pos hbaud, if_pos hbaud]
    exact iff_of_true rfl (fun hno => absurd hbaud hno)
  rw [if_neg hbaud, if_neg hbaud]
  by_cases hclk : features.t2_clock_out ∧ r.t2mod &&& bmT2OE ≠ 0
  · rw [if_pos hclk]
    refine iff_of_false ?_ (fun hsel => (hsel hbaud).1 hclk)
    split <;> decide
  rw [if_neg hclk]
  by_cases hcapture : val &&& bmCP_RL2 ≠ 0
  · rw [if_pos hcapture, if_pos hcapture]
    exact iff_of_true rfl (fun _ => ⟨hclk, .inl hcapture⟩)
  rw [if_neg hcapture, if_neg hcapture]
  by_cases hdown : features.t2_down ∧ r.t2mod &&& bmDCEN ≠ 0
  · rw [if_pos hdown]
    exact iff_of_false (by decide) (fun hsel => ((hsel hbaud).2.resolve_left hcapture) hdown)
  · rw [if_neg hdown]
    exact iff_of_true rfl (fun _ => ⟨hclk, .inr hdown⟩)

/-- What each mode tells about T2CON. -/
theorem ModeRegs.mode_cases (features : Timer2Features) (r : ModeRegs) :
    (r.mode features = .BAUDRATE ∧ (r.t2con &&& bmRCLK ≠ 0 ∨ r.t2con &&& bmTCLK ≠ 0)) ∨
      ¬ (r.t2con &&& bmRCLK ≠ 0 ∨ r.t2con &&& bmTCLK ≠ 0) ∧
        (r.mode features = .CLKOUT ∨ (r.mode features = .CAPTURE ∧ r.t2con &&& bmCP_RL2 ≠ 0) ∨
          ((r.mode features = .DOWN ∨ r.mode features = .RELOAD) ∧ ¬ r.t2con &&& bmCP_RL2 ≠ 0)) := by
  unfold ModeRegs.mode
  by_cases hbaud : r.t2con &&& bmRCLK ≠ 0 ∨ r.t2con &&& bmTCLK ≠ 0
  · rw [if_pos hbaud]
    exact .inl ⟨rfl, hbaud⟩
  refine .inr ⟨hbaud, ?_⟩
  rw [if_neg hbaud]
  split
  · exact .inl rfl
  · by_cases hcapture : r.t2con &&& bmCP_RL2 ≠ 0
    · rw [if_pos hcapture]
      exact .inr (.inl ⟨rfl, hcapture⟩)
    · rw [if_neg hcapture]
      refine .inr (.inr ⟨?_, hcapture⟩)
      split
      · exact .inl rfl
      · exact .inr rfl

/-- A write of T2MOD keeps the selection in the cases listed. -/
theorem writeT2mod_selected_iff (h : Selected features r t) (val : BitVec 8) :
    Selected features (r.write (.t2mod val)) (t.writeT2mod features val) ↔ Selects features (.t2mod val) t := by
  obtain ⟨hmode, hsource, hdcen, ht2oe⟩ := writeT2mod_mode features val t
  have hequiv : Selected features (r.write (.t2mod val)) (t.writeT2mod features val) ↔
      (t.writeT2mod features val).mode = (r.write (.t2mod val)).mode features ∧
        ((t.writeT2mod features val).exf2it = true ↔ (t.writeT2mod features val).mode ≠ .DOWN) :=
    ⟨fun hs => ⟨hs.mode, hs.source⟩, fun hs => ⟨hdcen, ht2oe, hs.1, hs.2⟩⟩
  have hnew : (r.write (.t2mod val)).mode features =
      if r.t2con &&& bmRCLK ≠ 0 ∨ r.t2con &&& bmTCLK ≠ 0 then .BAUDRATE
      else if features.t2_clock_out ∧ val &&& bmT2OE ≠ 0 then .CLKOUT
      else if r.t2con &&& bmCP_RL2 ≠ 0 then .CAPTURE
      else if features.t2_down ∧ val &&& bmDCEN ≠ 0 then .DOWN
      else .RELOAD := rfl
  have hstays (hne : t.mode ≠ .RELOAD) : ¬ (features.t2_down ∧ val &&& bmDCEN ≠ 0 ∧ t.mode = .RELOAD) :=
    fun hs => hne hs.2.2
  rw [hequiv, hsource, hmode, hnew]
  obtain ⟨hold, hbaud⟩ | ⟨hbaud, hold | ⟨hold, hcapture⟩ | ⟨hold, hcapture⟩⟩ := r.mode_cases features
  · -- RCLK and TCLK come before T2OE, but a write of T2MOD leaves them aside
    rw [← h.mode] at hold
    have hdown := hstays (by simp [hold])
    have hselects : Selects features (.t2mod val) t ↔ ¬ (features.t2_clock_out ∧ val &&& bmT2OE ≠ 0) := by
      simp only [Selects, hold]
    rw [hselects, if_neg hdown, if_neg hdown, if_pos hbaud, hold]
    by_cases hclk : features.t2_clock_out ∧ val &&& bmT2OE ≠ 0
    · rw [if_pos hclk]
      exact iff_of_false (fun hs => absurd hs.1 (by decide)) (fun hno => hno hclk)
    · rw [if_neg hclk]
      exact iff_of_true (by decide) hclk
  · -- no write of T2MOD ends the clock-out mode
    rw [← h.mode] at hold
    have hdown := hstays (by simp [hold])
    have hselects : Selects features (.t2mod val) t ↔ (features.t2_clock_out ∧ val &&& bmT2OE ≠ 0) := by
      simp only [Selects, hold]
    rw [hselects, if_neg hdown, if_neg hdown, if_neg hbaud, hold, ite_self]
    by_cases hclk : features.t2_clock_out ∧ val &&& bmT2OE ≠ 0
    · rw [if_pos hclk]
      exact iff_of_true (by decide) hclk
    · rw [if_neg hclk]
      refine iff_of_false (fun hs => absurd hs.1 ?_) hclk
      split
      · decide
      · split <;> decide
  · rw [← h.mode] at hold
    have hdown := hstays (by simp [hold])
    have hselects : Selects features (.t2mod val) t := by simp only [Selects, hold]
    rw [if_neg hdown, if_neg hdown, if_neg hbaud, if_pos hcapture, hold]
    refine iff_of_true ⟨rfl, ?_⟩ hselects
    split <;> decide
  · rw [← h.mode] at hold
    rw [if_neg hbaud, if_neg hcapture]
    by_cases hclk : features.t2_clock_out ∧ val &&& bmT2OE ≠ 0
    · rw [if_pos hclk, if_pos hclk]
      obtain hold | hold := hold
      · have hdown : ¬ (features.t2_down ∧ val &&& bmDCEN ≠ 0 ∧ t.mode = .RELOAD) := by simp [hold]
        have hselects : Selects features (.t2mod val) t := by simpa only [Selects, hold] using hclk
        rw [if_neg hdown]
        exact iff_of_true (by decide) hselects
      · -- the source stays off when DCEN and T2OE come together
        have hselects : Selects features (.t2mod val) t ↔ ¬ (features.t2_down ∧ val &&& bmDCEN ≠ 0) := by
          simp only [Selects, hold, hclk, ne_eq, not_false_eq_true, and_true]
        rw [hselects]
        by_cases hdown : features.t2_down ∧ val &&& bmDCEN ≠ 0
        · rw [if_pos ⟨hdown.1, hdown.2, hold⟩]
          exact iff_of_false (fun hs => absurd (hs.2.mpr (by decide)) (by decide)) (fun hno => hno hdown)
        · rw [if_neg (fun hs => hdown ⟨hs.1, hs.2.1⟩)]
          exact iff_of_true (by decide) hdown
    · rw [if_neg hclk, if_neg hclk]
      obtain hold | hold := hold
      · -- every write switches the source on, and the mode stays
        have hdown := hstays (by simp [hold])
        have hselects : Selects features (.t2mod val) t ↔ (features.t2_clock_out ∧ val &&& bmT2OE ≠ 0) := by
          simp only [Selects, hold]
        rw [hselects, if_neg hdown, if_neg hdown, hold]
        exact iff_of_false (fun hs => absurd hs.2 (by decide)) hclk
      · have hselects : Selects features (.t2mod val) t := by
          simp only [Selects, hold]
          exact fun hs => hclk hs.2
        refine iff_of_true ?_ hselects
        by_cases hdown : features.t2_down ∧ val &&& bmDCEN ≠ 0
        · have henter : features.t2_down ∧ val &&& bmDCEN ≠ 0 ∧ t.mode = .RELOAD := ⟨hdown.1, hdown.2, hold⟩
          rw [if_pos henter, if_pos henter, if_pos hdown]
          decide
        · have henter : ¬ (features.t2_down ∧ val &&& bmDCEN ≠ 0 ∧ t.mode = .RELOAD) :=
            fun hs => hdown ⟨hs.1, hs.2.1⟩
          rw [if_neg henter, if_neg henter, if_neg hdown, hold]
          decide

/-- The bits of T2MOD are kept whatever is written. -/
theorem bits_run (hdcen : t.bit_dcen = decide (r.t2mod &&& bmDCEN ≠ 0))
    (ht2oe : t.bit_t2oe = decide (r.t2mod &&& bmT2OE ≠ 0)) (ws : List ModeWrite) :
    (ws.foldl (writeMode features) t).bit_dcen = decide ((ws.foldl ModeRegs.write r).t2mod &&& bmDCEN ≠ 0) ∧
      (ws.foldl (writeMode features) t).bit_t2oe
        = decide ((ws.foldl ModeRegs.write r).t2mod &&& bmT2OE ≠ 0) := by
  induction ws generalizing t r with
  | nil => exact ⟨hdcen, ht2oe⟩
  | cons w ws ih =>
    rcases w with val | val
    · have hkept : (t.writeT2con val).bit_dcen = t.bit_dcen ∧ (t.writeT2con val).bit_t2oe = t.bit_t2oe := by
        simp [writeT2con]
      exact ih (hkept.1.trans hdcen) (hkept.2.trans ht2oe)
    · obtain ⟨-, -, hdcen', ht2oe'⟩ := writeT2mod_mode features val t
      exact ih hdcen' ht2oe'

/-- The mode follows the registers through a sequence of writes exactly if each of them selects. -/
theorem mode_chosen_iff (h : Selected features r t) (ws : List ModeWrite) :
    (∀ l, l <+: ws →
      (l.foldl (writeMode features) t).mode = (l.foldl ModeRegs.write r).mode features ∧
      ((l.foldl (writeMode features) t).exf2it = true ↔ (l.foldl (writeMode features) t).mode ≠ .DOWN)) ↔
    ∀ l w, l ++ [w] <+: ws → Selects features w (l.foldl (writeMode features) t) := by
  have hstep : ∀ (r : ModeRegs) (t : Timer2) (w : ModeWrite), True → Selected features r t →
      (Selected features (r.write w) (writeMode features t w) ↔ Selects features w t) := by
    intro r t w _ hs
    rcases w with val | val
    · exact writeT2con_selected_iff hs val
    · exact writeT2mod_selected_iff hs val
  have hruns := @agree_on_prefixes_iff ModeWrite Timer2 ModeRegs ModeRegs.write (writeMode features)
    (Selected features) (fun _ => True) (Selects features) (fun _ _ _ => trivial) hstep r t trivial h ws
  rw [← hruns]
  refine forall₂_congr (fun l _ => ?_)
  obtain ⟨hdcen, ht2oe⟩ := @bits_run features r t h.dcen h.t2oe l
  exact ⟨fun hs => ⟨hdcen, ht2oe, hs.1, hs.2⟩, fun hs => ⟨hs.mode, hs.source⟩⟩

/-- The timer after the reset. -/
def afterReset : Timer2 :=
  { mode := .RELOAD, C_T := false, TR := false, RCLK := false, TCLK := false, CP_RL2 := false, EXEN2 := false,
    bit_dcen := false, bit_t2oe := false, bit_t2ex := true, T_edge := 0, t2ex_edge := 0, tl := 0, th := 0,
    rcap2l := 0, rcap2h := 0, tcon := 0, p1 := 0xff, exf2it := true, overflows := 0, modeChanges := [],
    clocks := 0, noted := 0 }

/-- T2MOD is written in the capture mode. -/
theorem mode_chosen_capture :
    ((List.foldl (writeMode ⟨true, true⟩) afterReset [.t2con 0x01, .t2mod 0x01]).mode
      = (List.foldl ModeRegs.write ⟨0, 0⟩ [.t2con 0x01, .t2mod 0x01]).mode ⟨true, true⟩) := by
  have hreset : Selected ⟨true, true⟩ ⟨0, 0⟩ afterReset := ⟨by decide, by decide, by decide, by decide⟩
  have hsteps : ∀ l w, l ++ [w] <+: [.t2con 0x01, .t2mod 0x01] →
      Selects ⟨true, true⟩ w (l.foldl (writeMode ⟨true, true⟩) afterReset) := by
    intro l w hl
    rcases l with _ | ⟨w1, _ | ⟨w2, l⟩⟩
    · obtain ⟨rfl, -⟩ := List.cons_prefix_cons.mp hl
      exact fun _ => ⟨by decide, .inl (by decide)⟩
    · obtain ⟨rfl, hrest⟩ := List.cons_prefix_cons.mp hl
      obtain ⟨rfl, -⟩ := List.cons_prefix_cons.mp hrest
      exact trivial
    · exact absurd hl.length_le (by simp)
  exact ((mode_chosen_iff hreset [.t2con 0x01, .t2mod 0x01]).mpr hsteps _ (List.prefix_refl _)).1

/-- DCEN that is set before T2CON is written is left aside. -/
theorem mode_not_chosen_down :
    (List.foldl (writeMode ⟨true, true⟩) afterReset [.t2mod 0x01, .t2con 0x00]).mode = .RELOAD ∧
      (List.foldl ModeRegs.write ⟨0, 0⟩ [.t2mod 0x01, .t2con 0x00]).mode ⟨true, true⟩ = .DOWN := by
  decide

end Modes

/-! ## The counting law -/

/-- What the law of counting speaks about. -/
@[ext] structure Meter where
  count : Nat
  tcon : BitVec 8
  noted : Nat
  deriving DecidableEq, Repr

/-- The count goes to a value, and TF2 is set. -/
def Meter.note (v : Nat) (m : Meter) : Meter := ⟨v, m.tcon ||| bmTF2, m.noted + 1⟩

/-- One count upwards. From the last value it goes to `v`. -/
def Meter.up (wrap : Meter → Meter) (m : Meter) : Meter :=
  if m.count = 0xffff then wrap m else { m with count := m.count + 1 }

/-- One count downwards. Below RCAP2 it goes to the last value. -/
def Meter.down (rcap2 : Nat) (m : Meter) : Meter :=
  if m.count < rcap2 + 1 then m.note 0xffff else { m with count := m.count - 1 }

def meter (t : Timer2) : Meter := ⟨t.count, t.tcon, t.noted⟩

/-- What one count has to do in each mode. -/
def law (t : Timer2) : Meter → Meter :=
  match t.mode with
  | .CAPTURE => Meter.up (Meter.note 0)
  | .RELOAD => Meter.up (Meter.note t.rcap2)
  | .BAUDRATE => Meter.up fun m => { m with count := t.rcap2 }
  | .DOWN => if t.bit_t2ex then Meter.up (Meter.note t.rcap2) else Meter.down t.rcap2
  | .OFF | .CLKOUT => id

/-- How many counts are due. -/
def due (t : Timer2) (cycles : Nat) : Nat :=
  if t.C_T then t.T_edge else if t.mode = .BAUDRATE then cycles * 6 else cycles

/-- What the edges on T2EX that were recorded before have done. -/
def pending (t : Timer2) : Timer2 :=
  match t.mode with
  | .CAPTURE => t.takeT2ex fun t => { t with rcap2h := t.th, rcap2l := t.tl }
  | .RELOAD => t.takeT2ex reload
  | .BAUDRATE | .CLKOUT => t.takeT2ex id
  | .DOWN | .OFF => t

/-- A tick comes back in `u`. It has made the counts that were due and no others, and each of them by the law. -/
structure Ticked (cycles : Nat) (t u : Timer2) : Prop where
  tick : t.tick cycles = some u
  clocks : u.clocks = t.clocks + t.due cycles
  meter : u.meter = t.pending.law^[t.due cycles] t.pending.meter
  edges : u.T_edge = if t.C_T then 0 else t.T_edge

/-- Two ticks count like one of both lengths together. -/
def Lawful (t : Timer2) (a b : Nat) : Prop :=
  ∃ u v w, Ticked a t u ∧ Ticked b u v ∧ Ticked (a + b) t w ∧ v.tl = w.tl ∧ v.th = w.th ∧ v.tcon = w.tcon

/-- `n` counts upwards all carry out of TL. -/
def Carries (t : Timer2) (n : Nat) : Prop :=
  n = 0 ∨ t.tl = 0xff ∧ (n = 1 ∨ t.th = 0xff ∧ t.rcap2l = 0xff ∧ (n = 2 ∨ t.rcap2h = 0xff))

instance (n : Nat) (t : Timer2) : Decidable (t.Carries n) := inferInstanceAs (Decidable (_ ∨ _))

section Counting

variable {t t' : Timer2}

/-- The two registers can be read off the count. -/
theorem registers_of_count (h : t.count = t'.count) : t.tl = t'.tl ∧ t.th = t'.th := by
  have htl := t.tl.isLt
  have htl' := t'.tl.isLt
  simp only [count] at h
  exact ⟨BitVec.eq_of_toNat_eq (by omega), BitVec.eq_of_toNat_eq (by omega)⟩

/-- One count upwards, on the number. -/
theorem add_cases (t : Timer2) :
    (t.carried ∧ t.count = 0xffff ∧ t.add.count = 0) ∨
      (¬ t.carried ∧ t.count ≠ 0xffff ∧ t.add.count = t.count + 1) := by
  have htl := t.tl.isLt
  have hth := t.th.isLt
  have hlow : (t.tl + 1).toNat = (t.tl.toNat + 1) % 256 := BitVec.toNat_add ..
  have hhigh : (t.th + 1).toNat = (t.th.toNat + 1) % 256 := BitVec.toNat_add ..
  by_cases hcarry : t.tl + 1 = 0
  · have hlow0 : (t.tl + 1).toNat = 0 := by rw [hcarry]; rfl
    have hth' : t.add.th = t.th + 1 := if_pos hcarry
    have htl' : t.add.tl = t.tl + 1 := rfl
    by_cases htop : t.th + 1 = 0
    · have hhigh0 : (t.th + 1).toNat = 0 := by rw [htop]; rfl
      refine .inl ⟨⟨hcarry, hth'.trans htop⟩, ?_, ?_⟩
      · simp only [count]
        omega
      · simp only [count, hth', htl', hlow0, hhigh0]
    · have hne : (t.th + 1).toNat ≠ 0 := fun h => htop (BitVec.eq_of_toNat_eq h)
      refine .inr ⟨fun h => htop (hth'.symm.trans h.2), ?_, ?_⟩
      · simp only [count]
        omega
      · simp only [count, hth', htl']
        omega
  · have hne : (t.tl + 1).toNat ≠ 0 := fun h => hcarry (BitVec.eq_of_toNat_eq h)
    have hth' : t.add.th = t.th := if_neg hcarry
    have htl' : t.add.tl = t.tl + 1 := rfl
    refine .inr ⟨fun h => hcarry h.1, ?_, ?_⟩
    · simp only [count]
      omega
    · simp only [count, hth', htl']
      omega

/-- What no count changes. -/
def config (t : Timer2) : Timer2 :=
  { t with tl := 0, th := 0, tcon := 0, p1 := 0, overflows := 0, clocks := 0, noted := 0 }

theorem config_fields (h : t.config = t'.config) : t.mode = t'.mode ∧ t.bit_t2ex = t'.bit_t2ex ∧
    t.rcap2 = t'.rcap2 ∧ t.C_T = t'.C_T ∧ t.T_edge = t'.T_edge := by
  have hlow : t.config.rcap2l = t'.config.rcap2l := by rw [h]
  have hhigh : t.config.rcap2h = t'.config.rcap2h := by rw [h]
  have hmode : t.config.mode = t'.config.mode := by rw [h]
  have hpin : t.config.bit_t2ex = t'.config.bit_t2ex := by rw [h]
  have hC_T : t.config.C_T = t'.config.C_T := by rw [h]
  have hedge : t.config.T_edge = t'.config.T_edge := by rw [h]
  refine ⟨hmode, hpin, ?_, hC_T, hedge⟩
  exact congrArg₂ (fun high low : BitVec 8 => high.toNat * 256 + low.toNat) hhigh hlow

theorem law_congr (h : t.config = t'.config) : t.law = t'.law := by
  obtain ⟨hmode, hpin, hrcap2, -, -⟩ := config_fields h
  simp only [law, hmode, hpin, hrcap2]

theorem add_config (t : Timer2) : t.add.config = t.config := rfl

theorem reload_config (t : Timer2) : t.reload.config = t.config := rfl

theorem setTF2_config (t : Timer2) : t.setTF2.config = t.config := rfl

theorem overflow_config (t : Timer2) : t.overflow.config = t.config := rfl

/-- `n` counts have been made by a law. -/
structure Counted (law : Meter → Meter) (n : Nat) (t t' : Timer2) : Prop where
  clocks : t'.clocks = t.clocks + n
  meter : t'.meter = law^[n] t.meter
  config : t'.config = t.config

/-- A loop over a body that counts once by the law. -/
theorem Counted.iterate {law : Meter → Meter} {body : Timer2 → Timer2}
    (hbody : ∀ u : Timer2, u.config = t.config → Counted law 1 u (body u)) (n : Nat) :
    Counted law n t (body^[n] t) := by
  induction n with
  | zero => exact ⟨rfl, rfl, rfl⟩
  | succ n ih =>
    have hone := hbody _ ih.config
    rw [Function.iterate_succ_apply']
    refine ⟨?_, ?_, hone.config.trans ih.config⟩
    · rw [hone.clocks, ih.clocks, Nat.add_assoc]
    · rw [hone.meter, ih.meter, Function.iterate_one, Function.iterate_succ_apply']

/-- The bodies that count upwards. -/
theorem countReload_counted (t : Timer2) : Counted (Meter.up (Meter.note t.rcap2)) 1 t t.countReload := by
  rcases add_cases t with ⟨hcarried, htop, -⟩ | ⟨hcarried, htop, hadd⟩
  · have hbody : t.countReload = t.add.setTF2.reload := if_pos hcarried
    rw [hbody]
    refine ⟨rfl, ?_, by rw [reload_config, setTF2_config, add_config]⟩
    rw [Function.iterate_one, Meter.up, if_pos (show t.meter.count = 0xffff from htop)]
    rfl
  · have hbody : t.countReload = t.add := if_neg hcarried
    rw [hbody]
    refine ⟨rfl, ?_, rfl⟩
    rw [Function.iterate_one, Meter.up, if_neg (show ¬ t.meter.count = 0xffff from htop)]
    exact Meter.ext hadd rfl rfl

theorem countBaud_counted (t : Timer2) :
    Counted (Meter.up fun m => { m with count := t.rcap2 }) 1 t t.countBaud := by
  rcases add_cases t with ⟨hcarried, htop, -⟩ | ⟨hcarried, htop, hadd⟩
  · have hbody : t.countBaud = t.add.reload.overflow := if_pos hcarried
    rw [hbody]
    refine ⟨rfl, ?_, by rw [overflow_config, reload_config, add_config]⟩
    rw [Function.iterate_one, Meter.up, if_pos (show t.meter.count = 0xffff from htop)]
    rfl
  · have hbody : t.countBaud = t.add := if_neg hcarried
    rw [hbody]
    refine ⟨rfl, ?_, rfl⟩
    rw [Function.iterate_one, Meter.up, if_neg (show ¬ t.meter.count = 0xffff from htop)]
    exact Meter.ext hadd rfl rfl

/-- The first of the counts carries, and after it there is one count less. -/
theorem carries_succ (n : Nat) (t : Timer2) :
    t.Carries (n + 1) ↔ t.tl = 0xff ∧ t.countReload.Carries n := by
  simp only [Carries]
  by_cases htl : t.tl = 0xff
  · have hlow : t.add.tl = 0 := by
      show t.tl + 1 = 0
      rw [htl]
      rfl
    have hhigh : t.add.th = t.th + 1 := if_pos hlow
    by_cases hth : t.th = 0xff
    · have hbody : t.countReload = t.add.setTF2.reload :=
        if_pos ⟨hlow, by rw [hhigh, hth]; rfl⟩
      have htl' : t.countReload.tl = t.rcap2l := by rw [hbody]; rfl
      have hth' : t.countReload.th = t.rcap2h := by rw [hbody]; rfl
      have hrcap2l : t.countReload.rcap2l = t.rcap2l := by rw [hbody]; rfl
      have hrcap2h : t.countReload.rcap2h = t.rcap2h := by rw [hbody]; rfl
      rw [htl', hth', hrcap2l, hrcap2h]
      simp only [htl, hth, Nat.add_eq_zero_iff, Nat.one_ne_zero, and_false, false_or, true_and]
      constructor
      · rintro (h | ⟨hlast, h | h⟩)
        · exact .inl (by omega)
        · exact .inr ⟨hlast, .inl (by omega)⟩
        · exact .inr ⟨hlast, .inr ⟨h, hlast, .inr h⟩⟩
      · rintro (h | ⟨hlast, h | ⟨h, -, -⟩⟩)
        · exact .inl (by omega)
        · exact .inr ⟨hlast, .inl (by omega)⟩
        · exact .inr ⟨hlast, .inr h⟩
    · have hne : t.add.th ≠ 0 := by
        rw [hhigh]
        intro h
        exact hth (by bv_omega)
      have hbody : t.countReload = t.add := if_neg fun h => hne h.2
      have hzero : ¬ (0 : BitVec 8) = 0xff := by decide
      rw [hbody, hlow]
      simp only [htl, hth, hzero, Nat.add_eq_zero_iff, Nat.one_ne_zero, and_false, false_and, or_false, false_or,
        true_and]
      omega
  · simp only [htl, Nat.add_eq_zero_iff, Nat.one_ne_zero, and_false, false_and, or_false]

theorem carries_add (m n : Nat) (t : Timer2) :
    t.Carries (m + n) ↔ t.Carries m ∧ (countReload^[m] t).Carries n := by
  induction m generalizing t with
  | zero => simp [Carries]
  | succ m ih =>
    rw [Nat.succ_add, carries_succ, carries_succ, ih, Function.iterate_succ_apply, and_assoc]

/-- The loops of the down-capable mode end exactly if every count carries, and have then counted upwards. -/
theorem downLoop_eq (n : Nat) (t : Timer2) (toggle : Bool) :
    (t.Carries n → ∃ toggle', downLoop n t toggle = some (countReload^[n] t, toggle')) ∧
      (¬ t.Carries n → downLoop n t toggle = none) := by
  induction n generalizing t toggle with
  | zero => exact ⟨fun _ => ⟨toggle, rfl⟩, fun h => absurd (.inl rfl) h⟩
  | succ n ih =>
    have hlow : t.add.tl = 0 ↔ t.tl = 0xff := by
      show t.tl + 1 = 0 ↔ _
      constructor
      · intro h
        bv_omega
      · intro h
        rw [h]
        rfl
    rw [carries_succ, downLoop, Function.iterate_succ_apply]
    by_cases htl : t.tl = 0xff
    · rw [if_pos (hlow.mpr htl)]
      obtain ⟨hends, hendless⟩ := ih t.countReload (toggle || t.carried)
      exact ⟨fun h => hends h.2, fun h => hendless fun hrest => h ⟨htl, hrest⟩⟩
    · rw [if_neg fun h => htl (hlow.mp h)]
      exact ⟨fun h => absurd h.1 htl, fun _ => rfl⟩

/-- The state in which a tick begins to count. -/
def settled (t : Timer2) : Timer2 := { t.pending with T_edge := if t.C_T then 0 else t.T_edge }

theorem takeT2ex_kept (onEdge : Timer2 → Timer2) (t : Timer2) (h : ∀ u : Timer2, (onEdge u).mode = u.mode ∧
    (onEdge u).C_T = u.C_T ∧ (onEdge u).TR = u.TR ∧ (onEdge u).T_edge = u.T_edge ∧ (onEdge u).clocks = u.clocks) :
    (t.takeT2ex onEdge).mode = t.mode ∧ (t.takeT2ex onEdge).C_T = t.C_T ∧ (t.takeT2ex onEdge).TR = t.TR ∧
      (t.takeT2ex onEdge).T_edge = t.T_edge ∧ (t.takeT2ex onEdge).clocks = t.clocks := by
  unfold takeT2ex
  split
  · exact h { t with tcon := t.tcon ||| bmEXF2 }
  · exact ⟨rfl, rfl, rfl, rfl, rfl⟩

/-- Recorded edges on T2EX leave aside what the counting depends on. -/
theorem pending_kept (t : Timer2) : t.pending.mode = t.mode ∧ t.pending.C_T = t.C_T ∧ t.pending.TR = t.TR ∧
    t.pending.T_edge = t.T_edge ∧ t.pending.clocks = t.clocks := by
  unfold pending
  split
  · exact takeT2ex_kept _ t fun u => ⟨rfl, rfl, rfl, rfl, rfl⟩
  · exact takeT2ex_kept _ t fun u => ⟨rfl, rfl, rfl, rfl, rfl⟩
  · exact takeT2ex_kept _ t fun u => ⟨rfl, rfl, rfl, rfl, rfl⟩
  · exact takeT2ex_kept _ t fun u => ⟨rfl, rfl, rfl, rfl, rfl⟩
  · exact ⟨rfl, rfl, rfl, rfl, rfl⟩
  · exact ⟨rfl, rfl, rfl, rfl, rfl⟩

theorem takeCycles_eq (cycles : Nat) (t : Timer2) :
    t.takeCycles cycles
      = (if t.C_T then t.T_edge else cycles, { t with T_edge := if t.C_T then 0 else t.T_edge }) := by
  unfold takeCycles
  split <;> rfl

section Ticks

variable (hTR : t.TR = true) (cycles : Nat)

include hTR

/-- The tick of each mode, as a number of counts. -/
theorem tick_baud (hmode : t.mode = .BAUDRATE) : t.tick cycles = some (countBaud^[t.due cycles] t.settled) := by
  have hpending : t.pending = t.takeT2ex id := by simp only [pending, hmode]
  obtain ⟨-, hC_T, hTR', hedge, -⟩ := t.pending_kept
  rw [hpending] at hC_T hTR' hedge
  have hdue : t.due cycles = if t.C_T then t.T_edge else cycles * 6 := by
    rw [due, if_pos hmode]
  rw [hdue, settled, hpending]
  simp only [tick, hmode, do_t2_baud, hTR', hTR, if_true, takeCycles_eq, hC_T, hedge]

theorem tick_capture (hmode : t.mode = .CAPTURE) : t.tick cycles = some (countCapture t.settled) := by
  have hpending : t.pending = t.takeT2ex fun t => { t with rcap2h := t.th, rcap2l := t.tl } := by
    simp only [pending, hmode]
  obtain ⟨-, hC_T, hTR', hedge, -⟩ := t.pending_kept
  rw [hpending] at hC_T hTR' hedge
  rw [settled, hpending]
  simp only [tick, hmode, do_t2_capture, hTR', hTR, if_true, takeCycles_eq, hC_T, hedge]

theorem tick_reload (hmode : t.mode = .RELOAD) : t.tick cycles = some (countReload t.settled) := by
  have hpending : t.pending = t.takeT2ex reload := by simp only [pending, hmode]
  obtain ⟨-, hC_T, hTR', hedge, -⟩ := t.pending_kept
  rw [hpending] at hC_T hTR' hedge
  rw [settled, hpending]
  simp only [tick, hmode, do_t2_reload, hTR', hTR, if_true, takeCycles_eq, hC_T, hedge]

theorem tick_down (hmode : t.mode = .DOWN) : t.tick cycles =
    if t.bit_t2ex then (downLoop (t.due cycles) t.settled false).map fun (t, toggle) =>
      if toggle then { t with p1 := t.p1 ^^^ bmEXF2 } else t
    else some t.settled := by
  have hpending : t.pending = t := by simp only [pending, hmode]
  have hdue : t.due cycles = if t.C_T then t.T_edge else cycles := by
    rw [due, if_neg (show ¬ t.mode = .BAUDRATE by simp [hmode])]
  simp only [tick, hmode, do_t2_down, hTR, if_true, takeCycles_eq, hdue, settled, hpending]

end Ticks

/-- A number of counts by the law is what a tick should make. -/
theorem Ticked.of_counted {cycles : Nat} {u : Timer2} (htick : t.tick cycles = some u)
    (h : Counted t.pending.law (t.due cycles) t.settled u) : Ticked cycles t u := by
  have hclocks : t.settled.clocks = t.clocks := t.pending_kept.2.2.2.2
  have hedge : u.T_edge = t.settled.T_edge := (config_fields h.config).2.2.2.2
  refine ⟨htick, ?_, h.meter, hedge⟩
  rw [← hclocks]
  exact h.clocks

theorem counted_baud (hmode : t.mode = .BAUDRATE) (n : Nat) :
    Counted t.pending.law n t.settled (countBaud^[n] t.settled) := by
  have hlaw : t.pending.law = Meter.up fun m => { m with count := t.settled.rcap2 } := by
    simp only [law, t.pending_kept.1, hmode]
    rfl
  rw [hlaw]
  refine Counted.iterate (fun u hu => ?_) n
  rw [← (config_fields hu).2.2.1]
  exact countBaud_counted u

theorem counted_up (hmode : t.mode = .DOWN) (hup : t.bit_t2ex = true) (n : Nat) :
    Counted t.pending.law n t.settled (countReload^[n] t.settled) := by
  have hpending : t.pending = t := by simp only [pending, hmode]
  have hlaw : t.pending.law = Meter.up (Meter.note t.settled.rcap2) := by
    rw [settled, hpending]
    simp only [law, hmode, hup, if_true]
    rfl
  rw [hlaw]
  refine Counted.iterate (fun u hu => ?_) n
  rw [← (config_fields hu).2.2.1]
  exact countReload_counted u

/-- With T2EX high the tick counts upwards if every count carries, and a port bit may change as well. It does not
come back otherwise. -/
theorem tick_down_high (hTR : t.TR = true) (hmode : t.mode = .DOWN) (hhigh : t.bit_t2ex = true) (cycles : Nat) :
    (t.settled.Carries (t.due cycles) → ∃ u, t.tick cycles = some u ∧
        Counted t.pending.law (t.due cycles) t.settled u ∧
        ∀ n, (countReload^[t.due cycles] t.settled).Carries n ↔ u.Carries n) ∧
      (¬ t.settled.Carries (t.due cycles) → t.tick cycles = none) := by
  obtain ⟨hends, hendless⟩ := downLoop_eq (t.due cycles) t.settled false
  obtain ⟨hclocks, hmeter, hconfig⟩ := counted_up hmode hhigh (t.due cycles)
  rw [tick_down hTR cycles hmode, if_pos hhigh]
  constructor
  · intro h
    obtain ⟨toggle, hloop⟩ := hends h
    rw [hloop]
    rcases toggle with _ | _
    · exact ⟨_, rfl, ⟨hclocks, hmeter, hconfig⟩, fun n => Iff.rfl⟩
    · exact ⟨_, rfl, ⟨hclocks, hmeter, hconfig⟩, fun n => Iff.rfl⟩
  · intro h
    rw [hendless h]
    rfl

/-- After a tick no edge on T2EX is left that the next tick would see. -/
theorem pending_again {u : Timer2} (hmode : t.mode = .BAUDRATE ∨ t.mode = .DOWN)
    (h : u.config = t.settled.config) : u.pending = u := by
  have hmode' : u.mode = t.mode := (config_fields h).1.trans t.pending_kept.1
  have hexen2 : u.EXEN2 = t.pending.EXEN2 := by
    have hsame : u.config.EXEN2 = t.settled.config.EXEN2 := by rw [h]
    exact hsame
  have hedge : u.t2ex_edge = t.pending.t2ex_edge := by
    have hsame : u.config.t2ex_edge = t.settled.config.t2ex_edge := by rw [h]
    exact hsame
  rcases hmode with hmode | hmode
  · have hpending : t.pending = t.takeT2ex id := by simp only [pending, hmode]
    have hpending' : u.pending = u.takeT2ex id := by simp only [pending, hmode', hmode]
    have hquiet : ¬ (t.pending.EXEN2 ∧ t.pending.t2ex_edge ≠ 0) := by
      rw [hpending, takeT2ex]
      split
      · exact fun hs => hs.2 rfl
      · assumption
    rw [hpending', takeT2ex, if_neg (by rw [hexen2, hedge]; exact hquiet)]
  · simp only [pending, hmode', hmode]

/-- The counts of two ticks are those of one of both lengths. -/
theorem due_add {u : Timer2} (h : u.config = t.settled.config) (a b : Nat) :
    t.due (a + b) = t.due a + u.due b := by
  obtain ⟨hmode, -, -, hC_T, hedge⟩ := config_fields h
  have hmode' : u.mode = t.mode := hmode.trans t.pending_kept.1
  have hC_T' : u.C_T = t.C_T := hC_T.trans t.pending_kept.2.1
  have hedge' : u.T_edge = if t.C_T then 0 else t.T_edge := hedge
  simp only [due, hmode', hC_T', hedge']
  by_cases hcounter : t.C_T
  · simp only [hcounter, if_true, Nat.add_zero]
  · simp only [if_neg hcounter]
    split
    · exact Nat.add_mul a b 6
    · rfl

/-- Two ticks that are right count like one that is right. -/
theorem Lawful.of_ticked {a b : Nat} {u v w : Timer2} (hmode : t.mode = .BAUDRATE ∨ t.mode = .DOWN)
    (hconfig : u.config = t.settled.config) (h1 : Ticked a t u) (h2 : Ticked b u v) (h3 : Ticked (a + b) t w) :
    t.Lawful a b := by
  have hpending := pending_again hmode hconfig
  have hlaw : u.law = t.pending.law := @law_congr u t.settled hconfig
  have hmeter : v.meter = w.meter := by
    rw [h2.meter, h3.meter, hpending, hlaw, h1.meter, due_add hconfig, Nat.add_comm, Function.iterate_add_apply]
  obtain ⟨htl, hth⟩ := registers_of_count (congrArg Meter.count hmeter)
  exact ⟨u, v, w, h1, h2, h3, htl, hth, congrArg Meter.tcon hmeter⟩

/-- A tick that counts only once cannot count what is due twice in a row and together. -/
theorem not_lawful_of_once {a b : Nat} {u v w : Timer2} (h1 : t.tick a = some u) (h2 : u.tick b = some v)
    (h3 : t.tick (a + b) = some w) (hconfig : u.config = t.settled.config) (hu : u.clocks = t.clocks + 1)
    (hv : v.clocks = u.clocks + 1) (hw : w.clocks = t.clocks + 1) : ¬ t.Lawful a b := by
  rintro ⟨u', v', w', hfirst, hsecond, hboth, -⟩
  obtain rfl := Option.some.inj (h1.symm.trans hfirst.tick)
  obtain rfl := Option.some.inj (h2.symm.trans hsecond.tick)
  obtain rfl := Option.some.inj (h3.symm.trans hboth.tick)
  have hdue := due_add hconfig a b
  have hfirst := hfirst.clocks
  have hsecond := hsecond.clocks
  have hboth := hboth.clocks
  omega

/-- What a tick does in the two modes that look at no number of cycles. -/
theorem tick_once (hTR : t.TR = true) (hmode : t.mode = .CAPTURE ∨ t.mode = .RELOAD) (cycles : Nat) :
    ∃ u, t.tick cycles = some u ∧ u.config = t.settled.config ∧ u.clocks = t.clocks + 1 := by
  have hclocks : t.settled.clocks = t.clocks := t.pending_kept.2.2.2.2
  rcases hmode with hmode | hmode
  · refine ⟨_, tick_capture hTR cycles hmode, ?_⟩
    rw [← hclocks, countCapture]
    split
    · exact ⟨rfl, rfl⟩
    · exact ⟨rfl, rfl⟩
  · have hcounted := countReload_counted t.settled
    refine ⟨_, tick_reload hTR cycles hmode, hcounted.config, ?_⟩
    rw [← hclocks]
    exact hcounted.clocks

/-- With T2EX high two ticks in the down-capable mode are right exactly if all their counts carry. -/
theorem lawful_high_iff (hTR : t.TR = true) (hmode : t.mode = .DOWN) (hhigh : t.bit_t2ex = true) (a b : Nat) :
    t.Lawful a b ↔ t.Carries (t.due (a + b)) := by
  have hkept : ∀ u : Timer2, u.mode = .DOWN → u.pending = u ∧ ∀ n, u.settled.Carries n ↔ u.Carries n := by
    intro u hu
    have hpending : u.pending = u := by simp only [pending, hu]
    refine ⟨hpending, fun n => ?_⟩
    rw [settled, hpending]
    rfl
  obtain ⟨hpending, hsettled⟩ := hkept t hmode
  obtain ⟨hends, hendless⟩ := tick_down_high hTR hmode hhigh (a + b)
  rw [hsettled] at hends hendless
  constructor
  · rintro ⟨u, v, w, -, -, hboth, -⟩
    by_contra hno
    cases (hendless hno).symm.trans hboth.tick
  · intro hcarries
    obtain ⟨w, h3, hcounted3, -⟩ := hends hcarries
    rw [due_add (counted_up hmode hhigh (t.due a)).config, ← hsettled, carries_add] at hcarries
    obtain ⟨u, h1, hcounted1, hcarries1⟩ := (tick_down_high hTR hmode hhigh a).1 hcarries.1
    -- the second tick goes on where the first one ended
    obtain ⟨hmode1, hhigh1, -⟩ := config_fields hcounted1.config
    have hTR1 : u.config.TR = t.settled.config.TR := by rw [hcounted1.config]
    have hTR1 : u.TR = true := hTR1.trans (t.pending_kept.2.2.1.trans hTR)
    have hmode1 : u.mode = .DOWN := hmode1.trans (t.pending_kept.1.trans hmode)
    have hhigh1 : u.bit_t2ex = true := by
      rw [hhigh1, settled, hpending]
      exact hhigh
    have hdue : (countReload^[t.due a] t.settled).due b = u.due b := by
      have hsum := due_add (counted_up hmode hhigh (t.due a)).config a b
      have hsum1 := due_add hcounted1.config a b
      omega
    have hrest : u.settled.Carries (u.due b) := by
      rw [(hkept u hmode1).2, ← hcarries1, ← hdue]
      exact hcarries.2
    obtain ⟨v, h2, hcounted2, -⟩ := (tick_down_high hTR1 hmode1 hhigh1 b).1 hrest
    exact .of_ticked (.inr hmode) hcounted1.config (.of_counted h1 hcounted1) (.of_counted h2 hcounted2)
      (.of_counted h3 hcounted3)

/-- With T2EX low nothing is counted in that mode. -/
theorem lawful_low_iff (hTR : t.TR = true) (hmode : t.mode = .DOWN) (hlow : ¬ t.bit_t2ex = true) (a b : Nat) :
    t.Lawful a b ↔ t.due (a + b) = 0 := by
  have htick : ∀ c, t.tick c = some t.settled := by
    intro c
    rw [tick_down hTR c hmode, if_neg hlow]
  have hclocks : t.settled.clocks = t.clocks := t.pending_kept.2.2.2.2
  constructor
  · rintro ⟨u, v, w, -, -, hboth, -⟩
    obtain rfl := Option.some.inj ((htick (a + b)).symm.trans hboth.tick)
    have hcount := hboth.clocks
    omega
  · intro hdue
    have hsum := @due_add t t.settled rfl a b
    have hticked : ∀ c, t.due c = 0 → Ticked c t t.settled := by
      intro c hc
      exact .of_counted (htick c) (by rw [hc]; exact ⟨rfl, rfl, rfl⟩)
    have hpending : t.pending = t := by simp only [pending, hmode]
    have hsettled : t.settled.settled = t.settled := by
      have hpending1 : t.settled.pending = t.settled := by
        simp only [pending, settled, hmode]
      rw [settled, hpending1, settled, hpending]
      split <;> rfl
    have hTR1 : t.settled.TR = true := t.pending_kept.2.2.1.trans hTR
    have hmode1 : t.settled.mode = .DOWN := t.pending_kept.1.trans hmode
    have hlow1 : ¬ t.settled.bit_t2ex = true := by
      rw [settled, hpending]
      exact hlow
    have hsecond : Ticked b t.settled t.settled := by
      have htick1 : t.settled.tick b = some t.settled := by
        rw [tick_down hTR1 b hmode1, if_neg hlow1, hsettled]
      refine .of_counted htick1 ?_
      rw [show t.settled.due b = 0 by omega, hsettled]
      exact ⟨rfl, rfl, rfl⟩
    exact .of_ticked (.inr hmode) rfl (hticked a (by omega)) hsecond (hticked (a + b) hdue)

end Counting

/-- Two ticks count like one, and as much as is due, exactly in the baud-rate mode, and in the down-capable mode if
nothing is due or T2EX is high and every count carries out of TL. -/
theorem lawful_iff (t : Timer2) (a b : Nat) (hTR : t.TR = true)
    (hmode : t.mode = .CAPTURE ∨ t.mode = .RELOAD ∨ t.mode = .DOWN ∨ t.mode = .BAUDRATE) :
    t.Lawful a b ↔ t.mode = .BAUDRATE ∨ (t.mode = .DOWN ∧
      if t.bit_t2ex then t.Carries (t.due (a + b)) else t.due (a + b) = 0) := by
  have hTR' : t.settled.TR = true := t.pending_kept.2.2.1.trans hTR
  have hafter : ∀ u : Timer2, u.config = t.settled.config → u.TR = true ∧ u.mode = t.mode := by
    intro u hu
    have hsame : u.config.TR = t.settled.config.TR := by rw [hu]
    exact ⟨hsame.trans hTR', (config_fields hu).1.trans t.pending_kept.1⟩
  have honce : t.mode = .CAPTURE ∨ t.mode = .RELOAD → ¬ t.Lawful a b := by
    intro hmode
    obtain ⟨u, h1, hconfig, hu⟩ := tick_once hTR hmode a
    obtain ⟨hTR1, hmode1⟩ := hafter _ hconfig
    obtain ⟨v, h2, -, hv⟩ := tick_once hTR1 (hmode1.symm ▸ hmode) b
    obtain ⟨w, h3, -, hw⟩ := tick_once hTR hmode (a + b)
    exact not_lawful_of_once h1 h2 h3 hconfig hu hv hw
  rcases hmode with hmode | hmode | hmode | hmode
  · exact iff_of_false (honce (.inl hmode)) (by simp [hmode])
  · exact iff_of_false (honce (.inr hmode)) (by simp [hmode])
  · have hside : (t.mode = .BAUDRATE ∨ (t.mode = .DOWN ∧
        if t.bit_t2ex then t.Carries (t.due (a + b)) else t.due (a + b) = 0)) ↔
        if t.bit_t2ex then t.Carries (t.due (a + b)) else t.due (a + b) = 0 := by
      simp [hmode]
    rw [hside]
    by_cases hhigh : t.bit_t2ex = true
    · rw [if_pos hhigh]
      exact lawful_high_iff hTR hmode hhigh a b
    · rw [if_neg hhigh]
      exact lawful_low_iff hTR hmode hhigh a b
  · refine iff_of_true ?_ (.inl hmode)
    have hconfig := (counted_baud hmode (t.due a)).config
    obtain ⟨hTR1, hmode1⟩ := hafter _ hconfig
    rw [hmode] at hmode1
    have hticked : ∀ (u : Timer2) (c : Nat), u.TR = true → u.mode = .BAUDRATE →
        Ticked c u (countBaud^[u.due c] u.settled) := by
      intro u c hu hm
      exact .of_counted (tick_baud hu c hm) (counted_baud hm _)
    exact .of_ticked (.inl hmode) hconfig (hticked _ _ hTR hmode) (hticked _ _ hTR1 hmode1)
      (hticked _ _ hTR hmode)

/-- A timer that runs in a mode with T2EX high. The count and RCAP2 are at the last value. -/
def running (mode : Timer2Mode) : Timer2 :=
  { afterReset with TR := true, mode := mode, tl := 0xff, th := 0xff, rcap2l := 0xff, rcap2h := 0xff }

/-- The baud rate mode and the down-capable mode. -/
theorem lawful_down : (running .BAUDRATE).Lawful 1 2 ∧ (running .DOWN).Lawful 2 3 :=
  ⟨(lawful_iff (running .BAUDRATE) 1 2 rfl (.inr (.inr (.inr rfl)))).mpr (.inl rfl),
    (lawful_iff (running .DOWN) 2 3 rfl (.inr (.inr (.inl rfl)))).mpr (.inr ⟨rfl, by decide⟩)⟩

/-- In the reload mode two ticks of two cycles count to 2, and one tick of four cycles to 1. In the down-capable
mode a tick counts nothing with T2EX low, and from 0 it does not come back with T2EX high. -/
theorem not_lawful_reload :
    (((afterReset.writeT2con 0x04).tick 2).bind (tick 2)).map count = some 2 ∧
      ((afterReset.writeT2con 0x04).tick (2 + 2)).map count = some 1 ∧
      ({ running .DOWN with bit_t2ex := false }.tick 1).map count = some 0xffff ∧
      ({ running .DOWN with tl := 0, th := 0 }.tick 1) = none ∧
      ∀ k t toggle, DownLoop.step^[k] (.up 1 { running .DOWN with tl := 0, th := 0 } false) ≠ .done t toggle := by
  refine ⟨by decide, by decide, by decide, by decide, fun k t toggle hk => ?_⟩
  have hsome := (downLoop_eq_some_iff 1 { running .DOWN with tl := 0, th := 0 } t false toggle).mpr ⟨k, hk⟩
  cases hsome

end Timer2

end Ucsim.S51
