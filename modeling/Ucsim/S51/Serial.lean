import Mathlib.Algebra.BigOperators.Group.List.Basic
import Ucsim.S51.Timer2

/-!
# The serial line

`cl_serial` shifts a byte out while it counts what clocks it: machine cycles in two of its modes, overflows of a
timer in the other two.
-/

namespace Ucsim.S51

def bmTI : BitVec 8 := 0x02

def bmRI : BitVec 8 := 0x01

def bmREN : BitVec 8 := 0x10

def bmSMOD : BitVec 8 := 0x80

/-- `cl_serial` with its cells. `serial_out` has the bytes that went out, and `sent` counts how often TI was set. -/
structure Serial where
  t2_baud : Bool
  s_in : BitVec 8
  s_out : BitVec 8
  s_sending : Bool
  s_receiving : Bool
  s_rec_bit : Nat
  s_tr_bit : Nat
  s_rec_t1 : Nat
  s_tr_t1 : Nat
  s_rec_tick : Nat
  s_tr_tick : Nat
  mode : Nat
  bmREN : Bool
  bmSMOD : Bool
  bits : Nat
  divby : Nat
  sbuf : BitVec 8
  pcon : BitVec 8
  scon : BitVec 8
  serial_out : List (BitVec 8)
  sent : Nat
  deriving DecidableEq, Repr

namespace Serial

/-- After `reset`, and the writes of SCON and PCON with which the controller starts. -/
def start : Serial where
  t2_baud := false
  s_in := 0
  s_out := 0
  s_sending := false
  s_receiving := false
  s_rec_bit := 0
  s_tr_bit := 0
  s_rec_t1 := 0
  s_tr_t1 := 0
  s_rec_tick := 0
  s_tr_tick := 0
  mode := 0
  bmREN := false
  bmSMOD := false
  bits := 8
  divby := 12
  sbuf := 0
  pcon := 0
  scon := 0
  serial_out := []
  sent := 0

/-! ## Registers -/

/-- The divider for SMOD. -/
def bySMOD (bmSMOD : Bool) : Nat := if bmSMOD then 16 else 32

/-- `write` on the cell of SBUF. -/
def writeSbuf (val : BitVec 8) (s : Serial) : Serial :=
  { s with s_out := val, s_sending := true, s_tr_bit := 0, s_tr_tick := 0, s_tr_t1 := 0, sbuf := val }

/-- The bits of a frame in a mode. -/
def bitsOf : Nat → Nat
  | 0 => 8
  | 1 => 10
  | _ => 11

/-- `write` on the cell of SCON. -/
def writeScon (val : BitVec 8) (s : Serial) : Serial :=
  let mode := (val >>> 6).toNat
  { s with
    mode := mode
    bmREN := val &&& S51.bmREN ≠ 0
    bits := bitsOf mode
    divby := if mode = 0 then 12 else bySMOD s.bmSMOD
    scon := val }

/-- `write` on the cell of PCON. -/
def writePcon (val : BitVec 8) (s : Serial) : Serial :=
  let bmSMOD : Bool := val &&& S51.bmSMOD ≠ 0
  { s with bmSMOD := bmSMOD, divby := if s.mode ≠ 0 then bySMOD bmSMOD else s.divby, pcon := val }

/-- `read` on the cell of SBUF. -/
def readSbuf (s : Serial) : BitVec 8 := s.s_in

/-! ## Clocks -/

/-- The loop over one of the counters. A divider of 0 would not end it. -/
def drain (divby src bit : Nat) : Nat × Nat :=
  if h : 0 < divby ∧ divby ≤ src then drain divby (src - divby) (bit + 1) else (src, bit)
termination_by src

/-- The modes in which machine cycles are counted. -/
def clocked (s : Serial) : Bool := s.mode = 0 ∨ s.mode = 2

/-- What `tr_src` points at. -/
def trSrc (s : Serial) : Nat := if s.clocked then s.s_tr_tick else s.s_tr_t1

/-- What `rec_src` points at. -/
def recSrc (s : Serial) : Nat := if s.clocked then s.s_rec_tick else s.s_rec_t1

/-- Bits are sent. -/
def sendBits (s : Serial) : Serial :=
  let p := drain s.divby s.trSrc s.s_tr_bit
  if s.clocked then { s with s_tr_tick := p.1, s_tr_bit := p.2 } else { s with s_tr_t1 := p.1, s_tr_bit := p.2 }

/-- Bits are received. -/
def receiveBits (s : Serial) : Serial :=
  let p := drain s.divby s.recSrc s.s_rec_bit
  if s.clocked then { s with s_rec_tick := p.1, s_rec_bit := p.2 } else { s with s_rec_t1 := p.1, s_rec_bit := p.2 }

/-- With timer 2 the divider is 16 in every mode, and stays so. -/
def forceDivby (s : Serial) : Serial := if s.t2_baud then { s with divby := 16 } else s

/-- `serial_bit_cnt`. -/
def serial_bit_cnt (s : Serial) : Serial :=
  let s := s.forceDivby
  let s := if s.s_sending then s.sendBits else s
  if s.s_receiving then s.receiveBits else s

/-- The byte is out. -/
def transmit (s : Serial) : Serial :=
  if s.s_sending ∧ s.bits ≤ s.s_tr_bit then
    { s with
      s_sending := false
      scon := s.scon ||| bmTI
      sent := s.sent + 1
      serial_out := s.serial_out ++ [s.s_out]
      s_tr_bit := s.s_tr_bit - s.bits }
  else s

/-- The input is watched for a byte. `serial_in` is the one that is there, if there is one. -/
def startReceiving (serial_in : Option (BitVec 8)) (s : Serial) : Serial :=
  if s.bmREN ∧ serial_in.isSome ∧ ¬s.s_receiving then
    { s with s_receiving := true, s_rec_bit := 0, s_rec_tick := 0, s_rec_t1 := 0 }
  else s

/-- `received`, after the byte has been stored. -/
def received (c : BitVec 8) (s : Serial) : Serial := { s with s_in := c, sbuf := c, scon := s.scon ||| bmRI }

/-- The byte is taken when its bits have been counted. -/
def receive (serial_in : Option (BitVec 8)) (s : Serial) : Serial :=
  if s.s_receiving ∧ s.bits ≤ s.s_rec_bit then
    { serial_in.elim s fun c => received c s with s_receiving := false, s_rec_bit := s.s_rec_bit - s.bits }
  else s

/-- `tick`, where a cycle has so many clocks. -/
def tick (clock_per_cycle cycles : Nat) (serial_in : Option (BitVec 8)) (s : Serial) : Serial :=
  let s := receive serial_in (startReceiving serial_in s.serial_bit_cnt.transmit)
  let l := cycles * clock_per_cycle
  { s with s_tr_tick := s.s_tr_tick + l, s_rec_tick := s.s_rec_tick + l }

/-- `happen` for an overflow, of either timer. -/
def overflow (s : Serial) : Serial := { s with s_rec_t1 := s.s_rec_t1 + 1, s_tr_t1 := s.s_tr_t1 + 1 }

/-- `happen` for a new mode of timer 2. -/
def t2ModeChanged (s : Serial) (val : BitVec 8) : Serial :=
  let s := if s.t2_baud then s else { s with s_rec_t1 := 0, s_tr_t1 := 0 }
  { s with t2_baud := val &&& (bmRCLK ||| bmTCLK) ≠ 0 }

end Serial

/-! ## The line and timer 2 -/

/-- What happens to the line. The timers overflow as they like. -/
inductive LineInput
  | scon (val : BitVec 8)
  | pcon (val : BitVec 8)
  | sbuf (val : BitVec 8)
  | t2 (w : Timer2.ModeWrite)
  | timer1
  | timer2
  | tick (cycles : Nat) (serial_in : Option (BitVec 8))
  deriving DecidableEq

structure Channel where
  uart : Serial
  timer2 : Timer2

namespace Channel

/-- A write to timer 2. The line is told of the mode changes. -/
def writeTimer2 (features : Timer2Features) (w : Timer2.ModeWrite) (c : Channel) : Channel :=
  let timer2 := Timer2.writeMode features c.timer2 w
  { timer2, uart := (timer2.modeChanges.drop c.timer2.modeChanges.length).foldl Serial.t2ModeChanged c.uart }

def step (features : Timer2Features) (clock_per_cycle : Nat) (c : Channel) : LineInput → Channel
  | .scon val => { c with uart := c.uart.writeScon val }
  | .pcon val => { c with uart := c.uart.writePcon val }
  | .sbuf val => { c with uart := c.uart.writeSbuf val }
  | .t2 w => c.writeTimer2 features w
  | .timer1 => { c with uart := c.uart.overflow }
  | .timer2 => { c with uart := c.uart.overflow }
  | .tick cycles serial_in => { c with uart := c.uart.tick clock_per_cycle cycles serial_in }

/-- After a reset. -/
def start : Channel := ⟨.start, Timer2.afterReset⟩

end Channel

/-! ## What is promised -/

/-- What the registers say, and whether timer 2 has forced the divider since it was set. -/
structure Setting where
  mode : Nat
  SMOD : Bool
  t2 : Bool
  forced : Bool
  deriving DecidableEq, Repr

namespace Setting

def start : Setting := ⟨0, false, false, false⟩

def step (st : Setting) : LineInput → Setting
  | .scon val => { st with mode := (val >>> 6).toNat, forced := false }
  | .pcon val => { st with SMOD := val &&& bmSMOD ≠ 0, forced := if st.mode = 0 then st.forced else false }
  | .t2 (.t2con val) => { st with t2 := val &&& (bmRCLK ||| bmTCLK) ≠ 0 }
  | .tick _ _ => { st with forced := st.forced || st.t2 }
  | _ => st

/-- The modes in which machine cycles are counted. -/
def clocked (st : Setting) : Bool := st.mode = 0 ∨ st.mode = 2

/-- The divider without timer 2. -/
def ownDiv (st : Setting) : Nat := if st.mode = 0 then 12 else Serial.bySMOD st.SMOD

/-- The divider that is called for. -/
def div (st : Setting) : Nat := if st.t2 ∧ ¬st.clocked then 16 else st.ownDiv

/-- The divider that is used. -/
def usedDiv (st : Setting) : Nat := if st.t2 ∨ st.forced then 16 else st.ownDiv

/-- Timer 2 does not get in the way of the divider. -/
def Unforced (st : Setting) : Prop :=
  if st.clocked then st.t2 ∨ st.forced → st.mode = 2 ∧ st.SMOD else st.forced → st.t2 ∨ st.SMOD

theorem usedDiv_eq_div_iff (st : Setting) : st.usedDiv = st.div ↔ st.Unforced := by
  obtain ⟨mode, SMOD, t2, forced⟩ := st
  by_cases h0 : mode = 0
  · simp [usedDiv, div, Unforced, ownDiv, clocked, h0]
  by_cases h2 : mode = 2
  · simp [usedDiv, div, Unforced, ownDiv, clocked, h2, Serial.bySMOD]
  · simp [usedDiv, div, Unforced, ownDiv, clocked, h0, h2, Serial.bySMOD]
    cases t2 <;> cases forced <;> cases SMOD <;> simp

instance (st : Setting) : Decidable st.Unforced := decidable_of_iff _ st.usedDiv_eq_div_iff

/-- The clock units that are to be counted. -/
def unit (clock_per_cycle : Nat) (st : Setting) : LineInput → Nat
  | .tick cycles _ => if st.clocked then cycles * clock_per_cycle else 0
  | .timer1 => if st.clocked ∨ st.t2 then 0 else 1
  | .timer2 => if ¬st.clocked ∧ st.t2 then 1 else 0
  | _ => 0

/-- The clock units that are counted: the overflows of both timers. -/
def counted (clock_per_cycle : Nat) (st : Setting) : LineInput → Nat
  | .tick cycles _ => if st.clocked then cycles * clock_per_cycle else 0
  | .timer1 | .timer2 => if st.clocked then 0 else 1
  | _ => 0

/-- An overflow of the timer that does not give the baud rate. -/
def Foreign (st : Setting) (e : LineInput) : Prop :=
  ¬st.clocked ∧ e = if st.t2 then .timer1 else .timer2

end Setting

/-- Neither the registers nor the byte change. -/
def LineInput.Passes : LineInput → Prop
  | .timer1 | .timer2 | .tick _ _ => True
  | _ => False

theorem Setting.counted_eq_unit {st : Setting} {e : LineInput} (k : Nat) (h : ¬st.Foreign e) :
    st.counted k e = st.unit k e := by
  unfold Foreign at h
  cases e with
  | timer1 => cases ht : st.t2 <;> simp_all [counted, unit]
  | timer2 => cases hc : st.clocked <;> simp_all [counted, unit]
  | _ => rfl

/-- Units, and whether a call of `tick` has started with enough of them. -/
structure Meter where
  units : Nat
  done : Bool
  deriving DecidableEq, Repr

namespace Meter

/-- The input is a call of `tick`, and there are enough units for it. -/
def reaches (need units : Nat) : LineInput → Bool
  | .tick _ _ => decide (need ≤ units)
  | _ => false

def step (need : Nat) (unit : LineInput → Nat) (m : Meter) (e : LineInput) : Meter :=
  ⟨m.units + unit e, m.done || reaches need m.units e⟩

def run (need : Nat) (unit : LineInput → Nat) (es : List LineInput) : Meter := es.foldl (step need unit) ⟨0, false⟩

theorem run_units (need : Nat) (unit : LineInput → Nat) (es : List LineInput) :
    (run need unit es).units = (es.map unit).sum := by
  induction es using List.reverseRecOn with
  | nil => rfl
  | append_singleton es e ih =>
    rw [run, List.foldl_append, List.map_append, List.sum_append, ← ih, List.map_singleton, List.sum_singleton]
    rfl

/-- One of the calls of `tick` has started with enough units. -/
theorem run_done_iff (need : Nat) (unit : LineInput → Nat) (es : List LineInput) :
    (run need unit es).done ↔ ∃ before cycles input, before ++ [.tick cycles input] <+: es ∧
      need ≤ (before.map unit).sum := by
  induction es using List.reverseRecOn with
  | nil => simp [run]
  | append_singleton es e ih =>
    have hstep : run need unit (es ++ [e]) = (run need unit es).step need unit e := by
      rw [run, List.foldl_append]
      rfl
    rw [hstep, step, Bool.or_eq_true, ih, run_units]
    constructor
    · rintro (⟨before, cycles, input, hprefix, hneed⟩ | hlast)
      · exact ⟨before, cycles, input, hprefix.trans (List.prefix_append es [e]), hneed⟩
      · cases e with
        | tick cycles input => exact ⟨es, cycles, input, List.prefix_rfl, of_decide_eq_true hlast⟩
        | _ => exact absurd hlast Bool.false_ne_true
    · rintro ⟨before, cycles, input, hprefix, hneed⟩
      rcases List.prefix_concat_iff.mp hprefix with hall | hbefore
      · obtain ⟨rfl, htick⟩ := List.append_inj' hall rfl
        rw [← List.singleton_inj.mp htick]
        exact .inr (decide_eq_true hneed)
      · exact .inl ⟨before, cycles, input, hbefore, hneed⟩

end Meter

/-- A call of `tick` has started with all clock units that the byte needs. -/
def Setting.Due (st : Setting) (k : Nat) (es : List LineInput) : Prop :=
  ∃ before cycles serial_in, before ++ [.tick cycles serial_in] <+: es ∧
    Serial.bitsOf st.mode * st.div ≤ (before.map (st.unit k)).sum

/-! ## The registers -/

namespace Serial

/-- What the registers decide. -/
structure Config where
  mode : Nat
  SMOD : Bool
  bits : Nat
  divby : Nat
  t2_baud : Bool
  deriving DecidableEq, Repr

def config (s : Serial) : Config := ⟨s.mode, s.bmSMOD, s.bits, s.divby, s.t2_baud⟩

/-- What the transmitter counts. -/
structure Sender where
  s_sending : Bool
  s_tr_bit : Nat
  s_tr_tick : Nat
  s_tr_t1 : Nat
  sent : Nat
  deriving DecidableEq, Repr

def sender (s : Serial) : Sender := ⟨s.s_sending, s.s_tr_bit, s.s_tr_tick, s.s_tr_t1, s.sent⟩

theorem sendBits_config (s : Serial) : s.sendBits.config = s.config := by
  unfold sendBits
  split <;> rfl

theorem receiveBits_kept (s : Serial) : s.receiveBits.config = s.config ∧ s.receiveBits.sender = s.sender := by
  unfold receiveBits
  split <;> exact ⟨rfl, rfl⟩

/-- The end of the byte, as far as the transmitter is concerned. -/
def Sender.finish (bits : Nat) (x : Sender) : Sender :=
  if x.s_sending ∧ bits ≤ x.s_tr_bit then
    { x with s_sending := false, sent := x.sent + 1, s_tr_bit := x.s_tr_bit - bits }
  else x

theorem transmit_sender (s : Serial) : s.transmit.sender = s.sender.finish s.bits := by
  unfold transmit Sender.finish
  by_cases h : s.s_sending ∧ s.bits ≤ s.s_tr_bit
  · rw [if_pos h, if_pos (show s.sender.s_sending ∧ s.bits ≤ s.sender.s_tr_bit from h)]
    rfl
  · rw [if_neg h, if_neg (show ¬(s.sender.s_sending ∧ s.bits ≤ s.sender.s_tr_bit) from h)]

theorem transmit_config (s : Serial) : s.transmit.config = s.config := by
  unfold transmit
  split <;> rfl

theorem startReceiving_kept (serial_in : Option (BitVec 8)) (s : Serial) :
    (startReceiving serial_in s).config = s.config ∧ (startReceiving serial_in s).sender = s.sender := by
  unfold startReceiving
  split <;> exact ⟨rfl, rfl⟩

theorem receive_kept (serial_in : Option (BitVec 8)) (s : Serial) :
    (receive serial_in s).config = s.config ∧ (receive serial_in s).sender = s.sender := by
  unfold receive
  split
  · rcases serial_in with _ | c <;> exact ⟨rfl, rfl⟩
  · exact ⟨rfl, rfl⟩

/-- The transmitter before the end of the byte. -/
def sendIfSending (s : Serial) : Serial := if s.s_sending then s.sendBits else s

theorem sendIfSending_config (s : Serial) : s.sendIfSending.config = s.config := by
  unfold sendIfSending
  split
  · exact s.sendBits_config
  · rfl

theorem serial_bit_cnt_kept (s : Serial) : s.serial_bit_cnt.config = s.forceDivby.config ∧
    s.serial_bit_cnt.sender = s.forceDivby.sendIfSending.sender := by
  have hcnt : s.serial_bit_cnt = if s.forceDivby.sendIfSending.s_receiving
    then s.forceDivby.sendIfSending.receiveBits else s.forceDivby.sendIfSending := rfl
  rw [hcnt, ← s.forceDivby.sendIfSending_config]
  split
  · exact receiveBits_kept _
  · exact ⟨rfl, rfl⟩

/-- A call of `tick`, for the transmitter. -/
theorem tick_kept (k cycles : Nat) (serial_in : Option (BitVec 8)) (s : Serial) :
    (s.tick k cycles serial_in).config = s.forceDivby.config ∧ (s.tick k cycles serial_in).sender =
      (let x := s.forceDivby.sendIfSending.sender.finish s.bits
       { x with s_tr_tick := x.s_tr_tick + cycles * k }) := by
  obtain ⟨hconfig, hsender⟩ := s.serial_bit_cnt_kept
  have hbits : s.serial_bit_cnt.bits = s.bits := by
    have hforced : s.forceDivby.bits = s.bits := by
      unfold forceDivby
      split <;> rfl
    exact (congrArg Config.bits hconfig).trans hforced
  have hreceived := receive_kept serial_in (startReceiving serial_in s.serial_bit_cnt.transmit)
  have hstarted := startReceiving_kept serial_in s.serial_bit_cnt.transmit
  constructor
  · exact hreceived.1.trans (hstarted.1.trans ((transmit_config _).trans hconfig))
  · have hfinished : (receive serial_in (startReceiving serial_in s.serial_bit_cnt.transmit)).sender =
        s.forceDivby.sendIfSending.sender.finish s.bits := by
      rw [hreceived.2, hstarted.2, transmit_sender, hsender, hbits]
    rw [← hfinished]
    rfl

/-! ## A byte -/

theorem drain_eq {divby : Nat} (hpos : 0 < divby) (src bit : Nat) :
    drain divby src bit = (src % divby, bit + src / divby) := by
  induction src using Nat.strongRecOn generalizing bit with
  | ind src ih =>
    unfold drain
    by_cases hle : divby ≤ src
    · rw [dif_pos ⟨hpos, hle⟩, ih (src - divby) (by omega), Nat.mod_eq_sub_mod hle, Nat.div_eq_sub_div hpos hle]
      simp only [Prod.mk.injEq, true_and]
      omega
    · have hlt : src < divby := by omega
      rw [dif_neg (by omega), Nat.mod_eq_of_lt hlt, Nat.div_eq_of_lt hlt, Nat.add_zero]

namespace Sender

/-- What is counted in a mode. -/
def src (clocked : Bool) (x : Sender) : Nat := if clocked then x.s_tr_tick else x.s_tr_t1

/-- Bits are sent. -/
def send (divby : Nat) (clocked : Bool) (x : Sender) : Sender :=
  if x.s_sending then
    if clocked then { x with s_tr_tick := x.s_tr_tick % divby, s_tr_bit := x.s_tr_bit + x.s_tr_tick / divby }
    else { x with s_tr_t1 := x.s_tr_t1 % divby, s_tr_bit := x.s_tr_bit + x.s_tr_t1 / divby }
  else x

/-- A call of `tick`. -/
def tick (divby bits : Nat) (clocked : Bool) (l : Nat) (x : Sender) : Sender :=
  let x := (x.send divby clocked).finish bits
  { x with s_tr_tick := x.s_tr_tick + l }

/-- The transmitter is as far as the clock units have brought it. -/
structure Counts (divby sent : Nat) (clocked : Bool) (m : Meter) (x : Sender) : Prop where
  sending : x.s_sending = !m.done
  sent : x.sent = sent + m.done.toNat
  counted : m.done = false → x.s_tr_bit * divby + x.src clocked = m.units

/-- The bits that are out, and what is left of the units. -/
theorem send_counts {divby : Nat} (hpos : 0 < divby) (clocked : Bool) {x : Sender} (hsending : x.s_sending = true) :
    (x.send divby clocked).s_tr_bit * divby + (x.send divby clocked).src clocked =
        x.s_tr_bit * divby + x.src clocked ∧
      (x.send divby clocked).src clocked < divby ∧ (x.send divby clocked).s_sending = true ∧
      (x.send divby clocked).sent = x.sent := by
  have hsplit : ∀ n, (x.s_tr_bit + n / divby) * divby + n % divby = x.s_tr_bit * divby + n := by
    intro n
    rw [Nat.add_mul, Nat.add_assoc, Nat.mul_comm (n / divby), Nat.div_add_mod]
  unfold send src
  rw [if_pos hsending]
  cases clocked with
  | true => exact ⟨hsplit _, Nat.mod_lt _ hpos, hsending, rfl⟩
  | false => exact ⟨hsplit _, Nat.mod_lt _ hpos, hsending, rfl⟩

/-- The byte is out when enough has been counted at the start of the call. -/
theorem Counts.tick {divby bits sent l : Nat} {clocked : Bool} {m : Meter} {x : Sender} (hpos : 0 < divby)
    (h : Counts divby sent clocked m x) :
    Counts divby sent clocked ⟨m.units + (if clocked then l else 0), m.done || decide (bits * divby ≤ m.units)⟩
      (x.tick divby bits clocked l) := by
  unfold Sender.tick
  by_cases hdone : m.done = true
  · -- nothing is being sent
    have hidle : x.s_sending = false := by rw [h.sending, hdone]; rfl
    have hsend : x.send divby clocked = x := if_neg (by rw [hidle]; exact Bool.false_ne_true)
    have hfinish : x.finish bits = x := if_neg fun hs => Bool.false_ne_true (hidle.symm.trans hs.1)
    rw [hsend, hfinish, hdone]
    have hsent := h.sent
    rw [hdone] at hsent
    exact ⟨hidle, hsent, fun hno => absurd hno (by simp)⟩
  · rw [Bool.not_eq_true] at hdone
    have hsending : x.s_sending = true := by rw [h.sending, hdone]; rfl
    obtain ⟨hunits, hleft, hstill, hsent⟩ := send_counts hpos clocked hsending
    rw [h.counted hdone] at hunits
    have hreach : bits ≤ (x.send divby clocked).s_tr_bit ↔ bits * divby ≤ m.units := by
      rw [← hunits]
      constructor
      · intro hle
        exact (Nat.mul_le_mul_right divby hle).trans (Nat.le_add_right _ _)
      · intro hle
        have hlt : bits * divby < ((x.send divby clocked).s_tr_bit + 1) * divby := by
          rw [Nat.add_mul, Nat.one_mul]
          omega
        exact Nat.lt_succ_iff.mp (Nat.lt_of_mul_lt_mul_right hlt)
    have hsent' : (x.send divby clocked).sent = sent := by
      rw [hsent, h.sent, hdone]
      rfl
    rw [hdone, Bool.false_or]
    by_cases hle : bits * divby ≤ m.units
    · have hfinish : (x.send divby clocked).finish bits = _ := if_pos ⟨hstill, hreach.mpr hle⟩
      rw [hfinish, decide_eq_true hle]
      refine ⟨rfl, congrArg (· + 1) hsent', fun hno => absurd hno (by simp)⟩
    · have hfinish : (x.send divby clocked).finish bits = _ := if_neg fun hs => hle (hreach.mp hs.2)
      rw [hfinish, decide_eq_false hle]
      refine ⟨hstill, hsent', fun _ => ?_⟩
      rw [← hunits]
      cases clocked with
      | true => exact (Nat.add_assoc _ _ _).symm
      | false => rfl

theorem Counts.overflow {divby sent : Nat} {clocked : Bool} {m : Meter} {x : Sender}
    (h : Counts divby sent clocked m x) :
    Counts divby sent clocked ⟨m.units + (if clocked then 0 else 1), m.done⟩ { x with s_tr_t1 := x.s_tr_t1 + 1 } := by
  refine ⟨h.sending, h.sent, fun hdone => ?_⟩
  have hbefore := h.counted hdone
  rw [← hbefore]
  cases clocked with
  | true => rfl
  | false => rfl

end Sender

theorem sendIfSending_sender (s : Serial) (hpos : 0 < s.divby) :
    s.sendIfSending.sender = s.sender.send s.divby s.clocked := by
  have hsender : s.sender.s_sending = s.s_sending := rfl
  unfold sendIfSending Sender.send sendBits
  rw [hsender]
  split_ifs with hsending hclocked
  · simp only [drain_eq hpos, trSrc, hclocked, if_true]
    rfl
  · simp only [drain_eq hpos, trSrc, hclocked]
    rfl
  · rfl

theorem forceDivby_divby (s : Serial) : s.forceDivby.divby = if s.t2_baud then 16 else s.divby := by
  unfold forceDivby
  split <;> rfl

/-- The registers are those of the setting, and the transmitter is as far as the clock units have brought it. -/
structure Sends (st : Setting) (sent : Nat) (m : Meter) (s : Serial) : Prop where
  mode : s.mode = st.mode
  bits : s.bits = bitsOf st.mode
  divby : (if s.t2_baud then 16 else s.divby) = st.usedDiv
  counts : s.sender.Counts st.usedDiv sent st.clocked m

end Serial

theorem Setting.usedDiv_pos (st : Setting) : 0 < st.usedDiv := by
  unfold usedDiv ownDiv Serial.bySMOD
  split_ifs <;> decide

namespace Serial.Sends

variable {st : Setting} {sent : Nat} {m : Meter} {s : Serial}

theorem overflow (h : Sends st sent m s) {e : LineInput} (he : e = .timer1 ∨ e = .timer2) (need k : Nat) :
    Sends st sent (m.step need (st.counted k) e) s.overflow := by
  have hstep : m.step need (st.counted k) e = ⟨m.units + if st.clocked then 0 else 1, m.done⟩ := by
    rcases he with rfl | rfl <;> simp [Meter.step, Meter.reaches, Setting.counted]
  rw [hstep]
  exact ⟨h.mode, h.bits, h.divby, h.counts.overflow⟩

theorem tick (h : Sends st sent m s) (k cycles : Nat) (serial_in : Option (BitVec 8)) :
    Sends st sent (m.step (bitsOf st.mode * st.usedDiv) (st.counted k) (.tick cycles serial_in))
      (s.tick k cycles serial_in) := by
  obtain ⟨hconfig, hsender⟩ := s.tick_kept k cycles serial_in
  have hdivby : s.forceDivby.divby = st.usedDiv := s.forceDivby_divby.trans h.divby
  have hforced : s.forceDivby.mode = s.mode ∧ s.forceDivby.bits = s.bits ∧ s.forceDivby.t2_baud = s.t2_baud ∧
      s.forceDivby.sender = s.sender := by
    unfold forceDivby
    split <;> exact ⟨rfl, rfl, rfl, rfl⟩
  obtain ⟨hmode, hbits, ht2, hkept⟩ := hforced
  refine ⟨(congrArg Config.mode hconfig).trans (hmode.trans h.mode),
    (congrArg Config.bits hconfig).trans (hbits.trans h.bits), ?_, ?_⟩
  · have ht2' : (s.tick k cycles serial_in).t2_baud = s.t2_baud := (congrArg Config.t2_baud hconfig).trans ht2
    have hset : (s.tick k cycles serial_in).divby = st.usedDiv := (congrArg Config.divby hconfig).trans hdivby
    rw [ht2', hset, ← h.divby]
    split_ifs <;> rfl
  · have hclocked : s.forceDivby.clocked = st.clocked := by
      rw [Serial.clocked, hmode, h.mode]
      rfl
    rw [sendIfSending_sender _ (hdivby ▸ st.usedDiv_pos), hdivby, hclocked, hkept, h.bits] at hsender
    rw [hsender]
    exact h.counts.tick st.usedDiv_pos

end Serial.Sends

/-! ## Histories -/

namespace Channel

open Serial

/-- The line and timer 2 have the settings of the registers. -/
structure Follows (st : Setting) (c : Channel) : Prop where
  mode : c.uart.mode = st.mode
  SMOD : c.uart.bmSMOD = st.SMOD
  bits : c.uart.bits = bitsOf st.mode
  divby : c.uart.divby = if st.forced then 16 else st.ownDiv
  t2 : c.uart.t2_baud = st.t2
  baudrate : c.timer2.mode = .BAUDRATE → st.t2 = true
  other : c.timer2.mode = .RELOAD ∨ c.timer2.mode = .CAPTURE ∨ c.timer2.mode = .DOWN → st.t2 = false

theorem start_follows : start.Follows .start where
  mode := rfl
  SMOD := rfl
  bits := rfl
  divby := rfl
  t2 := rfl
  baudrate h := Timer2Mode.noConfusion h
  other _ := rfl

/-- The mode that T2CON chooses depends on timer 2 giving the baud rate. -/
theorem t2conMode_cases (val : BitVec 8) :
    (val &&& (bmRCLK ||| bmTCLK) ≠ 0 ∧ Timer2.t2conMode val = .BAUDRATE) ∨
      (val &&& (bmRCLK ||| bmTCLK) = 0 ∧ (Timer2.t2conMode val = .RELOAD ∨ Timer2.t2conMode val = .CAPTURE)) := by
  revert val
  decide

theorem modeChanges_t2con (val : BitVec 8) (t : Timer2) : (t.writeT2con val).modeChanges =
    if Timer2.t2conMode val ≠ t.mode then t.modeChanges ++ [val] else t.modeChanges := by
  unfold Timer2.writeT2con Timer2.forgetEdges Timer2.informModeChange
  split_ifs <;> rfl

theorem mode_t2con (val : BitVec 8) (t : Timer2) : (t.writeT2con val).mode = Timer2.t2conMode val := by
  unfold Timer2.writeT2con
  rw [Timer2.forgetEdges_mode, Timer2.informModeChange_mode]

theorem modeChanges_t2mod (features : Timer2Features) (val : BitVec 8) (t : Timer2) :
    (t.writeT2mod features val).modeChanges = t.modeChanges := by
  unfold Timer2.writeT2mod Timer2.forgetEdges Timer2.enterClkout Timer2.enterDown
  split_ifs <;> rfl

/-- T2MOD leads to the down-capable mode from the reload mode only. -/
theorem mode_t2mod (features : Timer2Features) (val : BitVec 8) (t : Timer2) :
    (t.writeT2mod features val).mode = t.mode ∨ (t.writeT2mod features val).mode = .CLKOUT ∨
      (t.mode = .RELOAD ∧ (t.writeT2mod features val).mode = .DOWN) := by
  rw [Timer2.writeT2mod, Timer2.forgetEdges_mode]
  unfold Timer2.enterClkout
  split
  · exact .inr (.inl rfl)
  · unfold Timer2.enterDown
    split
    · next hdown => exact .inr (.inr ⟨hdown.2.2, rfl⟩)
    · exact .inl rfl

variable {features : Timer2Features} {st : Setting} {c : Channel}

/-- A write of T2CON tells the line, unless the mode stays the same. -/
theorem writeTimer2_t2con (val : BitVec 8) : c.writeTimer2 features (.t2con val) =
    { timer2 := c.timer2.writeT2con val
      uart := if Timer2.t2conMode val ≠ c.timer2.mode then c.uart.t2ModeChanged val else c.uart } := by
  have hmodes := modeChanges_t2con val c.timer2
  simp only [writeTimer2, Timer2.writeMode, hmodes]
  split_ifs
  · simp
  · simp

theorem writeTimer2_t2mod (val : BitVec 8) : c.writeTimer2 features (.t2mod val) =
    { timer2 := c.timer2.writeT2mod features val, uart := c.uart } := by
  simp [writeTimer2, Timer2.writeMode, modeChanges_t2mod]

/-- A mode that stays the same needs no telling. -/
theorem Follows.t2_of_same (h : c.Follows st) {val : BitVec 8} (hsame : Timer2.t2conMode val = c.timer2.mode) :
    c.uart.t2_baud = decide (val &&& (bmRCLK ||| bmTCLK) ≠ 0) := by
  rw [h.t2]
  rcases t2conMode_cases val with ⟨hval, hmode⟩ | ⟨hval, hmode⟩
  · rw [decide_eq_true hval]
    exact h.baudrate (hsame.symm.trans hmode)
  · rw [decide_eq_false (not_not.mpr hval)]
    rw [hsame] at hmode
    exact h.other (hmode.imp_right .inl)

theorem Follows.t2con (h : c.Follows st) (val : BitVec 8) :
    (c.writeTimer2 features (.t2con val)).Follows (st.step (.t2 (.t2con val))) := by
  have huart : (if Timer2.t2conMode val ≠ c.timer2.mode then c.uart.t2ModeChanged val else c.uart).config =
      { c.uart.config with t2_baud := decide (val &&& (bmRCLK ||| bmTCLK) ≠ 0) } := by
    split_ifs with hchange
    · unfold t2ModeChanged
      split <;> rfl
    · rw [← h.t2_of_same (not_not.mp hchange)]
      rfl
  rw [writeTimer2_t2con]
  refine ⟨(congrArg Config.mode huart).trans h.mode, (congrArg Config.SMOD huart).trans h.SMOD,
    (congrArg Config.bits huart).trans h.bits, (congrArg Config.divby huart).trans h.divby,
    congrArg Config.t2_baud huart, fun hbaud => ?_, fun hother => ?_⟩
  · rw [mode_t2con] at hbaud
    rcases t2conMode_cases val with ⟨hval, -⟩ | ⟨-, hmode⟩
    · exact decide_eq_true hval
    · rw [hbaud] at hmode
      simp at hmode
  · rw [mode_t2con] at hother
    rcases t2conMode_cases val with ⟨-, hmode⟩ | ⟨hval, -⟩
    · rw [hmode] at hother
      simp at hother
    · exact decide_eq_false (not_not.mpr hval)

theorem Follows.t2mod (h : c.Follows st) (val : BitVec 8) :
    (c.writeTimer2 features (.t2mod val)).Follows st := by
  rw [writeTimer2_t2mod]
  refine ⟨h.mode, h.SMOD, h.bits, h.divby, h.t2, fun hbaud => ?_, fun hother => ?_⟩
  · rcases mode_t2mod features val c.timer2 with hmode | hmode | ⟨-, hmode⟩
    · exact h.baudrate (hmode.symm.trans hbaud)
    · exact Timer2Mode.noConfusion (hmode.symm.trans hbaud)
    · exact Timer2Mode.noConfusion (hmode.symm.trans hbaud)
  · rcases mode_t2mod features val c.timer2 with hmode | hmode | ⟨hmode, -⟩
    · exact h.other (hmode ▸ hother)
    · rw [hmode] at hother
      simp at hother
    · exact h.other (.inl hmode)

/-- What happens to the line keeps the settings those of the registers. -/
theorem Follows.step (h : c.Follows st) (k : Nat) (e : LineInput) : (c.step features k e).Follows (st.step e) := by
  cases e with
  | scon val =>
    refine ⟨rfl, h.SMOD, rfl, ?_, h.t2, h.baudrate, h.other⟩
    show (if (val >>> 6).toNat = 0 then 12 else bySMOD c.uart.bmSMOD) = _
    rw [h.SMOD]
    rfl
  | pcon val =>
    refine ⟨h.mode, rfl, h.bits, ?_, h.t2, h.baudrate, h.other⟩
    show (if c.uart.mode ≠ 0 then bySMOD (val &&& bmSMOD ≠ 0) else c.uart.divby) = _
    rw [h.mode, h.divby]
    by_cases h0 : st.mode = 0
    · simp [Setting.step, Setting.ownDiv, h0]
    · simp [Setting.step, Setting.ownDiv, h0]
  | sbuf val => exact ⟨h.mode, h.SMOD, h.bits, h.divby, h.t2, h.baudrate, h.other⟩
  | t2 w =>
    cases w with
    | t2con val => exact h.t2con val
    | t2mod val => exact h.t2mod val
  | timer1 => exact ⟨h.mode, h.SMOD, h.bits, h.divby, h.t2, h.baudrate, h.other⟩
  | timer2 => exact ⟨h.mode, h.SMOD, h.bits, h.divby, h.t2, h.baudrate, h.other⟩
  | tick cycles serial_in =>
    have hconfig := (c.uart.tick_kept k cycles serial_in).1
    have hforced : c.uart.forceDivby.config = { c.uart.config with divby := c.uart.forceDivby.divby } := by
      unfold forceDivby
      split <;> rfl
    rw [hforced] at hconfig
    refine ⟨(congrArg Config.mode hconfig).trans h.mode, (congrArg Config.SMOD hconfig).trans h.SMOD,
      (congrArg Config.bits hconfig).trans h.bits, ?_, (congrArg Config.t2_baud hconfig).trans h.t2,
      h.baudrate, h.other⟩
    have hdivby : (c.uart.tick k cycles serial_in).divby = c.uart.forceDivby.divby := congrArg Config.divby hconfig
    show (c.uart.tick k cycles serial_in).divby = if (st.forced || st.t2) then 16 else st.ownDiv
    rw [hdivby, forceDivby_divby, h.t2, h.divby]
    cases st.t2 <;> cases st.forced <;> rfl

/-! ## Transmissions -/

def run (features : Timer2Features) (k : Nat) (c : Channel) (es : List LineInput) : Channel :=
  es.foldl (Channel.step features k) c

theorem Follows.run {k : Nat} (h : c.Follows st) (es : List LineInput) :
    (run features k c es).Follows (es.foldl Setting.step st) := by
  induction es generalizing c st with
  | nil => exact h
  | cons e es ih => exact ih (h.step k e)

/-- A write of SBUF starts a byte. -/
theorem Follows.sends (h : c.Follows st) (k : Nat) (val : BitVec 8) :
    Sends st c.uart.sent ⟨0, false⟩ (c.step features k (.sbuf val)).uart where
  mode := h.mode
  bits := h.bits
  divby := by
    show (if c.uart.t2_baud then 16 else c.uart.divby) = st.usedDiv
    rw [h.t2, h.divby, Setting.usedDiv]
    cases st.t2 <;> cases st.forced <;> rfl
  counts := by
    refine ⟨rfl, rfl, fun _ => ?_⟩
    cases st.clocked <;> exact Nat.zero_mul st.usedDiv

theorem sends_run {sent k : Nat} {m : Meter} (es : List LineInput) (hes : ∀ e ∈ es, e.Passes)
    (h : Sends st sent m c.uart) : Sends st sent
      (es.foldl (Meter.step (bitsOf st.mode * st.usedDiv) (st.counted k)) m) (run features k c es).uart := by
  induction es generalizing c m with
  | nil => exact h
  | cons e es ih =>
    obtain ⟨he, hrest⟩ := List.forall_mem_cons.mp hes
    refine ih hrest ?_
    cases e with
    | timer1 => exact h.overflow (.inl rfl) _ k
    | timer2 => exact h.overflow (.inr rfl) _ k
    | tick cycles serial_in => exact h.tick k cycles serial_in
    | _ => exact he.elim

/-- TI is set when enough of what the line counts has come. -/
theorem sent_counted (features : Timer2Features) (h : c.Follows st) (k : Nat) (val : BitVec 8) (es : List LineInput)
    (hes : ∀ e ∈ es, e.Passes) :
    (run features k c (.sbuf val :: es)).uart.sent =
        c.uart.sent + (Meter.run (bitsOf st.mode * st.usedDiv) (st.counted k) es).done.toNat ∧
      (run features k c (.sbuf val :: es)).uart.s_sending =
        !(Meter.run (bitsOf st.mode * st.usedDiv) (st.counted k) es).done := by
  have hstart : Sends st c.uart.sent ⟨0, false⟩ (c.step features k (.sbuf val)).uart := h.sends k val
  have hsends : Sends st c.uart.sent _ (run features k (c.step features k (.sbuf val)) es).uart :=
    sends_run es hes hstart
  exact ⟨hsends.counts.sent, hsends.counts.sending⟩

theorem tick_idle (k cycles : Nat) (serial_in : Option (BitVec 8)) {s : Serial} (hidle : s.s_sending = false) :
    (s.tick k cycles serial_in).s_sending = false ∧ (s.tick k cycles serial_in).sent = s.sent := by
  have hforced : s.forceDivby.sender = s.sender := by
    unfold forceDivby
    split <;> rfl
  have hsame : s.forceDivby.sendIfSending = s.forceDivby := by
    have hno : s.forceDivby.s_sending = false := (congrArg Sender.s_sending hforced).trans hidle
    exact if_neg (by rw [hno]; exact Bool.false_ne_true)
  have hfinish : s.sender.finish s.bits = s.sender := if_neg fun hs => Bool.false_ne_true (hidle.symm.trans hs.1)
  have hsender := (s.tick_kept k cycles serial_in).2
  rw [hsame, hforced, hfinish] at hsender
  exact ⟨(congrArg Sender.s_sending hsender).trans hidle, congrArg Sender.sent hsender⟩

/-- Without a byte TI is left alone. -/
theorem idle_step (k : Nat) {e : LineInput} (he : ∀ val, e ≠ .sbuf val) (hidle : c.uart.s_sending = false) :
    (c.step features k e).uart.s_sending = false ∧ (c.step features k e).uart.sent = c.uart.sent := by
  cases e with
  | sbuf val => exact absurd rfl (he val)
  | t2 w =>
    cases w with
    | t2con val =>
      show (c.writeTimer2 features (.t2con val)).uart.s_sending = false ∧ _ = _
      have hkept : (c.uart.t2ModeChanged val).sender = { c.uart.sender with
          s_tr_t1 := (c.uart.t2ModeChanged val).s_tr_t1 } := by
        unfold t2ModeChanged
        split <;> rfl
      rw [Channel.step, writeTimer2_t2con]
      split_ifs
      · exact ⟨(congrArg Sender.s_sending hkept).trans hidle, congrArg Sender.sent hkept⟩
      · exact ⟨hidle, rfl⟩
    | t2mod val =>
      rw [Channel.step, writeTimer2_t2mod]
      exact ⟨hidle, rfl⟩
  | tick cycles serial_in => exact tick_idle k cycles serial_in hidle
  | _ => exact ⟨hidle, rfl⟩

theorem idle_run (k : Nat) (es : List LineInput) (hes : ∀ e ∈ es, ∀ val, e ≠ .sbuf val)
    (hidle : c.uart.s_sending = false) : (run features k c es).uart.sent = c.uart.sent := by
  induction es generalizing c with
  | nil => rfl
  | cons e es ih =>
    obtain ⟨he, hrest⟩ := List.forall_mem_cons.mp hes
    obtain ⟨hstill, hsent⟩ : (c.step features k e).uart.s_sending = false ∧ _ := idle_step k he hidle
    exact (ih hrest hstill).trans hsent

/-- Whatever has happened before: a byte sets TI once, in the first call of `tick` that starts with the clock units
that it needs, if timer 2 has not got in the way of the divider and the other timer does not overflow. -/
theorem sent_once (features : Timer2Features) (k : Nat) (history : List LineInput)
    (val : BitVec 8) (es : List LineInput) (hes : ∀ e ∈ es, e.Passes)
    (hdiv : (history.foldl Setting.step .start).Unforced)
    (hown : ∀ e ∈ es, ¬(history.foldl Setting.step .start).Foreign e) :
    let st := history.foldl Setting.step .start
    let c := run features k start history
    (¬st.Due k es → (run features k c (.sbuf val :: es)).uart.sent = c.uart.sent) ∧
      (st.Due k es → ∀ rest : List LineInput, (∀ e ∈ rest, ∀ v, e ≠ .sbuf v) →
        (run features k c (.sbuf val :: es ++ rest)).uart.sent = c.uart.sent + 1) := by
  intro st c
  have hfollows : c.Follows st := start_follows.run history
  obtain ⟨hsent, hsending⟩ := sent_counted features hfollows k val es hes
  have hmeter : Meter.run (bitsOf st.mode * st.usedDiv) (st.counted k) es =
      Meter.run (bitsOf st.mode * st.div) (st.unit k) es := by
    rw [(st.usedDiv_eq_div_iff).mpr hdiv]
    refine List.foldl_ext _ _ _ fun m e he => ?_
    rw [Meter.step, Meter.step, Setting.counted_eq_unit k (hown e he)]
  have hdone := Meter.run_done_iff (bitsOf st.mode * st.div) (st.unit k) es
  rw [hmeter] at hsent hsending
  constructor
  · intro hdue
    have hno : (Meter.run (bitsOf st.mode * st.div) (st.unit k) es).done = false :=
      Bool.eq_false_iff.mpr (mt hdone.mp hdue)
    rw [hsent, hno]
    rfl
  · intro hdue rest hrest
    rw [hdone.mpr hdue] at hsent hsending
    rw [run, List.foldl_append]
    exact (idle_run k rest hrest hsending).trans hsent

/-- Eight cycles of twelve clocks are what a byte needs in mode 0. -/
def nineTicks : List LineInput := List.replicate 9 (.tick 1 none)

theorem nineTicks_due {st : Setting} (hmode : st.mode = 0) : st.Due 12 nineTicks := by
  refine ⟨List.replicate 8 (.tick 1 none), 1, none, ⟨[], rfl⟩, ?_⟩
  simp [bitsOf, Setting.div, Setting.ownDiv, Setting.clocked, Setting.unit, hmode]

/-- A byte is sent in mode 0. -/
theorem sent_once_nineTicks : (run ⟨false, false⟩ 12 start (.sbuf 0x41 :: nineTicks)).uart.sent = 1 :=
  (sent_once ⟨false, false⟩ 12 [] 0x41 nineTicks
    (fun e he => by rw [List.eq_of_mem_replicate he]; trivial)
    (by decide)
    (fun e he hforeign => absurd hforeign.1 (by decide))).2 (nineTicks_due rfl) [] (List.forall_mem_nil _)

/-- With TCLK set the divider is 16 in mode 0 too. -/
theorem not_sent_tclk : (List.foldl Setting.step .start [.t2 (.t2con bmTCLK)]).Due 12 nineTicks ∧
    (run ⟨false, false⟩ 12 start (.t2 (.t2con bmTCLK) :: .sbuf 0x41 :: nineTicks)).uart.sent = 0 := by
  have hfollows : (run ⟨false, false⟩ 12 start [.t2 (.t2con bmTCLK)]).Follows ⟨0, false, true, false⟩ :=
    start_follows.run [.t2 (.t2con bmTCLK)]
  have hpasses : ∀ e ∈ nineTicks, e.Passes := fun e he => by rw [List.eq_of_mem_replicate he]; trivial
  have hbefore : (run ⟨false, false⟩ 12 start [.t2 (.t2con bmTCLK)]).uart.sent = 0 := by decide
  have hdone : (Meter.run (bitsOf 0 * Setting.usedDiv ⟨0, false, true, false⟩)
      (Setting.counted 12 ⟨0, false, true, false⟩) nineTicks).done = false := by decide
  have hsent := (sent_counted ⟨false, false⟩ hfollows 12 0x41 nineTicks hpasses).1
  rw [hbefore, hdone] at hsent
  exact ⟨nineTicks_due rfl, hsent⟩

end Channel

end Ucsim.S51
