import Ucsim.S51.Serial

/-!
# Two controllers on a line

`serial_out` of each of two controllers is the input of the other. Both take their steps in any order, and
each one's timers and registers do what its program makes them do.
-/

namespace Ucsim.S51

namespace Serial

/-- `reset`. The registers, the mode and the divider stay. -/
def reset (s : Serial) : Serial :=
  { s with
    s_tr_t1 := 0
    s_rec_t1 := 0
    s_tr_tick := 0
    s_rec_tick := 0
    s_in := 0
    s_out := 0
    s_sending := false
    s_receiving := false
    s_rec_bit := 0
    s_tr_bit := 0 }

/-- The line in a call of `tick`, before the byte is taken. -/
def started (serial_in : Option (BitVec 8)) (s : Serial) : Serial := startReceiving serial_in s.serial_bit_cnt.transmit

/-- What a call of `tick` reads from the input. -/
def taken (serial_in : Option (BitVec 8)) (s : Serial) : List (BitVec 8) :=
  if (s.started serial_in).s_receiving ∧ (s.started serial_in).bits ≤ (s.started serial_in).s_rec_bit then
    serial_in.toList
  else []

/-- The byte on its way out. -/
def held (s : Serial) : List (BitVec 8) := if s.s_sending then [s.s_out] else []

/-- What went out, and what is going to. -/
def outbox (s : Serial) : List (BitVec 8) := s.serial_out ++ s.held

end Serial

/-! ## The two parties -/

inductive Side
  | near
  | far
  deriving DecidableEq, Repr

def Side.other : Side → Side
  | .near => .far
  | .far => .near

@[simp] theorem Side.other_ne (s : Side) : s.other ≠ s := by cases s <;> decide

/-- What happens to a side. A call of `tick` finds what is on the line. -/
inductive EndInput
  | reset
  | scon (val : BitVec 8)
  | pcon (val : BitVec 8)
  | sbuf (val : BitVec 8)
  | t2 (w : Timer2.ModeWrite)
  | timer1
  | timer2
  | tick (cycles : Nat)
  deriving DecidableEq

namespace EndInput

/-- The input as the line gets it. -/
def line (serial_in : Option (BitVec 8)) : EndInput → Option LineInput
  | .reset => none
  | .scon val => some (.scon val)
  | .pcon val => some (.pcon val)
  | .sbuf val => some (.sbuf val)
  | .t2 w => some (.t2 w)
  | .timer1 => some .timer1
  | .timer2 => some .timer2
  | .tick cycles => some (.tick cycles serial_in)

/-- What is read from the line. -/
def taken (serial_in : Option (BitVec 8)) (uart : Serial) : EndInput → List (BitVec 8)
  | .tick _ => uart.taken serial_in
  | _ => []

/-- A byte on its way out is lost to a reset and to the next byte. -/
def lost (uart : Serial) : EndInput → List (BitVec 8)
  | .reset | .sbuf _ => uart.held
  | _ => []

/-- What is to go out. -/
def written : EndInput → List (BitVec 8)
  | .sbuf val => [val]
  | _ => []

end EndInput

def Channel.exec (features : Timer2Features) (k : Nat) (serial_in : Option (BitVec 8)) (c : Channel) (e : EndInput) :
    Channel :=
  (e.line serial_in).elim { c with uart := c.uart.reset } (c.step features k)

/-- The sides, and what is on the line to each. `got` has what a side has read, `lost` what it has not sent. -/
structure Link where
  channel : Side → Channel
  input : Side → List (BitVec 8)
  got : Side → List (BitVec 8)
  lost : Side → List (BitVec 8)

namespace Link

variable (features : Side → Timer2Features) (k : Side → Nat)

def step (l : Link) (s : Side) (e : EndInput) : Link :=
  let c := l.channel s
  let serial_in := (l.input s).head?
  let c' := c.exec (features s) (k s) serial_in e
  let taken := e.taken serial_in c.uart
  { channel := Function.update l.channel s c'
    input := fun t => if t = s then (l.input s).drop taken.length
      else l.input t ++ c'.uart.serial_out.drop c.uart.serial_out.length
    got := Function.update l.got s (l.got s ++ taken)
    lost := Function.update l.lost s (l.lost s ++ e.lost c.uart) }

/-- After a reset of both, with nothing on the line. -/
def start : Link := ⟨fun _ => .start, fun _ => [], fun _ => [], fun _ => []⟩

/-- The sides take their steps in the order of the list. -/
def run (es : List (Side × EndInput)) : Link := es.foldl (fun l e => l.step features k e.1 e.2) start

/-- What a side was given to send. -/
def written (es : List (Side × EndInput)) (s : Side) : List (BitVec 8) :=
  (es.filter fun e => e.1 = s).flatMap fun e => e.2.written

end Link

/-! ## One side -/

namespace Serial

theorem forceDivby_outbox (s : Serial) : s.forceDivby.outbox = s.outbox ∧ s.forceDivby.serial_out = s.serial_out := by
  unfold forceDivby
  split <;> exact ⟨rfl, rfl⟩

/-- The clocks leave what is sent alone. -/
theorem serial_bit_cnt_outbox (s : Serial) :
    s.serial_bit_cnt.outbox = s.outbox ∧ s.serial_bit_cnt.serial_out = s.serial_out := by
  have hsend : ∀ s : Serial, s.sendBits.outbox = s.outbox ∧ s.sendBits.serial_out = s.serial_out := by
    intro s
    unfold sendBits
    split <;> exact ⟨rfl, rfl⟩
  have hreceive : ∀ s : Serial, s.receiveBits.outbox = s.outbox ∧ s.receiveBits.serial_out = s.serial_out := by
    intro s
    unfold receiveBits
    split <;> exact ⟨rfl, rfl⟩
  unfold serial_bit_cnt
  obtain ⟨hout, hserial⟩ := s.forceDivby_outbox
  dsimp only
  split <;> split <;> simp [hsend, hreceive, hout, hserial]

/-- A byte goes out, or stays on its way. -/
theorem transmit_outbox (s : Serial) : s.transmit.outbox = s.outbox ∧ s.serial_out <+: s.transmit.serial_out := by
  unfold transmit
  split
  · next h =>
    refine ⟨?_, List.prefix_append _ _⟩
    simp [outbox, held, h.1]
  · exact ⟨rfl, List.prefix_rfl⟩

theorem startReceiving_outbox (serial_in : Option (BitVec 8)) (s : Serial) :
    (startReceiving serial_in s).outbox = s.outbox ∧ (startReceiving serial_in s).serial_out = s.serial_out := by
  unfold startReceiving
  split <;> exact ⟨rfl, rfl⟩

theorem receive_outbox (serial_in : Option (BitVec 8)) (s : Serial) :
    (receive serial_in s).outbox = s.outbox ∧ (receive serial_in s).serial_out = s.serial_out := by
  unfold receive
  split
  · rcases serial_in with _ | c <;> exact ⟨rfl, rfl⟩
  · exact ⟨rfl, rfl⟩

theorem tick_outbox (k cycles : Nat) (serial_in : Option (BitVec 8)) (s : Serial) :
    (s.tick k cycles serial_in).outbox = s.outbox ∧ s.serial_out <+: (s.tick k cycles serial_in).serial_out := by
  obtain ⟨hreceive, hreceive'⟩ := receive_outbox serial_in (s.started serial_in)
  obtain ⟨hstart, hstart'⟩ := startReceiving_outbox serial_in s.serial_bit_cnt.transmit
  obtain ⟨hsend, hsend'⟩ := s.serial_bit_cnt.transmit_outbox
  obtain ⟨hcnt, hcnt'⟩ := s.serial_bit_cnt_outbox
  constructor
  · exact hreceive.trans (hstart.trans (hsend.trans hcnt))
  · rw [hcnt'] at hsend'
    exact hsend'.trans (hreceive'.trans hstart' ▸ List.prefix_rfl)

end Serial

namespace Channel

variable (features : Timer2Features) (k : Nat)

theorem writeTimer2_outbox (w : Timer2.ModeWrite) (c : Channel) :
    (c.writeTimer2 features w).uart.outbox = c.uart.outbox ∧
      (c.writeTimer2 features w).uart.serial_out = c.uart.serial_out := by
  have hchanged : ∀ (vals : List (BitVec 8)) (s : Serial), (vals.foldl Serial.t2ModeChanged s).outbox = s.outbox ∧
      (vals.foldl Serial.t2ModeChanged s).serial_out = s.serial_out := by
    intro vals
    induction vals with
    | nil => exact fun s => ⟨rfl, rfl⟩
    | cons val vals ih =>
      intro s
      obtain ⟨hout, hserial⟩ := ih (s.t2ModeChanged val)
      have hone : (s.t2ModeChanged val).outbox = s.outbox ∧ (s.t2ModeChanged val).serial_out = s.serial_out := by
        unfold Serial.t2ModeChanged
        dsimp only
        split <;> exact ⟨rfl, rfl⟩
      exact ⟨hout.trans hone.1, hserial.trans hone.2⟩
  exact hchanged _ _

/-- What a side was given to send goes out, is on its way, or is lost. -/
theorem exec_outbox (serial_in : Option (BitVec 8)) (c : Channel) (e : EndInput) :
    ∃ kept, c.uart.outbox = kept ++ e.lost c.uart ∧
      (c.exec features k serial_in e).uart.outbox = kept ++ e.written ∧
      c.uart.serial_out <+: (c.exec features k serial_in e).uart.serial_out := by
  have hsame : ∀ uart : Serial, uart.outbox = c.uart.outbox → uart.serial_out = c.uart.serial_out →
      ∃ kept, c.uart.outbox = kept ++ [] ∧ uart.outbox = kept ++ [] ∧ c.uart.serial_out <+: uart.serial_out :=
    fun uart hout hserial => ⟨c.uart.outbox, by simp, by simp [hout], hserial ▸ List.prefix_rfl⟩
  cases e with
  | reset => exact ⟨c.uart.serial_out, rfl, rfl, List.prefix_rfl⟩
  | sbuf val => exact ⟨c.uart.serial_out, rfl, rfl, List.prefix_rfl⟩
  | t2 w => exact hsame _ (writeTimer2_outbox features w c).1 (writeTimer2_outbox features w c).2
  | tick cycles =>
    obtain ⟨hout, hserial⟩ := c.uart.tick_outbox k cycles serial_in
    exact ⟨c.uart.outbox, (List.append_nil _).symm, hout.trans (List.append_nil _).symm, hserial⟩
  | _ => exact hsame _ rfl rfl

end Channel

/-! ## Bytes on the line -/

namespace Link

variable {features : Side → Timer2Features} {k : Side → Nat} {l : Link}

/-- The first byte of the input is read, or none. -/
theorem taken_append_drop (input : List (BitVec 8)) (uart : Serial) (e : EndInput) :
    e.taken input.head? uart ++ input.drop (e.taken input.head? uart).length = input := by
  cases e with
  | tick cycles =>
    simp only [EndInput.taken, Serial.taken]
    split
    · cases input with
      | nil => rfl
      | cons b rest => rfl
    · rfl
  | _ => rfl

/-- All that went out has been read or is on the line. -/
def Delivers (l : Link) : Prop := ∀ s, l.got s ++ l.input s = (l.channel s.other).uart.serial_out

theorem Delivers.step (h : l.Delivers) (s : Side) (e : EndInput) : (l.step features k s e).Delivers := by
  intro t
  by_cases hts : t = s
  · subst hts
    have hread := taken_append_drop (l.input t) (l.channel t).uart e
    simp only [Link.step, Function.update_self, Function.update_of_ne t.other_ne, if_true]
    rw [List.append_assoc, hread]
    exact h t
  · obtain rfl : s = t.other := by cases s <;> cases t <;> simp_all [Side.other]
    obtain ⟨-, -, -, hserial⟩ := (l.channel t.other).exec_outbox (features t.other) (k t.other)
      (l.input t.other).head? e
    simp only [Link.step, Function.update_self, Function.update_of_ne hts, if_neg hts]
    rw [← List.append_assoc, h t]
    exact List.prefix_iff_eq_append.mp hserial

/-- What a side was given to send has gone out, is on its way, or is lost. -/
structure Sends (l : Link) (s : Side) (written : List (BitVec 8)) : Prop where
  inOrder : (l.channel s).uart.outbox.Sublist written
  all : ((l.channel s).uart.outbox ++ l.lost s).Perm written

theorem Sends.step {s : Side} {written : List (BitVec 8)} (h : l.Sends s written) (t : Side) (e : EndInput) :
    (l.step features k t e).Sends s (written ++ if t = s then e.written else []) := by
  by_cases hts : t = s
  · subst hts
    obtain ⟨kept, hbefore, hafter, -⟩ := (l.channel t).exec_outbox (features t) (k t) (l.input t).head? e
    have hchannel : ((l.step features k t e).channel t).uart.outbox = kept ++ e.written := by
      simpa only [Link.step, Function.update_self] using hafter
    have hlost : (l.step features k t e).lost t = l.lost t ++ e.lost (l.channel t).uart := by
      simp only [Link.step, Function.update_self]
    have hsub := h.inOrder
    have hall := h.all
    rw [hbefore] at hsub hall
    rw [if_pos rfl]
    constructor
    · rw [hchannel]
      exact ((List.sublist_append_left kept _).trans hsub).append (List.Sublist.refl _)
    · rw [hchannel, hlost]
      have hlast : (kept ++ e.written ++ (l.lost t ++ e.lost (l.channel t).uart)).Perm
          (kept ++ (l.lost t ++ e.lost (l.channel t).uart) ++ e.written) := by
        rw [List.append_assoc, List.append_assoc]
        exact List.perm_append_comm.append_left kept
      have hold : (kept ++ (l.lost t ++ e.lost (l.channel t).uart)).Perm written := by
        refine List.Perm.trans ?_ hall
        rw [List.append_assoc]
        exact List.perm_append_comm.append_left kept
      exact hlast.trans (hold.append_right _)
  · have hother : (l.step features k t e).channel s = l.channel s := by
      simp only [Link.step, Function.update_of_ne (Ne.symm hts)]
    have hlost : (l.step features k t e).lost s = l.lost s := by
      simp only [Link.step, Function.update_of_ne (Ne.symm hts)]
    rw [if_neg hts, List.append_nil]
    exact ⟨hother ▸ h.inOrder, hother ▸ hlost ▸ h.all⟩

theorem run_append (es : List (Side × EndInput)) (e : Side × EndInput) :
    run features k (es ++ [e]) = (run features k es).step features k e.1 e.2 := by
  rw [run, List.foldl_append]
  rfl

theorem written_append (es : List (Side × EndInput)) (e : Side × EndInput) (s : Side) :
    written (es ++ [e]) s = written es s ++ if e.1 = s then e.2.written else [] := by
  rw [written, List.filter_append, List.flatMap_append]
  by_cases h : e.1 = s
  · simp [written, h]
  · simp [written, h]

theorem run_delivers (es : List (Side × EndInput)) : (run features k es).Delivers := by
  induction es using List.reverseRecOn with
  | nil => exact fun _ => rfl
  | append_singleton es e ih =>
    rw [run_append]
    exact ih.step e.1 e.2

theorem run_sends (es : List (Side × EndInput)) (s : Side) : (run features k es).Sends s (written es s) := by
  induction es using List.reverseRecOn with
  | nil => exact ⟨List.Sublist.refl _, List.Perm.refl _⟩
  | append_singleton es e ih =>
    rw [run_append, written_append]
    exact ih.step e.1 e.2

/-- Whatever the two sides do and in whatever order: what one has read and what is on the line is what the other
has sent, in this order. With the byte on its way that is what it was given to send, but for the bytes that a
reset or the next byte came in the way of; without such a byte nothing is missing. -/
theorem link_delivers (features : Side → Timer2Features) (k : Side → Nat) (es : List (Side × EndInput)) (s : Side) :
    let l := run features k es
    let sender := (l.channel s.other).uart
    l.got s ++ l.input s = sender.serial_out ∧
      (sender.serial_out ++ sender.held).Sublist (written es s.other) ∧
      (sender.serial_out ++ sender.held ++ l.lost s.other).Perm (written es s.other) ∧
      (l.lost s.other = [] → l.got s ++ l.input s ++ sender.held = written es s.other) := by
  intro l sender
  have hdelivers : l.got s ++ l.input s = sender.serial_out := run_delivers es s
  have hsends : l.Sends s.other (written es s.other) := run_sends es s.other
  refine ⟨hdelivers, hsends.inOrder, hsends.all, fun hlost => ?_⟩
  have hall := hsends.all
  rw [hlost, List.append_nil] at hall
  rw [hdelivers]
  exact hsends.inOrder.eq_of_length hall.length_eq

end Link

/-! ## A byte comes in -/

namespace Serial

/-- What the receiver counts. It counts as the transmitter does. -/
def receiver (got : Nat) (s : Serial) : Sender := ⟨s.s_receiving, s.s_rec_bit, s.s_rec_tick, s.s_rec_t1, got⟩

variable (got : Nat)

theorem forceDivby_receiver (s : Serial) : s.forceDivby.receiver got = s.receiver got := by
  unfold forceDivby
  split <;> rfl

theorem forceDivby_config (s : Serial) :
    s.forceDivby.config = { s.config with divby := if s.t2_baud then 16 else s.divby } := by
  unfold forceDivby
  split <;> rfl

theorem sendIfSending_receiver (s : Serial) : s.sendIfSending.receiver got = s.receiver got := by
  unfold sendIfSending sendBits
  split
  · dsimp only
    split <;> rfl
  · rfl

theorem receiveBits_receiver (s : Serial) (hreceiving : s.s_receiving = true) (hpos : 0 < s.divby) :
    s.receiveBits.receiver got = (s.receiver got).send s.divby s.clocked := by
  have hreceiver : (s.receiver got).s_sending = true := hreceiving
  unfold receiveBits Sender.send
  rw [if_pos hreceiver]
  split_ifs with hclocked
  · simp only [drain_eq hpos, recSrc, hclocked, if_true]
    rfl
  · simp only [drain_eq hpos, recSrc, hclocked]
    rfl

/-- The clocks of a receiver that is at work. -/
theorem serial_bit_cnt_receiver (s : Serial) (hreceiving : s.s_receiving = true) (hpos : 0 < s.forceDivby.divby) :
    s.serial_bit_cnt.receiver got = (s.receiver got).send s.forceDivby.divby s.clocked := by
  have hconfig := s.forceDivby.sendIfSending_config
  have hkept : s.forceDivby.sendIfSending.receiver got = s.receiver got :=
    (s.forceDivby.sendIfSending_receiver got).trans (s.forceDivby_receiver got)
  have hstill : s.forceDivby.sendIfSending.s_receiving = true := (congrArg Sender.s_sending hkept).trans hreceiving
  have hdivby : s.forceDivby.sendIfSending.divby = s.forceDivby.divby := congrArg Config.divby hconfig
  have hmode : s.forceDivby.sendIfSending.mode = s.mode :=
    (congrArg Config.mode hconfig).trans (congrArg Config.mode s.forceDivby_config)
  have hclocked : s.forceDivby.sendIfSending.clocked = s.clocked := by rw [clocked, clocked, hmode]
  have hcnt : s.serial_bit_cnt = s.forceDivby.sendIfSending.receiveBits := if_pos hstill
  rw [hcnt, receiveBits_receiver got _ hstill (hdivby ▸ hpos), hkept, hdivby, hclocked]

theorem transmit_receiver (s : Serial) : s.transmit.receiver got = s.receiver got := by
  unfold transmit
  split <;> rfl

/-- What decides when a byte starts is the same. -/
structure SameStart (s t : Serial) : Prop where
  receiving : t.s_receiving = s.s_receiving
  bmREN : t.bmREN = s.bmREN
  bits : t.bits = s.bits

theorem SameStart.trans {s t u : Serial} (h : SameStart s t) (h' : SameStart t u) : SameStart s u :=
  ⟨h'.1.trans h.1, h'.2.trans h.2, h'.3.trans h.3⟩

theorem sameStart_transmit (s : Serial) : SameStart s s.serial_bit_cnt.transmit := by
  have hforce : ∀ s : Serial, SameStart s s.forceDivby := by
    intro s
    unfold forceDivby
    split <;> exact ⟨rfl, rfl, rfl⟩
  have hsend : ∀ s : Serial, SameStart s s.sendIfSending := by
    intro s
    unfold sendIfSending sendBits
    dsimp only
    split_ifs <;> exact ⟨rfl, rfl, rfl⟩
  have hreceive : ∀ s : Serial, SameStart s (if s.s_receiving then s.receiveBits else s) := by
    intro s
    unfold receiveBits
    dsimp only
    split_ifs <;> exact ⟨rfl, rfl, rfl⟩
  have htransmit : ∀ s : Serial, SameStart s s.transmit := by
    intro s
    unfold transmit
    split <;> exact ⟨rfl, rfl, rfl⟩
  exact (((hforce s).trans (hsend _)).trans (hreceive _)).trans (htransmit _)

/-- A call of `tick` while a byte comes in. -/
theorem tick_receiver (k cycles : Nat) (b : BitVec 8) (s : Serial) (hreceiving : s.s_receiving = true)
    (hpos : 0 < s.forceDivby.divby) :
    (s.tick k cycles (some b)).receiver (got + (s.taken (some b)).length) =
        (s.receiver got).tick s.forceDivby.divby s.bits s.clocked (cycles * k) ∧
      (s.taken (some b) = [] ∨ s.taken (some b) = [b] ∧ (s.tick k cycles (some b)).readSbuf = b ∧
        (s.tick k cycles (some b)).scon &&& bmRI ≠ 0) := by
  have hcnt : s.serial_bit_cnt.transmit.receiver got = (s.receiver got).send s.forceDivby.divby s.clocked :=
    (transmit_receiver got _).trans (s.serial_bit_cnt_receiver got hreceiving hpos)
  obtain ⟨hstill, -, hbits⟩ := s.sameStart_transmit
  rw [hreceiving] at hstill
  have hstarted : s.started (some b) = s.serial_bit_cnt.transmit := if_neg fun h => h.2.2 hstill
  have htick : s.tick k cycles (some b) =
      { receive (some b) s.serial_bit_cnt.transmit with
        s_tr_tick := (receive (some b) s.serial_bit_cnt.transmit).s_tr_tick + cycles * k
        s_rec_tick := (receive (some b) s.serial_bit_cnt.transmit).s_rec_tick + cycles * k } := by
    rw [← hstarted]
    rfl
  rw [htick, taken, hstarted, ← hbits, Sender.tick, ← hcnt]
  by_cases hfull : s.serial_bit_cnt.transmit.s_receiving ∧
      s.serial_bit_cnt.transmit.bits ≤ s.serial_bit_cnt.transmit.s_rec_bit
  · have hfinish : (s.serial_bit_cnt.transmit.receiver got).finish s.serial_bit_cnt.transmit.bits = _ := if_pos hfull
    have hreceive : receive (some b) s.serial_bit_cnt.transmit = _ := if_pos hfull
    rw [hfinish, hreceive, if_pos hfull]
    refine ⟨rfl, .inr ⟨rfl, rfl, ?_⟩⟩
    show (s.serial_bit_cnt.transmit.scon ||| bmRI) &&& bmRI ≠ 0
    generalize s.serial_bit_cnt.transmit.scon = scon
    revert scon
    decide
  · have hfinish : (s.serial_bit_cnt.transmit.receiver got).finish s.serial_bit_cnt.transmit.bits = _ := if_neg hfull
    have hreceive : receive (some b) s.serial_bit_cnt.transmit = _ := if_neg hfull
    rw [hfinish, hreceive, if_neg hfull]
    exact ⟨rfl, .inl rfl⟩

/-- A call of `tick` that finds the first byte. Its own cycles count already. -/
theorem tick_starts (k cycles : Nat) (b : BitVec 8) (s : Serial) (hidle : s.s_receiving = false)
    (hREN : s.bmREN = true) (hbits : 0 < s.bits) :
    (s.tick k cycles (some b)).receiver got = ⟨true, 0, cycles * k, 0, got⟩ ∧ s.taken (some b) = [] := by
  obtain ⟨hstill, hkept, hsame⟩ := s.sameStart_transmit
  have hstarted : s.started (some b) = { s.serial_bit_cnt.transmit with
      s_receiving := true, s_rec_bit := 0, s_rec_tick := 0, s_rec_t1 := 0 } := by
    refine if_pos ⟨hkept.trans hREN, rfl, ?_⟩
    rw [hstill, hidle]
    exact Bool.false_ne_true
  have hnot : ¬((s.started (some b)).s_receiving ∧ (s.started (some b)).bits ≤ (s.started (some b)).s_rec_bit) := by
    rw [hstarted]
    rintro ⟨-, hle⟩
    have hzero : s.serial_bit_cnt.transmit.bits ≤ 0 := hle
    omega
  have hreceive : receive (some b) (s.started (some b)) = s.started (some b) := if_neg hnot
  constructor
  · show ({ receive (some b) (s.started (some b)) with
      s_tr_tick := (receive (some b) (s.started (some b))).s_tr_tick + cycles * k
      s_rec_tick := (receive (some b) (s.started (some b))).s_rec_tick + cycles * k } : Serial).receiver got = _
    rw [hreceive, hstarted]
    simp [receiver]
  · rw [taken, if_neg hnot]

end Serial

/-- The registers are those of the setting, and the receiver is as far as the clock units have brought it. -/
structure Serial.Receives (st : Setting) (before got : Nat) (m : Meter) (s : Serial) : Prop where
  mode : s.mode = st.mode
  bits : s.bits = Serial.bitsOf st.mode
  divby : (if s.t2_baud then 16 else s.divby) = st.usedDiv
  counts : (s.receiver got).Counts st.usedDiv before st.clocked m

namespace Serial.Receives

variable {st : Setting} {before got : Nat} {m : Meter} {s : Serial}

theorem overflow (h : Receives st before got m s) {e : LineInput} (he : e = .timer1 ∨ e = .timer2) (need k : Nat) :
    Receives st before got (m.step need (st.counted k) e) s.overflow := by
  have hstep : m.step need (st.counted k) e = ⟨m.units + if st.clocked then 0 else 1, m.done⟩ := by
    rcases he with rfl | rfl <;> simp [Meter.step, Meter.reaches, Setting.counted]
  rw [hstep]
  exact ⟨h.mode, h.bits, h.divby, h.counts.overflow⟩

/-- The settings stay in a call of `tick`. -/
theorem settings_tick (hmode : s.mode = st.mode) (hbits : s.bits = bitsOf st.mode)
    (hdivby : (if s.t2_baud then 16 else s.divby) = st.usedDiv) (k cycles : Nat) (serial_in : Option (BitVec 8)) :
    (s.tick k cycles serial_in).mode = st.mode ∧ (s.tick k cycles serial_in).bits = bitsOf st.mode ∧
      (if (s.tick k cycles serial_in).t2_baud then 16 else (s.tick k cycles serial_in).divby) = st.usedDiv := by
  have hconfig := (s.tick_kept k cycles serial_in).1.trans s.forceDivby_config
  refine ⟨(congrArg Config.mode hconfig).trans hmode, (congrArg Config.bits hconfig).trans hbits, ?_⟩
  have ht2 : (s.tick k cycles serial_in).t2_baud = s.t2_baud := congrArg Config.t2_baud hconfig
  have hdiv : (s.tick k cycles serial_in).divby = if s.t2_baud then 16 else s.divby := congrArg Config.divby hconfig
  rw [ht2, hdiv, ← hdivby]
  split_ifs <;> rfl

theorem tick (h : Receives st before got m s) (hdone : m.done = false) (k cycles : Nat) (b : BitVec 8) :
    Receives st before (got + (s.taken (some b)).length)
      (m.step (bitsOf st.mode * st.usedDiv) (st.counted k) (.tick cycles none)) (s.tick k cycles (some b)) := by
  have hreceiving : s.s_receiving = true := by
    have hsending : s.s_receiving = !m.done := h.counts.sending
    rw [hsending, hdone]
    rfl
  have hdivby : s.forceDivby.divby = st.usedDiv := s.forceDivby_divby.trans h.divby
  have hclocked : s.clocked = st.clocked := by
    rw [Serial.clocked, h.mode]
    rfl
  obtain ⟨hmode, hbits, hdiv⟩ := settings_tick h.mode h.bits h.divby k cycles (some b)
  have hcounts := (s.tick_receiver got k cycles b hreceiving (hdivby ▸ st.usedDiv_pos)).1
  rw [hdivby, hclocked, h.bits] at hcounts
  refine ⟨hmode, hbits, hdiv, ?_⟩
  rw [hcounts]
  exact h.counts.tick st.usedDiv_pos

end Serial.Receives

namespace Link

variable {features : Side → Timer2Features} {k : Side → Nat} {l : Link} {s : Side}

/-- What happens to the line of a side. -/
def own (es : List (Side × EndInput)) (s : Side) : List LineInput :=
  (es.filter fun e => e.1 = s).filterMap fun e => e.2.line none

/-- What the registers of a side say. -/
def setting (es : List (Side × EndInput)) (s : Side) : Setting := (own es s).foldl Setting.step .start

theorem own_append (es es' : List (Side × EndInput)) (s : Side) : own (es ++ es') s = own es s ++ own es' s := by
  rw [own, List.filter_append, List.filterMap_append]
  rfl

theorem own_self (s : Side) (e : EndInput) : own [(s, e)] s = (e.line none).toList := by
  cases e <;> simp [own, EndInput.line]

theorem own_other {s t : Side} (h : t ≠ s) (e : EndInput) : own [(t, e)] s = [] := by simp [own, h]

/-- The settings are those of the registers. A reset leaves them alone. -/
theorem run_follows (es : List (Side × EndInput)) (s : Side) :
    ((run features k es).channel s).Follows (setting es s) := by
  induction es using List.reverseRecOn with
  | nil => exact Channel.start_follows
  | append_singleton es e ih =>
    obtain ⟨t, e⟩ := e
    rw [run_append, setting, own_append, List.foldl_append]
    by_cases hts : t = s
    · subst hts
      simp only [Link.step, Function.update_self, own_self]
      have hline : ∀ e : LineInput, (((run features k es).channel t).step (features t) (k t) e).Follows
          ((setting es t).step e) := fun e => ih.step (k t) e
      cases e with
      | reset => exact ⟨ih.mode, ih.SMOD, ih.bits, ih.divby, ih.t2, ih.baudrate, ih.other⟩
      | scon val => exact hline (.scon val)
      | pcon val => exact hline (.pcon val)
      | sbuf val => exact hline (.sbuf val)
      | t2 w => exact hline (.t2 w)
      | timer1 => exact hline .timer1
      | timer2 => exact hline .timer2
      | tick cycles => exact hline (.tick cycles _)
    · rw [own_other hts]
      simp only [Link.step, Function.update_of_ne (Ne.symm hts)]
      exact ih

/-- Neither the registers nor the line are touched. -/
def Passes : EndInput → Prop
  | .timer1 | .timer2 | .tick _ => True
  | _ => False

/-- A byte is coming in. -/
structure Receiving (l : Link) (s : Side) (st : Setting) (before : List (BitVec 8)) (b : BitVec 8) (m : Meter) :
    Prop where
  receives : (l.channel s).uart.Receives st before.length (l.got s).length m
  head : (l.input s).head? = some b
  got : l.got s = before

variable {st : Setting} {before : List (BitVec 8)} {b : BitVec 8} {m : Meter}

/-- What the other side does leaves the byte on the line. -/
theorem Receiving.step_other (h : l.Receiving s st before b m) {t : Side} (hts : t ≠ s) (e : EndInput) :
    (l.step features k t e).Receiving s st before b m := by
  have hchannel : (l.step features k t e).channel s = l.channel s := by
    simp only [Link.step, Function.update_of_ne (Ne.symm hts)]
  have hgot : (l.step features k t e).got s = l.got s := by
    simp only [Link.step, Function.update_of_ne (Ne.symm hts)]
  have hinput : ∃ sent, (l.step features k t e).input s = l.input s ++ sent := by
    simp only [Link.step, if_neg (Ne.symm hts)]
    exact ⟨_, rfl⟩
  obtain ⟨sent, hinput⟩ := hinput
  refine ⟨hchannel ▸ hgot ▸ h.receives, ?_, hgot.trans h.got⟩
  rw [hinput, List.head?_append, h.head]
  rfl

variable (features k) in
/-- A call of `tick` that does not start with enough leaves the byte on the line. One that does takes it. -/
theorem Receiving.step_tick (h : l.Receiving s st before b m) (hdone : m.done = false) (cycles : Nat) :
    (m.step (Serial.bitsOf st.mode * st.usedDiv) (st.counted (k s)) (.tick cycles none)).done = false ∧
        (l.step features k s (.tick cycles)).Receiving s st before b
          (m.step (Serial.bitsOf st.mode * st.usedDiv) (st.counted (k s)) (.tick cycles none)) ∨
      (m.step (Serial.bitsOf st.mode * st.usedDiv) (st.counted (k s)) (.tick cycles none)).done = true ∧
        (l.step features k s (.tick cycles)).got s = before ++ [b] ∧
        ((l.step features k s (.tick cycles)).channel s).uart.readSbuf = b ∧
        ((l.step features k s (.tick cycles)).channel s).uart.scon &&& bmRI ≠ 0 := by
  have hreceiving : (l.channel s).uart.s_receiving = true := by
    have hsending : (l.channel s).uart.s_receiving = !m.done := h.receives.counts.sending
    rw [hsending, hdone]
    rfl
  have hpos : 0 < (l.channel s).uart.forceDivby.divby := by
    rw [Serial.forceDivby_divby, h.receives.divby]
    exact st.usedDiv_pos
  have hreceives := h.receives.tick hdone (k s) cycles b
  have htaken := ((l.channel s).uart.tick_receiver (l.got s).length (k s) cycles b hreceiving hpos).2
  have hchannel : (l.step features k s (.tick cycles)).channel s =
      { l.channel s with uart := (l.channel s).uart.tick (k s) cycles (some b) } := by
    simp only [Link.step, Function.update_self, h.head]
    rfl
  have hgot : (l.step features k s (.tick cycles)).got s = before ++ (l.channel s).uart.taken (some b) := by
    simp only [Link.step, Function.update_self, h.head, h.got, EndInput.taken]
  have hinput : (l.step features k s (.tick cycles)).input s =
      (l.input s).drop ((l.channel s).uart.taken (some b)).length := by
    simp only [Link.step, if_true, h.head, EndInput.taken]
  have hlength : ((l.step features k s (.tick cycles)).got s).length =
      (l.got s).length + ((l.channel s).uart.taken (some b)).length := by
    rw [hgot, h.got, List.length_append]
  generalize m.step (Serial.bitsOf st.mode * st.usedDiv) (st.counted (k s)) (.tick cycles none) = m' at hreceives ⊢
  -- the meter is full when the byte has been read
  have hread : ((l.channel s).uart.taken (some b)).length = m'.done.toNat := by
    have hsent : (l.got s).length + _ = before.length + m'.done.toNat := hreceives.counts.sent
    rw [h.got] at hsent
    exact Nat.add_left_cancel hsent
  rcases htaken with hnone | ⟨hone, hsbuf, hRI⟩
  · left
    rw [hnone] at hgot hinput hread
    have hreceives' : ((l.step features k s (.tick cycles)).channel s).uart.Receives st before.length
        ((l.step features k s (.tick cycles)).got s).length m' := by
      rw [hchannel, hlength]
      exact hreceives
    refine ⟨?_, hreceives', ?_, ?_⟩
    · cases hm : m'.done with
      | false => rfl
      | true => simp [hm] at hread
    · rw [hinput]
      exact h.head
    · rw [hgot, List.append_nil]
  · right
    rw [hone] at hgot hread
    rw [hchannel]
    refine ⟨?_, hgot, hsbuf, hRI⟩
    cases hm : m'.done with
    | true => rfl
    | false => simp [hm] at hread

theorem Receiving.step_overflow (h : l.Receiving s st before b m) {e : EndInput} {e' : LineInput}
    (he : e = .timer1 ∧ e' = .timer1 ∨ e = .timer2 ∧ e' = .timer2) :
    (l.step features k s e).Receiving s st before b
      (m.step (Serial.bitsOf st.mode * st.usedDiv) (st.counted (k s)) e') := by
  have hchannel : (l.step features k s e).channel s = { l.channel s with uart := (l.channel s).uart.overflow } := by
    rcases he with ⟨rfl, -⟩ | ⟨rfl, -⟩ <;> simp only [Link.step, Function.update_self] <;> rfl
  have hgot : (l.step features k s e).got s = l.got s := by
    rcases he with ⟨rfl, -⟩ | ⟨rfl, -⟩ <;> simp [Link.step, EndInput.taken]
  have hinput : (l.step features k s e).input s = l.input s := by
    rcases he with ⟨rfl, -⟩ | ⟨rfl, -⟩ <;> simp [Link.step, EndInput.taken]
  refine ⟨?_, by rw [hinput]; exact h.head, hgot.trans h.got⟩
  rw [hchannel, hgot]
  exact h.receives.overflow (he.imp And.right And.right) _ (k s)

/-- The first call of `tick`. -/
theorem receiving_start (h : (l.channel s).Follows st) (hREN : (l.channel s).uart.bmREN = true)
    (hidle : (l.channel s).uart.s_receiving = false) (hb : (l.input s).head? = some b) (cycles : Nat) :
    (l.step features k s (.tick cycles)).Receiving s st (l.got s) b
      (Meter.step (Serial.bitsOf st.mode * st.usedDiv) (st.counted (k s)) ⟨0, false⟩ (.tick cycles none)) := by
  have hbits : 0 < Serial.bitsOf st.mode := by
    unfold Serial.bitsOf
    split <;> decide
  have hmeter : Meter.step (Serial.bitsOf st.mode * st.usedDiv) (st.counted (k s)) ⟨0, false⟩ (.tick cycles none) =
      ⟨if st.clocked then cycles * k s else 0, false⟩ := by
    have hneed : ¬Serial.bitsOf st.mode * st.usedDiv ≤ 0 := not_le.mpr (Nat.mul_pos hbits st.usedDiv_pos)
    simp [Meter.step, Meter.reaches, Setting.counted, hneed]
  obtain ⟨hreceiver, htaken⟩ := (l.channel s).uart.tick_starts (l.got s).length (k s) cycles b hidle hREN
    (h.bits ▸ hbits)
  have hchannel : (l.step features k s (.tick cycles)).channel s =
      { l.channel s with uart := (l.channel s).uart.tick (k s) cycles (some b) } := by
    simp only [Link.step, Function.update_self, hb]
    rfl
  have hgot : (l.step features k s (.tick cycles)).got s = l.got s := by
    simp only [Link.step, Function.update_self, hb, EndInput.taken, htaken, List.append_nil]
  have hinput : (l.step features k s (.tick cycles)).input s = l.input s := by
    simp only [Link.step, if_true, hb, EndInput.taken, htaken, List.length_nil, List.drop_zero]
  have hdivby : (if (l.channel s).uart.t2_baud then 16 else (l.channel s).uart.divby) = st.usedDiv := by
    rw [h.t2, h.divby, Setting.usedDiv]
    cases st.t2 <;> cases st.forced <;> rfl
  obtain ⟨hmode', hbits', hdivby'⟩ := Serial.Receives.settings_tick h.mode h.bits hdivby (k s) cycles (some b)
  rw [hmeter]
  refine ⟨?_, by rw [hinput]; exact hb, hgot⟩
  rw [hchannel, hgot]
  refine ⟨hmode', hbits', hdivby', ?_⟩
  rw [hreceiver]
  refine ⟨rfl, rfl, fun _ => ?_⟩
  cases st.clocked <;> simp [Serial.Sender.src]

/-- Once there is enough there stays enough. -/
theorem done_foldl (need : Nat) (unit : LineInput → Nat) (es : List LineInput) (hm : m.done = true) :
    (es.foldl (Meter.step need unit) m).done = true := by
  induction es generalizing m with
  | nil => exact hm
  | cons e es ih => exact ih (by simp [Meter.step, hm])

variable (features) in
/-- The byte stays on the line as long as no call of `tick` has started with enough. -/
theorem Receiving.run (h : l.Receiving s st before b m) (es : List (Side × EndInput))
    (hes : ∀ e ∈ es, e.1 = s → Passes e.2)
    (hdone : ((own es s).foldl (Meter.step (Serial.bitsOf st.mode * st.usedDiv) (st.counted (k s))) m).done = false) :
    (es.foldl (fun l e => l.step features k e.1 e.2) l).Receiving s st before b
      ((own es s).foldl (Meter.step (Serial.bitsOf st.mode * st.usedDiv) (st.counted (k s))) m) := by
  induction es generalizing l m with
  | nil => exact h
  | cons e es ih =>
    obtain ⟨t, e⟩ := e
    obtain ⟨he, hrest⟩ := List.forall_mem_cons.mp hes
    have hown : own ((t, e) :: es) s = own [(t, e)] s ++ own es s := own_append [(t, e)] es s
    rw [hown, List.foldl_append] at hdone ⊢
    rw [List.foldl_cons]
    by_cases hts : t = s
    · subst hts
      rw [own_self] at hdone ⊢
      cases e with
      | timer1 => exact ih (h.step_overflow (.inl ⟨rfl, rfl⟩)) hrest hdone
      | timer2 => exact ih (h.step_overflow (.inr ⟨rfl, rfl⟩)) hrest hdone
      | tick cycles =>
        have hbefore : m.done = false := by
          by_contra hm
          rw [done_foldl _ _ _ (done_foldl _ _ _ (Bool.eq_true_of_not_eq_false hm))] at hdone
          exact Bool.false_ne_true hdone.symm
        rcases h.step_tick features k hbefore cycles with ⟨-, hnext⟩ | ⟨hfull, -⟩
        · exact ih hnext hrest hdone
        · -- enough has been counted, against the assumption
          have hlast := done_foldl (Serial.bitsOf st.mode * st.usedDiv) (st.counted (k t)) (own es t) hfull
          exact absurd (hlast.symm.trans hdone) (by decide)
      | _ => exact (he rfl).elim
    · rw [own_other hts] at hdone ⊢
      exact ih (h.step_other hts e) hrest hdone

end Link

/-- A call of `tick` has started with the clock units that are counted for a byte. -/
def Setting.Reached (st : Setting) (k : Nat) (es : List LineInput) : Prop :=
  ∃ before cycles serial_in, before ++ [.tick cycles serial_in] <+: es ∧
    Serial.bitsOf st.mode * st.usedDiv ≤ (before.map (st.counted k)).sum

namespace Link

/-- Whatever has happened before: a receiver that is idle and enabled starts on the first byte of its input in the
next call of `tick`. While its registers are left alone it takes the byte in the first call that starts with the
clock units that are counted for it, whatever the other side does. -/
theorem byte_received (features : Side → Timer2Features) (k : Side → Nat) (history : List (Side × EndInput))
    (s : Side) (b : BitVec 8) (cycles : Nat) (es : List (Side × EndInput))
    (hREN : ((run features k history).channel s).uart.bmREN = true)
    (hidle : ((run features k history).channel s).uart.s_receiving = false)
    (hb : ((run features k history).input s).head? = some b)
    (hes : ∀ e ∈ es, e.1 = s → Passes e.2)
    (hearly : ¬(setting history s).Reached (k s) (own ((s, .tick cycles) :: es) s)) :
    let during := history ++ (s, .tick cycles) :: es
    (run features k during).got s = (run features k history).got s ∧
      ∀ last, (setting history s).Reached (k s) (own ((s, .tick cycles) :: es ++ [(s, .tick last)]) s) →
        let l := run features k (during ++ [(s, .tick last)])
        l.got s = (run features k history).got s ++ [b] ∧ (l.channel s).uart.readSbuf = b ∧
          (l.channel s).uart.scon &&& bmRI ≠ 0 := by
  intro during
  let st := setting history s
  have hstart : ((run features k history).step features k s (.tick cycles)).Receiving s st
      ((run features k history).got s) b _ := receiving_start (run_follows history s) hREN hidle hb cycles
  have hown : own ((s, .tick cycles) :: es) s = .tick cycles none :: own es s := by
    have happend := own_append [(s, .tick cycles)] es s
    rw [own_self] at happend
    exact happend
  have hmeter : (own es s).foldl (Meter.step (Serial.bitsOf st.mode * st.usedDiv) (st.counted (k s)))
      (Meter.step (Serial.bitsOf st.mode * st.usedDiv) (st.counted (k s)) ⟨0, false⟩ (.tick cycles none)) =
        Meter.run (Serial.bitsOf st.mode * st.usedDiv) (st.counted (k s)) (own ((s, .tick cycles) :: es) s) := by
    rw [hown]
    rfl
  have hdone : (Meter.run (Serial.bitsOf st.mode * st.usedDiv) (st.counted (k s))
      (own ((s, .tick cycles) :: es) s)).done = false :=
    Bool.eq_false_iff.mpr fun h => hearly ((Meter.run_done_iff _ _ _).mp h)
  have hreceiving := hstart.run features es hes (hmeter ▸ hdone)
  have hduring : run features k during = es.foldl (fun l e => l.step features k e.1 e.2)
      ((run features k history).step features k s (.tick cycles)) := List.foldl_append
  rw [hmeter, ← hduring] at hreceiving
  refine ⟨hreceiving.got, fun last hlast => ?_⟩
  rcases hreceiving.step_tick features k hdone last with ⟨hnot, -⟩ | ⟨-, hgot, hsbuf, hRI⟩
  · -- the last call of `tick` has started with enough
    have hfull : (Meter.step (Serial.bitsOf st.mode * st.usedDiv) (st.counted (k s))
        (Meter.run (Serial.bitsOf st.mode * st.usedDiv) (st.counted (k s)) (own ((s, .tick cycles) :: es) s))
        (.tick last none)).done = true := by
      rw [own_append, own_self] at hlast
      have hreached := (Meter.run_done_iff _ _ _).mpr hlast
      rw [Meter.run, List.foldl_append] at hreached
      exact hreached
    exact absurd (hfull.symm.trans hnot) (by decide)
  · rw [run_append]
    exact ⟨hgot, hsbuf, hRI⟩

/-- The far side sends 0x41 in mode 0, then the near side is enabled. -/
def oneByte : List (Side × EndInput) :=
  (.far, .sbuf 0x41) :: List.replicate 9 (.far, .tick 1) ++ [(.near, .scon bmREN)]

/-- The byte is there after nine calls of `tick`. -/
theorem byte_received_oneByte :
    let l := run (fun _ => ⟨false, false⟩) (fun _ => 12) (oneByte ++ List.replicate 9 (.near, .tick 1))
    l.got .near = [0x41] ∧ (l.channel .near).uart.readSbuf = 0x41 ∧ (l.channel .near).uart.scon &&& bmRI ≠ 0 := by
  have hsetting : setting oneByte .near = ⟨0, false, false, false⟩ := by decide
  have hmeter : ∀ n, (setting oneByte .near).Reached 12 (own ((.near, .tick 1) :: List.replicate n (.near, .tick 1))
      .near) ↔ (Meter.run 96 (Setting.counted 12 ⟨0, false, false, false⟩)
        (own ((.near, .tick 1) :: List.replicate n (.near, .tick 1)) .near)).done = true := by
    intro n
    rw [hsetting]
    exact (Meter.run_done_iff _ _ _).symm
  obtain ⟨-, hlast⟩ := byte_received (fun _ => ⟨false, false⟩) (fun _ => 12) oneByte .near 0x41 1
    (List.replicate 7 (.near, .tick 1)) (by decide +kernel) (by decide +kernel) (by decide +kernel)
    (fun e he _ => by rw [List.eq_of_mem_replicate he]; trivial)
    (fun h => absurd ((hmeter 7).mp h) (by decide))
  have hgot : (run (fun _ => ⟨false, false⟩) (fun _ => 12) oneByte).got .near = [] := by decide +kernel
  have htaken := hlast 1 ((hmeter 8).mpr (by decide))
  rw [hgot] at htaken
  exact htaken

end Link

end Ucsim.S51
