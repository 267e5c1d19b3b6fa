import Ucsim.S51.RadioFsm

/-!
# Transmissions

The calls of `doTX` from the start frame delimiter until FSMSTAT1.SFD goes low again. The position in `TXFIFO` is moved
twice in a call, and the end is where it equals the length.
-/

namespace Ucsim.S51

open Logic

namespace Radio

/-- FSMSTAT1.SFD is low. -/
def SFDLow (st : RadioSt) : Prop := reg Reg.FSMSTAT1 st &&& SFDbm = 0

instance (st : RadioSt) : Decidable (SFDLow st) := inferInstanceAs (Decidable (_ = _))

/-- Calls of `doTX` put the values on `radio_out`, and with the last of them SFD goes low. -/
inductive Transmits : RadioSt → List (BitVec 32) → Prop
  | last {st st'} (h : doTX st = .ok st') (hlow : SFDLow st') : Transmits st [st'.hw.radio_out]
  | next {st st' out} (h : doTX st = .ok st') (hhigh : ¬ SFDLow st') (hrest : Transmits st' out) :
      Transmits st (st'.hw.radio_out :: out)

/-- The delimiter, and the bytes of the FIFO with their length in front. -/
def wholeFrame (st : RadioSt) : List (BitVec 32) :=
  SFD :: ((List.finRange 128).take (st.hw.TXframe.FrameLength.toNat + 1)).map fun i => (st.hw.TXFIFO i).setWidth 32

/-! ## One call -/

variable {st st' : RadioSt}

theorem bits_kept (m : TMem) : (m ||| (SFDbm &&& 0xff)) &&& SFDbm = SFDbm := by
  have hbit : SFDbm &&& 0xff = SFDbm := rfl
  rw [hbit]
  ext i hi
  simp only [BitVec.getElem_and, BitVec.getElem_or]
  cases m[i] <;> cases SFDbm[i] <;> rfl

theorem bits_cleared (m : TMem) : m &&& ~~~(SFDbm &&& 0xff) &&& SFDbm = 0 := by
  have hbit : ~~~(SFDbm &&& 0xff) &&& SFDbm = 0 := rfl
  rw [BitVec.and_assoc, hbit]
  exact BitVec.and_zero

theorem high_setBit1 (st : RadioSt) : ¬ SFDLow (setBit1 Reg.FSMSTAT1 SFDbm st) := by
  have hreg : reg Reg.FSMSTAT1 (setBit1 Reg.FSMSTAT1 SFDbm st) = reg Reg.FSMSTAT1 st ||| (SFDbm &&& 0xff) := by
    unfold reg setBit1
    simp only [Function.update_self, reg]
  unfold SFDLow
  rw [hreg, bits_kept]
  decide

theorem low_setBit0 (st : RadioSt) : SFDLow (setBit0 Reg.FSMSTAT1 SFDbm st) := by
  have hreg : reg Reg.FSMSTAT1 (setBit0 Reg.FSMSTAT1 SFDbm st) = reg Reg.FSMSTAT1 st &&& ~~~(SFDbm &&& 0xff) := by
    unfold reg setBit0
    simp only [Function.update_self, reg]
  unfold SFDLow
  rw [hreg]
  exact bits_cleared _

/-- The call with SFD low puts out the delimiter, and SFD goes high. -/
theorem doTX_low (hlow : SFDLow st) : ∃ st', doTX st = .ok st' ∧ ¬ SFDLow st' ∧ st'.hw.radio_out = SFD ∧
    st'.hw.TX_PC = 0 ∧ st'.hw.TXframe = st.hw.TXframe ∧ st'.hw.TXFIFO = st.hw.TXFIFO := by
  exact ⟨_, if_pos hlow, high_setBit1 st, rfl, rfl, rfl, rfl⟩

/-- The data that a transmission goes on with. -/
structure Sending (L : Nat) (TXFIFO : Table 128 (BitVec 8)) (pos : Nat) (st : RadioSt) : Prop where
  high : ¬ SFDLow st
  length : st.hw.TXframe.FrameLength.toInt = L
  fifo : st.hw.TXFIFO = TXFIFO
  TX_PC : st.hw.TX_PC = pos

variable {L pos : Nat} {TXFIFO : Table 128 (BitVec 8)}

theorem txfifocnt_low (v : TMem) (st : RadioSt) : SFDLow (setReg Reg.TXFIFOCNT v st) ↔ SFDLow st := by
  have hne : Site.cell .xram Reg.FSMSTAT1 ≠ .cell .xram Reg.TXFIFOCNT := by decide
  have hreg : reg Reg.FSMSTAT1 (setReg Reg.TXFIFOCNT v st) = reg Reg.FSMSTAT1 st :=
    Function.update_of_ne hne (v &&& 0xff) st.mem
  unfold SFDLow
  rw [hreg]

theorem endOfTX_low_iff (st : RadioSt) :
    SFDLow (endOfTX st) ↔ SFDLow st ∨ st.hw.TX_PC = st.hw.TXframe.FrameLength.toInt := by
  unfold endOfTX
  by_cases hend : st.hw.TX_PC = st.hw.TXframe.FrameLength.toInt
  · rw [if_pos hend]
    exact iff_of_true (low_setBit0 _) (.inr hend)
  · rw [if_neg hend]
    exact (or_iff_left hend).symm

theorem sendByte_low_iff (b : BitVec 8) (st : RadioSt) :
    SFDLow (sendByte b st) ↔ SFDLow st ∨ st.hw.TX_PC = st.hw.TXframe.FrameLength.toInt := by
  let out := update (fun r => { r with radio_out := b.setWidth 32 }) st
  let left := BitVec.ofInt 16 ((endOfTX out).hw.TXframe.FrameLength.toInt - ((endOfTX out).hw.TX_PC + 1))
  have hcount : SFDLow (sendByte b st) ↔ SFDLow (endOfTX out) := txfifocnt_low left (endOfTX out)
  exact hcount.trans (endOfTX_low_iff out)

/-- A call with SFD high puts out a byte and moves the position by two. With it the transmission ends if the position was
the length. -/
theorem Sending.doTX (h : Sending L TXFIFO pos st) (hpos : pos < 128) : ∃ st', doTX st = .ok st' ∧
    st'.hw.radio_out = (TXFIFO ⟨pos, hpos⟩).setWidth 32 ∧
    (pos = L → SFDLow st') ∧ (pos ≠ L → Sending L TXFIFO (pos + 2) st') := by
  have hget : st.hw.TXFIFO.get st.hw.TX_PC = .ok (TXFIFO ⟨pos, hpos⟩) := by
    rw [h.fifo, h.TX_PC, Table.get_of_inRange ⟨Int.natCast_nonneg pos, Int.ofNat_lt.mpr hpos⟩]
    rfl
  have hrun : Radio.doTX st = .ok (sendByte (TXFIFO ⟨pos, hpos⟩) st) := by
    refine (if_neg h.high).trans ?_
    rw [hget]
    rfl
  have hw := sendByte_hw (TXFIFO ⟨pos, hpos⟩) st
  have hlow : SFDLow (sendByte (TXFIFO ⟨pos, hpos⟩) st) ↔ pos = L := by
    rw [sendByte_low_iff, or_iff_right h.high, h.TX_PC, h.length, Int.natCast_inj]
  refine ⟨_, hrun, by rw [hw], hlow.mpr, fun hgoes => ?_⟩
  refine ⟨fun hl => hgoes (hlow.mp hl), by rw [hw]; exact h.length, by rw [hw]; exact h.fifo, ?_⟩
  rw [hw]
  show st.hw.TX_PC + 1 + 1 = _
  rw [h.TX_PC]
  rfl

/-- A call that does not fault is such a one. -/
theorem Sending.runs (h : Sending L TXFIFO pos st) (hrun : Radio.doTX st = .ok st') :
    pos < 128 ∧ (pos = L → SFDLow st') ∧ (pos ≠ L → Sending L TXFIFO (pos + 2) st') := by
  have hpos : pos < 128 := by
    by_contra hge
    have hfault : st.hw.TXFIFO.get st.hw.TX_PC = .error (.outOfRange st.hw.TX_PC) := by
      refine dif_neg fun hin => hge ?_
      have hlt := hin.2
      rw [h.TX_PC] at hlt
      omega
    have herror : Radio.doTX st = .error (.outOfRange st.hw.TX_PC) := by
      refine (if_neg h.high).trans ?_
      rw [hfault]
      rfl
    rw [hrun] at herror
    cases herror
  obtain ⟨u, hu, -, hlow, hgoes⟩ := h.doTX hpos
  rw [hrun] at hu
  cases hu
  exact ⟨hpos, hlow, hgoes⟩

/-! ## Whole transmissions -/

/-- A transmission is over at the length, when every second byte has been sent. -/
theorem Sending.count (h : Sending L TXFIFO pos st) {out : List (BitVec 32)} (hout : Transmits st out) :
    pos + 2 * out.length = L + 2 := by
  induction hout generalizing pos with
  | last hrun hlow =>
    obtain ⟨-, -, hgoes⟩ := h.runs hrun
    have hend : pos = L := by_contra fun hne => (hgoes hne).high hlow
    rw [hend, List.length_singleton]
  | next hrun hhigh _ ih =>
    obtain ⟨-, hlow, hgoes⟩ := h.runs hrun
    have hnext := ih (hgoes fun hend => hhigh (hlow hend))
    rw [List.length_cons]
    omega

/-- A transmission whose length is at an even distance ends. -/
theorem Sending.ends {n : Nat} (h : Sending (pos + 2 * n) TXFIFO pos st) (hL : pos + 2 * n < 128) :
    ∃ out, Transmits st out := by
  induction n generalizing pos st with
  | zero =>
    obtain ⟨st', hrun, -, hlow, -⟩ := h.doTX (by omega)
    exact ⟨_, .last hrun (hlow rfl)⟩
  | succ n ih =>
    obtain ⟨st', hrun, -, -, hgoes⟩ := h.doTX (by omega)
    have hnext := hgoes (by omega)
    have hL' : pos + 2 * (n + 1) = pos + 2 + 2 * n := by omega
    rw [hL'] at hnext hL
    obtain ⟨out, hout⟩ := ih hnext hL
    exact ⟨_, .next hrun hnext.high hout⟩

/-- The data behind the delimiter. -/
theorem sending_start {u : RadioSt} (hL : st.hw.TXframe.FrameLength.toNat ≤ 127) (hhigh : ¬ SFDLow u)
    (hPC : u.hw.TX_PC = 0) (hframe : u.hw.TXframe = st.hw.TXframe) (hfifo : u.hw.TXFIFO = st.hw.TXFIFO) :
    Sending st.hw.TXframe.FrameLength.toNat st.hw.TXFIFO 0 u := by
  refine ⟨hhigh, ?_, hfifo, hPC⟩
  rw [hframe]
  exact BitVec.toInt_eq_toNat_of_lt (by omega)

/-- What starts with SFD low is the delimiter and what follows it. -/
theorem transmits_iff (hL : st.hw.TXframe.FrameLength.toNat ≤ 127) (hlow : SFDLow st) (out : List (BitVec 32)) :
    Transmits st out ↔ ∃ u rest, Sending st.hw.TXframe.FrameLength.toNat st.hw.TXFIFO 0 u ∧ out = SFD :: rest ∧
      doTX st = .ok u ∧ Transmits u rest := by
  obtain ⟨u, hu, hhigh, hout, hPC, hframe, hfifo⟩ := doTX_low hlow
  have hstart := sending_start hL hhigh hPC hframe hfifo
  constructor
  · intro h
    cases h with
    | last hrun hend =>
      rw [hrun] at hu
      cases hu
      exact absurd hend hhigh
    | next hrun _ hrest =>
      rw [hrun] at hu
      cases hu
      exact ⟨u, _, hstart, by rw [hout], hrun, hrest⟩
  · rintro ⟨v, rest, -, rfl, hv, hrest⟩
    rw [hu] at hv
    cases hv
    rw [← hout]
    exact .next hu hhigh hrest

theorem wholeFrame_length (hL : st.hw.TXframe.FrameLength.toNat ≤ 127) :
    (wholeFrame st).length = st.hw.TXframe.FrameLength.toNat + 2 := by
  rw [wholeFrame, List.length_cons, List.length_map, List.length_take, List.length_finRange]
  omega

theorem length_of_whole (hL : st.hw.TXframe.FrameLength.toNat ≤ 127) (hlow : SFDLow st)
    (h : Transmits st (wholeFrame st)) : st.hw.TXframe.FrameLength.toNat = 0 := by
  obtain ⟨u, rest, hu, hout, -, hrest⟩ := (transmits_iff hL hlow _).mp h
  have hcount := hu.count hrest
  have hlength := congrArg List.length hout
  rw [wholeFrame_length hL, List.length_cons] at hlength
  omega

/-- A transmission puts out the delimiter and all bytes of the frame if and only if the length is 0, and it ends if and
only if the length is even. -/
theorem transmission_iff (hL : st.hw.TXframe.FrameLength.toNat ≤ 127) (hlow : SFDLow st) :
    (Transmits st (wholeFrame st) ↔ st.hw.TXframe.FrameLength.toNat = 0) ∧
      ((∃ out, Transmits st out) ↔ 2 ∣ st.hw.TXframe.FrameLength.toNat) := by
  obtain ⟨u, hu, hhigh, hSFD, hPC, hframe, hfifo⟩ := doTX_low hlow
  have hstart := sending_start hL hhigh hPC hframe hfifo
  refine ⟨⟨length_of_whole hL hlow, fun hzero => ?_⟩, ⟨?_, ?_⟩⟩
  · obtain ⟨v, hv, hbyte, hend, -⟩ := hstart.doTX (by omega)
    have hwhole : wholeFrame st = [u.hw.radio_out, v.hw.radio_out] := by
      rw [hSFD, hbyte, wholeFrame, hzero]
      rfl
    rw [hwhole]
    exact .next hu hhigh (.last hv (hend hzero.symm))
  · rintro ⟨out, hout⟩
    obtain ⟨v, rest, hv, -, -, hrest⟩ := (transmits_iff hL hlow _).mp hout
    have hcount := hv.count hrest
    omega
  · rintro ⟨n, hn⟩
    rw [hn] at hstart hL
    have hdistance : Sending (0 + 2 * n) st.hw.TXFIFO 0 u := by rwa [Nat.zero_add]
    obtain ⟨out, hout⟩ := hdistance.ends (by omega)
    exact ⟨_, .next hu hhigh hout⟩

/-- A radio that has a frame of this length to send. -/
def frameOf (FrameLength : BitVec 8) : RadioSt where
  mem _ := 0
  hw := init default { (default : Frame) with FrameLength := FrameLength } false false fun _ => 0

/-- An empty frame is sent, and one of three bytes does not end. -/
theorem transmission_iff_short : Transmits (frameOf 0) (wholeFrame (frameOf 0)) ∧
    ¬ ∃ out, Transmits (frameOf 3) out :=
  ⟨(transmission_iff (show (frameOf 0).hw.TXframe.FrameLength.toNat ≤ 127 by decide) (by decide)).1.mpr rfl,
    fun h => absurd ((transmission_iff (show (frameOf 3).hw.TXframe.FrameLength.toNat ≤ 127 by decide)
      (by decide)).2.mp h) (by decide)⟩

/-- Of a frame of two bytes one is left out. -/
theorem byte_skipped : ¬ ∀ st : RadioSt, st.hw.TXframe.FrameLength.toNat ≤ 127 → SFDLow st →
    Transmits st (wholeFrame st) := by
  intro h
  have hzero := length_of_whole (by decide) (by decide) (h (frameOf 2) (by decide) (by decide))
  exact absurd hzero (by decide)

end Radio

end Ucsim.S51
