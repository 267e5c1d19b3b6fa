import Ucsim.S51.RadioStates

/-!
# The cells of the radio

The radio works on the cells that it registers, and on bytes of `xram` that it addresses itself. Any other
memory may be replaced before or after a step.
-/

namespace Ucsim.S51

open Logic

namespace Radio

/-! ## The rest of the memory -/

/-- The bytes that the radio reads and writes by their addresses: the `RXFIFO`, and the registers of the
source addresses with pending data. -/
def ByAddress (a : Int) : Prop := 0x6000 ≤ a ∧ a < 0x6080 ∨ 0x6164 ≤ a ∧ a ≤ 0x6169

/-- The bytes of `xram` that the radio works on. -/
def Touched (a : Int) : Prop :=
  a = Reg.RFIRQF0 ∨ a = Reg.S1CON ∨ a = Reg.RFIRQF1 ∨ 0x6000 ≤ a ∧ a < 0x6080 ∨ 0x6160 ≤ a ∧ a ≤ 0x6169 ∨
    0x6180 ≤ a ∧ a < 0x61A0 ∨ 0x61A1 ≤ a ∧ a < 0x61AD

instance : DecidablePred Touched := fun _ =>
  inferInstanceAs (Decidable (_ ∨ _ ∨ _ ∨ _ ∧ _ ∨ _ ∧ _ ∨ _ ∧ _ ∨ _ ∧ _))

/-- They are registered, but for those that are addressed. -/
theorem registered_of_touched {a : Int} (h : Touched a) :
    Site.cell .xram a ∈ registered ∨ ByAddress a := by
  have hrange (base : Int) (n : Nat) (hlo : base ≤ a) (hhi : a < base + n) :
      Site.cell .xram a ∈ (List.range n).map fun i : Nat => Site.cell .xram (base + i) := by
    refine List.mem_map.mpr ⟨(a - base).toNat, List.mem_range.mpr (by omega), ?_⟩
    rw [Int.toNat_of_nonneg (by omega), add_sub_cancel]
  unfold registered
  simp only [List.mem_append]
  obtain rfl | rfl | rfl | hfifo | hsrc | hfilt | hptr := h
  · left
    decide
  · left
    decide
  · left
    decide
  · exact .inr (.inl hfifo)
  · by_cases hmask : a < 0x6164
    · exact .inl (.inl (.inr (hrange Reg.SRCMASK0 4 hsrc.1 hmask)))
    · exact .inr (.inr ⟨by omega, hsrc.2⟩)
  · exact .inl (.inl (.inl (.inl (.inl (.inr (hrange Reg.FRMFILT0 0x20 hfilt.1 hfilt.2))))))
  · exact .inl (.inl (.inl (.inl (.inr (hrange Reg.TXFIRST_PTR 0x0C hptr.1 hptr.2)))))

/-- The cells that the radio registers, and those that it addresses. -/
def TouchedSite (s : Site) : Prop := s ∈ registered ∨ ∃ a, s = .cell .xram a ∧ ByAddress a

theorem touchedSite_cell {a : Int} (h : Touched a) : TouchedSite (.cell .xram a) := by
  obtain hreg | haddr := registered_of_touched h
  · exact .inl hreg
  · exact .inr ⟨a, rfl, haddr⟩

open Classical in
/-- The rest of the memory is replaced. -/
noncomputable def overlay (m : Site → TMem) (st : RadioSt) : RadioSt :=
  { st with mem := fun s => if TouchedSite s then st.mem s else m s }

-- The proof is no `rfl`, so that the instances of conditions are rewritten, too.
@[simp] theorem over_hw (m : Site → TMem) (st : RadioSt) : (overlay m st).hw = st.hw := by rw [overlay]

theorem over_self (st : RadioSt) : overlay st.mem st = st := by
  have hmem : (overlay st.mem st).mem = st.mem := by
    funext s
    dsimp only [overlay]
    split <;> rfl
  exact congrArg (fun mem => { st with mem := mem }) hmem

theorem over_mem_of_not {m : Site → TMem} {st : RadioSt} {s : Site} (h : ¬ TouchedSite s) :
    (overlay m st).mem s = m s := if_neg h

variable (m : Site → TMem) (st : RadioSt)

theorem reg_over {a : Int} (h : Touched a) : reg a (overlay m st) = reg a st :=
  if_pos (touchedSite_cell h)

/-- A touched cell is stored. -/
theorem over_update {a : Int} (h : Touched a) (v : TMem) :
    { overlay m st with mem := Function.update (overlay m st).mem (.cell .xram a) v }
      = overlay m { st with mem := Function.update st.mem (.cell .xram a) v } := by
  have hmem : Function.update (overlay m st).mem (.cell .xram a) v
      = (overlay m { st with mem := Function.update st.mem (.cell .xram a) v }).mem := by
    funext s
    by_cases hs : s = .cell .xram a
    · rw [hs, Function.update_self]
      have hself : Function.update st.mem (.cell .xram a) v (.cell .xram a) = v := Function.update_self _ _ _
      exact ((if_pos (touchedSite_cell h)).trans hself).symm
    · have hrest : Function.update st.mem (.cell .xram a) v s = st.mem s := Function.update_of_ne hs _ _
      rw [Function.update_of_ne hs]
      dsimp only [overlay]
      rw [hrest]
  rw [hmem]
  rfl

theorem setReg_over {a : Int} (h : Touched a) (v : TMem) : setReg a v (overlay m st) = overlay m (setReg a v st) :=
  over_update m st h _

theorem setBit1_over {a : Int} (h : Touched a) (v : TMem) :
    setBit1 a v (overlay m st) = overlay m (setBit1 a v st) := by
  unfold setBit1
  rw [reg_over m st h]
  exact over_update m st h _

theorem setBit0_over {a : Int} (h : Touched a) (v : TMem) :
    setBit0 a v (overlay m st) = overlay m (setBit0 a v st) := by
  unfold setBit0
  rw [reg_over m st h]
  exact over_update m st h _

theorem update_over (f : Radio → Radio) : update f (overlay m st) = overlay m (update f st) := rfl

theorem updateFrame_over (f : Frame → Frame) : updateFrame f (overlay m st) = overlay m (updateFrame f st) := rfl

theorem request_over {mask flag : Int} (hmask : Touched mask) (hflag : Touched flag) (bits : TMem) :
    request mask flag bits (overlay m st) = overlay m (request mask flag bits st) := by
  have hs1con : Touched Reg.S1CON := by decide
  unfold request
  rw [reg_over m st hmask, setBit1_over m st hflag, setBit1_over m _ hs1con, apply_ite (overlay m)]

theorem request0_over (bits : TMem) : request0 bits (overlay m st) = overlay m (request0 bits st) :=
  request_over m st (by decide) (by decide) bits

theorem request1_over (bits : TMem) : request1 bits (overlay m st) = overlay m (request1 bits st) :=
  request_over m st (by decide) (by decide) bits

/-! ## Steps that leave the rest alone -/

/-- A step that may fail, before or after which the rest of the memory may be replaced. -/
def Local (f : RadioSt → Except Fault RadioSt) : Prop := ∀ m st, f (overlay m st) = (f st).map (overlay m)

theorem local_ok {f : RadioSt → RadioSt} (h : ∀ m st, f (overlay m st) = overlay m (f st)) :
    Local fun st => .ok (f st) := fun m st => congrArg Except.ok (h m st)

theorem Local.bind {f g : RadioSt → Except Fault RadioSt} (hf : Local f) (hg : Local g) :
    Local fun st => f st >>= g := by
  intro m st
  dsimp only
  rw [hf m st]
  cases f st with
  | error e => rfl
  | ok st => exact hg m st

theorem Local.ite {f g : RadioSt → Except Fault RadioSt} {c : RadioSt → Prop} [DecidablePred c]
    (hc : ∀ m st, c (overlay m st) ↔ c st) (hf : Local f) (hg : Local g) :
    Local fun st => if c st then f st else g st := by
  intro m st
  dsimp only
  by_cases h : c st
  · rw [if_pos ((hc m st).mpr h), if_pos h]
    exact hf m st
  · rw [if_neg fun h' => h ((hc m st).mp h'), if_neg h]
    exact hg m st

/-! ## Reception -/

theorem atThreshold_over : atThreshold (overlay m st) = atThreshold st := by
  unfold atThreshold
  rw [reg_over m st (by decide), over_hw]

/-- The same with a result beside the state. -/
noncomputable def overPair (p : Bool × RadioSt) : Bool × RadioSt := (p.1, overlay m p.2)

theorem filterFrame_over : filterFrame (overlay m st) = overPair m (filterFrame st) := by
  unfold filterFrame
  rw [reg_over m st (by decide), reg_over m st (by decide)]
  rfl

theorem found_over {pendEn : Int} {n : Nat} (hpend : Touched (pendEn + n)) (hn : n < 3)
    (pendMask mask index : TMem) :
    found pendEn n pendMask mask index (overlay m st) = overlay m (found pendEn n pendMask mask index st) := by
  have hmask : Touched (Reg.SRCMASK + n) := by
    unfold Touched Reg.SRCMASK
    omega
  have hindex : Touched Reg.SRCRESINDEX := by decide
  have hauto (b : Bool) : setAutopendEnable b (overlay m st) = overlay m (setAutopendEnable b st) := rfl
  unfold found
  dsimp only
  rw [reg_over m st hpend, hauto, setReg_over m _ hmask, setReg_over m _ hindex]

theorem matchExt_over (p : Bool × RadioSt) (i : Fin 12) :
    matchExt (overPair m p) i = overPair m (matchExt p i) := by
  have hn : i.val / 4 < 3 := by omega
  have hreg : Touched (Reg.SRCEXTEN0 + (i.val / 4 : Nat)) := by
    unfold Touched Reg.SRCEXTEN0
    omega
  have hpend : Touched (Reg.SRCEXTPENDEN0 + (i.val / 4 : Nat)) := by
    unfold Touched Reg.SRCEXTPENDEN0
    omega
  unfold matchExt
  dsimp only [overPair, over_hw]
  rw [reg_over m p.2 hreg, found_over m p.2 hpend hn, ← overPair, ← overPair, apply_ite (overPair m),
    apply_ite (overPair m)]
  rfl

theorem matchShort_over (p : Bool × RadioSt) (i : Fin 24) :
    matchShort (overPair m p) i = overPair m (matchShort p i) := by
  have hn : i.val / 8 < 3 := by omega
  have hreg : Touched (Reg.SRCSHORTEN0 + (i.val / 8 : Nat)) := by
    unfold Touched Reg.SRCSHORTEN0
    omega
  have hpend : Touched (Reg.SRCSHORTPENDEN0 + (i.val / 8 : Nat)) := by
    unfold Touched Reg.SRCSHORTPENDEN0
    omega
  unfold matchShort
  dsimp only [overPair, over_hw]
  rw [reg_over m p.2 hreg, found_over m p.2 hpend hn, ← overPair, ← overPair, apply_ite (overPair m),
    apply_ite (overPair m)]
  rfl

theorem foldl_over {α : Type} {f : Bool × RadioSt → α → Bool × RadioSt}
    (hf : ∀ p i, f (overPair m p) i = overPair m (f p i)) (l : List α) (p : Bool × RadioSt) :
    l.foldl f (overPair m p) = overPair m (l.foldl f p) := by
  induction l generalizing p with
  | nil => rfl
  | cons i l ih =>
    rw [List.foldl_cons, List.foldl_cons, hf]
    exact ih (f p i)

theorem matchSource_over : matchSource (overlay m st) = overlay m (matchSource st) := by
  have hindex : Touched Reg.SRCRESINDEX := by decide
  have hmatch : Touched Reg.SRCMATCH := by decide
  have hstart : (false, overlay m st) = overPair m (false, st) := rfl
  unfold matchSource
  dsimp only
  rw [hstart, foldl_over m (matchExt_over m), foldl_over m (matchShort_over m)]
  simp only [overPair, over_hw, reg_over m _ hindex, reg_over m _ hmatch, setReg_over m _ hindex, request0_over,
    ← apply_ite (overlay m)]

theorem decodeFrame_over : decodeFrame (overlay m st) = overlay m (decodeFrame st) := by
  have hsource (st : RadioSt) : decodeSource (overlay m st) = overlay m (decodeSource st) := by
    unfold decodeSource
    rw [over_hw, updateFrame_over, matchSource_over, apply_ite (overlay m)]
  have hdest (st : RadioSt) : decodeDest (overlay m st) = overlay m (decodeDest st) := by
    unfold decodeDest
    rw [over_hw, updateFrame_over, apply_ite (overlay m)]
  unfold decodeFrame
  dsimp only
  rw [over_hw, updateFrame_over, hsource, hdest, request0_over, filterFrame_over]
  rfl

theorem acceptFrame_over : acceptFrame (overlay m st) = overlay m (acceptFrame st) := by
  have hfsmstat1 : Touched Reg.FSMSTAT1 := by decide
  have hfrmfilt0 : Touched Reg.FRMFILT0 := by decide
  unfold acceptFrame
  simp only [over_hw, update_over, reg_over m st hfrmfilt0, filterFrame_over, overPair, request0_over,
    atThreshold_over, setBit1_over m _ hfsmstat1, setBit0_over m _ hfsmstat1, ← apply_ite (overlay m)]

theorem askForAck_over : askForAck (overlay m st) = overlay m (askForAck st) := by
  have hfsmctrl : Touched Reg.FSMCTRL := by decide
  unfold askForAck
  simp only [over_hw, update_over, reg_over m st hfsmctrl, ← apply_ite (overlay m)]

theorem lastByte_over : lastByte (overlay m st) = overlay m (lastByte st) := by
  have hfsmstat1 : Touched Reg.FSMSTAT1 := by decide
  unfold lastByte
  simp only [setBit1_over m _ hfsmstat1, setBit0_over m _ hfsmstat1, request0_over, decodeFrame_over,
    acceptFrame_over, update_over, askForAck_over]

theorem firstByte_over : firstByte (overlay m st) = overlay m (firstByte st) := by
  have hfsmstat1 : Touched Reg.FSMSTAT1 := by decide
  have hrxfirst : Touched Reg.RXFIRST := by decide
  unfold firstByte
  simp only [over_hw, setReg_over m _ hrxfirst, setBit1_over m _ hfsmstat1, update_over]

theorem countByte_over : countByte (overlay m st) = overlay m (countByte st) := by
  have hfsmstat1 : Touched Reg.FSMSTAT1 := by decide
  have hfrmfilt0 : Touched Reg.FRMFILT0 := by decide
  have hrxfifocnt : Touched Reg.RXFIFOCNT := by decide
  unfold countByte
  simp only [over_hw, setReg_over m _ hrxfifocnt, firstByte_over, atThreshold_over, reg_over m _ hfrmfilt0,
    setBit1_over m _ hfsmstat1, ← apply_ite (overlay m)]

theorem local_storeRX (i : RadioSt → Int) (b : RadioSt → BitVec 8) (hi : ∀ m st, i (overlay m st) = i st)
    (hb : ∀ m st, b (overlay m st) = b st) : Local fun st => storeRX (i st) (b st) st := by
  intro m st
  unfold storeRX
  dsimp only
  rw [hi m st, hb m st, over_hw]
  cases st.hw.RXFIFO.set (i st) (b st) with
  | error e => rfl
  | ok RXFIFO => rfl

theorem local_statusWord : Local statusWord := by
  have hfrmctrl0 : Touched Reg.FRMCTRL0 := by decide
  have hindex : Touched Reg.SRCRESINDEX := by decide
  have hstatus := local_storeRX (fun st => st.hw.RX_PC - 1) (fun st =>
    if reg Reg.FRMCTRL0 st &&& bmAPPEND_DATA_MODE = 0 then 0x80 ||| 100
    else 0x80 ||| (reg Reg.SRCRESINDEX st).setWidth 8) (fun _ _ => rfl)
    fun m st => by rw [reg_over m st hfrmctrl0, reg_over m st hindex]
  have hff := local_storeRX (fun st => st.hw.RX_PC - 2) (fun _ => 0xFF) (fun _ _ => rfl) fun _ _ => rfl
  exact Local.ite (c := fun st => reg Reg.FRMCTRL0 st &&& bmAUTOCRC ≠ 0)
    (fun m st => by rw [reg_over m st hfrmctrl0]) (hstatus.bind hff) fun _ _ => rfl

theorem local_doRX : Local doRX := by
  have hstore := local_storeRX (fun st => st.hw.RX_PC) (fun st => st.hw.radio_in.setWidth 8) (fun _ _ => rfl)
    fun _ _ => rfl
  have hcount := local_ok countByte_over
  have hlast := (local_ok lastByte_over).bind local_statusWord
  have hzero : Local fun st => .ok (setRX_PC 0 st) := fun _ _ => rfl
  have hnext : Local fun st => .ok (setRX_PC (st.hw.RX_PC + 1) st) := fun _ _ => rfl
  have hrest := Local.ite (c := fun st => st.hw.RX_PC = st.hw.length) (fun _ _ => Iff.rfl) (hlast.bind hzero) hnext
  exact hstore.bind (hcount.bind hrest)

theorem flagsAfterRead_over : flagsAfterRead (overlay m st) = overlay m (flagsAfterRead st) := by
  have hfsmstat1 : Touched Reg.FSMSTAT1 := by decide
  have hfifopctrl : Touched Reg.FIFOPCTRL := by decide
  unfold flagsAfterRead
  simp only [over_hw, reg_over m st hfifopctrl, setBit0_over m _ hfsmstat1, ← apply_ite (overlay m)]

/-! ## Transmission -/

theorem sendByte_over (b : BitVec 8) : sendByte b (overlay m st) = overlay m (sendByte b st) := by
  have hfsmstat1 : Touched Reg.FSMSTAT1 := by decide
  have htxfifocnt : Touched Reg.TXFIFOCNT := by decide
  have hend (st : RadioSt) : endOfTX (overlay m st) = overlay m (endOfTX st) := by
    unfold endOfTX
    simp only [over_hw, update_over, setBit0_over m _ hfsmstat1, ← apply_ite (overlay m)]
  unfold sendByte
  simp only [update_over, hend, over_hw, setReg_over m _ htxfifocnt]

theorem local_doTX : Local doTX := by
  have hfsmstat1 : Touched Reg.FSMSTAT1 := by decide
  intro m st
  unfold doTX
  rw [reg_over m st hfsmstat1, setBit1_over m st hfsmstat1, update_over, over_hw]
  split
  · rfl
  · cases st.hw.TXFIFO.get st.hw.TX_PC with
    | error e => rfl
    | ok b => exact congrArg Except.ok (sendByte_over m st b)

theorem local_sendAck : Local sendAck := by
  have hfsmstat1 : Touched Reg.FSMSTAT1 := by decide
  have hclear : Local fun st => .ok (update (fun r => { r with ACKsent := false }) st) := fun _ _ => rfl
  have hsent : Local fun st => .ok (if reg Reg.FSMSTAT1 st &&& SFDbm = 0 then
      update (fun r => { r with ACKsent := true }) st else st) :=
    local_ok fun m st => by rw [reg_over m st hfsmstat1, update_over, ← apply_ite (overlay m)]
  exact (hclear.bind local_doTX).bind hsent

/-! ## The state machine -/

theorem goto_over (state : FsmState) (n : Int) : goto state n (overlay m st) = overlay m (goto state n st) :=
  update_over m st _

theorem active_over (tx rx : Bool) : active tx rx (overlay m st) = overlay m (active tx rx st) := update_over m st _

theorem startTimer_over (time : Nat) : startTimer time (overlay m st) = overlay m (startTimer time st) :=
  update_over m st _

theorem toIdle_over : toIdle (overlay m st) = overlay m (toIdle st) :=
  request1_over m (goto .IDLE 0 st) RFIDLE

theorem strobes_over (csp : Strobes) : strobes csp (overlay m st) = overlay m (strobes csp st) := by
  unfold strobes
  simp only [over_hw, goto_over, startTimer_over, toIdle_over, ← apply_ite (overlay m)]

theorem idle_over : idle (overlay m st) = overlay m (idle st) := by
  unfold idle
  simp only [over_hw, active_over, goto_over, startTimer_over, ← apply_ite (overlay m)]

theorem await_over (tx rx : Bool) (state : FsmState) (n : Int) :
    await tx rx state n (overlay m st) = overlay m (await tx rx state n st) := by
  unfold await
  simp only [over_hw, active_over, goto_over, update_over, ← apply_ite (overlay m)]

theorem sfdWait_over : sfdWait (overlay m st) = overlay m (sfdWait st) := by
  have hfsmstat1 : Touched Reg.FSMSTAT1 := by decide
  unfold sfdWait
  simp only [over_hw, active_over, goto_over, toIdle_over, request0_over, setBit1_over m _ hfsmstat1,
    ← apply_ite (overlay m)]

theorem afterByte_over (rand : Nat) : afterByte rand (overlay m st) = overlay m (afterByte rand st) := by
  have hfsmstat1 : Touched Reg.FSMSTAT1 := by decide
  have hfsmctrl : Touched Reg.FSMCTRL := by decide
  unfold afterByte toRxwait
  simp only [over_hw, goto_over, startTimer_over, reg_over m _ hfsmctrl, update_over, setBit0_over m _ hfsmstat1,
    ← apply_ite (overlay m)]

theorem local_rx (rand : Nat) : Local (rx rand) := by
  have hstart : Local fun st => .ok (update (fun r => { r with
      slotted_ack := false, unslotted_ack := false, TX_ACTIVE := false, RX_ACTIVE := true }) st) := fun _ _ => rfl
  exact (hstart.bind local_doRX).bind (local_ok fun m st => afterByte_over m st rand)

theorem emptyCells_over {is : List Nat} (h : ∀ i ∈ is, i < 128) :
    emptyCells is (overlay m st) = overlay m (emptyCells is st) := by
  induction is generalizing st with
  | nil => rfl
  | cons i is ih =>
    have hi := h i List.mem_cons_self
    have hcell : Touched (0x6000 + (i : Int)) := by
      unfold Touched
      omega
    change emptyCells is (setReg _ 0 (overlay m st)) = _
    rw [setReg_over m st hcell]
    exact ih _ fun j hj => h j (List.mem_cons_of_mem i hj)

theorem rxfifoReset_over : rxfifoReset (overlay m st) = overlay m (rxfifoReset st) := by
  have hrange : ∀ i ∈ List.range 128, i < 128 := fun i hi => List.mem_range.mp hi
  unfold rxfifoReset
  simp only [active_over, update_over, emptyCells_over m _ hrange, goto_over]

theorem rxOverflow_over (csp : Strobes) : rxOverflow csp (overlay m st) = overlay m (rxOverflow csp st) := by
  unfold rxOverflow
  simp only [active_over, goto_over, ← apply_ite (overlay m)]

theorem local_tx : Local tx := by
  have hstart : Local fun st => .ok (active true false st) := fun _ _ => rfl
  have hend : Local fun st => .ok (
      let st := if st.hw.underflow then
          update (fun r => { r with underflow := false }) (startTimer 2 (goto .TX_UNDERFLOW 56 st))
        else st
      if st.hw.frame_sent then
        update (fun r => { r with frame_sent := false }) (goto .TX_FINAL 39 (request1 TXDONE st))
      else st) :=
    local_ok fun m st => by
      simp only [over_hw, goto_over, startTimer_over, update_over, request1_over, ← apply_ite (overlay m)]
  exact (hstart.bind local_doTX).bind hend

theorem txFinal_over : txFinal (overlay m st) = overlay m (txFinal st) := by
  unfold txFinal
  simp only [over_hw, active_over, goto_over, startTimer_over, ← apply_ite (overlay m)]

theorem afterAck_over : afterAck (overlay m st) = overlay m (afterAck st) := by
  unfold afterAck
  simp only [over_hw, goto_over, startTimer_over, update_over, request1_over, ← apply_ite (overlay m)]

theorem local_ack : Local ack := by
  have hstart : Local fun st => .ok (active true false st) := fun _ _ => rfl
  have hcancel : Local fun st => .ok (goto .TX_SHUTDOWN 26 st) := fun _ _ => rfl
  have hsend := Local.ite (c := fun st => st.hw.cancelACK = true) (fun _ _ => Iff.rfl) hcancel local_sendAck
  have hend : Local fun st => .ok (if st.hw.ACKsent then afterAck st else st) :=
    local_ok fun m st => by rw [over_hw, afterAck_over, apply_ite (overlay m)]
  exact (hstart.bind hsend).bind hend

theorem ackDelay_over : ackDelay (overlay m st) = overlay m (ackDelay st) := by
  unfold ackDelay
  simp only [over_hw, active_over, goto_over, startTimer_over, ← apply_ite (overlay m)]

theorem local_fsmSwitch (csp : Strobes) : Local (fsmSwitch csp) := by
  intro m st
  unfold fsmSwitch
  rw [over_hw]
  cases st.hw.state with
  | IDLE => exact local_ok idle_over m st
  | RX_CALIBRATION => exact local_ok (fun m st => await_over m st _ _ _ _) m st
  | SFD_WAIT => exact local_ok sfdWait_over m st
  | RX => exact local_rx csp.rand m st
  | RX_RXWAIT => exact local_ok (fun m st => await_over m st _ _ _ _) m st
  | RXFIFO_RESET => exact local_ok rxfifoReset_over m st
  | RX_OVERFLOW => exact local_ok (fun m st => rxOverflow_over m st csp) m st
  | TX_CALIBRATION => exact local_ok (fun m st => await_over m st _ _ _ _) m st
  | TX => exact local_tx m st
  | TX_FINAL => exact local_ok txFinal_over m st
  | TX_RX_TRANSIT => exact local_ok (fun m st => await_over m st _ _ _ _) m st
  | ACK_CALIBRATION => exact local_ok (fun m st => await_over m st _ _ _ _) m st
  | ACK => exact local_ack m st
  | ACK_DELAY => exact local_ok ackDelay_over m st
  | TX_UNDERFLOW => exact local_ok (fun m st => await_over m st _ _ _ _) m st
  | TX_SHUTDOWN => exact local_ok (fun m st => toIdle_over m (active true false st)) m st

theorem showActivity_over : showActivity (overlay m st) = overlay m (showActivity st) := by
  have hfsmstat1 : Touched Reg.FSMSTAT1 := by decide
  unfold showActivity
  simp only [over_hw, setBit1_over m _ hfsmstat1, setBit0_over m _ hfsmstat1, ← apply_ite (overlay m)]

theorem local_fsm (csp : Strobes) : Local (fsm csp) :=
  ((local_ok fun m st => strobes_over m st csp).bind (local_fsmSwitch csp)).bind (local_ok showActivity_over)

theorem countTimer_over : countTimer (overlay m st) = overlay m (countTimer st) := by
  unfold countTimer
  simp only [over_hw, update_over, ← apply_ite (overlay m)]

/-- A tick leaves the rest of the memory alone, and does not depend on it. -/
theorem local_tick (csp : Strobes) : Local (tick csp) := by
  have hend : Local fun st => .ok (update (fun r => { r with
      Timeout := false, radio_in := if r.stateNum = 3 then SFD else 0 }) st) := fun _ _ => rfl
  exact ((local_ok countTimer_over).bind (local_fsm csp)).bind hend

/-! ## Callbacks -/

/-- The callback of a write works on the data of the radio only. -/
theorem local_write (c : Site) (v : TMem) : Local (write c v) := by
  have hrfd : Local (writeRfd v) := by
    intro m st
    unfold writeRfd
    dsimp only
    rw [over_hw]
    cases st.hw.TXFIFO.set st.hw.TXFifoPosition (v.setWidth 8) with
    | error e => rfl
    | ok TXFIFO => rfl
  have hnone : Local fun st => .ok st := fun _ _ => rfl
  have htable : Local fun st => do
      let tables ← writeSourceTable (isWithinRange c - 0x6100) v st.hw.tables
      return { st with hw := { st.hw with tables := tables } } := by
    intro m st
    dsimp only
    rw [over_hw]
    cases writeSourceTable (isWithinRange c - 0x6100) v st.hw.tables with
    | error e => rfl
    | ok tables => rfl
  have hclk : Local fun st => .ok (if st.hw.cell_clkconcmd = some c then writeClkconcmd v st else st) :=
    local_ok fun m st => by rw [over_hw, apply_ite (overlay m)]; rfl
  have hfirst := Local.ite (c := fun st => st.hw.cell_rfd = some c) (fun _ _ => Iff.rfl) hrfd hnone
  have hsecond := Local.ite (c := fun _ => isWithinRange c ≠ 0) (fun _ _ => Iff.rfl) htable hnone
  exact hclk.bind (hfirst.bind hsecond)

/-- The callback of a read works on its cell and the registers. -/
theorem read_over {c : Site} (hc : TouchedSite c) :
    read c (overlay m st) = (read c st).map fun p => (p.1, overlay m p.2) := by
  have hread : readRfd (overlay m st) = (readRfd st).map fun p => (p.1, overlay m p.2) := by
    unfold readRfd
    rw [over_hw]
    cases st.hw.RXFIFO.get st.hw.ReadC with
    | error e => rfl
    | ok temp =>
      change Except.ok (_, _) = Except.ok (_, _)
      have hcount (st : RadioSt) : (if (overlay m st).hw.MovInstruction then
          setReadC ((overlay m st).hw.ReadC + 1) (overlay m st) else overlay m st)
            = overlay m (if st.hw.MovInstruction then setReadC (st.hw.ReadC + 1) st else st) := by
        rw [over_hw, setReadC, update_over, apply_ite (overlay m)]
      rw [flagsAfterRead_over, hcount]
  unfold read
  rw [over_hw, hread]
  have hself : (overlay m st).mem c = st.mem c := if_pos hc
  rw [hself]
  split <;> rfl

/-- A step that does not depend on the rest of the memory does not change it. -/
theorem Local.untouched {f : RadioSt → Except Fault RadioSt} {st st' : RadioSt} (h : Local f)
    (hrun : f st = .ok st') {s : Site} (hs : ¬ TouchedSite s) : st'.mem s = st.mem s := by
  have hself := h st.mem st
  rw [over_self, hrun] at hself
  have hst' : st' = overlay st.mem st' := Except.ok.inj hself
  rw [hst']
  exact over_mem_of_not hs

/-- All touched cells are in `xram`. -/
theorem xram_of_touchedSite {s : Site} (h : TouchedSite s) : ∃ a, s = .cell .xram a := by
  obtain hreg | ⟨a, ha, -⟩ := h
  · have hxram : ∀ s ∈ registered, ∃ a, s = .cell .xram a := by
      unfold registered tableCells
      simp only [List.forall_mem_append, List.forall_mem_map]
      exact ⟨⟨⟨⟨⟨fun a _ => ⟨_, rfl⟩, fun i _ => ⟨_, rfl⟩⟩, fun i _ => ⟨_, rfl⟩⟩, fun i _ => ⟨_, rfl⟩⟩,
        fun i _ => ⟨_, rfl⟩⟩, fun i _ => ⟨_, rfl⟩⟩
    exact hxram s hreg
  · exact ⟨a, ha⟩

end Radio

end Ucsim.S51
