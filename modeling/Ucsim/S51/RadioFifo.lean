import Ucsim.S51.RadioStates

/-!
# The positions in the FIFOs of the radio

`RX_PC`, `TX_PC`, `ReadC` and `TXFifoPosition` index the FIFOs, and the status word stands two bytes before
the end of a frame. The indices are in range as long as frames are not shorter than the status word, a
transmission ends before the FIFO does and no more bytes are read than the FIFO has.
-/

namespace Ucsim.S51

open Logic

namespace Radio

/-- The bounds on the positions. -/
structure Positions (st : RadioSt) : Prop where
  RX_PC : 0 ≤ st.hw.RX_PC ∧ st.hw.RX_PC ≤ st.hw.length
  length : st.hw.length ≤ 127
  /-- Each byte that is sent moves the position by two. -/
  TX_PC : 0 ≤ st.hw.TX_PC ∧ st.hw.TX_PC ≤ 128 ∧ st.hw.TX_PC % 2 = 0
  TXFifoPosition : 0 ≤ st.hw.TXFifoPosition ∧ st.hw.TXFifoPosition ≤ 127
  ReadC : 0 ≤ st.hw.ReadC ∧ st.hw.ReadC ≤ 128

/-- The status word of the frame that ends with this byte has no place before it. -/
def ShortFrame (st : RadioSt) : Prop :=
  st.hw.RX_PC = nextLength st ∧ nextLength st < 2 ∧ reg Reg.FRMCTRL0 st &&& bmAUTOCRC ≠ 0

/-- A transmission has sent the whole `TXFIFO` and goes on. -/
def Overrun (st : RadioSt) : Prop := reg Reg.FSMSTAT1 st &&& SFDbm ≠ 0 ∧ st.hw.TX_PC = 128

/-- Does the state send a byte? -/
def sends (st : RadioSt) : Bool :=
  st.hw.state = .TX ∨ (st.hw.state = .ACK ∧ st.hw.cancelACK = false)

/-- The condition on a step. -/
def Fits : Label → RadioSt → Prop
  | .tick csp, st =>
    let st := strobes csp (countTimer st)
    (st.hw.state = .RX → ¬ ShortFrame st) ∧ (sends st → ¬ Overrun st)
  | .read c _, st => st.hw.cell_rfd = some c → st.hw.ReadC ≠ 128
  | _, _ => True

/-! ## Reception -/

theorem storeRX_ok_iff (i : Int) (b : BitVec 8) (st : RadioSt) :
    (∃ st', storeRX i b st = .ok st') ↔ InRange 128 i := by
  constructor
  · rintro ⟨st', h⟩
    unfold storeRX at h
    obtain ⟨RXFIFO, hset, -⟩ := bind_eq_ok.mp h
    obtain ⟨hin, -⟩ := Table.set_eq_ok.mp hset
    exact hin
  · intro hin
    rw [storeRX, Table.set_of_inRange hin]
    exact ⟨_, rfl⟩

theorem storeRX_mem {i : Int} {b : BitVec 8} {st st' : RadioSt} (h : storeRX i b st = .ok st') :
    st'.mem = st.mem := by
  unfold storeRX at h
  obtain ⟨RXFIFO, -, hst⟩ := bind_eq_ok.mp h
  cases hst
  rfl

theorem statusWord_ok_iff {st : RadioSt} (h : 0 ≤ st.hw.RX_PC ∧ st.hw.RX_PC ≤ 127) :
    (∃ st', statusWord st = .ok st') ↔ (reg Reg.FRMCTRL0 st &&& bmAUTOCRC ≠ 0 → 2 ≤ st.hw.RX_PC) := by
  unfold statusWord
  by_cases hauto : reg Reg.FRMCTRL0 st &&& bmAUTOCRC ≠ 0
  · rw [if_pos hauto]
    dsimp only
    generalize (if reg Reg.FRMCTRL0 st &&& bmAPPEND_DATA_MODE = 0 then (0x80 ||| 100 : BitVec 8)
      else 0x80 ||| (reg Reg.SRCRESINDEX st).setWidth 8) = status
    constructor
    · rintro ⟨st', hst'⟩ -
      obtain ⟨st₁, hst₁, hst₂⟩ := bind_eq_ok.mp hst'
      have hin := (storeRX_ok_iff _ _ _).mp ⟨st', hst₂⟩
      rw [storeRX_hw hst₁] at hin
      dsimp only at hin
      omega
    · intro hlong
      have hlong := hlong hauto
      obtain ⟨st₁, hst₁⟩ := (storeRX_ok_iff (st.hw.RX_PC - 1) status st).mpr (by omega)
      obtain ⟨st₂, hst₂⟩ := (storeRX_ok_iff (st₁.hw.RX_PC - 2) 0xFF st₁).mpr (by
        rw [storeRX_hw hst₁]
        dsimp only
        omega)
      exact ⟨st₂, bind_eq_ok.mpr ⟨st₁, hst₁, hst₂⟩⟩
  · rw [if_neg hauto]
    exact ⟨fun _ hne => absurd hne hauto, fun _ => ⟨st, rfl⟩⟩

/-- A byte is received unless the frame is short. -/
theorem doRX_ok_iff {st : RadioSt} (h : Positions st) : (∃ st', doRX st = .ok st') ↔ ¬ ShortFrame st := by
  obtain ⟨h0, hle⟩ := h.RX_PC
  have hlen := h.length
  have hauto : ¬ IsFrameReg Reg.FRMCTRL0 := by
    simp only [IsFrameReg, IsMatchReg]
    decide
  obtain ⟨st₁, hst₁⟩ := (storeRX_ok_iff st.hw.RX_PC (st.hw.radio_in.setWidth 8) st).mpr (by omega)
  have hstore := storeRX_hw hst₁
  have hcount := countByte_hw st₁
  have hreg : reg Reg.FRMCTRL0 (countByte st₁) = reg Reg.FRMCTRL0 st := by
    rw [countByte_reg hauto, reg, storeRX_mem hst₁]
    rfl
  have hlength : nextLength st₁ = nextLength st := by
    rw [nextLength, nextLength, hstore]
  rw [hstore, hlength] at hcount
  unfold doRX
  rw [hst₁]
  change (∃ st', (if (countByte st₁).hw.RX_PC = (countByte st₁).hw.length then
    statusWord (lastByte (countByte st₁)) >>= fun st => .ok (setRX_PC 0 st)
    else .ok (setRX_PC ((countByte st₁).hw.RX_PC + 1) (countByte st₁))) = .ok st') ↔ _
  generalize countByte st₁ = st₂ at hcount hreg
  have hRX_PC : st₂.hw.RX_PC = st.hw.RX_PC := by rw [hcount]
  have hnext : st₂.hw.length = nextLength st := by rw [hcount]
  rw [hRX_PC, hnext]
  by_cases hlast : st.hw.RX_PC = nextLength st
  · rw [if_pos hlast, bind_ok_iff fun st _ => ⟨_, rfl⟩]
    have hjudged := Judged.lastByte st₂
    have hpc : (lastByte st₂).hw.RX_PC = st.hw.RX_PC := by
      rw [hjudged.hw, ← hRX_PC]
    rw [statusWord_ok_iff (by omega), hjudged.reg hauto, hreg, hpc, ShortFrame, ← hlast]
    constructor
    · rintro hlong ⟨-, hshort, hon⟩
      exact absurd (hlong hon) (by omega)
    · intro hshort hon
      by_contra hlt
      exact hshort ⟨rfl, by omega, hon⟩
  · rw [if_neg hlast]
    exact ⟨fun _ hshort => hlast hshort.1, fun _ => ⟨_, rfl⟩⟩

theorem nextLength_le {st : RadioSt} (h : Positions st) : nextLength st ≤ 127 := by
  unfold nextLength
  split
  · have hmask : (st.hw.radio_in &&& 0x7F).toNat ≤ 0x7F := by
      rw [BitVec.toNat_and]
      exact Nat.and_le_right
    omega
  · exact h.length

theorem le_nextLength {st : RadioSt} (h : Positions st) : st.hw.RX_PC ≤ nextLength st := by
  unfold nextLength
  split
  · omega
  · exact h.RX_PC.2

theorem Positions.doRX {st st' : RadioSt} (h : Positions st) (hok : Radio.doRX st = .ok st') :
    Positions st' := by
  have hr := Received.doRX hok
  have hle := le_nextLength h
  constructor
  · rw [hr.length, hr.RX_PC]
    split
    · have h0 := h.RX_PC.1
      omega
    · have h0 := h.RX_PC.1
      omega
  · rw [hr.length]
    exact nextLength_le h
  · rw [hr.hw]
    exact h.TX_PC
  · rw [hr.hw]
    exact h.TXFifoPosition
  · rw [hr.hw]
    exact h.ReadC

/-! ## Transmission -/

/-- A byte is sent unless the transmission has overrun the FIFO. -/
theorem doTX_ok_iff {st : RadioSt} (h : Positions st) : (∃ st', doTX st = .ok st') ↔ ¬ Overrun st := by
  unfold doTX
  by_cases hsfd : reg Reg.FSMSTAT1 st &&& SFDbm = 0
  · rw [if_pos hsfd]
    exact ⟨fun _ hover => hover.1 hsfd, fun _ => ⟨_, rfl⟩⟩
  · rw [if_neg hsfd]
    refine (bind_ok_iff fun b _ => ⟨sendByte b st, rfl⟩).trans ?_
    have hpc := h.TX_PC
    constructor
    · rintro ⟨b, hb⟩ ⟨-, hend⟩
      obtain ⟨hin, -⟩ := Table.get_eq_ok.mp hb
      omega
    · intro hover
      have hend : st.hw.TX_PC ≠ 128 := fun hend => hover ⟨hsfd, hend⟩
      exact ⟨_, Table.get_of_inRange (by omega) _⟩

theorem TX_PC_doTX {st st' : RadioSt} (hok : doTX st = .ok st') :
    st'.hw.TX_PC = 0 ∨ st'.hw.TX_PC = st.hw.TX_PC + 2 ∧ InRange 128 st.hw.TX_PC := by
  unfold doTX at hok
  by_cases hsfd : reg Reg.FSMSTAT1 st &&& SFDbm = 0
  · rw [if_pos hsfd] at hok
    cases hok
    exact Or.inl rfl
  · rw [if_neg hsfd] at hok
    obtain ⟨b, hb, hst⟩ := bind_eq_ok.mp hok
    obtain ⟨hin, -⟩ := Table.get_eq_ok.mp hb
    cases hst
    rw [sendByte_hw]
    exact Or.inr ⟨by dsimp only; omega, hin⟩

theorem Positions.doTX {st st' : RadioSt} (h : Positions st) (hok : Radio.doTX st = .ok st') :
    Positions st' := by
  have hs := Sent.doTX hok
  have hpc := h.TX_PC
  constructor
  · rw [hs.hw]
    exact h.RX_PC
  · rw [hs.hw]
    exact h.length
  · obtain hzero | ⟨hnext, hin⟩ := TX_PC_doTX hok
    · omega
    · omega
  · rw [hs.hw]
    exact h.TXFifoPosition
  · rw [hs.hw]
    exact h.ReadC

/-! ## Steps -/

namespace Positions

variable {st st' : RadioSt}

/-- The bounds are those of five fields. -/
theorem of_fields (h : Positions st) (hRX : st'.hw.RX_PC = st.hw.RX_PC)
    (hlength : st'.hw.length = st.hw.length) (hTX : st'.hw.TX_PC = st.hw.TX_PC)
    (hwrite : st'.hw.TXFifoPosition = st.hw.TXFifoPosition) (hread : st'.hw.ReadC = st.hw.ReadC) :
    Positions st' := by
  constructor
  · rw [hRX, hlength]
    exact h.RX_PC
  · rw [hlength]
    exact h.length
  · rw [hTX]
    exact h.TX_PC
  · rw [hwrite]
    exact h.TXFifoPosition
  · rw [hread]
    exact h.ReadC

theorem kept : Kept Positions where
  minor h hm := h.of_fields (by rw [hm.hw]) (by rw [hm.hw]) (by rw [hm.hw]) (by rw [hm.hw])
    (by rw [hm.hw])
  goto h _ := h.of_fields rfl rfl rfl rfl rfl
  active h _ := h.of_fields rfl rfl rfl rfl rfl
  doRX := Positions.doRX
  doTX := Positions.doTX

theorem initial (rfd : Option Site) (RXframe TXframe : Frame) (ACKsent radioAnswer : Bool)
    (mem : Site → TMem) : Positions (Radio.initial rfd RXframe TXframe ACKsent radioAnswer mem) := by
  constructor <;> simp [Radio.initial, init]

theorem write {c : Site} {v : TMem} (h : Positions st) (hok : Radio.write c v st = .ok st') :
    Positions st' := by
  have hw := Written.write hok
  have hpos := h.TXFifoPosition
  constructor
  · rw [hw.hw]
    exact h.RX_PC
  · rw [hw.hw]
    exact h.length
  · rw [hw.hw]
    exact h.TX_PC
  · obtain hsame | hnext := hw.TXFifoPosition
    · omega
    · split at hnext <;> omega
  · rw [hw.hw]
    exact h.ReadC

theorem read {c : Site} {v : TMem} (h : Positions st) (hok : Radio.read c st = .ok (v, st')) :
    Positions st' := by
  unfold Radio.read at hok
  split at hok
  · obtain ⟨temp, htemp, hst⟩ := bind_eq_ok.mp hok
    obtain ⟨hin, -⟩ := Table.get_eq_ok.mp htemp
    cases hst
    have hhw := flagsAfterRead_hw st
    generalize flagsAfterRead st = st₁ at hhw
    have hflags : Positions st₁ := h.of_fields (by rw [hhw]) (by rw [hhw]) (by rw [hhw]) (by rw [hhw])
      (by rw [hhw])
    split
    · refine ⟨hflags.RX_PC, hflags.length, hflags.TX_PC, hflags.TXFifoPosition, ?_⟩
      rw [hhw]
      change 0 ≤ st.hw.ReadC + 1 ∧ st.hw.ReadC + 1 ≤ 128
      omega
    · exact hflags
  · cases hok
    exact h

theorem step {a : Label} (h : Positions st) (hok : Radio.step a st = .ok st') : Positions st' := by
  cases a with
  | reset RXframe TXframe ACKsent radioAnswer mem =>
    cases hok
    exact initial _ _ _ _ _ _
  | present inp =>
    cases hok
    exact kept.present inp h
  | timer time =>
    cases hok
    exact kept.setTimer time h
  | tick csp => exact kept.tick h hok
  | happen pendingBit e =>
    cases hok
    cases e <;> exact h.of_fields rfl rfl rfl rfl rfl
  | write c v => exact h.write hok
  | read c MovInstruction =>
    obtain ⟨⟨v, st₁⟩, hst₁, hst'⟩ := bind_eq_ok.mp hok
    cases hst'
    have hannounced : Positions (announce MovInstruction st) := h.of_fields rfl rfl rfl rfl rfl
    exact (hannounced.read hst₁).of_fields rfl rfl rfl rfl rfl
  | memory mem =>
    cases hok
    exact h.of_fields rfl rfl rfl rfl rfl

end Positions

/-! ## When a step uses an index out of range -/

theorem rx_ok_iff {rand : Nat} {st : RadioSt} (h : Positions st) :
    (∃ st', rx rand st = .ok st') ↔ ¬ ShortFrame st := by
  have hrx : Positions (update (fun r => { r with
      slotted_ack := false, unslotted_ack := false, TX_ACTIVE := false, RX_ACTIVE := true }) st) :=
    h.of_fields rfl rfl rfl rfl rfl
  exact (bind_ok_iff fun st _ => ⟨afterByte rand st, rfl⟩).trans (doRX_ok_iff hrx)

theorem tx_ok_iff {st : RadioSt} (h : Positions st) : (∃ st', tx st = .ok st') ↔ ¬ Overrun st :=
  (bind_ok_iff fun _ _ => ⟨_, rfl⟩).trans (doTX_ok_iff (Positions.kept.transmitting h))

theorem ack_ok_iff {st : RadioSt} (h : Positions st) :
    (∃ st', ack st = .ok st') ↔ (st.hw.cancelACK = false → ¬ Overrun st) := by
  refine (bind_ok_iff fun _ _ => ⟨_, rfl⟩).trans ?_
  cases hcancel : st.hw.cancelACK with
  | true =>
    rw [if_pos (by exact hcancel)]
    exact ⟨fun _ h => by simp at h, fun _ => ⟨_, rfl⟩⟩
  | false =>
    rw [if_neg (by rw [Bool.not_eq_true]; exact hcancel)]
    have hclear : Positions (update (fun r => { r with ACKsent := false }) (active true false st)) :=
      h.of_fields rfl rfl rfl rfl rfl
    refine ((bind_ok_iff fun st _ => ⟨_, rfl⟩).trans (doTX_ok_iff hclear)).trans ?_
    exact ⟨fun h _ => h, fun h => h rfl⟩

theorem fsmSwitch_ok_iff {csp : Strobes} {st : RadioSt} (h : Positions st) :
    (∃ st', fsmSwitch csp st = .ok st') ↔
      (st.hw.state = .RX → ¬ ShortFrame st) ∧ (sends st → ¬ Overrun st) := by
  unfold fsmSwitch sends
  cases hstate : st.hw.state <;> dsimp only
  case RX => simpa using rx_ok_iff h
  case TX => simpa using tx_ok_iff h
  case ACK => simpa using ack_ok_iff h
  all_goals simp

theorem tick_ok_iff {csp : Strobes} {st : RadioSt} (h : Positions st) :
    (∃ st', tick csp st = .ok st') ↔ Fits (.tick csp) st := by
  refine (bind_ok_iff fun st _ => ⟨_, rfl⟩).trans ?_
  refine (bind_ok_iff fun st _ => ⟨showActivity st, rfl⟩).trans ?_
  exact fsmSwitch_ok_iff (Positions.kept.strobes _ (Positions.kept.countTimer h))

/-- A cell of the tables is byte `k` of half `n` of entry `j`. -/
theorem isWithinRange_ne_zero {c : Site} (h : isWithinRange c ≠ 0) :
    ∃ (j : Fin 12) (n : Fin 2) (k : Fin 4), isWithinRange c - 0x6100 = 8 * j + 4 * n + k := by
  have hbounds : 0x6100 ≤ isWithinRange c ∧ isWithinRange c ≤ 0x615F := by
    unfold isWithinRange at h ⊢
    split at h
    · split at h
      · rw [if_pos ‹_›]
        assumption
      · exact absurd rfl h
    · exact absurd rfl h
  generalize isWithinRange c = d at hbounds
  refine ⟨⟨(d - 0x6100).toNat / 8, by omega⟩, ⟨(d - 0x6100).toNat / 4 % 2, by omega⟩,
    ⟨(d - 0x6100).toNat % 4, by omega⟩, ?_⟩
  simp only
  omega

/-- The callback of a write uses indices in range. -/
theorem write_ok {st : RadioSt} (h : Positions st) (c : Site) (v : TMem) :
    ∃ st', write c v st = .ok st' := by
  have hclk : 0 ≤ (if st.hw.cell_clkconcmd = some c then writeClkconcmd v st else st).hw.TXFifoPosition ∧
      (if st.hw.cell_clkconcmd = some c then writeClkconcmd v st else st).hw.TXFifoPosition ≤ 127 := by
    split <;> exact h.TXFifoPosition
  unfold write
  dsimp only
  generalize (if st.hw.cell_clkconcmd = some c then writeClkconcmd v st else st) = st₀ at hclk
  obtain ⟨st₁, hst₁⟩ : ∃ st₁, (if st₀.hw.cell_rfd = some c then writeRfd v st₀ else .ok st₀) = .ok st₁ := by
    split
    · exact ⟨_, bind_eq_ok.mpr ⟨_, Table.set_of_inRange (by omega) _ _, rfl⟩⟩
    · exact ⟨st₀, rfl⟩
  refine (bind_ok_iff fun st₂ _ => ?_).mpr ⟨st₁, hst₁⟩
  by_cases hrange : isWithinRange c ≠ 0
  · obtain ⟨j, n, k, hcell⟩ := isWithinRange_ne_zero hrange
    rw [if_pos hrange, hcell]
    exact (bind_ok_iff fun _ _ => ⟨_, rfl⟩).mpr ⟨_, writeSourceTable_eq j n k v st₂.hw.tables⟩
  · rw [if_neg hrange]
    exact ⟨st₂, rfl⟩

theorem read_ok_iff {st : RadioSt} (h : Positions st) (c : Site) :
    (∃ x, read c st = .ok x) ↔ (st.hw.cell_rfd = some c → st.hw.ReadC ≠ 128) := by
  have hpos := h.ReadC
  unfold read
  by_cases hrfd : st.hw.cell_rfd = some c
  · rw [if_pos hrfd]
    refine (bind_ok_iff fun st _ => ⟨_, rfl⟩).trans ?_
    constructor
    · rintro ⟨temp, htemp⟩ - hend
      obtain ⟨hin, -⟩ := Table.get_eq_ok.mp htemp
      omega
    · intro hend
      have hend := hend hrfd
      exact ⟨_, Table.get_of_inRange (by omega) _⟩
  · rw [if_neg hrfd]
    exact ⟨fun _ heq => absurd heq hrfd, fun _ => ⟨_, rfl⟩⟩

theorem step_ok_iff {st : RadioSt} (h : Positions st) (a : Label) :
    (∃ st', step a st = .ok st') ↔ Fits a st := by
  cases a with
  | reset RXframe TXframe ACKsent radioAnswer mem => exact ⟨fun _ => trivial, fun _ => ⟨_, rfl⟩⟩
  | present inp => exact ⟨fun _ => trivial, fun _ => ⟨_, rfl⟩⟩
  | timer time => exact ⟨fun _ => trivial, fun _ => ⟨_, rfl⟩⟩
  | tick csp => exact tick_ok_iff h
  | happen pendingBit e => exact ⟨fun _ => trivial, fun _ => ⟨_, rfl⟩⟩
  | write c v => exact ⟨fun _ => trivial, fun _ => write_ok h c v⟩
  | read c MovInstruction =>
    have hannounced : Positions (announce MovInstruction st) := h.of_fields rfl rfl rfl rfl rfl
    exact (bind_ok_iff fun x _ => ⟨announce false x.2, rfl⟩).trans (read_ok_iff hannounced c)
  | memory mem => exact ⟨fun _ => trivial, fun _ => ⟨_, rfl⟩⟩

/-- **When the indices of the FIFOs are in range.** A run from the reset uses no index out of range exactly
when each of its steps meets the condition in the state before it. -/
theorem indicesInRange_iff (rfd : Option Site) (RXframe TXframe : Frame) (ACKsent radioAnswer : Bool)
    (mem : Site → TMem) (as : List Label) :
    (∃ st, run as (initial rfd RXframe TXframe ACKsent radioAnswer mem) = .ok st) ↔
      ∀ before a after, as = before ++ a :: after → ∀ st,
        run before (initial rfd RXframe TXframe ACKsent radioAnswer mem) = .ok st → Fits a st :=
  foldlM_ok_iff (fun _ a h => step_ok_iff h a) (fun _ _ _ h hst => h.step hst)
    (Positions.initial rfd RXframe TXframe ACKsent radioAnswer mem) as

/-- A frame of odd length. -/
def oddFrame : Frame := { (default : Frame) with FrameLength := 1 }

/-- After the delimiter and 64 bytes of a frame of odd length the transmission goes on. -/
theorem transmission_outOfRange : ¬ ∃ st, run (transmission 66) (autocrcRadio oddFrame) = .ok st := by
  rintro ⟨st, hst⟩
  have hok : (run (transmission 66) (autocrcRadio oddFrame)).isOk = false := by decide +kernel
  rw [hst] at hok
  cases hok

end Radio

end Ucsim.S51
