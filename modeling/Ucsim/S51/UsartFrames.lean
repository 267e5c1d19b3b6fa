import Ucsim.Logic.Run
import Ucsim.S51.Usart

/-!
# The frames of the USART

With the registers set up, the bytes that are written to `UxDBUF` should appear on `TXD` as frames, one
after the other: a start bit, eight data bits in the order that is selected, a parity bit if there is one,
and the stop bits.
-/

namespace Ucsim.S51

open Logic ElementSt

/-- The values of `UxUCR` and `UxGCR`, with different levels of start and stop bits. -/
structure UsartConfig where
  k : UsartId
  ucr : BitVec 8
  gcr : BitVec 8
  distinct : ucr &&& 0x03 = 0x01 ∨ ucr &&& 0x03 = 0x02

namespace UsartConfig

variable (cfg : UsartConfig)

/-! ## Frames -/

def startLevel : Bool := cfg.ucr.getLsbD 0

def stopLevel : Bool := cfg.ucr.getLsbD 1

/-- Is there a ninth bit, for the parity? -/
def nineBits : Bool := cfg.ucr.getLsbD 4

def stops : Nat := if cfg.ucr.getLsbD 2 then 2 else 1

/-- The data bits in the order of `UxGCR`. -/
def dataBits (b : BitVec 8) : List Bool :=
  (List.range 8).map fun i => if cfg.gcr.getLsbD 5 then b.getLsbD (7 - i) else b.getLsbD i

/-- Is the number of ones odd? -/
def oddOnes (b : BitVec 8) : Bool := (List.range 8).foldl (fun x i => x ^^ b.getLsbD i) false

/-- The parity bit makes the number of ones even or odd. -/
def parityBit (b : BitVec 8) : Bool := if cfg.ucr.getLsbD 5 then oddOnes b else !oddOnes b

/-- The levels of a frame. -/
def frame (b : BitVec 8) : List Bool :=
  [cfg.startLevel] ++ cfg.dataBits b ++ (if cfg.nineBits then [cfg.parityBit b] else []) ++
    List.replicate cfg.stops cfg.stopLevel

/-- How many bits a frame has. -/
def frameLength : Nat := 9 + (if cfg.nineBits then 1 else 0) + cfg.stops

theorem frame_length (b : BitVec 8) : (cfg.frame b).length = cfg.frameLength := by
  unfold frame frameLength dataBits
  cases cfg.nineBits <;> simp <;> omega

theorem stops_pos : 1 ≤ cfg.stops := by
  unfold stops
  split <;> decide

theorem frameLength_ge : 10 ≤ cfg.frameLength := by
  have hstops := cfg.stops_pos
  unfold frameLength
  omega

end UsartConfig

/-! ## The line -/

/-- A transmitter with all the bytes that have been written, all the levels that have been put out, and the
byte that began the current transmission. -/
structure Line where
  st : UsartSt
  bytes : List (BitVec 8)
  levels : List Bool
  first : BitVec 8

/-- A byte is written, or a bit is put out. -/
inductive LineEvent
  | put (b : BitVec 8)
  | shift
  deriving DecidableEq

namespace Line

variable (cfg : UsartConfig)

/-- The line after a reset and the set-up of the registers. -/
def start (st : UsartSt) : Line where
  st := Usart.writeReg cfg.k (Usart.cell_uXucr cfg.k) (cfg.ucr.setWidth 16)
    (Usart.writeReg cfg.k (Usart.cell_uXgcr cfg.k) (cfg.gcr.setWidth 16) (Usart.reset st))
  bytes := []
  levels := []
  first := 0

/-- The step itself. No byte is written while another one waits, and no bit is put out without a byte. -/
def step (l : Line) : LineEvent → Line
  | .put b =>
    if l.st.hw.TX ∧ l.st.hw.queue then l
    else { l with
      st := Usart.writeReg cfg.k (Usart.cell_uXdbuf cfg.k) (b.setWidth 16) l.st
      bytes := l.bytes ++ [b]
      first := if l.st.hw.TX then l.first else b }
  | .shift =>
    if l.st.hw.TX then
      let st := Usart.Shift_out cfg.k l.st
      { l with st := st, levels := l.levels ++ [st.hw.TXD] }
    else l

/-- The line shows the frames of the bytes, without a gap, and is idle where all of them are complete. -/
structure Framed (l : Line) : Prop where
  levels : l.levels <+: l.bytes.flatMap cfg.frame
  idle : l.st.hw.TX = false ↔ l.levels.length = (l.bytes.flatMap cfg.frame).length

/-- The byte whose turn it is. -/
def current (l : Line) : BitVec 8 := l.bytes.getD (l.levels.length / cfg.frameLength) 0

/-- The bit that is put out next is not spoiled: a data bit is put out with `ORDER` set or is the same as
its mirror image, and a parity bit belongs to a byte with the parity of the first one. -/
def Unspoiled (e : LineEvent) (l : Line) : Prop :=
  e = .shift → l.st.hw.TX →
    (1 ≤ l.st.hw.bitTxCnt → l.st.hw.bitTxCnt ≤ 8 → cfg.gcr.getLsbD 5 ∨
      (l.current cfg).getLsbD (8 - l.st.hw.bitTxCnt) = (l.current cfg).getLsbD (l.st.hw.bitTxCnt - 1)) ∧
    (l.st.hw.bitTxCnt = 9 → cfg.nineBits → UsartConfig.oddOnes (l.current cfg) = UsartConfig.oddOnes l.first)

/-! ## The data of the transmitter -/

/-- The transmitter is set up. -/
structure SetUp (st : UsartSt) : Prop where
  BitNumber : st.hw.BitNumber = if cfg.nineBits then 9 else 8
  StopBits : st.hw.StopBits = cfg.stops
  startBitLevel : st.hw.startBitLevel = cfg.startLevel
  stopBitLevel : st.hw.stopBitLevel = cfg.stopLevel
  ucr : st.mem (Usart.cell_uXucr cfg.k) = cfg.ucr.setWidth 16

/-- A byte is on the line, after others that are complete. One more may wait in `UxDBUF`. -/
structure Busy (l : Line) (done : List (BitVec 8)) (cur : BitVec 8) : Prop where
  bytes : l.st.hw.queue = false ∧ l.bytes = done ++ [cur] ∨
    ∃ next, l.st.hw.queue = true ∧ l.bytes = done ++ [cur, next] ∧
      l.st.mem (Usart.cell_uXdbuf cfg.k) = next.setWidth 16
  levels : l.levels.length = cfg.frameLength * done.length + l.st.hw.bitTxCnt
  count : l.st.hw.bitTxCnt < cfg.frameLength
  reg : l.st.hw.regForTx = (cur <<< (l.st.hw.bitTxCnt - 1)).setWidth 16
  parity : cfg.nineBits → l.st.hw.TxParity = cfg.parityBit l.first

/-- What holds in every run. -/
structure Invariant (l : Line) : Prop where
  setUp : SetUp cfg l.st
  idle : l.st.hw.TX = false → l.st.hw.queue = false ∧ l.levels.length = cfg.frameLength * l.bytes.length
  busy : l.st.hw.TX = true → ∃ done cur, Busy cfg l done cur

/-! ## Single bits of registers -/

theorem and_eq_zero_iff (v : BitVec 8) {i : Nat} (hi : i < 8) :
    v.setWidth 16 &&& (1 : TMem) <<< i = 0 ↔ v.getLsbD i = false := by
  constructor
  · intro h
    have hbit := congrArg (fun x : TMem => x.getLsbD i) h
    simpa [hi, show i < 16 by omega] using hbit
  · intro h
    apply BitVec.eq_of_getLsbD_eq
    intro j hj
    by_cases hij : j = i
    · rw [hij]
      simp [h]
    · have hone : ((1 : TMem) <<< i).getLsbD j = false := by
        simp [BitVec.getLsbD_one]
        omega
      rw [BitVec.getLsbD_and, hone, Bool.and_false]
      exact BitVec.getLsbD_zero.symm

/-- The loop of `parity_check` counts the ones. -/
theorem check_eq (b : BitVec 8) : decide ((List.range 7).foldl
    (fun check (i : Nat) => check ^^^ (b.setWidth 16 >>> (i + 1) &&& 0x01)) (b.setWidth 16 &&& 0x01) = (0 : TMem))
      = !UsartConfig.oddOnes b := by
  have hall : ∀ b : BitVec 8, decide ((List.range 7).foldl
      (fun check (i : Nat) => check ^^^ (b.setWidth 16 >>> (i + 1) &&& 0x01)) (b.setWidth 16 &&& 0x01) = (0 : TMem))
        = !UsartConfig.oddOnes b := by decide +kernel
  exact hall b

theorem SetUp.parity_check {cfg : UsartConfig} {st : UsartSt} (h : SetUp cfg st) (b : BitVec 8) :
    Usart.parity_check cfg.k (b.setWidth 16) st = cfg.parityBit b := by
  unfold Usart.parity_check UsartConfig.parityBit
  dsimp only
  rw [check_eq, h.ucr]
  have hD9 : cfg.ucr.setWidth 16 &&& Usart.bmD9 = 0 ↔ cfg.ucr.getLsbD 5 = false :=
    @and_eq_zero_iff cfg.ucr 5 (by decide)
  cases heven : cfg.ucr.getLsbD 5 with
  | false =>
    rw [if_pos (hD9.mpr heven)]
    rfl
  | true =>
    rw [if_neg (fun h => by rw [hD9.mp h] at heven; cases heven), Bool.not_not]
    rfl

/-- What `UxUCR` sets up. -/
theorem writeUcr_eq (st : UsartSt) : Usart.writeUcr cfg.k (cfg.ucr.setWidth 16) st = update (fun u =>
    { u with
      BitNumber := if cfg.nineBits then 9 else 8
      startBitLevel := cfg.startLevel
      stopBitLevel := cfg.stopLevel
      StopBits := cfg.stops }) st := by
  have hnumber : (if cfg.ucr.setWidth 16 &&& (Usart.bmBit9 &&& Usart.bmParity <<< (1 : Nat)) = 0 then 8 else 9)
      = if cfg.nineBits then 9 else 8 := by
    have hiff : (cfg.ucr.setWidth 16 &&& (Usart.bmBit9 &&& Usart.bmParity <<< (1 : Nat)) = 0) ↔
        cfg.nineBits = false := @and_eq_zero_iff cfg.ucr 4 (by decide)
    simp only [hiff]
    cases cfg.nineBits <;> rfl
  have hstops : (if cfg.ucr.setWidth 16 &&& Usart.bmSPB = 0 then 1 else 2) = cfg.stops := by
    have hiff : cfg.ucr.setWidth 16 &&& Usart.bmSPB = 0 ↔ cfg.ucr.getLsbD 2 = false :=
      @and_eq_zero_iff cfg.ucr 2 (by decide)
    unfold UsartConfig.stops
    simp only [hiff]
    cases cfg.ucr.getLsbD 2 <;> rfl
  have hflush : ¬ (cfg.ucr.setWidth 16 &&& Usart.bmFlush = 1) := by
    intro h
    have hbit := congrArg (fun x : TMem => x.getLsbD 0) h
    simp [Usart.bmFlush] at hbit
  have hlevels (st : UsartSt) : Usart.setLevels (cfg.ucr.setWidth 16) st
      = update (fun u => { u with startBitLevel := cfg.startLevel, stopBitLevel := cfg.stopLevel }) st := by
    have hmask : cfg.ucr.setWidth 16 &&& (Usart.bmStart ||| Usart.bmStop) = (cfg.ucr &&& 0x03).setWidth 16 := by
      rw [BitVec.setWidth_and]
      rfl
    have hstart : cfg.startLevel = (cfg.ucr &&& 0x03).getLsbD 0 := by simp [UsartConfig.startLevel]
    have hstop : cfg.stopLevel = (cfg.ucr &&& 0x03).getLsbD 1 := by
      have hone : (0x03 : BitVec 8).getLsbD 1 = true := by decide
      rw [BitVec.getLsbD_and, hone, Bool.and_true]
      rfl
    unfold Usart.setLevels
    rw [hmask, hstart, hstop]
    rcases cfg.distinct with h | h
    · rw [h]
      rfl
    · rw [h]
      rfl
  unfold Usart.writeUcr
  dsimp only
  rw [if_neg hflush, hlevels, hnumber, hstops]
  rfl

/-- The registers are set up by the program. -/
theorem setUp_start (st : UsartSt) : SetUp cfg (start cfg st).st := by
  have hst : (start cfg st).st = store (Usart.cell_uXucr cfg.k) (cfg.ucr.setWidth 16) (update (fun u =>
      { u with
        BitNumber := if cfg.nineBits then 9 else 8
        startBitLevel := cfg.startLevel
        stopBitLevel := cfg.stopLevel
        StopBits := cfg.stops }) (store (Usart.cell_uXgcr cfg.k) (cfg.gcr.setWidth 16) (Usart.reset st))) := by
    unfold start
    rw [Usart.writeReg_ucr, Usart.writeReg_gcr, writeUcr_eq]
  rw [hst]
  refine ⟨rfl, rfl, rfl, rfl, (Function.update_self _ _ _).trans ?_⟩
  apply byte_and
  rw [BitVec.toNat_setWidth_of_le (by decide)]
  exact cfg.ucr.isLt

theorem invariant_start (st : UsartSt) : Invariant cfg (start cfg st) := by
  have hidle : (start cfg st).st.hw.TX = false := by
    unfold start
    rw [Usart.writeReg_ucr, Usart.writeReg_gcr, writeUcr_eq]
    rfl
  refine ⟨setUp_start cfg st, fun _ => ?_, fun hbusy => ?_⟩
  · refine ⟨?_, rfl⟩
    unfold start
    rw [Usart.writeReg_ucr, Usart.writeReg_gcr, writeUcr_eq]
    rfl
  · rw [hidle] at hbusy
    cases hbusy

/-! ## Writing a byte -/

variable {cfg}

theorem setWidth_and_ff (b : BitVec 8) : b.setWidth 16 &&& (0xff : TMem) = b.setWidth 16 := by
  apply byte_and
  rw [BitVec.toNat_setWidth_of_le (by decide)]
  exact b.isLt

/-- The set-up does not change with `UxDBUF`. -/
theorem SetUp.store_dbuf {st : UsartSt} (h : SetUp cfg st) (v : TMem) :
    SetUp cfg (store (Usart.cell_uXdbuf cfg.k) v st) := by
  have hne : Usart.cell_uXucr cfg.k ≠ Usart.cell_uXdbuf cfg.k := by cases cfg.k <;> decide
  exact ⟨h.BitNumber, h.StopBits, h.startBitLevel, h.stopBitLevel, (store_mem_of_ne hne v).trans h.ucr⟩

/-- The first byte after a pause is taken at once. -/
theorem writeDbuf_idle {st : UsartSt} (h : SetUp cfg st) (hTX : st.hw.TX = false) (b : BitVec 8) :
    ∃ TxParity, (cfg.nineBits → TxParity = cfg.parityBit b) ∧
      (Usart.writeDbuf cfg.k (b.setWidth 16) st).hw = { st.hw with
        TX := true, regForTx := b.setWidth 16, bitTxCnt := 0, TxParity := TxParity } ∧
      SetUp cfg (Usart.writeDbuf cfg.k (b.setWidth 16) st) := by
  let taken := update (fun u => { u with bitTxCnt := 0 }) (setBit1 (Usart.cell_uXcsr cfg.k) Usart.bmActive
    (update (fun u => { u with TX := true, regForTx := b.setWidth 16 }) st))
  have hucr : taken.mem (Usart.cell_uXucr cfg.k) = st.mem (Usart.cell_uXucr cfg.k) := by
    have hne : Usart.cell_uXucr cfg.k ≠ Usart.cell_uXcsr cfg.k := by cases cfg.k <;> decide
    exact setBit1_mem_of_ne hne _
  have hset : SetUp cfg taken := ⟨h.BitNumber, h.StopBits, h.startBitLevel, h.stopBitLevel, hucr.trans h.ucr⟩
  have hwrite : Usart.writeDbuf cfg.k (b.setWidth 16) st = if taken.hw.BitNumber = 9 then
      update (fun u => { u with TxParity := Usart.parity_check cfg.k u.regForTx taken }) taken else taken := by
    unfold Usart.writeDbuf
    rw [hTX]
    rfl
  rw [hwrite, hset.BitNumber]
  cases hnine : cfg.nineBits with
  | true =>
    rw [if_pos (by rfl)]
    refine ⟨_, fun _ => hset.parity_check b, rfl, ?_⟩
    exact ⟨h.BitNumber, h.StopBits, h.startBitLevel, h.stopBitLevel, hucr.trans h.ucr⟩
  | false =>
    rw [if_neg (by decide)]
    exact ⟨st.hw.TxParity, fun h => (by cases h), rfl, hset⟩

theorem step_put_full {l : Line} (h : l.st.hw.TX ∧ l.st.hw.queue) (b : BitVec 8) : l.step cfg (.put b) = l :=
  if_pos h

theorem step_put {l : Line} (h : ¬ (l.st.hw.TX ∧ l.st.hw.queue)) (b : BitVec 8) : l.step cfg (.put b)
    = { l with
        st := store (Usart.cell_uXdbuf cfg.k) (b.setWidth 16) (Usart.writeDbuf cfg.k (b.setWidth 16) l.st)
        bytes := l.bytes ++ [b]
        first := if l.st.hw.TX then l.first else b } := by
  rw [← Usart.writeReg_dbuf]
  exact if_neg h

theorem step_shift_idle {l : Line} (h : l.st.hw.TX = false) : l.step cfg .shift = l :=
  if_neg (by rw [h]; decide)

theorem step_shift {l : Line} (h : l.st.hw.TX = true) : l.step cfg .shift
    = { l with
        st := Usart.Shift_out cfg.k l.st
        levels := l.levels ++ [(Usart.Shift_out cfg.k l.st).hw.TXD] } := if_pos h

theorem Invariant.put {l : Line} (h : Invariant cfg l) (b : BitVec 8) : Invariant cfg (l.step cfg (.put b)) := by
  by_cases hfull : l.st.hw.TX ∧ l.st.hw.queue
  · rw [step_put_full hfull]
    exact h
  · rw [step_put hfull]
    have hdbuf (st : UsartSt) : (store (Usart.cell_uXdbuf cfg.k) (b.setWidth 16) st).mem (Usart.cell_uXdbuf cfg.k)
        = b.setWidth 16 := (Function.update_self _ _ _).trans (setWidth_and_ff b)
    cases hTX : l.st.hw.TX with
    | false =>
      obtain ⟨TxParity, hparity, hhw, hset⟩ := writeDbuf_idle h.setUp hTX b
      refine ⟨hset.store_dbuf _, fun hidle => ?_, fun _ => ⟨l.bytes, b, ?_⟩⟩
      · rw [store_hw, hhw] at hidle
        cases hidle
      · obtain ⟨hqueue, hlevels⟩ := h.idle hTX
        refine ⟨.inl ⟨?_, rfl⟩, ?_, ?_, ?_, ?_⟩
        · rw [store_hw, hhw]
          exact hqueue
        · rw [store_hw, hhw]
          exact hlevels
        · rw [store_hw, hhw]
          exact Nat.lt_of_lt_of_le (Nat.succ_pos 9) cfg.frameLength_ge
        · rw [store_hw, hhw]
          simp
        · rw [store_hw, hhw]
          exact hparity
    | true =>
      have hqueue : l.st.hw.queue = false := by
        rw [hTX] at hfull
        simpa using hfull
      have hwrite : Usart.writeDbuf cfg.k (b.setWidth 16) l.st = update (fun u => { u with queue := true }) l.st :=
        if_pos hTX
      obtain ⟨done, cur, hbusy⟩ := h.busy hTX
      rw [hwrite]
      have hset : SetUp cfg (update (fun u => { u with queue := true }) l.st) :=
        ⟨h.setUp.BitNumber, h.setUp.StopBits, h.setUp.startBitLevel, h.setUp.stopBitLevel, h.setUp.ucr⟩
      refine ⟨hset.store_dbuf _, fun hidle => ?_, fun _ => ⟨done, cur, ?_⟩⟩
      · exact absurd (hTX.symm.trans hidle) (by decide)
      · have hbytes : l.bytes = done ++ [cur] := by
          rcases hbusy.bytes with ⟨-, h⟩ | ⟨next, h, -, -⟩
          · exact h
          · rw [hqueue] at h
            cases h
        refine ⟨.inr ⟨b, rfl, ?_, hdbuf _⟩, hbusy.levels, hbusy.count, hbusy.reg, ?_⟩
        · rw [hbytes, List.append_assoc]
          rfl
        · exact hbusy.parity

/-! ## Putting out a bit -/

theorem SetUp.length {st : UsartSt} (h : SetUp cfg st) : st.hw.BitNumber + st.hw.StopBits + 1 = cfg.frameLength := by
  rw [h.BitNumber, h.StopBits]
  unfold UsartConfig.frameLength
  cases cfg.nineBits with
  | true =>
    rw [if_pos rfl, if_pos rfl]
    omega
  | false =>
    rw [if_neg (by decide), if_neg (by decide)]
    omega

theorem shiftLeft_byte (x : BitVec 8) : x.setWidth 16 <<< (1 : Nat) &&& (0xFF : TMem) = (x <<< (1 : Nat)).setWidth 16 := by
  apply BitVec.eq_of_toNat_eq
  have hmask := Nat.and_two_pow_sub_one_eq_mod (x.toNat <<< 1 % 2 ^ 16) 8
  rw [BitVec.toNat_and, BitVec.toNat_shiftLeft, BitVec.toNat_setWidth_of_le (by decide),
    BitVec.toNat_setWidth_of_le (by decide), BitVec.toNat_shiftLeft]
  refine hmask.trans ?_
  omega

/-- A bit within a frame. -/
theorem Busy.next {l : Line} {done : List (BitVec 8)} {cur : BitVec 8} (h : Busy cfg l done cur) {st : UsartSt}
    (hcount : l.st.hw.bitTxCnt + 1 < cfg.frameLength) (hmem : st.mem = l.st.mem)
    (hqueue : st.hw.queue = l.st.hw.queue) (hcnt : st.hw.bitTxCnt = l.st.hw.bitTxCnt + 1)
    (hreg : st.hw.regForTx = (cur <<< l.st.hw.bitTxCnt).setWidth 16)
    (hparity : st.hw.TxParity = l.st.hw.TxParity) :
    Busy cfg { l with st := st, levels := l.levels ++ [st.hw.TXD] } done cur := by
  refine ⟨?_, ?_, ?_, ?_, ?_⟩
  · rw [hqueue, hmem]
    exact h.bytes
  · rw [List.length_append, h.levels, hcnt]
    rfl
  · rw [hcnt]
    exact hcount
  · rw [hcnt, hreg]
    rfl
  · rw [hparity]
    exact h.parity

theorem SetUp.shift {st : UsartSt} (h : SetUp cfg st) : SetUp cfg (Usart.Shift_out cfg.k st) := by
  have hucr (st : UsartSt) : (Usart.endFrame cfg.k st).mem (Usart.cell_uXucr cfg.k) = st.mem (Usart.cell_uXucr cfg.k) := by
    have hcsr : Usart.cell_uXucr cfg.k ≠ Usart.cell_uXcsr cfg.k := by cases cfg.k <;> decide
    have hircon2 : Usart.cell_uXucr cfg.k ≠ Usart.cell_ircon2 := by cases cfg.k <;> decide
    exact Usart.endFrame_mem cfg.k st hcsr hircon2
  by_cases hstart : st.hw.bitTxCnt = 0
  · rw [Usart.Shift_out_start cfg.k hstart]
    exact ⟨h.BitNumber, h.StopBits, h.startBitLevel, h.stopBitLevel, h.ucr⟩
  by_cases hdata : st.hw.bitTxCnt ≤ 8
  · rw [Usart.Shift_out_data cfg.k (by omega) hdata]
    exact ⟨h.BitNumber, h.StopBits, h.startBitLevel, h.stopBitLevel, h.ucr⟩
  have hlate : SetUp cfg (Usart.lateBit st) :=
    ⟨h.BitNumber, h.StopBits, h.startBitLevel, h.stopBitLevel, h.ucr⟩
  rw [Usart.Shift_out_late cfg.k (by omega)]
  split
  · have hend := (hucr (Usart.lateBit st)).trans hlate.ucr
    cases hqueue : (Usart.lateBit st).hw.queue with
    | false =>
      obtain ⟨informed, hhw⟩ := Usart.endFrame_idle cfg.k hqueue
      refine ⟨?_, ?_, ?_, ?_, hend⟩
      all_goals rw [hhw]
      exacts [h.BitNumber, h.StopBits, h.startBitLevel, h.stopBitLevel]
    | true =>
      obtain ⟨parity, informed, hhw⟩ := Usart.endFrame_next cfg.k hqueue
      refine ⟨?_, ?_, ?_, ?_, hend⟩
      all_goals rw [hhw]
      exacts [h.BitNumber, h.StopBits, h.startBitLevel, h.stopBitLevel]
  · exact hlate

/-- The last bit of a frame. -/
theorem Invariant.endFrame {l : Line} (h : Invariant cfg l) (hTX : l.st.hw.TX = true) {done : List (BitVec 8)}
    {cur : BitVec 8} (hbusy : Busy cfg l done cur) (hlate : 9 ≤ l.st.hw.bitTxCnt)
    (hlast : l.st.hw.bitTxCnt + 1 = cfg.frameLength) : Invariant cfg (l.step cfg .shift) := by
  have hge : l.st.hw.bitTxCnt ≥ l.st.hw.BitNumber + l.st.hw.StopBits := by
    have hlength := h.setUp.length
    omega
  have hout : Usart.Shift_out cfg.k l.st = Usart.endFrame cfg.k (Usart.lateBit l.st) := by
    rw [Usart.Shift_out_late cfg.k hlate, if_pos hge]
  have hset := h.setUp.shift
  have hlevels (x : Bool) : (l.levels ++ [x]).length = cfg.frameLength * (done.length + 1) := by
    rw [List.length_append, hbusy.levels, Nat.mul_add_one, ← hlast]
    rfl
  rw [step_shift hTX, hout]
  rw [hout] at hset
  rcases hbusy.bytes with ⟨hqueue, hbytes⟩ | ⟨next, hqueue, hbytes, hdbuf⟩
  · obtain ⟨informed, hhw⟩ := @Usart.endFrame_idle cfg.k (Usart.lateBit l.st) hqueue
    refine ⟨hset, fun _ => ⟨?_, ?_⟩, fun htx => ?_⟩
    · rw [hhw]
      exact hqueue
    · rw [hlevels, hbytes, List.length_append]
      rfl
    · rw [hhw] at htx
      cases htx
  · obtain ⟨parity, informed, hhw⟩ := @Usart.endFrame_next cfg.k (Usart.lateBit l.st) hqueue
    refine ⟨hset, fun htx => ?_, fun _ => ⟨done ++ [cur], next, ?_⟩⟩
    · rw [hhw] at htx
      cases htx
    · refine ⟨.inl ⟨?_, ?_⟩, ?_, ?_, ?_, ?_⟩
      · rw [hhw]
      · rw [hbytes, List.append_assoc]
        rfl
      · rw [hlevels, List.length_append, hhw]
        rfl
      · rw [hhw]
        exact Nat.lt_of_lt_of_le (Nat.succ_pos 9) cfg.frameLength_ge
      · rw [hhw]
        exact Eq.trans hdbuf (congrArg (BitVec.setWidth 16) (BitVec.shiftLeft_zero next).symm)
      · rw [hhw]
        exact hbusy.parity

theorem Invariant.shift {l : Line} (h : Invariant cfg l) : Invariant cfg (l.step cfg .shift) := by
  cases hTX : l.st.hw.TX with
  | false =>
    rw [step_shift_idle hTX]
    exact h
  | true =>
    obtain ⟨done, cur, hbusy⟩ := h.busy hTX
    have hset := h.setUp.shift
    have hlength := cfg.frameLength_ge
    have hwithin {st : UsartSt} (hout : Usart.Shift_out cfg.k l.st = st) (htx : st.hw.TX = true)
        (hnext : Busy cfg { l with st := st, levels := l.levels ++ [st.hw.TXD] } done cur) :
        Invariant cfg (l.step cfg .shift) := by
      rw [step_shift hTX, hout]
      rw [hout] at hset
      exact ⟨hset, fun hidle => absurd (htx.symm.trans hidle) (by decide), fun _ => ⟨done, cur, hnext⟩⟩
    by_cases hstart : l.st.hw.bitTxCnt = 0
    · refine hwithin (Usart.Shift_out_start cfg.k hstart) hTX (hbusy.next (by omega) rfl rfl rfl ?_ rfl)
      refine hbusy.reg.trans ?_
      rw [hstart]
    by_cases hdata : l.st.hw.bitTxCnt ≤ 8
    · refine hwithin (Usart.Shift_out_data cfg.k (by omega) hdata) hTX (hbusy.next (by omega) rfl rfl rfl ?_ rfl)
      have hshift : cur <<< l.st.hw.bitTxCnt = (cur <<< (l.st.hw.bitTxCnt - 1)) <<< (1 : Nat) := by
        rw [← BitVec.shiftLeft_add]
        congr 1
        omega
      rw [hshift, ← shiftLeft_byte, ← hbusy.reg]
      rfl
    by_cases hlast : l.st.hw.bitTxCnt + 1 = cfg.frameLength
    · exact h.endFrame hTX hbusy (by omega) hlast
    · have hcount := hbusy.count
      have hlt : ¬ l.st.hw.bitTxCnt ≥ l.st.hw.BitNumber + l.st.hw.StopBits := by
        have hlength := h.setUp.length
        omega
      have hout : Usart.Shift_out cfg.k l.st = Usart.lateBit l.st := by
        rw [Usart.Shift_out_late cfg.k (by omega), if_neg hlt]
      refine hwithin hout hTX (hbusy.next (by omega) rfl rfl rfl ?_ rfl)
      refine hbusy.reg.trans ?_
      rw [BitVec.shiftLeft_eq_zero (by omega), BitVec.shiftLeft_eq_zero (by omega)]

theorem Invariant.step {l : Line} (h : Invariant cfg l) (e : LineEvent) : Invariant cfg (l.step cfg e) := by
  cases e with
  | put b => exact h.put b
  | shift => exact h.shift

/-! ## The bit that is expected -/

theorem flatMap_length (bytes : List (BitVec 8)) :
    (bytes.flatMap cfg.frame).length = cfg.frameLength * bytes.length := by
  induction bytes with
  | nil => rfl
  | cons b bytes ih =>
    rw [List.flatMap_cons, List.length_append, ih, cfg.frame_length, List.length_cons, Nat.mul_add_one, Nat.add_comm]

/-- The bits of a frame one by one. -/
theorem frame_getElem? (b : BitVec 8) {n : Nat} (hn : n < cfg.frameLength) : (cfg.frame b)[n]? = some (
    if n = 0 then cfg.startLevel
    else if n ≤ 8 then (if cfg.gcr.getLsbD 5 then b.getLsbD (8 - n) else b.getLsbD (n - 1))
    else if n = 9 ∧ cfg.nineBits then cfg.parityBit b
    else cfg.stopLevel) := by
  have hdata : (cfg.dataBits b).length = 8 := by
    unfold UsartConfig.dataBits
    rw [List.length_map, List.length_range]
  have hstop {m : Nat} (hm : m < cfg.stops) : (List.replicate cfg.stops cfg.stopLevel)[m]? = some cfg.stopLevel :=
    List.getElem?_replicate_of_lt hm
  unfold UsartConfig.frameLength at hn
  unfold UsartConfig.frame
  rw [List.append_assoc, List.append_assoc]
  cases n with
  | zero => rfl
  | succ n =>
    rw [List.getElem?_append_right (Nat.le_add_left 1 n), List.length_singleton, Nat.add_sub_cancel,
      if_neg (Nat.succ_ne_zero n)]
    by_cases h8 : n + 1 ≤ 8
    · have hindex : 7 - n = 8 - (n + 1) := by omega
      have hbound : n < (cfg.dataBits b).length := hdata ▸ h8
      rw [List.getElem?_append_left hbound, if_pos h8]
      unfold UsartConfig.dataBits
      rw [List.getElem?_map, List.getElem?_range h8, Option.map_some, hindex]
    · rw [List.getElem?_append_right (by omega), hdata, if_neg h8]
      cases hnine : cfg.nineBits with
      | true =>
        rw [hnine, if_pos rfl] at hn
        by_cases h9 : n = 8
        · rw [h9]
          rfl
        · have hlate : n - 8 = (n - 9) + 1 := by omega
          have hno : ¬ (n + 1 = 9 ∧ true = true) := fun h => h9 (by omega)
          rw [hlate, if_neg hno]
          exact hstop (by omega)
      | false =>
        have hno : ¬ (n + 1 = 9 ∧ false = true) := fun h => Bool.false_ne_true h.2
        rw [hnine, if_neg Bool.false_ne_true] at hn
        rw [if_neg hno]
        exact hstop (by omega)

/-- The byte on the line is the one whose turn it is. -/
theorem Busy.current {l : Line} {done : List (BitVec 8)} {cur : BitVec 8} (h : Busy cfg l done cur) :
    l.current cfg = cur := by
  have hdiv : l.levels.length / cfg.frameLength = done.length := by
    have hpos : 0 < cfg.frameLength := Nat.lt_of_lt_of_le (Nat.succ_pos 9) cfg.frameLength_ge
    rw [h.levels, Nat.mul_add_div hpos, Nat.div_eq_of_lt h.count]
    rfl
  unfold Line.current
  rw [hdiv]
  rcases h.bytes with ⟨-, hbytes⟩ | ⟨next, -, hbytes, -⟩
  · rw [hbytes]
    simp
  · rw [hbytes]
    simp

/-- The levels of the line end inside the frame of this byte. -/
theorem Busy.expected {l : Line} {done : List (BitVec 8)} {cur : BitVec 8} (h : Busy cfg l done cur) :
    (l.bytes.flatMap cfg.frame)[l.levels.length]? = (cfg.frame cur)[l.st.hw.bitTxCnt]? := by
  have hsplit : ∃ rest, l.bytes.flatMap cfg.frame = done.flatMap cfg.frame ++ (cfg.frame cur ++ rest) := by
    rcases h.bytes with ⟨-, hbytes⟩ | ⟨next, -, hbytes, -⟩
    · exact ⟨[], by rw [hbytes]; simp⟩
    · exact ⟨cfg.frame next, by rw [hbytes]; simp⟩
  obtain ⟨rest, hrest⟩ := hsplit
  have hlen : (done.flatMap cfg.frame).length = cfg.frameLength * done.length := flatMap_length done
  rw [hrest, h.levels, ← hlen, List.getElem?_append_right (Nat.le_add_right _ _), Nat.add_sub_cancel_left,
    List.getElem?_append_left]
  rw [cfg.frame_length]
  exact h.count

/-- All frames are complete exactly if no byte is on the line. -/
theorem Invariant.idle_iff {l : Line} (h : Invariant cfg l) :
    l.st.hw.TX = false ↔ l.levels.length = (l.bytes.flatMap cfg.frame).length := by
  rw [flatMap_length]
  constructor
  · exact fun hTX => (h.idle hTX).2
  · intro hlength
    by_contra hTX
    obtain ⟨done, cur, hbusy⟩ := h.busy ((Bool.not_eq_false _).mp hTX)
    have hcount := hbusy.count
    have hmul : cfg.frameLength * done.length + cfg.frameLength ≤ cfg.frameLength * l.bytes.length := by
      rw [← Nat.mul_add_one]
      apply Nat.mul_le_mul_left
      rcases hbusy.bytes with ⟨-, hbytes⟩ | ⟨next, -, hbytes, -⟩
      · rw [hbytes]
        simp
      · rw [hbytes]
        simp
    rw [hbusy.levels] at hlength
    omega

theorem Invariant.framed_iff_levels {l : Line} (h : Invariant cfg l) :
    l.Framed cfg ↔ l.levels <+: l.bytes.flatMap cfg.frame :=
  ⟨fun hf => hf.levels, fun hlevels => ⟨hlevels, h.idle_iff⟩⟩

theorem prefix_concat_iff {α : Type} {l F : List α} (h : l <+: F) (x : α) : l ++ [x] <+: F ↔ F[l.length]? = some x := by
  obtain ⟨rest, rfl⟩ := h
  rw [List.prefix_append_right_inj, List.getElem?_append_right (Nat.le_refl _), Nat.sub_self]
  cases rest with
  | nil => simp
  | cons y rest => simp [eq_comm]

/-- The bit that is put out. -/
theorem shift_TXD {l : Line} (h : Invariant cfg l) {done : List (BitVec 8)} {cur : BitVec 8}
    (hbusy : Busy cfg l done cur) : (Usart.Shift_out cfg.k l.st).hw.TXD
      = if l.st.hw.bitTxCnt = 0 then cfg.startLevel
        else if l.st.hw.bitTxCnt ≤ 8 then cur.getLsbD (8 - l.st.hw.bitTxCnt)
        else if l.st.hw.bitTxCnt = 9 ∧ cfg.nineBits then cfg.parityBit l.first
        else cfg.stopLevel := by
  by_cases hstart : l.st.hw.bitTxCnt = 0
  · rw [if_pos hstart, Usart.Shift_out_start cfg.k hstart]
    exact h.setUp.startBitLevel
  by_cases hdata : l.st.hw.bitTxCnt ≤ 8
  · have hbit : (cur <<< (l.st.hw.bitTxCnt - 1)).getLsbD 7 = cur.getLsbD (8 - l.st.hw.bitTxCnt) := by
      have hindex : 7 - (l.st.hw.bitTxCnt - 1) = 8 - l.st.hw.bitTxCnt := by omega
      rw [BitVec.getLsbD_shiftLeft, hindex]
      simp
      omega
    have hmask := @and_eq_zero_iff (cur <<< (l.st.hw.bitTxCnt - 1)) 7 (by decide)
    rw [if_neg hstart, if_pos hdata, Usart.Shift_out_data cfg.k (by omega) hdata, ← hbit]
    change decide (l.st.hw.regForTx &&& (1 : TMem) <<< 7 ≠ 0) = _
    rw [hbusy.reg]
    cases hb : (cur <<< (l.st.hw.bitTxCnt - 1)).getLsbD 7 with
    | false => exact decide_eq_false fun h => h (hmask.mpr hb)
    | true =>
      refine decide_eq_true fun h => ?_
      rw [hmask.mp h] at hb
      cases hb
  have hlate : (Usart.Shift_out cfg.k l.st).hw.TXD = (Usart.lateBit l.st).hw.TXD := by
    rw [Usart.Shift_out_late cfg.k (by omega)]
    split
    · exact Usart.endFrame_TXD cfg.k _
    · rfl
  rw [hlate, if_neg hstart, if_neg hdata]
  change (if l.st.hw.BitNumber = 9 ∧ l.st.hw.bitTxCnt + 1 = 10 then l.st.hw.TxParity else l.st.hw.stopBitLevel) = _
  rw [h.setUp.BitNumber, h.setUp.stopBitLevel]
  cases hnine : cfg.nineBits with
  | true =>
    rw [hbusy.parity hnine]
    by_cases h9 : l.st.hw.bitTxCnt = 9
    · have hlast : (if true = true then 9 else 8) = 9 ∧ l.st.hw.bitTxCnt + 1 = 10 := ⟨rfl, by omega⟩
      rw [if_pos hlast, if_pos ⟨h9, rfl⟩]
    · have hlast : ¬ ((if true = true then 9 else 8) = 9 ∧ l.st.hw.bitTxCnt + 1 = 10) := fun h => h9 (by omega)
      rw [if_neg hlast, if_neg fun h => h9 h.1]
  | false =>
    rw [if_neg (fun h => absurd h.1 (by decide)), if_neg (fun h => absurd h.2 (by decide))]

/-! ## All sequences of bytes -/

theorem parityBit_inj (b c : BitVec 8) :
    cfg.parityBit b = cfg.parityBit c ↔ UsartConfig.oddOnes b = UsartConfig.oddOnes c := by
  unfold UsartConfig.parityBit
  split
  · rfl
  · exact Bool.not_inj_iff

/-- The next bit is the expected one exactly if it is not spoiled. -/
theorem shift_framed_iff {l : Line} (h : Invariant cfg l) (hf : l.Framed cfg) :
    (l.step cfg .shift).Framed cfg ↔ l.Unspoiled cfg .shift := by
  cases hTX : l.st.hw.TX with
  | false =>
    rw [step_shift_idle hTX]
    refine iff_of_true hf fun _ htx => ?_
    rw [hTX] at htx
    cases htx
  | true =>
    obtain ⟨done, cur, hbusy⟩ := h.busy hTX
    have hcount := hbusy.count
    rw [h.shift.framed_iff_levels, step_shift hTX]
    dsimp only
    rw [prefix_concat_iff hf.levels, hbusy.expected, frame_getElem? cur hcount, Option.some.injEq, shift_TXD h hbusy]
    unfold Unspoiled
    rw [hbusy.current]
    by_cases hstart : l.st.hw.bitTxCnt = 0
    · rw [if_pos hstart, if_pos hstart]
      exact iff_of_true rfl fun _ _ => ⟨fun hlo => by omega, fun h9 => by omega⟩
    rw [if_neg hstart, if_neg hstart]
    by_cases hdata : l.st.hw.bitTxCnt ≤ 8
    · rw [if_pos hdata, if_pos hdata]
      constructor
      · intro hbit _ _
        refine ⟨fun _ _ => ?_, fun h9 => by omega⟩
        by_cases horder : cfg.gcr.getLsbD 5 = true
        · exact .inl horder
        · rw [if_neg horder] at hbit
          exact .inr hbit.symm
      · intro hok
        rcases (hok rfl hTX).1 (by omega) hdata with horder | hmirror
        · rw [if_pos horder]
        · rw [hmirror, ite_self]
    rw [if_neg hdata, if_neg hdata]
    by_cases hparity : l.st.hw.bitTxCnt = 9 ∧ cfg.nineBits
    · rw [if_pos hparity, if_pos hparity, parityBit_inj]
      exact ⟨fun heq _ _ => ⟨fun _ hle => absurd hle hdata, fun _ _ => heq⟩,
        fun hok => (hok rfl hTX).2 hparity.1 hparity.2⟩
    · rw [if_neg hparity, if_neg hparity]
      exact iff_of_true rfl fun _ _ => ⟨fun _ hle => absurd hle hdata, fun h9 hnine => absurd ⟨h9, hnine⟩ hparity⟩

/-- A byte that is written only adds a frame to those that are expected. -/
theorem put_framed {l : Line} (h : Invariant cfg l) (hf : l.Framed cfg) (b : BitVec 8) :
    (l.step cfg (.put b)).Framed cfg := by
  rw [(h.put b).framed_iff_levels]
  by_cases hfull : l.st.hw.TX ∧ l.st.hw.queue
  · rw [step_put_full hfull]
    exact hf.levels
  · rw [step_put hfull]
    dsimp only
    rw [List.flatMap_append]
    exact hf.levels.trans (List.prefix_append _ _)

/-- The levels on the line are those of the frames in order, after each write and each bit, exactly if no bit
that is put out is spoiled. -/
theorem framed_iff (cfg : UsartConfig) (st : UsartSt) (es : List LineEvent) :
    (∀ p, p <+: es → (p.foldl (step cfg) (start cfg st)).Framed cfg) ↔
      ∀ p e, p ++ [e] <+: es → (p.foldl (step cfg) (start cfg st)).Unspoiled cfg e := by
  have hinit : (start cfg st).Framed cfg := (invariant_start cfg st).framed_iff_levels.mpr (List.nil_prefix)
  have hstep (s : Unit) (l : Line) (e : LineEvent) (h : Invariant cfg l) (hf : l.Framed cfg) :
      (l.step cfg e).Framed cfg ↔ l.Unspoiled cfg e := by
    cases e with
    | put b => exact iff_of_true (put_framed h hf b) fun heq => by cases heq
    | shift => exact shift_framed_iff h hf
  exact @agree_on_prefixes_iff LineEvent Line Unit (fun _ _ => ()) (step cfg) (fun _ l => l.Framed cfg)
    (Invariant cfg) (fun e l => l.Unspoiled cfg e) (fun l e h => h.step e) hstep () _ (invariant_start cfg st) hinit es

/-- With the lowest bit first, the highest one is put out. -/
theorem not_framed_lsbFirst : ¬ ∀ (cfg : UsartConfig) (st : UsartSt) (es : List LineEvent),
    (es.foldl (step cfg) (start cfg st)).Framed cfg := by
  intro h
  let cfg : UsartConfig := { k := .usart0, ucr := 0x02, gcr := 0x00, distinct := .inr rfl }
  have hframed := h cfg { mem := fun _ => 0, hw := default } [.put 0x01, .shift, .shift]
  exact absurd hframed.levels (by decide +kernel)

end Line

end Ucsim.S51
