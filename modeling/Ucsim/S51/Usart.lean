import Ucsim.S51.Element

/-!
# The transmitter of a USART

`cl_CC2530_usart` shifts the bytes that are written to `UxDBUF` out to `TXD`, bit by bit. The receiver, the
baud rates and the SPI mode are left out.
-/

namespace Ucsim.S51

open Logic ElementSt

/-- The two USARTs, by the `aid` of the constructor. -/
inductive UsartId
  | usart0 | usart1
  deriving DecidableEq, Repr

/-- The events that a USART informs its partners of at the end of a frame. -/
inductive UsartEvent
  | EV_UTX0 | EV_UTX1
  deriving DecidableEq, Repr

/-- The data of the transmitter. `informed` is what the partners have been told. -/
structure Usart where
  TXD : Bool
  TxParity : Bool
  parity : Bool
  stopBitLevel : Bool
  startBitLevel : Bool
  slave : Bool
  RX : Bool
  TX : Bool
  queue : Bool
  bitTxCnt : Nat
  BitNumber : Nat
  StopBits : Nat
  regForTx : TMem
  regForRx : TMem
  UsartID : Nat
  informed : List UsartEvent
  deriving Inhabited

/-- The transmitter and the memory. -/
abbrev UsartSt := ElementSt Usart

namespace Usart

def bmOrder : TMem := 0x20
def bmRe : TMem := 0x40
def bmSlave : TMem := 0x20
def bmTx_byte : TMem := 0x02
def bmActive : TMem := 0x01
def bmFlush : TMem := 0x80
def bmD9 : TMem := 0x20
def bmBit9 : TMem := 0x10
def bmParity : TMem := 0x08
def bmSPB : TMem := 0x04
def bmStop : TMem := 0x02
def bmStart : TMem := 0x01

/-! ## Registers -/

def cell_uXcsr : UsartId → Site
  | .usart0 => .sfr 0x86
  | .usart1 => .sfr 0xF8

def cell_uXdbuf : UsartId → Site
  | .usart0 => .sfr 0xC1
  | .usart1 => .sfr 0xF9

def cell_uXucr : UsartId → Site
  | .usart0 => .sfr 0xC4
  | .usart1 => .sfr 0xFB

def cell_uXgcr : UsartId → Site
  | .usart0 => .sfr 0xC5
  | .usart1 => .sfr 0xFC

def cell_ircon2 : Site := .sfr 0xE8

def bmUTXxIF : UsartId → TMem
  | .usart0 => 0x02
  | .usart1 => 0x04

/-! ## Transmission -/

/-- `parity_check`. -/
def parity_check (k : UsartId) (byte : TMem) (st : UsartSt) : Bool :=
  let check := (List.range 7).foldl (fun check (i : Nat) => check ^^^ (byte >>> (i + 1) &&& 0x01)) (byte &&& 0x01)
  if st.mem (cell_uXucr k) &&& bmD9 = 0 then decide (check = 0) else !decide (check = 0)

/-- The test `(cell_uXgcr && bmOrder) == 0`, of a pointer that is set and a mask. -/
def lsbFirst : Bool := (true && decide (bmOrder ≠ 0)) == false

/-- A bit of the byte is put out. -/
def shiftBit : UsartSt → UsartSt := update fun u =>
  if lsbFirst then { u with TXD := decide (u.regForTx &&& 0x01 = 1), regForTx := u.regForTx >>> (1 : Nat) &&& 0xFF }
  else { u with TXD := decide (u.regForTx &&& 0x80 ≠ 0), regForTx := u.regForTx <<< (1 : Nat) &&& 0xFF }

/-- What follows the last bit of a frame: the byte that waits is taken, or the USART is not active any
more. -/
def nextByte (k : UsartId) (st : UsartSt) : UsartSt :=
  if st.hw.queue then
    let st := update (fun u => { u with
      TX := true, regForTx := st.mem (cell_uXdbuf k), bitTxCnt := 0, queue := false }) st
    if st.hw.BitNumber = 9 then update (fun u => { u with parity := parity_check k u.regForTx st }) st else st
  else setBit0 (cell_uXcsr k) bmActive st

/-- The end of a frame. -/
def endFrame (k : UsartId) (st : UsartSt) : UsartSt :=
  let st := update (fun u => { u with TX := false, bitTxCnt := 0 }) st
  let st := setBit1 cell_ircon2 (bmUTXxIF k) (setBit1 (cell_uXcsr k) bmTx_byte st)
  let e := if st.hw.UsartID = 0 then UsartEvent.EV_UTX0 else .EV_UTX1
  nextByte k (update (fun u => { u with informed := u.informed ++ [e] }) st)

/-- `Shift_out(regForTx, TXD)`. -/
def Shift_out (k : UsartId) (st : UsartSt) : UsartSt :=
  let st := update (fun u => { u with bitTxCnt := u.bitTxCnt + 1 }) st
  if st.hw.bitTxCnt ≤ 1 then update (fun u => { u with TXD := u.startBitLevel }) st
  else if st.hw.bitTxCnt < 10 then shiftBit st
  else
    let st := update (fun u =>
      { u with TXD := if u.BitNumber = 9 ∧ u.bitTxCnt = 10 then u.TxParity else u.stopBitLevel }) st
    if st.hw.bitTxCnt ≥ st.hw.BitNumber + st.hw.StopBits + 1 then endFrame k st else st

/-! ## Registers that are written -/

/-- The branch of `write` for `UxDBUF`. -/
def writeDbuf (k : UsartId) (v : TMem) (st : UsartSt) : UsartSt :=
  if st.hw.TX then update (fun u => { u with queue := true }) st
  else
    let st := setBit1 (cell_uXcsr k) bmActive (update (fun u => { u with TX := true, regForTx := v }) st)
    let st := update (fun u => { u with bitTxCnt := 0 }) st
    if st.hw.BitNumber = 9 then update (fun u => { u with TxParity := parity_check k u.regForTx st }) st else st

/-- The branch of `write` for `UxCSR`. -/
def writeCsr (k : UsartId) (v : TMem) (st : UsartSt) : UsartSt :=
  let st := if v &&& bmRe ≠ 0 then setBit1 (cell_uXcsr k) bmActive (update (fun u => { u with RX := true }) st) else st
  if v &&& bmSlave ≠ 0 then update (fun u => { u with slave := true }) st else st

/-- The levels of the start bit and of the stop bits. Equal levels are refused. -/
def setLevels (v : TMem) : UsartSt → UsartSt := update fun u =>
  if v &&& (bmStart ||| bmStop) = 1 then { u with startBitLevel := true, stopBitLevel := false }
  else if v &&& (bmStart ||| bmStop) = 2 then { u with startBitLevel := false, stopBitLevel := true }
  else u

/-- The branch of `write` for `UxUCR`. The test for the flush bit never holds: this bit is not the lowest. -/
def writeUcr (k : UsartId) (v : TMem) (st : UsartSt) : UsartSt :=
  let st := update (fun u => { u with BitNumber := if v &&& (bmBit9 &&& bmParity <<< (1 : Nat)) = 0 then 8 else 9 }) st
  let st := setLevels v st
  let st := update (fun u => { u with StopBits := if v &&& bmSPB = 0 then 1 else 2 }) st
  if v &&& bmFlush = 1 then
    let st := update (fun u => { u with TX := false, RX := false }) (setBit0 (cell_uXcsr k) bmActive st)
    update (fun u => { u with regForTx := 0, regForRx := 0 }) (store (cell_uXdbuf k) 0 st)
  else st

/-- `write`. The branches of `UxBAUD` and `UxGCR` change the baud rate only. -/
def write (k : UsartId) (c : Site) (v : TMem) (st : UsartSt) : UsartSt :=
  if c = cell_uXdbuf k then writeDbuf k v st
  else if c = cell_uXcsr k then writeCsr k v st
  else if c = cell_uXucr k then writeUcr k v st
  else st

/-- The program writes a register. The byte is stored behind the callback. -/
def writeReg (k : UsartId) (c : Site) (v : TMem) (st : UsartSt) : UsartSt := store c v (write k c v st)

/-! ## What a bit changes -/

theorem Shift_out_start (k : UsartId) {st : UsartSt} (h : st.hw.bitTxCnt = 0) : Shift_out k st
    = update (fun u => { u with bitTxCnt := u.bitTxCnt + 1, TXD := u.startBitLevel }) st := by
  have hfirst : st.hw.bitTxCnt + 1 ≤ 1 := by omega
  exact if_pos hfirst

theorem Shift_out_data (k : UsartId) {st : UsartSt} (hlo : 1 ≤ st.hw.bitTxCnt) (hhi : st.hw.bitTxCnt ≤ 8) :
    Shift_out k st = update (fun u => { u with
      bitTxCnt := u.bitTxCnt + 1
      TXD := decide (u.regForTx &&& 0x80 ≠ 0)
      regForTx := u.regForTx <<< (1 : Nat) &&& 0xFF }) st := by
  have hfirst : ¬ st.hw.bitTxCnt + 1 ≤ 1 := by omega
  have hdata : st.hw.bitTxCnt + 1 < 10 := by omega
  exact (if_neg hfirst).trans (if_pos hdata)

/-- The parity bit or a stop bit, before it is known whether the frame ends. -/
def lateBit : UsartSt → UsartSt := update fun u =>
  { u with
    bitTxCnt := u.bitTxCnt + 1
    TXD := if u.BitNumber = 9 ∧ u.bitTxCnt + 1 = 10 then u.TxParity else u.stopBitLevel }

theorem Shift_out_late (k : UsartId) {st : UsartSt} (h : 9 ≤ st.hw.bitTxCnt) : Shift_out k st
    = if st.hw.bitTxCnt ≥ st.hw.BitNumber + st.hw.StopBits then endFrame k (lateBit st) else lateBit st := by
  have hfirst : ¬ st.hw.bitTxCnt + 1 ≤ 1 := by omega
  have hdata : ¬ st.hw.bitTxCnt + 1 < 10 := by omega
  have hiff : st.hw.bitTxCnt ≥ st.hw.BitNumber + st.hw.StopBits ↔
      st.hw.bitTxCnt + 1 ≥ st.hw.BitNumber + st.hw.StopBits + 1 := by omega
  refine (if_neg hfirst).trans ((if_neg hdata).trans ?_)
  simp only [hiff]
  rfl

/-- The cells that the end of a frame changes. -/
theorem endFrame_mem (k : UsartId) (st : UsartSt) {c : Site} (hcsr : c ≠ cell_uXcsr k) (hircon2 : c ≠ cell_ircon2) :
    (endFrame k st).mem c = st.mem c := by
  have hnext (st : UsartSt) : (nextByte k st).mem c = st.mem c := by
    unfold nextByte
    split
    · dsimp only
      split <;> rfl
    · exact setBit0_mem_of_ne hcsr _
  unfold endFrame
  rw [hnext]
  exact (setBit1_mem_of_ne hircon2 _).trans (setBit1_mem_of_ne hcsr _)

/-- No byte waits at the end of a frame. -/
theorem endFrame_idle (k : UsartId) {st : UsartSt} (h : st.hw.queue = false) : ∃ informed,
    (endFrame k st).hw = { st.hw with TX := false, bitTxCnt := 0, informed := informed } := by
  refine ⟨_, congrArg Store.hw (if_neg ?_)⟩
  rw [← Bool.not_eq_true] at h
  exact h

/-- The byte that waits is taken. Its parity is not the one that is put out. -/
theorem nextByte_queue (k : UsartId) {st : UsartSt} (h : st.hw.queue = true) : ∃ parity,
    (nextByte k st).hw = { st.hw with
      TX := true, regForTx := st.mem (cell_uXdbuf k), bitTxCnt := 0, queue := false, parity := parity } := by
  unfold nextByte
  rw [if_pos h]
  dsimp only
  split
  · exact ⟨_, rfl⟩
  · exact ⟨st.hw.parity, rfl⟩

theorem endFrame_next (k : UsartId) {st : UsartSt} (h : st.hw.queue = true) : ∃ parity informed,
    (endFrame k st).hw = { st.hw with
      TX := true, regForTx := st.mem (cell_uXdbuf k), bitTxCnt := 0, queue := false, parity := parity
      informed := informed } := by
  let ended := setBit1 cell_ircon2 (bmUTXxIF k)
    (setBit1 (cell_uXcsr k) bmTx_byte (update (fun u => { u with TX := false, bitTxCnt := 0 }) st))
  have hmem : ended.mem (cell_uXdbuf k) = st.mem (cell_uXdbuf k) := by
    have hircon2 : cell_uXdbuf k ≠ cell_ircon2 := by cases k <;> decide
    have hcsr : cell_uXdbuf k ≠ cell_uXcsr k := by cases k <;> decide
    exact (setBit1_mem_of_ne hircon2 _).trans (setBit1_mem_of_ne hcsr _)
  let e := if ended.hw.UsartID = 0 then UsartEvent.EV_UTX0 else .EV_UTX1
  let told := update (fun u => { u with informed := u.informed ++ [e] }) ended
  obtain ⟨parity, hnext⟩ := @nextByte_queue k told h
  refine ⟨parity, told.hw.informed, ?_⟩
  rw [← hmem]
  exact hnext

/-- The level of the last bit stays. -/
theorem endFrame_TXD (k : UsartId) (st : UsartSt) : (endFrame k st).hw.TXD = st.hw.TXD := by
  cases h : st.hw.queue with
  | false =>
    obtain ⟨informed, hhw⟩ := endFrame_idle k h
    rw [hhw]
  | true =>
    obtain ⟨parity, informed, hhw⟩ := endFrame_next k h
    rw [hhw]

theorem writeReg_dbuf (k : UsartId) (v : TMem) (st : UsartSt) :
    writeReg k (cell_uXdbuf k) v st = store (cell_uXdbuf k) v (writeDbuf k v st) := by
  rw [writeReg, write, if_pos rfl]

theorem writeReg_ucr (k : UsartId) (v : TMem) (st : UsartSt) :
    writeReg k (cell_uXucr k) v st = store (cell_uXucr k) v (writeUcr k v st) := by
  have hdbuf : cell_uXucr k ≠ cell_uXdbuf k := by cases k <;> decide
  have hcsr : cell_uXucr k ≠ cell_uXcsr k := by cases k <;> decide
  rw [writeReg, write, if_neg hdbuf, if_neg hcsr, if_pos rfl]

theorem writeReg_gcr (k : UsartId) (v : TMem) (st : UsartSt) :
    writeReg k (cell_uXgcr k) v st = store (cell_uXgcr k) v st := by
  have hdbuf : cell_uXgcr k ≠ cell_uXdbuf k := by cases k <;> decide
  have hcsr : cell_uXgcr k ≠ cell_uXcsr k := by cases k <;> decide
  have hucr : cell_uXgcr k ≠ cell_uXucr k := by cases k <;> decide
  rw [writeReg, write, if_neg hdbuf, if_neg hcsr, if_neg hucr]

/-- `reset`. -/
def reset : UsartSt → UsartSt := update fun u =>
  { u with
    stopBitLevel := true, startBitLevel := false, TXD := true, parity := false, slave := false
    RX := false, TX := false, bitTxCnt := 0, BitNumber := 0, StopBits := 0, queue := false, UsartID := 0 }

end Usart

end Ucsim.S51
