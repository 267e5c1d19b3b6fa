import Mathlib.Tactic.Ring
import Ucsim.S51.Dma

/-!
# Block transfers of the DMA controller

A channel in block mode moves all of its units after one trigger, one unit a tick.
-/

namespace Ucsim.S51

open Logic

/-- An address of `xram` that shows no special function register. -/
def PlainXram (a : Int) : Prop := 0 ≤ a ∧ a < 0x10000 ∧ ¬ (0x7080 ≤ a ∧ a < 0x7100)

instance (a : Int) : Decidable (PlainXram a) := inferInstanceAs (Decidable (_ ∧ _ ∧ ¬ _))

theorem PlainXram.site_ne {a : Int} (h : PlainXram a) (m : TMem) (r : Int) :
    xramByte m a ≠ .sfr r := by
  unfold xramByte sramByte bankByte Site.sfr
  obtain ⟨-, -, hsfr⟩ := h
  rw [if_neg hsfr]
  intro heq
  split at heq
  · split at heq <;> simp at heq
  · split at heq
    · rw [Site.cell.injEq] at heq
      have hbank : ∀ k, (Space.flashbank k).getD .xram ≠ .sfr := by
        intro k
        cases hk : Space.flashbank k with
        | none => simp
        | some bank =>
          intro hbank
          obtain ⟨hcode, -, -⟩ := flashbank_code hk
          rw [show bank = Space.sfr from hbank] at hcode
          exact absurd hcode (by decide)
      exact hbank _ heq.1
    · simp at heq

theorem PlainXram.valid {a : Int} (h : PlainXram a) : ¬ Space.xram.invalid a :=
  Space.not_invalid h.1 (by simpa [Space.startAddress, Space.size] using h.2.1)

/-- The byte at an address of `xram` is copied to another. -/
def copyByte (mem : Site → TMem) (p : Int × Int) : Site → TMem :=
  Function.update mem (xramByte (mem mcon) p.2) (mem (xramByte (mem mcon) p.1) &&& 0xff)

namespace DMAchannel

/-- The bytes of one transfer. -/
def moves (ch : DMAchannel) : List (Int × Int) :=
  (ch.s, ch.d) :: if ch.Byte_Word_tx = 1 then
    [if ch.DESTinc ≥ 0 then (ch.s + 1, ch.d + 1) else (ch.s - 1, ch.d - 1)] else []

/-- The history of moves. -/
def moveCalls (l : List (Int × Int)) : List DmaCall := l.map fun p => .move p.1 p.2

/-- The channel after the bytes `l` of a transfer have been moved. -/
def counted (l : List (Int × Int)) (ch : DMAchannel) : DMAchannel :=
  { ch with calls := ch.calls ++ moveCalls l }.updateCounters

end DMAchannel

namespace Dma

open DMAchannel

theorem setChannel_setChannel (i : Fin 5) (f g : DMAchannel → DMAchannel) (st : DmaSt) :
    setChannel i g (setChannel i f st) = setChannel i (fun ch => g (f ch)) st := by
  unfold setChannel
  simp

/-! ## One transfer -/

/-- A byte that goes to no register. -/
theorem move_plain (i : Fin 5) (src : Int) {dst : Int} (h : PlainXram dst) (st : DmaSt) :
    move i src dst st
      = some (setChannel i (log (.move src dst)) { st with mem := copyByte st.mem (src, dst) }) := by
  have hchannel (val : TMem) (j : Fin 5) (ch : DMAchannel) :
      writeChannel (xramByte (st.mem mcon) dst) val j ch = ch := by
    unfold writeChannel
    rw [if_neg (h.site_ne _ _), if_neg (h.site_ne _ _), if_neg (h.site_ne _ _)]
  have hacc : xramByte (st.mem mcon) dst ≠ acc := h.site_ne _ _
  unfold move Element.xramWrite
  rw [if_neg h.valid, setChannel_mem, writeCell_eq]
  simp only [hchannel, setChannel_mem, stored, if_neg hacc]
  rfl

theorem transfer_plain (i : Fin 5) (st : DmaSt) (h : ∀ p ∈ (st.hw.tabDMACh i).moves, PlainXram p.2) :
    transfer i st = some (setChannel i (counted (st.hw.tabDMACh i).moves)
      { st with mem := (st.hw.tabDMACh i).moves.foldl copyByte st.mem }) := by
  generalize hch : st.hw.tabDMACh i = ch at h
  have hfirst : PlainXram ch.d := h (ch.s, ch.d) List.mem_cons_self
  unfold transfer
  rw [hch, move_plain i ch.s hfirst, Option.bind_eq_bind, Option.bind_some]
  unfold moveSecond
  rw [setChannel_self]
  dsimp only
  rw [hch]
  have hmoves : ch.moves = (ch.s, ch.d) :: if ch.Byte_Word_tx = 1 then
      [if ch.DESTinc ≥ 0 then (ch.s + 1, ch.d + 1) else (ch.s - 1, ch.d - 1)] else [] := rfl
  -- The bytes of a word go up or down.
  have hlast (src dst : Int) (hdst : PlainXram dst) (hl : ch.moves = [(ch.s, ch.d), (src, dst)]) :
      (move i src dst (setChannel i (log (.move ch.s ch.d))
          { st with mem := copyByte st.mem (ch.s, ch.d) })).bind (fun st => some (setChannel i updateCounters st))
        = some (setChannel i (counted ch.moves) { st with mem := ch.moves.foldl copyByte st.mem }) := by
    rw [move_plain i src hdst, Option.bind_some, setChannel_setChannel, setChannel_mem, hl]
    unfold setChannel
    simp [hch, counted, moveCalls, log]
  rw [hmoves] at h
  by_cases hword : ch.Byte_Word_tx = 1
  · rw [if_pos hword] at h hmoves
    have hword' : (log (.move ch.s ch.d) ch).Byte_Word_tx = 1 := hword
    rw [if_pos hword']
    by_cases hinc : ch.DESTinc ≥ 0
    · rw [if_pos hinc] at h hmoves
      have hinc' : (log (.move ch.s ch.d) ch).DESTinc ≥ 0 := hinc
      rw [if_pos hinc']
      exact hlast _ _ (h _ (List.mem_cons_of_mem _ List.mem_cons_self)) hmoves
    · rw [if_neg hinc] at h hmoves
      have hinc' : ¬ (log (.move ch.s ch.d) ch).DESTinc ≥ 0 := hinc
      rw [if_neg hinc']
      exact hlast _ _ (h _ (List.mem_cons_of_mem _ List.mem_cons_self)) hmoves
  · rw [if_neg hword] at hmoves
    have hword' : ¬ (log (.move ch.s ch.d) ch).Byte_Word_tx = 1 := hword
    rw [if_neg hword', Option.bind_some, hmoves]
    unfold setChannel
    simp [hch, counted, moveCalls, log]

/-! ## Histories grow -/

/-- The histories of the channels grow. -/
def Grows (st st' : DmaSt) : Prop := ∀ j, (st.hw.tabDMACh j).calls <+: (st'.hw.tabDMACh j).calls

theorem Grows.refl (st : DmaSt) : Grows st st := fun _ => List.prefix_refl _

theorem Grows.trans {st st' st'' : DmaSt} (h : Grows st st') (h' : Grows st' st'') : Grows st st'' :=
  fun j => (h j).trans (h' j)

theorem Grows.setChannel {f : DMAchannel → DMAchannel} (hf : ∀ ch, ch.calls <+: (f ch).calls) (i : Fin 5)
    (st : DmaSt) : Grows st (setChannel i f st) := by
  intro j
  by_cases hj : j = i
  · subst hj
    rw [setChannel_self]
    exact hf _
  · rw [setChannel_of_ne hj]

theorem calls_log (call : DmaCall) (ch : DMAchannel) : ch.calls <+: (log call ch).calls :=
  List.prefix_append _ _

theorem calls_writeChannel (c : Site) (val : TMem) (i : Fin 5) (ch : DMAchannel) :
    ch.calls <+: (writeChannel c val i ch).calls := by
  unfold writeChannel
  split
  · split
    · exact calls_log _ _
    · exact List.prefix_refl _
  · split
    · split
      · exact (calls_log _ _).trans (calls_log _ _)
      · exact calls_log _ _
    · split
      · split <;> exact List.prefix_refl _
      · exact List.prefix_refl _

/-- A byte that is moved is in the history. -/
theorem move_grows {i : Fin 5} {src dst : Int} {st st' : DmaSt} (h : move i src dst st = some st') :
    Grows (setChannel i (log (.move src dst)) st) st' := by
  unfold move Element.xramWrite at h
  split at h
  · cases h
  · rw [writeCell_eq, Option.some.injEq] at h
    subst h
    exact fun j => calls_writeChannel _ _ _ _

theorem moveSecond_grows {i : Fin 5} {st st' : DmaSt} (h : moveSecond i st = some st') : Grows st st' := by
  unfold moveSecond at h
  dsimp only at h
  split at h
  · split at h <;> exact (Grows.setChannel (calls_log _) i st).trans (move_grows h)
  · cases h
    exact Grows.refl _

theorem transfer_grows {i : Fin 5} {st st' : DmaSt} (h : transfer i st = some st') :
    Grows (setChannel i (log (.move (st.hw.tabDMACh i).s (st.hw.tabDMACh i).d)) st) st' := by
  unfold transfer at h
  obtain ⟨st₁, h₁, h⟩ := Option.bind_eq_some_iff.mp h
  obtain ⟨st₂, h₂, h⟩ := Option.bind_eq_some_iff.mp h
  rw [← Option.some.inj h]
  exact (move_grows h₁).trans ((moveSecond_grows h₂).trans (Grows.setChannel (f := updateCounters) (fun _ => calls_log _ _) i st₂))

theorem afterTransfer_grows (i : Fin 5) (st : DmaSt) : Grows st (afterTransfer i st) := by
  unfold afterTransfer
  dsimp only
  split
  · refine Grows.trans ?_ (Grows.setChannel (f := finish) (fun _ => calls_log _ _) i _)
    split <;> exact Grows.refl _
  · split
    · exact Grows.setChannel (f := enter _) (fun _ => List.prefix_refl _) i st
    · exact Grows.refl _

theorem calls_loadConfig (ObjInit : Bool) (byte : Int → TMem) (CFGaddr : Int) (ch : DMAchannel) :
    (ch.loadConfig ObjInit byte CFGaddr).calls = ch.calls := by
  unfold loadConfig
  cases ObjInit <;> rfl

theorem stateTrans_grows {i : Fin 5} {st st' : DmaSt} (h : stateTrans i st = some st') : Grows st st' := by
  unfold stateTrans at h
  dsimp only at h
  split at h
  · rw [← Option.some.inj h]
    split
    · exact Grows.setChannel (f := enter _) (fun _ => List.prefix_refl _) i st
    · exact Grows.refl _
  · rw [← Option.some.inj h]
    refine Grows.setChannel (fun ch => ?_) i st
    rw [enter, calls_loadConfig]
  · rw [← Option.some.inj h]
    split
    · exact Grows.setChannel (f := takeTrigger) (fun _ => List.prefix_refl _) i st
    · exact Grows.refl _
  · obtain ⟨st₁, h₁, rfl⟩ := Option.map_eq_some_iff.mp h
    exact (Grows.setChannel (calls_log _) i st).trans ((transfer_grows h₁).trans (afterTransfer_grows i st₁))
  · rw [← Option.some.inj h]
    exact Grows.setChannel (f := disarm) (fun _ => List.prefix_refl _) i st
  · cases h

theorem foldlM_grows {l : List (Fin 5)} {st st' : DmaSt}
    (h : l.foldlM (fun st i => stateTrans i st) st = some st') : Grows st st' := by
  induction l generalizing st with
  | nil =>
    rw [← Option.some.inj h]
    exact Grows.refl st
  | cons i l ih =>
    rw [List.foldlM_cons] at h
    obtain ⟨st₁, h₁, h⟩ := Option.bind_eq_some_iff.mp h
    exact (stateTrans_grows h₁).trans (ih h)

theorem tick_grows {st st' : DmaSt} (h : tick st = some st') : Grows st st' := by
  have hgrows : Grows (configChannelAddresses st) st' := foldlM_grows h
  exact hgrows

/-- Ticks, one after the other. -/
def ticks : Nat → DmaSt → Option DmaSt
  | 0, st => some st
  | n + 1, st => (tick st).bind (ticks n)

theorem ticks_succ (n : Nat) (st : DmaSt) : ticks (n + 1) st = (ticks n st).bind tick := by
  induction n generalizing st with
  | zero =>
    rw [ticks, ticks, Option.bind_some]
    exact Option.bind_fun_some (tick st)
  | succ n ih =>
    rw [ticks, ticks, Option.bind_assoc]
    exact congrArg _ (funext ih)

theorem ticks_grows {n : Nat} {st st' : DmaSt} (h : ticks n st = some st') : Grows st st' := by
  induction n generalizing st with
  | zero =>
    rw [← Option.some.inj h]
    exact Grows.refl st
  | succ n ih =>
    obtain ⟨st₁, h₁, h⟩ := Option.bind_eq_some_iff.mp h
    exact (tick_grows h₁).trans (ih h)

/-! ## One channel alone -/

/-- The other channels are idle. -/
def Alone (i : Fin 5) (st : DmaSt) : Prop :=
  ∀ j ≠ i, (st.hw.tabDMACh j).DmaChState = .DMAChannelIdle ∧ (st.hw.tabDMACh j).armed = false

theorem Alone.setChannel {i : Fin 5} {st : DmaSt} (h : Alone i st) (f : DMAchannel → DMAchannel) :
    Alone i (setChannel i f st) := by
  intro j hj
  rw [setChannel_of_ne hj]
  exact h j hj

theorem Alone.configChannelAddresses {i : Fin 5} {st : DmaSt} (h : Alone i st) :
    Alone i (configChannelAddresses st) := h

theorem foldlM_alone {i : Fin 5} {l : List (Fin 5)} (hl : i ∉ l) {st : DmaSt} (h : Alone i st) :
    l.foldlM (fun st j => stateTrans j st) st = some st := by
  induction l with
  | nil => rfl
  | cons j l ih =>
    rw [List.mem_cons, not_or] at hl
    obtain ⟨hstate, harmed⟩ := h j (Ne.symm hl.1)
    have hidle : stateTrans j st = some st := by
      rw [stateTrans_idle hstate, harmed]
      rfl
    rw [List.foldlM_cons, hidle]
    exact ih hl.2

/-- A tick looks at the channel, and at the idle ones before and after it. -/
theorem tick_alone {i : Fin 5} {st : DmaSt} (h : Alone i st) :
    ∃ l : List (Fin 5), i ∉ l ∧ tick st = (stateTrans i (configChannelAddresses st)).bind
      (fun st => l.foldlM (fun st j => stateTrans j st) st) := by
  obtain ⟨l, l', hl⟩ := List.append_of_mem (List.mem_finRange i)
  have hnodup := List.nodup_finRange 5
  rw [hl, List.nodup_append, List.nodup_cons] at hnodup
  obtain ⟨-, ⟨hi', -⟩, hdisj⟩ := hnodup
  have hi : i ∉ l := fun hmem => hdisj i hmem i List.mem_cons_self rfl
  refine ⟨l', hi', ?_⟩
  rw [tick, hl, List.foldlM_append, foldlM_alone hi h.configChannelAddresses]
  rfl

theorem tick_of_alone {i : Fin 5} {st st' : DmaSt} (h : Alone i st)
    (hstep : stateTrans i (configChannelAddresses st) = some st') (h' : Alone i st') :
    tick st = some st' := by
  obtain ⟨l, hl, htick⟩ := tick_alone h
  rw [htick, hstep]
  exact foldlM_alone hl h'

theorem tick_alone_grows {i : Fin 5} {st st' : DmaSt} (h : Alone i st) (htick : tick st = some st') :
    ∃ st₁, stateTrans i (configChannelAddresses st) = some st₁ ∧ Grows st₁ st' := by
  obtain ⟨l, -, hl⟩ := tick_alone h
  rw [hl] at htick
  obtain ⟨st₁, h₁, hrest⟩ := Option.bind_eq_some_iff.mp htick
  exact ⟨st₁, h₁, foldlM_grows hrest⟩

end Dma

/-! ## What a block transfer should do -/

namespace DMAchannel

/-- The bytes of a unit. -/
def unitSize (ch : DMAchannel) : Int := if ch.Byte_Word_tx = 1 then 2 else 1

/-- The bytes that unit `k` is to move: the increments count units. -/
def unitMoves (ch : DMAchannel) (k : Nat) : List (Int × Int) :=
  let src := ch.source + k * (ch.SRCinc * ch.unitSize)
  let dst := ch.destination + k * (ch.DESTinc * ch.unitSize)
  (src, dst) :: if ch.Byte_Word_tx = 1 then [(src + 1, dst + 1)] else []

/-- The bytes of the first `n` units. -/
def firstMoves (ch : DMAchannel) (n : Nat) : List (Int × Int) := (List.range n).flatMap ch.unitMoves

/-- The history of the first `n` units. -/
def firstCalls (ch : DMAchannel) (n : Nat) : List DmaCall :=
  (List.range n).flatMap fun k => moveCalls (ch.unitMoves k) ++ [.unit]

/-- The length of a transfer: `LEN`, or what the length byte says up to `LEN`. -/
def units (ch : DMAchannel) (length : TMem) : Nat :=
  (transferCount ch.VLEN ch.LEN (deltaOf ch.VLEN) length.toNat).toNat

theorem firstMoves_succ (ch : DMAchannel) (n : Nat) :
    ch.firstMoves (n + 1) = ch.firstMoves n ++ ch.unitMoves n := by
  rw [firstMoves, List.range_succ, List.flatMap_append, List.flatMap_singleton, firstMoves]

theorem firstCalls_succ (ch : DMAchannel) (n : Nat) :
    ch.firstCalls (n + 1) = ch.firstCalls n ++ (moveCalls (ch.unitMoves n) ++ [.unit]) := by
  rw [firstCalls, List.range_succ, List.flatMap_append, List.flatMap_singleton, firstCalls]

theorem firstCalls_mono (ch : DMAchannel) {m n : Nat} (h : m ≤ n) : ch.firstCalls m <+: ch.firstCalls n := by
  induction n, h using Nat.le_induction with
  | base => exact List.prefix_refl _
  | succ n _ ih =>
    rw [firstCalls_succ]
    exact ih.trans (List.prefix_append _ _)

/-- The condition on a configuration: there is something to move, and a word is moved upwards and is the
only one or stays where it is. -/
def BlockCond (ch : DMAchannel) (n : Nat) : Prop :=
  0 < n ∧ (ch.Byte_Word_tx = 1 → 0 ≤ ch.DESTinc ∧ (n = 1 ∨ ch.SRCinc = 0 ∧ ch.DESTinc = 0))

instance (ch : DMAchannel) (n : Nat) : Decidable (ch.BlockCond n) := inferInstanceAs (Decidable (_ ∧ (_ → _)))

end DMAchannel

namespace Dma

open DMAchannel

/-- The flags at the end of a transfer. -/
def flagged (i : Fin 5) (ITmask : Bool) (mem : Site → TMem) : Site → TMem :=
  let mem := Function.update mem (.sfr Reg.DMAIRQ) (mem (.sfr Reg.DMAIRQ) ||| (((1 : TMem) <<< (i : Nat)) &&& 0xff))
  if ITmask then
    Function.update mem (.sfr Reg.IRCON) (mem (.sfr Reg.IRCON) ||| (Reg.bmDMAIF &&& 0xff))
  else mem

/-- A channel that has been loaded from `CFGaddr` and triggered. -/
def readyChannel (st : DmaSt) (CFGaddr ConfigAddress : Int) (calls : List DmaCall) : DMAchannel :=
  { (init calls).loadConfig false (fun a => Element.xramRead a st) CFGaddr with
    DmaChState := .DMAChannelArmed
    triggered := true
    ConfigAddress := ConfigAddress }

/-- Channel `i` has been loaded from `CFGaddr` and triggered, and the other channels are idle. -/
structure Ready (i : Fin 5) (CFGaddr : Int) (st : DmaSt) : Prop where
  channel : ∃ ConfigAddress calls, st.hw.tabDMACh i = readyChannel st CFGaddr ConfigAddress calls
  alone : Alone i st

/-- The number of units of channel `i`. -/
def blockLength (i : Fin 5) (st : DmaSt) : Nat :=
  (st.hw.tabDMACh i).units (Element.xramRead (st.hw.tabDMACh i).source st)

/-- The units of channel `i` lie in `xram`, outside the special function registers. -/
def PlainBlock (i : Fin 5) (st : DmaSt) : Prop :=
  ∀ p ∈ (st.hw.tabDMACh i).firstMoves (blockLength i st), PlainXram p.1 ∧ PlainXram p.2

/-- After some ticks channel `i` is idle and disarmed, it has moved its units in order and then set its
bit of `DMAIRQ` once, and no other byte has changed. -/
def BlockCorrect (i : Fin 5) (st : DmaSt) : Prop :=
  ∃ n st', ticks n st = some st' ∧ (st'.hw.tabDMACh i).DmaChState = .DMAChannelIdle ∧
    (st'.hw.tabDMACh i).armed = false ∧
    (st'.hw.tabDMACh i).calls = (st.hw.tabDMACh i).calls ++
      ((st.hw.tabDMACh i).firstCalls (blockLength i st) ++ [.irq false]) ∧
    st'.mem = flagged i (st.hw.tabDMACh i).ITmask
      (((st.hw.tabDMACh i).firstMoves (blockLength i st)).foldl copyByte st.mem)

end Dma

/-! ## The ticks of a transfer -/

namespace DMAchannel

/-- The channel with another configuration address, which the ticks look up. -/
def withAddress (a : Int) (ch : DMAchannel) : DMAchannel := { ch with ConfigAddress := a }

/-- The channel after `k` units of its transfer. -/
def after (k : Nat) (ch : DMAchannel) : DMAchannel :=
  { ch with
    DmaChState := .TransferOneByteOrWord
    triggered := false
    s := ch.source + k * ch.SRCinc
    d := ch.destination + k * ch.DESTinc
    TransferCount := ch.TransferCount - k
    calls := ch.calls ++ ch.firstCalls k }

theorem after_zero {ch : DMAchannel} (hs : ch.s = ch.source) (hd : ch.d = ch.destination) :
    ch.after 0 = ch.takeTrigger := by
  simp [after, takeTrigger, enter, firstCalls, hs, hd]

/-- The increments count bytes, so that the bytes of unit `k` are the right ones only under the condition. -/
theorem moves_after {ch : DMAchannel} {n : Nat} (h : ch.BlockCond n) {k : Nat} (hk : k < n) :
    (ch.after k).moves = ch.unitMoves k := by
  have hmoves : (ch.after k).moves
      = (ch.source + k * ch.SRCinc, ch.destination + k * ch.DESTinc) :: if ch.Byte_Word_tx = 1 then
        [if ch.DESTinc ≥ 0 then (ch.source + k * ch.SRCinc + 1, ch.destination + k * ch.DESTinc + 1)
          else (ch.source + k * ch.SRCinc - 1, ch.destination + k * ch.DESTinc - 1)] else [] := rfl
  rw [hmoves, unitMoves, unitSize]
  by_cases hword : ch.Byte_Word_tx = 1
  · obtain ⟨hdest, hn | ⟨hsrc, hdst⟩⟩ := h.2 hword
    · obtain rfl : k = 0 := by omega
      simp [hword, hdest]
    · simp [hword, hsrc, hdst]
  · simp [hword]

/-- One more unit. -/
theorem counted_after (ch : DMAchannel) (k : Nat) (a : Int) :
    ((ch.after k).withAddress a).counted (ch.unitMoves k) = (ch.after (k + 1)).withAddress a := by
  have hs : ch.source + k * ch.SRCinc + ch.SRCinc = ch.source + (k + 1 : Nat) * ch.SRCinc := by
    push_cast
    ring
  have hd : ch.destination + k * ch.DESTinc + ch.DESTinc = ch.destination + (k + 1 : Nat) * ch.DESTinc := by
    push_cast
    ring
  have hcount : ch.TransferCount - k - 1 = ch.TransferCount - (k + 1 : Nat) := by
    push_cast
    ring
  have hcalls : ch.calls ++ ch.firstCalls k ++ moveCalls (ch.unitMoves k) ++ [DmaCall.unit]
      = ch.calls ++ ch.firstCalls (k + 1) := by
    rw [firstCalls_succ, List.append_assoc, List.append_assoc]
  unfold after
  rw [← hs, ← hd, ← hcount, ← hcalls]
  rfl

end DMAchannel

namespace Dma

open DMAchannel

variable {i : Fin 5} {st : DmaSt}

theorem configChannelAddresses_mem (st : DmaSt) : (configChannelAddresses st).mem = st.mem := rfl

theorem configChannelAddresses_channel (i : Fin 5) (st : DmaSt) :
    ∃ a, (configChannelAddresses st).hw.tabDMACh i = (st.hw.tabDMACh i).withAddress a := ⟨_, rfl⟩

/-- `k` units have been moved, and the transfer goes on. -/
structure Progress (i : Fin 5) (st : DmaSt) (k : Nat) (st' : DmaSt) : Prop where
  channel : ∃ a, st'.hw.tabDMACh i = ((st.hw.tabDMACh i).after k).withAddress a
  mem : st'.mem = ((st.hw.tabDMACh i).firstMoves k).foldl copyByte st.mem
  alone : Alone i st'

/-- A loaded channel starts at the addresses of its configuration. -/
theorem Ready.fields {CFGaddr : Int} (h : Ready i CFGaddr st) :
    (st.hw.tabDMACh i).DmaChState = .DMAChannelArmed ∧ (st.hw.tabDMACh i).triggered = true ∧
      (st.hw.tabDMACh i).s = (st.hw.tabDMACh i).source ∧
      (st.hw.tabDMACh i).d = (st.hw.tabDMACh i).destination ∧
      (st.hw.tabDMACh i).TransferCount.toNat = blockLength i st ∧
      (st.hw.tabDMACh i).single = ((st.hw.tabDMACh i).TxMode % 2 = 0 : Bool) ∧
      (st.hw.tabDMACh i).repeated = ((st.hw.tabDMACh i).TxMode / 2 % 2 = 1 : Bool) := by
  obtain ⟨ConfigAddress, calls, hch⟩ := h.channel
  unfold blockLength units
  rw [hch]
  exact ⟨rfl, rfl, rfl, rfl, rfl, rfl, rfl⟩

/-- The first tick takes the trigger. -/
theorem Ready.progress {CFGaddr : Int} (h : Ready i CFGaddr st) :
    ∃ st', tick st = some st' ∧ Progress i st 0 st' := by
  obtain ⟨hstate, htrig, hs, hd, -⟩ := h.fields
  obtain ⟨a, ha⟩ := configChannelAddresses_channel i st
  have hstep : stateTrans i (configChannelAddresses st)
      = some (setChannel i takeTrigger (configChannelAddresses st)) := by
    rw [stateTrans_armed (by rw [ha]; exact hstate), ha, if_pos]
    exact htrig
  have halone := h.alone.configChannelAddresses.setChannel takeTrigger
  refine ⟨_, tick_of_alone h.alone hstep halone, ⟨a, ?_⟩, rfl, halone⟩
  rw [setChannel_self, ha, after_zero hs hd]
  rfl

/-- A unit is moved. -/
theorem Progress.transferred {k : Nat} {st' : DmaSt} (h : Progress i st k st')
    (hmoves : ((st.hw.tabDMACh i).after k).moves = (st.hw.tabDMACh i).unitMoves k)
    (hplain : ∀ p ∈ (st.hw.tabDMACh i).unitMoves k, PlainXram p.2) :
    ∃ a st₁, transfer i (configChannelAddresses st') = some st₁ ∧
      st₁.hw.tabDMACh i = ((st.hw.tabDMACh i).after (k + 1)).withAddress a ∧
      st₁.mem = ((st.hw.tabDMACh i).firstMoves (k + 1)).foldl copyByte st.mem ∧ Alone i st₁ := by
  obtain ⟨⟨a₀, hch⟩, hmem, halone⟩ := h
  obtain ⟨a, ha⟩ := configChannelAddresses_channel i st'
  have hch' : (configChannelAddresses st').hw.tabDMACh i = ((st.hw.tabDMACh i).after k).withAddress a := by
    rw [ha, hch]
    rfl
  have hmoves' : ((configChannelAddresses st').hw.tabDMACh i).moves = (st.hw.tabDMACh i).unitMoves k := by
    rw [hch', ← hmoves]
    rfl
  have htransfer := transfer_plain i (configChannelAddresses st') (by rwa [hmoves'])
  rw [hmoves'] at htransfer
  refine ⟨a, _, htransfer, ?_, ?_, ?_⟩
  · rw [setChannel_self]
    dsimp only
    rw [hch', counted_after]
  · rw [setChannel_mem, configChannelAddresses_mem, hmem, firstMoves_succ, List.foldl_append]
  · exact halone.configChannelAddresses.setChannel _

/-- The channel stays in its state as long as units are left. -/
theorem Progress.next {CFGaddr : Int} (hready : Ready i CFGaddr st)
    (hblock : (st.hw.tabDMACh i).TxMode = 1) {k : Nat} {st' : DmaSt} (h : Progress i st k st')
    (hk : k + 1 < blockLength i st)
    (hmoves : ((st.hw.tabDMACh i).after k).moves = (st.hw.tabDMACh i).unitMoves k)
    (hplain : ∀ p ∈ (st.hw.tabDMACh i).unitMoves k, PlainXram p.2) :
    ∃ st'', tick st' = some st'' ∧ Progress i st (k + 1) st'' := by
  obtain ⟨a, st₁, htransfer, hch, hmem, halone⟩ := h.transferred hmoves hplain
  obtain ⟨-, -, -, -, hcount, hsingle, -⟩ := hready.fields
  have hstate : ((configChannelAddresses st').hw.tabDMACh i).DmaChState = .TransferOneByteOrWord := by
    obtain ⟨a', ha'⟩ := configChannelAddresses_channel i st'
    obtain ⟨a₀, hch₀⟩ := h.channel
    rw [ha', hch₀]
    rfl
  have hstay : afterTransfer i st₁ = st₁ := by
    have hleft : ¬ (st₁.hw.tabDMACh i).TransferCount ≤ 0 := by
      rw [hch]
      change ¬ (st.hw.tabDMACh i).TransferCount - (k + 1 : Nat) ≤ 0
      omega
    have hblock' : ¬ ((st₁.hw.tabDMACh i).single = true ∧ ¬ (st₁.hw.tabDMACh i).triggered = true) := by
      rw [hch]
      change ¬ ((st.hw.tabDMACh i).single = true ∧ _)
      rw [hsingle, hblock]
      simp
    unfold afterTransfer
    dsimp only
    rw [if_neg hleft, if_neg hblock']
  refine ⟨st₁, tick_of_alone h.alone ?_ halone, ⟨a, hch⟩, hmem, halone⟩
  rw [stateTrans_transfer hstate, htransfer, Option.map_some, hstay]

/-- All units but the last. -/
theorem Ready.progress_before {CFGaddr : Int} (hready : Ready i CFGaddr st)
    (hblock : (st.hw.tabDMACh i).TxMode = 1)
    (hmoves : ∀ k < blockLength i st, ((st.hw.tabDMACh i).after k).moves = (st.hw.tabDMACh i).unitMoves k)
    (hplain : PlainBlock i st) {k : Nat} (hk : k < blockLength i st) :
    ∃ st', ticks (k + 1) st = some st' ∧ Progress i st k st' := by
  induction k with
  | zero =>
    obtain ⟨st', htick, hprogress⟩ := hready.progress
    refine ⟨st', ?_, hprogress⟩
    rw [ticks_succ, ticks, Option.bind_some, htick]
  | succ k ih =>
    obtain ⟨st', hticks, hprogress⟩ := ih (by omega)
    have hunit : ∀ p ∈ (st.hw.tabDMACh i).unitMoves k, PlainXram p.2 := fun p hp =>
      (hplain p (List.mem_flatMap.mpr ⟨k, List.mem_range.mpr (by omega), hp⟩)).2
    obtain ⟨st'', htick, hprogress'⟩ := hprogress.next hready hblock hk (hmoves k (by omega)) hunit
    refine ⟨st'', ?_, hprogress'⟩
    rw [ticks_succ, hticks, Option.bind_some, htick]

/-- The last unit, and the flags. -/
theorem Progress.last {CFGaddr : Int} (hready : Ready i CFGaddr st)
    (hblock : (st.hw.tabDMACh i).TxMode = 1) {k : Nat} {st' : DmaSt} (h : Progress i st k st')
    (hk : k + 1 = blockLength i st)
    (hmoves : ((st.hw.tabDMACh i).after k).moves = (st.hw.tabDMACh i).unitMoves k)
    (hplain : ∀ p ∈ (st.hw.tabDMACh i).unitMoves k, PlainXram p.2) :
    ∃ st'', tick st' = some st'' ∧ (st''.hw.tabDMACh i).DmaChState = .DisarmChannel ∧
      (st''.hw.tabDMACh i).calls = (st.hw.tabDMACh i).calls ++
        ((st.hw.tabDMACh i).firstCalls (k + 1) ++ [.irq false]) ∧
      st''.mem = flagged i (st.hw.tabDMACh i).ITmask
        (((st.hw.tabDMACh i).firstMoves (k + 1)).foldl copyByte st.mem) ∧ Alone i st'' := by
  obtain ⟨a, st₁, htransfer, hch, hmem, halone⟩ := h.transferred hmoves hplain
  obtain ⟨-, -, -, -, hcount, -, hrepeated⟩ := hready.fields
  have hstate : ((configChannelAddresses st').hw.tabDMACh i).DmaChState = .TransferOneByteOrWord := by
    obtain ⟨a', ha'⟩ := configChannelAddresses_channel i st'
    obtain ⟨a₀, hch₀⟩ := h.channel
    rw [ha', hch₀]
    rfl
  have hdone : (st₁.hw.tabDMACh i).TransferCount ≤ 0 := by
    rw [hch]
    change (st.hw.tabDMACh i).TransferCount - (k + 1 : Nat) ≤ 0
    omega
  have hrepeated' : (st₁.hw.tabDMACh i).repeated = false := by
    rw [hch]
    change (st.hw.tabDMACh i).repeated = false
    rw [hrepeated, hblock]
    rfl
  have hmask : (st₁.hw.tabDMACh i).ITmask = (st.hw.tabDMACh i).ITmask := by
    rw [hch]
    rfl
  have hcalls : (st₁.hw.tabDMACh i).calls = (st.hw.tabDMACh i).calls ++ (st.hw.tabDMACh i).firstCalls (k + 1) := by
    rw [hch]
    rfl
  have hafter : afterTransfer i st₁ = setChannel i finish
      { mem := flagged i (st₁.hw.tabDMACh i).ITmask st₁.mem, hw := st₁.hw } := by
    unfold afterTransfer flagged
    dsimp only
    rw [if_pos hdone]
    by_cases hIT : (st₁.hw.tabDMACh i).ITmask = true
    · rw [if_pos hIT, if_pos hIT]
      rfl
    · rw [if_neg hIT, if_neg hIT]
      rfl
  have hlast : Alone i (afterTransfer i st₁) := by
    rw [hafter]
    exact fun j hj => halone.setChannel finish j hj
  refine ⟨afterTransfer i st₁, tick_of_alone h.alone ?_ hlast, ?_, ?_, ?_, hlast⟩
  · rw [stateTrans_transfer hstate, htransfer, Option.map_some]
  · rw [hafter, setChannel_self]
    unfold finish
    rw [hrepeated']
    rfl
  · rw [hafter, setChannel_self]
    unfold finish
    rw [hrepeated', ← List.append_assoc, ← hcalls]
    rfl
  · rw [hafter, setChannel_mem, hmask, hmem]

/-- A configuration that meets the condition is transferred correctly. -/
theorem blockCorrect_of_cond {CFGaddr : Int} (hready : Ready i CFGaddr st)
    (hblock : (st.hw.tabDMACh i).TxMode = 1) (hplain : PlainBlock i st)
    (hcond : (st.hw.tabDMACh i).BlockCond (blockLength i st)) : BlockCorrect i st := by
  have hmoves k (hk : k < blockLength i st) := moves_after hcond hk
  have hpos := hcond.1
  have hlt : blockLength i st - 1 < blockLength i st := by omega
  have hlast : blockLength i st - 1 + 1 = blockLength i st := by omega
  have hunit : ∀ p ∈ (st.hw.tabDMACh i).unitMoves (blockLength i st - 1), PlainXram p.2 := fun p hp =>
    (hplain p (List.mem_flatMap.mpr ⟨_, List.mem_range.mpr hlt, hp⟩)).2
  obtain ⟨st₁, hticks, hprogress⟩ := hready.progress_before hblock hmoves hplain hlt
  obtain ⟨st₂, htick, hstate, hcalls, hmem, halone⟩ :=
    hprogress.last hready hblock hlast (hmoves _ hlt) hunit
  have hstate' : ((configChannelAddresses st₂).hw.tabDMACh i).DmaChState = .DisarmChannel := hstate
  have htick' := tick_of_alone halone (stateTrans_disarm hstate')
    (halone.configChannelAddresses.setChannel disarm)
  rw [hlast] at hcalls hmem
  refine ⟨blockLength i st - 1 + 1 + 1 + 1, setChannel i disarm (configChannelAddresses st₂), ?_, ?_, ?_,
    ?_, ?_⟩
  · rw [ticks_succ, ticks_succ, hticks, Option.bind_some, htick, Option.bind_some, htick']
  · rw [setChannel_self]
    rfl
  · rw [setChannel_self]
    rfl
  · rw [setChannel_self, ← hcalls]
    rfl
  · rw [setChannel_mem, ← hmem]
    rfl

/-! ## The first bytes show the condition -/

/-- What comes next in the history of a transfer is a byte. -/
theorem Progress.next_call {k m : Nat} {st₁ st' : DmaSt} (h : Progress i st k st₁)
    (hticks : ticks m st₁ = some st') {l : List DmaCall} (hl : l ≠ [])
    (hcalls : (st'.hw.tabDMACh i).calls
      = (st.hw.tabDMACh i).calls ++ (st.hw.tabDMACh i).firstCalls k ++ l) :
    ∃ t, transfer i (configChannelAddresses st₁) = some t ∧ (t.hw.tabDMACh i).calls <+:
        (st.hw.tabDMACh i).calls ++ (st.hw.tabDMACh i).firstCalls k ++ l := by
  obtain ⟨a₀, hch⟩ := h.channel
  cases m with
  | zero =>
    -- Nothing has happened since.
    rw [← Option.some.inj hticks, hch] at hcalls
    exact absurd (List.self_eq_append_right.mp hcalls) hl
  | succ m =>
    obtain ⟨st₂, htick, hrest⟩ := Option.bind_eq_some_iff.mp hticks
    obtain ⟨st₃, hstep, hgrows⟩ := tick_alone_grows h.alone htick
    have hstate : ((configChannelAddresses st₁).hw.tabDMACh i).DmaChState = .TransferOneByteOrWord := by
      obtain ⟨a, ha⟩ := configChannelAddresses_channel i st₁
      rw [ha, hch]
      rfl
    rw [stateTrans_transfer hstate] at hstep
    obtain ⟨t, ht, hafter⟩ := Option.map_eq_some_iff.mp hstep
    refine ⟨t, ht, ?_⟩
    rw [← hcalls]
    have hgrows' := afterTransfer_grows i t
    rw [hafter] at hgrows'
    exact ((hgrows'.trans hgrows).trans (ticks_grows hrest)) i

/-- The first byte of unit `k`. -/
theorem Progress.next_move {k m : Nat} {st₁ st' : DmaSt} (h : Progress i st k st₁)
    (hticks : ticks m st₁ = some st') {l : List DmaCall} (hl : l ≠ [])
    (hcalls : (st'.hw.tabDMACh i).calls
      = (st.hw.tabDMACh i).calls ++ (st.hw.tabDMACh i).firstCalls k ++ l) :
    [.move ((st.hw.tabDMACh i).after k).s ((st.hw.tabDMACh i).after k).d] <+: l := by
  obtain ⟨t, ht, hprefix⟩ := h.next_call hticks hl hcalls
  obtain ⟨a₀, hch⟩ := h.channel
  obtain ⟨a, ha⟩ := configChannelAddresses_channel i st₁
  have hmove := transfer_grows ht i
  rw [setChannel_self, ha, hch] at hmove
  exact (List.prefix_append_right_inj _).mp (hmove.trans hprefix)

/-- The second byte of a word is below the first one if the destination goes down. -/
theorem transfer_second {t : DmaSt} (ht : transfer i st = some t) (hplain : PlainXram (st.hw.tabDMACh i).d)
    (hword : (st.hw.tabDMACh i).Byte_Word_tx = 1) (hdown : ¬ 0 ≤ (st.hw.tabDMACh i).DESTinc) :
    (st.hw.tabDMACh i).calls ++ [.move (st.hw.tabDMACh i).s (st.hw.tabDMACh i).d,
      .move ((st.hw.tabDMACh i).s - 1) ((st.hw.tabDMACh i).d - 1)] <+: (t.hw.tabDMACh i).calls := by
  generalize hch : st.hw.tabDMACh i = ch at hplain hword hdown ⊢
  unfold transfer at ht
  rw [hch, move_plain i ch.s hplain, Option.bind_eq_bind, Option.bind_some] at ht
  obtain ⟨st₂, h₂, ht⟩ := Option.bind_eq_some_iff.mp ht
  unfold moveSecond at h₂
  rw [setChannel_self] at h₂
  dsimp only at h₂
  have hword' : (log (.move ch.s ch.d) ch).Byte_Word_tx = 1 := hword
  have hdown' : ¬ (log (.move ch.s ch.d) ch).DESTinc ≥ 0 := hdown
  rw [hch, if_pos hword', if_neg hdown'] at h₂
  have hgrows := move_grows h₂ i
  rw [setChannel_self, setChannel_self] at hgrows
  dsimp only at hgrows
  rw [hch] at hgrows
  rw [← Option.some.inj ht]
  have hlast := Grows.setChannel (f := updateCounters) (fun _ => calls_log _ _) i st₂ i
  have hcalls : ch.calls ++ [.move ch.s ch.d, .move (ch.s - 1) (ch.d - 1)]
      = (log (.move (ch.s - 1) (ch.d - 1)) (log (.move ch.s ch.d) ch)).calls :=
    (List.append_assoc ch.calls [.move ch.s ch.d] [.move (ch.s - 1) (ch.d - 1)]).symm
  rw [hcalls]
  exact hgrows.trans hlast

/-- The second byte of a word that is moved downwards is not the next one. -/
theorem Progress.not_down {m : Nat} {st₁ st' : DmaSt} (h : Progress i st 0 st₁)
    (hticks : ticks m st₁ = some st') (hplain : PlainBlock i st) (hpos : 0 < blockLength i st)
    (hword : (st.hw.tabDMACh i).Byte_Word_tx = 1)
    (hcalls : (st'.hw.tabDMACh i).calls = (st.hw.tabDMACh i).calls ++
      ((st.hw.tabDMACh i).firstCalls (blockLength i st) ++ [.irq false])) :
    0 ≤ (st.hw.tabDMACh i).DESTinc := by
  by_contra hdown
  obtain ⟨r, hr⟩ := (st.hw.tabDMACh i).firstCalls_mono hpos
  have hone : (st.hw.tabDMACh i).firstCalls 1 = moveCalls ((st.hw.tabDMACh i).unitMoves 0) ++ [.unit] := by
    rw [firstCalls, List.range_one, List.flatMap_singleton]
  rw [← hr] at hcalls
  have hzero : (st.hw.tabDMACh i).calls ++ (st.hw.tabDMACh i).firstCalls 0 = (st.hw.tabDMACh i).calls :=
    List.append_nil _
  obtain ⟨t, ht, hprefix⟩ := h.next_call hticks (l := (st.hw.tabDMACh i).firstCalls 1 ++ r ++ [.irq false])
    (by simp) (by rw [hcalls, hzero])
  rw [hzero] at hprefix
  obtain ⟨a₀, hch⟩ := h.channel
  obtain ⟨a, ha⟩ := configChannelAddresses_channel i st₁
  rw [hch] at ha
  have hfirst : PlainXram ((configChannelAddresses st₁).hw.tabDMACh i).d := by
    rw [ha]
    have hmem : ((st.hw.tabDMACh i).source + (0 : Nat) * ((st.hw.tabDMACh i).SRCinc * (st.hw.tabDMACh i).unitSize),
        (st.hw.tabDMACh i).destination + (0 : Nat) * ((st.hw.tabDMACh i).DESTinc * (st.hw.tabDMACh i).unitSize))
          ∈ (st.hw.tabDMACh i).firstMoves (blockLength i st) :=
      List.mem_flatMap.mpr ⟨0, List.mem_range.mpr hpos, List.mem_cons_self⟩
    have hd := (hplain _ hmem).2
    simpa [after, withAddress] using hd
  have hsecond := transfer_second ht hfirst (by rw [ha]; exact hword) (by rw [ha]; exact hdown)
  rw [ha] at hsecond
  have hcalls₀ : (((st.hw.tabDMACh i).after 0).withAddress a₀ |>.withAddress a).calls
      = (st.hw.tabDMACh i).calls := hzero
  rw [hcalls₀] at hsecond
  have hheads := (List.prefix_append_right_inj _).mp (hsecond.trans hprefix)
  rw [hone] at hheads
  simp [unitMoves, hword, moveCalls, after, withAddress] at hheads
  omega

/-- A word that is not the only one stays where it is. -/
theorem Progress.steady {m : Nat} {st₂ st' : DmaSt} (h : Progress i st 1 st₂)
    (hticks : ticks m st₂ = some st') (htwo : 2 ≤ blockLength i st)
    (hword : (st.hw.tabDMACh i).Byte_Word_tx = 1)
    (hcalls : (st'.hw.tabDMACh i).calls = (st.hw.tabDMACh i).calls ++
      ((st.hw.tabDMACh i).firstCalls (blockLength i st) ++ [.irq false])) :
    (st.hw.tabDMACh i).SRCinc = 0 ∧ (st.hw.tabDMACh i).DESTinc = 0 := by
  obtain ⟨r, hr⟩ := (st.hw.tabDMACh i).firstCalls_mono htwo
  rw [firstCalls_succ, List.append_assoc] at hr
  rw [← hr, List.append_assoc] at hcalls
  have hmove := h.next_move hticks
    (l := moveCalls ((st.hw.tabDMACh i).unitMoves 1) ++ [.unit] ++ r ++ [.irq false]) (by simp)
    (by rw [hcalls]; simp)
  simp [unitMoves, unitSize, hword, moveCalls, after] at hmove
  omega

theorem cond_of_blockCorrect {CFGaddr : Int} (hready : Ready i CFGaddr st)
    (hblock : (st.hw.tabDMACh i).TxMode = 1) (hplain : PlainBlock i st) (h : BlockCorrect i st) :
    (st.hw.tabDMACh i).BlockCond (blockLength i st) := by
  obtain ⟨n, st', hticks, -, -, hcalls, -⟩ := h
  obtain ⟨st₁, htick, hprogress⟩ := hready.progress
  have hnonempty : (st.hw.tabDMACh i).firstCalls (blockLength i st) ++ [DmaCall.irq false] ≠ [] := by simp
  cases n with
  | zero =>
    rw [← Option.some.inj hticks] at hcalls
    exact absurd (List.self_eq_append_right.mp hcalls) hnonempty
  | succ m =>
    rw [ticks, htick, Option.bind_some] at hticks
    have hzero : (st.hw.tabDMACh i).calls ++ (st.hw.tabDMACh i).firstCalls 0 = (st.hw.tabDMACh i).calls :=
      List.append_nil _
    have hpos : 0 < blockLength i st := by
      by_contra hnot
      have hnone : blockLength i st = 0 := by omega
      have hmove := hprogress.next_move hticks hnonempty (by rw [hcalls, hzero])
      rw [hnone] at hmove
      simp [firstCalls] at hmove
    refine ⟨hpos, fun hword => ?_⟩
    have hup := hprogress.not_down hticks hplain hpos hword hcalls
    refine ⟨hup, ?_⟩
    by_cases hn : blockLength i st = 1
    · exact Or.inl hn
    · have htwo : 2 ≤ blockLength i st := by omega
      have hfirst : (st.hw.tabDMACh i).BlockCond 1 := ⟨Nat.one_pos, fun _ => ⟨hup, Or.inl rfl⟩⟩
      have hunit : ∀ p ∈ (st.hw.tabDMACh i).unitMoves 0, PlainXram p.2 := fun p hp =>
        (hplain p (List.mem_flatMap.mpr ⟨0, List.mem_range.mpr hpos, hp⟩)).2
      obtain ⟨st₂, htick₂, hprogress₂⟩ :=
        hprogress.next hready hblock (by omega) (moves_after hfirst Nat.one_pos) hunit
      cases m with
      | zero =>
        obtain ⟨a, hch⟩ := hprogress.channel
        rw [← Option.some.inj hticks, hch] at hcalls
        have hsame : (((st.hw.tabDMACh i).after 0).withAddress a).calls = (st.hw.tabDMACh i).calls := hzero
        rw [hsame] at hcalls
        exact absurd (List.self_eq_append_right.mp hcalls) hnonempty
      | succ m =>
        rw [ticks, htick₂, Option.bind_some] at hticks
        exact Or.inr (hprogress₂.steady hticks htwo hword hcalls)

/-- A block transfer that is not repeated moves its units as it should, from the trigger of a loaded
channel until the channel is idle, when the configuration meets the condition, and only then. -/
theorem blockTransfer_iff {CFGaddr : Int} (hready : Ready i CFGaddr st)
    (hblock : (st.hw.tabDMACh i).TxMode = 1) (hplain : PlainBlock i st) :
    BlockCorrect i st ↔ (st.hw.tabDMACh i).BlockCond (blockLength i st) :=
  ⟨cond_of_blockCorrect hready hblock hplain, blockCorrect_of_cond hready hblock hplain⟩

/-- The bytes of a configuration at `CFGaddr`, and zeros everywhere else in memory. -/
def configMemory (CFGaddr : Int) (config : List TMem) : Site → TMem
  | .cell .sram a => if CFGaddr ≤ a then config.getD (a - CFGaddr).toNat 0 else 0
  | _ => 0

/-- Channel 0, loaded from the bytes of a configuration at `0x80` and triggered. -/
def loadedFrom (config : List TMem) : DmaSt :=
  let st : DmaSt := { mem := configMemory 0x80 config, hw := initial }
  setChannel 0 (fun _ => readyChannel st 0x80 0 []) st

theorem loadedFrom_ready (config : List TMem) : Ready 0 0x80 (loadedFrom config) where
  channel := ⟨0, [], setChannel_self _ _ _⟩
  alone j hj := by
    unfold loadedFrom
    rw [setChannel_of_ne hj]
    exact ⟨rfl, rfl⟩

/-- Three bytes from `0x10` on to `0x20` and on. -/
theorem blockTransfer_threeBytes : BlockCorrect 0 (loadedFrom [0, 0x10, 0, 0x20, 0, 3, 0x20, 0x50]) :=
  (blockTransfer_iff (loadedFrom_ready _) (by decide +kernel) (by unfold PlainBlock; decide +kernel)).mpr
    (by decide +kernel)

/-- A transfer of length 0 moves one byte. -/
theorem zeroLength_moves :
    ¬ ∀ (i : Fin 5) (CFGaddr : Int) (st : DmaSt), Ready i CFGaddr st → (st.hw.tabDMACh i).TxMode = 1 →
      PlainBlock i st → BlockCorrect i st := by
  intro h
  have hready := loadedFrom_ready [0, 0x10, 0, 0x20, 0, 0, 0x20, 0x50]
  have hplain : PlainBlock 0 (loadedFrom [0, 0x10, 0, 0x20, 0, 0, 0x20, 0x50]) := by
    unfold PlainBlock
    decide +kernel
  have hcond := cond_of_blockCorrect hready (by decide +kernel) hplain
    (h 0 0x80 _ hready (by decide +kernel) hplain)
  exact absurd hcond (by decide +kernel)

end Dma

end Ucsim.S51
