import Ucsim.S51.DmaSingle

/-!
# Disarming channels of the DMA controller

A channel is disarmed by a write of `DMAARM` that clears its bit or sets the bit of ABORT. Of the states of
a channel only the idle one looks at `armed`.
-/

namespace Ucsim.S51

open Logic

namespace DMAchannel

/-- Has the last write of `DMAARM` cleared the bit of the channel? -/
def lastCleared (cleared : Bool) : DmaCall → Bool
  | .arm bit _ => !bit
  | _ => cleared

def cleared (ch : DMAchannel) : Bool := ch.calls.foldl lastCleared false

/-- After its bit has been cleared, the channel moves no byte until the bit is written 1 again. -/
def StopsWhenCleared (ch : DMAchannel) : Prop :=
  ∀ l₁ l₂ l₃ state src dst, ch.calls = l₁ ++ .arm false state :: (l₂ ++ .move src dst :: l₃) →
    ∃ state', .arm true state' ∈ l₂

theorem cleared_log (call : DmaCall) (ch : DMAchannel) : (ch.log call).cleared = lastCleared ch.cleared call :=
  List.foldl_append

theorem exists_arm_of_foldl {l : List DmaCall} (h : l.foldl lastCleared true = false) :
    ∃ state, .arm true state ∈ l := by
  induction l with
  | nil => cases h
  | cons call l ih =>
    rw [List.foldl_cons] at h
    cases call with
    | arm bit state =>
      cases bit with
      | true => exact ⟨state, List.mem_cons_self⟩
      | false =>
        obtain ⟨state', hmem⟩ := ih h
        exact ⟨state', List.mem_cons_of_mem _ hmem⟩
    | trigger state | move src dst | unit | irq repeated =>
      obtain ⟨state', hmem⟩ := ih h
      exact ⟨state', List.mem_cons_of_mem _ hmem⟩

/-- The history goes on, with a move only if the bit is not cleared. -/
theorem StopsWhenCleared.log {ch : DMAchannel} (h : ch.StopsWhenCleared) {call : DmaCall}
    (hcall : ∀ src dst, call = .move src dst → ch.cleared = false) : (ch.log call).StopsWhenCleared := by
  intro l₁ l₂ l₃ state src dst hcalls
  change ch.calls ++ [call] = _ at hcalls
  obtain rfl | ⟨l, last, rfl⟩ := List.eq_nil_or_concat l₃
  · -- The move is the new one.
    rw [← List.cons_append, ← List.append_assoc] at hcalls
    obtain ⟨hbefore, hlast⟩ := List.append_inj' hcalls rfl
    have hcleared := hcall src dst (List.cons.inj hlast).1
    rw [cleared, hbefore, List.foldl_append, List.foldl_cons] at hcleared
    exact exists_arm_of_foldl hcleared
  · rw [List.concat_eq_append, ← List.cons_append, ← List.append_assoc, ← List.cons_append,
      ← List.append_assoc] at hcalls
    obtain ⟨hbefore, -⟩ := List.append_inj' hcalls rfl
    rw [List.append_assoc, List.cons_append] at hbefore
    exact h l₁ l₂ l state src dst hbefore

theorem StopsWhenCleared.congr {ch ch' : DMAchannel} (h : ch.StopsWhenCleared) (hcalls : ch'.calls = ch.calls) :
    ch'.StopsWhenCleared := by
  unfold StopsWhenCleared
  rw [hcalls]
  exact h

end DMAchannel

namespace Dma

open DMAchannel

/-! ## No bytes after the bit has been cleared -/

/-- The condition on writes that disarm channel `i`: it is idle, or about to be. -/
def disarmCond (i : Fin 5) : Conditions where
  write c val st := c = .sfr Reg.DMAARM → (bitSet val i = false ∨ bitSet val 7 = true) →
    (st.hw.tabDMACh i).DmaChState = .DMAChannelIdle ∨ (st.hw.tabDMACh i).DmaChState = .DisarmChannel
  happen _ _ := True
  load _ _ := True
  disarm _ _ := True

/-- A channel whose bit has been cleared is idle. -/
structure DisarmInv (ch : DMAchannel) : Prop where
  stops : ch.StopsWhenCleared
  idle : ch.cleared = true →
    ch.DmaChState = .DMAChannelIdle ∧ ch.armed = false ∨ ch.DmaChState = .DisarmChannel

namespace DisarmInv

variable {ch : DMAchannel}

theorem not_cleared (h : DisarmInv ch) (hidle : ch.DmaChState ≠ .DMAChannelIdle)
    (hdisarm : ch.DmaChState ≠ .DisarmChannel) : ch.cleared = false := by
  rw [← Bool.not_eq_true]
  intro hcleared
  obtain h | h := h.idle hcleared
  · exact hidle h.1
  · exact hdisarm h

/-- What leaves the bit set keeps the invariant. -/
theorem of_not_cleared {ch' : DMAchannel} (h : DisarmInv ch) (hcalls : ch'.calls = ch.calls)
    (hcleared : ch.cleared = false) : DisarmInv ch' := by
  refine ⟨h.stops.congr hcalls, fun h' => ?_⟩
  rw [cleared, hcalls] at h'
  rw [cleared, h'] at hcleared
  cases hcleared

theorem arm {bit : Bool} (h : DisarmInv ch)
    (hbit : bit = false → ch.DmaChState = .DMAChannelIdle ∨ ch.DmaChState = .DisarmChannel) :
    DisarmInv (ch.arm bit) := by
  have hstops : (ch.arm bit).StopsWhenCleared :=
    (show StopsWhenCleared { ch with armed := bit } from h.stops.congr rfl).log fun _ _ h => by cases h
  have hcleared : (ch.arm bit).cleared = !bit := cleared_log _ _
  refine ⟨hstops, fun h' => ?_⟩
  cases bit with
  | true =>
    rw [hcleared] at h'
    cases h'
  | false => exact (hbit rfl).imp_left fun hidle => ⟨hidle, rfl⟩

theorem trigger (h : DisarmInv ch) : DisarmInv ch.trigger := by
  refine ⟨(show StopsWhenCleared { ch with triggered := true } from h.stops.congr rfl).log
    fun _ _ h => (by cases h), fun h' => ?_⟩
  have hcleared : ch.trigger.cleared = ch.cleared := cleared_log _ _
  rw [hcleared] at h'
  exact h.idle h'

theorem unit (h : DisarmInv ch) (hstate : ch.DmaChState = .TransferOneByteOrWord) :
    DisarmInv (afterChannel ch.updateCounters) := by
  have hcleared := h.not_cleared (by rw [hstate]; decide) (by rw [hstate]; decide)
  have hcleared' : ch.updateCounters.cleared = false := (cleared_log _ _).trans hcleared
  have hcounted : DisarmInv ch.updateCounters := by
    refine ⟨StopsWhenCleared.log (h.stops.congr rfl) fun _ _ h => (by cases h), fun h' => ?_⟩
    rw [hcleared'] at h'
    cases h'
  unfold afterChannel
  split
  · have hfinish : ch.updateCounters.finish.cleared = false := (cleared_log _ _).trans hcleared'
    refine ⟨StopsWhenCleared.log (hcounted.stops.congr rfl) fun _ _ h => (by cases h), fun h' => ?_⟩
    rw [hfinish] at h'
    cases h'
  · split
    · exact hcounted.of_not_cleared rfl hcleared'
    · exact hcounted

/-- A channel that has been disarmed moves nothing. -/
theorem rules (i : Fin 5) : ChannelRules i (disarmCond i) DisarmInv where
  address _ h := ⟨h.stops.congr rfl, h.idle⟩
  happen h _ _ := h.trigger
  write {st c val} h hC := by
    unfold writeChannel
    split
    · split
      · exact h.trigger
      · exact h
    · split
      · next harm =>
        split
        · next habort =>
          have hidle := hC harm (Or.inr habort)
          exact (h.arm fun _ => hidle).arm fun _ => hidle
        · exact h.arm fun hbit => hC harm (Or.inl hbit)
      · split
        · split
          · exact ⟨h.stops.congr rfl, h.idle⟩
          · exact h
        · exact h
  enterLoad {ch} h hstate harmed := by
    refine h.of_not_cleared rfl ?_
    rw [← Bool.not_eq_true]
    intro hcleared
    obtain h | h := h.idle hcleared
    · rw [harmed] at h
      cases h.2
    · rw [hstate] at h
      cases h
  load h hstate _ := h.of_not_cleared (calls_loadConfig _ _ _ _)
    (h.not_cleared (by rw [hstate]; decide) (by rw [hstate]; decide))
  take h hstate _ := h.of_not_cleared rfl (h.not_cleared (by rw [hstate]; decide) (by rw [hstate]; decide))
  log {ch} src dst h hstate := by
    have hcleared := h.not_cleared (by rw [hstate]; decide) (by rw [hstate]; decide)
    have hlog : (ch.log (.move src dst)).cleared = false := (cleared_log _ _).trans hcleared
    refine ⟨h.stops.log fun _ _ _ => hcleared, fun h' => ?_⟩
    rw [hlog] at h'
    cases h'
  unit h hstate := h.unit hstate
  disarm h _ := ⟨h.stops.congr rfl, fun _ => Or.inl ⟨rfl, rfl⟩⟩

end DisarmInv

/-! ## The bits of the armed channels -/

/-- `DMAARM` reads as the bits of the channels that are armed. -/
def ArmedBits (st : DmaSt) : Prop :=
  ∀ n : Nat, bitSet (element.readReg (.sfr Reg.DMAARM) st) n
    = if h : n < 5 then (st.hw.tabDMACh ⟨n, h⟩).armed else false

/-- The condition for `ArmedBits`: `DMAARM` is written with bits of channels only, and a channel loads its
configuration, which initializes it, and goes back to the idle state only when its bit has been cleared. -/
def armedCond : Conditions where
  write c val _ := c = .sfr Reg.DMAARM → val &&& 0xE0 = 0
  happen _ _ := True
  load j st := (st.hw.tabDMACh j).armed = false
  disarm j st := (st.hw.tabDMACh j).armed = false

theorem readReg_DMAARM (st : DmaSt) : element.readReg (.sfr Reg.DMAARM) st = st.mem (.sfr Reg.DMAARM) := rfl

/-- Loading a configuration initializes the channel. -/
theorem armed_loadConfig (ObjInit : Bool) (byte : Int → TMem) (CFGaddr : Int) (ch : DMAchannel) :
    (ch.loadConfig ObjInit byte CFGaddr).armed = false := by
  unfold loadConfig
  dsimp only
  split <;> rfl

namespace ArmedBits

variable {st st' : DmaSt}

theorem of_same (h : ArmedBits st) (hmem : st'.mem (.sfr Reg.DMAARM) = st.mem (.sfr Reg.DMAARM))
    (harmed : ∀ i, (st'.hw.tabDMACh i).armed = (st.hw.tabDMACh i).armed) : ArmedBits st' := by
  intro n
  rw [readReg_DMAARM, hmem, ← readReg_DMAARM, h n]
  simp only [harmed]

theorem setChannel {f : DMAchannel → DMAchannel} {j : Fin 5} (h : ArmedBits st)
    (hf : (f (st.hw.tabDMACh j)).armed = (st.hw.tabDMACh j).armed) :
    ArmedBits (Dma.setChannel j f st) := by
  refine h.of_same rfl fun i => ?_
  by_cases hi : i = j
  · subst hi
    rw [setChannel_self, hf]
  · rw [setChannel_of_ne hi]

/-- The bits of a byte without the bits 5 to 7. -/
theorem bitSet_low {val : TMem} (h : val &&& 0xE0 = 0) {n : Nat} (hn : 5 ≤ n) : bitSet (val &&& 0xff) n = false := by
  unfold bitSet
  rw [BitVec.getLsbD_and]
  by_cases h8 : n < 8
  · have hbit := congrArg (fun x : TMem => x.getLsbD n) h
    rw [BitVec.getLsbD_and] at hbit
    have hmask : (0xE0 : TMem).getLsbD n = true := by
      obtain rfl | rfl | rfl : n = 5 ∨ n = 6 ∨ n = 7 := by omega
      all_goals rfl
    rw [hmask, Bool.and_true] at hbit
    have hzero : (0 : TMem).getLsbD n = false := BitVec.getLsbD_zero
    rw [hbit, hzero, Bool.false_and]
  · have hmask : (0xff : TMem).getLsbD n = false := by
      by_cases h16 : n < 16
      · obtain rfl | rfl | rfl | rfl | rfl | rfl | rfl | rfl :
          n = 8 ∨ n = 9 ∨ n = 10 ∨ n = 11 ∨ n = 12 ∨ n = 13 ∨ n = 14 ∨ n = 15 := by omega
        all_goals rfl
      · exact BitVec.getLsbD_of_ge _ _ (by omega)
    rw [hmask, Bool.and_false]

theorem bitSet_channel (val : TMem) {n : Nat} (hn : n < 5) : bitSet (val &&& 0xff) n = bitSet val n := by
  unfold bitSet
  rw [BitVec.getLsbD_and]
  have hmask : (0xff : TMem).getLsbD n = true := by
    obtain rfl | rfl | rfl | rfl | rfl : n = 0 ∨ n = 1 ∨ n = 2 ∨ n = 3 ∨ n = 4 := by omega
    all_goals rfl
  rw [hmask, Bool.and_true]

theorem write {c : Site} {val : TMem} (h : ArmedBits st) (hC : armedCond.write c val st) :
    ArmedBits (element.writeCell c val st) := by
  rw [writeCell_eq]
  by_cases harm : c = .sfr Reg.DMAARM
  · have hlow := hC harm
    subst harm
    have habort : bitSet val 7 = false := by
      have h7 := bitSet_low hlow (n := 7) (by decide)
      unfold bitSet at h7 ⊢
      rw [BitVec.getLsbD_and] at h7
      simpa using h7
    intro n
    rw [readReg_DMAARM]
    dsimp only
    rw [stored_apply, if_pos rfl]
    by_cases hn : n < 5
    · rw [dif_pos hn, bitSet_channel val hn]
      unfold writeChannel
      rw [if_neg DMAARM_ne_DMAREQ, if_pos rfl, habort, if_neg Bool.false_ne_true]
      rfl
    · rw [dif_neg hn, bitSet_low hlow (by omega)]
  · refine h.of_same ?_ fun i => ?_
    · dsimp only
      rw [stored_apply, if_neg (Ne.symm harm), if_neg]
      rintro ⟨-, hpsw⟩
      exact absurd hpsw (by decide)
    · dsimp only
      unfold writeChannel
      rw [if_neg harm]
      split
      · split <;> rfl
      · split
        · split <;> rfl
        · rfl

theorem unit {j : Fin 5} (h : ArmedBits st) : ArmedBits (afterTransfer j (Dma.setChannel j updateCounters st)) := by
  refine h.of_same ?_ fun i => ?_
  · rw [afterTransfer_DMAARM]
    rfl
  · by_cases hi : i = j
    · subst hi
      rw [afterTransfer_channel, setChannel_self]
      unfold afterChannel
      split
      · rfl
      · split <;> rfl
    · rw [afterTransfer_of_ne hi, setChannel_of_ne hi]

theorem kept : Kept armedCond ArmedBits where
  config h := h.of_same rfl fun _ => rfl
  happen h _ := h.of_same rfl fun i => by
    unfold Dma.happen mapChannels
    dsimp only
    split <;> rfl
  write h hC := h.write hC
  set h hc := h.of_same (Function.update_of_ne (Ne.symm hc) _ _) fun _ => rfl
  enterLoad h _ _ := h.setChannel rfl
  load {st j} h _ hC := by
    refine h.setChannel ?_
    rw [show (st.hw.tabDMACh j).armed = false from hC]
    exact armed_loadConfig _ _ _ _
  take h _ _ := h.setChannel rfl
  log h _ := h.setChannel rfl
  unit h _ := h.unit
  disarm {st j} h _ hC := h.setChannel (Eq.symm hC)

end ArmedBits

/-! ## Runs -/

/-- A channel whose bit in `DMAARM` has been cleared moves no byte until the bit is written 1 again if
the bit is cleared only when the channel is idle or about to be, and `DMAARM` reads as the bits of the
armed channels if it is written with bits of channels only and those that load their configuration or go
back to the idle state are not armed. -/
theorem disarming (i : Fin 5) :
    (∀ st, (system.guard (disarmCond i).Meets).Reachable st → (st.hw.tabDMACh i).StopsWhenCleared) ∧
      ∀ st, (system.guard armedCond.Meets).Reachable st → ArmedBits st := by
  constructor
  · intro st h
    refine ((DisarmInv.rules i).kept.reachable (fun st hinit => ?_) h).stops
    obtain ⟨-, -, hcalls⟩ := hinit.2 i
    refine ⟨fun l₁ l₂ l₃ state src dst h => ?_, fun h => ?_⟩
    · rw [hcalls] at h
      exact absurd h.symm (by simp)
    · rw [cleared, hcalls] at h
      cases h
  · intro st h
    refine ArmedBits.kept.reachable (fun st hinit n => ?_) h
    rw [readReg_DMAARM, hinit.1]
    split
    · next hn =>
      rw [(hinit.2 ⟨n, hn⟩).2.1]
      exact BitVec.getLsbD_zero
    · exact BitVec.getLsbD_zero

/-- A check of the condition on writes that disarm channel `i`, for transfers that write no register. -/
def disarmCheck (i : Fin 5) : Label → DmaSt → Bool
  | .trans j, st =>
    (st.hw.tabDMACh j).DmaChState = .TransferOneByteOrWord → ∀ p ∈ (st.hw.tabDMACh j).moves, PlainXram p.2
  | .write c val, st =>
    c = .sfr Reg.DMAARM → (bitSet val i = false ∨ bitSet val 7 = true) →
      (st.hw.tabDMACh i).DmaChState = .DMAChannelIdle ∨ (st.hw.tabDMACh i).DmaChState = .DisarmChannel
  | .config, _ | .happen _, _ | .set _ _, _ => true

/-- A check of the condition for `ArmedBits`, for such transfers. -/
def armedCheck : Label → DmaSt → Bool
  | .trans j, st =>
    ((st.hw.tabDMACh j).DmaChState = .TransferOneByteOrWord → ∀ p ∈ (st.hw.tabDMACh j).moves, PlainXram p.2) ∧
      ((st.hw.tabDMACh j).DmaChState = .LoadDMAChannelConfig ∨ (st.hw.tabDMACh j).DmaChState = .DisarmChannel →
        (st.hw.tabDMACh j).armed = false)
  | .write c val, _ => c = .sfr Reg.DMAARM → val &&& 0xE0 = 0
  | .config, _ | .happen _, _ | .set _ _, _ => true

/-- Transfers to plain memory do not write `DMAARM`. -/
theorem transferMeets_of_plain {C : Conditions} (hC : ∀ c val st, c ≠ .sfr Reg.DMAARM → C.write c val st)
    {j : Fin 5} {st : DmaSt} (hplain : ∀ p ∈ (st.hw.tabDMACh j).moves, PlainXram p.2) : C.TransferMeets j st where
  first := hC _ _ _ ((hplain _ List.mem_cons_self).site_ne _ _)
  second _ _ p hp := hC _ _ _ ((hplain p (List.mem_of_mem_tail hp)).site_ne _ _)

theorem meets_of_disarmCheck {i : Fin 5} (a : Label) (st : DmaSt) (h : disarmCheck i a st = true) :
    (disarmCond i).Meets a st := by
  cases a with
  | config => trivial
  | set c val => trivial
  | happen he => trivial
  | write c val =>
    have hwrite := of_decide_eq_true h
    exact hwrite
  | trans j =>
    refine ⟨fun _ => trivial, fun hstate => ?_, fun _ => trivial⟩
    exact transferMeets_of_plain (fun c val st hc h => absurd h hc) (of_decide_eq_true h hstate)

theorem meets_of_armedCheck (a : Label) (st : DmaSt) (h : armedCheck a st = true) : armedCond.Meets a st := by
  cases a with
  | config => trivial
  | set c val => trivial
  | happen he => trivial
  | write c val =>
    have hwrite := of_decide_eq_true h
    exact hwrite
  | trans j =>
    obtain ⟨hplain, harmed⟩ := of_decide_eq_true h
    refine ⟨fun hstate => harmed (.inl hstate), fun hstate => ?_, fun hstate => harmed (.inr hstate)⟩
    exact transferMeets_of_plain (fun c val st hc h => absurd h hc) (hplain hstate)

/-- The bit of channel 0 is cleared before the channel loads its configuration, and not changed again. -/
def clearedBeforeLoad : List Label :=
  [.write (.sfr Reg.DMAARM) 1, .trans 0, .write (.sfr Reg.DMAARM) 0, .trans 0, .write (.sfr Reg.DMAREQ) 1, .trans 0,
    .trans 0]

/-- In each of two runs one unit of five is moved after the first trigger. -/
theorem disarming_oneUnit :
    (∃ st : DmaSt, (st.hw.tabDMACh 0).tally.units = 1 ∧ (st.hw.tabDMACh 0).StopsWhenCleared) ∧
      ∃ st : DmaSt, (st.hw.tabDMACh 0).tally.units = 1 ∧ ArmedBits st := by
  have hinit := startFrom_init [0, 0x10, 0, 0x20, 0, 5, 0, 0x50]
  constructor
  · have hrun : ((run (disarmCheck 0) (firstTrigger ++ [.trans 0])
        (startFrom [0, 0x10, 0, 0x20, 0, 5, 0, 0x50])).map
          fun st => (st.hw.tabDMACh 0).tally.units) = some 1 := by decide +kernel
    obtain ⟨st, hst, hunits⟩ := Option.map_eq_some_iff.mp hrun
    exact ⟨st, hunits, (disarming 0).1 st (run_reachable meets_of_disarmCheck (.init hinit) hst)⟩
  · have hrun : ((run armedCheck clearedBeforeLoad (startFrom [0, 0x10, 0, 0x20, 0, 5, 0, 0x50])).map
        fun st => (st.hw.tabDMACh 0).tally.units) = some 1 := by decide +kernel
    obtain ⟨st, hst, hunits⟩ := Option.map_eq_some_iff.mp hrun
    exact ⟨st, hunits, (disarming 0).2 st (run_reachable meets_of_armedCheck (.init hinit) hst)⟩

/-- A channel whose bit is cleared while it loads its configuration moves a byte at the next trigger, and
after ABORT `DMAARM` reads as `0x80`. -/
theorem cleared_channel_moves :
    (¬ ∀ (i : Fin 5) (st : DmaSt), system.Reachable st → (st.hw.tabDMACh i).StopsWhenCleared) ∧
      ¬ ∀ st : DmaSt, system.Reachable st → ArmedBits st := by
  have hreach (l : List Label) {st : DmaSt} (hrun : run (fun _ _ => true) l
      (startFrom [0, 0x10, 0, 0x20, 0, 5, 0, 0x50]) = some st) : system.Reachable st :=
    (run_reachable (C := fun _ _ => True) (fun _ _ _ => trivial) (.init (startFrom_init _)) hrun).of_guard
  constructor
  · intro h
    have hrun : ((run (fun _ _ => true) clearedBeforeLoad
        (startFrom [0, 0x10, 0, 0x20, 0, 5, 0, 0x50])).map fun st => (st.hw.tabDMACh 0).calls)
        = some [.arm true .DMAChannelIdle, .arm false .LoadDMAChannelConfig, .trigger .DMAChannelArmed,
          .move 0x10 0x20, .unit] := by decide +kernel
    obtain ⟨st, hst, hcalls⟩ := Option.map_eq_some_iff.mp hrun
    obtain ⟨state, hmem⟩ := h 0 st (hreach _ hst) [.arm true .DMAChannelIdle]
      [.trigger .DMAChannelArmed] [.unit] _ _ _ hcalls
    simp at hmem
  · intro h
    have hrun : ((run (fun _ _ => true) [.write (.sfr Reg.DMAARM) 0x80]
        (startFrom [0, 0x10, 0, 0x20, 0, 5, 0, 0x50])).map
          fun st => bitSet (element.readReg (.sfr Reg.DMAARM) st) 7) = some true := by decide +kernel
    obtain ⟨st, hst, hbit⟩ := Option.map_eq_some_iff.mp hrun
    have hzero := h st (hreach _ hst) 7
    rw [hbit, dif_neg (by decide)] at hzero
    cases hzero

end Dma

end Ucsim.S51
