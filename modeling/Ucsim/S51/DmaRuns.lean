import Ucsim.Logic.Run
import Ucsim.S51.DmaBlock

/-!
# Runs of the DMA controller

What can happen to the controller: ticks channel by channel, events and writes of the processor. A tick
moves bytes, and these may be written to the registers of the controller itself.
-/

namespace Ucsim.S51

open Logic

namespace Dma

open DMAchannel

/-- What can happen. `set` is what other hardware does to its own cells. -/
inductive Label
  | config
  | trans (j : Fin 5)
  | happen (he : HwEvent)
  | write (c : Site) (val : TMem)
  | set (c : Site) (val : TMem)

/-- One step. `DMAARM` is not a cell of other hardware. -/
def step : Label → DmaSt → Option DmaSt
  | .config, st => some (configChannelAddresses st)
  | .trans j, st => stateTrans j st
  | .happen he, st => some (happen he st)
  | .write c val, st => some (element.writeCell c val st)
  | .set c val, st =>
    if c = .sfr Reg.DMAARM then none else some { st with mem := Function.update st.mem c val }

/-- The runs from idle channels. -/
def system : System Label DmaSt where
  init st := st.mem (.sfr Reg.DMAARM) = 0 ∧ ∀ i, (st.hw.tabDMACh i).DmaChState = .DMAChannelIdle ∧
    (st.hw.tabDMACh i).armed = false ∧ (st.hw.tabDMACh i).calls = []
  step a st st' := step a st = some st'

/-- Steps one after the other, as long as each of them passes a check. -/
def run (ok : Label → DmaSt → Bool) : List Label → DmaSt → Option DmaSt
  | [], st => some st
  | a :: l, st => if ok a st then (step a st).bind (run ok l) else none

theorem run_reachable {ok : Label → DmaSt → Bool} {C : Label → DmaSt → Prop}
    (hok : ∀ a st, ok a st = true → C a st) {l : List Label} {st st' : DmaSt}
    (h : (system.guard C).Reachable st) (hrun : run ok l st = some st') :
    (system.guard C).Reachable st' := by
  induction l generalizing st with
  | nil =>
    rw [← Option.some.inj hrun]
    exact h
  | cons a l ih =>
    unfold run at hrun
    split at hrun
    · next ha =>
      obtain ⟨st₁, h₁, hrest⟩ := Option.bind_eq_some_iff.mp hrun
      have hstep : (system.guard C).step a st st₁ := ⟨hok a st ha, h₁⟩
      exact ih (h.step hstep) hrest
    · cases hrun

/-- The controller after `reset`, with the bytes of a configuration at the address 0. -/
def startFrom (config : List TMem) : DmaSt where
  mem := configMemory 0 config
  hw := initial

theorem startFrom_init (config : List TMem) : system.init (startFrom config) :=
  ⟨rfl, fun _ => ⟨rfl, rfl, rfl⟩⟩

/-! ## Conditions on runs -/

/-- Conditions on what a run does: on writes of cells, by the processor or by a transfer, on events, and on
the loading of the configuration and the disarming of a channel. -/
structure Conditions where
  write : Site → TMem → DmaSt → Prop
  happen : HwEvent → DmaSt → Prop
  load : Fin 5 → DmaSt → Prop
  disarm : Fin 5 → DmaSt → Prop

/-- A byte that is moved meets the condition on writes. -/
def Conditions.MoveMeets (C : Conditions) (j : Fin 5) (src dst : Int) (st : DmaSt) : Prop :=
  C.write (xramByte (st.mem mcon) dst) (Element.xramRead src st) (setChannel j (log (.move src dst)) st)

/-- A transfer meets the condition on writes: the second byte of a word is moved when the first one has been. -/
structure Conditions.TransferMeets (C : Conditions) (j : Fin 5) (st : DmaSt) : Prop where
  first : C.MoveMeets j (st.hw.tabDMACh j).s (st.hw.tabDMACh j).d st
  second : ∀ st₁, move j (st.hw.tabDMACh j).s (st.hw.tabDMACh j).d st = some st₁ →
    ∀ p ∈ (st.hw.tabDMACh j).moves.tail, C.MoveMeets j p.1 p.2 st₁

/-- A step meets the conditions. -/
def Conditions.Meets (C : Conditions) : Label → DmaSt → Prop
  | .config, _ => True
  | .trans j, st =>
    ((st.hw.tabDMACh j).DmaChState = .LoadDMAChannelConfig → C.load j st) ∧
      ((st.hw.tabDMACh j).DmaChState = .TransferOneByteOrWord → C.TransferMeets j st) ∧
      ((st.hw.tabDMACh j).DmaChState = .DisarmChannel → C.disarm j st)
  | .happen he, st => C.happen he st
  | .write c val, st => C.write c val st
  | .set _ _, _ => True

/-- The channel after a unit has been counted: what `afterTransfer` does to it. -/
def afterChannel (ch : DMAchannel) : DMAchannel :=
  if ch.TransferCount ≤ 0 then ch.finish
  else if ch.single ∧ ¬ ch.triggered then ch.enter .DMAChannelArmed
  else ch

theorem afterTransfer_channel (j : Fin 5) (st : DmaSt) :
    (afterTransfer j st).hw.tabDMACh j = afterChannel (st.hw.tabDMACh j) := by
  unfold afterTransfer afterChannel
  dsimp only
  split
  · rw [setChannel_self]
    split <;> rfl
  · split
    · exact setChannel_self _ _ _
    · rfl

theorem afterTransfer_of_ne {i j : Fin 5} (h : i ≠ j) (st : DmaSt) :
    (afterTransfer j st).hw.tabDMACh i = st.hw.tabDMACh i := by
  unfold afterTransfer
  dsimp only
  split
  · rw [setChannel_of_ne h]
    split <;> rfl
  · split
    · exact setChannel_of_ne h _ _
    · rfl

/-- A transfer sets bits of other registers. -/
theorem afterTransfer_DMAARM (j : Fin 5) (st : DmaSt) :
    (afterTransfer j st).mem (.sfr Reg.DMAARM) = st.mem (.sfr Reg.DMAARM) := by
  have hset (r : Int) (hr : Site.sfr Reg.DMAARM ≠ .sfr r) (bits : TMem) (st : DmaSt) :
      (setBit1 r bits st).mem (.sfr Reg.DMAARM) = st.mem (.sfr Reg.DMAARM) := Function.update_of_ne hr _ _
  unfold afterTransfer
  dsimp only
  split
  · rw [setChannel_mem]
    split
    · rw [hset _ (by decide), hset _ (by decide)]
    · rw [hset _ (by decide)]
  · split <;> rfl

/-! ## What runs keep -/

/-- What each thing that can happen keeps, under the conditions. -/
structure Kept (C : Conditions) (P : DmaSt → Prop) : Prop where
  config {st : DmaSt} : P st → P (configChannelAddresses st)
  happen {st : DmaSt} {he : HwEvent} : P st → C.happen he st → P (Dma.happen he st)
  write {st : DmaSt} {c : Site} {val : TMem} : P st → C.write c val st → P (element.writeCell c val st)
  set {st : DmaSt} {c : Site} {val : TMem} : P st → c ≠ .sfr Reg.DMAARM →
    P { st with mem := Function.update st.mem c val }
  enterLoad {st : DmaSt} {j : Fin 5} : P st → (st.hw.tabDMACh j).DmaChState = .DMAChannelIdle →
    (st.hw.tabDMACh j).armed = true → P (setChannel j (enter .LoadDMAChannelConfig) st)
  load {st : DmaSt} {j : Fin 5} : P st → (st.hw.tabDMACh j).DmaChState = .LoadDMAChannelConfig →
    C.load j st → P (setChannel j (fun ch =>
      (ch.loadConfig st.hw.ObjInit (fun a => Element.xramRead a st) ch.ConfigAddress).enter
        .DMAChannelArmed) st)
  take {st : DmaSt} {j : Fin 5} : P st → (st.hw.tabDMACh j).DmaChState = .DMAChannelArmed →
    (st.hw.tabDMACh j).triggered = true → P (setChannel j takeTrigger st)
  log {st : DmaSt} {j : Fin 5} {src dst : Int} : P st →
    (st.hw.tabDMACh j).DmaChState = .TransferOneByteOrWord →
    P (setChannel j (DMAchannel.log (.move src dst)) st)
  unit {st : DmaSt} {j : Fin 5} : P st → (st.hw.tabDMACh j).DmaChState = .TransferOneByteOrWord →
    P (afterTransfer j (setChannel j updateCounters st))
  disarm {st : DmaSt} {j : Fin 5} : P st → (st.hw.tabDMACh j).DmaChState = .DisarmChannel →
    C.disarm j st → P (setChannel j DMAchannel.disarm st)

/-- What a write leaves alone. -/
theorem writeChannel_fields (c : Site) (val : TMem) (i : Fin 5) (ch : DMAchannel) :
    (writeChannel c val i ch).DmaChState = ch.DmaChState ∧ (writeChannel c val i ch).moves = ch.moves := by
  unfold writeChannel
  split
  · split <;> exact ⟨rfl, rfl⟩
  · split
    · split <;> exact ⟨rfl, rfl⟩
    · split
      · split <;> exact ⟨rfl, rfl⟩
      · exact ⟨rfl, rfl⟩

/-- What a move leaves alone. -/
theorem move_fields {j : Fin 5} {src dst : Int} {st st' : DmaSt} (h : move j src dst st = some st') :
    (st'.hw.tabDMACh j).DmaChState = (st.hw.tabDMACh j).DmaChState ∧
      (st'.hw.tabDMACh j).moves = (st.hw.tabDMACh j).moves := by
  unfold move Element.xramWrite at h
  split at h
  · cases h
  · rw [writeCell_eq, Option.some.injEq] at h
    subst h
    obtain ⟨hstate, hmoves⟩ := writeChannel_fields (xramByte (st.mem mcon) dst)
      (Element.xramRead src st) j (log (.move src dst) (st.hw.tabDMACh j))
    dsimp only
    rw [setChannel_self]
    exact ⟨hstate, hmoves⟩

namespace Kept

variable {C : Conditions} {P : DmaSt → Prop} {st st' : DmaSt} {j : Fin 5}

theorem move (K : Kept C P) {src dst : Int} (h : P st)
    (hstate : (st.hw.tabDMACh j).DmaChState = .TransferOneByteOrWord) (hC : C.MoveMeets j src dst st)
    (hmove : Dma.move j src dst st = some st') : P st' := by
  unfold Dma.move Element.xramWrite at hmove
  split at hmove
  · cases hmove
  · rw [← Option.some.inj hmove]
    exact K.write (K.log h hstate) hC

theorem transfer (K : Kept C P) (h : P st)
    (hstate : (st.hw.tabDMACh j).DmaChState = .TransferOneByteOrWord) (hC : C.TransferMeets j st)
    (htransfer : Dma.transfer j st = some st') : P (afterTransfer j st') := by
  obtain ⟨st₁, h₁, htransfer⟩ := Option.bind_eq_some_iff.mp htransfer
  obtain ⟨st₂, h₂, htransfer⟩ := Option.bind_eq_some_iff.mp htransfer
  obtain ⟨hstate₁, hmoves₁⟩ := move_fields h₁
  have hP₁ := K.move h hstate hC.first h₁
  rw [hstate] at hstate₁
  -- The second byte, if there is one.
  obtain ⟨hP₂, hstate₂⟩ : P st₂ ∧ (st₂.hw.tabDMACh j).DmaChState = .TransferOneByteOrWord := by
    have hmeets : ∀ p ∈ (st₁.hw.tabDMACh j).moves.tail, C.MoveMeets j p.1 p.2 st₁ := by
      rw [hmoves₁]
      exact hC.second st₁ h₁
    unfold moveSecond at h₂
    dsimp only at h₂
    unfold moves at hmeets
    rw [List.tail_cons] at hmeets
    split at h₂
    · next hword =>
      rw [if_pos hword] at hmeets
      have hmeets' := hmeets _ List.mem_cons_self
      split at h₂
      · next hup =>
        rw [if_pos hup] at hmeets'
        exact ⟨K.move hP₁ hstate₁ hmeets' h₂, (move_fields h₂).1.trans hstate₁⟩
      · next hup =>
        rw [if_neg hup] at hmeets'
        exact ⟨K.move hP₁ hstate₁ hmeets' h₂, (move_fields h₂).1.trans hstate₁⟩
    · cases h₂
      exact ⟨hP₁, hstate₁⟩
  rw [← Option.some.inj htransfer]
  exact K.unit hP₂ hstate₂

theorem step (K : Kept C P) {a : Label} (h : P st) (hC : C.Meets a st)
    (hstep : Dma.step a st = some st') : P st' := by
  cases a with
  | config =>
    rw [← Option.some.inj hstep]
    exact K.config h
  | happen he =>
    rw [← Option.some.inj hstep]
    exact K.happen h hC
  | write c val =>
    rw [← Option.some.inj hstep]
    exact K.write h hC
  | set c val =>
    change (if c = .sfr Reg.DMAARM then none
      else some { st with mem := Function.update st.mem c val }) = some st' at hstep
    split at hstep
    · cases hstep
    · next hc =>
      rw [← Option.some.inj hstep]
      exact K.set h hc
  | trans j =>
    change stateTrans j st = some st' at hstep
    cases hstate : (st.hw.tabDMACh j).DmaChState with
    | DMAChannelIdle =>
      rw [stateTrans_idle hstate] at hstep
      rw [← Option.some.inj hstep]
      split
      · next harmed => exact K.enterLoad h hstate harmed
      · exact h
    | LoadDMAChannelConfig =>
      rw [stateTrans_load hstate] at hstep
      rw [← Option.some.inj hstep]
      exact K.load h hstate (hC.1 hstate)
    | DMAChannelArmed =>
      rw [stateTrans_armed hstate] at hstep
      rw [← Option.some.inj hstep]
      split
      · next htriggered => exact K.take h hstate htriggered
      · exact h
    | TransferOneByteOrWord =>
      rw [stateTrans_transfer hstate] at hstep
      obtain ⟨st₁, h₁, rfl⟩ := Option.map_eq_some_iff.mp hstep
      exact K.transfer h hstate (hC.2.1 hstate) h₁
    | SetInterruptFlag =>
      unfold stateTrans at hstep
      dsimp only at hstep
      rw [hstate] at hstep
      cases hstep
    | DisarmChannel =>
      rw [stateTrans_disarm hstate] at hstep
      rw [← Option.some.inj hstep]
      exact K.disarm h hstate (hC.2.2 hstate)

/-- What is kept holds in every run whose steps meet the conditions. -/
theorem reachable (K : Kept C P) (hinit : ∀ st, system.init st → P st)
    (h : (system.guard C.Meets).Reachable st) : P st :=
  System.Reachable.guard_invariant hinit (fun _ _ _ _ hP hC hstep => K.step hP hC hstep) h

end Kept

/-! ## What runs keep of one channel -/

/-- What each thing that can happen to channel `i` keeps, under the conditions. -/
structure ChannelRules (i : Fin 5) (C : Conditions) (Q : DMAchannel → Prop) : Prop where
  address {ch : DMAchannel} (a : Int) : Q ch → Q (ch.withAddress a)
  happen {st : DmaSt} {he : HwEvent} : Q (st.hw.tabDMACh i) → C.happen he st →
    (st.hw.tabDMACh i).TriggerEvent = he.Trigger → Q (st.hw.tabDMACh i).trigger
  write {st : DmaSt} {c : Site} {val : TMem} : Q (st.hw.tabDMACh i) → C.write c val st →
    Q (writeChannel c val i (st.hw.tabDMACh i))
  enterLoad {ch : DMAchannel} : Q ch → ch.DmaChState = .DMAChannelIdle → ch.armed = true →
    Q (ch.enter .LoadDMAChannelConfig)
  load {st : DmaSt} : Q (st.hw.tabDMACh i) →
    (st.hw.tabDMACh i).DmaChState = .LoadDMAChannelConfig → C.load i st →
    Q (((st.hw.tabDMACh i).loadConfig st.hw.ObjInit (fun a => Element.xramRead a st)
      (st.hw.tabDMACh i).ConfigAddress).enter .DMAChannelArmed)
  take {ch : DMAchannel} : Q ch → ch.DmaChState = .DMAChannelArmed → ch.triggered = true →
    Q ch.takeTrigger
  log {ch : DMAchannel} (src dst : Int) : Q ch → ch.DmaChState = .TransferOneByteOrWord →
    Q (ch.log (.move src dst))
  unit {ch : DMAchannel} : Q ch → ch.DmaChState = .TransferOneByteOrWord → Q (afterChannel ch.updateCounters)
  disarm {ch : DMAchannel} : Q ch → ch.DmaChState = .DisarmChannel → Q ch.disarm

/-- The steps of the other channels change channel `i` by their writes only. -/
theorem ChannelRules.kept {i : Fin 5} {C : Conditions} {Q : DMAchannel → Prop} (R : ChannelRules i C Q) :
    Kept C fun st => Q (st.hw.tabDMACh i) := by
  have hset {st : DmaSt} {j : Fin 5} {f : DMAchannel → DMAchannel} (h : Q (st.hw.tabDMACh i))
      (hf : j = i → Q (f (st.hw.tabDMACh i))) : Q ((setChannel j f st).hw.tabDMACh i) := by
    by_cases hj : j = i
    · subst hj
      rw [setChannel_self]
      exact hf rfl
    · rwa [setChannel_of_ne (Ne.symm hj)]
  refine ⟨fun h => R.address _ h, ?_, ?_, fun h _ => h, ?_, ?_, ?_, ?_, ?_, ?_⟩
  · intro st he h hC
    unfold Dma.happen mapChannels
    dsimp only
    split
    · next htrigger => exact R.happen h hC htrigger
    · exact h
  · intro st c val h hC
    rw [writeCell_eq]
    exact R.write h hC
  · intro st j h hstate harmed
    refine hset h ?_
    rintro rfl
    exact R.enterLoad h hstate harmed
  · intro st j h hstate hC
    refine hset h ?_
    rintro rfl
    exact R.load h hstate hC
  · intro st j h hstate htriggered
    refine hset h ?_
    rintro rfl
    exact R.take h hstate htriggered
  · intro st j src dst h hstate
    refine hset h ?_
    rintro rfl
    exact R.log src dst h hstate
  · intro st j h hstate
    by_cases hj : j = i
    · subst hj
      rw [afterTransfer_channel, setChannel_self]
      exact R.unit h hstate
    · rwa [afterTransfer_of_ne (Ne.symm hj), setChannel_of_ne (Ne.symm hj)]
  · intro st j h hstate _
    refine hset h ?_
    rintro rfl
    exact R.disarm h hstate

end Dma

end Ucsim.S51
