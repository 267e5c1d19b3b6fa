import Ucsim.S51.DmaRuns

/-!
# Single transfers of the DMA controller

In single mode each trigger moves one unit. One flag holds the trigger that is pending.
-/

namespace Ucsim.S51

open Logic

/-- What a history amounts to: the units since the channel was armed, the triggers it has received in the
states that wait for triggers or transfer, and the triggers received since its bit in `DMAARM` was written
that have not moved a unit. `live` tells that the bit has been written, and that since then it has not been
cleared and the transfer has not come to its end. -/
structure Tally where
  units : Nat
  triggers : Nat
  pending : Nat
  live : Bool

namespace Tally

/-- One more entry of the history. -/
def count (t : Tally) : DmaCall → Tally
  | .arm true state =>
    if state = .DMAChannelIdle then { t with units := 0, triggers := 0, live := true }
    else { t with live := true }
  | .arm false _ => { t with pending := 0, live := false }
  | .trigger state =>
    { t with
      triggers := if state = .DMAChannelArmed ∨ state = .TransferOneByteOrWord then t.triggers + 1
        else t.triggers
      pending := if t.live then t.pending + 1 else t.pending }
  | .move _ _ => t
  | .unit => { t with units := t.units + 1, pending := t.pending - 1 }
  | .irq repeated => { t with live := t.live && repeated }

end Tally

namespace DMAchannel

/-- What the history of a channel amounts to. -/
def tally (ch : DMAchannel) : Tally :=
  ch.calls.foldl Tally.count { units := 0, triggers := 0, pending := 0, live := false }

theorem tally_log (call : DmaCall) (ch : DMAchannel) : (ch.log call).tally = ch.tally.count call :=
  List.foldl_append

theorem tally_congr {ch ch' : DMAchannel} (h : ch'.calls = ch.calls) : ch'.tally = ch.tally := by
  rw [tally, tally, h]

@[simp] theorem tally_enter (state : DMAChStates) (ch : DMAchannel) : (ch.enter state).tally = ch.tally := rfl

@[simp] theorem tally_trigger (ch : DMAchannel) :
    ch.trigger.tally = ch.tally.count (.trigger ch.DmaChState) := tally_log _ _

@[simp] theorem tally_arm (bit : Bool) (ch : DMAchannel) :
    (ch.arm bit).tally = ch.tally.count (.arm bit ch.DmaChState) := tally_log _ _

@[simp] theorem tally_updateCounters (ch : DMAchannel) : ch.updateCounters.tally = ch.tally.count .unit :=
  tally_log _ _

@[simp] theorem tally_finish (ch : DMAchannel) : ch.finish.tally = ch.tally.count (.irq ch.repeated) :=
  tally_log _ _

/-! ## The two properties -/

/-- No more units than triggers. -/
def UnitsBounded (ch : DMAchannel) : Prop := ch.tally.units ≤ ch.tally.triggers

/-- Every trigger that has not moved a unit is in the flag, or in the state that moves one. -/
def NoneLost (ch : DMAchannel) : Prop :=
  ch.tally.pending ≤ (if ch.triggered then 1 else 0)
    + if ch.DmaChState = .TransferOneByteOrWord then 1 else 0

/-- A trigger does not make the channel run away: when it comes during a transfer there is one pending
already, or at most two units are left. -/
def NoRunaway (ch : DMAchannel) : Prop :=
  ch.DmaChState = .TransferOneByteOrWord → ch.triggered = false → ch.TransferCount ≤ 2

/-- A trigger finds its place: when it counts, the channel waits for it, or there are two units left. -/
def FindsPlace (ch : DMAchannel) : Prop :=
  ch.tally.live = true → ch.triggered = false ∧ (ch.DmaChState = .DMAChannelArmed ∨
    ch.DmaChState = .TransferOneByteOrWord ∧ ch.TransferCount = 2)

instance (ch : DMAchannel) : Decidable ch.UnitsBounded := inferInstanceAs (Decidable (_ ≤ _))

instance (ch : DMAchannel) : Decidable ch.NoneLost := inferInstanceAs (Decidable (_ ≤ _))

instance : DecidablePred NoRunaway := fun _ => inferInstanceAs (Decidable (_ → _ → _))

instance : DecidablePred FindsPlace := fun _ => inferInstanceAs (Decidable (_ → _ ∧ (_ ∨ _ ∧ _)))

end DMAchannel

namespace Dma

open DMAchannel

/-- Conditions on the triggers that channel `i` receives, and on the configurations that it loads. -/
def triggerCond (i : Fin 5) (trigger load : DMAchannel → Prop) : Conditions where
  write c val st := c = .sfr Reg.DMAREQ → bitSet val i = true → trigger (st.hw.tabDMACh i)
  happen he st := (st.hw.tabDMACh i).TriggerEvent = he.Trigger → trigger (st.hw.tabDMACh i)
  load j st := j = i → load ((st.hw.tabDMACh i).loadConfig st.hw.ObjInit
    (fun a => Element.xramRead a st) (st.hw.tabDMACh i).ConfigAddress)
  disarm _ _ := True

/-- Runs in which channel `i` is in single mode. -/
def singleMode (i : Fin 5) : Conditions := triggerCond i (fun _ => True) fun ch => ch.single = true

/-- The condition for `UnitsBounded`, in single mode. -/
def unitsCond (i : Fin 5) : Conditions := triggerCond i NoRunaway fun ch => ch.single = true

/-- The condition for `NoneLost`. -/
def lostCond (i : Fin 5) : Conditions := triggerCond i FindsPlace fun _ => True

/-- A write triggers the channel, arms it, or makes it request interrupts. -/
theorem writeChannel_cases {Q : DMAchannel → Prop} {c : Site} {val : TMem} {i : Fin 5} {ch : DMAchannel}
    (h : Q ch) (htrigger : c = .sfr Reg.DMAREQ → bitSet val i = true → Q ch.trigger)
    (harm : ∀ bit ch, Q ch → Q (ch.arm bit)) (hmask : ∀ ch, Q ch → Q { ch with ITmask := true }) :
    Q (writeChannel c val i ch) := by
  unfold writeChannel
  split
  · next hc =>
    split
    · next hbit => exact htrigger hc hbit
    · exact h
  · split
    · split
      · exact harm _ _ (harm _ _ h)
      · exact harm _ _ h
    · split
      · split
        · exact hmask _ h
        · exact h
      · exact h

/-! ## Units and triggers -/

/-- What single mode keeps of units and triggers. -/
structure UnitsInv (ch : DMAchannel) : Prop where
  le : ch.tally.units ≤ ch.tally.triggers
  single : ch.DmaChState = .DMAChannelArmed ∨ ch.DmaChState = .TransferOneByteOrWord → ch.single = true
  armed : ch.DmaChState = .DMAChannelArmed → ch.triggered = true → ch.tally.units + 1 ≤ ch.tally.triggers
  transfer : ch.DmaChState = .TransferOneByteOrWord → ch.tally.units + 1 ≤ ch.tally.triggers
  run : ch.DmaChState = .TransferOneByteOrWord → ch.triggered = true →
    (ch.tally.units : Int) + ch.TransferCount ≤ ch.tally.triggers

namespace UnitsInv

variable {ch : DMAchannel}

theorem trigger (h : UnitsInv ch) (hC : NoRunaway ch) : UnitsInv ch.trigger := by
  obtain ⟨hle, hsingle, harmed, htransfer, hrun⟩ := h
  have hstate : ch.trigger.DmaChState = ch.DmaChState := rfl
  have hcount : ch.trigger.TransferCount = ch.TransferCount := rfl
  refine ⟨?_, hsingle, ?_, ?_, ?_⟩ <;> rw [tally_trigger] <;> dsimp only [Tally.count]
  · split <;> omega
  · intro h _
    rw [hstate] at h
    rw [if_pos (Or.inl h)]
    omega
  · intro h
    rw [hstate] at h
    rw [if_pos (Or.inr h)]
    have := htransfer h
    omega
  · intro h _
    rw [hstate] at h
    rw [hcount, if_pos (Or.inr h)]
    have htransfer := htransfer h
    cases htrig : ch.triggered with
    | false =>
      have := hC h htrig
      omega
    | true =>
      have := hrun h htrig
      omega

theorem arm (bit : Bool) (h : UnitsInv ch) : UnitsInv (ch.arm bit) := by
  obtain ⟨hle, hsingle, harmed, htransfer, hrun⟩ := h
  cases bit with
  | false =>
    refine ⟨?_, hsingle, ?_, ?_, ?_⟩ <;> rw [tally_arm]
    · exact hle
    · exact harmed
    · exact htransfer
    · exact hrun
  | true =>
    by_cases hidle : ch.DmaChState = .DMAChannelIdle
    · have hne : ∀ state, (ch.arm true).DmaChState = state → state = .DMAChannelIdle := by
        rintro state rfl
        exact hidle
      refine ⟨?_, hsingle, ?_, ?_, ?_⟩
      · rw [tally_arm, Tally.count, if_pos hidle]
      · intro h
        cases hne _ h
      · intro h
        cases hne _ h
      · intro h
        cases hne _ h
    · refine ⟨?_, hsingle, ?_, ?_, ?_⟩ <;> rw [tally_arm, Tally.count, if_neg hidle]
      · exact hle
      · exact harmed
      · exact htransfer
      · exact hrun

theorem unit (h : UnitsInv ch) (hstate : ch.DmaChState = .TransferOneByteOrWord) :
    UnitsInv (afterChannel ch.updateCounters) := by
  obtain ⟨hle, hsingle, harmed, htransfer, hrun⟩ := h
  have htransfer := htransfer hstate
  have hsingle := hsingle (Or.inr hstate)
  unfold afterChannel
  split
  · -- The end of the transfers.
    have hend : ch.updateCounters.finish.DmaChState = .LoadDMAChannelConfig ∨
        ch.updateCounters.finish.DmaChState = .DisarmChannel := by
      change (if ch.repeated = true then DMAChStates.LoadDMAChannelConfig else .DisarmChannel) = _ ∨
        (if ch.repeated = true then DMAChStates.LoadDMAChannelConfig else .DisarmChannel) = _
      split
      · exact Or.inl rfl
      · exact Or.inr rfl
    refine ⟨?_, ?_, ?_, ?_, ?_⟩
    · rw [tally_finish, tally_updateCounters]
      exact htransfer
    all_goals
      intro h
      rcases hend with hend | hend <;> simp [hend] at h
  · next hcount =>
    have hleft : ¬ ch.TransferCount - 1 ≤ 0 := hcount
    split
    · next hwait =>
      have htrig : ch.triggered = false := Bool.eq_false_iff.mpr hwait.2
      refine ⟨?_, fun _ => hsingle, ?_, ?_, ?_⟩
      · rw [tally_enter, tally_updateCounters]
        exact htransfer
      · intro _ h
        change ch.triggered = true at h
        rw [htrig] at h
        cases h
      · intro h
        cases h
      · intro h
        cases h
    · next hwait =>
      have htrig : ch.triggered = true := by
        change ¬ (ch.single = true ∧ ¬ ch.triggered = true) at hwait
        simpa [hsingle] using hwait
      have hrun := hrun hstate htrig
      refine ⟨?_, fun _ => hsingle, ?_, ?_, ?_⟩
      · rw [tally_updateCounters]
        exact htransfer
      · intro h
        change ch.DmaChState = .DMAChannelArmed at h
        rw [hstate] at h
        cases h
      · intro _
        rw [tally_updateCounters]
        dsimp only [Tally.count]
        omega
      · intro _ _
        rw [tally_updateCounters]
        have hcount' : ch.updateCounters.TransferCount = ch.TransferCount - 1 := rfl
        rw [hcount']
        dsimp only [Tally.count]
        omega

/-- The number of units is not more than that of the triggers. -/
theorem rules (i : Fin 5) : ChannelRules i (unitsCond i) UnitsInv where
  address _ h := ⟨h.le, h.single, h.armed, h.transfer, h.run⟩
  happen h hC htrigger := h.trigger (hC htrigger)
  write h hC := writeChannel_cases h (fun hc hbit => h.trigger (hC hc hbit)) (fun bit _ h => h.arm bit)
    fun _ h => ⟨h.le, h.single, h.armed, h.transfer, h.run⟩
  enterLoad h _ _ := by
    refine ⟨h.le, ?_, ?_, ?_, ?_⟩
    · rintro (h | h) <;> cases h
    all_goals
      intro h
      cases h
  load {st} h _ hC := by
    have hload := hC rfl
    generalize hch : (st.hw.tabDMACh i).loadConfig st.hw.ObjInit (fun a => Element.xramRead a st)
      (st.hw.tabDMACh i).ConfigAddress = ch at hload
    have htally : ch.tally = (st.hw.tabDMACh i).tally := by
      rw [← hch]
      exact tally_congr (calls_loadConfig _ _ _ _)
    have htrig : ch.triggered = false := by
      rw [← hch]
      unfold loadConfig
      cases st.hw.ObjInit <;> rfl
    refine ⟨?_, fun _ => hload, ?_, ?_, ?_⟩
    · rw [tally_enter, htally]
      exact h.le
    · intro _ h
      change ch.triggered = true at h
      rw [htrig] at h
      cases h
    · intro h
      cases h
    · intro h
      cases h
  take h hstate htriggered := by
    refine ⟨h.le, fun _ => h.single (Or.inl hstate), ?_, fun _ => h.armed hstate htriggered, ?_⟩
    · intro h
      cases h
    · intro _ h
      cases h
  log {ch} src dst h _ := by
    have htally := tally_log (.move src dst) ch
    exact ⟨htally ▸ h.le, h.single, htally ▸ h.armed, htally ▸ h.transfer, htally ▸ h.run⟩
  unit h hstate := h.unit hstate
  disarm h _ := by
    refine ⟨h.le, ?_, ?_, ?_, ?_⟩
    · rintro (h | h) <;> cases h
    all_goals
      intro h
      cases h

end UnitsInv

/-! ## Pending triggers -/

/-- What the channel keeps of pending triggers. -/
structure LostInv (ch : DMAchannel) : Prop where
  armed : ch.DmaChState = .DMAChannelArmed → ch.tally.pending ≤ if ch.triggered then 1 else 0
  transfer : ch.DmaChState = .TransferOneByteOrWord →
    ch.tally.pending ≤ 1 ∨ ch.tally.pending = 2 ∧ ch.triggered = true ∧ ch.TransferCount = 2
  other : ch.DmaChState ≠ .DMAChannelArmed → ch.DmaChState ≠ .TransferOneByteOrWord → ch.tally.pending = 0

namespace LostInv

variable {ch : DMAchannel}

theorem noneLost (h : LostInv ch) : NoneLost ch := by
  unfold NoneLost
  by_cases harmed : ch.DmaChState = .DMAChannelArmed
  · have := h.armed harmed
    omega
  · by_cases htransfer : ch.DmaChState = .TransferOneByteOrWord
    · rw [if_pos htransfer]
      obtain hle | ⟨htwo, htrig, -⟩ := h.transfer htransfer
      · omega
      · rw [htwo, if_pos htrig]
    · rw [h.other harmed htransfer]
      exact Nat.zero_le _

theorem trigger (h : LostInv ch) (hC : FindsPlace ch) : LostInv ch.trigger := by
  have hstate : ch.trigger.DmaChState = ch.DmaChState := rfl
  have hpending : ch.trigger.tally.pending
      = if ch.tally.live = true then ch.tally.pending + 1 else ch.tally.pending := by
    rw [tally_trigger]
    rfl
  by_cases hlive : ch.tally.live = true
  · obtain ⟨htrig, hplace⟩ := hC hlive
    rw [if_pos hlive] at hpending
    refine ⟨?_, ?_, ?_⟩ <;> rw [hstate, hpending]
    · intro hs
      have harmed := h.armed hs
      rw [htrig] at harmed
      exact Nat.succ_le_succ harmed
    · intro hs
      obtain hs' | ⟨-, htwo⟩ := hplace
      · rw [hs] at hs'
        cases hs'
      · obtain hle | ⟨-, htrig', -⟩ := h.transfer hs
        · by_cases hone : ch.tally.pending = 1
          · exact Or.inr ⟨by rw [hone], rfl, htwo⟩
          · exact Or.inl (by omega)
        · rw [htrig] at htrig'
          cases htrig'
    · intro h₁ h₂
      obtain hs | ⟨hs, -⟩ := hplace
      · exact absurd hs h₁
      · exact absurd hs h₂
  · rw [if_neg hlive] at hpending
    refine ⟨?_, ?_, ?_⟩ <;> rw [hstate, hpending]
    · intro hs
      have := h.armed hs
      have htrig : ch.trigger.triggered = true := rfl
      rw [if_pos htrig]
      split at this <;> omega
    · intro hs
      exact (h.transfer hs).imp_right fun h => ⟨h.1, rfl, h.2.2⟩
    · exact h.other

theorem arm (bit : Bool) (h : LostInv ch) : LostInv (ch.arm bit) := by
  have hpending : (ch.arm bit).tally.pending = ch.tally.pending ∨ (ch.arm bit).tally.pending = 0 := by
    rw [tally_arm]
    cases bit with
    | false => exact Or.inr rfl
    | true =>
      left
      rw [Tally.count]
      split <;> rfl
  obtain hsame | hzero := hpending
  · refine ⟨?_, ?_, ?_⟩ <;> rw [hsame]
    · exact h.armed
    · exact h.transfer
    · exact h.other
  · refine ⟨?_, ?_, ?_⟩ <;> rw [hzero]
    · exact fun _ => Nat.zero_le _
    · exact fun _ => Or.inl (Nat.zero_le _)
    · exact fun _ _ => rfl

theorem unit (h : LostInv ch) (hstate : ch.DmaChState = .TransferOneByteOrWord) :
    LostInv (afterChannel ch.updateCounters) := by
  have htransfer := h.transfer hstate
  have hpending : ch.updateCounters.tally.pending = ch.tally.pending - 1 := by
    rw [tally_updateCounters]
    rfl
  have hcount : ch.updateCounters.TransferCount = ch.TransferCount - 1 := rfl
  unfold afterChannel
  rw [hcount]
  split
  · -- With two units left the transfer does not end here.
    have hzero : ch.updateCounters.finish.tally.pending = 0 := by
      rw [tally_finish]
      change ch.updateCounters.tally.pending = 0
      omega
    refine ⟨?_, ?_, ?_⟩ <;> rw [hzero]
    · exact fun _ => Nat.zero_le _
    · exact fun _ => Or.inl (Nat.zero_le _)
    · exact fun _ _ => rfl
  · split
    · next hwait =>
      have htrig : ch.triggered = false := Bool.eq_false_iff.mpr hwait.2
      have hle : ch.tally.pending ≤ 1 := by
        obtain hle | ⟨-, htrig', -⟩ := htransfer
        · exact hle
        · rw [htrig] at htrig'
          cases htrig'
      have hzero : (ch.updateCounters.enter .DMAChannelArmed).tally.pending = 0 := by
        rw [tally_enter, hpending]
        omega
      refine ⟨?_, ?_, ?_⟩ <;> rw [hzero]
      · exact fun _ => Nat.zero_le _
      · exact fun _ => Or.inl (Nat.zero_le _)
      · exact fun _ _ => rfl
    · have hs : ch.updateCounters.DmaChState = .TransferOneByteOrWord := hstate
      refine ⟨?_, ?_, ?_⟩ <;> rw [hs]
      · intro h
        cases h
      · intro _
        rw [hpending]
        exact Or.inl (by omega)
      · exact fun _ h => absurd rfl h

/-- No trigger is lost. -/
theorem rules (i : Fin 5) : ChannelRules i (lostCond i) LostInv where
  address _ h := ⟨h.armed, h.transfer, h.other⟩
  happen h hC htrigger := h.trigger (hC htrigger)
  write h hC := writeChannel_cases h (fun hc hbit => h.trigger (hC hc hbit)) (fun bit _ h => h.arm bit)
    fun _ h => ⟨h.armed, h.transfer, h.other⟩
  enterLoad {ch} h hstate _ := by
    have hzero : (ch.enter .LoadDMAChannelConfig).tally.pending = 0 :=
      h.other (by rw [hstate]; decide) (by rw [hstate]; decide)
    refine ⟨?_, ?_, fun _ _ => hzero⟩
    · intro h
      cases h
    · intro h
      cases h
  load {st} h hstate _ := by
    have hzero : (((st.hw.tabDMACh i).loadConfig st.hw.ObjInit (fun a => Element.xramRead a st)
        (st.hw.tabDMACh i).ConfigAddress).enter .DMAChannelArmed).tally.pending = 0 := by
      rw [tally_enter, tally_congr (calls_loadConfig _ _ _ _)]
      exact h.other (by rw [hstate]; decide) (by rw [hstate]; decide)
    refine ⟨?_, ?_, fun _ _ => hzero⟩
    · rw [hzero]
      exact fun _ => Nat.zero_le _
    · intro h
      cases h
  take {ch} h hstate htriggered := by
    have hone : ch.tally.pending ≤ 1 := by
      have := h.armed hstate
      rwa [if_pos htriggered] at this
    refine ⟨?_, fun _ => Or.inl hone, fun _ h => absurd rfl h⟩
    intro h
    cases h
  log {ch} src dst h _ := by
    have htally := tally_log (.move src dst) ch
    exact ⟨htally ▸ h.armed, htally ▸ h.transfer, htally ▸ h.other⟩
  unit h hstate := h.unit hstate
  disarm {ch} h hstate := by
    have hzero : ch.disarm.tally.pending = 0 :=
      h.other (by rw [hstate]; decide) (by rw [hstate]; decide)
    refine ⟨?_, ?_, fun _ _ => hzero⟩
    · intro h
      cases h
    · intro h
      cases h

end LostInv

/-! ## Runs -/

theorem initial_tally {i : Fin 5} {st : DmaSt} (h : system.init st) :
    (st.hw.tabDMACh i).DmaChState = .DMAChannelIdle ∧ (st.hw.tabDMACh i).tally.units = 0 ∧
      (st.hw.tabDMACh i).tally.triggers = 0 ∧ (st.hw.tabDMACh i).tally.pending = 0 := by
  obtain ⟨hstate, -, hcalls⟩ := h.2 i
  have htally : (st.hw.tabDMACh i).tally
      = { units := 0, triggers := 0, pending := 0, live := false } := by
    rw [tally, hcalls]
    rfl
  rw [htally]
  exact ⟨hstate, rfl, rfl, rfl⟩

/-- In single mode no more units are moved than triggers have been received as long as no trigger comes
during a transfer with more than two units left, and no trigger is lost as long as each of them, once the
bit of the channel in `DMAARM` has been written, finds its place. -/
theorem singleTransfers (i : Fin 5) :
    (∀ st, (system.guard (unitsCond i).Meets).Reachable st → UnitsBounded (st.hw.tabDMACh i)) ∧
      ∀ st, (system.guard (lostCond i).Meets).Reachable st → NoneLost (st.hw.tabDMACh i) := by
  constructor
  · intro st h
    refine ((UnitsInv.rules i).kept.reachable (fun st hinit => ?_) h).le
    obtain ⟨hstate, hunits, -, -⟩ := initial_tally (i := i) hinit
    refine ⟨?_, ?_, ?_, ?_, ?_⟩ <;> simp [hstate, hunits]
  · intro st h
    refine ((LostInv.rules i).kept.reachable (fun st hinit => ?_) h).noneLost
    obtain ⟨hstate, -, -, hpending⟩ := initial_tally (i := i) hinit
    refine ⟨?_, ?_, ?_⟩ <;> simp [hstate, hpending]

/-- A check of the conditions on triggers, for transfers that write no register. -/
def triggerCheck (i : Fin 5) (trigger load : DMAchannel → Prop) [DecidablePred trigger]
    [DecidablePred load] : Label → DmaSt → Bool
  | .config, _ => true
  | .trans j, st =>
    ((st.hw.tabDMACh j).DmaChState = .LoadDMAChannelConfig → j = i →
      load ((st.hw.tabDMACh i).loadConfig st.hw.ObjInit (fun a => Element.xramRead a st)
        (st.hw.tabDMACh i).ConfigAddress)) ∧
      ((st.hw.tabDMACh j).DmaChState = .TransferOneByteOrWord →
        ∀ p ∈ (st.hw.tabDMACh j).moves, PlainXram p.2)
  | .happen he, st => (st.hw.tabDMACh i).TriggerEvent = he.Trigger → trigger (st.hw.tabDMACh i)
  | .write c val, st => c = .sfr Reg.DMAREQ → bitSet val i = true → trigger (st.hw.tabDMACh i)
  | .set _ _, _ => true

theorem meets_of_triggerCheck {i : Fin 5} {trigger load trigger' load' : DMAchannel → Prop}
    [DecidablePred trigger] [DecidablePred load] (ht : ∀ ch, trigger ch → trigger' ch)
    (hl : ∀ ch, load ch → load' ch) (a : Label) (st : DmaSt)
    (h : triggerCheck i trigger load a st = true) : (triggerCond i trigger' load').Meets a st := by
  cases a with
  | config => trivial
  | set c val => trivial
  | happen he =>
    have htrigger := of_decide_eq_true h
    exact fun hevent => ht _ (htrigger hevent)
  | write c val =>
    have htrigger := of_decide_eq_true h
    exact fun hc hbit => ht _ (htrigger hc hbit)
  | trans j =>
    obtain ⟨hload, htransfer⟩ := of_decide_eq_true h
    refine ⟨fun hstate hj => hl _ (hload hstate hj), fun hstate => ⟨?_, ?_⟩, fun _ => trivial⟩
    · intro hc
      exact absurd hc ((htransfer hstate _ List.mem_cons_self).site_ne _ _)
    · intro st₁ _ p hp hc
      exact absurd hc ((htransfer hstate p (List.mem_of_mem_tail hp)).site_ne _ _)

/-- Channel 0 is armed, loads a configuration for single transfers of five bytes, and is triggered. -/
def firstTrigger : List Label :=
  [.write (.sfr Reg.DMAARM) 1, .trans 0, .trans 0, .write (.sfr Reg.DMAREQ) 1, .trans 0]

/-- One unit is moved. -/
theorem singleTransfers_oneUnit :
    ∃ st : DmaSt, (st.hw.tabDMACh 0).tally.units = 1 ∧ UnitsBounded (st.hw.tabDMACh 0) ∧
      NoneLost (st.hw.tabDMACh 0) := by
  have hrun : ((run (triggerCheck 0 (fun ch => NoRunaway ch ∧ FindsPlace ch) fun ch => ch.single = true)
      (firstTrigger ++ [.trans 0]) (startFrom [0, 0x10, 0, 0x20, 0, 5, 0, 0x50])).map
        fun st => (st.hw.tabDMACh 0).tally.units) = some 1 := by decide +kernel
  obtain ⟨st, hst, hunits⟩ := Option.map_eq_some_iff.mp hrun
  have hinit := startFrom_init [0, 0x10, 0, 0x20, 0, 5, 0, 0x50]
  have hbounded := run_reachable (meets_of_triggerCheck (fun _ h => h.1) fun _ h => h)
    (System.Reachable.init hinit) hst
  have hnone := run_reachable (meets_of_triggerCheck (fun _ h => h.2) fun _ _ => trivial)
    (System.Reachable.init hinit) hst
  exact ⟨st, hunits, (singleTransfers 0).1 st hbounded, (singleTransfers 0).2 st hnone⟩

/-- A second trigger during the first of five transfers is never taken: a third unit follows. -/
theorem runaway_trigger :
    ¬ ∀ (i : Fin 5) (st : DmaSt), (system.guard (singleMode i).Meets).Reachable st →
      UnitsBounded (st.hw.tabDMACh i) ∧ NoneLost (st.hw.tabDMACh i) := by
  intro h
  have hrun : ((run (triggerCheck 0 (fun _ => True) fun ch => ch.single = true)
      (firstTrigger ++ [.write (.sfr Reg.DMAREQ) 1, .trans 0, .trans 0, .trans 0])
      (startFrom [0, 0x10, 0, 0x20, 0, 5, 0, 0x50])).map
        fun st => decide (UnitsBounded (st.hw.tabDMACh 0))) = some false := by decide +kernel
  obtain ⟨st, hst, hbounded⟩ := Option.map_eq_some_iff.mp hrun
  have hreach := run_reachable (meets_of_triggerCheck (fun _ h => h) fun _ h => h)
    (System.Reachable.init (startFrom_init _)) hst
  exact of_decide_eq_false hbounded (h 0 st hreach).1

end Dma

end Ucsim.S51
