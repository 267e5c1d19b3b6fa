import Ucsim.S51.Dma

/-!
# The events that the DMA controller is told of

`inform_partners` tells a partner of every event. The `switch` of `happen` has a case for those that are triggers, and
behind it the local variable `Trigger` is compared with the configuration of each channel, whatever it holds.
-/

namespace Ucsim.S51.Dma

/-- `enum hw_event`. -/
inductive HwEventId
  | EV_OVERFLOW | EV_PORT_CHANGED | EV_T2_MODE_CHANGED | EV_T2_EVENT1 | EV_T2_EVENT2 | EV_NO_ACK | EV_RADIO_ACK
  | EV_T1_CH0 | EV_T1_CH1 | EV_T1_CH2 | EV_T3_CH0 | EV_T3_CH1 | EV_T4_CH0 | EV_T4_CH1 | EV_ST | EV_IOC_0 | EV_IOC_1
  | EV_URX0 | EV_UTX0 | EV_URX1 | EV_UTX1 | EV_FLASH | EV_RADIO | EV_DBG_BW
  deriving DecidableEq, Repr

/-- `EV_RADIO`, the trigger that a sent or received frame is. -/
abbrev HwEvent.radio : HwEvent := open HwEvent in EV_RADIO

namespace HwEventId

/-- The case of an event in the `switch`. -/
def case? : HwEventId → Option HwEvent
  | EV_T1_CH0 => some .EV_T1_CH0
  | EV_T1_CH1 => some .EV_T1_CH1
  | EV_T1_CH2 => some .EV_T1_CH2
  | EV_T2_EVENT1 => some .EV_T2_EVENT1
  | EV_T2_EVENT2 => some .EV_T2_EVENT2
  | EV_T3_CH0 => some .EV_T3_CH0
  | EV_T3_CH1 => some .EV_T3_CH1
  | EV_T4_CH0 => some .EV_T4_CH0
  | EV_T4_CH1 => some .EV_T4_CH1
  | EV_ST => some .EV_ST
  | EV_IOC_0 => some .EV_IOC_0
  | EV_IOC_1 => some .EV_IOC_1
  | EV_URX0 => some .EV_URX0
  | EV_UTX0 => some .EV_UTX0
  | EV_URX1 => some .EV_URX1
  | EV_UTX1 => some .EV_UTX1
  | EV_FLASH => some .EV_FLASH
  | EV_RADIO => some HwEvent.radio
  | EV_DBG_BW => some .EV_DBG_BW
  | EV_OVERFLOW | EV_PORT_CHANGED | EV_T2_MODE_CHANGED | EV_NO_ACK | EV_RADIO_ACK => none

/-- The number of the trigger that an event is. -/
def number? (he : HwEventId) : Option Int := he.case?.map HwEvent.Trigger

/-- Is the event a trigger? -/
def IsTrigger (he : HwEventId) : Prop := he.case?.isSome

end HwEventId

/-- `happen`, where `garbage` is what the variable holds that is not initialized. It also says whether `Trigger` is read
without a value. -/
def told (garbage : Int) (he : HwEventId) (st : DmaSt) : DmaSt × Bool :=
  match he.case? with
  | some event => (happen event st, false)
  | none => (happen (.other garbage) st, true)

/-- What an event is for: exactly the channels that are configured for its trigger become triggered. -/
def Triggers (he : HwEventId) (st st' : DmaSt) : Prop :=
  st'.mem = st.mem ∧ ∀ i, st'.hw.tabDMACh i =
    if he.number? = some (st.hw.tabDMACh i).TriggerEvent then (st.hw.tabDMACh i).trigger else st.hw.tabDMACh i

/-- A channel that is triggered has one more entry in its history. -/
theorem trigger_ne (ch : DMAchannel) : ch.trigger ≠ ch := by
  intro h
  have hlength := congrArg (fun ch : DMAchannel => ch.calls.length) h
  simp [DMAchannel.trigger, DMAchannel.log] at hlength

theorem happen_triggers_iff {he : HwEventId} (event : HwEvent) (st : DmaSt) :
    Triggers he st (happen event st) ↔
      ∀ i, he.number? = some (st.hw.tabDMACh i).TriggerEvent ↔ (st.hw.tabDMACh i).TriggerEvent = event.Trigger := by
  have hchannel (i : Fin 5) : (happen event st).hw.tabDMACh i =
      if (st.hw.tabDMACh i).TriggerEvent = event.Trigger then (st.hw.tabDMACh i).trigger else st.hw.tabDMACh i := rfl
  have hne (i : Fin 5) := trigger_ne (st.hw.tabDMACh i)
  refine (and_iff_right rfl).trans (forall_congr' fun i => ?_)
  rw [hchannel]
  by_cases hdue : he.number? = some (st.hw.tabDMACh i).TriggerEvent
  · rw [if_pos hdue, iff_true_left hdue, ite_eq_left_iff]
    exact ⟨fun h => by_contra fun hno => hne i (h hno).symm, fun h hno => absurd h hno⟩
  · rw [if_neg hdue, iff_false_left hdue, ite_eq_right_iff]
    exact ⟨fun h heq => hne i (h heq), fun h heq => absurd heq h⟩

/-- An event triggers the right channels if and only if it is a trigger, or if no channel is configured for what the
variable happens to hold. A value that is not defined is used unless it is a trigger. -/
theorem told_iff (garbage : Int) (he : HwEventId) (st : DmaSt) :
    (Triggers he st (told garbage he st).1 ↔ he.IsTrigger ∨ ∀ i, (st.hw.tabDMACh i).TriggerEvent ≠ garbage) ∧
      ((told garbage he st).2 = false ↔ he.IsTrigger) := by
  unfold told HwEventId.IsTrigger
  cases hcase : he.case? with
  | none =>
    refine ⟨?_, iff_of_false Bool.noConfusion Bool.noConfusion⟩
    have hnumber : he.number? = none := by rw [HwEventId.number?, hcase, Option.map_none]
    rw [happen_triggers_iff, hnumber]
    constructor
    · exact fun h => .inr fun i heq => absurd ((h i).mpr heq) nofun
    · rintro (h | h) i
      · cases h
      · exact iff_of_false nofun (h i)
  | some event =>
    refine ⟨iff_of_true ?_ (.inl rfl), iff_of_true rfl rfl⟩
    have hnumber : he.number? = some event.Trigger := by rw [HwEventId.number?, hcase, Option.map_some]
    rw [happen_triggers_iff, hnumber]
    exact fun i => Option.some_inj.trans eq_comm

/-- The dispatch of an event is right and uses no undefined value if and only if the event is a trigger. -/
theorem dispatch_iff (he : HwEventId) (st : DmaSt) :
    (∀ garbage, Triggers he st (told garbage he st).1 ∧ (told garbage he st).2 = false) ↔ he.IsTrigger := by
  constructor
  · exact fun h => (told_iff 0 he st).2.mp (h 0).2
  · exact fun h garbage => ⟨(told_iff garbage he st).1.mpr (.inl h), (told_iff garbage he st).2.mpr h⟩

/-- An overflow of a timer may trigger a channel, here one that waits for the radio. -/
theorem overflow_triggers : ¬ ∀ (garbage : Int) (he : HwEventId) (st : DmaSt),
    Triggers he st (told garbage he st).1 ∧ (told garbage he st).2 = false := by
  intro h
  let ch : DMAchannel := { DMAchannel.init [] with TriggerEvent := 19 }
  have hright := (h 19 .EV_OVERFLOW { mem := fun _ => 0, hw := { ObjInit := true, tabDMACh := fun _ => ch } }).1.2 0
  exact trigger_ne ch hright

end Ucsim.S51.Dma
