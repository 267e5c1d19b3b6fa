import Ucsim.S51.Arbitration
import Ucsim.S51.CspFrame
import Ucsim.S51.CspRuns
import Ucsim.S51.RadioCells

/-!
# Delivery of radio interrupts

The radio and the CSP run on one memory. The interrupt flags that they set are cells of `xram`, while the
program and `do_interrupt` read special function registers.
-/

namespace Ucsim.S51

open Logic

namespace Rf

/-- `RFIE` in `IEN2`. -/
def bmRFIE : TMem := 0x01

theorem rf_addr_ne : (0x83 : BitVec 16) ≠ 0 := by decide

theorem rf_srcReg_ne : (0x9B : UChar) ≠ 0xE0 ∧ (0x9B : UChar) ≠ 0xD0 := by decide

/-- The interrupt source of `cl_CC2530_radio::added_to_uc` for the radio interrupt. -/
def rfSource : ItSrc where
  pollPriority := 4
  ieMask := 0x01
  ieReg := 0x9A
  srcReg := 0x9B
  srcMask := 0x03
  addr := 0x83
  clrBit := true
  active := true
  addr_ne := rf_addr_ne
  srcReg_ne := rf_srcReg_ne

/-! ## Runs -/

/-- The radio, the CSP and their memory, and the flags of `RFIRQF0` and `RFIRQF1` that the last step has
raised. -/
structure State where
  mem : Site → TMem
  radio : Radio
  csp : Csp
  raised0 : TMem
  raised1 : TMem

/-- A step of the radio or of the CSP. Both include the processor, which writes other memory. -/
inductive Label
  | radio (a : Radio.Label)
  | csp (a : Csp.Label)

/-- Is it the radio or the CSP that acts? -/
def Label.acts : Label → Bool
  | .radio (.tick _) | .radio (.happen _ _) | .radio (.write _ _) | .radio (.read _ _) => true
  | .csp (.tick _) | .csp (.strobe _ _) | .csp (.happen _) => true
  | _ => false

/-- What the radio sees. -/
def State.radioSt (s : State) : RadioSt := { mem := s.mem, hw := s.radio }

/-- What the CSP sees. -/
def State.cspSt (s : State) : CspSt := { mem := s.mem, hw := s.csp }

/-- The step itself. -/
def move : Label → State → Option State
  | .radio a, s => (Radio.step a s.radioSt).toOption.map fun st => { s with mem := st.mem, radio := st.hw }
  | .csp a, s => (Csp.step a s.cspSt).toOption.map fun st => { s with mem := st.mem, csp := st.hw }

/-- The cells that `set_bit1` is called for when an interrupt is raised. -/
def flagCells : List Site := [Reg.RFIRQF0, Reg.RFIRQF1, Reg.S1CON].map (Site.cell .xram)

/-- The state with these cells empty. -/
def State.clear (s : State) : State := { s with mem := fun c => if c ∈ flagCells then 0 else s.mem c }

/-- The flags that a step raises. They are those that it leaves where there have been none. -/
def raised (a : Label) (s : State) : TMem × TMem :=
  if a.acts then
    ((move a s.clear).map fun s => (s.mem (.cell .xram Reg.RFIRQF0), s.mem (.cell .xram Reg.RFIRQF1))).getD (0, 0)
  else (0, 0)

/-- A step, with the flags that it raises. -/
def step (a : Label) (s : State) : Option State :=
  (move a s).map fun s' => { s' with raised0 := (raised a s).1, raised1 := (raised a s).2 }

/-- The runs from a reset of both. -/
def system : System Label State where
  init s := (∃ rfd RXframe TXframe ACKsent radioAnswer,
      s.radioSt = Radio.initial rfd RXframe TXframe ACKsent radioAnswer s.mem) ∧
    (∃ st₀, Csp.reset st₀ = .ok s.cspSt) ∧ s.raised0 = 0 ∧ s.raised1 = 0
  step a s s' := step a s = some s'

/-- The program and the interrupt logic see the flags. With the interrupt enabled and no service active it
is taken. -/
structure Delivered (F0 F1 : TMem) (mem : Site → TMem) : Prop where
  rfirqf0 : mem (.sfr Reg.RFIRQF0) &&& F0 = F0
  rfirqf1 : mem (.sfr Reg.RFIRQF1) &&& F1 = F1
  s1con : F0 ≠ 0 ∨ F1 ≠ 0 → mem (.sfr Reg.S1CON) &&& Radio.bmRFIF = Radio.bmRFIF
  eligible : F0 ≠ 0 ∨ F1 ≠ 0 → mem (.sfr 0x9A) &&& bmRFIE ≠ 0 → rfSource.Eligible mem (-1)

instance (F0 F1 : TMem) (mem : Site → TMem) : Decidable (Delivered F0 F1 mem) :=
  decidable_of_iff (mem (.sfr Reg.RFIRQF0) &&& F0 = F0 ∧ mem (.sfr Reg.RFIRQF1) &&& F1 = F1 ∧
    (F0 ≠ 0 ∨ F1 ≠ 0 → mem (.sfr Reg.S1CON) &&& Radio.bmRFIF = Radio.bmRFIF) ∧
    (F0 ≠ 0 ∨ F1 ≠ 0 → mem (.sfr 0x9A) &&& bmRFIE ≠ 0 → rfSource.Eligible mem (-1)))
    ⟨fun ⟨h0, h1, hs, he⟩ => ⟨h0, h1, hs, he⟩, fun h => ⟨h.rfirqf0, h.rfirqf1, h.s1con, h.eligible⟩⟩

/-- The flags that the step raises are in the special function registers already. -/
def AlreadyShown (a : Label) (s : State) : Prop := Delivered (raised a s).1 (raised a s).2 s.mem

instance (a : Label) (s : State) : Decidable (AlreadyShown a s) := inferInstanceAs (Decidable (Delivered _ _ _))

/-! ## Nothing is delivered -/

theorem delivered_zero (mem : Site → TMem) : Delivered 0 0 mem where
  rfirqf0 := BitVec.and_zero
  rfirqf1 := BitVec.and_zero
  s1con h := absurd h (by decide)
  eligible h := absurd h (by decide)

theorem raised_of_not_acts {a : Label} (h : a.acts = false) (s : State) : raised a s = (0, 0) := by
  unfold raised
  rw [h]
  rfl

/-- No cell outside `xram` is changed. -/
def SameOutside (mem mem' : Site → TMem) : Prop := ∀ c, (∀ b, c ≠ .cell .xram b) → mem' c = mem c

theorem SameOutside.sfr {mem mem' : Site → TMem} (h : SameOutside mem mem') (r : Int) :
    mem' (.sfr r) = mem (.sfr r) := by
  refine h _ fun b heq => ?_
  injection heq with hspace
  cases hspace

/-- The radio does not change special function registers. -/
theorem radio_outside {a : Radio.Label} (ha : (Label.radio a).acts = true) {st st' : RadioSt}
    (hrun : Radio.step a st = .ok st') : SameOutside st.mem st'.mem := by
  have hlocal {f : RadioSt → Except Fault RadioSt} {st st' : RadioSt} (h : Radio.Local f)
      (hrun : f st = .ok st') : SameOutside st.mem st'.mem := by
    refine fun c hc => h.untouched hrun fun htouched => ?_
    obtain ⟨b, hb⟩ := Radio.xram_of_touchedSite htouched
    exact hc b hb
  cases a with
  | tick csp => exact hlocal (Radio.local_tick csp) hrun
  | happen pendingBit e =>
    cases hrun
    cases e <;> exact fun _ _ => rfl
  | write c v => exact fun _ _ => congrFun (Radio.Written.write hrun).mem _
  | read c MovInstruction =>
    obtain ⟨⟨v, st₁⟩, h₁, hst'⟩ := bind_eq_ok.mp hrun
    cases hst'
    change SameOutside (Radio.announce MovInstruction st).mem st₁.mem
    unfold Radio.read at h₁
    split at h₁
    · obtain ⟨temp, -, hrest⟩ := bind_eq_ok.mp h₁
      cases hrest
      have hflags := hlocal (Radio.local_ok Radio.flagsAfterRead_over)
        (@rfl _ (Except.ok (Radio.flagsAfterRead (Radio.announce MovInstruction st))))
      split <;> exact hflags
    · cases h₁
      exact fun _ _ => rfl
  | reset | present | timer | memory => cases ha

/-- Neither does the CSP. -/
theorem csp_outside {a : Csp.Label} (ha : (Label.csp a).acts = true) {st st' : CspSt}
    (hrun : Csp.step a st = .ok st') : SameOutside st.mem st'.mem := by
  cases a with
  | tick inp => exact (Csp.tick_xramOnly hrun).outside
  | strobe inp v => exact (Csp.writeRfst_xramOnly hrun).outside
  | happen he => exact (Csp.happen_xramOnly hrun).outside
  | set | signal => cases ha

theorem move_outside {a : Label} (ha : a.acts = true) {s s' : State} (hrun : move a s = some s') :
    SameOutside s.mem s'.mem := by
  cases a with
  | radio a =>
    obtain ⟨st, hst, rfl⟩ := Option.map_eq_some_iff.mp hrun
    exact radio_outside ha (Csp.toOption_eq_some hst)
  | csp a =>
    obtain ⟨st, hst, rfl⟩ := Option.map_eq_some_iff.mp hrun
    exact csp_outside ha (Csp.toOption_eq_some hst)

/-- Interrupts are polled outside `xram`. -/
theorem SameOutside.eligible {mem mem' : Site → TMem} (h : SameOutside mem mem') (src : ItSrc) (level : Int) :
    src.Eligible mem' level ↔ src.Eligible mem level := by
  have hbyte : sfrByte mem' = sfrByte mem := by
    funext r
    have hdummy : mem' (.dummy .sfr) = mem (.dummy .sfr) := h _ fun b heq => by cases heq
    unfold sfrByte
    rw [h.sfr, hdummy]
  unfold ItSrc.Eligible ItSrc.Requests ItSrc.priority
  rw [hbyte, h.sfr]

/-- What is delivered is seen outside `xram`. -/
theorem SameOutside.delivered {mem mem' : Site → TMem} (h : SameOutside mem mem') (F0 F1 : TMem) :
    Delivered F0 F1 mem' ↔ Delivered F0 F1 mem := by
  constructor
  · rintro ⟨h0, h1, hs1con, heligible⟩
    simp only [h.sfr, h.eligible] at h0 h1 hs1con heligible
    exact ⟨h0, h1, hs1con, heligible⟩
  · rintro ⟨h0, h1, hs1con, heligible⟩
    refine ⟨?_, ?_, ?_, ?_⟩
    all_goals simp only [h.sfr, h.eligible]
    all_goals assumption

/-- A step delivers the flags that it raises exactly if they have been there before. -/
theorem delivered_iff {a : Label} {s s' : State} (hrun : step a s = some s') :
    Delivered s'.raised0 s'.raised1 s'.mem ↔ AlreadyShown a s := by
  obtain ⟨s₁, h₁, rfl⟩ := Option.map_eq_some_iff.mp hrun
  unfold AlreadyShown
  by_cases ha : a.acts = true
  · exact (move_outside ha h₁).delivered _ _
  · have hzero := raised_of_not_acts (Bool.not_eq_true _ ▸ ha) s
    rw [hzero]
    exact iff_of_true (delivered_zero _) (delivered_zero _)

/-! ## What `do_interrupt` makes of it -/

/-- `do_interrupt` polls this memory after an instruction. Interrupts are enabled, no service is active, and
no other source is eligible. -/
structure Polled {V : Type} (mem : Site → TMem) (u : Uc V) : Prop where
  memory : u.mem.sys.mem = mem
  ea : mem (.sfr Reg.IEN0) &&& bmEA ≠ 0
  reti : u.mem.sys.hw.wasReti = false
  running : u.state ≠ .idle
  level : ∃ below, u.itLevels = mainLevel :: below
  source : rfSource ∈ u.itSources
  alone : ∀ src ∈ u.itSources, src.Eligible mem (-1) → src = rfSource

/-- The radio interrupt is accepted. -/
theorem Polled.accepts {Dev V : Type} (D : Devices Dev V) {mem : Site → TMem} {u : Uc V} (hu : Polled mem u)
    (he : rfSource.Eligible mem (-1)) :
    ∃ v, (doInterrupt D).run u = .ok (.interrupt, v) ∧ Accepts u rfSource .interrupt v := by
  obtain ⟨below, hlevels⟩ := hu.level
  have hea := hu.ea
  rw [← hu.memory] at he hea
  obtain ⟨res, v, hrun, harb⟩ := doInterrupt_arbitrates D hlevels hea hu.reti
  rcases harb.served ⟨rfSource, hu.source, he⟩ with ⟨src, hsrc, hacc⟩ | hidle
  · have heq := hu.alone src hsrc (hu.memory ▸ (harb.accepted src hacc).1)
    rw [heq] at hacc
    rw [hacc.res] at hrun hacc
    exact ⟨v, hrun, hacc⟩
  · exact absurd hidle.idle hu.running

/-- The flags raised are delivered, and an interrupt that is enabled is accepted. -/
structure Interrupts (s : State) : Prop where
  delivered : Delivered s.raised0 s.raised1 s.mem
  accepted : s.raised0 ≠ 0 ∨ s.raised1 ≠ 0 → s.mem (.sfr 0x9A) &&& bmRFIE ≠ 0 →
    ∀ {Dev V : Type} (D : Devices Dev V) (u : Uc V), Polled s.mem u →
      ∃ v, (doInterrupt D).run u = .ok (.interrupt, v) ∧ Accepts u rfSource .interrupt v

/-- In a run whose steps raise only what is shown already, every interrupt raised is delivered. -/
theorem rf_delivered {s : State} (h : (system.guard AlreadyShown).Reachable s) : Interrupts s := by
  have hdelivered : Delivered s.raised0 s.raised1 s.mem := by
    refine h.guard_invariant (I := fun s => Delivered s.raised0 s.raised1 s.mem) (fun s hs => ?_)
      fun a s s' _ _ hC hst => (delivered_iff hst).mpr hC
    obtain ⟨-, -, h0, h1⟩ := hs
    rw [h0, h1]
    exact delivered_zero _
  exact ⟨hdelivered, fun hraised hen Dev V D u hu => hu.accepts D (hdelivered.eligible hraised hen)⟩

/-! ## Two runs -/

/-- The state after a reset. -/
def atReset : Option State :=
  (Csp.reset { mem := fun _ => 0, hw := Csp.blank }).toOption.map fun st =>
    { mem := st.mem, radio := Radio.init default default false false st.mem, csp := st.hw, raised0 := 0, raised1 := 0 }

/-- Steps from there, as long as each of them passes a check. -/
def runFrom (ok : Label → State → Bool) (l : List Label) : Option State :=
  atReset.bind (System.checkedRun step ok l)

theorem reachable_runFrom {ok : Label → State → Bool} {C : Label → State → Prop}
    (hok : ∀ a s, ok a s = true → C a s) {l : List Label} {s : State} (hrun : runFrom ok l = some s) :
    (system.guard C).Reachable s := by
  obtain ⟨s₀, h₀, hrun⟩ := Option.bind_eq_some_iff.mp hrun
  obtain ⟨st, hst, rfl⟩ := Option.map_eq_some_iff.mp h₀
  refine System.Reachable.checkedRun (fun a s t h => h) hok (.init ?_) hrun
  exact ⟨⟨none, default, default, false, false, rfl⟩, ⟨_, Csp.toOption_eq_some hst⟩, rfl, rfl⟩

/-- The program of one `INT`, with its mask bit set, is run. -/
def interruptProgram : List Label :=
  [.csp (.set (.cell .xram Reg.RFIRQM1) 0x08), .csp (.set (.cell .xram Reg.CSPPROG0) 0xBA), .csp Csp.plainTick]

/-- The registers are set before the interrupt is raised. -/
theorem rf_delivered_shown : ∃ s : State, s.raised1 = 0x08 ∧ Interrupts s := by
  have hraised : (runFrom (fun a s => decide (AlreadyShown a s))
      ([.csp (.set (.sfr Reg.RFIRQF1) 0x08), .csp (.set (.sfr Reg.S1CON) 0x03), .csp (.set (.sfr 0x9A) 0x01)] ++
        interruptProgram)).map (fun s => s.raised1) = some 0x08 := by decide +kernel
  obtain ⟨s, hrun, hs⟩ := Option.map_eq_some_iff.mp hraised
  exact ⟨s, hs, rf_delivered (reachable_runFrom (fun a s h => of_decide_eq_true h) hrun)⟩

/-- An interrupt of the CSP is not seen by the program. -/
theorem int_not_delivered :
    ¬ ∀ s : State, system.Reachable s → Interrupts s := by
  intro h
  have hraised : (runFrom (fun _ _ => true) interruptProgram).map
      (fun s => (s.raised1, s.mem (.sfr Reg.RFIRQF1))) = some (0x08, 0) := by decide +kernel
  obtain ⟨s, hrun, hs⟩ := Option.map_eq_some_iff.mp hraised
  have hreach := reachable_runFrom (C := fun _ _ => True) (fun _ _ _ => trivial) hrun
  have h1 : s.raised1 = 0x08 := congrArg Prod.fst hs
  have h0 : s.mem (.sfr Reg.RFIRQF1) = 0 := congrArg Prod.snd hs
  have hflag := (h s hreach.of_guard).delivered.rfirqf1
  rw [h0, h1] at hflag
  exact absurd hflag (by decide)

end Rf

end Ucsim.S51
