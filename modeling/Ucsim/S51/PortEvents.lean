import Ucsim.S51.PortLatches

/-!
# What the partners of a port are told

The events that a partner gets from a port while an instruction runs tell how the latch changes.
-/

namespace Ucsim.S51

open Logic Program

variable {present : PartnerHw → Bool} {i : Port} {ph : PartnerHw}

/-! ## Events -/

/-- What a partner was told by a port, in order. -/
def told (i : Port) (ph : PartnerHw) (p : PortsState) : List EvPortChanged :=
  (p.happened.filter fun e => e.1 = ph ∧ e.2.id = i).map (·.2)

/-- The events tell every step of the latch from `a` to `b`: each one starts where the one before it ends. -/
def Tells : TMem → List EvPortChanged → TMem → Prop
  | a, [], b => a = b
  | a, ep :: eps, b => ep.prevValue = a ∧ ep.newValue ≠ a ∧ Tells ep.newValue eps b

theorem Tells.append {a b c : TMem} {eps eps' : List EvPortChanged} (h : Tells a eps b) (h' : Tells b eps' c) :
    Tells a (eps ++ eps') c := by
  induction eps generalizing a with
  | nil =>
    obtain rfl : a = b := h
    exact h'
  | cons ep eps ih => exact ⟨h.1, h.2.1, ih h.2.2⟩

theorem partners_nodup (i : Port) : i.partners.Nodup := by
  revert i
  decide

/-- A partner that the controller has gets an event of its port once. -/
theorem told_inform (hph : ph ∈ i.partners) (hpresent : present ph = true) (j : Port) (ep : EvPortChanged)
    (hid : ep.id = j) (p : PortsState) :
    told i ph (j.informPartners present ep p) = told i ph p ++ if j = i then [ep] else [] := by
  have hfilter : ∀ l : List PartnerHw, (l.map fun ph => (ph, ep)).filter (fun e => e.1 = ph ∧ e.2.id = i)
      = (l.filter fun q => decide (q = ph ∧ ep.id = i)).map fun ph => (ph, ep) := fun l => List.filter_map
  unfold told
  rw [informPartners_eq]
  dsimp only
  rw [List.filter_append, List.map_append, hfilter, hid]
  congr 1
  by_cases hj : j = i
  · subst hj
    have hone : (j.partners.filter present).filter (fun q => decide (q = ph)) = [ph] := by
      have hmem : ph ∈ j.partners.filter present := List.mem_filter.mpr ⟨hph, hpresent⟩
      rw [List.filter_eq, List.count_eq_one_of_mem ((partners_nodup j).filter present) hmem]
      rfl
    simp [hone]
  · simp [hj]

/-- A write of a port tells the partners of that port, and of no other, that the latch is going to change. -/
theorem told_stored (hph : ph ∈ i.partners) (hpresent : present ph = true) (j : Port) (v : TMem) (st : St PortsState) :
    told i ph (j.stored present v st).hw.devices = told i ph st.hw.devices ++
      if j = i ∧ st.mem i.cellP ≠ v &&& 0xff then [i.changed (v &&& 0xff) st] else [] := by
  have hdevices : (j.stored present v st).hw.devices = (j.write present v st).2.hw.devices := rfl
  rw [hdevices, Port.write]
  dsimp only
  by_cases hchange : st.mem j.cellP ≠ v &&& 0xff
  · have hinform := told_inform hph hpresent j (j.changed (v &&& 0xff) st) rfl st.hw.devices
    rw [if_pos (show (j.changed (v &&& 0xff) st).prevValue ≠ (j.changed (v &&& 0xff) st).newValue from hchange)]
    refine hinform.trans ?_
    by_cases hj : j = i
    · subst hj
      rw [if_pos rfl, if_pos ⟨rfl, hchange⟩]
    · rw [if_neg hj, if_neg fun h => hj h.1]
  · rw [if_neg (show ¬ (j.changed (v &&& 0xff) st).prevValue ≠ (j.changed (v &&& 0xff) st).newValue from hchange)]
    have hsame : ¬ (j = i ∧ st.mem i.cellP ≠ v &&& 0xff) := by
      rintro ⟨rfl, h⟩
      exact hchange h
    rw [if_neg hsame, List.append_nil]

/-! ## Instructions -/

/-- Since the state `st₀` the events for the partner tell every step of the latch. -/
def ToldSince (i : Port) (ph : PartnerHw) (st₀ st : St PortsState) : Prop :=
  ∃ eps, told i ph st.hw.devices = told i ph st₀.hw.devices ++ eps ∧ Tells (st₀.mem i.cellP) eps (st.mem i.cellP)

theorem ToldSince.refl (st : St PortsState) : ToldSince i ph st st := ⟨[], (List.append_nil _).symm, rfl⟩

theorem ToldSince.trans {st₀ st st' : St PortsState} (h : ToldSince i ph st₀ st) (h' : ToldSince i ph st st') :
    ToldSince i ph st₀ st' := by
  obtain ⟨eps, htold, htells⟩ := h
  obtain ⟨eps', htold', htells'⟩ := h'
  exact ⟨eps ++ eps', by rw [htold', htold, List.append_assoc], htells.append htells'⟩

/-- What changes neither the latch nor the list of events for the partner. -/
theorem ToldSince.congr {st₀ st st' : St PortsState} (h : ToldSince i ph st₀ st)
    (hmem : st'.mem i.cellP = st.mem i.cellP) (hdevices : st'.hw.devices = st.hw.devices) : ToldSince i ph st₀ st' := by
  unfold ToldSince
  rw [hmem, hdevices]
  exact h

theorem toldSince_stored (hph : ph ∈ i.partners) (hpresent : present ph = true) (j : Port) (v : TMem)
    (st : St PortsState) : ToldSince i ph st (j.stored present v st) := by
  refine ⟨_, told_stored hph hpresent j v st, ?_⟩
  have hmem : (j.stored present v st).mem = Function.update st.mem j.cellP (v &&& 0xff) := rfl
  rw [hmem]
  by_cases hj : j = i
  · subst hj
    rw [Function.update_self]
    by_cases hchange : st.mem j.cellP ≠ v &&& 0xff
    · rw [if_pos ⟨rfl, hchange⟩]
      exact ⟨rfl, Ne.symm hchange, rfl⟩
    · rw [if_neg fun h => hchange h.2]
      exact not_not.mp hchange
  · rw [if_neg fun h => hj h.1, Function.update_of_ne fun h => hj (Port.cellP_inj.mp h).symm]
    rfl

/-- The same memory system on both sides, told of since `st₀`. -/
def SameTold (i : Port) (ph : PartnerHw) (st₀ : St PortsState) (s s' : Sys Site (HwState PortsState)) : Prop :=
  s' = s ∧ ToldSince i ph st₀ s.toStore

section Boards

variable {st₀ : St PortsState}

/-- What keeps the memory system told of is in step with itself. -/
theorem sameTold_of_keeps {α : Type} {x : MemProg PortsState α}
    (h : Keeps (fun m => ToldSince i ph st₀ m.sys.toStore) x) : Alike (OnSys (SameTold i ph st₀)) x x := by
  constructor
  rintro m m' ⟨sys, rfl, rfl, hm⟩
  have hends := (Alike.of_keeps h).run m m ⟨rfl, hm⟩
  change EndAlike _ (x.run m) (x.run m)
  generalize x.run m = r at hends ⊢
  cases hends with
  | ok a h' => exact .ok a ⟨_, rfl, rfl, h'.2⟩
  | error e => exact .error e

/-- The elements of the core tell the partners nothing. -/
theorem core_tells {c : Site} {hw : CoreHw Port} (hc : ∀ i : Port, c ≠ i.cellP) (hhw : hw ∈ (portBoard present).hws c)
    (v : TMem) {st : St PortsState} (h : ToldSince i ph st₀ st) :
    ToldSince i ph st₀ ((portBoard present).hardware.write hw c v st).2.1 := by
  rcases mem_hws.mp hhw with ⟨j, hj, rfl⟩ | ⟨-, rfl⟩ | ⟨-, rfl⟩
  · have hnil : (portBoard present).registered c = [] := portsOn_eq_nil hc
    rw [hnil] at hj
    exact absurd hj List.not_mem_nil
  · refine h.congr (congrFun (interruptWrite_mem c v st) _) ?_
    change (interruptWrite c v st).hw.devices = _
    unfold interruptWrite
    split <;> rfl
  · have hpsw : i.cellP ≠ psw := (NotPort.ne i).symm
    refine h.congr ?_ ?_
    · change (dummyWrite c v st).mem i.cellP = _
      rw [dummyWrite_mem]
      split
      · exact Function.update_of_ne hpsw _ _
      · rfl
    · change (dummyWrite c v st).hw.devices = _
      unfold dummyWrite
      split
      · split <;> rfl
      · split <;> rfl

/-- No element changes anything when a cell is read. -/
theorem hw_read_same (hw : CoreHw Port) (c : Site) (st : St PortsState) :
    ((portBoard present).hardware.read hw c st).2.1 = st := by
  cases hw <;> rfl

instance : SameCells (OnSys (SameTold i ph st₀)) := by
  refine sameCells_onSys ?_ ?_ ?_ ?_
  · intro c s s' _ hs
    rw [hs.1]
  · intro c v s s' hc hs
    obtain ⟨rfl, h⟩ := hs
    exact ⟨rfl, h.congr (Function.update_of_ne (hc i).symm _ _) rfl⟩
  · intro b s s' hs
    obtain ⟨rfl, h⟩ := hs
    exact ⟨rfl, h.congr rfl rfl⟩
  · intro b s s' hs
    obtain ⟨rfl, h⟩ := hs
    exact ⟨rfl, h.congr rfl rfl⟩

variable (hph : ph ∈ i.partners) (hpresent : present ph = true)

include hph hpresent

theorem write_tells (c : Site) (v : TMem) :
    Keeps (fun m => ToldSince i ph st₀ m.sys.toStore) (c.write (portBoard present) v) := by
  by_cases hc : ∀ j : Port, c ≠ j.cellP
  · cases c with
    | dummy sp =>
      refine Keeps.modifyGet fun m hm => ?_
      have hmem : (m.sys.store (.dummy sp) (m.rand 0 &&& 0xff)).mem i.cellP = m.sys.mem i.cellP := by
        rw [Sys.store_mem, Function.update_of_ne (hc i).symm]
      exact hm.congr hmem rfl
    | cell sp idx =>
      refine Site.write_triple (J := fun _ st => ToldSince i ph st₀ st)
        (fun hw hhw w st hst => core_tells hc hhw w hst) fun w m u hu => ?_
      exact hu.congr (Function.update_of_ne (hc i).symm _ _) rfl
  · obtain ⟨j, rfl⟩ := not_forall_not.mp hc
    intro m a m' hm hrun
    rw [writePort_run] at hrun
    cases hrun
    exact hm.trans (toldSince_stored hph hpresent j v m.sys.toStore)

/-- Reads tell nothing, and writes tell each change of the latch. -/
theorem inStep_told : InStep (portBoard present) (portBoard present) (OnSys (SameTold i ph st₀)) where
  read c := sameTold_of_keeps (Site.read_keeps (J := ToldSince i ph st₀) fun hw _ st hst => by
    rwa [hw_read_same])
  write c v := by
    have hwrite : Alike (OnSys (SameTold i ph st₀)) (c.write (portBoard present) v) (c.write (portBoard present) v) :=
      sameTold_of_keeps (write_tells hph hpresent c v)
    infer_instance
  writeSame c v _ := sameTold_of_keeps (write_tells hph hpresent c v)

theorem samePorts_told : SamePorts (portBoard present) (portBoard present) (OnSys (SameTold i ph st₀)) where
  readSkip c k := sameTold_of_keeps (Site.readSkip_keeps (J := ToldSince i ph st₀) k fun hw _ st hst => by
    rwa [hw_read_same])
  write c v := sameTold_of_keeps (write_tells hph hpresent c v)

/-- The events that a partner gets while an instruction runs tell every step of the latch. -/
theorem dispatch_tells {code : TMem} {u v : Uc PortsState} {r : Res}
    (hrun : (dispatch (portBoard present) code).run u = .ok (r, v)) :
    ToldSince i ph u.mem.sys.toStore v.mem.sys.toStore := by
  have hstep : InStep (portBoard present) (portBoard present) (OnSys (SameTold i ph u.mem.sys.toStore)) :=
    inStep_told hph hpresent
  have hports : SamePorts (portBoard present) (portBoard present) (OnSys (SameTold i ph u.mem.sys.toStore)) :=
    samePorts_told hph hpresent
  have halike : Alike (OnMem (SameTold i ph u.mem.sys.toStore)) (dispatch (portBoard present) code)
      (dispatch (portBoard present) code) :=
    Alike.congr onUc_onSys (dispatch_alike cases_alike_same fun _ _ => trivial)
  have hends := halike.run u u ⟨u.mem.sys, rfl, rfl, ToldSince.refl _⟩
  rw [hrun] at hends
  cases hends with
  | ok _ h =>
    obtain ⟨_, -, -, htold⟩ := h
    exact htold

end Boards

/-! ## The latch under the instructions -/

theorem stored_pins (v : TMem) (st : St PortsState) :
    (i.stored present v st).hw.devices.portPins = st.hw.devices.portPins := by
  have hdevices : (i.stored present v st).hw.devices = (i.write present v st).2.hw.devices := rfl
  rw [hdevices, Port.write]
  dsimp only
  split
  · change (i.informPartners present _ st.hw.devices).portPins = _
    rw [informPartners_eq]
  · rfl

/-- What an instruction that names the port makes of the state `u`. -/
structure LatchOp.Modifies (op : LatchOp) (present : PartnerHw → Bool) (i : Port) (u w : Uc PortsState) : Prop where
  latch : w.mem.sys.mem i.cellP = op.apply u.mem.sys.toStore (codeAt u.mem.sys.toStore u.PC)
    (codeAt u.mem.sys.toStore (incPC u.PC)) (u.mem.sys.mem i.cellP) &&& 0xff
  otherBits : op.onBit = true → ∀ k < 8, k ≠ (codeAt u.mem.sys.toStore u.PC).toNat % 8 →
    (w.mem.sys.mem i.cellP).getLsbD k = (u.mem.sys.mem i.cellP).getLsbD k
  otherCells : ∀ c, c ≠ i.cellP → w.mem.sys.mem c = u.mem.sys.mem c
  pins : w.mem.sys.hw.devices.portPins = u.mem.sys.hw.devices.portPins
  PC : w.PC = op.next u.mem.sys.toStore u.PC (u.mem.sys.mem i.cellP)
  jbc : op = .jbcBitAddr → w.PC =
    if (u.mem.sys.mem i.cellP).getLsbD ((codeAt u.mem.sys.toStore u.PC).toNat % 8) then
      Space.rom.validateAddress
        (incPC (incPC u.PC) + (uchar (codeAt u.mem.sys.toStore (incPC u.PC))).toInt)
    else incPC (incPC u.PC)
  told : ∀ ph ∈ i.partners, present ph = true → told i ph w.mem.sys.hw.devices = told i ph u.mem.sys.hw.devices ++
    if u.mem.sys.mem i.cellP ≠ w.mem.sys.mem i.cellP then [i.changed (w.mem.sys.mem i.cellP) u.mem.sys.toStore] else []

/-- The low byte keeps the bits of the latch. -/
theorem getLsbD_low (v : TMem) {k : Nat} (hk : k < 8) : (v &&& 0xff).getLsbD k = v.getLsbD k := by
  have hmask : ∀ k < 8, (0xff : TMem).getLsbD k = true := by decide
  rw [BitVec.getLsbD_and, hmask k hk, Bool.and_true]

theorem latchOp_modifies (op : LatchOp) {u w : Uc PortsState}
    (hw : At (i.stored present (op.apply u.mem.sys.toStore (codeAt u.mem.sys.toStore u.PC)
      (codeAt u.mem.sys.toStore (incPC u.PC)) (u.mem.sys.mem i.cellP)) u.mem.sys.toStore)
      (op.next u.mem.sys.toStore u.PC (u.mem.sys.mem i.cellP)) w) : op.Modifies present i u w := by
  obtain ⟨hst, hpc⟩ := hw
  have hmem : w.mem.sys.mem = Function.update u.mem.sys.mem i.cellP _ := congrArg Store.mem hst
  have hdevices : w.mem.sys.hw.devices = _ := congrArg (fun st : St PortsState => st.hw.devices) hst
  have hlatch : w.mem.sys.mem i.cellP = _ := (congrFun hmem i.cellP).trans (Function.update_self ..)
  refine ⟨hlatch, fun hbit k hk hne => ?_, fun c hc => ?_, ?_, hpc, ?_, fun ph hph hpresent => ?_⟩
  · rw [hlatch, getLsbD_low _ hk]
    exact LatchOp.apply_other hbit _ _ _ _ hne
  · rw [hmem, Function.update_of_ne hc]
  · rw [hdevices]
    exact stored_pins _ _
  · rintro rfl
    rw [hpc, ← LatchOp.branches_jbc]
    rfl
  · rw [hdevices, hlatch]
    have htold := told_stored hph hpresent i (op.apply u.mem.sys.toStore (codeAt u.mem.sys.toStore u.PC)
      (codeAt u.mem.sys.toStore (incPC u.PC)) (u.mem.sys.mem i.cellP)) u.mem.sys.toStore
    simpa only [true_and] using htold

/-- An instruction that reads the latch of a port applies its operation to the latch; every other reader sees latch
AND pins; and the partners of the port are told, once, each change that an instruction makes to the latch. -/
theorem port_latches (present : PartnerHw → Bool) (i : Port) :
    (∀ (op : LatchOp) (u : Uc PortsState), 0 ≤ u.PC → op.Names i (codeAt u.mem.sys.toStore u.PC) →
      (∃ w, (dispatch (portBoard present) (tmem op.code)).run u = .ok (.go, w) ∧ op.Modifies present i u w) ∨
        NoBank u.mem.sys.toStore ∧ ∃ e, (dispatch (portBoard present) (tmem op.code)).run u = .error e) ∧
      (∀ m : MemState PortsState, ∃ m', (i.cellP.read (portBoard present)).run m =
        .ok (m.sys.mem i.cellP &&& tmem (m.sys.hw.devices.portPins i), m') ∧ m'.sys.toStore = m.sys.toStore) ∧
      (∀ code : UChar, (∀ op : LatchOp, op.code ≠ code) →
        Alike (OnMem Shows) (dispatch (portBoard present) (tmem code)) (dispatch pinBoard (tmem code))) ∧
      ∀ (code : UChar) (u w : Uc PortsState) (r : Res), (dispatch (portBoard present) (tmem code)).run u = .ok (r, w) →
        ∀ ph ∈ i.partners, present ph = true → ToldSince i ph u.mem.sys.toStore w.mem.sys.toStore := by
  refine ⟨fun op u h0 hnames => ?_, fun m => ?_, fun code hcode => ?_, fun code u w r hrun ph hph hpresent => ?_⟩
  · obtain ⟨r, w, hrun, rfl, hw⟩ | herror := latchOp_leaves h0 op hnames u ⟨rfl, rfl⟩
    · exact .inl ⟨w, hrun, latchOp_modifies op hw⟩
    · exact .inr herror
  · exact ⟨_, readPins_run present i m, rfl⟩
  · refine dispatch_shows fun label hlabel heq => ?_
    obtain ⟨op, hop⟩ := (LatchOp.mem_latchCodes label).mp hlabel
    have hlabel' : code = label := by
      have h := congrArg uchar heq
      simpa using h
    exact hcode op (hop.trans hlabel'.symm)
  · exact dispatch_tells hph hpresent hrun

/-! ## Reset -/

/-- A controller with ports at the start of a program. Nothing pulls a pin low. -/
def pinsHigh (mem : Site → TMem) : Uc PortsState where
  mem :=
    { sys :=
        { mem := mem
          hw :=
            { wasReti := false, bitIT0 := false, bitIT1 := false, bitINT0 := false, bitINT1 := false
              spMax := 0, spAvg := 0, prevP1 := 0, prevP3 := 0, movInstruction := false
              devices := { portPins := fun _ => 0xff, happened := [] } }
          events := [] }
      brks := fun _ => []
      fetchBrk := fun _ => false
      errors := []
      rand := fun _ => 0 }
  PC := 0
  instPC := 0
  state := .go
  result := .go
  instExec := false
  instTicks := 0
  ticks := 0
  itLevels := [mainLevel]
  itSources := []
  stackOps := []
  fbrk := []
  simGo := true
  stopAtIt := false
  cmos := true

/-- A reset clears the latches with `set`, of which no partner is told. -/
theorem port_latches_reset : ∃ u v : Uc PortsState, (reset (portBoard fun _ => true)).run u = .ok ((), v) ∧
    ¬ ToldSince 1 ⟨.timer, 2⟩ u.mem.sys.toStore v.mem.sys.toStore := by
  have hreset : (match (reset (portBoard fun _ => true)).run (pinsHigh fun _ => 0x55) with
      | .ok (_, v) => told 1 ⟨.timer, 2⟩ v.mem.sys.hw.devices
      | .error _ => []) = [⟨1, 0x90, 0, 0xff, 0xff, 0xff⟩] := by
    decide +kernel
  cases hrun : (reset (portBoard fun _ => true)).run (pinsHigh fun _ => 0x55) with
  | error e =>
    rw [hrun] at hreset
    cases hreset
  | ok r =>
    rw [hrun] at hreset
    refine ⟨_, r.2, hrun, ?_⟩
    rintro ⟨eps, htold, htells⟩
    have heps : eps = [⟨1, 0x90, 0, 0xff, 0xff, 0xff⟩] := htold.symm.trans hreset
    rw [heps] at htells
    -- the first event starts at 0, the latch at 0x55
    exact absurd htells.1 (by decide)

end Ucsim.S51
