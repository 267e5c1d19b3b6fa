import Ucsim.S51.Rounds

/-!
# Nesting of interrupts

The levels of the services that are active form a stack over the level of the main program. Acceptance
pushes a level above all of them, `RETI` pops one, and nothing else but reset touches the stack.
-/

namespace Ucsim.S51

open Logic Program

variable {Dev V : Type} {D : Devices Dev V}

set_option synthInstance.maxSize 1024

/-! ## Stacks of levels -/

/-- The levels of services over the main program, each above the one below it. -/
inductive Nested : List ItLevel → Prop
  | main : Nested [mainLevel]
  | service {il new : ItLevel} {below : List ItLevel} :
      Nested (il :: below) → il.level < new.level → new.level = 0 ∨ new.level = 1 →
        Nested (new :: il :: below)

namespace Nested

/-- The top level is at most 1, and the stack is no higher than it allows. -/
theorem top {il : ItLevel} {below : List ItLevel} (h : Nested (il :: below)) :
    il.level ≤ 1 ∧ (below.length : Int) ≤ il.level + 1 := by
  generalize hl : il :: below = l at h
  induction h generalizing il below with
  | main =>
    cases hl
    exact ⟨by decide, by decide⟩
  | service hbelow hlt hnew ih =>
    cases hl
    have htop := ih rfl
    rw [List.length_cons]
    omega

/-- The stack consists of services over the main program. -/
theorem services {levels : List ItLevel} (h : Nested levels) :
    ∃ services, levels = services ++ [mainLevel] ∧ ∀ il ∈ services, 0 ≤ il.level := by
  induction h with
  | main => exact ⟨[], rfl, fun _ h => absurd h List.not_mem_nil⟩
  | @service il new below hbelow hlt hnew ih =>
    obtain ⟨services, heq, hlevel⟩ := ih
    refine ⟨new :: services, by rw [heq, List.cons_append], fun il hil => ?_⟩
    rcases List.mem_cons.mp hil with rfl | hil
    · omega
    · exact hlevel il hil

/-- From top to bottom the levels decrease. -/
theorem decreasing {levels : List ItLevel} (h : Nested levels) :
    (levels.map (·.level)).Pairwise (· > ·) := by
  induction h with
  | main => exact List.pairwise_singleton _ _
  | service hbelow hlt hnew ih =>
    rw [List.map_cons, List.pairwise_cons]
    refine ⟨fun n hn => ?_, ih⟩
    rw [List.map_cons, List.mem_cons] at hn
    rw [List.map_cons, List.pairwise_cons] at ih
    rcases hn with rfl | hn
    · exact hlt
    · have := ih.1 n hn
      omega

/-- At most two services are active. -/
theorem length_le {services : List ItLevel} (h : Nested (services ++ [mainLevel])) :
    services.length ≤ 2 := by
  cases services with
  | nil => exact Nat.zero_le _
  | cons il below =>
    have htop : il.level ≤ 1 ∧ ((below ++ [mainLevel]).length : Int) ≤ il.level + 1 := top h
    rw [List.length_append, List.length_singleton] at htop
    rw [List.length_cons]
    omega

/-- `RETI` leaves a stack of levels. -/
theorem reti {levels : List ItLevel} (h : Nested levels) : Nested (retiLevels levels) := by
  cases h with
  | main => exact Nested.main
  | service hbelow hlt hnew =>
    rw [retiLevels, if_pos (by omega)]
    exact hbelow

/-- Reset pops all services. -/
theorem dropWhile {levels : List ItLevel} (h : Nested levels) :
    levels.dropWhile (·.level ≥ 0) = [mainLevel] := by
  obtain ⟨services, rfl, hlevel⟩ := h.services
  rw [List.dropWhile_append_of_pos (by simpa using hlevel)]
  rfl

/-- A level that may be accepted is above all others. -/
theorem above {il new : ItLevel} {below : List ItLevel} (h : Nested (il :: below))
    (habove : il.level < 0 ∨ il.level < new.level) (hnew : new.level = 0 ∨ new.level = 1) :
    ∀ il' ∈ il :: below, il'.level < new.level := by
  have htop : il.level < new.level := by omega
  have hdec := h.decreasing
  rw [List.map_cons, List.pairwise_cons] at hdec
  intro il' hil'
  rcases List.mem_cons.mp hil' with rfl | hil'
  · exact htop
  · have := hdec.1 il'.level (List.mem_map_of_mem hil')
    omega

end Nested

/-- Without a service `RETI` leaves the stack alone, and with some it pops the innermost one. -/
theorem retiLevels_services {services : List ItLevel} (h : ∀ il ∈ services, 0 ≤ il.level) :
    retiLevels (services ++ [mainLevel]) = services.tail ++ [mainLevel] := by
  cases services with
  | nil => rfl
  | cons il below => exact if_pos (h il List.mem_cons_self)

/-! ## The stack as an invariant -/

/-- No claim about the memory system. -/
def anySys (_ : Sys Site (HwState V)) : Prop := True

instance : StableAllBytes D anySys where
  read _ _ _ _ _ _ := trivial
  readSkip _ _ _ _ _ _ _ := trivial
  write _ _ _ _ _ _ _ _ := trivial
  add _ _ _ _ _ _ _ _ _ := trivial
  setBit1 _ _ _ _ _ _ _ _ _ := trivial
  setBit0 _ _ _ _ _ _ _ _ _ := trivial
  writeAll _ _ _ _ _ _ _ := trivial
  setAll _ _ _ _ _ _ _ := trivial

instance : OfBytes (anySys : Sys Site (HwState V) → Prop) := ⟨fun _ _ _ _ => trivial⟩

instance : StableDevices D anySys := ⟨fun _ _ _ => trivial, fun _ _ => trivial⟩

/-- `RETI` has just been executed. -/
def retiSys (s : Sys Site (HwState V)) : Prop := s.hw.wasReti = true

theorem read_reti {h : CoreHw Dev} (c : Site) (st : St V) (hst : st.hw.wasReti = true) :
    (D.hardware.read h c st).2.1.hw.wasReti = true := by
  cases h with
  | device d => exact (D.read_reti d c st).trans hst
  | interrupt => exact hst
  | dummy => exact hst

/-- The interrupt logic only raises the flag. -/
theorem write_reti {h : CoreHw Dev} (c : Site) (v : TMem) (st : St V) (hst : st.hw.wasReti = true) :
    (D.hardware.write h c v st).2.1.hw.wasReti = true := by
  cases h with
  | device d => exact (D.write_reti d c v st).trans hst
  | interrupt =>
    change (interruptWrite c v st).hw.wasReti = true
    unfold interruptWrite
    split
    · exact hst
    · rfl
  | dummy =>
    change (dummyWrite c v st).hw.wasReti = true
    unfold dummyWrite
    repeat' split
    all_goals exact hst

theorem cellWrite_reti (c : Site) (v : TMem) : Keeps (HoldsMem retiSys) (c.write D v) := by
  cases c with
  | dummy sp => exact Keeps.modifyGet fun _ hs => hs
  | cell sp idx =>
    exact Site.write_triple (J := fun _ st => st.hw.wasReti = true)
      (fun hw _ w st hst => write_reti _ w st hst) fun w s u hu => hu

instance : StableAllBytes D retiSys where
  read _ := Site.read_keeps (J := fun st => st.hw.wasReti = true) fun _ _ st hst => read_reti _ st hst
  readSkip _ k := Site.readSkip_keeps (J := fun st => st.hw.wasReti = true) k fun _ _ st hst => read_reti _ st hst
  write c v _ := cellWrite_reti c v
  writeAll c v := cellWrite_reti c v
  add _ _ _ _ := Keeps.modifyGet fun _ hs => hs
  setBit1 _ _ _ _ := Keeps.modifyGet fun _ hs => hs
  setBit0 _ _ _ _ := Keeps.modifyGet fun _ hs => hs
  setAll c v := by
    cases c with
    | dummy sp => exact Keeps.modifyGet fun _ hs => hs
    | cell sp idx => exact Keeps.modifyGet fun _ hs => hs

instance : StableDevices D retiSys :=
  ⟨fun n s hs => (D.tick_reti n s.toStore).trans hs, fun s hs => (D.reset_reti s.toStore).trans hs⟩

/-- The program counter is not negative, and the levels satisfy `L`. -/
def LevelsHold (L : List ItLevel → Prop) (pc : Int) (levels : List ItLevel) : Prop := 0 ≤ pc ∧ L levels

section

variable {L : List ItLevel → Prop}

instance : Fetches (LevelsHold L) := ⟨fun _ _ h => ⟨incPC_nonneg h.1, h.2⟩⟩

instance : Jumps (LevelsHold L) := ⟨fun _ _ _ h0 h => ⟨h0, h.2⟩⟩

instance : Serves (LevelsHold Nested) where
  push _ _ _ _ h habove hnew := ⟨h.1, h.2.service (h.2.above habove hnew _ List.mem_cons_self) hnew⟩
  pop _ _ h := ⟨h.1, h.2.reti⟩

end

/-- After reset the main program is alone. -/
theorem reset_nested : Triple (Holds (LevelsHold Nested) anySys) (reset D)
    fun _ => Holds (LevelsHold (· = [mainLevel])) anySys :=
  reset_triple fun _ _ h => ⟨le_refl 0, h.2.dropWhile⟩

/-- In every reachable state the levels are a stack of services over the main program. -/
theorem reachable_nested {u : Uc V} (hu : (controller D).Reachable u) :
    Holds (LevelsHold Nested) anySys u := by
  have hrows : Rows (fun _ _ _ => True) (Holds (LevelsHold Nested) anySys) (cases D) := by
    dsimp only [cases]
    repeat refine Rows.cons ?_
    exact Rows.nil
  refine System.Reachable.invariant ?_ (fun e u v _ hI hstep => ?_) hu
  · rintro v ⟨u, hpower, hrun⟩
    have hmain := reset_nested u () v
      ⟨⟨hpower.PC ▸ le_refl _, hpower.itLevels ▸ Nested.main⟩, trivial⟩ hrun
    exact ⟨⟨hmain.1.1, hmain.1.2 ▸ Nested.main⟩, trivial⟩
  · cases e with
    | round input =>
      exact round_triple (G := fun _ _ _ => True) (P := LevelsHold Nested) (K := anySys) input u () v
        ⟨hI, hI.1.1, fun _ _ _ _ => trivial⟩ hstep.2
    | reset =>
      have hmain := reset_nested u () v hI hstep
      exact ⟨⟨hmain.1.1, hmain.1.2 ▸ Nested.main⟩, trivial⟩
    | poke => exact ⟨⟨hstep.PC ▸ hI.1.1, hstep.itLevels ▸ hI.1.2⟩, trivial⟩

/-! ## What one round does to the stack -/

/-- The next round executes `RETI`. -/
def ExecutesReti (u : Uc V) : Prop :=
  u.state = .go ∧ ¬ Stops u ∧ codeAt (startStore u) u.PC = 0x32

instance (I : Uc V → Prop) : Row (fun code _ _ => code ≠ 0x32) I ([0x32], instReti D) :=
  ⟨fun _ hmem _ _ _ hne => absurd (List.mem_singleton.mp hmem) hne⟩

/-- `RETI` pops a level, and raises the flag that keeps the next request waiting. -/
theorem instReti_levels (levels : List ItLevel) (code : UChar) :
    Triple (Holds (LevelsHold (· = levels)) anySys) (instReti D code)
      fun _ => Holds (LevelsHold (· = retiLevels levels)) retiSys := by
  have hpop : Kept (Holds (LevelsHold (· = levels)) anySys) (popPC D) := inferInstance
  unfold instReti
  refine Triple.bind hpop.keeps fun r => ?_
  refine Triple.bind (Q := fun _ => Holds (LevelsHold (· = levels)) retiSys)
    (Triple.modifyGet fun u hu => ⟨hu.1, rfl⟩) fun _ => ?_
  refine Triple.bind (Q := fun _ => Holds (LevelsHold (· = retiLevels levels)) retiSys)
    (Triple.modifyGet fun u hu => ?_) fun _ => Kept.keeps
  obtain ⟨⟨h0, rfl⟩, hreti⟩ := hu
  exact ⟨⟨h0, rfl⟩, hreti⟩

/-- Behind `RETI` no request is looked at. -/
theorem checkInterrupts_reti (levels : List ItLevel) :
    Triple (Holds (LevelsHold (· = levels)) retiSys) (checkInterrupts D)
      fun _ => Holds (LevelsHold (· = levels)) anySys := by
  have hany : ∀ u : Uc V, Holds (LevelsHold (· = levels)) retiSys u → Holds (LevelsHold (· = levels)) anySys u :=
    fun u hu => ⟨hu.1, trivial⟩
  have hresult : ∀ res, Kept (Holds (LevelsHold (· = levels)) anySys)
      (modify fun u => { u with result := res } : UcProg V Unit) := fun res => kept_core fun _ => ⟨rfl, rfl, rfl⟩
  have hscan : Triple (Holds (LevelsHold (· = levels)) retiSys) (doInterrupt D)
      fun _ => Holds (LevelsHold (· = levels)) anySys := by
    unfold doInterrupt
    refine Triple.bind (Q := fun u v => Holds (LevelsHold (· = levels)) retiSys v ∧ u = v)
      (Triple.get fun u hu => ⟨hu, rfl⟩) fun u => Triple.ite (fun _ => ?_) fun hclear => ?_
    · refine Triple.mono (P := Holds (LevelsHold (· = levels)) anySys) Kept.keeps (fun v hv => hany v hv.1) fun _ _ hv => hv
    · rintro v a w ⟨hv, rfl⟩ -
      exact absurd hv.2 hclear
  unfold checkInterrupts
  refine Triple.bind (Kept.keeps (I := Holds (LevelsHold (· = levels)) retiSys)) fun u => Triple.ite (fun _ => ?_) fun _ => ?_
  · exact Triple.bind hscan fun res => Kept.keeps
  · exact Triple.pure hany

/-- `levels`, with one more level above all of them if a source was accepted. -/
def AcceptedOn (levels after : List ItLevel) : Prop :=
  after = levels ∨ ∃ new, after = new :: levels ∧ ∀ il ∈ levels, il.level < new.level

theorem levelPush_acceptedOn {levels : List ItLevel} (h : Nested levels) :
    LevelPush (LevelsHold (· = levels)) (LevelsHold (AcceptedOn levels)) where
  sub _ _ hl := ⟨hl.1, Or.inl hl.2⟩
  push pc new il below hl habove hnew := by
    obtain ⟨h0, rfl⟩ := hl
    exact ⟨h0, Or.inr ⟨new, rfl, h.above habove hnew⟩⟩

/-- A round that executes `RETI` pops the innermost level and accepts nothing. -/
theorem round_reti {u v : Uc V} {input : Bool} (h0 : 0 ≤ u.PC) (hex : ExecutesReti u)
    (hrun : (round D input).run u = .ok ((), v)) : v.itLevels = retiLevels u.itLevels := by
  have hexec : Triple (fun v => Holds (LevelsHold (· = u.itLevels)) anySys v ∧ v = startUc { u with result := .go })
      (execInst D) fun _ => Holds (LevelsHold (· = retiLevels u.itLevels)) retiSys := by
    refine execInst_rule (u := startUc { u with result := .go }) h0 (fun hstop => absurd hstop hex.2.1) fun _ => ?_
    have hcode : codeAt (startUc { u with result := .go }).mem.sys.toStore u.PC = 0x32 := hex.2.2
    rw [show (startUc { u with result := .go }).PC = u.PC from rfl, hcode,
      show dispatch D 0x32 = instReti D 0x32 from rfl]
    exact Triple.mono (instReti_levels u.itLevels 0x32) (fun _ hv => hv.1) fun _ _ hv => hv
  have hgo : Triple (fun w => w = { u with result := .go }) (goRound D)
      fun _ => Holds (LevelsHold (· = retiLevels u.itLevels)) retiSys := by
    refine goRound_rule (Q := fun _ => Holds (LevelsHold (· = retiLevels u.itLevels)) retiSys) ?_
      fun _ => Kept.keeps
    exact Triple.mono hexec (fun w hw => ⟨by rw [hw]; exact ⟨⟨h0, rfl⟩, trivial⟩, hw⟩) fun _ _ hw => hw
  have hstop : Kept (Holds (LevelsHold (· = retiLevels u.itLevels)) anySys)
      (checkStop input : UcProg V Unit) := inferInstance
  have hround : Triple (fun w => w = u) (round D input)
      fun _ => Holds (LevelsHold (· = retiLevels u.itLevels)) anySys :=
    round_rule (fun _ => hgo) (fun hidle => absurd hex.1 hidle)
      (Triple.bind (checkInterrupts_reti _) fun _ => hstop.keeps)
  exact (hround u () v rfl hrun).1.2

/-- Any other round pushes at most one level. -/
theorem round_other {u v : Uc V} {input : Bool} (h0 : 0 ≤ u.PC) (hnest : Nested u.itLevels)
    (hex : ¬ ExecutesReti u) (hrun : (round D input).run u = .ok ((), v)) : AcceptedOn u.itLevels v.itLevels := by
  have hpush := levelPush_acceptedOn hnest
  have hrows : Rows (fun code _ _ => code ≠ 0x32) (Holds (LevelsHold (· = u.itLevels)) anySys) (cases D) := by
    dsimp only [cases]
    repeat refine Rows.cons ?_
    exact Rows.nil
  have hstop : Kept (Holds (LevelsHold (AcceptedOn u.itLevels)) anySys) (checkStop input : UcProg V Unit) :=
    inferInstance
  have hround : Triple (fun w => w = u) (round D input)
      fun _ => Holds (LevelsHold (AcceptedOn u.itLevels)) anySys := by
    refine round_rule (R := Holds (LevelsHold (· = u.itLevels)) anySys) (fun hgo => ?_)
      (fun _ => ?_) (Triple.bind checkInterrupts_triple fun _ => hstop.keeps)
    · refine goRound_triple (u := { u with result := .go }) (G := fun code _ _ => code ≠ 0x32) h0
        ⟨⟨h0, rfl⟩, trivial⟩ fun hstop => ?_
      rintro code hcode rfl
      exact hex ⟨hgo, hstop, hcode⟩
    · refine Triple.mono kept_idleRound.keeps (fun w hw => ?_) fun _ _ hw => hw
      rw [hw]
      exact ⟨⟨h0, rfl⟩, trivial⟩
  exact (hround u () v rfl hrun).1.2

/-- In every reachable state the levels are those of at most two services over that of the main
program, and they increase from bottom to top. `RETI` pops exactly the innermost service, and nothing
when there is none; what any other round accepts is of a higher level than all services, and reset
leaves the main program alone. -/
theorem interrupt_nesting {u : Uc V} (hu : (controller D).Reachable u) :
    ∃ services : List ItLevel, u.itLevels = services ++ [mainLevel] ∧
      (u.itLevels.map (·.level)).Pairwise (· > ·) ∧ services.length ≤ 2 ∧
      (∀ input v, (round D input).run u = .ok ((), v) →
        (ExecutesReti u → v.itLevels = services.tail ++ [mainLevel]) ∧
        (¬ ExecutesReti u → AcceptedOn (services ++ [mainLevel]) v.itLevels)) ∧
      (∀ v, (reset D).run u = .ok ((), v) → v.itLevels = [mainLevel]) := by
  have hI := reachable_nested hu
  obtain ⟨services, heq, hpos⟩ := hI.1.2.services
  refine ⟨services, heq, hI.1.2.decreasing, (heq ▸ hI.1.2).length_le, fun input v hrun => ⟨fun hex => ?_, fun hex => ?_⟩,
    fun v hrun => ?_⟩
  · rw [round_reti hI.1.1 hex hrun, heq, retiLevels_services hpos]
  · rw [← heq]
    exact round_other hI.1.1 hI.1.2 hex hrun
  · exact (reset_nested u () v hI hrun).1.2

/-- `RETI` at the vector of the first external interrupt. -/
def retiCode : Site → TMem
  | .cell .flashbank0 0x03 => 0x32
  | _ => 0

/-- The first external interrupt is enabled, and requested. -/
def request (u : Uc Unit) : Uc Unit :=
  { u with
    itSources := externalSources
    mem := { u.mem with sys := { u.mem.sys with
      mem := Function.update (Function.update u.mem.sys.mem (.sfr Reg.IE) 0x81) (.sfr Reg.TCON) 0x02 } } }

theorem request_poke (u : Uc Unit) : Poke u (request u) :=
  ⟨fun h => isBytes_update (isBytes_update h _ (by decide)) _ (by decide), rfl, rfl⟩

/-- The interrupt is served behind the first instruction, and the service consists of `RETI`. -/
theorem interrupt_nesting_serving : ∃ u v : Uc Unit, (controller noDevices).Reachable u ∧ ExecutesReti u ∧
    (round noDevices false).run u = .ok ((), v) ∧ u.itLevels.length = 2 ∧ v.itLevels = [mainLevel] := by
  have hpower : PowerOn (bare retiCode) := by
    refine ⟨fun c => ?_, rfl, rfl⟩
    change (retiCode c).toNat < 0x100
    unfold retiCode
    split <;> decide
  obtain ⟨⟨⟩, u₀, hreset, h₀⟩ := run_of_check (x := reset noDevices) (s := bare retiCode)
    (p := fun _ u => decide ((request u).state ≠ .pd) && check (round noDevices false) (fun _ v =>
      decide (v.state = .go) && v.fbrk.isEmpty && decide (codeAt (startStore v) v.PC = 0x32) &&
        decide (v.itLevels.length = 2) && check (round noDevices false) (fun _ _ => true) v) (request u))
    (by decide +kernel)
  simp only [Bool.and_eq_true, decide_eq_true_eq] at h₀
  obtain ⟨⟨⟩, u₁, hserve, h₁⟩ := run_of_check h₀.2
  simp only [Bool.and_eq_true, decide_eq_true_eq] at h₁
  obtain ⟨⟨⟨⟨hgo, hbrk⟩, hcode⟩, hlength⟩, hround⟩ := h₁
  obtain ⟨⟨⟩, u₂, hreti, -⟩ := run_of_check hround
  have hstart : (controller noDevices).Reachable u₀ := .init ⟨_, hpower, hreset⟩
  have hrequest : (controller noDevices).step .poke u₀ (request u₀) := request_poke u₀
  have hround₁ : (controller noDevices).step (.round false) (request u₀) u₁ := ⟨h₀.1, hserve⟩
  have hreach : (controller noDevices).Reachable u₁ := .step (.step hstart hrequest) hround₁
  have hstop : ¬ Stops u₁ := by
    rintro ⟨-, -, -, brk, hfind, -⟩
    rw [List.isEmpty_iff.mp hbrk] at hfind
    cases hfind
  have hex : ExecutesReti u₁ := ⟨hgo, hstop, hcode⟩
  obtain ⟨services, heq, -, -, hlevels, -⟩ := interrupt_nesting hreach
  have hone : services.length = 1 := by
    rw [heq, List.length_append] at hlength
    exact Nat.succ.inj hlength
  have htail : services.tail = [] := List.length_eq_zero_iff.mp (by rw [List.length_tail, hone])
  refine ⟨u₁, u₂, hreach, hex, hreti, hlength, ?_⟩
  rw [(hlevels false u₂ hreti).1 hex, htail]
  rfl

end Ucsim.S51
