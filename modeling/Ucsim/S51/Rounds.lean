import Ucsim.S51.Arbitration
import Ucsim.S51.Instructions
import Ucsim.S51.Operands

/-!
# What a round keeps

A round of `do_inst` from its parts: the instruction with the state it starts in, the hardware, and the
interrupt system.
-/

namespace Ucsim.S51

open Logic Program

variable {Dev V : Type} {D : Devices Dev V} {P : Int → List ItLevel → Prop}
  {K : Sys Site (HwState V) → Prop}

set_option synthInstance.maxSize 1024
-- not every part of a round ticks the devices
set_option linter.unusedSectionVars false

/-! ## Hardware and interrupts -/

/-- The devices keep `K` when they tick and when they are reset. -/
class StableDevices (D : Devices Dev V) (K : Sys Site (HwState V) → Prop) : Prop where
  tick : ∀ n s, K s → K { toStore := (D.tick n s.toStore).1, events := s.events ++ (D.tick n s.toStore).2 }
  reset : ∀ s, K s → K { toStore := (D.reset s.toStore).1, events := s.events ++ (D.reset s.toStore).2 }

section Interrupts

variable [h : StableBytes D K] [hd : StableDevices D K] [hb : OfBytes K]

omit h hb in
instance kept_devicesTick (cycles : Int) : Kept (HoldsMem K) (devicesTick D cycles) :=
  ⟨Keeps.modifyGet fun s hs => hd.tick cycles s.sys hs⟩

omit hb in
instance kept_interruptTick : Kept (HoldsMem K) (interruptTick D) := by
  unfold interruptTick
  infer_instance

omit hb in
instance kept_tickHw (cycles : Int) : Kept (HoldsMem K) (tickHw D cycles) := by
  unfold tickHw
  infer_instance

omit h hd hb in
instance kept_checkErrors : Kept (Holds P K) (checkErrors : UcProg V Unit) := by
  have hfree : Kept (Holds P K) (modify fun u => { u with mem := { u.mem with errors := [] } } :
      UcProg V Unit) := kept_core fun _ => ⟨rfl, rfl, rfl⟩
  unfold checkErrors
  infer_instance

omit hb in
instance kept_postInst : Kept (Holds P K) (postInst D) := by
  have hexec : Kept (Holds P K) (modify fun u => { u with instExec := false } : UcProg V Unit) :=
    kept_core fun _ => ⟨rfl, rfl, rfl⟩
  unfold postInst
  infer_instance

omit h in
instance kept_preInst : Kept (Holds P K) (preInst : UcProg V Unit) :=
  ⟨Keeps.modifyGet fun u hu => ⟨hu.1, hb.of_mem u.mem.sys _ rfl hu.2⟩⟩

omit h in
instance kept_requested (src : ItSrc) : Kept (HoldsMem K) (requested D src) := by
  unfold requested
  infer_instance

omit h in
/-- There are two priorities. -/
theorem itPriority_triple (ieMask : UChar) :
    Triple (Holds P K) (onMem (itPriority D ieMask)) fun pr u => (pr = 0 ∨ pr = 1) ∧ Holds P K u := by
  have hpr : Triple (HoldsMem K) (itPriority D ieMask) fun pr s => (pr = 0 ∨ pr = 1) ∧ HoldsMem K s := by
    refine Triple.bind (kept_sfrGet (D := D) Reg.IP).keeps fun ip => Triple.pure fun s hs => ⟨?_, hs⟩
    split
    · exact Or.inr rfl
    · exact Or.inl rfl
  intro u pr v hu hrun
  obtain ⟨s, hs, rfl⟩ := run_zoom_ok.mp hrun
  obtain ⟨h01, hK⟩ := hpr _ _ _ hu.2 hs
  exact ⟨h01, hu.1, hK⟩

/-- The request bit of a source is no flag of `PSW`. -/
instance (src : ItSrc) : NotFlags (Space.sfr.cells src.srcReg.toNat) := by
  have hne : src.srcReg.toNat ≠ 0xE0 ∧ src.srcReg.toNat ≠ 0xD0 := by
    refine ⟨fun heq => src.srcReg_ne.1 ?_, fun heq => src.srcReg_ne.2 ?_⟩ <;>
      exact BitVec.eq_of_toNat_eq heq
  constructor
  · simp only [Space.cells, psw, Site.sfr, Reg.PSW, Space.startAddress, ne_eq, Site.cell.injEq, true_and]
    omega
  · simp only [Space.cells, acc, Site.sfr, Reg.ACC, Space.startAddress, ne_eq, Site.cell.injEq, true_and]
    omega

/-- Accepting an interrupt leads from `P` to `Q`: a level above the top is pushed. -/
class LevelPush (P Q : Int → List ItLevel → Prop) : Prop where
  sub : ∀ pc levels, P pc levels → Q pc levels
  push : ∀ pc new il below, P pc (il :: below) → il.level < 0 ∨ il.level < new.level →
    new.level = 0 ∨ new.level = 1 → Q pc (new :: il :: below)

instance [hS : Serves P] : LevelPush P P := ⟨fun _ _ h => h, hS.push⟩

variable {Q : Int → List ItLevel → Prop} [hC : Calls Q] [hF : Fetches Q] [hA : LevelPush P Q]

/-- Accepting a source of a priority above the top level. -/
theorem acceptIt_triple {il new : ItLevel} {below : List ItLevel} (habove : il.level < 0 ∨ il.level < new.level)
    (hnew : new.level = 0 ∨ new.level = 1) :
    Triple (fun u => Holds P K u ∧ u.itLevels = il :: below) (acceptIt D new) fun _ => Holds Q K := by
  let P' : Int → List ItLevel → Prop := fun pc levels => P pc levels ∧ levels = il :: below
  have hstate : Kept (Holds P' K) (modify fun u => { u with state := .go } : UcProg V Unit) :=
    kept_core fun _ => ⟨rfl, rfl, rfl⟩
  unfold acceptIt
  refine Triple.mono (P := Holds P' K) (Q := fun _ => Holds Q K) ?_ (fun u hu => ⟨⟨hu.1.1, hu.2⟩, hu.1.2⟩)
    fun _ _ hu => hu
  refine Triple.bind hstate.keeps fun _ => ?_
  refine Triple.bind (Kept.keeps (I := Holds P' K)) fun _ => ?_
  refine Triple.bind (Q := fun _ => Holds Q K) (Triple.modifyGet fun u hu => ?_) fun _ => Kept.keeps
  obtain ⟨⟨hP, hlevels⟩, hK⟩ := hu
  rw [hlevels] at hP
  refine ⟨?_, hK⟩
  dsimp only
  rw [hlevels]
  exact hA.push _ _ _ _ hP habove hnew

theorem acceptSource_triple {il : ItLevel} {below : List ItLevel} (src : ItSrc) {pr : Int}
    (habove : il.level < 0 ∨ il.level < pr) (hpr : pr = 0 ∨ pr = 1) :
    Triple (fun u => Holds P K u ∧ u.itLevels = il :: below) (acceptSource D src pr)
      fun _ => Holds Q K := by
  let P' : Int → List ItLevel → Prop := fun pc levels => P pc levels ∧ levels = il :: below
  have haccept : ∀ PC : Int, Triple (Holds P' K)
      (acceptIt D { level := pr, addr := src.addr, PC := PC, source := some src }) fun _ => Holds Q K :=
    fun PC => Triple.mono (acceptIt_triple habove hpr) (fun u hu => ⟨⟨hu.1.1, hu.2⟩, hu.1.2⟩)
      fun _ _ hu => hu
  refine Triple.mono (P := Holds P' K) (Q := fun _ => Holds Q K) ?_
    (fun u hu => ⟨⟨hu.1.1, hu.2⟩, hu.1.2⟩) fun _ _ hu => hu
  unfold acceptSource
  refine Triple.ite (fun _ => ?_) (fun _ => ?_)
  · refine Triple.bind (Kept.keeps (I := Holds P' K)) fun _ => ?_
    exact Triple.bind (Kept.keeps (I := Holds P' K)) fun u => haccept u.PC
  · exact Triple.bind (Kept.keeps (I := Holds P' K)) fun u => haccept u.PC

omit hC hF hA in
instance kept_leaveIdle : Kept (Holds P K) (leaveIdle D) := by
  have hstate : Kept (Holds P K) (modify fun u => { u with state := .go } : UcProg V Unit) :=
    kept_core fun _ => ⟨rfl, rfl, rfl⟩
  unfold leaveIdle
  infer_instance

omit h hC hF hd hb in
/-- What keeps `P` leads to `Q`. -/
theorem LevelPush.weaken {α : Type} (x : UcProg V α) [hx : Kept (Holds P K) x] :
    Triple (Holds P K) x fun _ => Holds Q K :=
  Triple.mono hx.keeps (fun _ hu => hu) fun _ _ hu => ⟨hA.sub _ _ hu.1, hu.2⟩

/-- A source that requests service is taken unless the current service has its priority or a higher one;
`x` goes on with the other sources. -/
theorem scanSource_triple {x : UcProg V Res} (hx : Triple (Holds P K) x fun _ => Holds Q K) (src : ItSrc)
    {pr : Int} (hpr : pr = 0 ∨ pr = 1) : Triple (Holds P K) (do
      match (← get).itLevels with
      | [] => throw .noLevel
      | il :: _ =>
        if il.level ≥ 0 ∧ pr ≤ il.level then x
        else takeSource D src pr : UcProg V Res) fun _ => Holds Q K := by
  refine Triple.bind (Q := fun u v => u = v ∧ Holds P K v)
    (Triple.get fun u hu => ⟨rfl, hu⟩) fun u => ?_
  cases hlevels : u.itLevels with
  | nil => exact Triple.throw
  | cons il below =>
    refine Triple.ite (fun _ => ?_) (fun hp => ?_)
    · exact Triple.mono hx (fun _ hu => hu.2) fun _ _ hu => hu
    · have habove : il.level < 0 ∨ il.level < pr := by omega
      unfold takeSource
      refine Triple.bind (Q := fun w v => Holds P K v ∧ v.itLevels = il :: below)
        (Triple.get fun v hv => ?_) fun w => Triple.ite (fun _ => ?_) (fun _ => ?_)
      · obtain ⟨rfl, hv⟩ := hv
        exact ⟨hv, hlevels⟩
      · exact Triple.mono (LevelPush.weaken (P := P) (leaveIdle D)) (fun _ hu => hu.1) fun _ _ hu => hu
      · exact acceptSource_triple src habove hpr

/-- The loop over the sources. The induction is on the list. -/
theorem scanSources_triple (srcs : List ItSrc) :
    Triple (Holds P K) (scanSources D srcs) fun _ => Holds Q K := by
  induction srcs with
  | nil =>
    unfold scanSources
    exact LevelPush.weaken _
  | cons src rest ih =>
    unfold scanSources
    refine Triple.bind (Kept.keeps (I := Holds P K)) fun r => Triple.ite (fun _ => ?_) fun _ => ih
    refine Triple.bind (itPriority_triple src.ieMask) fun pr => ?_
    intro u a v hu hrun
    exact scanSource_triple ih src hu.1 u a v hu.2 hrun

theorem doInterrupt_triple : Triple (Holds P K) (doInterrupt D) fun _ => Holds Q K := by
  unfold doInterrupt
  refine Triple.bind (Kept.keeps (I := Holds P K)) fun u => Triple.ite (fun _ => LevelPush.weaken _) fun _ => ?_
  refine Triple.bind (Kept.keeps (I := Holds P K)) fun ie => Triple.ite (fun _ => LevelPush.weaken _) fun _ => ?_
  exact Triple.bind (Kept.keeps (I := Holds P K)) fun u => scanSources_triple _

omit hC hF hA in
instance kept_doInterrupt [Calls P] [Fetches P] [Serves P] : Kept (Holds P K) (doInterrupt D) :=
  ⟨doInterrupt_triple⟩

omit h hC hF hA in
instance kept_idlePd : Kept (Holds P K) (idlePd D) := by
  have hidle : Kept (Holds P K) (modify fun u => { u with state := .idle } : UcProg V Unit) :=
    kept_core fun _ => ⟨rfl, rfl, rfl⟩
  have hpd : Kept (Holds P K) (modify fun u => { u with state := .pd } : UcProg V Unit) :=
    kept_core fun _ => ⟨rfl, rfl, rfl⟩
  unfold idlePd
  infer_instance

end Interrupts

/-! ## Instructions -/

/-- A case of the instruction table keeps `I` when started where `G` holds of its code, of the memory
and hardware state and of the program counter behind the code. -/
class Row (G : UChar → St V → Int → Prop) (I : Uc V → Prop)
    (row : List UChar × (UChar → UcProg V Res)) : Prop where
  keeps : ∀ code ∈ row.1, ∀ st pc, 0 ≤ pc → G code st pc →
    Triple (fun u => I u ∧ At st pc u) (row.2 code) fun _ => I

/-- All cases do. -/
class Rows (G : UChar → St V → Int → Prop) (I : Uc V → Prop)
    (rows : List (List UChar × (UChar → UcProg V Res))) : Prop where
  keeps : ∀ row ∈ rows, Row G I row

section Table

variable {G : UChar → St V → Int → Prop} {I : Uc V → Prop}

/-- An instruction that keeps `I` anyway. -/
instance (priority := low) (labels : List UChar) (inst : UChar → UcProg V Res)
    [h : ∀ code, Kept I (inst code)] : Row G I (labels, inst) :=
  ⟨fun code _ _ _ _ _ => Triple.mono (h code).keeps (fun _ hu => hu.1) fun _ _ hu => hu⟩

theorem Rows.nil : Rows G I [] := ⟨fun _ h => absurd h List.not_mem_nil⟩

theorem Rows.cons {row : List UChar × (UChar → UcProg V Res)}
    {rows : List (List UChar × (UChar → UcProg V Res))} [hrow : Row G I row] (hrows : Rows G I rows) :
    Rows G I (row :: rows) := by
  constructor
  intro row' hmem
  rcases List.mem_cons.mp hmem with rfl | hmem
  · exact hrow
  · exact hrows.keeps row' hmem

variable [hF : Fetches P] [hK : StableBytes D K] [hb : OfBytes K] [hrows : Rows G (Holds P K) (cases D)]

omit hF hK in
/-- The switch over the instruction codes. -/
theorem dispatch_triple {st : St V} {pc : Int} (h0 : 0 ≤ pc) {code : TMem}
    (hpre : ∀ label, code = tmem label → G label st pc) :
    Triple (fun u => Holds P K u ∧ At st pc u) (dispatch D code) fun _ => Holds P K := by
  unfold dispatch
  cases hfind : (cases D).find? fun c => c.1.any (tmem · = code) with
  | none => exact Triple.mono (Kept.keeps (I := Holds P K)) (fun _ hu => hu.1) fun _ _ hu => hu
  | some row =>
    have hmem := List.mem_of_find?_eq_some hfind
    have hlabel := List.find?_some hfind
    obtain ⟨label, hl, heq⟩ := List.any_eq_true.mp hlabel
    have hcode : uchar code = label := by
      rw [← of_decide_eq_true heq]
      exact BitVec.setWidth_setWidth_of_le label (by decide)
    obtain ⟨labels, inst⟩ := row
    dsimp only
    rw [hcode]
    exact (hrows.keeps _ hmem).keeps label hl st pc h0 (hpre label (of_decide_eq_true heq).symm)

/-- The code byte at `pc`, if it is one, meets the condition. -/
def CodeOk (G : UChar → St V → Int → Prop) (st : St V) (pc : Int) : Prop :=
  ∀ code, codeAt st pc = tmem code → G code st (incPC pc)

/-- The next instruction is not fetched: a breakpoint stops it. -/
def Stops (u : Uc V) : Prop :=
  u.simGo ∧ u.mem.fetchBrk u.PC ∧ ¬ Space.rom.invalid u.PC ∧
    ∃ brk, u.fbrk.find? (·.addr = u.PC) = some brk ∧ ¬ brk.cnt - 1 > 0

omit hF hK hrows in
/-- Looking for a breakpoint leaves memory, hardware and the program counter alone. -/
theorem fetchBrkHit_triple (u : Uc V) :
    Triple (fun v => v = u) fetchBrkHit fun b v => (b = true ↔ Stops u) ∧
      At u.mem.sys.toStore u.PC v := by
  have hsame : ∀ f : Uc V → Uc V, (f u).mem.sys = u.mem.sys → (f u).PC = u.PC →
      Triple (fun v => v = u) (modify f : UcProg V Unit) fun _ => At u.mem.sys.toStore u.PC := by
    intro f hsys hPC
    refine Triple.modifyGet fun v hv => ?_
    rw [hv]
    exact ⟨by rw [hsys], hPC⟩
  unfold fetchBrkHit
  refine Triple.get_bind (Triple.ite (fun hcond => ?_) fun hcond => ?_)
  · cases hfind : u.fbrk.find? (·.addr = u.PC) with
    | none =>
      refine Triple.pure fun v hv => ⟨⟨fun h => absurd h (by decide), fun hstop => ?_⟩, ?_⟩
      · obtain ⟨brk, hbrk, -⟩ := hstop.2.2.2
        rw [hfind] at hbrk
        cases hbrk
      · rw [hv]
        exact ⟨rfl, rfl⟩
    | some brk =>
      dsimp only
      refine Triple.ite (fun hcnt => ?_) (fun hcnt => Triple.ite (fun hdyn => ?_) fun hdyn => ?_)
      · refine Triple.bind (hsame _ rfl rfl) fun _ => Triple.pure fun v hv => ⟨?_, hv⟩
        refine ⟨fun h => absurd h (by decide), fun hstop => ?_⟩
        obtain ⟨brk', hbrk', hle⟩ := hstop.2.2.2
        rw [hfind] at hbrk'
        cases hbrk'
        exact absurd hcnt hle
      · exact Triple.bind (hsame _ rfl rfl) fun _ => Triple.pure fun v hv =>
          ⟨⟨fun _ => ⟨hcond.1, hcond.2.1, hcond.2.2, brk, hfind, hcnt⟩, fun _ => rfl⟩, hv⟩
      · exact Triple.bind (hsame _ rfl rfl) fun _ => Triple.pure fun v hv =>
          ⟨⟨fun _ => ⟨hcond.1, hcond.2.1, hcond.2.2, brk, hfind, hcnt⟩, fun _ => rfl⟩, hv⟩
  · refine Triple.pure fun v hv => ⟨⟨fun h => absurd h (by decide), fun hstop => ?_⟩, ?_⟩
    · exact absurd ⟨hstop.1, hstop.2.1, hstop.2.2.1⟩ hcond
    · rw [hv]
      exact ⟨rfl, rfl⟩

/-- What `exec_inst` does in front of the switch keeps `I`. -/
class Prologue (D : Devices Dev V) (I : Uc V → Prop) : Prop where
  instPC : Keeps I (modify fun u => { u with instPC := u.PC } : UcProg V Unit)
  fetchBrkHit : Keeps I (fetchBrkHit : UcProg V Bool)
  fetch : Keeps I (fetch D)
  tick : Keeps I (tick 1 : UcProg V Unit)

omit hrows hb in
instance : Prologue D (Holds P K) where
  instPC := Keeps.modifyGet fun _ hu => hu
  fetchBrkHit := Kept.keeps
  fetch := Kept.keeps
  tick := Kept.keeps

omit hF hK hrows hb in
/-- `exec_inst` stops at a breakpoint, or goes on with the switch, at the code byte fetched and the
address behind it. -/
theorem execInst_rule [hI : Prologue D I] {Q : Res → Uc V → Prop} {u : Uc V} (h0 : 0 ≤ u.PC)
    (hstop : Stops u → ∀ v, I v → At u.mem.sys.toStore u.PC v → Q .breakpoint v)
    (hdispatch : ¬ Stops u → Triple (fun v => I v ∧ At u.mem.sys.toStore (incPC u.PC) v)
      (dispatch D (codeAt u.mem.sys.toStore u.PC)) Q) :
    Triple (fun v => I v ∧ v = u) (execInst D) Q := by
  unfold execInst
  let w : Uc V := { u with instPC := u.PC }
  have hstart : Triple (fun v => I v ∧ v = u) (modify fun u => { u with instPC := u.PC } : UcProg V Unit)
      fun _ v => I v ∧ v = w :=
    Triple.mono (Triple.and hI.instPC (Triple.modifyGet (P := fun v => v = u) (Q := fun _ v => v = w)
      fun v hv => by subst hv; rfl)) (fun _ hv => hv) fun _ _ hv => hv
  refine Triple.bind hstart fun _ => ?_
  unfold fetchInst
  rw [bind_assoc]
  refine Triple.bind (Triple.and hI.fetchBrkHit (fetchBrkHit_triple w)) fun hit => ?_
  cases hit with
  | true => exact Triple.pure fun v hv => hstop (hv.2.1.mp rfl) v hv.1 hv.2.2
  | false =>
    simp only [Bool.false_eq_true, if_false, bind_assoc, pure_bind]
    intro v a z hv hrun
    have hgo : ¬ Stops u := fun hs => absurd (hv.2.1.mpr hs) (by decide)
    have hfetch : Triple (fun v => I v ∧ At u.mem.sys.toStore u.PC v) (fetch D) fun code v =>
        I v ∧ code = codeAt u.mem.sys.toStore u.PC ∧ At u.mem.sys.toStore (incPC u.PC) v :=
      Triple.and hI.fetch (fetch_triple h0)
    refine Triple.bind hfetch (R := Q) (fun code => ?_) v a z ⟨hv.1, hv.2.2⟩ hrun
    intro v a z hv hrun
    obtain ⟨hv, rfl, hat⟩ := hv
    have htick : Triple (fun v => I v ∧ At u.mem.sys.toStore (incPC u.PC) v) (tick 1 : UcProg V Unit)
        fun _ v => I v ∧ At u.mem.sys.toStore (incPC u.PC) v :=
      Triple.and hI.tick (Triple.modifyGet fun _ hv => hv)
    exact Triple.bind htick (R := Q) (fun _ => hdispatch hgo) v a z ⟨hv, hat⟩ hrun

/-- An instruction that is fetched and meets its condition keeps the properties. -/
theorem execInst_triple {u : Uc V} (h0 : 0 ≤ u.PC)
    (hpre : ¬ Stops u → CodeOk G u.mem.sys.toStore u.PC) :
    Triple (fun v => Holds P K v ∧ v = u) (execInst D) fun _ => Holds P K :=
  execInst_rule h0 (fun _ _ hv _ => hv) fun hgo => dispatch_triple (incPC_nonneg h0) (hpre hgo)

/-! ## Rounds -/

/-- The memory and hardware state in which `exec_inst` starts. -/
def startStore (u : Uc V) : St V :=
  { u.mem.sys.toStore with hw := { u.mem.sys.hw with wasReti := false } }

/-- The condition on the instruction that the next round executes, if it executes one. -/
def RoundOk (G : UChar → St V → Int → Prop) (u : Uc V) : Prop :=
  u.state = .go → ¬ Stops u → CodeOk G (startStore u) u.PC

/-- The controller when `exec_inst` starts. -/
def startUc (u : Uc V) : Uc V :=
  { u with
    instExec := true
    instTicks := 0
    mem := { u.mem with sys := { toStore := startStore u, events := [] } } }

omit hF hK hb hrows in
/-- A round that executes an instruction. -/
theorem goRound_rule {Q : Res → Uc V → Prop} {R : Uc V → Prop} {u : Uc V}
    (hexec : Triple (fun v => v = startUc u) (execInst D) Q)
    (hpost : ∀ res, Triple (Q res) (do
      modify fun v => { v with result := res }
      postInst D) fun _ => R) :
    Triple (fun v => v = u) (goRound D) fun _ => R := by
  have hclear : Triple (fun v => v = u) (onHw fun h => { h with wasReti := false } : UcProg V Unit)
      fun _ v => v = { u with mem := { u.mem with sys := { u.mem.sys with hw := (startStore u).hw } } } :=
    Triple.modifyGet fun v hv => by subst hv; rfl
  unfold goRound
  refine Triple.bind hclear fun _ => ?_
  refine Triple.bind (Q := fun _ v => v = startUc u) (Triple.modifyGet fun v hv => by subst hv; rfl)
    fun _ => ?_
  exact Triple.bind hexec hpost

omit hF hK hb hrows in
/-- A round from its parts. -/
theorem round_rule {R S : Uc V → Prop} {input : Bool} {u : Uc V}
    (hgo : u.state = .go → Triple (fun v => v = { u with result := .go }) (goRound D) fun _ => R)
    (hidle : u.state ≠ .go → Triple (fun v => v = { u with result := .go }) (idleRound D) fun _ => R)
    (hcheck : Triple R (do checkInterrupts D; checkStop input) fun _ => S) :
    Triple (fun v => v = u) (round D input) fun _ => S := by
  unfold round
  refine Triple.bind (Q := fun _ v => v = { u with result := .go })
    (Triple.modifyGet fun v hv => by subst hv; rfl) fun _ => ?_
  refine Triple.get_bind (Triple.ite (fun h => ?_) fun h => ?_)
  · exact Triple.bind (hgo h) fun _ => hcheck
  · exact Triple.bind (hidle h) fun _ => hcheck

variable [hd : StableDevices D K]

omit hF hrows hb in
instance kept_finish (res : Res) : Kept (Holds P K) (do
    modify fun u => { u with result := res }
    postInst D) := by
  have hresult : Kept (Holds P K) (modify fun u => { u with result := res } : UcProg V Unit) :=
    kept_core fun _ => ⟨rfl, rfl, rfl⟩
  infer_instance

theorem goRound_triple {u : Uc V} (h0 : 0 ≤ u.PC) (hu : Holds P K u)
    (hpre : ¬ Stops u → CodeOk G (startStore u) u.PC) :
    Triple (fun v => v = u) (goRound D) fun _ => Holds P K := by
  have hstart : Holds P K (startUc u) := ⟨hu.1, hb.of_mem u.mem.sys _ rfl hu.2⟩
  have hexec : Triple (fun v => Holds P K v ∧ v = startUc u) (execInst D) fun _ => Holds P K :=
    execInst_triple (u := startUc u) h0 hpre
  refine goRound_rule (Q := fun _ => Holds P K) ?_ fun _ => Kept.keeps
  exact Triple.mono hexec (fun v hv => ⟨by rw [hv]; exact hstart, hv⟩) fun _ _ hv => hv

variable [hC : Calls P] [hS : Serves P]

omit hF hrows hC hS in
instance kept_idleRound : Kept (Holds P K) (idleRound D) := by
  have hticks : Kept (Holds P K) (modify fun u => { u with instTicks := 1 } : UcProg V Unit) :=
    kept_core fun _ => ⟨rfl, rfl, rfl⟩
  unfold idleRound
  infer_instance

omit hF hrows hC hS in
/-- The end of a round leads from `P` to `Q` if acceptance does. -/
theorem checkInterrupts_triple {Q : Int → List ItLevel → Prop} [Calls Q] [Fetches Q] [hA : LevelPush P Q] :
    Triple (Holds P K) (checkInterrupts D) fun _ => Holds Q K := by
  have hresult : ∀ res, Kept (Holds Q K) (modify fun u => { u with result := res } : UcProg V Unit) :=
    fun res => kept_core fun _ => ⟨rfl, rfl, rfl⟩
  unfold checkInterrupts
  refine Triple.bind (Kept.keeps (I := Holds P K)) fun u => Triple.ite (fun _ => ?_) fun _ => LevelPush.weaken _
  exact Triple.bind (Q := fun _ => Holds Q K) doInterrupt_triple fun res => Kept.keeps

omit hrows in
instance kept_checkInterrupts : Kept (Holds P K) (checkInterrupts D) := ⟨checkInterrupts_triple⟩

omit hF hK hrows hC hS in
instance kept_checkStop (input : Bool) : Kept (Holds P K) (checkStop input : UcProg V Unit) := by
  have huser : Kept (Holds P K) (modify fun u => { u with result := .user } : UcProg V Unit) :=
    kept_core fun _ => ⟨rfl, rfl, rfl⟩
  unfold checkStop
  infer_instance

/-- A round that meets its condition keeps the properties. -/
theorem round_triple (input : Bool) :
    Triple (fun u => Holds P K u ∧ 0 ≤ u.PC ∧ RoundOk G u) (round D input) fun _ => Holds P K := by
  rintro u a v ⟨hu, h0, hok⟩ hrun
  have hrest : Kept (Holds P K) (do checkInterrupts D; checkStop input) := inferInstance
  refine round_rule (R := Holds P K) (fun hgo => ?_) (fun _ => ?_) hrest.keeps u a v rfl hrun
  · exact goRound_triple (u := { u with result := .go }) h0 hu (hok hgo)
  · exact Triple.mono kept_idleRound.keeps (fun v hv => by rw [hv]; exact hu) fun _ _ hv => hv

end Table

/-! ## Reset -/

section Reset

instance kept_forM {α : Type} {I : Uc V → Prop} (l : List α) {f : α → UcProg V Unit}
    [hf : ∀ x, Kept I (f x)] : Kept I (l.forM f) := by
  induction l with
  | nil => exact Kept.pure ()
  | cons x l ih => exact @Kept.bind _ _ _ _ _ _ _ (hf x) fun _ => ih

variable [h : StableAllBytes D K] [hd : StableDevices D K] [hb : OfBytes K]

instance kept_set (addr : Int) (v : TMem) : Kept (HoldsMem K) (Space.sfr.set D addr v) := by
  change Kept _ (Space.sfr.setCells D addr v)
  unfold Space.setCells
  infer_instance

instance kept_resetHw : Kept (Holds P K) (resetHw D) := by
  have hdevices : Kept (HoldsMem K) (modify fun s =>
      let r := D.reset s.sys.toStore
      { s with sys := { toStore := r.1, events := s.sys.events ++ r.2 } } : MemProg V Unit) :=
    ⟨Keeps.modifyGet fun s hs => hd.reset s.sys hs⟩
  unfold resetHw
  infer_instance

instance kept_clearSfr : Kept (Holds P K) (clearSfr D) := by
  unfold clearSfr
  -- the ports first: the whole sequence is too long for one search
  refine @Kept.bind _ _ _ _ _ _ _ inferInstance fun _ => ?_
  refine @Kept.bind _ _ _ _ _ _ _ inferInstance fun _ => ?_
  refine @Kept.bind _ _ _ _ _ _ _ inferInstance fun p1 => ?_
  refine @Kept.bind _ _ _ _ _ _ _ inferInstance fun _ => ?_
  infer_instance

/-- Reset leads from `P` to `Q` if the first assignments do. -/
theorem reset_triple {Q : Int → List ItLevel → Prop}
    (hstart : ∀ pc levels, P pc levels → Q 0 (levels.dropWhile (·.level ≥ 0))) :
    Triple (Holds P K) (reset D) fun _ => Holds Q K := by
  have hops : Kept (Holds Q K) (modify fun u => { u with stackOps := [] } : UcProg V Unit) :=
    kept_core fun _ => ⟨rfl, rfl, rfl⟩
  have hresult : Kept (Holds Q K) (modify fun u => { u with result := .go } : UcProg V Unit) :=
    kept_core fun _ => ⟨rfl, rfl, rfl⟩
  have huc : Triple (Holds P K) (ucReset D) fun _ => Holds Q K := by
    unfold ucReset
    exact Triple.bind (Q := fun _ => Holds Q K) (Triple.modifyGet fun u hu => ⟨hstart _ _ hu.1, hu.2⟩)
      fun _ => Kept.keeps
  unfold reset
  exact Triple.bind huc fun _ => Kept.keeps

end Reset

end Ucsim.S51
