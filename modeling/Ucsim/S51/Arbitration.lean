import Ucsim.S51.Exec
import Ucsim.S51.Cells

/-!
# Interrupt arbitration

`do_interrupt` scans the sources in polling order and takes the first one that is eligible: active,
enabled, requested, and of a priority above the current service. The priorities of two eligible sources
are never compared.
-/

namespace Ucsim.S51

open Logic

variable {Dev V : Type} {D : Devices Dev V}

/-! ## Programs of the memory system inside a step -/

theorem onMem_run {α : Type} {x : MemProg V α} {u : Uc V} {a : α} {m : MemState V}
    (h : x.run u.mem = .ok (a, m)) : (x : UcProg V α).run u = .ok (a, { u with mem := m }) :=
  Program.run_zoom_ok.mpr ⟨m, h, rfl⟩

/-- A program of the memory system keeps what does not depend on memory. -/
theorem onMem_keeps {α : Type} {J : Uc V → Prop} (hJ : ∀ m u, J u → J { u with mem := m })
    (x : MemProg V α) : Program.Keeps J (x : UcProg V α) := Program.Keeps.zoom hJ x

theorem onMem_ends {α : Type} {x : MemProg V α} (hx : Program.Ends x) :
    Program.Ends (x : UcProg V α) := Program.Ends.zoom hx

/-- The byte that `sfr->get(addr)` returns. -/
def sfrByte (mem : Site → TMem) (addr : Int) : TMem :=
  if Space.sfr.invalid addr then mem (.dummy .sfr) else mem (.sfr addr)

/-- `sfr->get` changes nothing but the list of errors. -/
theorem sfr_get_run (addr : Int) (m : MemState V) :
    ∃ errs, (Space.sfr.get D addr).run m = .ok (sfrByte m.sys.mem addr, { m with errors := errs }) := by
  change ∃ errs, (Space.sfr.getCells D addr).run m = _
  rw [Space.getCells, sfrByte]
  by_cases h : Space.sfr.invalid addr
  · rw [if_pos h, if_pos h]
    exact ⟨_, rfl⟩
  · rw [if_neg h, if_neg h]
    exact ⟨m.errors, Site.get_run (Site.sfr addr) m⟩

/-- `sfr->get` of a special function register changes nothing. -/
theorem sfr_get_run_valid {addr : Int} (h : ¬ Space.sfr.invalid addr) (m : MemState V) :
    (Space.sfr.get D addr).run m = .ok (m.sys.mem (.sfr addr), m) := by
  change (Space.sfr.getCells D addr).run m = _
  rw [Space.getCells, if_neg h]
  exact Site.get_run (Site.sfr addr) m

/-! ## Eligible sources -/

namespace ItSrc

/-- The source is active, enabled and requested. -/
def Requests (src : ItSrc) (mem : Site → TMem) : Prop :=
  src.active ∧ sfrByte mem src.ieReg.toNat &&& tmem src.ieMask ≠ 0 ∧
    sfrByte mem src.srcReg.toNat &&& tmem src.srcMask ≠ 0

instance (src : ItSrc) (mem : Site → TMem) : Decidable (src.Requests mem) :=
  inferInstanceAs (Decidable (_ ∧ _ ∧ _))

/-- The priority that `it_priority` gives to the source. -/
def priority (src : ItSrc) (mem : Site → TMem) : Int :=
  if mem (.sfr Reg.IP) &&& tmem src.ieMask ≠ 0 then 1 else 0

/-- The source requests, and no service is active or its priority is above the current service. -/
def Eligible (src : ItSrc) (mem : Site → TMem) (level : Int) : Prop :=
  src.Requests mem ∧ (level < 0 ∨ level < src.priority mem)

instance (src : ItSrc) (mem : Site → TMem) (level : Int) : Decidable (src.Eligible mem level) :=
  inferInstanceAs (Decidable (_ ∧ _))

/-- The level that accepting the source pushes. -/
def service (src : ItSrc) (mem : Site → TMem) (PC : Int) : ItLevel :=
  { level := src.priority mem, addr := src.addr, PC := PC, source := some src }

end ItSrc

theorem requested_run (src : ItSrc) (m : MemState V) :
    ∃ errs, (requested D src).run m = .ok (decide (src.Requests m.sys.mem), { m with errors := errs }) := by
  unfold requested
  by_cases hact : src.active
  · rw [if_pos hact]
    obtain ⟨errs, hie⟩ := sfr_get_run (D := D) src.ieReg.toNat m
    rw [Program.run_bind_of_ok hie]
    by_cases hen : sfrByte m.sys.mem src.ieReg.toNat &&& tmem src.ieMask ≠ 0
    · rw [if_pos hen]
      obtain ⟨errs', hsrc⟩ := sfr_get_run (D := D) src.srcReg.toNat { m with errors := errs }
      rw [Program.run_bind_of_ok hsrc]
      have hiff : src.Requests m.sys.mem ↔ sfrByte m.sys.mem src.srcReg.toNat &&& tmem src.srcMask ≠ 0 :=
        ⟨fun h => h.2.2, fun h => ⟨hact, hen, h⟩⟩
      rw [decide_eq_decide.mpr hiff]
      exact ⟨errs', rfl⟩
    · rw [if_neg hen, decide_eq_false fun h : src.Requests m.sys.mem => hen h.2.1]
      exact ⟨errs, rfl⟩
  · rw [if_neg hact, decide_eq_false fun h : src.Requests m.sys.mem => hact h.1]
    exact ⟨m.errors, rfl⟩

theorem itPriority_run (src : ItSrc) (m : MemState V) :
    (itPriority D src.ieMask).run m = .ok (src.priority m.sys.mem, m) := by
  rw [itPriority, Program.run_bind_of_ok (sfr_get_run_valid (by decide) m)]
  rfl

/-! ## The scan -/

/-- The state with another list of errors. -/
def Uc.withErrors (u : Uc V) (errs : List UcError) : Uc V := { u with mem := { u.mem with errors := errs } }

/-- The loop of `do_interrupt` takes the first eligible source. -/
theorem scanSources_run (srcs : List ItSrc) {u : Uc V} {il : ItLevel} {below : List ItLevel}
    (hl : u.itLevels = il :: below) :
    ∃ errs, (scanSources D srcs).run u
      = match srcs.find? (·.Eligible u.mem.sys.mem il.level) with
        | none => .ok (.go, u.withErrors errs)
        | some src => (takeSource D src (src.priority u.mem.sys.mem)).run (u.withErrors errs) := by
  induction srcs generalizing u with
  | nil => exact ⟨u.mem.errors, rfl⟩
  | cons src rest ih =>
    obtain ⟨errs, hreq⟩ := requested_run (D := D) src u.mem
    rw [scanSources, Program.run_bind_of_ok (onMem_run hreq)]
    by_cases hr : src.Requests u.mem.sys.mem
    · simp only [hr, decide_true, if_true]
      rw [Program.run_bind_of_ok (onMem_run (itPriority_run src _))]
      change ∃ errs', StateT.run _ (u.withErrors errs) = _
      generalize hw : u.withErrors errs = w
      have hlevels : w.itLevels = il :: below := by rw [← hl, ← hw]; rfl
      rw [StateT.run_bind, StateT.run_get, pure_bind, hlevels, ← hw]
      dsimp only
      by_cases hp : il.level ≥ 0 ∧ src.priority u.mem.sys.mem ≤ il.level
      · -- not above the current service
        have hne : ¬ src.Eligible u.mem.sys.mem il.level := by
          rintro ⟨-, h | h⟩ <;> omega
        rw [if_pos hp, List.find?_cons_of_neg (by simpa using hne)]
        exact ih (u := u.withErrors errs) hl
      · have he : src.Eligible u.mem.sys.mem il.level := ⟨hr, by omega⟩
        rw [if_neg hp, List.find?_cons_of_pos (by simpa using he)]
        exact ⟨errs, rfl⟩
    · have hne : ¬ src.Eligible u.mem.sys.mem il.level := fun h => hr h.1
      simp only [hr, decide_false, Bool.false_eq_true, if_false]
      rw [List.find?_cons_of_neg (by simpa using hne)]
      exact ih (u := u.withErrors errs) hl

/-! ## Acceptance -/

theorem getCell_ends (sp : Space) (addr : Int) : Program.Ends (sp.getCell addr : MemProg V Site) := by
  rw [Space.getCell]
  exact Program.Ends.ite (Program.Ends.bind (Program.Ends.modifyGet _) fun _ => Program.Ends.pure _)
    (Program.Ends.pure _)

theorem Site.write_ends (c : Site) (v : TMem) : Program.Ends (c.write D v) := by
  cases c with
  | cell sp idx => exact Program.Ends.modifyGet _
  | dummy sp => exact Program.Ends.modifyGet _

theorem sfr_wadd_ends (addr what : Int) : Program.Ends (Space.sfr.wadd D addr what) := by
  rw [Space.wadd]
  have hcell : Program.Ends ((Space.sfr.cells addr).wadd D what) :=
    Program.Ends.bind (Program.Ends.modifyGet _) fun _ => Site.write_ends _ _
  exact Program.Ends.ite (Program.Ends.bind (Program.Ends.modifyGet _) fun _ => hcell) hcell

theorem pushByte_ends (data : TMem) : Program.Ends (pushByte D data) :=
  Program.Ends.bind (onMem_ends (sfr_wadd_ends _ _)) fun _ =>
    Program.Ends.bind (onMem_ends (getCell_ends _ _)) fun _ =>
      Program.Ends.bind (onMem_ends (Site.write_ends _ _)) fun _ => Program.Ends.pure _

/-- A byte pushed changes memory only. -/
theorem pushByte_keeps {J : Uc V → Prop} (hJ : ∀ m u, J u → J { u with mem := m }) (data : TMem) :
    Program.Keeps J (pushByte D data) :=
  Program.Keeps.bind (onMem_keeps hJ _) fun _ => Program.Keeps.bind (onMem_keeps hJ _) fun _ =>
    Program.Keeps.bind (onMem_keeps hJ _) fun _ => Program.Keeps.pure _

theorem stackWrite_ends (op : StackOp) : Program.Ends (stackWrite op : UcProg V Unit) := by
  rw [stackWrite]
  exact Program.Ends.ite (Program.Ends.modifyGet _) (Program.Ends.modifyGet _)

theorem instLcall_ends (code : UChar) {addr : BitVec 16} (ha : addr ≠ 0) (intr : Bool) :
    Program.Ends (instLcall D code addr intr) := by
  simp only [instLcall, callTarget, if_neg ha]
  have hget : Program.Ends (Space.sfr.get D Reg.SP) := fun m =>
    ⟨_, _, sfr_get_run_valid (by decide) m⟩
  refine Program.Ends.bind (Program.Ends.pure _) fun target => ?_
  refine Program.Ends.bind (onMem_ends hget) fun spBefore => ?_
  refine Program.Ends.bind (Program.Ends.modifyGet _) fun u => ?_
  refine Program.Ends.bind (pushByte_ends _) fun sp => ?_
  refine Program.Ends.bind (Program.Ends.modifyGet _) fun u => ?_
  refine Program.Ends.bind (pushByte_ends _) fun sp => ?_
  refine Program.Ends.bind (Program.Ends.modifyGet _) fun u => ?_
  refine Program.Ends.bind (Program.Ends.modifyGet _) fun _ => ?_
  refine Program.Ends.bind (Program.Ends.modifyGet _) fun u => ?_
  exact Program.Ends.bind (stackWrite_ends _) fun _ => Program.Ends.pure _

/-- The call of a service routine loads its address. What depends on neither memory, nor `PC`, nor the
stack tracker stays. -/
theorem instLcall_intr {J : Uc V → Prop} (hmem : ∀ m u, J u → J { u with mem := m })
    (hPC : ∀ a u, J u → J { u with PC := a }) (hops : ∀ l u, J u → J { u with stackOps := l })
    (code : UChar) {addr : BitVec 16} (ha : addr ≠ 0) :
    Program.Triple J (instLcall D code addr true) fun res v =>
      res = .go ∧ v.PC = (addr.toNat : Int) ∧ J v := by
  simp only [instLcall, callTarget, if_neg ha]
  refine Program.Triple.bind (Q := fun t v => t = (addr.toNat : Int) ∧ J v)
    (Program.Triple.pure fun u hu => ⟨rfl, hu⟩) fun target => ?_
  have hK : ∀ m (u : Uc V), target = (addr.toNat : Int) ∧ J u →
      target = (addr.toNat : Int) ∧ J { u with mem := m } := fun m u hu => ⟨hu.1, hmem m u hu.2⟩
  refine Program.Triple.bind (onMem_keeps hK _) fun spBefore => ?_
  refine Program.Triple.bind (Program.Keeps.modifyGet fun u hu => hu) fun u => ?_
  refine Program.Triple.bind (pushByte_keeps hK _) fun sp => ?_
  refine Program.Triple.bind (Program.Keeps.modifyGet fun u hu => hu) fun u => ?_
  refine Program.Triple.bind (pushByte_keeps hK _) fun sp => ?_
  refine Program.Triple.bind (Program.Keeps.modifyGet fun u hu => hu) fun u => ?_
  refine Program.Triple.bind (Q := fun _ v => v.PC = (addr.toNat : Int) ∧ J v)
    (Program.Triple.modifyGet fun u hu => ⟨hu.1, hPC _ u hu.2⟩) fun _ => ?_
  refine Program.Triple.bind (Program.Keeps.modifyGet fun u hu => hu) fun u => ?_
  refine Program.Triple.bind (Q := fun _ v => v.PC = (addr.toNat : Int) ∧ J v) ?_ fun _ =>
    Program.Triple.pure fun u hu => ⟨rfl, hu⟩
  exact Program.Keeps.ite (Program.Keeps.modifyGet fun u hu => ⟨hu.1, hops _ u hu.2⟩)
    (Program.Keeps.modifyGet fun u hu => ⟨hu.1, hmem _ u hu.2⟩)

/-! ## The outcome -/

/-- The source is accepted: its level is pushed, and the call of its service routine is the outcome. -/
structure Accepts (u : Uc V) (src : ItSrc) (res : Res) (v : Uc V) : Prop where
  res : res = .interrupt
  itLevels : v.itLevels = src.service u.mem.sys.mem u.PC :: u.itLevels
  PC : v.PC = src.addr.toNat
  state : v.state = .go

/-- The processor leaves idle mode and accepts nothing yet. -/
structure LeavesIdle (u : Uc V) (res : Res) (v : Uc V) : Prop where
  res : res = .go
  idle : u.state = .idle
  state : v.state = .go
  itLevels : v.itLevels = u.itLevels

/-- Nothing happens. -/
structure Declines (u : Uc V) (res : Res) (v : Uc V) : Prop where
  res : res = .go
  state : v.state = u.state
  itLevels : v.itLevels = u.itLevels
  PC : v.PC = u.PC

theorem sfr_setBit0_ends (addr : Int) (bits : TMem) : Program.Ends (Space.sfr.setBit0 D addr bits) := by
  rw [Space.setBit0]
  exact Program.Ends.ite (Program.Ends.pure _) (Program.Ends.modifyGet _)

/-- `accept_it` pushes the level and is always completed by the call. -/
theorem acceptIt_run (il : ItLevel) (ha : il.addr ≠ 0) (u : Uc V) :
    ∃ v, (acceptIt D il).run u = .ok (.interrupt, v) ∧ v.itLevels = il :: u.itLevels ∧
      v.PC = il.addr.toNat ∧ v.state = .go := by
  obtain ⟨a, m, hm⟩ := sfr_setBit0_ends (D := D) Reg.PCON bmIDL u.mem
  let w : Uc V :=
    { u with
      state := .go, mem := m, itLevels := il :: u.itLevels
      ticks := u.ticks + 1 * 12, instTicks := u.instTicks + 1 }
  obtain ⟨res, v, hrun⟩ := instLcall_ends (D := D) 0 ha true w
  obtain ⟨rfl, hPC, hlevels, hstate⟩ := instLcall_intr (D := D)
    (J := fun v : Uc V => v.itLevels = il :: u.itLevels ∧ v.state = .go) (fun m v hv => hv)
    (fun a v hv => hv) (fun l v hv => hv) 0 ha w res v ⟨rfl, rfl⟩ hrun
  refine ⟨v, ?_, hlevels, hPC, hstate⟩
  have hset : ((Space.sfr.setBit0 D Reg.PCON bmIDL : MemProg V Unit) : UcProg V Unit).run
      { u with state := .go } = .ok ((), { u with state := .go, mem := m }) := onMem_run hm
  change (do
    Space.sfr.setBit0 D Reg.PCON bmIDL
    modify fun u => { u with itLevels := il :: u.itLevels }
    tick 1
    let res ← instLcall D 0 il.addr true
    if res ≠ .go then return res else return .interrupt : UcProg V Res).run { u with state := .go } = _
  rw [Program.run_bind_of_ok hset]
  change (instLcall D 0 il.addr true >>= fun res =>
    if res ≠ .go then pure res else pure .interrupt).run w = _
  rw [Program.run_bind_of_ok hrun]
  rfl

/-- Out of idle mode an eligible source is accepted. -/
theorem acceptSource_run (src : ItSrc) (pr : Int) (u : Uc V) :
    ∃ v, (acceptSource D src pr).run u = .ok (.interrupt, v) ∧
      v.itLevels = { level := pr, addr := src.addr, PC := u.PC, source := some src } :: u.itLevels ∧
      v.PC = src.addr.toNat ∧ v.state = .go := by
  let il : ItLevel := { level := pr, addr := src.addr, PC := u.PC, source := some src }
  rw [acceptSource]
  by_cases hclr : src.clrBit
  · rw [if_pos hclr]
    obtain ⟨a, m, hm⟩ := sfr_setBit0_ends (D := D) src.srcReg.toNat (tmem src.srcMask) u.mem
    rw [Program.run_bind_of_ok (onMem_run hm)]
    exact acceptIt_run il src.addr_ne { u with mem := m }
  · rw [if_neg hclr]
    exact acceptIt_run il src.addr_ne u

/-- In idle mode an eligible source ends this mode. -/
theorem leaveIdle_run (u : Uc V) :
    ∃ v, (leaveIdle D).run u = .ok (.go, v) ∧ v.state = .go ∧ v.itLevels = u.itLevels := by
  obtain ⟨a, m, hm⟩ := sfr_setBit0_ends (D := D) Reg.PCON bmIDL u.mem
  have hset := onMem_run (u := { u with state := .go }) hm
  rw [leaveIdle, Program.run_bind_of_ok
    (show (modify _ : UcProg V Unit).run u = .ok ((), { u with state := .go }) from rfl),
    Program.run_bind_of_ok hset]
  exact ⟨_, rfl, rfl, rfl⟩

/-- What `do_interrupt` makes of the sources, with interrupts enabled and no `RETI` before. -/
structure Arbitrates (u : Uc V) (level : Int) (res : Res) (v : Uc V) : Prop where
  /-- The source accepted is eligible, and none before it in the list is. -/
  accepted : ∀ src, Accepts u src res v → src.Eligible u.mem.sys.mem level ∧
    ∃ before after, u.itSources = before ++ src :: after ∧
      ∀ other ∈ before, ¬ other.Eligible u.mem.sys.mem level
  /-- If there is an eligible source, one is accepted or the processor leaves idle mode. -/
  served : (∃ src ∈ u.itSources, src.Eligible u.mem.sys.mem level) →
    (∃ src ∈ u.itSources, Accepts u src res v) ∨ LeavesIdle u res v
  /-- Without an eligible source nothing happens. -/
  declined : (∀ src ∈ u.itSources, ¬ src.Eligible u.mem.sys.mem level) → Declines u res v

/-- A source accepted is the one whose level is on top. -/
theorem Accepts.unique {u v : Uc V} {res : Res} {src src' : ItSrc} (h : Accepts u src res v)
    (h' : Accepts u src' res v) : src = src' := by
  have hservice := List.head_eq_of_cons_eq (h.itLevels.symm.trans h'.itLevels)
  exact Option.some.inj (congrArg ItLevel.source hservice)

/-- Arbitration: `do_interrupt` accepts the first eligible source in polling order. -/
theorem doInterrupt_arbitrates (D : Devices Dev V) {u : Uc V} {il : ItLevel} {below : List ItLevel}
    (hlevels : u.itLevels = il :: below) (hea : u.mem.sys.mem (.sfr Reg.IEN0) &&& bmEA ≠ 0)
    (hreti : u.mem.sys.hw.wasReti = false) :
    ∃ res v, (doInterrupt D).run u = .ok (res, v) ∧ Arbitrates u il.level res v := by
  have hrun : (doInterrupt D).run u = (scanSources D u.itSources).run u := by
    change (if u.mem.sys.hw.wasReti then _ else _ : UcProg V Res).run u = _
    rw [if_neg (by rw [hreti]; decide),
      Program.run_bind_of_ok (onMem_run (sfr_get_run_valid (by decide) u.mem)), if_neg hea]
    rfl
  obtain ⟨errs, hscan⟩ := scanSources_run (D := D) u.itSources hlevels
  rw [hrun, hscan]
  cases hfind : u.itSources.find? (·.Eligible u.mem.sys.mem il.level) with
  | none =>
    have hnone : ∀ src ∈ u.itSources, ¬ src.Eligible u.mem.sys.mem il.level := by
      simpa using hfind
    refine ⟨.go, u.withErrors errs, rfl, ?_, ?_, ?_⟩
    · intro src hacc
      cases hacc.res
    · rintro ⟨src, hsrc, he⟩
      exact absurd he (hnone src hsrc)
    · exact fun _ => ⟨rfl, rfl, rfl, rfl⟩
  | some src =>
    obtain ⟨he, before, after, hsplit, hbefore⟩ := List.find?_eq_some_iff_append.mp hfind
    have hmem : src ∈ u.itSources := List.mem_of_find?_eq_some hfind
    have htake : (takeSource D src (src.priority u.mem.sys.mem)).run (u.withErrors errs)
        = (if u.state = .idle then leaveIdle D
            else acceptSource D src (src.priority u.mem.sys.mem)).run (u.withErrors errs) := rfl
    dsimp only
    rw [htake]
    by_cases hidle : u.state = .idle
    · rw [if_pos hidle]
      obtain ⟨v, hv, hstate, hlev⟩ := leaveIdle_run (D := D) (u.withErrors errs)
      refine ⟨.go, v, hv, ?_, ?_, ?_⟩
      · intro src hacc
        cases hacc.res
      · exact fun _ => Or.inr ⟨rfl, hidle, hstate, hlev⟩
      · exact fun hnone => absurd (by simpa using he) (hnone src hmem)
    · rw [if_neg hidle]
      obtain ⟨v, hv, hlev, hPC, hstate⟩ :=
        acceptSource_run (D := D) src (src.priority u.mem.sys.mem) (u.withErrors errs)
      have hacc : Accepts u src .interrupt v := ⟨rfl, hlev, hPC, hstate⟩
      refine ⟨.interrupt, v, hv, ?_, ?_, ?_⟩
      · intro src' hacc'
        rw [hacc'.unique hacc]
        exact ⟨by simpa using he, before, after, hsplit, by simpa using hbefore⟩
      · exact fun _ => Or.inl ⟨src, hmem, hacc⟩
      · exact fun hnone => absurd (by simpa using he) (hnone src hmem)

theorem tcon_ne : (0x88 : UChar) ≠ 0xE0 ∧ (0x88 : UChar) ≠ 0xD0 := by decide

theorem external0_ne : (0x03 : BitVec 16) ≠ 0 := by decide

theorem external1_ne : (0x13 : BitVec 16) ≠ 0 := by decide

/-- The external interrupts of `cl_interrupt::added_to_uc`. -/
def externalSources : List ItSrc :=
  [{ pollPriority := 1, ieMask := 0x01, ieReg := 0xA8, srcReg := 0x88, srcMask := 0x02, addr := 0x03
     clrBit := true, active := true, addr_ne := external0_ne, srcReg_ne := tcon_ne },
    { pollPriority := 3, ieMask := 0x04, ieReg := 0xA8, srcReg := 0x88, srcMask := 0x80, addr := 0x13
      clrBit := true, active := true, addr_ne := external1_ne, srcReg_ne := tcon_ne }]

/-- Both external interrupts are enabled and requested. The second one has the high priority. -/
def bothRequested : Uc Unit :=
  { bare fun c =>
      if c = .sfr Reg.IE then 0x85 else if c = .sfr Reg.IP then 0x04
      else if c = .sfr Reg.TCON then 0x82 else 0 with
    itSources := externalSources }

/-- Two requests at once. -/
theorem doInterrupt_arbitrates_bothRequested : ∃ res v,
    (doInterrupt noDevices).run bothRequested = .ok (res, v) ∧ Arbitrates bothRequested (-1) res v :=
  doInterrupt_arbitrates noDevices (show bothRequested.itLevels = [mainLevel] from rfl) (by decide) rfl

/-- The source accepted has the highest priority of all eligible sources. -/
def TakesHighest (u : Uc V) (level : Int) (res : Res) (v : Uc V) : Prop :=
  ∀ src, Accepts u src res v → ∀ other ∈ u.itSources, other.Eligible u.mem.sys.mem level →
    other.priority u.mem.sys.mem ≤ src.priority u.mem.sys.mem

/-- The first external interrupt is accepted although the second one has a higher priority. -/
theorem not_takesHighest_bothRequested : ∃ res v,
    (doInterrupt noDevices).run bothRequested = .ok (res, v) ∧
      ¬ TakesHighest bothRequested (-1) res v := by
  refine ⟨_, _, rfl, ?_⟩
  intro h
  have hle := h (externalSources.get ⟨0, by decide⟩) ⟨rfl, rfl, rfl, rfl⟩
    (externalSources.get ⟨1, by decide⟩) (List.get_mem _ _) (by decide)
  exact absurd hle (by decide)

end Ucsim.S51
