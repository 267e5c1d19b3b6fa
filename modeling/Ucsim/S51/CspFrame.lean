import Ucsim.S51.CspFlow

/-!
# What the strobe processor stores

All that the instructions store is bytes of `xram`. An instruction either runs, in every state, or it fails
in every state, because of a cell that has not been assigned.
-/

namespace Ucsim.S51

open Logic

namespace Csp

/-! ## Stores to `xram` -/

/-- Only bytes of `xram` have been stored. -/
structure XramOnly (m m' : Site → TMem) : Prop where
  outside : ∀ s, (∀ a, s ≠ .cell .xram a) → m' s = m s
  stored : ∀ s, m' s = m s ∨ (m' s).toNat < 0x100

theorem XramOnly.refl (m : Site → TMem) : XramOnly m m := ⟨fun _ _ => rfl, fun _ => .inl rfl⟩

theorem XramOnly.trans {m₁ m₂ m₃ : Site → TMem} (h : XramOnly m₁ m₂) (h' : XramOnly m₂ m₃) : XramOnly m₁ m₃ where
  outside s hs := (h'.outside s hs).trans (h.outside s hs)
  stored s := by
    obtain heq | hlt := h'.stored s
    · rw [heq]
      exact h.stored s
    · exact .inr hlt

theorem XramOnly.update {m m' : Site → TMem} (h : XramOnly m m') (a : Int) (v : TMem) :
    XramOnly m (Function.update m' (.cell .xram a) (v &&& 0xff)) := by
  refine h.trans ⟨fun s hs => Function.update_of_ne (hs a) _ _, fun s => ?_⟩
  by_cases hs : s = .cell .xram a
  · right
    rw [hs, Function.update_self]
    exact and_lt_byte v
  · left
    exact Function.update_of_ne hs _ _

theorem XramOnly.isBytes {m m' : Site → TMem} (h : XramOnly m m') (hm : IsBytes m) : IsBytes m' := by
  intro s
  obtain heq | hlt := h.stored s
  · rw [heq]
    exact hm s
  · exact hlt

theorem xramOnly_raise (flag : TMem) (st : CspSt) : XramOnly st.mem (raise flag st).mem :=
  ((XramOnly.refl st.mem).update _ _).update _ _

theorem xramOnly_fillSnop (base : Int) (st : CspSt) : XramOnly st.mem (fillSnop base st).mem := by
  have hfold (is : List Nat) (st : CspSt) : XramOnly st.mem
      (is.foldl (fun st (i : Nat) => store (.cell .xram (base + i)) 0xD0 st) st).mem := by
    induction is generalizing st with
    | nil => exact XramOnly.refl st.mem
    | cons i is ih =>
      have hfirst : XramOnly st.mem (store (.cell .xram (base + i)) 0xD0 st).mem := (XramOnly.refl st.mem).update _ _
      exact hfirst.trans (ih (store (.cell .xram (base + i)) 0xD0 st))
  exact hfold _ st

/-! ## Instructions that run -/

/-- The step is made in every state, and stores bytes of `xram` only. -/
def Runs (f : Step) : Prop := ∀ st, ∃ st', f st = .ok st' ∧ XramOnly st.mem st'.mem

/-- A step after another one. -/
theorem Runs.bind {f g : Step} (hf : Runs f) (hg : Runs g) : Runs fun st => f st >>= g := by
  intro st
  obtain ⟨st₁, h₁, hframe₁⟩ := hf st
  obtain ⟨st₂, h₂, hframe₂⟩ := hg st₁
  exact ⟨st₂, bind_eq_ok.mpr ⟨st₁, h₁, h₂⟩, hframe₁.trans hframe₂⟩

theorem Runs.onMatch {p : Prop} [Decidable p] {f : Step} (hf : Runs f) : Runs (onMatch p f) := by
  intro st
  by_cases hp : p
  · rw [onMatch_pos hp]
    exact hf st
  · rw [onMatch_neg hp]
    exact ⟨st, rfl, XramOnly.refl st.mem⟩

/-- A change of the data only. -/
theorem runs_of_mem {f : Step} (h : ∀ st, ∃ st', f st = .ok st' ∧ st'.mem = st.mem) : Runs f := by
  intro st
  obtain ⟨st', hrun, hmem⟩ := h st
  refine ⟨st', hrun, ?_⟩
  rw [hmem]
  exact XramOnly.refl st.mem

theorem runs_none : Runs fun st => .ok st := runs_of_mem fun st => ⟨st, rfl, rfl⟩

theorem runs_request (bits flag : TMem) : Runs (request bits flag) := by
  intro st
  rw [request_eq]
  split
  · exact ⟨_, rfl, xramOnly_raise flag st⟩
  · exact ⟨_, rfl, XramOnly.refl st.mem⟩

theorem runs_stop : Runs IRQ_CSP_STOP := by
  intro st
  obtain ⟨st₁, h₁, hframe⟩ := runs_request 0x10 CSP_STOP (update (fun p => { p with csp_stop := true }) st)
  exact ⟨_, bind_eq_ok.mpr ⟨st₁, h₁, rfl⟩, hframe.update _ _⟩

theorem runs_strobeError : Runs strobeError := by
  intro st
  unfold strobeError
  split
  · exact runs_request _ _ st
  · exact runs_none st

theorem runs_sendAck (pendingBit : Bool) : Runs (sendAck pendingBit) := by
  refine runs_strobeError.bind (runs_of_mem fun st => ⟨_, rfl, ?_⟩)
  unfold takeAnswer askRadio
  split <;> split <;> rfl

theorem runs_snack : Runs inst_snack := runs_strobeError.bind (runs_of_mem fun _ => ⟨_, rfl, rfl⟩)

theorem runs_int : Runs inst_int := (runs_request _ _).bind (runs_of_mem fun _ => ⟨_, rfl, rfl⟩)

theorem runs_waitw (code : TMem) : Runs (inst_waitw code) := by
  intro st
  rw [inst_waitw_eq]
  split
  · exact ⟨_, rfl, XramOnly.refl st.mem⟩
  · obtain ⟨st₁, h₁, hframe⟩ := runs_request 0x20 CSP_WAIT (holdW code st)
    exact ⟨_, bind_eq_ok.mpr ⟨st₁, h₁, rfl⟩, hframe⟩

theorem runs_waitx : Runs inst_waitx := by
  intro st
  by_cases hwait : st.mem (.cell .xram Reg.CSPX) ≠ 0
  · exact ⟨_, if_pos hwait, XramOnly.refl st.mem⟩
  · obtain ⟨st₁, h₁, hframe₁⟩ := runs_request 0x20 CSP_WAIT (update (fun p => { p with WaitingForOvfs := true }) st)
    obtain ⟨st₂, h₂, hframe₂⟩ := runs_request 0x20 CSP_WAIT (incPC st₁)
    refine ⟨_, (if_neg hwait).trans (bind_eq_ok.mpr ⟨st₁, h₁, bind_eq_ok.mpr ⟨st₂, h₂, rfl⟩⟩), ?_⟩
    exact hframe₁.trans hframe₂

theorem runs_wait_event1 : Runs inst_wait_event1 := by
  intro st
  by_cases hwait : st.hw.event1 = false
  · exact ⟨_, if_pos hwait, XramOnly.refl st.mem⟩
  · obtain ⟨st₁, h₁, hframe⟩ :=
      runs_request 0x20 CSP_WAIT (update (fun p => { p with WaitingForEvent1 := true }) st)
    exact ⟨_, (if_neg hwait).trans (bind_eq_ok.mpr ⟨st₁, h₁, rfl⟩), hframe⟩

theorem runs_wait_event2 : Runs inst_wait_event2 := by
  intro st
  by_cases hwait : st.hw.event2 = false
  · exact ⟨_, if_pos hwait, XramOnly.refl st.mem⟩
  · obtain ⟨st₁, h₁, hframe⟩ :=
      runs_request 0x20 CSP_WAIT (update (fun p => { p with WaitingForEvent2 := true }) st)
    exact ⟨_, (if_neg hwait).trans (bind_eq_ok.mpr ⟨st₁, h₁, rfl⟩), hframe⟩

/-- A register of the program is stored. -/
theorem runs_store {f : Step} (a : CspSt → Int) (v : CspSt → TMem)
    (h : ∀ st, ∃ st', f st = .ok st' ∧ st'.mem = Function.update st.mem (.cell .xram (a st)) (v st &&& 0xff)) :
    Runs f := by
  intro st
  obtain ⟨st', hrun, hmem⟩ := h st
  refine ⟨st', hrun, ?_⟩
  rw [hmem]
  exact (XramOnly.refl st.mem).update _ _

theorem runs_isclear : Runs inst_isclear := by
  intro st
  have hstat : Runs (set_bit0 .cell_cspstat bmCSPrunning) := runs_store (fun _ => Reg.CSPSTAT) _ fun _ => ⟨_, rfl, rfl⟩
  obtain ⟨st₁, h₁, hframe⟩ := hstat (update (fun p => { p with csp_stop := true }) st)
  exact ⟨_, bind_eq_ok.mpr ⟨st₁, h₁, rfl⟩, hframe.trans (xramOnly_fillSnop 0x6080 st₁)⟩

theorem runs_skipCS (inp : Input) (code : TMem) : Runs (inst_skipCS inp code) := by
  refine runs_of_mem fun st => ?_
  unfold inst_skipCS
  dsimp only
  rw [cond_eq]
  cases holds false inp code st with
  | false => exact ⟨_, rfl, rfl⟩
  | true => exact ⟨_, rfl, rfl⟩

theorem runs_repeatC (inp : Input) (code : TMem) : Runs (inst_repeatC inp code) := by
  refine runs_of_mem fun st => ?_
  unfold inst_repeatC
  rw [cond_eq]
  cases holds false inp code st with
  | false => exact ⟨_, rfl, rfl⟩
  | true => exact ⟨_, rfl, rfl⟩

/-! ## All codes -/

/-- The codes of instructions that use a cell without a pointer. -/
def faulty : List TMem := [0xBE, 0xD4, 0xD5, 0xD9, 0xDB, 0xE4, 0xE5, 0xEB]

/-- A case of a `switch` fails exactly if its code is one of those. -/
def RunsOrFails (base : TMem) (p : TMem × Step) : Prop :=
  if base + p.1 ∈ faulty then Fails p.2 else Runs p.2

theorem runs_strobes : ∀ p ∈ strobes, RunsOrFails 0xD0 p := by
  have hplain {f : Step} (h : ∀ st, ∃ st', f st = .ok st' ∧ st'.mem = st.mem) : Runs f := runs_of_mem h
  simp only [strobes, List.forall_mem_cons, List.not_mem_nil, false_imp_iff, implies_true, and_true]
  refine ⟨hplain fun _ => ⟨_, rfl, rfl⟩, runs_stop, hplain fun _ => ⟨_, rfl, rfl⟩,
    fails_srx_mask_bit_set, fun _ => ⟨_, rfl, rfl⟩, runs_sendAck _, runs_sendAck _, runs_snack, fails_stxon,
    hplain fun _ => ⟨_, rfl, rfl⟩, fun _ => ⟨_, rfl, rfl⟩, hplain fun _ => ⟨_, rfl, rfl⟩,
    hplain fun _ => ⟨_, rfl, rfl⟩, hplain fun _ => ⟨_, rfl, rfl⟩⟩

theorem runs_immediateStrobes : ∀ p ∈ immediateStrobes, RunsOrFails 0xE0 p := by
  have hplain {f : Step} (h : ∀ st, ∃ st', f st = .ok st' ∧ st'.mem = st.mem) : Runs f := runs_of_mem h
  simp only [immediateStrobes, List.forall_mem_cons, List.not_mem_nil, false_imp_iff, implies_true, and_true]
  refine ⟨?_, runs_stop, hplain fun _ => ⟨_, rfl, rfl⟩, fun _ => ⟨_, rfl, rfl⟩, fun _ => ⟨_, rfl, rfl⟩,
    runs_sendAck _, runs_sendAck _, runs_snack, hplain fun _ => ⟨_, rfl, rfl⟩,
    hplain fun _ => ⟨_, rfl, rfl⟩, fun _ => ⟨_, rfl, rfl⟩, hplain fun _ => ⟨_, rfl, rfl⟩,
    hplain fun _ => ⟨_, rfl, rfl⟩, hplain fun _ => ⟨_, rfl, rfl⟩⟩
  exact runs_store (fun _ => Reg.CSPSTAT) _ fun _ => ⟨_, rfl, rfl⟩

theorem runs_others (inp : Input) : ∀ p ∈ others inp, RunsOrFails 0 p := by
  have hX {f : Step} {v : CspSt → TMem} (h : ∀ st, ∃ st', f st = .ok st' ∧
      st'.mem = Function.update st.mem (.cell .xram Reg.CSPX) (v st &&& 0xff)) : Runs f :=
    runs_store (fun _ => Reg.CSPX) v h
  have hY {f : Step} {v : CspSt → TMem} (h : ∀ st, ∃ st', f st = .ok st' ∧
      st'.mem = Function.update st.mem (.cell .xram Reg.CSPY) (v st &&& 0xff)) : Runs f :=
    runs_store (fun _ => Reg.CSPY) v h
  have hZ {f : Step} {v : CspSt → TMem} (h : ∀ st, ∃ st', f st = .ok st' ∧
      st'.mem = Function.update st.mem (.cell .xram Reg.CSPZ) (v st &&& 0xff)) : Runs f :=
    runs_store (fun _ => Reg.CSPZ) v h
  simp only [others, List.forall_mem_cons, List.not_mem_nil, false_imp_iff, implies_true, and_true]
  refine ⟨runs_wait_event1, runs_wait_event2, runs_int, runs_of_mem fun _ => ⟨_, rfl, rfl⟩, runs_waitx,
    hX fun _ => ⟨_, rfl, rfl⟩, fails_set_cmp1, hX fun _ => ⟨_, rfl, rfl⟩, hY fun _ => ⟨_, rfl, rfl⟩,
    hZ fun _ => ⟨_, rfl, rfl⟩, hX fun _ => ⟨_, rfl, rfl⟩, hY fun _ => ⟨_, rfl, rfl⟩,
    hZ fun _ => ⟨_, rfl, rfl⟩, runs_isclear⟩

theorem RunsOrFails.or {base : TMem} {p : TMem × Step} (h : RunsOrFails base p) : Runs p.2 ∨ Fails p.2 := by
  unfold RunsOrFails at h
  split at h
  · exact .inr h
  · exact .inl h

/-- Every instruction runs or fails, whatever the state is. -/
theorem body_runs_or_fails (inp : Input) (code : TMem) : Runs (body inp code) ∨ Fails (body inp code) := by
  have hswitch {base : TMem} {cases : List (TMem × Step)} (h : ∀ p ∈ cases, RunsOrFails base p) (v : TMem) :
      Runs (switch cases v) ∨ Fails (switch cases v) :=
    switch_cases (P := fun f => Runs f ∨ Fails f) (fun p hp => (h p hp).or) (.inl runs_none) v
  unfold body
  split_ifs
  · exact .inl (runs_skipCS inp code)
  · exact .inl (runs_waitw code)
  · exact .inl (runs_repeatC inp code)
  · exact .inl (runs_store (fun _ => Reg.CSPY) _ fun _ => ⟨_, rfl, rfl⟩)
  · exact hswitch runs_strobes _
  · exact hswitch runs_immediateStrobes _
  · exact hswitch (runs_others inp) _

theorem body_fails (inp : Input) : ∀ code ∈ faulty, Fails (body inp code) := by
  simp only [faulty, List.forall_mem_cons, List.not_mem_nil, false_imp_iff, implies_true, and_true]
  exact ⟨fails_set_cmp1, fails_srx_mask_bit_set, fun _ => ⟨_, rfl, rfl⟩, fails_stxon, fun _ => ⟨_, rfl, rfl⟩,
    fun _ => ⟨_, rfl, rfl⟩, fun _ => ⟨_, rfl, rfl⟩, fun _ => ⟨_, rfl, rfl⟩⟩

/-- A `switch` whose case is not faulty runs. -/
theorem runs_switch {base : TMem} {cases : List (TMem × Step)} (h : ∀ p ∈ cases, RunsOrFails base p)
    {v : TMem} (hv : base + v ∉ faulty) : Runs (switch cases v) := by
  unfold switch
  cases hlookup : cases.lookup v with
  | none => exact runs_none
  | some f =>
    obtain ⟨l₁, l₂, rfl, -⟩ := List.lookup_eq_some_iff.mp hlookup
    have hcase := h (v, f) (by simp)
    unfold RunsOrFails at hcase
    rwa [if_neg hv] at hcase

/-- A byte is put together from its halves. -/
theorem byte_eq_add {code v : TMem} (hbyte : code.toNat < 0x100) (h : code &&& 0xF0 = v) :
    v + (code &&& 0x0F) = code := by
  have hff : code &&& 0xff = code := by
    apply BitVec.eq_of_toNat_eq
    rw [BitVec.toNat_and]
    exact Nat.and_two_pow_sub_one_of_lt_two_pow (n := 8) hbyte
  have hdisjoint : (code &&& 0xF0) &&& (code &&& 0x0F) = 0 := by
    rw [BitVec.and_assoc, ← BitVec.and_assoc 0xF0, BitVec.and_comm 0xF0, BitVec.and_assoc]
    simp
  rw [← h, BitVec.add_eq_or_of_and_eq_zero _ _ hdisjoint, ← BitVec.and_or_distrib_left]
  exact hff

theorem body_runs (inp : Input) {code : TMem} (hbyte : code.toNat < 0x100) (h : code ∉ faulty) :
    Runs (body inp code) := by
  unfold body
  split_ifs with hskip hwait hrepeat hmaxy hstrobe himm
  · exact runs_skipCS inp code
  · exact runs_waitw code
  · exact runs_repeatC inp code
  · exact runs_store (fun _ => Reg.CSPY) _ fun _ => ⟨_, rfl, rfl⟩
  · refine runs_switch runs_strobes ?_
    rwa [byte_eq_add hbyte hstrobe]
  · refine runs_switch runs_immediateStrobes ?_
    rwa [byte_eq_add hbyte himm]
  · refine runs_switch (runs_others inp) ?_
    rwa [zero_add]

/-! ## Ticks, strobes and events -/

theorem Runs.xramOnly {f : Step} {st st' : CspSt} (h : Runs f) (hrun : f st = .ok st') :
    XramOnly st.mem st'.mem := by
  obtain ⟨st₁, h₁, hframe⟩ := h st
  obtain rfl : st₁ = st' := Except.ok.inj (h₁.symm.trans hrun)
  exact hframe

theorem wrapPC_mem (st : CspSt) : (wrapPC st).mem = st.mem := by
  unfold wrapPC
  split <;> rfl

theorem exec_inst_xramOnly {inp : Input} {code : TMem} {st st' : CspSt} (h : exec_inst inp code st = .ok st') :
    XramOnly st.mem st'.mem := by
  rw [exec_inst_eq] at h
  obtain ⟨st₁, h₁, hst'⟩ := bind_eq_ok.mp h
  cases hst'
  rw [wrapPC_mem]
  obtain hruns | hfails := body_runs_or_fails inp code
  · exact hruns.xramOnly h₁
  · obtain ⟨c, hc, -⟩ := hfails st
    rw [hc] at h₁
    cases h₁

theorem runs_updateStatus : Runs updateStatus := by
  have hstat : Runs fun st => set .cell_cspstat
      ((st.mem (.cell .xram Reg.CSPSTAT) &&& 0xE0) + BitVec.ofInt 16 st.hw.PC) st :=
    runs_store (fun _ => Reg.CSPSTAT) _ fun _ => ⟨_, rfl, rfl⟩
  have hstop : Runs fun st => if st.mem (.cell .xram Reg.CSPT) = 0 then IRQ_CSP_STOP st else .ok st := by
    intro st
    dsimp only
    split
    · exact runs_stop st
    · exact runs_none st
  exact hstat.bind hstop

theorem tick_xramOnly {inp : Input} {st st' : CspSt} (h : CSP_tick inp st = .ok st') :
    XramOnly st.mem st'.mem := by
  obtain ⟨st₁, h₁, hexec⟩ := bind_eq_ok.mp h
  refine (runs_updateStatus.xramOnly h₁).trans ?_
  by_cases hstop : st₁.hw.csp_stop = false
  · rw [if_pos hstop] at hexec
    obtain ⟨code, -, hexec⟩ := bind_eq_ok.mp hexec
    exact exec_inst_xramOnly hexec
  · rw [if_neg hstop] at hexec
    cases hexec
    exact XramOnly.refl _

/-- What `writeRfst` does before it executes or stores the byte. -/
def beforeStrobe (v : TMem) : Step := fun st => do
  let st ← onMatch (v = 0xE1) (fun st => set_bit1 .cell_cspstat bmCSPrunning
    (update (fun p => { p with csp_stop := false }) st)) st
  let st ← onMatch (v = 0xE2) (fun st => set_bit0 .cell_cspstat bmCSPrunning
    (update (fun p => { p with csp_stop := true }) st)) st
  onMatch (v = 0xFF) inst_isclear st

theorem writeRfst_eq (inp : Input) (v : TMem) (st : CspSt) : writeRfst inp v st =
    beforeStrobe v st >>= fun st => if v &&& 0xF0 = 0xE0 then exec_inst inp v st else storeProgram v st := by
  unfold writeRfst beforeStrobe
  simp only [bind_assoc]

theorem runs_beforeStrobe (v : TMem) : Runs (beforeStrobe v) := by
  have hstat {f : Step} {w : CspSt → TMem} (h : ∀ st, ∃ st', f st = .ok st' ∧
      st'.mem = Function.update st.mem (.cell .xram Reg.CSPSTAT) (w st &&& 0xff)) : Runs f :=
    runs_store (fun _ => Reg.CSPSTAT) w h
  have hstart : Runs fun st => set_bit1 .cell_cspstat bmCSPrunning
      (update (fun p => { p with csp_stop := false }) st) := hstat fun _ => ⟨_, rfl, rfl⟩
  have hstop : Runs fun st => set_bit0 .cell_cspstat bmCSPrunning
      (update (fun p => { p with csp_stop := true }) st) := hstat fun _ => ⟨_, rfl, rfl⟩
  exact hstart.onMatch.bind (hstop.onMatch.bind runs_isclear.onMatch)

theorem storeProgram_xramOnly {v : TMem} {st st' : CspSt} (h : storeProgram v st = .ok st') :
    XramOnly st.mem st'.mem := by
  unfold storeProgram at h
  dsimp only at h
  split at h
  · cases h
    exact (XramOnly.refl st.mem).update _ _
  · cases h

theorem writeRfst_xramOnly {inp : Input} {v : TMem} {st st' : CspSt} (h : writeRfst inp v st = .ok st') :
    XramOnly st.mem st'.mem := by
  rw [writeRfst_eq] at h
  obtain ⟨st₁, h₁, hrest⟩ := bind_eq_ok.mp h
  refine ((runs_beforeStrobe v).xramOnly h₁).trans ?_
  split at hrest
  · exact exec_inst_xramOnly hrest
  · exact storeProgram_xramOnly hrest

theorem runs_reset : Runs reset := by
  have hset {c : CspCell} {a : Int} (hc : c.pointer = some (.cell .xram a)) (v : TMem) : Runs (set c v) := by
    refine runs_store (fun _ => a) (fun _ => v) fun st => ⟨store (.cell .xram a) v st, ?_, rfl⟩
    unfold set deref
    rw [hc]
    rfl
  have hfill : Runs fun st => .ok (fillSnop Reg.CSPPROG0 st) :=
    fun st => ⟨_, rfl, xramOnly_fillSnop Reg.CSPPROG0 st⟩
  have hstat : Runs fun st => set_bit0 .cell_cspstat bmCSPrunning (update (fun p => { p with
      PC := 0, csp_stop := false, waitingForAnswer := false, WaitingForOvfs := false, pendingBit := false
      STXON := false, SRFOFF := false, SRXON := false, SFLUSHRX := false }) st) :=
    runs_store (fun _ => Reg.CSPSTAT) _ fun _ => ⟨_, rfl, rfl⟩
  have hrest : Runs fun st => set .cell_cspx 0 st >>= fun st => set .cell_cspy 0 st >>= fun st =>
      set .cell_cspz 0 st >>= fun st => .ok (fillSnop Reg.CSPPROG0 st) :=
    (hset rfl 0).bind ((hset rfl 0).bind ((hset rfl 0).bind hfill))
  exact hstat.bind ((hset rfl 0xFF).bind ((hset rfl 0).bind ((hset rfl 0).bind hrest)))

theorem happen_xramOnly {he : TimerEvent} {st st' : CspSt} (h : happen he st = .ok st') :
    XramOnly st.mem st'.mem := by
  cases he with
  | EV_OVERFLOW =>
    obtain ⟨st₁, h₁, hrest⟩ := bind_eq_ok.mp h
    have hcount : XramOnly st.mem st₁.mem := by
      split at h₁
      · cases h₁
        exact (XramOnly.refl st.mem).update _ _
      · cases h₁
        exact XramOnly.refl _
    have hmem : st'.mem = st₁.mem := by
      cases hrest
      split <;> rfl
    rw [hmem]
    exact hcount
  | EV_T2_EVENT1 =>
    cases h
    exact XramOnly.refl _
  | EV_T2_EVENT2 =>
    cases h
    exact XramOnly.refl _

end Csp

end Ucsim.S51
