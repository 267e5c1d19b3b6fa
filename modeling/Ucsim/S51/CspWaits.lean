import Ucsim.S51.CspFrame
import Ucsim.S51.CspRuns

/-!
# The waits of the strobe processor

A run is watched: each wait is followed by the events that have been delivered since it started, and each
tick in which a wait is executed is noted together with what the wait did.
-/

namespace Ucsim.S51

open Logic

namespace Csp

/-! ## What strobes leave alone -/

/-- The members of the CSP for its waits. -/
structure WaitData where
  WaitingForOvfs : Bool
  WaitingForWOvfs : Bool
  waitWend : Bool
  OVFcountdown : Int
  event1 : Bool
  WaitingForEvent1 : Bool
  event2 : Bool
  WaitingForEvent2 : Bool

def waits (p : Csp) : WaitData where
  WaitingForOvfs := p.WaitingForOvfs
  WaitingForWOvfs := p.WaitingForWOvfs
  waitWend := p.waitWend
  OVFcountdown := p.OVFcountdown
  event1 := p.event1
  WaitingForEvent1 := p.WaitingForEvent1
  event2 := p.event2
  WaitingForEvent2 := p.WaitingForEvent2

/-- The count of `WAITX`. -/
abbrev countX (st : CspSt) : TMem := st.mem (.cell .xram Reg.CSPX)

/-- The waits are not concerned. -/
structure KeepsWaits (st st' : CspSt) : Prop where
  waits : waits st'.hw = waits st.hw
  countX : countX st' = countX st

namespace KeepsWaits

theorem refl (st : CspSt) : KeepsWaits st st := ⟨rfl, rfl⟩

theorem trans {st st' st'' : CspSt} (h : KeepsWaits st st') (h' : KeepsWaits st' st'') :
    KeepsWaits st st'' := ⟨h'.waits.trans h.waits, h'.countX.trans h.countX⟩

theorem store {a : Int} (ha : a ≠ Reg.CSPX) (v : TMem) (st : CspSt) :
    KeepsWaits st (Csp.store (.cell .xram a) v st) where
  waits := rfl
  countX := Function.update_of_ne (fun heq => ha (by cases heq; rfl)) _ _

theorem request {bits flag : TMem} {st st' : CspSt} (h : Csp.request bits flag st = .ok st') :
    KeepsWaits st st' := by
  rw [request_eq] at h
  split at h
  · cases h
    exact (store (by decide) _ st).trans (store (by decide) _ _)
  · cases h
    exact refl st

theorem stop {st st' : CspSt} (h : IRQ_CSP_STOP st = .ok st') : KeepsWaits st st' := by
  obtain ⟨st₁, h₁, hstat⟩ := bind_eq_ok.mp h
  have hrequest := request h₁
  cases hstat
  have hstop : KeepsWaits st (update (fun p => { p with csp_stop := true }) st) := ⟨rfl, rfl⟩
  exact (hstop.trans hrequest).trans (store (by decide) _ st₁)

theorem strobeError {st st' : CspSt} (h : Csp.strobeError st = .ok st') : KeepsWaits st st' := by
  unfold Csp.strobeError at h
  split at h
  · exact request h
  · cases h
    exact refl st

theorem sendAck {pendingBit : Bool} {st st' : CspSt} (h : Csp.sendAck pendingBit st = .ok st') :
    KeepsWaits st st' := by
  obtain ⟨st₁, h₁, hst'⟩ := bind_eq_ok.mp h
  refine (strobeError h₁).trans ?_
  cases hst'
  constructor
  · unfold takeAnswer askRadio
    split <;> split <;> rfl
  · unfold takeAnswer askRadio
    split <;> split <;> rfl

theorem snack {st st' : CspSt} (h : inst_snack st = .ok st') : KeepsWaits st st' := by
  obtain ⟨st₁, h₁, hst'⟩ := bind_eq_ok.mp h
  cases hst'
  exact (strobeError h₁).trans ⟨rfl, rfl⟩

theorem fillSnop {base : Int} (h : ∀ i : Nat, i < 24 → base + i ≠ Reg.CSPX) (st : CspSt) :
    KeepsWaits st (Csp.fillSnop base st) := by
  have hfold (is : List Nat) (hi : ∀ i ∈ is, base + i ≠ Reg.CSPX) (st : CspSt) : KeepsWaits st
      (is.foldl (fun st (i : Nat) => Csp.store (.cell .xram (base + i)) 0xD0 st) st) := by
    induction is generalizing st with
    | nil => exact refl st
    | cons i is ih =>
      exact (store (hi i List.mem_cons_self) _ st).trans (ih (fun j hj => hi j (List.mem_cons_of_mem i hj)) _)
  exact hfold _ (fun i hi => h i (List.mem_range.mp hi)) st

theorem isclear {st st' : CspSt} (h : inst_isclear st = .ok st') : KeepsWaits st st' := by
  obtain ⟨st₁, h₁, hst'⟩ := bind_eq_ok.mp h
  have hstat : KeepsWaits st st₁ := by
    cases h₁
    exact (⟨rfl, rfl⟩ : KeepsWaits st (update _ st)).trans (store (by decide) _ _)
  have hfill : KeepsWaits st₁ (Csp.fillSnop 0x6080 st₁) := by
    refine fillSnop (fun i hi => ?_) st₁
    unfold Reg.CSPX
    omega
  cases hst'
  exact (hstat.trans hfill).trans ⟨rfl, rfl⟩

theorem updateStatus {st st' : CspSt} (h : Csp.updateStatus st = .ok st') : KeepsWaits st st' := by
  obtain ⟨stat, -, h⟩ := bind_eq_ok.mp h
  obtain ⟨st₁, h₁, hrest⟩ := bind_eq_ok.mp h
  have hstat : KeepsWaits st st₁ := by
    cases h₁
    exact store (by decide) _ st
  refine hstat.trans ?_
  obtain ⟨T, -, hrest⟩ := bind_eq_ok.mp hrest
  split at hrest
  · exact stop hrest
  · cases hrest
    exact refl _

/-- The immediate strobes have no part in the waits. -/
theorem immediateStrobes : ∀ p ∈ Csp.immediateStrobes, ∀ st st', p.2 st = .ok st' → KeepsWaits st st' := by
  have hfails {f : Step} (h : Fails f) : ∀ st st', f st = .ok st' → KeepsWaits st st' := by
    intro st st' hrun
    obtain ⟨c, hc, -⟩ := h st
    rw [hc] at hrun
    cases hrun
  have hplain {f : CspSt → CspSt} (h : ∀ st, KeepsWaits st (f st)) :
      ∀ st st', (Except.ok (f st) : Except CspFault CspSt) = .ok st' → KeepsWaits st st' := by
    intro st st' hrun
    cases hrun
    exact h st
  simp only [Csp.immediateStrobes, List.forall_mem_cons, List.not_mem_nil, false_imp_iff, implies_true, and_true]
  refine ⟨?_, fun _ _ => stop, hplain fun _ => ⟨rfl, rfl⟩, hfails fun _ => ⟨_, rfl, rfl⟩,
    hfails fun _ => ⟨_, rfl, rfl⟩, fun _ _ => sendAck, fun _ _ => sendAck, fun _ _ => snack,
    hplain fun _ => ⟨rfl, rfl⟩, hplain fun _ => ⟨rfl, rfl⟩, hfails fun _ => ⟨_, rfl, rfl⟩,
    hplain fun _ => ⟨rfl, rfl⟩, hplain fun _ => ⟨rfl, rfl⟩, hplain fun _ => ⟨rfl, rfl⟩⟩
  intro st st' hrun
  cases hrun
  exact (⟨rfl, rfl⟩ : KeepsWaits st (update _ st)).trans ((store (by decide) _ _).trans ⟨rfl, rfl⟩)

theorem wrapPC (st : CspSt) : KeepsWaits st (Csp.wrapPC st) := by
  unfold Csp.wrapPC
  split <;> exact ⟨rfl, rfl⟩

/-- A write to `RFST` has no part in the waits. -/
theorem writeRfst {inp : Input} {v : TMem} {st st' : CspSt} (h : Csp.writeRfst inp v st = .ok st') :
    KeepsWaits st st' := by
  obtain ⟨st₁, h₁, h⟩ := bind_eq_ok.mp h
  obtain ⟨st₂, h₂, h⟩ := bind_eq_ok.mp h
  obtain ⟨st₃, h₃, h⟩ := bind_eq_ok.mp h
  have hstat (b : Bool) (st : CspSt) (v : TMem) :
      KeepsWaits st (Csp.store (.cell .xram Reg.CSPSTAT) v (update (fun p => { p with csp_stop := b }) st)) :=
    (⟨rfl, rfl⟩ : KeepsWaits st (update (fun p => { p with csp_stop := b }) st)).trans (store (by decide) _ _)
  have hstart : KeepsWaits st st₁ := by
    unfold onMatch at h₁
    split at h₁ <;> cases h₁
    · exact hstat false st _
    · exact refl _
  have hstop : KeepsWaits st₁ st₂ := by
    unfold onMatch at h₂
    split at h₂ <;> cases h₂
    · exact hstat true st₁ _
    · exact refl _
  have hclear : KeepsWaits st₂ st₃ := by
    unfold onMatch at h₃
    split at h₃
    · exact isclear h₃
    · cases h₃
      exact refl _
  refine ((hstart.trans hstop).trans hclear).trans ?_
  split at h
  · next himm =>
    rw [exec_inst_eq] at h
    obtain ⟨st₄, h₄, hst'⟩ := bind_eq_ok.mp h
    cases hst'
    refine KeepsWaits.trans ?_ (wrapPC st₄)
    have hsteps := switch_cases (P := fun f => ∀ st st', f st = .ok st' → KeepsWaits st st') immediateStrobes
      (fun st st' hrun => by cases hrun; exact refl _) (v &&& 0x0F)
    rw [body_immediate inp himm] at h₄
    exact hsteps st₃ st₄ h₄
  · unfold storeProgram at h
    dsimp only at h
    split at h
    · next hrange =>
      cases h
      have hne : Reg.CSPPROG0 + st₃.hw.PCwrite ≠ Reg.CSPX := by
        dsimp only [InRange] at hrange
        unfold Reg.CSPPROG0 Reg.CSPX
        omega
      exact (store hne _ st₃).trans ⟨rfl, rfl⟩
    · cases h

end KeepsWaits

/-! ## Waits that are watched -/

/-- A wait: its code, the count of `WAITX` when it started, and the events since then. -/
structure Wait where
  code : TMem
  x : TMem
  overflows : Nat
  events1 : Nat
  events2 : Nat
  deriving DecidableEq

/-- A wait that starts. -/
def Wait.start (code : TMem) (st : CspSt) : Wait where
  code := code
  x := countX st
  overflows := 0
  events1 := 0
  events2 := 0

/-- An event is delivered. -/
def Wait.deliver (he : TimerEvent) (w : Wait) : Wait :=
  match he with
  | .EV_OVERFLOW => { w with overflows := w.overflows + 1 }
  | .EV_T2_EVENT1 => { w with events1 := w.events1 + 1 }
  | .EV_T2_EVENT2 => { w with events2 := w.events2 + 1 }

/-- `WAITW`. -/
def IsWaitW (code : TMem) : Prop := code &&& 0xE0 = 0x80

/-- The waits: `WAITW`, `WEVENT1`, `WEVENT2` and `WAITX`. -/
def IsWait (code : TMem) : Prop := IsWaitW code ∨ code = 0xB8 ∨ code = 0xB9 ∨ code = 0xBC

instance : DecidablePred IsWaitW := fun _ => inferInstanceAs (Decidable (_ = _))

instance : DecidablePred IsWait := fun _ => inferInstanceAs (Decidable (_ ∨ _ ∨ _ ∨ _))

/-- How many overflows `WAITW` waits for. -/
def Wait.W (w : Wait) : Nat := (w.code &&& 0x1F).toNat

/-- A wait ends, at this tick, exactly after the events that it waits for. -/
structure Right (w : Wait) (ends : Bool) : Prop where
  waitw : IsWaitW w.code → w.W ≠ 0 → w.overflows ≤ w.W ∧ (ends = true ↔ w.overflows = w.W)
  waitx : w.code = 0xBC → w.overflows ≤ w.x.toNat ∧ (ends = true ↔ w.overflows = w.x.toNat)
  event1 : w.code = 0xB8 → ends = true → 0 < w.events1
  event2 : w.code = 0xB9 → ends = true → 0 < w.events2

/-- The CSP, the wait that it is in, and the ticks of waits up to now. -/
structure Watched where
  st : CspSt
  wait : Option Wait
  log : List (Wait × Bool)

/-- The code that a tick executes. -/
def fetched (st : CspSt) : Option TMem :=
  match updateStatus st with
  | .ok st => if st.hw.csp_stop = false then (xramRead (Reg.CSPPROG0 + st.hw.PC) st).toOption else none
  | .error _ => none

/-- The wait that the execution of its code goes on with, or starts. -/
def Watched.current (s : Watched) (code : TMem) : Wait :=
  (s.wait.filter fun w => w.code = code).getD (Wait.start code s.st)

/-- A tick executes a wait. It ends if the counter moves to the next instruction. -/
def Watched.execute (s : Watched) (code : TMem) (st' : CspSt) : Watched :=
  let ends : Bool := st'.hw.PC = landing (s.st.hw.PC + 1)
  { st := st'
    wait := if ends then none else some (s.current code)
    log := s.log ++ [(s.current code, ends)] }

/-- What is seen of a step. A start of the program, or a move of the counter, breaks a wait off. -/
def Watched.follow (a : Label) (s : Watched) (st' : CspSt) : Watched :=
  match a with
  | .tick _ =>
    match fetched s.st with
    | some code => if IsWait code then s.execute code st' else { s with st := st', wait := none }
    | none => { s with st := st' }
  | .strobe _ v =>
    { s with st := st', wait := if v = 0xE1 ∨ v = 0xFF ∨ st'.hw.PC ≠ s.st.hw.PC then none else s.wait }
  | .happen he => { s with st := st', wait := s.wait.map (Wait.deliver he) }
  | .set _ _ | .signal _ _ _ _ _ => { s with st := st' }

/-- The runs from a reset, watched. Memory cells hold bytes. -/
def watched : System Label Watched where
  init s := system.init s.st ∧ IsBytes s.st.mem ∧ s.wait = none ∧ s.log = []
  step a s s' := ∃ st', step a s.st = .ok st' ∧ s' = s.follow a st'

/-- All waits up to now have ended when they should, and no event moves the counter by itself. -/
structure WaitsCorrect (s : Watched) : Prop where
  counted : ∀ e ∈ s.log, Right e.1 e.2
  quiet : ∀ he st', happen he s.st = .ok st' → st'.hw.PC = s.st.hw.PC

/-- What the data of the CSP have to be when a wait starts. -/
structure Fresh (code : TMem) (p : Csp) : Prop where
  waitw : IsWaitW code → p.waitWend = true
  event1 : code = 0xB8 → p.event1 = false
  event2 : code = 0xB9 → p.event2 = false

/-- The events that the waits can bear, and the writes: an overflow for `WAITW` and for `WAITX` while these have
not counted down yet; no event 1 for `WEVENT2` before an event 2. -/
def Bearable : Label → Watched → Prop
  | .tick _, s => ∀ code, fetched s.st = some code → IsWait code → (∀ w, s.wait = some w → w.code ≠ code) →
      Fresh code s.st.hw
  | .happen .EV_OVERFLOW, s => ∀ w, s.wait = some w →
      (IsWaitW w.code → w.W ≠ 0 → s.st.hw.OVFcountdown ≠ 0) ∧ (w.code = 0xBC → countX s.st ≠ 0)
  | .happen .EV_T2_EVENT1, s => ∀ w, s.wait = some w → w.code = 0xB9 → 0 < w.events2
  | .set c _, s => ∀ w, s.wait = some w → w.code = 0xBC → c ≠ .cell .xram Reg.CSPX
  | _, _ => True

/-! ## The invariant -/

/-- What the data of the CSP say of a wait. -/
structure Tracks (w : Wait) (st : CspSt) : Prop where
  isWait : IsWait w.code
  waitw : IsWaitW w.code → w.W ≠ 0 → st.hw.WaitingForWOvfs = true ∧ st.hw.waitWend = false ∧
    0 ≤ st.hw.OVFcountdown ∧ w.overflows + st.hw.OVFcountdown = w.W
  waitx : w.code = 0xBC → st.hw.WaitingForOvfs = true ∧ w.overflows + (countX st).toNat = w.x.toNat
  event1 : w.code = 0xB8 → st.hw.event1 = true → 0 < w.events1
  event2 : w.code = 0xB9 → st.hw.event2 = true → 0 < w.events2

theorem Tracks.of_keepsWaits {w : Wait} {st st' : CspSt} (h : Tracks w st) (hk : KeepsWaits st st') :
    Tracks w st' := by
  obtain ⟨hwaits, hX⟩ := hk
  have h₁ : st'.hw.WaitingForWOvfs = st.hw.WaitingForWOvfs := congrArg WaitData.WaitingForWOvfs hwaits
  have h₂ : st'.hw.waitWend = st.hw.waitWend := congrArg WaitData.waitWend hwaits
  have h₃ : st'.hw.OVFcountdown = st.hw.OVFcountdown := congrArg WaitData.OVFcountdown hwaits
  have h₄ : st'.hw.WaitingForOvfs = st.hw.WaitingForOvfs := congrArg WaitData.WaitingForOvfs hwaits
  have h₅ : st'.hw.event1 = st.hw.event1 := congrArg WaitData.event1 hwaits
  have h₆ : st'.hw.event2 = st.hw.event2 := congrArg WaitData.event2 hwaits
  constructor
  · exact h.isWait
  · rw [h₁, h₂, h₃]
    exact h.waitw
  · rw [h₄, hX]
    exact h.waitx
  · rw [h₅]
    exact h.event1
  · rw [h₆]
    exact h.event2

/-! ## A tick of a wait -/

/-- Does the wait go on? -/
def pending (code : TMem) (st : CspSt) : Bool :=
  if code = 0xB8 then !st.hw.event1
  else if code = 0xB9 then !st.hw.event2
  else if code = 0xBC then decide (countX st ≠ 0)
  else waitsW code st.hw

/-- The data while it goes on. -/
def hold (code : TMem) (st : CspSt) : CspSt :=
  if code = 0xB8 then update (fun p => { p with WaitingForEvent1 := true }) st
  else if code = 0xB9 then update (fun p => { p with WaitingForEvent2 := true }) st
  else if code = 0xBC then update (fun p => { p with WaitingForOvfs := true }) st
  else holdW code st

theorem isWaitW_ne {code : TMem} (h : IsWaitW code) : code ≠ 0xB8 ∧ code ≠ 0xB9 ∧ code ≠ 0xBC := by
  refine ⟨?_, ?_, ?_⟩ <;> rintro rfl <;> exact absurd h (by decide)

theorem pending_waitw {code : TMem} (h : IsWaitW code) (st : CspSt) : pending code st = waitsW code st.hw := by
  obtain ⟨h8, h9, hC⟩ := isWaitW_ne h
  unfold pending
  rw [if_neg h8, if_neg h9, if_neg hC]

theorem hold_waitw {code : TMem} (h : IsWaitW code) (st : CspSt) : hold code st = holdW code st := by
  obtain ⟨h8, h9, hC⟩ := isWaitW_ne h
  unfold hold
  rw [if_neg h8, if_neg h9, if_neg hC]

theorem body_waitw (inp : Input) {code : TMem} (h : IsWaitW code) : body inp code = inst_waitw code := by
  have hskip : code &&& 0x80 ≠ 0 := by
    rw [and_of_and (k := 0x80) (by decide) h]
    decide
  unfold body
  rw [if_neg hskip]
  exact if_pos h

/-- An instruction that waits while `p` holds. -/
theorem wait_cases {f : Step} {p : CspSt → Prop} [DecidablePred p] {st st' held : CspSt}
    (hends : EndsAt f fun st => if p st then st.hw.PC else st.hw.PC + 1) (hheld : p st → f st = .ok held)
    (hrun : f st = .ok st') : p st ∧ st' = held ∨ ¬ p st ∧ st'.hw.PC = st.hw.PC + 1 := by
  by_cases hp : p st
  · exact .inl ⟨hp, Except.ok.inj (hrun.symm.trans (hheld hp))⟩
  · obtain ⟨st₁, h₁, hPC, -⟩ := hends st
    obtain rfl : st₁ = st' := Except.ok.inj (h₁.symm.trans hrun)
    dsimp only at hPC
    rw [if_neg hp] at hPC
    exact .inr ⟨hp, hPC⟩

/-- A wait goes on with its data set, or ends at the next instruction. -/
theorem exec_wait {inp : Input} {code : TMem} {st st' : CspSt} (h : IsWait code)
    (hrun : exec_inst inp code st = .ok st') :
    pending code st = true ∧ st' = wrapPC (hold code st) ∨
      pending code st = false ∧ st'.hw.PC = landing (st.hw.PC + 1) := by
  rw [exec_inst_eq] at hrun
  obtain ⟨st₁, h₁, hst'⟩ := bind_eq_ok.mp hrun
  suffices hst₁ : pending code st = true ∧ st₁ = hold code st ∨
      pending code st = false ∧ st₁.hw.PC = st.hw.PC + 1 by
    cases hst'
    obtain ⟨hp, rfl⟩ | ⟨hp, hPC⟩ := hst₁
    · exact .inl ⟨hp, rfl⟩
    · exact .inr ⟨hp, by rw [(wrapPC_fields st₁).1, hPC]⟩
  obtain hwaitw | rfl | rfl | rfl := h
  · rw [pending_waitw hwaitw, hold_waitw hwaitw]
    rw [body_waitw inp hwaitw] at h₁
    have hcases := wait_cases (p := fun st => waitsW code st.hw = true) (endsAt_waitw code)
      (fun hp => (inst_waitw_eq code st).trans (if_pos hp)) h₁
    rwa [Bool.not_eq_true] at hcases
  · have hcases := wait_cases (p := fun st => st.hw.event1 = false) endsAt_wait_event1
      (fun hp => if_pos hp) h₁
    rw [Bool.not_eq_false] at hcases
    change (!st.hw.event1) = true ∧ _ ∨ (!st.hw.event1) = false ∧ _
    rwa [Bool.not_eq_true', Bool.not_eq_false']
  · have hcases := wait_cases (p := fun st => st.hw.event2 = false) endsAt_wait_event2
      (fun hp => if_pos hp) h₁
    rw [Bool.not_eq_false] at hcases
    change (!st.hw.event2) = true ∧ _ ∨ (!st.hw.event2) = false ∧ _
    rwa [Bool.not_eq_true', Bool.not_eq_false']
  · have hcases := wait_cases (p := fun st => countX st ≠ 0) endsAt_waitx (fun hp => if_pos hp) h₁
    change decide (countX st ≠ 0) = true ∧ _ ∨ decide (countX st ≠ 0) = false ∧ _
    rwa [decide_eq_true_eq, decide_eq_false_iff_not]

theorem landing_ne_succ (pc : Int) : landing pc ≠ landing (pc + 1) := by
  unfold landing
  split <;> split <;> omega

/-! ## Right waits -/

section Kinds

variable {w : Wait} {st : CspSt} {ends : Bool}

theorem Right.of_waitw (h : IsWaitW w.code)
    (hw : w.W ≠ 0 → w.overflows ≤ w.W ∧ (ends = true ↔ w.overflows = w.W)) : Right w ends where
  waitw _ := hw
  waitx hcode := absurd hcode (isWaitW_ne h).2.2
  event1 hcode := absurd hcode (isWaitW_ne h).1
  event2 hcode := absurd hcode (isWaitW_ne h).2.1

theorem Right.of_waitx (h : w.code = 0xBC)
    (hx : w.overflows ≤ w.x.toNat ∧ (ends = true ↔ w.overflows = w.x.toNat)) : Right w ends where
  waitw hcode := absurd h (isWaitW_ne hcode).2.2
  waitx _ := hx
  event1 hcode := absurd (h.symm.trans hcode) (by decide)
  event2 hcode := absurd (h.symm.trans hcode) (by decide)

theorem Right.of_event1 (h : w.code = 0xB8) (h₁ : ends = true → 0 < w.events1) : Right w ends where
  waitw hcode := absurd h (isWaitW_ne hcode).1
  waitx hcode := absurd (h.symm.trans hcode) (by decide)
  event1 _ := h₁
  event2 hcode := absurd (h.symm.trans hcode) (by decide)

theorem Right.of_event2 (h : w.code = 0xB9) (h₂ : ends = true → 0 < w.events2) : Right w ends where
  waitw hcode := absurd h (isWaitW_ne hcode).2.1
  waitx hcode := absurd (h.symm.trans hcode) (by decide)
  event1 hcode := absurd (h.symm.trans hcode) (by decide)
  event2 _ := h₂

theorem Tracks.of_waitw (h : IsWaitW w.code)
    (hw : w.W ≠ 0 → st.hw.WaitingForWOvfs = true ∧ st.hw.waitWend = false ∧
      0 ≤ st.hw.OVFcountdown ∧ w.overflows + st.hw.OVFcountdown = w.W) : Tracks w st where
  isWait := .inl h
  waitw _ := hw
  waitx hcode := absurd hcode (isWaitW_ne h).2.2
  event1 hcode := absurd hcode (isWaitW_ne h).1
  event2 hcode := absurd hcode (isWaitW_ne h).2.1

theorem Tracks.of_waitx (h : w.code = 0xBC)
    (hx : st.hw.WaitingForOvfs = true ∧ w.overflows + (countX st).toNat = w.x.toNat) : Tracks w st where
  isWait := .inr (.inr (.inr h))
  waitw hcode := absurd h (isWaitW_ne hcode).2.2
  waitx _ := hx
  event1 hcode := absurd (h.symm.trans hcode) (by decide)
  event2 hcode := absurd (h.symm.trans hcode) (by decide)

theorem Tracks.of_event1 (h : w.code = 0xB8) (h₁ : st.hw.event1 = true → 0 < w.events1) : Tracks w st where
  isWait := .inr (.inl h)
  waitw hcode := absurd h (isWaitW_ne hcode).1
  waitx hcode := absurd (h.symm.trans hcode) (by decide)
  event1 _ := h₁
  event2 hcode := absurd (h.symm.trans hcode) (by decide)

theorem Tracks.of_event2 (h : w.code = 0xB9) (h₂ : st.hw.event2 = true → 0 < w.events2) : Tracks w st where
  isWait := .inr (.inr (.inl h))
  waitw hcode := absurd h (isWaitW_ne hcode).2.1
  waitx hcode := absurd (h.symm.trans hcode) (by decide)
  event1 hcode := absurd (h.symm.trans hcode) (by decide)
  event2 _ := h₂

/-- A wait that starts. -/
structure Starts (w : Wait) (st : CspSt) : Prop where
  isWait : IsWait w.code
  fresh : Fresh w.code st.hw
  x : w.x = countX st
  overflows : w.overflows = 0

/-- A wait that starts now goes on, or ends, as it should. -/
theorem Starts.tick (h : Starts w st) : if pending w.code st then Right w false ∧ Tracks w (hold w.code st)
    else Right w true := by
  have hzero := h.overflows
  obtain hwaitw | hcode | hcode | hcode := h.isWait
  · have hcount : countW w.code st.hw = w.W := if_pos (h.fresh.waitw hwaitw)
    rw [pending_waitw hwaitw, hold_waitw hwaitw, waitsW, hcount]
    by_cases hW : w.W = 0
    · rw [if_neg (by simp [hW])]
      exact .of_waitw hwaitw fun hne => absurd hW hne
    · rw [if_pos (by simpa using hW)]
      refine ⟨.of_waitw hwaitw fun hne => ⟨by omega, iff_of_false Bool.false_ne_true (by omega)⟩,
        .of_waitw hwaitw fun _ => ⟨rfl, rfl, ?_⟩⟩
      change 0 ≤ countW w.code st.hw ∧ w.overflows + countW w.code st.hw = w.W
      omega
  · have hpending : pending w.code st = true := by
      rw [hcode]
      change (!st.hw.event1) = true
      rw [h.fresh.event1 hcode]
      rfl
    rw [if_pos hpending]
    refine ⟨.of_event1 hcode fun hends => Bool.noConfusion hends, .of_event1 hcode fun he => ?_⟩
    rw [hcode] at he
    have hfresh : st.hw.event1 = true := he
    rw [h.fresh.event1 hcode] at hfresh
    cases hfresh
  · have hpending : pending w.code st = true := by
      rw [hcode]
      change (!st.hw.event2) = true
      rw [h.fresh.event2 hcode]
      rfl
    rw [if_pos hpending]
    refine ⟨.of_event2 hcode fun hends => Bool.noConfusion hends, .of_event2 hcode fun he => ?_⟩
    rw [hcode] at he
    have hfresh : st.hw.event2 = true := he
    rw [h.fresh.event2 hcode] at hfresh
    cases hfresh
  · have hpending : pending w.code st = decide (countX st ≠ 0) := by
      rw [hcode]
      rfl
    have hx := congrArg BitVec.toNat h.x
    rw [hpending]
    by_cases hX : countX st = 0
    · rw [if_neg (by simpa using hX)]
      have hxzero : w.x.toNat = 0 := by
        rw [hx, hX]
        rfl
      exact .of_waitx hcode ⟨by omega, iff_of_true rfl (by omega)⟩
    · rw [if_pos (by simpa using hX)]
      have hpos : (countX st).toNat ≠ 0 := fun heq => hX (BitVec.eq_of_toNat_eq heq)
      refine ⟨.of_waitx hcode ⟨by omega, iff_of_false Bool.false_ne_true (by omega)⟩, ?_⟩
      rw [hcode]
      exact .of_waitx hcode ⟨rfl, by rw [hzero, hx, Nat.zero_add]; rfl⟩

/-- So does a wait that has started before. -/
theorem Tracks.tick (h : Tracks w st) : if pending w.code st then Right w false ∧ Tracks w (hold w.code st)
    else Right w true := by
  obtain hwaitw | hcode | hcode | hcode := h.isWait
  · have hcount (hW : w.W ≠ 0) : countW w.code st.hw = st.hw.OVFcountdown := by
      rw [countW, (h.waitw hwaitw hW).2.1]
      rfl
    rw [pending_waitw hwaitw, hold_waitw hwaitw]
    split
    · next hp =>
      have hp : countW w.code st.hw ≠ 0 := of_decide_eq_true hp
      refine ⟨.of_waitw hwaitw fun hW => ?_, .of_waitw hwaitw fun hW => ⟨rfl, rfl, ?_⟩⟩
      · obtain ⟨-, -, hpos, hsum⟩ := h.waitw hwaitw hW
        rw [hcount hW] at hp
        exact ⟨by omega, iff_of_false Bool.false_ne_true (by omega)⟩
      · change 0 ≤ countW w.code st.hw ∧ w.overflows + countW w.code st.hw = w.W
        rw [hcount hW]
        exact (h.waitw hwaitw hW).2.2
    · next hp =>
      have hp : countW w.code st.hw = 0 := by simpa [waitsW] using hp
      refine .of_waitw hwaitw fun hW => ?_
      obtain ⟨-, -, -, hsum⟩ := h.waitw hwaitw hW
      rw [← hcount hW, hp] at hsum
      exact ⟨by omega, iff_of_true rfl (by omega)⟩
  · have hpending : pending w.code st = !st.hw.event1 := by
      rw [hcode]
      rfl
    rw [hpending]
    by_cases he : st.hw.event1 = true
    · rw [he]
      exact .of_event1 hcode fun _ => h.event1 hcode he
    · rw [if_pos (by simpa using he)]
      refine ⟨.of_event1 hcode fun hends => Bool.noConfusion hends, .of_event1 hcode ?_⟩
      rw [hcode]
      exact h.event1 hcode
  · have hpending : pending w.code st = !st.hw.event2 := by
      rw [hcode]
      rfl
    rw [hpending]
    by_cases he : st.hw.event2 = true
    · rw [he]
      exact .of_event2 hcode fun _ => h.event2 hcode he
    · rw [if_pos (by simpa using he)]
      refine ⟨.of_event2 hcode fun hends => Bool.noConfusion hends, .of_event2 hcode ?_⟩
      rw [hcode]
      exact h.event2 hcode
  · have hpending : pending w.code st = decide (countX st ≠ 0) := by
      rw [hcode]
      rfl
    obtain ⟨-, hsum⟩ := h.waitx hcode
    rw [hpending]
    by_cases hX : countX st = 0
    · rw [if_neg (by simpa using hX)]
      have hXzero : (countX st).toNat = 0 := congrArg BitVec.toNat hX
      exact .of_waitx hcode ⟨by omega, iff_of_true rfl (by omega)⟩
    · rw [if_pos (by simpa using hX)]
      have hpos : (countX st).toNat ≠ 0 := fun heq => hX (BitVec.eq_of_toNat_eq heq)
      refine ⟨.of_waitx hcode ⟨by omega, iff_of_false Bool.false_ne_true (by omega)⟩, ?_⟩
      rw [hcode]
      exact .of_waitx hcode ⟨rfl, hsum⟩

/-! ## Steps -/

theorem byte_pred {v : TMem} (hv : v ≠ 0) (hbyte : v.toNat < 0x100) : (v + -1 &&& 0xff).toNat + 1 = v.toNat := by
  have hpos : v.toNat ≠ 0 := fun heq => hv (BitVec.eq_of_toNat_eq heq)
  have hpred : (v + -1).toNat = v.toNat - 1 := by
    rw [BitVec.toNat_add]
    change (v.toNat + 0xFFFF) % 0x10000 = _
    omega
  have hmask : (v.toNat - 1) &&& (2 ^ 8 - 1) = v.toNat - 1 :=
    Nat.and_two_pow_sub_one_of_lt_two_pow (n := 8) (by omega)
  rw [BitVec.toNat_and, hpred]
  change ((v.toNat - 1) &&& (2 ^ 8 - 1)) + 1 = v.toNat
  omega

/-- The part of `happen` for `WAITW`. -/
def countdown (st : CspSt) : CspSt :=
  if st.hw.WaitingForWOvfs then update (fun p => { p with OVFcountdown := p.OVFcountdown - 1 }) st else st

theorem countdown_eq (st : CspSt) : (countdown st).mem = st.mem ∧ (countdown st).hw = { st.hw with
    OVFcountdown := if st.hw.WaitingForWOvfs then st.hw.OVFcountdown - 1 else st.hw.OVFcountdown } := by
  unfold countdown
  split <;> exact ⟨rfl, rfl⟩

/-- What an overflow changes. -/
theorem happen_overflow (st : CspSt) : ∃ st', happen .EV_OVERFLOW st = .ok st' ∧
    st'.hw = { st.hw with
      OVFcountdown := if st.hw.WaitingForWOvfs then st.hw.OVFcountdown - 1 else st.hw.OVFcountdown } ∧
    (st.hw.WaitingForOvfs = true → countX st' = (countX st + -1) &&& 0xff) := by
  have hrun {st₁ : CspSt}
      (h₁ : (if st.hw.WaitingForOvfs then count .cell_cspx (-1) st else .ok st) = .ok st₁) :
      happen .EV_OVERFLOW st = .ok (countdown st₁) := bind_eq_ok.mpr ⟨st₁, h₁, rfl⟩
  by_cases hX : st.hw.WaitingForOvfs = true
  · have hcount : (if st.hw.WaitingForOvfs then count .cell_cspx (-1) st else .ok st)
        = .ok (store (.cell .xram Reg.CSPX) (countX st + -1) st) := if_pos hX
    obtain ⟨hmem, hhw⟩ := countdown_eq (store (.cell .xram Reg.CSPX) (countX st + -1) st)
    refine ⟨_, hrun hcount, hhw, fun _ => ?_⟩
    rw [countX, hmem]
    exact Function.update_self (.cell .xram Reg.CSPX) _ st.mem
  · exact ⟨_, hrun (if_neg hX), (countdown_eq st).2, fun h => absurd h hX⟩

/-- An event that the wait can bear. -/
theorem Tracks.deliver {s : Watched} {he : TimerEvent} {st' : CspSt} (h : Tracks w s.st)
    (hbytes : IsBytes s.st.mem) (hw : s.wait = some w) (hC : Bearable (.happen he) s)
    (hrun : happen he s.st = .ok st') : Tracks (w.deliver he) st' := by
  cases he with
  | EV_OVERFLOW =>
    obtain ⟨st₁, h₁, hhw, hX⟩ := happen_overflow s.st
    obtain rfl : st₁ = st' := Except.ok.inj (h₁.symm.trans hrun)
    obtain ⟨hCw, hCx⟩ := hC w hw
    constructor
    · exact h.isWait
    · intro hcode hW
      obtain ⟨hwaiting, hwend, hpos, hsum⟩ := h.waitw hcode hW
      have hmore := hCw hcode hW
      rw [hhw]
      refine ⟨hwaiting, hwend, ?_⟩
      dsimp only
      rw [if_pos hwaiting]
      change 0 ≤ s.st.hw.OVFcountdown - 1 ∧ ((w.overflows + 1 : Nat) : Int) + (s.st.hw.OVFcountdown - 1) = w.W
      omega
    · intro hcode
      obtain ⟨hwaiting, hsum⟩ := h.waitx hcode
      rw [hX hwaiting, hhw]
      refine ⟨hwaiting, ?_⟩
      have hpred := byte_pred (hCx hcode) (hbytes _)
      change w.overflows + 1 + _ = w.x.toNat
      omega
    · rw [hhw]
      exact h.event1
    · rw [hhw]
      exact h.event2
  | EV_T2_EVENT1 =>
    cases hrun
    constructor
    · exact h.isWait
    · exact h.waitw
    · exact h.waitx
    · exact fun _ _ => Nat.succ_pos _
    · exact fun hcode _ => hC w hw hcode
  | EV_T2_EVENT2 =>
    cases hrun
    constructor
    · exact h.isWait
    · exact h.waitw
    · exact h.waitx
    · exact h.event1
    · exact fun _ _ => Nat.succ_pos _

/-- The invariant of the runs. -/
structure Invariant (s : Watched) : Prop where
  bytes : IsBytes s.st.mem
  tracks : ∀ w, s.wait = some w → Tracks w s.st
  right : ∀ e ∈ s.log, Right e.1 e.2

theorem current_cases (s : Watched) (code : TMem) :
    (∃ w, s.wait = some w ∧ w.code = code ∧ s.current code = w) ∨
      (∀ w, s.wait = some w → w.code ≠ code) ∧ s.current code = Wait.start code s.st := by
  unfold Watched.current
  cases hwait : s.wait with
  | none =>
    refine .inr ⟨fun w hw => ?_, rfl⟩
    cases hw
  | some w =>
    rw [Option.filter_some]
    by_cases hcode : w.code = code
    · rw [if_pos (decide_eq_true hcode)]
      exact .inl ⟨w, rfl, hcode, rfl⟩
    · rw [if_neg (by simpa using hcode)]
      refine .inr ⟨fun w' hw' => ?_, rfl⟩
      cases hw'
      exact hcode

/-- A tick executes what it fetches, or the CSP is stopped. -/
theorem tick_cases {inp : Input} {st st' : CspSt} (hrun : CSP_tick inp st = .ok st') :
    ∃ st₁, updateStatus st = .ok st₁ ∧ (fetched st = none ∧ st' = st₁ ∨
      ∃ code, fetched st = some code ∧ exec_inst inp code st₁ = .ok st') := by
  obtain ⟨st₁, h₁, hexec⟩ := bind_eq_ok.mp hrun
  refine ⟨st₁, h₁, ?_⟩
  unfold fetched
  rw [h₁]
  by_cases hstop : st₁.hw.csp_stop = false
  · rw [if_pos hstop] at hexec
    obtain ⟨code, hcode, hexec⟩ := bind_eq_ok.mp hexec
    refine .inr ⟨code, ?_, hexec⟩
    dsimp only
    rw [if_pos hstop, hcode]
    rfl
  · rw [if_neg hstop] at hexec
    cases hexec
    exact .inl ⟨if_neg hstop, rfl⟩

/-- A tick in which a wait is executed. -/
theorem Invariant.execute {s : Watched} {inp : Input} {code : TMem} {st₁ st' : CspSt} (h : Invariant s)
    (hbytes : IsBytes st'.mem) (hcode : IsWait code)
    (hfresh : (∀ w, s.wait = some w → w.code ≠ code) → Fresh code s.st.hw)
    (hstatus : updateStatus s.st = .ok st₁) (hrun : exec_inst inp code st₁ = .ok st') :
    Invariant (s.execute code st') := by
  have hkeeps := KeepsWaits.updateStatus hstatus
  have hPC : st₁.hw.PC = s.st.hw.PC := by
    obtain ⟨st₂, h₂, hPC, -⟩ := updateStatus_run s.st
    obtain rfl : st₁ = st₂ := Except.ok.inj (hstatus.symm.trans h₂)
    exact hPC
  have htick : (s.current code).code = code ∧
      if pending code st₁ then Right (s.current code) false ∧ Tracks (s.current code) (hold code st₁)
      else Right (s.current code) true := by
    obtain ⟨w, hw, rfl, hcur⟩ | ⟨hnone, hcur⟩ := current_cases s code
    · rw [hcur]
      exact ⟨rfl, ((h.tracks w hw).of_keepsWaits hkeeps).tick⟩
    · rw [hcur]
      have hdata := hfresh hnone
      have hw : st₁.hw.waitWend = s.st.hw.waitWend := congrArg WaitData.waitWend hkeeps.waits
      have h₁ : st₁.hw.event1 = s.st.hw.event1 := congrArg WaitData.event1 hkeeps.waits
      have h₂ : st₁.hw.event2 = s.st.hw.event2 := congrArg WaitData.event2 hkeeps.waits
      have hfresh₁ : Fresh code st₁.hw :=
        ⟨fun hc => hw.trans (hdata.waitw hc), fun hc => h₁.trans (hdata.event1 hc),
          fun hc => h₂.trans (hdata.event2 hc)⟩
      have hstarts : Starts (Wait.start code s.st) st₁ := ⟨hcode, hfresh₁, hkeeps.countX.symm, rfl⟩
      exact ⟨rfl, hstarts.tick⟩
  have hlog {ends : Bool} (hright : Right (s.current code) ends) :
      ∀ e ∈ s.log ++ [(s.current code, ends)], Right e.1 e.2 := by
    intro e he
    obtain he | he := List.mem_append.mp he
    · exact h.right e he
    · rw [List.mem_singleton.mp he]
      exact hright
  unfold Watched.execute
  obtain ⟨hp, rfl⟩ | ⟨hp, hst'⟩ := exec_wait hcode hrun
  · obtain ⟨hright, htracks⟩ := (if_pos hp).mp htick.2
    have hstay : (hold code st₁).hw.PC = s.st.hw.PC := by
      rw [← hPC]
      unfold hold holdW
      split_ifs <;> rfl
    have hends : decide ((wrapPC (hold code st₁)).hw.PC = landing (s.st.hw.PC + 1)) = false := by
      rw [(wrapPC_fields _).1, hstay]
      exact decide_eq_false (landing_ne_succ _)
    rw [hends]
    refine ⟨hbytes, fun w hw => ?_, hlog hright⟩
    cases hw
    exact htracks.of_keepsWaits (KeepsWaits.wrapPC _)
  · have hright := (if_neg (Bool.eq_false_iff.mp hp)).mp htick.2
    have hends : decide (st'.hw.PC = landing (s.st.hw.PC + 1)) = true := by
      rw [hst', hPC]
      exact decide_eq_true rfl
    rw [hends]
    refine ⟨hbytes, fun w hw => ?_, hlog hright⟩
    cases hw

theorem step_bytes {a : Label} {st st' : CspSt} (h : IsBytes st.mem) (hrun : step a st = .ok st') :
    IsBytes st'.mem := by
  cases a with
  | tick inp => exact (tick_xramOnly hrun).isBytes h
  | strobe inp v => exact (writeRfst_xramOnly hrun).isBytes h
  | happen he => exact (happen_xramOnly hrun).isBytes h
  | set c v =>
    cases hrun
    exact isBytes_update h c (and_lt_byte v)
  | signal CCA SFD RSSI_valid CPU_ctrl radioAnswer =>
    cases hrun
    exact h

/-- The waits stay right as long as the events can be borne. -/
theorem Invariant.step {a : Label} {s : Watched} {st' : CspSt} (h : Invariant s) (hC : Bearable a s)
    (hrun : Csp.step a s.st = .ok st') : Invariant (s.follow a st') := by
  have hbytes := step_bytes h.bytes hrun
  cases a with
  | tick inp =>
    obtain ⟨st₁, hstatus, ⟨hnone, rfl⟩ | ⟨code, hcode, hexec⟩⟩ := tick_cases hrun
    · have hfollow : s.follow (.tick inp) st' = { s with st := st' } := by
        unfold Watched.follow
        rw [hnone]
      rw [hfollow]
      exact ⟨hbytes, fun w hw => (h.tracks w hw).of_keepsWaits (KeepsWaits.updateStatus hstatus), h.right⟩
    · have hfollow : s.follow (.tick inp) st'
          = if IsWait code then s.execute code st' else { s with st := st', wait := none } := by
        unfold Watched.follow
        rw [hcode]
      rw [hfollow]
      by_cases hwait : IsWait code
      · rw [if_pos hwait]
        exact h.execute hbytes hwait (hC code hcode hwait) hstatus hexec
      · rw [if_neg hwait]
        refine ⟨hbytes, fun w hw => ?_, h.right⟩
        cases hw
  | strobe inp v =>
    refine ⟨hbytes, fun w hw => ?_, h.right⟩
    change (if v = 0xE1 ∨ v = 0xFF ∨ st'.hw.PC ≠ s.st.hw.PC then none else s.wait) = some w at hw
    split at hw
    · cases hw
    · exact (h.tracks w hw).of_keepsWaits (KeepsWaits.writeRfst hrun)
  | happen he =>
    refine ⟨hbytes, fun w hw => ?_, h.right⟩
    obtain ⟨w₀, hw₀, rfl⟩ := Option.map_eq_some_iff.mp hw
    exact (h.tracks w₀ hw₀).deliver h.bytes hw₀ hC hrun
  | set c v =>
    refine ⟨hbytes, fun w hw => ?_, h.right⟩
    have htracks := h.tracks w hw
    cases hrun
    refine ⟨htracks.isWait, htracks.waitw, fun hcode => ?_, htracks.event1, htracks.event2⟩
    have hX : countX (store c v s.st) = countX s.st := Function.update_of_ne (Ne.symm (hC w hw hcode)) _ _
    change s.st.hw.WaitingForOvfs = true ∧ w.overflows + (countX (store c v s.st)).toNat = w.x.toNat
    rw [hX]
    exact htracks.waitx hcode
  | signal CCA SFD RSSI_valid CPU_ctrl radioAnswer =>
    refine ⟨hbytes, fun w hw => ?_, h.right⟩
    cases hrun
    exact (h.tracks w hw).of_keepsWaits ⟨rfl, rfl⟩

end Kinds

/-- In a run whose events the waits can bear, every wait ends when it should. -/
theorem waits_correct {s : Watched} (h : (watched.guard Bearable).Reachable s) : WaitsCorrect s := by
  have hI : Invariant s := by
    refine h.guard_invariant (I := Invariant) (fun s hs => ?_) fun a s s' _ hI hC hst => ?_
    · obtain ⟨-, hbytes, hwait, hlog⟩ := hs
      refine ⟨hbytes, fun w hw => ?_, fun e he => ?_⟩
      · rw [hwait] at hw
        cases hw
      · rw [hlog] at he
        cases he
    · obtain ⟨st', hrun, rfl⟩ := hst
      exact hI.step hC hrun
  exact ⟨hI.right, fun he st' hrun => happen_PC hrun⟩

/-! ## Two waits -/

/-- A run that is watched, as long as its steps pass a check. -/
def watch (ok : Label → Watched → Bool) (l : List Label) : Option Watched :=
  (reset { mem := fun _ => 0, hw := blank }).toOption.bind fun st =>
    System.checkedRun (fun a s => (step a s.st).toOption.map (s.follow a)) ok l { st := st, wait := none, log := [] }

theorem reachable_watch {ok : Label → Watched → Bool} {C : Label → Watched → Prop}
    (hok : ∀ a s, ok a s = true → C a s) {l : List Label} {s : Watched} (hrun : watch ok l = some s) :
    (watched.guard C).Reachable s := by
  obtain ⟨st₀, h₀, hrun⟩ := Option.bind_eq_some_iff.mp hrun
  have hreset := toOption_eq_some h₀
  have hzero : (0 : TMem).toNat < 0x100 := by decide
  have hbytes : IsBytes st₀.mem := (runs_reset.xramOnly hreset).isBytes fun _ => hzero
  have hinit : (watched.guard C).init { st := st₀, wait := none, log := [] } := ⟨⟨_, hreset⟩, hbytes, rfl, rfl⟩
  refine System.Reachable.checkedRun (fun a s t ht => ?_) hok (.init hinit) hrun
  obtain ⟨st', hst', rfl⟩ := Option.map_eq_some_iff.mp ht
  exact ⟨st', toOption_eq_some hst', rfl⟩

/-- A check of `Bearable` for ticks and overflows. -/
def bearableCheck : Label → Watched → Bool
  | .tick _, s => (fetched s.st).all fun code => decide (IsWait code → (∀ w, s.wait = some w → w.code ≠ code) →
      s.st.hw.waitWend = true ∧ s.st.hw.event1 = false ∧ s.st.hw.event2 = false)
  | .happen .EV_OVERFLOW, s => s.wait.all fun w => decide ((IsWaitW w.code → w.W ≠ 0 →
      s.st.hw.OVFcountdown ≠ 0) ∧ (w.code = 0xBC → countX s.st ≠ 0))
  | .happen .EV_T2_EVENT1, _ => false
  | .set _ _, s => s.wait.isNone
  | _, _ => true

theorem bearable_of_check (a : Label) (s : Watched) (h : bearableCheck a s = true) : Bearable a s := by
  have hall {α : Type} {o : Option α} {p : α → Bool} (h : o.all p = true) (x : α) (hx : o = some x) :
      p x = true := by
    rw [hx] at h
    exact h
  cases a with
  | tick inp =>
    intro code hcode hwait hstart
    obtain ⟨hwend, h₁, h₂⟩ := of_decide_eq_true (hall h code hcode) hwait hstart
    exact ⟨fun _ => hwend, fun _ => h₁, fun _ => h₂⟩
  | happen he =>
    cases he with
    | EV_OVERFLOW => exact fun w hw => of_decide_eq_true (hall h w hw)
    | EV_T2_EVENT1 => cases h
    | EV_T2_EVENT2 => trivial
  | set c v =>
    intro w hw
    change s.wait.isNone = true at h
    rw [hw] at h
    cases h
  | strobe | signal => trivial

/-- `WAITW 2` ends after two overflows. -/
theorem waits_correct_two : ∃ s : Watched, s.log.map Prod.snd = [false, false, true] ∧ WaitsCorrect s := by
  have hlog : (watch bearableCheck (program [(0, 0x82)] ++ [plainTick, .happen .EV_OVERFLOW, plainTick,
      .happen .EV_OVERFLOW, plainTick])).map (fun s => s.log.map Prod.snd) = some [false, false, true] := by
    decide +kernel
  obtain ⟨s, hrun, hs⟩ := Option.map_eq_some_iff.mp hlog
  exact ⟨s, hs, waits_correct (reachable_watch bearable_of_check hrun)⟩

/-- `WEVENT2` ends after an event 1. -/
theorem wevent2_hears_event1 : ¬ ∀ s : Watched, watched.Reachable s → WaitsCorrect s := by
  intro h
  have hlog : (watch (fun _ _ => true) (program [(0, 0xB9)] ++ [plainTick, .happen .EV_T2_EVENT1, plainTick])).map
      (fun s => s.log.getLast?) = some (some ({ code := 0xB9, x := 0, overflows := 0, events1 := 1, events2 := 0 },
        true)) := by decide +kernel
  obtain ⟨s, hrun, hs⟩ := Option.map_eq_some_iff.mp hlog
  have hreach := reachable_watch (C := fun _ _ => True) (fun _ _ _ => trivial) hrun
  have hright := (h s hreach.of_guard).counted _ (List.mem_of_getLast? hs)
  exact absurd (hright.event2 rfl rfl) (by decide)

end Csp

end Ucsim.S51
