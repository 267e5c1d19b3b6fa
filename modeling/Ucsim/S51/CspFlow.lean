import Ucsim.S51.Csp

/-!
# The control flow of the strobe processor

A code is matched by at most one of the tests of `exec_inst`. Where each instruction leaves the program
counter, and which instructions use a cell that has not been assigned.
-/

namespace Ucsim.S51

open Logic

namespace Csp

/-! ## One instruction a code -/

/-- The instruction of a code. -/
def body (inp : Input) (code : TMem) : Step :=
  if code &&& 0x80 = 0 then inst_skipCS inp code
  else if code &&& 0xE0 = 0x80 then inst_waitw code
  else if code &&& 0xF0 = 0xA0 then inst_repeatC inp code
  else if code &&& 0xF8 = 0xC8 then inst_inc_maxy code
  else if code &&& 0xF0 = 0xD0 then switch strobes (code &&& 0x0F)
  else if code &&& 0xF0 = 0xE0 then switch immediateStrobes (code &&& 0x0F)
  else switch (others inp) code

/-- Does one of the tests before the last `switch` match? -/
def Masked (code : TMem) : Prop :=
  code &&& 0x80 = 0 ∨ code &&& 0xE0 = 0x80 ∨ code &&& 0xF0 = 0xA0 ∨ code &&& 0xF8 = 0xC8 ∨
    code &&& 0xF0 = 0xD0 ∨ code &&& 0xF0 = 0xE0

instance : DecidablePred Masked := fun _ => inferInstanceAs (Decidable (_ ∨ _ ∨ _ ∨ _ ∨ _ ∨ _))

theorem switch_of_ne {cases : List (TMem × Step)} {v : TMem} (h : ∀ p ∈ cases, p.1 ≠ v) :
    switch cases v = fun st => .ok st := by
  have hlookup : cases.lookup v = none := by
    rw [List.lookup_eq_none_iff]
    intro p hp
    rw [bne_iff_ne]
    exact Ne.symm (h p hp)
  rw [switch, hlookup]
  rfl

/-- What holds of every case of a `switch`, and of doing nothing, holds of the `switch`. -/
theorem switch_cases {P : Step → Prop} {cases : List (TMem × Step)} (h : ∀ p ∈ cases, P p.2)
    (hnone : P fun st => .ok st) (v : TMem) : P (switch cases v) := by
  unfold switch
  cases hlookup : cases.lookup v with
  | none => exact hnone
  | some f =>
    obtain ⟨l₁, l₂, rfl, -⟩ := List.lookup_eq_some_iff.mp hlookup
    exact h (v, f) (by simp)

/-- The last `switch` has no code that was matched before. -/
theorem switch_others_of_masked {inp : Input} {code : TMem} (h : Masked code) :
    switch (others inp) code = fun st => .ok st := by
  refine switch_of_ne fun p hp hcode => ?_
  have hkeys : ∀ key ∈ (others inp).map Prod.fst, ¬ Masked key := by
    simp only [others, List.map_cons, List.map_nil, List.mem_cons, List.not_mem_nil, or_false]
    rintro key (rfl | rfl | rfl | rfl | rfl | rfl | rfl | rfl | rfl | rfl | rfl | rfl | rfl | rfl)
    all_goals decide
  exact hkeys p.1 (List.mem_map_of_mem hp) (hcode ▸ h)

/-- A mask that contains another one. -/
theorem and_of_and {code m v k : TMem} (hk : m &&& k = k) (h : code &&& m = v) : code &&& k = v &&& k := by
  rw [← h, BitVec.and_assoc, hk]

theorem onMatch_pos {p : Prop} [Decidable p] (h : p) (f : Step) : onMatch p f = f := by
  funext st
  rw [onMatch, if_pos h]

theorem onMatch_neg {p : Prop} [Decidable p] (h : ¬ p) (f : Step) : onMatch p f = fun st => .ok st := by
  funext st
  rw [onMatch, if_neg h]

/-- `exec_inst` executes one instruction. -/
theorem exec_inst_eq (inp : Input) (code : TMem) (st : CspSt) :
    exec_inst inp code st = do return wrapPC (← body inp code st) := by
  unfold exec_inst body
  have hF0 {v : TMem} (h : code &&& 0xF0 = v) : code &&& 0xE0 = v &&& 0xE0 ∧ code &&& 0x80 = v &&& 0x80 :=
    ⟨and_of_and (by decide) h, and_of_and (by decide) h⟩
  by_cases h1 : code &&& 0x80 = 0
  · have hne {m v : TMem} (hm : m &&& 0x80 = 0x80) (hv : v &&& 0x80 ≠ 0) : ¬ code &&& m = v := fun h =>
      hv ((and_of_and hm h).symm.trans h1)
    rw [onMatch_pos h1, onMatch_neg (hne (by decide) (by decide)), onMatch_neg (hne (by decide) (by decide)),
      onMatch_neg (hne (by decide) (by decide)), onMatch_neg (hne (by decide) (by decide)),
      onMatch_neg (hne (by decide) (by decide)), switch_others_of_masked (.inl h1), if_pos h1]
    rfl
  rw [onMatch_neg h1, if_neg h1]
  by_cases h2 : code &&& 0xE0 = 0x80
  · have hne {m v : TMem} (hm : m &&& 0xE0 = 0xE0) (hv : v &&& 0xE0 ≠ 0x80) : ¬ code &&& m = v := fun h =>
      hv ((and_of_and hm h).symm.trans h2)
    rw [onMatch_pos h2, onMatch_neg (hne (by decide) (by decide)), onMatch_neg (hne (by decide) (by decide)),
      onMatch_neg (hne (by decide) (by decide)), onMatch_neg (hne (by decide) (by decide)),
      switch_others_of_masked (.inr (.inl h2)), if_pos h2]
    rfl
  rw [onMatch_neg h2, if_neg h2]
  by_cases h3 : code &&& 0xF0 = 0xA0
  · have hne {m v : TMem} (hm : m &&& 0xF0 = 0xF0) (hv : v &&& 0xF0 ≠ 0xA0) : ¬ code &&& m = v := fun h =>
      hv ((and_of_and hm h).symm.trans h3)
    rw [onMatch_pos h3, onMatch_neg (hne (by decide) (by decide)), onMatch_neg (hne (by decide) (by decide)),
      onMatch_neg (hne (by decide) (by decide)), switch_others_of_masked (.inr (.inr (.inl h3))), if_pos h3]
    rfl
  rw [onMatch_neg h3, if_neg h3]
  by_cases h4 : code &&& 0xF8 = 0xC8
  · have hne {v : TMem} (hv : v ≠ 0xC0) : ¬ code &&& 0xF0 = v := fun h =>
      hv (h.symm.trans (and_of_and (by decide) h4))
    rw [onMatch_pos h4, onMatch_neg (hne (by decide)), onMatch_neg (hne (by decide)),
      switch_others_of_masked (.inr (.inr (.inr (.inl h4)))), if_pos h4]
    rfl
  rw [onMatch_neg h4, if_neg h4]
  by_cases h5 : code &&& 0xF0 = 0xD0
  · have hne : ¬ code &&& 0xF0 = 0xE0 := by
      rw [h5]
      decide
    rw [onMatch_pos h5, onMatch_neg hne, switch_others_of_masked (.inr (.inr (.inr (.inr (.inl h5))))),
      if_pos h5]
    rfl
  rw [onMatch_neg h5, if_neg h5]
  by_cases h6 : code &&& 0xF0 = 0xE0
  · rw [onMatch_pos h6, switch_others_of_masked (.inr (.inr (.inr (.inr (.inr h6))))), if_pos h6]
    rfl
  rw [onMatch_neg h6, if_neg h6]
  rfl

/-- The immediate strobes. -/
theorem body_immediate (inp : Input) {code : TMem} (h : code &&& 0xF0 = 0xE0) :
    body inp code = switch immediateStrobes (code &&& 0x0F) := by
  have hmask {k v : TMem} (hk : (0xF0 : TMem) &&& k = k) (hv : 0xE0 &&& k ≠ v) : code &&& k ≠ v := by
    rwa [and_of_and hk h]
  have hmaxy : code &&& 0xF8 ≠ 0xC8 := fun h8 => hmask (k := 0xF0) (by decide) (by decide) (and_of_and (by decide) h8)
  unfold body
  rw [if_neg (hmask (by decide) (by decide)), if_neg (hmask (by decide) (by decide)),
    if_neg (hmask (by decide) (by decide)), if_neg hmaxy, if_neg (hmask (by decide) (by decide)), if_pos h]

/-! ## Conditions -/

/-- The value of `condition`, with `sfd` for the second one. -/
def conditionWith (sfd : Bool) (inp : Input) (C : TMem) (st : CspSt) : Bool :=
  if C = 0 then st.hw.CCA = 1
  else if C = 1 then sfd
  else if C = 2 then st.hw.CPU_ctrl
  else if C = 4 then st.mem (.cell .xram Reg.CSPX) = 0
  else if C = 5 then st.mem (.cell .xram Reg.CSPY) = 0
  else if C = 6 then st.mem (.cell .xram Reg.CSPZ) = 0
  else if C = 7 then st.hw.RSSI_valid
  else inp.undef

/-- Does the condition of the code hold? -/
def holds (sfd : Bool) (inp : Input) (code : TMem) (st : CspSt) : Bool :=
  if code &&& 8 ≠ 0 then !conditionWith sfd inp (code &&& 7) st else conditionWith sfd inp (code &&& 7) st

theorem condition_eq (inp : Input) (C : TMem) (st : CspSt) :
    condition inp C st = .ok (conditionWith false inp C st) := by
  unfold condition conditionWith
  split_ifs <;> rfl

theorem cond_eq (inp : Input) (code : TMem) (st : CspSt) : cond inp code st = .ok (holds false inp code st) := by
  unfold cond holds
  rw [condition_eq]
  rfl

/-- Only the second condition depends on it. -/
theorem holds_of_ne {inp : Input} {code : TMem} (h : code &&& 7 ≠ 1) (sfd : Bool) (st : CspSt) :
    holds sfd inp code st = holds false inp code st := by
  unfold holds conditionWith
  rw [if_neg h, if_neg h]

theorem holds_true {inp : Input} {code : TMem} (h : code &&& 7 = 1) (st : CspSt) :
    holds false inp code st = !holds true inp code st := by
  unfold holds conditionWith
  rw [h]
  split <;> rfl

/-! ## What an instruction does to the program counter -/

/-- The instruction ends with this program counter, and leaves the label alone. -/
def EndsAt (f : Step) (pc : CspSt → Int) : Prop :=
  ∀ st, ∃ st', f st = .ok st' ∧ st'.hw.PC = pc st ∧ st'.hw.label = st.hw.label

/-- The instruction goes on to the next one. -/
abbrev Advances (f : Step) : Prop := EndsAt f fun st => st.hw.PC + 1

/-- The instruction stays. -/
abbrev Stays (f : Step) : Prop := EndsAt f fun st => st.hw.PC

/-- The instruction uses a cell that has not been assigned. -/
def Fails (f : Step) : Prop := ∀ st, ∃ c, f st = .error (.unassigned c) ∧ c.pointer = none

/-- A flag of `RFIRQF1` and the flags of `S1CON` are set. -/
def raise (flag : TMem) (st : CspSt) : CspSt :=
  let st := store (.cell .xram Reg.RFIRQF1) (st.mem (.cell .xram Reg.RFIRQF1) ||| (flag &&& 0xff)) st
  store (.cell .xram Reg.S1CON) (st.mem (.cell .xram Reg.S1CON) ||| (bmRFIF &&& 0xff)) st

theorem request_eq (bits flag : TMem) (st : CspSt) : request bits flag st =
    if st.mem (.cell .xram Reg.RFIRQM1) &&& bits ≠ 0 then .ok (raise flag st) else .ok st := rfl

/-- Interrupt requests leave the data of the CSP alone. -/
theorem request_run (bits flag : TMem) (st : CspSt) :
    ∃ st', request bits flag st = .ok st' ∧ st'.hw = st.hw := by
  rw [request_eq]
  split
  · exact ⟨_, rfl, rfl⟩
  · exact ⟨_, rfl, rfl⟩

theorem stop_run (st : CspSt) :
    ∃ st', IRQ_CSP_STOP st = .ok st' ∧ st'.hw = { st.hw with csp_stop := true } := by
  obtain ⟨st₁, h₁, hhw⟩ := request_run 0x10 CSP_STOP (update (fun p => { p with csp_stop := true }) st)
  unfold IRQ_CSP_STOP
  rw [h₁]
  exact ⟨_, rfl, hhw⟩

theorem strobeError_run (st : CspSt) : ∃ st', strobeError st = .ok st' ∧ st'.hw = st.hw := by
  unfold strobeError
  split
  · exact request_run _ _ st
  · exact ⟨st, rfl, rfl⟩

theorem advances_int : Advances inst_int := by
  intro st
  obtain ⟨st₁, h₁, hhw⟩ := request_run 0x08 CSP_MANINT st
  unfold inst_int IRQ_CSP_INT
  rw [h₁]
  refine ⟨_, rfl, ?_, ?_⟩
  · exact congrArg (fun p => p.PC + 1) hhw
  · exact (congrArg Csp.label hhw :)

theorem advances_snack : Advances inst_snack := by
  intro st
  obtain ⟨st₁, h₁, hhw⟩ := strobeError_run st
  unfold inst_snack
  rw [h₁]
  refine ⟨_, rfl, ?_, ?_⟩
  · exact congrArg (fun p => p.PC + 1) hhw
  · exact (congrArg Csp.label hhw :)

theorem stays_stop : Stays inst_stop := by
  intro st
  obtain ⟨st₁, h₁, hhw⟩ := stop_run st
  exact ⟨st₁, h₁, (congrArg Csp.PC hhw :), (congrArg Csp.label hhw :)⟩

theorem advances_dec_x : Advances inst_dec_x := fun _ => ⟨_, rfl, rfl, rfl⟩

theorem stays_dec_y : Stays inst_dec_y := fun _ => ⟨_, rfl, rfl, rfl⟩

theorem advances_inc_maxy (code : TMem) : Advances (inst_inc_maxy code) := fun _ => ⟨_, rfl, rfl, rfl⟩

theorem advances_rand_xy (inp : Input) : Advances (inst_rand_xy inp) := fun _ => ⟨_, rfl, rfl, rfl⟩

theorem advances_snop : Advances inst_snop := fun _ => ⟨_, rfl, rfl, rfl⟩

theorem fails_set_cmp1 : Fails inst_set_cmp1 := fun _ => ⟨_, rfl, rfl⟩

theorem fails_stxon : Fails inst_stxon := fun _ => ⟨_, rfl, rfl⟩

theorem fails_srx_mask_bit_set : Fails inst_srx_mask_bit_set := fun _ => ⟨_, rfl, rfl⟩

theorem askRadio_hw (pendingBit : Bool) (st : CspSt) :
    (askRadio pendingBit st).hw.PC = st.hw.PC ∧ (askRadio pendingBit st).hw.label = st.hw.label ∧
      (askRadio pendingBit st).hw.radioAnswer = st.hw.radioAnswer := by
  unfold askRadio
  split
  · exact ⟨rfl, rfl, rfl⟩
  · exact ⟨rfl, rfl, rfl⟩

/-- An acknowledgment ends when the radio answers. -/
theorem endsAt_sendAck (pendingBit : Bool) :
    EndsAt (sendAck pendingBit) fun st => if st.hw.radioAnswer then st.hw.PC + 1 else st.hw.PC := by
  intro st
  obtain ⟨st₁, h₁, hhw⟩ := strobeError_run st
  obtain ⟨hPC, hlabel, hanswer⟩ := askRadio_hw pendingBit st₁
  unfold sendAck
  rw [h₁]
  refine ⟨takeAnswer (askRadio pendingBit st₁), rfl, ?_, ?_⟩
  · dsimp only
    unfold takeAnswer
    rw [← hhw, ← hanswer, ← hPC]
    split
    · rfl
    · rfl
  · unfold takeAnswer
    rw [← hhw, ← hlabel]
    split
    · rfl
    · rfl

/-! ## Waits, starts and stops -/

/-- The overflows that `WAITW` still has to wait for. -/
def countW (code : TMem) (p : Csp) : Int := if p.waitWend then (code &&& 0x1F).toNat else p.OVFcountdown

/-- Does `WAITW` have to wait? -/
def waitsW (code : TMem) (p : Csp) : Bool := decide (countW code p ≠ 0)

/-- The data while `WAITW` waits. -/
def holdW (code : TMem) : CspSt → CspSt := update fun p => { p with
  WaitingForWOvfs := true, OVFcountdown := countW code p, waitWend := false }

theorem inst_waitw_eq (code : TMem) (st : CspSt) : inst_waitw code st =
    if waitsW code st.hw then .ok (holdW code st)
    else IRQ_CSP_WT (holdW code st) >>= fun st =>
      .ok (update (fun p => { p with WaitingForWOvfs := false, waitWend := true }) (incPC st)) := by
  by_cases hcount : countW code st.hw ≠ 0
  · exact (if_pos hcount).trans (if_pos (decide_eq_true hcount)).symm
  · exact (if_neg hcount).trans (if_neg (by simpa [waitsW] using hcount)).symm

theorem endsAt_waitw (code : TMem) :
    EndsAt (inst_waitw code) fun st => if waitsW code st.hw then st.hw.PC else st.hw.PC + 1 := by
  intro st
  rw [inst_waitw_eq]
  dsimp only
  by_cases hwait : waitsW code st.hw = true
  · rw [if_pos hwait, if_pos hwait]
    exact ⟨_, rfl, rfl, rfl⟩
  · rw [if_neg hwait, if_neg hwait]
    obtain ⟨st₁, h₁, hhw⟩ := request_run 0x20 CSP_WAIT (holdW code st)
    refine ⟨_, bind_eq_ok.mpr ⟨st₁, h₁, rfl⟩, ?_, (congrArg Csp.label hhw :)⟩
    exact (congrArg (fun p => p.PC + 1) hhw :)

theorem endsAt_waitx :
    EndsAt inst_waitx fun st =>
      if st.mem (.cell .xram Reg.CSPX) ≠ 0 then st.hw.PC else st.hw.PC + 1 := by
  intro st
  have hX : get .cell_cspx (update (fun p => { p with WaitingForOvfs := true }) st)
      = .ok (st.mem (.cell .xram Reg.CSPX)) := rfl
  by_cases hwait : st.mem (.cell .xram Reg.CSPX) ≠ 0
  · refine ⟨_, if_pos hwait, ?_, rfl⟩
    dsimp only
    rw [if_pos hwait]
    rfl
  · obtain ⟨st₁, h₁, hhw₁⟩ := request_run 0x20 CSP_WAIT (update (fun p => { p with WaitingForOvfs := true }) st)
    obtain ⟨st₂, h₂, hhw₂⟩ := request_run 0x20 CSP_WAIT (incPC st₁)
    have hrun : inst_waitx st = .ok (update (fun p => { p with WaitingForOvfs := false }) st₂) := by
      refine (if_neg hwait).trans ?_
      have hirq₁ : IRQ_CSP_WT _ = .ok st₁ := h₁
      have hirq₂ : IRQ_CSP_WT _ = .ok st₂ := h₂
      rw [hirq₁]
      change (IRQ_CSP_WT (incPC st₁) >>= _) = _
      rw [hirq₂]
      rfl
    refine ⟨_, hrun, ?_, ?_⟩
    · dsimp only
      rw [if_neg hwait]
      have hPC₂ : st₂.hw.PC = st₁.hw.PC + 1 := (congrArg Csp.PC hhw₂ :)
      have hPC₁ : st₁.hw.PC = st.hw.PC := (congrArg Csp.PC hhw₁ :)
      exact hPC₂.trans (by rw [hPC₁])
    · have hlabel₂ : st₂.hw.label = st₁.hw.label := (congrArg Csp.label hhw₂ :)
      exact hlabel₂.trans (congrArg Csp.label hhw₁ :)

theorem endsAt_wait_event1 :
    EndsAt inst_wait_event1 fun st => if st.hw.event1 = false then st.hw.PC else st.hw.PC + 1 := by
  intro st
  by_cases hwait : st.hw.event1 = false
  · refine ⟨_, if_pos hwait, ?_, rfl⟩
    dsimp only
    rw [if_pos hwait]
    rfl
  · obtain ⟨st₁, h₁, hhw⟩ :=
      request_run 0x20 CSP_WAIT (update (fun p => { p with WaitingForEvent1 := true }) st)
    refine ⟨_, (if_neg hwait).trans (bind_eq_ok.mpr ⟨st₁, h₁, rfl⟩), ?_, (congrArg Csp.label hhw :)⟩
    dsimp only
    rw [if_neg hwait]
    exact (congrArg (fun p => p.PC + 1) hhw :)

theorem endsAt_wait_event2 :
    EndsAt inst_wait_event2 fun st => if st.hw.event2 = false then st.hw.PC else st.hw.PC + 1 := by
  intro st
  by_cases hwait : st.hw.event2 = false
  · refine ⟨_, if_pos hwait, ?_, rfl⟩
    dsimp only
    rw [if_pos hwait]
    rfl
  · obtain ⟨st₁, h₁, hhw⟩ :=
      request_run 0x20 CSP_WAIT (update (fun p => { p with WaitingForEvent2 := true }) st)
    refine ⟨_, (if_neg hwait).trans (bind_eq_ok.mpr ⟨st₁, h₁, rfl⟩), ?_, (congrArg Csp.label hhw :)⟩
    dsimp only
    rw [if_neg hwait]
    exact (congrArg (fun p => p.PC + 1) hhw :)

theorem endsAt_isstart : EndsAt inst_isstart fun _ => 0 := fun _ => ⟨_, rfl, rfl, rfl⟩

@[simp] theorem fillSnop_hw (base : Int) (st : CspSt) : (fillSnop base st).hw = st.hw := by
  have hfold (is : List Nat) (st : CspSt) :
      (is.foldl (fun st (i : Nat) => store (.cell .xram (base + i)) 0xD0 st) st).hw = st.hw := by
    induction is generalizing st with
    | nil => rfl
    | cons i is ih => exact ih _
  exact hfold _ st

theorem endsAt_isclear : EndsAt inst_isclear fun _ => 0 := by
  intro st
  refine ⟨_, rfl, rfl, ?_⟩
  exact (congrArg Csp.label (fillSnop_hw 0x6080 _) :)

/-- Where a jump leads to if its condition holds. -/
def jumpTo (code : TMem) (st : CspSt) : Int :=
  if code &&& 0x80 = 0 then st.hw.PC + ((code &&& 0x70) >>> 4).toNat + 1 else st.hw.label

theorem jumpTo_skip {code : TMem} (h : code &&& 0x80 = 0) (st : CspSt) :
    jumpTo code st = st.hw.PC + ((code &&& 0x70) >>> 4).toNat + 1 := if_pos h

theorem jumpTo_repeat {code : TMem} (h : code &&& 0x80 ≠ 0) (st : CspSt) : jumpTo code st = st.hw.label :=
  if_neg h

theorem endsAt_skipCS (inp : Input) {code : TMem} (h : code &&& 0x80 = 0) :
    EndsAt (inst_skipCS inp code) fun st =>
      if holds false inp code st then jumpTo code st else st.hw.PC + 1 := by
  intro st
  unfold inst_skipCS
  dsimp only
  rw [cond_eq, jumpTo_skip h]
  cases holds false inp code st with
  | false => exact ⟨_, rfl, rfl, rfl⟩
  | true => exact ⟨_, rfl, rfl, rfl⟩

theorem endsAt_repeatC (inp : Input) {code : TMem} (h : code &&& 0x80 ≠ 0) :
    EndsAt (inst_repeatC inp code) fun st =>
      if holds false inp code st then jumpTo code st else st.hw.PC + 1 := by
  intro st
  unfold inst_repeatC
  dsimp only
  rw [cond_eq, jumpTo_repeat h]
  cases holds false inp code st with
  | false => exact ⟨_, rfl, rfl, rfl⟩
  | true => exact ⟨_, rfl, rfl, rfl⟩

/-! ## All instructions -/

/-- What instructions that do not jump leave in the program counter and the label. -/
structure Near (st st' : CspSt) : Prop where
  PC : st'.hw.PC = st.hw.PC ∨ st'.hw.PC = st.hw.PC + 1 ∨ st'.hw.PC = 0
  label : st'.hw.label = st.hw.label ∨ st'.hw.label = st.hw.PC + 1

/-- The instruction does not jump. -/
def Steady (f : Step) : Prop := ∀ st st', f st = .ok st' → Near st st'

theorem EndsAt.steady {f : Step} {pc : CspSt → Int} (h : EndsAt f pc)
    (hpc : ∀ st, pc st = st.hw.PC ∨ pc st = st.hw.PC + 1 ∨ pc st = 0) : Steady f := by
  intro st st' hrun
  obtain ⟨st₁, h₁, hPC, hlabel⟩ := h st
  obtain rfl : st₁ = st' := Except.ok.inj (h₁.symm.trans hrun)
  exact ⟨hPC ▸ hpc st, .inl hlabel⟩

theorem Fails.steady {f : Step} (h : Fails f) : Steady f := by
  intro st st' hrun
  obtain ⟨c, hc, -⟩ := h st
  rw [hc] at hrun
  cases hrun

theorem steady_of_advances {f : Step} (h : Advances f) : Steady f := h.steady fun _ => .inr (.inl rfl)

theorem steady_of_stays {f : Step} (h : Stays f) : Steady f := h.steady fun _ => .inl rfl

theorem steady_of_ite {f : Step} {p : CspSt → Prop} [DecidablePred p]
    (h : EndsAt f fun st => if p st then st.hw.PC else st.hw.PC + 1) : Steady f := by
  refine h.steady fun st => ?_
  split
  · exact .inl rfl
  · exact .inr (.inl rfl)

theorem steady_sendAck (pendingBit : Bool) : Steady (sendAck pendingBit) := by
  refine (endsAt_sendAck pendingBit).steady fun st => ?_
  split
  · exact .inr (.inl rfl)
  · exact .inl rfl

theorem steady_label : Steady inst_label := by
  rintro st st' hrun
  cases hrun
  exact ⟨.inl rfl, .inr rfl⟩

theorem steady_strobes : ∀ p ∈ strobes, Steady p.2 := by
  have hplain {f : Step} (h : Advances f) : Steady f := steady_of_advances h
  simp only [strobes, List.forall_mem_cons, List.not_mem_nil, false_imp_iff, implies_true, and_true]
  refine ⟨hplain advances_snop, steady_of_stays stays_stop, hplain fun _ => ⟨_, rfl, rfl, rfl⟩,
    fails_srx_mask_bit_set.steady, Fails.steady fun _ => ⟨_, rfl, rfl⟩, steady_sendAck _, steady_sendAck _,
    hplain advances_snack, fails_stxon.steady, hplain fun _ => ⟨_, rfl, rfl, rfl⟩,
    Fails.steady fun _ => ⟨_, rfl, rfl⟩, hplain fun _ => ⟨_, rfl, rfl, rfl⟩,
    hplain fun _ => ⟨_, rfl, rfl, rfl⟩, hplain fun _ => ⟨_, rfl, rfl, rfl⟩⟩

theorem steady_immediateStrobes : ∀ p ∈ immediateStrobes, Steady p.2 := by
  have hplain {f : Step} (h : Advances f) : Steady f := steady_of_advances h
  simp only [immediateStrobes, List.forall_mem_cons, List.not_mem_nil, false_imp_iff, implies_true, and_true]
  refine ⟨endsAt_isstart.steady fun _ => .inr (.inr rfl), steady_of_stays stays_stop,
    hplain fun _ => ⟨_, rfl, rfl, rfl⟩, Fails.steady fun _ => ⟨_, rfl, rfl⟩,
    Fails.steady fun _ => ⟨_, rfl, rfl⟩, steady_sendAck _, steady_sendAck _, hplain advances_snack,
    hplain fun _ => ⟨_, rfl, rfl, rfl⟩, hplain fun _ => ⟨_, rfl, rfl, rfl⟩,
    Fails.steady fun _ => ⟨_, rfl, rfl⟩, hplain fun _ => ⟨_, rfl, rfl, rfl⟩,
    hplain fun _ => ⟨_, rfl, rfl, rfl⟩, hplain fun _ => ⟨_, rfl, rfl, rfl⟩⟩

theorem steady_others (inp : Input) : ∀ p ∈ others inp, Steady p.2 := by
  have hplain {f : Step} (h : Advances f) : Steady f := steady_of_advances h
  simp only [others, List.forall_mem_cons, List.not_mem_nil, false_imp_iff, implies_true, and_true]
  refine ⟨steady_of_ite endsAt_wait_event1, steady_of_ite endsAt_wait_event2, hplain advances_int,
    steady_label, steady_of_ite endsAt_waitx, hplain (advances_rand_xy inp), fails_set_cmp1.steady,
    hplain fun _ => ⟨_, rfl, rfl, rfl⟩, hplain fun _ => ⟨_, rfl, rfl, rfl⟩,
    hplain fun _ => ⟨_, rfl, rfl, rfl⟩, hplain advances_dec_x, steady_of_stays stays_dec_y,
    hplain fun _ => ⟨_, rfl, rfl, rfl⟩, endsAt_isclear.steady fun _ => .inr (.inr rfl)⟩

end Csp

end Ucsim.S51
