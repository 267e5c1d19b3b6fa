import Ucsim.S51.CspRuns

/-!
# Which instruction comes next

Where the instructions of the strobe processor should lead, and for which codes and states they do.
-/

namespace Ucsim.S51

open Logic

namespace Csp

/-- The codes of the instructions that are followed by the next one. -/
def advancing : List TMem :=
  [0xBA, 0xBB, 0xBD, 0xBE, 0xC0, 0xC1, 0xC2, 0xC3, 0xC4, 0xC5, 0xC8, 0xC9, 0xCA, 0xCB, 0xCC, 0xCD, 0xCE,
    0xCF, 0xD0, 0xD3, 0xD4, 0xD5, 0xD8, 0xD9, 0xDA, 0xDB, 0xDD, 0xDE, 0xDF]

/-- Those of them that are not: `LABEL` and `DECY`, and the users of cells that are not assigned. -/
def notAdvancing : List TMem := [0xBB, 0xBE, 0xC4, 0xD4, 0xD5, 0xD9, 0xDB]

/-- The immediate strobes that control the radio. -/
def immediateCodes : List TMem :=
  [0xE3, 0xE4, 0xE5, 0xE6, 0xE7, 0xE8, 0xE9, 0xEA, 0xEB, 0xEC, 0xED, 0xEE, 0xEF]

/-- The instruction leads to `pc`, modulo 24. The label follows the last `LABEL`. -/
def Leads (inp : Input) (code : TMem) (st : CspSt) (pc : Int) : Prop :=
  ∃ st', exec_inst inp code st = .ok st' ∧ st'.hw.PC = pc % 24 ∧
    st'.hw.label = if code = 0xBB then st.hw.PC + 1 else st.hw.label

/-- Where a jump should lead. -/
def jumpTarget (inp : Input) (code : TMem) (st : CspSt) : Int :=
  if holds (st.hw.SFD = 1) inp code st then jumpTo code st else st.hw.PC + 1

/-- The instructions go where they should, and immediate strobes leave the running program alone. -/
structure FlowCorrect (inp : Input) (code : TMem) (st : CspSt) : Prop where
  advance : code ∈ advancing → Leads inp code st (st.hw.PC + 1)
  jump : Jumps code → Leads inp code st (jumpTarget inp code st)
  strobe : code ∈ immediateCodes → ∃ st', writeRfst inp code st = .ok st' ∧ st'.hw.PC = st.hw.PC

/-- When they do. -/
structure FlowCond (inp : Input) (code : TMem) (st : CspSt) : Prop where
  advance : code ∈ advancing → code ∉ notAdvancing ∧ 0 ≤ st.hw.PC + 1 ∧ st.hw.PC + 1 ≤ 24
  jump : Jumps code →
    if code &&& 7 = 1 ∧ st.hw.SFD = 1 then
      landing (if holds true inp code st then st.hw.PC + 1 else jumpTo code st) = jumpTarget inp code st % 24
    else 0 ≤ jumpTarget inp code st ∧ jumpTarget inp code st ≤ 24
  strobe : code ∈ immediateCodes →
    (code = 0xEC ∨ (code = 0xE6 ∨ code = 0xE7) ∧ st.hw.radioAnswer = false) ∧ st.hw.PC ≠ 24

variable {inp : Input} {code : TMem} {st : CspSt}

/-! ## The step of `exec_inst` -/

theorem landing_eq_emod (pc : Int) : landing pc = pc % 24 ↔ 0 ≤ pc ∧ pc ≤ 24 := by
  unfold landing
  split <;> omega

theorem exec_inst_of_body {st₁ : CspSt} (h : body inp code st = .ok st₁) :
    exec_inst inp code st = .ok (wrapPC st₁) := by
  rw [exec_inst_eq, h]
  rfl

theorem leads_iff {pc : CspSt → Int} (h : EndsAt (body inp code) pc) (hcode : code ≠ 0xBB) (target : Int) :
    Leads inp code st target ↔ landing (pc st) = target % 24 := by
  obtain ⟨st₁, h₁, hPC, hlabel⟩ := h st
  have hexec := exec_inst_of_body h₁
  obtain ⟨hwrap, hwrapLabel⟩ := wrapPC_fields st₁
  constructor
  · rintro ⟨st', hrun, hst', -⟩
    obtain rfl : wrapPC st₁ = st' := Except.ok.inj (hexec.symm.trans hrun)
    rw [← hPC, ← hwrap, hst']
  · intro hpc
    refine ⟨_, hexec, ?_, ?_⟩
    · rw [hwrap, hPC, hpc]
    · rw [if_neg hcode, hwrapLabel, hlabel]

theorem not_leads_of_fails (h : Fails (body inp code)) (target : Int) : ¬ Leads inp code st target := by
  rintro ⟨st', hrun, -⟩
  obtain ⟨c, hc, -⟩ := h st
  rw [exec_inst_eq, hc] at hrun
  cases hrun

/-- An instruction that stays does not lead to the next one. -/
theorem not_leads_of_stays {st₁ : CspSt} (h : body inp code st = .ok st₁) (hPC : st₁.hw.PC = st.hw.PC) :
    ¬ Leads inp code st (st.hw.PC + 1) := by
  rintro ⟨st', hrun, hst', -⟩
  obtain rfl : wrapPC st₁ = st' := Except.ok.inj ((exec_inst_of_body h).symm.trans hrun)
  rw [(wrapPC_fields st₁).1, hPC] at hst'
  unfold landing at hst'
  split at hst' <;> omega

/-! ## The instructions that advance -/

/-- The codes that do advance. -/
def steadyCodes : List TMem :=
  [0xBA, 0xBD, 0xC0, 0xC1, 0xC2, 0xC3, 0xC5, 0xC8, 0xC9, 0xCA, 0xCB, 0xCC, 0xCD, 0xCE, 0xCF, 0xD0, 0xD3,
    0xD8, 0xDA, 0xDD, 0xDE, 0xDF]

theorem advances_body (inp : Input) : ∀ code ∈ steadyCodes, Advances (body inp code) ∧ code ∉ notAdvancing := by
  simp only [steadyCodes, List.forall_mem_cons, List.not_mem_nil, false_imp_iff, implies_true, and_true]
  refine ⟨⟨advances_int, ?_⟩, ⟨advances_rand_xy inp, ?_⟩, ⟨fun _ => ⟨_, rfl, rfl, rfl⟩, ?_⟩,
    ⟨fun _ => ⟨_, rfl, rfl, rfl⟩, ?_⟩, ⟨fun _ => ⟨_, rfl, rfl, rfl⟩, ?_⟩, ⟨advances_dec_x, ?_⟩,
    ⟨fun _ => ⟨_, rfl, rfl, rfl⟩, ?_⟩, ⟨advances_inc_maxy _, ?_⟩, ⟨advances_inc_maxy _, ?_⟩,
    ⟨advances_inc_maxy _, ?_⟩, ⟨advances_inc_maxy _, ?_⟩, ⟨advances_inc_maxy _, ?_⟩,
    ⟨advances_inc_maxy _, ?_⟩, ⟨advances_inc_maxy _, ?_⟩, ⟨advances_inc_maxy _, ?_⟩, ⟨advances_snop, ?_⟩,
    ⟨fun _ => ⟨_, rfl, rfl, rfl⟩, ?_⟩, ⟨advances_snack, ?_⟩, ⟨fun _ => ⟨_, rfl, rfl, rfl⟩, ?_⟩,
    ⟨fun _ => ⟨_, rfl, rfl, rfl⟩, ?_⟩, ⟨fun _ => ⟨_, rfl, rfl, rfl⟩, ?_⟩, ⟨fun _ => ⟨_, rfl, rfl, rfl⟩, ?_⟩⟩
  all_goals decide

theorem not_leads_next : ∀ code ∈ notAdvancing, ¬ Leads inp code st (st.hw.PC + 1) := by
  have hcmp1 : Fails (body inp 0xBE) := fails_set_cmp1
  have hset : Fails (body inp 0xD4) := fails_srx_mask_bit_set
  have hclr : Fails (body inp 0xD5) := fun _ => ⟨_, rfl, rfl⟩
  have hstxon : Fails (body inp 0xD9) := fails_stxon
  have hcca : Fails (body inp 0xDB) := fun _ => ⟨_, rfl, rfl⟩
  have hlabel : ¬ Leads inp 0xBB st (st.hw.PC + 1) :=
    @not_leads_of_stays _ _ _ (update (fun p => { p with label := p.PC + 1 }) st) rfl rfl
  obtain ⟨st₁, h₁, hPC, -⟩ := stays_dec_y st
  simp only [notAdvancing, List.forall_mem_cons, List.not_mem_nil, false_imp_iff, implies_true, and_true]
  exact ⟨hlabel,
    not_leads_of_fails hcmp1 _, not_leads_of_stays h₁ hPC, not_leads_of_fails hset _,
    not_leads_of_fails hclr _, not_leads_of_fails hstxon _, not_leads_of_fails hcca _⟩

theorem advancing_cases : ∀ code ∈ advancing, code ∈ steadyCodes ∨ code ∈ notAdvancing := by
  simp only [advancing, List.forall_mem_cons, List.not_mem_nil, false_imp_iff, implies_true, and_true]
  and_intros <;> decide

theorem advance_iff (h : code ∈ advancing) :
    Leads inp code st (st.hw.PC + 1) ↔ code ∉ notAdvancing ∧ 0 ≤ st.hw.PC + 1 ∧ st.hw.PC + 1 ≤ 24 := by
  obtain hsteady | hnot := advancing_cases code h
  · obtain ⟨hadv, hmem⟩ := advances_body inp code hsteady
    have hcode : code ≠ 0xBB := by
      rintro rfl
      exact hmem (by decide)
    rw [leads_iff hadv hcode, landing_eq_emod]
    exact (and_iff_right hmem).symm
  · exact iff_of_false (not_leads_next code hnot) fun hC => hC.1 hnot

/-! ## Jumps -/

/-- No jump has the code of `LABEL`. -/
theorem jumps_ne_label (h : Jumps code) : code ≠ 0xBB := by
  rintro rfl
  exact absurd h (by decide)

theorem jump_iff (h : Jumps code) : Leads inp code st (jumpTarget inp code st) ↔
    if code &&& 7 = 1 ∧ st.hw.SFD = 1 then
      landing (if holds true inp code st then st.hw.PC + 1 else jumpTo code st) = jumpTarget inp code st % 24
    else 0 ≤ jumpTarget inp code st ∧ jumpTarget inp code st ≤ 24 := by
  rw [leads_iff (endsAt_jump inp h) (jumps_ne_label h)]
  by_cases hsfd : code &&& 7 = 1 ∧ st.hw.SFD = 1
  · rw [if_pos hsfd, holds_true hsfd.1]
    cases holds true inp code st <;> rfl
  · have hholds : holds (decide (st.hw.SFD = 1)) inp code st = holds false inp code st := by
      by_cases hcode : code &&& 7 = 1
      · rw [decide_eq_false fun hone => hsfd ⟨hcode, hone⟩]
      · exact holds_of_ne hcode _ st
    have htarget : jumpTarget inp code st
        = if holds false inp code st then jumpTo code st else st.hw.PC + 1 := by
      unfold jumpTarget
      rw [hholds]
    rw [if_neg hsfd, htarget]
    exact landing_eq_emod _

/-! ## Immediate strobes -/

/-- A strobe is executed at once. -/
theorem writeRfst_immediate : ∀ code ∈ immediateCodes, writeRfst inp code st = exec_inst inp code st := by
  simp only [immediateCodes, List.forall_mem_cons, List.not_mem_nil, false_imp_iff, implies_true, and_true]
  refine ⟨rfl, rfl, rfl, rfl, rfl, rfl, rfl, rfl, rfl, rfl, rfl, rfl, rfl⟩

/-- The strobe ends with the counter where it was. -/
def KeepsPC (inp : Input) (code : TMem) (st : CspSt) : Prop :=
  ∃ st', exec_inst inp code st = .ok st' ∧ st'.hw.PC = st.hw.PC

theorem keepsPC_iff {pc : CspSt → Int} (h : EndsAt (body inp code) pc) :
    KeepsPC inp code st ↔ landing (pc st) = st.hw.PC := by
  obtain ⟨st₁, h₁, hPC, -⟩ := h st
  have hexec := exec_inst_of_body h₁
  have hwrap := (wrapPC_fields st₁).1
  constructor
  · rintro ⟨st', hrun, hst'⟩
    obtain rfl : wrapPC st₁ = st' := Except.ok.inj (hexec.symm.trans hrun)
    rw [← hPC, ← hwrap, hst']
  · intro hpc
    exact ⟨_, hexec, by rw [hwrap, hPC, hpc]⟩

theorem not_keepsPC_of_advances (h : Advances (body inp code)) : ¬ KeepsPC inp code st := by
  rw [keepsPC_iff h]
  unfold landing
  split <;> omega

theorem not_keepsPC_of_fails (h : Fails (body inp code)) : ¬ KeepsPC inp code st := by
  rintro ⟨st', hrun, -⟩
  obtain ⟨c, hc, -⟩ := h st
  rw [exec_inst_eq, hc] at hrun
  cases hrun

theorem keepsPC_sendAck {pendingBit : Bool} (h : body inp code = sendAck pendingBit) :
    KeepsPC inp code st ↔ st.hw.radioAnswer = false ∧ st.hw.PC ≠ 24 := by
  rw [keepsPC_iff (h ▸ endsAt_sendAck pendingBit)]
  unfold landing
  cases st.hw.radioAnswer with
  | false =>
    rw [if_neg Bool.false_ne_true]
    split <;> simp <;> omega
  | true =>
    rw [if_pos rfl]
    refine iff_of_false ?_ fun h => Bool.noConfusion h.1
    split <;> omega

theorem keepsPC_nothing (h : body inp code = fun st => .ok st) : KeepsPC inp code st ↔ st.hw.PC ≠ 24 := by
  have hends : Stays (body inp code) := by
    rw [h]
    exact fun st => ⟨st, rfl, rfl, rfl⟩
  rw [keepsPC_iff hends]
  unfold landing
  split <;> omega

/-- The strobes that leave the counter alone. -/
theorem strobe_iff (h : code ∈ immediateCodes) :
    (∃ st', writeRfst inp code st = .ok st' ∧ st'.hw.PC = st.hw.PC) ↔
      (code = 0xEC ∨ (code = 0xE6 ∨ code = 0xE7) ∧ st.hw.radioAnswer = false) ∧ st.hw.PC ≠ 24 := by
  rw [writeRfst_immediate code h]
  change KeepsPC inp code st ↔ _
  have hadv : ∀ c ∈ ([0xE3, 0xE8, 0xE9, 0xEA, 0xED, 0xEE, 0xEF] : List TMem), Advances (body inp c) := by
    simp only [List.forall_mem_cons, List.not_mem_nil, false_imp_iff, implies_true, and_true]
    exact ⟨fun _ => ⟨_, rfl, rfl, rfl⟩, advances_snack, fun _ => ⟨_, rfl, rfl, rfl⟩,
      fun _ => ⟨_, rfl, rfl, rfl⟩, fun _ => ⟨_, rfl, rfl, rfl⟩, fun _ => ⟨_, rfl, rfl, rfl⟩,
      fun _ => ⟨_, rfl, rfl, rfl⟩⟩
  have hfails : ∀ c ∈ ([0xE4, 0xE5, 0xEB] : List TMem), Fails (body inp c) := by
    simp only [List.forall_mem_cons, List.not_mem_nil, false_imp_iff, implies_true, and_true]
    exact ⟨fun _ => ⟨_, rfl, rfl⟩, fun _ => ⟨_, rfl, rfl⟩, fun _ => ⟨_, rfl, rfl⟩⟩
  have hsplit : code ∈ ([0xE3, 0xE8, 0xE9, 0xEA, 0xED, 0xEE, 0xEF] : List TMem) ∨
      code ∈ ([0xE4, 0xE5, 0xEB] : List TMem) ∨ code ∈ ([0xE6, 0xE7, 0xEC] : List TMem) := by
    revert code
    simp only [immediateCodes, List.forall_mem_cons, List.not_mem_nil, false_imp_iff, implies_true, and_true]
    and_intros <;> decide
  have hne : ∀ c ∈ ([0xE3, 0xE8, 0xE9, 0xEA, 0xED, 0xEE, 0xEF, 0xE4, 0xE5, 0xEB] : List TMem),
      c ∉ ([0xE6, 0xE7, 0xEC] : List TMem) := by
    simp only [List.forall_mem_cons, List.not_mem_nil, false_imp_iff, implies_true, and_true]
    and_intros <;> decide
  have hnot (hk : ¬ KeepsPC inp code st) (hmem : code ∉ ([0xE6, 0xE7, 0xEC] : List TMem)) :
      KeepsPC inp code st ↔
        (code = 0xEC ∨ (code = 0xE6 ∨ code = 0xE7) ∧ st.hw.radioAnswer = false) ∧ st.hw.PC ≠ 24 := by
    refine iff_of_false hk fun hC => hmem ?_
    obtain rfl | ⟨rfl | rfl, -⟩ := hC.1
    all_goals decide
  obtain hc | hc | hc := hsplit
  · exact hnot (not_keepsPC_of_advances (hadv code hc)) (hne code (List.mem_append_left [0xE4, 0xE5, 0xEB] hc))
  · exact hnot (not_keepsPC_of_fails (hfails code hc))
      (hne code (List.mem_append_right [0xE3, 0xE8, 0xE9, 0xEA, 0xED, 0xEE, 0xEF] hc))
  · simp only [List.mem_cons, List.not_mem_nil, or_false] at hc
    obtain rfl | rfl | rfl := hc
    · have hack : body inp 0xE6 = sendAck false := rfl
      rw [keepsPC_sendAck hack]
      simp
    · have hack : body inp 0xE7 = sendAck true := rfl
      rw [keepsPC_sendAck hack]
      simp
    · have hnone : body inp 0xEC = fun st => .ok st := rfl
      rw [keepsPC_nothing hnone]
      simp

/-- The instructions of a program and the immediate strobes do what they should exactly when the condition
holds. -/
theorem flowCorrect_iff (inp : Input) (code : TMem) (st : CspSt) :
    FlowCorrect inp code st ↔ FlowCond inp code st := by
  constructor
  · rintro ⟨hadv, hjump, hstrobe⟩
    exact ⟨fun h => (advance_iff h).mp (hadv h), fun h => (jump_iff h).mp (hjump h),
      fun h => (strobe_iff h).mp (hstrobe h)⟩
  · rintro ⟨hadv, hjump, hstrobe⟩
    exact ⟨fun h => (advance_iff h).mpr (hadv h), fun h => (jump_iff h).mpr (hjump h),
      fun h => (strobe_iff h).mpr (hstrobe h)⟩

/-- `DECY` hangs. -/
theorem decY_hangs : ¬ ∀ (inp : Input) (code : TMem) (st : CspSt), FlowCorrect inp code st := by
  intro h
  have hlead := (h { rand := 0, undef := false } 0xC4 { mem := fun _ => 0, hw := blank }).advance (by decide)
  exact absurd hlead (not_leads_next 0xC4 (by decide))

end Csp

end Ucsim.S51
