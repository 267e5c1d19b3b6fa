import Ucsim.S51.MacTicks

/-!
# Overflows of the MAC timer

The overflow count is one number in three bytes. The six events of the timer each set a flag in `T2IRQF`
and request the interrupt if their bit in `T2IRQM` is set.
-/

namespace Ucsim.S51

open Logic

namespace MacTimer

/-! ## The overflow count -/

/-- The number in three bytes. -/
def ovfNumber (o : Fin 3 → BitVec 8) : Nat := (o 2).toNat * 0x10000 + (o 1).toNat * 0x100 + (o 0).toNat

/-- The overflow count, and the overflow period and compare values. -/
def overflowCount (t : MacTimer) (b : Bank) : Nat := ovfNumber (t.OVF b)

/-- The count after an overflow, with the period `per`. -/
def advance (per n : Nat) : Nat := if (n + 1) % 2 ^ 24 = per then 0 else (n + 1) % 2 ^ 24

theorem toNat_succ (x : BitVec 8) : (x + 1).toNat = (x.toNat + 1) % 256 := BitVec.toNat_add x 1

theorem succ_eq_zero_iff (x : BitVec 8) : x + 1 = 0 ↔ x.toNat = 255 := by
  have := x.isLt
  rw [← BitVec.toNat_inj, toNat_succ]
  change (x.toNat + 1) % 256 = 0 ↔ _
  omega

/-- The bytes after `OVF0++`. -/
theorem incOVF_OVF (t : MacTimer) :
    t.incOVF.OVF .count 0 = t.OVF .count 0 + 1 ∧
      t.incOVF.OVF .count 1
        = (if t.OVF .count 0 + 1 = 0 then t.OVF .count 1 + 1 else t.OVF .count 1) ∧
      t.incOVF.OVF .count 2 = if t.OVF .count 0 + 1 = 0 ∧ t.OVF .count 1 + 1 = 0 then
        t.OVF .count 2 + 1 else t.OVF .count 2 := by
  have h10 : (1 : Fin 3) ≠ 0 := by decide
  have h20 : (2 : Fin 3) ≠ 0 := by decide
  have h21 : (2 : Fin 3) ≠ 1 := by decide
  unfold incOVF
  dsimp only
  rw [Function.update_self]
  generalize t.OVF .count = o
  rw [Function.update_self, Function.update_of_ne h10]
  by_cases hc0 : o 0 + 1 = 0
  · rw [if_pos hc0, if_pos hc0, Function.update_self]
    by_cases hc1 : o 1 + 1 = 0
    · rw [if_pos hc1, if_pos ⟨hc0, hc1⟩, Function.update_self, Function.update_of_ne h20.symm,
        Function.update_of_ne h10.symm, Function.update_self, Function.update_of_ne h21.symm,
        Function.update_self, Function.update_of_ne h21, Function.update_of_ne h20]
      exact ⟨rfl, rfl, rfl⟩
    · rw [if_neg hc1, if_neg fun h => hc1 h.2, Function.update_of_ne h10.symm, Function.update_self,
        Function.update_self, Function.update_of_ne h21, Function.update_of_ne h20]
      exact ⟨rfl, rfl, rfl⟩
  · rw [if_neg hc0, if_neg hc0, if_neg fun h => hc0 h.1, Function.update_self,
      Function.update_of_ne h10, Function.update_of_ne h20]
    exact ⟨rfl, rfl, rfl⟩

/-- The carries. -/
theorem overflowCount_incOVF (t : MacTimer) :
    t.incOVF.overflowCount .count = (t.overflowCount .count + 1) % 2 ^ 24 := by
  obtain ⟨hv0, hv1, hv2⟩ := incOVF_OVF t
  have h0 := (t.OVF .count 0).isLt
  have h1 := (t.OVF .count 1).isLt
  have h2 := (t.OVF .count 2).isLt
  rw [overflowCount, overflowCount, ovfNumber, ovfNumber, hv0, hv1, hv2]
  simp only [succ_eq_zero_iff, toNat_succ]
  by_cases hc0 : (t.OVF .count 0).toNat = 255
  · rw [if_pos hc0]
    by_cases hc1 : (t.OVF .count 1).toNat = 255
    · rw [if_pos ⟨hc0, hc1⟩, toNat_succ, toNat_succ]
      omega
    · rw [if_neg fun h => hc1 h.2, toNat_succ]
      omega
  · rw [if_neg hc0, if_neg fun h => hc0 h.1]
    omega

theorem ovfReaches_iff (t : MacTimer) (b : Bank) :
    t.ovfReaches b ↔ t.overflowCount .count = t.overflowCount b := by
  unfold ovfReaches overflowCount ovfNumber
  rw [decide_eq_true_iff, ← BitVec.toNat_inj, ← BitVec.toNat_inj, ← BitVec.toNat_inj]
  have h0 := (t.OVF .count 0).isLt
  have h1 := (t.OVF .count 1).isLt
  have h0' := (t.OVF b 0).isLt
  have h1' := (t.OVF b 1).isLt
  omega

/-! ## Requests of the interrupt -/

/-- The flags of the events. -/
def eventBits : List TMem := [0x01, 0x02, 0x04, 0x08, 0x10, 0x20]

/-- Is the interrupt requested? -/
def T2IF (mem : Site → TMem) : Prop := mem (.sfr Reg.IRCON) &&& Reg.bmT2IF ≠ 0

/-- What the calls `l` have done: only the flag of the period requests the interrupt. -/
structure Requested (l : List TickCall) (s s' : TickSt) : Prop where
  calls : s'.calls = s.calls ++ l
  T2IRQM : s'.mem (.sfr Reg.T2IRQM) = s.mem (.sfr Reg.T2IRQM)
  T2IF : T2IF s'.mem ↔ T2IF s.mem ∨ .flag 0x01 ∈ l ∧ s.mem (.sfr Reg.T2IRQM) &&& 0x01 ≠ 0

namespace Requested

variable {l l' : List TickCall} {s s' s'' : TickSt}

theorem trans (h : Requested l s s') (h' : Requested l' s' s'') : Requested (l ++ l') s s'' where
  calls := by
    rw [h'.calls, h.calls, List.append_assoc]
  T2IRQM := h'.T2IRQM.trans h.T2IRQM
  T2IF := by
    rw [h'.T2IF, h.T2IF, h.T2IRQM, List.mem_append, or_and_right, or_assoc]

theorem of_mem (hcalls : s'.calls = s.calls) (hIRQM : s'.mem (.sfr Reg.T2IRQM) = s.mem (.sfr Reg.T2IRQM))
    (hIRCON : s'.mem (.sfr Reg.IRCON) = s.mem (.sfr Reg.IRCON)) : Requested [] s s' where
  calls := hcalls.trans (List.append_nil _).symm
  T2IRQM := hIRQM
  T2IF := by
    rw [MacTimer.T2IF, MacTimer.T2IF, hIRCON]
    simp

theorem ite {p : Prop} [Decidable p] (h : Requested l s s') :
    Requested (if p then l else []) s (if p then s' else s) := by
  split
  · exact h
  · exact of_mem rfl rfl rfl

/-- What is left of a mask equals 1 only for the bit 0. -/
theorem mask_eq_one {bits : TMem} (h : bits ∈ eventBits) (m : TMem) :
    m &&& bits = 1 ↔ bits = 0x01 ∧ m &&& 0x01 ≠ 0 := by
  have hlow : bits = 0x01 ∨ bits.getLsbD 0 = false := by
    rw [eventBits, List.mem_cons] at h
    refine h.imp_right fun h => ?_
    simp only [List.mem_cons, List.not_mem_nil, or_false] at h
    obtain rfl | rfl | rfl | rfl | rfl := h <;> rfl
  obtain rfl | hbit := hlow
  · have hmod : (m &&& 1).toNat = m.toNat % 2 := by
      rw [BitVec.toNat_and]
      exact Nat.and_one_is_mod _
    rw [and_iff_right rfl, ne_eq, ← BitVec.toNat_inj, ← BitVec.toNat_inj, hmod]
    change m.toNat % 2 = 1 ↔ ¬ m.toNat % 2 = 0
    omega
  · refine iff_of_false (fun heq => ?_) fun hne => ?_
    · have hzero := congrArg (fun x : TMem => x.getLsbD 0) heq
      rw [BitVec.getLsbD_and, hbit, Bool.and_false] at hzero
      exact absurd hzero (by decide)
    · rw [hne.1] at hbit
      exact absurd hbit (by decide)

theorem setFlag {bits : TMem} (h : bits ∈ eventBits) (s : TickSt) :
    Requested [.flag bits] s (MacTimer.setFlag bits s) := by
  have hIRQM : Site.sfr Reg.T2IRQM ≠ .sfr Reg.T2IRQF := by decide
  have hIRCON : Site.sfr Reg.IRCON ≠ .sfr Reg.T2IRQF := by decide
  have hother : Site.sfr Reg.T2IRQM ≠ .sfr Reg.IRCON := by decide
  have hflag : TickCall.flag 0x01 ∈ [TickCall.flag bits] ↔ bits = 0x01 := by
    rw [List.mem_singleton, TickCall.flag.injEq, eq_comm]
  unfold MacTimer.setFlag
  dsimp only
  rw [Function.update_of_ne hIRQM]
  by_cases hreq : s.mem (.sfr Reg.T2IRQM) &&& bits = 1
  · rw [if_pos hreq]
    refine ⟨rfl, ?_, ?_⟩
    · dsimp only
      rw [Function.update_of_ne hother, Function.update_of_ne hIRQM]
    · refine iff_of_true ?_ (Or.inr ?_)
      · have hset (x : TMem) : (x ||| Reg.bmT2IF) &&& Reg.bmT2IF = Reg.bmT2IF := by
          ext i
          simpa using Or.inr
        unfold MacTimer.T2IF
        dsimp only
        rw [Function.update_self, hset]
        decide
      · rw [hflag]
        exact (mask_eq_one h _).mp hreq
  · rw [if_neg hreq]
    refine ⟨rfl, ?_, ?_⟩
    · dsimp only
      rw [Function.update_of_ne hIRQM]
    · rw [hflag, ← mask_eq_one h, or_iff_left hreq]
      unfold MacTimer.T2IF
      dsimp only
      rw [Function.update_of_ne hIRCON]

/-- A flag that is set under a condition. -/
theorem ite_flag {p : Prop} [Decidable p] {bits : TMem} (h : bits ∈ eventBits) (s : TickSt) :
    Requested (if p then [.flag bits] else []) s (if p then MacTimer.setFlag bits s else s) :=
  ite (setFlag h s)

end Requested

/-! ## What an overflow does -/

/-- The flags of an overflow. -/
def overflowFlags (t : MacTimer) : List TickCall :=
  let n := advance (t.overflowCount .per) (t.overflowCount .count)
  (if (t.overflowCount .count + 1) % 2 ^ 24 = t.overflowCount .per then [.flag 0x08] else []) ++
    ((if n = t.overflowCount .cmp1 then [.flag 0x10] else []) ++
      (if n = t.overflowCount .cmp2 then [.flag 0x20] else []))

/-- What the CSP does to the memory when it is informed of an overflow: an instruction `WAITX` counts
overflows in `CSPX`. -/
def cspOverflow (WaitingForOvfs : Bool) (mem : Site → TMem) : Site → TMem :=
  if WaitingForOvfs then
    Function.update mem (.cell .xram Reg.CSPX) (mem (.cell .xram Reg.CSPX) - 1 &&& 0xff)
  else mem

theorem cspOverflow_sfr (WaitingForOvfs : Bool) (mem : Site → TMem) (r : Int) :
    cspOverflow WaitingForOvfs mem (.sfr r) = mem (.sfr r) := by
  unfold cspOverflow
  split
  · exact Function.update_of_ne (by simp [Site.sfr]) _ _
  · rfl

/-- The banks of the overflow bytes after `overflow`. -/
structure Advanced (t t' : MacTimer) : Prop where
  count : t'.overflowCount .count = advance (t.overflowCount .per) (t.overflowCount .count)
  bank {b : Bank} : b ≠ .count → t'.OVF b = t.OVF b
  value : t'.value = t.value

theorem Advanced.ite_flag {t : MacTimer} {s : TickSt} (h : Advanced t s.hw) (p : Prop) [Decidable p]
    (bits : TMem) : Advanced t (if p then setFlag bits s else s).hw := by
  split
  · exact ⟨h.count, h.bank, h.value⟩
  · exact h

theorem incOVF_bank (t : MacTimer) {b : Bank} (hb : b ≠ .count) : t.incOVF.OVF b = t.OVF b :=
  Function.update_of_ne hb _ _

theorem resetOVF_bank (t : MacTimer) {b : Bank} (hb : b ≠ .count) : t.resetOVF.OVF b = t.OVF b :=
  Function.update_of_ne hb _ _

theorem overflowCount_resetOVF (t : MacTimer) : t.resetOVF.overflowCount .count = 0 := by
  unfold overflowCount resetOVF
  dsimp only
  rw [Function.update_self]
  rfl

theorem overflowCount_congr {t t' : MacTimer} {b : Bank} (h : t'.OVF b = t.OVF b) :
    t'.overflowCount b = t.overflowCount b := congrArg ovfNumber h

theorem Advanced.reaches_iff {t t' : MacTimer} (h : Advanced t t') {b : Bank} (hb : b ≠ .count) :
    t'.ovfReaches b ↔ advance (t.overflowCount .per) (t.overflowCount .count) = t.overflowCount b := by
  rw [ovfReaches_iff, h.count, overflowCount_congr (h.bank hb)]

/-- The end of `overflow`, with the count before the overflow. -/
theorem ovfCompare_advances {t : MacTimer} {s : TickSt} (hs : s.hw = t.incOVF) :
    Advanced t (ovfCompare s).hw ∧ Requested (overflowFlags t) s (ovfCompare s) := by
  have hcount : s.hw.overflowCount .count = (t.overflowCount .count + 1) % 2 ^ 24 := by
    rw [hs, overflowCount_incOVF]
  have hbank {b : Bank} (hb : b ≠ .count) : s.hw.OVF b = t.OVF b := by
    rw [hs, incOVF_bank t hb]
  have hvalue : s.hw.value = t.value := by
    rw [hs]
    rfl
  have hper : s.hw.ovfReaches .per ↔ (t.overflowCount .count + 1) % 2 ^ 24 = t.overflowCount .per := by
    rw [ovfReaches_iff, hcount, overflowCount_congr (hbank (by decide))]
  unfold ovfCompare
  generalize hs₁ : (if s.hw.ovfReaches .per then setFlag 0x08 { s with hw := s.hw.resetOVF } else s) = s₁
  have hreq₁ : Requested (if (t.overflowCount .count + 1) % 2 ^ 24 = t.overflowCount .per then
      [.flag 0x08] else []) s s₁ := by
    rw [← hs₁, ← if_congr hper rfl rfl]
    have hreset : Requested [] s { s with hw := s.hw.resetOVF } := Requested.of_mem rfl rfl rfl
    exact (hreset.trans (Requested.setFlag (by decide) _)).ite
  have hadv₁ : Advanced t s₁.hw := by
    rw [← hs₁]
    by_cases h : s.hw.ovfReaches .per = true
    · rw [if_pos h]
      refine ⟨?_, fun hb => (resetOVF_bank s.hw hb).trans (hbank hb), hvalue⟩
      rw [advance, if_pos (hper.mp h)]
      exact overflowCount_resetOVF s.hw
    · rw [if_neg h]
      refine ⟨?_, hbank, hvalue⟩
      rw [advance, if_neg (mt hper.mpr h), hcount]
  dsimp only
  generalize hs₂ : (if s₁.hw.ovfReaches .cmp1 then setFlag 0x10 s₁ else s₁) = s₂
  have hadv₂ : Advanced t s₂.hw := by
    rw [← hs₂]
    exact hadv₁.ite_flag _ 0x10
  have hreq₂ : Requested (if advance (t.overflowCount .per) (t.overflowCount .count)
      = t.overflowCount .cmp1 then [.flag 0x10] else []) s₁ s₂ := by
    rw [← hs₂, ← if_congr (hadv₁.reaches_iff (by decide)) rfl rfl]
    exact Requested.ite_flag (by decide) s₁
  have hreq₃ : Requested (if advance (t.overflowCount .per) (t.overflowCount .count)
      = t.overflowCount .cmp2 then [.flag 0x20] else []) s₂
      (if s₂.hw.ovfReaches .cmp2 then setFlag 0x20 s₂ else s₂) := by
    rw [← if_congr (hadv₂.reaches_iff (by decide)) rfl rfl]
    exact Requested.ite_flag (by decide) s₂
  exact ⟨hadv₂.ite_flag _ 0x20, hreq₁.trans (hreq₂.trans hreq₃)⟩

/-- An overflow advances the count, and its flags follow. -/
theorem overflow_advances (WaitingForOvfs : Bool) (s : TickSt) :
    Advanced s.hw (overflow (cspOverflow WaitingForOvfs) s).hw ∧
      Requested (.overflow :: overflowFlags s.hw) s (overflow (cspOverflow WaitingForOvfs) s) := by
  have hcspt (mem : Site → TMem) (r : Int) : (if mem (.cell .xram Reg.CSPT) ≠ 0xFF then
      Function.update mem (.cell .xram Reg.CSPT) (mem (.cell .xram Reg.CSPT) - 1 &&& 0xff)
      else mem) (.sfr r) = mem (.sfr r) := by
    split
    · exact Function.update_of_ne (by simp [Site.sfr]) _ _
    · rfl
  unfold overflow
  dsimp only
  generalize hmem : (if cspOverflow WaitingForOvfs s.mem (.cell .xram Reg.CSPT) ≠ 0xFF then
      Function.update (cspOverflow WaitingForOvfs s.mem) (.cell .xram Reg.CSPT)
        (cspOverflow WaitingForOvfs s.mem (.cell .xram Reg.CSPT) - 1 &&& 0xff)
      else cspOverflow WaitingForOvfs s.mem) = mem
  have hsfr (r : Int) : mem (.sfr r) = s.mem (.sfr r) := by
    rw [← hmem, hcspt, cspOverflow_sfr]
  obtain ⟨hadv, hreq⟩ := ovfCompare_advances (t := s.hw)
    (s := { mem := mem, hw := s.hw.incOVF, calls := s.calls ++ [.overflow] }) rfl
  have hcall : Requested [.overflow] s
      { mem := mem, hw := s.hw.incOVF, calls := s.calls ++ [.overflow] } := by
    refine ⟨rfl, hsfr _, ?_⟩
    unfold T2IF
    dsimp only
    rw [hsfr]
    simp
  exact ⟨hadv, hcall.trans hreq⟩

/-- The flags of `CountCompare`, with the calls of `overflow`. -/
def compareFlags (t : MacTimer) : List TickCall :=
  (if t.reaches .cmp1 then [.flag 0x02] else []) ++
    ((if t.reaches .cmp2 then [.flag 0x04] else []) ++
      if t.periodHit then .overflow :: (overflowFlags t ++ [.flag 0x01]) else [])

/-- The overflow count after a step that overflows or does not. -/
def countAfter (p : Prop) [Decidable p] (t : MacTimer) : Nat :=
  if p then advance (t.overflowCount .per) (t.overflowCount .count) else t.overflowCount .count

theorem overflowFlags_congr {t t' : MacTimer} (h : t'.OVF = t.OVF) : overflowFlags t' = overflowFlags t := by
  have hcount (b : Bank) : t'.overflowCount b = t.overflowCount b := overflowCount_congr (congrFun h b)
  unfold overflowFlags
  simp only [hcount]

theorem ite_setFlag_OVF (p : Bool) (bits : TMem) (s : TickSt) :
    (if p then setFlag bits s else s).hw.OVF = s.hw.OVF := by
  cases p <;> rfl

/-- The end of a period. -/
theorem period_requested (WaitingForOvfs : Bool) (p : Prop) [Decidable p] (s : TickSt) :
    (if p then
        setFlag 0x01 (overflow (cspOverflow WaitingForOvfs) { s with hw := s.hw.setValue .count 0 })
      else s).hw.overflowCount .count = countAfter p s.hw ∧
      Requested (if p then .overflow :: (overflowFlags s.hw ++ [.flag 0x01]) else []) s (if p then
        setFlag 0x01 (overflow (cspOverflow WaitingForOvfs) { s with hw := s.hw.setValue .count 0 })
      else s) := by
  obtain ⟨hadv, hover⟩ := overflow_advances WaitingForOvfs { s with hw := s.hw.setValue .count 0 }
  generalize overflow (cspOverflow WaitingForOvfs) { s with hw := s.hw.setValue .count 0 } = s' at hadv hover
  have hOVF : (s.hw.setValue .count 0).OVF = s.hw.OVF := rfl
  have hzero : Requested [] s { s with hw := s.hw.setValue .count 0 } := Requested.of_mem rfl rfl rfl
  have hcount := hadv.count
  rw [overflowCount_congr (congrFun hOVF .per), overflowCount_congr (congrFun hOVF .count)] at hcount
  rw [overflowFlags_congr hOVF] at hover
  have hset : (setFlag 0x01 s').hw.OVF = s'.hw.OVF := rfl
  constructor
  · rw [countAfter]
    split
    · rw [overflowCount_congr (congrFun hset .count), hcount]
    · rfl
  · have hflag : Requested [.flag 0x01] s' (setFlag 0x01 s') := Requested.setFlag (by decide) s'
    have hreq := hzero.trans (hover.trans hflag)
    rw [List.nil_append, List.cons_append] at hreq
    exact hreq.ite

/-- What `CountCompare` does to the overflow count and the interrupt. -/
theorem countCompare_requested (WaitingForOvfs : Bool) (s : TickSt) :
    ∃ l, (∀ bits, .flag bits ∉ l) ∧ .overflow ∉ l ∧
      Requested (compareFlags s.hw ++ l) s (countCompare (cspOverflow WaitingForOvfs) s) ∧
      (countCompare (cspOverflow WaitingForOvfs) s).hw.overflowCount .count
        = countAfter s.hw.periodHit s.hw := by
  rw [countCompare]
  generalize hs₀ : ({ s with hw := { s.hw with T2_EVENT1 := false, T2_EVENT2 := false } } : TickSt) = s₀
  have hvalue₀ : s₀.hw.value = s.hw.value := by rw [← hs₀]
  have hOVF₀ : s₀.hw.OVF = s.hw.OVF := by rw [← hs₀]
  have hreq₀ : Requested [] s s₀ := by
    rw [← hs₀]
    exact Requested.of_mem rfl rfl rfl
  generalize hs₁ : (if s₀.hw.reaches .cmp1 then setFlag 0x02 s₀ else s₀) = s₁
  have hvalue₁ : s₁.hw.value = s.hw.value := by rw [← hs₁, ite_setFlag_value, hvalue₀]
  have hOVF₁ : s₁.hw.OVF = s.hw.OVF := by rw [← hs₁, ite_setFlag_OVF, hOVF₀]
  have hreq₁ : Requested (if s.hw.reaches .cmp1 then [.flag 0x02] else []) s₀ s₁ := by
    rw [← hs₁, ← reaches_congr hvalue₀]
    exact Requested.ite_flag (by decide) s₀
  dsimp only
  generalize hs₂ : (if s₁.hw.reaches .cmp2 then setFlag 0x04 s₁ else s₁) = s₂
  have hvalue₂ : s₂.hw.value = s.hw.value := by rw [← hs₂, ite_setFlag_value, hvalue₁]
  have hOVF₂ : s₂.hw.OVF = s.hw.OVF := by rw [← hs₂, ite_setFlag_OVF, hOVF₁]
  have hreq₂ : Requested (if s.hw.reaches .cmp2 then [.flag 0x04] else []) s₁ s₂ := by
    rw [← hs₂, ← reaches_congr hvalue₁]
    exact Requested.ite_flag (by decide) s₁
  have hhit : (s₂.hw.reaches .per ∧ s₂.hw.value .per ≠ 0) ↔ s.hw.periodHit = true := by
    rw [reaches_congr hvalue₂, hvalue₂, periodHit, decide_eq_true_iff]
  generalize hs₃ : (if s₂.hw.reaches .per ∧ s₂.hw.value .per ≠ 0 then
    setFlag 0x01 (overflow (cspOverflow WaitingForOvfs) { s₂ with hw := s₂.hw.setValue .count 0 })
    else s₂) = s₃
  obtain ⟨hcount₃, hreq₃⟩ : s₃.hw.overflowCount .count = countAfter s.hw.periodHit s.hw ∧
      Requested (if s.hw.periodHit then .overflow :: (overflowFlags s.hw ++ [.flag 0x01]) else []) s₂ s₃ := by
    rw [← hs₃, if_congr hhit rfl rfl]
    obtain ⟨hcount, hreq⟩ := period_requested WaitingForOvfs s.hw.periodHit s₂
    rw [overflowFlags_congr hOVF₂] at hreq
    refine ⟨hcount.trans ?_, hreq⟩
    rw [countAfter, countAfter, overflowCount_congr (congrFun hOVF₂ .per),
      overflowCount_congr (congrFun hOVF₂ .count)]
  have hreq : Requested (compareFlags s.hw) s s₃ := by
    rw [compareFlags, ← List.nil_append ((if s.hw.reaches .cmp1 then [TickCall.flag 0x02] else []) ++ _)]
    exact hreq₀.trans (hreq₁.trans (hreq₂.trans hreq₃))
  have hkept {t : MacTimer} (h : t.OVF = s₃.hw.OVF) :
      t.overflowCount .count = countAfter s.hw.periodHit s.hw := by
    rw [← hcount₃, overflowCount_congr (congrFun h .count)]
  by_cases hevent : s₃.hw.event = true
  · rw [if_pos hevent]
    exact ⟨[], fun _ => List.not_mem_nil, List.not_mem_nil, hreq.trans (Requested.of_mem rfl rfl rfl),
      hkept rfl⟩
  · rw [if_neg hevent]
    have hclear : Requested [.clear] s₃
        { mem := Function.update s₃.mem (.sfr Reg.T2IRQF) 0
          hw := { s₃.hw with T2_EVENT1 := false, T2_EVENT2 := false }
          calls := s₃.calls ++ [.clear] } := by
      have hIRCON : Site.sfr Reg.IRCON ≠ .sfr Reg.T2IRQF := by decide
      have hIRQM : Site.sfr Reg.T2IRQM ≠ .sfr Reg.T2IRQF := by decide
      refine ⟨rfl, ?_, ?_⟩
      · dsimp only
        rw [Function.update_of_ne hIRQM]
      · unfold T2IF
        dsimp only
        rw [Function.update_of_ne hIRCON]
        simp
    exact ⟨[.clear], fun _ => by simp, by simp, hreq.trans hclear, hkept rfl⟩

/-! ## Passes of the loops -/

/-- The modes that count. -/
inductive Direction
  | up | delta
  deriving DecidableEq, Repr

/-- One pass of the loop of a mode. -/
def pass (WaitingForOvfs : Bool) : Direction → ElementSt MacTimer → TickSt
  | .up => upTick (cspOverflow WaitingForOvfs)
  | .delta => deltaTick (cspOverflow WaitingForOvfs)

/-- The timer when its count is compared. -/
def stepped (t : MacTimer) : Direction → MacTimer
  | .up => t.counted
  | .delta =>
    if t.count = 0 then { t with event := false, mode := 0 }
    else { t with event := false }.setValue .count (t.count - 1)

/-- Does the count of the up mode wrap around? -/
def Wraps (t : MacTimer) (d : Direction) : Prop := d = .up ∧ (t.stepped d).count = 0

instance (t : MacTimer) (d : Direction) : Decidable (t.Wraps d) := inferInstanceAs (Decidable (_ ∧ _))

/-- Is there an overflow in a pass? -/
def Overflows (t : MacTimer) (d : Direction) : Prop := t.Wraps d ∨ (t.stepped d).periodHit

instance (t : MacTimer) (d : Direction) : Decidable (t.Overflows d) :=
  inferInstanceAs (Decidable (_ ∨ _))

theorem stepped_OVF (t : MacTimer) (d : Direction) : (t.stepped d).OVF = t.OVF := by
  cases d with
  | up => rfl
  | delta =>
    unfold stepped
    dsimp only
    split <;> rfl

/-- The period is not zero, so that it is not reached by a count that wraps around. -/
theorem not_periodHit {t : MacTimer} (h : t.count = 0) : t.periodHit = false := by
  rw [periodHit, decide_eq_false_iff_not, reaches_iff, h]
  exact fun hper => hper.2 hper.1.1.symm

/-- The flags of a pass, with the calls of `overflow`. -/
def passFlags (t : MacTimer) (d : Direction) : List TickCall :=
  (if t.Wraps d then .overflow :: overflowFlags t else []) ++ compareFlags (t.stepped d)

/-- The comparisons look at the overflow count only at the end of a period. -/
theorem compareFlags_congr {t t' : MacTimer} (hvalue : t'.value = t.value)
    (h : t.periodHit = true → t'.OVF = t.OVF) : compareFlags t' = compareFlags t := by
  have hhit : t'.periodHit = t.periodHit := by
    rw [periodHit, periodHit, reaches_congr hvalue, hvalue]
  unfold compareFlags
  rw [reaches_congr hvalue, reaches_congr hvalue, hhit]
  by_cases hper : t.periodHit = true
  · rw [if_pos hper, if_pos hper, overflowFlags_congr (h hper)]
  · rw [if_neg hper, if_neg hper]

/-- A pass is a comparison, in the up mode perhaps after an overflow. -/
theorem pass_eq (WaitingForOvfs : Bool) (d : Direction) (st : ElementSt MacTimer) :
    ∃ s : TickSt, pass WaitingForOvfs d st = countCompare (cspOverflow WaitingForOvfs) s ∧
      s.hw.value = (st.hw.stepped d).value ∧
      s.hw.overflowCount .count = countAfter (st.hw.Wraps d) st.hw ∧
      (¬ st.hw.Wraps d → s.hw.OVF = st.hw.OVF) ∧
      Requested (if st.hw.Wraps d then .overflow :: overflowFlags st.hw else [])
        { mem := st.mem, hw := st.hw, calls := [] } s := by
  generalize hs : ({ mem := st.mem, hw := st.hw.stepped d, calls := [] } : TickSt) = s
  have hhw : s.hw = st.hw.stepped d := by rw [← hs]
  have hOVF : s.hw.OVF = st.hw.OVF := by rw [hhw, stepped_OVF]
  have hreq : Requested [] { mem := st.mem, hw := st.hw, calls := [] } s := by
    rw [← hs]
    exact Requested.of_mem rfl rfl rfl
  by_cases hwrap : st.hw.Wraps d
  · obtain ⟨rfl, hzero⟩ := hwrap
    have hwrap : st.hw.Wraps .up := ⟨rfl, hzero⟩
    obtain ⟨hadv, hover⟩ := overflow_advances WaitingForOvfs s
    rw [overflowFlags_congr hOVF] at hover
    refine ⟨overflow (cspOverflow WaitingForOvfs) s, ?_, ?_, ?_, ?_, ?_⟩
    · rw [← hs, pass, upTick]
      exact congrArg _ (if_pos hzero)
    · rw [hadv.value, hhw]
    · rw [hadv.count, countAfter, if_pos hwrap, overflowCount_congr (congrFun hOVF .per),
        overflowCount_congr (congrFun hOVF .count)]
    · exact fun h => absurd hwrap h
    · rw [if_pos hwrap]
      exact hreq.trans hover
  · refine ⟨s, ?_, ?_, ?_, fun _ => hOVF, ?_⟩
    · rw [← hs]
      cases d with
      | up =>
        rw [pass, upTick]
        exact congrArg _ (if_neg fun hzero => hwrap ⟨rfl, hzero⟩)
      | delta => rfl
    · rw [hhw]
    · rw [countAfter, if_neg hwrap, overflowCount_congr (congrFun hOVF .count)]
    · rw [if_neg hwrap]
      exact hreq

/-- What a pass does to the overflow count and the interrupt. -/
theorem pass_requested (WaitingForOvfs : Bool) (d : Direction) (st : ElementSt MacTimer) :
    (pass WaitingForOvfs d st).hw.overflowCount .count = countAfter (st.hw.Overflows d) st.hw ∧
      ∃ l, (∀ bits, .flag bits ∉ l) ∧ .overflow ∉ l ∧
        Requested (passFlags st.hw d ++ l) { mem := st.mem, hw := st.hw, calls := [] }
          (pass WaitingForOvfs d st) := by
  obtain ⟨s, hpass, hvalue, hcount, hOVF, hreq⟩ := pass_eq WaitingForOvfs d st
  obtain ⟨l, hflag, hover, hreq', hcount'⟩ := countCompare_requested WaitingForOvfs s
  have hhit : s.hw.periodHit = (st.hw.stepped d).periodHit := by
    rw [periodHit, periodHit, reaches_congr hvalue, hvalue]
  -- A count that has wrapped around does not reach the period.
  have hwrap : st.hw.Wraps d → (st.hw.stepped d).periodHit = false := fun h => not_periodHit h.2
  rw [← hpass] at hreq' hcount'
  constructor
  · rw [hcount', hhit, countAfter, countAfter]
    by_cases hp : (st.hw.stepped d).periodHit = true
    · have hnot : ¬ st.hw.Wraps d := fun h => by rw [hwrap h] at hp; cases hp
      have hov : st.hw.Overflows d := Or.inr hp
      rw [if_pos hp, if_pos hov, overflowCount_congr (congrFun (hOVF hnot) .per),
        overflowCount_congr (congrFun (hOVF hnot) .count)]
    · rw [if_neg hp, hcount, countAfter]
      exact if_congr (or_iff_left hp).symm rfl rfl
  · have hflags : compareFlags s.hw = compareFlags (st.hw.stepped d) := by
      refine compareFlags_congr hvalue fun hp => ?_
      rw [stepped_OVF]
      exact hOVF fun h => by rw [hwrap h] at hp; cases hp
    rw [hflags] at hreq'
    refine ⟨l, hflag, hover, ?_⟩
    rw [passFlags, List.append_assoc]
    exact hreq.trans hreq'

/-! ## The events -/

/-- The events. -/
inductive Event
  | per | cmp1 | cmp2 | ovfPer | ovfCmp1 | ovfCmp2
  deriving DecidableEq, Repr

/-- The bit of an event in `T2IRQF` and `T2IRQM`. -/
def Event.bit : Event → TMem
  | .per => 0x01
  | .cmp1 => 0x02
  | .cmp2 => 0x04
  | .ovfPer => 0x08
  | .ovfCmp1 => 0x10
  | .ovfCmp2 => 0x20

/-- Does an event happen in a pass? -/
def Happens (t : MacTimer) (d : Direction) : Event → Prop
  | .per => (t.stepped d).periodHit
  | .cmp1 => (t.stepped d).reaches .cmp1
  | .cmp2 => (t.stepped d).reaches .cmp2
  | .ovfPer => t.Overflows d ∧ (t.overflowCount .count + 1) % 2 ^ 24 = t.overflowCount .per
  | .ovfCmp1 =>
    t.Overflows d ∧ advance (t.overflowCount .per) (t.overflowCount .count) = t.overflowCount .cmp1
  | .ovfCmp2 =>
    t.Overflows d ∧ advance (t.overflowCount .per) (t.overflowCount .count) = t.overflowCount .cmp2

theorem mem_overflowFlags (t : MacTimer) (e : Event) : .flag e.bit ∈ overflowFlags t ↔
    match e with
    | .ovfPer => (t.overflowCount .count + 1) % 2 ^ 24 = t.overflowCount .per
    | .ovfCmp1 => advance (t.overflowCount .per) (t.overflowCount .count) = t.overflowCount .cmp1
    | .ovfCmp2 => advance (t.overflowCount .per) (t.overflowCount .count) = t.overflowCount .cmp2
    | _ => False := by
  unfold overflowFlags
  generalize advance (t.overflowCount .per) (t.overflowCount .count) = n
  cases e <;> simp [Event.bit]

theorem mem_compareFlags (t : MacTimer) (e : Event) : .flag e.bit ∈ compareFlags t ↔
    match e with
    | .per => t.periodHit = true
    | .cmp1 => t.reaches .cmp1 = true
    | .cmp2 => t.reaches .cmp2 = true
    | e => t.periodHit = true ∧ .flag e.bit ∈ overflowFlags t := by
  have hmem := mem_overflowFlags t e
  unfold compareFlags
  generalize overflowFlags t = l at hmem ⊢
  cases e <;> simp [Event.bit] at hmem ⊢ <;> simp [hmem]

theorem mem_passFlags (t : MacTimer) (d : Direction) (e : Event) :
    .flag e.bit ∈ passFlags t d ↔ t.Happens d e := by
  have hne : ∀ bits, (TickCall.flag bits = .overflow) = False := fun bits => eq_false (by simp)
  rw [passFlags, List.mem_append, List.mem_ite_nil_right, List.mem_cons, hne, false_or,
    mem_compareFlags, overflowFlags_congr (stepped_OVF t d)]
  simp only [mem_overflowFlags]
  cases e with
  | per => exact or_iff_right fun h => h.2
  | cmp1 => exact or_iff_right fun h => h.2
  | cmp2 => exact or_iff_right fun h => h.2
  | ovfPer => exact or_and_right.symm
  | ovfCmp1 => exact or_and_right.symm
  | ovfCmp2 => exact or_and_right.symm

theorem count_ite_flag (p : Prop) [Decidable p] (bits : TMem) :
    List.count .overflow (if p then [TickCall.flag bits] else []) = 0 := by
  split <;> rfl

theorem count_overflowFlags (t : MacTimer) : (overflowFlags t).count .overflow = 0 := by
  rw [overflowFlags, List.count_append, List.count_append, count_ite_flag, count_ite_flag, count_ite_flag]

/-- There is one overflow in a pass at most. -/
theorem count_passFlags (t : MacTimer) (d : Direction) :
    (passFlags t d).count .overflow = if t.Overflows d then 1 else 0 := by
  have hwraps : (if t.Wraps d then TickCall.overflow :: overflowFlags t else []).count .overflow
      = if t.Wraps d then 1 else 0 := by
    split
    · rw [List.count_cons_self, count_overflowFlags]
    · rfl
  have hhits : (if (t.stepped d).periodHit = true then
      TickCall.overflow :: (overflowFlags (t.stepped d) ++ [.flag 0x01]) else []).count .overflow
      = if (t.stepped d).periodHit = true then 1 else 0 := by
    split
    · rw [List.count_cons_self, List.count_append, count_overflowFlags]
      rfl
    · rfl
  rw [passFlags, compareFlags, List.count_append, List.count_append, List.count_append, hwraps, hhits,
    count_ite_flag, count_ite_flag, Nat.zero_add, Nat.zero_add]
  by_cases hwrap : t.Wraps d
  · have hov : t.Overflows d := Or.inl hwrap
    rw [if_pos hwrap, if_pos hov, not_periodHit hwrap.2]
    rfl
  · rw [if_neg hwrap, Nat.zero_add]
    exact if_congr (or_iff_right hwrap).symm rfl rfl

/-! ## Right passes -/

/-- The overflow count is advanced at each overflow of a pass. -/
def CountRight (WaitingForOvfs : Bool) (d : Direction) (st : ElementSt MacTimer) : Prop :=
  (pass WaitingForOvfs d st).hw.overflowCount .count
    = (advance (st.hw.overflowCount .per))^[(pass WaitingForOvfs d st).calls.count .overflow]
        (st.hw.overflowCount .count)

/-- Every event that a pass flags requests the interrupt if its bit in `T2IRQM` is set. -/
def RequestRight (WaitingForOvfs : Bool) (d : Direction) (st : ElementSt MacTimer) : Prop :=
  ∀ e : Event, .flag e.bit ∈ (pass WaitingForOvfs d st).calls →
    (pass WaitingForOvfs d st).mem (.sfr Reg.T2IRQM) &&& e.bit ≠ 0 → T2IF (pass WaitingForOvfs d st).mem

/-- The condition on a pass: `T2IF` is set before it, or the period requests the interrupt, or no other
event happens with its bit in `T2IRQM` set. -/
def RequestCond (d : Direction) (st : ElementSt MacTimer) : Prop :=
  T2IF st.mem ∨ (st.hw.Happens d .per ∧ st.mem (.sfr Reg.T2IRQM) &&& 0x01 ≠ 0) ∨
    ∀ e : Event, e ≠ .per → st.hw.Happens d e → st.mem (.sfr Reg.T2IRQM) &&& e.bit = 0

theorem countRight (WaitingForOvfs : Bool) (d : Direction) (st : ElementSt MacTimer) :
    CountRight WaitingForOvfs d st := by
  obtain ⟨hcount, l, -, hover, hreq⟩ := pass_requested WaitingForOvfs d st
  rw [CountRight, hcount, hreq.calls, List.nil_append, List.count_append, count_passFlags,
    List.count_eq_zero.mpr hover, Nat.add_zero, countAfter]
  by_cases hov : st.hw.Overflows d
  · rw [if_pos hov, if_pos hov, Function.iterate_one]
  · rw [if_neg hov, if_neg hov, Function.iterate_zero, id]

theorem requestRight_iff (WaitingForOvfs : Bool) (d : Direction) (st : ElementSt MacTimer) :
    RequestRight WaitingForOvfs d st ↔ RequestCond d st := by
  obtain ⟨-, l, hflag, -, hreq⟩ := pass_requested WaitingForOvfs d st
  have hmem (e : Event) : .flag e.bit ∈ (pass WaitingForOvfs d st).calls ↔ st.hw.Happens d e := by
    rw [hreq.calls, List.nil_append, List.mem_append, mem_passFlags, or_iff_left (hflag _)]
  have hper : .flag 0x01 ∈ passFlags st.hw d ++ l ↔ st.hw.Happens d .per := by
    rw [← mem_passFlags, List.mem_append]
    exact or_iff_left (hflag _)
  rw [RequestRight, RequestCond, ← or_assoc]
  simp only [hmem]
  rw [hreq.T2IRQM, hreq.T2IF, hper]
  by_cases hset : T2IF st.mem ∨ st.hw.Happens d .per ∧ st.mem (.sfr Reg.T2IRQM) &&& 0x01 ≠ 0
  · exact iff_of_true (fun _ _ _ => hset) (Or.inl hset)
  · rw [or_iff_right hset]
    constructor
    · intro hright e _ hhap
      by_contra hmask
      exact hset (hright e hhap hmask)
    · intro hcond e hhap hmask
      by_cases he : e = .per
      · subst he
        exact Or.inr ⟨hhap, hmask⟩
      · exact absurd (hcond e he hhap) hmask

/-! ## Runs -/

/-- What happens: a pass of a loop, with what the CSP waits for, a write of a register, or something that
the processor and the other elements do to the memory. -/
inductive Label
  | pass (d : Direction) (WaitingForOvfs : Bool)
  | write (c : Site) (v : TMem)
  | mem (mem : Site → TMem)

/-- What is left after a step. -/
def step (st : ElementSt MacTimer) : Label → ElementSt MacTimer
  | .pass d WaitingForOvfs => (MacTimer.pass WaitingForOvfs d st).st
  | .write c v => element.writeReg c v st
  | .mem mem => { st with mem := mem }

/-- In every run every pass advances the overflow count at each overflow, and every event it flags
requests the interrupt as its bit in `T2IRQM` says, when every pass meets the condition, and only then. -/
theorem overflowInterrupts_iff (st : ElementSt MacTimer) (ls : List Label) :
    (∀ l d WaitingForOvfs, l ++ [Label.pass d WaitingForOvfs] <+: ls →
        CountRight WaitingForOvfs d (l.foldl step st) ∧ RequestRight WaitingForOvfs d (l.foldl step st)) ↔
      ∀ l d WaitingForOvfs, l ++ [Label.pass d WaitingForOvfs] <+: ls → RequestCond d (l.foldl step st) := by
  refine forall₃_congr fun l d WaitingForOvfs => forall_congr' fun _ => ?_
  rw [requestRight_iff]
  exact and_iff_right (countRight WaitingForOvfs d _)

/-- The count reaches the first compare register, and its event does not request the interrupt. -/
theorem compare_without_request :
    ¬ ∀ (WaitingForOvfs : Bool) (d : Direction) (st : ElementSt MacTimer),
      CountRight WaitingForOvfs d st ∧ RequestRight WaitingForOvfs d st := by
  intro h
  have hne : Site.sfr Reg.IRCON ≠ .sfr Reg.T2IRQM := by decide
  generalize hmem : Function.update (fun _ => (0 : TMem)) (Site.sfr Reg.T2IRQM) 0x02 = mem
  have hIRQM : mem (.sfr Reg.T2IRQM) = 0x02 := by rw [← hmem, Function.update_self]
  have hIRCON : mem (.sfr Reg.IRCON) = 0 := by rw [← hmem, Function.update_of_ne hne]
  have hhap : (reset.setValue .cmp1 1).Happens .up .cmp1 := by
    unfold Happens
    decide
  obtain hset | hper | hnone := (requestRight_iff false .up
    { mem := mem, hw := reset.setValue .cmp1 1 }).mp (h _ _ _).2
  · rw [T2IF] at hset
    dsimp only at hset
    rw [hIRCON] at hset
    exact hset (by decide)
  · dsimp only at hper
    rw [hIRQM] at hper
    exact absurd hper.2 (by decide)
  · have hzero := hnone .cmp1 (by decide) hhap
    dsimp only at hzero
    rw [hIRQM] at hzero
    exact absurd hzero (by decide)

end MacTimer

end Ucsim.S51
