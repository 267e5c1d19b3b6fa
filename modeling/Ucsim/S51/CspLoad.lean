import Ucsim.S51.CspRuns

/-!
# Loading a program

A program is loaded by a write of `ISCLEAR` to `RFST` and writes of its codes. The write index runs around
the program; the byte 0xFF of `ISCLEAR` is stored itself, and the bytes that it clears are not those of
the program.
-/

namespace Ucsim.S51

open Logic

namespace Csp

/-! ## Bytes through `RFST` -/

/-- A byte of the program. -/
abbrev progCell (i : Int) : Site := .cell .xram (Reg.CSPPROG0 + i)

/-- The codes that are stored: all but the immediate strobes and `ISCLEAR`. -/
def Storable (v : TMem) : Prop := v &&& 0xff = v ∧ v &&& 0xF0 ≠ 0xE0 ∧ v ≠ 0xFF

instance : DecidablePred Storable := fun _ => inferInstanceAs (Decidable (_ ∧ _ ∧ _))

/-- Codes are written to `RFST` one after the other. -/
def writeCodes (inp : Input) (codes : List TMem) : Step :=
  fun st => codes.foldlM (fun st v => write inp (.sfr Reg.RFST) v st) st

/-- `ISCLEAR` and the codes of a program are written. -/
def load (inp : Input) (codes : List TMem) : Step := writeCodes inp (0xFF :: codes)

/-- The program is there, followed by `SNOP`, and the counter at its start. No other byte is changed. -/
structure Loaded (codes : List TMem) (st st' : CspSt) : Prop where
  program : ∀ i : Nat, i < 24 → st'.mem (progCell i) = codes.getD i 0xD0
  PC : st'.hw.PC = 0
  frame : ∀ a : Int, ¬ InRange 24 (a - Reg.CSPPROG0) → st'.mem (.cell .xram a) = st.mem (.cell .xram a)

/-- When it is: a program of 24 bytes which are all the same, with nothing to clear. -/
structure LoadCond (codes : List TMem) (st : CspSt) : Prop where
  length : codes.length = 24
  same : ∀ v ∈ codes, ∀ w ∈ codes, v = w
  cleared : ∀ i : Nat, i < 24 → st.mem (.cell .xram (0x6080 + i)) = 0xD0
  stopped : st.mem (.cell .xram Reg.CSPSTAT) &&& 0xDF = st.mem (.cell .xram Reg.CSPSTAT)

/-! ## The write index -/

/-- The next write index. -/
def nextWrite (p : Int) : Int := if p + 1 = 24 then 0 else p + 1

theorem nextWrite_eq {p : Int} (h : InRange 24 p) : nextWrite p = (p + 1) % 24 := by
  dsimp only [InRange] at h
  unfold nextWrite
  split <;> omega

theorem nextWrite_inRange {p : Int} (h : InRange 24 p) : InRange 24 (nextWrite p) := by
  rw [nextWrite_eq h]
  dsimp only [InRange]
  omega

/-- A byte stored at the write index. -/
def put (v : TMem) (st : CspSt) : CspSt :=
  update (fun p => { p with PCwrite := nextWrite p.PCwrite }) (store (progCell st.hw.PCwrite) v st)

theorem storeProgram_eq {st : CspSt} (h : InRange 24 st.hw.PCwrite) (v : TMem) :
    storeProgram v st = .ok (put v st) := if_pos h

/-- A code that is no strobe is stored. -/
theorem write_storable {v : TMem} {st : CspSt} (hv : Storable v) (h : InRange 24 st.hw.PCwrite)
    (inp : Input) : write inp (.sfr Reg.RFST) v st = .ok (put v st) := by
  have hne {w : TMem} (hw : w &&& 0xF0 = 0xE0) : v ≠ w := by
    rintro rfl
    exact hv.2.1 hw
  change writeRfst inp v st = _
  unfold writeRfst
  rw [onMatch_neg (hne (by decide)), onMatch_neg (hne (by decide)), onMatch_neg hv.2.2]
  change (if v &&& 0xF0 = 0xE0 then _ else storeProgram v st) = _
  rw [if_neg hv.2.1, storeProgram_eq h]

/-! ## A run of writes -/

/-- What writes from the index `p` on leave: the codes lie behind each other, around the end of the
program. -/
structure Written (p : Int) (codes : List TMem) (st st' : CspSt) : Prop where
  stored : ∀ j : Nat, j < codes.length → st'.mem (progCell ((p + j) % 24)) = codes.getD j 0xD0
  frame : ∀ s : Site, (∀ j : Nat, j < codes.length → s ≠ progCell ((p + j) % 24)) → st'.mem s = st.mem s
  PC : st'.hw.PC = st.hw.PC

theorem progCell_inj {i j : Int} (h : progCell i = progCell j) : i = j := by
  injection h with _ hij
  omega

theorem put_mem_self (v : TMem) (st : CspSt) : (put v st).mem (progCell st.hw.PCwrite) = v &&& 0xff :=
  Function.update_self _ _ _

theorem put_mem_of_ne {s : Site} (v : TMem) {st : CspSt} (h : s ≠ progCell st.hw.PCwrite) :
    (put v st).mem s = st.mem s := Function.update_of_ne h _ _

/-- No more codes than the program is long do not overwrite each other. -/
theorem writeCodes_run (inp : Input) {codes : List TMem} {st : CspSt} (hcodes : ∀ v ∈ codes, Storable v)
    (hlen : codes.length ≤ 24) (h : InRange 24 st.hw.PCwrite) :
    ∃ st', writeCodes inp codes st = .ok st' ∧ Written st.hw.PCwrite codes st st' := by
  induction codes generalizing st with
  | nil => exact ⟨st, rfl, by simp, fun _ _ => rfl, rfl⟩
  | cons v codes ih =>
    have hnext : (put v st).hw.PCwrite = nextWrite st.hw.PCwrite := rfl
    have hmod := nextWrite_eq h
    rw [List.length_cons] at hlen
    obtain ⟨st', hrun, hwritten⟩ := ih (fun w hw => hcodes w (List.mem_cons_of_mem v hw)) (by omega)
      (hnext ▸ nextWrite_inRange h)
    rw [hnext, hmod] at hwritten
    have hpos (j : Nat) : ((st.hw.PCwrite + 1) % 24 + j) % 24 = (st.hw.PCwrite + (j + 1 : Nat)) % 24 := by
      omega
    have hstart : st.hw.PCwrite % 24 = st.hw.PCwrite := by
      have hrange := h
      dsimp only [InRange] at hrange
      omega
    refine ⟨st', ?_, ?_, ?_, hwritten.PC⟩
    · change (write inp (.sfr Reg.RFST) v st >>= _) = _
      rw [write_storable (hcodes v List.mem_cons_self) h]
      exact hrun
    · intro j hj
      cases j with
      | zero =>
        -- The later codes do not come around to the first one.
        have hfar : ∀ j : Nat, j < codes.length →
            progCell st.hw.PCwrite ≠ progCell (((st.hw.PCwrite + 1) % 24 + j) % 24) := by
          intro j hj heq
          have hij := progCell_inj heq
          omega
        have hself : (put v st).mem (progCell st.hw.PCwrite) = v := by
          rw [put_mem_self, (hcodes v List.mem_cons_self).1]
        rw [Int.natCast_zero, Int.add_zero, hstart, hwritten.frame _ hfar, hself]
        rfl
      | succ j =>
        rw [← hpos, hwritten.stored j (by simpa using hj)]
        rfl
    · intro s hs
      have hfirst := hs 0 (by simp)
      rw [Int.natCast_zero, Int.add_zero, hstart] at hfirst
      rw [hwritten.frame s fun j hj => hpos j ▸ hs (j + 1) (by simpa using hj), put_mem_of_ne v hfirst]

/-! ## The clearing -/

theorem fillSnop_mem (base : Int) (st : CspSt) (s : Site) :
    (fillSnop base st).mem s = if ∃ i : Nat, i < 24 ∧ s = .cell .xram (base + i) then 0xD0 else st.mem s := by
  have hfold (n : Nat) : ((List.range n).foldl
      (fun st (i : Nat) => store (.cell .xram (base + i)) 0xD0 st) st).mem s
        = if ∃ i : Nat, i < n ∧ s = .cell .xram (base + i) then 0xD0 else st.mem s := by
    induction n with
    | zero => simp
    | succ n ih =>
      rw [List.range_succ, List.foldl_append]
      change Function.update _ (Site.cell .xram (base + (n : Int))) _ s = _
      rw [Function.update_apply, ih]
      by_cases hn : s = .cell .xram (base + (n : Int))
      · rw [if_pos hn, if_pos ⟨n, Nat.lt_succ_self n, hn⟩]
        rfl
      · have hiff : (∃ i : Nat, i < n + 1 ∧ s = .cell .xram (base + i)) ↔
            ∃ i : Nat, i < n ∧ s = .cell .xram (base + i) := by
          constructor
          · rintro ⟨i, hi, hs⟩
            refine ⟨i, ?_, hs⟩
            have hne : i ≠ n := by
              rintro rfl
              exact hn hs
            omega
          · rintro ⟨i, hi, hs⟩
            exact ⟨i, by omega, hs⟩
        rw [if_neg hn, if_congr hiff rfl rfl]
  exact hfold 24

/-- `CSPSTAT` without the running bit. -/
def stoppedStat (st : CspSt) : TMem := st.mem (.cell .xram Reg.CSPSTAT) &&& 0xDF

/-- The state that `ISCLEAR` leaves. -/
def isclear (st : CspSt) : CspSt :=
  update (fun p => { p with PC := 0, PCwrite := 0 }) (fillSnop 0x6080
    (store (.cell .xram Reg.CSPSTAT) (st.mem (.cell .xram Reg.CSPSTAT) &&& ~~~(bmCSPrunning &&& 0xff))
      (update (fun p => { p with csp_stop := true }) st)))

/-- Its own byte is stored, too. -/
theorem write_isclear (inp : Input) (st : CspSt) :
    write inp (.sfr Reg.RFST) 0xFF st = .ok (put 0xFF (isclear st)) := by
  change storeProgram 0xFF (isclear st) = _
  have hzero : InRange 24 0 := ⟨by omega, by omega⟩
  exact @storeProgram_eq (isclear st) hzero 0xFF

theorem isclear_mem (st : CspSt) (s : Site) : (isclear st).mem s =
    if ∃ i : Nat, i < 24 ∧ s = .cell .xram (0x6080 + i) then 0xD0
    else if s = .cell .xram Reg.CSPSTAT then stoppedStat st else st.mem s := by
  refine (fillSnop_mem _ _ s).trans ?_
  have hmask (v : TMem) : v &&& ~~~(bmCSPrunning &&& 0xff) &&& 0xff = v &&& 0xDF := by
    rw [BitVec.and_assoc]
    rfl
  congr 1
  change Function.update _ _ _ s = _
  rw [Function.update_apply, hmask]
  rfl

/-- A load stores 0xFF and the codes behind it. -/
theorem load_run (inp : Input) {codes : List TMem} (st : CspSt) (hcodes : ∀ v ∈ codes, Storable v)
    (hlen : codes.length ≤ 24) :
    ∃ st', load inp codes st = .ok st' ∧ Written 1 codes (put 0xFF (isclear st)) st' := by
  have hone : InRange 24 (nextWrite 0) := ⟨by decide, by decide⟩
  obtain ⟨st', hrun, hwritten⟩ := @writeCodes_run inp codes (put 0xFF (isclear st)) hcodes hlen hone
  refine ⟨st', ?_, hwritten⟩
  change (write inp (.sfr Reg.RFST) 0xFF st >>= _) = _
  rw [write_isclear]
  exact hrun

/-! ## What a load should do -/

variable {codes : List TMem} {st st' : CspSt}

/-- The bytes of `xram` outside the program are those that `ISCLEAR` leaves. -/
theorem written_outside (h : Written 1 codes (put 0xFF (isclear st)) st') {a : Int}
    (ha : ¬ InRange 24 (a - Reg.CSPPROG0)) : st'.mem (.cell .xram a) = (isclear st).mem (.cell .xram a) := by
  have hne (i : Int) (hi : InRange 24 i) : Site.cell .xram a ≠ progCell i := by
    intro heq
    injection heq with _ heq
    refine ha ?_
    rw [heq]
    dsimp only [InRange] at hi ⊢
    omega
  have hzero : Site.cell .xram a ≠ progCell (isclear st).hw.PCwrite := hne 0 ⟨by omega, by omega⟩
  rw [h.frame _ fun j _ => hne _ (by dsimp only [InRange]; omega), put_mem_of_ne _ hzero]

/-- A program that is not full starts with 0xFF. -/
theorem written_first (h : Written 1 codes (put 0xFF (isclear st)) st') (hlen : codes.length < 24) :
    st'.mem (progCell 0) = 0xFF := by
  have hself : (put 0xFF (isclear st)).mem (progCell 0) = 0xFF := put_mem_self 0xFF (isclear st)
  rw [h.frame _ fun j hj heq => ?_, hself]
  have hij := progCell_inj heq
  omega

/-- The codes lie one place too far. -/
theorem written_next (h : Written 1 codes (put 0xFF (isclear st)) st') (hlen : codes.length = 24) {j : Nat}
    (hj : j < 24) : st'.mem (progCell ((j + 1) % 24 : Nat)) = codes.getD j 0xD0 := by
  have hcast : (((j + 1) % 24 : Nat) : Int) = (1 + j) % 24 := by omega
  rw [hcast]
  exact h.stored j (hlen ▸ hj)

/-- Codes that are equal to their neighbours around the program are all equal. -/
theorem same_of_next (hlen : codes.length = 24)
    (h : ∀ j : Nat, j < 24 → codes.getD ((j + 1) % 24) 0xD0 = codes.getD j 0xD0) :
    ∀ v ∈ codes, ∀ w ∈ codes, v = w := by
  have hzero (j : Nat) (hj : j < 24) : codes.getD j 0xD0 = codes.getD 0 0xD0 := by
    induction j with
    | zero => rfl
    | succ j ih =>
      have hstep := h j (by omega)
      rw [Nat.mod_eq_of_lt hj] at hstep
      rw [hstep, ih (by omega)]
  have hmem (v : TMem) (hv : v ∈ codes) : v = codes.getD 0 0xD0 := by
    obtain ⟨j, hj, rfl⟩ := List.mem_iff_getElem.mp hv
    have hget : codes.getD j 0xD0 = codes[j] := by simp [hj]
    rw [← hzero j (by omega), hget]
  intro v hv w hw
  rw [hmem v hv, hmem w hw]

theorem getD_mem_codes (hlen : codes.length = 24) {j : Nat} (hj : j < 24) : codes.getD j 0xD0 ∈ codes := by
  have hlt : j < codes.length := hlen ▸ hj
  have hget : codes.getD j 0xD0 = codes[j] := by simp [hlt]
  rw [hget]
  exact List.getElem_mem hlt

theorem loadCond_of_loaded (hcodes : ∀ v ∈ codes, Storable v) (hlen : codes.length ≤ 24)
    (h : Written 1 codes (put 0xFF (isclear st)) st') (hl : Loaded codes st st') : LoadCond codes st := by
  have hfull : codes.length = 24 := by
    by_contra hne
    have hfirst := (written_first h (by omega)).symm.trans (hl.program 0 (by omega))
    cases codes with
    | nil => exact absurd hfirst (by decide)
    | cons v codes => exact (hcodes v List.mem_cons_self).2.2 hfirst.symm
  refine ⟨hfull, same_of_next hfull fun j hj => ?_, fun i hi => ?_, ?_⟩
  · rw [← written_next h hfull hj]
    exact (hl.program _ (Nat.mod_lt _ (by decide))).symm
  · have hout : ¬ InRange 24 (0x6080 + (i : Int) - Reg.CSPPROG0) := by
      dsimp only [InRange, Reg.CSPPROG0]
      omega
    rw [← hl.frame _ hout, written_outside h hout, isclear_mem, if_pos ⟨i, hi, rfl⟩]
  · have hout : ¬ InRange 24 (Reg.CSPSTAT - Reg.CSPPROG0) := by decide
    have hnot : ¬ ∃ i : Nat, i < 24 ∧ Site.cell .xram Reg.CSPSTAT = .cell .xram (0x6080 + i) := by
      rintro ⟨i, hi, heq⟩
      injection heq with _ heq
      unfold Reg.CSPSTAT at heq
      omega
    have hstat := (written_outside h hout).symm.trans (hl.frame _ hout)
    rwa [isclear_mem, if_neg hnot, if_pos rfl] at hstat

theorem loaded_of_loadCond (h : Written 1 codes (put 0xFF (isclear st)) st') (hC : LoadCond codes st) :
    Loaded codes st st' where
  program i hi := by
    obtain ⟨j, hj, rfl⟩ : ∃ j : Nat, j < 24 ∧ i = (j + 1) % 24 := ⟨(i + 23) % 24, by omega, by omega⟩
    rw [written_next h hC.length hj]
    exact hC.same _ (getD_mem_codes hC.length hj) _ (getD_mem_codes hC.length hi)
  PC := h.PC
  frame a ha := by
    rw [written_outside h ha, isclear_mem]
    split
    · next hfill =>
      obtain ⟨i, hi, heq⟩ := hfill
      rw [heq, hC.cleared i hi]
    · split
      · next hstat =>
        rw [hstat]
        exact hC.stopped
      · rfl

/-- A load does what it should exactly if its bytes are all the same and there is nothing to clear. -/
theorem load_iff (inp : Input) (codes : List TMem) (st : CspSt) (hlen : codes.length ≤ 24)
    (hcodes : ∀ v ∈ codes, Storable v) :
    (∃ st', load inp codes st = .ok st' ∧ Loaded codes st st') ↔ LoadCond codes st := by
  obtain ⟨st₁, h₁, hwritten⟩ := load_run inp st hcodes hlen
  constructor
  · rintro ⟨st', hrun, hl⟩
    obtain rfl : st₁ = st' := Except.ok.inj (h₁.symm.trans hrun)
    exact loadCond_of_loaded hcodes hlen hwritten hl
  · intro hC
    exact ⟨st₁, h₁, loaded_of_loadCond hwritten hC⟩

/-- 24 times `SNOP`, with nothing to clear. -/
theorem load_snops : ∃ st', load { rand := 0, undef := false } (List.replicate 24 0xD0)
    { mem := fun _ => 0xD0, hw := blank } = .ok st' ∧
      Loaded (List.replicate 24 0xD0) { mem := fun _ => 0xD0, hw := blank } st' := by
  refine (load_iff _ _ _ (List.length_replicate ..).le fun v hv => ?_).mpr ⟨List.length_replicate .., ?_, ?_, ?_⟩
  · rw [List.eq_of_mem_replicate hv]
    decide
  · intro v hv w hw
    rw [List.eq_of_mem_replicate hv, List.eq_of_mem_replicate hw]
  · exact fun _ _ => rfl
  · rfl

/-- A program of one `SNOP` starts with 0xFF. -/
theorem load_shifts : ¬ ∀ (inp : Input) (codes : List TMem) (st : CspSt), codes.length ≤ 24 →
    (∀ v ∈ codes, Storable v) → ∃ st', load inp codes st = .ok st' ∧ Loaded codes st st' := by
  intro h
  have hcodes : ∀ v ∈ ([0xD0] : List TMem), Storable v := by
    simp only [List.mem_singleton, forall_eq]
    decide
  have hlen : ([0xD0] : List TMem).length ≤ 24 := by decide
  obtain ⟨st', hrun, hl⟩ := h { rand := 0, undef := false } [0xD0] { mem := fun _ => 0, hw := blank } hlen hcodes
  obtain ⟨st₁, h₁, hwritten⟩ := load_run { rand := 0, undef := false } { mem := fun _ => 0, hw := blank } hcodes hlen
  obtain rfl : st₁ = st' := Except.ok.inj (h₁.symm.trans hrun)
  have hfull := (loadCond_of_loaded hcodes hlen hwritten hl).length
  exact absurd hfull (by decide)

end Csp

end Ucsim.S51
