import Ucsim.Avr.Operands
import Ucsim.Avr.Sreg

/-!
# Skips

`CPSE`, `SBRC` and `SBRS` look the next word up in the table of the disassembler, and `validate_address` the sum. `SBIC`
and `SBIS` fetch the next word, and give it to `inst_length`, which takes an address.
-/

namespace Ucsim.Avr

open Logic

/-! ## Lengths -/

/-- The words that an instruction is made of. -/
def words (code : BitVec 16) : Nat := if Pattern.find twoWords code = none then 1 else 2

theorem words_of_fits {code : BitVec 16} {q : Pattern 16 Unit} (hq : q ∈ twoWords) (h : q.fits code) : words code = 2 :=
  if_neg (Pattern.find_isSome_of_mem hq h)

/-- The lengths in the table of the disassembler. -/
theorem find_length {code : BitVec 16} {row : DisEntry} (h : Pattern.find disass_avr code = some row) :
    row.length = words code := by
  obtain ⟨p, hp, hcode, rfl⟩ := Pattern.find_some h
  have htable : ∀ p ∈ disass_avr, p.body.length = 1 ∧ twoWords.filter (Pattern.meets p.mask p.value) = [] ∨
      p.body.length = 2 ∧ ∃ q ∈ twoWords, q.Covers p.mask p.value := by decide +kernel
  rcases htable p hp with ⟨hone, hnone⟩ | ⟨htwo, q, hq, hcovers⟩
  · rw [hone]
    exact (if_pos (Pattern.find_none_of_filter hcode hnone)).symm
  · rw [htwo, words_of_fits hq (Pattern.fits_of_covers hcode hcovers)]

/-- What is not in the table has one word. -/
theorem words_of_not_found {code : BitVec 16} (h : Pattern.find disass_avr code = none) : words code = 1 := by
  by_contra hne
  have hfind : Pattern.find twoWords code ≠ none := fun hnone => hne (if_pos hnone)
  obtain ⟨_, hsome⟩ := Option.ne_none_iff_exists'.mp hfind
  obtain ⟨q, hq, hcode, -⟩ := Pattern.find_some hsome
  have htable : ∀ q ∈ twoWords, ∃ p ∈ disass_avr, p.Covers q.mask q.value := by decide +kernel
  obtain ⟨p, hp, hcovers⟩ := htable q hq
  exact Pattern.find_isSome_of_mem hp (Pattern.fits_of_covers hcode hcovers) h

theorem inst_length_eq (s : Machine) (addr : Int) : s.inst_length addr = words (s.romAt addr) := by
  unfold Machine.inst_length
  split
  · exact find_length (by assumption)
  · exact (words_of_not_found (by assumption)).symm

/-! ## Addresses -/

theorem romAt_toNat (s : Machine) (a : BitVec 16) : s.romAt a.toNat = s.rom a := by
  have ha := a.isLt
  unfold Machine.romAt
  rw [if_pos (by omega), BitVec.ofInt_natCast, BitVec.ofNat_toNat, BitVec.setWidth_eq]

theorem inc_address_toNat (a : BitVec 16) : inc_address a.toNat = (a + 1).toNat := by
  have ha := a.isLt
  unfold inc_address
  rw [Int.tmod_eq_emod_of_nonneg (by omega), BitVec.toNat_add]
  rfl

theorem toNat_next (a : BitVec 16) : ((a + 1).toNat : Int) = (a.toNat + 1) % 0x10000 := by
  rw [BitVec.toNat_add]
  rfl

/-! ## The next instruction -/

theorem skip_some {t : Machine} {row : DisEntry} (h : Pattern.find disass_avr (t.romAt t.PC) = some row) :
    skip.run t = (.go, { t with PC := validate_address (t.PC + row.length), ticks := t.ticks + 1 }) := by
  unfold skip
  simp [h]
  rfl

theorem skip_none {t : Machine} (h : Pattern.find disass_avr (t.romAt t.PC) = none) : skip.run t = (.invInst, t) := by
  unfold skip
  simp [h]
  rfl

/-- What a skip does by looking the next word up. -/
theorem skip_spec (t : Machine) {b : BitVec 16} (hPC : t.PC = b.toNat) : (skip.run t).2.ram = t.ram ∧
    (Pattern.find disass_avr (t.rom b) = none → (skip.run t).2.PC = b.toNat) ∧
    (Pattern.find disass_avr (t.rom b) ≠ none → (skip.run t).2.PC = validate_address (b.toNat + words (t.rom b))) := by
  have hword : t.romAt t.PC = t.rom b := by rw [hPC, romAt_toNat]
  by_cases hnone : Pattern.find disass_avr (t.rom b) = none
  · have hskip : skip.run t = (.invInst, t) := skip_none (by rw [hword]; exact hnone)
    rw [hskip]
    exact ⟨rfl, fun _ => hPC, fun hsome => absurd hnone hsome⟩
  · obtain ⟨row, hrow⟩ := Option.ne_none_iff_exists'.mp hnone
    have hskip : skip.run t = _ := skip_some (by rw [hword]; exact hrow)
    have hlength := find_length hrow
    refine ⟨by rw [hskip], fun hno => absurd hno hnone, fun _ => ?_⟩
    rw [hskip, hPC, hlength]

/-- A word more is fetched when the length is two. -/
theorem fetchRest_spec (t : Machine) (code : BitVec 16) : ((fetchRest (words code)).run t).2.ram = t.ram ∧
    ((fetchRest (words code)).run t).2.PC = if words code = 1 then t.PC else inc_address t.PC := by
  have hcases : words code = 1 ∨ words code = 2 := ite_eq_or_eq _ _ _
  rcases hcases with hone | htwo
  · rw [hone]
    exact ⟨rfl, rfl⟩
  · rw [htwo]
    exact ⟨rfl, rfl⟩

/-- The next word is fetched, and then what its length says, however it is found. -/
theorem fetched_spec (len : Machine → BitVec 16 → Nat) (t : Machine) :
    let fetched : Prog Unit := do
      let code ← fetch
      fetchRest (len (← get) code)
      tick 1
    let t' : Machine := { t with PC := inc_address t.PC }
    (fetched.run t).2.ram = ((fetchRest (len t' (t.romAt t.PC))).run t').2.ram ∧
      (fetched.run t).2.PC = ((fetchRest (len t' (t.romAt t.PC))).run t').2.PC := ⟨rfl, rfl⟩

/-- What a skip does by fetching the next word. -/
theorem skipFetched_spec (t : Machine) {b : BitVec 16} (hPC : t.PC = b.toNat) : (skipFetched.run t).2.ram = t.ram ∧
    (skipFetched.run t).2.PC = (b.toNat + words (t.rom (t.rom b))) % 0x10000 := by
  let t' : Machine := { t with PC := inc_address t.PC }
  have hlength : t'.inst_length (t.romAt t.PC).toNat = words (t.rom (t.rom b)) := by
    rw [hPC, romAt_toNat, inst_length_eq, romAt_toNat]
  have hPC' : t'.PC = (b + 1).toNat := (congrArg inc_address hPC).trans (inc_address_toNat b)
  obtain ⟨hram, hnext⟩ := fetched_spec (fun s code => s.inst_length code.toNat) t
  obtain ⟨hrest, hrestPC⟩ := fetchRest_spec t' (t.rom (t.rom b))
  rw [← hlength] at hrest hrestPC
  refine ⟨hram.trans hrest, hnext.trans (hrestPC.trans ?_)⟩
  have hcases : words (t.rom (t.rom b)) = 1 ∨ words (t.rom (t.rom b)) = 2 := ite_eq_or_eq _ _ _
  rw [hlength, hPC', inc_address_toNat, toNat_next, toNat_next]
  rcases hcases with hone | htwo
  · rw [hone, if_pos rfl]
    rfl
  · rw [htwo, if_neg (by decide), toNat_next]
    omega

/-! ## Skips -/

inductive Skip
  | cpse | sbrc | sbrs | sbic | sbis
  deriving DecidableEq

namespace Skip

/-- The codes of a skip. -/
def Is : Skip → BitVec 16 → Prop
  | cpse, code => code &&& 0xfc00 = 0x1000
  | sbrc, code => code &&& 0xfe00 = 0xfc00
  | sbrs, code => code &&& 0xfe00 = 0xfe00
  | sbic, code => code &&& 0xff00 = 0x9900
  | sbis, code => code &&& 0xff00 = 0x9b00

/-- Its condition: two equal registers, or a bit. -/
def Condition (s : Machine) : Skip → Prop
  | cpse => s.ram (d5 s.code) = s.ram (r5 s.code)
  | sbrc => (s.ram (d5 s.code)).getLsbD (b3 s.code).toNat = false
  | sbrs => (s.ram (d5 s.code)).getLsbD (b3 s.code).toNat = true
  | sbic => (s.ram (P5 s.code + 0x20)).getLsbD (b3 s.code).toNat = false
  | sbis => (s.ram (P5 s.code + 0x20)).getLsbD (b3 s.code).toNat = true

/-- The next instruction is passed over when the condition holds, and nothing else happens. -/
def Right (a : BitVec 16) (s : Machine) (k : Skip) : Prop :=
  (k.Condition s → s.step.PC = (a.toNat + 1 + words (s.rom (a + 1))) % 0x10000) ∧
    (¬ k.Condition s → s.step.PC = (a.toNat + 1) % 0x10000) ∧ s.step.ram = s.ram

/-- The length of the next instruction is found, and the sum wraps around. -/
def Finds (a : BitVec 16) (s : Machine) : Skip → Prop
  | cpse | sbrc | sbrs => Pattern.find disass_avr (s.rom (a + 1)) ≠ none ∧ (a + 1).toNat + words (s.rom (a + 1)) ≠ 0x10000
  | sbic | sbis => words (s.rom (s.rom (a + 1))) = words (s.rom (a + 1))

end Skip

section Rows

variable {s : Machine} {i : Inst} {taken : Prop} [Decidable taken] {a : BitVec 16}

theorem fetched_PC (hPC : s.PC = a.toNat) : s.fetched.PC = (a + 1).toNat := (congrArg inc_address hPC).trans (inc_address_toNat a)

/-- A skip that looks the next word up. -/
theorem looked_up (hPC : s.PC = a.toNat) (hdecode : decode s.code = some i)
    (hrun : i.run.run s.fetched = if taken then skip.run s.fetched else (.go, s.fetched)) :
    s.step.ram = s.ram ∧ (¬ taken → s.step.PC = (a.toNat + 1) % 0x10000) ∧
    (taken → (s.step.PC = (a.toNat + 1 + words (s.rom (a + 1))) % 0x10000 ↔
      Pattern.find disass_avr (s.rom (a + 1)) ≠ none ∧ (a + 1).toNat + words (s.rom (a + 1)) ≠ 0x10000)) := by
  obtain ⟨hram, hnone, hsome⟩ := skip_spec s.fetched (fetched_PC hPC)
  have hnext := toNat_next a
  rw [step_eq hdecode, hrun]
  by_cases htaken : taken
  · rw [if_pos htaken]
    refine ⟨hram, fun hno => absurd htaken hno, fun _ => ?_⟩
    have hlt := (a + 1).isLt
    have hcases : words (s.rom (a + 1)) = 1 ∨ words (s.rom (a + 1)) = 2 := ite_eq_or_eq _ _ _
    by_cases hfind : Pattern.find disass_avr (s.rom (a + 1)) = none
    · rw [hnone hfind]
      refine iff_of_false ?_ fun h => h.1 hfind
      omega
    · rw [hsome hfind, and_iff_right hfind]
      change validate_address ((a + 1).toNat + words (s.rom (a + 1))) = _ ↔ _
      unfold validate_address
      dsimp only
      split_ifs <;> omega
  · rw [if_neg htaken]
    refine ⟨rfl, fun _ => (fetched_PC hPC).trans hnext, fun hyes => absurd hyes htaken⟩

/-- A skip that fetches the next word. -/
theorem fetched_over (hPC : s.PC = a.toNat) (hdecode : decode s.code = some i)
    (hrun : (i.run.run s.fetched).2 = if taken then (skipFetched.run s.fetched).2 else s.fetched) :
    s.step.ram = s.ram ∧ (¬ taken → s.step.PC = (a.toNat + 1) % 0x10000) ∧
    (taken → (s.step.PC = (a.toNat + 1 + words (s.rom (a + 1))) % 0x10000 ↔
      words (s.rom (s.rom (a + 1))) = words (s.rom (a + 1)))) := by
  obtain ⟨hram, hover⟩ := skipFetched_spec s.fetched (fetched_PC hPC)
  have hnext := toNat_next a
  rw [step_eq hdecode, hrun]
  by_cases htaken : taken
  · rw [if_pos htaken]
    refine ⟨hram, fun hno => absurd htaken hno, fun _ => ?_⟩
    have hcases : ∀ code, words code = 1 ∨ words code = 2 := fun _ => ite_eq_or_eq _ _ _
    have hlength := hcases (s.rom (a + 1))
    have htable := hcases (s.rom (s.rom (a + 1)))
    rw [hover]
    change ((a + 1).toNat + words (s.rom (s.rom (a + 1))) : Int) % 0x10000 = _ ↔ _
    omega
  · rw [if_neg htaken]
    refine ⟨rfl, fun _ => (fetched_PC hPC).trans hnext, fun hyes => absurd hyes htaken⟩

end Rows

theorem b3_lt (code : BitVec 16) : (b3 code).toNat < 8 := by
  unfold b3
  rw [BitVec.toNat_and]
  exact Nat.lt_of_le_of_lt Nat.and_le_right (by decide)

theorem bit_clear (x : BitVec 8) (code : BitVec 16) :
    x.setWidth 16 &&& maskOf (b3 code) = 0 ↔ x.getLsbD (b3 code).toNat = false := by
  have hlt := b3_lt code
  have hbit : (x.setWidth 16)[(b3 code).toNat] = x.getLsbD (b3 code).toNat := BitVec.getElem_setWidth ..
  have hmask : maskOf (b3 code) = BitVec.twoPow 16 (b3 code).toNat := rfl
  rw [hmask, and_bit _ _ (by omega), hbit]

theorem bit_set (x : BitVec 8) (code : BitVec 16) :
    x.setWidth 16 &&& maskOf (b3 code) ≠ 0 ↔ x.getLsbD (b3 code).toNat = true := by
  rw [ne_eq, bit_clear, Bool.not_eq_false]

/-- A skip is right when it finds what it skips. -/
theorem right_iff {s : Machine} {a : BitVec 16} {k : Skip} {taken : Prop} (hcondition : taken ↔ k.Condition s)
    (hspec : s.step.ram = s.ram ∧ (¬ taken → s.step.PC = (a.toNat + 1) % 0x10000) ∧
      (taken → (s.step.PC = (a.toNat + 1 + words (s.rom (a + 1))) % 0x10000 ↔ k.Finds a s))) :
    k.Right a s ↔ (k.Condition s → k.Finds a s) := by
  obtain ⟨hram, hnot, htaken⟩ := hspec
  rw [hcondition] at hnot htaken
  exact ⟨fun hright hc => (htaken hc).mp (hright.1 hc), fun hfinds => ⟨fun hc => (htaken hc).mpr (hfinds hc), hnot, hram⟩⟩

/-- The bit that `SBRC` and `SBRS` do not look at. -/
theorem unused_bit {code value : BitVec 16} (h : code &&& 0xfe00 = value) :
    code &&& 0xfe08 = value ∨ code &&& 0xfe08 = value ||| 8 := by
  have hsplit : code &&& 0xfe08 = value ||| code &&& 8 := by
    rw [← h, ← BitVec.and_or_distrib_left]
    rfl
  have hbit : code &&& 8 = 0 ∨ code &&& 8 = 8 := by
    have hand : code &&& 8 = if code.getLsbD 3 then 8 else 0 := BitVec.and_twoPow code 3
    rw [hand]
    split_ifs
    · exact .inr rfl
    · exact .inl rfl
  rcases hbit with hzero | hone
  · exact .inl (by rw [hsplit, hzero]; exact BitVec.or_zero)
  · exact .inr (by rw [hsplit, hone])

theorem sbrc_decode {code : BitVec 16} (h : code &&& 0xfe00 = 0xfc00) : decode code = some (sbrc_Rr_b code) := by
  rcases unused_bit h with hcode | hcode
  · exact decode_of_first hcode rfl (by decide)
  · exact decode_of_first hcode rfl (by decide)

theorem sbrs_decode {code : BitVec 16} (h : code &&& 0xfe00 = 0xfe00) : decode code = some (sbrs_Rr_b code) := by
  rcases unused_bit h with hcode | hcode
  · exact decode_of_first hcode rfl (by decide)
  · exact decode_of_first hcode rfl (by decide)

/-- A program in an `if`, run. -/
theorem run_ite {α : Type} (c : Prop) [Decidable c] (p q : Prog α) (s : Machine) :
    (if c then p else q).run s = if c then p.run s else q.run s := by
  split_ifs <;> rfl

theorem run_when (c : Prop) [Decidable c] (p : Prog Unit) (s : Machine) :
    ((if c then p else return ()).run s).2 = if c then (p.run s).2 else s := by
  split_ifs <;> rfl

/-- A skip is right exactly if it finds the next instruction where it skips. -/
theorem skip_right_iff (k : Skip) (s : Machine) (a : BitVec 16) (hPC : s.PC = a.toNat) (h : k.Is s.code) :
    k.Right a s ↔ (k.Condition s → k.Finds a s) := by
  cases k with
  | cpse =>
    have hdecode := decode_of_first h rfl (by decide)
    have hrun : (cpse_Rd_Rr s.code).run.run s.fetched = _ :=
      run_ite ((s.ram (r5 s.code)).setWidth 16 = (s.ram (d5 s.code)).setWidth 16) skip (return .go) s.fetched
    have hequal : (s.ram (r5 s.code)).setWidth 16 = (s.ram (d5 s.code)).setWidth 16 ↔ s.ram (d5 s.code) = s.ram (r5 s.code) := by
      constructor
      · intro heq
        have hbyte := congrArg (BitVec.setWidth 8) heq
        rw [BitVec.setWidth_setWidth_of_le _ (by decide), BitVec.setWidth_setWidth_of_le _ (by decide), BitVec.setWidth_eq,
          BitVec.setWidth_eq] at hbyte
        exact hbyte.symm
      · intro heq
        rw [heq]
    exact right_iff hequal (looked_up hPC hdecode hrun)
  | sbrc =>
    have hrun : (sbrc_Rr_b s.code).run.run s.fetched = _ :=
      run_ite ((s.ram (d5 s.code)).setWidth 16 &&& maskOf (b3 s.code) = 0) skip (return .go) s.fetched
    exact right_iff (bit_clear _ _) (looked_up hPC (sbrc_decode h) hrun)
  | sbrs =>
    have hrun : (sbrs_Rr_b s.code).run.run s.fetched = _ :=
      run_ite ((s.ram (d5 s.code)).setWidth 16 &&& maskOf (b3 s.code) ≠ 0) skip (return .go) s.fetched
    exact right_iff (bit_set _ _) (looked_up hPC (sbrs_decode h) hrun)
  | sbic =>
    have hdecode := decode_of_first h rfl (by decide)
    have hrun : ((sbic_P_b s.code).run.run s.fetched).2 = _ :=
      run_when (maskOf (b3 s.code) &&& (s.ram (P5 s.code + 0x20)).setWidth 16 = 0) skipFetched s.fetched
    exact right_iff (by rw [BitVec.and_comm]; exact bit_clear _ _) (fetched_over hPC hdecode hrun)
  | sbis =>
    have hdecode := decode_of_first h rfl (by decide)
    have hrun : ((sbis_P_b s.code).run.run s.fetched).2 = _ :=
      run_when (maskOf (b3 s.code) &&& (s.ram (P5 s.code + 0x20)).setWidth 16 ≠ 0) skipFetched s.fetched
    exact right_iff (by rw [BitVec.and_comm]; exact bit_set _ _) (fetched_over hPC hdecode hrun)

/-- A program memory that begins with two words, and zeros behind. -/
def beginning (first second : BitVec 16) : Machine where
  ram _ := 0
  rom addr := if addr = 0 then first else if addr = 1 then second else 0
  ramDummy := 0
  romDummy := 0
  PC := 0
  ticks := 0
  sleep_executed := false

/-- `cpse` in front of one word. -/
theorem skip_right_iff_nop : Skip.cpse.Right 0 (beginning 0x1001 0) ↔
    (Skip.cpse.Condition (beginning 0x1001 0) → Skip.cpse.Finds 0 (beginning 0x1001 0)) :=
  skip_right_iff .cpse (beginning 0x1001 0) 0 rfl rfl

/-- `sbic 0,0` goes into the second word of a jump, as a `nop` is where its code points to. -/
theorem sbic_into_jmp : ¬ ∀ (k : Skip) (s : Machine) (a : BitVec 16), s.PC = a.toNat → k.Is s.code → k.Right a s := by
  intro h
  have hPC := (h .sbic (beginning 0x9900 0x940c) 0 rfl rfl).1 (by unfold Skip.Condition; decide)
  revert hPC
  decide +kernel

end Ucsim.Avr
