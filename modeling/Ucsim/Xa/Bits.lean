import Ucsim.Logic.Bits
import Ucsim.Xa.Stack

/-!
# Bit instructions of the XA

The address of a bit has 10 bits, of which the upper two are in the opcode. JB, JNB and JBC put it together.
In SETB, CLR and ANL the mask for the opcode is shifted in place of the bits, so that only the byte behind the
opcode is left.
-/

namespace Ucsim.Xa

open Logic Logic.Bits

/-! ## What the instructions should do -/

def Mnemonic.isBit : Mnemonic → Bool
  | .SETB | .CLR | .ANL | .JB | .JNB | .JBC => true
  | _ => false

namespace Machine

variable (s : Machine)

/-- The machine behind a byte of code. -/
def skip : Machine := { s with PC := inc_address s.PC 1 }

/-- The byte behind the opcode. -/
def behind : BitVec 8 := s.fetched.romAt s.fetched.PC

/-- The address of the bit in the instruction. -/
def encodedBit (code : BitVec 16) : BitVec 16 := (code &&& 3) <<< 8 + s.behind.setWidth 16

/-- The bit with an address. -/
def bitAt (b : BitVec 16) : Bool := (s.sfr (byteOfBit b)).getLsbD (b &&& 7).toNat

/-- PC behind a branch on a bit. -/
def afterBit : Int := s.fetched.skip.skip.PC

/-- Where a branch on a bit goes. -/
def bitTarget : Int := even24 (s.afterBit + 2 * (s.fetched.skip.romAt s.fetched.skip.PC).toNat)

/-- The data in `t` are the ones in `s`. -/
def SameData (t : Machine) : Prop := t.sfr = s.sfr ∧ t.iram = s.iram ∧ t.xram = s.xram

/-- Of all data, exactly the bit `b` is changed, to `v`. -/
def SetsTo (t : Machine) (b : BitVec 16) (v : Bool) : Prop :=
  (∀ addr i, (t.sfr addr).getLsbD i =
    if addr = byteOfBit b ∧ i = (b &&& 7).toNat then v else (s.sfr addr).getLsbD i) ∧
  t.iram = s.iram ∧ t.xram = s.xram

/-- A branch on the bit `b` with the mnemonic `m` is taken now. -/
def GoesOn (m : Mnemonic) (b : BitVec 16) : Prop :=
  ∀ code row, s.decoded = some (code, row) → row.mnemonic = m → s.encodedBit code = b → s.step.PC = s.bitTarget

/-- What an instruction should do with its bit. -/
def BitRight (code : BitVec 16) (row : DisEntry) : Prop :=
  let b := s.encodedBit code
  match row.mnemonic with
  | .SETB => s.SetsTo s.step b true ∧ s.step.GoesOn .JB b
  | .CLR => s.SetsTo s.step b false ∧ s.step.GoesOn .JNB b
  | .ANL => has s.step.psw BIT_C = (has s.psw BIT_C && (row.operands = .CY_NOTBIT ^^ s.bitAt b))
  | .JB => s.step.PC = (if s.bitAt b then s.bitTarget else s.afterBit) ∧ s.SameData s.step
  | .JNB => s.step.PC = (if s.bitAt b then s.afterBit else s.bitTarget) ∧ s.SameData s.step
  | .JBC => s.step.PC = (if s.bitAt b then s.bitTarget else s.afterBit) ∧ s.SetsTo s.step b false
  | _ => True

/-- When it does so. -/
def BitFits (code : BitVec 16) (row : DisEntry) : Prop :=
  let b := s.encodedBit code
  let low := s.behind.setWidth 16
  match row.mnemonic with
  | .SETB => b.toNat < 0x100 ∨ s.bitAt b = true ∧ s.bitAt low = true
  | .CLR => b.toNat < 0x100 ∨ s.bitAt b = false ∧ s.bitAt low = false
  | .ANL => has s.psw BIT_C = true → s.bitAt b = s.bitAt low
  | _ => True

end Machine

/-! ## Fetching -/

section Fetching

variable {s : Machine} {code : BitVec 16} {row : DisEntry}

theorem fetch_run (s : Machine) : fetch.run s = (s.romAt s.PC, s.skip) := rfl

/-- The byte at PC, in the upper half of a code. -/
def Machine.firstCode (s : Machine) : BitVec 16 := s.romAt s.PC ++ (0 : BitVec 8)

/-- The two bytes at PC. -/
def Machine.bothCode (s : Machine) : BitVec 16 := s.firstCode ||| (s.skip.romAt s.skip.PC).setWidth 16

/-- `decode` with any two tables, wherever PC is. -/
theorem lookups_eq (one two : BitVec 16 → Option DisEntry) (s : Machine) :
    (do
      let code1 ← fetch
      tick 1
      let code := code1 ++ (0 : BitVec 8)
      match one code with
      | some row => return some (code, row)
      | none =>
        let code := code ||| (← fetch).setWidth 16
        return (two code).map fun row => (code, row) : Prog (Option (BitVec 16 × DisEntry))).run s =
    match one s.firstCode with
    | some row => (some (s.firstCode, row), s.skip.ticked)
    | none => ((two s.bothCode).map fun row => (s.bothCode, row), s.skip.ticked.skip) := by
  rw [run_bind_of (fetch_run s)]
  change StateT.run (match one s.firstCode with
      | some row => (return some (s.firstCode, row) : Prog _)
      | none => do
        let code := s.firstCode ||| (← fetch).setWidth 16
        return (two code).map fun row => (code, row)) s.skip.ticked = _
  cases one s.firstCode <;> rfl

theorem decode_eq (s : Machine) : decode.run s =
    match Pattern.find disass_xa1 s.firstCode with
    | some row => (some (s.firstCode, row), s.skip.ticked)
    | none => ((Pattern.find disass_xa s.bothCode).map fun row => (s.bothCode, row), s.skip.ticked.skip) :=
  lookups_eq (Pattern.find disass_xa1) (Pattern.find disass_xa) s

/-- Decoding changes no data. -/
theorem fetched_data (s : Machine) : s.SameData s.fetched := by
  unfold Machine.fetched
  rw [decode_eq]
  cases Pattern.find disass_xa1 s.firstCode <;> exact ⟨rfl, rfl, rfl⟩

/-- The row of an opcode is in the table. -/
theorem decoded_mem (hd : s.decoded = some (code, row)) :
    ∃ p ∈ disass_xa, p.body = row ∧ code &&& p.mask = p.value := by
  unfold Machine.decoded at hd
  rw [decode_eq] at hd
  cases hone : Pattern.find disass_xa1 s.firstCode with
  | some found =>
    rw [hone] at hd
    obtain ⟨rfl, rfl⟩ := Prod.mk.inj (Option.some.inj hd)
    obtain ⟨p, hp, hfit, hbody⟩ := Pattern.find_some hone
    exact ⟨p, (List.mem_filter.mp hp).1, hbody, hfit⟩
  | none =>
    rw [hone] at hd
    obtain ⟨found, hfound, heq⟩ := Option.map_eq_some_iff.mp hd
    obtain ⟨rfl, rfl⟩ := Prod.mk.inj heq
    obtain ⟨p, hp, hfit, hbody⟩ := Pattern.find_some hfound
    exact ⟨p, hp, hbody, hfit⟩

/-- The row of an instruction that masks its opcode with 0x300: there are zeros. -/
def DisEntry.IsMasked (p : Pattern 16 DisEntry) : Prop :=
  p.mask &&& 0x300 = 0x300 ∧ p.value &&& 0x300 = 0 ∧
    (p.body.mnemonic = .ANL → p.body.operands = .CY_BIT ∨ p.body.operands = .CY_NOTBIT)

instance (p : Pattern 16 DisEntry) : Decidable (DisEntry.IsMasked p) := inferInstanceAs (Decidable (_ ∧ _ ∧ (_ → _)))

theorem maskedRow : ∀ p ∈ disass_xa, p.body.mnemonic ∈ [.SETB, .CLR, .ANL] → DisEntry.IsMasked p := by decide +kernel

theorem masked_zero (hd : s.decoded = some (code, row)) (hm : row.mnemonic ∈ [.SETB, .CLR, .ANL]) :
    code &&& 0x300 = 0 ∧ (row.mnemonic = .ANL → row.operands = .CY_BIT ∨ row.operands = .CY_NOTBIT) := by
  obtain ⟨p, hp, rfl, hfit⟩ := decoded_mem hd
  obtain ⟨hmask, hvalue, hoperands⟩ := maskedRow p hp hm
  refine ⟨?_, hoperands⟩
  rw [← hmask, ← BitVec.and_assoc, hfit]
  exact hvalue

end Fetching

/-! ## Addresses of bits -/

section Addresses

theorem place_lt_eight (b : BitVec 16) : (b &&& 7).toNat < 8 := by
  rw [BitVec.toNat_and]
  exact Nat.lt_of_le_of_lt Nat.and_le_right (by decide)

variable (s : Machine) (code b : BitVec 16) (v : Bool)

theorem get_bit_run : (get_bit b).run s = (s.bitAt b, s) := by
  have hbit := and_twoPow (s.sfr (byteOfBit b)) (place_lt_eight b)
  exact Prod.ext hbit rfl

/-- The machine with a bit changed. -/
def Machine.withBit : Machine :=
  s.setDirect (byteOfBit b) (setBit (s.sfr (byteOfBit b)) (b &&& 7).toNat v)

theorem set_bit_run : (set_bit b v).run s = ((), s.withBit b v) := by
  cases v <;> rfl

theorem withBit_getLsbD (addr : BitVec 16) (i : Nat) : ((s.withBit b v).sfr addr).getLsbD i =
    if addr = byteOfBit b ∧ i = (b &&& 7).toNat then v else (s.sfr addr).getLsbD i := by
  by_cases haddr : addr = byteOfBit b
  · subst haddr
    rw [Machine.withBit, Machine.setDirect_self, getLsbD_setBit (place_lt_eight b)]
    exact if_congr (and_iff_right rfl).symm rfl rfl
  · rw [Machine.withBit, Machine.setDirect_of_ne _ haddr, if_neg fun h => haddr h.1]

theorem encodedBit_toNat : (s.encodedBit code).toNat = (code &&& 3).toNat * 256 + s.behind.toNat := by
  have hcode : (code &&& 3).toNat ≤ 3 := by
    rw [BitVec.toNat_and]
    exact Nat.and_le_right
  have hbehind := s.behind.isLt
  rw [Machine.encodedBit, BitVec.toNat_add, BitVec.toNat_shiftLeft, BitVec.toNat_setWidth, Nat.shiftLeft_eq]
  omega

theorem low_toNat : (s.behind.setWidth 16).toNat = s.behind.toNat := BitVec.toNat_setWidth_of_le (by decide)

theorem encodedBit_of_lt (h : (s.encodedBit code).toNat < 0x100) : s.encodedBit code = s.behind.setWidth 16 := by
  have hbehind := s.behind.isLt
  apply BitVec.eq_of_toNat_eq
  rw [encodedBit_toNat] at h ⊢
  rw [low_toNat]
  omega

theorem byteOfBit_toNat (h : b.toNat < 0x400) :
    (byteOfBit b).toNat = if 0x200 ≤ b.toNat then 0x400 + (b.toNat - 0x200) / 8 else b.toNat / 8 := by
  unfold byteOfBit
  split
  · rw [BitVec.toNat_add, BitVec.toNat_ushiftRight, BitVec.toNat_sub, Nat.shiftRight_eq_div_pow]
    simp only [BitVec.natCast_eq_ofNat, BitVec.ofNat_eq_ofNat, BitVec.toNat_ofNat]
    omega
  · rw [BitVec.toNat_ushiftRight, Nat.shiftRight_eq_div_pow]

/-- Bits from 0x100 on are in other bytes than those below. -/
theorem byteOfBit_ne (h : ¬ (s.encodedBit code).toNat < 0x100) :
    byteOfBit (s.encodedBit code) ≠ byteOfBit (s.behind.setWidth 16) := by
  have hbehind := s.behind.isLt
  have hcode : (code &&& 3).toNat ≤ 3 := by
    rw [BitVec.toNat_and]
    exact Nat.and_le_right
  have hlow := low_toNat s
  have hbit := encodedBit_toNat s code
  intro heq
  have hbytes := congrArg BitVec.toNat heq
  rw [byteOfBit_toNat _ (by omega), byteOfBit_toNat _ (by omega)] at hbytes
  split at hbytes <;> split at hbytes <;> omega

/-- Changing the bit below 0x100 is right only there, or where it changes nothing that it should not. -/
theorem setsTo_iff {t : Machine} (hsfr : t.sfr = (s.withBit (s.behind.setWidth 16) v).sfr) (hiram : t.iram = s.iram)
    (hxram : t.xram = s.xram) : s.SetsTo t (s.encodedBit code) v ↔
      (s.encodedBit code).toNat < 0x100 ∨ s.bitAt (s.encodedBit code) = v ∧ s.bitAt (s.behind.setWidth 16) = v := by
  have hbits (addr : BitVec 16) (i : Nat) : (t.sfr addr).getLsbD i =
      if addr = byteOfBit (s.behind.setWidth 16) ∧ i = (s.behind.setWidth 16 &&& 7).toNat then v
      else (s.sfr addr).getLsbD i := by
    rw [hsfr]
    exact withBit_getLsbD s _ v addr i
  refine Iff.trans (and_iff_left ⟨hiram, hxram⟩) ?_
  by_cases hlt : (s.encodedBit code).toNat < 0x100
  · refine iff_of_true ?_ (.inl hlt)
    rw [encodedBit_of_lt s code hlt]
    exact hbits
  · have hne := byteOfBit_ne s code hlt
    rw [or_iff_right hlt]
    constructor
    · intro h
      -- the one bit should have been changed, the other one not
      have hhere := h (byteOfBit (s.encodedBit code)) (s.encodedBit code &&& 7).toNat
      have hthere := h (byteOfBit (s.behind.setWidth 16)) (s.behind.setWidth 16 &&& 7).toNat
      rw [if_pos ⟨rfl, rfl⟩, hbits, if_neg fun hc => hne hc.1] at hhere
      rw [if_neg fun hc => hne hc.1.symm, hbits, if_pos ⟨rfl, rfl⟩] at hthere
      exact ⟨hhere, hthere.symm⟩
    · rintro ⟨hhere, hthere⟩ addr i
      rw [hbits]
      by_cases hlow : addr = byteOfBit (s.behind.setWidth 16) ∧ i = (s.behind.setWidth 16 &&& 7).toNat
      · rw [if_pos hlow, if_neg fun hc => hne (hc.1.symm.trans hlow.1), hlow.1, hlow.2]
        exact hthere.symm
      · rw [if_neg hlow]
        split
        · rename_i hbit
          rw [hbit.1, hbit.2]
          exact hhere
        · rfl

end Addresses

/-! ## The instructions -/

section Instructions

variable {s : Machine} {code : BitVec 16} {row : DisEntry}

theorem bitAt_congr {t : Machine} (h : t.sfr = s.sfr) (b : BitVec 16) : t.bitAt b = s.bitAt b := by
  rw [Machine.bitAt, h]
  rfl

theorem psw_congr {t : Machine} (h : t.sfr = s.sfr) : t.psw = s.psw := by
  rw [Machine.psw, Machine.direct2, h]
  rfl

theorem bitAddrMasked_fetched (hzero : code &&& 0x300 = 0) :
    (bitAddrMasked code).run s.fetched = (s.behind.setWidth 16, s.fetched.skip) := by
  unfold bitAddrMasked
  rw [run_bind_of (fetch_run _), hzero]
  exact Prod.ext (BitVec.zero_add _) rfl

/-- SETB and CLR change the bit of the byte behind the opcode. -/
theorem step_set_bit {v : Bool} (hd : s.decoded = some (code, row)) (hzero : code &&& 0x300 = 0)
    (hinst : inst code row.operands row.mnemonic = go (do set_bit (← bitAddrMasked code) v)) :
    s.step = s.fetched.skip.withBit (s.behind.setWidth 16) v := by
  rw [step_eq hd, hinst, go_run, run_bind_of (bitAddrMasked_fetched hzero), set_bit_run]

theorem set_bit_right_iff {v : Bool} (hd : s.decoded = some (code, row)) (hm : row.mnemonic ∈ [.SETB, .CLR, .ANL])
    (hinst : inst code row.operands row.mnemonic = go (do set_bit (← bitAddrMasked code) v)) :
    s.SetsTo s.step (s.encodedBit code) v ↔
      (s.encodedBit code).toNat < 0x100 ∨ s.bitAt (s.encodedBit code) = v ∧ s.bitAt (s.behind.setWidth 16) = v := by
  obtain ⟨hsfr, hiram, hxram⟩ := fetched_data s
  rw [step_set_bit hd (masked_zero hd hm).1 hinst]
  refine setsTo_iff s code v ?_ hiram hxram
  unfold Machine.withBit Machine.setDirect
  dsimp only
  rw [show s.fetched.skip.sfr = s.sfr from hsfr]

theorem bitAddr_fetched : (bitAddr code).run s.fetched = (s.encodedBit code, s.fetched.skip) := by
  unfold bitAddr
  rw [run_bind_of (fetch_run _)]
  rfl

theorem rel8_skip (t : Machine) : rel8.run t = (2 * ((t.romAt t.PC).toNat : Int), t.skip) := by
  unfold rel8
  rw [run_bind_of (fetch_run _)]
  rfl

/-- JB and JNB. -/
theorem step_branch {n : Bool} (hd : s.decoded = some (code, row))
    (hinst : inst code row.operands row.mnemonic = go (do
      let bit ← bitAddr code
      let jmpAddr ← rel8
      if n ^^ (← get_bit bit) then jumpEven jmpAddr)) :
    s.step = { s.fetched.skip.skip with
      PC := if n ^^ s.bitAt (s.encodedBit code) then s.bitTarget else s.afterBit } := by
  have hsfr := (fetched_data s).1
  have hbit : s.fetched.skip.skip.bitAt (s.encodedBit code) = s.bitAt (s.encodedBit code) := bitAt_congr hsfr _
  rw [step_eq hd, hinst, go_run, run_bind_of bitAddr_fetched, run_bind_of (rel8_skip _),
    run_bind_of (get_bit_run _ _), hbit]
  cases n <;> cases s.bitAt (s.encodedBit code) <;> rfl

theorem step_JBC (hd : s.decoded = some (code, row)) (hinst : inst code row.operands row.mnemonic = go (inst_JBC code)) :
    s.step = { (s.fetched.skip.skip.withBit (s.encodedBit code) false) with
      PC := if s.bitAt (s.encodedBit code) then s.bitTarget else s.afterBit } := by
  have hsfr := (fetched_data s).1
  have hbit : s.fetched.skip.skip.bitAt (s.encodedBit code) = s.bitAt (s.encodedBit code) := bitAt_congr hsfr _
  rw [step_eq hd, hinst, go_run]
  unfold inst_JBC
  rw [run_bind_of bitAddr_fetched, run_bind_of (rel8_skip _), run_bind_of (get_bit_run _ _), hbit]
  cases s.bitAt (s.encodedBit code) <;> rfl

theorem set_psw_psw (t : Machine) (flags : BitVec 8) : ((set_psw flags).run t).2.psw = flags := by
  have hne : PSW ≠ PSW + 1 := by decide
  have hsfr : ((set_psw flags).run t).2 =
      (t.setDirect PSW (low (flags.setWidth 16))).setDirect (PSW + 1) (high (flags.setWidth 16)) := rfl
  rw [Machine.psw, Machine.low_direct2, Machine.direct1, hsfr, Machine.setDirect_of_ne _ hne, Machine.setDirect_self,
    low_setWidth]

theorem has_cleared (flags : BitVec 8) : has (flags &&& ~~~BIT_C) BIT_C = false := by
  have hclear : ∀ flags : BitVec 8, flags &&& ~~~BIT_C &&& BIT_C = 0 := by decide
  exact decide_eq_false fun hne => hne (hclear flags)

/-- C after ANL. -/
theorem step_ANL (hd : s.decoded = some (code, row)) (hm : row.mnemonic = .ANL) :
    has s.step.psw BIT_C = (has s.psw BIT_C && (row.operands = .CY_NOTBIT ^^ s.bitAt (s.behind.setWidth 16))) := by
  have hsfr := (fetched_data s).1
  obtain ⟨hzero, hoperands⟩ := masked_zero hd (by simp [hm])
  have hpsw : s.fetched.skip.psw = s.psw := psw_congr hsfr
  have hbit : s.fetched.skip.bitAt (s.behind.setWidth 16) = s.bitAt (s.behind.setWidth 16) := bitAt_congr hsfr _
  have hinst : inst code row.operands row.mnemonic = go (inst_ANL code row.operands) := by rw [hm]; rfl
  rw [step_eq hd, hinst, go_run]
  unfold inst_ANL
  rw [run_bind_of (bitAddrMasked_fetched hzero), run_bind_of (get_psw_run _), hpsw]
  cases hC : has s.psw BIT_C with
  | false =>
    have hkept : has s.fetched.skip.psw BIT_C = false := by rw [hpsw, hC]
    exact hkept
  | true =>
    have hkept : has s.fetched.skip.psw BIT_C = true := by rw [hpsw, hC]
    rw [if_pos rfl]
    rcases hoperands hm with hop | hop
    · simp only [hop]
      rw [run_bind_of (get_bit_run _ _), hbit]
      cases s.bitAt (s.behind.setWidth 16) with
      | false => exact (congrArg (has · BIT_C) (set_psw_psw _ _)).trans (has_cleared _)
      | true => exact hkept
    · simp only [hop]
      rw [run_bind_of (get_bit_run _ _), hbit]
      cases s.bitAt (s.behind.setWidth 16) with
      | false => exact hkept
      | true => exact (congrArg (has · BIT_C) (set_psw_psw _ _)).trans (has_cleared _)

theorem step_JB (hd : s.decoded = some (code, row)) (hm : row.mnemonic = .JB) :
    s.step = { s.fetched.skip.skip with
      PC := if s.bitAt (s.encodedBit code) then s.bitTarget else s.afterBit } := by
  have hinst : inst code row.operands row.mnemonic = go (do
      let bit ← bitAddr code
      let jmpAddr ← rel8
      if false ^^ (← get_bit bit) then jumpEven jmpAddr) := by
    simp only [Bool.false_xor]
    rw [hm]
    rfl
  simpa only [Bool.false_xor] using step_branch hd hinst

theorem step_JNB (hd : s.decoded = some (code, row)) (hm : row.mnemonic = .JNB) :
    s.step = { s.fetched.skip.skip with
      PC := if s.bitAt (s.encodedBit code) then s.afterBit else s.bitTarget } := by
  have hinst : inst code row.operands row.mnemonic = go (do
      let bit ← bitAddr code
      let jmpAddr ← rel8
      if true ^^ (← get_bit bit) then jumpEven jmpAddr) := by
    simp only [Bool.true_xor]
    rw [hm]
    rfl
  rw [step_branch hd hinst]
  cases s.bitAt (s.encodedBit code) <;> rfl

theorem goesOn_JB {b : BitVec 16} (h : s.bitAt b = true) : s.GoesOn .JB b := by
  rintro code row hd hm rfl
  rw [step_JB hd hm, h]
  rfl

theorem goesOn_JNB {b : BitVec 16} (h : s.bitAt b = false) : s.GoesOn .JNB b := by
  rintro code row hd hm rfl
  rw [step_JNB hd hm, h]
  rfl

theorem bitAt_of_setsTo {t : Machine} {b : BitVec 16} {v : Bool} (h : s.SetsTo t b v) : t.bitAt b = v :=
  (h.1 _ _).trans (if_pos ⟨rfl, rfl⟩)

/-- ANL looks at its bit only when C is set. -/
theorem anl_iff {c n b b' : Bool} : (c && (n ^^ b')) = (c && (n ^^ b)) ↔ (c = true → b = b') := by
  revert c n b b'
  decide

/-- JB, JNB and JBC use the bit that they name. SETB, CLR and ANL use it below 0x100; from there on they take
another one, which is right only where it makes no difference. -/
theorem bit_addressing_iff (hd : s.decoded = some (code, row)) (hm : row.mnemonic.isBit = true) :
    s.BitRight code row ↔ s.BitFits code row := by
  obtain ⟨hsfr, hiram, hxram⟩ := fetched_data s
  unfold Machine.BitRight Machine.BitFits
  cases hmnemonic : row.mnemonic
  case SETB =>
    have hinst : inst code row.operands row.mnemonic = go (do set_bit (← bitAddrMasked code) true) := by
      rw [hmnemonic]
      rfl
    have hiff := set_bit_right_iff hd (by simp [hmnemonic]) hinst
    exact (and_iff_left_of_imp fun h => goesOn_JB (bitAt_of_setsTo h)).trans hiff
  case CLR =>
    have hinst : inst code row.operands row.mnemonic = go (do set_bit (← bitAddrMasked code) false) := by
      rw [hmnemonic]
      rfl
    have hiff := set_bit_right_iff hd (by simp [hmnemonic]) hinst
    exact (and_iff_left_of_imp fun h => goesOn_JNB (bitAt_of_setsTo h)).trans hiff
  case ANL =>
    dsimp only
    rw [step_ANL hd hmnemonic]
    exact anl_iff
  case JB =>
    dsimp only
    rw [step_JB hd hmnemonic]
    exact iff_of_true ⟨rfl, hsfr, hiram, hxram⟩ trivial
  case JNB =>
    dsimp only
    rw [step_JNB hd hmnemonic]
    exact iff_of_true ⟨rfl, hsfr, hiram, hxram⟩ trivial
  case JBC =>
    have hinst : inst code row.operands row.mnemonic = go (inst_JBC code) := by
      rw [hmnemonic]
      rfl
    dsimp only
    rw [step_JBC hd hinst]
    refine iff_of_true ⟨rfl, ?_, hiram, hxram⟩ trivial
    intro addr i
    have hbit := withBit_getLsbD s.fetched.skip.skip (s.encodedBit code) false addr i
    rw [show s.fetched.skip.skip.sfr = s.sfr from hsfr] at hbit
    exact hbit
  all_goals exact absurd hm (by rw [hmnemonic]; decide)

end Instructions

/-- A bit instruction at 0x100, with `b` behind its opcode. All bits are 0. -/
def bitMachine (opcode b : BitVec 8) : Machine where
  sfr := fun _ => 0
  iram := ⟨fun _ => 0, fun _ => 0⟩
  xram := ⟨fun _ => 0, fun _ => 0⟩
  rom := ⟨fun a => if a = 0x100 then 0x08 else if a = 0x101 then opcode else if a = 0x102 then b else 0, fun _ => 0⟩
  PC := 0x100
  ticks := 0
  out := []

/-- `SETB` of the bit 0x05. -/
theorem setb_005 : (bitMachine 0x10 0x05).BitRight 0x0810 ⟨false, 3, .SETB, .BIT_ALONE⟩ :=
  (bit_addressing_iff (by decide +kernel) rfl).mpr (.inl (by decide +kernel))

/-- `SETB` of the bit 0x105 sets the bit 0x05. -/
theorem setb_105 : (bitMachine 0x11 0x05).decoded = some (0x0811, ⟨false, 3, .SETB, .BIT_ALONE⟩) ∧
    (bitMachine 0x11 0x05).encodedBit 0x0811 = 0x105 ∧ (bitMachine 0x11 0x05).step.bitAt 0x05 = true ∧
    (bitMachine 0x11 0x05).step.bitAt 0x105 = false ∧
    ¬ (bitMachine 0x11 0x05).BitRight 0x0811 ⟨false, 3, .SETB, .BIT_ALONE⟩ := by
  have hdecoded : (bitMachine 0x11 0x05).decoded = some (0x0811, ⟨false, 3, .SETB, .BIT_ALONE⟩) := by decide +kernel
  have hencoded : (bitMachine 0x11 0x05).encodedBit 0x0811 = 0x105 := by decide +kernel
  have hbit : (bitMachine 0x11 0x05).step.bitAt 0x105 = false := by decide +kernel
  refine ⟨hdecoded, hencoded, by decide +kernel, hbit, fun h => ?_⟩
  have hset := bitAt_of_setsTo h.1
  rw [hencoded, hbit] at hset
  exact Bool.false_ne_true hset

end Ucsim.Xa
