import Mathlib.Data.List.Range
import Ucsim.Z80.BlockLoops

/-!
# The bytes of an instruction

How many bytes `exec_inst` fetches, and for which codes it gives up. Nothing else moves PC in an instruction that does
not load it.
-/

namespace Ucsim.Z80

/-! ## Fetching -/

/-- PC after so many bytes have been fetched. -/
def advance : Nat → Int → Int
  | 0, PC => PC
  | n + 1, PC => advance n (incAddress PC 1)

theorem incAddress_eq {PC : Int} (h : 0 ≤ PC) : incAddress PC 1 = (PC + 1) % 0x10000 :=
  Int.tmod_eq_emod_of_nonneg (by omega)

theorem advance_eq (n : Nat) {PC : Int} (h : 0 ≤ PC) (hlt : PC < 0x10000) : advance n PC = (PC + n) % 0x10000 := by
  induction n generalizing PC with
  | zero =>
    rw [advance]
    omega
  | succ n ih =>
    rw [advance, incAddress_eq h, ih (by omega) (by omega)]
    omega

theorem incAddress_emod (PC k : Int) : incAddress PC k % 0x10000 = (PC + k) % 0x10000 := by
  have hsum := Int.mul_tdiv_add_tmod (PC + k) 0x10000
  unfold incAddress
  omega

theorem advance_emod (n : Nat) (PC : Int) : advance n PC % 0x10000 = (PC + n) % 0x10000 := by
  induction n generalizing PC with
  | zero =>
    rw [advance]
    omega
  | succ n ih =>
    have hinc : (incAddress PC 1) % 0x10000 = (PC + 1) % 0x10000 := incAddress_emod PC 1
    rw [advance, ih]
    omega

/-- A program that ends with `resGO` after it has fetched so many bytes. -/
structure Fetches (n : Nat) (p : Prog Res) : Prop where
  go : ∀ s, (p.run s).1 = .go
  PC : ∀ s, (p.run s).2.PC = advance n s.PC

/-- A property of all bodies of a `switch`, for the codes that they stand at. -/
theorem switch_induct {α : Type} {P : α → Prop} {cases : List (List Nat × α)} {default : α} {code : BitVec 8}
    (hcase : ∀ c ∈ cases, code.toNat ∈ c.1 → P c.2) (hdefault : (∀ c ∈ cases, code.toNat ∉ c.1) → P default) :
    P (switch cases default code) := by
  unfold switch
  split
  · next c hfind =>
    have hmem := List.find?_some hfind
    exact hcase c (List.mem_of_find?_eq_some hfind) (of_decide_eq_true hmem)
  · next hfind =>
    refine hdefault fun c hc hmem => ?_
    exact List.find?_eq_none.mp hfind c hc (decide_eq_true hmem)

theorem switch_all {α : Type} {P : α → Prop} {cases : List (List Nat × α)} {default : α} {code : BitVec 8}
    (hcase : ∀ c ∈ cases, P c.2) (hdefault : P default) : P (switch cases default code) :=
  switch_induct (fun c hc _ => hcase c hc) fun _ => hdefault

/-- The codes of a table. -/
def keys {α : Type} (cases : List (List Nat × α)) : List Nat := cases.flatMap (·.1)

/-- A table of bodies knows its codes and no others. -/
theorem switchGo_res (cases : List (List Nat × Prog Unit)) (code : BitVec 8) (s : Machine) :
    ((switchGo cases code).run s).1 = if code.toNat ∈ keys cases then .go else .invInst := by
  refine switch_induct (P := fun p : Prog Res => (p.run s).1 = if code.toNat ∈ keys cases then .go else .invInst)
    ?_ fun hno => ?_
  · intro c hc hmem
    obtain ⟨d, hd, rfl⟩ := List.mem_map.mp hc
    have hkey : code.toNat ∈ keys cases := List.mem_flatMap.mpr ⟨d, hd, hmem⟩
    rw [if_pos hkey]
    rfl
  · rw [if_neg]
    · rfl
    · intro hmem
      obtain ⟨d, hd, hcode⟩ := List.mem_flatMap.mp hmem
      exact hno _ (List.mem_map.mpr ⟨d, hd, rfl⟩) hcode

/-! ## Without a prefix -/

/-- The opcodes without an operand behind them. -/
def oneByteOps : List Nat :=
  [0x00, 0x02, 0x03, 0x04, 0x05, 0x07, 0x08, 0x09, 0x0A, 0x0B, 0x0C, 0x0D, 0x0F, 0x12, 0x13, 0x14, 0x15, 0x17,
    0x19, 0x1A, 0x1B, 0x1C, 0x1D, 0x1F, 0x23, 0x24, 0x25, 0x27, 0x29, 0x2B, 0x2C, 0x2D, 0x2F, 0x33, 0x34,
    0x35, 0x37, 0x39, 0x3B, 0x3C, 0x3D, 0x3F, 0x40, 0x41, 0x42, 0x43, 0x44, 0x45, 0x46, 0x47, 0x48, 0x49,
    0x4A, 0x4B, 0x4C, 0x4D, 0x4E, 0x4F, 0x50, 0x51, 0x52, 0x53, 0x54, 0x55, 0x56, 0x57, 0x58, 0x59, 0x5A,
    0x5B, 0x5C, 0x5D, 0x5E, 0x5F, 0x60, 0x61, 0x62, 0x63, 0x64, 0x65, 0x66, 0x67, 0x68, 0x69, 0x6A, 0x6B,
    0x6C, 0x6D, 0x6E, 0x6F, 0x70, 0x71, 0x72, 0x73, 0x74, 0x75, 0x77, 0x78, 0x79, 0x7A, 0x7B, 0x7C, 0x7D,
    0x7E, 0x7F, 0x80, 0x81, 0x82, 0x83, 0x84, 0x85, 0x86, 0x87, 0x88, 0x89, 0x8A, 0x8B, 0x8C, 0x8D, 0x8E,
    0x8F, 0x90, 0x91, 0x92, 0x93, 0x94, 0x95, 0x96, 0x97, 0x98, 0x99, 0x9A, 0x9B, 0x9C, 0x9D, 0x9E, 0x9F,
    0xA0, 0xA1, 0xA2, 0xA3, 0xA4, 0xA5, 0xA6, 0xA7, 0xA8, 0xA9, 0xAA, 0xAB, 0xAC, 0xAD, 0xAE, 0xAF, 0xB0,
    0xB1, 0xB2, 0xB3, 0xB4, 0xB5, 0xB6, 0xB7, 0xB8, 0xB9, 0xBA, 0xBB, 0xBC, 0xBD, 0xBE, 0xBF, 0xC1, 0xC5,
    0xD1, 0xD3, 0xD5, 0xD9, 0xDB, 0xE1, 0xE3, 0xE5, 0xEB, 0xF1, 0xF3, 0xF5, 0xF9, 0xFB]

/-- The opcodes with a byte behind them. -/
def twoByteOps : List Nat :=
  [0x06, 0x0E, 0x16, 0x1E, 0x26, 0x2E, 0x36, 0x3E, 0xC6, 0xCE, 0xD6, 0xDE, 0xE6, 0xEE, 0xF6, 0xFE]

/-- The opcodes with a word behind them. -/
def threeByteOps : List Nat :=
  [0x01, 0x11, 0x21, 0x22, 0x2A, 0x31, 0x32, 0x3A]

theorem dispatch_one {code : BitVec 8} (hcode : code.toNat ∈ oneByteOps) : Fetches 0 (dispatch code) := by
  refine forall_code (P := fun code => Fetches 0 (dispatch code)) ?_ hcode
  repeat' (first
    | exact List.forall_mem_nil _ | refine List.forall_mem_cons.mpr ⟨⟨fun _ => rfl, fun _ => rfl⟩, ?_⟩)

theorem dispatch_two {code : BitVec 8} (hcode : code.toNat ∈ twoByteOps) : Fetches 1 (dispatch code) := by
  refine forall_code (P := fun code => Fetches 1 (dispatch code)) ?_ hcode
  repeat' (first
    | exact List.forall_mem_nil _ | refine List.forall_mem_cons.mpr ⟨⟨fun _ => rfl, fun _ => rfl⟩, ?_⟩)

theorem dispatch_three {code : BitVec 8} (hcode : code.toNat ∈ threeByteOps) : Fetches 2 (dispatch code) := by
  refine forall_code (P := fun code => Fetches 2 (dispatch code)) ?_ hcode
  repeat' (first
    | exact List.forall_mem_nil _ | refine List.forall_mem_cons.mpr ⟨⟨fun _ => rfl, fun _ => rfl⟩, ?_⟩)

/-- The service of the simulator, which may end the program. -/
theorem rst8_fetches (s : Machine) : (rst8.run s).1 ≠ .invInst ∧ (rst8.run s).2.PC = s.PC := by
  have hrun : rst8.run s = (if s.regs.A = 0 then (return .exit : Prog Res) else if s.regs.A = 1 then
      (do let l ← byte .hl_l; go (modify fun s => { s with out := s.out ++ [l] })) else return .go).run s := rfl
  rw [hrun]
  split
  · exact ⟨nofun, rfl⟩
  · split
    · exact ⟨nofun, rfl⟩
    · exact ⟨nofun, rfl⟩

/-! ## Jumps, calls and returns -/

/-- The conditions of the jumps. Those for parity are exchanged. -/
def jpCondition (F : BitVec 8) (n : Nat) : Bool :=
  if n = 4 then condition F 5 else if n = 5 then condition F 4 else condition F n

theorem dispatch_jp (n : Nat) (hn : n < 8) (s : Machine) :
    (dispatch (BitVec.ofNat 8 (0xC2 + 8 * n))).run s = (go (jpIf (jpCondition s.regs.F n))).run s := by
  interval_cases n <;> rfl

theorem dispatch_jr (n : Nat) (hn : n < 4) (s : Machine) :
    (dispatch (BitVec.ofNat 8 (0x20 + 8 * n))).run s =
      (do let j ← fetch; go (jrIf (condition s.regs.F n) j) : Prog Res).run s := by
  interval_cases n <;> rfl

/-- A jump that is taken. -/
def Machine.TakesJp (s : Machine) : Prop :=
  s.next = 0xC3 ∨ s.next = 0xE9 ∨ ∃ n < 8, jpCondition s.regs.F n ∧ s.next = BitVec.ofNat 8 (0xC2 + 8 * n)

/-- A relative jump that is taken. -/
def Machine.TakesJr (s : Machine) : Prop :=
  s.next = 0x18 ∨ (s.next = 0x10 ∧ s.regs.BC.h - 1 ≠ 0) ∨
    ∃ n < 4, condition s.regs.F n ∧ s.next = BitVec.ofNat 8 (0x20 + 8 * n)

/-- The instructions behind a prefix that load PC: `JP (IX)`, `JP (IY)`, `RETN` and `RETI`. -/
def Machine.LoadsPrefixed (s : Machine) : Prop :=
  (s.next = 0xDD ∨ s.next = 0xFD) ∧ s.skip.next = 0xE9 ∨ s.next = 0xED ∧ (s.skip.next = 0x45 ∨ s.skip.next = 0x4D)

/-- The instruction at PC loads PC. -/
def Machine.LoadsPC (s : Machine) : Prop :=
  s.TakesCall ∨ s.TakesRet ∨ s.Restarts ∨ s.TakesJp ∨ s.TakesJr ∨ s.LoadsPrefixed

/-- `DJNZ` is a relative jump behind a decrement. -/
theorem inst_djnz_run (s : Machine) :
    inst_djnz.run s = (go (jrIf (decide (s.regs.BC.h - 1 ≠ 0)) s.next)).run
      { s.skip with regs := { s.regs with BC := { s.regs.BC with h := s.regs.BC.h - 1 } } } := rfl

/-- `DJNZ` that ends its loop. -/
theorem djnz_false (s : Machine) (h : s.regs.BC.h - 1 = 0) : (inst_djnz.run s).2.PC = advance 1 s.PC := by
  rw [inst_djnz_run, decide_eq_false (not_not_intro h)]
  rfl

/-- The jumps, calls, returns and restarts. -/
def flowOps : List Nat :=
  [0x10, 0x18, 0x20, 0x28, 0x30, 0x38, 0xC0, 0xC2, 0xC3, 0xC4, 0xC7, 0xC8, 0xC9, 0xCA, 0xCC, 0xCD, 0xD0, 0xD2,
    0xD4, 0xD7, 0xD8, 0xDA, 0xDC, 0xDF, 0xE0, 0xE2, 0xE4, 0xE7, 0xE8, 0xE9, 0xEA, 0xEC, 0xEF, 0xF0, 0xF2,
    0xF4, 0xF7, 0xF8, 0xFA, 0xFC, 0xFF]

theorem dispatch_flow {code : BitVec 8} (hcode : code.toNat ∈ flowOps) (s : Machine) :
    ((dispatch code).run s).1 = .go := by
  revert s
  refine forall_code (P := fun code => ∀ s, ((dispatch code).run s).1 = .go) ?_ hcode
  repeat' (first | exact List.forall_mem_nil _ | refine List.forall_mem_cons.mpr ⟨fun _ => rfl, ?_⟩)

/-- A code is a whole instruction, a jump, `HALT`, the service of the simulator or one of the four codes in front of
others. -/
theorem codes_split (code : BitVec 8) :
    code.toNat ∈ oneByteOps ∨ code.toNat ∈ twoByteOps ∨ code.toNat ∈ threeByteOps ∨ code.toNat ∈ flowOps ∨
      code = 0x76 ∨ code = 0xCF ∨ code = 0xCB ∨ code = 0xED ∨ code = 0xDD ∨ code = 0xFD := by
  decide +revert +kernel

/-! ## Behind CB and ED -/

theorem shiftOperand_fetches (op : BitVec 8 → BitVec 8 → BitVec 8 × BitVec 8) (base : Nat) (code : BitVec 8) :
    Fetches 0 (shiftOperand op base code) := by
  refine ⟨fun _ => rfl, ?_⟩
  have hbody : ∀ s, ((switch
      [([base], onByte op .bc_h), ([base + 1], onByte op .bc_l), ([base + 2], onByte op .de_h),
       ([base + 3], onByte op .de_l), ([base + 4], onByte op .hl_h), ([base + 5], onByte op .hl_l),
       ([base + 6], do onMem op (← word .HL)), ([base + 7], onByte op .A)] (pure ()) code).run s).2.PC = s.PC := by
    refine switch_all (P := fun p : Prog Unit => ∀ s, (p.run s).2.PC = s.PC) ?_ fun _ => rfl
    repeat' (first | exact List.forall_mem_nil _ | refine List.forall_mem_cons.mpr ⟨fun _ => rfl, ?_⟩)
  exact hbody

theorem inst_cb_set_fetches (code : BitVec 8) : Fetches 0 (inst_cb_set code) := by
  refine ⟨fun _ => rfl, ?_⟩
  have hbody : ∀ s, ((switch
      [([0x0], onByte (set_byte (bit_bitnum code)) .bc_h), ([0x1], onByte (set_byte (bit_bitnum code)) .bc_l),
       ([0x2], onByte (set_byte (bit_bitnum code)) .de_h), ([0x3], onByte (set_byte (bit_bitnum code)) .de_l),
       ([0x4], onByte (set_byte (bit_bitnum code)) .hl_h), ([0x5], onByte (set_byte (bit_bitnum code)) .hl_h),
       ([0x6], do onMem (set_byte (bit_bitnum code)) (← word .HL)),
       ([0x7], onByte (set_byte (bit_bitnum code)) .de_h)] (pure ()) code).run s).2.PC = s.PC := by
    refine switch_all (P := fun p : Prog Unit => ∀ s, (p.run s).2.PC = s.PC) ?_ fun _ => rfl
    repeat' (first | exact List.forall_mem_nil _ | refine List.forall_mem_cons.mpr ⟨fun _ => rfl, ?_⟩)
  exact hbody

theorem inst_cb_res_fetches (code : BitVec 8) : Fetches 0 (inst_cb_res code) := by
  unfold inst_cb_res
  split
  · exact ⟨fun _ => rfl, fun _ => rfl⟩
  · exact shiftOperand_fetches _ _ _

/-- The `switch` of `inst_cb`. -/
def cbCases (code : BitVec 8) : List (List Nat × Prog Res) :=
  [(List.range' 0x00 8, inst_cb_rlc code), (List.range' 0x08 8, inst_cb_rrc code),
   (List.range' 0x10 8, inst_cb_rl code), (List.range' 0x18 8, inst_cb_rr code),
   (List.range' 0x20 8, inst_cb_sla code), (List.range' 0x28 8, inst_cb_sra code),
   (List.range' 0x30 8, inst_cb_slia code), (List.range' 0x38 8, inst_cb_srl code),
   (List.range' 0x40 64, inst_cb_bit code), (List.range' 0x80 64, inst_cb_res code),
   (List.range' 0xC0 64, inst_cb_set code)]

/-- The table of the shifts and bits has all codes. -/
theorem inst_cb_fetches : Fetches 1 inst_cb := by
  have hcode : ∀ code : BitVec 8, Fetches 0 (switch (cbCases code) unknown code) := by
    intro code
    refine switch_induct (P := Fetches 0) (fun c hc hmem => ?_) fun hno => ?_
    · clear hmem
      revert c
      repeat refine List.forall_mem_cons.mpr ⟨shiftOperand_fetches _ _ _, ?_⟩
      refine List.forall_mem_cons.mpr ⟨inst_cb_res_fetches code, ?_⟩
      exact List.forall_mem_singleton.mpr (inst_cb_set_fetches code)
    · have hlt := code.isLt
      unfold cbCases at hno
      simp only [List.forall_mem_cons, List.mem_range'_1] at hno
      omega
  exact ⟨fun s => (hcode s.next).go s.skip.ticked, fun s => (hcode s.next).PC s.skip.ticked⟩

/-- The codes behind ED that fetch nothing, apart from those that move or search. -/
def edPlainOps : List Nat :=
  [0x42, 0x44, 0x47, 0x48, 0x49, 0x4A, 0x4F, 0x50, 0x51, 0x52, 0x57, 0x58, 0x59, 0x5A, 0x62, 0x68, 0x69, 0x6A,
    0x70, 0x71, 0x72, 0x78, 0x79, 0x7A, 0xA2, 0xA3, 0xAA, 0xAB]

/-- `LDI`, `CPI`, `LDD`, `CPD` and the loops. -/
def edBlockOps : List Nat := [0xA0, 0xA1, 0xA8, 0xA9, 0xB0, 0xB1, 0xB8, 0xB9]

/-- The codes behind ED that fetch an address. -/
def edWordOps : List Nat := [0x43, 0x4B, 0x53, 0x5B, 0x63, 0x6B, 0x73, 0x7B]

theorem ed_plain {code : BitVec 8} (hcode : code.toNat ∈ edPlainOps) (s : Machine) : (s.ed code).PC = s.PC := by
  revert s
  refine forall_code (P := fun code => ∀ s : Machine, (s.ed code).PC = s.PC) ?_ hcode
  repeat' (first | exact List.forall_mem_nil _ | refine List.forall_mem_cons.mpr ⟨fun _ => rfl, ?_⟩)

theorem ed_word {code : BitVec 8} (hcode : code.toNat ∈ edWordOps) (s : Machine) :
    (s.ed code).PC = advance 2 s.PC := by
  revert s
  refine forall_code (P := fun code => ∀ s : Machine, (s.ed code).PC = advance 2 s.PC) ?_ hcode
  repeat' (first | exact List.forall_mem_nil _ | refine List.forall_mem_cons.mpr ⟨fun _ => rfl, ?_⟩)

/-- A program that leaves PC. -/
def KeepsPC (p : Prog Unit) : Prop := ∀ s, (p.run s).2.PC = s.PC

theorem KeepsPC.seq {f g : Prog Unit} (hf : KeepsPC f) (hg : KeepsPC g) : KeepsPC (do f; g) := fun s =>
  (hg (f.run s).2).trans (hf s)

theorem KeepsPC.seqHL {f : BitVec 16 → Prog Unit} {g : Prog Unit} (hf : ∀ addr, KeepsPC (f addr)) (hg : KeepsPC g) :
    KeepsPC (do f (← word .HL); g) := fun s => (hg (((f (s.regs.word .HL)).run s).2)).trans (hf (s.regs.word .HL) s)

theorem setRegs_keeps (f : Regs → Regs) : KeepsPC (setRegs f) := fun _ => rfl

theorem step_keeps (r : Word) (by1 : BitVec 16) : KeepsPC (step r by1) := fun _ => rfl

theorem store1_keeps (addr : BitVec 16) (val : BitVec 8) : KeepsPC (store1 addr val) := fun _ => rfl

theorem aluMem_keeps (op : BitVec 8 → Regs → Regs) (addr : BitVec 16) : KeepsPC (aluMem op addr) := fun _ => rfl

theorem moveByte_keeps (dir : BitVec 16) : KeepsPC (moveByte dir) := fun s =>
  (KeepsPC.seq (store1_keeps (s.regs.word .DE) (s.ram (s.regs.word .HL)))
    (.seq (step_keeps .HL dir) (.seq (step_keeps .DE dir) (step_keeps .BC (-1))))) s

theorem whileBC_keeps {body : Prog Unit} (hbody : KeepsPC body) (n : Nat) : KeepsPC (whileBC body n) := by
  intro s
  induction n generalizing s with
  | zero => rfl
  | succ n ih =>
    rw [whileBC_succ]
    split
    · exact (ih _).trans (hbody s)
    · exact hbody s

theorem search_keeps (dir : BitVec 16) (n : Nat) : KeepsPC (whileBCUnless (searchByte dir) n) := by
  intro s
  induction n generalizing s with
  | zero => rfl
  | succ n ih =>
    rw [whileBCUnless_succ]
    split
    · rfl
    · split
      · exact ih _
      · rfl

theorem CPD_keeps : KeepsPC (do
    clearFlags BIT_ALL
    if ← sameByte then setFlags (BIT_Z ||| BIT_P)
    step .HL 1
    step .BC (-1)
    flagBC) := fun s => (congrArg Machine.PC (ed_CPD s)).trans rfl

theorem absent {l ops : List Nat} (h : ∀ n ∈ l, n ∉ ops) {code : BitVec 8} (hmem : code.toNat ∈ l) :
    code.toNat ∉ ops := h _ hmem

theorem ed_block {code : BitVec 8} (hcode : code.toNat ∈ edBlockOps) (s : Machine) : (s.ed code).PC = s.PC := by
  have hcases : ∀ d ∈ edCases, code.toNat ∈ d.1 → KeepsPC d.2 := by
    -- the last cases of the table
    repeat refine List.forall_mem_cons.mpr ⟨fun hmem => absurd hcode (absent (by decide) hmem), ?_⟩
    refine List.forall_mem_cons.mpr ⟨fun _ => .seq (setRegs_keeps _) (.seq (moveByte_keeps 1) (setRegs_keeps _)), ?_⟩
    refine List.forall_mem_cons.mpr ⟨fun _ => .seqHL (aluMem_keeps cp_bytereg)
      (.seq (step_keeps .HL 1) (.seq (step_keeps .BC (-1)) (setRegs_keeps _))), ?_⟩
    refine List.forall_mem_cons.mpr
      ⟨fun _ => .seq (setRegs_keeps _) (.seq (moveByte_keeps (-1)) (setRegs_keeps _)), ?_⟩
    refine List.forall_mem_cons.mpr ⟨fun _ => CPD_keeps, ?_⟩
    refine List.forall_mem_cons.mpr ⟨fun _ => .seq (setRegs_keeps _) (whileBC_keeps (moveByte_keeps 1) _), ?_⟩
    refine List.forall_mem_cons.mpr ⟨fun _ => .seq (setRegs_keeps _) (.seq (setRegs_keeps _) (search_keeps 1 _)), ?_⟩
    refine List.forall_mem_cons.mpr ⟨fun _ => .seq (setRegs_keeps _) (whileBC_keeps (moveByte_keeps (-1)) _), ?_⟩
    exact List.forall_mem_singleton.mpr fun _ => .seq (setRegs_keeps _) (search_keeps (-1) _)
  revert s
  refine switch_induct (P := fun p : Prog Res => ∀ s, (p.run s).2.PC = s.PC) (fun c hc => ?_) fun _ _ => rfl
  obtain ⟨d, hd, rfl⟩ := List.mem_map.mp hc
  exact fun hmem s => hcases d hd hmem s

/-! ## Behind DD and FD -/

/-- The codes behind DD and FD that fetch nothing, apart from the one that loads PC. -/
def xdPlainOps : List Nat :=
  [0x09, 0x19, 0x23, 0x24, 0x25, 0x29, 0x2B, 0x2C, 0x2D, 0x39, 0x44, 0x45, 0x4C, 0x4D, 0x54, 0x55, 0x5C, 0x5D,
    0x60, 0x61, 0x62, 0x63, 0x64, 0x67, 0x68, 0x69, 0x6A, 0x6B, 0x6C, 0x6D, 0x6F, 0x7C, 0x7D, 0x84, 0x85,
    0x8C, 0x8D, 0x94, 0x95, 0x9C, 0x9D, 0xA4, 0xA5, 0xAC, 0xAD, 0xB4, 0xB5, 0xBC, 0xBD, 0xE1, 0xE3, 0xE5,
    0xF9]

/-- The codes behind DD and FD that fetch a byte. -/
def xdByteOps : List Nat :=
  [0x26, 0x2E, 0x34, 0x35, 0x46, 0x4E, 0x56, 0x5E, 0x66, 0x6E, 0x70, 0x71, 0x72, 0x73, 0x74, 0x75, 0x77, 0x7E,
    0x86, 0x8E, 0x96, 0x9E, 0xA6, 0xAE, 0xB6, 0xBE]

/-- The codes behind DD and FD that fetch two bytes. -/
def xdWordOps : List Nat := [0x21, 0x22, 0x2A, 0x36]

section Index

variable (X : Index) {code : BitVec 8}

theorem xd_plain (hcode : code.toNat ∈ xdPlainOps) : Fetches 0 (dispatchXd X code) := by
  refine forall_code (P := fun code => Fetches 0 (dispatchXd X code)) ?_ hcode
  repeat' (first
    | exact List.forall_mem_nil _ | refine List.forall_mem_cons.mpr ⟨⟨fun _ => rfl, fun _ => rfl⟩, ?_⟩)

theorem xd_byte (hcode : code.toNat ∈ xdByteOps) : Fetches 1 (dispatchXd X code) := by
  refine forall_code (P := fun code => Fetches 1 (dispatchXd X code)) ?_ hcode
  repeat' (first
    | exact List.forall_mem_nil _ | refine List.forall_mem_cons.mpr ⟨⟨fun _ => rfl, fun _ => rfl⟩, ?_⟩)

theorem xd_word (hcode : code.toNat ∈ xdWordOps) : Fetches 2 (dispatchXd X code) := by
  refine forall_code (P := fun code => Fetches 2 (dispatchXd X code)) ?_ hcode
  repeat' (first
    | exact List.forall_mem_nil _ | refine List.forall_mem_cons.mpr ⟨⟨fun _ => rfl, fun _ => rfl⟩, ?_⟩)

/-- All codes that `inst_Xd` knows. -/
def xdOps : List Nat := xdPlainOps ++ xdByteOps ++ xdWordOps ++ [0xCB, 0xE9]

theorem xd_unknown (hcode : code.toNat ∉ xdOps) : dispatchXd X code = return .invInst := by
  refine switch_induct (P := fun p : Prog Res => p = return .invInst) (fun c hc hmem => absurd ?_ hcode) fun _ => rfl
  revert c
  repeat' (first
    | exact List.forall_mem_nil _ | refine List.forall_mem_cons.mpr ⟨fun hmem => ?_, ?_⟩)
  all_goals
    dsimp only at hmem
    exact (show (_ : List Nat) ⊆ xdOps by decide) hmem

/-! ### Behind a displacement -/

theorem copyOut_res (tmp : BitVec 8) (base : Nat) (s : Machine) (hbase : base ≤ code.toNat)
    (hlt : code.toNat < base + 8) : ((copyOut tmp base code).run s).1 = .go := by
  unfold copyOut
  rw [switchGo_res, if_pos]
  simp only [keys, List.flatMap_cons, List.flatMap_nil, List.append_nil, List.singleton_append, List.mem_cons,
    List.not_mem_nil, or_false]
  omega

theorem copyOut_PC (tmp : BitVec 8) (base : Nat) (s : Machine) : ((copyOut tmp base code).run s).2.PC = s.PC := by
  revert s
  refine switch_all (P := fun p : Prog Res => ∀ s, (p.run s).2.PC = s.PC) ?_ fun _ => rfl
  repeat' (first | exact List.forall_mem_nil _ | refine List.forall_mem_cons.mpr ⟨fun _ => rfl, ?_⟩)

/-- The byte is written back when the register was found. -/
theorem updateByte_run (op : BitVec 8 → BitVec 8 → BitVec 8 × BitVec 8) {dst : BitVec 8 → Prog Res}
    (hPC : ∀ tmp s, ((dst tmp).run s).2.PC = s.PC) (n_offset : BitVec 8) (s : Machine) :
    (∃ tmp u, ((updateByte X op dst n_offset).run s).1 = ((dst tmp).run u).1) ∧
      ((updateByte X op dst n_offset).run s).2.PC = s.PC := by
  let p := op (s.ram (add_u16_disp (s.regs.word X.w) n_offset)) (s.regs.byte .F)
  let u : Machine := { s with regs := s.regs.setByte p.2 .F }
  have hrun : (updateByte X op dst n_offset).run s =
      (if ((dst p.1).run u).1 = .go then
        (do store1 (add_u16_disp (s.regs.word X.w) n_offset) p.1; return ((dst p.1).run u).1 : Prog Res)
        else return ((dst p.1).run u).1).run ((dst p.1).run u).2 := rfl
  rw [hrun]
  split
  · exact ⟨⟨p.1, u, rfl⟩, hPC p.1 u⟩
  · exact ⟨⟨p.1, u, rfl⟩, hPC p.1 u⟩

theorem update_copy (op : BitVec 8 → BitVec 8 → BitVec 8 × BitVec 8) (base : Nat) (n_offset : BitVec 8)
    (hcode : code.toNat ∈ List.range' base 8) : Fetches 0 (updateByte X op (copyOut · base code) n_offset) := by
  obtain ⟨hbase, hlt⟩ := List.mem_range'_1.mp hcode
  have hPC : ∀ tmp s, ((copyOut tmp base code).run s).2.PC = s.PC := fun tmp => copyOut_PC tmp base
  refine ⟨fun s => ?_, fun s => (updateByte_run X op hPC n_offset s).2⟩
  obtain ⟨tmp, u, hres⟩ := (updateByte_run X op hPC n_offset s).1
  exact hres.trans (copyOut_res tmp base u hbase hlt)

/-- The `switch` of `inst_XXcb`. -/
def xxcbCases (n_offset code : BitVec 8) : List (List Nat × Prog Res) :=
  [(List.range' 0x00 8, inst_XXcb_rlc X n_offset code), (List.range' 0x08 8, inst_XXcb_rrc X n_offset code),
   (List.range' 0x10 8, inst_XXcb_rl X n_offset code), (List.range' 0x18 8, inst_XXcb_rr X n_offset code),
   (List.range' 0x20 8, inst_XXcb_sla X n_offset code), (List.range' 0x28 8, inst_XXcb_sra X n_offset code),
   (List.range' 0x30 8, inst_XXcb_slia X n_offset code), (List.range' 0x38 8, inst_XXcb_srl X n_offset code),
   ([0x46, 0x4E, 0x56, 0x5E, 0x66, 0x6E, 0x76, 0x7E], inst_XXcb_bit X n_offset code),
   (List.range' 0x80 64, inst_XXcb_res X n_offset code), (List.range' 0xC0 64, inst_XXcb_set X n_offset code)]

theorem inst_XXcb_run (s : Machine) : (inst_XXcb X).run s =
    (switch (xxcbCases X s.next s.skip.next) unknown s.skip.next).run s.skip.skip.ticked := rfl

/-- The codes behind a displacement that end with `resGO`. -/
def xxcbOps : List Nat :=
  List.range' 0x00 64 ++ [0x46, 0x4E, 0x56, 0x5E, 0x66, 0x6E, 0x76, 0x7E] ++ List.range' 0x80 64

/-- `SET` finds no register for any of its codes, and does not write the byte back. -/
theorem inst_XXcb_set_run (n_offset : BitVec 8) (hcode : 0xC0 ≤ code.toNat) (s : Machine) :
    (inst_XXcb_set X n_offset code).run s = (.invInst, s) := by
  have hdst : ∀ tmp, switchGo
      [([0x0], setByte .bc_h tmp), ([0x1], setByte .bc_l tmp), ([0x2], setByte .de_h tmp),
       ([0x3], setByte .de_l tmp), ([0x4], setByte .de_h tmp), ([0x5], setByte .de_h tmp), ([0x6], pure ()),
       ([0x7], setByte .de_h tmp)] code = return .invInst := by
    intro tmp
    refine switch_induct (P := fun p : Prog Res => p = return .invInst) (fun c hc hmem => absurd hcode ?_) fun _ => rfl
    revert c
    repeat' (first | exact List.forall_mem_nil _ | refine List.forall_mem_cons.mpr ⟨fun hmem => ?_, ?_⟩)
    all_goals
      rw [List.mem_singleton.mp hmem]
      decide
  simp only [inst_XXcb_set, hdst]
  rfl

theorem inst_XXcb_res_fetches (n_offset : BitVec 8) : Fetches 0 (inst_XXcb_res X n_offset code) := by
  have hlt : (code &&& 7).toNat < 8 := by
    have hand : (code &&& 7).toNat = code.toNat &&& 7 := BitVec.toNat_and code 7
    rw [hand]
    exact Nat.lt_of_le_of_lt Nat.and_le_right (by omega)
  exact update_copy X (res_byte (bit_bitnum code)) 0x00 n_offset (List.mem_range'_1.mpr ⟨Nat.zero_le _, hlt⟩)

theorem inst_XXcb_bit_fetches (n_offset : BitVec 8) : Fetches 0 (inst_XXcb_bit X n_offset code) :=
  ⟨fun _ => rfl, fun _ => rfl⟩

theorem xxcb_known (n_offset : BitVec 8) (hcode : code.toNat ∈ xxcbOps) :
    Fetches 0 (switch (xxcbCases X n_offset code) unknown code) := by
  simp only [xxcbOps, List.mem_append, List.mem_range'_1, List.mem_cons, List.not_mem_nil, or_false] at hcode
  refine switch_induct (P := Fetches 0) (fun c hc => ?_) fun hno => ?_
  · revert c
    refine List.forall_mem_cons.mpr ⟨update_copy X rlc_byte 0x00 n_offset, ?_⟩
    refine List.forall_mem_cons.mpr ⟨update_copy X rrc_byte 0x08 n_offset, ?_⟩
    refine List.forall_mem_cons.mpr ⟨update_copy X rl_byte 0x10 n_offset, ?_⟩
    refine List.forall_mem_cons.mpr ⟨update_copy X rr_byte 0x18 n_offset, ?_⟩
    refine List.forall_mem_cons.mpr ⟨update_copy X sla_byte 0x20 n_offset, ?_⟩
    refine List.forall_mem_cons.mpr ⟨update_copy X sra_byte 0x28 n_offset, ?_⟩
    refine List.forall_mem_cons.mpr ⟨update_copy X slia_byte 0x30 n_offset, ?_⟩
    refine List.forall_mem_cons.mpr ⟨update_copy X srl_byte 0x38 n_offset, ?_⟩
    refine List.forall_mem_cons.mpr ⟨fun _ => inst_XXcb_bit_fetches X n_offset, ?_⟩
    refine List.forall_mem_cons.mpr ⟨fun _ => inst_XXcb_res_fetches X n_offset, ?_⟩
    refine List.forall_mem_singleton.mpr fun hmem => ?_
    have hset := List.mem_range'_1.mp hmem
    omega
  · have hall := hno
    unfold xxcbCases at hall
    simp only [List.forall_mem_cons, List.mem_range'_1] at hall
    simp only [List.mem_cons, List.not_mem_nil, or_false] at hall
    omega

/-- The codes that the `switch` does not have: PC is set back by one. -/
theorem xxcb_unknown (n_offset : BitVec 8) (hcode : code.toNat ∉ xxcbOps) (hset : code.toNat < 0xC0) :
    switch (xxcbCases X n_offset code) unknown code = unknown := by
  simp only [xxcbOps, List.mem_append, List.mem_range'_1, List.mem_cons, List.not_mem_nil, or_false] at hcode
  refine switch_induct (P := fun p : Prog Res => p = unknown) (fun c hc hmem => ?_) fun _ => rfl
  exfalso
  revert c
  repeat' (first | exact List.forall_mem_nil _ | refine List.forall_mem_cons.mpr ⟨fun hmem => ?_, ?_⟩)
  all_goals
    simp only [List.mem_range'_1, List.mem_cons, List.not_mem_nil, or_false] at hmem
    omega

theorem xxcb_set (n_offset : BitVec 8) (hset : 0xC0 ≤ code.toNat) :
    switch (xxcbCases X n_offset code) unknown code = inst_XXcb_set X n_offset code := by
  have hlt := code.isLt
  refine switch_induct (P := fun p : Prog Res => p = inst_XXcb_set X n_offset code) (fun c hc hmem => ?_) fun hno => ?_
  · revert c
    repeat' (first | exact List.forall_mem_nil _ | refine List.forall_mem_cons.mpr ⟨fun hmem => ?_, ?_⟩)
    rotate_right
    · rfl
    all_goals
      simp only [List.mem_range'_1, List.mem_cons, List.not_mem_nil, or_false] at hmem
      omega
  · unfold xxcbCases at hno
    simp only [List.forall_mem_cons, List.mem_range'_1] at hno
    omega

theorem inst_XXcb_fetches {s : Machine} (hcode : s.skip.next.toNat ∈ xxcbOps) :
    ((inst_XXcb X).run s).1 = .go ∧ ((inst_XXcb X).run s).2.PC = advance 2 s.PC := by
  rw [inst_XXcb_run]
  exact ⟨(xxcb_known X s.next hcode).go _, (xxcb_known X s.next hcode).PC _⟩

end Index

end Ucsim.Z80
