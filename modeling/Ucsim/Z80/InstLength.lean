import Ucsim.Z80.InvalidCodes

/-!
# Lengths of instructions

`inst_length` finds the length of an instruction in the tables of the disassembler. Here it is compared with what
`exec_inst` fetches.
-/

namespace Ucsim.Z80

/-! ## The tables -/

/-- `disass_z80`, its codes by their length. All masks of the tables are 0xff. -/
def disass_z80 : List (List Nat × Nat) :=
  [([0x01, 0x11, 0x19, 0x21, 0x22, 0x2A, 0x31, 0x32, 0x3A, 0xC2, 0xC3, 0xC4, 0xCA, 0xCC, 0xCD, 0xD2, 0xD4, 0xDA,
      0xDC, 0xE2, 0xE4, 0xEA, 0xEC, 0xF2, 0xF4, 0xFA, 0xFC], 3),
   ([0x06, 0x0E, 0x10, 0x16, 0x18, 0x1E, 0x20, 0x26, 0x28, 0x2E, 0x30, 0x36, 0x38, 0x3E, 0xC6, 0xCB, 0xCE, 0xD3,
      0xD6, 0xDB, 0xDD, 0xDE, 0xE6, 0xED, 0xEE, 0xF6, 0xFE], 2),
   (List.range' 0x00 0x100, 1)]

def disass_z80_cb : List (List Nat × Nat) := [(List.range' 0x00 0x100, 1)]

def disass_z80_ed : List (List Nat × Nat) :=
  [([0x00, 0x40, 0x41, 0x42, 0x43, 0x44, 0x45, 0x46, 0x47, 0x48, 0x49, 0x4A, 0x4B, 0x4D, 0x4F, 0x50, 0x51, 0x52,
      0x53, 0x56, 0x57, 0x58, 0x59, 0x5A, 0x5B, 0x5E, 0x5F, 0x60, 0x61, 0x62, 0x63, 0x67, 0x68, 0x69, 0x6A, 0x6B,
      0x6F, 0x70, 0x71, 0x72, 0x73, 0x78, 0x79, 0x7A, 0x7B, 0xA0, 0xA1, 0xA2, 0xA3, 0xA8, 0xA9, 0xAA, 0xAB, 0xB0,
      0xB1, 0xB2, 0xB3, 0xB8, 0xB9, 0xBA, 0xBB], 1)]

/-- `disass_z80_dd` and `disass_z80_fd`. -/
def disass_z80_xd : List (List Nat × Nat) :=
  [([0x21, 0x22, 0x2A, 0x36], 3),
   ([0x26, 0x2E, 0x46, 0x4E, 0x56, 0x5E, 0x66, 0x6E, 0x70, 0x71, 0x72, 0x73, 0x74, 0x75, 0x77, 0x7E, 0x34, 0x86,
      0x35, 0x8E, 0x96, 0x9E, 0xA6, 0xAE, 0xB6, 0xBE], 2),
   ([0x44, 0x45, 0x4C, 0x4D, 0x54, 0x55, 0x5C, 0x5D, 0x60, 0x61, 0x62, 0x63, 0x64, 0x67, 0x68, 0x69, 0x6A, 0x6B,
      0x6C, 0x6D, 0x6F, 0x7C, 0x7D, 0xF9, 0x23, 0x24, 0x2C, 0x09, 0x19, 0x29, 0x39, 0x84, 0x85, 0x25, 0x2B, 0x2D,
      0x8C, 0x8D, 0x94, 0x95, 0x9C, 0x9D, 0xA4, 0xA5, 0xAC, 0xAD, 0xB4, 0xB5, 0xBC, 0xBD, 0xCB, 0xE1, 0xE3, 0xE5,
      0xE9], 1)]

/-- `disass_z80_ddcb` and `disass_z80_fdcb`. -/
def disass_z80_xdcb : List (List Nat × Nat) :=
  [(List.range' 0x00 0x47 ++ [0x4E, 0x56, 0x5E, 0x66, 0x6E, 0x76, 0x7E] ++ List.range' 0x80 0x80, 2)]

/-- The length in the row of a table, and so many bytes more. It is 0 behind the last row. -/
def rowLength (table : List (List Nat × Nat)) (more : Nat) (code : BitVec 8) : Nat :=
  switch (table.map fun row => (row.1, row.2 + more)) 0 code

/-- `get_mem`. Past the end there is the dummy cell. -/
def get_mem (dummy : BitVec 8) (ram : BitVec 16 → BitVec 8) (addr : Int) : BitVec 8 :=
  if 0 ≤ addr ∧ addr < 0x10000 then ram (BitVec.ofInt 16 addr) else dummy

/-- `get_disasm_info`, its length, from the bytes at the address, behind it, and three behind it. -/
def disasmLength (code code1 code3 : BitVec 8) : Nat :=
  if code = 0xCB then rowLength disass_z80_cb 1 code1
  else if code = 0xED then rowLength disass_z80_ed 1 code1
  else if code = 0xDD ∨ code = 0xFD then
    if code1 = 0xCB then rowLength disass_z80_xdcb 2 code3 else rowLength disass_z80_xd 1 code1
  else rowLength disass_z80 0 code

/-- `inst_length`. -/
def inst_length (dummy : BitVec 8) (ram : BitVec 16 → BitVec 8) (addr : Int) : Nat :=
  let len := disasmLength (get_mem dummy ram addr) (get_mem dummy ram (addr + 1)) (get_mem dummy ram (addr + 3))
  if len = 0 then 1 else len

/-! ## The bytes that are fetched -/

/-- The bytes of an instruction without a prefix. -/
def fetchedPlain : BitVec 8 → Nat := switch
  [(twoByteOps ++ [0x10, 0x18, 0x20, 0x28, 0x30, 0x38, 0xCB], 2),
   (threeByteOps ++ [0xC2, 0xC3, 0xC4, 0xCA, 0xCC, 0xCD, 0xD2, 0xD4, 0xDA, 0xDC, 0xE2, 0xE4, 0xEA, 0xEC, 0xF2, 0xF4,
     0xFA, 0xFC], 3)] 1

/-- The bytes of an instruction with an index register. -/
def fetchedXd (code : BitVec 8) : Nat :=
  if code.toNat ∈ xdByteOps then 3 else if code.toNat ∈ xdWordOps ∨ code = 0xCB then 4 else 2

/-- The bytes that `exec_inst` takes for an instruction that does not load PC. -/
def fetched (code code1 : BitVec 8) : Nat :=
  if code = 0xED then if code1.toNat ∈ edWordOps then 4 else 2
  else if code = 0xDD ∨ code = 0xFD then fetchedXd code1
  else fetchedPlain code

/-- What an instruction does to PC if it does not load it. -/
def Machine.Passes (s : Machine) (n : Nat) : Prop := s.step.PC = advance n s.PC

theorem passes_of_dispatch {s : Machine} {n : Nat} (h : Fetches n (dispatch s.next)) : s.Passes (n + 1) :=
  h.PC s.skip.ticked

/-- The jumps, calls, returns and restarts by their opcodes. -/
theorem flow_split {code : BitVec 8} (hcode : code.toNat ∈ flowOps) :
    code = 0x10 ∨ code = 0x18 ∨ code = 0xC3 ∨ code = 0xE9 ∨ code = 0xCD ∨ code = 0xC9 ∨
      (∃ n < 4, code = BitVec.ofNat 8 (0x20 + 8 * n)) ∨ (∃ n < 8, code = BitVec.ofNat 8 (0xC2 + 8 * n)) ∨
      (∃ n < 8, code = BitVec.ofNat 8 (0xC4 + 8 * n)) ∨ (∃ n < 8, code = BitVec.ofNat 8 (0xC0 + 8 * n)) ∨
      ∃ n < 8, n ≠ 1 ∧ code = BitVec.ofNat 8 (0xC7 + 8 * n) := by
  apply forall_code _ hcode
  decide

theorem passes_flow {s : Machine} (hcode : s.next.toNat ∈ flowOps) (hload : ¬ s.LoadsPC) :
    s.Passes (fetchedPlain s.next) := by
  unfold Machine.LoadsPC at hload
  simp only [not_or] at hload
  obtain ⟨hcall, hret, hrst, hjp, hjr, _⟩ := hload
  unfold Machine.Passes Machine.step
  rw [exec_inst_run]
  rcases flow_split hcode with h | h | h | h | h | h | ⟨n, hn, h⟩ | ⟨n, hn, h⟩ | ⟨n, hn, h⟩ | ⟨n, hn, h⟩ | ⟨n, hn, hne, h⟩
  · have hend : s.regs.BC.h - 1 = 0 := not_not.mp fun hne => hjr (.inr (.inl ⟨h, hne⟩))
    rw [h]
    exact djnz_false s.skip.ticked hend
  · exact absurd (.inl h) hjr
  · exact absurd (.inl h) hjp
  · exact absurd (.inr (.inl h)) hjp
  · exact absurd (.inl h) hcall
  · exact absurd (.inl h) hret
  · have hfalse : condition s.regs.F n = false := Bool.eq_false_iff.mpr fun hcond => hjr (.inr (.inr ⟨n, hn, hcond, h⟩))
    have hlen : fetchedPlain (BitVec.ofNat 8 (0x20 + 8 * n)) = 2 := by interval_cases n <;> rfl
    have hrun : ((dispatch (BitVec.ofNat 8 (0x20 + 8 * n))).run s.skip.ticked).2 =
        ((go (jrIf (condition s.regs.F n) s.skip.next)).run s.skip.skip.ticked).2 :=
      congrArg Prod.snd (dispatch_jr n hn s.skip.ticked)
    rw [h, hlen, hrun, hfalse]
    rfl
  · have hfalse : jpCondition s.regs.F n = false := Bool.eq_false_iff.mpr fun hcond => hjp (.inr (.inr ⟨n, hn, hcond, h⟩))
    have hlen : fetchedPlain (BitVec.ofNat 8 (0xC2 + 8 * n)) = 3 := by interval_cases n <;> rfl
    have hrun : ((dispatch (BitVec.ofNat 8 (0xC2 + 8 * n))).run s.skip.ticked).2 =
        ((go (jpIf (jpCondition s.regs.F n))).run s.skip.ticked).2 :=
      congrArg Prod.snd (dispatch_jp n hn s.skip.ticked)
    rw [h, hlen, hrun, hfalse]
    rfl
  · have hfalse : condition s.regs.F n = false := Bool.eq_false_iff.mpr fun hcond => hcall (.inr ⟨n, hn, hcond, h⟩)
    have hlen : fetchedPlain (BitVec.ofNat 8 (0xC4 + 8 * n)) = 3 := by interval_cases n <;> rfl
    have hrun : ((dispatch (BitVec.ofNat 8 (0xC4 + 8 * n))).run s.skip.ticked).2 =
        ((go (callIf (condition s.regs.F n))).run s.skip.ticked).2 :=
      congrArg Prod.snd (dispatch_call n hn s.skip.ticked)
    rw [h, hlen, hrun, hfalse]
    rfl
  · have hfalse : condition s.regs.F n = false := Bool.eq_false_iff.mpr fun hcond => hret (.inr ⟨n, hn, hcond, h⟩)
    have hlen : fetchedPlain (BitVec.ofNat 8 (0xC0 + 8 * n)) = 1 := by interval_cases n <;> rfl
    have hrun : ((dispatch (BitVec.ofNat 8 (0xC0 + 8 * n))).run s.skip.ticked).2 =
        ((go (retIf (condition s.regs.F n))).run s.skip.ticked).2 :=
      congrArg Prod.snd (dispatch_ret n hn s.skip.ticked)
    rw [h, hlen, hrun, hfalse]
    rfl
  · exact absurd ⟨n, hn, hne, h⟩ hrst

theorem fetchedPlain_one {code : BitVec 8} (hcode : code.toNat ∈ oneByteOps ++ [0xCF]) : fetchedPlain code = 1 :=
  forall_code (P := fun code => fetchedPlain code = 1) (by decide +kernel) hcode

theorem fetchedPlain_two {code : BitVec 8} (hcode : code.toNat ∈ twoByteOps) : fetchedPlain code = 2 :=
  forall_code (P := fun code => fetchedPlain code = 2) (by decide) hcode

theorem fetchedPlain_three {code : BitVec 8} (hcode : code.toNat ∈ threeByteOps) : fetchedPlain code = 3 :=
  forall_code (P := fun code => fetchedPlain code = 3) (by decide) hcode

/-- Without a prefix. -/
theorem passes_plain {s : Machine} (hED : s.next ≠ 0xED) (hDD : s.next ≠ 0xDD) (hFD : s.next ≠ 0xFD)
    (hgo : (exec_inst.run s).1 = .go) (hload : ¬ s.LoadsPC) : s.Passes (fetchedPlain s.next) := by
  rcases codes_split s.next with h | h | h | h | h | h | h | h | h | h
  · rw [fetchedPlain_one (List.mem_append_left _ h)]
    exact passes_of_dispatch (dispatch_one h)
  · rw [fetchedPlain_two h]
    exact passes_of_dispatch (dispatch_two h)
  · rw [fetchedPlain_three h]
    exact passes_of_dispatch (dispatch_three h)
  · exact passes_flow h hload
  · rw [exec_inst_run, h] at hgo
    exact absurd hgo nofun
  · have hPC := (rst8_fetches s.skip.ticked).2
    unfold Machine.Passes Machine.step
    rw [exec_inst_run, h]
    exact hPC
  · unfold Machine.Passes Machine.step
    rw [exec_inst_run, h]
    exact inst_cb_fetches.PC s.skip.ticked
  · exact absurd h hED
  · exact absurd h hDD
  · exact absurd h hFD

theorem keys_ed {code : BitVec 8} (hcode : code.toNat ∈ keys edCases) :
    code.toNat ∈ edPlainOps ∨ code.toNat ∈ edBlockOps ∨ code.toNat ∈ edWordOps ∨ code = 0x45 ∨ code = 0x4D := by
  apply forall_code _ hcode
  decide

theorem ed_lists (code : BitVec 8) : code.toNat ∈ edPlainOps ++ edBlockOps → code.toNat ∉ edWordOps := by
  intro hcode
  apply forall_code _ hcode
  decide

/-- Behind ED. -/
theorem passes_ed {s : Machine} (hED : s.next = 0xED) (hgo : (exec_inst.run s).1 = .go) (hload : ¬ s.LoadsPC) :
    s.Passes (if s.skip.next.toNat ∈ edWordOps then 4 else 2) := by
  have hvalid : s.skip.next.toNat ∈ keys edCases := by
    by_contra hno
    have hinv := (exec_inst_invalid (.inl ⟨hED, hno⟩)).1
    exact nomatch hinv.symm.trans hgo
  have hstep : s.step = s.skip.ticked.skip.ed s.skip.next := step_ed ⟨hED, rfl, trivial⟩
  unfold Machine.LoadsPC at hload
  simp only [not_or] at hload
  unfold Machine.Passes
  rw [hstep]
  rcases keys_ed hvalid with h | h | h | h | h
  · rw [if_neg (ed_lists _ (List.mem_append_left _ h))]
    exact ed_plain h s.skip.ticked.skip
  · rw [if_neg (ed_lists _ (List.mem_append_right _ h))]
    exact ed_block h s.skip.ticked.skip
  · rw [if_pos h]
    exact ed_word h s.skip.ticked.skip
  · exact absurd (.inr ⟨hED, .inl h⟩) hload.2.2.2.2.2
  · exact absurd (.inr ⟨hED, .inr h⟩) hload.2.2.2.2.2

theorem xd_lists (code : BitVec 8) :
    (code.toNat ∈ xdPlainOps → code.toNat ∉ xdByteOps ∧ ¬(code.toNat ∈ xdWordOps ∨ code = 0xCB)) ∧
      (code.toNat ∈ xdWordOps ++ [0xCB] → code.toNat ∉ xdByteOps ∧ (code.toNat ∈ xdWordOps ∨ code = 0xCB)) := by
  constructor <;> intro hcode
  · apply forall_code _ hcode
    decide
  · apply forall_code _ hcode
    decide

/-- Behind DD and FD. -/
theorem passes_xd {s : Machine} (hX : s.next = 0xDD ∨ s.next = 0xFD) (hgo : (exec_inst.run s).1 = .go)
    (hload : ¬ s.LoadsPC) : s.Passes (fetchedXd s.skip.next) := by
  have hvalid : ¬ s.skip.InvalidXd := by
    intro hno
    have hinv := (exec_inst_invalid (.inr ⟨hX, hno⟩)).1
    exact nomatch hinv.symm.trans hgo
  have hE9 : s.skip.next ≠ 0xE9 := fun h => hload (.inr (.inr (.inr (.inr (.inr (.inl ⟨hX, h⟩))))))
  have hrun : ∃ X, s.step = ((dispatchXd X s.skip.next).run s.skip.ticked.skip).2 := by
    rcases hX with h | h
    · exact ⟨.IX, step_eq h⟩
    · exact ⟨.IY, step_eq h⟩
  obtain ⟨X, hstep⟩ := hrun
  obtain ⟨hplain, hword⟩ := xd_lists s.skip.next
  obtain ⟨hmem, hCB⟩ := not_or.mp hvalid
  have hops : s.skip.next.toNat ∈ xdPlainOps ++ xdByteOps ++ xdWordOps ++ [0xCB, 0xE9] := not_not.mp hmem
  unfold Machine.Passes fetchedXd
  rw [hstep]
  rcases List.mem_append.mp hops with h | h
  · rcases List.mem_append.mp h with h | h
    · rcases List.mem_append.mp h with h | h
      · rw [if_neg (hplain h).1, if_neg (hplain h).2]
        exact (xd_plain X h).PC _
      · rw [if_pos h]
        exact (xd_byte X h).PC _
    · have hlist := hword (List.mem_append_left _ h)
      rw [if_neg hlist.1, if_pos hlist.2]
      exact (xd_word X h).PC _
  · rcases List.mem_pair.mp h with h | h
    · have hcode : s.skip.next = 0xCB := BitVec.eq_of_toNat_eq h
      have hlist := hword (List.mem_append_right _ (List.mem_singleton.mpr h))
      have hknown : s.skip.skip.skip.next.toNat ∈ xxcbOps := not_not.mp fun hno => hCB ⟨hcode, hno⟩
      rw [if_neg hlist.1, if_pos hlist.2, hcode]
      exact (inst_XXcb_fetches X (s := s.skip.ticked.skip) hknown).2
    · exact absurd (BitVec.eq_of_toNat_eq h) hE9

/-- PC after an instruction that does not load it. -/
theorem passes_fetched {s : Machine} (hgo : (exec_inst.run s).1 = .go) (hload : ¬ s.LoadsPC) :
    s.Passes (fetched s.next s.skip.next) := by
  unfold fetched
  by_cases hED : s.next = 0xED
  · rw [if_pos hED]
    exact passes_ed hED hgo hload
  · rw [if_neg hED]
    by_cases hX : s.next = 0xDD ∨ s.next = 0xFD
    · rw [if_pos hX]
      exact passes_xd hX hgo hload
    · rw [if_neg hX]
      exact passes_plain hED (fun h => hX (.inl h)) (fun h => hX (.inr h)) hgo hload

/-! ## The comparison -/

theorem rowLength_cons (codes : List Nat) (len more : Nat) (table : List (List Nat × Nat)) (code : BitVec 8) :
    rowLength ((codes, len) :: table) more code =
      if code.toNat ∈ codes then len + more else rowLength table more code := by
  unfold rowLength switch
  rw [List.map_cons, List.find?_cons]
  by_cases hmem : code.toNat ∈ codes
  · rw [if_pos hmem, decide_eq_true hmem]
  · rw [if_neg hmem, decide_eq_false hmem]

/-- A code that no row has. -/
theorem rowLength_absent {table : List (List Nat × Nat)} (more : Nat) {code : BitVec 8}
    (hno : code.toNat ∉ keys table) : rowLength table more code = 0 := by
  induction table with
  | nil => rfl
  | cons row table ih =>
    rw [keys, List.flatMap_cons, List.mem_append, not_or] at hno
    rw [rowLength_cons, if_neg hno.1]
    exact ih hno.2

theorem ed_row (code : BitVec 8) :
    rowLength disass_z80_ed 1 code = if code.toNat ∈ keys disass_z80_ed then 2 else 0 :=
  rowLength_cons _ 1 1 [] code

theorem xd_row (code : BitVec 8) : code ≠ 0xCB →
    rowLength disass_z80_xd 1 code = if code.toNat ∈ xdOps then fetchedXd code else 0 := by
  intro hCB
  by_cases hcode : code.toNat ∈ xdOps
  · rw [if_pos hcode]
    revert hCB
    apply forall_code _ hcode
    decide
  · rw [if_neg hcode]
    have hkeys : keys disass_z80_xd ⊆ xdOps := by decide
    exact rowLength_absent 1 fun hmem => hcode (hkeys hmem)

theorem keys_xdcb : keys disass_z80_xdcb =
    List.range' 0x00 0x47 ++ [0x4E, 0x56, 0x5E, 0x66, 0x6E, 0x76, 0x7E] ++ List.range' 0x80 0x80 :=
  List.append_nil _

theorem xdcb_row (code : BitVec 8) :
    rowLength disass_z80_xdcb 2 code = if code.toNat ∈ keys disass_z80_xdcb then 4 else 0 := by
  rw [keys_xdcb]
  exact rowLength_cons _ 2 2 [] code

theorem cb_row (code : BitVec 8) : rowLength disass_z80_cb 1 code = 2 := by
  have hmem : code.toNat ∈ List.range' 0x00 0x100 := List.mem_range'_1.mpr ⟨Nat.zero_le _, code.isLt⟩
  exact (rowLength_cons _ 1 1 [] code).trans (if_pos hmem)

/-- The codes in the rows of length 3 and 2. -/
def longRow (n : Nat) : List Nat := (disass_z80.filter (·.2 = n)).flatMap (·.1)

theorem plain_rows (code : BitVec 8) : rowLength disass_z80 0 code =
    if code.toNat ∈ longRow 3 then 3 else if code.toNat ∈ longRow 2 then 2 else 1 := by
  have hrange : code.toNat ∈ List.range' 0x00 0x100 := List.mem_range'_1.mpr ⟨Nat.zero_le _, code.isLt⟩
  unfold disass_z80
  rw [rowLength_cons, rowLength_cons, rowLength_cons, if_pos hrange]
  rfl

theorem plain_row (code : BitVec 8) : code ∉ [0xCB, 0xED, 0xDD, 0xFD] → rowLength disass_z80 0 code ≠ 0 ∧
    (fetchedPlain code = rowLength disass_z80 0 code ↔ code.toNat ∉ [0x19, 0xD3, 0xDB]) := by
  intro hno
  rw [plain_rows]
  by_cases h3 : code.toNat ∈ longRow 3
  · rw [if_pos h3]
    refine ⟨by decide, ?_⟩
    apply forall_code _ h3
    decide
  rw [if_neg h3]
  by_cases h2 : code.toNat ∈ longRow 2
  · rw [if_pos h2]
    refine ⟨by decide, ?_⟩
    revert hno
    apply forall_code _ h2
    decide
  · rw [if_neg h2]
    have hmisread : [0x19, 0xD3, 0xDB] ⊆ longRow 3 ++ longRow 2 := by decide
    refine ⟨by decide, iff_of_true ?_ fun hmem => ?_⟩
    · refine switch_induct (P := fun n : Nat => n = 1) ?_ fun _ => rfl
      refine List.forall_mem_cons.mpr ⟨fun hmem => absurd ?_ h2, List.forall_mem_singleton.mpr fun hmem => absurd ?_ h3⟩
      · apply forall_code _ hmem
        decide
      · apply forall_code _ hmem
        decide
    · exact (List.mem_append.mp (hmisread hmem)).elim h3 h2

/-- The table has all the codes that `inst_ed` does something for. -/
theorem keys_ed_disass (code : BitVec 8) : code.toNat ∈ keys edCases → code.toNat ∈ keys disass_z80_ed := by
  intro hcode
  apply forall_code _ hcode
  decide

theorem xxcb_disass (code : BitVec 8) (hcode : code.toNat ∈ xxcbOps) : code.toNat ∈ keys disass_z80_xdcb := by
  rw [keys_xdcb]
  simp only [xxcbOps, List.mem_append, List.mem_range'_1, List.mem_cons, List.not_mem_nil, or_false] at hcode ⊢
  omega

/-- The length from the bytes that were read. -/
def lengthOf (code code1 code3 : BitVec 8) : Nat :=
  if disasmLength code code1 code3 = 0 then 1 else disasmLength code code1 code3

theorem lengthOf_ed (code1 code3 : BitVec 8) :
    lengthOf 0xED code1 code3 = if code1.toNat ∈ keys disass_z80_ed then 2 else 1 := by
  have hlen : disasmLength 0xED code1 code3 = rowLength disass_z80_ed 1 code1 := rfl
  unfold lengthOf
  rw [hlen, ed_row]
  split <;> rfl

theorem lengthOf_xd {code : BitVec 8} (hX : code = 0xDD ∨ code = 0xFD) {code1 : BitVec 8} (hCB : code1 ≠ 0xCB)
    (code3 : BitVec 8) : lengthOf code code1 code3 = if code1.toNat ∈ xdOps then fetchedXd code1 else 1 := by
  have hlen : disasmLength code code1 code3 = rowLength disass_z80_xd 1 code1 := by
    rcases hX with rfl | rfl <;> exact if_neg hCB
  have hpos : fetchedXd code1 ≠ 0 := by
    unfold fetchedXd
    split
    · decide
    · split <;> decide
  unfold lengthOf
  rw [hlen, xd_row code1 hCB]
  by_cases hmem : code1.toNat ∈ xdOps
  · rw [if_pos hmem, if_neg hpos, if_pos hmem]
  · rw [if_neg hmem, if_pos rfl, if_neg hmem]

theorem lengthOf_xdcb {code : BitVec 8} (hX : code = 0xDD ∨ code = 0xFD) (code3 : BitVec 8) :
    lengthOf code 0xCB code3 = if code3.toNat ∈ keys disass_z80_xdcb then 4 else 1 := by
  have hlen : disasmLength code 0xCB code3 = rowLength disass_z80_xdcb 2 code3 := by
    rcases hX with rfl | rfl <;> rfl
  unfold lengthOf
  rw [hlen, xdcb_row]
  split <;> rfl

theorem lengthOf_plain {code : BitVec 8} (hED : code ≠ 0xED) (hX : ¬(code = 0xDD ∨ code = 0xFD)) (code1 code3 : BitVec 8) :
    fetchedPlain code = lengthOf code code1 code3 ↔ code.toNat ∉ [0x19, 0xD3, 0xDB] := by
  unfold lengthOf disasmLength
  rw [if_neg hED, if_neg hX]
  by_cases hCB : code = 0xCB
  · rw [if_pos hCB, cb_row, hCB]
    decide
  · have hother : code ∉ [0xCB, 0xED, 0xDD, 0xFD] := by
      simp only [List.mem_cons, List.not_mem_nil, or_false, not_or]
      exact ⟨hCB, hED, not_or.mp hX⟩
    obtain ⟨hpos, hrow⟩ := plain_row code hother
    rw [if_neg hCB, if_neg hpos]
    exact hrow

/-- The tables say what is fetched. Behind the last address they are asked for the dummy cell. -/
structure Machine.LengthRight (dummy : BitVec 8) (s : Machine) : Prop where
  code : s.next.toNat ∉ [0x19, 0xD3, 0xDB]
  ed : s.next = 0xED → s.skip.next.toNat ∉ edWordOps ∧ (s.PC = 0xFFFF → dummy.toNat ∈ keys disass_z80_ed)
  xd : s.next = 0xDD ∨ s.next = 0xFD → s.PC = 0xFFFF →
    dummy.toNat ∈ xdOps ∧ fetchedXd dummy = fetchedXd s.skip.next
  xdcb : s.next = 0xDD ∨ s.next = 0xFD → s.skip.next = 0xCB → s.PC = 0xFFFD ∨ s.PC = 0xFFFE →
    dummy.toNat ∈ keys disass_z80_xdcb

section Length

variable (dummy : BitVec 8) {s : Machine}

/-- What is fetched in the memory. -/
theorem next_of_inRange (h : InRange s.PC) : s.next = s.ram (BitVec.ofInt 16 s.PC) := by
  unfold Machine.next Machine.readAt
  cases s.dummy with
  | none => rfl
  | some d => exact if_pos h

theorem get_mem_next (h : 0 ≤ s.PC) (hlt : s.PC < 0x10000) : get_mem dummy s.ram s.PC = s.next := by
  rw [next_of_inRange ⟨h, hlt⟩]
  exact if_pos ⟨h, hlt⟩

theorem get_mem_last (k : Int) (h : 0x10000 ≤ s.PC + k) : get_mem dummy s.ram (s.PC + k) = dummy :=
  if_neg fun hin => absurd hin.2 (by omega)

/-- Past so many bytes without leaving the memory. -/
theorem get_mem_advance {t : Machine} (n : Nat) (h : 0 ≤ s.PC) (hlt : s.PC + n < 0x10000)
    (ht : t = { s with PC := advance n s.PC }) : get_mem dummy s.ram (s.PC + n) = t.next := by
  have hmod : advance n s.PC = s.PC + n := (advance_eq n h (by omega)).trans (Int.emod_eq_of_lt (by omega) hlt)
  have hin : InRange (s.PC + n) := ⟨by omega, hlt⟩
  rw [ht, hmod, next_of_inRange hin]
  exact if_pos hin

theorem inst_length_eq (h : 0 ≤ s.PC) (hlt : s.PC < 0x10000) : inst_length dummy s.ram s.PC =
    lengthOf s.next (get_mem dummy s.ram (s.PC + 1)) (get_mem dummy s.ram (s.PC + 3)) := by
  have hcode := get_mem_next dummy h hlt
  unfold inst_length
  rw [hcode]
  rfl

/-- Behind ED. -/
theorem length_ed_iff (hED : s.next = 0xED) (hvalid : s.skip.next.toNat ∈ keys edCases) (h : 0 ≤ s.PC)
    (hlt : s.PC < 0x10000) : fetched s.next s.skip.next = inst_length dummy s.ram s.PC ↔
      s.skip.next.toNat ∉ edWordOps ∧ (s.PC = 0xFFFF → dummy.toNat ∈ keys disass_z80_ed) := by
  have hfetched : fetched s.next s.skip.next = if s.skip.next.toNat ∈ edWordOps then 4 else 2 := if_pos hED
  have hread : (get_mem dummy s.ram (s.PC + 1)).toNat ∈ keys disass_z80_ed ↔
      (s.PC = 0xFFFF → dummy.toNat ∈ keys disass_z80_ed) := by
    by_cases hlast : s.PC = 0xFFFF
    · rw [get_mem_last dummy 1 (by omega)]
      exact ⟨fun hmem _ => hmem, fun hmem => hmem hlast⟩
    · have hin : get_mem dummy s.ram (s.PC + 1) = s.skip.next := get_mem_advance dummy 1 h (by omega) rfl
      rw [hin]
      exact iff_of_true (keys_ed_disass _ hvalid) fun hno => absurd hno hlast
  rw [hfetched, inst_length_eq dummy h hlt, hED, lengthOf_ed, ← hread]
  by_cases hword : s.skip.next.toNat ∈ edWordOps
  · rw [if_pos hword]
    refine iff_of_false ?_ fun hright => hright.1 hword
    split <;> decide
  · rw [if_neg hword]
    by_cases hrow : (get_mem dummy s.ram (s.PC + 1)).toNat ∈ keys disass_z80_ed
    · rw [if_pos hrow]
      exact iff_of_true rfl ⟨hword, hrow⟩
    · rw [if_neg hrow]
      exact iff_of_false (by decide) fun hright => hrow hright.2

/-- Behind DD and FD at the last address. -/
theorem length_xd_last_iff (hX : s.next = 0xDD ∨ s.next = 0xFD) (hlast : s.PC = 0xFFFF) :
    fetchedXd s.skip.next = inst_length dummy s.ram s.PC ↔
      dummy.toNat ∈ xdOps ∧ fetchedXd dummy = fetchedXd s.skip.next := by
  have hpos : fetchedXd s.skip.next ≠ 1 := by
    unfold fetchedXd
    split
    · decide
    · split <;> decide
  have hlen : inst_length dummy s.ram s.PC = if dummy.toNat ∈ xdOps then fetchedXd dummy else 1 := by
    rw [inst_length_eq dummy (by omega) (by omega), get_mem_last dummy 1 (by omega), get_mem_last dummy 3 (by omega)]
    by_cases hCB : dummy = 0xCB
    · rw [hCB, lengthOf_xdcb hX]
      rfl
    · exact lengthOf_xd hX hCB dummy
  rw [hlen]
  by_cases hmem : dummy.toNat ∈ xdOps
  · rw [if_pos hmem]
    exact ⟨fun heq => ⟨hmem, heq.symm⟩, fun hright => hright.2.symm⟩
  · rw [if_neg hmem]
    exact iff_of_false hpos fun hright => hmem hright.1

/-- Behind DD and FD at any other address. -/
theorem length_xd_iff (hX : s.next = 0xDD ∨ s.next = 0xFD) (hvalid : ¬ s.skip.InvalidXd) (h : 0 ≤ s.PC)
    (hlt : s.PC < 0xFFFF) : fetchedXd s.skip.next = inst_length dummy s.ram s.PC ↔
      (s.skip.next = 0xCB → s.PC = 0xFFFD ∨ s.PC = 0xFFFE → dummy.toNat ∈ keys disass_z80_xdcb) := by
  obtain ⟨hmem, hknown⟩ := not_or.mp hvalid
  have hin : get_mem dummy s.ram (s.PC + 1) = s.skip.next := get_mem_advance dummy 1 h (by omega) rfl
  rw [inst_length_eq dummy h (by omega), hin]
  by_cases hCB : s.skip.next = 0xCB
  · have hfour : fetchedXd 0xCB = 4 := by decide
    rw [hCB, lengthOf_xdcb hX, hfour]
    have hread : (get_mem dummy s.ram (s.PC + 3)).toNat ∈ keys disass_z80_xdcb ↔
        (s.PC = 0xFFFD ∨ s.PC = 0xFFFE → dummy.toNat ∈ keys disass_z80_xdcb) := by
      by_cases hend : s.PC = 0xFFFD ∨ s.PC = 0xFFFE
      · rw [get_mem_last dummy 3 (by omega)]
        exact ⟨fun hrow _ => hrow, fun hrow => hrow hend⟩
      · have hlast : get_mem dummy s.ram (s.PC + 3) = s.skip.skip.skip.next :=
          get_mem_advance dummy 3 h (by omega) rfl
        rw [hlast]
        exact iff_of_true (xxcb_disass _ (not_not.mp fun hno => hknown ⟨hCB, hno⟩)) fun hno => absurd hno hend
    by_cases hrow : (get_mem dummy s.ram (s.PC + 3)).toNat ∈ keys disass_z80_xdcb
    · rw [if_pos hrow]
      exact iff_of_true rfl fun _ => hread.mp hrow
    · rw [if_neg hrow]
      exact iff_of_false (by decide) fun hright => hrow (hread.mpr (hright rfl))
  · rw [lengthOf_xd hX hCB, if_pos (not_not.mp hmem)]
    exact iff_of_true rfl fun hno => absurd hno hCB

end Length

/-- The bytes of an instruction stay below the size of the memory. -/
theorem fetched_le (code code1 : BitVec 8) : fetched code code1 ≤ 4 := by
  have hplain (code : BitVec 8) : fetchedPlain code ≤ 4 := switch_all (P := (· ≤ 4)) (by decide) (by decide)
  unfold fetched fetchedXd
  split_ifs <;> first | exact hplain code | decide

theorem rowLength_le {table : List (List Nat × Nat)} {more : Nat} (htable : ∀ row ∈ table, row.2 + more ≤ 4)
    (code : BitVec 8) : rowLength table more code ≤ 4 := by
  refine switch_all (P := fun n : Nat => n ≤ 4) (fun c hc => ?_) (Nat.zero_le 4)
  obtain ⟨row, hrow, rfl⟩ := List.mem_map.mp hc
  exact htable row hrow

theorem lengthOf_le (code code1 code3 : BitVec 8) : lengthOf code code1 code3 ≤ 4 := by
  have hlen : disasmLength code code1 code3 ≤ 4 := by
    unfold disasmLength
    split_ifs
    · exact rowLength_le (by decide) code1
    · exact rowLength_le (by decide) code1
    · exact rowLength_le (by decide) code3
    · exact rowLength_le (by decide) code1
    · exact rowLength_le (by decide) code
  unfold lengthOf
  split
  · decide
  · exact hlen

theorem fetched_iff {dummy : BitVec 8} {s : Machine} (h : 0 ≤ s.PC) (hlt : s.PC < 0x10000)
    (hgo : (exec_inst.run s).1 = .go) :
    fetched s.next s.skip.next = inst_length dummy s.ram s.PC ↔ s.LengthRight dummy := by
  have hvalid : ¬ s.Invalid := fun hinv => nomatch (exec_inst_invalid hinv).1.symm.trans hgo
  obtain ⟨hed, hxd⟩ := not_or.mp hvalid
  by_cases hED : s.next = 0xED
  · have hX : ¬(s.next = 0xDD ∨ s.next = 0xFD) := by
      rw [hED]
      decide
    have hcode : s.next.toNat ∉ [0x19, 0xD3, 0xDB] := by
      rw [hED]
      decide
    rw [length_ed_iff dummy hED (not_not.mp fun hno => hed ⟨hED, hno⟩) h hlt]
    exact ⟨fun hright => ⟨hcode, fun _ => hright, fun h => absurd h hX, fun h => absurd h hX⟩,
      fun hright => hright.ed hED⟩
  · by_cases hX : s.next = 0xDD ∨ s.next = 0xFD
    · have hcode : s.next.toNat ∉ [0x19, 0xD3, 0xDB] := by
        rcases hX with h | h <;> rw [h] <;> decide
      have hfetched : fetched s.next s.skip.next = fetchedXd s.skip.next := (if_neg hED).trans (if_pos hX)
      rw [hfetched]
      by_cases hlast : s.PC = 0xFFFF
      · rw [length_xd_last_iff dummy hX hlast]
        exact ⟨fun hright => ⟨hcode, fun h => absurd h hED, fun _ _ => hright, fun _ _ hend => by omega⟩,
          fun hright => hright.xd hX hlast⟩
      · rw [length_xd_iff dummy hX (fun hinv => hxd ⟨hX, hinv⟩) h (by omega)]
        exact ⟨fun hright => ⟨hcode, fun h => absurd h hED, fun _ h => absurd h hlast, fun _ => hright⟩,
          fun hright => hright.xdcb hX⟩
    · have hfetched : fetched s.next s.skip.next = fetchedPlain s.next := (if_neg hED).trans (if_neg hX)
      rw [hfetched, inst_length_eq dummy h hlt, lengthOf_plain hED hX]
      exact ⟨fun hright => ⟨hright, fun h => absurd h hED, fun h => absurd h hX, fun h => absurd h hX⟩,
        fun hright => hright.code⟩

/-- After an instruction that does not load PC, PC is past it by `inst_length`, or the tables are wrong. -/
theorem inst_length_iff {dummy : BitVec 8} {s : Machine} (h : 0 ≤ s.PC) (hlt : s.PC < 0x10000)
    (hgo : (exec_inst.run s).1 = .go) (hload : ¬ s.LoadsPC) :
    s.step.PC = (s.PC + inst_length dummy s.ram s.PC) % 0x10000 ↔ s.LengthRight dummy := by
  have hPC : s.step.PC = (s.PC + fetched s.next s.skip.next) % 0x10000 :=
    (passes_fetched hgo hload).trans (advance_eq _ h hlt)
  have hfetched := fetched_le s.next s.skip.next
  have hlen : inst_length dummy s.ram s.PC ≤ 4 := by
    rw [inst_length_eq dummy h hlt]
    exact lengthOf_le _ _ _
  rw [← fetched_iff h hlt hgo, hPC]
  constructor
  · intro heq
    omega
  · intro heq
    rw [heq]

/-- `LD A,7` at address 0. -/
def ramLD (a : BitVec 16) : BitVec 8 := if a = 0 then 0x3E else 7

/-- Two bytes are counted. -/
theorem inst_length_LD : (Machine.start ramLD).step.PC = (0 + inst_length 0 ramLD 0) % 0x10000 := by
  refine (inst_length_iff (s := Machine.start ramLD) (by decide) (by decide) rfl ?_).mpr
    ⟨by decide, nofun, nofun, nofun⟩
  unfold Machine.LoadsPC Machine.TakesCall Machine.TakesRet Machine.Restarts Machine.TakesJp Machine.TakesJr
    Machine.LoadsPrefixed
  decide

/-- `ADD HL,DE` has no operand. -/
theorem inst_length_ADD_HL_DE : (exec_inst.run (Machine.start fun _ => 0x19)).1 = .go ∧
    ¬(Machine.start fun _ => 0x19).LoadsPC ∧
    (Machine.start fun _ => 0x19).step.PC ≠ (0 + inst_length 0 (fun _ => 0x19) 0) % 0x10000 := by
  refine ⟨rfl, ?_, by decide⟩
  unfold Machine.LoadsPC Machine.TakesCall Machine.TakesRet Machine.Restarts Machine.TakesJp Machine.TakesJr
    Machine.LoadsPrefixed
  decide

end Ucsim.Z80
