import Ucsim.Hc08.Addresses

/-!
# Lengths of instructions of the HC08

`inst_length` finds the length of an instruction in the tables of the disassembler. Here it is compared with what
`exec_inst` fetches.
-/

namespace Ucsim.Hc08

/-! ## The tables -/

/-- `disass_hc08`, its codes by their length. All masks of the tables are 0xff. -/
def disass_hc08 : List (List Nat × Nat) :=
  [(List.range' 0x00 0x10 ++ [0x31, 0x3b, 0x41, 0x45, 0x4e, 0x51, 0x5e, 0x61, 0x65, 0x6e] ++ List.range' 0xc0 0x20, 3),
   (List.range' 0x10 0x21 ++ List.range' 0x33 8 ++ [0x3c, 0x3d, 0x3f, 0x4b, 0x55, 0x5b, 0x60, 0x63, 0x64] ++
      List.range' 0x66 8 ++ [0x6f, 0x71, 0x75, 0x7b, 0x7e, 0x90, 0x91, 0x92, 0x93] ++ List.range' 0xa0 12 ++
      [0xad, 0xae, 0xaf] ++ List.range' 0xb0 0x10 ++ List.range' 0xe0 0x10, 2),
   ([0x40, 0x42, 0x43, 0x44] ++ List.range' 0x46 5 ++ [0x4c, 0x4d, 0x4f, 0x50, 0x52, 0x53, 0x54] ++
      List.range' 0x56 5 ++ [0x5c, 0x5d, 0x5f, 0x62, 0x70, 0x72, 0x73, 0x74] ++ List.range' 0x76 5 ++
      [0x7c, 0x7d, 0x7f, 0x80, 0x81] ++ List.range' 0x83 10 ++ [0x8e, 0x8f, 0x94, 0x95] ++ List.range' 0x97 7 ++
      [0x9f] ++ List.range' 0xf0 0x10, 1)]

def disass_hc08_9e : List (List Nat × Nat) :=
  [([0x61] ++ List.range' 0xd0 12 ++ [0xde, 0xdf], 3),
   ([0x60, 0x63, 0x64] ++ List.range' 0x66 8 ++ [0x6f] ++ List.range' 0xe0 12 ++ [0xee, 0xef], 2)]

/-- The length in the row of a table. -/
def rowLength (table : List (List Nat × Nat)) (code : BitVec 8) : Option Nat :=
  (table.find? fun row => code.toNat ∈ row.1).map (·.2)

/-- `get_disasm_info`, its length, from the byte at the address and the one behind it. -/
def disasmLength (code code1 : BitVec 8) : Nat :=
  match code with
  | 0x9e => ((rowLength disass_hc08_9e code1).map (· + 1)).getD 0
  | _ => (rowLength disass_hc08 code).getD 0

/-- `inst_length`. -/
def Machine.inst_length (s : Machine) (addr : Int) : Nat :=
  let len := disasmLength (s.byteAt addr) (s.byteAt (addr + 1))
  if len = 0 then 1 else len

/-! ## The bytes that are fetched -/

namespace Kind

/-- JMP, JSR, BSR, SWI, RTI and RTS. -/
def loads : Kind → Bool
  | jump | jsr | bsr | swi | rti | rts => true
  | _ => false

/-- The conditional branches, DBNZ, CBEQ, BRSET and BRCLR. -/
def branches : Kind → Bool
  | branch _ | branchOperand => true
  | _ => false

/-- The bytes behind the opcode. -/
def bytes (k : Kind) (code : BitVec 8) : Nat :=
  match k with
  | straight n | fixed n => n
  | operand => operandBytes code
  | branch n => n + 1
  | branchOperand => operandBytes code + 1
  | _ => 0

theorem next_eq {k : Kind} {code : BitVec 8} {pre : Bool} {s : Machine} (hstop : k ≠ .stop) (hload : k.loads = false)
    (htakes : k.branches → takes code pre s = false) :
    k.next code pre s = some (advance (k.bytes code) s.PC) := by
  have hbranch (n : Nat) (hb : takes code pre s = false) : branchTo code pre s n = advance (n + 1) s.PC := by
    unfold branchTo
    rw [hb]
    rfl
  cases k with
  | stop => exact absurd rfl hstop
  | branch n => exact congrArg some (hbranch n (htakes rfl))
  | branchOperand => exact congrArg some (hbranch _ (htakes rfl))
  | straight | fixed | operand | push | pull => rfl
  | jump | jsr | bsr | swi | rti | rts => exact absurd hload nofun

end Kind

namespace Machine

/-- The bytes of the instruction at PC. -/
def length (s : Machine) : Nat := (if s.prefixed then 2 else 1) + s.kindOf.bytes s.opcode

/-- The instruction at PC is one that does not load PC, or a branch that is not taken. -/
def Falls (s : Machine) : Prop :=
  (exec_inst.run s).1 = .go ∧ s.kindOf.loads = false ∧ (s.kindOf.branches → takes s.opcode s.prefixed s.body = false)

/-- `MOV n,X+` and `DBNZ n,X`, and behind 0x9E `DBNZ n,SP` and the opcodes that write A to the output. -/
def Misread (s : Machine) : Prop :=
  if s.prefixed then s.opcode = 0x6b ∨ s.opcode = 0xdd ∨ s.opcode = 0xed else s.opcode = 0x5e ∨ s.opcode = 0x6b

end Machine

/-! ## The comparison -/

/-- The length from the bytes that were read. -/
def lengthOf (code code1 : BitVec 8) : Nat := if disasmLength code code1 = 0 then 1 else disasmLength code code1

theorem plain_row (code : BitVec 8) : code ≠ 0x9e → kind code ≠ .stop → (kind code).loads = false →
    (lengthOf code 0 = 1 + (kind code).bytes code ↔ ¬(code = 0x5e ∨ code = 0x6b)) ∧ (kind code).bytes code ≤ 2 := by
  revert code
  decide +kernel

theorem prefixed_row (code : BitVec 8) : prefixedKind code ≠ .stop → (prefixedKind code).loads = false →
    (lengthOf 0x9e code = 2 + (prefixedKind code).bytes code ↔ ¬(code = 0x6b ∨ code = 0xdd ∨ code = 0xed)) ∧
      (prefixedKind code).bytes code ≤ 2 := by
  revert code
  decide +kernel

/-- The byte behind the opcode does not count but behind 0x9E. -/
theorem lengthOf_plain {code : BitVec 8} (h : code ≠ 0x9e) (code1 : BitVec 8) : lengthOf code code1 = lengthOf code 0 := by
  have hlen (v : BitVec 8) : disasmLength code v = (rowLength disass_hc08 code).getD 0 := by
    unfold disasmLength
    split
    · exact absurd rfl h
    · rfl
  unfold lengthOf
  rw [hlen, hlen]

theorem advance_eq {n : Nat} {PC : Int} (h : 0 ≤ PC) (hend : PC + n ≤ 0xffff) : advance n PC = PC + n := by
  induction n generalizing PC with
  | zero => exact (add_zero PC).symm
  | succ n ih =>
    have hinc : inc_address PC = PC + 1 := by
      unfold inc_address
      rw [Int.tmod_eq_emod_of_nonneg (by omega), Int.emod_eq_of_lt (by omega) (by omega)]
    have hrest : advance (n + 1) PC = advance n (PC + 1) := congrArg (advance n) hinc
    rw [hrest, ih (by omega) (by omega)]
    omega

theorem advance_add (m n : Nat) (PC : Int) : advance (m + n) PC = advance n (advance m PC) := by
  induction m generalizing PC with
  | zero => rw [Nat.zero_add]; rfl
  | succ m ih =>
    rw [Nat.succ_add]
    exact ih (inc_address PC)

theorem body_PC (s : Machine) : s.body.PC = advance (if s.prefixed then 2 else 1) s.PC := by
  unfold Machine.body
  split <;> rfl

/-- PC after an instruction that does not load it. -/
theorem step_PC {s : Machine} (hV : s.regs.VECTOR = false) (hfalls : s.Falls) :
    s.step.PC = advance s.length s.PC ∧ s.kindOf ≠ .stop := by
  obtain ⟨hgo, hload, htakes⟩ := hfalls
  obtain ⟨x, hrun, hfollows⟩ := exec_follows hV
  have hstop : s.kindOf ≠ .stop := by
    intro hstop
    have hres := hfollows.res
    rw [if_pos hstop, ← hrun, hgo] at hres
    exact absurd hres nofun
  have hPC := hfollows.PC
  rw [Kind.next_eq hstop hload htakes, ← hrun] at hPC
  refine ⟨hPC.trans ?_, hstop⟩
  rw [body_PC, ← advance_add]
  rfl

/-- What the tables say about the instruction at PC. -/
theorem length_row {s : Machine} (hPC : 0 ≤ s.PC ∧ s.PC + 4 ≤ 0xffff) (hstop : s.kindOf ≠ .stop)
    (hload : s.kindOf.loads = false) :
    (s.inst_length s.PC = s.length ↔ ¬ s.Misread) ∧ s.length ≤ 4 := by
  have hlen : s.inst_length s.PC = lengthOf s.code (s.byteAt (s.PC + 1)) := rfl
  have hnext : inc_address s.PC = s.PC + 1 := advance_eq (n := 1) hPC.1 (by omega)
  have hskip : s.skip.code = s.byteAt (s.PC + 1) := congrArg s.byteAt hnext
  unfold Machine.length Machine.Misread
  unfold Machine.kindOf Machine.opcode at *
  by_cases hcode : s.code = 0x9e
  · have hpre : s.prefixed = true := decide_eq_true hcode
    rw [hpre] at hstop hload ⊢
    rw [hlen, hcode, ← hskip]
    obtain ⟨hrow, hle⟩ := prefixed_row s.skip.code hstop hload
    exact ⟨hrow, Nat.add_le_add_left hle 2⟩
  · have hpre : s.prefixed = false := decide_eq_false hcode
    rw [hpre] at hstop hload ⊢
    rw [hlen, lengthOf_plain hcode]
    obtain ⟨hrow, hle⟩ := plain_row s.code hcode hstop hload
    exact ⟨hrow, (Nat.add_le_add_left hle 1).trans (by decide)⟩

/-- PC after an instruction that does not load or branch it is behind the length that `inst_length` finds if and only
if it is none of those whose rows are wrong or missing. -/
theorem length_correct_iff {s : Machine} (hV : s.regs.VECTOR = false) (hPC : 0 ≤ s.PC ∧ s.PC + 4 ≤ 0xffff)
    (hfalls : s.Falls) : s.step.PC = s.PC + s.inst_length s.PC ↔ ¬ s.Misread := by
  obtain ⟨hstep, hstop⟩ := step_PC hV hfalls
  obtain ⟨hrow, hle⟩ := length_row hPC hstop hfalls.2.1
  rw [hstep, advance_eq hPC.1 (by omega), ← hrow]
  constructor <;> intro h <;> omega

/-- An opcode at 0x8000, and zeros. -/
def codeAt8000 (code : BitVec 8) : Machine where
  regs := { A := 0, P := 0x60, H := 0, X := 0, SP := 0xff, VECTOR := false }
  PC := 0x8000
  ram := Function.update (fun _ => 0) 0x8000 code
  dummy := fun _ => 0
  ticks := 0
  out := []
  accesses := []

/-- `ADD` with an address. -/
theorem length_correct_add :
    (codeAt8000 0xcb).step.PC = (codeAt8000 0xcb).PC + (codeAt8000 0xcb).inst_length (codeAt8000 0xcb).PC ∧
      (codeAt8000 0xcb).inst_length (codeAt8000 0xcb).PC = 3 := by
  have hfalls : (codeAt8000 0xcb).Falls := ⟨rfl, rfl, nofun⟩
  exact ⟨(length_correct_iff rfl (by decide) hfalls).mpr (by unfold Machine.Misread; decide), by decide⟩

/-- `MOV n,X+` has another length. -/
theorem mov_misread : ¬ ∀ s : Machine, s.regs.VECTOR = false → 0 ≤ s.PC ∧ s.PC + 4 ≤ 0xffff → s.Falls →
    s.step.PC = s.PC + s.inst_length s.PC := by
  intro h
  have hPC := h (codeAt8000 0x5e) rfl (by decide) ⟨rfl, rfl, nofun⟩
  exact absurd hPC (by decide)

end Ucsim.Hc08
