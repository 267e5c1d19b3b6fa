import Mathlib.Tactic.IntervalCases
import Ucsim.Hc08.Exec

/-!
# Addresses of the HC08

What an instruction passes to `ram`, and where it goes on. Effective addresses and branch targets are sums that nothing
brings back into the 64K space.
-/

namespace Ucsim.Hc08

variable {code : BitVec 8} {pre : Bool} {s : Machine}

/-! ## Operands -/

/-- PC after so many bytes have been fetched. -/
def advance : Nat → Int → Int
  | 0, PC => PC
  | n + 1, PC => advance n (inc_address PC)

namespace Machine

/-- The state when so many bytes have been fetched. -/
def skips (n : Nat) (s : Machine) : Machine := { s with PC := advance n s.PC }

/-- The byte behind so many others. -/
def nextByte (s : Machine) (n : Nat) : BitVec 8 := s.byteAt (advance n s.PC)

end Machine

/-- The bytes of an address in the code. -/
def operandBytes (code : BitVec 8) : Nat :=
  match high code with
  | 0x0 | 0x1 | 0x3 | 0xb | 0x6 | 0xe => 1
  | 0xc | 0xd => 2
  | _ => 0

/-- What an offset is added to. -/
def base (pre : Bool) (r : Regs) : Int := if pre then r.SP.toNat else r.hx.toNat

/-- The effective address of an instruction, behind its opcode. -/
def address (code : BitVec 8) (pre : Bool) (s : Machine) : Int :=
  match high code with
  | 0x0 | 0x1 | 0x3 | 0xb => (s.nextByte 0).toNat
  | 0x7 | 0xf => s.regs.hx.toNat
  | 0x6 | 0xe => (s.nextByte 0).toNat + base pre s.regs
  | 0xd => (s.nextByte 0 ++ s.nextByte 1).toNat + base pre s.regs
  | 0xc => (s.nextByte 0 ++ s.nextByte 1).toNat
  | _ => resHALT

theorem bind_run {α β : Type} (x : Prog α) (g : α → Prog β) (s : Machine) :
    (x >>= g).run s = (g (x.run s).1).run (x.run s).2 := rfl

theorem high_lt (code : BitVec 8) : high code < 16 := by
  unfold high
  have hlt := code.isLt
  rw [BitVec.toNat_ushiftRight, Nat.shiftRight_eq_div_pow]
  omega

theorem low_lt (code : BitVec 8) : low code < 16 := by
  unfold low
  rw [BitVec.toNat_and]
  exact Nat.lt_of_le_of_lt Nat.and_le_right (by decide)

theorem fetchea_run (code : BitVec 8) (pre : Bool) (s : Machine) :
    (fetchea code pre).run s = (address code pre s, s.skips (operandBytes code)) := by
  unfold fetchea address operandBytes
  have hlt := high_lt code
  generalize high code = n at hlt
  cases pre <;> interval_cases n <;> rfl

theorem operand_imm (h : high code = 0xa) : (operand code pre).run s = (s.nextByte 0, s.skips 1) := by
  unfold operand
  rw [if_pos h]
  rfl

theorem operand_run (h : high code ≠ 0xa) : (operand code pre).run s =
    (s.byteAt (address code pre s), (s.skips (operandBytes code)).touched (address code pre s)) := by
  unfold operand
  rw [if_neg h, bind_run, fetchea_run]
  rfl

/-- A or X is the operand. -/
def InRegister (code : BitVec 8) : Prop := code &&& 0xf0 = 0x40 ∨ code &&& 0xf0 = 0x50

instance (code : BitVec 8) : Decidable (InRegister code) := inferInstanceAs (Decidable (_ ∨ _))

/-- The register that is the operand. -/
def registerOf (code : BitVec 8) (r : Regs) : BitVec 8 := if code &&& 0xf0 = 0x40 then r.A else r.X

theorem place_register (h : InRegister code) : (place code pre).run s = ((0xffff, registerOf code s.regs), s) := by
  unfold place registerOf
  by_cases hA : code &&& 0xf0 = 0x40
  · rw [if_pos hA, if_pos hA]
    rfl
  · rw [if_neg hA, if_neg hA, if_pos (h.resolve_left hA)]
    rfl

theorem place_run (h : ¬ InRegister code) : (place code pre).run s =
    ((address code pre s, s.byteAt (address code pre s)),
      (s.skips (operandBytes code)).touched (address code pre s)) := by
  obtain ⟨hA, hX⟩ := not_or.mp h
  unfold place
  rw [if_neg hA, if_neg hX, bind_run, fetchea_run]
  rfl

/-! ## Kinds of instructions -/

/-- What an instruction does with addresses. `straight` and `fixed` take so many bytes behind the opcode and go on; the
accesses of `fixed` are at addresses that the memory has. A `branch` has so many bytes in front of its displacement, a
`branchOperand` has the address of its operand there. -/
inductive Kind
  | stop
  | straight (n : Nat)
  | fixed (n : Nat)
  | operand
  | jump | jsr | bsr | swi | rti | rts | push | pull
  | branch (n : Nat)
  | branchOperand
  deriving DecidableEq

/-- The opcodes from 0x30 to 0x7F. -/
def operandKind (code : BitVec 8) : Kind :=
  match low code with
  | 0x1 => if InRegister code then .branch 1 else .branchOperand
  | 0x2 => if code = 0x42 ∨ code = 0x52 ∨ code = 0x62 ∨ code = 0x72 then .straight 0 else .stop
  | 0x5 =>
    if code = 0x45 ∨ code = 0x65 then .straight 2
    else if code = 0x35 ∨ code = 0x55 ∨ code = 0x75 then .fixed 1 else .stop
  | 0xb => if InRegister code then .branch 0 else .branchOperand
  | 0xe =>
    if code = 0x4e ∨ code = 0x6e then .fixed 2 else if code = 0x5e ∨ code = 0x7e then .fixed 1 else .stop
  | _ => if InRegister code then .straight 0 else .operand

/-- The opcodes from 0xA0 to 0xFF. -/
def accumulatorKind (code : BitVec 8) : Kind :=
  match low code with
  | 0x7 | 0xf => if high code = 0xa then .straight 1 else .operand
  | 0xc => if high code = 0xa then .stop else .jump
  | 0xd => if high code = 0xa then .bsr else .jsr
  | _ => if high code = 0xa then .straight 1 else .operand

/-- The opcodes from 0x80 to 0x8F. -/
def stackKind (code : BitVec 8) : Kind :=
  match low code with
  | 0x0 => .rti
  | 0x1 => .rts
  | 0x3 => .swi
  | 0x6 | 0x8 | 0xa => .pull
  | 0x7 | 0x9 | 0xb => .push
  | 0x2 | 0xd => .stop
  | _ => .straight 0

/-- The opcodes behind 0x9E. -/
def prefixedKind (code : BitVec 8) : Kind :=
  match high code with
  | 0x6 =>
    match low code with
    | 0x1 | 0xb => .branchOperand
    | 0x2 | 0x5 | 0xe => .stop
    | _ => .operand
  | 0xd | 0xe =>
    match low code with
    | 0xc => .stop
    | 0xd => .straight 0
    | _ => .operand
  | _ => .stop

/-- The opcodes but 0x9E. -/
def kind (code : BitVec 8) : Kind :=
  match high code with
  | 0x0 => .branchOperand
  | 0x1 => .operand
  | 0x2 => if code = 0x2e ∨ code = 0x2f then .stop else .branch 0
  | 0x3 | 0x4 | 0x5 | 0x6 | 0x7 => operandKind code
  | 0x8 => stackKind code
  | 0x9 =>
    match low code with
    | 0x0 | 0x1 | 0x2 | 0x3 => .branch 0
    | 0x6 => .operand
    | _ => .straight 0
  | _ => accumulatorKind code

/-- The bit that an opcode is about. -/
def bitOf (code : BitVec 8) : BitVec 8 := 1#8 <<< (code >>> 1 &&& 7).toNat

/-- Whether a branch is taken. -/
def takes (code : BitVec 8) (pre : Bool) (s : Machine) : Bool :=
  match high code with
  | 0x0 =>
    let m := s.byteAt (address code pre s)
    if code &&& 1 ≠ 0 then m &&& bitOf code ≠ 0 else m &&& bitOf code = 0
  | 0x2 | 0x9 => taken code s.regs = some true
  | _ =>
    match low code with
    | 0x1 =>
      if InRegister code then registerOf code s.regs = s.nextByte 0
      else s.byteAt (address code pre s) = s.regs.A
    | _ =>
      if InRegister code then registerOf code s.regs - 1 ≠ 0 else s.byteAt (address code pre s) - 1 ≠ 0

/-- The displacement of a branch behind so many bytes. What is decremented is stored before it is fetched. -/
def displacement (code : BitVec 8) (pre : Bool) (s : Machine) (n : Nat) : BitVec 8 :=
  if low code = 0xb ∧ high code ≠ 0x0 ∧ high code ≠ 0x2 ∧ ¬ InRegister code then
    (s.stored (address code pre s) (s.byteAt (address code pre s) - 1)).nextByte n
  else s.nextByte n

/-- Where a branch goes on that has so many bytes in front of its displacement. -/
def branchTo (code : BitVec 8) (pre : Bool) (s : Machine) (n : Nat) : Int :=
  let behind := advance (n + 1) s.PC
  if takes code pre s then behind + (displacement code pre s n).toInt else behind

namespace Kind

/-- The address where an instruction goes on, if it does not come from memory. -/
def next (k : Kind) (code : BitVec 8) (pre : Bool) (s : Machine) : Option Int :=
  match k with
  | stop | push | pull => some s.PC
  | straight n | fixed n => some (advance n s.PC)
  | operand => some (advance (operandBytes code) s.PC)
  | jump | jsr => some (address code pre s)
  | bsr => some (advance 1 s.PC + (s.nextByte 0).toInt)
  | swi | rti | rts => none
  | branch n => some (branchTo code pre s n)
  | branchOperand => some (branchTo code pre s (operandBytes code))

/-- The addresses that are passed to `ram` are in its range. -/
def Reaches (k : Kind) (code : BitVec 8) (pre : Bool) (s : Machine) : Prop :=
  match k with
  | operand | branchOperand => InRange (address code pre s)
  | jsr | bsr | swi => s.regs.SP ≠ 0
  | pull => s.regs.SP.toNat + 1 ≤ 0xffff
  | rts => s.regs.SP.toNat + 2 ≤ 0xffff
  | rti => s.regs.SP.toNat + 5 ≤ 0xffff
  | stop | straight _ | fixed _ | jump | push | branch _ => True

end Kind

/-- The addresses that have been passed to `ram` are in its range. -/
def Machine.Within (s : Machine) : Prop := ∀ addr ∈ s.accesses, InRange addr

/-- An instruction is of a kind. -/
structure Follows (x : Prog Res) (k : Kind) (code : BitVec 8) (pre : Bool) (s : Machine) : Prop where
  res : (x.run s).1 = if k = .stop then .halt else .go
  PC : match k.next code pre s with
    | some pc => (x.run s).2.PC = pc
    | none => ∃ v : BitVec 16, (x.run s).2.PC = v.toNat
  within : (x.run s).2.Within ↔ s.Within ∧ k.Reaches code pre s

/-! ## Bodies -/

section Simp

variable (s : Machine) (addr : Int) (val : BitVec 8)

@[simp] theorem Machine.stored_PC : (s.stored addr val).PC = s.PC := by
  unfold Machine.stored
  split <;> rfl

@[simp] theorem Machine.stored_regs : (s.stored addr val).regs = s.regs := by
  unfold Machine.stored
  split <;> rfl

/-- What is stored does not depend on the registers. -/
theorem Machine.byteAt_stored {s t : Machine} (hram : t.ram = s.ram) (hdummy : t.dummy = s.dummy) (addr : Int)
    (val : BitVec 8) (PC : Int) : (t.stored addr val).byteAt PC = (s.stored addr val).byteAt PC := by
  unfold Machine.stored Machine.byteAt
  rw [hram, hdummy]
  by_cases h : InRange addr
  · simp only [if_pos h]
  · simp only [if_neg h]

@[simp] theorem Machine.stored_accesses : (s.stored addr val).accesses = s.accesses := by
  unfold Machine.stored
  split <;> rfl

end Simp

/-- One more access. -/
theorem Machine.within_cons {s t : Machine} {addr : Int} (h : t.accesses = addr :: s.accesses) :
    t.Within ↔ s.Within ∧ InRange addr := by
  unfold Machine.Within
  rw [h, List.forall_mem_cons]
  exact and_comm

theorem Machine.within_congr {s t : Machine} (h : t.accesses = s.accesses) : t.Within ↔ s.Within := by
  unfold Machine.Within
  rw [h]

/-- A body that goes on behind some bytes, with no access. -/
theorem follows_straight {x : Prog Res} {n : Nat} {t : Machine} (hrun : x.run s = (.go, t))
    (hPC : t.PC = advance n s.PC) (hacc : t.accesses = s.accesses) : Follows x (.straight n) code pre s := by
  refine ⟨by rw [hrun]; rfl, by rw [hrun]; exact hPC, ?_⟩
  rw [hrun]
  exact (Machine.within_congr hacc).trans (and_iff_left trivial).symm

theorem follows_stop : Follows (return .halt) .stop code pre s :=
  ⟨rfl, rfl, (and_iff_left trivial).symm⟩

/-- Two accesses at the operand. -/
theorem within_twice {t : Machine} {addr : Int} (hacc : t.accesses = addr :: addr :: s.accesses) :
    t.Within ↔ s.Within ∧ InRange addr := by
  have hfirst : (s.touched addr).Within ↔ s.Within ∧ InRange addr := Machine.within_cons rfl
  rw [Machine.within_cons (s := s.touched addr) hacc, hfirst, and_assoc, and_self_iff]

/-- A body that accesses its operand. -/
theorem follows_operand {x : Prog Res} {t : Machine} (hrun : x.run s = (.go, t))
    (hPC : t.PC = advance (operandBytes code) s.PC) (hacc : t.Within ↔ s.Within ∧ InRange (address code pre s)) :
    Follows x .operand code pre s := by
  refine ⟨by rw [hrun]; rfl, by rw [hrun]; exact hPC, ?_⟩
  rw [hrun]
  exact hacc

/-- A body that may branch. -/
theorem follows_branch {x : Prog Res} {n : Nat} {t : Machine} (hrun : x.run s = (.go, t))
    (hPC : t.PC = branchTo code pre s n) (hacc : t.accesses = s.accesses) : Follows x (.branch n) code pre s := by
  refine ⟨by rw [hrun]; rfl, by rw [hrun]; exact hPC, ?_⟩
  rw [hrun]
  exact (Machine.within_congr hacc).trans (and_iff_left trivial).symm

theorem follows_branchOperand {x : Prog Res} {t : Machine} (hrun : x.run s = (.go, t))
    (hPC : t.PC = branchTo code pre s (operandBytes code))
    (hacc : t.Within ↔ s.Within ∧ InRange (address code pre s)) : Follows x .branchOperand code pre s := by
  refine ⟨by rw [hrun]; rfl, by rw [hrun]; exact hPC, ?_⟩
  rw [hrun]
  exact hacc

theorem operation_run_imm (f : BitVec 8 → Regs → Regs) (h : high code = 0xa) :
    (operation f code pre).run s = (.go, { s.skips 1 with regs := f (s.nextByte 0) s.regs }) := by
  unfold operation go
  rw [bind_run, bind_run, operand_imm h]
  rfl

theorem operation_run (f : BitVec 8 → Regs → Regs) (h : high code ≠ 0xa) : (operation f code pre).run s =
    (.go, { (s.skips (operandBytes code)).touched (address code pre s) with
      regs := f (s.byteAt (address code pre s)) s.regs }) := by
  unfold operation go
  rw [bind_run, bind_run, operand_run h]
  rfl

theorem operation_follows (f : BitVec 8 → Regs → Regs) (code : BitVec 8) (pre : Bool) (s : Machine) :
    Follows (operation f code pre) (if high code = 0xa then .straight 1 else .operand) code pre s := by
  by_cases h : high code = 0xa
  · rw [if_pos h]
    exact follows_straight (operation_run_imm f h) rfl rfl
  · rw [if_neg h]
    exact follows_operand (operation_run f h) rfl (Machine.within_cons rfl)

theorem storing_follows (f : Regs → BitVec 8) (code : BitVec 8) (pre : Bool) (s : Machine) :
    Follows (storing f code pre) .operand code pre s := by
  have hrun : (storing f code pre).run s = (go (do
      onRegs fun r => (r.FLAG_CLEAR BIT_V).FLAG_NZ (f r)
      store1 (address code pre s) (← reg f))).run (s.skips (operandBytes code)) := by
    unfold storing go
    rw [bind_run, bind_run, fetchea_run]
    rfl
  exact follows_operand hrun (Machine.stored_PC _ _ _) (Machine.within_cons (Machine.stored_accesses _ _ _))

theorem updating_run_register (f : BitVec 8 → Regs → BitVec 8 × Regs) (h : InRegister code) :
    (updating f code pre).run s = (go (do
      let val ← reg fun r => (f (registerOf code s.regs) r).1
      onRegs fun r => (f (registerOf code s.regs) r).2
      putPlace code 0xffff val)).run s := by
  unfold updating go
  rw [bind_run, bind_run, place_register h]
  rfl

theorem updating_run (f : BitVec 8 → Regs → BitVec 8 × Regs) (h : ¬ InRegister code) :
    (updating f code pre).run s = (go (do
      let val ← reg fun r => (f (s.byteAt (address code pre s)) r).1
      onRegs fun r => (f (s.byteAt (address code pre s)) r).2
      putPlace code (address code pre s) val)).run ((s.skips (operandBytes code)).touched (address code pre s)) := by
  unfold updating go
  rw [bind_run, bind_run, place_run h]
  rfl

theorem putPlace_register (h : InRegister code) (ea : Int) (val : BitVec 8) (t : Machine) :
    ∃ r, ((putPlace code ea val).run t).2 = { t with regs := r } := by
  unfold putPlace
  by_cases hA : code &&& 0xf0 = 0x40
  · rw [if_pos hA]
    exact ⟨_, rfl⟩
  · rw [if_neg hA, if_pos (h.resolve_left hA)]
    exact ⟨_, rfl⟩

theorem putPlace_memory (h : ¬ InRegister code) (ea : Int) (val : BitVec 8) : putPlace code ea val = store1 ea val := by
  obtain ⟨hA, hX⟩ := not_or.mp h
  unfold putPlace
  rw [if_neg hA, if_neg hX]

theorem updating_follows (f : BitVec 8 → Regs → BitVec 8 × Regs) (code : BitVec 8) (pre : Bool) (s : Machine) :
    Follows (updating f code pre) (if InRegister code then .straight 0 else .operand) code pre s := by
  by_cases h : InRegister code
  · rw [if_pos h]
    obtain ⟨r, hput⟩ := putPlace_register h 0xffff (f (registerOf code s.regs) s.regs).1
      { s with regs := (f (registerOf code s.regs) s.regs).2 }
    have hPC := congrArg Machine.PC hput
    have hacc := congrArg Machine.accesses hput
    exact follows_straight (updating_run_register f h) hPC hacc
  · rw [if_neg h]
    have hrun := @updating_run code pre s f h
    simp only [putPlace_memory h] at hrun
    exact follows_operand hrun (Machine.stored_PC _ _ _) (within_twice (Machine.stored_accesses _ _ _))

theorem shifting_follows (out : BitVec 8 → Bool) (result : BitVec 8 → Regs → BitVec 8) (code : BitVec 8) (pre : Bool)
    (s : Machine) :
    Follows (shifting out result code pre) (if InRegister code then .straight 0 else .operand) code pre s :=
  updating_follows _ code pre s

theorem tst_follows (code : BitVec 8) (pre : Bool) (s : Machine) :
    Follows (inst_tst code pre) (if InRegister code then .straight 0 else .operand) code pre s := by
  have hrun : (inst_tst code pre).run s =
      (go (onRegs fun r => (r.FLAG_NZ ((place code pre).run s).1.2).FLAG_CLEAR BIT_V)).run ((place code pre).run s).2 := rfl
  by_cases h : InRegister code
  · rw [place_register h] at hrun
    rw [if_pos h]
    exact follows_straight hrun rfl rfl
  · rw [place_run h] at hrun
    rw [if_neg h]
    exact follows_operand hrun rfl (Machine.within_cons rfl)

theorem clr_follows (code : BitVec 8) (pre : Bool) (s : Machine) :
    Follows (inst_clr code pre) (if InRegister code then .straight 0 else .operand) code pre s := by
  unfold inst_clr
  by_cases h : InRegister code
  · rw [if_pos h]
    by_cases hA : code &&& 0xf0 = 0x40
    · simp only [if_pos hA]
      exact follows_straight rfl rfl rfl
    · simp only [if_neg hA, if_pos (h.resolve_left hA)]
      exact follows_straight rfl rfl rfl
  · obtain ⟨hA, hX⟩ := not_or.mp h
    simp only [if_neg h, if_neg hA, if_neg hX]
    let t : Machine := { s with regs := ((s.regs.FLAG_CLEAR BIT_V).FLAG_CLEAR BIT_N).FLAG_SET BIT_Z }
    have hrun : (go (do
        onRegs fun r => ((r.FLAG_CLEAR BIT_V).FLAG_CLEAR BIT_N).FLAG_SET BIT_Z
        store1 (← fetchea code pre) 0)).run s
        = (go (store1 ((fetchea code pre).run t).1 0)).run ((fetchea code pre).run t).2 := rfl
    rw [fetchea_run] at hrun
    exact follows_operand hrun (Machine.stored_PC _ _ _) (Machine.within_cons (Machine.stored_accesses _ _ _))

theorem bitsetclear_follows (code : BitVec 8) (pre : Bool) (s : Machine) :
    Follows (inst_bitsetclear code pre) .operand code pre s := by
  have hrun : (inst_bitsetclear code pre).run s = (go (do
      let m ← get1 ((fetchea code pre).run s).1
      if code &&& 1 ≠ 0 then store1 ((fetchea code pre).run s).1 (m &&& ~~~bitOf code)
      else store1 ((fetchea code pre).run s).1 (m ||| bitOf code))).run ((fetchea code pre).run s).2 := rfl
  rw [fetchea_run] at hrun
  by_cases hodd : code &&& 1 ≠ 0
  · simp only [if_pos hodd] at hrun
    exact follows_operand hrun (Machine.stored_PC _ _ _) (within_twice (Machine.stored_accesses _ _ _))
  · simp only [if_neg hodd] at hrun
    exact follows_operand hrun (Machine.stored_PC _ _ _) (within_twice (Machine.stored_accesses _ _ _))

/-! ## Branches -/

theorem advance_succ (n : Nat) (PC : Int) : advance (n + 1) PC = inc_address (advance n PC) := by
  induction n generalizing PC with
  | zero => rfl
  | succ n ih => exact ih (inc_address PC)

/-- The end of a branch. -/
theorem branch_PC (c : Bool) (u : Machine) : (((do branchIf c (← fetch)) : Prog Unit).run u).2.PC =
    if c then inc_address u.PC + (u.byteAt u.PC).toInt else inc_address u.PC := by
  cases c <;> rfl

theorem branch_accesses (c : Bool) (u : Machine) :
    (((do branchIf c (← fetch)) : Prog Unit).run u).2.accesses = u.accesses := by
  cases c <;> rfl

theorem branchTo_eq {c : Bool} {ofs : BitVec 8} {n : Nat} (htakes : takes code pre s = c)
    (hofs : displacement code pre s n = ofs) :
    branchTo code pre s n = if c then advance (n + 1) s.PC + ofs.toInt else advance (n + 1) s.PC := by
  unfold branchTo
  rw [htakes, hofs]

/-- An opcode whose displacement is not behind a store. -/
theorem displacement_eq (h : ¬(low code = 0xb ∧ high code ≠ 0x0 ∧ high code ≠ 0x2 ∧ ¬ InRegister code)) (n : Nat) :
    displacement code pre s n = s.nextByte n := if_neg h

theorem condbranch_follows (hhigh : high code = 0x2 ∨ high code = 0x9 ∧ low code ≠ 0xb) (s : Machine) :
    Follows (inst_condbranch code pre) (if taken code s.regs = none then .stop else .branch 0) code pre s := by
  have hrun := inst_condbranch_run code pre s
  have htakes : takes code pre s = decide (taken code s.regs = some true) := by
    unfold takes
    rcases hhigh with h | ⟨h, -⟩
    · rw [h]
      rfl
    · rw [h]
      rfl
  have hofs : displacement code pre s 0 = s.nextByte 0 := by
    refine displacement_eq (fun h => ?_) 0
    rcases hhigh with h2 | ⟨-, hlow⟩
    · exact h.2.2.1 h2
    · exact hlow h.1
  cases htaken : taken code s.regs with
  | none =>
    rw [htaken] at hrun
    rw [if_pos rfl]
    refine ⟨by rw [hrun]; rfl, by rw [hrun]; rfl, ?_⟩
    rw [hrun]
    exact follows_stop.within
  | some c =>
    rw [htaken] at hrun htakes
    rw [if_neg nofun]
    refine follows_branch hrun ?_ (branch_accesses c s)
    rw [branchTo_eq htakes hofs]
    cases c <;> rfl

theorem takes_dbnz (h0 : high code ≠ 0x0) (h2 : high code ≠ 0x2) (h9 : high code ≠ 0x9) (hlow : low code = 0xb) :
    takes code pre s = if InRegister code then decide (registerOf code s.regs - 1 ≠ 0)
      else decide (s.byteAt (address code pre s) - 1 ≠ 0) := by
  unfold takes
  rw [hlow]
  split
  · next h => exact absurd h h0
  · next h => exact absurd h h2
  · next h => exact absurd h h9
  · rfl

theorem takes_cbeq (h0 : high code ≠ 0x0) (h2 : high code ≠ 0x2) (h9 : high code ≠ 0x9) (hlow : low code = 0x1) :
    takes code pre s = if InRegister code then decide (registerOf code s.regs = s.nextByte 0)
      else decide (s.byteAt (address code pre s) = s.regs.A) := by
  unfold takes
  rw [hlow]
  split
  · next h => exact absurd h h0
  · next h => exact absurd h h2
  · next h => exact absurd h h9
  · rfl

/-- The end of `inst_dbnz`. -/
theorem dbnz_run (code : BitVec 8) (pre : Bool) {ea : Int} {m : BitVec 8} {t : Machine}
    (hplace : (place code pre).run s = ((ea, m), t)) : (inst_dbnz code pre).run s =
      (go (do branchIf (m - 1 ≠ 0) (← fetch))).run
        ((putPlace code ea (m - 1)).run { t with regs := decFlags m t.regs }).2 := by
  unfold inst_dbnz go
  rw [bind_run, bind_run, hplace]
  rfl

theorem dbnz_follows (h0 : high code ≠ 0x0) (h2 : high code ≠ 0x2) (h9 : high code ≠ 0x9) (hlow : low code = 0xb)
    (pre : Bool) (s : Machine) :
    Follows (inst_dbnz code pre) (if InRegister code then .branch 0 else .branchOperand) code pre s := by
  have htakes := @takes_dbnz code pre s h0 h2 h9 hlow
  by_cases h : InRegister code
  · have hrun := dbnz_run code pre (@place_register code pre s h)
    obtain ⟨r, hput⟩ := putPlace_register h 0xffff (registerOf code s.regs - 1)
      { s with regs := decFlags (registerOf code s.regs) s.regs }
    rw [hput] at hrun
    rw [if_pos h] at htakes ⊢
    have hofs := @displacement_eq code pre s (fun hb => hb.2.2.2 h) 0
    refine follows_branch hrun ?_ (branch_accesses _ _)
    rw [branchTo_eq htakes hofs]
    exact branch_PC _ _
  · have hrun := dbnz_run code pre (@place_run code pre s h)
    rw [putPlace_memory h] at hrun
    rw [if_neg h] at htakes ⊢
    obtain ⟨u, hPC, hram, hdummy, hacc, hrun⟩ : ∃ u : Machine, u.PC = advance (operandBytes code) s.PC ∧
        u.ram = s.ram ∧ u.dummy = s.dummy ∧ u.accesses = address code pre s :: address code pre s :: s.accesses ∧
        (inst_dbnz code pre).run s = (go (do branchIf (s.byteAt (address code pre s) - 1 ≠ 0) (← fetch))).run
          (u.stored (address code pre s) (s.byteAt (address code pre s) - 1)) :=
      ⟨{ s.skips (operandBytes code) with
        regs := decFlags (s.byteAt (address code pre s)) s.regs
        accesses := address code pre s :: address code pre s :: s.accesses }, rfl, rfl, rfl, rfl, hrun⟩
    have hofs : displacement code pre s (operandBytes code) = _ := if_pos ⟨hlow, h0, h2, h⟩
    refine follows_branchOperand hrun ?_ (within_twice ?_)
    · rw [branchTo_eq htakes hofs, advance_succ]
      refine (branch_PC _ _).trans ?_
      rw [Machine.stored_PC, hPC, Machine.byteAt_stored hram hdummy]
      unfold Machine.nextByte
      rw [Machine.stored_PC]
    · exact (branch_accesses _ _).trans ((Machine.stored_accesses _ _ _).trans hacc)

theorem bittest_follows (h : high code = 0x0) (pre : Bool) (s : Machine) :
    Follows (inst_bittestsetclear code pre) .branchOperand code pre s := by
  let m := s.byteAt (address code pre s)
  let c : Bool := if code &&& 1 ≠ 0 then m &&& bitOf code ≠ 0 else m &&& bitOf code = 0
  have hrun : (inst_bittestsetclear code pre).run s = (go (do
      let m ← get1 ((fetchea code pre).run s).1
      let ofs ← fetch
      branchIf (if code &&& 1 ≠ 0 then m &&& bitOf code ≠ 0 else m &&& bitOf code = 0) ofs
      onRegs (Regs.FLAG_ASSIGN BIT_C (m &&& bitOf code ≠ 0)))).run ((fetchea code pre).run s).2 := rfl
  rw [fetchea_run] at hrun
  have htakes : takes code pre s = c := by
    unfold takes
    rw [h]
    rfl
  have hofs := @displacement_eq code pre s (fun hb => hb.2.1 h) (operandBytes code)
  refine follows_branchOperand hrun ?_ (Machine.within_cons ?_)
  · rw [branchTo_eq htakes hofs, advance_succ]
    exact branch_PC c ((s.skips (operandBytes code)).touched (address code pre s))
  · exact branch_accesses c ((s.skips (operandBytes code)).touched (address code pre s))

/-- The end of `inst_cbeq`. -/
def cbeqEnd (code : BitVec 8) (c : Bool) : Prog Unit := do
  branchIf c (← fetch)
  if code = 0x71 then incx

theorem cbeqEnd_run (code : BitVec 8) (c : Bool) (u : Machine) :
    ∃ r, ((cbeqEnd code c).run u).2 = { (((do branchIf c (← fetch)) : Prog Unit).run u).2 with regs := r } := by
  unfold cbeqEnd
  by_cases h : code = 0x71
  · rw [if_pos h]
    exact ⟨_, rfl⟩
  · rw [if_neg h]
    exact ⟨_, rfl⟩

theorem cbeq_run {operand1 operand2 : BitVec 8} {t : Machine}
    (hops : (cbeqOperands code pre).run s = ((operand1, operand2), t)) :
    (inst_cbeq code pre).run s = (go (cbeqEnd code (operand1 = operand2))).run t := by
  unfold inst_cbeq go
  rw [bind_run, bind_run, hops]
  rfl

theorem cbeqOperands_register (h : InRegister code) :
    (cbeqOperands code pre).run s = ((registerOf code s.regs, s.nextByte 0), s.skips 1) := by
  unfold cbeqOperands registerOf
  by_cases hA : code &&& 0xf0 = 0x40
  · rw [if_pos hA, if_pos hA]
    rfl
  · rw [if_neg hA, if_neg hA, if_pos (h.resolve_left hA)]
    rfl

theorem cbeqOperands_run (h : ¬ InRegister code) : (cbeqOperands code pre).run s =
    ((s.byteAt (address code pre s), s.regs.A), (s.skips (operandBytes code)).touched (address code pre s)) := by
  obtain ⟨hA, hX⟩ := not_or.mp h
  unfold cbeqOperands
  rw [if_neg hA, if_neg hX, bind_run, fetchea_run]
  rfl

theorem cbeq_follows (h0 : high code ≠ 0x0) (h2 : high code ≠ 0x2) (h9 : high code ≠ 0x9) (hlow : low code = 0x1)
    (pre : Bool) (s : Machine) :
    Follows (inst_cbeq code pre) (if InRegister code then .branch 1 else .branchOperand) code pre s := by
  have htakes := @takes_cbeq code pre s h0 h2 h9 hlow
  have hb : ¬(low code = 0xb ∧ high code ≠ 0x0 ∧ high code ≠ 0x2 ∧ ¬ InRegister code) := by
    rw [hlow]
    exact fun hb => absurd hb.1 (by decide)
  by_cases h : InRegister code
  · have hrun := cbeq_run (@cbeqOperands_register code pre s h)
    obtain ⟨r, hend⟩ := cbeqEnd_run code (registerOf code s.regs = s.nextByte 0) (s.skips 1)
    have hPC := congrArg Machine.PC hend
    have hacc := congrArg Machine.accesses hend
    rw [if_pos h] at htakes ⊢
    refine follows_branch hrun ?_ (hacc.trans (branch_accesses _ (s.skips 1)))
    rw [branchTo_eq htakes (displacement_eq hb 1)]
    exact hPC.trans (branch_PC _ (s.skips 1))
  · have hrun := cbeq_run (@cbeqOperands_run code pre s h)
    obtain ⟨r, hend⟩ := cbeqEnd_run code (s.byteAt (address code pre s) = s.regs.A)
      ((s.skips (operandBytes code)).touched (address code pre s))
    have hPC := congrArg Machine.PC hend
    have hacc := congrArg Machine.accesses hend
    rw [if_neg h] at htakes ⊢
    refine follows_branchOperand hrun ?_ (Machine.within_cons (hacc.trans (branch_accesses _ _)))
    rw [branchTo_eq htakes (displacement_eq hb (operandBytes code)), advance_succ]
    exact hPC.trans (branch_PC _ ((s.skips (operandBytes code)).touched (address code pre s)))

/-! ## Jumps and the stack -/

theorem jmp_follows (code : BitVec 8) (pre : Bool) (s : Machine) : Follows (inst_jmp code pre) .jump code pre s := by
  have hrun : (inst_jmp code pre).run s =
      (go (setPC ((fetchea code pre).run s).1)).run ((fetchea code pre).run s).2 := rfl
  rw [fetchea_run] at hrun
  refine ⟨by rw [hrun]; rfl, by rw [hrun]; rfl, ?_⟩
  rw [hrun]
  exact (Machine.within_congr rfl).trans (and_iff_left trivial).symm

/-- The addresses of a word that is pushed. -/
theorem pushed_inRange {sp : BitVec 16} :
    InRange ((sp.toNat : Int) - 1) ∧ InRange ((sp.toNat : Int) - 1 + 1) ↔ sp ≠ 0 := by
  have hlt := sp.isLt
  unfold InRange
  constructor
  · rintro ⟨⟨hlow, -⟩, -⟩ rfl
    exact absurd hlow (by decide)
  · intro hne
    have hpos : sp.toNat ≠ 0 := fun h => hne (BitVec.eq_of_toNat_eq h)
    omega

/-- The state when a word has been stored. -/
def Machine.stored2 (s : Machine) (addr : Int) (val : BitVec 16) : Machine :=
  ((((s.touched addr).stored addr (val.extractLsb' 8 8)).touched (addr + 1)).stored (addr + 1) (val.extractLsb' 0 8))

theorem Machine.stored2_PC (s : Machine) (addr : Int) (val : BitVec 16) : (s.stored2 addr val).PC = s.PC :=
  (stored_PC _ _ _).trans (stored_PC _ _ _)

theorem Machine.stored2_regs (s : Machine) (addr : Int) (val : BitVec 16) : (s.stored2 addr val).regs = s.regs :=
  (stored_regs _ _ _).trans (stored_regs _ _ _)

theorem Machine.stored2_accesses (s : Machine) (addr : Int) (val : BitVec 16) :
    (s.stored2 addr val).accesses = (addr + 1) :: addr :: s.accesses :=
  (stored_accesses _ _ _).trans (congrArg ((addr + 1) :: ·) (stored_accesses _ _ _))

theorem push2_run (val : BitVec 16) (s : Machine) : (push2 val).run s =
    ((), { s.stored2 (s.regs.SP.toNat - 1) val with regs := { s.regs with SP := s.regs.SP - 2 } }) := by
  have hrun : (push2 val).run s = ((), { s.stored2 (s.regs.SP.toNat - 1) val with
      regs := { (s.stored2 (s.regs.SP.toNat - 1) val).regs with
        SP := (s.stored2 (s.regs.SP.toNat - 1) val).regs.SP - 2 } }) := rfl
  rw [hrun, Machine.stored2_regs]

theorem pushPC_run (s : Machine) : pushPC.run s = (push2 (BitVec.ofInt 16 s.PC)).run s := by
  unfold pushPC
  rw [bind_run]
  rfl

theorem push1_run (val : BitVec 8) (s : Machine) : (push1 val).run s =
    ((), { (s.touched s.regs.SP.toNat).stored s.regs.SP.toNat val with
      regs := { s.regs with SP := s.regs.SP - 1 } }) := by
  have hrun : (push1 val).run s = ((), { (s.touched s.regs.SP.toNat).stored s.regs.SP.toNat val with
      regs := { ((s.touched s.regs.SP.toNat).stored s.regs.SP.toNat val).regs with
        SP := ((s.touched s.regs.SP.toNat).stored s.regs.SP.toNat val).regs.SP - 1 } }) := rfl
  rw [hrun, Machine.stored_regs]
  rfl

theorem word_inRange (v : BitVec 16) : InRange (v.toNat : Int) := by
  have hlt := v.isLt
  unfold InRange
  omega

/-- A word that is pushed. -/
theorem Machine.within_stored2 (s : Machine) (sp : BitVec 16) (val : BitVec 16) :
    (s.stored2 (sp.toNat - 1) val).Within ↔ s.Within ∧ sp ≠ 0 := by
  have hfirst : (s.touched (sp.toNat - 1)).Within ↔ s.Within ∧ InRange (sp.toNat - 1) := within_cons rfl
  rw [within_cons (s := s.touched (sp.toNat - 1)) (s.stored2_accesses _ val), hfirst, and_assoc, pushed_inRange]

theorem push1_within (val : BitVec 8) (s : Machine) : ((push1 val).run s).2.Within ↔ s.Within := by
  rw [push1_run]
  refine (Machine.within_cons (s := s) (Machine.stored_accesses _ _ _)).trans ?_
  exact and_iff_left (word_inRange _)

theorem jsr_follows (code : BitVec 8) (pre : Bool) (s : Machine) : Follows (inst_jsr code pre) .jsr code pre s := by
  have hrun : (inst_jsr code pre).run s =
      (go (setPC ((fetchea code pre).run s).1)).run (pushPC.run ((fetchea code pre).run s).2).2 := rfl
  rw [fetchea_run, pushPC_run, push2_run] at hrun
  refine ⟨by rw [hrun]; rfl, by rw [hrun]; rfl, ?_⟩
  rw [hrun]
  exact (Machine.within_congr rfl).trans ((s.skips (operandBytes code)).within_stored2 s.regs.SP _)

theorem bsr_follows (code : BitVec 8) (pre : Bool) (s : Machine) : Follows (inst_bsr code pre) .bsr code pre s := by
  have hrun : (inst_bsr code pre).run s =
      (go (branchIf true (s.nextByte 0))).run ((push2 (BitVec.ofInt 16 (s.skips 1).PC)).run (s.skips 1)).2 := rfl
  rw [push2_run] at hrun
  refine ⟨by rw [hrun]; rfl, ?_, ?_⟩
  · rw [hrun]
    exact congrArg (· + (s.nextByte 0).toInt) ((s.skips 1).stored2_PC _ _)
  · rw [hrun]
    exact (Machine.within_congr rfl).trans ((s.skips 1).within_stored2 s.regs.SP _)

theorem get2_within (addr : Int) (s : Machine) :
    ((get2 addr).run s).2.Within ↔ s.Within ∧ InRange addr ∧ InRange (addr + 1) := by
  have hfirst : (s.touched addr).Within ↔ s.Within ∧ InRange addr := Machine.within_cons rfl
  have hsecond : ((get2 addr).run s).2.Within ↔ (s.touched addr).Within ∧ InRange (addr + 1) := Machine.within_cons rfl
  rw [hsecond, hfirst, and_assoc]

theorem pushReg_within (f : Regs → BitVec 8) (s : Machine) : ((pushReg f).run s).2.Within ↔ s.Within :=
  push1_within (f s.regs) s

theorem pushPC_within (s : Machine) : (pushPC.run s).2.Within ↔ s.Within ∧ s.regs.SP ≠ 0 := by
  rw [pushPC_run, push2_run]
  exact (Machine.within_congr rfl).trans (s.within_stored2 s.regs.SP _)

theorem pushRegs_within (s : Machine) : (pushRegs.run s).2.Within ↔ s.Within := by
  unfold pushRegs
  rw [bind_run, bind_run, pushReg_within, pushReg_within, pushReg_within]

theorem swi_run (code : BitVec 8) (pre : Bool) (s : Machine) : (inst_swi code pre).run s =
    (go (do
      onRegs (Regs.FLAG_CLEAR BIT_I)
      setPC (← get2 0xfffc).toNat)).run (pushRegs.run (pushPC.run s).2).2 := by
  unfold inst_swi go
  simp only [bind_run]

/-- A jump through a vector. -/
theorem vector_follows (vector : Int) (f : Regs → Regs) (u : Machine) : ∃ t : Machine,
    (go (do
      onRegs f
      setPC (← get2 vector).toNat)).run u = (.go, t) ∧ (∃ v : BitVec 16, t.PC = v.toNat) ∧
      (t.Within ↔ u.Within ∧ InRange vector ∧ InRange (vector + 1)) :=
  ⟨_, rfl, ⟨_, rfl⟩, get2_within vector { u with regs := f u.regs }⟩

theorem swi_follows (code : BitVec 8) (pre : Bool) (s : Machine) : Follows (inst_swi code pre) .swi code pre s := by
  have hrun := swi_run code pre s
  obtain ⟨t, ht, hPC, hwithin⟩ := vector_follows 0xfffc (Regs.FLAG_CLEAR BIT_I) (pushRegs.run (pushPC.run s).2).2
  rw [ht] at hrun
  refine ⟨by rw [hrun]; rfl, by rw [hrun]; exact hPC, ?_⟩
  rw [hrun]
  refine hwithin.trans ?_
  rw [pushRegs_within, pushPC_within]
  exact and_iff_left (by decide)

theorem rts_follows (code : BitVec 8) (pre : Bool) (s : Machine) : Follows (inst_rts code pre) .rts code pre s := by
  refine ⟨rfl, ⟨_, rfl⟩, ?_⟩
  have hwithin : ((inst_rts code pre).run s).2.Within ↔ ((get2 (s.regs.SP.toNat + 1)).run s).2.Within :=
    Machine.within_congr rfl
  have hsp : InRange (s.regs.SP.toNat + 1) ∧ InRange (s.regs.SP.toNat + 1 + 1) ↔ s.regs.SP.toNat + 2 ≤ 0xffff := by
    unfold InRange
    omega
  rw [hwithin, get2_within, hsp]
  rfl

theorem pop1_within (put : BitVec 8 → Regs → Regs) (s : Machine) :
    ((pop1 put).run s).2.Within ↔ s.Within ∧ InRange (s.regs.SP.toNat + 1) := Machine.within_cons rfl

theorem pop1_SP {put : BitVec 8 → Regs → Regs} (hput : ∀ v r, (put v r).SP = r.SP) (s : Machine) :
    ((pop1 put).run s).2.regs.SP = s.regs.SP + 1 := congrArg (· + 1) (hput _ _)

/-- The addresses of the bytes that `inst_rti` takes. -/
theorem rti_inRange (sp : BitVec 16) :
    (((InRange (sp.toNat + 1) ∧ InRange ((sp + 1).toNat + 1)) ∧ InRange ((sp + 1 + 1).toNat + 1)) ∧
      InRange ((sp + 1 + 1 + 1).toNat + 1) ∧ InRange ((sp + 1 + 1 + 1).toNat + 1 + 1)) ↔ sp.toNat + 5 ≤ 0xffff := by
  have hlt := sp.isLt
  have hone : (1 : BitVec 16).toNat = 1 := rfl
  unfold InRange
  simp only [BitVec.toNat_add, hone]
  omega

theorem onRegs_SP {f : Regs → Regs} (hf : ∀ r, (f r).SP = r.SP) (s : Machine) :
    ((onRegs f).run s).2.regs.SP = s.regs.SP := hf _

theorem onRegs_within (f : Regs → Regs) (s : Machine) : ((onRegs f).run s).2.Within ↔ s.Within :=
  Machine.within_congr rfl

theorem popRegs_SP (s : Machine) : (popRegs.run s).2.regs.SP = s.regs.SP + 1 + 1 + 1 := by
  unfold popRegs
  rw [bind_run, bind_run, bind_run, @pop1_SP Regs.putX fun _ _ => rfl, @pop1_SP Regs.putA fun _ _ => rfl,
    onRegs_SP (f := fun r => { r with P := r.P ||| 0x60 }) fun _ => rfl, @pop1_SP Regs.putP fun _ _ => rfl]

theorem popRegs_within (s : Machine) : (popRegs.run s).2.Within ↔ s.Within ∧
    ((InRange (s.regs.SP.toNat + 1) ∧ InRange ((s.regs.SP + 1).toNat + 1)) ∧
      InRange ((s.regs.SP + 1 + 1).toNat + 1)) := by
  unfold popRegs
  rw [bind_run, bind_run, bind_run, pop1_within, pop1_within, onRegs_within, pop1_within,
    @pop1_SP Regs.putA fun _ _ => rfl, onRegs_SP (f := fun r => { r with P := r.P ||| 0x60 }) fun _ => rfl,
    @pop1_SP Regs.putP fun _ _ => rfl, and_assoc, and_assoc, and_assoc]

/-- The address is pulled behind the registers. -/
theorem rti_end {x : Prog Res} {u : Machine} (hrun : x.run s = (go (do setPC (← pop2).toNat)).run u)
    (hSP : u.regs.SP = s.regs.SP + 1 + 1 + 1) (hwithin : u.Within ↔ s.Within ∧
      ((InRange (s.regs.SP.toNat + 1) ∧ InRange ((s.regs.SP + 1).toNat + 1)) ∧
        InRange ((s.regs.SP + 1 + 1).toNat + 1))) : Follows x .rti code pre s := by
  refine ⟨by rw [hrun]; rfl, ⟨_, by rw [hrun]; rfl⟩, ?_⟩
  have hpop : ((go (do setPC (← pop2).toNat)).run u).2.Within ↔ ((get2 (u.regs.SP.toNat + 1)).run u).2.Within :=
    Machine.within_congr rfl
  rw [hrun, hpop, get2_within, hwithin, hSP, and_assoc, rti_inRange]
  rfl

theorem rti_follows (code : BitVec 8) (pre : Bool) (s : Machine) : Follows (inst_rti code pre) .rti code pre s := by
  refine rti_end ?_ (popRegs_SP s) (popRegs_within s)
  unfold inst_rti go
  rw [bind_run, bind_run, bind_run, bind_run, bind_run]

theorem push_follows (f : Regs → BitVec 8) (code : BitVec 8) (pre : Bool) (s : Machine) :
    Follows (go (pushReg f)) .push code pre s := by
  have hpush : (pushReg f).run s = (push1 (f s.regs)).run s := rfl
  refine ⟨rfl, ?_, ?_⟩
  · show ((pushReg f).run s).2.PC = s.PC
    rw [hpush, push1_run]
    exact Machine.stored_PC _ _ _
  · exact (pushReg_within f s).trans (and_iff_left trivial).symm

theorem pull_follows (put : BitVec 8 → Regs → Regs) (code : BitVec 8) (pre : Bool) (s : Machine) :
    Follows (go (pop1 put)) .pull code pre s := by
  refine ⟨rfl, rfl, (pop1_within put s).trans (and_congr_right fun _ => ?_)⟩
  have hlt := s.regs.SP.isLt
  have hsp : InRange (s.regs.SP.toNat + 1) ↔ s.regs.SP.toNat + 1 ≤ 0xffff := by
    unfold InRange
    omega
  exact hsp

/-! ## Accesses below the end of the memory -/

theorem byte_inRange (v : BitVec 8) : InRange (v.toNat : Int) ∧ InRange ((v.toNat : Int) + 1) := by
  have hlt := v.isLt
  unfold InRange
  omega

/-- Accesses at addresses that the memory has. -/
theorem follows_fixed {x : Prog Res} {n : Nat} {t : Machine} (hrun : x.run s = (.go, t))
    (hPC : t.PC = advance n s.PC) {addr addr' : Int} (hacc : t.accesses = addr :: addr' :: s.accesses)
    (h : InRange addr) (h' : InRange addr') : Follows x (.fixed n) code pre s := by
  have hfirst : (s.touched addr').Within ↔ s.Within ∧ InRange addr' := Machine.within_cons rfl
  refine ⟨by rw [hrun]; rfl, by rw [hrun]; exact hPC, ?_⟩
  rw [hrun, Machine.within_cons (s := s.touched addr') hacc, hfirst, and_iff_left h, and_iff_left h']
  exact (and_iff_left trivial).symm

theorem mov_follows_4e (pre : Bool) (s : Machine) : Follows (inst_mov 0x4e pre) (.fixed 2) 0x4e pre s :=
  follows_fixed rfl (Machine.stored_PC _ _ _) (Machine.stored_accesses _ _ _) (byte_inRange _).1 (byte_inRange _).1

theorem mov_follows_5e (pre : Bool) (s : Machine) : Follows (inst_mov 0x5e pre) (.fixed 1) 0x5e pre s :=
  follows_fixed rfl (Machine.stored_PC _ _ _) (Machine.stored_accesses _ _ _) (word_inRange _) (byte_inRange _).1

theorem mov_follows_7e (pre : Bool) (s : Machine) : Follows (inst_mov 0x7e pre) (.fixed 1) 0x7e pre s :=
  follows_fixed rfl (Machine.stored_PC _ _ _) (Machine.stored_accesses _ _ _) (byte_inRange _).1 (word_inRange _)

theorem mov_follows_6e (pre : Bool) (s : Machine) : Follows (inst_mov 0x6e pre) (.fixed 2) 0x6e pre s := by
  refine ⟨rfl, Machine.stored_PC _ _ _, ?_⟩
  refine (Machine.within_cons (s := s) (Machine.stored_accesses _ _ _)).trans (and_congr_right fun _ => ?_)
  exact iff_of_true (byte_inRange _).1 trivial

theorem sthx_follows (code : BitVec 8) (pre : Bool) (s : Machine) : Follows (inst_sthx code pre) (.fixed 1) code pre s := by
  let ea := s.nextByte 0
  let u := ((s.skips 1).touched ea.toNat).stored ea.toNat s.regs.H
  have hnext : InRange (((ea.toNat + 1) % 0x10000 : Nat) : Int) := by
    unfold InRange
    omega
  have hrun : ∃ r, (inst_sthx code pre).run s =
      (.go, { (u.touched ((ea.toNat + 1) % 0x10000 : Nat)).stored ((ea.toNat + 1) % 0x10000 : Nat) u.regs.X with
        regs := r }) := ⟨_, rfl⟩
  obtain ⟨r, hrun⟩ := hrun
  refine follows_fixed hrun ?_ ?_ hnext (byte_inRange ea).1
  · exact (Machine.stored_PC _ _ _).trans (Machine.stored_PC _ _ _)
  · exact (Machine.stored_accesses _ _ _).trans (congrArg (_ :: ·) (Machine.stored_accesses _ _ _))

theorem ldhx_follows (pre : Bool) (s : Machine) : Follows (inst_ldhx 0x45 pre) (.straight 2) 0x45 pre s ∧
    Follows (inst_ldhx 0x55 pre) (.fixed 1) 0x55 pre s :=
  ⟨follows_straight rfl rfl rfl, follows_fixed rfl rfl rfl (byte_inRange (s.nextByte 0)).2 (byte_inRange _).1⟩

theorem cphx_follows (pre : Bool) (s : Machine) : Follows (inst_cphx 0x65 pre) (.straight 2) 0x65 pre s ∧
    Follows (inst_cphx 0x75 pre) (.fixed 1) 0x75 pre s :=
  ⟨follows_straight rfl rfl rfl, follows_fixed rfl rfl rfl (byte_inRange (s.nextByte 0)).2 (byte_inRange _).1⟩

theorem inherent_follows (f : Regs → Regs) (code : BitVec 8) (pre : Bool) (s : Machine) :
    Follows (inherent f) (.straight 0) code pre s := follows_straight rfl rfl rfl

/-! ## The whole instruction set -/

theorem nibbles (code : BitVec 8) : code.toNat = 16 * high code + low code := by
  unfold high low
  rw [BitVec.toNat_ushiftRight, Nat.shiftRight_eq_div_pow, BitVec.toNat_and]
  have hmod : code.toNat &&& 15 = code.toNat % 16 := Nat.and_two_pow_sub_one_eq_mod code.toNat 4
  exact (Nat.div_add_mod code.toNat 16).symm.trans (congrArg (16 * (code.toNat / 16) + ·) hmod.symm)

theorem code_iff {c : BitVec 8} (hlow : low code = low c) : code = c ↔ high code = high c := by
  refine ⟨fun h => by rw [h], fun hhigh => BitVec.eq_of_toNat_eq ?_⟩
  rw [nibbles code, nibbles c, hlow, hhigh]

theorem accumulator_follows (code : BitVec 8) (s : Machine) :
    Follows (accumulatorCodes code) (accumulatorKind code) code false s := by
  unfold accumulatorCodes accumulatorKind
  have hlt := low_lt code
  have hcode := fun c => @code_iff code c
  generalize low code = n at hlt hcode
  interval_cases n
  case «7» =>
    by_cases h : high code = 0xa
    · simp only [hcode 0xa7 rfl, if_pos (show high code = high 0xa7 from h), if_pos h]
      exact follows_straight rfl rfl rfl
    · simp only [hcode 0xa7 rfl, if_neg (show high code ≠ high 0xa7 from h), if_neg h]
      exact storing_follows _ code false s
  case «12» =>
    by_cases h : high code = 0xa
    · simp only [hcode 0xac rfl, if_pos (show high code = high 0xac from h), if_pos h]
      exact follows_stop
    · simp only [hcode 0xac rfl, if_neg (show high code ≠ high 0xac from h), if_neg h]
      exact jmp_follows code false s
  case «13» =>
    by_cases h : high code = 0xa
    · simp only [hcode 0xad rfl, if_pos (show high code = high 0xad from h), if_pos h]
      exact bsr_follows code false s
    · simp only [hcode 0xad rfl, if_neg (show high code ≠ high 0xad from h), if_neg h]
      exact jsr_follows code false s
  case «15» =>
    by_cases h : high code = 0xa
    · simp only [hcode 0xaf rfl, if_pos (show high code = high 0xaf from h), if_pos h]
      exact follows_straight rfl rfl rfl
    · simp only [hcode 0xaf rfl, if_neg (show high code ≠ high 0xaf from h), if_neg h]
      exact storing_follows _ code false s
  all_goals exact operation_follows _ code false s

/-- An opcode of a row of the table. -/
theorem code_eq {h l : Nat} (hhigh : high code = h) (hlow : low code = l) :
    code = BitVec.ofNat 8 (16 * h + l) := by
  apply BitVec.eq_of_toNat_eq
  have hsum := nibbles code
  have hlt := code.isLt
  rw [hhigh, hlow] at hsum
  rw [BitVec.toNat_ofNat, ← hsum, Nat.mod_eq_of_lt hlt]

/-- The opcodes of which each has its own body. -/
def singleOps : List (BitVec 8) :=
  [0x32, 0x42, 0x52, 0x62, 0x72, 0x35, 0x45, 0x55, 0x65, 0x75, 0x3e, 0x4e, 0x5e, 0x6e, 0x7e]

theorem single_follows (s : Machine) :
    ∀ code ∈ singleOps, Follows (operandCodes code) (operandKind code) code false s := by
  refine List.forall_mem_cons.mpr ⟨follows_stop, ?_⟩
  refine List.forall_mem_cons.mpr ⟨inherent_follows _ _ false s, ?_⟩
  refine List.forall_mem_cons.mpr ⟨inherent_follows _ _ false s, ?_⟩
  refine List.forall_mem_cons.mpr ⟨inherent_follows _ _ false s, ?_⟩
  refine List.forall_mem_cons.mpr ⟨inherent_follows _ _ false s, ?_⟩
  refine List.forall_mem_cons.mpr ⟨sthx_follows _ false s, ?_⟩
  refine List.forall_mem_cons.mpr ⟨(ldhx_follows false s).1, ?_⟩
  refine List.forall_mem_cons.mpr ⟨(ldhx_follows false s).2, ?_⟩
  refine List.forall_mem_cons.mpr ⟨(cphx_follows false s).1, ?_⟩
  refine List.forall_mem_cons.mpr ⟨(cphx_follows false s).2, ?_⟩
  refine List.forall_mem_cons.mpr ⟨follows_stop, ?_⟩
  refine List.forall_mem_cons.mpr ⟨mov_follows_4e false s, ?_⟩
  refine List.forall_mem_cons.mpr ⟨mov_follows_5e false s, ?_⟩
  refine List.forall_mem_cons.mpr ⟨mov_follows_6e false s, ?_⟩
  exact List.forall_mem_singleton.mpr (mov_follows_7e false s)

theorem mem_singleOps (h : high code ∈ [0x3, 0x4, 0x5, 0x6, 0x7]) (hlow : low code ∈ [0x2, 0x5, 0xe]) :
    code ∈ singleOps := by
  have hcode := @code_eq code _ _ rfl rfl
  generalize high code = n at h hcode
  generalize low code = k at hlow hcode
  rw [hcode]
  clear hcode
  revert n
  revert k
  decide

theorem operand_follows (h : high code ∈ [0x3, 0x4, 0x5, 0x6, 0x7]) (s : Machine) :
    Follows (operandCodes code) (operandKind code) code false s := by
  by_cases hsingle : low code ∈ [0x2, 0x5, 0xe]
  · exact single_follows s code (mem_singleOps h hsingle)
  have h0 : high code ≠ 0x0 := fun h0 => absurd (h0 ▸ h) (by decide)
  have h2 : high code ≠ 0x2 := fun h2 => absurd (h2 ▸ h) (by decide)
  have h9 : high code ≠ 0x9 := fun h9 => absurd (h9 ▸ h) (by decide)
  have hcbeq := fun hlow => @cbeq_follows code h0 h2 h9 hlow false s
  have hdbnz := fun hlow => @dbnz_follows code h0 h2 h9 hlow false s
  have hlt := low_lt code
  unfold operandCodes operandKind
  generalize low code = n at hlt hsingle hcbeq hdbnz
  interval_cases n
  case «1» => exact hcbeq rfl
  case «11» => exact hdbnz rfl
  case «13» => exact tst_follows code false s
  case «15» => exact clr_follows code false s
  case «2» => exact absurd hsingle (by decide)
  case «5» => exact absurd hsingle (by decide)
  case «14» => exact absurd hsingle (by decide)
  case «4» => exact shifting_follows _ _ code false s
  case «6» => exact shifting_follows _ _ code false s
  case «7» => exact shifting_follows _ _ code false s
  case «8» => exact shifting_follows _ _ code false s
  case «9» => exact shifting_follows _ _ code false s
  all_goals exact updating_follows _ code false s

/-- The opcodes from 0x80 to 0x8F. -/
def stackOps : List (BitVec 8) :=
  [0x80, 0x81, 0x82, 0x83, 0x84, 0x85, 0x86, 0x87, 0x88, 0x89, 0x8a, 0x8b, 0x8c, 0x8d, 0x8e, 0x8f]

theorem stack_follows (s : Machine) : ∀ code ∈ stackOps, Follows (stackCodes code) (stackKind code) code false s := by
  refine List.forall_mem_cons.mpr ⟨rti_follows _ false s, ?_⟩
  refine List.forall_mem_cons.mpr ⟨rts_follows _ false s, ?_⟩
  refine List.forall_mem_cons.mpr ⟨follows_stop, ?_⟩
  refine List.forall_mem_cons.mpr ⟨swi_follows _ false s, ?_⟩
  refine List.forall_mem_cons.mpr ⟨inherent_follows _ _ false s, ?_⟩
  refine List.forall_mem_cons.mpr ⟨inherent_follows _ _ false s, ?_⟩
  refine List.forall_mem_cons.mpr ⟨pull_follows _ _ false s, ?_⟩
  refine List.forall_mem_cons.mpr ⟨push_follows _ _ false s, ?_⟩
  refine List.forall_mem_cons.mpr ⟨pull_follows _ _ false s, ?_⟩
  refine List.forall_mem_cons.mpr ⟨push_follows _ _ false s, ?_⟩
  refine List.forall_mem_cons.mpr ⟨pull_follows _ _ false s, ?_⟩
  refine List.forall_mem_cons.mpr ⟨push_follows _ _ false s, ?_⟩
  refine List.forall_mem_cons.mpr ⟨inherent_follows _ _ false s, ?_⟩
  refine List.forall_mem_cons.mpr ⟨follows_stop, ?_⟩
  refine List.forall_mem_cons.mpr ⟨inherent_follows _ _ false s, ?_⟩
  exact List.forall_mem_singleton.mpr (inherent_follows _ _ false s)

theorem branch_follows (hhigh : high code = 0x2 ∨ high code = 0x9 ∧ low code ≠ 0xb)
    (htaken : taken code s.regs ≠ none) : Follows (inst_condbranch code pre) (.branch 0) code pre s := by
  have hfollows := @condbranch_follows code pre hhigh s
  rwa [if_neg htaken] at hfollows

/-- The opcodes from 0x90 to 0x9F but 0x9E. -/
def registerOps : List (BitVec 8) :=
  [0x90, 0x91, 0x92, 0x93, 0x94, 0x95, 0x96, 0x97, 0x98, 0x99, 0x9a, 0x9b, 0x9c, 0x9d, 0x9f]

theorem register_follows (s : Machine) : ∀ code ∈ registerOps, Follows (registerCodes code) (kind code) code false s := by
  refine List.forall_mem_cons.mpr ⟨branch_follows (.inr ⟨rfl, by decide⟩) nofun, ?_⟩
  refine List.forall_mem_cons.mpr ⟨branch_follows (.inr ⟨rfl, by decide⟩) nofun, ?_⟩
  refine List.forall_mem_cons.mpr ⟨branch_follows (.inr ⟨rfl, by decide⟩) nofun, ?_⟩
  refine List.forall_mem_cons.mpr ⟨branch_follows (.inr ⟨rfl, by decide⟩) nofun, ?_⟩
  refine List.forall_mem_cons.mpr ⟨inherent_follows _ _ false s, ?_⟩
  refine List.forall_mem_cons.mpr ⟨inherent_follows _ _ false s, ?_⟩
  refine List.forall_mem_cons.mpr ⟨accumulator_follows 0x96 s, ?_⟩
  refine List.forall_mem_cons.mpr ⟨inherent_follows _ _ false s, ?_⟩
  refine List.forall_mem_cons.mpr ⟨inherent_follows _ _ false s, ?_⟩
  refine List.forall_mem_cons.mpr ⟨inherent_follows _ _ false s, ?_⟩
  refine List.forall_mem_cons.mpr ⟨inherent_follows _ _ false s, ?_⟩
  refine List.forall_mem_cons.mpr ⟨inherent_follows _ _ false s, ?_⟩
  refine List.forall_mem_cons.mpr ⟨inherent_follows _ _ false s, ?_⟩
  refine List.forall_mem_cons.mpr ⟨follows_straight rfl rfl rfl, ?_⟩
  exact List.forall_mem_singleton.mpr (inherent_follows _ _ false s)

/-- Of the branches from 0x20, those of the interrupt pin have no case. -/
theorem taken_eq_none_iff (h : high code = 0x2) (r : Regs) : taken code r = none ↔ code = 0x2e ∨ code = 0x2f := by
  have hlt := low_lt code
  have hcode := @code_eq code _ _ h rfl
  generalize low code = n at hlt hcode
  rw [hcode]
  clear hcode
  interval_cases n
  case «14» => exact iff_of_true rfl (.inl rfl)
  case «15» => exact iff_of_true rfl (.inr rfl)
  all_goals exact iff_of_false nofun (by decide)

theorem inRegister_high (h : InRegister code) : high code = 0x4 ∨ high code = 0x5 := by
  revert code
  decide +kernel

/-- A body for an operand in memory. -/
theorem follows_memory {x : Prog Res} {k k' : Kind} (hregister : ¬ InRegister code)
    (h : Follows x (if InRegister code then k else k') code pre s) : Follows x k' code pre s := by
  rwa [if_neg hregister] at h

theorem prefixed_row6 (h6 : high code = 0x6) (s : Machine) :
    Follows (prefixedCodes code) (prefixedKind code) code true s := by
  have hregister : ¬ InRegister code := fun h => by
    have hhigh := inRegister_high h
    omega
  have hcbeq := fun hlow => follows_memory hregister
    (@cbeq_follows code (by omega) (by omega) (by omega) hlow true s)
  have hdbnz := fun hlow => follows_memory hregister
    (@dbnz_follows code (by omega) (by omega) (by omega) hlow true s)
  have hshift := fun out result => follows_memory hregister (shifting_follows out result code true s)
  have hupdate := fun f => follows_memory hregister (updating_follows f code true s)
  have hlt := low_lt code
  unfold prefixedCodes prefixedKind
  rw [h6]
  generalize low code = n at hlt hcbeq hdbnz
  interval_cases n
  case «0» => exact hupdate _
  case «1» => exact hcbeq rfl
  case «3» => exact hupdate _
  case «4» => exact hshift _ _
  case «6» => exact hshift _ _
  case «7» => exact hshift _ _
  case «8» => exact hshift _ _
  case «9» => exact hshift _ _
  case «10» => exact hupdate _
  case «11» => exact hdbnz rfl
  case «12» => exact hupdate _
  case «13» => exact follows_memory hregister (tst_follows code true s)
  case «15» => exact follows_memory hregister (clr_follows code true s)
  all_goals exact follows_stop

theorem prefixed_rowDE (h : high code = 0xd ∨ high code = 0xe) (s : Machine) :
    Follows (prefixedCodes code) (prefixedKind code) code true s := by
  have hop := fun f => operation_follows f code true s
  have hne : high code ≠ 0xa := by omega
  simp only [if_neg hne] at hop
  have hlt := low_lt code
  unfold prefixedCodes prefixedKind
  rcases h with h | h
  all_goals
    rw [h]
    generalize low code = n at hlt
    interval_cases n
    case «7» => exact storing_follows _ code true s
    case «12» => exact follows_stop
    case «13» => exact follows_straight rfl rfl rfl
    case «15» => exact storing_follows _ code true s
    all_goals exact hop _

theorem prefixed_follows (code : BitVec 8) (s : Machine) :
    Follows (prefixedCodes code) (prefixedKind code) code true s := by
  by_cases h6 : high code = 0x6
  · exact prefixed_row6 h6 s
  by_cases hDE : high code = 0xd ∨ high code = 0xe
  · exact prefixed_rowDE hDE s
  have hlt := high_lt code
  have hstop : prefixedCodes code = (return .halt) ∧ prefixedKind code = .stop := by
    unfold prefixedCodes prefixedKind
    generalize high code = n at h6 hDE hlt
    interval_cases n
    case «6» => exact absurd rfl h6
    case «13» => exact absurd (.inl rfl) hDE
    case «14» => exact absurd (.inr rfl) hDE
    all_goals exact ⟨rfl, rfl⟩
  rw [hstop.1, hstop.2]
  exact follows_stop

theorem mem_stackOps (h : high code = 0x8) : code ∈ stackOps := by
  have hcode := @code_eq code _ _ h rfl
  have hlt := low_lt code
  generalize low code = n at hcode hlt
  rw [hcode]
  clear hcode
  revert n
  decide

theorem mem_registerOps (h : high code = 0x9) (hne : code ≠ 0x9e) : code ∈ registerOps := by
  have hcode := @code_eq code _ _ h rfl
  have hall : ∀ n < 16, BitVec.ofNat 8 (16 * 9 + n) ≠ 0x9e → BitVec.ofNat 8 (16 * 9 + n) ∈ registerOps := by decide
  rw [hcode] at hne ⊢
  exact hall _ (low_lt code) hne

/-- The opcodes but 0x9E. -/
theorem dispatch_follows (h : code ≠ 0x9e) (s : Machine) : Follows (dispatch code) (kind code) code false s := by
  have hlt := high_lt code
  have hcode := @code_eq code _ _ rfl rfl
  have hbit := fun h0 => @bittest_follows code h0 false s
  have hbranch := fun h2 => @condbranch_follows code false (.inl h2) s
  have hnone := fun h2 => @taken_eq_none_iff code h2 s.regs
  have hoperand := fun hmem => @operand_follows code hmem s
  have hregister := fun h9 => register_follows s code (mem_registerOps h9 h)
  unfold dispatch
  have hkind : ∀ n, high code = n → kind code = match n with
    | 0x0 => .branchOperand
    | 0x1 => .operand
    | 0x2 => if code = 0x2e ∨ code = 0x2f then .stop else .branch 0
    | 0x3 | 0x4 | 0x5 | 0x6 | 0x7 => operandKind code
    | 0x8 => stackKind code
    | 0x9 => kind code
    | _ => accumulatorKind code := by
    rintro _ rfl
    unfold kind
    generalize high code = n at hlt
    interval_cases n <;> rfl
  rw [hkind _ rfl]
  generalize hn : high code = n at hlt hbit hbranch hnone hoperand hregister
  interval_cases n
  case «0» => exact hbit rfl
  case «1» => exact bitsetclear_follows code false s
  case «2» =>
    have h2 := hbranch rfl
    simp only [hnone rfl] at h2
    exact h2
  case «3» => exact hoperand (by decide)
  case «4» => exact hoperand (by decide)
  case «5» => exact hoperand (by decide)
  case «6» => exact hoperand (by decide)
  case «7» => exact hoperand (by decide)
  case «8» => exact stack_follows s code (mem_stackOps hn)
  case «9» => exact hregister rfl
  all_goals exact accumulator_follows code s

/-! ## The instruction at PC -/

namespace Machine

/-- The instruction stands behind 0x9E. -/
def prefixed (s : Machine) : Bool := s.code = 0x9e

/-- The opcode, or the one behind 0x9E. -/
def opcode (s : Machine) : BitVec 8 := if s.prefixed then s.skip.code else s.code

/-- The state in which the body behind the opcode starts. -/
def body (s : Machine) : Machine := if s.prefixed then s.fetched.skip else s.fetched

/-- The kind of the instruction. -/
def kindOf (s : Machine) : Kind := if s.prefixed then prefixedKind s.opcode else kind s.opcode

end Machine

theorem exec_follows (h : s.regs.VECTOR = false) :
    ∃ x, exec_inst.run s = x.run s.body ∧ Follows x s.kindOf s.opcode s.prefixed s.body := by
  unfold Machine.kindOf Machine.opcode Machine.body
  by_cases hcode : s.code = 0x9e
  · have hpre : s.prefixed = true := decide_eq_true hcode
    refine ⟨prefixedCodes s.skip.code, ?_, ?_⟩
    · rw [exec_inst_run h, hcode, hpre]
      rfl
    · rw [hpre]
      exact prefixed_follows _ _
  · have hpre : s.prefixed = false := decide_eq_false hcode
    refine ⟨dispatch s.code, ?_, ?_⟩
    · rw [exec_inst_run h, hpre]
      rfl
    · rw [hpre]
      exact dispatch_follows hcode _

end Ucsim.Hc08
