import Mathlib.Tactic.FinCases
import Ucsim.Hc08.Addresses
import Ucsim.Hc08.ConditionCodes
import Ucsim.Logic.Stack

/-!
# The stack of the HC08

Pushes, pulls, calls, interrupts and returns in nested sequences. What is on the stack is listed as frames, the last
one first. The stack pointer is below the last byte.
-/

namespace Ucsim.Hc08

/-! ## Bytes in memory -/

/-- The stack. The stack pointer is below its lowest byte. -/
def stack : Logic.Stack Machine (BitVec 8) where
  low s := s.regs.SP.toNat + 1
  cell s a := s.byteAt a
  size := 0x10000

theorem low_eq (s : Machine) : stack.low s = s.regs.SP.toNat + 1 := rfl

theorem stack_fits (s : Machine) : stack.low s ≤ stack.size := s.regs.SP.isLt

theorem holds_cons {s : Machine} {addr : Nat} {b : BitVec 8} {bs : List (BitVec 8)} :
    stack.Holds s addr (b :: bs) ↔ s.byteAt addr = b ∧ stack.Holds s (addr + 1) bs := Iff.rfl

section Moves

variable {s t : Machine} {bs : List (BitVec 8)} {n : Nat}

theorem pushed_SP (h : stack.Pushed s bs t) : t.regs.SP.toNat + bs.length = s.regs.SP.toNat := by
  have hlow : t.regs.SP.toNat + 1 + bs.length = s.regs.SP.toNat + 1 := h.low
  omega

theorem popped_SP (h : stack.Popped s n t) : t.regs.SP.toNat = s.regs.SP.toNat + n := by
  have hlow : t.regs.SP.toNat + 1 = s.regs.SP.toNat + 1 + n := h.low
  omega

theorem popped_byteAt (h : stack.Popped s n t) {a : Nat} (ha : t.regs.SP.toNat < a) (hle : a ≤ 0xffff) :
    t.byteAt a = s.byteAt a := h.frame a ha (Nat.lt_succ_of_le hle)

end Moves

/-- What is read after a byte has been stored. -/
theorem byteAt_stored_self (s : Machine) (a : Nat) (h : a ≤ 0xffff) (val : BitVec 8) : (s.stored a val).byteAt a = val := by
  have hin : InRange (a : Int) := ⟨by omega, by omega⟩
  unfold Machine.stored Machine.byteAt
  rw [if_pos hin, if_pos hin]
  exact Function.update_self _ _ _

theorem byteAt_stored_of_ne (s : Machine) {a b : Nat} (ha : a ≤ 0xffff) (hb : b ≤ 0xffff) (hne : b ≠ a)
    (val : BitVec 8) : (s.stored a val).byteAt b = s.byteAt b := by
  have hin : InRange (a : Int) := ⟨by omega, by omega⟩
  have hinb : InRange (b : Int) := ⟨by omega, by omega⟩
  have haddr : BitVec.ofInt 16 (b : Int) ≠ BitVec.ofInt 16 (a : Int) := by
    intro heq
    have hnat := congrArg BitVec.toNat heq
    rw [BitVec.toNat_ofInt, BitVec.toNat_ofInt] at hnat
    omega
  unfold Machine.stored Machine.byteAt
  rw [if_pos hin, if_pos hinb, if_pos hinb]
  exact Function.update_of_ne haddr _ _

/-- A byte is stored at the stack pointer, which moves below it. -/
theorem stored_pushed {s t : Machine} {val : BitVec 8} (hroom : 1 ≤ s.regs.SP.toNat)
    (hSP : t.regs.SP = s.regs.SP - 1) (hbytes : ∀ a : Nat, t.byteAt a = (s.stored s.regs.SP.toNat val).byteAt a) :
    stack.Pushed s [val] t := by
  have hlt := s.regs.SP.isLt
  have hsp : t.regs.SP.toNat + 1 = s.regs.SP.toNat := by
    rw [hSP]
    bv_omega
  refine ⟨congrArg (· + 1) hsp, ⟨?_, trivial⟩, fun a ha hsize => ?_⟩
  · have haddr : stack.low t = s.regs.SP.toNat := hsp
    rw [haddr]
    exact (hbytes _).trans (byteAt_stored_self s _ (by omega) val)
  · have habove : s.regs.SP.toNat < a := ha
    have hle : a ≤ 0xffff := Nat.le_of_lt_succ hsize
    exact (hbytes a).trans (byteAt_stored_of_ne s (by omega) hle (by omega) val)

/-- The log of accesses does not matter. -/
theorem byteAt_touched_stored (s : Machine) (addr : Int) (val : BitVec 8) (a : Int) :
    ((s.touched addr).stored addr val).byteAt a = (s.stored addr val).byteAt a :=
  Machine.byteAt_stored (s := s) (t := s.touched addr) rfl rfl addr val a

theorem push1_pushed (val : BitVec 8) {s : Machine} (hroom : 1 ≤ s.regs.SP.toNat) :
    stack.Pushed s [val] ((push1 val).run s).2 := by
  rw [push1_run]
  exact stored_pushed hroom rfl fun a => byteAt_touched_stored s _ val a

theorem push2_byteAt (val : BitVec 16) (s : Machine) (a : Int) :
    ((push2 val).run s).2.byteAt a = (s.stored2 (s.regs.SP.toNat - 1) val).byteAt a := by
  rw [push2_run]
  rfl

/-- A word is pushed, its high byte last. -/
theorem push2_pushed (val : BitVec 16) {s : Machine} (hroom : 2 ≤ s.regs.SP.toNat) :
    stack.Pushed s [val.extractLsb' 8 8, val.extractLsb' 0 8] ((push2 val).run s).2 := by
  have hlt := s.regs.SP.isLt
  have hsp : (s.regs.SP - 2).toNat + 1 + 1 = s.regs.SP.toNat := by bv_omega
  obtain ⟨n, hn⟩ : ∃ n : Nat, (s.regs.SP - 2).toNat + 1 = n := ⟨_, rfl⟩
  have haddr : (s.regs.SP.toNat : Int) - 1 = (n : Int) := by omega
  have hnext : (n : Int) + 1 = ((n + 1 : Nat) : Int) := by omega
  have hword (a : Nat) : ((push2 val).run s).2.byteAt a =
      ((((s.touched n).stored n (val.extractLsb' 8 8))).stored ((n + 1 : Nat) : Int) (val.extractLsb' 0 8)).byteAt a := by
    rw [push2_byteAt, haddr]
    unfold Machine.stored2
    rw [hnext]
    exact byteAt_touched_stored ((s.touched n).stored n (val.extractLsb' 8 8)) _ _ a
  have hhigh (a : Nat) (ha : a ≤ 0xffff) (hne : a ≠ n + 1) :
      ((push2 val).run s).2.byteAt a = (s.stored n (val.extractLsb' 8 8)).byteAt a := by
    rw [hword, byteAt_stored_of_ne _ (by omega) ha hne]
    exact byteAt_touched_stored s n _ a
  have hSP : ((push2 val).run s).2.regs.SP = s.regs.SP - 2 := by rw [push2_run]
  have hlow : stack.low ((push2 val).run s).2 = n := by rw [low_eq, hSP, hn]
  refine ⟨?_, ?_, fun a ha hsize => ?_⟩
  · have hs : stack.low s = s.regs.SP.toNat + 1 := rfl
    rw [hlow, hs, List.length_cons, List.length_singleton]
    omega
  · rw [hlow]
    refine holds_cons.mpr ⟨?_, holds_cons.mpr ⟨?_, trivial⟩⟩
    · rw [hhigh n (by omega) (by omega)]
      exact byteAt_stored_self s n (by omega) _
    · rw [hword (n + 1)]
      exact byteAt_stored_self _ (n + 1) (by omega) _
  · have habove : s.regs.SP.toNat < a := ha
    have hle : a ≤ 0xffff := Nat.le_of_lt_succ hsize
    exact (hhigh a hle (by omega)).trans (byteAt_stored_of_ne s (by omega) hle (by omega) _)

/-- A register is taken from the stack. -/
theorem pop1_popped {f : BitVec 8 → Regs → Regs} (hput : ∀ v r, (f v r).SP = r.SP) {s : Machine}
    (hroom : s.regs.SP.toNat + 1 ≤ 0xffff) : stack.Popped s 1 ((pop1 f).run s).2 := by
  have hone : (s.regs.SP + 1).toNat = s.regs.SP.toNat + 1 := by bv_omega
  have hSP := congrArg BitVec.toNat (pop1_SP hput s)
  exact ⟨congrArg (· + 1) (hSP.trans hone), fun _ _ _ => rfl⟩

/-- What is pulled into a register. -/
theorem pop1_value {α : Type} {f : BitVec 8 → Regs → Regs} {g : Regs → α}
    (hget : ∀ (r : Regs) sp, g { r with SP := sp } = g r) (s : Machine) :
    g ((pop1 f).run s).2.regs = g (f (s.byteAt (s.regs.SP.toNat + 1)) s.regs) := hget _ _

theorem pop2_popped {s : Machine} (hroom : s.regs.SP.toNat + 2 ≤ 0xffff) : stack.Popped s 2 (pop2.run s).2 := by
  have htwo : (s.regs.SP + 2).toNat = s.regs.SP.toNat + 2 := by bv_omega
  have hSP : (pop2.run s).2.regs.SP = s.regs.SP + 2 := rfl
  have hnat : (pop2.run s).2.regs.SP.toNat = s.regs.SP.toNat + 2 := hSP ▸ htwo
  have hsum : s.regs.SP.toNat + 2 + 1 = s.regs.SP.toNat + 1 + 2 := Nat.add_right_comm _ _ _
  exact ⟨(congrArg (· + 1) hnat).trans hsum, fun _ _ _ => rfl⟩

theorem pop2_value (s : Machine) :
    (pop2.run s).1 = s.byteAt (s.regs.SP.toNat + 1) ++ s.byteAt (s.regs.SP.toNat + 1 + 1) := rfl

/-! ## The instructions -/

/-- The registers that are pushed and pulled. -/
inductive Reg
  | A | X | H
  deriving DecidableEq, Repr

namespace Reg

def get : Reg → Regs → BitVec 8
  | A => Regs.A
  | X => Regs.X
  | H => Regs.H

def put : Reg → BitVec 8 → Regs → Regs
  | A => Regs.putA
  | X => Regs.putX
  | H => Regs.putH

def pushCode : Reg → BitVec 8
  | A => 0x87
  | X => 0x89
  | H => 0x8b

def pullCode : Reg → BitVec 8
  | A => 0x86
  | X => 0x88
  | H => 0x8a

end Reg

/-- The opcode of the next instruction. -/
def Machine.At (s : Machine) (code : BitVec 8) : Prop := s.regs.VECTOR = false ∧ s.code = code

theorem step_at {s : Machine} {code : BitVec 8} (h : s.At code) : s.step = ((dispatch code).run s.fetched).2 := by
  rw [← h.2]
  exact congrArg Prod.snd (exec_inst_run h.1)

/-- JSR in its addressing modes, and BSR. -/
def callCodes : List (BitVec 8) := [0xad, 0xbd, 0xcd, 0xdd, 0xed, 0xfd]

/-- The bytes of a call behind its opcode. -/
def callBytes (code : BitVec 8) : Nat := if code = 0xad then 1 else operandBytes code

/-- The address behind an opcode and so many bytes. -/
def Machine.behindCode (s : Machine) (n : Nat) : BitVec 16 := BitVec.ofInt 16 (advance (n + 1) s.PC)

theorem go_state (x : Prog Unit) (s : Machine) : ((go x).run s).2 = (x.run s).2 := rfl

theorem push_body (r : Reg) : dispatch r.pushCode = go (pushReg r.get) := by cases r <;> rfl

theorem pull_body (r : Reg) : dispatch r.pullCode = go (pop1 r.put) := by cases r <;> rfl

theorem push_spec {r : Reg} {s : Machine} (h : s.At r.pushCode) (hroom : 1 ≤ s.regs.SP.toNat) :
    stack.Pushed s [r.get s.regs] s.step := by
  have hpushed := push1_pushed (r.get s.regs) (s := s.fetched) hroom
  rw [step_at h, push_body, go_state]
  exact ⟨hpushed.low, hpushed.holds, hpushed.frame⟩

theorem pull_spec {r : Reg} {s : Machine} (h : s.At r.pullCode) (hroom : s.regs.SP.toNat + 1 ≤ 0xffff) :
    stack.Popped s 1 s.step ∧ r.get s.step.regs = s.byteAt (s.regs.SP.toNat + 1 : Nat) := by
  have hput (v : BitVec 8) (q : Regs) : (r.put v q).SP = q.SP ∧ r.get (r.put v q) = v := by cases r <;> exact ⟨rfl, rfl⟩
  have hget (q : Regs) (sp : BitVec 16) : r.get { q with SP := sp } = r.get q := by cases r <;> rfl
  have hpopped := pop1_popped (fun v q => (hput v q).1) (s := s.fetched) hroom
  rw [step_at h, pull_body, go_state]
  refine ⟨⟨hpopped.low, hpopped.frame⟩, ?_⟩
  rw [pop1_value hget, (hput _ _).2]
  rfl

/-- The bytes of an address on the stack. -/
def wordBytes (v : BitVec 16) : List (BitVec 8) := [v.extractLsb' 8 8, v.extractLsb' 0 8]

theorem pushPC_pushed {s : Machine} (hroom : 2 ≤ s.regs.SP.toNat) :
    stack.Pushed s (wordBytes (BitVec.ofInt 16 s.PC)) (pushPC.run s).2 := by
  rw [pushPC_run]
  exact push2_pushed _ hroom

/-- The address is pushed behind the bytes of the instruction, and PC is set afterwards. -/
theorem jump_pushed {s t : Machine} {n : Nat} (hroom : 2 ≤ s.regs.SP.toNat) {PC : Int}
    (ht : t = { (pushPC.run (s.fetched.skips n)).2 with PC := PC }) : stack.Pushed s (wordBytes (s.behindCode n)) t := by
  have hpushed := pushPC_pushed (s := s.fetched.skips n) hroom
  rw [ht]
  exact ⟨hpushed.low, hpushed.holds, hpushed.frame⟩

theorem jsr_state (code : BitVec 8) (pre : Bool) (s : Machine) : ((inst_jsr code pre).run s).2 =
    { (pushPC.run (s.skips (operandBytes code))).2 with PC := address code pre s } := by
  have hrun : (inst_jsr code pre).run s =
      (go (setPC ((fetchea code pre).run s).1)).run (pushPC.run ((fetchea code pre).run s).2).2 := rfl
  rw [hrun, fetchea_run]
  rfl

theorem bsr_state (code : BitVec 8) (pre : Bool) (s : Machine) : ∃ PC, ((inst_bsr code pre).run s).2 =
    { (pushPC.run (s.skips 1)).2 with PC := PC } := ⟨_, rfl⟩

theorem jsr_codes : ∀ code ∈ callCodes, code ≠ 0xad → dispatch code = inst_jsr code false := by
  intro code hcode hne
  unfold callCodes at hcode
  fin_cases hcode
  · exact absurd rfl hne
  all_goals rfl

/-- A call pushes the address behind it. -/
theorem call_spec {code : BitVec 8} (hcode : code ∈ callCodes) {s : Machine} (h : s.At code)
    (hroom : 2 ≤ s.regs.SP.toNat) : stack.Pushed s (wordBytes (s.behindCode (callBytes code))) s.step := by
  unfold callBytes
  rw [step_at h]
  by_cases hbsr : code = 0xad
  · obtain ⟨PC, hPC⟩ := bsr_state 0xad false s.fetched
    rw [if_pos hbsr, hbsr]
    exact jump_pushed hroom hPC
  · rw [if_neg hbsr, jsr_codes code hcode hbsr]
    exact jump_pushed hroom (jsr_state code false s.fetched)

/-- Pushing changes no register but the stack pointer. -/
theorem push1_keeps {α : Type} {g : Regs → α} (hget : ∀ (r : Regs) sp, g { r with SP := sp } = g r)
    (val : BitVec 8) (s : Machine) : g ((push1 val).run s).2.regs = g s.regs := by
  rw [push1_run]
  exact hget _ _

theorem pushPC_keeps {α : Type} {g : Regs → α} (hget : ∀ (r : Regs) sp, g { r with SP := sp } = g r)
    (s : Machine) : g (pushPC.run s).2.regs = g s.regs := by
  rw [pushPC_run, push2_run]
  exact hget _ _

theorem pushReg_run (f : Regs → BitVec 8) (s : Machine) : (pushReg f).run s = (push1 (f s.regs)).run s := rfl

theorem pushRegs_pushed {s : Machine} (hroom : 3 ≤ s.regs.SP.toNat) :
    stack.Pushed s [s.regs.P, s.regs.A, s.regs.X] (pushRegs.run s).2 := by
  have hX := push1_pushed s.regs.X (s := s) (by omega)
  generalize hu : ((push1 s.regs.X).run s).2 = u at hX
  have huA : u.regs.A = s.regs.A := hu ▸ push1_keeps (g := Regs.A) (fun _ _ => rfl) _ s
  have huP : u.regs.P = s.regs.P := hu ▸ push1_keeps (g := Regs.P) (fun _ _ => rfl) _ s
  have huSP := pushed_SP hX
  have hA := push1_pushed s.regs.A (s := u) (by rw [List.length_singleton] at huSP; omega)
  generalize ht : ((push1 s.regs.A).run u).2 = t at hA
  have htP : t.regs.P = u.regs.P := ht ▸ push1_keeps (g := Regs.P) (fun _ _ => rfl) _ u
  have htSP := pushed_SP hA
  have hP := push1_pushed s.regs.P (s := t) (by rw [List.length_singleton] at huSP htSP; omega)
  have hrun : (pushRegs.run s).2 = ((push1 s.regs.P).run t).2 := by
    unfold pushRegs
    rw [bind_run, bind_run, pushReg_run Regs.X s, hu, pushReg_run Regs.A u, huA, ht, pushReg_run Regs.P t, htP, huP]
  have hall := ((hX.trans (stack_fits s) hA).trans (stack_fits s) hP)
  rw [List.singleton_append, List.singleton_append] at hall
  rw [hrun]
  exact hall

theorem vector_state (vector : Int) (f : Regs → Regs) (v : Machine) :
    ((go (do
      onRegs f
      setPC (← get2 vector).toNat)).run v).2 =
    { v with
      regs := f v.regs
      PC := (v.byteAt vector ++ v.byteAt (vector + 1)).toNat
      accesses := (vector + 1) :: vector :: v.accesses } := rfl

/-- An interrupt pushes the address behind it and the registers. -/
theorem swi_spec {s : Machine} (h : s.At 0x83) (hroom : 5 ≤ s.regs.SP.toNat) :
    stack.Pushed s ([s.regs.P, s.regs.A, s.regs.X] ++ wordBytes (s.behindCode 0)) s.step := by
  have hPC := pushPC_pushed (s := s.fetched) (show 2 ≤ s.regs.SP.toNat by omega)
  generalize hu : (pushPC.run s.fetched).2 = u at hPC
  have huregs : u.regs.P = s.regs.P ∧ u.regs.A = s.regs.A ∧ u.regs.X = s.regs.X := by
    rw [← hu]
    exact ⟨pushPC_keeps (g := Regs.P) (fun _ _ => rfl) _, pushPC_keeps (g := Regs.A) (fun _ _ => rfl) _,
      pushPC_keeps (g := Regs.X) (fun _ _ => rfl) _⟩
  have huSP : u.regs.SP.toNat + 2 = s.regs.SP.toNat := pushed_SP hPC
  have hregs := pushRegs_pushed (s := u) (by omega)
  rw [huregs.1, huregs.2.1, huregs.2.2] at hregs
  have hboth := hPC.trans (stack_fits _) hregs
  have hbody : dispatch 0x83 = inst_swi 0x83 false := rfl
  rw [step_at h, hbody, swi_run, hu, vector_state]
  generalize (pushRegs.run u).2 = t at hboth
  have hpushed := hboth.congr (u := { t with
    regs := t.regs.FLAG_CLEAR BIT_I
    PC := (t.byteAt 0xfffc ++ t.byteAt (0xfffc + 1)).toNat
    accesses := (0xfffc + 1) :: 0xfffc :: t.accesses }) rfl fun _ _ => rfl
  exact ⟨hpushed.low, hpushed.holds, hpushed.frame⟩

/-- The address on the stack. -/
def addressAt (s : Machine) (addr : Nat) : BitVec 16 := s.byteAt addr ++ s.byteAt (addr + 1 : Nat)

theorem rts_spec {s : Machine} (h : s.At 0x81) (hroom : s.regs.SP.toNat + 2 ≤ 0xffff) :
    stack.Popped s 2 s.step ∧ s.step.PC = (addressAt s (s.regs.SP.toNat + 1)).toNat := by
  have hpopped := pop2_popped (s := s.fetched) hroom
  have hstep : s.step = { (pop2.run s.fetched).2 with PC := ((pop2.run s.fetched).1).toNat } := by
    have hbody : dispatch 0x81 = inst_rts 0x81 false := rfl
    rw [step_at h, hbody]
    rfl
  rw [hstep]
  exact ⟨⟨hpopped.low, hpopped.frame⟩, congrArg (fun v : BitVec 16 => (v.toNat : Int)) (pop2_value s.fetched)⟩

section Put

variable (v : BitVec 8) (r : Regs)

@[simp] theorem putP_P : (Regs.putP v r).P = v := rfl

@[simp] theorem putA_A : (Regs.putA v r).A = v := rfl

@[simp] theorem putA_P : (Regs.putA v r).P = r.P := rfl

@[simp] theorem putX_X : (Regs.putX v r).X = v := rfl

@[simp] theorem putX_P : (Regs.putX v r).P = r.P := rfl

@[simp] theorem putX_A : (Regs.putX v r).A = r.A := rfl

end Put

theorem onRegs_byteAt (f : Regs → Regs) (s : Machine) (addr : Int) :
    ((onRegs f).run s).2.byteAt addr = s.byteAt addr := rfl

theorem onRegs_P (s : Machine) :
    ((onRegs fun r => { r with P := r.P ||| 0x60 }).run s).2.regs.P = s.regs.P ||| 0x60 := rfl

/-- The registers that a return from an interrupt takes. -/
theorem popRegs_spec {s : Machine} (hroom : s.regs.SP.toNat + 3 ≤ 0xffff) :
    stack.Popped s 3 (popRegs.run s).2 ∧
      (popRegs.run s).2.regs.P = s.byteAt (s.regs.SP.toNat + 1 : Nat) ||| 0x60 ∧
      (popRegs.run s).2.regs.A = s.byteAt (s.regs.SP.toNat + 2 : Nat) ∧
      (popRegs.run s).2.regs.X = s.byteAt (s.regs.SP.toNat + 3 : Nat) := by
  have hP := pop1_popped (f := Regs.putP) (fun _ _ => rfl) (s := s) (by omega)
  have hPval : ((pop1 Regs.putP).run s).2.regs.P = s.byteAt (s.regs.SP.toNat + 1) := by
    rw [pop1_value (g := Regs.P) fun _ _ => rfl, putP_P]
  generalize hu : ((onRegs fun r => { r with P := r.P ||| 0x60 }).run ((pop1 Regs.putP).run s).2).2 = u
  have hu1 : stack.Popped s 1 u := by
    have hSP : u.regs.SP = ((pop1 Regs.putP).run s).2.regs.SP := by
      rw [← hu]
      exact onRegs_SP (f := fun r => { r with P := r.P ||| 0x60 }) (fun _ => rfl) _
    refine hP.congr (by rw [low_eq, low_eq, hSP]) fun a _ => ?_
    rw [← hu]
    exact onRegs_byteAt _ _ _
  have huP : u.regs.P = s.byteAt (s.regs.SP.toNat + 1) ||| 0x60 := by
    rw [← hu, ← hPval]
    exact onRegs_P _
  have huSP := popped_SP hu1
  have hA := pop1_popped (f := Regs.putA) (fun _ _ => rfl) (s := u) (by omega)
  have hAval : ((pop1 Regs.putA).run u).2.regs.A = u.byteAt (u.regs.SP.toNat + 1) := by
    rw [pop1_value (g := Regs.A) fun _ _ => rfl, putA_A]
  have hAP : ((pop1 Regs.putA).run u).2.regs.P = u.regs.P := by
    rw [pop1_value (g := Regs.P) fun _ _ => rfl, putA_P]
  generalize ht : ((pop1 Regs.putA).run u).2 = t at hA hAval hAP
  have ht2 := hu1.trans hA
  have htSP := popped_SP ht2
  have hX := pop1_popped (f := Regs.putX) (fun _ _ => rfl) (s := t) (by omega)
  have hXval : ((pop1 Regs.putX).run t).2.regs.X = t.byteAt (t.regs.SP.toNat + 1) := by
    rw [pop1_value (g := Regs.X) fun _ _ => rfl, putX_X]
  have hXP : ((pop1 Regs.putX).run t).2.regs.P = t.regs.P := by
    rw [pop1_value (g := Regs.P) fun _ _ => rfl, putX_P]
  have hXA : ((pop1 Regs.putX).run t).2.regs.A = t.regs.A := by
    rw [pop1_value (g := Regs.A) fun _ _ => rfl, putX_A]
  have hrun : (popRegs.run s).2 = ((pop1 Regs.putX).run t).2 := by
    unfold popRegs
    rw [bind_run, bind_run, bind_run, hu, ht]
  have haddr2 : (u.regs.SP.toNat : Int) + 1 = (s.regs.SP.toNat + 2 : Nat) := by omega
  have haddr3 : (t.regs.SP.toNat : Int) + 1 = (s.regs.SP.toNat + 3 : Nat) := by omega
  rw [hrun, hXP, hXA, hXval, hAP, hAval, huP, haddr2, haddr3,
    popped_byteAt hu1 (by omega) (by omega), popped_byteAt ht2 (by omega) (by omega)]
  exact ⟨ht2.trans hX, rfl, rfl, rfl⟩

theorem rti_spec {s : Machine} (h : s.At 0x80) (hroom : s.regs.SP.toNat + 5 ≤ 0xffff) :
    stack.Popped s 5 s.step ∧ s.step.PC = (addressAt s (s.regs.SP.toNat + 4)).toNat ∧
      s.step.regs.P = s.byteAt (s.regs.SP.toNat + 1 : Nat) ||| 0x60 ∧
      s.step.regs.A = s.byteAt (s.regs.SP.toNat + 2 : Nat) ∧ s.step.regs.X = s.byteAt (s.regs.SP.toNat + 3 : Nat) := by
  obtain ⟨hpopped, hP, hA, hX⟩ := popRegs_spec (s := s.fetched) (show s.regs.SP.toNat + 3 ≤ 0xffff by omega)
  generalize hu : (popRegs.run s.fetched).2 = u at hpopped hP hA hX
  have hSP : s.fetched.regs.SP = s.regs.SP := rfl
  have huSP := popped_SP hpopped
  rw [hSP] at huSP
  have hpop2 := pop2_popped (s := u) (by omega)
  have hboth := hpopped.trans hpop2
  have hstep : s.step = { (pop2.run u).2 with PC := ((pop2.run u).1).toNat } := by
    have hbody : dispatch 0x80 = inst_rti 0x80 false := rfl
    rw [step_at h, hbody]
    unfold inst_rti go
    rw [bind_run, bind_run, bind_run, hu]
    rfl
  have haddr : (u.regs.SP.toNat : Int) + 1 = (s.regs.SP.toNat + 4 : Nat) := by omega
  rw [hstep]
  refine ⟨⟨hboth.low, hboth.frame⟩, ?_, hP, hA, hX⟩
  have hvalue := pop2_value u
  rw [haddr] at hvalue
  show (((pop2.run u).1).toNat : Int) = _
  rw [hvalue]
  unfold addressAt
  rw [← Nat.cast_succ, popped_byteAt hpopped (by omega) (by omega), popped_byteAt hpopped (by omega) (by omega)]
  rfl

/-! ## Nested sequences -/

/-- What bytes on the stack are for: a register that was pushed, the address behind a call, or that behind an
interrupt with the registers at it. -/
inductive Frame
  | data (v : BitVec 8)
  | call (next : BitVec 16)
  | interrupt (next : BitVec 16) (A X P : BitVec 8)
  deriving DecidableEq, Repr

/-- What a frame is on the stack. -/
def Frame.bytes : Frame → List (BitVec 8)
  | data v => [v]
  | call next => wordBytes next
  | interrupt next A X P => [P, A, X] ++ wordBytes next

/-- The condition codes in a frame. -/
def Frame.Ones : Frame → Prop
  | interrupt _ _ _ P => P &&& 0x60 = 0x60
  | _ => True

/-- What an instruction took from the stack, with what it should have taken. -/
inductive Got
  | pulled (due value : BitVec 8)
  | returned (due : BitVec 16) (PC : Int)
  | restored (due : BitVec 16) (A X P : BitVec 8) (after : Machine)

def Got.Right : Got → Prop
  | pulled due value => value = due
  | returned due PC => PC = due.toNat
  | restored due A X P after =>
    after.PC = due.toNat ∧ after.regs.A = A ∧ after.regs.X = X ∧ after.regs.P = P

/-- The machine `t` is reached from `s` by a nested sequence in which the stack pointer does not wrap. The frames are
those still on the stack. An instruction that neither pushes nor pulls leaves the stack as it is. -/
inductive Nested (s : Machine) : List Got → List Frame → Machine → Prop
  | start : Nested s [] [] s
  | push {got frames t} (r : Reg) (h : Nested s got frames t) (hcode : t.At r.pushCode)
      (hroom : 1 ≤ t.regs.SP.toNat) : Nested s got (.data (r.get t.regs) :: frames) t.step
  | pull {got v frames t} (r : Reg) (h : Nested s got (.data v :: frames) t) (hcode : t.At r.pullCode) :
      Nested s (.pulled v (r.get t.step.regs) :: got) frames t.step
  | call {got frames t} (code : BitVec 8) (h : Nested s got frames t) (hmem : code ∈ callCodes) (hcode : t.At code)
      (hroom : 2 ≤ t.regs.SP.toNat) : Nested s got (.call (t.behindCode (callBytes code)) :: frames) t.step
  | swi {got frames t} (h : Nested s got frames t) (hcode : t.At 0x83) (hroom : 5 ≤ t.regs.SP.toNat) :
      Nested s got (.interrupt (t.behindCode 0) t.regs.A t.regs.X t.regs.P :: frames) t.step
  | rts {got next frames t} (h : Nested s got (.call next :: frames) t) (hcode : t.At 0x81) :
      Nested s (.returned next t.step.PC :: got) frames t.step
  | rti {got next A X P frames t} (h : Nested s got (.interrupt next A X P :: frames) t) (hcode : t.At 0x80) :
      Nested s (.restored next A X P t.step :: got) frames t.step
  | other {got frames t} (h : Nested s got frames t) (hSP : t.step.regs.SP = t.regs.SP)
      (hbytes : ∀ a : Nat, t.regs.SP.toNat < a → a ≤ s.regs.SP.toNat → t.step.byteAt a = t.byteAt a) :
      Nested s got frames t.step

theorem Nested.fromReset {m s t : Machine} {got : List Got} {frames : List Frame} (hreset : FromReset m s)
    (h : Nested s got frames t) : FromReset m t := by
  induction h with
  | start => exact hreset
  | push _ _ _ _ ih => exact ih.step
  | pull _ _ _ ih => exact ih.step
  | call _ _ _ _ _ ih => exact ih.step
  | swi _ _ _ ih => exact ih.step
  | rts _ _ ih => exact ih.step
  | rti _ _ ih => exact ih.step
  | other _ _ _ ih => exact ih.step

/-- There is room above the stack pointer for a frame to be taken. -/
theorem grown_room {s t : Machine} {f : Frame} {frames : List Frame} (h : stack.Grown Frame.bytes s (f :: frames) t) :
    t.regs.SP.toNat + f.bytes.length ≤ 0xffff := by
  have hroom : t.regs.SP.toNat + 1 + f.bytes.length ≤ s.regs.SP.toNat + 1 := h.room
  have hlt := s.regs.SP.isLt
  omega

theorem grown_top {s t : Machine} {f : Frame} {frames : List Frame} (h : stack.Grown Frame.bytes s (f :: frames) t) :
    stack.Holds t (t.regs.SP.toNat + 1) f.bytes := by
  rw [← low_eq]
  exact h.top

theorem Nested.grown {s t : Machine} {got : List Got} {frames : List Frame} (h : Nested s got frames t) :
    stack.Grown Frame.bytes s frames t := by
  have hfits := stack_fits s
  induction h with
  | start => exact .start _ s
  | push r _ hcode hroom ih => exact ih.pushed hfits (push_spec hcode hroom)
  | pull r _ hcode ih => exact ih.popped hfits (pull_spec hcode (grown_room ih)).1
  | call code _ hmem hcode hroom ih => exact ih.pushed hfits (call_spec hmem hcode hroom)
  | swi _ hcode hroom ih => exact ih.pushed hfits (swi_spec hcode hroom)
  | rts _ hcode ih => exact ih.popped hfits (rts_spec hcode (grown_room ih)).1
  | rti _ hcode ih => exact ih.popped hfits (rti_spec hcode (grown_room ih)).1
  | other _ hSP hbytes ih =>
    refine ih.kept (by rw [low_eq, low_eq, hSP]) fun a ha hlt => ?_
    exact hbytes a ha (Nat.le_of_lt_succ hlt)

/-- The condition codes on the stack have the two bits. -/
theorem Nested.ones {m s t : Machine} {got : List Got} {frames : List Frame} (hreset : FromReset m s)
    (h : Nested s got frames t) : ∀ f ∈ frames, f.Ones := by
  induction h with
  | start => exact List.forall_mem_nil _
  | push _ _ _ _ ih => exact List.forall_mem_cons.mpr ⟨trivial, ih⟩
  | pull _ _ _ ih => exact (List.forall_mem_cons.mp ih).2
  | call _ _ _ _ _ ih => exact List.forall_mem_cons.mpr ⟨trivial, ih⟩
  | swi h _ _ ih => exact List.forall_mem_cons.mpr ⟨(h.fromReset hreset).ones, ih⟩
  | rts _ _ ih => exact (List.forall_mem_cons.mp ih).2
  | rti _ _ ih => exact (List.forall_mem_cons.mp ih).2
  | other _ _ _ ih => exact ih

/-- The two bytes of an address. -/
theorem addressAt_eq {s : Machine} {addr : Nat} {next : BitVec 16} (h : stack.Holds s addr (wordBytes next)) :
    addressAt s addr = next := by
  obtain ⟨hhigh, hrest⟩ := holds_cons.mp h
  obtain ⟨hlow, -⟩ := holds_cons.mp hrest
  unfold addressAt
  rw [hhigh, hlow]
  exact BitVec.extractLsb'_append_extractLsb'

/-- Condition codes that have the two bits are not changed by setting them. -/
theorem ones_or {P : BitVec 8} (h : P &&& 0x60 = 0x60) : P ||| 0x60 = P := by
  have habsorb : P ||| (P &&& 0x60) = P := by
    ext i hi
    simp only [BitVec.getElem_or, BitVec.getElem_and]
    cases P[i] <;> rfl
  rwa [h] at habsorb

/-- Each pull, RTS and RTI gets what it should. -/
theorem Nested.right {m s t : Machine} {got : List Got} {frames : List Frame} (hreset : FromReset m s)
    (h : Nested s got frames t) : ∀ g ∈ got, g.Right := by
  induction h with
  | start => exact List.forall_mem_nil _
  | push _ _ _ _ ih => exact ih
  | pull r h hcode ih =>
    refine List.forall_mem_cons.mpr ⟨?_, ih⟩
    exact (pull_spec hcode (grown_room h.grown)).2.trans (holds_cons.mp (grown_top h.grown)).1
  | call _ _ _ _ _ ih => exact ih
  | swi _ _ _ ih => exact ih
  | rts h hcode ih =>
    refine List.forall_mem_cons.mpr ⟨?_, ih⟩
    have haddr := addressAt_eq (grown_top h.grown)
    have hPC := (rts_spec hcode (grown_room h.grown)).2
    rwa [haddr] at hPC
  | @rti got next A X P frames t h hcode ih =>
    obtain ⟨hP, hrest⟩ := holds_cons.mp (grown_top h.grown)
    obtain ⟨hA, hrest⟩ := holds_cons.mp hrest
    obtain ⟨hX, hword⟩ := holds_cons.mp hrest
    have haddr : addressAt t (t.regs.SP.toNat + 4) = next := addressAt_eq hword
    obtain ⟨_, hPC, hstepP, hstepA, hstepX⟩ := rti_spec hcode (grown_room h.grown)
    have hones : P &&& 0x60 = 0x60 := h.ones hreset _ List.mem_cons_self
    refine List.forall_mem_cons.mpr ⟨⟨?_, ?_, ?_, ?_⟩, ih⟩
    · rw [hPC, haddr]
    · exact hstepA.trans hA
    · exact hstepX.trans hX
    · rw [hstepP, hP]
      exact ones_or hones
  | other _ _ _ ih => exact ih

/-- In a nested sequence behind a run from reset the stack pointer is always that of the frames, every pull, RTS and
RTI gets what it should, and bits 5 and 6 of the condition codes are 1. -/
theorem nested_right {m s t : Machine} {got : List Got} {frames : List Frame} (hreset : FromReset m s)
    (h : Nested s got frames t) :
    t.regs.SP.toNat + (frames.flatMap Frame.bytes).length = s.regs.SP.toNat ∧ (∀ g ∈ got, g.Right) ∧
      t.regs.Ones := by
  have hlow : t.regs.SP.toNat + 1 + (frames.flatMap Frame.bytes).length = s.regs.SP.toNat + 1 := h.grown.low
  exact ⟨by omega, h.right hreset, (h.fromReset hreset).ones⟩

/-- `BSR` from 0x8000 to an `SWI` at 0x8004, in whose service A is pushed and pulled into X, and `RTS` behind it. -/
def callingCode : Machine where
  regs := { A := 0, P := 0, H := 0, X := 0, SP := 0, VECTOR := false }
  PC := 0
  ram := fun addr =>
    if addr = 0xfffc then 0x90 else if addr = 0xfffe then 0x80 else if addr = 0x8000 then 0xad
    else if addr = 0x8001 then 0x02 else if addr = 0x8004 then 0x83 else if addr = 0x8005 then 0x81
    else if addr = 0x9000 then 0x87 else if addr = 0x9001 then 0x88 else if addr = 0x9002 then 0x80 else 0
  dummy := fun _ => 0
  ticks := 0
  out := []
  accesses := []

/-- Every pull and both returns are right. -/
theorem nested_right_calling : ∃ s got t, Nested s got [] t ∧ got.length = 3 ∧ t.regs.SP = s.regs.SP ∧
    (∀ g ∈ got, g.Right) ∧ t.PC = 0x8002 ∧ t.regs.Ones := by
  have hreset : FromReset callingCode callingCode.reset.step := .step .reset
  have hcalled := Nested.call 0xad (s := callingCode.reset.step) .start (by decide) ⟨rfl, by decide⟩ (by decide)
  have hswi := hcalled.swi ⟨rfl, by decide +kernel⟩ (by decide +kernel)
  have hpushed := hswi.push .A ⟨rfl, by decide +kernel⟩ (by decide +kernel)
  have hpulled := hpushed.pull .X ⟨rfl, by decide +kernel⟩
  have hrun := (hpulled.rti ⟨rfl, by decide +kernel⟩).rts ⟨rfl, by decide +kernel⟩
  obtain ⟨hSP, hright, hones⟩ := nested_right hreset hrun
  exact ⟨_, _, _, hrun, rfl, BitVec.eq_of_toNat_eq hSP, hright, by decide +kernel, hones⟩

end Ucsim.Hc08
