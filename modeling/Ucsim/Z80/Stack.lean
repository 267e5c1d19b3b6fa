import Mathlib.Tactic.IntervalCases
import Ucsim.Z80.DummyCell

/-!
# The stack

`PUSH`, `POP`, `CALL`, `RST` and `RET` in nested sequences. The words on the stack are listed as frames, the last one
first.
-/

namespace Ucsim.Z80

/-! ## Words in memory -/

def wordAt (ram : BitVec 16 → BitVec 8) (addr : BitVec 16) : BitVec 16 := ram (addr + 1) ++ ram addr

theorem low_wordAt (ram : BitVec 16 → BitVec 8) (a : BitVec 16) : (wordAt ram a).extractLsb' 0 8 = ram a :=
  BitVec.extractLsb'_append_eq_right

theorem high_wordAt (ram : BitVec 16 → BitVec 8) (a : BitVec 16) : (wordAt ram a).extractLsb' 8 8 = ram (a + 1) :=
  BitVec.extractLsb'_append_eq_left

theorem append_eq_iff {a b c d : BitVec 8} : a ++ b = c ++ d ↔ a = c ∧ b = d := by
  constructor
  · intro h
    have hhigh := congrArg (fun w : BitVec 16 => w.extractLsb' 8 8) h
    have hlow := congrArg (fun w : BitVec 16 => w.extractLsb' 0 8) h
    rw [BitVec.extractLsb'_append_eq_left, BitVec.extractLsb'_append_eq_left] at hhigh
    rw [BitVec.extractLsb'_append_eq_right, BitVec.extractLsb'_append_eq_right] at hlow
    exact ⟨hhigh, hlow⟩
  · rintro ⟨rfl, rfl⟩
    rfl

/-- The words are in memory one after the other. -/
def Holds (ram : BitVec 16 → BitVec 8) : BitVec 16 → List (BitVec 16) → Prop
  | _, [] => True
  | sp, w :: ws => wordAt ram sp = w ∧ Holds ram (sp + 2) ws

theorem Holds.congr {ram ram' : BitVec 16 → BitVec 8} {ws : List (BitVec 16)} {sp : BitVec 16}
    (h : Holds ram sp ws) (hsame : ∀ k < 2 * ws.length, ram' (sp + BitVec.ofNat 16 k) = ram (sp + BitVec.ofNat 16 k)) :
    Holds ram' sp ws := by
  induction ws generalizing sp with
  | nil => trivial
  | cons w ws ih =>
    obtain ⟨hword, hrest⟩ := h
    rw [List.length_cons] at hsame
    constructor
    · have hlow : ram' sp = ram sp := by simpa using hsame 0 (by omega)
      have hhigh : ram' (sp + 1) = ram (sp + 1) := hsame 1 (by omega)
      rw [wordAt, hlow, hhigh]
      exact hword
    · refine ih hrest fun k hk => ?_
      have haddr : sp + 2 + BitVec.ofNat 16 k = sp + BitVec.ofNat 16 (k + 2) := by
        rw [BitVec.ofNat_add, BitVec.add_assoc, BitVec.add_comm (BitVec.ofNat 16 k)]
        rfl
      rw [haddr]
      exact hsame (k + 2) (by omega)

/-- A word is put below the stack pointer. -/
structure Pushed (sp : BitVec 16) (ram : BitVec 16 → BitVec 8) (w : BitVec 16) (s : Machine) : Prop where
  SP : s.regs.SP = sp - 2
  word : wordAt s.ram (sp - 2) = w
  frame : ∀ a, a ≠ sp - 2 → a ≠ sp - 1 → s.ram a = ram a

/-- The stack pointer is set behind a word. -/
structure Popped (sp : BitVec 16) (ram : BitVec 16 → BitVec 8) (s : Machine) : Prop where
  SP : s.regs.SP = sp + 2
  ram : s.ram = ram

/-- A word below the others, as long as all of them fit into the memory. -/
theorem Pushed.holds {sp w : BitVec 16} {ram : BitVec 16 → BitVec 8} {s : Machine} {ws : List (BitVec 16)}
    (h : Pushed sp ram w s) (hold : Holds ram sp ws) (hroom : 2 * (ws.length + 1) ≤ 0x10000) :
    Holds s.ram s.regs.SP (w :: ws) := by
  rw [h.SP]
  refine ⟨h.word, ?_⟩
  have hsp : sp - 2 + 2 = sp := BitVec.sub_add_cancel sp 2
  rw [hsp]
  refine hold.congr fun k hk => h.frame _ ?_ ?_
  · bv_omega
  · bv_omega

theorem push2_pushed (v : BitVec 16) {s : Machine} (hmod : s.Modulo) :
    Pushed s.regs.SP s.ram v ((push2 v).run s).2 := by
  have hne : s.regs.SP - 2 ≠ s.regs.SP - 2 + 1 := by bv_omega
  have hram : ((push2 v).run s).2.ram = Function.update (Function.update s.ram (s.regs.SP - 2)
      (v.extractLsb' 0 8)) (s.regs.SP - 2 + 1) (v.extractLsb' 8 8) :=
    Machine.Modulo.stored_succ (s := { s with ram := Function.update s.ram (s.regs.SP - 2) (v.extractLsb' 0 8) })
      hmod (s.regs.SP - 2) (v.extractLsb' 8 8)
  refine ⟨rfl, ?_, fun a hlow hhigh => ?_⟩
  · rw [wordAt, hram, Function.update_self, Function.update_of_ne hne, Function.update_self]
    exact BitVec.extractLsb'_append_extractLsb'
  · have hnext : a ≠ s.regs.SP - 2 + 1 := by bv_omega
    rw [hram, Function.update_of_ne hnext, Function.update_of_ne hlow]

/-- Two bytes, as for AF. -/
theorem push1_pushed (h l : BitVec 8) (s : Machine) :
    Pushed s.regs.SP s.ram (h ++ l) ((do push1 h; push1 l : Prog Unit).run s).2 := by
  have hSP : s.regs.SP - 1 - 1 = s.regs.SP - 2 := by bv_omega
  have hram : ((do push1 h; push1 l : Prog Unit).run s).2.ram =
      Function.update (Function.update s.ram (s.regs.SP - 1) h) (s.regs.SP - 1 - 1) l := rfl
  refine ⟨hSP, ?_, fun a hlow hhigh => ?_⟩
  · have hnext : s.regs.SP - 2 + 1 = s.regs.SP - 1 := by bv_omega
    have hne : s.regs.SP - 1 ≠ s.regs.SP - 2 := by bv_omega
    rw [wordAt, hram, hSP, hnext, Function.update_of_ne hne, Function.update_self, Function.update_self]
  · rw [hram, hSP, Function.update_of_ne hlow, Function.update_of_ne hhigh]

/-! ## The instructions -/

/-- The pairs of registers that are pushed and popped. -/
inductive Pair
  | BC | DE | HL | AF | IX | IY
  deriving DecidableEq, Repr

def Regs.pair (r : Regs) : Pair → BitVec 16
  | .BC => r.BC.word
  | .DE => r.DE.word
  | .HL => r.HL.word
  | .AF => r.A ++ r.F
  | .IX => r.IX.word
  | .IY => r.IY.word

def Pair.pushCode : Pair → List (BitVec 8)
  | .BC => [0xC5]
  | .DE => [0xD5]
  | .HL => [0xE5]
  | .AF => [0xF5]
  | .IX => [0xDD, 0xE5]
  | .IY => [0xFD, 0xE5]

def Pair.popCode : Pair → List (BitVec 8)
  | .BC => [0xC1]
  | .DE => [0xD1]
  | .HL => [0xE1]
  | .AF => [0xF1]
  | .IX => [0xDD, 0xE1]
  | .IY => [0xFD, 0xE1]

/-- The bytes are those at PC. -/
def Machine.At (s : Machine) : List (BitVec 8) → Prop
  | [] => True
  | code :: codes => s.next = code ∧ s.skip.At codes

/-- The conditions of calls and returns, in the order of the opcodes: NZ, Z, NC, C, PO, PE, P and M. -/
def condition (F : BitVec 8) : Nat → Bool
  | 0 => !decide (F &&& BIT_Z ≠ 0)
  | 1 => decide (F &&& BIT_Z ≠ 0)
  | 2 => !decide (F &&& BIT_C ≠ 0)
  | 3 => decide (F &&& BIT_C ≠ 0)
  | 4 => !decide (F &&& BIT_P ≠ 0)
  | 5 => decide (F &&& BIT_P ≠ 0)
  | 6 => !decide (F &&& BIT_S ≠ 0)
  | 7 => decide (F &&& BIT_S ≠ 0)
  | _ => false

/-- A call that is taken. -/
def Machine.TakesCall (s : Machine) : Prop :=
  s.next = 0xCD ∨ ∃ n < 8, condition s.regs.F n ∧ s.next = BitVec.ofNat 8 (0xC4 + 8 * n)

/-- A return that is taken. -/
def Machine.TakesRet (s : Machine) : Prop :=
  s.next = 0xC9 ∨ ∃ n < 8, condition s.regs.F n ∧ s.next = BitVec.ofNat 8 (0xC0 + 8 * n)

/-- A restart other than the service of the simulator. -/
def Machine.Restarts (s : Machine) : Prop := ∃ n < 8, n ≠ 1 ∧ s.next = BitVec.ofNat 8 (0xC7 + 8 * n)

/-- The machine after an instruction. -/
def Machine.step (s : Machine) : Machine := (exec_inst.run s).2

/-- The address of what follows an instruction of so many bytes. -/
def Machine.after (s : Machine) (len : Int) : BitVec 16 := BitVec.ofInt 16 (s.PC + len)

theorem step_eq {s : Machine} {code : BitVec 8} (hcode : s.next = code) :
    s.step = ((dispatch code).run s.skip.ticked).2 := by
  rw [← hcode]
  rfl

/-- Fetching stays in the memory, which does not change an address. -/
theorem ofInt_incAddress (addr n : Int) :
    BitVec.ofInt 16 (incAddress addr 1 + n) = BitVec.ofInt 16 (addr + (n + 1)) := by
  have hdiv : 0x10000 * (addr + 1).tdiv 0x10000 + incAddress addr 1 = addr + 1 := Int.mul_tdiv_add_tmod _ _
  apply BitVec.eq_of_toNat_eq
  rw [BitVec.toNat_ofInt, BitVec.toNat_ofInt]
  omega

/-- What calls and restarts push. -/
theorem pushPC_pushed {s : Machine} (hmod : s.Modulo) :
    Pushed s.regs.SP s.ram (s.after 3) ((pushPC).run s.skip.ticked).2 := by
  have hPC : BitVec.ofInt 16 (s.skip.ticked.PC + 2) = s.after 3 := ofInt_incAddress s.PC 2
  have hrun : pushPC.run s.skip.ticked = (push2 (BitVec.ofInt 16 (s.skip.ticked.PC + 2))).run s.skip.ticked := rfl
  rw [hrun, hPC]
  exact push2_pushed (s.after 3) (s := s.skip.ticked) hmod

theorem push_spec {p : Pair} {s : Machine} (hmod : s.Modulo) (h : s.At p.pushCode) :
    Pushed s.regs.SP s.ram (s.regs.pair p) s.step := by
  cases p with
  | BC => rw [step_eq h.1]; exact push2_pushed s.regs.BC.word (s := s.skip.ticked) hmod
  | DE => rw [step_eq h.1]; exact push2_pushed s.regs.DE.word (s := s.skip.ticked) hmod
  | HL => rw [step_eq h.1]; exact push2_pushed s.regs.HL.word (s := s.skip.ticked) hmod
  | AF => rw [step_eq h.1]; exact push1_pushed s.regs.A s.regs.F s.skip.ticked
  | IX =>
    have hrun : s.step = ((dispatchXd .IX s.skip.next).run s.skip.skip.ticked).2 := step_eq h.1
    rw [hrun, h.2.1]
    exact push2_pushed s.regs.IX.word (s := s.skip.skip.ticked) hmod
  | IY =>
    have hrun : s.step = ((dispatchXd .IY s.skip.next).run s.skip.skip.ticked).2 := step_eq h.1
    rw [hrun, h.2.1]
    exact push2_pushed s.regs.IY.word (s := s.skip.skip.ticked) hmod

/-- What `get2` makes of two bytes. -/
theorem get2_word {s : Machine} (hmod : s.Modulo) (a : BitVec 16) : s.readAt (a.toNat + 1) ++ s.ram a = wordAt s.ram a := by
  rw [hmod.readAt_succ]
  rfl

/-- A pair gets the word on the stack. -/
theorem pop_spec {p : Pair} {s : Machine} (hmod : s.Modulo) (h : s.At p.popCode) :
    Popped s.regs.SP s.ram s.step ∧ s.step.regs.pair p = wordAt s.ram s.regs.SP := by
  cases p with
  | BC => rw [step_eq h.1]; exact ⟨⟨rfl, rfl⟩, (RegPair.word_ofWord _).trans (get2_word hmod _)⟩
  | DE => rw [step_eq h.1]; exact ⟨⟨rfl, rfl⟩, (RegPair.word_ofWord _).trans (get2_word hmod _)⟩
  | HL => rw [step_eq h.1]; exact ⟨⟨rfl, rfl⟩, (RegPair.word_ofWord _).trans (get2_word hmod _)⟩
  | AF =>
    have hSP : s.regs.SP + 1 + 1 = s.regs.SP + 2 := by bv_omega
    rw [step_eq h.1]
    exact ⟨⟨hSP, rfl⟩, rfl⟩
  | IX =>
    have hrun : s.step = ((dispatchXd .IX s.skip.next).run s.skip.skip.ticked).2 := step_eq h.1
    rw [hrun, h.2.1]
    exact ⟨⟨rfl, rfl⟩, (RegPair.word_ofWord _).trans (get2_word hmod _)⟩
  | IY =>
    have hrun : s.step = ((dispatchXd .IY s.skip.next).run s.skip.skip.ticked).2 := step_eq h.1
    rw [hrun, h.2.1]
    exact ⟨⟨rfl, rfl⟩, (RegPair.word_ofWord _).trans (get2_word hmod _)⟩

theorem dispatch_call (n : Nat) (hn : n < 8) (s : Machine) :
    (dispatch (BitVec.ofNat 8 (0xC4 + 8 * n))).run s = (go (callIf (condition s.regs.F n))).run s := by
  interval_cases n <;> rfl

theorem dispatch_ret (n : Nat) (hn : n < 8) (s : Machine) :
    (dispatch (BitVec.ofNat 8 (0xC0 + 8 * n))).run s = (go (retIf (condition s.regs.F n))).run s := by
  interval_cases n <;> rfl

/-- A call that is taken pushes the address behind its operand. -/
theorem call_spec {s : Machine} (hmod : s.Modulo) (h : s.TakesCall) : Pushed s.regs.SP s.ram (s.after 3) s.step := by
  have hrun : s.step = ((go (callIf true)).run s.skip.ticked).2 := by
    rcases h with hcode | ⟨n, hn, hcond, hcode⟩
    · exact step_eq hcode
    · rw [step_eq hcode, dispatch_call n hn]
      exact congrArg (fun c => ((go (callIf c)).run s.skip.ticked).2) hcond
  rw [hrun]
  -- the operand is fetched afterwards
  exact ⟨(pushPC_pushed hmod).SP, (pushPC_pushed hmod).word, (pushPC_pushed hmod).frame⟩

/-- So does a restart, which has no operand. -/
theorem rst_spec {s : Machine} (hmod : s.Modulo) (h : s.Restarts) : Pushed s.regs.SP s.ram (s.after 3) s.step := by
  obtain ⟨n, hn, hne, hcode⟩ := h
  have hrun : ∃ addr, s.step = ((go (rst addr)).run s.skip.ticked).2 := by
    rw [step_eq hcode]
    refine ⟨BitVec.ofNat 16 (8 * n), ?_⟩
    interval_cases n
    case «1» => exact absurd rfl hne
    all_goals rfl
  obtain ⟨addr, hrun⟩ := hrun
  rw [hrun]
  exact ⟨(pushPC_pushed hmod).SP, (pushPC_pushed hmod).word, (pushPC_pushed hmod).frame⟩

theorem ret_spec {s : Machine} (hmod : s.Modulo) (h : s.TakesRet) :
    Popped s.regs.SP s.ram s.step ∧ s.step.PC = (wordAt s.ram s.regs.SP).toNat := by
  have hrun : s.step = ((go (retIf true)).run s.skip.ticked).2 := by
    rcases h with hcode | ⟨n, hn, hcond, hcode⟩
    · exact step_eq hcode
    · rw [step_eq hcode, dispatch_ret n hn]
      exact congrArg (fun c => ((go (retIf c)).run s.skip.ticked).2) hcond
  rw [hrun, ← get2_word hmod]
  exact ⟨⟨rfl, rfl⟩, rfl⟩

/-! ## Nested sequences -/

/-- What a word on the stack is for: data, or the address of what follows a call or a restart. -/
inductive Frame
  | data (v : BitVec 16)
  | call (next : BitVec 16)
  | rst (next : BitVec 16)
  deriving DecidableEq, Repr

namespace Frame

/-- What the `POP` or the `RET` should get. -/
def due : Frame → BitVec 16
  | data v => v
  | call next => next
  | rst next => next

/-- What is on the stack. A restart leaves two bytes out. -/
def stored : Frame → BitVec 16
  | data v => v
  | call next => next
  | rst next => next + 2

def IsData : Frame → Prop
  | data _ => True
  | _ => False

def IsRst : Frame → Prop
  | rst _ => True
  | _ => False

theorem stored_eq_due_iff (f : Frame) : f.stored = f.due ↔ ¬f.IsRst := by
  cases f with
  | data v => simp [stored, due, IsRst]
  | call next => simp [stored, due, IsRst]
  | rst next => simp [stored, due, IsRst]

end Frame

/-- A `POP` or a `RET`, with what it got. -/
structure Got where
  frame : Frame
  value : Int
  deriving DecidableEq, Repr

def Got.Right (g : Got) : Prop := g.value = g.frame.due.toNat

/-- The machine `t` is reached from `s` by a nested sequence. The frames are those still on the stack. An instruction
that neither pushes nor pops leaves the stack as it is. -/
inductive Nested (s : Machine) : List Got → List Frame → Machine → Prop
  | start : Nested s [] [] s
  | push {got frames t} (p : Pair) (h : Nested s got frames t) (hcode : t.At p.pushCode)
      (hroom : 2 * (frames.length + 1) ≤ 0x10000) : Nested s got (.data (t.regs.pair p) :: frames) t.step
  | pop {got f frames t} (p : Pair) (h : Nested s got (f :: frames) t) (hcode : t.At p.popCode) (hf : f.IsData) :
      Nested s (⟨f, (t.step.regs.pair p).toNat⟩ :: got) frames t.step
  | call {got frames t} (h : Nested s got frames t) (hcode : t.TakesCall)
      (hroom : 2 * (frames.length + 1) ≤ 0x10000) : Nested s got (.call (t.after 3) :: frames) t.step
  | rst {got frames t} (h : Nested s got frames t) (hcode : t.Restarts)
      (hroom : 2 * (frames.length + 1) ≤ 0x10000) : Nested s got (.rst (t.after 1) :: frames) t.step
  | ret {got f frames t} (h : Nested s got (f :: frames) t) (hcode : t.TakesRet) (hf : ¬f.IsData) :
      Nested s (⟨f, t.step.PC⟩ :: got) frames t.step
  | other {got frames t} (h : Nested s got frames t) (hSP : t.step.regs.SP = t.regs.SP)
      (hram : ∀ k < 2 * frames.length, t.step.ram (t.regs.SP + BitVec.ofNat 16 k) =
        t.ram (t.regs.SP + BitVec.ofNat 16 k)) : Nested s got frames t.step

/-- The words of the frames are on the stack, which has grown by them. -/
structure OnStack (s : Machine) (frames : List Frame) (t : Machine) : Prop where
  SP : t.regs.SP + BitVec.ofNat 16 (2 * frames.length) = s.regs.SP
  holds : Holds t.ram t.regs.SP (frames.map Frame.stored)

namespace OnStack

variable {s t : Machine} {f : Frame} {frames : List Frame}

theorem pushed (h : OnStack s frames t) (hroom : 2 * (frames.length + 1) ≤ 0x10000)
    (hpushed : Pushed t.regs.SP t.ram f.stored t.step) : OnStack s (f :: frames) t.step where
  SP := by
    rw [hpushed.SP, ← h.SP, List.length_cons]
    bv_omega
  holds := by
    rw [List.map_cons]
    exact hpushed.holds h.holds (by rwa [List.length_map])

theorem popped (h : OnStack s (f :: frames) t) (hpopped : Popped t.regs.SP t.ram t.step) :
    OnStack s frames t.step where
  SP := by
    rw [hpopped.SP, ← h.SP, List.length_cons]
    bv_omega
  holds := by
    rw [hpopped.ram, hpopped.SP]
    exact h.holds.2

theorem top (h : OnStack s (f :: frames) t) : wordAt t.ram t.regs.SP = f.stored := h.holds.1

theorem kept (h : OnStack s frames t) (hSP : t.step.regs.SP = t.regs.SP)
    (hram : ∀ k < 2 * frames.length, t.step.ram (t.regs.SP + BitVec.ofNat 16 k) =
      t.ram (t.regs.SP + BitVec.ofNat 16 k)) : OnStack s frames t.step where
  SP := by rw [hSP, h.SP]
  holds := by
    rw [hSP]
    exact h.holds.congr (by rwa [List.length_map])

end OnStack

theorem right_iff (f : Frame) : (⟨f, f.stored.toNat⟩ : Got).Right ↔ ¬f.IsRst := by
  rw [← f.stored_eq_due_iff, Got.Right, Int.ofNat_inj]
  exact BitVec.toNat_inj

/-- A restart pushes what is due two bytes later. -/
theorem after_rst (s : Machine) : (Frame.rst (s.after 1)).stored = s.after 3 := by
  show BitVec.ofInt 16 (s.PC + 1) + 2 = BitVec.ofInt 16 (s.PC + 3)
  rw [show (2 : BitVec 16) = BitVec.ofInt 16 2 from rfl, ← BitVec.ofInt_add, Int.add_assoc]
  rfl

/-- A run without a dummy cell stays without one. -/
theorem Nested.modulo {s t : Machine} {got : List Got} {frames : List Frame} (hmod : s.Modulo)
    (h : Nested s got frames t) : t.Modulo := by
  induction h with
  | start => exact hmod
  | push _ _ _ _ ih => exact exec_inst_modulo _ ih
  | pop _ _ _ _ ih => exact exec_inst_modulo _ ih
  | call _ _ _ ih => exact exec_inst_modulo _ ih
  | rst _ _ _ ih => exact exec_inst_modulo _ ih
  | ret _ _ _ ih => exact exec_inst_modulo _ ih
  | other _ _ _ ih => exact exec_inst_modulo _ ih

theorem Nested.onStack {s t : Machine} {got : List Got} {frames : List Frame} (hmod : s.Modulo)
    (h : Nested s got frames t) : OnStack s frames t := by
  induction h with
  | start => exact ⟨BitVec.add_zero _, trivial⟩
  | push p h hcode hroom ih => exact ih.pushed hroom (push_spec (h.modulo hmod) hcode)
  | pop p h hcode _ ih => exact ih.popped (pop_spec (h.modulo hmod) hcode).1
  | call h hcode hroom ih => exact ih.pushed hroom (call_spec (h.modulo hmod) hcode)
  | @rst got frames t h hcode hroom ih =>
    refine ih.pushed hroom ?_
    rw [after_rst]
    exact rst_spec (h.modulo hmod) hcode
  | ret h hcode _ ih => exact ih.popped (ret_spec (h.modulo hmod) hcode).1
  | other _ hSP hram ih => exact ih.kept hSP hram

/-- A `POP` or a `RET` gets what it should, if it is not behind a restart. -/
theorem Nested.right_iff {s t : Machine} {got : List Got} {frames : List Frame} (hmod : s.Modulo)
    (h : Nested s got frames t) : ∀ g ∈ got, g.Right ↔ ¬g.frame.IsRst := by
  induction h with
  | start => exact List.forall_mem_nil _
  | push _ _ _ _ ih => exact ih
  | @pop got f frames t p h hcode _ ih =>
    refine List.forall_mem_cons.mpr ⟨?_, ih⟩
    rw [(pop_spec (h.modulo hmod) hcode).2, (h.onStack hmod).top]
    exact Z80.right_iff f
  | call _ _ _ ih => exact ih
  | rst _ _ _ ih => exact ih
  | @ret got f frames t h hcode _ ih =>
    refine List.forall_mem_cons.mpr ⟨?_, ih⟩
    rw [(ret_spec (h.modulo hmod) hcode).2, (h.onStack hmod).top]
    exact Z80.right_iff f
  | other _ _ _ ih => exact ih

/-- In a nested sequence, with addresses modulo the size of the memory, the stack pointer is always that of the
frames, and every `POP` and `RET` gets what it should, exactly if none of them returns from a restart. -/
theorem nested_right_iff {s t : Machine} {got : List Got} {frames : List Frame} (hmod : s.Modulo)
    (h : Nested s got frames t) :
    t.regs.SP + BitVec.ofNat 16 (2 * frames.length) = s.regs.SP ∧
      ((∀ g ∈ got, g.Right) ↔ ∀ g ∈ got, ¬g.frame.IsRst) := by
  refine ⟨(h.onStack hmod).SP, ?_⟩
  constructor
  · exact fun hright g hg => (h.right_iff hmod g hg).mp (hright g hg)
  · exact fun hrst g hg => (h.right_iff hmod g hg).mpr (hrst g hg)

/-- `CALL 4`, and `RET` at 4. -/
def calling : Machine := { Machine.start fun a =>
  if a = 0 then 0xCD else if a = 1 then 4 else if a = 4 then 0xC9 else 0 with dummy := none }

/-- The call comes back. -/
theorem nested_calling : ∃ t, Nested calling [⟨.call 3, 3⟩] [] t ∧ t.regs.SP = calling.regs.SP ∧
    (⟨.call 3, 3⟩ : Got).Right := by
  have hrun : Nested calling [⟨.call 3, 3⟩] [] calling.step.step :=
    .ret (.call .start (.inl rfl) (by decide)) (.inl (by decide)) id
  have hright := nested_right_iff (s := calling) rfl hrun
  refine ⟨_, hrun, ?_, hright.2.mpr (by simp [Frame.IsRst]) _ (List.mem_singleton.mpr rfl)⟩
  simpa using hright.1

/-- `RST 10H` at 0, and `RET` at 0x10. The program goes on at 3. -/
def restarting : Machine := { Machine.start fun a => if a = 0 then 0xD7 else 0xC9 with dummy := none }

/-- `RST` has one byte, and comes back behind three. -/
theorem nested_restarting : Nested restarting [⟨.rst 1, 3⟩] [] restarting.step.step ∧
    ¬(⟨.rst 1, 3⟩ : Got).Right := by
  have hrun : Nested restarting [⟨.rst 1, 3⟩] [] restarting.step.step :=
    .ret (.rst .start ⟨2, by decide, by decide, rfl⟩ (by decide)) (.inl (by decide)) id
  refine ⟨hrun, ?_⟩
  unfold Got.Right
  decide

end Ucsim.Z80
