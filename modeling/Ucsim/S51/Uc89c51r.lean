import Ucsim.S51.Board

/-!
# The two data pointers of the 89C51R

A chip with two data pointers keeps the one in use in `DPL` and `DPH`. Before an instruction the pointer that
AUXR1.DPS selects is copied there, and after it `DPL` and `DPH` are copied back, to the pointer that the bit
selects then. Of the registers only `AUXR1`, `DPL` and `DPH` are modelled; what an instruction does to them is
the list of its writes. Interrupts leave them alone.
-/

namespace Ucsim.S51.Uc89c51r

/-- The registers that concern the data pointers. -/
inductive Sfr
  | AUXR1 | DPL | DPH
  deriving DecidableEq

def bmDPS : UChar := 0x01

/-- The registers and the members `dpl0`, `dph0`, `dpl1` and `dph1`. -/
structure Uc where
  sfr : Sfr → UChar
  dpl0 : UChar
  dph0 : UChar
  dpl1 : UChar
  dph1 : UChar

/-- A register and the value that it gets. -/
abbrev Write := Sfr × UChar

/-- A round of `do_inst`: an instruction with its writes in order, or a tick in the idle state. -/
inductive Event
  | inst (writes : List Write)
  | idle

namespace Uc

/-- AUXR1.DPS. -/
def dps (u : Uc) : Bool := u.sfr .AUXR1 &&& bmDPS ≠ 0

/-- `sfr->read(DPH)*256 + sfr->read(DPL)`. -/
def dptr (u : Uc) : BitVec 16 := u.sfr .DPH ++ u.sfr .DPL

/-- A pointer as it is kept between instructions. -/
def pointer (u : Uc) (s : Bool) : BitVec 16 := if s then u.dph1 ++ u.dpl1 else u.dph0 ++ u.dpl0

/-- `sfr->write` and `sfr->set`. -/
def set (u : Uc) (w : Write) : Uc := { u with sfr := Function.update u.sfr w.1 w.2 }

/-- `clear_sfr` sets all registers to 0. -/
def reset (u : Uc) : Uc := { u with sfr := fun _ => 0, dpl0 := 0, dph0 := 0, dpl1 := 0, dph1 := 0 }

def pre_inst (u : Uc) : Uc :=
  if u.sfr .AUXR1 &&& bmDPS ≠ 0 then (u.set (.DPL, u.dpl1)).set (.DPH, u.dph1)
  else (u.set (.DPL, u.dpl0)).set (.DPH, u.dph0)

def post_inst (u : Uc) : Uc :=
  if u.sfr .AUXR1 &&& bmDPS ≠ 0 then { u with dpl1 := u.sfr .DPL, dph1 := u.sfr .DPH }
  else { u with dpl0 := u.sfr .DPL, dph0 := u.sfr .DPH }

/-- The writes of `exec_inst`. -/
def exec (writes : List Write) (u : Uc) : Uc := writes.foldl set u

/-- A round. In the idle state there is no `pre_inst`. -/
def step (u : Uc) : Event → Uc
  | .inst writes => (exec writes u.pre_inst).post_inst
  | .idle => u.post_inst

end Uc

/-! ## What the pointers are for -/

/-- The controller, and for each value of DPS the data pointer that the last instruction left which was executed
and completed under it. -/
structure Traced where
  uc : Uc
  last : Bool → BitVec 16

namespace Traced

/-- An instruction that leaves DPS as it was leaves its data pointer. -/
def step (t : Traced) : Event → Traced
  | .inst writes =>
    let after := t.uc.step (.inst writes)
    { uc := after
      last := if after.dps = t.uc.dps then Function.update t.last t.uc.dps after.dptr else t.last }
  | .idle => { t with uc := t.uc.step .idle }

/-- After a reset no instruction has left a pointer. -/
def start (u : Uc) : Traced := { uc := u.reset, last := fun _ => 0 }

/-- An instruction sees the pointer that was left under the DPS it is executed with, and when DPS is not what it
was afterwards, no pointer is. -/
def Obeys (t : Traced) : Event → Prop
  | .inst writes =>
    t.uc.pre_inst.dptr = t.last t.uc.dps ∧
      ((t.uc.step (.inst writes)).dps ≠ t.uc.dps →
        ∀ s, (t.uc.step (.inst writes)).pointer s = t.uc.pointer s)
  | .idle => True

/-- All rounds of a run obey. -/
def Lawful (t : Traced) : List Event → Prop
  | [] => True
  | e :: run => t.Obeys e ∧ (t.step e).Lawful run

end Traced

/-- The writes of an instruction leave DPS alone, or they leave in `DPL` and `DPH` the pointer that they select. -/
def Uc.Harmless (u : Uc) : Event → Prop
  | .inst writes =>
    (Uc.exec writes u.pre_inst).dps ≠ u.dps →
      (Uc.exec writes u.pre_inst).dptr = u.pointer (Uc.exec writes u.pre_inst).dps
  | .idle => True

/-- All rounds of a run are harmless. -/
def Uc.HarmlessRun (u : Uc) : List Event → Prop
  | [] => True
  | e :: run => u.Harmless e ∧ (u.step e).HarmlessRun run

/-! ## Copying the pointers -/

namespace Uc

variable (u : Uc) (writes : List Write) (s : Bool)

theorem dps_eq_true : u.dps = true ↔ u.sfr .AUXR1 &&& bmDPS ≠ 0 := decide_eq_true_iff

theorem dps_congr {u v : Uc} (h : u.sfr .AUXR1 = v.sfr .AUXR1) : u.dps = v.dps := by
  unfold dps
  rw [h]

@[simp] theorem pre_inst_pointer : u.pre_inst.pointer s = u.pointer s := by
  unfold pre_inst
  split <;> rfl

/-- An instruction sees the pointer that DPS selects. -/
@[simp] theorem pre_inst_dptr : u.pre_inst.dptr = u.pointer u.dps := by
  unfold pre_inst pointer
  by_cases hs : u.sfr .AUXR1 &&& bmDPS ≠ 0
  · rw [if_pos hs, if_pos ((dps_eq_true u).mpr hs)]
    rfl
  · rw [if_neg hs, if_neg (mt (dps_eq_true u).mp hs)]
    rfl

@[simp] theorem post_inst_dps : u.post_inst.dps = u.dps := by
  apply dps_congr
  unfold post_inst
  split <;> rfl

@[simp] theorem post_inst_dptr : u.post_inst.dptr = u.dptr := by
  unfold post_inst
  split <;> rfl

/-- The pointer that DPS selects gets the value of `DPL` and `DPH`. -/
@[simp] theorem post_inst_pointer : u.post_inst.pointer s = if s = u.dps then u.dptr else u.pointer s := by
  unfold post_inst
  by_cases hs : u.sfr .AUXR1 &&& bmDPS ≠ 0
  · rw [if_pos hs, (dps_eq_true u).mpr hs]
    cases s <;> rfl
  · rw [if_neg hs, Bool.eq_false_iff.mpr (mt (dps_eq_true u).mp hs)]
    cases s <;> rfl

/-- Instructions write registers only. -/
@[simp] theorem exec_pointer : (exec writes u).pointer s = u.pointer s := by
  induction writes generalizing u with
  | nil => rfl
  | cons w writes ih => exact ih (u.set w)

/-- What an instruction does to the pointers: the one that is selected after it becomes what it leaves. -/
theorem step_inst_pointer :
    (u.step (.inst writes)).pointer s
      = if s = (u.step (.inst writes)).dps then (u.step (.inst writes)).dptr else u.pointer s := by
  unfold step
  simp only [post_inst_pointer, post_inst_dps, post_inst_dptr, exec_pointer, pre_inst_pointer]

/-- `DPL` and `DPH` show the pointer in use. -/
def Shown : Prop := u.dptr = u.pointer u.dps

theorem zero_bytes : (0 : UChar) ++ (0 : UChar) = (0 : BitVec 16) := by decide

theorem shown_reset : u.reset.Shown := by
  unfold Shown pointer
  split <;> rfl

theorem shown_step (e : Event) : (u.step e).Shown := by
  unfold Shown step
  cases e <;> simp only [post_inst_dptr, post_inst_pointer, post_inst_dps, if_true]

/-- A tick in the idle state writes the pointer that is there already. -/
theorem step_idle_pointer {u : Uc} (h : u.Shown) : (u.step .idle).pointer s = u.pointer s := by
  unfold step
  rw [post_inst_pointer]
  split
  · next hs => rw [hs, h]
  · rfl

end Uc

/-! ## Runs -/

/-- The pointers are those that were left. -/
def Traced.Kept (t : Traced) : Prop := t.uc.Shown ∧ ∀ s, t.uc.pointer s = t.last s

section Runs

variable {t : Traced}

theorem Traced.kept_start (u : Uc) : (start u).Kept := by
  refine ⟨u.shown_reset, fun s => ?_⟩
  cases s with
  | false => exact Uc.zero_bytes
  | true => exact Uc.zero_bytes

/-- While the pointers are those that were left, a round obeys if and only if it is harmless. -/
theorem Traced.obeys_iff (h : t.Kept) (e : Event) : t.Obeys e ↔ t.uc.Harmless e := by
  cases e with
  | idle => exact Iff.rfl
  | inst writes =>
    have hseen : t.uc.pre_inst.dptr = t.last t.uc.dps := by
      rw [Uc.pre_inst_dptr]
      exact h.2 _
    have hdps : (t.uc.step (.inst writes)).dps = (Uc.exec writes t.uc.pre_inst).dps := Uc.post_inst_dps _
    have hdptr : (t.uc.step (.inst writes)).dptr = (Uc.exec writes t.uc.pre_inst).dptr := Uc.post_inst_dptr _
    unfold Obeys Uc.Harmless
    dsimp only
    rw [and_iff_right hseen, hdps]
    refine imp_congr_right fun _ => ⟨fun hsame => ?_, fun hleft s => ?_⟩
    · rw [← hsame, Uc.step_inst_pointer, hdps, hdptr, if_pos rfl]
    · rw [Uc.step_inst_pointer, hdps, hdptr]
      split
      · next hs => rw [hs, hleft]
      · rfl

/-- A harmless round leaves the pointers as they were left. -/
theorem Traced.kept_step (h : t.Kept) {e : Event} (he : t.uc.Harmless e) : (t.step e).Kept := by
  cases e with
  | idle => exact ⟨t.uc.shown_step .idle, fun s => (Uc.step_idle_pointer s h.1).trans (h.2 s)⟩
  | inst writes =>
    refine ⟨t.uc.shown_step (.inst writes), fun s => ?_⟩
    unfold step
    dsimp only
    by_cases hsame : (t.uc.step (.inst writes)).dps = t.uc.dps
    · rw [if_pos hsame, Uc.step_inst_pointer, hsame, Function.update_apply, ← h.2 s]
    · rw [if_neg hsame, ← h.2 s]
      exact (((obeys_iff h _).mpr he).2 hsame) s

theorem Traced.lawful_iff_harmlessRun (h : t.Kept) (run : List Event) : t.Lawful run ↔ t.uc.HarmlessRun run := by
  induction run generalizing t with
  | nil => exact Iff.rfl
  | cons e run ih =>
    have hstep : (t.step e).uc = t.uc.step e := by cases e <;> rfl
    unfold Lawful Uc.HarmlessRun
    rw [obeys_iff h e, ← hstep]
    exact and_congr_right fun he => ih (kept_step h he)

end Runs

/-- From reset, the pointers are those that were left under their value of DPS, and switching leaves them alone, in
a run in which each instruction that changes DPS leaves the pointer that it selects in `DPL` and `DPH`, and in no
other run. -/
theorem lawful_iff_harmless (u : Uc) (run : List Event) :
    (Traced.start u).Lawful run ↔ u.reset.HarmlessRun run :=
  Traced.lawful_iff_harmlessRun (Traced.kept_start u) run

/-- `MOV DPTR,#1234H` and `MOV AUXR1,#1`: the second pointer is overwritten. -/
theorem switch_overwrites :
    ¬ (Traced.start { sfr := fun _ => 0, dpl0 := 0, dph0 := 0, dpl1 := 0, dph1 := 0 }).Lawful
      [.inst [(.DPH, 0x12), (.DPL, 0x34)], .inst [(.AUXR1, 0x01)]] := by
  intro h
  have hkept := h.2.1.2 (by decide) true
  revert hkept
  decide

end Ucsim.S51.Uc89c51r
