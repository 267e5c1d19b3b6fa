import Ucsim.Z80.Exec

/-!
# DD and FD

Both prefixes lead to the same template, for IX and for IY. What it does for one register is what it does for the
other one with the two exchanged, apart from one case that names IX.
-/

namespace Ucsim.Z80

/-! ## Exchanged index registers -/

def Regs.swapIndex (r : Regs) : Regs := { r with IX := r.IY, IY := r.IX }

def Machine.swapIndex (s : Machine) : Machine := { s with regs := s.regs.swapIndex }

/-- One program does what the other one does with the index registers exchanged, before and after. -/
def Mirrored {α : Type} (f g : Prog α) : Prop :=
  ∀ s, f.run s = ((g.run s.swapIndex).1, (g.run s.swapIndex).2.swapIndex)

namespace Mirrored

variable {α β : Type}

theorem bind {f g : Prog α} {k l : α → Prog β} (hf : Mirrored f g) (hk : ∀ a, Mirrored (k a) (l a)) :
    Mirrored (f >>= k) (g >>= l) := by
  intro s
  show (k (f.run s).1).run (f.run s).2 = (((l (g.run s.swapIndex).1).run (g.run s.swapIndex).2).1,
    ((l (g.run s.swapIndex).1).run (g.run s.swapIndex).2).2.swapIndex)
  rw [hf s]
  exact hk _ _

theorem go {f g : Prog Unit} (h : Mirrored f g) : Mirrored (Z80.go f) (Z80.go g) :=
  h.bind fun _ _ => rfl

/-- Two tables with the same codes, whose bodies for the code mirror each other. -/
theorem switch {cases cases' : List (List Nat × Prog α)} {f g : Prog α} {code : BitVec 8}
    (h : List.Forall₂ (fun c c' => c.1 = c'.1 ∧ (code.toNat ∈ c.1 → Mirrored c.2 c'.2)) cases cases')
    (hdefault : Mirrored f g) : Mirrored (Z80.switch cases f code) (Z80.switch cases' g code) := by
  induction h with
  | nil => exact hdefault
  | @cons c c' cases cases' hc _ ih =>
    obtain ⟨hkeys, hbody⟩ := hc
    simp only [Z80.switch, List.find?_cons, ← hkeys]
    by_cases hmem : code.toNat ∈ c.1
    · simp only [hmem, decide_true]
      exact hbody hmem
    · simp only [hmem, decide_false]
      exact ih

theorem switchGo {cases cases' : List (List Nat × Prog Unit)} {code : BitVec 8}
    (h : List.Forall₂ (fun c c' => c.1 = c'.1 ∧ (code.toNat ∈ c.1 → Mirrored c.2 c'.2)) cases cases') :
    Mirrored (Z80.switchGo cases code) (Z80.switchGo cases' code) := by
  refine switch ?_ fun _ => rfl
  rw [List.forall₂_map_left_iff, List.forall₂_map_right_iff]
  exact h.imp fun _ _ hc => ⟨hc.1, fun hmem => (hc.2 hmem).go⟩

end Mirrored

/-! ## The template -/

section Template

variable (code : BitVec 8)

theorem inst_Xd_ld_mirrored : Mirrored (inst_Xd_ld .IY code) (inst_Xd_ld .IX code) := by
  apply Mirrored.switchGo
  -- each case is computed on both sides
  repeat' (first | exact .nil | refine .cons ⟨rfl, fun _ _ => rfl⟩ ?_)

theorem inst_Xd_add_mirrored : Mirrored (inst_Xd_add .IY code) (inst_Xd_add .IX code) := by
  apply Mirrored.switchGo
  repeat' (first | exact .nil | refine .cons ⟨rfl, fun _ _ => rfl⟩ ?_)

theorem inst_Xd_inc_mirrored : Mirrored (inst_Xd_inc .IY code) (inst_Xd_inc .IX code) := by
  apply Mirrored.switchGo
  repeat' (first | exact .nil | refine .cons ⟨rfl, fun _ _ => rfl⟩ ?_)

theorem inst_Xd_misc_mirrored : Mirrored (inst_Xd_misc .IY code) (inst_Xd_misc .IX code) := by
  apply Mirrored.switchGo
  repeat' (first | exact .nil | refine .cons ⟨rfl, fun _ _ => rfl⟩ ?_)

/-- The case that names IX is left aside. -/
theorem inst_Xd_dec_mirrored {code : BitVec 8} (h : code ≠ 0x2B) :
    Mirrored (inst_Xd_dec .IY code) (inst_Xd_dec .IX code) := by
  have hno : code.toNat ∉ [0x2B] := by
    intro hmem
    exact h (BitVec.eq_of_toNat_eq (List.mem_singleton.mp hmem))
  apply Mirrored.switchGo
  refine .cons ⟨rfl, fun _ _ => rfl⟩ (.cons ⟨rfl, fun hmem => absurd hmem hno⟩ ?_)
  exact .cons ⟨rfl, fun _ _ => rfl⟩ (.cons ⟨rfl, fun _ _ => rfl⟩ .nil)

theorem copyOut_mirrored (tmp : BitVec 8) (base : Nat) :
    Mirrored (copyOut tmp base code) (copyOut tmp base code) := by
  apply Mirrored.switchGo
  repeat' (first | exact .nil | refine .cons ⟨rfl, fun _ _ => rfl⟩ ?_)

/-- A byte at an address that the index register gives. -/
theorem updateByte_mirrored (op : BitVec 8 → BitVec 8 → BitVec 8 × BitVec 8) {dst : BitVec 8 → Prog Res}
    (hdst : ∀ tmp, Mirrored (dst tmp) (dst tmp)) (n_offset : BitVec 8) :
    Mirrored (updateByte .IY op dst n_offset) (updateByte .IX op dst n_offset) := by
  unfold updateByte
  refine Mirrored.bind ?_ fun w => ?_
  · exact fun _ => rfl
  refine Mirrored.bind ?_ fun v => ?_
  · exact fun _ => rfl
  refine Mirrored.bind ?_ fun tmp => ?_
  · exact fun _ => rfl
  refine Mirrored.bind (hdst tmp) fun res => ?_
  by_cases hres : res = .go
  · simp only [hres, if_true]
    exact fun _ => rfl
  · simp only [hres, if_false]
    exact fun _ => rfl

/-- The functions behind the second CB. -/
theorem inst_XXcb_mirrored : Mirrored (inst_XXcb .IY) (inst_XXcb .IX) := by
  unfold inst_XXcb
  refine Mirrored.bind ?_ fun n_offset => ?_
  · exact fun _ => rfl
  refine Mirrored.bind ?_ fun code => ?_
  · exact fun _ => rfl
  refine Mirrored.bind ?_ fun _ => ?_
  · exact fun _ => rfl
  have hshift : ∀ op base, Mirrored (updateByte .IY op (copyOut · base code) n_offset)
      (updateByte .IX op (copyOut · base code) n_offset) :=
    fun op base => updateByte_mirrored op (fun tmp => copyOut_mirrored code tmp base) n_offset
  have hbit : Mirrored (inst_XXcb_bit .IY n_offset code) (inst_XXcb_bit .IX n_offset code) :=
    updateByte_mirrored _ (fun _ _ => rfl) n_offset
  have hres : Mirrored (inst_XXcb_res .IY n_offset code) (inst_XXcb_res .IX n_offset code) :=
    updateByte_mirrored _ (fun tmp => copyOut_mirrored (code &&& 7) tmp 0) n_offset
  have hset : Mirrored (inst_XXcb_set .IY n_offset code) (inst_XXcb_set .IX n_offset code) := by
    refine updateByte_mirrored _ (fun tmp => ?_) n_offset
    apply Mirrored.switchGo
    repeat' (first | exact .nil | refine .cons ⟨rfl, fun _ _ => rfl⟩ ?_)
  apply Mirrored.switch
  · refine .cons ⟨rfl, fun _ => hshift _ _⟩ (.cons ⟨rfl, fun _ => hshift _ _⟩ (.cons ⟨rfl, fun _ => hshift _ _⟩ ?_))
    refine .cons ⟨rfl, fun _ => hshift _ _⟩ (.cons ⟨rfl, fun _ => hshift _ _⟩ (.cons ⟨rfl, fun _ => hshift _ _⟩ ?_))
    refine .cons ⟨rfl, fun _ => hshift _ _⟩ (.cons ⟨rfl, fun _ => hshift _ _⟩ ?_)
    exact .cons ⟨rfl, fun _ => hbit⟩ (.cons ⟨rfl, fun _ => hres⟩ (.cons ⟨rfl, fun _ => hset⟩ .nil))
  · exact fun _ => rfl

/-- All codes but that of the decrement. -/
theorem dispatchXd_mirrored {code : BitVec 8} (h : code ≠ 0x2B) :
    Mirrored (dispatchXd .IY code) (dispatchXd .IX code) := by
  apply Mirrored.switch
  · refine .cons ⟨rfl, fun _ => inst_Xd_ld_mirrored code⟩ (.cons ⟨rfl, fun _ => inst_Xd_inc_mirrored code⟩ ?_)
    refine .cons ⟨rfl, fun _ => inst_Xd_add_mirrored code⟩ (.cons ⟨rfl, fun _ => inst_Xd_dec_mirrored h⟩ ?_)
    refine .cons ⟨rfl, fun _ => inst_Xd_misc_mirrored code⟩ (.cons ⟨rfl, fun _ => inst_XXcb_mirrored⟩ ?_)
    repeat' (first | exact .nil | refine .cons ⟨rfl, fun _ _ => rfl⟩ ?_)
  · exact fun _ => rfl

end Template

/-- The byte that is fetched next. -/
def Machine.next (s : Machine) : BitVec 8 := s.readAt s.PC

theorem inst_Xd_run (X : Index) (s : Machine) :
    (inst_Xd X).run s = (dispatchXd X s.next).run { s with PC := incAddress s.PC 1 } := rfl

/-- With FD in front of it a byte sequence does what it does with DD and the index registers exchanged, exactly if
it is not that of the decrement. -/
theorem fd_mirrors_dd_iff (s : Machine) :
    (dispatch 0xFD).run s = (((dispatch 0xDD).run s.swapIndex).1, ((dispatch 0xDD).run s.swapIndex).2.swapIndex) ↔
      s.next ≠ 0x2B := by
  show (inst_Xd .IY).run s = (((inst_Xd .IX).run s.swapIndex).1, ((inst_Xd .IX).run s.swapIndex).2.swapIndex) ↔ _
  rw [inst_Xd_run, inst_Xd_run]
  constructor
  · intro heq hcode
    -- IX is decremented on the left, and IY on the right
    have hnext : s.swapIndex.next = 0x2B := hcode
    rw [hcode, hnext] at heq
    have hIX : RegPair.ofWord (s.regs.IX.word - 1) = s.regs.IX :=
      congrArg (fun p : Res × Machine => p.2.regs.IX) heq
    have hword := congrArg RegPair.word hIX
    rw [RegPair.word_ofWord] at hword
    bv_omega
  · exact fun hcode => dispatchXd_mirrored hcode { s with PC := incAddress s.PC 1 }

/-- `FD 2B` decrements IX. -/
theorem fd_dec_start : ((dispatch 0xFD).run (.start fun _ => 0x2B)).2.regs.IX = ⟨0xFF, 0xFF⟩ ∧
    ((dispatch 0xDD).run (Machine.start fun _ => 0x2B).swapIndex).2.swapIndex.regs.IX = ⟨0, 0⟩ := by
  decide

end Ucsim.Z80
