import Ucsim.Z80.Fetches

/-!
# Invalid codes

Where `exec_inst` gives up, and where PC is then. PC is set back at one of the places only, and there by one byte.
-/

namespace Ucsim.Z80

/-- The codes behind DD and FD that have no case, those behind a displacement among them. -/
def Machine.InvalidXd (s : Machine) : Prop :=
  s.next.toNat ∉ xdOps ∨ s.next = 0xCB ∧ s.skip.skip.next.toNat ∉ xxcbOps

/-- An invalid code at PC. -/
def Machine.Invalid (s : Machine) : Prop :=
  s.next = 0xED ∧ s.skip.next.toNat ∉ keys edCases ∨ (s.next = 0xDD ∨ s.next = 0xFD) ∧ s.skip.InvalidXd

/-! ## Results -/

theorem dispatch_valid {code : BitVec 8} (hED : code ≠ 0xED) (hDD : code ≠ 0xDD) (hFD : code ≠ 0xFD) (s : Machine) :
    ((dispatch code).run s).1 ≠ .invInst := by
  have hgo : ∀ {r : Res}, r = .go → r ≠ .invInst := fun h => by rw [h]; exact nofun
  rcases codes_split code with h | h | h | h | rfl | rfl | rfl | h | h | h
  · exact hgo ((dispatch_one h).go s)
  · exact hgo ((dispatch_two h).go s)
  · exact hgo ((dispatch_three h).go s)
  · exact hgo (dispatch_flow h s)
  · exact nofun
  · exact (rst8_fetches s).1
  · exact hgo (inst_cb_fetches.go s)
  · exact absurd h hED
  · exact absurd h hDD
  · exact absurd h hFD

theorem switchGo_unknown {cases : List (List Nat × Prog Unit)} {code : BitVec 8} (hcode : code.toNat ∉ keys cases) :
    switchGo cases code = return .invInst := by
  refine switch_induct (P := fun p : Prog Res => p = return .invInst) (fun c hc hmem => ?_) fun _ => rfl
  obtain ⟨d, hd, rfl⟩ := List.mem_map.mp hc
  exact absurd (List.mem_flatMap.mpr ⟨d, hd, hmem⟩) hcode

/-- PC is two, three or four bytes past where it was. -/
def Past (PC PC' : Int) : Prop := ∃ n : Int, (n = 2 ∨ n = 3 ∨ n = 4) ∧ PC' % 0x10000 = (PC + n) % 0x10000

theorem Past.ne {PC PC' : Int} (h : Past PC PC') : PC' ≠ PC := by
  obtain ⟨n, hn, hPC⟩ := h
  rintro rfl
  omega

/-- Behind a displacement, PC is behind the last byte or on it. -/
theorem inst_XXcb_invalid (X : Index) {s : Machine} (hcode : s.skip.next.toNat ∉ xxcbOps) :
    ((inst_XXcb X).run s).1 = .invInst ∧
      (((inst_XXcb X).run s).2.PC = advance 2 s.PC ∨
        ((inst_XXcb X).run s).2.PC = incAddress (advance 2 s.PC) (-1)) := by
  rw [inst_XXcb_run]
  by_cases hset : s.skip.next.toNat < 0xC0
  · rw [xxcb_unknown X s.next hcode hset]
    exact ⟨rfl, .inr rfl⟩
  · rw [xxcb_set X s.next (Nat.le_of_not_lt hset), inst_XXcb_set_run X s.next (Nat.le_of_not_lt hset)]
    exact ⟨rfl, .inl rfl⟩

theorem inst_Xd_invalid (X : Index) {s : Machine} (h : s.skip.InvalidXd) :
    ((inst_Xd X).run s.skip).1 = .invInst ∧ Past s.PC ((inst_Xd X).run s.skip).2.PC := by
  have hrun : (inst_Xd X).run s.skip = (dispatchXd X s.skip.next).run s.skip.skip := rfl
  rw [hrun]
  rcases h with hno | ⟨hCB, hno⟩
  · rw [xd_unknown X hno]
    exact ⟨rfl, 2, .inl rfl, advance_emod 2 s.PC⟩
  · rw [hCB]
    obtain ⟨hres, hPC⟩ := inst_XXcb_invalid X hno
    refine ⟨hres, ?_⟩
    rcases hPC with hPC | hPC
    · exact ⟨4, .inr (.inr rfl), (congrArg (· % 0x10000) hPC).trans (advance_emod 4 s.PC)⟩
    · have hfour := advance_emod 4 s.PC
      have hback := incAddress_emod (advance 4 s.PC) (-1)
      refine ⟨3, .inr (.inl rfl), (congrArg (· % 0x10000) hPC).trans ?_⟩
      change incAddress (advance 4 s.PC) (-1) % 0x10000 = _
      omega

theorem inst_Xd_valid (X : Index) {s : Machine} (h : ¬ s.InvalidXd) : ((inst_Xd X).run s).1 = .go := by
  have hrun : (inst_Xd X).run s = (dispatchXd X s.next).run s.skip := rfl
  rw [hrun]
  obtain ⟨hmem, hCB⟩ := not_or.mp h
  have hops : s.next.toNat ∈ xdPlainOps ++ xdByteOps ++ xdWordOps ++ [0xCB, 0xE9] := not_not.mp hmem
  rcases List.mem_append.mp hops with h | h
  · rcases List.mem_append.mp h with h | h
    · rcases List.mem_append.mp h with h | h
      · exact (xd_plain X h).go s.skip
      · exact (xd_byte X h).go s.skip
    · exact (xd_word X h).go s.skip
  · rcases List.mem_pair.mp h with h | h
    · have hcode : s.next = 0xCB := BitVec.eq_of_toNat_eq h
      have hknown := not_not.mp fun hno => hCB ⟨hcode, hno⟩
      rw [hcode]
      exact (inst_XXcb_fetches X hknown).1
    · have hcode : s.next = 0xE9 := BitVec.eq_of_toNat_eq h
      rw [hcode]
      rfl

/-- At an invalid code `exec_inst` gives up with PC past it. -/
theorem exec_inst_invalid {s : Machine} (h : s.Invalid) :
    (exec_inst.run s).1 = .invInst ∧ Past s.PC s.step.PC := by
  unfold Machine.step
  rw [exec_inst_run]
  rcases h with ⟨hED, hno⟩ | ⟨hX, hno⟩
  · have hrun : (dispatch 0xED).run s.skip.ticked = (switchGo edCases s.skip.next).run s.skip.ticked.skip := rfl
    rw [hED, hrun, switchGo_unknown hno]
    exact ⟨rfl, 2, .inl rfl, advance_emod 2 s.PC⟩
  · rcases hX with hX | hX
    · rw [hX]
      exact inst_Xd_invalid .IX (s := s.ticked) hno
    · rw [hX]
      exact inst_Xd_invalid .IY (s := s.ticked) hno

theorem exec_inst_valid {s : Machine} (h : ¬ s.Invalid) : (exec_inst.run s).1 ≠ .invInst := by
  have hgo : ∀ {r : Res}, r = .go → r ≠ .invInst := fun h => by rw [h]; exact nofun
  obtain ⟨hed, hxd⟩ := not_or.mp h
  rw [exec_inst_run]
  by_cases hED : s.next = 0xED
  · have hmem : s.skip.next.toNat ∈ keys edCases := not_not.mp fun hno => hed ⟨hED, hno⟩
    have hrun : ((dispatch 0xED).run s.skip.ticked).1 = ((switchGo edCases s.skip.next).run s.skip.ticked.skip).1 := rfl
    rw [hED, hrun, switchGo_res, if_pos hmem]
    exact nofun
  · by_cases hDD : s.next = 0xDD
    · rw [hDD]
      exact hgo (inst_Xd_valid .IX (s := s.skip.ticked) fun hinv => hxd ⟨.inl hDD, hinv⟩)
    · by_cases hFD : s.next = 0xFD
      · rw [hFD]
        exact hgo (inst_Xd_valid .IY (s := s.skip.ticked) fun hinv => hxd ⟨.inr hFD, hinv⟩)
      · exact dispatch_valid hED hDD hFD s.skip.ticked

/-- Execution stops at the instruction it cannot do: registers, PC and memory are as before. -/
def Machine.StopsAt (s : Machine) : Prop :=
  (exec_inst.run s).1 = .invInst → s.step.regs = s.regs ∧ s.step.PC = s.PC ∧ s.step.ram = s.ram

/-- There is no invalid code at which execution stops where it was. -/
theorem stops_at_iff (s : Machine) : s.StopsAt ↔ ¬ s.Invalid := by
  constructor
  · intro hstop hinv
    obtain ⟨hres, hpast⟩ := exec_inst_invalid hinv
    exact hpast.ne (hstop hres).2.1
  · intro hval hres
    exact absurd hres (exec_inst_valid hval)

/-- ED 00 at address 0. -/
theorem ED_00_goes_on : ¬ (Machine.start fun a => if a = 0 then 0xED else 0).StopsAt := by
  intro hstop
  have hPC := (hstop rfl).2.1
  revert hPC
  decide

end Ucsim.Z80
