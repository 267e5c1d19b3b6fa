import Ucsim.Z80.IndexPrefix

/-!
# The dummy cell

Without a dummy cell the addresses are taken modulo the size of the memory. No instruction makes one, so that a whole
run is of this kind when its first machine is.
-/

namespace Ucsim.Z80

/-- Addresses are taken modulo the size of the memory. -/
def Machine.Modulo (s : Machine) : Prop := s.dummy = none

theorem ofInt_succ (a : BitVec 16) : BitVec.ofInt 16 (a.toNat + 1) = a + 1 := by
  rw [BitVec.ofInt_add, BitVec.ofInt_natCast, BitVec.ofNat_toNat, BitVec.setWidth_eq]
  rfl

/-- The byte behind an address. -/
theorem Machine.Modulo.readAt_succ {s : Machine} (h : s.Modulo) (a : BitVec 16) :
    s.readAt (a.toNat + 1) = s.ram (a + 1) := by
  unfold Machine.readAt
  rw [show s.dummy = none from h, ofInt_succ]

/-- A byte stored behind an address. -/
theorem Machine.Modulo.stored_succ {s : Machine} (h : s.Modulo) (a : BitVec 16) (val : BitVec 8) :
    (s.stored (a.toNat + 1) val).ram = Function.update s.ram (a + 1) val := by
  rw [Machine.stored, if_pos (.inl h), ofInt_succ]

/-- The program leaves a machine without a dummy cell without one. -/
def KeepsModulo {α : Type} (f : Prog α) : Prop := ∀ s, s.Modulo → (f.run s).2.Modulo

namespace KeepsModulo

variable {α β : Type}

/-- A program that is computed on the machines without a dummy cell. -/
theorem of_none {f : Prog α}
    (h : ∀ regs PC ram ticks out, (f.run ⟨regs, PC, ram, none, ticks, out⟩).2.dummy = none) : KeepsModulo f := by
  rintro ⟨regs, PC, ram, dummy, ticks, out⟩ hs
  obtain rfl : dummy = none := hs
  exact h regs PC ram ticks out

theorem bind {f : Prog α} {k : α → Prog β} (hf : KeepsModulo f) (hk : ∀ a, KeepsModulo (k a)) :
    KeepsModulo (f >>= k) :=
  fun s hs => hk _ _ (hf s hs)

theorem go {f : Prog Unit} (h : KeepsModulo f) : KeepsModulo (Z80.go f) := h.bind fun _ _ hs => hs

theorem switch {cases : List (List Nat × Prog α)} {f : Prog α} {code : BitVec 8}
    (h : ∀ c ∈ cases, KeepsModulo c.2) (hdefault : KeepsModulo f) : KeepsModulo (Z80.switch cases f code) := by
  unfold Z80.switch
  split
  case h_1 c hc => exact h c (List.mem_of_find?_eq_some hc)
  case h_2 => exact hdefault

theorem nil : ∀ c ∈ ([] : List (List Nat × Prog α)), KeepsModulo c.2 := List.forall_mem_nil _

theorem cons {keys : List Nat} {f : Prog α} {cases : List (List Nat × Prog α)} (hf : KeepsModulo f)
    (h : ∀ c ∈ cases, KeepsModulo c.2) : ∀ c ∈ (keys, f) :: cases, KeepsModulo c.2 :=
  List.forall_mem_cons.mpr ⟨hf, h⟩

theorem switchGo {cases : List (List Nat × Prog Unit)} {code : BitVec 8} (h : ∀ c ∈ cases, KeepsModulo c.2) :
    KeepsModulo (Z80.switchGo cases code) :=
  switch (List.forall_mem_map.mpr fun c hc => (h c hc).go) fun _ hs => hs

end KeepsModulo

/-! ## The instructions -/

/-- The rounds of a loop. -/
theorem whileBC_modulo {body : Prog Unit} (h : KeepsModulo body) (n : Nat) : KeepsModulo (whileBC body n) := by
  induction n with
  | zero => exact fun _ hs => hs
  | succ n ih =>
    refine h.bind fun _ => KeepsModulo.bind (fun _ hs => hs) fun v => ?_
    by_cases hBC : v ≠ 0
    · simpa only [if_pos hBC] using ih
    · exact (if_neg hBC).symm ▸ fun _ hs => hs

theorem whileBCUnless_modulo {body : Prog Bool} (h : KeepsModulo body) (n : Nat) :
    KeepsModulo (whileBCUnless body n) := by
  induction n with
  | zero => exact fun _ hs => hs
  | succ n ih =>
    refine h.bind fun b => ?_
    cases b with
    | true => exact fun _ hs => hs
    | false =>
      refine KeepsModulo.bind (fun _ hs => hs) fun v => ?_
      by_cases hBC : v ≠ 0
      · simpa only [if_pos hBC] using ih
      · exact (if_neg hBC).symm ▸ fun _ hs => hs

theorem shiftOperand_modulo (op : BitVec 8 → BitVec 8 → BitVec 8 × BitVec 8) (base : Nat) (code : BitVec 8) :
    KeepsModulo (shiftOperand op base code) := by
  refine KeepsModulo.go (KeepsModulo.switch ?_ fun _ hs => hs)
  repeat' (first | exact KeepsModulo.nil | refine KeepsModulo.cons (.of_none fun _ _ _ _ _ => rfl) ?_)

theorem inst_cb_modulo : KeepsModulo inst_cb := by
  refine KeepsModulo.bind (fun _ hs => hs) fun code => KeepsModulo.bind (fun _ hs => hs) fun _ => ?_
  have hres : KeepsModulo (inst_cb_res code) := by
    unfold inst_cb_res
    split
    · exact fun _ hs => hs
    · exact shiftOperand_modulo _ _ _
  have hset : KeepsModulo (inst_cb_set code) := by
    refine KeepsModulo.go (KeepsModulo.switch ?_ fun _ hs => hs)
    repeat' (first | exact KeepsModulo.nil | refine KeepsModulo.cons (.of_none fun _ _ _ _ _ => rfl) ?_)
  refine KeepsModulo.switch ?_ fun _ hs => hs
  repeat' (first | exact KeepsModulo.nil | refine KeepsModulo.cons hres ?_
                 | refine KeepsModulo.cons hset ?_
                 | refine KeepsModulo.cons (shiftOperand_modulo _ _ _) ?_)

/-- The loops of `LDIR` and `LDDR`. -/
theorem moveBytes_modulo (dir : BitVec 16) (n : Nat) : KeepsModulo (whileBC (moveByte dir) n) :=
  whileBC_modulo (.of_none fun _ _ _ _ _ => rfl) n

/-- The loops of `CPIR` and `CPDR`. -/
theorem searchBytes_modulo (dir : BitVec 16) (n : Nat) : KeepsModulo (whileBCUnless (searchByte dir) n) := by
  have hbody : ∀ b : Bool, KeepsModulo (if b then do setFlags (BIT_Z ||| BIT_P); return true
      else do step .HL dir; step .BC (-1); return false : Prog Bool) := by
    intro b
    cases b <;> exact .of_none fun _ _ _ _ _ => rfl
  exact whileBCUnless_modulo (KeepsModulo.bind (.of_none fun _ _ _ _ _ => rfl) hbody) n

theorem inst_ed_modulo : KeepsModulo inst_ed := by
  refine KeepsModulo.bind (.of_none fun _ _ _ _ _ => rfl) fun code => KeepsModulo.switchGo ?_
  have hsearch : ∀ b : Bool, KeepsModulo (if b then do setFlags (BIT_Z ||| BIT_P); step .HL 1; step .BC (-1); flagBC
      else do step .HL 1; step .BC (-1); flagBC : Prog Unit) := by
    intro b
    cases b <;> exact .of_none fun _ _ _ _ _ => rfl
  unfold edCases
  repeat refine KeepsModulo.cons (.of_none fun _ _ _ _ _ => rfl) ?_
  refine KeepsModulo.cons ?_ ?_
  · exact .bind (.of_none fun _ _ _ _ _ => rfl) fun _ => .bind (.of_none fun _ _ _ _ _ => rfl) hsearch
  refine KeepsModulo.cons (.bind (.of_none fun _ _ _ _ _ => rfl) fun _ => moveBytes_modulo _ _) ?_
  refine KeepsModulo.cons ?_ ?_
  · exact .bind (.of_none fun _ _ _ _ _ => rfl) fun _ =>
      .bind (.of_none fun _ _ _ _ _ => rfl) fun _ => searchBytes_modulo _ _
  refine KeepsModulo.cons (.bind (.of_none fun _ _ _ _ _ => rfl) fun _ => moveBytes_modulo _ _) ?_
  refine KeepsModulo.cons (.bind (.of_none fun _ _ _ _ _ => rfl) fun _ => searchBytes_modulo _ _) ?_
  exact KeepsModulo.nil

section Index

variable (X : Index)

theorem copyOut_modulo (tmp : BitVec 8) (base : Nat) (code : BitVec 8) : KeepsModulo (copyOut tmp base code) := by
  apply KeepsModulo.switchGo
  repeat' (first | exact KeepsModulo.nil
                 | refine KeepsModulo.cons (.of_none fun _ _ _ _ _ => rfl) ?_)

theorem updateByte_modulo (op : BitVec 8 → BitVec 8 → BitVec 8 × BitVec 8) {dst : BitVec 8 → Prog Res}
    (hdst : ∀ tmp, KeepsModulo (dst tmp)) (n_offset : BitVec 8) : KeepsModulo (updateByte X op dst n_offset) := by
  refine KeepsModulo.bind (.of_none fun _ _ _ _ _ => rfl) fun w => ?_
  refine KeepsModulo.bind (.of_none fun _ _ _ _ _ => rfl) fun v => ?_
  refine KeepsModulo.bind (.of_none fun _ _ _ _ _ => rfl) fun tmp => ?_
  refine KeepsModulo.bind (hdst tmp) fun res => ?_
  by_cases hres : res = .go
  · simpa only [if_pos hres] using .of_none fun _ _ _ _ _ => rfl
  · simpa only [if_neg hres] using .of_none fun _ _ _ _ _ => rfl

theorem inst_XXcb_modulo : KeepsModulo (inst_XXcb X) := by
  refine KeepsModulo.bind (.of_none fun _ _ _ _ _ => rfl) fun n_offset => ?_
  refine KeepsModulo.bind (.of_none fun _ _ _ _ _ => rfl) fun code => ?_
  refine KeepsModulo.bind (.of_none fun _ _ _ _ _ => rfl) fun _ => ?_
  have hset : KeepsModulo (inst_XXcb_set X n_offset code) := by
    refine updateByte_modulo X _ (fun tmp => ?_) n_offset
    apply KeepsModulo.switchGo
    repeat' (first | exact KeepsModulo.nil
                   | refine KeepsModulo.cons (.of_none fun _ _ _ _ _ => rfl) ?_)
  have hbit : KeepsModulo (inst_XXcb_bit X n_offset code) :=
    updateByte_modulo X _ (fun _ => .of_none fun _ _ _ _ _ => rfl) n_offset
  have hcopy : ∀ op base code', KeepsModulo (updateByte X op (copyOut · base code') n_offset) :=
    fun op base code' => updateByte_modulo X op (fun tmp => copyOut_modulo tmp base code') n_offset
  refine KeepsModulo.switch ?_ (.of_none fun _ _ _ _ _ => rfl)
  -- the eight shifts
  iterate 8 refine KeepsModulo.cons (hcopy _ _ _) ?_
  refine List.forall_mem_cons.mpr ⟨hbit, List.forall_mem_cons.mpr ⟨hcopy _ _ _, ?_⟩⟩
  exact List.forall_mem_cons.mpr ⟨hset, List.forall_mem_nil _⟩

theorem inst_Xd_modulo : KeepsModulo (inst_Xd X) := by
  refine KeepsModulo.bind (.of_none fun _ _ _ _ _ => rfl) fun code => ?_
  refine KeepsModulo.switch ?_ (.of_none fun _ _ _ _ _ => rfl)
  repeat' (first | exact KeepsModulo.nil | refine KeepsModulo.cons ?_ ?_)
  any_goals with_reducible exact inst_XXcb_modulo X
  any_goals exact .of_none fun _ _ _ _ _ => rfl
  all_goals
    apply KeepsModulo.switchGo
    repeat' (first | exact KeepsModulo.nil | refine KeepsModulo.cons (.of_none fun _ _ _ _ _ => rfl) ?_)

end Index

section Tables

variable (code : BitVec 8)

theorem inst_ld_modulo : KeepsModulo (inst_ld code) := by
  unfold inst_ld
  split
  · exact .of_none fun _ _ _ _ _ => rfl
  apply KeepsModulo.switchGo
  repeat' (first | exact KeepsModulo.nil
                 | refine KeepsModulo.cons (.of_none fun _ _ _ _ _ => rfl) ?_)

theorem inst_ret_modulo : KeepsModulo (inst_ret code) := by
  have hret : ∀ c, KeepsModulo (retIf c) := by
    intro c
    cases c <;> exact .of_none fun _ _ _ _ _ => rfl
  apply KeepsModulo.switchGo
  repeat' (first | exact KeepsModulo.nil
                 | refine KeepsModulo.cons (.of_none fun _ _ _ _ _ => rfl) ?_
                 | refine KeepsModulo.cons (.bind (.of_none fun _ _ _ _ _ => rfl) fun _ => hret _) ?_)

theorem inst_call_modulo : KeepsModulo (inst_call code) := by
  have hcall : ∀ c, KeepsModulo (callIf c) := by
    intro c
    cases c <;> exact .of_none fun _ _ _ _ _ => rfl
  apply KeepsModulo.switchGo
  repeat' (first | exact KeepsModulo.nil
                 | refine KeepsModulo.cons (.of_none fun _ _ _ _ _ => rfl) ?_
                 | refine KeepsModulo.cons (.bind (.of_none fun _ _ _ _ _ => rfl) fun _ => hcall _) ?_)

theorem inst_jp_modulo : KeepsModulo (inst_jp code) := by
  have hjp : ∀ c, KeepsModulo (jpIf c) := by
    intro c
    cases c <;> exact .of_none fun _ _ _ _ _ => rfl
  apply KeepsModulo.switchGo
  repeat' (first | exact KeepsModulo.nil
                 | refine KeepsModulo.cons (.of_none fun _ _ _ _ _ => rfl) ?_
                 | refine KeepsModulo.cons (.bind (.of_none fun _ _ _ _ _ => rfl) fun _ => hjp _) ?_)

theorem jrIf_modulo (c : Bool) (j : BitVec 8) : KeepsModulo (jrIf c j) := by
  cases c <;> exact .of_none fun _ _ _ _ _ => rfl

theorem inst_djnz_modulo : KeepsModulo inst_djnz :=
  KeepsModulo.go (.bind (.of_none fun _ _ _ _ _ => rfl) fun _ => .bind (.of_none fun _ _ _ _ _ => rfl) fun _ =>
    .bind (.of_none fun _ _ _ _ _ => rfl) fun _ => .bind (.of_none fun _ _ _ _ _ => rfl) fun _ => jrIf_modulo _ _)

theorem inst_jr_modulo : KeepsModulo (inst_jr code) := by
  refine .bind (.of_none fun _ _ _ _ _ => rfl) fun j => KeepsModulo.switchGo ?_
  repeat' (first | exact KeepsModulo.nil | refine KeepsModulo.cons (jrIf_modulo _ _) ?_
                 | refine KeepsModulo.cons (.bind (.of_none fun _ _ _ _ _ => rfl) fun _ => jrIf_modulo _ _) ?_)

theorem inst_rst_modulo : KeepsModulo (inst_rst code) := by
  have hout : ∀ A : BitVec 8, KeepsModulo (if A = 0 then return .exit else if A = 1 then do
      let l ← byte .hl_l
      go (modify fun s => { s with out := s.out ++ [l] })
    else return .go : Prog Res) := by
    intro A
    split
    · exact .of_none fun _ _ _ _ _ => rfl
    split <;> exact .of_none fun _ _ _ _ _ => rfl
  unfold inst_rst
  split
  · exact .bind (.of_none fun _ _ _ _ _ => rfl) hout
  apply KeepsModulo.switchGo
  repeat' (first | exact KeepsModulo.nil
                 | refine KeepsModulo.cons (.of_none fun _ _ _ _ _ => rfl) ?_)

end Tables

/-- No function of `inst.cc` makes a dummy cell. -/
theorem dispatch_modulo (code : BitVec 8) : KeepsModulo (dispatch code) := by
  have hdd : KeepsModulo inst_dd := inst_Xd_modulo .IX
  have hfd : KeepsModulo inst_fd := inst_Xd_modulo .IY
  refine KeepsModulo.switch ?_ (.of_none fun _ _ _ _ _ => rfl)
  repeat' (first | exact KeepsModulo.nil | refine KeepsModulo.cons ?_ ?_)
  any_goals with_reducible first
    | exact inst_ld_modulo code
    | exact inst_djnz_modulo
    | exact inst_jr_modulo code
    | exact inst_ret_modulo code
    | exact inst_jp_modulo code
    | exact inst_call_modulo code
    | exact inst_rst_modulo code
    | exact inst_cb_modulo
    | exact inst_ed_modulo
    | exact hdd
    | exact hfd
  any_goals exact .of_none fun _ _ _ _ _ => rfl
  all_goals
    apply KeepsModulo.switchGo
    repeat' (first | exact KeepsModulo.nil | refine KeepsModulo.cons (.of_none fun _ _ _ _ _ => rfl) ?_)

/-- Without a dummy cell the machine stays without one. -/
theorem exec_inst_modulo : KeepsModulo exec_inst :=
  .bind (.of_none fun _ _ _ _ _ => rfl) fun code => .bind (.of_none fun _ _ _ _ _ => rfl) fun _ => dispatch_modulo code

end Ucsim.Z80
