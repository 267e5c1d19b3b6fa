import Ucsim.Xa.Exec
import Ucsim.Logic.Stack

/-!
# The stack of the XA

A list of registers is pushed from the last to the first and popped from the first to the last. `POP` of a list leaves SP
where it is, unless SP is in the list. A word of which one byte is the last of a memory loses the other one.
-/

namespace Ucsim.Xa

open Logic

/-! ## Words in the memories -/

namespace Machine

variable (s : Machine) (a b v : BitVec 16)

/-- What is read where `v` has been stored. -/
def reread : BitVec 16 :=
  if a.toNat = 0x1fff then s.iram.dummy 1 ++ low v else if a.toNat = 0xffff then s.xram.dummy 1 ++ low v else v

/-- The word is read as it has been stored. -/
def Rereads : Prop :=
  (a.toNat = 0x1fff → s.iram.dummy 1 = high v) ∧ (a.toNat = 0xffff → s.xram.dummy 1 = high v)

theorem reread_eq_iff : s.reread a v = v ↔ s.Rereads a v := by
  have happend : ∀ h : BitVec 8, h ++ low v = v ↔ h = high v := fun h =>
    ⟨fun heq => (high_append h (low v)).symm.trans (congrArg high heq), fun heq => heq ▸ high_append_low v⟩
  unfold reread Rereads
  split_ifs with hiram hxram
  · rw [happend]
    exact ⟨fun h => ⟨fun _ => h, fun hx => by omega⟩, fun h => h.1 hiram⟩
  · rw [happend]
    exact ⟨fun h => ⟨fun hi => absurd hi hiram, fun _ => h⟩, fun h => h.2 hxram⟩
  · exact ⟨fun _ => ⟨fun hi => absurd hi hiram, fun hx => absurd hx hxram⟩, fun _ => rfl⟩

theorem low_reread : low (s.reread a v) = low v := by
  unfold reread
  split_ifs
  · exact low_append _ _
  · exact low_append _ _
  · rfl

@[simp] theorem setMem2_sfr (addr : Int) : (s.setMem2 addr v).sfr = s.sfr := by
  unfold setMem2
  split <;> rfl

theorem setMem2_mem2 : (s.setMem2 a.toNat v).mem2 a.toNat = s.reread a v := by
  have ha := a.isLt
  unfold setMem2 mem2 reread
  split_ifs <;> dsimp only
  · exact Mem.set2_get2_last (by omega) (by omega) (by omega)
  · omega
  · exact Mem.set2_get2 (by omega) (by omega)
  · omega
  · exact Mem.set2_get2_last (by omega) (by omega) (by omega)
  · exact Mem.set2_get2 (by omega) (by omega)

theorem setMem2_mem2_of_apart (hapart : a.toNat + 1 < b.toNat ∨ b.toNat + 1 < a.toNat) :
    (s.setMem2 a.toNat v).mem2 b.toNat = s.mem2 b.toNat := by
  have ha := a.isLt
  have hb := b.isLt
  unfold setMem2 mem2
  split_ifs <;> dsimp only
  · exact Mem.set2_get2_of_apart (by omega) (by omega) (by omega) (by omega)
  · exact Mem.set2_get2_of_apart (by omega) (by omega) (by omega) (by omega)

theorem setMem2_iram_dummy (h : a.toNat ≠ 0x1fff) : (s.setMem2 a.toNat v).iram.dummy = s.iram.dummy := by
  unfold setMem2
  split_ifs
  · dsimp only
    exact Mem.set2_dummy v (by omega)
  · rfl

theorem setMem2_xram_dummy (h : a.toNat ≠ 0xffff) : (s.setMem2 a.toNat v).xram.dummy = s.xram.dummy := by
  have ha := a.isLt
  unfold setMem2
  split_ifs
  · rfl
  · dsimp only
    exact Mem.set2_dummy v (by omega)

/-- A store elsewhere does not change what a dummy cell is going to hold. -/
theorem reread_of_setMem2 (hne : a ≠ b) (w : BitVec 16) : (s.setMem2 a.toNat w).reread b v = s.reread b v := by
  have hnat : a.toNat ≠ b.toNat := fun heq => hne (BitVec.eq_of_toNat_eq heq)
  unfold reread
  by_cases hiram : b.toNat = 0x1fff
  · rw [if_pos hiram, if_pos hiram, setMem2_iram_dummy _ _ _ (hiram ▸ hnat)]
  · rw [if_neg hiram, if_neg hiram]
    by_cases hxram : b.toNat = 0xffff
    · rw [if_pos hxram, if_pos hxram, setMem2_xram_dummy _ _ _ (hxram ▸ hnat)]
    · rw [if_neg hxram, if_neg hxram]

theorem low_mem2 : low (s.mem2 a.toNat) = s.mem1 a.toNat := by
  unfold mem2 mem1
  split <;> exact low_append _ _

end Machine

/-! ## Registers -/

section Registers

variable (s : Machine) (code r q sp w : BitVec 16)

/-- What is pushed for a register. -/
def Machine.regValue : BitVec 16 := if IsWord code then s.wordReg r else (s.byteReg r).setWidth 16

/-- What a register takes of a word. -/
def taken : BitVec 16 := if IsWord code then w else (low w).setWidth 16

/-- A register is loaded. -/
def Machine.setReg : Machine :=
  if IsWord code then
    (s.setDirect (REGS_OFFSET + r <<< 1) (low w)).setDirect (REGS_OFFSET + r <<< 1 + 1) (high w)
  else s.setDirect (REGS_OFFSET + r) (low w)

/-- The cells of a register. -/
def regCells : List (BitVec 16) :=
  if IsWord code then [REGS_OFFSET + r <<< 1, REGS_OFFSET + r <<< 1 + 1] else [REGS_OFFSET + r]

theorem pushReg_run : (pushReg code r sp).run s = (sp - 2, s.setMem2 (sp - 2).toNat (s.regValue code r)) := by
  unfold pushReg Machine.regValue
  split <;> rfl

theorem setDirect_mem2 (addr : BitVec 16) (val : BitVec 8) (a : Int) : (s.setDirect addr val).mem2 a = s.mem2 a := rfl

/-- A word of the memory goes to a direct address. -/
theorem set_word_direct_get2 (addr : BitVec 16) (a : Int) : (set_word_direct addr (get2 a)).run s =
    ((), (s.setDirect addr (low (s.mem2 a))).setDirect (addr + 1) (high (s.mem2 a))) := by
  have hget : ∀ t : Machine, (get2 a).run t = (t.mem2 a, t) := fun _ => rfl
  unfold set_word_direct
  rw [run_bind_of (hget s)]
  change ((get2 a >>= fun v => set_byte_direct (addr + 1) (high v)).run (s.setDirect addr (low (s.mem2 a)))) = _
  rw [run_bind_of (hget _), setDirect_mem2]
  rfl

theorem popReg_run : (popReg code r sp).run s = (sp + 2, s.setReg code r (s.mem2 sp.toNat)) := by
  unfold popReg Machine.setReg
  split
  · have hset : (set_reg2 r (get2 sp.toNat)).run s = _ := set_word_direct_get2 s (REGS_OFFSET + r <<< 1) sp.toNat
    change (set_reg2 r (get2 sp.toNat) >>= fun _ => pure (sp + 2)).run s = _
    rw [run_bind_of hset]
    rfl
  · rw [Machine.low_mem2]
    rfl

variable {s code r q w}

theorem wordAddr_toNat (h : r.toNat < 16) : (REGS_OFFSET + r <<< 1).toNat = 0x800 + 2 * r.toNat := by
  unfold REGS_OFFSET
  rw [BitVec.toNat_add, BitVec.toNat_shiftLeft, Nat.shiftLeft_eq]
  change (0x800 + r.toNat * 2 ^ 1 % 2 ^ 16) % 2 ^ 16 = _
  omega

theorem byteAddr_toNat (h : r.toNat < 16) : (REGS_OFFSET + r).toNat = 0x800 + r.toNat := by
  unfold REGS_OFFSET
  rw [BitVec.toNat_add]
  change (0x800 + r.toNat) % 2 ^ 16 = _
  omega

theorem ne_succ (c : BitVec 16) : c ≠ c + 1 := by
  intro h
  have hnat := congrArg BitVec.toNat h
  rw [BitVec.toNat_add] at hnat
  change c.toNat = (c.toNat + 1) % 2 ^ 16 at hnat
  omega

theorem setReg_sfr_of_not_mem {c : BitVec 16} (h : c ∉ regCells code r) : (s.setReg code r w).sfr c = s.sfr c := by
  unfold regCells at h
  unfold Machine.setReg
  split_ifs with hword
  · rw [if_pos hword] at h
    simp only [List.mem_cons, List.not_mem_nil, or_false, not_or] at h
    rw [Machine.setDirect_of_ne _ h.2, Machine.setDirect_of_ne _ h.1]
  · rw [if_neg hword, List.mem_singleton] at h
    exact Machine.setDirect_of_ne _ h _

theorem setReg_mem2 (a : Int) : (s.setReg code r w).mem2 a = s.mem2 a := by
  unfold Machine.setReg
  split <;> rfl

theorem setReg_regValue : (s.setReg code r w).regValue code r = taken code w := by
  unfold Machine.regValue Machine.setReg taken
  split_ifs with hword
  · unfold Machine.wordReg Machine.direct2
    rw [Machine.setDirect_self, Machine.setDirect_of_ne _ (ne_succ _), Machine.setDirect_self, high_append_low]
  · exact congrArg (BitVec.setWidth 16) (Machine.setDirect_self _ _ _)

/-- A register is what its cells hold. -/
theorem regValue_congr {s t : Machine} (h : ∀ c ∈ regCells code r, t.sfr c = s.sfr c) :
    t.regValue code r = s.regValue code r := by
  unfold regCells at h
  unfold Machine.regValue
  split_ifs with hword
  · rw [if_pos hword] at h
    unfold Machine.wordReg Machine.direct2
    rw [h _ (by simp), h _ (by simp)]
  · rw [if_neg hword] at h
    exact congrArg (BitVec.setWidth 16) (h _ (by simp))

theorem regCells_disjoint (hr : r.toNat < 16) (hq : q.toNat < 16) (hne : r ≠ q) {c : BitVec 16}
    (hc : c ∈ regCells code q) : c ∉ regCells code r := by
  have hnat : r.toNat ≠ q.toNat := fun heq => hne (BitVec.eq_of_toNat_eq heq)
  have hnext : ∀ x : BitVec 16, x.toNat < 16 → (REGS_OFFSET + x <<< 1 + 1).toNat = 0x800 + 2 * x.toNat + 1 := by
    intro x hx
    rw [BitVec.toNat_add, wordAddr_toNat hx]
    change (0x800 + 2 * x.toNat + 1) % 2 ^ 16 = _
    omega
  unfold regCells at hc ⊢
  split_ifs at hc ⊢ with hword
  · simp only [List.mem_cons, List.not_mem_nil, or_false] at hc ⊢
    rw [← BitVec.toNat_inj, ← BitVec.toNat_inj, wordAddr_toNat hq, hnext q hq] at hc
    rw [← BitVec.toNat_inj, ← BitVec.toNat_inj, wordAddr_toNat hr, hnext r hr]
    omega
  · rw [List.mem_singleton, ← BitVec.toNat_inj, byteAddr_toNat hq] at hc
    rw [List.mem_singleton, ← BitVec.toNat_inj, byteAddr_toNat hr]
    omega

end Registers

/-! ## Lists of registers -/

/-- The address of the word `j` above `sp`. -/
def frame (sp : BitVec 16) (j : Nat) : BitVec 16 := sp + BitVec.ofNat 16 (2 * j)

section Lists

variable {code sp : BitVec 16} {rlist : BitVec 8} {s : Machine}

theorem frame_zero (sp : BitVec 16) : frame sp 0 = sp := BitVec.add_zero sp

theorem frame_succ (sp : BitVec 16) (j : Nat) : frame (sp + 2) j = frame sp (j + 1) := by
  unfold frame
  rw [BitVec.add_assoc, Nat.mul_succ, Nat.add_comm, BitVec.ofNat_add]
  rfl

theorem frame_toNat (sp : BitVec 16) (j : Nat) : (frame sp j).toNat = (sp.toNat + 2 * j) % 0x10000 := by
  unfold frame
  rw [BitVec.toNat_add, BitVec.toNat_ofNat]
  omega

/-- Two frames have no byte in common. -/
theorem frame_apart (sp : BitVec 16) {j k : Nat} (hjk : j < k) (hk : k < 0x1000) :
    (frame sp j).toNat + 1 < (frame sp k).toNat ∨ (frame sp k).toNat + 1 < (frame sp j).toNat := by
  have hsp := sp.isLt
  rw [frame_toNat, frame_toNat]
  omega

/-- The registers are pushed, the last one first. -/
def pushRegs (code : BitVec 16) : List (BitVec 16) → BitVec 16 → Prog (BitVec 16)
  | [], sp => return sp
  | r :: rs, sp => do pushReg code r (← pushRegs code rs sp)

/-- The registers are popped, the first one first. -/
def popRegs (code : BitVec 16) : List (BitVec 16) → BitVec 16 → Prog (BitVec 16)
  | [], sp => return sp
  | r :: rs, sp => do popRegs code rs (← popReg code r sp)

/-- The registers of a list of bits. -/
def registers (code : BitVec 16) (rlist : BitVec 8) (bits : List Nat) : List (BitVec 16) :=
  (bits.filter rlist.getLsbD).map (listed code)

theorem registers_cons_of_set {bit : Nat} (bits : List Nat) (h : rlist.getLsbD bit = true) :
    registers code rlist (bit :: bits) = listed code bit :: registers code rlist bits := by
  unfold registers
  rw [List.filter_cons_of_pos h, List.map_cons]

theorem registers_cons_of_clear {bit : Nat} (bits : List Nat) (h : rlist.getLsbD bit = false) :
    registers code rlist (bit :: bits) = registers code rlist bits := by
  unfold registers
  rw [List.filter_cons_of_neg (by rw [h]; decide)]

theorem pushBit_of_set {bit : Nat} (h : rlist.getLsbD bit = true) (sp : BitVec 16) :
    pushBit code rlist bit sp = pushReg code (listed code bit) sp := if_pos h

theorem pushBit_of_clear {bit : Nat} (h : rlist.getLsbD bit = false) (sp : BitVec 16) :
    pushBit code rlist bit sp = pure sp := if_neg (by rw [h]; decide)

theorem popBit_of_set {bit : Nat} (h : rlist.getLsbD bit = true) (sp : BitVec 16) :
    popBit code rlist bit sp = popReg code (listed code bit) sp := if_pos h

theorem popBit_of_clear {bit : Nat} (h : rlist.getLsbD bit = false) (sp : BitVec 16) :
    popBit code rlist bit sp = pure sp := if_neg (by rw [h]; decide)

theorem popList_eq (bits : List Nat) (sp : BitVec 16) :
    popList code rlist bits sp = popRegs code (registers code rlist bits) sp := by
  induction bits generalizing sp with
  | nil => rfl
  | cons bit bits ih =>
    unfold popList
    cases h : rlist.getLsbD bit with
    | true =>
      rw [registers_cons_of_set bits h, popBit_of_set h]
      exact congrArg (popReg code (listed code bit) sp >>= ·) (funext ih)
    | false =>
      rw [registers_cons_of_clear bits h, popBit_of_clear h, pure_bind, ih]

theorem pushList_append (bits : List Nat) (bit : Nat) (sp : BitVec 16) :
    pushList code rlist (bits ++ [bit]) sp = pushList code rlist bits sp >>= pushBit code rlist bit := by
  induction bits generalizing sp with
  | nil =>
    change pushBit code rlist bit sp >>= pure = pure sp >>= pushBit code rlist bit
    rw [bind_pure, pure_bind]
  | cons b bits ih =>
    rw [List.cons_append]
    unfold pushList
    rw [bind_assoc]
    exact congrArg (pushBit code rlist b sp >>= ·) (funext ih)

theorem pushList_eq (bits : List Nat) (sp : BitVec 16) :
    pushList code rlist bits.reverse sp = pushRegs code (registers code rlist bits) sp := by
  induction bits with
  | nil => rfl
  | cons bit bits ih =>
    rw [List.reverse_cons, pushList_append, ih]
    cases h : rlist.getLsbD bit with
    | true =>
      rw [registers_cons_of_set bits h]
      exact congrArg (pushRegs code (registers code rlist bits) sp >>= ·) (funext (pushBit_of_set h))
    | false =>
      have hpure : pushBit code rlist bit = pure := funext (pushBit_of_clear h)
      rw [registers_cons_of_clear bits h, hpure, bind_pure]

/-- The registers are on the stack at `sp`. What the dummy cells are going to hold elsewhere is as it was. -/
structure OnStack (code : BitVec 16) (s : Machine) (regs : List (BitVec 16)) (sp : BitVec 16) (t : Machine) : Prop where
  sfr : t.sfr = s.sfr
  words : ∀ j r, regs[j]? = some r → t.mem2 (frame sp j).toNat = s.reread (frame sp j) (s.regValue code r)
  others : ∀ a v, (∀ j < regs.length, frame sp j ≠ a) → t.reread a v = s.reread a v

theorem regValue_of_sfr {s t : Machine} (h : t.sfr = s.sfr) (r : BitVec 16) : t.regValue code r = s.regValue code r :=
  regValue_congr fun _ _ => congrFun h _

theorem OnStack.cons {regs : List (BitVec 16)} {t : Machine} {r : BitVec 16} (h : OnStack code s regs (sp + 2) t)
    (hlen : regs.length < 0x100) : OnStack code s (r :: regs) sp (t.setMem2 sp.toNat (t.regValue code r)) := by
  have hne : ∀ j < regs.length, frame (sp + 2) j ≠ sp := by
    intro j hj heq
    have hapart := frame_apart sp (Nat.succ_pos j) (by omega)
    rw [← frame_succ, heq, frame_zero] at hapart
    omega
  refine ⟨by rw [Machine.setMem2_sfr, h.sfr], fun j q hq => ?_, fun a v ha => ?_⟩
  · cases j with
    | zero =>
      rw [List.getElem?_cons_zero, Option.some.injEq] at hq
      subst hq
      rw [frame_zero, Machine.setMem2_mem2, h.others _ _ hne, regValue_of_sfr h.sfr]
    | succ j =>
      rw [List.getElem?_cons_succ] at hq
      have hj : j < regs.length := (List.getElem?_eq_some_iff.mp hq).1
      have hapart := frame_apart sp (Nat.succ_pos j) (by omega)
      rw [frame_zero] at hapart
      rw [Machine.setMem2_mem2_of_apart _ _ _ _ hapart, ← frame_succ]
      exact h.words j q hq
  · have hsp : sp ≠ a := by
      have h0 := ha 0 (by rw [List.length_cons]; omega)
      rwa [frame_zero] at h0
    rw [Machine.reread_of_setMem2 _ _ _ _ hsp]
    refine h.others a v fun j hj => ?_
    rw [frame_succ]
    exact ha (j + 1) (by rw [List.length_cons]; omega)

/-- SP below so many words. -/
def below (sp : BitVec 16) (n : Nat) : BitVec 16 := sp - BitVec.ofNat 16 (2 * n)

theorem below_zero (sp : BitVec 16) : below sp 0 = sp := BitVec.sub_zero sp

theorem below_toNat (sp : BitVec 16) (n : Nat) : (below sp n).toNat = (sp.toNat + (0x10000 - 2 * n % 0x10000)) % 0x10000 := by
  unfold below
  rw [BitVec.toNat_sub, BitVec.toNat_ofNat, Nat.add_comm]

theorem below_succ (sp : BitVec 16) (n : Nat) : below sp (n + 1) = below sp n - 2 := by
  apply BitVec.eq_of_toNat_eq
  rw [BitVec.toNat_sub, below_toNat, below_toNat]
  change _ = (2 ^ 16 - 2 + _) % 2 ^ 16
  omega

theorem pushRegs_spec (code : BitVec 16) (regs : List (BitVec 16)) (hlen : regs.length ≤ 0x100) (s : Machine) (sp : BitVec 16) :
    ∃ t, (pushRegs code regs sp).run s = (below sp regs.length, t) ∧ OnStack code s regs (below sp regs.length) t := by
  induction regs with
  | nil =>
    refine ⟨s, ?_, rfl, fun j r h => absurd h (by simp), fun _ _ _ => rfl⟩
    rw [List.length_nil, below_zero]
    rfl
  | cons r regs ih =>
    rw [List.length_cons] at hlen ⊢
    obtain ⟨t, hrun, ht⟩ := ih (by omega)
    have hup : below sp (regs.length + 1) + 2 = below sp regs.length := by
      rw [below_succ, BitVec.sub_add_cancel]
    refine ⟨t.setMem2 (below sp (regs.length + 1)).toNat (t.regValue code r), ?_, OnStack.cons (hup ▸ ht) (by omega)⟩
    unfold pushRegs
    rw [run_bind_of hrun, pushReg_run, below_succ]

/-- What popping the registers does. -/
structure Loaded (code : BitVec 16) (s : Machine) (regs : List (BitVec 16)) (sp : BitVec 16) (t : Machine) : Prop where
  values : ∀ j r, regs[j]? = some r → t.regValue code r = taken code (s.mem2 (frame sp j).toNat)
  others : ∀ c, (∀ r ∈ regs, c ∉ regCells code r) → t.sfr c = s.sfr c

theorem popRegs_spec (code : BitVec 16) (regs : List (BitVec 16)) (hlt : ∀ r ∈ regs, r.toNat < 16) (hnodup : regs.Nodup) (s : Machine)
    (sp : BitVec 16) : ∃ t, (popRegs code regs sp).run s = (frame sp regs.length, t) ∧ Loaded code s regs sp t := by
  induction regs generalizing s sp with
  | nil => exact ⟨s, by rw [List.length_nil, frame_zero]; rfl, fun j r h => absurd h (by simp), fun _ _ => rfl⟩
  | cons r regs ih =>
    obtain ⟨hnot, hnodup⟩ := List.nodup_cons.mp hnodup
    obtain ⟨hr, hlt⟩ := List.forall_mem_cons.mp hlt
    obtain ⟨t, hrun, ht⟩ := ih hlt hnodup (s.setReg code r (s.mem2 sp.toNat)) (sp + 2)
    refine ⟨t, ?_, fun j q hq => ?_, fun c hc => ?_⟩
    · unfold popRegs
      rw [run_bind_of (popReg_run s code r sp), hrun, frame_succ, List.length_cons]
    · cases j with
      | zero =>
        rw [List.getElem?_cons_zero, Option.some.injEq] at hq
        subst hq
        have hkept : t.regValue code r = (s.setReg code r (s.mem2 sp.toNat)).regValue code r :=
          regValue_congr fun c hc => ht.others c fun q hq hmem =>
            regCells_disjoint hr (hlt q hq) (fun heq => hnot (heq ▸ hq)) hmem hc
        rw [hkept, setReg_regValue, frame_zero]
      | succ j =>
        rw [List.getElem?_cons_succ] at hq
        rw [ht.values j q hq, setReg_mem2, frame_succ]
    · obtain ⟨hcell, hothers⟩ := List.forall_mem_cons.mp hc
      rw [ht.others c hothers, setReg_sfr_of_not_mem hcell]

end Lists

/-! ## A list pushed and popped -/

def listBits : List Nat := [0, 1, 2, 3, 4, 5, 6, 7]

/-- The cells of SP. -/
def SPL : BitVec 16 := 0x80e

def SPH : BitVec 16 := 0x80f

section Instructions

variable {s s₂ : Machine} {code code' : BitVec 16} {rlist : BitVec 8}

/-- SP is loaded. -/
def Machine.setSP (s : Machine) (v : BitVec 16) : Machine := (s.setDirect SPL (low v)).setDirect SPH (high v)

theorem set_sp_run (s : Machine) (v : BitVec 16) : (set_sp v).run s = ((), s.setSP v) := rfl

theorem setSP_sp (s : Machine) (v : BitVec 16) : (s.setSP v).sp = v := by
  change (s.setSP v).sfr SPH ++ (s.setSP v).sfr SPL = v
  unfold Machine.setSP
  rw [Machine.setDirect_self, Machine.setDirect_of_ne _ (show SPL ≠ SPH by decide), Machine.setDirect_self,
    high_append_low]

theorem setSP_sfr (s : Machine) (v : BitVec 16) {c : BitVec 16} (hL : c ≠ SPL) (hH : c ≠ SPH) :
    (s.setSP v).sfr c = s.sfr c := by
  unfold Machine.setSP
  rw [Machine.setDirect_of_ne _ hH, Machine.setDirect_of_ne _ hL]

theorem listed_toNat {bit : Nat} (h : bit < 8) : (listed code bit).toNat = (upperHalf code).toNat + bit := by
  unfold listed upperHalf
  rw [BitVec.toNat_add, BitVec.toNat_ofNat]
  split_ifs
  · change (8 + bit % 2 ^ 16) % 2 ^ 16 = 8 + bit
    omega
  · change (0 + bit % 2 ^ 16) % 2 ^ 16 = 0 + bit
    omega

theorem upperHalf_le (code : BitVec 16) : (upperHalf code).toNat ≤ 8 := by
  unfold upperHalf
  split <;> decide

theorem registers_lt {r : BitVec 16} (hr : r ∈ registers code rlist listBits) : r.toNat < 16 := by
  obtain ⟨bit, hbit, rfl⟩ := List.mem_map.mp hr
  have hlt : bit < 8 := (show ∀ b ∈ listBits, b < 8 by decide) bit (List.mem_of_mem_filter hbit)
  have hhalf := upperHalf_le code
  rw [listed_toNat hlt]
  omega

theorem registers_length (code : BitVec 16) (rlist : BitVec 8) : (registers code rlist listBits).length ≤ 8 := by
  unfold registers
  rw [List.length_map]
  exact List.length_filter_le _ listBits

theorem registers_nodup (code : BitVec 16) (rlist : BitVec 8) : (registers code rlist listBits).Nodup := by
  refine List.Nodup.map_on ?_ (List.Nodup.filter _ (show listBits.Nodup by decide))
  intro a ha b hb heq
  have hbits : ∀ b ∈ listBits, b < 8 := by decide
  have hnat := congrArg BitVec.toNat heq
  rw [listed_toNat (hbits a (List.mem_of_mem_filter ha)), listed_toNat (hbits b (List.mem_of_mem_filter hb))] at hnat
  omega

theorem go_run (body : Prog Unit) (s : Machine) : ((go body).run s).2 = (body.run s).2 := rfl

/-- `PUSH` of a list. -/
theorem step_push (h : s.InRange) (hd : s.decoded = some (code, ⟨true, 2, .PUSH, .RLIST⟩)) :
    ∃ t, s.step = t.setSP (below s.sp (registers code (s.codeAt 1) listBits).length) ∧
      OnStack code s (registers code (s.codeAt 1) listBits)
        (below s.sp (registers code (s.codeAt 1) listBits).length) t := by
  have hlen := registers_length code (s.codeAt 1)
  obtain ⟨t, hrun, ht⟩ := pushRegs_spec code (registers code (s.codeAt 1) listBits) (by omega)
    (s.ticked.advanced 2) s.sp
  refine ⟨t, ?_, ht.sfr, ht.words, ht.others⟩
  have hinst : inst code .RLIST .PUSH = go (inst_PUSH code .RLIST) := rfl
  rw [step_eq hd, (decoded_spec h hd).2, if_pos rfl, hinst, go_run]
  unfold inst_PUSH
  dsimp only
  rw [run_bind_of (get_sp_run _), run_bind_of (Machine.fetch_advanced 1)]
  change ((pushList code (s.codeAt 1) listBits.reverse s.sp >>= set_sp).run (s.ticked.advanced 2)).2 = _
  rw [pushList_eq, run_bind_of hrun, set_sp_run]

/-- `POP` of a list. -/
theorem step_pop (h : s.InRange) (hd : s.decoded = some (code, ⟨true, 2, .POP, .RLIST⟩)) :
    Loaded code s (registers code (s.codeAt 1) listBits) s.sp s.step := by
  obtain ⟨t, hrun, ht⟩ := popRegs_spec code (registers code (s.codeAt 1) listBits)
    (fun r hr => registers_lt hr) (registers_nodup code _) (s.ticked.advanced 2) s.sp
  have hstep : s.step = t := by
    have hinst : inst code .RLIST .POP = go (inst_POP code .RLIST) := rfl
    rw [step_eq hd, (decoded_spec h hd).2, if_pos rfl, hinst, go_run]
    unfold inst_POP
    dsimp only
    rw [run_bind_of (get_sp_run _), run_bind_of (Machine.fetch_advanced 1)]
    change ((popList code (s.codeAt 1) listBits s.sp >>= fun _ => pure ()).run (s.ticked.advanced 2)).2 = _
    rw [popList_eq, run_bind_of hrun]
    rfl
  rw [hstep]
  exact ⟨ht.values, ht.others⟩

theorem and_of_same {bits m : BitVec 16} (h : code &&& bits = code' &&& bits) (hm : bits &&& m = m) :
    code &&& m = code' &&& m := by
  rw [← hm, ← BitVec.and_assoc, h, BitVec.and_assoc]

/-- The size and the half of the registers are those of the other code. -/
theorem same_bits (h : code &&& 0x4800 = code' &&& 0x4800) :
    (IsWord code ↔ IsWord code') ∧ upperHalf code = upperHalf code' := by
  unfold IsWord upperHalf
  rw [and_of_same (m := 0x0800) h (by decide), and_of_same (m := 0x4000) h (by decide)]
  exact ⟨Iff.rfl, rfl⟩

/-- The registers in the list of an instruction. -/
def Machine.regs (s : Machine) (code : BitVec 16) : List (BitVec 16) := registers code (s.codeAt 1) listBits

/-- A `PUSH` of a list at `s`, and a `POP` of the same list at `s₂`, where SP and the words on the stack are still those
that `PUSH` has left. -/
structure ListRun (s s₂ : Machine) (code code' : BitVec 16) : Prop where
  range : s.InRange
  range₂ : s₂.InRange
  push : s.decoded = some (code, ⟨true, 2, .PUSH, .RLIST⟩)
  pop : s₂.decoded = some (code', ⟨true, 2, .POP, .RLIST⟩)
  same : code &&& 0x4800 = code' &&& 0x4800
  list : s₂.codeAt 1 = s.codeAt 1
  sp : s₂.sp = s.step.sp
  kept : ∀ j < (s.regs code).length, s₂.mem2 (frame s₂.sp j).toNat = s.step.mem2 (frame s₂.sp j).toNat

/-- The registers of the list and SP are as before, and the two instructions change no other register. -/
structure ListRestored (s s₂ : Machine) (code : BitVec 16) : Prop where
  registers : ∀ r ∈ s.regs code, s₂.step.regValue code r = s.regValue code r
  sp : s₂.step.sp = s.sp
  pushed : ∀ c, c ≠ SPL → c ≠ SPH → s.step.sfr c = s.sfr c
  popped : ∀ c, c ≠ SPL → c ≠ SPH → (∀ r ∈ s.regs code, c ∉ regCells code r) → s₂.step.sfr c = s₂.sfr c

/-- The list is empty, or what is popped leaves SP as it was. -/
def SPBack (s : Machine) (code : BitVec 16) : Prop :=
  s.regs code = [] ∨ IsWord code ∧ 7 ∈ s.regs code ∨ ¬ IsWord code ∧ 14 ∈ s.regs code ∧
    (15 ∈ s.regs code ∨ high (below s.sp (s.regs code).length) = high s.sp)

/-- When a list is restored. -/
def ListFits (s : Machine) (code : BitVec 16) : Prop :=
  (IsWord code → ∀ j r, (s.regs code)[j]? = some r →
    s.Rereads (frame (below s.sp (s.regs code).length) j) (s.wordReg r)) ∧ SPBack s code

/-- SP is not that of before when it has been moved by the words. -/
theorem low_below_ne (v : BitVec 16) {n : Nat} (hpos : 0 < n) (hn : n ≤ 8) : low (below v n) ≠ low v := by
  have hv := v.isLt
  intro heq
  have hnat := congrArg BitVec.toNat heq
  unfold low at hnat
  rw [BitVec.toNat_setWidth, BitVec.toNat_setWidth, below_toNat] at hnat
  omega

theorem low_sp (s : Machine) : low s.sp = s.sfr SPL := low_append _ _

theorem high_sp (s : Machine) : high s.sp = s.sfr SPH := high_append _ _

theorem sp_eq_iff {s t : Machine} : t.sp = s.sp ↔ t.sfr SPL = s.sfr SPL ∧ t.sfr SPH = s.sfr SPH := by
  constructor
  · intro heq
    rw [← low_sp, ← low_sp, ← high_sp, ← high_sp, heq]
    exact ⟨rfl, rfl⟩
  · intro ⟨hL, hH⟩
    change t.sfr SPH ++ t.sfr SPL = s.sfr SPH ++ s.sfr SPL
    rw [hL, hH]

section ListRuns

variable (h : ListRun s s₂ code code')

include h

theorem ListRun.pop_eq : Loaded code s₂ (s.regs code) (below s.sp (s.regs code).length) s₂.step := by
  obtain ⟨t, hpush, -⟩ := step_push h.range h.push
  obtain ⟨hword, hhalf⟩ := same_bits h.same
  have hsp : s₂.sp = below s.sp (s.regs code).length := by rw [h.sp, hpush, setSP_sp, Machine.regs]
  have hpop := step_pop h.range₂ h.pop
  have hregs : registers code' (s₂.codeAt 1) listBits = s.regs code := by
    unfold Machine.regs registers listed
    rw [hhalf, h.list]
  rw [hregs, hsp] at hpop
  have hcells : ∀ r, regCells code' r = regCells code r := by
    intro r
    unfold regCells
    simp only [hword]
  refine ⟨fun j r hr => ?_, fun c hc => hpop.others c fun r hr => by rw [hcells]; exact hc r hr⟩
  have hvalue := hpop.values j r hr
  unfold Machine.regValue taken at hvalue ⊢
  simpa only [hword] using hvalue

theorem ListRun.sp_eq : s₂.sp = below s.sp (s.regs code).length := by
  obtain ⟨t, hpush, -⟩ := step_push h.range h.push
  rw [h.sp, hpush, setSP_sp]
  rfl

/-- What is popped for a register. -/
theorem ListRun.popped {j : Nat} {r : BitVec 16} (hr : (s.regs code)[j]? = some r) : s₂.step.regValue code r =
    taken code (s.reread (frame (below s.sp (s.regs code).length) j) (s.regValue code r)) := by
  obtain ⟨t, hpush, ht⟩ := step_push h.range h.push
  have hkept := h.kept j (List.getElem?_eq_some_iff.mp hr).1
  rw [h.sp_eq, hpush] at hkept
  rw [h.pop_eq.values j r hr, hkept]
  exact congrArg (taken code) (ht.words j r hr)

theorem ListRun.registers_iff : (∀ r ∈ s.regs code, s₂.step.regValue code r = s.regValue code r) ↔
    (IsWord code → ∀ j r, (s.regs code)[j]? = some r →
      s.Rereads (frame (below s.sp (s.regs code).length) j) (s.wordReg r)) := by
  have hpopped : (∀ r ∈ s.regs code, s₂.step.regValue code r = s.regValue code r) ↔
      ∀ j r, (s.regs code)[j]? = some r →
        taken code (s.reread (frame (below s.sp (s.regs code).length) j) (s.regValue code r)) = s.regValue code r := by
    constructor
    · intro hall j r hr
      rw [← h.popped hr]
      exact hall r (List.mem_of_getElem? hr)
    · intro hall r hr
      obtain ⟨j, hj⟩ := List.mem_iff_getElem?.mp hr
      rw [h.popped hj]
      exact hall j r hj
  rw [hpopped]
  unfold taken Machine.regValue
  by_cases hword : IsWord code
  · simp only [hword, if_true, Machine.reread_eq_iff, forall_const]
  · simp only [hword, if_false, Machine.low_reread, low_setWidth, implies_true, IsEmpty.forall_iff]

theorem ListRun.sp_iff (hregs : ∀ r ∈ s.regs code, s₂.step.regValue code r = s.regValue code r) :
    s₂.step.sp = s.sp ↔ SPBack s code := by
  have hn : (s.regs code).length ≤ 8 := registers_length code _
  have hpop := h.pop_eq
  have hkept : ∀ {q c : BitVec 16}, q.toNat < 16 → q ∉ s.regs code → c ∈ regCells code q →
      s₂.step.sfr c = s₂.sfr c := fun hq hnot hc =>
    hpop.others _ fun r hr => regCells_disjoint (registers_lt hr) hq (fun heq => hnot (heq ▸ hr)) hc
  have hL : s₂.sfr SPL = low (below s.sp (s.regs code).length) := by rw [← low_sp, h.sp_eq]
  have hH : s₂.sfr SPH = high (below s.sp (s.regs code).length) := by rw [← high_sp, h.sp_eq]
  have hmoved : s.regs code ≠ [] → low (below s.sp (s.regs code).length) ≠ s.sfr SPL := fun hne => by
    rw [← low_sp]
    exact low_below_ne s.sp (List.length_pos_iff.mpr hne) hn
  unfold SPBack
  rw [sp_eq_iff]
  by_cases hnil : s.regs code = []
  · have hlength : below s.sp (s.regs code).length = s.sp := by rw [hnil, List.length_nil, below_zero]
    rw [hlength] at hL hH
    have hothers : ∀ c, s₂.step.sfr c = s₂.sfr c := fun c => hpop.others c (by rw [hnil]; exact fun _ => by simp)
    rw [hothers, hothers, hL, hH, low_sp, high_sp]
    exact iff_of_true ⟨rfl, rfl⟩ (.inl hnil)
  by_cases hword : IsWord code
  · have hcells : SPL ∈ regCells code 7 ∧ SPH ∈ regCells code 7 := by
      unfold regCells
      rw [if_pos hword]
      decide
    simp only [hword, not_true_eq_false, false_and, or_false, true_and, hnil, false_or]
    by_cases h7 : 7 ∈ s.regs code
    · have hsp := hregs 7 h7
      unfold Machine.regValue at hsp
      rw [if_pos hword, if_pos hword] at hsp
      exact iff_of_true (sp_eq_iff.mp hsp) h7
    · refine iff_of_false (fun hboth => hmoved hnil ?_) h7
      rw [← hL, ← hkept (by decide) h7 hcells.1, hboth.1]
  · have hbyte : ∀ q ∈ s.regs code, s₂.step.byteReg q = s.byteReg q := by
      intro q hq
      have hvalue := hregs q hq
      unfold Machine.regValue at hvalue
      rw [if_neg hword, if_neg hword] at hvalue
      have hnarrow := congrArg low hvalue
      rwa [low_setWidth, low_setWidth] at hnarrow
    have hcells : SPL ∈ regCells code 14 ∧ SPH ∈ regCells code 15 := by
      unfold regCells
      rw [if_neg hword, if_neg hword]
      decide
    have hlow : s₂.step.sfr SPL = s.sfr SPL ↔ 14 ∈ s.regs code := by
      by_cases h14 : 14 ∈ s.regs code
      · exact iff_of_true (hbyte 14 h14) h14
      · refine iff_of_false (fun heq => hmoved hnil ?_) h14
        rw [← hL, ← hkept (by decide) h14 hcells.1, heq]
    have hhigh : s₂.step.sfr SPH = s.sfr SPH ↔
        15 ∈ s.regs code ∨ high (below s.sp (s.regs code).length) = high s.sp := by
      by_cases h15 : 15 ∈ s.regs code
      · exact iff_of_true (hbyte 15 h15) (.inl h15)
      · rw [hkept (by decide) h15 hcells.2, hH, high_sp]
        exact (or_iff_right h15).symm
    rw [hlow, hhigh]
    simp only [hword, false_and, not_false_eq_true, true_and, hnil, false_or]

theorem list_restored_iff : ListRestored s s₂ code ↔ ListFits s code := by
  obtain ⟨t, hpush, ht⟩ := step_push h.range h.push
  constructor
  · intro hrestored
    exact ⟨h.registers_iff.mp hrestored.registers, (h.sp_iff hrestored.registers).mp hrestored.sp⟩
  · intro ⟨hwords, hback⟩
    have hregs := h.registers_iff.mpr hwords
    refine ⟨hregs, (h.sp_iff hregs).mpr hback, fun c hL hH => ?_, fun c _ _ hc => h.pop_eq.others c hc⟩
    rw [hpush, setSP_sfr _ _ hL hH, ht.sfr]

end ListRuns

/-! ## A direct operand pushed and popped -/

/-- The operand at a direct address. -/
def Machine.directValue (s : Machine) (code addr : BitVec 16) : BitVec 16 :=
  if IsWord code then s.direct2 addr else (s.direct1 addr).setWidth 16

/-- An operand is loaded. -/
def Machine.setDirectValue (s : Machine) (code addr w : BitVec 16) : Machine :=
  if IsWord code then (s.setDirect addr (low w)).setDirect (addr + 1) (high w) else s.setDirect addr (low w)

/-- The address that the instructions use. -/
def Machine.stackAddr (s : Machine) : BitVec 16 := (Operands.DIRECT.number &&& 7) <<< 8 ||| (s.codeAt 2).setWidth 16

theorem eleven_bits (x : BitVec 16) (b : BitVec 8) :
    ((x &&& 7) <<< 8 ||| b.setWidth 16).toNat = 256 * (x &&& 7).toNat + b.toNat := by
  have hb := b.isLt
  have hx : (x &&& 7).toNat ≤ 7 := by
    rw [BitVec.toNat_and]
    exact Nat.and_le_right
  have hmod : (x &&& 7).toNat * 2 ^ 8 % 2 ^ 16 = 2 ^ 8 * (x &&& 7).toNat := by omega
  rw [BitVec.toNat_or, BitVec.toNat_shiftLeft, Nat.shiftLeft_eq, hmod, BitVec.toNat_setWidth,
    Nat.mod_eq_of_lt (by omega), ← Nat.two_pow_add_eq_or_of_lt hb]

theorem stackDirect_run (s : Machine) : stackDirect.run (s.ticked.advanced 2) = (s.stackAddr, s.ticked.advanced 3) := by
  unfold stackDirect
  rw [run_bind_of (Machine.fetch_advanced _)]
  rfl

theorem step_push_direct (h : s.InRange) (hd : s.decoded = some (code, ⟨false, 3, .PUSH, .DIRECT⟩)) :
    s.step = ((s.ticked.advanced 3).setSP (s.sp - 2)).setMem2 (s.sp - 2).toNat
      (((s.ticked.advanced 3).setSP (s.sp - 2)).directValue code s.stackAddr) := by
  have hsp : get_sp.run (s.ticked.advanced 3) = (s.sp, s.ticked.advanced 3) := rfl
  rw [step_eq hd, (decoded_spec h hd).2]
  change ((inst_PUSH code .DIRECT).run (s.ticked.advanced 2)).2 = _
  unfold inst_PUSH Machine.directValue
  dsimp only
  rw [run_bind_of (stackDirect_run s), run_bind_of hsp, run_bind_of (set_sp_run _ _)]
  split
  · rw [run_bind_of (get_word_direct_run _ _), store2_run]
  · rw [run_bind_of (get_byte_direct_run _ _), store2_run]

theorem step_pop_direct (h : s.InRange) (hd : s.decoded = some (code, ⟨false, 3, .POP, .DIRECT⟩)) :
    s.step = ((s.ticked.advanced 3).setDirectValue code s.stackAddr (s.mem2 s.sp.toNat)).setSP (s.sp + 2) := by
  rw [step_eq hd, (decoded_spec h hd).2]
  change ((inst_POP code .DIRECT).run (s.ticked.advanced 2)).2 = _
  unfold inst_POP Machine.setDirectValue
  dsimp only
  rw [run_bind_of (get_sp_run _), run_bind_of (stackDirect_run s)]
  split
  · rw [run_bind_of (set_word_direct_get2 _ _ _)]
    rfl
  · rfl

/-- A `PUSH` of a direct operand at `s`, and a `POP` of the same operand at `s₂`, where SP and the word on the stack are
still those that `PUSH` has left. -/
structure DirectRun (s s₂ : Machine) (code code' : BitVec 16) : Prop where
  range : s.InRange
  range₂ : s₂.InRange
  push : s.decoded = some (code, ⟨false, 3, .PUSH, .DIRECT⟩)
  pop : s₂.decoded = some (code', ⟨false, 3, .POP, .DIRECT⟩)
  same : code &&& 0x0807 = code' &&& 0x0807
  address : s₂.codeAt 2 = s.codeAt 2
  sp : s₂.sp = s.step.sp
  kept : s₂.mem2 s₂.sp.toNat = s.step.mem2 s₂.sp.toNat

/-- The operand and SP are as before. -/
def DirectRestored (s s₂ : Machine) (code : BitVec 16) : Prop :=
  s₂.step.directValue code (s.directAddr code) = s.directValue code (s.directAddr code) ∧ s₂.step.sp = s.sp

/-- When an operand is restored: its address is the one that the instructions use, or nothing has changed it. -/
def DirectFits (s s₂ : Machine) (code : BitVec 16) : Prop :=
  if code &&& 7 = 6 then IsWord code → s.Rereads (s.sp - 2) (s.direct2 (s.directAddr code))
  else s₂.directValue code (s.directAddr code) = s.directValue code (s.directAddr code)

theorem directValue_congr {s t : Machine} {addr : BitVec 16} (hlow : t.sfr addr = s.sfr addr)
    (hhigh : t.sfr (addr + 1) = s.sfr (addr + 1)) : t.directValue code addr = s.directValue code addr := by
  unfold Machine.directValue Machine.direct2 Machine.direct1
  rw [hlow, hhigh]

theorem setDirectValue_self (s : Machine) (addr w : BitVec 16) :
    (s.setDirectValue code addr w).directValue code addr = taken code w := by
  unfold Machine.directValue Machine.setDirectValue taken
  split_ifs
  · unfold Machine.direct2
    rw [Machine.setDirect_self, Machine.setDirect_of_ne _ (ne_succ _), Machine.setDirect_self, high_append_low]
  · exact congrArg (BitVec.setWidth 16) (Machine.setDirect_self _ _ _)

theorem setDirectValue_sfr (s : Machine) {addr c : BitVec 16} (h : c ≠ addr) (h' : c ≠ addr + 1) (w : BitVec 16) :
    (s.setDirectValue code addr w).sfr c = s.sfr c := by
  unfold Machine.setDirectValue
  split_ifs
  · rw [Machine.setDirect_of_ne _ h', Machine.setDirect_of_ne _ h]
  · exact Machine.setDirect_of_ne _ h _

/-- The stack pointer is not at a direct address. -/
theorem setSP_directValue (s : Machine) (code : BitVec 16) {addr : BitVec 16} (v : BitVec 16) (h : addr.toNat < 0x800) :
    (s.setSP v).directValue code addr = s.directValue code addr := by
  have hnext : (addr + 1).toNat = addr.toNat + 1 := by
    rw [BitVec.toNat_add]
    change (addr.toNat + 1) % 2 ^ 16 = _
    omega
  have hne : ∀ c : BitVec 16, c.toNat ≤ 0x800 → c ≠ SPL ∧ c ≠ SPH := by
    intro c hc
    constructor <;> rintro rfl <;> exact absurd hc (by decide)
  obtain ⟨hL, hH⟩ := hne addr (by omega)
  obtain ⟨hL', hH'⟩ := hne (addr + 1) (by omega)
  exact directValue_congr (setSP_sfr _ _ hL hH) (setSP_sfr _ _ hL' hH')

section DirectRuns

variable (h : DirectRun s s₂ code code')

include h

/-- The word that is popped. -/
theorem DirectRun.popped : s₂.sp = s.sp - 2 ∧
    s₂.mem2 s₂.sp.toNat = s.reread (s.sp - 2) (s.directValue code s.stackAddr) := by
  have hpush := step_push_direct h.range h.push
  have haddr : s.stackAddr.toNat < 0x800 := by
    have hbyte := (s.codeAt 2).isLt
    have hdirect : (Operands.DIRECT.number &&& 7).toNat = 6 := by decide
    unfold Machine.stackAddr
    rw [eleven_bits, hdirect]
    omega
  have hsp : s.step.sp = s.sp - 2 := by
    rw [hpush]
    change (((s.ticked.advanced 3).setSP (s.sp - 2)).setMem2 _ _).wordReg 7 = _
    unfold Machine.wordReg Machine.direct2
    rw [Machine.setMem2_sfr]
    exact setSP_sp _ _
  have hsp₂ : s₂.sp = s.sp - 2 := h.sp.trans hsp
  refine ⟨hsp₂, ?_⟩
  rw [h.kept, hsp₂, hpush, Machine.setMem2_mem2, setSP_directValue _ _ _ haddr]
  rfl

theorem DirectRun.step_eq : s₂.step =
    ((s₂.ticked.advanced 3).setDirectValue code s.stackAddr
      (s.reread (s.sp - 2) (s.directValue code s.stackAddr))).setSP s.sp := by
  have haddr : s₂.stackAddr = s.stackAddr := by
    unfold Machine.stackAddr
    rw [h.address]
  have hword : IsWord code ↔ IsWord code' := by
    unfold IsWord
    rw [and_of_same (m := 0x0800) h.same (by decide)]
  obtain ⟨hsp, hpopped⟩ := h.popped
  rw [step_pop_direct h.range₂ h.pop, haddr, hpopped, hsp, BitVec.sub_add_cancel]
  unfold Machine.setDirectValue
  simp only [hword]

theorem direct_restored_iff : DirectRestored s s₂ code ↔ DirectFits s s₂ code := by
  have hbyte := (s.codeAt 2).isLt
  have hdirect : (Operands.DIRECT.number &&& 7).toNat = 6 := by decide
  have hD : (s.directAddr code).toNat = 256 * (code &&& 7).toNat + (s.codeAt 2).toNat := eleven_bits _ _
  have hA : s.stackAddr.toNat = 256 * 6 + (s.codeAt 2).toNat := hdirect ▸ eleven_bits _ _
  have hle : (code &&& 7).toNat ≤ 7 := by
    rw [BitVec.toNat_and]
    exact Nat.and_le_right
  have hvalue := setSP_directValue ((s₂.ticked.advanced 3).setDirectValue code s.stackAddr
      (s.reread (s.sp - 2) (s.directValue code s.stackAddr))) code s.sp (show (s.directAddr code).toNat < 0x800 by omega)
  unfold DirectRestored DirectFits
  rw [h.step_eq, setSP_sp, hvalue]
  by_cases hsix : code &&& 7 = 6
  · have hsame : s.directAddr code = s.stackAddr := by
      apply BitVec.eq_of_toNat_eq
      rw [hD, hA, hsix]
      rfl
    rw [hsame, setDirectValue_self, if_pos hsix, and_iff_left rfl]
    unfold taken Machine.directValue
    by_cases hword : IsWord code
    · simp only [hword, if_true, Machine.reread_eq_iff, forall_const]
    · simp only [hword, if_false, Machine.low_reread, low_setWidth, IsEmpty.forall_iff]
  · have hne : (code &&& 7).toNat ≠ 6 := fun heq => hsix (BitVec.eq_of_toNat_eq heq)
    have hnext : ∀ a : BitVec 16, a.toNat < 0x800 → (a + 1).toNat = a.toNat + 1 := by
      intro a ha
      rw [BitVec.toNat_add]
      change (a.toNat + 1) % 2 ^ 16 = _
      omega
    have hD1 := hnext (s.directAddr code) (by omega)
    have hA1 := hnext s.stackAddr (by omega)
    have happart : ∀ {a b : BitVec 16}, a.toNat ≠ b.toNat → a ≠ b := fun hnat heq => hnat (congrArg BitVec.toNat heq)
    let u := (s₂.ticked.advanced 3).setDirectValue code s.stackAddr (s.reread (s.sp - 2) (s.directValue code s.stackAddr))
    have hlow : u.sfr (s.directAddr code) = s₂.sfr (s.directAddr code) :=
      setDirectValue_sfr _ (happart (by omega)) (happart (by omega)) _
    have hhigh : u.sfr (s.directAddr code + 1) = s₂.sfr (s.directAddr code + 1) :=
      setDirectValue_sfr _ (happart (by omega)) (happart (by omega)) _
    rw [directValue_congr hlow hhigh, if_neg hsix, and_iff_left rfl]

end DirectRuns

end Instructions

end Ucsim.Xa
