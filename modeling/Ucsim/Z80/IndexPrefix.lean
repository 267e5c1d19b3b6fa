import Mathlib.Data.List.Basic
import Ucsim.Z80.IndexSymmetry

/-!
# DD and the unprefixed instructions

An instruction behind DD has IX where the one without the prefix has HL, and (IX+d) where that has (HL).
-/

namespace Ucsim.Z80

/-! ## What is compared -/

def Regs.exchangeHL (r : Regs) : Regs := { r with HL := r.IX, IX := r.HL }

def Machine.exchangeHL (s : Machine) : Machine := { s with regs := s.regs.exchangeHL }

/-- The state after a program on the one with HL and IX exchanged, which are then exchanged back. -/
def exchanged (f : Prog Res) (s : Machine) : Machine := (f.run s.exchangeHL).2.exchangeHL

/-- The next byte is passed over. -/
def Machine.skip (s : Machine) : Machine := { s with PC := incAddress s.PC 1 }

/-- An instruction has been counted. -/
def Machine.ticked (s : Machine) : Machine := { s with ticks := s.ticks + 1 }

@[simp] theorem Machine.skip_regs (s : Machine) : s.skip.regs = s.regs := rfl

@[simp] theorem Machine.ticked_regs (s : Machine) : s.ticked.regs = s.regs := rfl

/-- The opcodes with H, L or HL as an operand, without an access at (HL). -/
def plainOps : List Nat :=
  [0x09, 0x19, 0x21, 0x22, 0x23, 0x24, 0x25, 0x26, 0x29, 0x2A, 0x2B, 0x2C, 0x2D, 0x2E, 0x39, 0x44, 0x45, 0x4C, 0x4D,
    0x54, 0x55, 0x5C, 0x5D, 0x60, 0x61, 0x62, 0x63, 0x64, 0x65, 0x67, 0x68, 0x69, 0x6A, 0x6B, 0x6C, 0x6D, 0x6F, 0x7C,
    0x7D, 0x84, 0x85, 0x8C, 0x8D, 0x94, 0x95, 0x9C, 0x9D, 0xA4, 0xA5, 0xAC, 0xAD, 0xB4, 0xB5, 0xBC, 0xBD, 0xE1, 0xE3,
    0xE5, 0xE9, 0xEB, 0xF9]

/-- The opcodes with (HL) as an operand. -/
def memOps : List Nat :=
  [0x34, 0x35, 0x36, 0x46, 0x4E, 0x56, 0x5E, 0x66, 0x6E, 0x70, 0x71, 0x72, 0x73, 0x74, 0x75, 0x77, 0x7E, 0x86, 0x8E,
    0x96, 0x9E, 0xA6, 0xAE, 0xB6, 0xBE]

/-- The instructions with (HL), as functions of the address of the access. -/
def memForm (code : BitVec 8) (addr : BitVec 16) : Prog Unit := switch
  [([0x34], onMem inc addr), ([0x35], onMem dec addr), ([0x36], do store1 addr (← fetch)),
   ([0x46], do setByte .bc_h (← get1 addr)), ([0x4E], do setByte .bc_l (← get1 addr)),
   ([0x56], do setByte .de_h (← get1 addr)), ([0x5E], do setByte .de_l (← get1 addr)),
   ([0x66], do setByte .hl_h (← get1 addr)), ([0x6E], do setByte .hl_l (← get1 addr)),
   ([0x70], do store1 addr (← byte .bc_h)), ([0x71], do store1 addr (← byte .bc_l)),
   ([0x72], do store1 addr (← byte .de_h)), ([0x73], do store1 addr (← byte .de_l)),
   ([0x74], do store1 addr (← byte .hl_h)), ([0x75], do store1 addr (← byte .hl_l)),
   ([0x77], do store1 addr (← byte .A)), ([0x7E], do setByte .A (← get1 addr)),
   ([0x86], aluMem add_A_bytereg addr), ([0x8E], aluMem adc_A_bytereg addr), ([0x96], aluMem sub_A_bytereg addr),
   ([0x9E], aluMem sbc_A_bytereg addr), ([0xA6], aluMem and_A_bytereg addr), ([0xAE], aluMem xor_A_bytereg addr),
   ([0xB6], aluMem or_A_bytereg addr), ([0xBE], aluMem cp_bytereg addr)]
  (pure ()) code

/-- What the instruction without the prefix does with IX, or at (IX+d), in the place of HL. -/
def Machine.withIX (u : Machine) : Machine :=
  let op := u.skip
  let d := op.skip
  if op.next.toNat ∈ plainOps then exchanged exec_inst op
  else ((memForm op.next (add_u16_disp u.regs.IX.word d.next)).run d.skip.ticked).2

/-! ## The tables -/

/-- A property of all opcodes of a list follows from one for each. -/
theorem forall_code {P : BitVec 8 → Prop} {ops : List Nat} (h : ∀ n ∈ ops, P (BitVec.ofNat 8 n)) {code : BitVec 8}
    (hcode : code.toNat ∈ ops) : P code := by
  have hP := h _ hcode
  rwa [BitVec.ofNat_toNat, BitVec.setWidth_eq] at hP

theorem exec_inst_run (s : Machine) : exec_inst.run s = (dispatch s.next).run s.skip.ticked := rfl

/-- Behind a prefix it is at the index register with a displacement. -/
theorem dispatchXd_memForm (X : Index) {code : BitVec 8} (hcode : code.toNat ∈ memOps) :
    dispatchXd X code = go (do memForm code (← X.disp)) := by
  refine forall_code (P := fun code => dispatchXd X code = go (do memForm code (← X.disp))) ?_ hcode
  repeat' (first | exact List.forall_mem_nil _ | refine List.forall_mem_cons.mpr ⟨rfl, ?_⟩)

/-- The additions to HL, which clear flags that those to IX keep. -/
def addOps : List Nat := [0x09, 0x19, 0x29, 0x39]

/-- Three cases that name H or L, and two opcodes that do not arrive at one. -/
def oddOps : List Nat := [0x5C, 0x5D, 0x6C, 0x65, 0xEB]

theorem dispatchXd_plain {code : BitVec 8}
    (hcode : code.toNat ∈ plainOps.filter fun n => n ∉ addOps ∧ n ∉ oddOps) (s : Machine) :
    (dispatchXd .IX code).run s = (.go, exchanged (dispatch code) s) := by
  revert s
  refine forall_code (P := fun code => ∀ s, (dispatchXd .IX code).run s = (.go, exchanged (dispatch code) s)) ?_ hcode
  repeat' (first | exact List.forall_mem_nil _ | refine List.forall_mem_cons.mpr ⟨fun _ => rfl, ?_⟩)

/-! ## The opcodes that differ -/

/-- A sum in IX, with those of the flags kept that the mask has. -/
def Machine.withSum (s : Machine) (w : BitVec 16) (kept : BitVec 8) : Machine :=
  let tmp := s.regs.IX.word.setWidth 32 + w.setWidth 32
  { s with regs := { s.regs with
      IX := .ofWord (tmp.setWidth 16), F := orIf (0xffff < tmp) BIT_C (s.regs.F &&& kept) } }

theorem dispatchXd_add {code : BitVec 8} (hcode : code.toNat ∈ addOps) (s : Machine) :
    ∃ w, (dispatchXd .IX code).run s = (.go, s.withSum w (~~~(BIT_A ||| BIT_N ||| BIT_C))) ∧
      exchanged (dispatch code) s = s.withSum w (~~~BIT_ALL) := by
  revert s
  refine forall_code (P := fun code => ∀ s, ∃ w,
    (dispatchXd .IX code).run s = (.go, s.withSum w (~~~(BIT_A ||| BIT_N ||| BIT_C))) ∧
      exchanged (dispatch code) s = s.withSum w (~~~BIT_ALL)) ?_ hcode
  refine List.forall_mem_cons.mpr ⟨fun s => ⟨s.regs.BC.word, rfl, rfl⟩, ?_⟩
  refine List.forall_mem_cons.mpr ⟨fun s => ⟨s.regs.DE.word, rfl, rfl⟩, ?_⟩
  refine List.forall_mem_cons.mpr ⟨fun s => ⟨s.regs.IX.word, rfl, rfl⟩, ?_⟩
  exact List.forall_mem_singleton.mpr fun s => ⟨s.regs.SP, rfl, rfl⟩

/-- The flags that only the addition to IX keeps. -/
def keptFlags : BitVec 8 := BIT_P ||| BIT_Z ||| BIT_S

theorem orIf_kept_iff (c : Prop) [Decidable c] (F : BitVec 8) :
    orIf c BIT_C (F &&& ~~~(BIT_A ||| BIT_N ||| BIT_C)) = orIf c BIT_C (F &&& ~~~BIT_ALL) ↔ F &&& keptFlags = 0 := by
  unfold orIf
  by_cases hc : c
  · rw [if_pos hc, if_pos hc]
    revert F
    decide
  · rw [if_neg hc, if_neg hc]
    revert F
    decide

theorem add_iff {code : BitVec 8} (hcode : code.toNat ∈ addOps) (s : Machine) :
    (dispatchXd .IX code).run s = (.go, exchanged (dispatch code) s) ↔ s.regs.F &&& keptFlags = 0 := by
  obtain ⟨w, hprefixed, hplain⟩ := dispatchXd_add hcode s
  rw [hprefixed, hplain, ← orIf_kept_iff (0xffff < s.regs.IX.word.setWidth 32 + w.setWidth 32)]
  constructor
  · intro heq
    exact congrArg (fun p : Res × Machine => p.2.regs.F) heq
  · intro heq
    simp only [Machine.withSum, heq]

theorem Regs.byte_setByte (r : Regs) (v : BitVec 8) (b : Byte) : (r.setByte v b).byte b = v := by
  cases b <;> rfl

/-- Two values in the same register. -/
theorem setByte_eq_iff (b : Byte) (v w : BitVec 8) (s : Machine) :
    (go (setByte b v)).run s = (.go, ((setByte b w).run s).2) ↔ v = w := by
  constructor
  · intro heq
    have hbyte : (s.regs.setByte v b).byte b = (s.regs.setByte w b).byte b :=
      congrArg (fun p : Res × Machine => p.2.regs.byte b) heq
    rwa [Regs.byte_setByte, Regs.byte_setByte] at hbyte
  · intro heq
    rw [heq]
    rfl

theorem ld_E_H_iff (s : Machine) :
    (dispatchXd .IX 0x5C).run s = (.go, exchanged (dispatch 0x5C) s) ↔ s.regs.HL.h = s.regs.IX.h :=
  setByte_eq_iff .de_l s.regs.HL.h s.regs.IX.h s

theorem ld_E_L_iff (s : Machine) :
    (dispatchXd .IX 0x5D).run s = (.go, exchanged (dispatch 0x5D) s) ↔ s.regs.HL.l = s.regs.IX.l :=
  setByte_eq_iff .de_l s.regs.HL.l s.regs.IX.l s

theorem ld_L_H_iff (s : Machine) :
    (dispatchXd .IX 0x6C).run s = (.go, exchanged (dispatch 0x6C) s) ↔ s.regs.HL.h = s.regs.IX.h :=
  setByte_eq_iff .ix_l s.regs.HL.h s.regs.IX.h s

theorem dispatchXd_unknown {code : BitVec 8} (hcode : code = 0x65 ∨ code = 0xEB) (s : Machine) :
    (dispatchXd .IX code).run s = (.invInst, s) := by
  rcases hcode with rfl | rfl
  · rfl
  · rfl

/-! ## DD -/

/-- What the instruction behind the prefix takes and leaves is what IX would give. -/
@[mk_iff] structure Machine.Replaced (u : Machine) : Prop where
  flags : u.skip.next.toNat ∈ addOps → u.regs.F &&& keptFlags = 0
  ld_E_H : u.skip.next = 0x5C → u.regs.HL.h = u.regs.IX.h
  ld_E_L : u.skip.next = 0x5D → u.regs.HL.l = u.regs.IX.l
  ld_L_H : u.skip.next = 0x6C → u.regs.HL.h = u.regs.IX.h
  known : ¬(u.skip.next = 0x65 ∨ u.skip.next = 0xEB)

theorem exec_inst_dd {u : Machine} (hdd : u.next = 0xDD) :
    exec_inst.run u = (dispatchXd .IX u.skip.next).run u.skip.skip.ticked := by
  rw [exec_inst_run, hdd]
  rfl

theorem withIX_plain {u : Machine} (hop : u.skip.next.toNat ∈ plainOps) :
    u.withIX = exchanged (dispatch u.skip.next) u.skip.skip.ticked := by
  simp only [Machine.withIX, if_pos hop]
  rfl

/-- The codes outside the lists of exceptions need nothing. -/
theorem replaced_of_regular {u : Machine} (hadd : u.skip.next.toNat ∉ addOps) (hodd : u.skip.next.toNat ∉ oddOps) :
    u.Replaced := by
  have hne : ∀ {code : BitVec 8}, code.toNat ∈ oddOps → u.skip.next ≠ code := fun hcode heq => hodd (heq ▸ hcode)
  refine ⟨fun hcode => absurd hcode hadd, ?_, ?_, ?_, ?_⟩
  · exact fun hcode => absurd hcode (hne (by decide))
  · exact fun hcode => absurd hcode (hne (by decide))
  · exact fun hcode => absurd hcode (hne (by decide))
  · exact fun hcode => hcode.elim (hne (by decide)) (hne (by decide))

theorem replaced_of_add {u : Machine} (hadd : u.skip.next.toNat ∈ addOps) :
    u.Replaced ↔ u.regs.F &&& keptFlags = 0 := by
  have hne : ∀ {code : BitVec 8}, code.toNat ∉ addOps → u.skip.next ≠ code := fun hcode heq => hcode (heq ▸ hadd)
  refine ⟨fun h => h.flags hadd, fun h => ⟨fun _ => h, ?_, ?_, ?_, ?_⟩⟩
  · exact fun hcode => absurd hcode (hne (by decide))
  · exact fun hcode => absurd hcode (hne (by decide))
  · exact fun hcode => absurd hcode (hne (by decide))
  · exact fun hcode => hcode.elim (hne (by decide)) (hne (by decide))

theorem odd_iff {u : Machine} (hodd : u.skip.next.toNat ∈ oddOps) :
    (dispatchXd .IX u.skip.next).run u.skip.skip.ticked =
        (.go, exchanged (dispatch u.skip.next) u.skip.skip.ticked) ↔ u.Replaced := by
  have hcode : ∀ code : BitVec 8, code.toNat ∈ oddOps →
      code = 0x5C ∨ code = 0x5D ∨ code = 0x6C ∨ code = 0x65 ∨ code = 0xEB :=
    fun _ => forall_code
      (P := fun code => code = 0x5C ∨ code = 0x5D ∨ code = 0x6C ∨ code = 0x65 ∨ code = 0xEB) (by decide)
  have hunknown : ∀ s : Machine, ¬(Res.invInst, u.skip.skip.ticked) = (Res.go, s) :=
    fun s heq => Res.noConfusion (congrArg Prod.fst heq)
  rcases hcode _ hodd with h | h | h | h | h
  · rw [h, ld_E_H_iff]
    simp [Machine.replaced_iff, h, addOps]
  · rw [h, ld_E_L_iff]
    simp [Machine.replaced_iff, h, addOps]
  · rw [h, ld_L_H_iff]
    simp [Machine.replaced_iff, h, addOps]
  · rw [dispatchXd_unknown (.inl h)]
    exact ⟨fun heq => absurd heq (hunknown _), fun hrep => absurd (.inl h) hrep.known⟩
  · rw [dispatchXd_unknown (.inr h)]
    exact ⟨fun heq => absurd heq (hunknown _), fun hrep => absurd (.inr h) hrep.known⟩

/-- DD in front of an instruction with H, L, HL or (HL) puts IX or (IX+d) in its place, exactly if the operands are
replaced and the flags are those of the other addition. -/
theorem dd_puts_IX_iff {u : Machine} (hdd : u.next = 0xDD) (hop : u.skip.next.toNat ∈ plainOps ++ memOps) :
    exec_inst.run u = (.go, u.withIX) ↔ u.Replaced := by
  rw [exec_inst_dd hdd]
  by_cases hplain : u.skip.next.toNat ∈ plainOps
  · rw [withIX_plain hplain]
    by_cases hadd : u.skip.next.toNat ∈ addOps
    · rw [add_iff hadd, replaced_of_add hadd, Machine.ticked_regs, Machine.skip_regs, Machine.skip_regs]
    by_cases hodd : u.skip.next.toNat ∈ oddOps
    · exact odd_iff hodd
    · have hregular := dispatchXd_plain (List.mem_filter.mpr ⟨hplain, by simp [hadd, hodd]⟩) u.skip.skip.ticked
      exact ⟨fun _ => replaced_of_regular hadd hodd, fun _ => hregular⟩
  · have hmem : u.skip.next.toNat ∈ memOps := (List.mem_append.mp hop).resolve_left hplain
    have hregular : u.skip.next.toNat ∉ addOps ∧ u.skip.next.toNat ∉ oddOps := by
      revert hmem
      exact forall_code (P := fun code => code.toNat ∉ addOps ∧ code.toNat ∉ oddOps) (by decide)
    refine ⟨fun _ => replaced_of_regular hregular.1 hregular.2, fun _ => ?_⟩
    rw [dispatchXd_memForm .IX hmem, Machine.withIX, if_neg hplain]
    rfl

/-- `DD 5C` loads E with H. -/
def loadE : Machine := { Machine.start (fun a => if a = 0 then 0xDD else 0x5C) with
  regs := { Regs.zero with HL := ⟨1, 0⟩ } }

/-- E gets H. -/
theorem dd_takes_H : loadE.next = 0xDD ∧ loadE.skip.next.toNat ∈ plainOps ∧
    (exec_inst.run loadE).2.regs.DE.l = 1 ∧ loadE.withIX.regs.DE.l = 0 := by
  decide

/-- `DD 7E d` reads at IX + d. -/
def loadA : Machine := .start fun a => if a = 0 then 0xDD else 0x7E

/-- A is loaded through IX. -/
theorem dd_puts_IX_loadA : loadA.Replaced ∧ exec_inst.run loadA = (.go, loadA.withIX) := by
  have hreplaced : loadA.Replaced := replaced_of_regular (by decide) (by decide)
  exact ⟨hreplaced, (dd_puts_IX_iff (by decide) (by decide)).mpr hreplaced⟩

end Ucsim.Z80
