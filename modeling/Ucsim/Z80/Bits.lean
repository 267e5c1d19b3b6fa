import Ucsim.Z80.Fetches

/-!
# Bit instructions

`SET`, `RES` and `BIT`, and `SET` and `RES` behind a displacement.
-/

namespace Ucsim.Z80

/-! ## Operands -/

/-- The operands, in the order of the last three bits of a code. -/
inductive Operand
  | B | C | D | E | H | L | HL | A
  deriving DecidableEq, Repr

namespace Operand

def number : Operand → Nat
  | B => 0
  | C => 1
  | D => 2
  | E => 3
  | H => 4
  | L => 5
  | HL => 6
  | A => 7

/-- The register, or none for (HL). -/
def reg : Operand → Option Byte
  | B => some .bc_h
  | C => some .bc_l
  | D => some .de_h
  | E => some .de_l
  | H => some .hl_h
  | L => some .hl_l
  | HL => none
  | A => some .A

def get (r : Operand) (s : Machine) : BitVec 8 :=
  match r.reg with
  | some b => s.regs.byte b
  | none => s.ram s.regs.HL.word

def put (r : Operand) (v : BitVec 8) (s : Machine) : Machine :=
  match r.reg with
  | some b => { s with regs := s.regs.setByte v b }
  | none => { s with ram := Function.update s.ram s.regs.HL.word v }

theorem get_put (r : Operand) (v : BitVec 8) (s : Machine) : r.get (r.put v s) = v := by
  cases r with
  | HL => exact Function.update_self _ _ _
  | _ => rfl

theorem put_get (r : Operand) (s : Machine) : r.put (r.get s) s = s := by
  cases r with
  | HL =>
    have hram : Function.update s.ram s.regs.HL.word (s.ram s.regs.HL.word) = s.ram := Function.update_eq_self _ _
    exact congrArg (fun ram => { s with ram }) hram
  | _ => rfl

theorem put_eq_iff (r : Operand) (v w : BitVec 8) (s : Machine) : r.put v s = r.put w s ↔ v = w := by
  constructor
  · intro h
    have hget := congrArg r.get h
    rwa [get_put, get_put] at hget
  · exact fun h => h ▸ rfl

end Operand

/-! ## Codes -/

/-- `SET` or `RES` of a bit, in the order of the codes. -/
def bitCode (set : Bool) (b : Fin 8) (r : Operand) : BitVec 8 :=
  BitVec.ofNat 8 ((if set then 0xC0 else 0x80) + 8 * b + r.number)

def testCode (b : Fin 8) (r : Operand) : BitVec 8 := BitVec.ofNat 8 (0x40 + 8 * b + r.number)

theorem bitCode_operand (set : Bool) (b : Fin 8) (r : Operand) : bitCode set b r &&& 7 = BitVec.ofNat 8 r.number := by
  cases set <;> cases r <;> decide +revert

theorem bitCode_bitnum (set : Bool) (b : Fin 8) (r : Operand) : bit_bitnum (bitCode set b r) = b := by
  cases set <;> cases r <;> decide +revert

theorem testCode_operand (b : Fin 8) (r : Operand) : testCode b r &&& 7 = BitVec.ofNat 8 r.number := by
  cases r <;> decide +revert

theorem testCode_bitnum (b : Fin 8) (r : Operand) : bit_bitnum (testCode b r) = b := by
  cases r <;> decide +revert

theorem Operand.number_lt (r : Operand) : r.number < 8 := by cases r <;> decide

theorem bitCode_toNat (set : Bool) (b : Fin 8) (r : Operand) :
    (bitCode set b r).toNat = (if set then 0xC0 else 0x80) + 8 * b + r.number := by
  have hlt := r.number_lt
  have hb := b.isLt
  rw [bitCode, BitVec.toNat_ofNat, Nat.mod_eq_of_lt]
  split <;> omega

theorem testCode_toNat (b : Fin 8) (r : Operand) : (testCode b r).toNat = 0x40 + 8 * b + r.number := by
  have hlt := r.number_lt
  have hb := b.isLt
  rw [testCode, BitVec.toNat_ofNat, Nat.mod_eq_of_lt]
  omega

/-! ## The tables -/

/-- All groups of a table that have the code have the same body. -/
theorem switch_group {α : Type} {cases : List (List Nat × α)} {default p : α} {code : BitVec 8}
    (hmem : code.toNat ∈ keys cases) (hcase : ∀ c ∈ cases, code.toNat ∈ c.1 → c.2 = p) :
    switch cases default code = p := by
  refine switch_induct (P := fun q => q = p) hcase fun hno => ?_
  obtain ⟨c, hc, hcode⟩ := List.mem_flatMap.mp hmem
  exact absurd hcode (hno c hc)

theorem mem_cb_keys {code : BitVec 8} : code.toNat ∈ keys (cbCases code) := by
  have hlt := code.isLt
  simp only [keys, cbCases, List.flatMap_cons, List.flatMap_nil, List.mem_append, List.mem_range'_1]
  omega

theorem cb_bit {code : BitVec 8} (hge : 0x40 ≤ code.toNat) (hlt : code.toNat < 0x80) :
    switch (cbCases code) unknown code = inst_cb_bit code := by
  refine switch_group mem_cb_keys ?_
  repeat' (first | exact List.forall_mem_nil _ | refine List.forall_mem_cons.mpr ⟨fun hmem => ?_, ?_⟩)
  all_goals
    have hrange := List.mem_range'_1.mp hmem
    first | omega | rfl

theorem cb_res {code : BitVec 8} (hge : 0x80 ≤ code.toNat) (hlt : code.toNat < 0xC0) :
    switch (cbCases code) unknown code = inst_cb_res code := by
  refine switch_group mem_cb_keys ?_
  repeat' (first | exact List.forall_mem_nil _ | refine List.forall_mem_cons.mpr ⟨fun hmem => ?_, ?_⟩)
  all_goals
    have hrange := List.mem_range'_1.mp hmem
    first | omega | rfl

theorem cb_set {code : BitVec 8} (hge : 0xC0 ≤ code.toNat) :
    switch (cbCases code) unknown code = inst_cb_set code := by
  refine switch_group mem_cb_keys ?_
  repeat' (first | exact List.forall_mem_nil _ | refine List.forall_mem_cons.mpr ⟨fun hmem => ?_, ?_⟩)
  all_goals
    have hrange := List.mem_range'_1.mp hmem
    first | omega | rfl

theorem xxcb_res {X : Index} {n_offset code : BitVec 8} (hge : 0x80 ≤ code.toNat) (hlt : code.toNat < 0xC0) :
    switch (xxcbCases X n_offset code) unknown code = inst_XXcb_res X n_offset code := by
  refine switch_group ?_ ?_
  · simp only [keys, xxcbCases, List.flatMap_cons, List.flatMap_nil, List.mem_append, List.mem_range'_1]
    omega
  · repeat' (first | exact List.forall_mem_nil _ | refine List.forall_mem_cons.mpr ⟨fun hmem => ?_, ?_⟩)
    all_goals
      simp only [List.mem_range'_1, List.mem_cons, List.not_mem_nil, or_false] at hmem
      first | omega | rfl

/-! ## What the instructions do -/

/-- The machine behind an instruction of so many bytes. -/
def Machine.passed (s : Machine) (len ticks : Nat) : Machine :=
  { s with PC := advance len s.PC, ticks := s.ticks + ticks }

variable {s : Machine} {b : Fin 8} {r : Operand}

theorem cb_run {code : BitVec 8} (h : s.At [0xCB, code]) :
    exec_inst.run s = (switch (cbCases code) unknown code).run (s.passed 2 2) := by
  rw [exec_inst_run, h.1]
  show (switch (cbCases s.skip.next) unknown s.skip.next).run (s.passed 2 2) = _
  rw [h.2.1]

/-- A macro applied to an operand. -/
def Operand.apply (r : Operand) (op : BitVec 8 → BitVec 8 → BitVec 8 × BitVec 8) (s : Machine) : Machine :=
  let p := op (r.get s) s.regs.F
  r.put p.1 { s with regs := { s.regs with F := p.2 } }

theorem shiftOperand_run (op : BitVec 8 → BitVec 8 → BitVec 8 × BitVec 8) (r : Operand) (s : Machine) :
    (shiftOperand op 0x00 (BitVec.ofNat 8 r.number)).run s = (.go, r.apply op s) := by
  cases r <;> rfl

/-- `SET` finds no operand for any of its codes. -/
theorem inst_cb_set_run {code : BitVec 8} (hcode : 0xC0 ≤ code.toNat) (s : Machine) :
    (inst_cb_set code).run s = (.go, s) := by
  have hbody : switch
      [([0x0], onByte (set_byte (bit_bitnum code)) .bc_h), ([0x1], onByte (set_byte (bit_bitnum code)) .bc_l),
       ([0x2], onByte (set_byte (bit_bitnum code)) .de_h), ([0x3], onByte (set_byte (bit_bitnum code)) .de_l),
       ([0x4], onByte (set_byte (bit_bitnum code)) .hl_h), ([0x5], onByte (set_byte (bit_bitnum code)) .hl_h),
       ([0x6], do onMem (set_byte (bit_bitnum code)) (← word .HL)),
       ([0x7], onByte (set_byte (bit_bitnum code)) .de_h)] (pure ()) code = pure () := by
    refine switch_induct (P := fun p : Prog Unit => p = pure ()) (fun c hc hmem => absurd hcode ?_) fun _ => rfl
    revert c
    repeat' (first | exact List.forall_mem_nil _ | refine List.forall_mem_cons.mpr ⟨fun hmem => ?_, ?_⟩)
    all_goals
      rw [List.mem_singleton.mp hmem]
      decide
  unfold inst_cb_set
  dsimp only
  rw [hbody]
  rfl

/-- A byte with one of its bits set or cleared. -/
def withBit (set : Bool) (b : Fin 8) (v : BitVec 8) : BitVec 8 :=
  if set then v ||| (1 : BitVec 8) <<< b.val else v &&& ~~~((1 : BitVec 8) <<< b.val)

theorem mask_getLsbD (b i : Fin 8) : ((1 : BitVec 8) <<< b.val).getLsbD i = decide (i = b) := by decide +revert

/-- Exactly this bit is changed. -/
theorem withBit_getLsbD (set : Bool) (b i : Fin 8) (v : BitVec 8) :
    (withBit set b v).getLsbD i = if i = b then set else v.getLsbD i := by
  cases set with
  | true =>
    rw [withBit, if_pos rfl, BitVec.getLsbD_or, mask_getLsbD]
    by_cases hi : i = b <;> simp [hi]
  | false =>
    rw [withBit, if_neg nofun, BitVec.getLsbD_and, BitVec.getLsbD_not, mask_getLsbD]
    by_cases hi : i = b <;> simp [hi]

theorem withBit_eq_self_iff (set : Bool) (b : Fin 8) (v : BitVec 8) : withBit set b v = v ↔ v.getLsbD b = set := by
  constructor
  · intro h
    have hbit := withBit_getLsbD set b b v
    rwa [h, if_pos rfl] at hbit
  · intro h
    apply BitVec.eq_of_getLsbD_eq
    intro i hi
    have hbit := withBit_getLsbD set b ⟨i, hi⟩ v
    by_cases hib : b = ⟨i, hi⟩
    · subst hib
      rw [if_pos rfl] at hbit
      exact hbit.trans h.symm
    · rwa [if_neg (Ne.symm hib)] at hbit

/-- The mask of `bit_byte`, whose shift is that of an `int`. -/
theorem int_mask (b : Fin 8) : ((1 <<< b.val : Nat) : BitVec 8) = (1 : BitVec 8) <<< b.val := by decide +revert

theorem and_mask_eq_zero_iff (b : Fin 8) (v : BitVec 8) :
    v &&& (1 : BitVec 8) <<< b.val = 0 ↔ v.getLsbD b = false := by
  have hand : ∀ i : Fin 8, (v &&& (1 : BitVec 8) <<< b.val).getLsbD i = (v.getLsbD i && decide (i = b)) := by
    intro i
    rw [BitVec.getLsbD_and, mask_getLsbD]
  constructor
  · intro h
    have hbit := hand b
    rw [h] at hbit
    simpa using hbit.symm
  · intro h
    apply BitVec.eq_of_getLsbD_eq
    intro i hi
    rw [hand ⟨i, hi⟩]
    by_cases hib : b = ⟨i, hi⟩
    · subst hib
      simp [h]
    · simp [Ne.symm hib]

/-- The byte that `RES` leaves in A, whose mask is the number of the bit. -/
def resA (b : Fin 8) (v : BitVec 8) : BitVec 8 := v &&& ~~~BitVec.ofNat 8 b

/-- The byte that the code of an instruction leaves. -/
def bitDone (set : Bool) (b : Fin 8) (r : Operand) (v : BitVec 8) : BitVec 8 :=
  if set then v else if r = .A then resA b v else withBit false b v

theorem inst_cb_res_run (b : Fin 8) (r : Operand) (s : Machine) :
    (inst_cb_res (bitCode false b r)).run s = (.go, r.put (bitDone false b r (r.get s)) s) := by
  unfold inst_cb_res
  rw [bitCode_operand, bitCode_bitnum]
  cases r with
  | A => rfl
  | HL =>
    rw [if_neg (by decide), shiftOperand_run]
    rfl
  | _ =>
    rw [if_neg (by decide), shiftOperand_run]
    rfl

/-- `SET` and `RES`. -/
theorem bit_run {set : Bool} (h : s.At [0xCB, bitCode set b r]) :
    exec_inst.run s = (.go, r.put (bitDone set b r (r.get s)) (s.passed 2 2)) := by
  have hcode := bitCode_toNat set b r
  have hb := b.isLt
  have hr := r.number_lt
  rw [cb_run h]
  cases set with
  | true =>
    rw [if_pos rfl] at hcode
    rw [cb_set (by omega), inst_cb_set_run (by omega)]
    exact congrArg (Prod.mk Res.go) (r.put_get (s.passed 2 2)).symm
  | false =>
    rw [if_neg nofun] at hcode
    rw [cb_res (by omega) (by omega), inst_cb_res_run]
    cases r <;> rfl

/-- `BIT` leaves Z set when the bit is clear. -/
theorem test_run (h : s.At [0xCB, testCode b r]) : s.step = r.apply (bit_byte b) (s.passed 2 2) := by
  have hcode := testCode_toNat b r
  have hb := b.isLt
  have hr := r.number_lt
  rw [Machine.step, cb_run h, cb_bit (by omega) (by omega), inst_cb_bit, testCode_operand, testCode_bitnum,
    shiftOperand_run]

theorem apply_F (op : BitVec 8 → BitVec 8 → BitVec 8 × BitVec 8) (r : Operand) (s : Machine) :
    (r.apply op s).regs.F = (op (r.get s) s.regs.F).2 := by
  cases r <;> rfl

theorem bit_byte_Z (b : Fin 8) (v F : BitVec 8) : (bit_byte b v F).2 &&& BIT_Z = 0 ↔ v.getLsbD b = true := by
  have hclear : ∀ F : BitVec 8, (F &&& ~~~BIT_ALL ||| BIT_A) &&& BIT_Z = 0 := by decide
  have hset : ∀ F : BitVec 8, ((F &&& ~~~BIT_ALL ||| BIT_A) ||| BIT_Z) &&& BIT_Z ≠ 0 := by decide
  unfold bit_byte orIf
  dsimp only
  rw [int_mask]
  by_cases hbit : v &&& (1 : BitVec 8) <<< b.val = 0
  · rw [if_pos hbit, (and_mask_eq_zero_iff b v).mp hbit]
    exact iff_of_false (hset F) Bool.false_ne_true
  · rw [if_neg hbit]
    exact iff_of_true (hclear F) (eq_true_of_ne_false fun h => hbit ((and_mask_eq_zero_iff b v).mpr h))

theorem test_Z (h : s.At [0xCB, testCode b r]) : s.step.regs.F &&& BIT_Z = 0 ↔ (r.get s).getLsbD b = true := by
  rw [test_run h, apply_F]
  have hget : r.get (s.passed 2 2) = r.get s := by cases r <;> rfl
  rw [hget]
  exact bit_byte_Z b _ _

/-! ## Behind a displacement -/

/-- The index registers, by their codes. -/
inductive Xd
  | DD | FD
  deriving DecidableEq, Repr

def Xd.code : Xd → BitVec 8
  | DD => 0xDD
  | FD => 0xFD

def Xd.index : Xd → Index
  | DD => .IX
  | FD => .IY

theorem xxcb_run {x : Xd} {d code : BitVec 8} (h : s.At [x.code, 0xCB, d, code]) :
    exec_inst.run s = (switch (xxcbCases x.index d code) unknown code).run (s.passed 4 2) := by
  have hrun : exec_inst.run s = (dispatchXd x.index s.skip.next).run s.skip.skip.ticked := by
    rw [exec_inst_run, h.1]
    cases x <;> rfl
  have hcb : dispatchXd x.index 0xCB = inst_XXcb x.index := rfl
  obtain ⟨-, h2, h3, h4, -⟩ := h
  rw [hrun, h2, hcb, inst_XXcb_run]
  show (switch (xxcbCases x.index s.skip.skip.next s.skip.skip.skip.next) unknown s.skip.skip.skip.next).run
    (s.passed 4 2) = _
  rw [h3, h4]

/-- A copy in the register of an operand that is one. -/
def Operand.copied (r : Operand) (v : BitVec 8) (g : Regs) : Regs :=
  match r.reg with
  | some b => g.setByte v b
  | none => g

theorem inst_XXcb_res_run (X : Index) (d : BitVec 8) (b : Fin 8) (r : Operand) (s : Machine) :
    (inst_XXcb_res X d (bitCode false b r)).run s =
      (let addr := add_u16_disp (s.regs.word X.w) d
       let v := withBit false b (s.ram addr)
       (.go, { s with regs := r.copied v s.regs, ram := Function.update s.ram addr v })) := by
  unfold inst_XXcb_res
  rw [bitCode_operand, bitCode_bitnum]
  cases r <;> rfl

/-- `SET` leaves the byte in memory and the register as they are. -/
theorem indexed_run {x : Xd} {d : BitVec 8} {set : Bool} (h : s.At [x.code, 0xCB, d, bitCode set b r]) :
    let addr := add_u16_disp (s.regs.word x.index.w) d
    (set = true → s.step = s.passed 4 2) ∧
      (set = false → s.step.ram = Function.update s.ram addr (withBit false b (s.ram addr)) ∧
        s.step.regs = r.copied (withBit false b (s.ram addr)) s.regs) := by
  have hcode := bitCode_toNat set b r
  have hb := b.isLt
  have hr := r.number_lt
  rw [Machine.step, xxcb_run h]
  constructor
  · rintro rfl
    rw [if_pos rfl] at hcode
    rw [xxcb_set _ _ (by omega), inst_XXcb_set_run _ _ (by omega)]
  · rintro rfl
    rw [if_neg nofun] at hcode
    rw [xxcb_res (by omega) (by omega), inst_XXcb_res_run]
    exact ⟨rfl, rfl⟩

/-! ## All of them -/

/-- Where the operand is: named by the code, or in memory behind a displacement. -/
inductive Place
  | named
  | indexed (x : Xd) (d : BitVec 8)

/-- A `SET` or a `RES`. -/
structure BitInst where
  place : Place
  set : Bool
  b : Fin 8
  r : Operand

namespace BitInst

def codes (p : BitInst) : List (BitVec 8) :=
  match p.place with
  | .named => [0xCB, bitCode p.set p.b p.r]
  | .indexed x d => [x.code, 0xCB, d, bitCode p.set p.b p.r]

/-- The bit of the operand is changed and nothing else, which a `BIT` behind it finds. -/
structure ChangesOperand (p : BitInst) (s : Machine) : Prop where
  once : exec_inst.run s = (.go, p.r.put (withBit p.set p.b (p.r.get s)) (s.passed 2 2))
  test : s.step.At [0xCB, testCode p.b p.r] → (s.step.step.regs.F &&& BIT_Z = 0 ↔ p.set = true)

/-- The bit of the byte in memory is changed, and the register gets a copy of the byte. -/
structure ChangesMemory (p : BitInst) (x : Xd) (d : BitVec 8) (s : Machine) : Prop where
  ram : s.step.ram (add_u16_disp (s.regs.word x.index.w) d) =
    withBit p.set p.b (s.ram (add_u16_disp (s.regs.word x.index.w) d))
  frame : ∀ a, a ≠ add_u16_disp (s.regs.word x.index.w) d → s.step.ram a = s.ram a
  copy : p.r ≠ .HL → p.r.get s.step = withBit p.set p.b (s.ram (add_u16_disp (s.regs.word x.index.w) d))

/-- What the instruction is for. -/
def Right (p : BitInst) (s : Machine) : Prop :=
  match p.place with
  | .named => p.ChangesOperand s
  | .indexed x d => p.ChangesMemory x d s

/-- When it does that. A `SET` has to find its bit set, and behind a displacement also the byte in the register. For a
`RES` of A, the bits that are set in A have to be in both of the masks `b` and `1 << b`, or in none. -/
def Condition (p : BitInst) (s : Machine) : Prop :=
  match p.place with
  | .named => (p.set = true → (p.r.get s).getLsbD p.b = true) ∧
      (p.set = false → p.r = .A →
        ∀ i : Fin 8, s.regs.A.getLsbD i = true → (p.b.val.testBit i = true ↔ i = p.b))
  | .indexed x d => p.set = true → (s.ram (add_u16_disp (s.regs.word x.index.w) d)).getLsbD p.b = true ∧
      (p.r ≠ .HL → p.r.get s = s.ram (add_u16_disp (s.regs.word x.index.w) d))

end BitInst

/-- The two masks of `RES b,A`. -/
theorem resA_eq_iff (b : Fin 8) (v : BitVec 8) : resA b v = withBit false b v ↔
    ∀ i : Fin 8, v.getLsbD i = true → (b.val.testBit i = true ↔ i = b) := by
  have hres (i : Fin 8) : (resA b v).getLsbD i = (v.getLsbD i && !b.val.testBit i) := by
    rw [resA, BitVec.getLsbD_and, BitVec.getLsbD_not, BitVec.getLsbD_ofNat]
    simp
  have hbits (i : Fin 8) : (resA b v).getLsbD i = (withBit false b v).getLsbD i ↔
      (v.getLsbD i = true → (b.val.testBit i = true ↔ i = b)) := by
    rw [hres, withBit_getLsbD]
    cases v.getLsbD i with
    | false => simp
    | true => by_cases hib : i = b <;> simp [hib]
  constructor
  · exact fun h i => (hbits i).mp (congrArg (·.getLsbD i) h)
  · exact fun h => BitVec.eq_of_getLsbD_eq fun i hi => (hbits ⟨i, hi⟩).mpr (h ⟨i, hi⟩)

theorem bitDone_eq_iff (set : Bool) (b : Fin 8) (r : Operand) (s : Machine) :
    bitDone set b r (r.get s) = withBit set b (r.get s) ↔
      (set = true → (r.get s).getLsbD b = true) ∧
        (set = false → r = .A → ∀ i : Fin 8, s.regs.A.getLsbD i = true → (b.val.testBit i = true ↔ i = b)) := by
  cases set with
  | true =>
    rw [bitDone, if_pos rfl, eq_comm, withBit_eq_self_iff]
    simp
  | false =>
    by_cases hr : r = .A
    · subst hr
      simpa [bitDone, Operand.get, Operand.reg, Regs.byte] using resA_eq_iff b s.regs.A
    · simp [bitDone, hr]

theorem changesOperand_iff {p : BitInst} (h : s.At [0xCB, bitCode p.set p.b p.r]) :
    p.ChangesOperand s ↔ bitDone p.set p.b p.r (p.r.get s) = withBit p.set p.b (p.r.get s) := by
  constructor
  · intro hright
    have hboth := (bit_run h).symm.trans hright.once
    exact (p.r.put_eq_iff _ _ _).mp (congrArg Prod.snd hboth)
  · intro hdone
    have hstep : s.step = p.r.put (withBit p.set p.b (p.r.get s)) (s.passed 2 2) := by
      rw [Machine.step, bit_run h, hdone]
    refine ⟨by rw [bit_run h, hdone], fun hnext => ?_⟩
    rw [test_Z hnext, hstep, p.r.get_put, withBit_getLsbD, if_pos rfl]

theorem get_copied {r : Operand} (hr : r ≠ .HL) (v : BitVec 8) (t : Machine) (h : t.regs = r.copied v s.regs) :
    r.get t = v := by
  cases r with
  | HL => exact absurd rfl hr
  | _ =>
    simp only [Operand.get, Operand.reg, h]
    rfl

theorem changesMemory_iff {p : BitInst} {x : Xd} {d : BitVec 8} (h : s.At [x.code, 0xCB, d, bitCode p.set p.b p.r]) :
    p.ChangesMemory x d s ↔ (p.set = true → (s.ram (add_u16_disp (s.regs.word x.index.w) d)).getLsbD p.b = true ∧
      (p.r ≠ .HL → p.r.get s = s.ram (add_u16_disp (s.regs.word x.index.w) d))) := by
  obtain ⟨hset, hres⟩ := indexed_run h
  cases hop : p.set with
  | true =>
    have hstep := hset hop
    have hget : p.r.get s.step = p.r.get s := by
      rw [hstep]
      cases p.r <;> rfl
    constructor
    · rintro ⟨hram, -, hcopy⟩ -
      rw [hop, hstep] at hram
      have hbit := (withBit_eq_self_iff true p.b _).mp hram.symm
      refine ⟨hbit, fun hr => ?_⟩
      rw [← hget, hcopy hr, hop, (withBit_eq_self_iff true p.b _).mpr hbit]
    · intro hcond
      obtain ⟨hbit, hreg⟩ := hcond rfl
      have hsame := (withBit_eq_self_iff true p.b _).mpr hbit
      refine ⟨?_, fun a _ => by rw [hstep]; rfl, fun hr => ?_⟩
      · rw [hop, hsame, hstep]
        rfl
      · rw [hget, hop, hsame, hreg hr]
  | false =>
    obtain ⟨hram, hregs⟩ := hres hop
    refine iff_of_true ⟨?_, fun a ha => ?_, fun hr => ?_⟩ nofun
    · rw [hram, hop, Function.update_self]
    · rw [hram, Function.update_of_ne ha]
    · rw [hop]
      exact get_copied hr _ _ hregs

/-- `SET` and `RES` are right exactly under their condition. -/
theorem bit_right_iff (p : BitInst) (s : Machine) (h : s.At p.codes) : p.Right s ↔ p.Condition s := by
  obtain ⟨place, set, b, r⟩ := p
  cases place with
  | named => exact (changesOperand_iff (p := ⟨.named, set, b, r⟩) h).trans (bitDone_eq_iff set b r s)
  | indexed x d => exact changesMemory_iff (p := ⟨.indexed x d, set, b, r⟩) h

/-- `RES 0,B` and `BIT 0,B`, with 0xFF in B. -/
def clearing : Machine :=
  { Machine.start (fun a => if a = 1 then 0x80 else if a = 3 then 0x40 else 0xCB) with
    regs := { Regs.zero with BC := { h := 0xFF, l := 0 } } }

/-- The bit is cleared, and the test shows it. -/
theorem bit_right_clearing : BitInst.Right ⟨.named, false, 0, .B⟩ clearing ∧ clearing.step.regs.BC.h = 0xFE ∧
    clearing.step.step.regs.F &&& BIT_Z ≠ 0 := by
  have hright : BitInst.ChangesOperand ⟨.named, false, 0, .B⟩ clearing :=
    (bit_right_iff ⟨.named, false, 0, .B⟩ clearing ⟨by decide, by decide, trivial⟩).mpr ⟨nofun, fun _ => nofun⟩
  have hB : clearing.step.regs.BC.h = 0xFE := by decide
  have htest : clearing.step.At [0xCB, testCode 0 .B] := ⟨by decide, by decide, trivial⟩
  exact ⟨hright, hB, fun hZ => nomatch (hright.test htest).mp hZ⟩

/-- `SET 0,B` leaves 0 in B. -/
def setting : Machine := .start fun a => if a = 0 then 0xCB else 0xC0

/-- The bit is not set. -/
theorem set_0_B_fails : setting.At (BitInst.codes ⟨.named, true, 0, .B⟩) ∧ setting.step.regs.BC.h = 0 ∧
    ¬ BitInst.Right ⟨.named, true, 0, .B⟩ setting := by
  have hB : setting.step.regs.BC.h = 0 := by decide
  refine ⟨⟨by decide, by decide, trivial⟩, hB, fun h => ?_⟩
  have hstep := congrArg (fun p : Res × Machine => p.2.regs.BC.h) h.once
  exact absurd (hB.symm.trans hstep) (by decide)

end Ucsim.Z80
