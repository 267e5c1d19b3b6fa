import Ucsim.Hc08.Exec

/-!
# The condition code register

Two of its bits are 1. Every instruction keeps them: flags are set and cleared one by one, and where the whole register
is loaded the two bits are put back.
-/

namespace Ucsim.Hc08

/-! ## The bits -/

/-- Bits 5 and 6 of the condition code register are 1. -/
def Regs.Ones (r : Regs) : Prop := r.P &&& 0x60 = 0x60

instance (r : Regs) : Decidable r.Ones := inferInstanceAs (Decidable (_ = _))

section Flags

variable {r : Regs} {f : BitVec 8} (c : Bool) (v : BitVec 8)

theorem or_ones (x y : BitVec 8) (h : x &&& 0x60 = 0x60) : (x ||| y) &&& 0x60 = 0x60 := by
  rw [BitVec.and_or_distrib_right, h]
  ext i hi
  simp only [BitVec.getElem_or, BitVec.getElem_and]
  cases (0x60 : BitVec 8)[i] <;> cases y[i] <;> rfl

theorem and_ones (x y : BitVec 8) (h : x &&& 0x60 = 0x60) (hy : y &&& 0x60 = 0x60) : x &&& y &&& 0x60 = 0x60 := by
  rw [BitVec.and_assoc, hy, h]

/-- The bits are put back. -/
theorem ones_back (r : Regs) (v : BitVec 8) : Regs.Ones { r with P := v ||| 0x60 } := by
  show (v ||| 0x60) &&& 0x60 = 0x60
  rw [BitVec.or_comm]
  exact or_ones _ _ rfl

theorem ones_set (h : r.Ones) : (r.FLAG_SET f).Ones := or_ones _ _ h

theorem ones_clear (hf : ~~~f &&& 0x60 = 0x60) (h : r.Ones) : (r.FLAG_CLEAR f).Ones := and_ones _ _ h hf

theorem ones_assign (hf : ~~~f &&& 0x60 = 0x60) (h : r.Ones) : (r.FLAG_ASSIGN f c).Ones := by
  cases c with
  | true => exact ones_set h
  | false => exact ones_clear hf h

theorem ones_NZ (h : r.Ones) : (r.FLAG_NZ v).Ones := or_ones _ _ (or_ones _ _ (and_ones _ _ h rfl))

end Flags

/-! ## Programs -/

/-- A program keeps the two bits. -/
def KeepsOnes {α : Type} (x : Prog α) : Prop := ∀ s : Machine, s.regs.Ones → (x.run s).2.regs.Ones

namespace KeepsOnes

variable {α β : Type} {x : Prog α} {f : α → Prog β}

theorem pure (a : α) : KeepsOnes (pure a) := fun _ hs => hs

theorem bind (hx : KeepsOnes x) (hf : ∀ a, KeepsOnes (f a)) : KeepsOnes (x >>= f) := fun s hs =>
  hf _ _ (hx s hs)

theorem ite {c : Prop} [Decidable c] {x y : Prog α} (hx : KeepsOnes x) (hy : KeepsOnes y) :
    KeepsOnes (if c then x else y) := by
  by_cases h : c
  · rwa [if_pos h]
  · rwa [if_neg h]

theorem onRegs {g : Regs → Regs} (hg : ∀ r : Regs, r.Ones → (g r).Ones) : KeepsOnes (onRegs g) := fun s hs => hg s.regs hs

theorem go {x : Prog Unit} (hx : KeepsOnes x) : KeepsOnes (go x) := hx.bind fun _ => pure _

theorem reg (g : Regs → α) : KeepsOnes (reg g) := fun _ hs => hs

theorem fetch : KeepsOnes fetch := fun _ hs => hs

theorem fetch2 : KeepsOnes fetch2 := fun _ hs => hs

theorem get1 (addr : Int) : KeepsOnes (get1 addr) := fun _ hs => hs

theorem get2 (addr : Int) : KeepsOnes (get2 addr) := fun _ hs => hs

theorem setPC (addr : Int) : KeepsOnes (setPC addr) := fun _ hs => hs

theorem store1 (addr : Int) (val : BitVec 8) : KeepsOnes (store1 addr val) := by
  intro s hs
  have hregs : ((Hc08.store1 addr val).run s).2.regs = s.regs := by
    show ((s.touched addr).stored addr val).regs = _
    unfold Machine.stored
    split <;> rfl
  rwa [hregs]

theorem store2 (addr : Int) (val : BitVec 16) : KeepsOnes (store2 addr val) :=
  (store1 _ _).bind fun _ => store1 _ _

theorem fetchea (code : BitVec 8) (pre : Bool) : KeepsOnes (fetchea code pre) := by
  intro s hs
  have hlt := code.isLt
  unfold Hc08.fetchea
  cases pre <;> split <;> exact hs

theorem operand (code : BitVec 8) (pre : Bool) : KeepsOnes (operand code pre) :=
  ite fetch ((fetchea code pre).bind fun _ => get1 _)

theorem branchIf (taken : Bool) (ofs : BitVec 8) : KeepsOnes (branchIf taken ofs) := by
  cases taken <;> exact fun _ hs => hs

theorem moveSP (d : BitVec 16) : KeepsOnes (moveSP d) := onRegs fun _ h => h

theorem push1 (val : BitVec 8) : KeepsOnes (push1 val) :=
  (reg _).bind fun _ => (store1 _ _).bind fun _ => onRegs fun _ h => h

theorem push2 (val : BitVec 16) : KeepsOnes (push2 val) :=
  (reg _).bind fun _ => (store2 _ _).bind fun _ => onRegs fun _ h => h

theorem pushPC : KeepsOnes pushPC := bind (x := get) (fun _ hs => hs) fun _ => push2 _

theorem pop2 : KeepsOnes pop2 := (reg _).bind fun _ => (get2 _).bind fun _ => (moveSP _).bind fun _ => pure _

theorem pop1 {put : BitVec 8 → Regs → Regs} (hput : ∀ v r, r.Ones → (put v r).Ones) : KeepsOnes (pop1 put) :=
  (reg _).bind fun _ => (get1 _).bind fun v => (onRegs (hput v)).bind fun _ => moveSP 1

/-! ## Shapes of instructions -/

variable {code : BitVec 8} {pre : Bool}

theorem operation {g : BitVec 8 → Regs → Regs} (hg : ∀ m r, r.Ones → (g m r).Ones) (code : BitVec 8) (pre : Bool) :
    KeepsOnes (operation g code pre) := go ((operand code pre).bind fun m => onRegs (hg m))

theorem storing (g : Regs → BitVec 8) (code : BitVec 8) (pre : Bool) : KeepsOnes (storing g code pre) :=
  go ((fetchea code pre).bind fun _ => (onRegs fun _ h => ones_NZ _ (ones_clear rfl h)).bind fun _ =>
    (reg _).bind fun _ => store1 _ _)

theorem place (code : BitVec 8) (pre : Bool) : KeepsOnes (place code pre) :=
  ite ((reg _).bind fun _ => pure _) (ite ((reg _).bind fun _ => pure _)
    ((fetchea code pre).bind fun _ => (get1 _).bind fun _ => pure _))

theorem putPlace (code : BitVec 8) (ea : Int) (val : BitVec 8) : KeepsOnes (putPlace code ea val) :=
  ite (onRegs fun _ h => h) (ite (onRegs fun _ h => h) (store1 _ _))

theorem updating {g : BitVec 8 → Regs → BitVec 8 × Regs} (hg : ∀ m r, r.Ones → (g m r).2.Ones) (code : BitVec 8)
    (pre : Bool) : KeepsOnes (updating g code pre) :=
  go ((place code pre).bind fun p => (reg _).bind fun _ => (onRegs (hg p.2)).bind fun _ => putPlace _ _ _)

theorem shifting (out : BitVec 8 → Bool) (result : BitVec 8 → Regs → BitVec 8) (code : BitVec 8) (pre : Bool) :
    KeepsOnes (shifting out result code pre) :=
  updating (fun _ _ h => ones_assign _ rfl (ones_NZ _ (ones_assign _ rfl h))) code pre

theorem inherent {g : Regs → Regs} (hg : ∀ r : Regs, r.Ones → (g r).Ones) : KeepsOnes (inherent g) := go (onRegs hg)

/-! ## The instructions -/

section Registers

variable {r : Regs} (h : r.Ones) (v : BitVec 8)
include h

theorem withA : Regs.Ones { r with A := v } := h

theorem withX : Regs.Ones { r with X := v } := h

theorem resultFlags (operand1 operand2 : BitVec 8) (result : BitVec 32) :
    (resultFlags operand1 operand2 result r).Ones := ones_assign _ rfl (ones_assign _ rfl (ones_NZ _ h))

theorem halfFlag (operand1 operand2 : BitVec 8) (result : BitVec 32) : (halfFlag operand1 operand2 result r).Ones :=
  ones_assign _ rfl h

theorem loading : ((r.FLAG_CLEAR BIT_V).FLAG_NZ v).Ones := ones_NZ _ (ones_clear rfl h)

end Registers

section Accumulator

variable (code : BitVec 8) (pre : Bool)

theorem inst_lda : KeepsOnes (inst_lda code pre) := operation (fun _ _ h => loading (withA h _) _) code pre

theorem inst_ldx : KeepsOnes (inst_ldx code pre) := operation (fun _ _ h => loading (withX h _) _) code pre

theorem inst_add : KeepsOnes (inst_add code pre) :=
  operation (fun _ _ h => withA (halfFlag (resultFlags h _ _ _) _ _ _) _) code pre

theorem inst_adc : KeepsOnes (inst_adc code pre) :=
  operation (fun _ _ h => withA (halfFlag (resultFlags h _ _ _) _ _ _) _) code pre

theorem inst_sub : KeepsOnes (inst_sub code pre) := operation (fun _ _ h => withA (resultFlags h _ _ _) _) code pre

theorem inst_sbc : KeepsOnes (inst_sbc code pre) := operation (fun _ _ h => withA (resultFlags h _ _ _) _) code pre

theorem inst_cmp : KeepsOnes (inst_cmp code pre) := operation (fun _ _ h => resultFlags h _ _ _) code pre

theorem inst_cpx : KeepsOnes (inst_cpx code pre) := operation (fun _ _ h => resultFlags h _ _ _) code pre

theorem inst_and : KeepsOnes (inst_and code pre) := operation (fun _ _ h => loading (withA h _) _) code pre

theorem inst_bit : KeepsOnes (inst_bit code pre) := operation (fun _ _ h => loading h _) code pre

theorem inst_ora : KeepsOnes (inst_ora code pre) := operation (fun _ _ h => loading (withA h _) _) code pre

theorem inst_eor : KeepsOnes (inst_eor code pre) := operation (fun _ _ h => loading (withA h _) _) code pre

theorem inst_ais : KeepsOnes (inst_ais code pre) := go (fetch.bind fun _ => moveSP _)

theorem inst_aix : KeepsOnes (inst_aix code pre) := go (fetch.bind fun _ => onRegs fun _ h => h)

theorem inst_jmp : KeepsOnes (inst_jmp code pre) := go ((fetchea code pre).bind fun _ => setPC _)

theorem inst_jsr : KeepsOnes (inst_jsr code pre) :=
  go ((fetchea code pre).bind fun _ => pushPC.bind fun _ => setPC _)

theorem inst_bsr : KeepsOnes (inst_bsr code pre) := go (fetch.bind fun _ => pushPC.bind fun _ => branchIf true _)

end Accumulator

section Operands

variable (code : BitVec 8) (pre : Bool)

theorem inst_inc : KeepsOnes (inst_inc code pre) := updating (fun _ _ h => ones_assign _ rfl (ones_NZ _ h)) code pre

theorem decFlags {r : Regs} (h : r.Ones) (m : BitVec 8) : (decFlags m r).Ones := ones_assign _ rfl (ones_NZ _ h)

theorem inst_dec : KeepsOnes (inst_dec code pre) := updating (fun m _ h => decFlags h m) code pre

theorem inst_com : KeepsOnes (inst_com code pre) :=
  updating (fun _ _ h => ones_clear rfl (ones_NZ _ (ones_set h))) code pre

theorem inst_neg : KeepsOnes (inst_neg code pre) :=
  updating (fun _ _ h => ones_NZ _ (ones_assign _ rfl (ones_assign _ rfl h))) code pre

theorem inst_tst : KeepsOnes (inst_tst code pre) :=
  go ((place code pre).bind fun _ => onRegs fun _ h => ones_clear rfl (ones_NZ _ h))

theorem inst_clr : KeepsOnes (inst_clr code pre) :=
  go ((onRegs fun _ h => ones_set (ones_clear rfl (ones_clear rfl h))).bind fun _ =>
    ite (onRegs fun _ h => withA h _) (ite (onRegs fun _ h => withX h _) ((fetchea code pre).bind fun _ => store1 _ _)))

theorem inst_bitsetclear : KeepsOnes (inst_bitsetclear code pre) :=
  go ((fetchea code pre).bind fun _ => (get1 _).bind fun _ => ite (store1 _ _) (store1 _ _))

theorem inst_dbnz : KeepsOnes (inst_dbnz code pre) :=
  go ((place code pre).bind fun _ => (onRegs fun _ h => decFlags h _).bind fun _ => (putPlace _ _ _).bind fun _ =>
    fetch.bind fun _ => branchIf _ _)

theorem inst_bittestsetclear : KeepsOnes (inst_bittestsetclear code pre) :=
  go ((fetchea code pre).bind fun _ => (get1 _).bind fun _ => fetch.bind fun _ => (branchIf _ _).bind fun _ =>
    onRegs fun _ h => ones_assign _ rfl h)

theorem incx : KeepsOnes incx := onRegs fun _ h => h

theorem cbeqOperands : KeepsOnes (cbeqOperands code pre) :=
  ite ((reg _).bind fun _ => fetch.bind fun _ => pure _)
    (ite ((reg _).bind fun _ => fetch.bind fun _ => pure _)
      ((fetchea code pre).bind fun _ => (get1 _).bind fun _ => (reg _).bind fun _ => pure _))

theorem inst_cbeq : KeepsOnes (inst_cbeq code pre) :=
  go ((cbeqOperands code pre).bind fun _ => fetch.bind fun _ => (branchIf _ _).bind fun _ => ite incx (pure _))

theorem inst_condbranch : KeepsOnes (inst_condbranch code pre) := by
  refine (reg _).bind fun t => ?_
  cases t with
  | none => exact pure _
  | some taken => exact go (fetch.bind fun _ => branchIf _ _)

end Operands

section Others

variable (code : BitVec 8) (pre : Bool)

theorem inst_transfer : KeepsOnes (inst_transfer code pre) := by
  unfold Hc08.inst_transfer
  split
  · exact inherent fun r _ => ones_back r r.A
  · exact inherent fun _ h => h
  · exact inherent fun _ h => h
  · exact inherent fun _ h => h
  · exact inherent fun _ h => h
  · exact inherent fun _ h => h
  · exact pure _

theorem inst_setclearflags : KeepsOnes (inst_setclearflags code pre) := by
  unfold Hc08.inst_setclearflags
  split
  · exact inherent fun _ h => ones_clear rfl h
  · exact inherent fun _ h => ones_set h
  · exact inherent fun _ h => ones_clear rfl h
  · exact inherent fun _ h => ones_set h
  · exact pure _

theorem inst_rsp : KeepsOnes (inst_rsp code pre) := inherent fun _ h => h

theorem inst_nsa : KeepsOnes (inst_nsa code pre) := inherent fun _ h => withA h _

theorem inst_clrh : KeepsOnes (inst_clrh code pre) :=
  inherent fun _ h => ones_set (f := BIT_Z) (ones_clear (f := BIT_N) rfl (ones_clear (f := BIT_V) rfl h))

theorem inst_stop : KeepsOnes (inst_stop code pre) := inherent fun _ h => ones_clear rfl h

theorem inst_wait : KeepsOnes (inst_wait code pre) := inherent fun _ h => ones_clear rfl h

theorem inst_daa : KeepsOnes (inst_daa code pre) := by
  refine inherent fun r h => ?_
  have hcarry (c : Prop) [Decidable c] : (if c then (r.FLAG_CLEAR BIT_C).FLAG_SET BIT_C else r.FLAG_CLEAR BIT_C).Ones := by
    split
    · exact ones_set (ones_clear rfl h)
    · exact ones_clear rfl h
  exact hcarry _

theorem inst_mul : KeepsOnes (inst_mul code pre) :=
  inherent fun _ h => ones_clear rfl (ones_clear rfl (withX (withA h _) _))

theorem inst_div : KeepsOnes (inst_div code pre) := by
  refine inherent fun r h => ?_
  dsimp only
  split
  · split
    · exact ones_assign _ rfl (ones_clear rfl h)
    · exact ones_set h
  · exact ones_set h

theorem pushReg (g : Regs → BitVec 8) : KeepsOnes (pushReg g) := (reg _).bind fun _ => push1 _

theorem inst_pushpull : KeepsOnes (inst_pushpull code pre) := by
  unfold Hc08.inst_pushpull
  split
  · exact go (pop1 fun _ _ h => h)
  · exact go (pushReg _)
  · exact go (pop1 fun _ _ h => h)
  · exact go (pushReg _)
  · exact go (pop1 fun _ _ h => h)
  · exact go (pushReg _)
  · exact pure _

theorem inst_rts : KeepsOnes (inst_rts code pre) := go (pop2.bind fun _ => setPC _)

/-- What sets the bits does not need them. -/
theorem setting {x y : Prog Unit} {g : Regs → Regs} (hg : ∀ r, (g r).Ones) (hy : KeepsOnes y) :
    KeepsOnes (do x; Hc08.onRegs g; y) := fun _ _ => hy _ (hg _)

theorem popRegs : KeepsOnes popRegs := by
  have hrest : KeepsOnes (do Hc08.pop1 Regs.putA; Hc08.pop1 Regs.putX : Prog Unit) :=
    (pop1 fun _ _ h => withA h _).bind fun _ => pop1 fun _ _ h => withX h _
  exact setting (x := Hc08.pop1 Regs.putP) (fun r => ones_back r r.P) hrest

theorem inst_rti : KeepsOnes (inst_rti code pre) := go (popRegs.bind fun _ => pop2.bind fun _ => setPC _)

theorem pushRegs : KeepsOnes pushRegs := (pushReg _).bind fun _ => (pushReg _).bind fun _ => pushReg _

theorem inst_swi : KeepsOnes (inst_swi code pre) :=
  go (pushPC.bind fun _ => pushRegs.bind fun _ => (onRegs fun _ h => ones_clear rfl h).bind fun _ =>
    (get2 _).bind fun _ => setPC _)

theorem movFlags (m : BitVec 8) : KeepsOnes (Hc08.onRegs (movFlags m)) := onRegs fun _ h => ones_clear rfl (ones_NZ _ h)

theorem inst_mov : KeepsOnes (inst_mov code pre) := by
  unfold Hc08.inst_mov
  split
  · exact go (fetch.bind fun _ => (get1 _).bind fun _ => fetch.bind fun _ => (store1 _ _).bind fun _ => movFlags _)
  · exact go (fetch.bind fun _ => (get1 _).bind fun _ => (reg _).bind fun _ => (store1 _ _).bind fun _ =>
      incx.bind fun _ => movFlags _)
  · exact go (fetch.bind fun _ => fetch.bind fun _ => (store1 _ _).bind fun _ => movFlags _)
  · exact go ((reg _).bind fun _ => (get1 _).bind fun _ => fetch.bind fun _ => (store1 _ _).bind fun _ =>
      incx.bind fun _ => movFlags _)
  · exact pure _

theorem hxFlags {r : Regs} (h : r.Ones) : (hxFlags r).Ones := ones_assign _ rfl (ones_assign _ rfl (ones_clear rfl h))

theorem inst_sthx : KeepsOnes (inst_sthx code pre) :=
  go (fetch.bind fun _ => (reg _).bind fun _ => (store1 _ _).bind fun _ => (reg _).bind fun _ =>
    (store1 _ _).bind fun _ => onRegs fun _ h => hxFlags h)

theorem inst_ldhx : KeepsOnes (inst_ldhx code pre) :=
  ite (go (fetch.bind fun _ => fetch.bind fun _ => onRegs fun r h => hxFlags (r := { r with H := _, X := _ }) h))
    (ite (go (fetch.bind fun _ => (get1 _).bind fun _ => (get1 _).bind fun _ =>
      onRegs fun r h => hxFlags (r := { r with H := _, X := _ }) h)) (pure _))

theorem cphxFlags (m : BitVec 16) : KeepsOnes (Hc08.onRegs (cphxFlags m)) :=
  onRegs fun _ h => ones_assign _ rfl (ones_assign _ rfl (ones_assign _ rfl (ones_assign _ rfl h)))

theorem inst_cphx : KeepsOnes (inst_cphx code pre) :=
  ite (go (fetch2.bind fun _ => cphxFlags _))
    (ite (go (fetch.bind fun _ => (get1 _).bind fun _ => (get1 _).bind fun _ => cphxFlags _)) (pure _))

end Others

/-! ## Dispatching -/

section Dispatch

variable (code : BitVec 8)

theorem inst_sta (pre : Bool) : KeepsOnes (inst_sta code pre) := storing _ code pre

theorem inst_stx (pre : Bool) : KeepsOnes (inst_stx code pre) := storing _ code pre

theorem accumulatorCodes : KeepsOnes (accumulatorCodes code) := by
  unfold Hc08.accumulatorCodes
  split
  · exact inst_sub code false
  · exact inst_cmp code false
  · exact inst_sbc code false
  · exact inst_cpx code false
  · exact inst_and code false
  · exact inst_bit code false
  · exact inst_lda code false
  · exact ite (inst_ais code false) (inst_sta code false)
  · exact inst_eor code false
  · exact inst_adc code false
  · exact inst_ora code false
  · exact inst_add code false
  · exact ite (pure _) (inst_jmp code false)
  · exact ite (inst_bsr code false) (inst_jsr code false)
  · exact inst_ldx code false
  · exact ite (inst_aix code false) (inst_stx code false)
  · exact pure _

theorem operandCodes : KeepsOnes (operandCodes code) := by
  unfold Hc08.operandCodes
  split
  · exact inst_neg code false
  · exact inst_cbeq code false
  · split
    · exact inst_mul _ false
    · exact inst_div _ false
    · exact inst_nsa _ false
    · exact inst_daa _ false
    · exact pure _
  · exact inst_com code false
  · exact shifting _ _ code false
  · split
    · exact inst_sthx _ false
    · exact inst_ldhx _ false
    · exact inst_ldhx _ false
    · exact inst_cphx _ false
    · exact inst_cphx _ false
    · exact pure _
  · exact shifting _ _ code false
  · exact shifting _ _ code false
  · exact shifting _ _ code false
  · exact shifting _ _ code false
  · exact inst_dec code false
  · exact inst_dbnz code false
  · exact inst_inc code false
  · exact inst_tst code false
  · split
    · exact inst_mov _ false
    · exact inst_mov _ false
    · exact inst_mov _ false
    · exact inst_mov _ false
    · exact pure _
  · exact inst_clr code false
  · exact pure _

theorem prefixedCodes : KeepsOnes (prefixedCodes code) := by
  unfold Hc08.prefixedCodes
  split
  · split
    · exact inst_neg code true
    · exact inst_cbeq code true
    · exact inst_com code true
    · exact shifting _ _ code true
    · exact shifting _ _ code true
    · exact shifting _ _ code true
    · exact shifting _ _ code true
    · exact shifting _ _ code true
    · exact inst_dec code true
    · exact inst_dbnz code true
    · exact inst_inc code true
    · exact inst_tst code true
    · exact inst_clr code true
    · exact pure _
  -- the rows D and E are the same
  iterate 2
    · split
      · exact inst_sub code true
      · exact inst_cmp code true
      · exact inst_sbc code true
      · exact inst_cpx code true
      · exact inst_and code true
      · exact inst_bit code true
      · exact inst_lda code true
      · exact inst_sta code true
      · exact inst_eor code true
      · exact inst_adc code true
      · exact inst_ora code true
      · exact inst_add code true
      · exact pure _
      · exact fun _ hs => hs
      · exact inst_ldx code true
      · exact inst_stx code true
      · exact pure _
  · exact pure _

theorem stackCodes : KeepsOnes (stackCodes code) := by
  unfold Hc08.stackCodes
  split
  · exact inst_rti code false
  · exact inst_rts code false
  · exact inst_swi code false
  · exact inst_transfer code false
  · exact inst_transfer code false
  · exact inst_pushpull code false
  · exact inst_pushpull code false
  · exact inst_pushpull code false
  · exact inst_pushpull code false
  · exact inst_pushpull code false
  · exact inst_pushpull code false
  · exact inst_clrh code false
  · exact inst_stop code false
  · exact inst_wait code false
  · exact pure _

theorem registerCodes : KeepsOnes (registerCodes code) := by
  unfold Hc08.registerCodes
  split
  · exact inst_condbranch code false
  · exact inst_condbranch code false
  · exact inst_condbranch code false
  · exact inst_condbranch code false
  · exact inst_transfer code false
  · exact inst_transfer code false
  · exact inst_transfer code false
  · exact inst_transfer code false
  · exact inst_setclearflags code false
  · exact inst_setclearflags code false
  · exact inst_setclearflags code false
  · exact inst_setclearflags code false
  · exact inst_rsp code false
  · exact pure _
  · exact fetch.bind fun _ => prefixedCodes _
  · exact accumulatorCodes code

theorem dispatch : KeepsOnes (dispatch code) := by
  unfold Hc08.dispatch
  split
  · exact inst_bittestsetclear code false
  · exact inst_bitsetclear code false
  · exact inst_condbranch code false
  · exact operandCodes code
  · exact operandCodes code
  · exact operandCodes code
  · exact operandCodes code
  · exact operandCodes code
  · exact stackCodes code
  · exact registerCodes code
  · exact accumulatorCodes code
  · exact accumulatorCodes code
  · exact accumulatorCodes code
  · exact accumulatorCodes code
  · exact accumulatorCodes code
  · exact accumulatorCodes code
  · exact pure _

end Dispatch

theorem execute : KeepsOnes execute := fetch.bind fun code => bind (x := tick 1) (fun _ hs => hs) fun _ => dispatch code

/-- Taking the reset vector. -/
theorem vector : KeepsOnes (do
    Hc08.setPC (← Hc08.get2 0xfffe).toNat
    Hc08.onRegs fun r => { r with VECTOR := false }
    return .go : Prog Res) := by
  have hclear : KeepsOnes (Hc08.onRegs fun r => { r with VECTOR := false }) := onRegs fun _ h => h
  exact (get2 0xfffe).bind fun v => (setPC v.toNat).bind fun _ => hclear.bind fun _ => pure _

theorem exec_inst : KeepsOnes exec_inst := by
  unfold Hc08.exec_inst
  exact bind (x := get) (fun _ hs => hs) fun _ => ite vector execute

end KeepsOnes

/-! ## Runs from reset -/

/-- The states of runs from reset. -/
inductive FromReset (m : Machine) : Machine → Prop
  | reset : FromReset m m.reset
  | step {s : Machine} (h : FromReset m s) : FromReset m s.step

theorem FromReset.ones {m s : Machine} (h : FromReset m s) : s.regs.Ones := by
  induction h with
  | reset => exact (by decide : (0x60 : BitVec 8) &&& 0x60 = 0x60)
  | step _ ih => exact KeepsOnes.exec_inst _ ih

end Ucsim.Hc08
