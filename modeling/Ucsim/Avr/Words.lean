import Ucsim.Avr.Flags

/-!
# Words in two registers

`ADIW` and `SBIW`, and the pointers of `LD` and `ST` that move.
-/

namespace Ucsim.Avr

/-! ## Words -/

/-- The word in two cells. -/
def Machine.pair (s : Machine) (l h : BitVec 16) : BitVec 16 := s.ram h ++ s.ram l

theorem pair_toNat (s : Machine) (l h : BitVec 16) : (s.pair l h).toNat = 2 ^ 8 * (s.ram h).toNat + (s.ram l).toNat := by
  unfold Machine.pair
  rw [BitVec.toNat_append, Nat.shiftLeft_eq, Nat.mul_comm, ← Nat.two_pow_add_eq_or_of_lt (s.ram l).isLt]

/-- As the code puts it together. -/
theorem pair_eq (s : Machine) (l h : BitVec 16) : (s.ram h).setWidth 16 * 256 + (s.ram l).setWidth 16 = s.pair l h := by
  have hl := (s.ram l).isLt
  have hh := (s.ram h).isLt
  have h256 : (256 : BitVec 16).toNat = 256 := rfl
  apply BitVec.eq_of_toNat_eq
  rw [pair_toNat, BitVec.toNat_add, BitVec.toNat_mul, BitVec.toNat_setWidth, BitVec.toNat_setWidth, h256]
  omega

/-- Two words are the same if their bytes are. -/
theorem pair_congr_iff {s t : Machine} {l h : BitVec 16} :
    t.pair l h = s.pair l h ↔ t.ram l = s.ram l ∧ t.ram h = s.ram h := by
  have hs := (s.ram l).isLt
  have ht := (t.ram l).isLt
  rw [← BitVec.toNat_inj, ← BitVec.toNat_inj, ← BitVec.toNat_inj, pair_toNat, pair_toNat]
  omega

theorem pair_of_bytes {s : Machine} {l h v : BitVec 16} (hl : s.ram l = v.setWidth 8) (hh : s.ram h = (v >>> 8).setWidth 8) :
    s.pair l h = v := by
  have hv := v.isLt
  apply BitVec.eq_of_toNat_eq
  rw [pair_toNat, hl, hh, BitVec.toNat_setWidth, BitVec.toNat_setWidth, BitVec.toNat_ushiftRight, Nat.shiftRight_eq_div_pow]
  omega

/-! ## Constants -/

/-- The word that `ADIW` and `SBIW` work on. -/
def Machine.Rd (s : Machine) (code : BitVec 16) : BitVec 16 := s.pair (dl code) (dl code + 1)

theorem K6_lt (code : BitVec 16) : (K6 code).toNat < 64 := by
  have hhigh : (bits code 0xc0 2).toNat ≤ 0xc0 / 2 ^ 2 := bits_le code 0xc0 2
  have hlow : (code &&& 0xf).toNat ≤ 0xf := by
    rw [BitVec.toNat_and]
    exact Nat.and_le_right
  unfold K6
  rw [BitVec.toNat_or]
  exact Nat.or_lt_two_pow (n := 6) (by omega) (by omega)

/-- A constant from 32 on is taken for one below 0. -/
theorem signed6_toNat {K : BitVec 16} (h : K.toNat < 64) :
    (signed6 K).toNat = if K.toNat < 32 then K.toNat else K.toNat + 0xffc0 := by
  have hall : ∀ k < 64, (signed6 (BitVec.ofNat 16 k)).toNat = if k < 32 then k else k + 0xffc0 := by decide
  have hK := hall K.toNat h
  rwa [BitVec.ofNat_toNat, BitVec.setWidth_eq] at hK

section Flags

variable (D res sreg : BitVec 16)

attribute [local simp] BIT_C BIT_S BIT_V BIT_N BIT_Z BIT_SHIFT and_0x8000

theorem adiw_flags_C : (adiw_flags D res sreg).getLsbD 0 = (!res.msb && D.msb) := by
  have hand : ~~~res &&& D &&& 0x8000 ≠ 0 ↔ res.msb = false ∧ D.msb = true := by
    simp [BitVec.msb_eq_getLsbD_last]
  unfold adiw_flags
  rw [BitVec.getLsbD_eq_getElem (by decide), putIf_getElem]
  cases hres : res.msb <;> cases hD : D.msb <;> simp_all

theorem sbiw_flags_C : (sbiw_flags D res sreg).getLsbD 0 = (res.msb && !D.msb) := by
  have hborrow : 0x8000 &&& res &&& ~~~D ≠ 0 ↔ res.msb = true ∧ D.msb = false := by
    rw [BitVec.and_assoc, BitVec.and_comm]
    simp [BitVec.msb_eq_getLsbD_last]
  unfold sbiw_flags
  rw [BitVec.getLsbD_eq_getElem (by decide), orIf_getElem]
  cases hres : res.msb <;> cases hD : D.msb <;> simp_all

end Flags

/-! ## Additions and subtractions -/

/-- The result of `ADIW` and its carry. -/
def AdiwRight (s : Machine) : Prop :=
  s.step.Rd s.code = s.Rd s.code + K6 s.code ∧
    ((s.step.ram SREG).getLsbD 0 = true ↔ 0xffff < (s.Rd s.code).toNat + (K6 s.code).toNat)

/-- The result of `SBIW` and its borrow. -/
def SbiwRight (s : Machine) : Prop :=
  s.step.Rd s.code = s.Rd s.code - K6 s.code ∧
    ((s.step.ram SREG).getLsbD 0 = true ↔ (s.Rd s.code).toNat < (K6 s.code).toNat)

section

variable {s : Machine}

theorem adiw_spec (h : s.code &&& 0xff00 = 0x9600) :
    s.step.Rd s.code = s.Rd s.code + K6 s.code ∧
      (s.step.ram SREG).getLsbD 0 = (!(s.Rd s.code + K6 s.code).msb && (s.Rd s.code).msb) := by
  obtain ⟨⟨sreg, hsreg⟩, hlow, hhigh⟩ := word_ram (decode_of_first h rfl (by decide)) (dl_lt s.code)
  rw [pair_eq] at hsreg hlow hhigh
  refine ⟨pair_of_bytes hlow hhigh, ?_⟩
  rw [hsreg, low_flag _ (by decide)]
  exact adiw_flags_C _ _ _

theorem sbiw_spec (h : s.code &&& 0xff00 = 0x9700) :
    s.step.Rd s.code = s.Rd s.code - signed6 (K6 s.code) ∧
      (s.step.ram SREG).getLsbD 0 = ((s.Rd s.code - signed6 (K6 s.code)).msb && !(s.Rd s.code).msb) := by
  obtain ⟨⟨sreg, hsreg⟩, hlow, hhigh⟩ := word_ram (decode_of_first h rfl (by decide)) (dl_lt s.code)
  rw [pair_eq] at hsreg hlow hhigh
  refine ⟨pair_of_bytes hlow hhigh, ?_⟩
  rw [hsreg, low_flag _ (by decide)]
  exact sbiw_flags_C _ _ _

/-- `SBIW` is right with a constant that it does not take for one below 0. -/
theorem sbiw_right_iff (h : s.code &&& 0xff00 = 0x9700) : SbiwRight s ↔ (K6 s.code).toNat < 32 := by
  obtain ⟨hword, hcarry⟩ := sbiw_spec h
  have hD := (s.Rd s.code).isLt
  have hK := K6_lt s.code
  have hsigned := signed6_toNat hK
  have hres : (s.Rd s.code - signed6 (K6 s.code)).toNat = (2 ^ 16 - (signed6 (K6 s.code)).toNat + (s.Rd s.code).toNat) % 2 ^ 16 :=
    BitVec.toNat_sub ..
  unfold SbiwRight
  rw [hword, hcarry, BitVec.msb_eq_decide, BitVec.msb_eq_decide, ← BitVec.toNat_inj, hres, BitVec.toNat_sub, hsigned,
    Bool.and_eq_true, decide_eq_true_iff, Bool.not_eq_true', decide_eq_false_iff_not]
  split_ifs with hsmall
  · refine iff_of_true ⟨rfl, ?_⟩ hsmall
    omega
  · refine iff_of_false (fun hright => ?_) hsmall
    have hsame := hright.1
    omega

theorem adiw_right (h : s.code &&& 0xff00 = 0x9600) : AdiwRight s := by
  obtain ⟨hword, hcarry⟩ := adiw_spec h
  have hD := (s.Rd s.code).isLt
  have hK := K6_lt s.code
  refine ⟨hword, ?_⟩
  rw [hcarry, BitVec.msb_eq_decide, BitVec.msb_eq_decide, BitVec.toNat_add, Bool.and_eq_true, decide_eq_true_iff,
    Bool.not_eq_true', decide_eq_false_iff_not]
  omega

/-- `SBIW` after `ADIW` with the same registers and the same constant. -/
theorem adiw_sbiw_iff (h : s.code &&& 0xff00 = 0x9600) (hnext : s.step.code = s.code ||| 0x0100) :
    s.step.step.Rd s.code = s.Rd s.code ↔ (K6 s.code).toNat < 32 := by
  have hcode : s.step.code &&& 0xff00 = 0x9700 := by
    rw [hnext, BitVec.and_or_distrib_right, h]
    rfl
  have hbits : ∀ mask n, mask &&& 0x0100 = 0 → bits s.step.code mask n = bits s.code mask n := by
    intro mask n hmask
    unfold bits
    have hclear : (0x0100 : BitVec 16) &&& mask = 0#16 := (BitVec.and_comm _ _).trans hmask
    rw [hnext, BitVec.and_or_distrib_right, hclear, BitVec.or_zero]
  have hK6 : K6 s.step.code = K6 s.code := by
    have hlow : s.step.code &&& 0xf = s.code &&& 0xf := hbits 0xf 0 rfl
    unfold K6
    rw [hbits 0xc0 2 rfl, hlow]
  have hdl : dl s.step.code = dl s.code := congrArg (fun n => 24 + 2 * n) (hbits 0x30 4 rfl)
  have hsub := (sbiw_spec hcode).1
  have hK := K6_lt s.code
  have hsigned := signed6_toNat hK
  unfold Machine.Rd at hsub ⊢
  rw [hdl, hK6] at hsub
  have hadd := (adiw_spec h).1
  unfold Machine.Rd at hadd
  rw [hsub, hadd, ← BitVec.toNat_inj, BitVec.toNat_sub, BitVec.toNat_add, hsigned]
  split_ifs with hsmall
  · exact iff_of_true (by omega) hsmall
  · exact iff_of_false (by omega) hsmall

end

/-! ## Pointers that move -/

inductive Pointer
  | X | Y | Z
  deriving DecidableEq

def Pointer.l : Pointer → BitVec 16
  | .X => XL
  | .Y => YL
  | .Z => ZL

def Pointer.h : Pointer → BitVec 16
  | .X => XH
  | .Y => YH
  | .Z => ZH

/-- A load or a store that counts its pointer up behind the access or down in front of it. -/
structure Access where
  pointer : Pointer
  load : Bool
  up : Bool
  deriving DecidableEq

namespace Access

def code (a : Access) : BitVec 16 :=
  (if a.load then 0x9000 else 0x9200) + (match a.pointer with | .X => 0xc | .Y => 0x8 | .Z => 0) + if a.up then 1 else 2

/-- The instruction of a code. -/
def inst (a : Access) : BitVec 16 → Inst :=
  match a.load, a.up with
  | true, true => ld_up a.pointer.l a.pointer.h
  | true, false => ld_down a.pointer.l a.pointer.h
  | false, true => st_up a.pointer.l a.pointer.h
  | false, false => st_down a.pointer.l a.pointer.h

/-- The pointer after it has moved. -/
def moved (a : Access) (v : BitVec 16) : BitVec 16 := if a.up then v + 1 else v - 1

/-- The address of the access. -/
def addr (a : Access) (v : BitVec 16) : BitVec 16 := if a.up then v else v - 1

end Access

section

variable {s : Machine} (a : Access)

theorem decode_access (h : s.code &&& 0xfe0f = a.code) : decode s.code = some (a.inst s.code) := by
  obtain ⟨pointer, load, up⟩ := a
  cases pointer <;> cases load <;> cases up <;> exact decode_of_first h rfl (by decide)

theorem l_ne_h (p : Pointer) : p.l ≠ p.h := by cases p <;> decide

/-- A byte that counts, in a `t_mem`. -/
theorem count_up (x : BitVec 8) : (x.setWidth 16 + 1) &&& 0xff = (x + 1).setWidth 16 := by decide +revert

theorem count_down (x : BitVec 8) : (x.setWidth 16 - 1) &&& 0xff = (x - 1).setWidth 16 := by decide +revert

/-- One byte of the memory is changed. -/
def Machine.setByte (s : Machine) (addr : BitVec 16) (val : BitVec 8) : Machine :=
  { s with ram := Function.update s.ram addr val }

/-- An index register that counts up carries into its high byte. -/
theorem index_up_run (l h : BitVec 16) (s : Machine) : ((index_up l h).run s).2 =
    let t := s.setByte l (s.ram l + 1)
    if s.ram l + 1 = 0 then t.setByte h (t.ram h + 1) else t := by
  have hrun : ((index_up l h).run s).2 = ((if ((s.ram l).setWidth 16 + 1) &&& 0xff = 0 then (do
      write h (((← read h) + 1) &&& 0xff)) else pure () : Prog Unit).run
        (s.setByte l ((((s.ram l).setWidth 16 + 1) &&& 0xff).setWidth 8))).2 := rfl
  have hzero : (s.ram l + 1).setWidth 16 = (0 : BitVec 16) ↔ s.ram l + 1 = 0 := by
    generalize s.ram l + 1 = x
    decide +revert
  have hhigh : ∀ t : Machine, ((do write h (((← read h) + 1) &&& 0xff) : Prog Unit).run t).2 = t.setByte h (t.ram h + 1) := by
    intro t
    change t.setByte h ((((t.ram h).setWidth 16 + 1) &&& 0xff).setWidth 8) = _
    rw [count_up, byte_word]
  rw [hrun, count_up, byte_word]
  dsimp only
  by_cases h0 : s.ram l + 1 = 0
  · rw [if_pos (hzero.mpr h0), if_pos h0, hhigh]
  · rw [if_neg (mt hzero.mp h0), if_neg h0]
    rfl

/-- An index register that counts down borrows from its high byte. -/
theorem index_down_run (l h : BitVec 16) (s : Machine) : (index_down l h).run s =
    let t := s.setByte l (s.ram l - 1)
    let u := if s.ram l = 0 then t.setByte h (t.ram h - 1) else t
    ((u.ram h).setWidth 16 * 256 + (s.ram l - 1).setWidth 16, u) := by
  have hrun : (index_down l h).run s = ((do
      if ((s.ram l).setWidth 16 - 1) &&& 0xff = 0xff then write h (((← read h) - 1) &&& 0xff)
      return (← read h) * 256 + (((s.ram l).setWidth 16 - 1) &&& 0xff) : Prog (BitVec 16)).run
        (s.setByte l ((((s.ram l).setWidth 16 - 1) &&& 0xff).setWidth 8))) := rfl
  have hzero : (s.ram l - 1).setWidth 16 = (0xff : BitVec 16) ↔ s.ram l = 0 := by
    generalize s.ram l = x
    decide +revert
  rw [hrun, count_down, byte_word]
  dsimp only
  by_cases h0 : s.ram l = 0
  · let t := s.setByte l (s.ram l - 1)
    let u := t.setByte h ((((t.ram h).setWidth 16 - 1) &&& 0xff).setWidth 8)
    rw [if_pos (hzero.mpr h0), if_pos h0]
    change ((u.ram h).setWidth 16 * 256 + (s.ram l - 1).setWidth 16, u) = _
    have hu : u = t.setByte h (t.ram h - 1) := by
      unfold u
      rw [count_down, byte_word]
    rw [hu]
  · rw [if_neg (mt hzero.mp h0), if_neg h0]
    rfl

theorem setByte_self (s : Machine) (addr : BitVec 16) (val : BitVec 8) : (s.setByte addr val).ram addr = val :=
  Function.update_self ..

theorem setByte_of_ne (s : Machine) {addr c : BitVec 16} (h : c ≠ addr) (val : BitVec 8) :
    (s.setByte addr val).ram c = s.ram c := Function.update_of_ne h ..

theorem index_up_pair {l h : BitVec 16} (hne : l ≠ h) (s : Machine) :
    ((index_up l h).run s).2.pair l h = s.pair l h + 1 := by
  have hl := (s.ram l).isLt
  have hh := (s.ram h).isLt
  have hzero : s.ram l + 1 = 0 ↔ (s.ram l).toNat = 0xff := by bv_omega
  apply BitVec.eq_of_toNat_eq
  rw [index_up_run, BitVec.toNat_add, pair_toNat, pair_toNat]
  dsimp only
  split_ifs with h0
  · rw [setByte_self, setByte_of_ne _ hne, setByte_self, setByte_of_ne _ hne.symm, h0, BitVec.toNat_add]
    have hff := hzero.mp h0
    change 2 ^ 8 * (((s.ram h).toNat + 1) % 2 ^ 8) + 0 = (2 ^ 8 * (s.ram h).toNat + (s.ram l).toNat + 1) % 2 ^ 16
    omega
  · rw [setByte_self, setByte_of_ne _ hne.symm, BitVec.toNat_add]
    have hff := mt hzero.mpr h0
    change 2 ^ 8 * (s.ram h).toNat + ((s.ram l).toNat + 1) % 2 ^ 8 = (2 ^ 8 * (s.ram h).toNat + (s.ram l).toNat + 1) % 2 ^ 16
    omega

theorem index_down_pair {l h : BitVec 16} (hne : l ≠ h) (s : Machine) :
    ((index_down l h).run s).2.pair l h = s.pair l h - 1 := by
  have hl := (s.ram l).isLt
  have hh := (s.ram h).isLt
  have hzero : s.ram l = 0 ↔ (s.ram l).toNat = 0 := BitVec.toNat_inj.symm
  apply BitVec.eq_of_toNat_eq
  rw [index_down_run, BitVec.toNat_sub, pair_toNat, pair_toNat]
  dsimp only
  split_ifs with h0
  · rw [setByte_self, setByte_of_ne _ hne, setByte_self, setByte_of_ne _ hne.symm, BitVec.toNat_sub, BitVec.toNat_sub]
    have hnat := hzero.mp h0
    change 2 ^ 8 * ((2 ^ 8 - 1 + (s.ram h).toNat) % 2 ^ 8) + (2 ^ 8 - 1 + (s.ram l).toNat) % 2 ^ 8 =
      (2 ^ 16 - 1 + (2 ^ 8 * (s.ram h).toNat + (s.ram l).toNat)) % 2 ^ 16
    omega
  · rw [setByte_self, setByte_of_ne _ hne.symm, BitVec.toNat_sub]
    have hnat := mt hzero.mpr h0
    change 2 ^ 8 * (s.ram h).toNat + (2 ^ 8 - 1 + (s.ram l).toNat) % 2 ^ 8 =
      (2 ^ 16 - 1 + (2 ^ 8 * (s.ram h).toNat + (s.ram l).toNat)) % 2 ^ 16
    omega

/-- The address is the new value. -/
theorem index_down_addr (l h : BitVec 16) (hne : l ≠ h) (s : Machine) :
    ((index_down l h).run s).1 = ((index_down l h).run s).2.pair l h := by
  rw [index_down_run, ← pair_eq]
  dsimp only
  split_ifs
  · rw [setByte_self, setByte_of_ne _ hne, setByte_self]
  · rw [setByte_self]

theorem index_down_frame (l h : BitVec 16) (s : Machine) {c : BitVec 16} (hl : c ≠ l) (hh : c ≠ h) :
    ((index_down l h).run s).2.ram c = s.ram c := by
  rw [index_down_run]
  dsimp only
  split_ifs
  · rw [setByte_of_ne _ hh, setByte_of_ne _ hl]
  · rw [setByte_of_ne _ hl]

/-! ## Loads and stores -/

/-- The instruction is the access, and its register is outside of the pointer. -/
def Access.At (a : Access) (s : Machine) : Prop :=
  s.code &&& 0xfe0f = a.code ∧ d5 s.code ≠ a.pointer.l ∧ d5 s.code ≠ a.pointer.h

def Machine.index (s : Machine) (p : Pointer) : BitVec 16 := s.pair p.l p.h

/-- A store leaves the pointer when it goes elsewhere, or when it stores what is there already. -/
def Access.Keeps (a : Access) (s : Machine) : Prop :=
  a.load = true ∨ let addr := a.addr (s.index a.pointer)
    (addr = a.pointer.l → s.ram (d5 s.code) = addr.setWidth 8) ∧
      (addr = a.pointer.h → s.ram (d5 s.code) = (addr >>> 8).setWidth 8)

theorem pair_setByte_iff {l h : BitVec 16} (s : Machine) (addr : BitVec 16) (val : BitVec 8) :
    (s.setByte addr val).pair l h = s.pair l h ↔ (addr = l → val = s.ram l) ∧ (addr = h → val = s.ram h) := by
  have hcell : ∀ c, (s.setByte addr val).ram c = s.ram c ↔ (addr = c → val = s.ram c) := by
    intro c
    by_cases hc : addr = c
    · rw [← hc, setByte_self]
      exact ⟨fun heq _ => heq, fun heq => heq rfl⟩
    · exact iff_of_true (setByte_of_ne s (Ne.symm hc) val) fun heq => absurd heq hc
  rw [pair_congr_iff, hcell, hcell]

theorem low_pair (s : Machine) (l h : BitVec 16) : (s.pair l h).setWidth 8 = s.ram l := BitVec.setWidth_append_eq_right

theorem high_pair (s : Machine) (l h : BitVec 16) : (s.pair l h >>> 8).setWidth 8 = s.ram h := by
  have hl := (s.ram l).isLt
  have hh := (s.ram h).isLt
  apply BitVec.eq_of_toNat_eq
  rw [BitVec.toNat_setWidth, BitVec.toNat_ushiftRight, Nat.shiftRight_eq_div_pow, pair_toNat]
  omega

theorem pair_of_ram {s t : Machine} (hram : t.ram = s.ram) (l h : BitVec 16) : t.pair l h = s.pair l h := by
  unfold Machine.pair
  rw [hram]

/-- A store in front of the counting, of the register that is loaded or at the address. -/
theorem up_iff {t : Machine} {p : Pointer} {addr : BitVec 16} {val : BitVec 8}
    (hram : t.ram = ((index_up p.l p.h).run (s.setByte addr val)).2.ram) :
    t.index p = s.index p + 1 ↔ (addr = p.l → val = s.ram p.l) ∧ (addr = p.h → val = s.ram p.h) := by
  have hindex : t.index p = (s.setByte addr val).pair p.l p.h + 1 := (pair_of_ram hram _ _).trans (index_up_pair (l_ne_h p) _)
  rw [hindex, ← pair_setByte_iff]
  exact add_left_inj 1

/-- A store behind the counting. -/
theorem down_iff {t : Machine} {p : Pointer} {addr : BitVec 16} {val : BitVec 8}
    (hram : t.ram = (((index_down p.l p.h).run s).2.setByte addr val).ram) :
    t.index p = s.index p - 1 ↔
      (addr = p.l → val = (s.index p - 1).setWidth 8) ∧ (addr = p.h → val = ((s.index p - 1) >>> 8).setWidth 8) := by
  have hdown : ((index_down p.l p.h).run s).2.pair p.l p.h = s.index p - 1 := index_down_pair (l_ne_h p) s
  have hindex : t.index p = _ := pair_of_ram hram p.l p.h
  rw [hindex, ← hdown, pair_setByte_iff, low_pair, high_pair]

/-- Each access moves its pointer by one, and a store does so exactly if it keeps the pointer. -/
theorem access_iff (h : a.At s) : s.step.index a.pointer = a.moved (s.index a.pointer) ↔ a.Keeps s := by
  obtain ⟨hcode, hl, hh⟩ := h
  have hstep := step_eq (decode_access a hcode)
  obtain ⟨p, load, up⟩ := a
  dsimp only at hl hh hcode hstep ⊢
  have hfetched : s.fetched.index p = s.index p := rfl
  have haddr : ((index_down p.l p.h).run s.fetched).1 = s.index p - 1 := by
    rw [index_down_addr _ _ (l_ne_h p), index_down_pair (l_ne_h p)]
    rfl
  cases load <;> cases up
  · -- the register is read when the pointer has been counted down
    have hreg : ((index_down p.l p.h).run s.fetched).2.ram (d5 s.code) = s.ram (d5 s.code) :=
      index_down_frame p.l p.h s.fetched hl hh
    have hram : s.step.ram = (((index_down p.l p.h).run s.fetched).2.setByte ((index_down p.l p.h).run s.fetched).1
        (((((index_down p.l p.h).run s.fetched).2.ram (d5 s.code)).setWidth 16).setWidth 8)).ram := by
      rw [hstep]
      rfl
    rw [haddr, byte_word, hreg] at hram
    exact (down_iff hram).trans (or_iff_right Bool.false_ne_true).symm
  · have hram : s.step.ram = ((index_up p.l p.h).run (s.fetched.setByte ((s.ram p.h).setWidth 16 * 256 + (s.ram p.l).setWidth 16)
        (((s.ram (d5 s.code)).setWidth 16).setWidth 8))).2.ram := by
      rw [hstep]
      rfl
    rw [pair_eq, byte_word] at hram
    refine (up_iff hram).trans (Iff.trans ?_ (or_iff_right Bool.false_ne_true).symm)
    change _ ↔ (s.index p = p.l → _ = (s.index p).setWidth 8) ∧ (s.index p = p.h → _ = (s.index p >>> 8).setWidth 8)
    unfold Machine.index
    rw [low_pair, high_pair]
    rfl
  · have hram : s.step.ram = (((index_down p.l p.h).run s.fetched).2.setByte (d5 s.code)
        (((((index_down p.l p.h).run s.fetched).2.ram ((index_down p.l p.h).run s.fetched).1).setWidth 16).setWidth 8)).ram := by
      rw [hstep]
      rfl
    exact iff_of_true ((down_iff hram).mpr ⟨fun heq => absurd heq hl, fun heq => absurd heq hh⟩) (.inl rfl)
  · have hram : s.step.ram = ((index_up p.l p.h).run (s.fetched.setByte (d5 s.code)
        (((s.ram ((s.ram p.h).setWidth 16 * 256 + (s.ram p.l).setWidth 16)).setWidth 16).setWidth 8))).2.ram := by
      rw [hstep]
      rfl
    exact iff_of_true ((up_iff hram).mpr ⟨fun heq => absurd heq hl, fun heq => absurd heq hh⟩) (.inl rfl)

/-! ## The instructions -/

/-- `ADIW`, `SBIW`, both of them one after the other, and the accesses. -/
inductive WordOp
  | adiw | sbiw | back
  | access (a : Access)

/-- The instruction at PC, and for `back` the next one too. -/
def WordOp.At (s : Machine) : WordOp → Prop
  | adiw => s.code &&& 0xff00 = 0x9600
  | sbiw => s.code &&& 0xff00 = 0x9700
  | back => s.code &&& 0xff00 = 0x9600 ∧ s.step.code = s.code ||| 0x0100
  | access a => a.At s

/-- What it should do. -/
def WordOp.Right (s : Machine) : WordOp → Prop
  | adiw => AdiwRight s
  | sbiw => SbiwRight s
  | back => s.step.step.Rd s.code = s.Rd s.code
  | access a => s.step.index a.pointer = a.moved (s.index a.pointer)

/-- When it does so: the constant of `SBIW` is below 32, and a store keeps its pointer. -/
def WordOp.Condition (s : Machine) : WordOp → Prop
  | adiw => True
  | sbiw => (K6 s.code).toNat < 32
  | back => (K6 s.code).toNat < 32
  | access a => a.Keeps s

/-- A word operation is right exactly under its condition. -/
theorem word_right_iff (op : WordOp) (s : Machine) (h : op.At s) : op.Right s ↔ op.Condition s := by
  cases op with
  | adiw => exact iff_of_true (adiw_right h) trivial
  | sbiw => exact sbiw_right_iff h
  | back => exact adiw_sbiw_iff h.1 h.2
  | access a => exact access_iff a h

/-- One word of program, and 0x100 in each pointer. -/
def oneWord (code : BitVec 16) : Machine where
  ram c := if c = XH ∨ c = YH ∨ c = ZH then 1 else 0
  rom _ := code
  ramDummy := 0
  romDummy := 0
  PC := 0
  ticks := 0
  sleep_executed := false

/-- `adiw`, `sbiw` and `ld -X`. -/
theorem word_right_adiw_ld : AdiwRight (oneWord 0x9611) ∧ (SbiwRight (oneWord 0x9711) ↔ (K6 0x9711).toNat < 32) ∧
    ((oneWord 0x900e).step.index .X = 0x00ff ↔ Access.Keeps ⟨.X, true, false⟩ (oneWord 0x900e)) :=
  ⟨(word_right_iff .adiw (oneWord 0x9611) rfl).mpr trivial, word_right_iff .sbiw (oneWord 0x9711) rfl,
    word_right_iff (.access ⟨.X, true, false⟩) (oneWord 0x900e) ⟨rfl, by decide, by decide⟩⟩

/-- `sbiw r24,32` on 0 leaves 32. -/
theorem sbiw_32_differs : WordOp.sbiw.At (oneWord 0x9780) ∧ (K6 0x9780).toNat = 32 ∧
    (oneWord 0x9780).Rd 0x9780 = 0 ∧ (oneWord 0x9780).step.Rd 0x9780 = 32 ∧ ¬ WordOp.sbiw.Right (oneWord 0x9780) := by
  have hstep : (oneWord 0x9780).step.Rd 0x9780 = 32 := by decide +kernel
  refine ⟨rfl, by decide, by decide, hstep, fun h => ?_⟩
  have hword : (oneWord 0x9780).step.Rd 0x9780 = (oneWord 0x9780).Rd 0x9780 - K6 0x9780 := h.1
  rw [hstep] at hword
  exact absurd hword (by decide)

end

end Ucsim.Avr
