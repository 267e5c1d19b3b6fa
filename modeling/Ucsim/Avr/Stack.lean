import Mathlib.Tactic.FinCases
import Ucsim.Avr.Exec
import Ucsim.Logic.Stack

/-!
# The stack of the AVR

`PUSH`, `POP`, calls and returns in nested sequences. The stack pointer is in two cells of the memory the stack is in.
-/

namespace Ucsim.Avr

open Logic

/-! ## The stack pointer -/

section Pointer

variable (s : Machine) (sp a : BitVec 16)

theorem setSP_cells : ((setSP sp).run s).2.ram = Function.update
    (Function.update s.ram SPL ((sp &&& 0xff).setWidth 8)) SPH ((sp >>> 8 &&& 0xff).setWidth 8) := rfl

/-- The bytes of a word make it up. -/
theorem word_bytes (v : BitVec 16) :
    ((v >>> 8 &&& 0xff).setWidth 8).setWidth 16 * 256 + ((v &&& 0xff).setWidth 8).setWidth 16 = v := by
  have hlt := v.isLt
  have hhigh : (v.toNat >>> 8) &&& 255 = v.toNat / 256 % 256 := by
    rw [Nat.shiftRight_eq_div_pow]
    exact Nat.and_two_pow_sub_one_eq_mod _ 8
  have hlow : v.toNat &&& 255 = v.toNat % 256 := Nat.and_two_pow_sub_one_eq_mod _ 8
  have h255 : (255 : BitVec 16).toNat = 255 := rfl
  have h256 : (256 : BitVec 16).toNat = 256 := rfl
  apply BitVec.eq_of_toNat_eq
  simp only [BitVec.toNat_add, BitVec.toNat_mul, BitVec.toNat_setWidth, BitVec.toNat_and, BitVec.toNat_ushiftRight,
    h255, h256, hhigh, hlow]
  omega

@[simp] theorem setSP_SP : ((setSP sp).run s).2.SP = sp := by
  have hne : SPL ≠ SPH := by decide
  unfold Machine.SP
  rw [setSP_cells, Function.update_self, Function.update_of_ne hne, Function.update_self]
  exact word_bytes sp

theorem setSP_ram (h : 0x60 ≤ a.toNat) : ((setSP sp).run s).2.ram a = s.ram a := by
  have hL : a ≠ SPL := fun heq => absurd (heq ▸ h) (by decide)
  have hH : a ≠ SPH := fun heq => absurd (heq ▸ h) (by decide)
  rw [setSP_cells, Function.update_of_ne hH, Function.update_of_ne hL]

end Pointer

/-- The stack. The stack pointer is below its lowest byte. -/
def stack : Stack Machine (BitVec 8) where
  low s := s.SP.toNat + 1
  cell s a := s.ram (BitVec.ofNat 16 a)
  size := 0x10000

theorem low_eq (s : Machine) : stack.low s = s.SP.toNat + 1 := rfl

theorem stack_fits (s : Machine) : stack.low s ≤ stack.size := s.SP.isLt

theorem holds_cons {s : Machine} {addr : Nat} {b : BitVec 8} {bs : List (BitVec 8)} :
    stack.Holds s addr (b :: bs) ↔ s.ram (BitVec.ofNat 16 addr) = b ∧ stack.Holds s (addr + 1) bs := Iff.rfl

/-! ## Pushing and popping -/

theorem ofNat_toNat (v : BitVec 16) : BitVec.ofNat 16 v.toNat = v :=
  BitVec.eq_of_toNat_eq ((BitVec.toNat_ofNat _ _).trans (Nat.mod_eq_of_lt v.isLt))

theorem toNat_ofNat {a : Nat} (h : a < 0x10000) : (BitVec.ofNat 16 a).toNat = a := by
  rw [BitVec.toNat_ofNat]
  omega

/-- A cell that is not one of those below. -/
theorem ofNat_ne {a : Nat} (h : a < 0x10000) {v : BitVec 16} (hv : v.toNat < a) : BitVec.ofNat 16 a ≠ v := by
  intro heq
  rw [← heq, toNat_ofNat h] at hv
  omega

theorem push_data_pushed (data : BitVec 16) {s : Machine} (hroom : 0x60 ≤ s.SP.toNat) :
    stack.Pushed s [data.setWidth 8] ((push_data data).run s).2 := by
  let u : Machine := { s with ram := Function.update s.ram s.SP (data.setWidth 8) }
  have hrun : ((push_data data).run s).2 = ((setSP (s.SP - 1)).run u).2 := rfl
  have hsp : (s.SP - 1).toNat + 1 = s.SP.toNat := by bv_omega
  have hlow : stack.low ((push_data data).run s).2 = s.SP.toNat := by rw [hrun, low_eq, setSP_SP, hsp]
  refine ⟨congrArg (· + 1) hlow, ?_, fun a ha hsize => ?_⟩
  · rw [hlow]
    refine holds_cons.mpr ⟨?_, trivial⟩
    rw [hrun, ofNat_toNat, setSP_ram _ _ _ hroom]
    exact Function.update_self _ _ _
  · have habove : s.SP.toNat < a := ha
    have haddr := toNat_ofNat hsize
    show ((push_data data).run s).2.ram (BitVec.ofNat 16 a) = s.ram (BitVec.ofNat 16 a)
    rw [hrun, setSP_ram _ _ _ (by omega)]
    exact Function.update_of_ne (ofNat_ne hsize habove) _ _

/-- The low and the high byte of an address. -/
def wordBytes (v : BitVec 16) : List (BitVec 8) := [(v &&& 0xff).setWidth 8, (v >>> 8 &&& 0xff).setWidth 8]

/-- An address is pushed, its low byte last. -/
theorem push_addr_pushed (addr : Int) {s : Machine} (hroom : 0x61 ≤ s.SP.toNat) :
    stack.Pushed s (wordBytes (BitVec.ofInt 16 addr)) ((push_addr addr).run s).2 := by
  let v := BitVec.ofInt 16 addr
  let u : Machine := { s with
    ram := Function.update (Function.update s.ram s.SP ((v >>> 8 &&& 0xff).setWidth 8)) (s.SP - 1)
      ((v &&& 0xff).setWidth 8) }
  have hrun : ((push_addr addr).run s).2 = ((setSP (s.SP - 1 - 1)).run u).2 := rfl
  have hnext : (s.SP - 1).toNat + 1 = s.SP.toNat := by bv_omega
  have hsp : (s.SP - 1 - 1).toNat + 1 = (s.SP - 1).toNat := by bv_omega
  have hlow : stack.low ((push_addr addr).run s).2 = (s.SP - 1).toNat := by rw [hrun, low_eq, setSP_SP, hsp]
  have hne : s.SP ≠ s.SP - 1 := by bv_omega
  refine ⟨?_, ?_, fun a ha hsize => ?_⟩
  · rw [hlow, low_eq, ← hnext]
    rfl
  · rw [hlow]
    refine holds_cons.mpr ⟨?_, holds_cons.mpr ⟨?_, trivial⟩⟩
    · rw [hrun, ofNat_toNat, setSP_ram _ _ _ (by omega)]
      exact Function.update_self _ _ _
    · rw [hnext, hrun, ofNat_toNat, setSP_ram _ _ _ (by omega)]
      exact (Function.update_of_ne hne _ _).trans (Function.update_self _ _ _)
  · have habove : s.SP.toNat < a := ha
    have haddr := toNat_ofNat hsize
    show ((push_addr addr).run s).2.ram (BitVec.ofNat 16 a) = s.ram (BitVec.ofNat 16 a)
    rw [hrun, setSP_ram _ _ _ (by omega)]
    refine (Function.update_of_ne (ofNat_ne hsize ?_) _ _).trans (Function.update_of_ne (ofNat_ne hsize habove) _ _)
    omega

/-- A byte is taken, into a register too. -/
theorem pop_data_popped {s : Machine} (hroom : 0x5f ≤ s.SP.toNat) (hsize : s.SP.toNat + 1 < 0x10000) :
    stack.Popped s 1 ((pop_data).run s).2 ∧
      (pop_data.run s).1 = (s.ram (BitVec.ofNat 16 (s.SP.toNat + 1))).setWidth 16 := by
  have hnext : (s.SP + 1).toNat = s.SP.toNat + 1 := by bv_omega
  have hrun : (pop_data.run s).2 = ((setSP (s.SP + 1)).run s).2 := rfl
  refine ⟨⟨?_, fun a ha hlt => ?_⟩, ?_⟩
  · rw [hrun, low_eq, setSP_SP, hnext]
    rfl
  · rw [hrun, low_eq, setSP_SP, hnext] at ha
    have haddr := toNat_ofNat hlt
    show (pop_data.run s).2.ram (BitVec.ofNat 16 a) = s.ram (BitVec.ofNat 16 a)
    rw [hrun, setSP_ram _ _ _ (by omega)]
  · rw [← hnext, ofNat_toNat]
    rfl

/-- The word whose bytes are in memory. -/
def wordAt (s : Machine) (addr : Nat) : BitVec 16 :=
  (s.ram (BitVec.ofNat 16 (addr + 1))).setWidth 16 * 256 + (s.ram (BitVec.ofNat 16 addr)).setWidth 16

theorem pop_addr_popped {s : Machine} (hroom : 0x5f ≤ s.SP.toNat) (hsize : s.SP.toNat + 2 < 0x10000) :
    stack.Popped s 2 (pop_addr.run s).2 ∧ (pop_addr.run s).1 = wordAt s (s.SP.toNat + 1) := by
  have hnext : (s.SP + 1).toNat = s.SP.toNat + 1 := by bv_omega
  have hlast : (s.SP + 1 + 1).toNat = s.SP.toNat + 1 + 1 := by bv_omega
  have hrun : (pop_addr.run s).2 = ((setSP (s.SP + 1 + 1)).run s).2 := rfl
  refine ⟨⟨?_, fun a ha hlt => ?_⟩, ?_⟩
  · rw [hrun, low_eq, setSP_SP, hlast]
    rfl
  · rw [hrun, low_eq, setSP_SP, hlast] at ha
    have haddr := toNat_ofNat hlt
    show (pop_addr.run s).2.ram (BitVec.ofNat 16 a) = s.ram (BitVec.ofNat 16 a)
    rw [hrun, setSP_ram _ _ _ (by omega)]
  · unfold wordAt
    rw [← hlast, ← hnext, ofNat_toNat, ofNat_toNat]
    rfl

/-! ## The instructions -/

/-- PC after so many words have been fetched. -/
def advance : Nat → Int → Int
  | 0, PC => PC
  | n + 1, PC => advance n (inc_address PC)

/-- The codes of ICALL. The one that is missing is EICALL. -/
def icallCodes : List (BitVec 16) :=
  [0x9509, 0x9529, 0x9539, 0x9549, 0x9559, 0x9569, 0x9579, 0x9589, 0x9599, 0x95a9, 0x95b9, 0x95c9, 0x95d9, 0x95e9,
   0x95f9]

/-- The words of RCALL, ICALL and CALL. -/
inductive IsCall (code : BitVec 16) : Nat → Prop
  | rcall (h : code &&& 0xf000 = 0xd000) : IsCall code 1
  | icall (h : code ∈ icallCodes) : IsCall code 1
  | call (h : code &&& 0xfe0f = 0x940e ∨ code &&& 0xfe0f = 0x940f) : IsCall code 2

/-- PUSH. -/
def IsPush (code : BitVec 16) : Prop := code &&& 0xfe0f = 0x920f

/-- POP. -/
def IsPop (code : BitVec 16) : Prop := code &&& 0xfe0f = 0x900f

/-- RET and RETI. -/
def IsReturn (code : BitVec 16) : Prop :=
  code ∈ [0x9508, 0x9528, 0x9548, 0x9568] ∨ code ∈ [0x9518, 0x9538, 0x9558, 0x9578]

theorem decode_push {code : BitVec 16} (h : IsPush code) : decode code = some (push_Rr code) :=
  decode_of_first h rfl (by decide)

theorem decode_pop {code : BitVec 16} (h : IsPop code) : decode code = some (pop_Rd code) :=
  decode_of_first h rfl (by decide)

theorem decode_rcall {code : BitVec 16} (h : code &&& 0xf000 = 0xd000) : decode code = some (rcall_k code) :=
  decode_of_first h rfl (by decide)

theorem decode_call {code : BitVec 16} (h : code &&& 0xfe0f = 0x940e ∨ code &&& 0xfe0f = 0x940f) :
    decode code = some (call_k code) := by
  rcases h with h | h
  · exact decode_of_first h rfl (by decide)
  · exact decode_of_first h rfl (by decide)

theorem decode_icall : ∀ code ∈ icallCodes, decode code = some (icall code) := by
  intro code hcode
  unfold icallCodes at hcode
  fin_cases hcode <;> rfl

theorem decode_ret : ∀ code ∈ [0x9508, 0x9528, 0x9548, 0x9568], decode code = some (ret code) := by
  intro code hcode
  fin_cases hcode <;> rfl

theorem decode_reti : ∀ code ∈ [0x9518, 0x9538, 0x9558, 0x9578], decode code = some (reti code) := by
  intro code hcode
  fin_cases hcode <;> rfl

/-- The machine `u` with another PC and more ticks. -/
def moved (u : Machine) (PC : Int) (n : Nat) : Machine := { u with PC := PC, ticks := u.ticks + n }

theorem pushed_moved {s u : Machine} {bs : List (BitVec 8)} (PC : Int) (n : Nat) (h : stack.Pushed s bs u) :
    stack.Pushed s bs (moved u PC n) := h.congr rfl fun _ _ => rfl

theorem popped_moved {s u : Machine} {m : Nat} (PC : Int) (n : Nat) (h : stack.Popped s m u) :
    stack.Popped s m (moved u PC n) := ⟨h.low, h.frame⟩

theorem push_spec {s : Machine} (h : IsPush s.code) (hroom : 0x60 ≤ s.SP.toNat) :
    stack.Pushed s [s.ram (d5 s.code)] s.step := by
  have hpushed := push_data_pushed ((s.ram (d5 s.code)).setWidth 16) (s := s.fetched) hroom
  have hstep : s.step =
      moved ((push_data ((s.ram (d5 s.code)).setWidth 16)).run s.fetched).2 s.fetched.PC 1 := by
    rw [step_eq (decode_push h)]
    rfl
  rw [byte_word] at hpushed
  rw [hstep]
  exact pushed_moved _ _ ⟨hpushed.low, hpushed.holds, hpushed.frame⟩

/-- What is written below the stack is not on it. -/
theorem write_popped {s u : Machine} {m : Nat} {r v : BitVec 16} (hr : r.toNat < 0x60) (hL : SPL ≠ r) (hH : SPH ≠ r)
    (hroom : 0x5f ≤ u.SP.toNat)
    (h : stack.Popped s m u) : stack.Popped s m ((write r v).run u).2 := by
  have hSP : ((write r v).run u).2.SP = u.SP := by
    show (Function.update u.ram r _ SPH).setWidth 16 * 256 + (Function.update u.ram r _ SPL).setWidth 16 = u.SP
    rw [Function.update_of_ne hH, Function.update_of_ne hL]
    rfl
  refine ⟨by rw [low_eq, hSP, ← low_eq, h.low], fun a ha hlt => ?_⟩
  rw [low_eq, hSP] at ha
  have hne : BitVec.ofNat 16 a ≠ r := ofNat_ne hlt (by omega)
  exact (Function.update_of_ne hne _ _).trans (h.frame a ha hlt)

theorem pop_spec {s : Machine} (h : IsPop s.code) (hroom : 0x5f ≤ s.SP.toNat) (hsize : s.SP.toNat + 1 < 0x10000) :
    stack.Popped s 1 s.step ∧ s.step.ram (d5 s.code) = s.ram (BitVec.ofNat 16 (s.SP.toNat + 1)) := by
  obtain ⟨hpopped, hvalue⟩ := pop_data_popped (s := s.fetched) hroom hsize
  have hstep : s.step = moved ((write (d5 s.code) (pop_data.run s.fetched).1).run (pop_data.run s.fetched).2).2
      s.fetched.PC 1 := by
    rw [step_eq (decode_pop h)]
    rfl
  have hSP : (pop_data.run s.fetched).2.SP.toNat + 1 = s.SP.toNat + 1 + 1 := hpopped.low
  have hlt := d5_lt s.code
  have hL : SPL ≠ d5 s.code := fun heq => absurd (heq ▸ hlt) (by decide)
  have hH : SPH ≠ d5 s.code := fun heq => absurd (heq ▸ hlt) (by decide)
  rw [hstep]
  refine ⟨popped_moved _ _ (write_popped (by omega) hL hH (by omega) ⟨hpopped.low, hpopped.frame⟩), ?_⟩
  rw [hvalue]
  exact (Function.update_self _ _ _).trans (byte_word _)

theorem call_spec {s : Machine} {n : Nat} (h : IsCall s.code n) (hroom : 0x61 ≤ s.SP.toNat) :
    stack.Pushed s (wordBytes (BitVec.ofInt 16 (advance n s.PC))) s.step := by
  cases h with
  | rcall h =>
    have hpushed := push_addr_pushed (inc_address s.PC) (s := s.fetched) hroom
    have hstep : s.step = moved ((push_addr (inc_address s.PC)).run s.fetched).2
        (target12 (inc_address s.PC) s.code) 2 := by
      rw [step_eq (decode_rcall h)]
      rfl
    rw [hstep]
    exact pushed_moved _ _ ⟨hpushed.low, hpushed.holds, hpushed.frame⟩
  | icall h =>
    have hpushed := push_addr_pushed (inc_address s.PC) (s := s.fetched) hroom
    generalize hu : ((push_addr (inc_address s.PC)).run s.fetched).2 = u at hpushed
    have hstep : s.step = moved u (pageOf u.PC + ((u.ram ZH).setWidth 16 * 256 + (u.ram ZL).setWidth 16).toNat) 2 := by
      rw [step_eq (decode_icall _ h), ← hu]
      rfl
    rw [hstep]
    exact pushed_moved _ _ ⟨hpushed.low, hpushed.holds, hpushed.frame⟩
  | call h =>
    let t : Machine := { s.fetched with PC := inc_address (inc_address s.PC) }
    have hpushed := push_addr_pushed (inc_address (inc_address s.PC)) (s := t) hroom
    have hstep : s.step = moved ((push_addr (inc_address (inc_address s.PC))).run t).2
        (target22 s.code (s.romAt (inc_address s.PC))) 3 := by
      rw [step_eq (decode_call h)]
      rfl
    rw [hstep]
    exact pushed_moved _ _ ⟨hpushed.low, hpushed.holds, hpushed.frame⟩

theorem validate_address_word (v : BitVec 16) : validate_address v.toNat = v.toNat := by
  have hlt := v.isLt
  unfold validate_address
  rw [if_neg (by omega), if_neg (by omega)]

theorem ret_spec {s : Machine} (h : IsReturn s.code) (hroom : 0x5f ≤ s.SP.toNat) (hsize : s.SP.toNat + 2 < 0x10000) :
    stack.Popped s 2 s.step ∧ s.step.PC = (wordAt s (s.SP.toNat + 1)).toNat := by
  obtain ⟨hpopped, hvalue⟩ := pop_addr_popped (s := s.fetched) hroom hsize
  have hPC : validate_address (pop_addr.run s.fetched).1.toNat = (wordAt s (s.SP.toNat + 1)).toNat := by
    rw [validate_address_word, hvalue]
    rfl
  have hstack : stack.Popped s 2 (pop_addr.run s.fetched).2 := ⟨hpopped.low, hpopped.frame⟩
  rcases h with h | h
  · have hstep : s.step =
        moved (pop_addr.run s.fetched).2 (validate_address (pop_addr.run s.fetched).1.toNat) 3 := by
      rw [step_eq (decode_ret _ h)]
      rfl
    rw [hstep]
    exact ⟨popped_moved _ _ hstack, hPC⟩
  · generalize hu : (pop_addr.run s.fetched).2 = u at hstack
    have hstep : s.step = moved ((write SREG ((u.ram SREG).setWidth 16 ||| BIT_I)).run u).2
        (validate_address (pop_addr.run s.fetched).1.toNat) 3 := by
      rw [step_eq (decode_reti _ h), ← hu]
      rfl
    have hSP : u.SP.toNat + 1 = s.SP.toNat + 1 + 2 := hstack.low
    rw [hstep]
    exact ⟨popped_moved _ _ (write_popped (by decide) (by decide) (by decide) (by omega) hstack), hPC⟩

theorem inc_address_range {PC : Int} (hlow : 0 ≤ PC) : 0 ≤ inc_address PC ∧ inc_address PC ≤ 0xffff := by
  unfold inc_address
  rw [Int.tmod_eq_emod_of_nonneg (by omega)]
  omega

theorem advance_range {PC : Int} (hlow : 0 ≤ PC) (hhigh : PC ≤ 0xffff) (n : Nat) :
    0 ≤ advance n PC ∧ advance n PC ≤ 0xffff := by
  induction n generalizing PC with
  | zero => exact ⟨hlow, hhigh⟩
  | succ n ih =>
    have hnext := inc_address_range hlow
    exact ih hnext.1 hnext.2

/-- The word that was pushed. -/
theorem wordAt_eq {s : Machine} {addr : Nat} {v : BitVec 16} (h : stack.Holds s addr (wordBytes v)) :
    wordAt s addr = v := by
  obtain ⟨hlow, hrest⟩ := holds_cons.mp h
  obtain ⟨hhigh, -⟩ := holds_cons.mp hrest
  unfold wordAt
  rw [hhigh, hlow]
  exact word_bytes v

/-! ## Nested sequences -/

/-- What is on the stack: a byte that was pushed, or the address behind a call. -/
inductive Frame
  | data (v : BitVec 8)
  | call (next : Int)
  deriving DecidableEq, Repr

/-- What a frame is on the stack. -/
def Frame.bytes : Frame → List (BitVec 8)
  | data v => [v]
  | call next => wordBytes (BitVec.ofInt 16 next)

/-- The address in a frame is one of a word. -/
def Frame.Fits : Frame → Prop
  | data _ => True
  | call next => 0 ≤ next ∧ next ≤ 0xffff

/-- What an instruction took from the stack, with what it should have taken. -/
inductive Got
  | popped (due value : BitVec 8)
  | returned (due PC : Int)
  deriving DecidableEq, Repr

def Got.Right : Got → Prop
  | popped due value => value = due
  | returned due PC => PC = due

/-- The machine `t` is reached from `s` by a nested sequence whose stack stays above the I/O registers. The frames are
those still on the stack. An instruction that neither pushes nor pops leaves the stack as it is. -/
inductive Nested (s : Machine) : List Got → List Frame → Machine → Prop
  | start : Nested s [] [] s
  | push {got frames t} (h : Nested s got frames t) (hcode : IsPush t.code) (hroom : 0x60 ≤ t.SP.toNat) :
      Nested s got (.data (t.ram (d5 t.code)) :: frames) t.step
  | pop {got v frames t} (h : Nested s got (.data v :: frames) t) (hcode : IsPop t.code) :
      Nested s (.popped v (t.step.ram (d5 t.code)) :: got) frames t.step
  | call {n got frames t} (h : Nested s got frames t) (hcode : IsCall t.code n) (hroom : 0x61 ≤ t.SP.toNat)
      (hlow : 0 ≤ t.PC) (hhigh : t.PC ≤ 0xffff) : Nested s got (.call (advance n t.PC) :: frames) t.step
  | ret {next got frames t} (h : Nested s got (.call next :: frames) t) (hcode : IsReturn t.code) :
      Nested s (.returned next t.step.PC :: got) frames t.step
  | other {got frames t} (h : Nested s got frames t) (hSP : t.step.SP = t.SP)
      (hcells : ∀ a, t.SP.toNat < a → a ≤ s.SP.toNat → stack.cell t.step a = stack.cell t a) :
      Nested s got frames t.step

theorem Nested.fits {s t : Machine} {got : List Got} {frames : List Frame} (h : Nested s got frames t) :
    ∀ f ∈ frames, f.Fits := by
  induction h with
  | start => exact List.forall_mem_nil _
  | push _ _ _ ih => exact List.forall_mem_cons.mpr ⟨trivial, ih⟩
  | pop _ _ ih => exact (List.forall_mem_cons.mp ih).2
  | call _ _ _ hlow hhigh ih => exact List.forall_mem_cons.mpr ⟨advance_range hlow hhigh _, ih⟩
  | ret _ _ ih => exact (List.forall_mem_cons.mp ih).2
  | other _ _ _ ih => exact ih

theorem grown_room {s t : Machine} {f : Frame} {frames : List Frame} (h : stack.Grown Frame.bytes s (f :: frames) t) :
    t.SP.toNat + f.bytes.length < 0x10000 := by
  have hroom : t.SP.toNat + 1 + f.bytes.length ≤ s.SP.toNat + 1 := h.room
  have hlt := s.SP.isLt
  omega

/-- The frames are on the stack, and above the I/O registers. -/
theorem Nested.grown {s t : Machine} {got : List Got} {frames : List Frame} (h : Nested s got frames t) :
    stack.Grown Frame.bytes s frames t ∧ (frames = [] ∨ 0x5f ≤ t.SP.toNat) := by
  have hfits := stack_fits s
  induction h with
  | start => exact ⟨.start _ s, .inl rfl⟩
  | push _ hcode hroom ih =>
    have hpushed := push_spec hcode hroom
    have hlow : _ + 1 + 1 = _ + 1 := hpushed.low
    exact ⟨ih.1.pushed hfits hpushed, .inr (by omega)⟩
  | pop _ hcode ih =>
    have habove := ih.2.resolve_left (List.cons_ne_nil _ _)
    have hpopped := (pop_spec hcode habove (grown_room ih.1)).1
    have hlow : _ + 1 = _ + 1 + 1 := hpopped.low
    exact ⟨ih.1.popped hfits hpopped, .inr (by omega)⟩
  | call _ hcode hroom _ _ ih =>
    have hpushed := call_spec hcode hroom
    have hlow : _ + 1 + 2 = _ + 1 := hpushed.low
    exact ⟨ih.1.pushed hfits hpushed, .inr (by omega)⟩
  | ret _ hcode ih =>
    have habove := ih.2.resolve_left (List.cons_ne_nil _ _)
    have hpopped := (ret_spec hcode habove (grown_room ih.1)).1
    have hlow : _ + 1 = _ + 1 + 2 := hpopped.low
    exact ⟨ih.1.popped hfits hpopped, .inr (by omega)⟩
  | other _ hSP hcells ih =>
    refine ⟨ih.1.kept (by rw [low_eq, low_eq, hSP]) fun a ha hlt => ?_, by rw [hSP]; exact ih.2⟩
    exact hcells a ha (Nat.le_of_lt_succ hlt)

/-- Each pop, return and return from an interrupt gets what it should. -/
theorem Nested.right {s t : Machine} {got : List Got} {frames : List Frame} (h : Nested s got frames t) :
    ∀ g ∈ got, g.Right := by
  induction h with
  | start => exact List.forall_mem_nil _
  | push _ _ _ ih => exact ih
  | pop h hcode ih =>
    have habove := h.grown.2.resolve_left (List.cons_ne_nil _ _)
    refine List.forall_mem_cons.mpr ⟨?_, ih⟩
    exact (pop_spec hcode habove (grown_room h.grown.1)).2.trans (holds_cons.mp h.grown.1.top).1
  | call _ _ _ _ _ ih => exact ih
  | @ret next got frames t h hcode ih =>
    have habove := h.grown.2.resolve_left (List.cons_ne_nil _ _)
    have hPC := (ret_spec hcode habove (grown_room h.grown.1)).2
    obtain ⟨hlow, hhigh⟩ : 0 ≤ next ∧ next ≤ 0xffff := h.fits _ List.mem_cons_self
    refine List.forall_mem_cons.mpr ⟨?_, ih⟩
    have hword : wordAt t (t.SP.toNat + 1) = BitVec.ofInt 16 next := wordAt_eq h.grown.1.top
    rw [hword, BitVec.toNat_ofInt] at hPC
    show t.step.PC = next
    omega
  | other _ _ _ ih => exact ih

/-- In a nested sequence the stack pointer is always that of the frames, each pop gets the byte that was pushed, and
each return continues behind its call. -/
theorem nested_gets {s t : Machine} {got : List Got} {frames : List Frame} (h : Nested s got frames t) :
    t.SP.toNat + (frames.flatMap Frame.bytes).length = s.SP.toNat ∧ (frames = [] → t.SP = s.SP) ∧
      ∀ g ∈ got, g.Right := by
  have hlow : t.SP.toNat + 1 + (frames.flatMap Frame.bytes).length = s.SP.toNat + 1 := h.grown.1.low
  refine ⟨by omega, fun hnil => ?_, h.right⟩
  rw [hnil] at hlow
  exact BitVec.eq_of_toNat_eq (Nat.succ_inj.mp hlow)

/-- `CALL` to address 4, where R1 is pushed and popped into R2 before the `RETI`. The stack is at the end of the
memory. -/
def callingCode : Machine where
  ram := fun addr => if addr = SPL ∨ addr = SPH then 0xff else if addr = 1 then 0x55 else 0
  rom := fun addr =>
    if addr = 0 then 0x940e else if addr = 1 then 4 else if addr = 4 then 0x921f else if addr = 5 then 0x902f
    else if addr = 6 then 0x9518 else 0
  ramDummy := 0
  romDummy := 0
  PC := 0
  ticks := 0
  sleep_executed := false

/-- The byte comes back, and then the address. -/
theorem nested_gets_calling : ∃ R2 PC t, Nested callingCode [.returned 2 PC, .popped 0x55 R2] [] t ∧
    t.SP = callingCode.SP ∧ R2 = 0x55 ∧ PC = 2 := by
  have hcalled : Nested callingCode [] [.call 2] callingCode.step :=
    .call (n := 2) .start (.call (.inl (by decide))) (by decide) (by decide) (by decide)
  have hR1 : callingCode.step.ram (d5 callingCode.step.code) = 0x55 := by decide +kernel
  have hpushed : Nested callingCode [] [.data 0x55, .call 2] callingCode.step.step :=
    hR1 ▸ .push hcalled (by unfold IsPush; decide +kernel) (by decide +kernel)
  have hrun := (hpushed.pop (by unfold IsPop; decide +kernel)).ret (.inr (by decide +kernel))
  obtain ⟨-, hSP, hright⟩ := nested_gets hrun
  exact ⟨_, _, _, hrun, hSP rfl, hright _ (.tail _ (.head _)), hright _ (.head _)⟩

end Ucsim.Avr
