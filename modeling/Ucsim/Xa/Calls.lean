import Ucsim.Xa.Stack

/-!
# Calls and returns of the XA

`CALL` and `RET` in nested sequences, with addresses of one word (page zero) or of two. The stack pointer of `CALL` is an
`unsigned int`, which is not an address any more when it has gone below zero.
-/

namespace Ucsim.Xa

open Logic

/-! ## Bytes on the stack -/

section Cells

variable (s : Machine) (v : BitVec 16) {a : Nat}

theorem Mem.set2_get1 {size : Int} (m : Mem size) (hsize : size ≤ 0x10000) {a x : Int} (ha : 0 ≤ a ∧ a + 1 < size)
    (hx : 0 ≤ x ∧ x < size) :
    (m.set2 a v).get1 x = if x = a then low v else if x = a + 1 then high v else m.get1 x := by
  unfold Mem.set2
  split_ifs with hlow hhigh
  · rw [hlow, Mem.set1_get1_of_ne hsize _ (by omega) (by omega), Mem.set1_get1 _ (by omega)]
  · rw [hhigh, Mem.set1_get1 _ (by omega)]
  · rw [Mem.set1_get1_of_ne hsize _ hx (by omega), Mem.set1_get1_of_ne hsize _ hx (by omega)]

/-- A word that is in one memory as a whole. -/
theorem setMem2_mem1 (ha : a + 1 < 0x10000) (hone : a ≠ 0x1fff) {x : Nat} (hx : x < 0x10000) :
    (s.setMem2 a v).mem1 x = if x = a then low v else if x = a + 1 then high v else s.mem1 x := by
  have hint : ∀ y z w : BitVec 8, (if (x : Int) = a then y else if (x : Int) = a + 1 then z else w) =
      if x = a then y else if x = a + 1 then z else w := by
    intro y z w
    have h0 : (x : Int) = a ↔ x = a := by omega
    have h1 : (x : Int) = a + 1 ↔ x = a + 1 := by omega
    simp only [h0, h1]
  unfold Machine.setMem2 Machine.mem1
  by_cases hmem : (a : Int) < 0x2000 <;> by_cases hcell : (x : Int) < 0x2000
  · rw [if_pos hmem, if_pos hcell, if_pos hcell, ← hint]
    dsimp only
    exact Mem.set2_get1 v _ (by omega) (by omega) (by omega)
  · rw [if_pos hmem, if_neg hcell, if_neg hcell, if_neg (by omega), if_neg (by omega)]
  · rw [if_neg hmem, if_pos hcell, if_pos hcell, if_neg (by omega), if_neg (by omega)]
  · rw [if_neg hmem, if_neg hcell, if_neg hcell, ← hint]
    dsimp only
    exact Mem.set2_get1 v _ (by omega) (by omega) (by omega)

/-- The stack. -/
def stack : Stack Machine (BitVec 8) where
  low s := s.sp.toNat
  cell s a := s.mem1 a
  size := 0x10000

theorem stack_cell (s : Machine) (a : Nat) : stack.cell s a = s.mem1 a := by
  dsimp only [stack]

def wordBytes (v : BitVec 16) : List (BitVec 8) := [low v, high v]

theorem mem2_of_holds {s : Machine} {addr : Nat} {v : BitVec 16} (hone : addr ≠ 0x1fff)
    (h : stack.Holds s addr (wordBytes v)) : s.mem2 addr = v := by
  obtain ⟨hlow, hhigh, -⟩ := h
  rw [stack_cell] at hlow hhigh
  rw [Nat.cast_succ] at hhigh
  rw [← high_append_low v, ← hlow, ← hhigh]
  unfold Machine.mem2 Machine.mem1
  by_cases hmem : (addr : Int) < 0x2000
  · rw [if_pos hmem, if_pos hmem, if_pos (by omega)]
    rfl
  · rw [if_neg hmem, if_neg hmem, if_neg (by omega)]
    rfl

end Cells

/-! ## Frames -/

/-- Whether addresses on the stack have one word. -/
def Machine.pageZero (s : Machine) : Bool := decide (s.direct1 SCR &&& 1 ≠ 0)

def frameSize (page : Bool) : Nat := if page then 2 else 4

/-- What `CALL` leaves on the stack of the address behind it. -/
def addressBytes (page : Bool) (next : Int) : List (BitVec 8) :=
  if page then wordBytes (BitVec.ofInt 16 next) else wordBytes (BitVec.ofInt 16 next) ++ wordBytes 0

theorem addressBytes_length (page : Bool) (next : Int) : (addressBytes page next).length = frameSize page := by
  cases page <;> rfl

/-- SP does not go below zero, and no word of the frame is split between the memories. -/
def FrameFits (page : Bool) (sp : BitVec 16) : Prop :=
  frameSize page ≤ sp.toNat ∧ sp.toNat ≠ 0x2001 ∧ (page = false → sp.toNat ≠ 0x2003)

instance (page : Bool) (sp : BitVec 16) : Decidable (FrameFits page sp) := inferInstanceAs (Decidable (_ ∧ _))

section Instructions

variable {s : Machine} {code : BitVec 16} {row : DisEntry}

theorem pageZero_run (s : Machine) : pageZero.run s = (s.pageZero, s) := rfl

theorem cell_congr {s t : Machine} (hiram : t.iram = s.iram) (hxram : t.xram = s.xram) (x : Nat) :
    stack.cell t x = stack.cell s x := by
  rw [stack_cell, stack_cell]
  unfold Machine.mem1
  rw [hiram, hxram]

theorem sp_of_sfr {s t : Machine} (h : t.sfr = s.sfr) : t.sp = s.sp := sp_eq_iff.mpr ⟨congrFun h _, congrFun h _⟩

theorem stored_cell {a x : Nat} (v : BitVec 16) (ha : a + 1 < 0x10000) (hone : a ≠ 0x1fff) (hx : x < 0x10000) :
    stack.cell (s.setMem2 a v) x = if x = a then low v else if x = a + 1 then high v else stack.cell s x := by
  rw [stack_cell, setMem2_mem1 _ _ ha hone hx, stack_cell]

theorem stored_low (a : Int) (v : BitVec 16) : stack.low (s.setMem2 a v) = stack.low s :=
  congrArg BitVec.toNat (sp_of_sfr (Machine.setMem2_sfr _ _ _))

theorem setSP_cell (v : BitVec 16) (x : Nat) : stack.cell (s.setSP v) x = stack.cell s x := cell_congr rfl rfl x

theorem setSP_low {a : Nat} (ha : a < 0x10000) : stack.low (s.setSP (BitVec.ofNat 16 a)) = a := by
  change (s.setSP (BitVec.ofNat 16 a)).sp.toNat = a
  rw [setSP_sp, BitVec.toNat_ofNat]
  exact Nat.mod_eq_of_lt ha

/-- A word below SP. -/
theorem pushed_word {a : Nat} (v : BitVec 16) (ha : a + 2 = s.sp.toNat) (hone : a ≠ 0x1fff) :
    stack.Pushed s (wordBytes v) ((s.setSP (BitVec.ofNat 16 a)).setMem2 a v) := by
  have hsp := s.sp.isLt
  have hlow : stack.low ((s.setSP (BitVec.ofNat 16 a)).setMem2 a v) = a := by
    rw [stored_low, setSP_low (by omega)]
  refine ⟨by rw [hlow]; exact ha, ?_, fun x hx hlt => ?_⟩
  · rw [hlow]
    refine ⟨?_, ?_, trivial⟩
    · rw [stored_cell v (by omega) hone (by omega), if_pos rfl]
    · rw [stored_cell v (by omega) hone (by omega), if_neg (by omega), if_pos rfl]
  · change s.sp.toNat ≤ x at hx
    rw [stored_cell v (by omega) hone hlt, if_neg (by omega), if_neg (by omega), setSP_cell]

/-- Two words below SP. -/
theorem pushed_words {a : Nat} (v w : BitVec 16) (ha : a + 4 = s.sp.toNat) (hone : a ≠ 0x1fff) (htwo : a + 2 ≠ 0x1fff) :
    stack.Pushed s (wordBytes v ++ wordBytes w)
      (((s.setSP (BitVec.ofNat 16 a)).setMem2 a v).setMem2 (a + 2 : Nat) w) := by
  have hsp := s.sp.isLt
  have hlow : stack.low (((s.setSP (BitVec.ofNat 16 a)).setMem2 a v).setMem2 (a + 2 : Nat) w) = a := by
    rw [stored_low, stored_low, setSP_low (by omega)]
  have hcell : ∀ {x : Nat}, x < 0x10000 →
      stack.cell (((s.setSP (BitVec.ofNat 16 a)).setMem2 a v).setMem2 (a + 2 : Nat) w) x =
        if x = a + 2 then low w else if x = a + 2 + 1 then high w else if x = a then low v else
          if x = a + 1 then high v else stack.cell s x := by
    intro x hx
    rw [stored_cell w (by omega) htwo hx, stored_cell v (by omega) hone hx, setSP_cell]
  refine ⟨by rw [hlow]; exact ha, ?_, fun x hx hlt => ?_⟩
  · rw [hlow]
    refine ⟨?_, ?_, ?_, ?_, trivial⟩
    · rw [hcell (by omega), if_neg (by omega), if_neg (by omega), if_pos rfl]
    · rw [hcell (by omega), if_neg (by omega), if_neg (by omega), if_neg (by omega), if_pos rfl]
    · rw [hcell (by omega), if_pos rfl]
    · rw [hcell (by omega), if_neg (by omega), if_pos rfl]
  · change s.sp.toNat ≤ x at hx
    rw [hcell hlt, if_neg (by omega), if_neg (by omega), if_neg (by omega), if_neg (by omega)]

theorem pushPC_pushed (hrange : s.InRange) (h : FrameFits s.pageZero s.sp) :
    stack.Pushed s (addressBytes s.pageZero s.PC) (pushPC.run s).2 := by
  have hsp := s.sp.isLt
  obtain ⟨hsize, hone, hupper⟩ := h
  unfold pushPC
  rw [run_bind_of (pageZero_run s)]
  cases hpage : s.pageZero with
  | true =>
    rw [hpage] at hsize
    change 2 ≤ s.sp.toNat at hsize
    have hbelow : (s.sp.toNat : Int) - 2 = (s.sp.toNat - 2 : Nat) := by omega
    change stack.Pushed s _ ((s.setSP (BitVec.ofInt 16 ((s.sp.toNat : Int) - 2))).setMem2 ((s.sp.toNat : Int) - 2)
      (BitVec.ofInt 16 s.PC))
    rw [hbelow]
    exact pushed_word _ (by omega) (by omega)
  | false =>
    rw [hpage] at hsize
    change 4 ≤ s.sp.toNat at hsize
    have hodd := hupper hpage
    have hbelow : (s.sp.toNat : Int) - 4 = (s.sp.toNat - 4 : Nat) := by omega
    have hnext : ((s.sp.toNat - 4 : Nat) : Int) + 2 = (s.sp.toNat - 4 + 2 : Nat) := by omega
    have hzero : BitVec.ofInt 16 (s.PC / 0x10000) &&& 0xff = 0 := by
      obtain ⟨hnonneg, hlt⟩ := hrange
      rw [Int.ediv_eq_zero_of_lt hnonneg hlt]
      rfl
    change stack.Pushed s _ (((s.setSP (BitVec.ofInt 16 ((s.sp.toNat : Int) - 4))).setMem2 ((s.sp.toNat : Int) - 4)
      (BitVec.ofInt 16 s.PC)).setMem2 ((s.sp.toNat : Int) - 4 + 2) (BitVec.ofInt 16 (s.PC / 0x10000) &&& 0xff))
    rw [hbelow, hnext, hzero]
    exact pushed_words _ _ (by omega) (by omega) (by omega)

/-- PC and the ticks are not on the stack. -/
theorem pushed_moved {bs : List (BitVec 8)} {u : Machine} (n : Nat) (PC : Int)
    (h : stack.Pushed (s.ticked.advanced n) bs u) : stack.Pushed s bs { u with PC := PC } := by
  have hmoved : stack.Pushed (s.ticked.advanced n) bs { u with PC := PC } :=
    h.congr rfl fun x _ => cell_congr rfl rfl x
  exact ⟨hmoved.low, hmoved.holds, fun x hx hlt => (hmoved.frame x hx hlt).trans (cell_congr rfl rfl x)⟩

theorem callRows : ∀ p ∈ disass_xa, p.body.mnemonic = .CALL →
    p.body = ⟨true, 3, .CALL, .REL16⟩ ∨ p.body = ⟨false, 2, .CALL, .IREG⟩ := by decide +kernel

theorem retRows : ∀ p ∈ disass_xa, p.body.mnemonic = .RET → p.body = ⟨false, 2, .RET, .NO_OPERANDS⟩ := by
  decide +kernel

theorem advanced_inRange (n : Nat) : (s.ticked.advanced n).InRange := ⟨Machine.place_nonneg n, Machine.place_lt n⟩

/-- A `CALL`, which has fetched all of its bytes before it pushes PC. -/
theorem call_pushed (hrange : s.InRange) (hd : s.decoded = some (code, row)) (hcall : row.mnemonic = .CALL)
    (h : FrameFits s.pageZero s.sp) : stack.Pushed s (addressBytes s.pageZero (s.place row.length)) s.step := by
  obtain ⟨⟨p, hp, hbody, -⟩, hfetched⟩ := decoded_spec hrange hd
  rw [step_eq hd, hfetched]
  rcases callRows p hp (by rw [hbody, hcall]) with hrow | hrow
  · rw [hbody] at hrow
    subst hrow
    have hfetch : fetch2.run (s.ticked.advanced 1) = (s.codeAt 1 ++ s.codeAt 2, s.ticked.advanced 3) := by
      unfold fetch2
      rw [run_bind_of (Machine.fetch_advanced _), run_bind_of (Machine.fetch_advanced _)]
      rfl
    change stack.Pushed s _ ((inst_CALL code .REL16).run (s.ticked.advanced 1)).2
    unfold inst_CALL
    dsimp only
    rw [run_bind_of hfetch]
    exact pushed_moved 3 _ (pushPC_pushed (advanced_inRange 3) h)
  · rw [hbody] at hrow
    subst hrow
    change stack.Pushed s _ ((inst_CALL code .IREG).run (s.ticked.advanced 2)).2
    unfold inst_CALL
    dsimp only
    exact pushed_moved 2 _ (pushPC_pushed (advanced_inRange 2) h)

theorem ofInt_toNat {next : Int} (hnext : 0 ≤ next ∧ next < 0x10000) : ((BitVec.ofInt 16 next).toNat : Int) = next := by
  rw [BitVec.toNat_ofInt]
  omega

/-- A word with zeros above it has no sign. -/
theorem zero_append_toInt (v : BitVec 16) : ((0 : BitVec 16) ++ v).toInt = v.toNat := by
  have hv := v.isLt
  have hnat : ((0 : BitVec 16) ++ v).toNat = v.toNat := by
    rw [BitVec.toNat_append]
    exact (congrArg (· ||| v.toNat) (Nat.zero_shiftLeft 16)).trans (Nat.zero_or _)
  rw [BitVec.toInt_eq_toNat_cond, hnat, if_pos (by omega)]

theorem popped_moved {v : BitVec 16} {n k : Nat} (PC : Int) (hn : s.sp.toNat + n = v.toNat) :
    stack.Popped s n { (s.ticked.advanced k).setSP v with PC := PC } := by
  refine ⟨?_, fun x _ _ => cell_congr rfl rfl x⟩
  have hsp : ({ (s.ticked.advanced k).setSP v with PC := PC } : Machine).sp = v :=
    (sp_of_sfr rfl).trans (setSP_sp (s.ticked.advanced k) v)
  exact (congrArg BitVec.toNat hsp).trans hn.symm

/-- `RET` from the state that has fetched it. -/
theorem ret_run (s : Machine) : (inst_RET.run (s.ticked.advanced 2)).2 =
    { (s.ticked.advanced 2).setSP (s.sp + if s.pageZero then 2 else 4) with
      PC := if s.pageZero then (s.mem2 s.sp.toNat).toNat
        else BitVec.toInt (s.mem2 (s.sp.toNat + 2) ++ s.mem2 s.sp.toNat) } := by
  have hmem : ∀ a : Int, (get2 a).run (s.ticked.advanced 2) = (s.mem2 a, s.ticked.advanced 2) := by
    intro a
    have hsame : (s.ticked.advanced 2).mem2 a = s.mem2 a := by
      unfold Machine.mem2
      rfl
    rw [← hsame]
    rfl
  have hpage : pageZero.run (s.ticked.advanced 2) = (s.pageZero, s.ticked.advanced 2) := rfl
  have hsp : get_sp.run (s.ticked.advanced 2) = (s.sp, s.ticked.advanced 2) := rfl
  unfold inst_RET popPC
  rw [run_bind_of hsp, run_bind_of hpage, run_bind_of (hmem _)]
  cases s.pageZero with
  | true =>
    simp only [if_true]
    rw [run_bind_of (set_sp_run _ _), setPC_run]
  | false =>
    simp only [Bool.false_eq_true, if_false]
    rw [run_bind_of (hmem _), run_bind_of (set_sp_run _ _), setPC_run]

theorem ret_popped (hrange : s.InRange) (hd : s.decoded = some (code, row)) (hret : row.mnemonic = .RET)
    {next : Int} (hnext : 0 ≤ next ∧ next < 0x10000) {sp : BitVec 16} (hfits : FrameFits s.pageZero sp)
    (hsp : s.sp.toNat + frameSize s.pageZero = sp.toNat)
    (hholds : stack.Holds s s.sp.toNat (addressBytes s.pageZero next)) :
    stack.Popped s (frameSize s.pageZero) s.step ∧ s.step.sp = sp ∧ s.step.PC = next := by
  obtain ⟨⟨p, hp, hbody, -⟩, hfetched⟩ := decoded_spec hrange hd
  have hrow := retRows p hp (by rw [hbody, hret])
  rw [hbody] at hrow
  subst hrow
  obtain ⟨-, hone, htwo⟩ := hfits
  have hstep : s.step = (inst_RET.run (s.ticked.advanced 2)).2 := by
    rw [step_eq hd, hfetched]
    rfl
  have hlt := sp.isLt
  rw [hstep, ret_run]
  cases hpage : s.pageZero with
  | true =>
    rw [hpage] at hsp hholds
    change s.sp.toNat + 2 = sp.toNat at hsp
    have hback : s.sp + 2 = sp := by
      apply BitVec.eq_of_toNat_eq
      rw [BitVec.toNat_add]
      change (s.sp.toNat + 2) % 2 ^ 16 = _
      omega
    have hword : s.mem2 s.sp.toNat = BitVec.ofInt 16 next := mem2_of_holds (by omega) hholds
    simp only [if_true]
    rw [hback, hword, ofInt_toNat hnext]
    exact ⟨popped_moved next hsp, (sp_of_sfr rfl).trans (setSP_sp (s.ticked.advanced 2) sp), rfl⟩
  | false =>
    rw [hpage] at hsp hholds
    change s.sp.toNat + 4 = sp.toNat at hsp
    have hback : s.sp + 4 = sp := by
      apply BitVec.eq_of_toNat_eq
      rw [BitVec.toNat_add]
      change (s.sp.toNat + 4) % 2 ^ 16 = _
      omega
    obtain ⟨hfirst, hsecond⟩ := Stack.holds_append.mp hholds
    have hword : s.mem2 s.sp.toNat = BitVec.ofInt 16 next :=
      mem2_of_holds (by have := htwo hpage; omega) hfirst
    have hupper : s.mem2 (s.sp.toNat + 2 : Nat) = 0 := mem2_of_holds (by omega) hsecond
    rw [Nat.cast_add, Nat.cast_ofNat] at hupper
    simp only [Bool.false_eq_true, if_false]
    rw [hback, hword, hupper, zero_append_toInt, ofInt_toNat hnext]
    exact ⟨popped_moved next hsp, (sp_of_sfr rfl).trans (setSP_sp (s.ticked.advanced 2) sp), rfl⟩

end Instructions

/-! ## Nested sequences -/

/-- An open call: the address behind it, its kind of address, and SP before it. -/
structure Frame where
  next : Int
  page : Bool
  sp : BitVec 16
  deriving DecidableEq

def Frame.bytes (f : Frame) : List (BitVec 8) := addressBytes f.page f.next

/-- Where a `RET` went on and what it left in SP, with the open call that it closed. -/
structure Returned where
  frame : Frame
  PC : Int
  sp : BitVec 16
  deriving DecidableEq

def Returned.Right (r : Returned) : Prop := r.PC = r.frame.next ∧ r.sp = r.frame.sp

/-- The machine `t` is reached from `s` by a nested sequence of calls and returns. Any other instruction leaves SP and the
stack as they are. -/
inductive Nested (s : Machine) : List Returned → List Frame → Machine → Prop
  | start : Nested s [] [] s
  | call {got frames t code row} (h : Nested s got frames t) (hrange : t.InRange) (hd : t.decoded = some (code, row))
      (hcall : row.mnemonic = .CALL) (hfits : FrameFits t.pageZero t.sp) :
      Nested s got (⟨t.place row.length, t.pageZero, t.sp⟩ :: frames) t.step
  | ret {got f frames t code row} (h : Nested s got (f :: frames) t) (hrange : t.InRange)
      (hd : t.decoded = some (code, row)) (hret : row.mnemonic = .RET) (hmode : t.pageZero = f.page) :
      Nested s (⟨f, t.step.PC, t.step.sp⟩ :: got) frames t.step
  | other {got frames t} (h : Nested s got frames t) (hsp : t.step.sp = t.sp)
      (hcells : ∀ a, t.sp.toNat ≤ a → a < s.sp.toNat → stack.cell t.step a = stack.cell t a) :
      Nested s got frames t.step

/-- The open calls lie one above the other. -/
def Placed (top : Nat) : Nat → List Frame → Prop
  | low, [] => low = top
  | low, f :: frames => low + frameSize f.page = f.sp.toNat ∧ FrameFits f.page f.sp ∧
      (0 ≤ f.next ∧ f.next < 0x10000) ∧ Placed top f.sp.toNat frames

theorem Nested.spec {s t : Machine} {got : List Returned} {frames : List Frame} (h : Nested s got frames t) :
    stack.Grown Frame.bytes s frames t ∧ Placed s.sp.toNat t.sp.toNat frames ∧ ∀ r ∈ got, r.Right := by
  have hsize : stack.low s ≤ stack.size := s.sp.isLt.le
  induction h with
  | start => exact ⟨.start _ s, rfl, List.forall_mem_nil _⟩
  | @call got frames t code row h hrange hd hcall hfits ih =>
    obtain ⟨hgrown, hplaced, hright⟩ := ih
    have hpushed := call_pushed hrange hd hcall hfits
    have hlow : t.step.sp.toNat + frameSize t.pageZero = t.sp.toNat := by
      have hlength := hpushed.low
      rwa [addressBytes_length] at hlength
    exact ⟨hgrown.pushed hsize hpushed, ⟨hlow, hfits, ⟨Machine.place_nonneg _, Machine.place_lt _⟩, hplaced⟩, hright⟩
  | @ret got f frames t code row h hrange hd hret hmode ih =>
    obtain ⟨hgrown, ⟨hlow, hfits, hnext, hplaced⟩, hright⟩ := ih
    have htop : stack.Holds t t.sp.toNat (addressBytes t.pageZero f.next) := by
      rw [hmode]
      exact hgrown.top
    rw [← hmode] at hlow hfits
    obtain ⟨hpopped, hsp, hPC⟩ := ret_popped hrange hd hret hnext hfits hlow htop
    refine ⟨hgrown.popped hsize ?_, by rw [hsp]; exact hplaced, List.forall_mem_cons.mpr ⟨⟨hPC, hsp⟩, hright⟩⟩
    have hlength : f.bytes.length = frameSize t.pageZero := by
      rw [hmode]
      exact addressBytes_length f.page f.next
    rwa [hlength]
  | @other got frames t h hsp hcells ih =>
    obtain ⟨hgrown, hplaced, hright⟩ := ih
    refine ⟨hgrown.kept (congrArg BitVec.toNat hsp) hcells, by rw [hsp]; exact hplaced, hright⟩

/-! ## The stack -/

/-- Lists and direct operands are restored in these states and in no others. In a nested sequence whose calls have room
each return goes on behind its call, and SP is as before. -/
theorem stack_restores (s : Machine) :
    (∀ s₂ code code', ListRun s s₂ code code' → (ListRestored s s₂ code ↔ ListFits s code)) ∧
    (∀ s₂ code code', DirectRun s s₂ code code' → (DirectRestored s s₂ code ↔ DirectFits s s₂ code)) ∧
    ∀ got frames t, Nested s got frames t → (∀ r ∈ got, r.Right) ∧ (frames = [] → t.sp = s.sp) := by
  refine ⟨fun _ _ _ h => list_restored_iff h, fun _ _ _ h => direct_restored_iff h, fun got frames t h => ?_⟩
  obtain ⟨-, hplaced, hright⟩ := h.spec
  refine ⟨hright, fun hnil => ?_⟩
  rw [hnil] at hplaced
  exact BitVec.eq_of_toNat_eq hplaced

/-- `PUSH` and `POP` of a list at 0, `PUSH` and `POP` of a direct operand at 4, and a `CALL` of a `RET` at 10. -/
def stacking (rlist : BitVec 8) (PC : Int) : Machine where
  sfr := fun c => if c = SPH then 1 else 0
  iram := ⟨fun _ => 0, fun _ => 0⟩
  xram := ⟨fun _ => 0, fun _ => 0⟩
  rom := ⟨fun a =>
    [0x0f, rlist, 0x2f, rlist, 0x87, 0x36, 0x10, 0x87, 0x16, 0x10, 0xc5, 0x00, 0x01, 0x00, 0xd6, 0x80].getD a.toNat 0,
    fun _ => 0⟩
  PC := PC
  ticks := 0
  out := []

theorem stacking_list {rlist : BitVec 8} (h : rlist = 0x02 ∨ rlist = 0x82) :
    ListRun (stacking rlist 0) (stacking rlist 0).step 0x0f00 0x2f00 where
  range := by rcases h with rfl | rfl <;> decide
  range₂ := by rcases h with rfl | rfl <;> decide +kernel
  push := by rcases h with rfl | rfl <;> decide +kernel
  pop := by rcases h with rfl | rfl <;> decide +kernel
  same := by decide
  list := by rcases h with rfl | rfl <;> decide +kernel
  sp := rfl
  kept := fun _ _ => rfl

/-- `POP R1` leaves SP where `PUSH R1` has moved it. -/
theorem pop_leaves_sp : ListRun (stacking 0x02 0) (stacking 0x02 0).step 0x0f00 0x2f00 ∧
    ¬ ListRestored (stacking 0x02 0) (stacking 0x02 0).step 0x0f00 := by
  refine ⟨stacking_list (.inl rfl), fun hrestored => ?_⟩
  have hsp : (stacking 0x02 0).step.step.sp ≠ (stacking 0x02 0).sp := by decide +kernel
  exact hsp hrestored.sp

/-- R1 and R7 are restored, the word at 0x610, and SP by a call. -/
theorem stack_restores_stacking :
    ListRestored (stacking 0x82 0) (stacking 0x82 0).step 0x0f00 ∧
    DirectRestored (stacking 0 4) (stacking 0 4).step 0x8736 ∧
    ∃ t, Nested (stacking 0 10) [⟨⟨13, false, 0x100⟩, 13, 0x100⟩] [] t ∧ t.sp = 0x100 := by
  have hregs : (stacking 0x82 0).regs 0x0f00 = [1, 7] := by decide +kernel
  have hlist : ListFits (stacking 0x82 0) 0x0f00 := by
    refine ⟨fun _ j r hj => ?_, .inr (.inl ⟨by decide, by rw [hregs]; decide⟩)⟩
    have hlt : j < 2 := by
      rw [hregs] at hj
      exact (List.getElem?_eq_some_iff.mp hj).1
    rw [hregs]
    obtain rfl | rfl : j = 0 ∨ j = 1 := by omega
    all_goals exact ⟨fun h => absurd h (by decide), fun h => absurd h (by decide)⟩
  have hdirect : DirectRun (stacking 0 4) (stacking 0 4).step 0x8736 0x8716 :=
    { range := by decide, range₂ := by decide +kernel, push := by decide +kernel, pop := by decide +kernel
      same := by decide, address := by decide +kernel, sp := rfl, kept := rfl }
  have hfits : DirectFits (stacking 0 4) (stacking 0 4).step 0x8736 := by
    unfold DirectFits
    rw [if_pos (by decide)]
    exact fun _ => ⟨fun h => absurd h (by decide), fun h => absurd h (by decide)⟩
  have hcall : Nested (stacking 0 10) [] [⟨13, false, 0x100⟩] (stacking 0 10).step :=
    .call .start (by decide)
      (show (stacking 0 10).decoded = some (0xc500, ⟨true, 3, .CALL, .REL16⟩) by decide +kernel) rfl (by decide)
  have hret : Nested (stacking 0 10) [⟨⟨13, false, 0x100⟩, _, _⟩] [] (stacking 0 10).step.step :=
    .ret hcall (by decide +kernel)
      (show (stacking 0 10).step.decoded = some (0xd680, ⟨false, 2, .RET, .NO_OPERANDS⟩) by decide +kernel) rfl
      (by decide +kernel)
  obtain ⟨hright, hsp⟩ := (stack_restores _).2.2 _ _ _ hret
  obtain ⟨hPC, hback⟩ : (stacking 0 10).step.step.PC = 13 ∧ (stacking 0 10).step.step.sp = 0x100 :=
    hright _ List.mem_cons_self
  refine ⟨((stack_restores _).1 _ _ _ (stacking_list (.inr rfl))).mpr hlist,
    ((stack_restores _).2.1 _ _ _ hdirect).mpr hfits, _, ?_, hsp rfl⟩
  rw [← hPC, ← hback]
  exact hret

end Ucsim.Xa
