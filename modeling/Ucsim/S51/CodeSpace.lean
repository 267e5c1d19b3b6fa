import Ucsim.S51.Nesting

/-!
# The program counter in the code space

Fetching, calls, returns and absolute jumps keep the program counter below 0x10000. `validate_address`
does so too, with one exception: it takes the address 0x10000 for valid. So a relative branch or
`JMP @A+DPTR` leaves the code space exactly when its sum is 0x10000.
-/

namespace Ucsim.S51

open Logic Program

variable {Dev V : Type} {D : Devices Dev V}

set_option synthInstance.maxSize 1024

/-! ## Bytes stay bytes -/

/-- All places of the memory system hold bytes. -/
def bytesSys (s : Sys Site (HwState V)) : Prop := IsBytes s.mem

instance : OfBytes (bytesSys : Sys Site (HwState V) → Prop) := ⟨fun _ _ h hs => by rw [bytesSys, h]; exact hs⟩

instance : StableDevices D bytesSys :=
  ⟨fun n s hs => D.tick_bytes n s.toStore hs, fun s hs => D.reset_bytes s.toStore hs⟩

theorem and_lt_of_left {v : TMem} (hv : v.toNat < 0x100) (w : TMem) : (v &&& w).toNat < 0x100 := by
  rw [BitVec.toNat_and]
  exact Nat.lt_of_le_of_lt Nat.and_le_left hv

/-- Storing a byte keeps bytes. -/
theorem bytesSys_store {s : Sys Site (HwState V)} (hs : bytesSys s) (c : Site) {v : TMem}
    (hv : v.toNat < 0x100) : bytesSys (s.store c v) := isBytes_update hs c hv

/-- The status byte stays a byte. -/
theorem withParity_lt (v : TMem) {p : TMem} (hp : p.toNat < 0x100) : (withParity v p).toNat < 0x100 := by
  rw [withParity]
  split
  · exact or_lt_byte hp (by decide)
  · exact and_lt_of_left hp _

theorem read_bytes {h : CoreHw Dev} (c : Site) (st : St V) (hst : IsBytes st.mem) :
    IsBytes (D.hardware.read h c st).2.1.mem := by
  cases h with
  | device d => exact D.read_bytes d c st hst
  | interrupt => exact hst
  | dummy => exact hst

theorem write_bytes {h : CoreHw Dev} (c : Site) (v : TMem) (st : St V) (hst : IsBytes st.mem) :
    IsBytes (D.hardware.write h c v st).2.1.mem := by
  cases h with
  | device d => exact D.write_bytes d c v st hst
  | interrupt =>
    change IsBytes (interruptWrite c v st).mem
    rw [interruptWrite_mem]
    exact hst
  | dummy =>
    change IsBytes (dummyWrite c v st).mem
    rw [dummyWrite_mem]
    split
    · exact isBytes_update hst psw (withParity_lt v (hst psw))
    · exact hst

theorem setRandom_bytes (c : Site) : Keeps (HoldsMem bytesSys) (c.setRandom : MemProg V TMem) :=
  Keeps.modifyGet fun _ hs => bytesSys_store hs c (and_lt_byte _)

theorem cellWrite_bytes (c : Site) (v : TMem) : Keeps (HoldsMem bytesSys) (c.write D v) := by
  cases c with
  | dummy sp => exact setRandom_bytes _
  | cell sp idx =>
    exact Site.write_triple (J := fun _ st => IsBytes st.mem)
      (fun hw _ w st hst => write_bytes _ w st hst) fun w s u hu => bytesSys_store hu _ (and_lt_byte w)

instance : StableAllBytes D bytesSys where
  read _ := Site.read_keeps (J := fun st => IsBytes st.mem) fun _ _ st hst => read_bytes _ st hst
  readSkip _ k := Site.readSkip_keeps (J := fun st => IsBytes st.mem) k fun _ _ st hst => read_bytes _ st hst
  write c v _ := cellWrite_bytes c v
  writeAll c v := cellWrite_bytes c v
  add c w _ _ := Keeps.modifyGet fun s hs => by
    simp only [Cell.add, Site.toCell_data, Site.toCell_mask]
    exact bytesSys_store hs c (and_lt_byte _)
  setBit1 c bits _ _ := Keeps.modifyGet fun s hs => by
    simp only [Cell.setBit1, Site.toCell_data, Site.toCell_mask]
    exact bytesSys_store hs c (or_lt_byte (hs c) (and_lt_byte _))
  setBit0 c bits _ _ := Keeps.modifyGet fun s hs => by
    simp only [Cell.setBit0, Site.toCell_data, Site.toCell_mask]
    exact bytesSys_store hs c (and_lt_of_left (hs c) _)
  setAll c v := by
    cases c with
    | dummy sp => exact setRandom_bytes _
    | cell sp idx =>
      refine Keeps.modifyGet fun s hs => ?_
      simp only [Cell.set, Site.toCell_data, Site.toCell_mask]
      exact bytesSys_store hs _ (and_lt_byte _)

/-! ## Addresses -/

/-- From a negative address the loop of `validate_address` goes on to one inside the code space. -/
theorem validateLoop_lt {n : Nat} {addr : Int} (hn : -addr ≤ n) (h : addr < 0) :
    Space.rom.validateLoop n addr < 0x10000 := by
  induction n generalizing addr with
  | zero => omega
  | succ n ih =>
    rw [Space.validateLoop, if_pos (show addr < Space.rom.startAddress from h)]
    by_cases hneg : addr + Space.rom.size < 0
    · exact ih (by simp only [Space.size]; omega) hneg
    · simp only [Space.size] at hneg ⊢
      cases n with
      | zero => rw [Space.validateLoop]; omega
      | succ n =>
        rw [Space.validateLoop, if_neg (by simp only [Space.startAddress]; omega)]
        omega

/-- The address 0x10000 is the only one that `validate_address` leaves outside of the code space. -/
theorem validateAddress_lt_iff (addr : Int) :
    Space.rom.validateAddress addr < 0x10000 ↔ addr ≠ 0x10000 := by
  have hv : Space.rom.validateAddress addr
      = if Space.rom.validateLoop (-addr).toNat addr > 0x10000
        then (Space.rom.validateLoop (-addr).toNat addr).tmod 0x10000
        else Space.rom.validateLoop (-addr).toNat addr := by
    simp only [Space.validateAddress, Space.startAddress, Space.size, zero_sub, zero_add, add_zero,
      sub_zero]
  rw [hv]
  by_cases hneg : addr < 0
  · have hlt := validateLoop_lt (n := (-addr).toNat) (by omega) hneg
    rw [if_neg (by omega)]
    omega
  · have hloop : Space.rom.validateLoop (-addr).toNat addr = addr := by
      rw [show (-addr).toNat = 0 by omega, Space.validateLoop]
    rw [hloop]
    split
    · next hgt =>
      have := Int.tmod_lt_of_pos addr (b := 0x10000) (by decide)
      omega
    · omega

/-- The program counter is in the code space. -/
def InCode (pc : Int) (_ : List ItLevel) : Prop := 0 ≤ pc ∧ pc < 0x10000

instance : Fetches InCode := ⟨fun pc _ h => ⟨incPC_nonneg h.1, incPC_lt pc⟩⟩

instance : Calls InCode := ⟨fun _ _ _ h0 h1 _ => ⟨h0, h1⟩⟩

instance : Serves InCode := ⟨fun _ _ _ _ h _ _ => h, fun _ _ h => h⟩

/-! ## Branches -/

theorem liftM_eq_onMem {α : Type} (x : MemProg V α) : (liftM x : UcProg V α) = onMem x := rfl

/-- The test of a branch does not hold at the state `st`, or the branch leads to an address other than
0x10000. -/
def BranchOk (test : MemProg V Bool) (st : St V) (target : Int) : Prop :=
  ∀ s t, AtMem st s → test.run s = .ok (true, t) → target ≠ 0x10000

section Tests

variable (D)

/-- Is the bit set? It is cleared on the way. -/
def jbcTest (bitaddr : TMem) : MemProg V Bool := do
  let (mem, a, m) := bit2mem bitaddr
  let d ← mem.readSkip D a .port
  let _ ← mem.write D a (d &&& ~~~m)
  return decide (d &&& m ≠ 0)

/-- Is the bit `on`? -/
def bitTest (on : Bool) (bitaddr : TMem) : MemProg V Bool := do
  let (mem, a, m) := bit2mem bitaddr
  let d ← mem.read D a
  return decide (decide (d &&& m ≠ 0) = on)

def carryTest (on : Bool) : MemProg V Bool := do
  return decide ((← sfrGetC D) = on)

def zeroTest (zero : Bool) : MemProg V Bool := do
  let ac ← acc.read D
  return decide (decide (ac = 0) = zero)

/-- Does the accumulator differ from the byte? -/
def accTest (data : UChar) : MemProg V Bool := do
  let ac := uchar (← acc.read D)
  sfrSetC D (ac.toNat < data.toNat)
  return decide (ac ≠ data)

/-- Does it differ from the cell? -/
def accCellTest (cell : Site) : MemProg V Bool := do
  let data := uchar (← cell.read D)
  let ac ← acc.get D
  sfrSetC D (ac.toNat < data.toNat)
  let ac ← acc.read D
  return decide (ac ≠ tmem data)

/-- Does the cell differ from the byte? -/
def cellTest (cell : Site) (data : UChar) : MemProg V Bool := do
  let d ← cell.read D
  sfrSetC D (d.toNat < data.toNat)
  return decide (d ≠ tmem data)

/-- Is the cell, counted down, other than 0? -/
def countTest (cell : Site) : MemProg V Bool := do
  let d ← cell.readSkip D .port
  let d ← cell.write D (d - 1)
  return decide (d ≠ 0)

/-- The same for a register. -/
def countRegTest (reg : Site) : MemProg V Bool := do
  let r ← reg.wadd D (-1)
  return decide (r ≠ 0)

/-- The relative branches: the test, and the sum of the displacement and the address behind the
operands. The operands start at `pc`. -/
def branch (code : UChar) (st : St V) (pc : Int) : Option (MemProg V Bool × Int) :=
  let op := codeAt st pc
  let rel : Int := incPC pc + (uchar op).toInt
  let rel' : Int := incPC (incPC pc) + (uchar (codeAt st (incPC pc))).toInt
  if code = 0x10 then some (jbcTest D (tmem (uchar op)), rel')
  else if code = 0x20 then some (bitTest D true (tmem (uchar op)), rel')
  else if code = 0x30 then some (bitTest D false (tmem (uchar op)), rel')
  else if code = 0x40 then some (carryTest D true, rel)
  else if code = 0x50 then some (carryTest D false, rel)
  else if code = 0x60 then some (zeroTest D true, rel)
  else if code = 0x70 then some (zeroTest D false, rel)
  else if code = 0x80 then some (return true, rel)
  else if code = 0xb4 then some (accTest D (uchar op), rel')
  else if code = 0xb5 then some (accCellTest D (directSite op), rel')
  else if code = 0xb6 ∨ code = 0xb7 then some (cellTest D (indirectSite st.mem code) (uchar op), rel')
  else if 0xb8 ≤ code ∧ code ≤ 0xbf then
    some (cellTest D (regSite st.mem (code &&& 0x07)) (uchar op), rel')
  else if code = 0xd5 then some (countTest D (directSite op), rel')
  else if 0xd8 ≤ code ∧ code ≤ 0xdf then some (countRegTest D (regSite st.mem (code &&& 0x07)), rel)
  else none

/-- The instruction does not jump to the address 0x10000. -/
structure JumpOk (code : UChar) (st : St V) (pc : Int) : Prop where
  relative : ∀ test target, branch D code st pc = some (test, target) → BranchOk test st target
  indirect : code = 0x73 →
    ((st.mem (.sfr Reg.DPH)).toNat * 256 + (st.mem (.sfr Reg.DPL)).toNat + (st.mem acc).toNat : Int)
      ≠ 0x10000

end Tests

/-- The controller is inside the code space, with bytes in memory. -/
abbrev CodeHolds : Uc V → Prop := Holds InCode bytesSys

/-- From a known state the invariant is about that state. -/
theorem code_triple {α : Type} {st : St V} {pc : Int} {x : UcProg V α} {Q : α → Uc V → Prop}
    (h : IsBytes st.mem → 0 ≤ pc ∧ pc < 0x10000 → Triple (At st pc) x Q) :
    Triple (fun u => CodeHolds u ∧ At st pc u) x Q := by
  intro u a v hu hrun
  have hbytes : IsBytes st.mem := hu.2.1 ▸ hu.1.2
  have hpc : 0 ≤ pc ∧ pc < 0x10000 := hu.2.2 ▸ hu.1.1
  exact h hbytes hpc u a v hu.2 hrun

theorem codeHolds_of_at {st : St V} {pc : Int} (hbytes : IsBytes st.mem) (hpc : 0 ≤ pc ∧ pc < 0x10000)
    {u : Uc V} (hu : At st pc u) : CodeHolds u := by
  obtain ⟨rfl, rfl⟩ := hu
  exact ⟨hpc, hbytes⟩

/-- A relative branch from `pc`. -/
theorem jumpRel_triple {pc : Int} (jaddr : UChar) (htarget : pc + jaddr.toInt ≠ 0x10000) :
    Triple (fun u => CodeHolds u ∧ u.PC = pc) (jumpRel jaddr : UcProg V Unit) fun _ => CodeHolds := by
  unfold jumpRel
  refine Triple.bind (Q := fun u v => v = u ∧ CodeHolds v ∧ v.PC = pc) (Triple.get fun u hu => ⟨rfl, hu⟩)
    fun u => Triple.modifyGet fun v hv => ?_
  obtain ⟨rfl, hI, rfl⟩ := hv
  exact ⟨⟨validateAddress_nonneg _, (validateAddress_lt_iff _).mpr htarget⟩, hI.2⟩

/-- The end of a branch instruction. -/
def branchOn (test : MemProg V Bool) (jaddr : UChar) (rest : UcProg V Res) : UcProg V Res := do
  let taken ← onMem test
  if taken = true then
    jumpRel jaddr
    rest
  else rest

/-- A branch that does not lead to the address 0x10000 stays in the code space. -/
theorem branch_triple {test : MemProg V Bool} (htest : Keeps (HoldsMem bytesSys) test) {st : St V} {pc : Int}
    {jaddr : UChar} {rest : UcProg V Res} [hrest : Kept (CodeHolds : Uc V → Prop) rest]
    (hbytes : IsBytes st.mem) (hpc : 0 ≤ pc ∧ pc < 0x10000) (hok : BranchOk test st (pc + jaddr.toInt)) :
    Triple (At st pc) (branchOn test jaddr rest) fun _ => CodeHolds := by
  have hkept : Kept (HoldsMem bytesSys) test := ⟨htest⟩
  have hstay : Kept (Holds (fun p _ => p = pc) bytesSys) (onMem test) := inferInstance
  have htaken : Triple (At st pc) (onMem test) fun b u =>
      (CodeHolds u ∧ u.PC = pc) ∧ (b = true → pc + jaddr.toInt ≠ 0x10000) := by
    intro u b v hu hrun
    obtain ⟨hPC, hv⟩ := hstay.keeps u b v ⟨hu.2, (codeHolds_of_at hbytes hpc hu).2⟩ hrun
    refine ⟨⟨⟨hPC.symm ▸ hpc, hv⟩, hPC⟩, fun hb => ?_⟩
    obtain ⟨s, hs, -⟩ := run_zoom_ok.mp hrun
    exact hok u.mem s hu.1 (hb ▸ hs)
  refine Triple.bind htaken fun b => Triple.ite (fun hb => ?_) fun _ => ?_
  · intro u a v hu hrun
    exact Triple.bind (jumpRel_triple jaddr (hu.2 hb)) (fun _ => hrest.keeps) u a v hu.1 hrun
  · exact Triple.mono hrest.keeps (fun _ hu => hu.1.1) fun _ _ hu => hu

theorem incPC_code {pc : Int} (h0 : 0 ≤ pc) : 0 ≤ incPC pc ∧ incPC pc < 0x10000 :=
  ⟨incPC_nonneg h0, incPC_lt pc⟩

section Rows

instance (bitaddr : TMem) : Kept (HoldsMem bytesSys) (jbcTest D bitaddr) := by
  unfold jbcTest
  infer_instance

instance (on : Bool) (bitaddr : TMem) : Kept (HoldsMem bytesSys) (bitTest D on bitaddr) := by
  unfold bitTest
  infer_instance

instance (on : Bool) : Kept (HoldsMem bytesSys) (carryTest D on) := by
  unfold carryTest
  infer_instance

instance (zero : Bool) : Kept (HoldsMem bytesSys) (zeroTest D zero) := by
  unfold zeroTest
  infer_instance

instance (data : UChar) : Kept (HoldsMem bytesSys) (accTest D data) := by
  unfold accTest
  infer_instance

instance (cell : Site) : Kept (HoldsMem bytesSys) (accCellTest D cell) := by
  unfold accCellTest
  infer_instance

instance (cell : Site) (data : UChar) : Kept (HoldsMem bytesSys) (cellTest D cell data) := by
  unfold cellTest
  infer_instance

instance (cell : Site) : Kept (HoldsMem bytesSys) (countTest D cell) := by
  unfold countTest
  infer_instance

instance (reg : Site) : Kept (HoldsMem bytesSys) (countRegTest D reg) := by
  unfold countRegTest Site.wadd
  infer_instance

/-- `tick 1; return resGO`. -/
abbrev tickGo : UcProg V Res := do
  tick 1
  return .go

/-- The instruction behaves as a branch by `test`. The displacement follows `n` other operands. -/
def BranchesBy (test : MemProg V Bool) (n : Nat) (st : St V) (pc : Int) (x : UcProg V Res) : Prop :=
  ∃ rest, (rest = tickGo ∨ rest = return .go) ∧
    ∀ Q, Triple (At st (incPC^[n + 1] pc)) (branchOn test (uchar (codeAt st (incPC^[n] pc))) rest) Q →
      Triple (At st pc) x Q

/-- The instructions of a case are the branches that `branch` lists. -/
class BranchRow (D : Devices Dev V) (n : outParam Nat) (row : List UChar × (UChar → UcProg V Res)) : Prop where
  form : ∀ code ∈ row.1, ∀ st pc, 0 ≤ pc → ∃ test, Keeps (HoldsMem bytesSys) test ∧
    branch D code st pc = some (test, incPC^[n + 1] pc + (uchar (codeAt st (incPC^[n] pc))).toInt) ∧
    BranchesBy test n st pc (row.2 code)

/-- The end of the forms that branch behind two operands. -/
theorem branchesBy_two {test : MemProg V Bool} {st : St V} {pc : Int} {x rest : UcProg V Res}
    (hrest : rest = tickGo ∨ rest = return .go)
    (h : ∀ Q, Triple (At st (incPC (incPC pc))) (branchOn test (uchar (codeAt st (incPC pc))) rest) Q →
      Triple (At st pc) x Q) : BranchesBy test 1 st pc x := ⟨rest, hrest, h⟩

/-- The end of the forms that branch behind one operand. -/
theorem branchesBy_one {test : MemProg V Bool} {st : St V} {pc : Int} {x rest : UcProg V Res}
    (hrest : rest = tickGo ∨ rest = return .go)
    (h : ∀ Q, Triple (At st (incPC pc)) (branchOn test (uchar (codeAt st pc)) rest) Q →
      Triple (At st pc) x Q) : BranchesBy test 0 st pc x := ⟨rest, hrest, h⟩

instance : BranchRow D 1 ([0x10], instJbcBitAddr D) := by
  refine ⟨fun code hcode st pc h0 => ?_⟩
  obtain rfl := List.mem_singleton.mp hcode
  refine ⟨_, Kept.keeps, rfl, branchesBy_two (Or.inl rfl) fun Q h => ?_⟩
  unfold instJbcBitAddr
  refine fetch_bind h0 (fetch_bind (incPC_nonneg h0) (Triple.congr ?_ h))
  simp only [branchOn, jbcTest, onMem_bind, onMem_pure, liftM_eq_onMem, bind_assoc, pure_bind,
    decide_eq_true_eq]

theorem jumpBit_branches {on : Bool} {st : St V} {pc : Int} (h0 : 0 ≤ pc) :
    BranchesBy (bitTest D on (tmem (uchar (codeAt st pc)))) 1 st pc (jumpBit D on) := by
  refine branchesBy_two (Or.inr rfl) fun Q h => ?_
  unfold jumpBit
  refine fetch_bind h0 ?_
  obtain ⟨mem, a, m, hbit⟩ : ∃ mem a m, bit2mem (tmem (uchar (codeAt st pc))) = (mem, a, m) := ⟨_, _, _, rfl⟩
  rw [hbit]
  refine (tick_reads 1 st _).bind_triple (fetch_bind (incPC_nonneg h0) (Triple.congr ?_ h))
  simp only [branchOn, bitTest, hbit, onMem_bind, onMem_pure, liftM_eq_onMem, bind_assoc, pure_bind,
    decide_eq_true_eq]

instance : BranchRow D 1 ([0x20], instJbBitAddr D) := by
  refine ⟨fun code hcode st pc h0 => ?_⟩
  obtain rfl := List.mem_singleton.mp hcode
  exact ⟨_, Kept.keeps, rfl, jumpBit_branches h0⟩

instance : BranchRow D 1 ([0x30], instJnbBitAddr D) := by
  refine ⟨fun code hcode st pc h0 => ?_⟩
  obtain rfl := List.mem_singleton.mp hcode
  exact ⟨_, Kept.keeps, rfl, jumpBit_branches h0⟩

theorem jumpC_branches {on : Bool} {st : St V} {pc : Int} (h0 : 0 ≤ pc) :
    BranchesBy (carryTest D on) 0 st pc (jumpC D on) := by
  refine branchesBy_one (Or.inr rfl) fun Q h => ?_
  unfold jumpC
  refine fetch_bind h0 ((tick_reads 1 st _).bind_triple (Triple.congr ?_ h))
  simp only [branchOn, carryTest, onMem_bind, onMem_pure, liftM_eq_onMem, bind_assoc, pure_bind,
    decide_eq_true_eq]

theorem jumpZero_branches {zero : Bool} {st : St V} {pc : Int} (h0 : 0 ≤ pc) :
    BranchesBy (zeroTest D zero) 0 st pc (jumpZero D zero) := by
  refine branchesBy_one (Or.inr rfl) fun Q h => ?_
  unfold jumpZero
  refine fetch_bind h0 ((tick_reads 1 st _).bind_triple (Triple.congr ?_ h))
  simp only [branchOn, zeroTest, onMem_bind, onMem_pure, liftM_eq_onMem, bind_assoc, pure_bind,
    decide_eq_true_eq]

instance : BranchRow D 0 ([0x40], instJcAddr D) := by
  refine ⟨fun code hcode st pc h0 => ?_⟩
  obtain rfl := List.mem_singleton.mp hcode
  exact ⟨_, Kept.keeps, rfl, jumpC_branches h0⟩

instance : BranchRow D 0 ([0x50], instJncAddr D) := by
  refine ⟨fun code hcode st pc h0 => ?_⟩
  obtain rfl := List.mem_singleton.mp hcode
  exact ⟨_, Kept.keeps, rfl, jumpC_branches h0⟩

instance : BranchRow D 0 ([0x60], instJzAddr D) := by
  refine ⟨fun code hcode st pc h0 => ?_⟩
  obtain rfl := List.mem_singleton.mp hcode
  exact ⟨_, Kept.keeps, rfl, jumpZero_branches h0⟩

instance : BranchRow D 0 ([0x70], instJnzAddr D) := by
  refine ⟨fun code hcode st pc h0 => ?_⟩
  obtain rfl := List.mem_singleton.mp hcode
  exact ⟨_, Kept.keeps, rfl, jumpZero_branches h0⟩

instance : BranchRow D 0 ([0x80], instSjmp D) := by
  refine ⟨fun code hcode st pc h0 => ?_⟩
  obtain rfl := List.mem_singleton.mp hcode
  refine ⟨_, Keeps.pure true, rfl, branchesBy_one (Or.inl rfl) fun Q h => ?_⟩
  unfold instSjmp
  refine fetch_bind h0 (Triple.congr ?_ h)
  simp only [branchOn, onMem_pure, pure_bind, if_true]

instance : BranchRow D 1 ([0xb4], instCjneASdataAddr D) := by
  refine ⟨fun code hcode st pc h0 => ?_⟩
  obtain rfl := List.mem_singleton.mp hcode
  refine ⟨_, Kept.keeps, rfl, branchesBy_two (Or.inr rfl) fun Q h => ?_⟩
  unfold instCjneASdataAddr
  refine fetch_bind h0 (fetch_bind (incPC_nonneg h0) ((tick_reads 1 st _).bind_triple (Triple.congr ?_ h)))
  simp only [branchOn, accTest, onMem_bind, onMem_pure, liftM_eq_onMem, bind_assoc, pure_bind,
    decide_eq_true_eq]

instance : BranchRow D 1 ([0xb5], instCjneAAddrAddr D) := by
  refine ⟨fun code hcode st pc h0 => ?_⟩
  obtain rfl := List.mem_singleton.mp hcode
  refine ⟨_, Kept.keeps, rfl, branchesBy_two (Or.inr rfl) fun Q h => ?_⟩
  unfold instCjneAAddrAddr
  refine fetch_bind h0 ((getDirect_reads _ st _).bind_triple ?_)
  refine fetch_bind (incPC_nonneg h0) ((tick_reads 1 st _).bind_triple (Triple.congr ?_ h))
  simp only [branchOn, accCellTest, onMem_bind, onMem_pure, liftM_eq_onMem, bind_assoc, pure_bind,
    decide_eq_true_eq]

theorem compareCell_branches {cell : Site} {st : St V} {pc : Int} (h0 : 0 ≤ pc) :
    BranchesBy (cellTest D cell (uchar (codeAt st pc))) 1 st pc (compareCell D cell) := by
  refine branchesBy_two (Or.inr rfl) fun Q h => ?_
  unfold compareCell
  refine fetch_bind h0 (fetch_bind (incPC_nonneg h0) ((tick_reads 1 st _).bind_triple (Triple.congr ?_ h)))
  simp only [branchOn, cellTest, onMem_bind, onMem_pure, liftM_eq_onMem, bind_assoc, pure_bind,
    decide_eq_true_eq]

/-- What is looked at before a branch leaves its form alone. -/
theorem BranchesBy.after_read {α : Type} {test : MemProg V Bool} {n : Nat} {st : St V} {pc : Int}
    {x : UcProg V α} {a : α} {f : α → UcProg V Res} (hx : ReadsAt x st pc a)
    (h : BranchesBy test n st pc (f a)) : BranchesBy test n st pc (x >>= f) := by
  obtain ⟨rest, hrest, h⟩ := h
  exact ⟨rest, hrest, fun Q hQ => hx.bind_triple (h Q hQ)⟩

instance : BranchRow D 1 ([0xb6, 0xb7], instCjneSriSdataAddr D) := by
  refine ⟨fun code hcode st pc h0 => ?_⟩
  refine ⟨cellTest D (indirectSite st.mem code) (uchar (codeAt st pc)), Kept.keeps, ?_, ?_⟩
  · rcases List.mem_pair.mp hcode with rfl | rfl <;> rfl
  · exact (compareCell_branches h0).after_read (getIndirect_reads code st pc)

instance : BranchRow D 1 ([0xb8, 0xb9, 0xba, 0xbb, 0xbc, 0xbd, 0xbe, 0xbf], instCjneRnSdataAddr D) := by
  refine ⟨fun code hcode st pc h0 => ?_⟩
  refine ⟨cellTest D (regSite st.mem (code &&& 0x07)) (uchar (codeAt st pc)), Kept.keeps, ?_, ?_⟩
  · simp only [List.mem_cons, List.not_mem_nil, or_false] at hcode
    rcases hcode with rfl | rfl | rfl | rfl | rfl | rfl | rfl | rfl <;> rfl
  · exact (compareCell_branches h0).after_read (getReg_reads (code &&& 0x07) st pc)

instance : BranchRow D 1 ([0xd5], instDjnzAddrAddr D) := by
  refine ⟨fun code hcode st pc h0 => ?_⟩
  obtain rfl := List.mem_singleton.mp hcode
  refine ⟨_, Kept.keeps, rfl, branchesBy_two (Or.inr rfl) fun Q h => ?_⟩
  unfold instDjnzAddrAddr
  refine fetch_bind h0 ((getDirect_reads _ st _).bind_triple ?_)
  refine fetch_bind (incPC_nonneg h0) ((tick_reads 1 st _).bind_triple (Triple.congr ?_ h))
  simp only [branchOn, countTest, onMem_bind, onMem_pure, liftM_eq_onMem, bind_assoc, pure_bind,
    decide_eq_true_eq]

instance : BranchRow D 0 ([0xd8, 0xd9, 0xda, 0xdb, 0xdc, 0xdd, 0xde, 0xdf], instDjnzRnAddr D) := by
  refine ⟨fun code hcode st pc h0 => ?_⟩
  refine ⟨countRegTest D (regSite st.mem (code &&& 0x07)), Kept.keeps, ?_, ?_⟩
  · simp only [List.mem_cons, List.not_mem_nil, or_false] at hcode
    rcases hcode with rfl | rfl | rfl | rfl | rfl | rfl | rfl | rfl <;> rfl
  · refine BranchesBy.after_read (getReg_reads (code &&& 0x07) st pc) ?_
    refine branchesBy_one (Or.inr rfl) fun Q h => ?_
    refine fetch_bind h0 ((tick_reads 1 st _).bind_triple (Triple.congr ?_ h))
    simp only [branchOn, countRegTest, onMem_bind, onMem_pure, liftM_eq_onMem, bind_assoc, pure_bind,
      decide_eq_true_eq]

theorem iterate_incPC_nonneg (n : Nat) {pc : Int} (h0 : 0 ≤ pc) : 0 ≤ incPC^[n] pc := by
  induction n generalizing pc with
  | zero => exact h0
  | succ n ih => exact ih (incPC_nonneg h0)

/-- A branch keeps the program counter in the code space. -/
instance {n : Nat} {row : List UChar × (UChar → UcProg V Res)} [hrow : BranchRow D n row] :
    Row (JumpOk D) CodeHolds row := by
  refine ⟨fun code hcode st pc h0 hok => code_triple fun hbytes _ => ?_⟩
  obtain ⟨test, htest, hbranch, rest, hrest, h⟩ := hrow.form code hcode st pc h0
  have hpc : 0 ≤ incPC^[n + 1] pc ∧ incPC^[n + 1] pc < 0x10000 := by
    rw [Function.iterate_succ_apply']
    exact incPC_code (iterate_incPC_nonneg n h0)
  have hbranchOk := hok.relative _ _ hbranch
  rcases hrest with rfl | rfl <;> exact h _ (branch_triple htest hbytes hpc hbranchOk)

/-- A jump to an address made of two bytes. -/
theorem setPC_bytes {h l : TMem} (hh : h.toNat < 0x100) (hl : l.toNat < 0x100) :
    Kept (CodeHolds : Uc V → Prop) (setPC (h.toNat * 256 + l.toNat)) :=
  kept_setPC _ fun _ _ _ => ⟨by omega, by omega⟩

instance : Row (JumpOk D) CodeHolds ([0x02], instLjmp D) := by
  refine ⟨fun code _ st pc h0 _ => code_triple fun hbytes _ => ?_⟩
  unfold instLjmp
  refine fetch_bind h0 (fetch_bind (incPC_nonneg h0) ?_)
  have hjump := setPC_bytes (V := V) (hbytes (romByte (st.mem mcon) (st.mem fmap) pc))
    (hbytes (romByte (st.mem mcon) (st.mem fmap) (incPC pc)))
  refine Triple.mono (Triple.bind hjump.keeps fun _ => Kept.keeps) (fun u hu => ?_) fun _ _ hu => hu
  exact codeHolds_of_at hbytes (incPC_code (incPC_nonneg h0)) hu

instance : Row (JumpOk D) CodeHolds ([0x73], instJmpSaDptr D) := by
  refine ⟨fun code hcode st pc h0 hok => code_triple fun hbytes hpc => ?_⟩
  have htarget := hok.indirect (List.mem_singleton.mp hcode)
  have hjump : Kept (CodeHolds : Uc V → Prop) (setPC (Space.rom.validateAddress
      ((st.mem (.sfr Reg.DPH)).toNat * 256 + (st.mem (.sfr Reg.DPL)).toNat + (st.mem acc).toNat))) :=
    kept_setPC _ fun _ _ _ => ⟨validateAddress_nonneg _, (validateAddress_lt_iff _).mpr htarget⟩
  unfold instJmpSaDptr
  refine ((sfrRead_reads (by decide) st).core pc).bind_triple ?_
  refine ((sfrRead_reads (by decide) st).core pc).bind_triple ?_
  refine ((accRead_reads st).core pc).bind_triple ?_
  exact Triple.mono (Triple.bind hjump.keeps fun _ => Kept.keeps) (fun u hu => codeHolds_of_at hbytes hpc hu)
    fun _ _ hu => hu

end Rows

/-! ## Runs -/

/-- The instruction of a round does not jump to the address 0x10000. -/
def StaysInCode (D : Devices Dev V) : Event → Uc V → Prop
  | .round _, u => RoundOk (JumpOk D) u
  | .reset, _ | .poke, _ => True

/-- In every run without a jump to 0x10000 the program counter stays inside the code space. -/
theorem pc_in_code_space {u : Uc V} (hu : ((controller D).guard (StaysInCode D)).Reachable u) :
    0 ≤ u.PC ∧ u.PC < 0x10000 := by
  have hrows : Rows (JumpOk D) CodeHolds (cases D) := by
    dsimp only [cases]
    repeat refine Rows.cons ?_
    exact Rows.nil
  have hreset : Triple (CodeHolds : Uc V → Prop) (reset D) fun _ => CodeHolds :=
    reset_triple fun _ _ _ => ⟨le_refl 0, by decide⟩
  have hI : CodeHolds u := by
    refine System.Reachable.guard_invariant ?_ (fun e u v _ hI hok hstep => ?_) hu
    · rintro v ⟨u, hpower, hrun⟩
      exact hreset u () v ⟨⟨hpower.PC ▸ le_refl _, hpower.PC ▸ by decide⟩, hpower.bytes⟩ hrun
    · cases e with
      | round input => exact round_triple (G := JumpOk D) input u () v ⟨hI, hI.1.1, hok⟩ hstep.2
      | reset => exact hreset u () v hI hstep
      | poke => exact ⟨by rw [hstep.PC]; exact hI.1, hstep.bytes hI.2⟩
  exact hI.1

/-- `LJMP 0xFFFC`, and there `SJMP` with the displacement `d`. The upper half of the code space shows flash bank 0. -/
def edgeCode (d : TMem) : Site → TMem
  | .cell .flashbank0 0 => 0x02
  | .cell .flashbank0 1 => 0xff
  | .cell .flashbank0 2 => 0xfc
  | .cell .flashbank0 0x7ffc => 0x80
  | .cell .flashbank0 0x7ffd => d
  | _ => 0

theorem edge_run {d : TMem} (hd : d = 2 ∨ d = 3) : ∃ u v w : Uc Unit, (controller noDevices).init u ∧
    (controller noDevices).step (.round false) u v ∧ (controller noDevices).step (.round false) v w ∧
    codeAt (startStore u) u.PC = 0x02 ∧ v.PC = 0xfffc ∧ codeAt (startStore v) 0xfffc = 0x80 ∧
    codeAt (startStore v) 0xfffd = d ∧ w.PC = if d = 2 then 0x10000 else 1 := by
  have hpower : PowerOn (bare (edgeCode d)) := by
    refine ⟨fun c => ?_, rfl, rfl⟩
    change (edgeCode d c).toNat < 0x100
    unfold edgeCode
    split <;> rcases hd with rfl | rfl <;> decide
  obtain ⟨⟨⟩, u, hreset, hu⟩ := run_of_check (x := reset noDevices) (s := bare (edgeCode d))
    (p := fun _ u => decide (u.state ≠ .pd ∧ codeAt (startStore u) u.PC = 0x02) && check (round noDevices false) (fun _ v =>
      decide (v.state ≠ .pd ∧ v.PC = 0xfffc ∧ codeAt (startStore v) 0xfffc = 0x80 ∧ codeAt (startStore v) 0xfffd = d) &&
        check (round noDevices false) (fun _ w => decide (w.PC = if d = 2 then 0x10000 else 1)) v) u)
    (by rcases hd with rfl | rfl <;> decide +kernel)
  simp only [Bool.and_eq_true, decide_eq_true_eq] at hu
  obtain ⟨⟨⟩, v, hjump, hv⟩ := run_of_check hu.2
  simp only [Bool.and_eq_true, decide_eq_true_eq] at hv
  obtain ⟨⟨⟩, w, hbranch, hw⟩ := run_of_check hv.2
  exact ⟨u, v, w, ⟨_, hpower, hreset⟩, ⟨hu.1.1, hjump⟩, ⟨hv.1.1, hbranch⟩, hu.1.2, hv.1.2.1, hv.1.2.2.1, hv.1.2.2.2,
    of_decide_eq_true hw⟩

/-- The displacement 3 leads around the end of the code space. -/
theorem pc_in_code_space_around : ∃ u : Uc Unit, ((controller noDevices).guard (StaysInCode noDevices)).Reachable u ∧
    u.PC = 1 ∧ 0 ≤ u.PC ∧ u.PC < 0x10000 := by
  obtain ⟨u, v, w, hinit, hjump, hbranch, hljmp, hPC, hsjmp, hd, hw⟩ := edge_run (.inr rfl)
  have hfar : RoundOk (JumpOk noDevices) u := by
    intro _ _ code hcode
    have hcodes : ∀ code : UChar, (0x02 : TMem) = tmem code → code = 0x02 := by decide
    obtain rfl := hcodes code (hljmp.symm.trans hcode)
    refine ⟨fun test target h => ?_, fun h => absurd h (by decide)⟩
    simp [branch] at h
  have hnear : RoundOk (JumpOk noDevices) v := by
    intro _ _ code hcode
    have hcodes : ∀ code : UChar, (0x80 : TMem) = tmem code → code = 0x80 := by decide
    rw [hPC] at hcode ⊢
    obtain rfl := hcodes code (hsjmp.symm.trans hcode)
    refine ⟨fun test target h s t _ _ => ?_, fun h => absurd h (by decide)⟩
    have hpc : incPC 0xfffc = 0xfffd := by decide
    rw [hpc] at h
    simp only [branch, hd] at h
    have htarget : (incPC 0xfffd + (uchar 3).toInt : Int) = target := by simpa using congrArg (Option.map Prod.snd) h
    rw [← htarget]
    decide
  have hstep : ((controller noDevices).guard (StaysInCode noDevices)).step (.round false) u v := ⟨hfar, hjump⟩
  have hstep' : ((controller noDevices).guard (StaysInCode noDevices)).step (.round false) v w := ⟨hnear, hbranch⟩
  have hstart : ((controller noDevices).guard (StaysInCode noDevices)).Reachable u := .init hinit
  have hreach := (hstart.step hstep).step hstep'
  exact ⟨w, hreach, hw, pc_in_code_space hreach⟩

/-- The displacement 2 leads behind the end of the code space. -/
theorem not_pc_in_code_space :
    ¬ ∀ u : Uc Unit, (controller noDevices).Reachable u → 0 ≤ u.PC ∧ u.PC < 0x10000 := by
  intro h
  obtain ⟨u, v, w, hinit, hjump, hbranch, -, -, -, -, hw⟩ := edge_run (.inl rfl)
  have hlt := (h w (.step (.step (.init hinit) hjump) hbranch)).2
  rw [hw] at hlt
  exact absurd hlt (by decide)

end Ucsim.S51
