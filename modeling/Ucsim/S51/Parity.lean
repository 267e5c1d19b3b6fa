import Ucsim.S51.CodeSpace

/-!
# The parity flag

`PSW.P` is kept by the callback of the accumulator's cell. So it shows the parity of the accumulator as
long as nothing else writes it. An instruction that stores to `PSW` does, and `SUBB`, `DIV AB` and `DA A`
do, for they write back a copy of `PSW` that is older than their result.
-/

namespace Ucsim.S51

open Logic Program

variable {Dev V : Type} {D : Devices Dev V}

set_option synthInstance.maxSize 1024

/-- The flag is the parity of the accumulator. -/
def ParityHolds (mem : Site → TMem) : Prop := (mem psw).getLsbD 0 = parity ((mem acc).setWidth 8)

/-- The bytes with the flag. -/
def paritySys (s : Sys Site (HwState V)) : Prop := bytesSys s ∧ ParityHolds s.mem

/-- The devices leave the accumulator and `PSW` alone. -/
class SparesFlags (D : Devices Dev V) : Prop where
  read : ∀ d c st, (D.read d c st).2.1.mem acc = st.mem acc ∧ (D.read d c st).2.1.mem psw = st.mem psw
  write : ∀ d c v st, (D.write d c v st).2.1.mem acc = st.mem acc ∧ (D.write d c v st).2.1.mem psw = st.mem psw
  tick : ∀ n st, (D.tick n st).1.mem acc = st.mem acc ∧ (D.tick n st).1.mem psw = st.mem psw
  reset : ∀ st, (D.reset st).1.mem acc = st.mem acc ∧ (D.reset st).1.mem psw = st.mem psw

/-- The codes of `SUBB`, `DIV AB` and `DA A`. -/
def staleCodes : List UChar :=
  [0x84, 0x94, 0x95, 0x96, 0x97, 0x98, 0x99, 0x9a, 0x9b, 0x9c, 0x9d, 0x9e, 0x9f, 0xd4]

/-- The instructions with a direct destination that is their first operand. -/
def directCodes : List UChar :=
  [0x05, 0x15, 0x42, 0x43, 0x52, 0x53, 0x62, 0x63, 0x75, 0x86, 0x87, 0x88, 0x89, 0x8a, 0x8b, 0x8c, 0x8d, 0x8e,
    0x8f, 0xc5, 0xd0, 0xd5, 0xf5]

/-- The instructions that write a bit. -/
def bitCodes : List UChar := [0x10, 0x92, 0xb2, 0xc2, 0xd2]

/-- The cell of a bit address. -/
def bitSite (bitaddr : TMem) : Site := (bit2mem bitaddr).1.cellAt (bit2mem bitaddr).2.1

/-- The destination of an instruction with the operands at `pc`, if it is a direct or a bit address. -/
def destination (code : UChar) (st : St V) (pc : Int) : Option Site :=
  if code ∈ directCodes then some (directSite (codeAt st pc))
  else if code = 0x85 then some (directSite (codeAt st (incPC pc)))
  else if code ∈ bitCodes then some (bitSite (codeAt st pc))
  else none

/-- The instruction does not write back an old copy of `PSW`, and `PSW` is not its destination. -/
structure SparesParity (code : UChar) (st : St V) (pc : Int) : Prop where
  fresh : code ∉ staleCodes
  other : destination code st pc ≠ some psw

/-! ## The operations on cells -/

theorem ParityHolds.congr {mem mem' : Site → TMem} (h : ParityHolds mem) (hacc : mem' acc = mem acc)
    (hpsw : mem' psw = mem psw) : ParityHolds mem' := by
  rw [ParityHolds, hacc, hpsw]
  exact h

/-- A store to another cell. -/
theorem ParityHolds.update {mem : Site → TMem} (h : ParityHolds mem) {c : Site} (v : TMem) (hacc : c ≠ acc)
    (hpsw : c ≠ psw) : ParityHolds (Function.update mem c v) :=
  h.congr (Function.update_of_ne (Ne.symm hacc) _ _) (Function.update_of_ne (Ne.symm hpsw) _ _)

/-- A store to `PSW` that leaves the flag alone. -/
theorem ParityHolds.update_psw {mem : Site → TMem} (h : ParityHolds mem) {v : TMem}
    (hv : v.getLsbD 0 = (mem psw).getLsbD 0) : ParityHolds (Function.update mem psw v) := by
  rw [ParityHolds, Function.update_self, Function.update_of_ne (by decide), hv]
  exact h

/-- The callback of the accumulator sets the flag. -/
theorem parityHolds_stored (v : TMem) (mem : Site → TMem) : ParityHolds (stored acc v mem) := by
  have hmask : ∀ i < 8, (0xff : TMem).getLsbD i = true := by decide
  have hlow : (v &&& 0xff).setWidth 8 = v.setWidth 8 := by
    apply BitVec.eq_of_getLsbD_eq
    intro i hi
    rw [BitVec.getLsbD_setWidth, BitVec.getLsbD_setWidth, BitVec.getLsbD_and, hmask i hi, Bool.and_true]
  rw [ParityHolds, stored, if_pos rfl, Function.update_self, Function.update_of_ne (by decide),
    Function.update_self, hlow, withParity]
  split
  · next hp => simp [hp, bmP]
  · next hp => simp [hp, bmP]

theorem getLsbD_of_and_bmP {bits : TMem} (h : bits &&& bmP = 0) : bits.getLsbD 0 = false := by
  have hbit := congrArg (BitVec.getLsbD · 0) h
  simpa [bmP] using hbit

section Devices

variable [hD : SparesFlags D]

theorem read_parity {h : CoreHw Dev} (c : Site) (st : St V) (hst : ParityHolds st.mem) :
    ParityHolds (D.hardware.read h c st).2.1.mem := by
  cases h with
  | device d => exact hst.congr (hD.read d c st).1 (hD.read d c st).2
  | interrupt => exact hst
  | dummy => exact hst

theorem write_parity {h : CoreHw Dev} {c : Site} (hc : c ≠ acc) (v : TMem) (st : St V) (hst : ParityHolds st.mem) :
    ParityHolds (D.hardware.write h c v st).2.1.mem := by
  cases h with
  | device d => exact hst.congr (hD.write d c v st).1 (hD.write d c v st).2
  | interrupt =>
    change ParityHolds (interruptWrite c v st).mem
    rw [interruptWrite_mem]
    exact hst
  | dummy =>
    change ParityHolds (dummyWrite c v st).mem
    rw [dummyWrite_mem, if_neg hc]
    exact hst

/-- A write to any cell but `PSW`. -/
theorem write_parity_keeps (c : Site) (v : TMem) (hc : c ≠ psw) :
    Keeps (HoldsMem fun s => ParityHolds s.mem) (c.write D v) := by
  cases c with
  | dummy sp =>
    refine Keeps.modifyGet fun s hs => ?_
    exact ParityHolds.update hs _ (by simp [acc, Site.sfr]) (by simp [psw, Site.sfr])
  | cell sp idx =>
    by_cases hacc : Site.cell sp idx = acc
    · -- The flag is set, whatever it was.
      intro s a t hs hrun
      have hquiet : D.QuietAt (.cell sp idx) := hacc ▸ Devices.quietAt_core (by decide)
      obtain ⟨u, hu, hmem⟩ := Site.write_quiet hquiet v s
      rw [hu, Except.ok.injEq, Prod.mk.injEq] at hrun
      obtain ⟨-, rfl⟩ := hrun
      show ParityHolds u.mem
      rw [hmem, hacc]
      exact parityHolds_stored v s.sys.mem
    · refine Site.write_triple (J := fun _ st => ParityHolds st.mem)
        (fun _ _ w st hst => write_parity hacc w st hst) fun w s u hu => ?_
      exact ParityHolds.update hu _ hacc hc

instance : StableBytes D fun s => ParityHolds s.mem where
  read _ := Site.read_keeps (J := fun st => ParityHolds st.mem) fun _ _ st hst => read_parity _ st hst
  readSkip _ k := Site.readSkip_keeps (J := fun st => ParityHolds st.mem) k fun _ _ st hst => read_parity _ st hst
  write c v hc := write_parity_keeps c v hc
  add c w hpsw hacc := Keeps.modifyGet fun s hs => by
    simp only [Cell.add, Site.toCell_data, Site.toCell_mask]
    exact ParityHolds.update hs _ hacc hpsw
  setBit1 c bits hacc hbits := Keeps.modifyGet fun s hs => by
    simp only [Cell.setBit1, Site.toCell_data, Site.toCell_mask]
    by_cases hpsw : c = psw
    · subst hpsw
      have hflag : (s.sys.mem psw ||| bits &&& 0xff).getLsbD 0 = (s.sys.mem psw).getLsbD 0 := by
        rw [BitVec.getLsbD_or, BitVec.getLsbD_and, getLsbD_of_and_bmP (hbits rfl), Bool.false_and, Bool.or_false]
      exact ParityHolds.update_psw hs hflag
    · exact ParityHolds.update hs _ hacc hpsw
  setBit0 c bits hacc hbits := Keeps.modifyGet fun s hs => by
    simp only [Cell.setBit0, Site.toCell_data, Site.toCell_mask]
    by_cases hpsw : c = psw
    · subst hpsw
      have hflag : (s.sys.mem psw &&& ~~~(bits &&& 0xff)).getLsbD 0 = (s.sys.mem psw).getLsbD 0 := by
        rw [BitVec.getLsbD_and, BitVec.getLsbD_not, BitVec.getLsbD_and, getLsbD_of_and_bmP (hbits rfl)]
        simp
      exact ParityHolds.update_psw hs hflag
    · exact ParityHolds.update hs _ hacc hpsw

theorem keeps_both {α : Type} {x : MemProg V α} (hbytes : Keeps (HoldsMem bytesSys) x)
    (hparity : Keeps (HoldsMem fun s => ParityHolds s.mem) x) : Keeps (HoldsMem paritySys) x :=
  Triple.and hbytes hparity

instance : StableBytes D paritySys where
  read c := keeps_both (StableBytes.read c) (StableBytes.read c)
  readSkip c k := keeps_both (StableBytes.readSkip c k) (StableBytes.readSkip c k)
  write c v hc := keeps_both (StableBytes.write c v hc) (StableBytes.write c v hc)
  add c w hpsw hacc := keeps_both (StableBytes.add c w hpsw hacc) (StableBytes.add c w hpsw hacc)
  setBit1 c bits hacc hbits := keeps_both (StableBytes.setBit1 c bits hacc hbits) (StableBytes.setBit1 c bits hacc hbits)
  setBit0 c bits hacc hbits := keeps_both (StableBytes.setBit0 c bits hacc hbits) (StableBytes.setBit0 c bits hacc hbits)

instance : StableDevices D paritySys where
  tick n s hs := ⟨D.tick_bytes n s.toStore hs.1, hs.2.congr (hD.tick n s.toStore).1 (hD.tick n s.toStore).2⟩
  reset s hs := ⟨D.reset_bytes s.toStore hs.1, hs.2.congr (hD.reset s.toStore).1 (hD.reset s.toStore).2⟩

end Devices

instance : OfBytes (paritySys : Sys Site (HwState V) → Prop) :=
  ⟨fun s t h hs => by rw [paritySys, bytesSys, h]; exact hs⟩

/-! ## Instructions that store to a cell -/

/-- The program counter is not negative. -/
def NotNegative (pc : Int) (_ : List ItLevel) : Prop := 0 ≤ pc

instance : Fetches NotNegative := ⟨fun _ _ h => incPC_nonneg h⟩

instance : Jumps NotNegative := ⟨fun _ _ _ h0 _ => h0⟩

instance : Serves NotNegative := ⟨fun _ _ _ _ h _ _ => h, fun _ _ h => h⟩

/-- The controller has bytes in memory, and the flag is right. -/
abbrev ParityHeld : Uc V → Prop := Holds NotNegative paritySys

/-- A state with bytes and the right flag. -/
structure Fair (st : St V) (pc : Int) : Prop where
  bytes : IsBytes st.mem
  parity : ParityHolds st.mem
  pc : 0 ≤ pc

/-- From a known state the invariant is about that state. -/
theorem held_triple {st : St V} {pc : Int} {x : UcProg V Res} {Q : Res → Uc V → Prop}
    (h : Fair st pc → Triple (At st pc) x Q) : Triple (fun u => ParityHeld u ∧ At st pc u) x Q := by
  intro u a v hu hrun
  obtain ⟨⟨h0, hbytes, hparity⟩, rfl, rfl⟩ := hu
  exact h ⟨hbytes, hparity, h0⟩ u a v ⟨rfl, rfl⟩ hrun

theorem Fair.keeps {st : St V} {pc : Int} (h : Fair st pc) {α : Type} {x : UcProg V α}
    [hx : Kept (ParityHeld : Uc V → Prop) x] : Triple (At st pc) x fun _ => ParityHeld := by
  refine Triple.mono hx.keeps (fun u hu => ?_) fun _ _ hu => hu
  obtain ⟨rfl, rfl⟩ := hu
  exact ⟨h.pc, h.bytes, h.parity⟩

theorem Fair.next {st : St V} {pc : Int} (h : Fair st pc) : Fair st (incPC pc) :=
  ⟨h.bytes, h.parity, incPC_nonneg h.pc⟩

/-- A cell other than `PSW`. -/
def OtherCell := { c : Site // c ≠ psw }

instance (c : OtherCell) : NotPsw c.val := ⟨c.property⟩

section Stores

variable [hD : SparesFlags D]

omit hD in
/-- A program that goes on with the cell of a direct address. -/
theorem Fair.direct {st : St V} {pc : Int} (h : Fair st pc) (hdest : directSite (codeAt st pc) ≠ psw)
    {rest : Site → UcProg V Res} (hrest : ∀ c : OtherCell, Kept ParityHeld (rest c.val)) :
    Triple (At st pc) (fetch D >>= fun d => getDirect d >>= rest) fun _ => ParityHeld := by
  refine fetch_bind h.pc ((getDirect_reads _ st _).bind_triple ?_)
  generalize directSite (codeAt st pc) = c at hdest
  have hkept : Kept ParityHeld (rest c) := hrest ⟨c, hdest⟩
  exact h.next.keeps

omit hD in
/-- An instruction with a direct destination. -/
theorem direct_row {labels : List UChar} {inst : UChar → UcProg V Res} {rest : UChar → Site → UcProg V Res}
    (hlabels : ∀ code ∈ labels, code ∈ directCodes)
    (hinst : ∀ code, inst code = fetch D >>= fun d => getDirect d >>= rest code)
    (hrest : ∀ code (c : OtherCell), Kept ParityHeld (rest code c.val)) :
    Row SparesParity ParityHeld (labels, inst) := by
  refine ⟨fun code hcode st pc _ hok => held_triple fun h => ?_⟩
  have hdest : directSite (codeAt st pc) ≠ psw := by
    have hother := hok.other
    rw [destination, if_pos (hlabels code hcode)] at hother
    exact fun heq => hother (congrArg some heq)
  dsimp only
  rw [hinst]
  exact h.direct hdest (hrest code)

instance : Row SparesParity ParityHeld ([0x05], instIncAddr D) :=
  direct_row (by decide) (fun _ => rfl) fun _ _ => inferInstance

instance : Row SparesParity ParityHeld ([0x15], instDecAddr D) :=
  direct_row (by decide) (fun _ => rfl) fun _ _ => inferInstance

instance : Row SparesParity ParityHeld ([0x42], instOrlAddrA D) :=
  direct_row (by decide) (fun _ => rfl) fun _ _ => inferInstance

instance : Row SparesParity ParityHeld ([0x43], instOrlAddrSdata D) :=
  direct_row (by decide) (fun _ => rfl) fun _ _ => inferInstance

instance : Row SparesParity ParityHeld ([0x52], instAnlAddrA D) :=
  direct_row (by decide) (fun _ => rfl) fun _ _ => inferInstance

instance : Row SparesParity ParityHeld ([0x53], instAnlAddrSdata D) :=
  direct_row (by decide) (fun _ => rfl) fun _ _ => inferInstance

instance : Row SparesParity ParityHeld ([0x62], instXrlAddrA D) :=
  direct_row (by decide) (fun _ => rfl) fun _ _ => inferInstance

instance : Row SparesParity ParityHeld ([0x63], instXrlAddrSdata D) :=
  direct_row (by decide) (fun _ => rfl) fun _ _ => inferInstance

instance : Row SparesParity ParityHeld ([0x75], instMovAddrSdata D) :=
  direct_row (by decide) (fun _ => rfl) fun _ _ => inferInstance

instance : Row SparesParity ParityHeld ([0x86, 0x87], instMovAddrSri D) :=
  direct_row (by decide) (fun _ => rfl) fun _ _ => inferInstance

instance : Row SparesParity ParityHeld ([0x88, 0x89, 0x8a, 0x8b, 0x8c, 0x8d, 0x8e, 0x8f], instMovAddrRn D) :=
  direct_row (by decide) (fun _ => rfl) fun _ _ => inferInstance

instance : Row SparesParity ParityHeld ([0xc5], instXchAAddr D) :=
  direct_row (by decide) (fun _ => rfl) fun _ _ => inferInstance

instance : Row SparesParity ParityHeld ([0xd5], instDjnzAddrAddr D) :=
  direct_row (by decide) (fun _ => rfl) fun _ _ => inferInstance

instance : Row SparesParity ParityHeld ([0xf5], instMovAddrA D) :=
  direct_row (by decide) (fun _ => rfl) fun _ _ => inferInstance

/-- The destination is the second operand. -/
instance : Row SparesParity ParityHeld ([0x85], instMovAddrAddr D) := by
  refine ⟨fun code hcode st pc _ hok => held_triple fun h => ?_⟩
  obtain rfl := List.mem_singleton.mp hcode
  have hdest : directSite (codeAt st (incPC pc)) ≠ psw := fun heq => hok.other (congrArg some heq)
  let st' : St V := { st with hw := { st.hw with movInstruction := true } }
  have h' : Fair st' pc := ⟨h.bytes, h.parity, h.pc⟩
  unfold instMovAddrAddr
  refine Triple.bind (Q := fun _ => At st' pc) (Triple.modifyGet fun u hu => ?_) fun _ => ?_
  · obtain ⟨rfl, rfl⟩ := hu
    exact ⟨rfl, rfl⟩
  refine fetch_bind h'.pc ((getDirect_reads _ st' _).bind_triple ?_)
  exact h'.next.direct hdest fun c => inferInstance

/-- The stack pointer is read first. -/
instance : Row SparesParity ParityHeld ([0xd0], instPop D) := by
  refine ⟨fun code hcode st pc _ hok => held_triple fun h => ?_⟩
  obtain rfl := List.mem_singleton.mp hcode
  have hdest : directSite (codeAt st pc) ≠ psw := fun heq => hok.other (congrArg some heq)
  unfold instPop
  refine ((sfrGet_reads (by decide) st).core pc).bind_triple ?_
  exact h.direct hdest fun c => inferInstance

/-- A bit address is one of `iram` or of `sfr`. -/
structure BitCell where
  mem : Space
  a : Int
  space : mem = .iram ∨ mem = .sfr
  other : mem.cellAt a ≠ psw

instance (b : BitCell) (v : TMem) : Kept (HoldsMem paritySys) (b.mem.write D b.a v) := by
  have hcells : Kept (HoldsMem paritySys) (b.mem.writeCells D b.a v) := by
    unfold Space.writeCells
    split
    · infer_instance
    · next hvalid =>
      have hne : NotPsw (b.mem.cells b.a) := ⟨Space.cellAt_of_valid hvalid ▸ b.other⟩
      infer_instance
  obtain ⟨mem, a, rfl | rfl, hother⟩ := b
  · exact hcells
  · exact hcells

theorem exists_bitCell {bitaddr : TMem} {mem : Space} {a : Int} {m : TMem} (hbit : bit2mem bitaddr = (mem, a, m))
    (hdest : bitSite bitaddr ≠ psw) : ∃ b : BitCell, mem = b.mem ∧ a = b.a := by
  have hspace : (bit2mem bitaddr).1 = .iram ∨ (bit2mem bitaddr).1 = .sfr := by
    rw [bit2mem]
    split
    · exact .inl rfl
    · exact .inr rfl
  rw [bitSite, hbit] at hdest
  rw [hbit] at hspace
  exact ⟨⟨mem, a, hspace, hdest⟩, rfl, rfl⟩

omit hD in
theorem SparesParity.bitSite_ne {code : UChar} {st : St V} {pc : Int} (hok : SparesParity code st pc)
    (hcode : code ∈ bitCodes) : bitSite (codeAt st pc) ≠ psw := by
  have hdisjoint : ∀ code ∈ bitCodes, code ∉ directCodes ∧ code ≠ 0x85 := by decide
  have hne := hok.other
  rw [destination, if_neg (hdisjoint code hcode).1, if_neg (hdisjoint code hcode).2, if_pos hcode] at hne
  exact fun heq => hne (congrArg some heq)

theorem modifyBit_row {label : UChar} (hlabel : label ∈ bitCodes) (f : TMem → TMem → TMem) :
    Row SparesParity ParityHeld ([label], fun _ => modifyBit D f) := by
  refine ⟨fun code hcode st pc _ hok => held_triple fun h => ?_⟩
  obtain rfl := List.mem_singleton.mp hcode
  have hdest := hok.bitSite_ne hlabel
  unfold modifyBit
  refine fetch_bind h.pc ?_
  obtain ⟨mem, a, m, hbit⟩ : ∃ mem a m, bit2mem (codeAt st pc) = (mem, a, m) := ⟨_, _, _, rfl⟩
  obtain ⟨b, rfl, rfl⟩ := exists_bitCell hbit hdest
  rw [hbit]
  exact h.next.keeps

instance : Row SparesParity ParityHeld ([0xb2], instCplBit D) := modifyBit_row (by decide) fun d m => d ^^^ m

instance : Row SparesParity ParityHeld ([0xc2], instClrBit D) := modifyBit_row (by decide) fun d m => d &&& ~~~m

instance : Row SparesParity ParityHeld ([0xd2], instSetbBit D) := modifyBit_row (by decide) fun d m => d ||| m

instance : Row SparesParity ParityHeld ([0x92], instMovBitC D) := by
  refine ⟨fun code hcode st pc _ hok => held_triple fun h => ?_⟩
  obtain rfl := List.mem_singleton.mp hcode
  have hdest := hok.bitSite_ne (by decide)
  unfold instMovBitC
  refine fetch_bind h.pc ?_
  obtain ⟨mem, a, m, hbit⟩ : ∃ mem a m, bit2mem (codeAt st pc) = (mem, a, m) := ⟨_, _, _, rfl⟩
  obtain ⟨b, rfl, rfl⟩ := exists_bitCell hbit hdest
  rw [hbit]
  exact h.next.keeps

/-- The displacement is fetched before the bit is cleared. -/
instance : Row SparesParity ParityHeld ([0x10], instJbcBitAddr D) := by
  refine ⟨fun code hcode st pc _ hok => held_triple fun h => ?_⟩
  obtain rfl := List.mem_singleton.mp hcode
  have hdest := hok.bitSite_ne (by decide)
  have hbyte : tmem (uchar (codeAt st pc)) = codeAt st pc := tmem_uchar (h.bytes _)
  unfold instJbcBitAddr
  refine fetch_bind h.pc (fetch_bind h.next.pc ?_)
  rw [hbyte]
  obtain ⟨mem, a, m, hbit⟩ : ∃ mem a m, bit2mem (codeAt st pc) = (mem, a, m) := ⟨_, _, _, rfl⟩
  obtain ⟨b, rfl, rfl⟩ := exists_bitCell hbit hdest
  rw [hbit]
  exact h.next.next.keeps

/-- `PSW` is read and written back with the flag as it was. -/
theorem modifyPsw_kept {f : TMem → TMem} (hf : ∀ v, (f v).getLsbD 0 = v.getLsbD 0) :
    Kept (ParityHeld : Uc V → Prop) (modifyPsw D f) := by
  have hquiet : D.QuietAt psw := Devices.quietAt_core (by decide)
  have hread : Triple (HoldsMem paritySys) (psw.read D) fun pw s => HoldsMem paritySys s ∧ s.sys.mem psw = pw := by
    intro s pw t hs hrun
    refine ⟨StableBytes.read psw s pw t hs hrun, ?_⟩
    obtain ⟨u, hu, hmem⟩ := Site.read_quiet hquiet s
    rw [hu, Except.ok.injEq, Prod.mk.injEq] at hrun
    obtain ⟨rfl, rfl⟩ := hrun
    exact congrFun hmem psw
  have hwrite (pw : TMem) : Triple (fun s => HoldsMem paritySys s ∧ s.sys.mem psw = pw) (psw.write D (f pw))
      fun _ => HoldsMem paritySys := by
    rintro s v t ⟨hs, hpw⟩ hrun
    refine ⟨cellWrite_bytes psw (f pw) s v t hs.1 hrun, ?_⟩
    obtain ⟨u, hu, hmem⟩ : Yields (psw.write D (f pw)) s (f pw &&& 0xff) (stored psw (f pw) s.sys.mem) :=
      Site.write_quiet hquiet (f pw) s
    rw [hu, Except.ok.injEq, Prod.mk.injEq] at hrun
    obtain ⟨-, rfl⟩ := hrun
    have hflag : (f pw &&& 0xff).getLsbD 0 = (s.sys.mem psw).getLsbD 0 := by
      rw [BitVec.getLsbD_and, hf, hpw]
      simp
    show ParityHolds u.mem
    rw [hmem, stored, if_neg (by decide)]
    exact ParityHolds.update_psw hs.2 hflag
  unfold modifyPsw
  refine ⟨Triple.bind (Q := fun pw u => ParityHeld u ∧ u.mem.sys.mem psw = pw) ?_ fun pw => ?_⟩
  · change Triple _ (onMem (psw.read D)) _
    intro u pw v hu hrun
    obtain ⟨s, hs, rfl⟩ := run_zoom_ok.mp hrun
    obtain ⟨hheld, hpw⟩ := hread _ _ _ hu.2 hs
    exact ⟨⟨hu.1, hheld⟩, hpw⟩
  · refine Triple.bind (Q := fun _ => ParityHeld) ?_ fun _ => Kept.keeps
    change Triple _ (onMem (psw.write D (f pw))) _
    rintro u a v ⟨hu, hpw⟩ hrun
    obtain ⟨s, hs, rfl⟩ := run_zoom_ok.mp hrun
    exact ⟨hu.1, hwrite pw _ _ _ ⟨hu.2, hpw⟩ hs⟩

instance (code : UChar) : Kept (ParityHeld : Uc V → Prop) (instCplC D code) :=
  modifyPsw_kept fun v => by simp [bmCY]

instance (code : UChar) : Kept (ParityHeld : Uc V → Prop) (instClrC D code) :=
  modifyPsw_kept fun v => by simp [bmCY]

instance (code : UChar) : Kept (ParityHeld : Uc V → Prop) (instSetbC D code) :=
  modifyPsw_kept fun v => by simp [bmCY]

/-! ## External memory -/

omit hD in
theorem notPsw_cells (sp : Space) (hsp : sp ≠ .sfr) (addr : Int) : NotPsw (sp.cells addr) :=
  ⟨by simp [Space.cells, psw, Site.sfr, hsp]⟩

theorem writeCells_kept (sp : Space) (addr : Int) (v : TMem) [NotPsw (sp.cells addr)] :
    Kept (HoldsMem paritySys) (sp.writeCells D addr v) := by
  unfold Space.writeCells
  infer_instance

theorem writeSram_kept (addr : Int) (v : TMem) : Kept (HoldsMem paritySys) (Space.writeSram D addr v) := by
  have hsram := notPsw_cells .sram (by simp) addr
  have hiram := notPsw_cells .iram (by simp) (addr - Space.iram.xramOffset)
  have hcells := writeCells_kept (D := D) .iram (addr - Space.iram.xramOffset) v
  unfold Space.writeSram
  infer_instance

/-- The bank switch of `xram->write`. -/
theorem bankWrite_kept (d : TMem) (idx : Int) (v : TMem) :
    Kept (HoldsMem paritySys) (match Space.flashbank d.toNat with
      | some bank => bank.writeCells D (idx % 0x8000) v
      | none => (Space.xram.cells (idx % 0x8000)).write D v) := by
  have hcells (i : Int) := notPsw_cells .xram (by simp) i
  cases hk : Space.flashbank d.toNat with
  | none =>
    dsimp only
    infer_instance
  | some bank =>
    have hother : bank ≠ .sfr := by
      rintro rfl
      have hcode := (flashbank_code hk).1
      cases hcode
    have hne := notPsw_cells bank hother (idx % 0x8000)
    exact writeCells_kept bank _ v

/-- Outside of the register window `xram->write` stores to no register. -/
theorem xramWrite_kept {idx : Int} (hwindow : ¬ (idx ≥ 0x7080 ∧ idx < 0x7100)) (v : TMem) :
    Kept (HoldsMem paritySys) (Space.xram.write D idx v) := by
  have hsram := writeSram_kept (D := D) idx v
  have hcells (i : Int) := notPsw_cells .xram (by simp) i
  have hbank (d : TMem) := bankWrite_kept (D := D) d idx v
  change Kept _ (Space.writeXram D idx v)
  unfold Space.writeXram
  rw [if_neg hwindow]
  infer_instance

omit hD in
/-- `sfr` has no cell at an address of the window. -/
theorem sfrWrite_window {idx : Int} (hwindow : idx ≥ 0x7080) (v : TMem) :
    Kept (HoldsMem paritySys) (Space.sfr.write D idx v) := by
  have hinvalid : Space.sfr.invalid idx := by
    simp only [Space.invalid, Space.startAddress, Space.size]
    omega
  change Kept _ (Space.sfr.writeCells D idx v)
  unfold Space.writeCells
  rw [if_pos hinvalid]
  infer_instance

omit hD in
theorem dptrInWindow_reads (st : St V) : Reads (dptrInWindow D) st
    (decide (st.mem (.sfr Reg.DPH) = 0x70 ∧ (st.mem (.sfr Reg.DPL)).toNat ≥ 0x80)) := by
  unfold dptrInWindow
  refine (sfrRead_reads (by decide) st).bind (Reads.ite (fun hhigh => ?_) fun hhigh => ?_)
  · refine (sfrRead_reads (by decide) st).bind ?_
    rw [decide_eq_decide.mpr (and_iff_right hhigh)]
    exact Reads.pure _ st
  · rw [decide_eq_false (fun h => hhigh h.1)]
    exact Reads.pure _ st

instance : Row SparesParity ParityHeld ([0xf0], instMovxSdptrA D) := by
  refine ⟨fun code _ st pc _ _ => held_triple fun h => ?_⟩
  have hhigh := h.bytes (.sfr Reg.DPH)
  have hlow := h.bytes (.sfr Reg.DPL)
  unfold instMovxSdptrA
  refine ((sfrRead_reads (by decide) st).core pc).bind_triple ?_
  refine ((sfrRead_reads (by decide) st).core pc).bind_triple ?_
  refine ((dptrInWindow_reads st).core pc).bind_triple ?_
  refine ((accRead_reads st).core pc).bind_triple ?_
  by_cases hwindow : st.mem (.sfr Reg.DPH) = 0x70 ∧ (st.mem (.sfr Reg.DPL)).toNat ≥ 0x80
  · rw [decide_eq_true hwindow, if_pos rfl]
    have hsfr : Kept (HoldsMem paritySys) (Space.sfr.write D
        ((st.mem (.sfr Reg.DPH)).toNat * 256 + (st.mem (.sfr Reg.DPL)).toNat) (st.mem acc)) := by
      refine sfrWrite_window ?_ _
      have hpage : (st.mem (.sfr Reg.DPH)).toNat = 0x70 := congrArg BitVec.toNat hwindow.1
      have hge := hwindow.2
      omega
    exact h.keeps
  · rw [decide_eq_false hwindow, if_neg Bool.false_ne_true]
    have hxram : Kept (HoldsMem paritySys) (Space.xram.write D
        ((st.mem (.sfr Reg.DPH)).toNat * 256 + (st.mem (.sfr Reg.DPL)).toNat) (st.mem acc)) := by
      refine xramWrite_kept (fun hin => hwindow ⟨BitVec.eq_of_toNat_eq ?_, ?_⟩) _
      · show (st.mem (.sfr Reg.DPH)).toNat = 0x70
        omega
      · omega
    exact h.keeps

/-- A register holds a byte, so that the address is in the window only if the page is the right one. -/
instance : Row SparesParity ParityHeld ([0xf2, 0xf3], instMovxSriA D) := by
  refine ⟨fun code _ st pc _ _ => held_triple fun h => ?_⟩
  have hlow := h.bytes (regSite st.mem (code &&& 0x01))
  unfold instMovxSriA
  refine (getReg_reads (code &&& 0x01) st pc).bind_triple ?_
  refine ((Site.read_reads (c := regSite st.mem (code &&& 0x01)) (Devices.silentAt_code rfl) st).core pc).bind_triple ?_
  generalize st.mem (regSite st.mem (code &&& 0x01)) = d at hlow
  have hrest (mpage v : TMem) : Kept ParityHeld (do
      if mpage = 0x70 ∧ d.toNat ≥ 0x80 then
        let _ ← Space.sfr.write D (mpage.toNat * 256 + d.toNat) v
      else
        let _ ← Space.xram.write D (mpage.toNat * 256 + d.toNat) v
      tick 1
      return .go : UcProg V Res) := by
    by_cases hwindow : mpage = 0x70 ∧ d.toNat ≥ 0x80
    · have hsfr : Kept (HoldsMem paritySys) (Space.sfr.write D (mpage.toNat * 256 + d.toNat) v) := by
        refine sfrWrite_window ?_ _
        have hpage : mpage.toNat = 0x70 := congrArg BitVec.toNat hwindow.1
        have hge := hwindow.2
        omega
      rw [if_pos hwindow]
      infer_instance
    · have hxram : Kept (HoldsMem paritySys) (Space.xram.write D (mpage.toNat * 256 + d.toNat) v) := by
        refine xramWrite_kept (fun hin => hwindow ⟨BitVec.eq_of_toNat_eq ?_, ?_⟩) _
        · show mpage.toNat = 0x70
          omega
        · omega
      rw [if_neg hwindow]
      infer_instance
  exact h.keeps

/-- An instruction that is not executed. -/
theorem stale_row {labels : List UChar} {inst : UChar → UcProg V Res} (hstale : ∀ code ∈ labels, code ∈ staleCodes) :
    Row SparesParity ParityHeld (labels, inst) :=
  ⟨fun code hcode _ _ _ hok => absurd (hstale code hcode) hok.fresh⟩

instance : Row SparesParity ParityHeld ([0x84], instDivAb D) := stale_row (by decide)

instance : Row SparesParity ParityHeld ([0x94], instSubbASdata D) := stale_row (by decide)

instance : Row SparesParity ParityHeld ([0x95], instSubbAAddr D) := stale_row (by decide)

instance : Row SparesParity ParityHeld ([0x96, 0x97], instSubbASri D) := stale_row (by decide)

instance : Row SparesParity ParityHeld ([0x98, 0x99, 0x9a, 0x9b, 0x9c, 0x9d, 0x9e, 0x9f], instSubbARn D) :=
  stale_row (by decide)

instance : Row SparesParity ParityHeld ([0xd4], instDaA D) := stale_row (by decide)

/-! ## Reset -/

omit hD in
/-- A write of a register of the core stores, and does nothing else to the bytes. -/
theorem coreWrite_triple {r : Int} (hr : r ∈ coreRegisters) (v : TMem) {J K : (Site → TMem) → Prop}
    (h : ∀ mem, J mem → K (stored (.sfr r) v mem)) :
    Triple (fun u => Holds NotNegative bytesSys u ∧ J u.mem.sys.mem) (onMem (Space.sfr.write D r v))
      fun _ u => Holds NotNegative bytesSys u ∧ K u.mem.sys.mem := by
  have hv : ∀ r ∈ coreRegisters, ¬ Space.sfr.invalid r := by decide
  rintro u a w ⟨hu, hJ⟩ hrun
  obtain ⟨s, hs, rfl⟩ := run_zoom_ok.mp hrun
  have hwrite : (Space.sfr.write D r v : MemProg V TMem) = (Site.sfr r).write D v := by
    change Space.sfr.writeCells D r v = _
    rw [Space.writeCells, if_neg (hv r hr)]
    rfl
  rw [hwrite] at hs
  refine ⟨⟨hu.1, cellWrite_bytes _ v _ _ _ hu.2 hs⟩, ?_⟩
  obtain ⟨sys, hsys, hmem⟩ : Yields ((Site.sfr r).write D v) u.mem (v &&& 0xff) (stored (.sfr r) v u.mem.sys.mem) :=
    Site.write_quiet (Devices.quietAt_core hr) v u.mem
  rw [hsys, Except.ok.injEq, Prod.mk.injEq] at hs
  obtain ⟨-, rfl⟩ := hs
  show K sys.mem
  rw [hmem]
  exact h _ hJ

/-- A loop over registers other than `PSW`. -/
theorem writeLoop_kept {regs : List Int} (hregs : ∀ r ∈ regs, r ≠ Reg.PSW) (v : TMem) :
    Keeps (ParityHeld : Uc V → Prop) (regs.forM fun r =>
      (do let _ ← Space.sfr.write D r v : UcProg V Unit)) := by
  induction regs with
  | nil => exact Keeps.pure ()
  | cons r regs ih =>
    have hne : NotPsw (Space.sfr.cells r) := by
      refine ⟨fun heq => hregs r List.mem_cons_self ?_⟩
      exact Site.sfr_inj.mp heq
    have hwrite : Kept ParityHeld (do let _ ← Space.sfr.write D r v : UcProg V Unit) := inferInstance
    exact hwrite.keeps.bind fun _ => ih fun r hr => hregs r (List.mem_cons_of_mem _ hr)

/-- The accumulator is cleared, then `PSW` is. -/
theorem clearSfr_parity : Triple (Holds NotNegative bytesSys) (clearSfr D) fun _ => (ParityHeld : Uc V → Prop) := by
  unfold clearSfr
  refine Triple.bind (Kept.keeps (I := Holds NotNegative bytesSys)) fun _ => ?_
  refine Triple.bind (Kept.keeps (I := Holds NotNegative bytesSys)) fun _ => ?_
  refine Triple.bind (Kept.keeps (I := Holds NotNegative bytesSys)) fun p1 => ?_
  refine Triple.bind (Kept.keeps (I := Holds NotNegative bytesSys)) fun _ => ?_
  refine Triple.bind (Kept.keeps (I := Holds NotNegative bytesSys)) fun p3 => ?_
  refine Triple.bind (Kept.keeps (I := Holds NotNegative bytesSys)) fun _ => ?_
  have hacc : Triple (Holds NotNegative bytesSys) (onMem (Space.sfr.write D Reg.ACC 0))
      fun _ u => Holds NotNegative bytesSys u ∧ u.mem.sys.mem acc = 0 := by
    refine Triple.mono (coreWrite_triple (J := fun _ => True) (K := fun mem => mem acc = 0) (by decide) 0 ?_)
      (fun u hu => ⟨hu, trivial⟩) fun _ _ hu => hu
    intro mem _
    exact Function.update_self _ _ _
  refine Triple.bind hacc fun _ => ?_
  refine Triple.bind (coreWrite_triple (J := fun mem => mem acc = 0) (K := fun mem => mem acc = 0) (by decide) 0 ?_)
    fun _ => ?_
  · intro mem hmem
    rw [stored, if_neg (by decide), Function.update_of_ne (by decide)]
    exact hmem
  refine Triple.bind (coreWrite_triple (J := fun mem => mem acc = 0) (K := ParityHolds) (by decide) 0 ?_) fun _ => ?_
  · intro mem hmem
    rw [ParityHolds, stored, if_neg (by decide), Function.update_of_ne (show acc ≠ .sfr Reg.PSW by decide), hmem]
    show (Function.update mem psw (0 &&& 0xff) psw).getLsbD 0 = _
    rw [Function.update_self]
    decide
  refine Triple.mono (P := ParityHeld) ?_ (fun u hu => ⟨hu.1.1, hu.1.2, hu.2⟩) fun _ _ hu => hu
  exact Kept.keeps.bind fun _ => writeLoop_kept (by decide) 0

theorem reset_parity : Triple (Holds NotNegative bytesSys) (reset D) fun _ => (ParityHeld : Uc V → Prop) := by
  have huc : Triple (Holds NotNegative bytesSys) (ucReset D) fun _ => Holds NotNegative bytesSys := by
    have hops : Kept (Holds NotNegative bytesSys) (modify fun u => { u with stackOps := [] } : UcProg V Unit) :=
      kept_core fun _ => ⟨rfl, rfl, rfl⟩
    unfold ucReset
    exact Triple.bind (Q := fun _ => Holds NotNegative bytesSys) (Triple.modifyGet fun u hu => ⟨le_refl (0 : Int), hu.2⟩)
      fun _ => Kept.keeps
  have hresult : Kept (ParityHeld : Uc V → Prop) (modify fun u => { u with result := .go } : UcProg V Unit) :=
    kept_core fun _ => ⟨rfl, rfl, rfl⟩
  unfold reset
  exact Triple.bind huc fun _ => Triple.bind clearSfr_parity fun _ => hresult.keeps

/-! ## Runs -/

/-- The controller with instructions that meet the condition. What is changed from outside is neither the
accumulator nor `PSW`. -/
def parityRuns (D : Devices Dev V) : System Event (Uc V) where
  init := (controller D).init
  step e u v := (controller D).step e u v ∧
    match e with
    | .round _ => RoundOk SparesParity u
    | .reset => True
    | .poke => v.mem.sys.mem acc = u.mem.sys.mem acc ∧ v.mem.sys.mem psw = u.mem.sys.mem psw

/-- In every run from reset in which no instruction writes back an old copy of `PSW` and none stores to `PSW`,
interrupts and resets included, the flag is the exclusive or of the bits of the accumulator. -/
theorem parity_flag {u : Uc V} (hu : (parityRuns D).Reachable u) :
    (u.mem.sys.mem psw).getLsbD 0 =
      ((u.mem.sys.mem acc).getLsbD 0 ^^ (u.mem.sys.mem acc).getLsbD 1 ^^ (u.mem.sys.mem acc).getLsbD 2 ^^
        (u.mem.sys.mem acc).getLsbD 3 ^^ (u.mem.sys.mem acc).getLsbD 4 ^^ (u.mem.sys.mem acc).getLsbD 5 ^^
        (u.mem.sys.mem acc).getLsbD 6 ^^ (u.mem.sys.mem acc).getLsbD 7) := by
  have hrows : Rows SparesParity ParityHeld (cases D) := by
    dsimp only [cases]
    repeat refine Rows.cons ?_
    exact Rows.nil
  have hheld : ParityHeld u := by
    refine System.Reachable.invariant ?_ (fun e u v _ hI hstep => ?_) hu
    · rintro v ⟨u, hpower, hrun⟩
      exact reset_parity u () v ⟨hpower.PC ▸ le_refl (0 : Int), hpower.bytes⟩ hrun
    · cases e with
      | round input => exact round_triple (G := SparesParity) input u () v ⟨hI, hI.1, hstep.2⟩ hstep.1.2
      | reset => exact reset_parity u () v ⟨hI.1, hI.2.1⟩ hstep.1
      | poke =>
        refine ⟨?_, hstep.1.bytes hI.2.1, hI.2.2.congr hstep.2.1 hstep.2.2⟩
        show 0 ≤ v.PC
        rw [hstep.1.PC]
        exact hI.1
  have hflag := hheld.2.2
  rw [ParityHolds, parity_eq_xor] at hflag
  simpa using hflag

end Stores

instance : SparesFlags noDevices :=
  ⟨fun d => d.elim, fun d => d.elim, fun _ _ => ⟨rfl, rfl⟩, fun _ => ⟨rfl, rfl⟩⟩

/-- `MOV A,#7` in memory that is empty otherwise. -/
def loadCode : Site → TMem
  | .cell .flashbank0 0 => 0x74
  | .cell .flashbank0 1 => 0x07
  | _ => 0

/-- The load sets the flag. -/
theorem parity_flag_load : ∃ u v : Uc Unit, (reset noDevices).run (bare loadCode) = .ok ((), u) ∧
    (round noDevices false).run u = .ok ((), v) ∧ v.mem.sys.mem acc = 7 ∧ (v.mem.sys.mem psw).getLsbD 0 = true := by
  have hpower : PowerOn (bare loadCode) := by
    refine ⟨fun c => ?_, rfl, rfl⟩
    change (loadCode c).toNat < 0x100
    unfold loadCode
    split <;> decide
  obtain ⟨⟨⟩, u, hreset, hu⟩ := run_of_check (x := reset noDevices) (s := bare loadCode)
    (p := fun _ u => decide (u.state ≠ .pd) && decide (codeAt (startStore u) u.PC = 0x74) &&
      check (round noDevices false) (fun _ v => decide (v.mem.sys.mem acc = 7)) u) (by decide +kernel)
  simp only [Bool.and_eq_true, decide_eq_true_eq] at hu
  obtain ⟨⟨⟩, v, hround, hacc⟩ := run_of_check hu.2
  have hload : RoundOk SparesParity u := by
    intro _ _ code hcode
    have hcodes : ∀ code : UChar, (0x74 : TMem) = tmem code → code = 0x74 := by decide
    obtain rfl := hcodes code (hu.1.2.symm.trans hcode)
    exact ⟨by decide, by simp [destination, directCodes, bitCodes]⟩
  have hinit : (parityRuns noDevices).init u := ⟨bare loadCode, hpower, hreset⟩
  have hstep : (parityRuns noDevices).step (.round false) u v := ⟨⟨hu.1.1, hround⟩, hload⟩
  have hreach := System.Reachable.step (.init hinit) hstep
  have hval : v.mem.sys.mem acc = 7 := of_decide_eq_true hacc
  refine ⟨u, v, hreset, hround, hval, ?_⟩
  rw [parity_flag hreach, hval]
  decide

end Ucsim.S51
