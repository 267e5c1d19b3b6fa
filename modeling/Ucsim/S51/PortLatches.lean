import Ucsim.Logic.Bits
import Ucsim.S51.PortPins

/-!
# The latches of the ports
-/

namespace Ucsim.S51

open Logic Program

variable {present : PartnerHw → Bool}

/-! ## Instructions that read the latch -/

/-- The instructions that read the latch of a port and write it. -/
inductive LatchOp
  | orlAddrA | orlAddrSdata | anlAddrA | anlAddrSdata | xrlAddrA | xrlAddrSdata | incAddr | decAddr | djnzAddrAddr
  | cplBit | clrBit | setbBit | movBitC | jbcBitAddr
  deriving DecidableEq, Repr

namespace LatchOp

/-- The instruction code. -/
def code : LatchOp → UChar
  | orlAddrA => 0x42
  | orlAddrSdata => 0x43
  | anlAddrA => 0x52
  | anlAddrSdata => 0x53
  | xrlAddrA => 0x62
  | xrlAddrSdata => 0x63
  | incAddr => 0x05
  | decAddr => 0x15
  | djnzAddrAddr => 0xd5
  | cplBit => 0xb2
  | clrBit => 0xc2
  | setbBit => 0xd2
  | movBitC => 0x92
  | jbcBitAddr => 0x10

/-- The body of the instruction. -/
def inst (D : Devices Port PortsState) : LatchOp → UcProg PortsState Res
  | orlAddrA => logicAddrA D (· ||| ·)
  | orlAddrSdata => logicAddrSdata D (· ||| ·)
  | anlAddrA => logicAddrA D (· &&& ·)
  | anlAddrSdata => logicAddrSdata D (· &&& ·)
  | xrlAddrA => logicAddrA D (· ^^^ ·)
  | xrlAddrSdata => logicAddrSdata D (· ^^^ ·)
  | incAddr => addDirect D 1
  | decAddr => addDirect D (-1)
  | djnzAddrAddr => instDjnzAddrAddr D 0xd5
  | cplBit => modifyBit D fun d m => d ^^^ m
  | clrBit => modifyBit D fun d m => d &&& ~~~m
  | setbBit => modifyBit D fun d m => d ||| m
  | movBitC => instMovBitC D 0x92
  | jbcBitAddr => instJbcBitAddr D 0x10

theorem dispatch_code (D : Devices Port PortsState) (op : LatchOp) : dispatch D (tmem op.code) = op.inst D := by
  cases op <;> rfl

/-- Does the operand name a bit? -/
def onBit : LatchOp → Bool
  | cplBit | clrBit | setbBit | movBitC | jbcBitAddr => true
  | _ => false

/-- The first operand names the register of the port, or a bit of it. -/
def Names (op : LatchOp) (i : Port) (operand : TMem) : Prop :=
  if op.onBit then ((operand &&& 0xf8).toNat : Int) = i.addrP else (operand.toNat : Int) = i.addrP

/-- Is there a second operand? -/
def second : LatchOp → Bool
  | orlAddrSdata | anlAddrSdata | xrlAddrSdata | djnzAddrAddr | jbcBitAddr => true
  | _ => false

/-- The mask of a bit address. -/
def mask (operand : TMem) : TMem := BitVec.twoPow 16 (operand.toNat % 8)

/-- The operation on the latch `d`, with the operands of the instruction. -/
def apply (op : LatchOp) (st : St PortsState) (operand data d : TMem) : TMem :=
  match op with
  | orlAddrA => d ||| st.mem acc
  | orlAddrSdata => d ||| data
  | anlAddrA => d &&& st.mem acc
  | anlAddrSdata => d &&& data
  | xrlAddrA => d ^^^ st.mem acc
  | xrlAddrSdata => d ^^^ data
  | incAddr => d + 1
  | decAddr | djnzAddrAddr => d - 1
  | cplBit => d ^^^ mask operand
  | clrBit | jbcBitAddr => d &&& ~~~mask operand
  | setbBit => d ||| mask operand
  | movBitC => if st.mem psw &&& bmCY ≠ 0 then d ||| mask operand else d &&& ~~~mask operand

/-- Does the instruction branch? -/
def branches (op : LatchOp) (operand d : TMem) : Bool :=
  match op with
  | djnzAddrAddr => (d - 1) &&& 0xff ≠ 0
  | jbcBitAddr => d &&& mask operand ≠ 0
  | _ => false

/-- The address of the next instruction. -/
def next (op : LatchOp) (st : St PortsState) (pc : Int) (d : TMem) : Int :=
  let behind := if op.second then incPC (incPC pc) else incPC pc
  if op.branches (codeAt st pc) d then
    Space.rom.validateAddress (behind + (uchar (codeAt st (incPC pc))).toInt)
  else behind

theorem next_of_branches {op : LatchOp} {st : St PortsState} {pc : Int} {d : TMem}
    (h : op.branches (codeAt st pc) d = true) : op.next st pc d =
      Space.rom.validateAddress ((if op.second then incPC (incPC pc) else incPC pc) +
        (uchar (codeAt st (incPC pc))).toInt) := if_pos h

theorem next_of_not_branches {op : LatchOp} {st : St PortsState} {pc : Int} {d : TMem}
    (h : op.branches (codeAt st pc) d = false) :
    op.next st pc d = if op.second then incPC (incPC pc) else incPC pc := if_neg (by simp [h])

/-- An instruction with a bit address leaves the other bits of the latch alone. -/
theorem apply_other {op : LatchOp} (hbit : op.onBit = true) (st : St PortsState) (operand data d : TMem) {k : Nat}
    (hne : k ≠ operand.toNat % 8) : (op.apply st operand data d).getLsbD k = d.getLsbD k := by
  have hlt : operand.toNat % 8 < 16 := by omega
  have hset : (d ||| mask operand).getLsbD k = d.getLsbD k := by
    have h := Bits.getLsbD_setBit hlt d true k
    rwa [if_neg hne] at h
  have hclear : (d &&& ~~~mask operand).getLsbD k = d.getLsbD k := by
    have h := Bits.getLsbD_setBit hlt d false k
    rwa [if_neg hne] at h
  cases op with
  | cplBit =>
    have hmask : (mask operand).getLsbD k = false := by
      rw [mask, BitVec.getLsbD_twoPow]
      simp [hne.symm]
    change (d ^^^ mask operand).getLsbD k = d.getLsbD k
    rw [BitVec.getLsbD_xor, hmask, Bool.xor_false]
  | clrBit | jbcBitAddr => exact hclear
  | setbBit => exact hset
  | movBitC =>
    unfold apply
    dsimp only
    split
    · exact hset
    · exact hclear
  | orlAddrA | orlAddrSdata | anlAddrA | anlAddrSdata | xrlAddrA | xrlAddrSdata | incAddr | decAddr | djnzAddrAddr =>
    cases hbit

/-- JBC branches if the bit was set in the latch. -/
theorem branches_jbc (operand d : TMem) : jbcBitAddr.branches operand d = d.getLsbD (operand.toNat % 8) :=
  Bits.and_twoPow d (by omega)

theorem mem_latchCodes (c : UChar) : c ∈ latchCodes ↔ ∃ op : LatchOp, op.code = c := by
  constructor
  · intro h
    simp only [latchCodes, List.mem_cons, List.not_mem_nil, or_false] at h
    rcases h with rfl | rfl | rfl | rfl | rfl | rfl | rfl | rfl | rfl | rfl | rfl | rfl | rfl | rfl
    exacts [⟨incAddr, rfl⟩, ⟨jbcBitAddr, rfl⟩, ⟨decAddr, rfl⟩, ⟨orlAddrA, rfl⟩, ⟨orlAddrSdata, rfl⟩, ⟨anlAddrA, rfl⟩,
      ⟨anlAddrSdata, rfl⟩, ⟨xrlAddrA, rfl⟩, ⟨xrlAddrSdata, rfl⟩, ⟨movBitC, rfl⟩, ⟨cplBit, rfl⟩, ⟨clrBit, rfl⟩,
      ⟨setbBit, rfl⟩, ⟨djnzAddrAddr, rfl⟩]
  · rintro ⟨op, rfl⟩
    cases op <;> decide

end LatchOp

/-! ## Steps of these instructions -/

section Steps

variable {V Dev : Type} {D : Devices Dev V} {α β : Type} {st st' : St V} {pc : Int} {a : α} {E : Prop}

/-- `FMAP` selects no bank. -/
def NoBank (st : St V) : Prop := 4 ≤ (st.mem fmap &&& 0x07).toNat

/-- A program of the memory system that ends, inside the core. -/
theorem onMem_leads {x : MemProg V α}
    (hx : ∀ m : MemState V, m.sys.toStore = st → ∃ n, x.run m = .ok (a, n) ∧ n.sys.toStore = st') :
    Leads E (At st pc) (x : UcProg V α) fun b u => b = a ∧ At st' pc u := by
  intro u hu
  obtain ⟨n, hrun, hn⟩ := hx u.mem hu.1
  exact .inl ⟨a, { u with mem := n }, run_zoom_ok.mpr ⟨n, hrun, rfl⟩, rfl, hn, hu.2⟩

/-- Reading the code fails no assertion if `FMAP` selects a bank. -/
theorem fetch_leads (h0 : 0 ≤ pc) :
    Leads (NoBank st) (At st pc) (fetch D) fun code u => code = codeAt st pc ∧ At st (incPC pc) u := by
  refine Leads.of_triple (fetch_triple h0) fun u hu hbank => ?_
  obtain ⟨hst, rfl⟩ := hu
  subst hst
  obtain ⟨sys, hrun, -⟩ := readRom_yields (D := D) (a := u.PC) h0 (s := u.mem) (not_le.mp hbank)
  have hread : (onMem (Space.rom.read D u.PC)).run u = .ok (_, { u with mem := { u.mem with sys := sys } }) :=
    run_zoom_ok.mpr ⟨_, hrun, rfl⟩
  have hfetch : (fetch D).run u = (onMem (Space.rom.read D u.PC) >>= fun code => do
      setPC (Space.rom.incAddress (← get).PC)
      return code : UcProg V TMem).run u := rfl
  rw [hfetch, run_bind_of_ok hread]
  exact ⟨_, _, rfl⟩

theorem accRead_leads : Leads E (At st pc) (acc.read D : UcProg V TMem) fun v u => v = st.mem acc ∧ At st pc u := by
  refine onMem_leads fun m hm => ?_
  have hreads := accRead_reads (D := D) st m
  obtain ⟨sys, hrun, -⟩ := acc_read (D := D) m
  obtain ⟨hval, hst⟩ := hreads _ _ hm hrun
  exact ⟨_, by rw [hrun, hval], hst⟩

theorem sfrGetC_leads :
    Leads E (At st pc) (sfrGetC D : UcProg V Bool) fun c u => c = decide (st.mem psw &&& bmCY ≠ 0) ∧ At st pc u := by
  refine onMem_leads fun m hm => ⟨m, ?_, hm⟩
  subst hm
  rfl

theorem tick_leads (n : Int) : Leads E (At st pc) (tick n : UcProg V Unit) fun b u => b = () ∧ At st pc u :=
  Leads.modifyGet fun _ hu => ⟨rfl, hu⟩

theorem jumpRel_leads (jaddr : UChar) : Leads E (At st pc) (jumpRel jaddr : UcProg V Unit)
    fun b u => b = () ∧ At st (Space.rom.validateAddress (pc + jaddr.toInt)) u := by
  intro u hu
  obtain ⟨hst, rfl⟩ := hu
  exact .inl ⟨(), _, rfl, rfl, hst, rfl⟩

end Steps

section PortSteps

variable {i : Port} {st : St PortsState} {pc : Int} {E : Prop}

theorem readLatch_leads : Leads E (At st pc) (i.cellP.readSkip (portBoard present) .port : UcProg PortsState TMem)
    fun d u => d = st.mem i.cellP ∧ At st pc u := by
  refine onMem_leads fun m hm => ?_
  subst hm
  exact ⟨_, readLatch_run present i m, rfl⟩

theorem writePort_leads (v : TMem) : Leads E (At st pc) (i.cellP.write (portBoard present) v : UcProg PortsState TMem)
    fun d u => d = v &&& 0xff ∧ At (i.stored present v st) pc u := by
  refine onMem_leads fun m hm => ?_
  subst hm
  exact ⟨_, writePort_run present i m v, rfl⟩

theorem sfr_valid_addrP (i : Port) : ¬ Space.sfr.invalid i.addrP := by
  revert i
  decide

/-- The register of a port as a direct address. -/
theorem getDirect_leads {addr : TMem} (haddr : (addr.toNat : Int) = i.addrP) :
    Leads E (At st pc) (getDirect addr : UcProg PortsState Site) fun c u => c = i.cellP ∧ At st pc u := by
  have hrange := i.mem_range
  have hcell : Space.sfr.getCell i.addrP = (pure i.cellP : MemProg PortsState Site) := by
    unfold Space.getCell
    rw [if_neg (sfr_valid_addrP i)]
    rfl
  have hdirect : getDirect (V := PortsState) addr = onMem (pure i.cellP) := by
    unfold getDirect
    rw [haddr, if_neg (show ¬ i.addrP < Space.sfr.startAddress from by simp only [Space.startAddress]; omega), hcell]
  rw [hdirect]
  exact onMem_leads fun m hm => ⟨m, rfl, hm⟩

/-- The register of a port as the byte of a bit address. -/
theorem sfr_readSkip (D : Devices Port PortsState) (i : Port) (skip : HwCath) :
    Space.sfr.readSkip D i.addrP skip = i.cellP.readSkip D skip := by
  unfold Space.readSkip
  rw [if_neg (sfr_valid_addrP i)]
  rfl

theorem sfr_write (D : Devices Port PortsState) (i : Port) (v : TMem) :
    Space.sfr.write D i.addrP v = i.cellP.write D v := by
  change Space.sfr.writeCells D i.addrP v = _
  unfold Space.writeCells
  rw [if_neg (sfr_valid_addrP i)]
  rfl

end PortSteps

/-! ## The instructions -/

section Instructions

variable {i : Port} {st : St PortsState} {pc : Int}

/-- The instruction leaves `v` in the latch and goes on at the address `next`. -/
def Leaves (present : PartnerHw → Bool) (i : Port) (st : St PortsState) (pc : Int) (v : TMem) (next : Int)
    (x : UcProg PortsState Res) : Prop :=
  Leads (NoBank st) (At st pc) x fun r u => r = .go ∧ At (i.stored present v st) next u

theorem bit2mem_port {a : TMem} (ha : ((a &&& 0xf8).toNat : Int) = i.addrP) :
    bit2mem a = (.sfr, i.addrP, LatchOp.mask a) := by
  have hand : a &&& 0xff &&& 0xf8 = a &&& 0xf8 := by
    rw [BitVec.and_assoc]
    rfl
  have hlow : (a &&& 0xff &&& 0x7).toNat = a.toNat % 8 := by
    rw [BitVec.and_assoc, BitVec.toNat_and]
    exact Nat.and_two_pow_sub_one_eq_mod a.toNat 3
  have hle : (a &&& 0xff &&& 0xf8).toNat ≤ (a &&& 0xff).toNat := by
    rw [BitVec.toNat_and (a &&& 0xff)]
    exact Nat.and_le_left
  have hrange := i.mem_range
  unfold bit2mem
  dsimp only
  rw [if_neg (show ¬ (a &&& 0xff).toNat < 128 from by rw [hand] at hle; omega), hand, hlow, ha]
  rfl

/-- Only the low byte of a bit address counts. -/
theorem bit2mem_uchar (a : TMem) : bit2mem (tmem (uchar a)) = bit2mem a := by
  have hbyte : tmem (uchar a) &&& 0xff = a &&& 0xff := by
    apply BitVec.eq_of_toNat_eq
    rw [toNat_low, toNat_low, BitVec.toNat_setWidth, BitVec.toNat_setWidth]
    omega
  unfold bit2mem
  rw [hbyte]

variable (h0 : 0 ≤ pc)

include h0

theorem logicAddrA_leaves (ha : ((codeAt st pc).toNat : Int) = i.addrP) (op : TMem → TMem → TMem) :
    Leaves present i st pc (op (st.mem i.cellP) (st.mem acc)) (incPC pc) (logicAddrA (portBoard present) op) := by
  unfold Leaves logicAddrA
  refine (fetch_leads h0).bind ?_
  refine (getDirect_leads ha).bind ?_
  refine readLatch_leads.bind ?_
  refine accRead_leads.bind ?_
  refine (writePort_leads _).bind ?_
  exact Leads.pure fun u hu => ⟨rfl, hu⟩

theorem logicAddrSdata_leaves (ha : ((codeAt st pc).toNat : Int) = i.addrP) (op : TMem → TMem → TMem) :
    Leaves present i st pc (op (st.mem i.cellP) (codeAt st (incPC pc))) (incPC (incPC pc))
      (logicAddrSdata (portBoard present) op) := by
  unfold Leaves logicAddrSdata
  refine (fetch_leads h0).bind ?_
  refine (getDirect_leads ha).bind ?_
  refine (fetch_leads (incPC_nonneg h0)).bind ?_
  refine readLatch_leads.bind ?_
  refine (writePort_leads _).bind ?_
  refine (tick_leads 1).bind ?_
  exact Leads.pure fun u hu => ⟨rfl, hu⟩

theorem addDirect_leaves (ha : ((codeAt st pc).toNat : Int) = i.addrP) (what : TMem) :
    Leaves present i st pc (st.mem i.cellP + what) (incPC pc) (addDirect (portBoard present) what) := by
  unfold Leaves addDirect
  refine (fetch_leads h0).bind ?_
  refine (getDirect_leads ha).bind ?_
  refine readLatch_leads.bind ?_
  refine (writePort_leads _).bind ?_
  exact Leads.pure fun u hu => ⟨rfl, hu⟩

theorem djnz_leaves (ha : ((codeAt st pc).toNat : Int) = i.addrP) :
    Leaves present i st pc (st.mem i.cellP - 1) (LatchOp.djnzAddrAddr.next st pc (st.mem i.cellP))
      (instDjnzAddrAddr (portBoard present) 0xd5) := by
  unfold Leaves instDjnzAddrAddr
  refine (fetch_leads h0).bind ?_
  refine (getDirect_leads ha).bind ?_
  refine (fetch_leads (incPC_nonneg h0)).bind ?_
  refine (tick_leads 1).bind ?_
  refine readLatch_leads.bind ?_
  refine (writePort_leads _).bind ?_
  dsimp only
  refine Leads.ite (fun hz => ?_) fun hz => ?_
  · have hbranch : LatchOp.djnzAddrAddr.branches (codeAt st pc) (st.mem i.cellP) = true := decide_eq_true hz
    rw [LatchOp.next_of_branches hbranch]
    refine (jumpRel_leads _).bind ?_
    exact Leads.pure fun u hu => ⟨rfl, hu⟩
  · have hbranch : LatchOp.djnzAddrAddr.branches (codeAt st pc) (st.mem i.cellP) = false := decide_eq_false hz
    rw [LatchOp.next_of_not_branches hbranch]
    exact Leads.pure fun u hu => ⟨rfl, hu⟩

theorem modifyBit_leaves (ha : ((codeAt st pc &&& 0xf8).toNat : Int) = i.addrP) (f : TMem → TMem → TMem) :
    Leaves present i st pc (f (st.mem i.cellP) (LatchOp.mask (codeAt st pc))) (incPC pc)
      (modifyBit (portBoard present) f) := by
  unfold Leaves modifyBit
  refine (fetch_leads h0).bind ?_
  rw [bit2mem_port ha]
  dsimp only
  rw [sfr_readSkip]
  refine readLatch_leads.bind ?_
  rw [sfr_write]
  refine (writePort_leads _).bind ?_
  exact Leads.pure fun u hu => ⟨rfl, hu⟩

theorem movBitC_leaves (ha : ((codeAt st pc &&& 0xf8).toNat : Int) = i.addrP) :
    Leaves present i st pc (LatchOp.movBitC.apply st (codeAt st pc) 0 (st.mem i.cellP)) (incPC pc)
      (instMovBitC (portBoard present) 0x92) := by
  unfold Leaves instMovBitC
  refine (fetch_leads h0).bind ?_
  rw [bit2mem_port ha]
  dsimp only
  rw [sfr_readSkip]
  refine readLatch_leads.bind ?_
  refine sfrGetC_leads.bind ?_
  simp only [sfr_write]
  refine Leads.ite (fun hC => ?_) fun hC => ?_
  · rw [show LatchOp.movBitC.apply st (codeAt st pc) 0 (st.mem i.cellP) = _ from if_pos (of_decide_eq_true hC)]
    refine (writePort_leads _).bind ?_
    refine (tick_leads 1).bind ?_
    exact Leads.pure fun u hu => ⟨rfl, hu⟩
  · rw [show LatchOp.movBitC.apply st (codeAt st pc) 0 (st.mem i.cellP) = _ from
      if_neg fun hne => hC (decide_eq_true hne)]
    refine (writePort_leads _).bind ?_
    refine (tick_leads 1).bind ?_
    exact Leads.pure fun u hu => ⟨rfl, hu⟩

theorem jbc_leaves (ha : ((codeAt st pc &&& 0xf8).toNat : Int) = i.addrP) :
    Leaves present i st pc (st.mem i.cellP &&& ~~~LatchOp.mask (codeAt st pc))
      (LatchOp.jbcBitAddr.next st pc (st.mem i.cellP)) (instJbcBitAddr (portBoard present) 0x10) := by
  unfold Leaves instJbcBitAddr
  refine (fetch_leads h0).bind ?_
  refine (fetch_leads (incPC_nonneg h0)).bind ?_
  have hmask : bit2mem (tmem (uchar (codeAt st pc))) = (.sfr, i.addrP, LatchOp.mask (codeAt st pc)) := by
      rw [← bit2mem_port ha, bit2mem_uchar]
  rw [hmask]
  dsimp only
  rw [sfr_readSkip]
  refine readLatch_leads.bind ?_
  rw [sfr_write]
  refine (writePort_leads _).bind ?_
  refine Leads.ite (fun hbit => ?_) fun hbit => ?_
  · have hbranch : LatchOp.jbcBitAddr.branches (codeAt st pc) (st.mem i.cellP) = true := decide_eq_true hbit
    rw [LatchOp.next_of_branches hbranch]
    refine (jumpRel_leads _).bind ?_
    refine (tick_leads 1).bind ?_
    exact Leads.pure fun u hu => ⟨rfl, hu⟩
  · have hbranch : LatchOp.jbcBitAddr.branches (codeAt st pc) (st.mem i.cellP) = false := decide_eq_false hbit
    rw [LatchOp.next_of_not_branches hbranch]
    refine (tick_leads 1).bind ?_
    exact Leads.pure fun u hu => ⟨rfl, hu⟩

/-- A byte instruction applies its operation to the latch. -/
theorem byteOp_leaves (op : LatchOp) (hbyte : op.onBit = false) (hnames : op.Names i (codeAt st pc)) :
    Leaves present i st pc (op.apply st (codeAt st pc) (codeAt st (incPC pc)) (st.mem i.cellP))
      (op.next st pc (st.mem i.cellP)) (op.inst (portBoard present)) := by
  have ha : ((codeAt st pc).toNat : Int) = i.addrP := by simpa [LatchOp.Names, hbyte] using hnames
  cases op with
  | orlAddrA => exact logicAddrA_leaves h0 ha _
  | orlAddrSdata => exact logicAddrSdata_leaves h0 ha _
  | anlAddrA => exact logicAddrA_leaves h0 ha _
  | anlAddrSdata => exact logicAddrSdata_leaves h0 ha _
  | xrlAddrA => exact logicAddrA_leaves h0 ha _
  | xrlAddrSdata => exact logicAddrSdata_leaves h0 ha _
  | incAddr => exact addDirect_leaves h0 ha _
  | decAddr =>
    change Leaves present i st pc (st.mem i.cellP - 1) (incPC pc) (addDirect (portBoard present) (-1))
    rw [sub_eq_add_neg]
    exact addDirect_leaves h0 ha _
  | djnzAddrAddr => exact djnz_leaves h0 ha
  | cplBit | clrBit | setbBit | movBitC | jbcBitAddr => cases hbyte

/-- A bit instruction applies its operation to the latch. -/
theorem bitOp_leaves (op : LatchOp) (hbit : op.onBit = true) (hnames : op.Names i (codeAt st pc)) :
    Leaves present i st pc (op.apply st (codeAt st pc) (codeAt st (incPC pc)) (st.mem i.cellP))
      (op.next st pc (st.mem i.cellP)) (op.inst (portBoard present)) := by
  have ha : ((codeAt st pc &&& 0xf8).toNat : Int) = i.addrP := by
    rw [LatchOp.Names, if_pos hbit] at hnames
    exact hnames
  cases op with
  | cplBit =>
    rw [LatchOp.next_of_not_branches rfl]
    exact modifyBit_leaves h0 ha fun d m => d ^^^ m
  | clrBit =>
    rw [LatchOp.next_of_not_branches rfl]
    exact modifyBit_leaves h0 ha fun d m => d &&& ~~~m
  | setbBit =>
    rw [LatchOp.next_of_not_branches rfl]
    exact modifyBit_leaves h0 ha fun d m => d ||| m
  | movBitC =>
    rw [LatchOp.next_of_not_branches rfl]
    exact movBitC_leaves h0 ha
  | jbcBitAddr => exact jbc_leaves h0 ha
  | orlAddrA | orlAddrSdata | anlAddrA | anlAddrSdata | xrlAddrA | xrlAddrSdata | incAddr | decAddr | djnzAddrAddr =>
    cases hbit

/-- Each of the instructions applies its operation to the latch. -/
theorem latchOp_leaves (op : LatchOp) (hnames : op.Names i (codeAt st pc)) :
    Leaves present i st pc (op.apply st (codeAt st pc) (codeAt st (incPC pc)) (st.mem i.cellP))
      (op.next st pc (st.mem i.cellP)) (dispatch (portBoard present) (tmem op.code)) := by
  rw [LatchOp.dispatch_code]
  cases hbit : op.onBit with
  | false => exact byteOp_leaves h0 op hbit hnames
  | true => exact bitOp_leaves h0 op hbit hnames

end Instructions

end Ucsim.S51
