import Ucsim.S51.Stable

/-!
# What the instructions keep

One instance for each instruction. Most of them need no more than the operations on cells that respect
the parity flag. Those with a direct or bit destination and those that write `PSW` need all operations,
and the branches need a property that does not depend on the program counter.
-/

namespace Ucsim.S51

open Logic Program

variable {Dev V : Type} {D : Devices Dev V} {P : Int → List ItLevel → Prop}
  {K : Sys Site (HwState V) → Prop}

-- an instance for each step of the longest instruction
set_option synthInstance.maxSize 1024
-- not every instruction raises a flag
set_option linter.unusedSectionVars false

/-! ## Instructions that respect the parity flag -/

section Plain

variable [h : StableBytes D K] [hf : StableFlags K] [hP : Fetches P]

omit h hP in
instance (code : UChar) : Kept (Holds P K) (instNop code : UcProg V Res) := by
  unfold instNop
  infer_instance

omit h hP in
instance : Kept (Holds P K) (instUnknown : UcProg V Res) := by
  unfold instUnknown
  infer_instance

/-- The sum and the flags. -/
instance kept_addA (ac data : UChar) (orgC : Bool) : Kept (HoldsMem K) (addA D ac data orgC) := by
  unfold addA
  infer_instance

-- these fetch no operand
omit hP

instance (code : UChar) : Kept (Holds P K) (instRr D code) := by
  unfold instRr
  infer_instance

instance (code : UChar) : Kept (Holds P K) (instRrc D code) := by
  unfold instRrc
  infer_instance

instance (code : UChar) : Kept (Holds P K) (instRl D code) := by
  unfold instRl
  infer_instance

instance (code : UChar) : Kept (Holds P K) (instRlc D code) := by
  unfold instRlc
  infer_instance

instance (code : UChar) : Kept (Holds P K) (instSwap D code) := by
  unfold instSwap
  infer_instance

instance (code : UChar) : Kept (Holds P K) (instClrA D code) := by
  unfold instClrA
  infer_instance

instance (code : UChar) : Kept (Holds P K) (instAddASri D code) := by
  unfold instAddASri
  infer_instance

instance (code : UChar) : Kept (Holds P K) (instAddARn D code) := by
  unfold instAddARn
  infer_instance

instance (code : UChar) : Kept (Holds P K) (instAddcASri D code) := by
  unfold instAddcASri
  infer_instance

instance (code : UChar) : Kept (Holds P K) (instAddcARn D code) := by
  unfold instAddcARn
  infer_instance

instance (code : UChar) : Kept (Holds P K) (instMulAb D code) := by
  unfold instMulAb
  infer_instance

instance (code : UChar) : Kept (Holds P K) (instIncA D code) := by
  unfold instIncA
  infer_instance

instance (code : UChar) : Kept (Holds P K) (instDecA D code) := by
  unfold instDecA
  infer_instance

instance (code : UChar) : Kept (Holds P K) (instIncSri D code) := by
  unfold instIncSri
  infer_instance

instance (code : UChar) : Kept (Holds P K) (instDecSri D code) := by
  unfold instDecSri
  infer_instance

instance (code : UChar) : Kept (Holds P K) (instIncRn D code) := by
  unfold instIncRn
  infer_instance

instance (code : UChar) : Kept (Holds P K) (instDecRn D code) := by
  unfold instDecRn
  infer_instance

instance (code : UChar) : Kept (Holds P K) (instIncDptr D code) := by
  unfold instIncDptr
  infer_instance

instance (code : UChar) : Kept (Holds P K) (instCplA D code) := by
  unfold instCplA
  infer_instance

instance (code : UChar) : Kept (Holds P K) (instMovcASaPc D code) := by
  unfold instMovcASaPc
  infer_instance

instance (code : UChar) : Kept (Holds P K) (instMovcASaDptr D code) := by
  unfold instMovcASaDptr
  infer_instance

instance (code : UChar) : Kept (Holds P K) (instMovASri D code) := by
  unfold instMovASri
  infer_instance

instance (code : UChar) : Kept (Holds P K) (instMovARn D code) := by
  unfold instMovARn
  infer_instance

instance (code : UChar) : Kept (Holds P K) (instMovSriA D code) := by
  unfold instMovSriA
  infer_instance

instance (code : UChar) : Kept (Holds P K) (instMovRnA D code) := by
  unfold instMovRnA
  infer_instance

instance (code : UChar) : Kept (Holds P K) (instXchdASri D code) := by
  unfold instXchdASri
  infer_instance

instance (code : UChar) : Kept (Holds P K) (instMovxASdptr D code) := by
  unfold instMovxASdptr
  infer_instance

instance (code : UChar) : Kept (Holds P K) (instMovxASri D code) := by
  unfold instMovxASri
  infer_instance

instance (op : TMem → TMem → TMem) (code : UChar) : Kept (Holds P K) (logicASri D op code) := by
  unfold logicASri
  infer_instance

instance (op : TMem → TMem → TMem) (code : UChar) : Kept (Holds P K) (logicARn D op code) := by
  unfold logicARn
  infer_instance

/-- The address test of `MOVX @DPTR,A`. -/
instance kept_dptrInWindow : Kept (HoldsMem K) (dptrInWindow D) := by
  unfold dptrInWindow
  infer_instance

/-- The exchange with a cell other than `PSW`. -/
instance (cell : Site) [NotPsw cell] : Kept (Holds P K) (exchangeA D cell) := by
  unfold exchangeA
  infer_instance

instance (code : UChar) : Kept (Holds P K) (instXchASri D code) := by
  unfold instXchASri
  infer_instance

instance (code : UChar) : Kept (Holds P K) (instXchARn D code) := by
  unfold instXchARn
  infer_instance

instance (code : UChar) : Kept (Holds P K) (instOrlASri D code) :=
  inferInstanceAs (Kept _ (logicASri D (· ||| ·) code))

instance (code : UChar) : Kept (Holds P K) (instOrlARn D code) :=
  inferInstanceAs (Kept _ (logicARn D (· ||| ·) code))

instance (code : UChar) : Kept (Holds P K) (instAnlASri D code) :=
  inferInstanceAs (Kept _ (logicASri D (· &&& ·) code))

instance (code : UChar) : Kept (Holds P K) (instAnlARn D code) :=
  inferInstanceAs (Kept _ (logicARn D (fun d r => tmem (uchar d) &&& r) code))

instance (code : UChar) : Kept (Holds P K) (instXrlASri D code) :=
  inferInstanceAs (Kept _ (logicASri D (· ^^^ ·) code))

instance (code : UChar) : Kept (Holds P K) (instXrlARn D code) :=
  inferInstanceAs (Kept _ (logicARn D (· ^^^ ·) code))

end Plain

section Operands

variable [h : StableBytes D K] [hf : StableFlags K] [hP : Fetches P]

instance (code : UChar) : Kept (Holds P K) (instAddASdata D code) := by
  unfold instAddASdata
  infer_instance

instance (code : UChar) : Kept (Holds P K) (instAddAAddr D code) := by
  unfold instAddAAddr
  infer_instance

instance (code : UChar) : Kept (Holds P K) (instAddcASdata D code) := by
  unfold instAddcASdata
  infer_instance

instance (code : UChar) : Kept (Holds P K) (instAddcAAddr D code) := by
  unfold instAddcAAddr
  infer_instance

instance (code : UChar) : Kept (Holds P K) (instMovCBit D code) := by
  unfold instMovCBit
  infer_instance

instance (code : UChar) : Kept (Holds P K) (instMovASdata D code) := by
  unfold instMovASdata
  infer_instance

instance (code : UChar) : Kept (Holds P K) (instMovSriSdata D code) := by
  unfold instMovSriSdata
  infer_instance

instance (code : UChar) : Kept (Holds P K) (instMovRnSdata D code) := by
  unfold instMovRnSdata
  infer_instance

instance (code : UChar) : Kept (Holds P K) (instMovDptrSdata D code) := by
  unfold instMovDptrSdata
  infer_instance

instance (code : UChar) : Kept (Holds P K) (instMovSriAddr D code) := by
  unfold instMovSriAddr
  infer_instance

instance (code : UChar) : Kept (Holds P K) (instMovRnAddr D code) := by
  unfold instMovRnAddr
  infer_instance

instance (code : UChar) : Kept (Holds P K) (instMovAAddr D code) := by
  unfold instMovAAddr
  infer_instance

instance (code : UChar) : Kept (Holds P K) (instPush D code) := by
  unfold instPush
  infer_instance

instance (op : TMem → TMem → TMem) : Kept (Holds P K) (logicASdata D op) := by
  unfold logicASdata
  infer_instance

instance (op : TMem → TMem → TMem) : Kept (Holds P K) (logicAAddr D op) := by
  unfold logicAAddr
  infer_instance

instance (skipOn : Bool) (op : Bool → Bool) : Kept (Holds P K) (carryBit D skipOn op) := by
  unfold carryBit
  infer_instance

instance (code : UChar) : Kept (Holds P K) (instOrlASdata D code) :=
  inferInstanceAs (Kept _ (logicASdata D fun d r => tmem (uchar (d ||| r))))

instance (code : UChar) : Kept (Holds P K) (instOrlAAddr D code) :=
  inferInstanceAs (Kept _ (logicAAddr D (· ||| ·)))

instance (code : UChar) : Kept (Holds P K) (instAnlASdata D code) :=
  inferInstanceAs (Kept _ (logicASdata D (· &&& ·)))

instance (code : UChar) : Kept (Holds P K) (instAnlAAddr D code) :=
  inferInstanceAs (Kept _ (logicAAddr D (· &&& ·)))

instance (code : UChar) : Kept (Holds P K) (instXrlASdata D code) :=
  inferInstanceAs (Kept _ (logicASdata D (· ^^^ ·)))

instance (code : UChar) : Kept (Holds P K) (instXrlAAddr D code) :=
  inferInstanceAs (Kept _ (logicAAddr D (· ^^^ ·)))

instance (code : UChar) : Kept (Holds P K) (instOrlCBit D code) :=
  inferInstanceAs (Kept _ (carryBit D true id))

instance (code : UChar) : Kept (Holds P K) (instOrlCSbit D code) :=
  inferInstanceAs (Kept _ (carryBit D true not))

instance (code : UChar) : Kept (Holds P K) (instAnlCBit D code) :=
  inferInstanceAs (Kept _ (carryBit D false id))

instance (code : UChar) : Kept (Holds P K) (instAnlCSbit D code) :=
  inferInstanceAs (Kept _ (carryBit D false not))

end Operands

/-! ## Instructions that write any cell -/

section Stores

variable [h : StableAllBytes D K] [hf : StableFlags K]

instance kept_exchangeAll (cell : Site) : Kept (Holds P K) (exchangeA D cell) := by
  unfold exchangeA
  infer_instance

instance (code : UChar) : Kept (Holds P K) (instSubbASri D code) := by
  unfold instSubbASri
  infer_instance

instance (code : UChar) : Kept (Holds P K) (instSubbARn D code) := by
  unfold instSubbARn
  infer_instance

instance (code : UChar) : Kept (Holds P K) (instDivAb D code) := by
  unfold instDivAb
  infer_instance

instance (code : UChar) : Kept (Holds P K) (instDaA D code) := by
  unfold instDaA
  infer_instance

instance (code : UChar) : Kept (Holds P K) (instMovxSdptrA D code) := by
  unfold instMovxSdptrA
  infer_instance

instance (code : UChar) : Kept (Holds P K) (instMovxSriA D code) := by
  unfold instMovxSriA
  infer_instance

instance (f : TMem → TMem) : Kept (Holds P K) (modifyPsw D f) := by
  unfold modifyPsw
  infer_instance

instance (code : UChar) : Kept (Holds P K) (instCplC D code) :=
  inferInstanceAs (Kept _ (modifyPsw D (· ^^^ bmCY)))

instance (code : UChar) : Kept (Holds P K) (instClrC D code) :=
  inferInstanceAs (Kept _ (modifyPsw D (· &&& ~~~bmCY)))

instance (code : UChar) : Kept (Holds P K) (instSetbC D code) :=
  inferInstanceAs (Kept _ (modifyPsw D (· ||| bmCY)))

variable [hP : Fetches P]

instance (code : UChar) : Kept (Holds P K) (instSubbASdata D code) := by
  unfold instSubbASdata
  infer_instance

instance (code : UChar) : Kept (Holds P K) (instSubbAAddr D code) := by
  unfold instSubbAAddr
  infer_instance

instance (code : UChar) : Kept (Holds P K) (instMovBitC D code) := by
  unfold instMovBitC
  infer_instance

instance (code : UChar) : Kept (Holds P K) (instMovAddrSdata D code) := by
  unfold instMovAddrSdata
  infer_instance

instance (code : UChar) : Kept (Holds P K) (instMovAddrAddr D code) := by
  unfold instMovAddrAddr
  infer_instance

instance (code : UChar) : Kept (Holds P K) (instMovAddrSri D code) := by
  unfold instMovAddrSri
  infer_instance

instance (code : UChar) : Kept (Holds P K) (instMovAddrRn D code) := by
  unfold instMovAddrRn
  infer_instance

instance (code : UChar) : Kept (Holds P K) (instMovAddrA D code) := by
  unfold instMovAddrA
  infer_instance

instance (code : UChar) : Kept (Holds P K) (instPop D code) := by
  unfold instPop
  infer_instance

instance (code : UChar) : Kept (Holds P K) (instXchAAddr D code) := by
  unfold instXchAAddr
  infer_instance

instance (what : TMem) : Kept (Holds P K) (addDirect D what) := by
  unfold addDirect
  infer_instance

instance (op : TMem → TMem → TMem) : Kept (Holds P K) (logicAddrA D op) := by
  unfold logicAddrA
  infer_instance

instance (op : TMem → TMem → TMem) : Kept (Holds P K) (logicAddrSdata D op) := by
  unfold logicAddrSdata
  infer_instance

instance (f : TMem → TMem → TMem) : Kept (Holds P K) (modifyBit D f) := by
  unfold modifyBit
  infer_instance

instance (code : UChar) : Kept (Holds P K) (instIncAddr D code) :=
  inferInstanceAs (Kept _ (addDirect D 1))

instance (code : UChar) : Kept (Holds P K) (instDecAddr D code) :=
  inferInstanceAs (Kept _ (addDirect D (-1)))

instance (code : UChar) : Kept (Holds P K) (instOrlAddrA D code) :=
  inferInstanceAs (Kept _ (logicAddrA D (· ||| ·)))

instance (code : UChar) : Kept (Holds P K) (instOrlAddrSdata D code) :=
  inferInstanceAs (Kept _ (logicAddrSdata D (· ||| ·)))

instance (code : UChar) : Kept (Holds P K) (instAnlAddrA D code) :=
  inferInstanceAs (Kept _ (logicAddrA D (· &&& ·)))

instance (code : UChar) : Kept (Holds P K) (instAnlAddrSdata D code) :=
  inferInstanceAs (Kept _ (logicAddrSdata D (· &&& ·)))

instance (code : UChar) : Kept (Holds P K) (instXrlAddrA D code) :=
  inferInstanceAs (Kept _ (logicAddrA D (· ^^^ ·)))

instance (code : UChar) : Kept (Holds P K) (instXrlAddrSdata D code) :=
  inferInstanceAs (Kept _ (logicAddrSdata D (· ^^^ ·)))

instance (code : UChar) : Kept (Holds P K) (instCplBit D code) :=
  inferInstanceAs (Kept _ (modifyBit D fun d m => d ^^^ m))

instance (code : UChar) : Kept (Holds P K) (instClrBit D code) :=
  inferInstanceAs (Kept _ (modifyBit D fun d m => d &&& ~~~m))

instance (code : UChar) : Kept (Holds P K) (instSetbBit D code) :=
  inferInstanceAs (Kept _ (modifyBit D fun d m => d ||| m))

end Stores

/-! ## Branches -/

section Branches

variable [h : StableBytes D K] [hf : StableFlags K]

instance kept_pushByte (data : TMem) : Kept (Holds P K) (pushByte D data) := by
  unfold pushByte
  infer_instance

section Calls

variable [hC : Calls P]

instance kept_popPC : Kept (Holds P K) (popPC D) := by
  unfold popPC
  infer_instance

instance (code : UChar) : Kept (Holds P K) (instRet D code) := by
  unfold instRet
  infer_instance

instance [Serves P] (code : UChar) : Kept (Holds P K) (instReti D code) := by
  unfold instReti
  infer_instance

variable [hP : Fetches P]

instance (code : UChar) : Kept (Holds P K) (instAjmpAddr D code) := by
  unfold instAjmpAddr
  infer_instance

instance (code : UChar) : Kept (Holds P K) (instAcallAddr D code) := by
  unfold instAcallAddr
  infer_instance

omit hC in
/-- The target is the operand of the instruction or the address of a service routine. -/
theorem callTarget_triple (addr : BitVec 16) :
    Triple (Holds P K) (callTarget D addr) fun t u => (0 ≤ t ∧ t < 0x10000) ∧ Holds P K u := by
  unfold callTarget
  refine Triple.ite (fun _ => ?_) (fun _ => ?_)
  · refine Triple.bind (kept_fetch (D := D)).keeps fun h => ?_
    refine Triple.bind (kept_fetch (D := D)).keeps fun l => ?_
    exact Triple.pure fun u hu => ⟨⟨by omega, by omega⟩, hu⟩
  · exact Triple.pure fun u hu => ⟨⟨by omega, by omega⟩, hu⟩

instance (code : UChar) (addr : BitVec 16) (intr : Bool) :
    Kept (Holds P K) (instLcall D code addr intr) := by
  unfold instLcall
  refine ⟨Triple.bind (callTarget_triple addr) fun target => ?_⟩
  rintro u a v ⟨⟨h0, h1⟩, hu⟩ hrun
  have hset : Kept (Holds P K) (setPC target : UcProg V Unit) :=
    kept_setPC _ fun _ _ => hC.call _ _ _ h0 h1
  exact (inferInstance : Kept (Holds P K) _).keeps u a v hu hrun

end Calls

variable [hJ : Jumps P]

instance (code : UChar) : Kept (Holds P K) (instJmpSaDptr D code) := by
  unfold instJmpSaDptr
  infer_instance

variable [hP : Fetches P]

instance (code : UChar) : Kept (Holds P K) (instLjmp D code) := by
  unfold instLjmp
  infer_instance

instance (code : UChar) : Kept (Holds P K) (instSjmp D code) := by
  unfold instSjmp
  infer_instance

instance (code : UChar) : Kept (Holds P K) (instCjneASdataAddr D code) := by
  unfold instCjneASdataAddr
  infer_instance

instance (code : UChar) : Kept (Holds P K) (instCjneAAddrAddr D code) := by
  unfold instCjneAAddrAddr
  infer_instance

instance (code : UChar) : Kept (Holds P K) (instDjnzRnAddr D code) := by
  unfold instDjnzRnAddr
  infer_instance

instance (on : Bool) : Kept (Holds P K) (jumpBit D on) := by
  unfold jumpBit
  infer_instance

instance (on : Bool) : Kept (Holds P K) (jumpC D on) := by
  unfold jumpC
  infer_instance

instance (zero : Bool) : Kept (Holds P K) (jumpZero D zero) := by
  unfold jumpZero
  infer_instance

instance (cell : Site) : Kept (Holds P K) (compareCell D cell) := by
  unfold compareCell
  infer_instance

instance (code : UChar) : Kept (Holds P K) (instJbBitAddr D code) :=
  inferInstanceAs (Kept _ (jumpBit D true))

instance (code : UChar) : Kept (Holds P K) (instJnbBitAddr D code) :=
  inferInstanceAs (Kept _ (jumpBit D false))

instance (code : UChar) : Kept (Holds P K) (instJcAddr D code) :=
  inferInstanceAs (Kept _ (jumpC D true))

instance (code : UChar) : Kept (Holds P K) (instJncAddr D code) :=
  inferInstanceAs (Kept _ (jumpC D false))

instance (code : UChar) : Kept (Holds P K) (instJzAddr D code) :=
  inferInstanceAs (Kept _ (jumpZero D true))

instance (code : UChar) : Kept (Holds P K) (instJnzAddr D code) :=
  inferInstanceAs (Kept _ (jumpZero D false))

instance (code : UChar) : Kept (Holds P K) (instCjneSriSdataAddr D code) := by
  unfold instCjneSriSdataAddr
  infer_instance

instance (code : UChar) : Kept (Holds P K) (instCjneRnSdataAddr D code) := by
  unfold instCjneRnSdataAddr
  infer_instance

end Branches

section StoringBranches

variable [h : StableAllBytes D K] [hf : StableFlags K] [hJ : Jumps P] [hP : Fetches P]

instance (code : UChar) : Kept (Holds P K) (instJbcBitAddr D code) := by
  unfold instJbcBitAddr
  infer_instance

instance (code : UChar) : Kept (Holds P K) (instDjnzAddrAddr D code) := by
  unfold instDjnzAddrAddr
  infer_instance

end StoringBranches

end Ucsim.S51
