import Mathlib.Data.List.Forall2
import Ucsim.S51.Exec
import Ucsim.S51.Lockstep

/-!
# Instructions in step

One instance for each instruction. Only those that read the latch of a port, and modify and write it, need more of the
two boards than `InStep`.
-/

namespace Ucsim.S51

open Logic Program

variable {Dev V : Type} {D D' : Devices Dev V} {Q : MemState V → MemState V → Prop} {T : Bool → Bool → Prop}

-- an instance for each step of the longest instruction
set_option synthInstance.maxSize 1024
-- not every instruction needs both boards
set_option linter.unusedSectionVars false

section Flags

variable [h : SameCells Q]

instance (b : Bool) : Alike (OnUc Q T) (setMovInstruction b : UcProg V Unit) (setMovInstruction b) := by
  constructor
  rintro u u' ⟨m, go, rfl, hQ, hT⟩
  exact .ok () ⟨_, _, rfl, h.mov b _ _ hQ, hT⟩

instance : Alike (OnUc Q T) (onHw fun h => { h with wasReti := true } : UcProg V Unit)
    (onHw fun h => { h with wasReti := true }) := by
  constructor
  rintro u u' ⟨m, go, rfl, hQ, hT⟩
  exact .ok () ⟨_, _, rfl, h.reti true _ _ hQ, hT⟩

instance alike_unknown : Alike (OnUc Q T) (instUnknown : UcProg V Res) instUnknown := by
  unfold instUnknown
  infer_instance

end Flags

instance : Alike (OnUc Q T) (modify fun u => { u with itLevels := retiLevels u.itLevels } : UcProg V Unit)
    (modify fun u => { u with itLevels := retiLevels u.itLevels }) := alike_core (fun _ _ _ => rfl) fun _ => ⟨rfl, rfl⟩

instance (code : UChar) : Alike (OnUc Q T) (instNop code : UcProg V Res) (instNop code) := by
  unfold instNop
  infer_instance

variable [h : InStep D D' Q]

/-! ## Arithmetic -/

instance (code : UChar) : Alike (OnUc Q T) (instRr D code) (instRr D' code) := by
  unfold instRr
  infer_instance

instance (code : UChar) : Alike (OnUc Q T) (instRrc D code) (instRrc D' code) := by
  unfold instRrc
  infer_instance

instance (code : UChar) : Alike (OnUc Q T) (instRl D code) (instRl D' code) := by
  unfold instRl
  infer_instance

instance (code : UChar) : Alike (OnUc Q T) (instRlc D code) (instRlc D' code) := by
  unfold instRlc
  infer_instance

instance (code : UChar) : Alike (OnUc Q T) (instSwap D code) (instSwap D' code) := by
  unfold instSwap
  infer_instance

instance (code : UChar) : Alike (OnUc Q T) (instClrA D code) (instClrA D' code) := by
  unfold instClrA
  infer_instance

instance (code : UChar) : Alike (OnUc Q T) (instAddASdata D code) (instAddASdata D' code) := by
  unfold instAddASdata
  infer_instance

instance (code : UChar) : Alike (OnUc Q T) (instAddAAddr D code) (instAddAAddr D' code) := by
  unfold instAddAAddr
  infer_instance

instance (code : UChar) : Alike (OnUc Q T) (instAddASri D code) (instAddASri D' code) := by
  unfold instAddASri
  infer_instance

instance (code : UChar) : Alike (OnUc Q T) (instAddARn D code) (instAddARn D' code) := by
  unfold instAddARn
  infer_instance

instance (code : UChar) : Alike (OnUc Q T) (instAddcASdata D code) (instAddcASdata D' code) := by
  unfold instAddcASdata
  infer_instance

instance (code : UChar) : Alike (OnUc Q T) (instAddcAAddr D code) (instAddcAAddr D' code) := by
  unfold instAddcAAddr
  infer_instance

instance (code : UChar) : Alike (OnUc Q T) (instAddcASri D code) (instAddcASri D' code) := by
  unfold instAddcASri
  infer_instance

instance (code : UChar) : Alike (OnUc Q T) (instAddcARn D code) (instAddcARn D' code) := by
  unfold instAddcARn
  infer_instance

instance (code : UChar) : Alike (OnUc Q T) (instSubbASdata D code) (instSubbASdata D' code) := by
  unfold instSubbASdata
  infer_instance

instance (code : UChar) : Alike (OnUc Q T) (instSubbAAddr D code) (instSubbAAddr D' code) := by
  unfold instSubbAAddr
  infer_instance

instance (code : UChar) : Alike (OnUc Q T) (instSubbASri D code) (instSubbASri D' code) := by
  unfold instSubbASri
  infer_instance

instance (code : UChar) : Alike (OnUc Q T) (instSubbARn D code) (instSubbARn D' code) := by
  unfold instSubbARn
  infer_instance

instance (code : UChar) : Alike (OnUc Q T) (instDivAb D code) (instDivAb D' code) := by
  unfold instDivAb
  infer_instance

instance (code : UChar) : Alike (OnUc Q T) (instMulAb D code) (instMulAb D' code) := by
  unfold instMulAb
  infer_instance

instance (code : UChar) : Alike (OnUc Q T) (instDaA D code) (instDaA D' code) := by
  unfold instDaA
  infer_instance

instance (code : UChar) : Alike (OnUc Q T) (instIncA D code) (instIncA D' code) := by
  unfold instIncA
  infer_instance

instance (code : UChar) : Alike (OnUc Q T) (instDecA D code) (instDecA D' code) := by
  unfold instDecA
  infer_instance

instance (code : UChar) : Alike (OnUc Q T) (instIncSri D code) (instIncSri D' code) := by
  unfold instIncSri
  infer_instance

instance (code : UChar) : Alike (OnUc Q T) (instDecSri D code) (instDecSri D' code) := by
  unfold instDecSri
  infer_instance

instance (code : UChar) : Alike (OnUc Q T) (instIncRn D code) (instIncRn D' code) := by
  unfold instIncRn
  infer_instance

instance (code : UChar) : Alike (OnUc Q T) (instDecRn D code) (instDecRn D' code) := by
  unfold instDecRn
  infer_instance

instance (code : UChar) : Alike (OnUc Q T) (instIncDptr D code) (instIncDptr D' code) := by
  unfold instIncDptr
  infer_instance

/-! ## Logic and bits -/

instance (op : TMem → TMem → TMem) : Alike (OnUc Q T) (logicASdata D op) (logicASdata D' op) := by
  unfold logicASdata
  infer_instance

instance (op : TMem → TMem → TMem) : Alike (OnUc Q T) (logicAAddr D op) (logicAAddr D' op) := by
  unfold logicAAddr
  infer_instance

instance (op : TMem → TMem → TMem) (code : UChar) : Alike (OnUc Q T) (logicASri D op code) (logicASri D' op code) := by
  unfold logicASri
  infer_instance

instance (op : TMem → TMem → TMem) (code : UChar) : Alike (OnUc Q T) (logicARn D op code) (logicARn D' op code) := by
  unfold logicARn
  infer_instance

instance (code : UChar) : Alike (OnUc Q T) (instOrlASdata D code) (instOrlASdata D' code) :=
  inferInstanceAs (Alike _ (logicASdata D fun d r => tmem (uchar (d ||| r))) (logicASdata D' fun d r => tmem (uchar (d ||| r))))

instance (code : UChar) : Alike (OnUc Q T) (instOrlAAddr D code) (instOrlAAddr D' code) :=
  inferInstanceAs (Alike _ (logicAAddr D (· ||| ·)) (logicAAddr D' (· ||| ·)))

instance (code : UChar) : Alike (OnUc Q T) (instOrlASri D code) (instOrlASri D' code) :=
  inferInstanceAs (Alike _ (logicASri D (· ||| ·) code) (logicASri D' (· ||| ·) code))

instance (code : UChar) : Alike (OnUc Q T) (instOrlARn D code) (instOrlARn D' code) :=
  inferInstanceAs (Alike _ (logicARn D (· ||| ·) code) (logicARn D' (· ||| ·) code))

instance (code : UChar) : Alike (OnUc Q T) (instAnlASdata D code) (instAnlASdata D' code) :=
  inferInstanceAs (Alike _ (logicASdata D (· &&& ·)) (logicASdata D' (· &&& ·)))

instance (code : UChar) : Alike (OnUc Q T) (instAnlAAddr D code) (instAnlAAddr D' code) :=
  inferInstanceAs (Alike _ (logicAAddr D (· &&& ·)) (logicAAddr D' (· &&& ·)))

instance (code : UChar) : Alike (OnUc Q T) (instAnlASri D code) (instAnlASri D' code) :=
  inferInstanceAs (Alike _ (logicASri D (· &&& ·) code) (logicASri D' (· &&& ·) code))

instance (code : UChar) : Alike (OnUc Q T) (instAnlARn D code) (instAnlARn D' code) :=
  inferInstanceAs (Alike _ (logicARn D (fun d r => tmem (uchar d) &&& r) code) (logicARn D' (fun d r => tmem (uchar d) &&& r) code))

instance (code : UChar) : Alike (OnUc Q T) (instXrlASdata D code) (instXrlASdata D' code) :=
  inferInstanceAs (Alike _ (logicASdata D (· ^^^ ·)) (logicASdata D' (· ^^^ ·)))

instance (code : UChar) : Alike (OnUc Q T) (instXrlAAddr D code) (instXrlAAddr D' code) :=
  inferInstanceAs (Alike _ (logicAAddr D (· ^^^ ·)) (logicAAddr D' (· ^^^ ·)))

instance (code : UChar) : Alike (OnUc Q T) (instXrlASri D code) (instXrlASri D' code) :=
  inferInstanceAs (Alike _ (logicASri D (· ^^^ ·) code) (logicASri D' (· ^^^ ·) code))

instance (code : UChar) : Alike (OnUc Q T) (instXrlARn D code) (instXrlARn D' code) :=
  inferInstanceAs (Alike _ (logicARn D (· ^^^ ·) code) (logicARn D' (· ^^^ ·) code))

instance (code : UChar) : Alike (OnUc Q T) (instCplA D code) (instCplA D' code) := by
  unfold instCplA
  infer_instance

instance (skipOn : Bool) (op : Bool → Bool) : Alike (OnUc Q T) (carryBit D skipOn op) (carryBit D' skipOn op) := by
  unfold carryBit
  infer_instance

instance (code : UChar) : Alike (OnUc Q T) (instOrlCBit D code) (instOrlCBit D' code) :=
  inferInstanceAs (Alike _ (carryBit D true id) (carryBit D' true id))

instance (code : UChar) : Alike (OnUc Q T) (instOrlCSbit D code) (instOrlCSbit D' code) :=
  inferInstanceAs (Alike _ (carryBit D true not) (carryBit D' true not))

instance (code : UChar) : Alike (OnUc Q T) (instAnlCBit D code) (instAnlCBit D' code) :=
  inferInstanceAs (Alike _ (carryBit D false id) (carryBit D' false id))

instance (code : UChar) : Alike (OnUc Q T) (instAnlCSbit D code) (instAnlCSbit D' code) :=
  inferInstanceAs (Alike _ (carryBit D false not) (carryBit D' false not))

instance (code : UChar) : Alike (OnUc Q T) (instMovCBit D code) (instMovCBit D' code) := by
  unfold instMovCBit
  infer_instance

instance (f : TMem → TMem) : Alike (OnUc Q T) (modifyPsw D f) (modifyPsw D' f) := by
  unfold modifyPsw
  infer_instance

instance (code : UChar) : Alike (OnUc Q T) (instCplC D code) (instCplC D' code) :=
  inferInstanceAs (Alike _ (modifyPsw D (· ^^^ bmCY)) (modifyPsw D' (· ^^^ bmCY)))

instance (code : UChar) : Alike (OnUc Q T) (instClrC D code) (instClrC D' code) :=
  inferInstanceAs (Alike _ (modifyPsw D (· &&& ~~~bmCY)) (modifyPsw D' (· &&& ~~~bmCY)))

instance (code : UChar) : Alike (OnUc Q T) (instSetbC D code) (instSetbC D' code) :=
  inferInstanceAs (Alike _ (modifyPsw D (· ||| bmCY)) (modifyPsw D' (· ||| bmCY)))

/-! ## Data transfer -/

instance (code : UChar) : Alike (OnUc Q T) (instMovASdata D code) (instMovASdata D' code) := by
  unfold instMovASdata
  infer_instance

instance (code : UChar) : Alike (OnUc Q T) (instMovAddrSdata D code) (instMovAddrSdata D' code) := by
  unfold instMovAddrSdata
  infer_instance

instance (code : UChar) : Alike (OnUc Q T) (instMovSriSdata D code) (instMovSriSdata D' code) := by
  unfold instMovSriSdata
  infer_instance

instance (code : UChar) : Alike (OnUc Q T) (instMovRnSdata D code) (instMovRnSdata D' code) := by
  unfold instMovRnSdata
  infer_instance

instance (code : UChar) : Alike (OnUc Q T) (instMovcASaPc D code) (instMovcASaPc D' code) := by
  unfold instMovcASaPc
  infer_instance

instance (code : UChar) : Alike (OnUc Q T) (instMovcASaDptr D code) (instMovcASaDptr D' code) := by
  unfold instMovcASaDptr
  infer_instance

instance (code : UChar) : Alike (OnUc Q T) (instMovAddrAddr D code) (instMovAddrAddr D' code) := by
  unfold instMovAddrAddr
  infer_instance

instance (code : UChar) : Alike (OnUc Q T) (instMovAddrSri D code) (instMovAddrSri D' code) := by
  unfold instMovAddrSri
  infer_instance

instance (code : UChar) : Alike (OnUc Q T) (instMovAddrRn D code) (instMovAddrRn D' code) := by
  unfold instMovAddrRn
  infer_instance

instance (code : UChar) : Alike (OnUc Q T) (instMovDptrSdata D code) (instMovDptrSdata D' code) := by
  unfold instMovDptrSdata
  infer_instance

instance (code : UChar) : Alike (OnUc Q T) (instMovSriAddr D code) (instMovSriAddr D' code) := by
  unfold instMovSriAddr
  infer_instance

instance (code : UChar) : Alike (OnUc Q T) (instMovRnAddr D code) (instMovRnAddr D' code) := by
  unfold instMovRnAddr
  infer_instance

instance (code : UChar) : Alike (OnUc Q T) (instMovAAddr D code) (instMovAAddr D' code) := by
  unfold instMovAAddr
  infer_instance

instance (code : UChar) : Alike (OnUc Q T) (instMovASri D code) (instMovASri D' code) := by
  unfold instMovASri
  infer_instance

instance (code : UChar) : Alike (OnUc Q T) (instMovARn D code) (instMovARn D' code) := by
  unfold instMovARn
  infer_instance

instance (code : UChar) : Alike (OnUc Q T) (instMovAddrA D code) (instMovAddrA D' code) := by
  unfold instMovAddrA
  infer_instance

instance (code : UChar) : Alike (OnUc Q T) (instMovSriA D code) (instMovSriA D' code) := by
  unfold instMovSriA
  infer_instance

instance (code : UChar) : Alike (OnUc Q T) (instMovRnA D code) (instMovRnA D' code) := by
  unfold instMovRnA
  infer_instance

instance (code : UChar) : Alike (OnUc Q T) (instPush D code) (instPush D' code) := by
  unfold instPush
  infer_instance

instance (code : UChar) : Alike (OnUc Q T) (instPop D code) (instPop D' code) := by
  unfold instPop
  infer_instance

instance (cell : Site) : Alike (OnUc Q T) (exchangeA D cell) (exchangeA D' cell) := by
  unfold exchangeA
  infer_instance

instance (code : UChar) : Alike (OnUc Q T) (instXchAAddr D code) (instXchAAddr D' code) := by
  unfold instXchAAddr
  infer_instance

instance (code : UChar) : Alike (OnUc Q T) (instXchASri D code) (instXchASri D' code) := by
  unfold instXchASri
  infer_instance

instance (code : UChar) : Alike (OnUc Q T) (instXchARn D code) (instXchARn D' code) := by
  unfold instXchARn
  infer_instance

instance (code : UChar) : Alike (OnUc Q T) (instXchdASri D code) (instXchdASri D' code) := by
  unfold instXchdASri
  infer_instance

instance (code : UChar) : Alike (OnUc Q T) (instMovxASdptr D code) (instMovxASdptr D' code) := by
  unfold instMovxASdptr
  infer_instance

instance (code : UChar) : Alike (OnUc Q T) (instMovxASri D code) (instMovxASri D' code) := by
  unfold instMovxASri
  infer_instance

instance (code : UChar) : Alike (OnUc Q T) (instMovxSdptrA D code) (instMovxSdptrA D' code) := by
  unfold instMovxSdptrA
  infer_instance

instance (code : UChar) : Alike (OnUc Q T) (instMovxSriA D code) (instMovxSriA D' code) := by
  unfold instMovxSriA
  infer_instance

/-! ## Branches -/

instance (code : UChar) : Alike (OnUc Q T) (instAjmpAddr D code) (instAjmpAddr D' code) := by
  unfold instAjmpAddr
  infer_instance

instance (code : UChar) : Alike (OnUc Q T) (instLjmp D code) (instLjmp D' code) := by
  unfold instLjmp
  infer_instance

instance (code : UChar) : Alike (OnUc Q T) (instJmpSaDptr D code) (instJmpSaDptr D' code) := by
  unfold instJmpSaDptr
  infer_instance

instance (data : TMem) : Alike (OnUc Q T) (pushByte D data) (pushByte D' data) := by
  unfold pushByte
  infer_instance

instance (code : UChar) : Alike (OnUc Q T) (instAcallAddr D code) (instAcallAddr D' code) := by
  unfold instAcallAddr
  infer_instance

instance (addr : BitVec 16) : Alike (OnUc Q T) (callTarget D addr) (callTarget D' addr) := by
  unfold callTarget
  infer_instance

instance (code : UChar) (addr : BitVec 16) (intr : Bool) :
    Alike (OnUc Q T) (instLcall D code addr intr) (instLcall D' code addr intr) := by
  unfold instLcall
  infer_instance

instance : Alike (OnUc Q T) (popPC D) (popPC D') := by
  unfold popPC
  infer_instance

instance (code : UChar) : Alike (OnUc Q T) (instRet D code) (instRet D' code) := by
  unfold instRet
  infer_instance

instance (code : UChar) : Alike (OnUc Q T) (instReti D code) (instReti D' code) := by
  unfold instReti
  infer_instance

instance (on : Bool) : Alike (OnUc Q T) (jumpBit D on) (jumpBit D' on) := by
  unfold jumpBit
  infer_instance

instance (code : UChar) : Alike (OnUc Q T) (instJbBitAddr D code) (instJbBitAddr D' code) :=
  inferInstanceAs (Alike _ (jumpBit D true) (jumpBit D' true))

instance (code : UChar) : Alike (OnUc Q T) (instJnbBitAddr D code) (instJnbBitAddr D' code) :=
  inferInstanceAs (Alike _ (jumpBit D false) (jumpBit D' false))

instance (on : Bool) : Alike (OnUc Q T) (jumpC D on) (jumpC D' on) := by
  unfold jumpC
  infer_instance

instance (code : UChar) : Alike (OnUc Q T) (instJcAddr D code) (instJcAddr D' code) :=
  inferInstanceAs (Alike _ (jumpC D true) (jumpC D' true))

instance (code : UChar) : Alike (OnUc Q T) (instJncAddr D code) (instJncAddr D' code) :=
  inferInstanceAs (Alike _ (jumpC D false) (jumpC D' false))

instance (zero : Bool) : Alike (OnUc Q T) (jumpZero D zero) (jumpZero D' zero) := by
  unfold jumpZero
  infer_instance

instance (code : UChar) : Alike (OnUc Q T) (instJzAddr D code) (instJzAddr D' code) :=
  inferInstanceAs (Alike _ (jumpZero D true) (jumpZero D' true))

instance (code : UChar) : Alike (OnUc Q T) (instJnzAddr D code) (instJnzAddr D' code) :=
  inferInstanceAs (Alike _ (jumpZero D false) (jumpZero D' false))

instance (code : UChar) : Alike (OnUc Q T) (instSjmp D code) (instSjmp D' code) := by
  unfold instSjmp
  infer_instance

instance (code : UChar) : Alike (OnUc Q T) (instCjneASdataAddr D code) (instCjneASdataAddr D' code) := by
  unfold instCjneASdataAddr
  infer_instance

instance (code : UChar) : Alike (OnUc Q T) (instCjneAAddrAddr D code) (instCjneAAddrAddr D' code) := by
  unfold instCjneAAddrAddr
  infer_instance

instance (cell : Site) : Alike (OnUc Q T) (compareCell D cell) (compareCell D' cell) := by
  unfold compareCell
  infer_instance

instance (code : UChar) : Alike (OnUc Q T) (instCjneSriSdataAddr D code) (instCjneSriSdataAddr D' code) := by
  unfold instCjneSriSdataAddr
  infer_instance

instance (code : UChar) : Alike (OnUc Q T) (instCjneRnSdataAddr D code) (instCjneRnSdataAddr D' code) := by
  unfold instCjneRnSdataAddr
  infer_instance

instance (code : UChar) : Alike (OnUc Q T) (instDjnzRnAddr D code) (instDjnzRnAddr D' code) := by
  unfold instDjnzRnAddr
  infer_instance

/-! ## Instructions that skip the ports -/

section Skipping

variable [hs : SamePorts D D' Q]

omit h in
instance alike_cellReadSkip (c : Site) (skip : HwCath) : Alike (Q) (c.readSkip D skip) (c.readSkip D' skip) :=
  hs.readSkip c skip

omit h in
instance alike_cellWriteAll (c : Site) (v : TMem) : Alike (Q) (c.write D v) (c.write D' v) := hs.write c v

instance alike_readSkip (sp : Space) (addr : Int) (skip : HwCath) :
    Alike (Q) (sp.readSkip D addr skip) (sp.readSkip D' addr skip) := by
  unfold Space.readSkip
  infer_instance

instance (what : TMem) : Alike (OnUc Q T) (addDirect D what) (addDirect D' what) := by
  unfold addDirect
  infer_instance

instance (code : UChar) : Alike (OnUc Q T) (instIncAddr D code) (instIncAddr D' code) :=
  inferInstanceAs (Alike _ (addDirect D 1) (addDirect D' 1))

instance (code : UChar) : Alike (OnUc Q T) (instDecAddr D code) (instDecAddr D' code) :=
  inferInstanceAs (Alike _ (addDirect D (-1)) (addDirect D' (-1)))

instance (op : TMem → TMem → TMem) : Alike (OnUc Q T) (logicAddrA D op) (logicAddrA D' op) := by
  unfold logicAddrA
  infer_instance

instance (op : TMem → TMem → TMem) : Alike (OnUc Q T) (logicAddrSdata D op) (logicAddrSdata D' op) := by
  unfold logicAddrSdata
  infer_instance

instance (code : UChar) : Alike (OnUc Q T) (instOrlAddrA D code) (instOrlAddrA D' code) :=
  inferInstanceAs (Alike _ (logicAddrA D (· ||| ·)) (logicAddrA D' (· ||| ·)))

instance (code : UChar) : Alike (OnUc Q T) (instOrlAddrSdata D code) (instOrlAddrSdata D' code) :=
  inferInstanceAs (Alike _ (logicAddrSdata D (· ||| ·)) (logicAddrSdata D' (· ||| ·)))

instance (code : UChar) : Alike (OnUc Q T) (instAnlAddrA D code) (instAnlAddrA D' code) :=
  inferInstanceAs (Alike _ (logicAddrA D (· &&& ·)) (logicAddrA D' (· &&& ·)))

instance (code : UChar) : Alike (OnUc Q T) (instAnlAddrSdata D code) (instAnlAddrSdata D' code) :=
  inferInstanceAs (Alike _ (logicAddrSdata D (· &&& ·)) (logicAddrSdata D' (· &&& ·)))

instance (code : UChar) : Alike (OnUc Q T) (instXrlAddrA D code) (instXrlAddrA D' code) :=
  inferInstanceAs (Alike _ (logicAddrA D (· ^^^ ·)) (logicAddrA D' (· ^^^ ·)))

instance (code : UChar) : Alike (OnUc Q T) (instXrlAddrSdata D code) (instXrlAddrSdata D' code) :=
  inferInstanceAs (Alike _ (logicAddrSdata D (· ^^^ ·)) (logicAddrSdata D' (· ^^^ ·)))

instance (f : TMem → TMem → TMem) : Alike (OnUc Q T) (modifyBit D f) (modifyBit D' f) := by
  unfold modifyBit
  infer_instance

instance (code : UChar) : Alike (OnUc Q T) (instCplBit D code) (instCplBit D' code) :=
  inferInstanceAs (Alike _ (modifyBit D fun d m => d ^^^ m) (modifyBit D' fun d m => d ^^^ m))

instance (code : UChar) : Alike (OnUc Q T) (instClrBit D code) (instClrBit D' code) :=
  inferInstanceAs (Alike _ (modifyBit D fun d m => d &&& ~~~m) (modifyBit D' fun d m => d &&& ~~~m))

instance (code : UChar) : Alike (OnUc Q T) (instSetbBit D code) (instSetbBit D' code) :=
  inferInstanceAs (Alike _ (modifyBit D fun d m => d ||| m) (modifyBit D' fun d m => d ||| m))

instance (code : UChar) : Alike (OnUc Q T) (instMovBitC D code) (instMovBitC D' code) := by
  unfold instMovBitC
  infer_instance

instance (code : UChar) : Alike (OnUc Q T) (instJbcBitAddr D code) (instJbcBitAddr D' code) := by
  unfold instJbcBitAddr
  infer_instance

instance (code : UChar) : Alike (OnUc Q T) (instDjnzAddrAddr D code) (instDjnzAddrAddr D' code) := by
  unfold instDjnzAddrAddr
  infer_instance

end Skipping

/-! ## The instruction table -/

section Table

variable {G : UChar → Prop}

/-- Two rows of the table have the same codes, and the instructions of those that satisfy `G` are in step. -/
structure RowAlike (G : UChar → Prop) (Q : MemState V → MemState V → Prop) (T : Bool → Bool → Prop)
    (row row' : List UChar × (UChar → UcProg V Res)) : Prop where
  codes : row.1 = row'.1
  inst : ∀ code ∈ row.1, G code → Alike (OnUc Q T) (row.2 code) (row'.2 code)

/-- The two tables row by row. -/
abbrev RowsAlike (G : UChar → Prop) (Q : MemState V → MemState V → Prop) (T : Bool → Bool → Prop) :
    List (List UChar × (UChar → UcProg V Res)) → List (List UChar × (UChar → UcProg V Res)) → Prop :=
  List.Forall₂ (RowAlike G Q T)

omit h in
theorem RowsAlike.cons {labels : List UChar} {inst inst' : UChar → UcProg V Res}
    {rows rows' : List (List UChar × (UChar → UcProg V Res))}
    [hinst : ∀ code, Alike (OnUc Q T) (inst code) (inst' code)] (hrows : RowsAlike G Q T rows rows') :
    RowsAlike G Q T ((labels, inst) :: rows) ((labels, inst') :: rows') :=
  List.Forall₂.cons ⟨rfl, fun code _ _ => hinst code⟩ hrows

omit h in
/-- A row whose codes do not satisfy `G`. -/
theorem RowsAlike.cons_other {labels : List UChar} {inst inst' : UChar → UcProg V Res}
    {rows rows' : List (List UChar × (UChar → UcProg V Res))} (hother : ∀ code ∈ labels, ¬ G code)
    (hrows : RowsAlike G Q T rows rows') : RowsAlike G Q T ((labels, inst) :: rows) ((labels, inst') :: rows') :=
  List.Forall₂.cons ⟨rfl, fun code hmem hG => absurd hG (hother code hmem)⟩ hrows

omit h in
/-- The row of a code is found in both tables or in none. -/
theorem RowsAlike.find [SameCells Q] {rows rows' : List (List UChar × (UChar → UcProg V Res))} (hrows : RowsAlike G Q T rows rows')
    {code : TMem} (hcode : ∀ label, code = tmem label → G label) :
    Alike (OnUc Q T)
      (match rows.find? fun c => c.1.any (tmem · = code) with
        | some (_, inst) => inst (uchar code)
        | none => instUnknown)
      (match rows'.find? fun c => c.1.any (tmem · = code) with
        | some (_, inst) => inst (uchar code)
        | none => instUnknown) := by
  induction hrows with
  | nil => exact alike_unknown
  | @cons row row' rows rows' hrow _ ih =>
    rw [List.find?_cons, List.find?_cons, ← hrow.codes]
    cases hany : row.1.any (tmem · = code) with
    | false => exact ih
    | true =>
      obtain ⟨label, hlabel, heq⟩ := List.any_eq_true.mp hany
      have htmem : tmem label = code := of_decide_eq_true heq
      have huchar : uchar code = label := by
        rw [← htmem]
        exact BitVec.setWidth_setWidth_of_le label (by decide)
      have halike := hrow.inst label hlabel (hcode label htmem.symm)
      obtain ⟨labels, inst⟩ := row
      obtain ⟨labels', inst'⟩ := row'
      dsimp only
      rwa [huchar]

/-- The switch over the instruction codes. -/
theorem dispatch_alike (hrows : RowsAlike G Q T (cases D) (cases D')) {code : TMem}
    (hcode : ∀ label, code = tmem label → G label) : Alike (OnUc Q T) (dispatch D code) (dispatch D' code) :=
  hrows.find hcode

/-- The codes of the instructions that read the latch of a port. -/
def latchCodes : List UChar := [0x05, 0x10, 0x15, 0x42, 0x43, 0x52, 0x53, 0x62, 0x63, 0x92, 0xb2, 0xc2, 0xd2, 0xd5]

/-- Every instruction that does not read the latch of a port is in step. -/
theorem cases_alike : RowsAlike (· ∉ latchCodes) Q T (cases D) (cases D') := by
  dsimp only [cases]
  repeat first
    | refine RowsAlike.cons ?_
    | refine RowsAlike.cons_other (by decide) ?_
  exact List.Forall₂.nil

/-- With the same registers of ports on both boards every instruction is. -/
theorem cases_alike_same [SamePorts D D' Q] : RowsAlike (fun _ => True) Q T (cases D) (cases D') := by
  dsimp only [cases]
  repeat refine RowsAlike.cons ?_
  exact List.Forall₂.nil

end Table

end Ucsim.S51
