import Ucsim.S51.Core

/-!
# Branch instructions

`jmp.cc`. `LCALL` is also how an interrupt is accepted.
-/

namespace Ucsim.S51

open Logic

variable {Dev V : Type} (D : Devices Dev V)

/-! ## Absolute jumps -/

/-- `(PC & 0xf800) | (h*256 + l)` with `h` from the instruction code. -/
def pageAddress (PC : Int) (code l : UChar) : Int :=
  let h := code >>> 5 &&& 0x07
  ((BitVec.ofInt 16 PC &&& 0xf800) ||| BitVec.ofNat 16 (h.toNat * 256 + l.toNat)).toNat

def instAjmpAddr (code : UChar) : UcProg V Res := do
  let l := uchar (← fetch D)
  tick 1
  setPC (pageAddress (← get).PC code l)
  return .go

/-- The high byte comes first. -/
def instLjmp (_code : UChar) : UcProg V Res := do
  let h ← fetch D
  let l ← fetch D
  setPC (h.toNat * 256 + l.toNat)
  tick 1
  return .go

def instJmpSaDptr (_code : UChar) : UcProg V Res := do
  let h ← Space.sfr.read D Reg.DPH
  let l ← Space.sfr.read D Reg.DPL
  let ac ← acc.read D
  setPC (Space.rom.validateAddress (h.toNat * 256 + l.toNat + ac.toNat))
  tick 1
  return .go

/-! ## Calls and returns -/

/-- Push a byte: `iram->get_cell(sfr->wadd(SP, 1))->write(data)`. -/
def pushByte (data : TMem) : UcProg V TMem := do
  let sp ← Space.sfr.wadd D Reg.SP 1
  let stck ← onMem (Space.iram.getCell sp.toNat)
  let _ ← stck.write D data
  return sp

/-- The low byte of the program counter. -/
def pcLow (PC : Int) : TMem := BitVec.ofInt 16 PC &&& 0xff

/-- The high byte of the program counter. -/
def pcHigh (PC : Int) : TMem := BitVec.ofInt 16 PC >>> 8 &&& 0xff

def instAcallAddr (code : UChar) : UcProg V Res := do
  let l := uchar (← fetch D)
  let spBefore ← Space.sfr.get D Reg.SP
  let _ ← pushByte D (pcLow (← get).PC)
  tick 1
  let sp ← pushByte D (pcHigh (← get).PC)
  let pushed := BitVec.ofInt 16 (← get).PC
  setPC (pageAddress (← get).PC code l)
  let u ← get
  stackWrite
    { kind := .call u.PC pushed.toNat, PC := u.instPC, spBefore := spBefore.toNat
      spAfter := sp.toNat }
  return .go

/-- Where `inst_lcall` jumps to. The address 0 stands for the operand of the instruction. -/
def callTarget (addr : BitVec 16) : UcProg V Int := do
  if addr = 0 then
    let h := uchar (← fetch D)
    let l := uchar (← fetch D)
    return h.toNat * 256 + l.toNat
  else return addr.toNat

/-- `inst_lcall(code, addr, intr)`. -/
def instLcall (_code : UChar) (addr : BitVec 16) (intr : Bool) : UcProg V Res := do
  let target ← callTarget D addr
  let spBefore ← Space.sfr.get D Reg.SP
  let _ ← pushByte D (pcLow (← get).PC)
  if addr = 0 then tick 1
  let sp ← pushByte D (pcHigh (← get).PC)
  let pushed := BitVec.ofInt 16 (← get).PC
  setPC target
  let u ← get
  stackWrite
    { kind := if intr then .intr u.PC pushed.toNat else .call u.PC pushed.toNat
      PC := u.instPC, spBefore := spBefore.toNat, spAfter := sp.toNat }
  return .go

/-- What `RET` and `RETI` begin with: the return address is popped into `PC`. The value is the stack
pointer before and after. -/
def popPC : UcProg V (TMem × TMem) := do
  let spBefore ← Space.sfr.read D Reg.SP
  let stck ← onMem (Space.iram.getCell spBefore.toNat)
  let h := uchar (← stck.read D)
  let sp ← Space.sfr.wadd D Reg.SP (-1)
  tick 1
  let stck ← onMem (Space.iram.getCell sp.toNat)
  let l := uchar (← stck.read D)
  let sp ← Space.sfr.wadd D Reg.SP (-1)
  setPC (h.toNat * 256 + l.toNat)
  return (spBefore, sp)

def instRet (_code : UChar) : UcProg V Res := do
  let (spBefore, sp) ← popPC D
  let u ← get
  stackRead
    { kind := .ret u.PC, PC := u.instPC, spBefore := spBefore.toNat, spAfter := sp.toNat }
  return .go

/-- The levels after `RETI`: the top one is popped unless it is that of the main program. -/
def retiLevels : List ItLevel → List ItLevel
  | [] => []
  | il :: below => if il.level ≥ 0 then below else il :: below

def instReti (_code : UChar) : UcProg V Res := do
  let (spBefore, sp) ← popPC D
  onHw fun h => { h with wasReti := true }
  modify fun u => { u with itLevels := retiLevels u.itLevels }
  let u ← get
  stackRead
    { kind := .iret u.PC, PC := u.instPC, spBefore := spBefore.toNat, spAfter := sp.toNat }
  return .go

/-! ## Branches on a bit -/

def instJbcBitAddr (_code : UChar) : UcProg V Res := do
  let bitaddr ← fetch D
  let jaddr := uchar (← fetch D)
  let (mem, a, m) := bit2mem (tmem (uchar bitaddr))
  let d ← mem.readSkip D a .port
  let _ ← mem.write D a (d &&& ~~~m)
  if d &&& m ≠ 0 then jumpRel jaddr
  tick 1
  return .go

/-- `JB` and `JNB`: jump if the bit is `on`. -/
def jumpBit (on : Bool) : UcProg V Res := do
  let (mem, a, m) := bit2mem (tmem (uchar (← fetch D)))
  tick 1
  let jaddr := uchar (← fetch D)
  let d ← mem.read D a
  if decide (d &&& m ≠ 0) = on then jumpRel jaddr
  return .go

def instJbBitAddr (_code : UChar) : UcProg V Res := jumpBit D true
def instJnbBitAddr (_code : UChar) : UcProg V Res := jumpBit D false

/-- `JC` and `JNC`. -/
def jumpC (on : Bool) : UcProg V Res := do
  let jaddr := uchar (← fetch D)
  tick 1
  if (← sfrGetC D) = on then jumpRel jaddr
  return .go

def instJcAddr (_code : UChar) : UcProg V Res := jumpC D true
def instJncAddr (_code : UChar) : UcProg V Res := jumpC D false

/-- `JZ` and `JNZ`. -/
def jumpZero (zero : Bool) : UcProg V Res := do
  let jaddr := uchar (← fetch D)
  tick 1
  let ac ← acc.read D
  if decide (ac = 0) = zero then jumpRel jaddr
  return .go

def instJzAddr (_code : UChar) : UcProg V Res := jumpZero D true
def instJnzAddr (_code : UChar) : UcProg V Res := jumpZero D false

def instSjmp (_code : UChar) : UcProg V Res := do
  let target := uchar (← fetch D)
  jumpRel target
  tick 1
  return .go

/-! ## Compare and loop -/

def instCjneASdataAddr (_code : UChar) : UcProg V Res := do
  let data := uchar (← fetch D)
  let jaddr := uchar (← fetch D)
  tick 1
  let ac := uchar (← acc.read D)
  sfrSetC D (ac.toNat < data.toNat)
  if ac ≠ data then jumpRel jaddr
  return .go

def instCjneAAddrAddr (_code : UChar) : UcProg V Res := do
  let cell ← getDirect (← fetch D)
  let jaddr := uchar (← fetch D)
  tick 1
  let data := uchar (← cell.read D)
  let ac ← acc.get D
  sfrSetC D (ac.toNat < data.toNat)
  let ac ← acc.read D
  if ac ≠ tmem data then jumpRel jaddr
  return .go

/-- The end of `CJNE @Ri,#data,addr` and `CJNE Rn,#data,addr`. -/
def compareCell (cell : Site) : UcProg V Res := do
  let data := uchar (← fetch D)
  let jaddr := uchar (← fetch D)
  tick 1
  let d ← cell.read D
  sfrSetC D (d.toNat < data.toNat)
  if d ≠ tmem data then jumpRel jaddr
  return .go

def instCjneSriSdataAddr (code : UChar) : UcProg V Res := do
  let cell ← getIndirect D code
  compareCell D cell

def instCjneRnSdataAddr (code : UChar) : UcProg V Res := do
  let reg ← getReg D (code &&& 0x07)
  compareCell D reg

def instDjnzAddrAddr (_code : UChar) : UcProg V Res := do
  let cell ← getDirect (← fetch D)
  let jaddr := uchar (← fetch D)
  tick 1
  let d ← cell.readSkip D .port
  let d ← cell.write D (d - 1)
  if d ≠ 0 then jumpRel jaddr
  return .go

def instDjnzRnAddr (code : UChar) : UcProg V Res := do
  let reg ← getReg D (code &&& 0x07)
  let jaddr := uchar (← fetch D)
  tick 1
  let r ← reg.wadd D (-1)
  if r ≠ 0 then jumpRel jaddr
  return .go

end Ucsim.S51
