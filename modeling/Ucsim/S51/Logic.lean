import Ucsim.S51.Core

/-!
# Logical and bit instructions

`logic.cc` and `bit.cc`. `ORL`, `ANL` and `XRL` differ in the operation only.
-/

namespace Ucsim.S51

open Logic

variable {Dev V : Type} (D : Devices Dev V)

/-! ## Bytes -/

/-- `op addr,A`: reads the latch of a port. -/
def logicAddrA (op : TMem → TMem → TMem) : UcProg V Res := do
  let cell ← getDirect (← fetch D)
  let d ← cell.readSkip D .port
  let ac ← acc.read D
  let _ ← cell.write D (op d ac)
  return .go

/-- `op addr,#data`. -/
def logicAddrSdata (op : TMem → TMem → TMem) : UcProg V Res := do
  let cell ← getDirect (← fetch D)
  let d ← fetch D
  let r ← cell.readSkip D .port
  let _ ← cell.write D (op r d)
  tick 1
  return .go

/-- `op A,#data`. -/
def logicASdata (op : TMem → TMem → TMem) : UcProg V Res := do
  let d := uchar (← acc.read D)
  let data ← fetch D
  let _ ← acc.write D (op (tmem d) data)
  return .go

/-- `op A,addr`. -/
def logicAAddr (op : TMem → TMem → TMem) : UcProg V Res := do
  let cell ← getDirect (← fetch D)
  let d ← acc.read D
  let r ← cell.read D
  let _ ← acc.write D (op d r)
  return .go

/-- `op A,@Ri`. -/
def logicASri (op : TMem → TMem → TMem) (code : UChar) : UcProg V Res := do
  let cell ← getIndirect D code
  let d ← acc.read D
  let r ← cell.read D
  let _ ← acc.write D (op d r)
  return .go

/-- `op A,Rn`. -/
def logicARn (op : TMem → TMem → TMem) (code : UChar) : UcProg V Res := do
  let d ← acc.read D
  let reg ← getReg D (code &&& 0x07)
  let r ← reg.read D
  let _ ← acc.write D (op d r)
  return .go

def instOrlAddrA (_code : UChar) : UcProg V Res := logicAddrA D (· ||| ·)
def instOrlAddrSdata (_code : UChar) : UcProg V Res := logicAddrSdata D (· ||| ·)
def instOrlASdata (_code : UChar) : UcProg V Res := logicASdata D fun d r => tmem (uchar (d ||| r))
def instOrlAAddr (_code : UChar) : UcProg V Res := logicAAddr D (· ||| ·)
def instOrlASri (code : UChar) : UcProg V Res := logicASri D (· ||| ·) code
def instOrlARn (code : UChar) : UcProg V Res := logicARn D (· ||| ·) code

def instAnlAddrA (_code : UChar) : UcProg V Res := logicAddrA D (· &&& ·)
def instAnlAddrSdata (_code : UChar) : UcProg V Res := logicAddrSdata D (· &&& ·)
def instAnlASdata (_code : UChar) : UcProg V Res := logicASdata D (· &&& ·)
def instAnlAAddr (_code : UChar) : UcProg V Res := logicAAddr D (· &&& ·)
def instAnlASri (code : UChar) : UcProg V Res := logicASri D (· &&& ·) code
def instAnlARn (code : UChar) : UcProg V Res := logicARn D (fun d r => tmem (uchar d) &&& r) code

def instXrlAddrA (_code : UChar) : UcProg V Res := logicAddrA D (· ^^^ ·)
def instXrlAddrSdata (_code : UChar) : UcProg V Res := logicAddrSdata D (· ^^^ ·)
def instXrlASdata (_code : UChar) : UcProg V Res := logicASdata D (· ^^^ ·)
def instXrlAAddr (_code : UChar) : UcProg V Res := logicAAddr D (· ^^^ ·)
def instXrlASri (code : UChar) : UcProg V Res := logicASri D (· ^^^ ·) code
def instXrlARn (code : UChar) : UcProg V Res := logicARn D (· ^^^ ·) code

def instCplA (_code : UChar) : UcProg V Res := do
  let d ← acc.read D
  let _ ← acc.write D (~~~ d)
  return .go

/-! ## Bits -/

/-- The carry becomes `op` of the carry and a bit. The bit is read only if the carry does not decide:
`||` and `&&` of C. -/
def carryBit (skipOn : Bool) (op : Bool → Bool) : UcProg V Res := do
  let (mem, a, m) := bit2mem (← fetch D)
  if (← sfrGetC D) = skipOn then sfrSetC D skipOn
  else
    let d ← mem.read D a
    sfrSetC D (op (d &&& m ≠ 0))
  tick 1
  return .go

def instOrlCBit (_code : UChar) : UcProg V Res := carryBit D true id
def instOrlCSbit (_code : UChar) : UcProg V Res := carryBit D true not
def instAnlCBit (_code : UChar) : UcProg V Res := carryBit D false id
def instAnlCSbit (_code : UChar) : UcProg V Res := carryBit D false not

def instMovCBit (_code : UChar) : UcProg V Res := do
  let (mem, a, m) := bit2mem (← fetch D)
  let d ← mem.read D a
  sfrSetC D (d &&& m ≠ 0)
  return .go

/-- `mem->write(a, f(d, m))` with `d` the byte read from the latch. -/
def modifyBit (f : TMem → TMem → TMem) : UcProg V Res := do
  let (mem, a, m) := bit2mem (← fetch D)
  let d ← mem.readSkip D a .port
  let _ ← mem.write D a (f d m)
  return .go

def instCplBit (_code : UChar) : UcProg V Res := modifyBit D fun d m => d ^^^ m
def instClrBit (_code : UChar) : UcProg V Res := modifyBit D fun d m => d &&& ~~~m
def instSetbBit (_code : UChar) : UcProg V Res := modifyBit D fun d m => d ||| m

def instMovBitC (_code : UChar) : UcProg V Res := do
  let (mem, a, m) := bit2mem (← fetch D)
  let d ← mem.readSkip D a .port
  if ← sfrGetC D then
    let _ ← mem.write D a (d ||| m)
  else
    let _ ← mem.write D a (d &&& ~~~m)
  tick 1
  return .go

/-- `psw->write(f(psw->read()))`. -/
def modifyPsw (f : TMem → TMem) : UcProg V Res := do
  let pw ← psw.read D
  let _ ← psw.write D (f pw)
  return .go

def instCplC (_code : UChar) : UcProg V Res := modifyPsw D (· ^^^ bmCY)
def instClrC (_code : UChar) : UcProg V Res := modifyPsw D (· &&& ~~~bmCY)
def instSetbC (_code : UChar) : UcProg V Res := modifyPsw D (· ||| bmCY)

end Ucsim.S51
