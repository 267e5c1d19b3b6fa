import Ucsim.S51.Core

/-!
# Arithmetic instructions

`arith.cc` and `inc.cc`, with the accumulator instructions of `uc51.cc`. The forms of an instruction differ
in how they get the operand; what they do with it is one definition each.
-/

namespace Ucsim.S51

open Logic

variable {Dev V : Type} (D : Devices Dev V)

/-! ## Rotation and exchange of nibbles -/

def instRr (_code : UChar) : UcProg V Res := do
  let ac := uchar (← acc.read D)
  if ac &&& 0x01 ≠ 0 then
    let _ ← acc.write D (tmem (ac >>> 1) ||| 0x80)
  else
    let _ ← acc.write D (tmem (ac >>> 1))
  return .go

def instRrc (_code : UChar) : UcProg V Res := do
  let cy ← sfrGetC D
  let ac := uchar (← acc.read D)
  sfrSetC D (ac &&& 0x01 ≠ 0)
  let ac := ac >>> 1
  let ac := if cy then ac ||| 0x80 else ac
  let _ ← Space.sfr.write D Reg.ACC (tmem ac)
  return .go

def instRl (_code : UChar) : UcProg V Res := do
  let ac := uchar (← acc.read D)
  if ac &&& 0x80 ≠ 0 then
    let _ ← acc.write D (tmem ac <<< 1 ||| 0x01)
  else
    let _ ← acc.write D (tmem ac <<< 1)
  return .go

def instRlc (_code : UChar) : UcProg V Res := do
  let cy ← sfrGetC D
  let ac := uchar (← acc.get D)
  sfrSetC D (ac &&& 0x80 ≠ 0)
  let ac := ac <<< 1
  let ac := if cy then ac ||| 0x01 else ac
  let _ ← acc.write D (tmem ac)
  return .go

def instSwap (_code : UChar) : UcProg V Res := do
  let temp := uchar (← acc.read D) >>> 4 &&& 0x0f
  let ac ← acc.get D
  let _ ← Space.sfr.write D Reg.ACC (ac <<< 4 ||| tmem temp)
  return .go

def instClrA (_code : UChar) : UcProg V Res := do
  let _ ← acc.write D 0
  return .go

/-! ## Addition -/

/-- The end of all forms of `ADD` and `ADDC`: the sum and the flags. -/
def addA (ac data : UChar) (orgC : Bool) : MemProg V Unit := do
  let c := if orgC then 1 else 0
  let newC : Bool := ac.toNat + data.toNat + c > 255
  let newA : Bool := ((ac &&& 0x0f).toNat + (data &&& 0x0f).toNat + c) &&& 0xf0 ≠ 0
  let c6 : Bool := ((ac &&& 0x7f).toNat + (data &&& 0x7f).toNat + c) &&& 0x80 ≠ 0
  let _ ← acc.write D (BitVec.ofNat 16 (ac.toNat + data.toNat + c))
  sfrSetC D newC
  sfrSetBit D (newC != c6) Reg.PSW bmOV
  sfrSetBit D newA Reg.PSW bmAC

def instAddASdata (_code : UChar) : UcProg V Res := do
  let data := uchar (← fetch D)
  let ac := uchar (← acc.read D)
  addA D ac data false
  return .go

def instAddAAddr (_code : UChar) : UcProg V Res := do
  let cell ← getDirect (← fetch D)
  let data := uchar (← cell.read D)
  let ac := uchar (← acc.get D)
  addA D ac data false
  return .go

def instAddASri (code : UChar) : UcProg V Res := do
  let cell ← getIndirect D code
  let ac := uchar (← acc.get D)
  let data := uchar (← cell.read D)
  addA D ac data false
  return .go

def instAddARn (code : UChar) : UcProg V Res := do
  let reg ← getReg D (code &&& 0x07)
  let data := uchar (← reg.read D)
  let ac := uchar (← acc.get D)
  addA D ac data false
  return .go

def instAddcASdata (_code : UChar) : UcProg V Res := do
  let data := uchar (← fetch D)
  let ac := uchar (← acc.get D)
  let orgC ← sfrGetC D
  addA D ac data orgC
  return .go

def instAddcAAddr (_code : UChar) : UcProg V Res := do
  let cell ← getDirect (← fetch D)
  let data := uchar (← cell.read D)
  let ac := uchar (← acc.get D)
  let orgC ← sfrGetC D
  addA D ac data orgC
  return .go

def instAddcASri (code : UChar) : UcProg V Res := do
  let cell ← getIndirect D code
  let ac := uchar (← acc.get D)
  let data := uchar (← cell.read D)
  let orgC ← sfrGetC D
  addA D ac data orgC
  return .go

def instAddcARn (code : UChar) : UcProg V Res := do
  let reg ← getReg D (code &&& 0x07)
  let data := uchar (← reg.read D)
  let ac := uchar (← acc.get D)
  let orgC ← sfrGetC D
  addA D ac data orgC
  return .go

/-! ## Subtraction -/

/-- `result` of `SUBB`. -/
def subbResult (ac data : UChar) (c : Bool) : UChar := ac - data - (if c then 1 else 0)

/-- The status byte that `SUBB` stores: `pw` with the new flags. -/
def subbFlags (ac data : UChar) (pw : UChar) : TMem :=
  let c : Bool := tmem pw &&& bmCY ≠ 0
  let result := subbResult ac data c
  let cn := if c then 1 else 0
  let cy := ac.toNat < data.toNat + cn
  let ov := (ac < 0x80 ∧ data > 0x7f ∧ result > 0x7f) ∨ (ac > 0x7f ∧ data < 0x80 ∧ result < 0x80)
  let half := (ac &&& 0x0f).toNat < (data.toNat + cn) % 16 ∨ (c ∧ data &&& 0x0f = 0x0f)
  (tmem pw &&& ~~~(bmCY ||| bmOV ||| bmAC)) ||| (if cy then bmCY else 0) |||
    (if ov then bmOV else 0) ||| (if half then bmAC else 0)

def instSubbASdata (_code : UChar) : UcProg V Res := do
  let data := uchar (← fetch D)
  let ac := uchar (← acc.get D)
  let pw := uchar (← psw.get D)
  let _ ← acc.write D (tmem (subbResult ac data (tmem pw &&& bmCY ≠ 0)))
  let _ ← psw.write D (subbFlags ac data pw)
  return .go

/-- This form sets `PSW` where the others write it. -/
def instSubbAAddr (_code : UChar) : UcProg V Res := do
  let cell ← getDirect (← fetch D)
  let ac := uchar (← acc.get D)
  let data := uchar (← cell.read D)
  let pw := uchar (← psw.get D)
  let _ ← acc.write D (tmem (subbResult ac data (tmem pw &&& bmCY ≠ 0)))
  let _ ← psw.set D (subbFlags ac data pw)
  return .go

def instSubbASri (code : UChar) : UcProg V Res := do
  let cell ← getIndirect D code
  let data := uchar (← cell.read D)
  let ac := uchar (← acc.get D)
  let pw := uchar (← psw.get D)
  let _ ← acc.write D (tmem (subbResult ac data (tmem pw &&& bmCY ≠ 0)))
  let _ ← psw.write D (subbFlags ac data pw)
  return .go

def instSubbARn (code : UChar) : UcProg V Res := do
  let reg ← getReg D (code &&& 0x07)
  let data := uchar (← reg.read D)
  let ac := uchar (← acc.get D)
  let pw := uchar (← psw.get D)
  let _ ← acc.write D (tmem (subbResult ac data (tmem pw &&& bmCY ≠ 0)))
  let _ ← psw.write D (subbFlags ac data pw)
  return .go

/-! ## Multiplication, division and decimal adjustment -/

def instDivAb (_code : UChar) : UcProg V Res := do
  let pw := uchar (← psw.get D) &&& ~~~(uchar bmCY)
  let b := uchar (← Space.sfr.get D Reg.B)
  if b = 0 then
    let _ ← psw.write D (tmem (pw ||| uchar bmOV))
  else
    let ac := uchar (← acc.get D)
    let _ ← Space.sfr.write D Reg.B (tmem (ac % b))
    let _ ← acc.write D (tmem (ac / b))
    let _ ← psw.write D (tmem (pw &&& ~~~(uchar bmOV)))
  tick 3
  return .go

/-- The copy of `PSW` that the source takes first is never used. -/
def instMulAb (_code : UChar) : UcProg V Res := do
  let _ ← psw.get D
  let ac := (← acc.read D).toNat
  let b := (← Space.sfr.get D Reg.B).toNat
  let temp := ac * b
  let _ ← acc.write D (BitVec.ofNat 16 (temp &&& 0xff))
  let x ← Space.sfr.write D Reg.B (BitVec.ofNat 16 (temp >>> 8 &&& 0xff))
  sfrSetBit D (x ≠ 0) Reg.PSW bmOV
  sfrSetBit D false Reg.PSW bmCY
  tick 3
  return .go

/-- The decimal adjustment of `ac` under the status byte `pw`, with the new status byte. -/
def decimalAdjust (ac pw : UChar) : UChar × UChar :=
  let r : UChar × UChar :=
    if (ac &&& 0x0f).toNat > 9 ∨ pw &&& uchar bmAC ≠ 0 then
      (ac + 0x06, if ac.toNat + 0x06 > 255 then pw ||| uchar bmCY else pw)
    else (ac, pw)
  if (r.1 &&& 0xf0).toNat > 0x90 ∨ r.2 &&& uchar bmCY ≠ 0 then
    (r.1 + 0x60, if r.1.toNat + 0x60 > 255 then r.2 ||| uchar bmCY else r.2)
  else r

def instDaA (_code : UChar) : UcProg V Res := do
  let ac := uchar (← acc.get D)
  let pw := uchar (← psw.get D)
  let r := decimalAdjust ac pw
  let _ ← acc.write D (tmem r.1)
  let _ ← psw.write D (tmem r.2)
  return .go

/-! ## Increment and decrement -/

def instIncA (_code : UChar) : UcProg V Res := do
  let _ ← acc.wadd D 1
  return .go

def instDecA (_code : UChar) : UcProg V Res := do
  let _ ← acc.wadd D (-1)
  return .go

/-- `INC addr` and `DEC addr` read the latch of a port. -/
def addDirect (what : TMem) : UcProg V Res := do
  let cell ← getDirect (← fetch D)
  let d ← cell.readSkip D .port
  let _ ← cell.write D (d + what)
  return .go

def instIncAddr (_code : UChar) : UcProg V Res := addDirect D 1

def instDecAddr (_code : UChar) : UcProg V Res := addDirect D (-1)

def instIncSri (code : UChar) : UcProg V Res := do
  let cell ← getIndirect D code
  let _ ← cell.wadd D 1
  return .go

/-- Unlike the other forms this one calls no operators. -/
def instDecSri (code : UChar) : UcProg V Res := do
  let cell ← getIndirect D code
  let _ ← cell.add D (-1)
  return .go

def instIncRn (code : UChar) : UcProg V Res := do
  let reg ← getReg D (code &&& 0x07)
  let _ ← reg.wadd D 1
  return .go

def instDecRn (code : UChar) : UcProg V Res := do
  let reg ← getReg D (code &&& 0x07)
  let _ ← reg.wadd D (-1)
  return .go

def instIncDptr (_code : UChar) : UcProg V Res := do
  let h ← Space.sfr.read D Reg.DPH
  let l ← Space.sfr.read D Reg.DPL
  let dptr := h.toNat * 256 + l.toNat + 1
  let _ ← Space.sfr.write D Reg.DPH (BitVec.ofNat 16 (dptr >>> 8 &&& 0xff))
  let _ ← Space.sfr.write D Reg.DPL (BitVec.ofNat 16 (dptr &&& 0xff))
  tick 1
  return .go

end Ucsim.S51
