import Ucsim.S51.Core

/-!
# Data transfer instructions

`mov.cc`. Several forms raise the radio's flag `MovInstruction` while they run.
-/

namespace Ucsim.S51

open Logic

variable {Dev V : Type} (D : Devices Dev V)

/-- `CC2530radio->MovInstruction = b`. -/
def setMovInstruction (b : Bool) : UcProg V Unit := onHw fun h => { h with movInstruction := b }

/-! ## Moves -/

def instMovASdata (_code : UChar) : UcProg V Res := do
  let d ← fetch D
  let _ ← acc.write D d
  return .go

def instMovAddrSdata (_code : UChar) : UcProg V Res := do
  let cell ← getDirect (← fetch D)
  let d ← fetch D
  let _ ← cell.write D d
  tick 1
  return .go

def instMovSriSdata (code : UChar) : UcProg V Res := do
  let cell ← getIndirect D code
  let d ← fetch D
  let _ ← cell.write D d
  return .go

def instMovRnSdata (code : UChar) : UcProg V Res := do
  let reg ← getReg D (code &&& 0x07)
  let d ← fetch D
  let _ ← reg.write D d
  return .go

def instMovcASaPc (_code : UChar) : UcProg V Res := do
  setMovInstruction true
  let ac ← acc.read D
  let d ← Space.rom.read D ((← get).PC + ac.toNat)
  let _ ← acc.write D d
  setMovInstruction false
  tick 1
  return .go

def instMovcASaDptr (_code : UChar) : UcProg V Res := do
  let h ← Space.sfr.read D Reg.DPH
  let l ← Space.sfr.read D Reg.DPL
  let ac ← acc.read D
  let d ← Space.rom.read D (h.toNat * 256 + l.toNat + ac.toNat)
  let _ ← acc.write D d
  tick 1
  return .go

def instMovAddrAddr (_code : UChar) : UcProg V Res := do
  setMovInstruction true
  let s ← getDirect (← fetch D)
  let d ← getDirect (← fetch D)
  let v ← s.read D
  let _ ← d.write D v
  setMovInstruction false
  tick 1
  return .go

def instMovAddrSri (code : UChar) : UcProg V Res := do
  let d ← getDirect (← fetch D)
  let s ← getIndirect D code
  let v ← s.read D
  let _ ← d.write D v
  tick 1
  return .go

def instMovAddrRn (code : UChar) : UcProg V Res := do
  let cell ← getDirect (← fetch D)
  let reg ← getReg D (code &&& 0x07)
  let v ← reg.read D
  let _ ← cell.write D v
  tick 1
  return .go

def instMovDptrSdata (_code : UChar) : UcProg V Res := do
  let h ← fetch D
  let _ ← Space.sfr.write D Reg.DPH h
  let l ← fetch D
  let _ ← Space.sfr.write D Reg.DPL l
  tick 1
  return .go

def instMovSriAddr (code : UChar) : UcProg V Res := do
  setMovInstruction true
  let d ← getIndirect D code
  let s ← getDirect (← fetch D)
  let v ← s.read D
  let _ ← d.write D v
  setMovInstruction false
  tick 1
  return .go

def instMovRnAddr (code : UChar) : UcProg V Res := do
  setMovInstruction true
  let reg ← getReg D (code &&& 0x07)
  let cell ← getDirect (← fetch D)
  let v ← cell.read D
  let _ ← reg.write D v
  setMovInstruction false
  tick 1
  return .go

/-- `MOV A,ACC` is no valid instruction. -/
def instMovAAddr (_code : UChar) : UcProg V Res := do
  let address ← fetch D
  setMovInstruction true
  if (address.toNat : Int) = Reg.ACC then error .unknownCode
  else
    let cell ← getDirect address
    let v ← cell.read D
    let _ ← acc.write D v
  setMovInstruction false
  return .go

def instMovASri (code : UChar) : UcProg V Res := do
  let cell ← getIndirect D code
  let v ← cell.read D
  let _ ← acc.write D v
  return .go

def instMovARn (code : UChar) : UcProg V Res := do
  let reg ← getReg D (code &&& 0x07)
  let v ← reg.read D
  let _ ← acc.write D v
  return .go

def instMovAddrA (_code : UChar) : UcProg V Res := do
  let cell ← getDirect (← fetch D)
  let v ← acc.read D
  let _ ← cell.write D v
  return .go

def instMovSriA (code : UChar) : UcProg V Res := do
  let cell ← getIndirect D code
  let v ← acc.read D
  let _ ← cell.write D v
  return .go

def instMovRnA (code : UChar) : UcProg V Res := do
  let reg ← getReg D (code &&& 0x07)
  let v ← acc.read D
  let _ ← reg.write D v
  return .go

/-! ## Stack -/

def instPush (_code : UChar) : UcProg V Res := do
  let cell ← getDirect (← fetch D)
  let spBefore ← Space.sfr.get D Reg.SP
  let sp ← Space.sfr.wadd D Reg.SP 1
  let stck ← onMem (Space.iram.getCell sp.toNat)
  let data ← cell.read D
  let _ ← stck.write D data
  stackWrite
    { kind := .push data, PC := (← get).instPC, spBefore := spBefore.toNat, spAfter := sp.toNat }
  tick 1
  return .go

def instPop (_code : UChar) : UcProg V Res := do
  let spBefore ← Space.sfr.get D Reg.SP
  let cell ← getDirect (← fetch D)
  let stck ← onMem (Space.iram.getCell (← Space.sfr.get D Reg.SP).toNat)
  let data ← stck.read D
  let _ ← cell.write D data
  let sp ← Space.sfr.wadd D Reg.SP (-1)
  tick 1
  stackRead
    { kind := .pop data, PC := (← get).instPC, spBefore := spBefore.toNat, spAfter := sp.toNat }
  return .go

/-! ## Exchanges -/

/-- The exchange of the accumulator with a cell. -/
def exchangeA (cell : Site) : UcProg V Res := do
  let temp ← acc.read D
  let v ← cell.read D
  let _ ← acc.write D v
  let _ ← cell.write D temp
  return .go

def instXchAAddr (_code : UChar) : UcProg V Res := do
  let cell ← getDirect (← fetch D)
  exchangeA D cell

def instXchASri (code : UChar) : UcProg V Res := do
  let cell ← getIndirect D code
  exchangeA D cell

def instXchARn (code : UChar) : UcProg V Res := do
  let reg ← getReg D (code &&& 0x07)
  exchangeA D reg

def instXchdASri (code : UChar) : UcProg V Res := do
  let cell ← getIndirect D code
  let d ← cell.read D
  let temp := d &&& 0x0f
  let ac ← acc.read D
  let _ ← cell.write D ((d &&& 0xf0) ||| (ac &&& 0x0f))
  let ac ← acc.get D
  let _ ← acc.write D ((ac &&& 0xf0) ||| temp)
  return .go

/-! ## External memory -/

def instMovxASdptr (_code : UChar) : UcProg V Res := do
  setMovInstruction true
  let h ← Space.sfr.read D Reg.DPH
  let l ← Space.sfr.read D Reg.DPL
  let d ← Space.xram.read D (h.toNat * 256 + l.toNat)
  let _ ← acc.write D d
  setMovInstruction false
  tick 1
  return .go

/-- The register window is read from `sfr` at the `xram` address, where `sfr` has no cell. -/
def instMovxASri (code : UChar) : UcProg V Res := do
  let reg ← getReg D (code &&& 0x01)
  let d ← reg.read D
  let mpage ← Space.sfr.read D Reg.MPAGE
  if mpage = 0x70 ∧ d.toNat ≥ 0x80 then
    let v ← Space.sfr.read D (mpage.toNat * 256 + d.toNat)
    let _ ← acc.write D v
  else
    let v ← Space.xram.read D (mpage.toNat * 256 + d.toNat)
    let _ ← acc.write D v
  tick 1
  return .go

/-- `(sfr->read(DPH)==0x70) && (sfr->read(DPL)>= 0x80)`. -/
def dptrInWindow : MemProg V Bool := do
  let h ← Space.sfr.read D Reg.DPH
  if h = 0x70 then
    let l ← Space.sfr.read D Reg.DPL
    return decide (l.toNat ≥ 0x80)
  else return false

/-- Outside of the register window the accumulator is read once more for a debug message. -/
def instMovxSdptrA (_code : UChar) : UcProg V Res := do
  let h ← Space.sfr.read D Reg.DPH
  let l ← Space.sfr.read D Reg.DPL
  let dp : Int := h.toNat * 256 + l.toNat
  let inWindow ← dptrInWindow D
  let v ← acc.read D
  if inWindow then
    let _ ← Space.sfr.write D dp v
  else
    let _ ← Space.xram.write D dp v
    let _ ← acc.read D
  tick 1
  return .go

def instMovxSriA (code : UChar) : UcProg V Res := do
  let reg ← getReg D (code &&& 0x01)
  let d ← reg.read D
  let mpage ← Space.sfr.read D Reg.MPAGE
  let v ← acc.read D
  if mpage = 0x70 ∧ d.toNat ≥ 0x80 then
    let _ ← Space.sfr.write D (mpage.toNat * 256 + d.toNat) v
  else
    let _ ← Space.xram.write D (mpage.toNat * 256 + d.toNat) v
  tick 1
  return .go

end Ucsim.S51
