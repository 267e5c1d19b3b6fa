import Ucsim.Xa.Alu

/-!
# The operands of the arithmetic instructions

`inst_gen.cc`, which is included in the functions of nine instructions.
-/

namespace Ucsim.Xa

/-- `op_operands`. -/
inductive Operands
  | REG_REG | REG_IREG | IREG_REG | REG_IREGOFF8 | IREGOFF8_REG | REG_IREGOFF16 | IREGOFF16_REG | REG_IREGINC
  | IREGINC_REG | DIRECT_REG | REG_DIRECT | REG_DATA8 | REG_DATA16 | IREG_DATA8 | IREG_DATA16 | IREGINC_DATA8
  | IREGINC_DATA16 | IREGOFF8_DATA8 | IREGOFF8_DATA16 | IREGOFF16_DATA8 | IREGOFF16_DATA16 | DIRECT_DATA8
  | DIRECT_DATA16 | NO_OPERANDS | CY_BIT | BIT_CY | CY_NOTBIT | DATA4 | REG_DATA4 | REG_DATA5 | IREG_DATA4
  | IREGINC_DATA4 | IREGOFF8_DATA4 | IREGOFF16_DATA4 | DIRECT_DATA4 | REG | IREG | BIT_ALONE | DIRECT | DIRECT_DIRECT
  | RLIST | ADDR24 | BIT_REL8 | REG_REL8 | DIRECT_REL8 | REG_REGOFF8 | REG_REGOFF16 | REG_USP | USP_REG | REL8 | REL16
  | REG_DIRECT_REL8 | REG_DATA8_REL8 | REG_DATA16_REL8 | IREG_DATA8_REL8 | IREG_DATA16_REL8 | A_APLUSDPTR | A_APLUSPC
  | A_PLUSDPTR | IIREG
  deriving DecidableEq, Repr

/-- The number of an operand form. -/
def Operands.number (operands : Operands) : BitVec 16 := BitVec.ofNat 16 operands.ctorIdx

/-- `offset`, of 8 bits that are a `char` or of 16 bits that are a `short`. -/
def offset8 : Prog Int := do return (← fetch).toInt

def offset16 : Prog Int := do return (← fetch2).toInt

/-- `((code & 0x7) << 8) | fetch()`. -/
def directReg (code : BitVec 16) : Prog (BitVec 16) := do return (code &&& 7) <<< 8 ||| (← fetch).setWidth 16

/-- `((code & 0x70) << 4) | fetch()`. -/
def directData (code : BitVec 16) : Prog (BitVec 16) := do return (code &&& 0x70) <<< 4 ||| (← fetch).setWidth 16

section Forms

variable (F : Func) (code : BitVec 16)

def regReg : Prog Unit := do
  if IsWord code then
    set_reg2 (RI_F0 code) do F.FUNC2.run (← reg2 (RI_F0 code)) (← reg2 (RI_0F code))
  else
    set_reg1 (RI_F0 code) (← F.FUNC1.run (← reg1 (RI_F0 code)) (← reg1 (RI_0F code)))

/-- `srcreg` is a `short`. -/
def regIreg (inc : Bool) : Prog Unit := do
  let srcreg := (← reg2 (RI_07 code)).toInt
  if IsWord code then
    set_reg2 (RI_F0 code) do F.FUNC2.run (← reg2 (RI_F0 code)) (← get2 srcreg)
  else
    set_reg1 (RI_F0 code) (← F.FUNC1.run (← reg1 (RI_F0 code)) (← get1 srcreg))
  if inc then set_reg2 (RI_07 code) (return BitVec.ofInt 16 (srcreg + 1))

/-- `addr` is a `short`. -/
def iregReg (inc : Bool) : Prog Unit := do
  let addr := (← reg2 (RI_07 code)).toInt
  if IsWord code then
    store2 addr (← F.FUNC2.run (← get2 addr) (← reg2 (RI_F0 code)))
  else
    store1 addr (← F.FUNC1.run (← get1 addr) (← reg1 (RI_F0 code)))
  if inc then set_reg2 (RI_07 code) (return BitVec.ofInt 16 (addr + 1))

/-- `addr` is a `t_mem` of 16 bits. -/
def iregoffReg (offset : Prog Int) : Prog Unit := do
  let offset ← offset
  let addr : Int := (BitVec.ofInt 16 ((← reg2 (RI_07 code)).toNat + offset)).toNat
  if IsWord code then
    store2 addr (← F.FUNC2.run (← get2 addr) (← reg2 (RI_F0 code)))
  else
    store1 addr (← F.FUNC1.run (← get1 addr) (← reg1 (RI_F0 code)))

/-- The sum is an `int`. -/
def regIregoff (offset : Prog Int) : Prog Unit := do
  let offset ← offset
  if IsWord code then
    set_reg2 (RI_F0 code) do
      F.FUNC2.run (← reg2 (RI_F0 code)) (← get2 ((← reg2 (RI_07 code)).toNat + offset))
  else
    set_reg1 (RI_F0 code) (← F.FUNC1.run (← reg1 (RI_F0 code)) (← get1 ((← reg2 (RI_07 code)).toNat + offset)))

def directFromReg : Prog Unit := do
  let addr ← directReg code
  if IsWord code then
    let wtmp ← get_word_direct addr
    set_word_direct addr do F.FUNC2.run wtmp (← reg2 (RI_F0 code))
  else
    let tmp ← get_byte_direct addr
    set_byte_direct addr (← F.FUNC1.run tmp (← reg1 (RI_F0 code)))

def regFromDirect : Prog Unit := do
  let addr ← directReg code
  if IsWord code then
    set_reg2 (RI_F0 code) do F.FUNC2.run (← reg2 (RI_F0 code)) (← get_word_direct addr)
  else
    set_reg1 (RI_F0 code) (← F.FUNC1.run (← reg1 (RI_F0 code)) (← get_byte_direct addr))

def regData8 : Prog Unit := do
  set_reg1 (RI_F0 code) (← F.FUNC1.run (← reg1 (RI_F0 code)) (← fetch))

def regData16 : Prog Unit := do
  let dat ← fetch2
  set_reg2 (RI_F0 code) do F.FUNC2.run (← reg2 (RI_F0 code)) dat

def iregData8 (inc : Bool) : Prog Unit := do
  let addr ← reg2 (RI_70 code)
  let tmp ← get1 addr.toNat
  store1 addr.toNat (← F.FUNC1.run tmp (← fetch))
  if inc then set_reg2 (RI_70 code) (return addr + 1)

def iregData16 (inc : Bool) : Prog Unit := do
  let addr ← reg2 (RI_70 code)
  let tmp ← get2 addr.toNat
  store2 addr.toNat (← F.FUNC2.run tmp (← fetch2))
  if inc then set_reg2 (RI_70 code) (return addr + 1)

/-- The data are the first operand. -/
def iregoffData8 (offset : Prog Int) : Prog Unit := do
  let offset ← offset
  let tmp ← fetch
  let addr ← reg2 (RI_70 code)
  store1 (addr.toNat + offset) (← F.FUNC1.run tmp (← get1 (addr.toNat + offset)))

/-- The data are the first operand. -/
def iregoffData16 (offset : Prog Int) : Prog Unit := do
  let offset ← offset
  let tmp ← fetch2
  let addr ← reg2 (RI_70 code)
  store2 (addr.toNat + offset) (← F.FUNC2.run tmp (← get2 (addr.toNat + offset)))

def directFromData8 : Prog Unit := do
  let addr ← directData code
  let bdir ← get_byte_direct addr
  let bdat ← fetch
  set_byte_direct addr (← F.FUNC1.run bdir bdat)

def directFromData16 : Prog Unit := do
  let addr ← directData code
  let wdir ← get_word_direct addr
  let wdat ← fetch2
  set_word_direct addr (F.FUNC2.run wdir wdat)

end Forms

/-- The `switch` of `inst_gen.cc`. -/
def inst_gen (F : Func) (code : BitVec 16) : Operands → Prog Unit
  | .REG_REG => regReg F code
  | .REG_IREGINC => regIreg F code true
  | .REG_IREG => regIreg F code false
  | .IREGINC_REG => iregReg F code true
  | .IREG_REG => iregReg F code false
  | .IREGOFF8_REG => iregoffReg F code offset8
  | .IREGOFF16_REG => iregoffReg F code offset16
  | .REG_IREGOFF8 => regIregoff F code offset8
  | .REG_IREGOFF16 => regIregoff F code offset16
  | .DIRECT_REG => directFromReg F code
  | .REG_DIRECT => regFromDirect F code
  | .REG_DATA8 => regData8 F code
  | .REG_DATA16 => regData16 F code
  | .IREGINC_DATA8 => iregData8 F code true
  | .IREG_DATA8 => iregData8 F code false
  | .IREGINC_DATA16 => iregData16 F code true
  | .IREG_DATA16 => iregData16 F code false
  | .IREGOFF8_DATA8 => iregoffData8 F code offset8
  | .IREGOFF16_DATA8 => iregoffData8 F code offset16
  | .IREGOFF8_DATA16 => iregoffData16 F code offset8
  | .IREGOFF16_DATA16 => iregoffData16 F code offset16
  | .DIRECT_DATA8 => directFromData8 F code
  | .DIRECT_DATA16 => directFromData16 F code
  | _ => pure ()

def inst_ADD : BitVec 16 → Operands → Prog Unit := inst_gen ⟨add1, add2⟩

def inst_ADDC : BitVec 16 → Operands → Prog Unit := inst_gen ⟨addc1, addc2⟩

def inst_AND : BitVec 16 → Operands → Prog Unit := inst_gen ⟨and1, and2⟩

def inst_CMP : BitVec 16 → Operands → Prog Unit := inst_gen ⟨cmp1, cmp2⟩

def inst_MOV : BitVec 16 → Operands → Prog Unit := inst_gen ⟨mov1, mov2⟩

def inst_OR : BitVec 16 → Operands → Prog Unit := inst_gen ⟨or1, or2⟩

def inst_SUB : BitVec 16 → Operands → Prog Unit := inst_gen ⟨sub1, sub2⟩

def inst_SUBB : BitVec 16 → Operands → Prog Unit := inst_gen ⟨subb1, subb2⟩

def inst_XOR : BitVec 16 → Operands → Prog Unit := inst_gen ⟨xor1, xor2⟩

end Ucsim.Xa
