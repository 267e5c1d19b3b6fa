import Ucsim.Xa.InstGen

/-!
# The other instructions of the XA

The functions of `inst.cc` that do not include `inst_gen.cc`. An instruction that is not done yet prints a message.
-/

namespace Ucsim.Xa

/-! ## Branches -/

/-- `x & 0xfffffe`. -/
def even24 (x : Int) : Int := x % 0x1000000 / 2 * 2

/-- `fetch1()*2`. -/
def rel8 : Prog Int := do return 2 * (← fetch).toNat

/-- `PC=(PC+jmpAddr)&0xfffffe`. -/
def jumpEven (jmpAddr : Int) : Prog Unit := do setPC (even24 ((← get).PC + jmpAddr))

/-- `PC += addr`. -/
def jumpBy (addr : Int) : Prog Unit := do setPC ((← get).PC + addr)

/-- `flags & bit`. -/
def has (flags bit : BitVec 8) : Bool := decide (flags &&& bit ≠ 0)

/-- A branch on the flags. -/
def branch (taken : BitVec 8 → Bool) : Prog Unit := do
  let jmpAddr ← rel8
  if taken (← get_psw) then jumpEven jmpAddr

def inst_BCC : Prog Unit := branch fun flags => !has flags BIT_C

def inst_BCS : Prog Unit := branch fun flags => has flags BIT_C

def inst_BEQ : Prog Unit := branch fun flags => has flags BIT_Z

def inst_BG : Prog Unit := branch fun flags => decide ((flags &&& BIT_Z) ||| (flags &&& BIT_C) = 0)

/-- `bool` is `int` here (`pobjt.h`): N and V are numbers that are never equal when they are set. -/
def inst_BGE : Prog Unit := branch fun flags => decide ((flags &&& BIT_N) ^^^ (flags &&& BIT_V) = 0)

def inst_BGT : Prog Unit :=
  branch fun flags => decide (((flags &&& BIT_Z) ||| (flags &&& BIT_N)) ^^^ (flags &&& BIT_V) = 0)

def inst_BL : Prog Unit := branch fun flags => decide ((flags &&& BIT_Z) ||| (flags &&& BIT_C) ≠ 0)

def inst_BLE : Prog Unit :=
  branch fun flags => decide (((flags &&& BIT_Z) ||| (flags &&& BIT_N)) ^^^ (flags &&& BIT_V) ≠ 0)

def inst_BLT : Prog Unit := branch fun flags => decide ((flags &&& BIT_N) ^^^ (flags &&& BIT_V) ≠ 0)

def inst_BMI : Prog Unit := branch fun flags => has flags BIT_N

def inst_BNE : Prog Unit := branch fun flags => !has flags BIT_Z

def inst_BNV : Prog Unit := branch fun flags => !has flags BIT_V

def inst_BOV : Prog Unit := branch fun flags => has flags BIT_V

def inst_BPL : Prog Unit := branch fun flags => !has flags BIT_N

def inst_BR : Prog Unit := branch fun _ => true

/-- The flags that `CJNE` leaves. `result` is an `int` here, which is never above `0xffff` or `0xff`. -/
def cjneFlags {w : Nat} (dst src : BitVec w) (flags : BitVec 8) : BitVec 8 :=
  orIf (dst < src) BIT_N (orIf (dst = src) BIT_Z (flags &&& ~~~BIT_ALL))

/-- A direct operand is decremented, and the branch taken when it has not become zero. -/
def decrementDirect (code : BitVec 16) : Prog Unit := do
  let daddr ← directReg code
  let addr ← rel8
  if IsWord code then
    let tmp := (← get_word_direct daddr) - 1
    set_word_direct daddr (return tmp)
    if tmp ≠ 0 then jumpBy addr
  else
    let tmp := low ((← get_word_direct daddr) - 1)
    set_byte_direct daddr tmp
    if tmp ≠ 0 then jumpBy addr

/-- `inst_CJNE`. The direct address is shifted by 4, and `get_word_direct`, which has its address twice, fetches twice.
The forms with data have no case. -/
def inst_CJNE (code : BitVec 16) : Operands → Prog Unit
  | .REG_DIRECT_REL8 => do
    if IsWord code then
      let l ← get_byte_direct ((code &&& 7) <<< 4 ||| (← fetch).setWidth 16)
      let h ← get_byte_direct ((code &&& 7) <<< 4 ||| ((← fetch).setWidth 16 + 1))
      let addr ← rel8
      let flags := cjneFlags (← reg2 (RI_F0 code)) (h ++ l) (← get_psw)
      set_psw flags
      if has flags BIT_Z then jumpBy addr
    else
      let src ← get_byte_direct ((code &&& 7) <<< 4 ||| (← fetch).setWidth 16)
      let addr ← rel8
      let flags := cjneFlags (← reg1 (RI_F0 code)) src (← get_psw)
      set_psw flags
      if has flags BIT_Z then jumpBy addr
  | .DIRECT_REL8 => decrementDirect code
  | _ => pure ()

/-- `inst_DJNZ`. -/
def inst_DJNZ (code : BitVec 16) : Operands → Prog Unit
  | .REG_REL8 => do
    let addr := 2 * (← fetch).toInt
    if IsWord code then
      let tmp ← mov2.run 0 ((← reg2 (RI_F0 code)) - 1)
      set_reg2 (RI_F0 code) (return tmp)
      if tmp ≠ 0 then jumpEven addr
    else
      let tmp ← mov1.run 0 ((← reg1 (RI_F0 code)) - 1)
      set_reg1 (RI_F0 code) tmp
      if tmp ≠ 0 then jumpEven addr
  | .DIRECT_REL8 => decrementDirect code
  | _ => pure ()

/-- `((code&0x3)<<8) + fetch1()`. -/
def bitAddr (code : BitVec 16) : Prog (BitVec 16) := do return (code &&& 3) <<< 8 + (← fetch).setWidth 16

def inst_JB (code : BitVec 16) : Prog Unit := do
  let bit ← bitAddr code
  let jmpAddr ← rel8
  if ← get_bit bit then jumpEven jmpAddr

def inst_JBC (code : BitVec 16) : Prog Unit := do
  let bit ← bitAddr code
  let jmpAddr ← rel8
  if ← get_bit bit then jumpEven jmpAddr
  set_bit bit false

def inst_JNB (code : BitVec 16) : Prog Unit := do
  let bit ← bitAddr code
  let jmpAddr ← rel8
  if !(← get_bit bit) then jumpEven jmpAddr

def inst_JNZ : Prog Unit := do
  let saddr ← rel8
  if (← reg1 8) ≠ 0 then jumpEven saddr

def inst_JZ : Prog Unit := do
  let saddr ← rel8
  if (← reg1 8) = 0 then jumpBy saddr

def inst_JMP (code : BitVec 16) : Operands → Prog Unit
  | .REL16 => do jumpEven (2 * (← fetch2).toInt)
  | .IREG => do
    let page := (← get).PC % 0x1000000 / 0x10000 * 0x10000
    setPC (page + ((← reg2 (RI_07 code)) &&& 0xfffe).toNat)
  | _ => pure ()

/-! ## Calls and returns -/

/-- `get_scr()&1`. -/
def pageZero : Prog Bool := do return decide ((← get_scr) &&& 1 ≠ 0)

/-- PC goes onto the stack. `sp` is an `unsigned int`, and an address below 0 when it has become too large. -/
def pushPC : Prog Unit := do
  let page ← pageZero
  let PC := (← get).PC
  let sp : Int := (← get_sp).toNat - (if page then 2 else 4)
  set_sp (BitVec.ofInt 16 sp)
  store2 sp (BitVec.ofInt 16 PC)
  if !page then store2 (sp + 2) (BitVec.ofInt 16 (PC / 0x10000) &&& 0xff)

def inst_CALL (code : BitVec 16) : Operands → Prog Unit
  | .REL16 => do
    let jmpaddr := (← fetch2).toInt
    pushPC
    jumpEven (2 * jmpaddr)
  | .IREG => do
    pushPC
    jumpEven (2 * (← reg2 (RI_07 code)).toNat)
  | _ => pure ()

/-- The address at `sp` and the bytes behind it, for the larger pages. -/
def popPC (sp : BitVec 16) : Prog Unit := do
  let page ← pageZero
  let retaddr ← get2 sp.toNat
  if page then
    set_sp (sp + 2)
    setPC retaddr.toNat
  else
    let upper ← get2 (sp.toNat + 2)
    set_sp (sp + 4)
    setPC (BitVec.toInt (upper ++ retaddr))

def inst_RET : Prog Unit := do popPC (← get_sp)

/-- `inst_RETI`. -/
def inst_RETI : Prog Unit := do
  let page ← pageZero
  let sp ← get_sp
  set_word_direct PSW (get2 sp.toNat)
  let retaddr ← get2 (sp.toNat + 2)
  if page then
    set_sp (sp + 4)
    setPC retaddr.toNat
  else
    let upper ← get2 (sp.toNat + 4)
    set_sp (sp + 6)
    setPC (BitVec.toInt (upper ++ retaddr))

/-! ## Pushes and pops -/

/-- `((operands & 0x7) << 8) | fetch()`, with the number of `DIRECT` in place of the code. -/
def stackDirect : Prog (BitVec 16) := do return (Operands.DIRECT.number &&& 7) <<< 8 ||| (← fetch).setWidth 16

/-- `code & 0x4000`: the upper half of the registers. -/
def upperHalf (code : BitVec 16) : BitVec 16 := if code &&& 0x4000 ≠ 0 then 8 else 0

/-- The register of a bit in the list. -/
def listed (code : BitVec 16) (bit : Nat) : BitVec 16 := upperHalf code + BitVec.ofNat 16 bit

/-- A register is pushed, a byte with zeros above it. -/
def pushReg (code reg sp : BitVec 16) : Prog (BitVec 16) := do
  let sp := sp - 2
  if IsWord code then store2 sp.toNat (← reg2 reg) else store2 sp.toNat ((← reg1 reg).setWidth 16)
  return sp

/-- A register is popped. -/
def popReg (code reg sp : BitVec 16) : Prog (BitVec 16) := do
  if IsWord code then set_reg2 reg (get2 sp.toNat) else set_reg1 reg (← get1 sp.toNat)
  return sp + 2

/-- `if (rlist & ...)`: a register is pushed if its bit is set. -/
def pushBit (code : BitVec 16) (rlist : BitVec 8) (bit : Nat) (sp : BitVec 16) : Prog (BitVec 16) :=
  if rlist.getLsbD bit then pushReg code (listed code bit) sp else return sp

/-- A register is popped if its bit is set. -/
def popBit (code : BitVec 16) (rlist : BitVec 8) (bit : Nat) (sp : BitVec 16) : Prog (BitVec 16) :=
  if rlist.getLsbD bit then popReg code (listed code bit) sp else return sp

def pushList (code : BitVec 16) (rlist : BitVec 8) : List Nat → BitVec 16 → Prog (BitVec 16)
  | [], sp => return sp
  | bit :: bits, sp => do pushList code rlist bits (← pushBit code rlist bit sp)

def popList (code : BitVec 16) (rlist : BitVec 8) : List Nat → BitVec 16 → Prog (BitVec 16)
  | [], sp => return sp
  | bit :: bits, sp => do popList code rlist bits (← popBit code rlist bit sp)

/-- `inst_POP`. What `RLIST` makes of `sp` is not written back. -/
def inst_POP (code : BitVec 16) : Operands → Prog Unit
  | .DIRECT => do
    let sp ← get_sp
    let direct_addr ← stackDirect
    if IsWord code then set_word_direct direct_addr (get2 sp.toNat)
    else set_byte_direct direct_addr (low (← get2 sp.toNat))
    set_sp (sp + 2)
  | .RLIST => do
    let sp ← get_sp
    let rlist ← fetch
    let _ ← popList code rlist [0, 1, 2, 3, 4, 5, 6, 7] sp
  | _ => pure ()

def inst_PUSH (code : BitVec 16) : Operands → Prog Unit
  | .DIRECT => do
    let direct_addr ← stackDirect
    let sp := (← get_sp) - 2
    set_sp sp
    if IsWord code then store2 sp.toNat (← get_word_direct direct_addr)
    else store2 sp.toNat ((← get_byte_direct direct_addr).setWidth 16)
  | .RLIST => do
    let sp ← get_sp
    let rlist ← fetch
    set_sp (← pushList code rlist [7, 6, 5, 4, 3, 2, 1, 0] sp)
  | _ => pure ()

/-! ## Other instructions -/

/-- `(code&0x03 << 8) + fetch()`, in which the mask is shifted. -/
def bitAddrMasked (code : BitVec 16) : Prog (BitVec 16) := do return (code &&& 0x300) + (← fetch).setWidth 16

def inst_ANL (code : BitVec 16) (operands : Operands) : Prog Unit := do
  let bit ← bitAddrMasked code
  let flags ← get_psw
  if has flags BIT_C then
    match operands with
    | .CY_BIT => if !(← get_bit bit) then set_psw (flags &&& ~~~BIT_C)
    | .CY_NOTBIT => if ← get_bit bit then set_psw (flags &&& ~~~BIT_C)
    | _ => pure ()

def inst_CLR (code : BitVec 16) : Prog Unit := do set_bit (← bitAddrMasked code) false

def inst_SETB (code : BitVec 16) : Prog Unit := do set_bit (← bitAddrMasked code) true

/-- The byte that a shift moves and the flags after it. The `switch` compares `code & 0xc00` with 0 to 3. -/
def shift (count : Prog Nat) (code : BitVec 16) (move : Nat → BitVec 32 → BitVec 32) (carry : Nat → BitVec 32 → Bool) :
    Prog Unit := do
  let flags := (← get_psw) &&& ~~~BIT_ALL
  if code &&& 0xc00 = 0 then
    let cnt ← count
    let dst := (← reg1 (RI_F0 code)).setWidth 32
    set_reg1 (RI_F0 code) ((move cnt dst).setWidth 8)
    set_psw (orIf (move cnt dst &&& 0xff = 0) BIT_Z (orIf (carry cnt dst) BIT_C flags))
  else
    set_psw flags

/-- How far a shift moves. -/
def shiftBy (code : BitVec 16) : Operands → Prog Nat
  | .REG_REG => do return ((← reg1 (RI_0F code)) &&& 0x1f).toNat
  | operands => return (operands.number &&& 0xf).toNat

def inst_ASL (code : BitVec 16) (operands : Operands) : Prog Unit :=
  shift (shiftBy code operands) code (fun cnt dst => dst <<< cnt) fun cnt dst => (dst <<< cnt).getLsbD 8

/-- `inst_ASR`. The form with two registers also looks at the lowest bit. -/
def inst_ASR (code : BitVec 16) (operands : Operands) : Prog Unit :=
  shift (shiftBy code operands) code (fun cnt dst => dst >>> cnt) fun cnt dst =>
    (cnt ≠ 0 && dst.getLsbD (cnt - 1)) || (operands = .REG_REG && dst.getLsbD 0)

def inst_LEA (code : BitVec 16) : Operands → Prog Unit
  | .REG_REGOFF8 => do
    let offset := (← fetch).signExtend 16
    set_reg2 (RI_70 code) do return (← reg2 (RI_07 code)) + offset
  | .REG_REGOFF16 => do
    let offset ← fetch2
    set_reg2 (RI_70 code) do return (← reg2 (RI_07 code)) + offset
  | _ => pure ()

/-- A byte of the program goes to the accumulator. -/
def loadCode (addr : Int) : Prog Unit := do
  let flags ← get_psw
  let result ← getcode1 addr
  set_reg1 4 result
  set_psw (logicFlags (result = 0) (result &&& 0x80 ≠ 0) flags)

def inst_MOVC (code : BitVec 16) : Operands → Prog Unit
  | .REG_IREGINC => do
    let srcreg := (← reg2 (RI_07 code)).toInt
    if IsWord code then
      set_reg2 (RI_F0 code) do mov2.run (← reg2 (RI_F0 code)) (← getcode2 srcreg)
    else
      set_reg1 (RI_F0 code) (← mov1.run (← reg1 (RI_F0 code)) (← getcode1 srcreg))
    set_reg2 (RI_07 code) (return BitVec.ofInt 16 (srcreg + 1))
  | .A_APLUSDPTR => do
    -- the sum can carry into the page, with which it is joined by `|`
    let sum : Nat := (← reg1 4).toNat + (← reg2 6).toNat
    let page := ((← get).PC % 0x1000000 / 0x10000).toNat * 0x10000
    loadCode (page ||| sum : Nat)
  | .A_APLUSPC => do loadCode ((← get).PC + (← reg1 4).toNat)
  | _ => pure ()

def inst_SEXT (code : BitVec 16) : Prog Unit := do
  let neg := has (← get_psw) BIT_N
  if IsWord code then set_reg2 (RI_F0 code) (return if neg then 0xffff else 0)
  else set_reg1 (RI_F0 code) (if neg then 0xff else 0)

/-- `inst_TRAP`: `putchar` and `exit`. -/
def inst_TRAP (code : BitVec 16) : Prog Res := do
  if code &&& 0x0f = 0xe then
    let c ← reg1 0
    modify fun s => { s with out := s.out ++ [c] }
    return .go
  else if code &&& 0x0f = 0xf then return .exit
  else return .go

/-- `NOTDONE_ASSERT`. -/
def notDone : Prog Unit := pure ()

end Ucsim.Xa
