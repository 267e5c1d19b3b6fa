import Ucsim.Hc08.Machine

/-!
# The instructions of the HC08

The bodies of `inst.cc`, with the opcode and whether it stands behind 0x9E. An `int` that holds a result is modelled
by its lowest 32 bits.
-/

namespace Ucsim.Hc08

/-! ## Shapes of instructions -/

/-- A body that ends with `resGO`. -/
def go (body : Prog Unit) : Prog Res := do
  body
  return .go

/-- An instruction with an operand that changes registers. -/
def operation (f : BitVec 8 → Regs → Regs) (code : BitVec 8) (pre : Bool) : Prog Res := go do
  let m ← operand code pre
  onRegs (f m)

/-- An instruction that stores a register. -/
def storing (f : Regs → BitVec 8) (code : BitVec 8) (pre : Bool) : Prog Res := go do
  let ea ← fetchea code pre
  onRegs fun r => (r.FLAG_CLEAR BIT_V).FLAG_NZ (f r)
  store1 ea (← reg f)

/-- The operand of an instruction for A, X or a byte in memory, with its address. -/
def place (code : BitVec 8) (pre : Bool) : Prog (Int × BitVec 8) :=
  if code &&& 0xf0 = 0x40 then do return (0xffff, ← reg Regs.A)
  else if code &&& 0xf0 = 0x50 then do return (0xffff, ← reg Regs.X)
  else do
    let ea ← fetchea code pre
    return (ea, ← get1 ea)

/-- The operand gets a value. -/
def putPlace (code : BitVec 8) (ea : Int) (val : BitVec 8) : Prog Unit :=
  if code &&& 0xf0 = 0x40 then onRegs fun r => { r with A := val }
  else if code &&& 0xf0 = 0x50 then onRegs fun r => { r with X := val }
  else store1 ea val

/-- An instruction that changes its operand and flags. -/
def updating (f : BitVec 8 → Regs → BitVec 8 × Regs) (code : BitVec 8) (pre : Bool) : Prog Res := go do
  let (ea, m) ← place code pre
  let val ← reg fun r => (f m r).1
  onRegs fun r => (f m r).2
  putPlace code ea val

/-- An instruction without an operand that changes registers. -/
def inherent (f : Regs → Regs) : Prog Res := go (onRegs f)

/-! ## Registers and flags -/

def inst_nop (_ : BitVec 8) (_ : Bool) : Prog Res := return .go

def inst_transfer (code : BitVec 8) (_ : Bool) : Prog Res :=
  match code with
  | 0x84 => inherent fun r => { r with P := r.A ||| 0x60 }
  | 0x85 => inherent fun r => { r with A := r.P ||| 0x60 }
  | 0x97 => inherent fun r => { r with X := r.A }
  | 0x9f => inherent fun r => { r with A := r.X }
  | 0x94 => inherent fun r => { r with SP := r.hx - 1 }
  | 0x95 => inherent fun r => r.setHx (r.SP + 1)
  | _ => return .halt

def inst_setclearflags (code : BitVec 8) (_ : Bool) : Prog Res :=
  match code with
  | 0x98 => inherent (Regs.FLAG_CLEAR BIT_C)
  | 0x99 => inherent (Regs.FLAG_SET BIT_C)
  | 0x9a => inherent (Regs.FLAG_CLEAR BIT_I)
  | 0x9b => inherent (Regs.FLAG_SET BIT_I)
  | _ => return .halt

def inst_rsp (_ : BitVec 8) (_ : Bool) : Prog Res := inherent fun r => { r with SP := 0x00ff }

def inst_nsa (_ : BitVec 8) (_ : Bool) : Prog Res :=
  inherent fun r => { r with A := (r.A &&& 0xf0) >>> 4 ||| (r.A &&& 0x0f) <<< 4 }

def inst_ais (_ : BitVec 8) (_ : Bool) : Prog Res := go do
  let ofs ← fetch
  moveSP (ofs.signExtend 16)

def inst_aix (_ : BitVec 8) (_ : Bool) : Prog Res := go do
  let ofs ← fetch
  onRegs fun r => r.setHx (r.hx + ofs.signExtend 16)

def inst_clrh (_ : BitVec 8) (_ : Bool) : Prog Res :=
  inherent fun r => { ((r.FLAG_CLEAR BIT_V).FLAG_CLEAR BIT_N).FLAG_SET BIT_Z with H := 0 }

def inst_stop (_ : BitVec 8) (_ : Bool) : Prog Res := inherent (Regs.FLAG_CLEAR BIT_I)

def inst_wait (_ : BitVec 8) (_ : Bool) : Prog Res := inherent (Regs.FLAG_CLEAR BIT_I)

/-- The adjusted digits are not put into A. -/
def inst_daa (_ : BitVec 8) (_ : Bool) : Prog Res := inherent fun r =>
  let lsn := (r.A &&& 0xf).toNat + if r.has BIT_H then 16 else 0
  let msn := ((if r.has BIT_H then r.A >>> 4 - 1 else r.A >>> 4) &&& 0xf).toNat + if r.has BIT_C then 16 else 0
  -- the loop takes a ten off `lsn` while there is one
  let msn := msn + lsn / 10
  if msn > 9 then (r.FLAG_CLEAR BIT_C).FLAG_SET BIT_C else r.FLAG_CLEAR BIT_C

def inst_mul (_ : BitVec 8) (_ : Bool) : Prog Res := inherent fun r =>
  let result := r.A.setWidth 16 * r.X.setWidth 16
  ({ r with A := result.extractLsb' 0 8, X := result.extractLsb' 8 8 }.FLAG_CLEAR BIT_C).FLAG_CLEAR BIT_H

def inst_div (_ : BitVec 8) (_ : Bool) : Prog Res := inherent fun r =>
  let dividend := (r.H ++ r.A).toNat
  if r.X ≠ 0 then
    let quotient := dividend / r.X.toNat
    if quotient ≤ 0xff then
      ({ r with A := BitVec.ofNat 8 quotient, H := BitVec.ofNat 8 (dividend % r.X.toNat) }.FLAG_CLEAR BIT_C).FLAG_ASSIGN
        BIT_Z (quotient = 0)
    else r.FLAG_SET BIT_C
  else r.FLAG_SET BIT_C

/-! ## Arithmetic and logic -/

def inst_lda : BitVec 8 → Bool → Prog Res := operation fun m r => ({ r with A := m }.FLAG_CLEAR BIT_V).FLAG_NZ m

def inst_ldx : BitVec 8 → Bool → Prog Res := operation fun m r => ({ r with X := m }.FLAG_CLEAR BIT_V).FLAG_NZ m

def inst_sta : BitVec 8 → Bool → Prog Res := storing Regs.A

def inst_stx : BitVec 8 → Bool → Prog Res := storing Regs.X

/-- An operand as an `int`. -/
def int (v : BitVec 8) : BitVec 32 := v.setWidth 32

/-- `FLAG_NZ(result)`, `FLAG_ASSIGN(BIT_V, ..)` and `FLAG_ASSIGN(BIT_C, ..)` of additions and subtractions. -/
def resultFlags (operand1 operand2 : BitVec 8) (result : BitVec 32) (r : Regs) : Regs :=
  ((r.FLAG_NZ (result.setWidth 8)).FLAG_ASSIGN BIT_V
    (0x80 &&& (int operand1 ^^^ int operand2 ^^^ result ^^^ result.sshiftRight 1) ≠ 0)).FLAG_ASSIGN BIT_C
      (0x100 &&& result ≠ 0)

/-- `FLAG_ASSIGN(BIT_H, ..)` of additions. -/
def halfFlag (operand1 operand2 : BitVec 8) (result : BitVec 32) (r : Regs) : Regs :=
  r.FLAG_ASSIGN BIT_H (0x10 &&& (int operand1 ^^^ int operand2 ^^^ result) ≠ 0)

/-- `(regs.P & BIT_C)!=0`. -/
def Regs.carryin (r : Regs) : BitVec 32 := if r.has BIT_C then 1 else 0

def inst_add : BitVec 8 → Bool → Prog Res := operation fun m r =>
  let result := int r.A + int m
  { halfFlag r.A m result (resultFlags r.A m result r) with A := result.setWidth 8 }

def inst_adc : BitVec 8 → Bool → Prog Res := operation fun m r =>
  let result := int r.A + int m + r.carryin
  { halfFlag r.A m result (resultFlags r.A m result r) with A := result.setWidth 8 }

def inst_sub : BitVec 8 → Bool → Prog Res := operation fun m r =>
  let result := int r.A - int m
  { resultFlags r.A m result r with A := result.setWidth 8 }

def inst_sbc : BitVec 8 → Bool → Prog Res := operation fun m r =>
  let result := int r.A - int m - r.carryin
  { resultFlags r.A m result r with A := result.setWidth 8 }

def inst_cmp : BitVec 8 → Bool → Prog Res := operation fun m r => resultFlags r.A m (int r.A - int m) r

def inst_cpx : BitVec 8 → Bool → Prog Res := operation fun m r => resultFlags r.X m (int r.X - int m) r

def inst_and : BitVec 8 → Bool → Prog Res := operation fun m r =>
  ({ r with A := r.A &&& m }.FLAG_CLEAR BIT_V).FLAG_NZ (r.A &&& m)

def inst_bit : BitVec 8 → Bool → Prog Res := operation fun m r => (r.FLAG_CLEAR BIT_V).FLAG_NZ (r.A &&& m)

def inst_ora : BitVec 8 → Bool → Prog Res := operation fun m r =>
  ({ r with A := r.A ||| m }.FLAG_CLEAR BIT_V).FLAG_NZ (r.A ||| m)

def inst_eor : BitVec 8 → Bool → Prog Res := operation fun m r =>
  ({ r with A := r.A ^^^ m }.FLAG_CLEAR BIT_V).FLAG_NZ (r.A ^^^ m)

/-! ## Changing an operand -/

/-- The flags of a shift: the bit that is shifted out, the result, and V from C and N. -/
def shiftFlags (out : Bool) (result : BitVec 8) (r : Regs) : Regs :=
  let r := (r.FLAG_ASSIGN BIT_C out).FLAG_NZ result
  r.FLAG_ASSIGN BIT_V (r.has BIT_C ^^ r.has BIT_N)

/-- A shift. -/
def shifting (out : BitVec 8 → Bool) (result : BitVec 8 → Regs → BitVec 8) : BitVec 8 → Bool → Prog Res :=
  updating fun m r => (result m r, shiftFlags (out m) (result m r) r)

def inst_asr : BitVec 8 → Bool → Prog Res := shifting (fun m => m &&& 1 ≠ 0) fun m _ => m >>> 1 ||| m &&& 0x80

def inst_lsr : BitVec 8 → Bool → Prog Res := shifting (fun m => m &&& 1 ≠ 0) fun m _ => m >>> 1 &&& 0x7f

def inst_lsl : BitVec 8 → Bool → Prog Res := shifting (fun m => m &&& 0x80 ≠ 0) fun m _ => m <<< 1

def inst_rol : BitVec 8 → Bool → Prog Res :=
  shifting (fun m => m &&& 0x80 ≠ 0) fun m r => m <<< 1 ||| if r.has BIT_C then 1 else 0

def inst_ror : BitVec 8 → Bool → Prog Res :=
  shifting (fun m => m &&& 1 ≠ 0) fun m r => m >>> 1 ||| if r.has BIT_C then 0x80 else 0

def inst_inc : BitVec 8 → Bool → Prog Res :=
  updating fun m r => (m + 1, (r.FLAG_NZ (m + 1)).FLAG_ASSIGN BIT_V (m + 1 = 0x80))

def decFlags (m : BitVec 8) (r : Regs) : Regs := (r.FLAG_NZ (m - 1)).FLAG_ASSIGN BIT_V (m - 1 = 0x7f)

def inst_dec : BitVec 8 → Bool → Prog Res := updating fun m r => (m - 1, decFlags m r)

def inst_com : BitVec 8 → Bool → Prog Res :=
  updating fun m r => (~~~m, ((r.FLAG_SET BIT_C).FLAG_NZ (~~~m)).FLAG_CLEAR BIT_V)

def inst_neg : BitVec 8 → Bool → Prog Res :=
  updating fun m r => (-m, ((r.FLAG_ASSIGN BIT_V (m = 0x80)).FLAG_ASSIGN BIT_C (m ≠ 0)).FLAG_NZ (-m))

def inst_tst (code : BitVec 8) (pre : Bool) : Prog Res := go do
  let (_, m) ← place code pre
  onRegs fun r => (r.FLAG_NZ m).FLAG_CLEAR BIT_V

def inst_clr (code : BitVec 8) (pre : Bool) : Prog Res := go do
  onRegs fun r => ((r.FLAG_CLEAR BIT_V).FLAG_CLEAR BIT_N).FLAG_SET BIT_Z
  if code &&& 0xf0 = 0x40 then onRegs fun r => { r with A := 0 }
  else if code &&& 0xf0 = 0x50 then onRegs fun r => { r with X := 0 }
  else store1 (← fetchea code pre) 0

def inst_bitsetclear (code : BitVec 8) (pre : Bool) : Prog Res := go do
  let bit := (code >>> 1 &&& 7).toNat
  let ea ← fetchea code pre
  let m ← get1 ea
  if code &&& 1 ≠ 0 then store1 ea (m &&& ~~~(1#8 <<< bit)) else store1 ea (m ||| 1#8 <<< bit)

/-! ## Jumps and branches -/

def inst_jmp (code : BitVec 8) (pre : Bool) : Prog Res := go do setPC (← fetchea code pre)

def inst_jsr (code : BitVec 8) (pre : Bool) : Prog Res := go do
  let newPC ← fetchea code pre
  pushPC
  setPC newPC

def inst_bsr (_ : BitVec 8) (_ : Bool) : Prog Res := go do
  let ofs ← fetch
  pushPC
  branchIf true ofs

/-- `taken` of the conditional branches, before the odd opcodes negate it. The case of BIL runs into the default. -/
def condition (code : BitVec 8) (r : Regs) : Option Bool :=
  if code &&& 0xf0 = 0x20 then
    match (code >>> 1 &&& 7).toNat with
    | 0 => some true
    | 1 => some (r.has BIT_C || !r.has BIT_Z)
    | 2 => some !r.has BIT_C
    | 3 => some !r.has BIT_Z
    | 4 => some !r.has BIT_H
    | 5 => some !r.has BIT_N
    | 6 => some !r.has BIT_I
    | _ => none
  else if code &&& 0xf0 = 0x90 then
    match (code >>> 1 &&& 7).toNat with
    | 0 => some !(r.has BIT_N ^^ r.has BIT_V)
    | 1 => some (!(r.has BIT_N ^^ r.has BIT_V) || r.has BIT_Z)
    | _ => none
  else none

/-- Whether a conditional branch is taken. -/
def taken (code : BitVec 8) (r : Regs) : Option Bool :=
  (condition code r).map fun c => if code &&& 1 ≠ 0 then !c else c

def inst_condbranch (code : BitVec 8) (_ : Bool) : Prog Res := do
  match ← reg (taken code) with
  | none => return .halt
  | some taken => go do branchIf taken (← fetch)

theorem inst_condbranch_run (code : BitVec 8) (pre : Bool) (s : Machine) :
    (inst_condbranch code pre).run s = (match taken code s.regs with
      | none => return .halt
      | some taken => go do branchIf taken (← fetch) : Prog Res).run s := rfl

def inst_dbnz (code : BitVec 8) (pre : Bool) : Prog Res := go do
  let (ea, m) ← place code pre
  onRegs (decFlags m)
  putPlace code ea (m - 1)
  branchIf (m - 1 ≠ 0) (← fetch)

def inst_bittestsetclear (code : BitVec 8) (pre : Bool) : Prog Res := go do
  let bit := (code >>> 1 &&& 7).toNat
  let ea ← fetchea code pre
  let m ← get1 ea
  let ofs ← fetch
  branchIf (if code &&& 1 ≠ 0 then m &&& 1#8 <<< bit ≠ 0 else m &&& 1#8 <<< bit = 0) ofs
  onRegs (Regs.FLAG_ASSIGN BIT_C (m &&& 1#8 <<< bit ≠ 0))

/-- `incx`. -/
def incx : Prog Unit := onRegs fun r => r.setHx (r.hx + 1)

/-- The two operands of `inst_cbeq`. -/
def cbeqOperands (code : BitVec 8) (pre : Bool) : Prog (BitVec 8 × BitVec 8) :=
  if code &&& 0xf0 = 0x40 then do return (← reg Regs.A, ← fetch)
  else if code &&& 0xf0 = 0x50 then do return (← reg Regs.X, ← fetch)
  else do return (← get1 (← fetchea code pre), ← reg Regs.A)

def inst_cbeq (code : BitVec 8) (pre : Bool) : Prog Res := go do
  let (operand1, operand2) ← cbeqOperands code pre
  branchIf (operand1 = operand2) (← fetch)
  if code = 0x71 then incx

/-! ## The stack -/

/-- A register is pushed. -/
def pushReg (f : Regs → BitVec 8) : Prog Unit := do push1 (← reg f)

def inst_pushpull (code : BitVec 8) (_ : Bool) : Prog Res :=
  match code with
  | 0x86 => go (pop1 Regs.putA)
  | 0x87 => go (pushReg Regs.A)
  | 0x88 => go (pop1 Regs.putX)
  | 0x89 => go (pushReg Regs.X)
  | 0x8a => go (pop1 Regs.putH)
  | 0x8b => go (pushReg Regs.H)
  | _ => return .halt

/-- The registers that `inst_rti` takes. -/
def popRegs : Prog Unit := do
  pop1 Regs.putP
  onRegs fun r => { r with P := r.P ||| 0x60 }
  pop1 Regs.putA
  pop1 Regs.putX

def inst_rti (_ : BitVec 8) (_ : Bool) : Prog Res := go do
  popRegs
  setPC (← pop2).toNat

def inst_rts (_ : BitVec 8) (_ : Bool) : Prog Res := go do setPC (← pop2).toNat

/-- The registers that `inst_swi` saves. -/
def pushRegs : Prog Unit := do
  pushReg Regs.X
  pushReg Regs.A
  pushReg Regs.P

def inst_swi (_ : BitVec 8) (_ : Bool) : Prog Res := go do
  pushPC
  pushRegs
  onRegs (Regs.FLAG_CLEAR BIT_I)
  setPC (← get2 0xfffc).toNat

/-! ## Moves and words -/

def movFlags (m : BitVec 8) (r : Regs) : Regs := (r.FLAG_NZ m).FLAG_CLEAR BIT_V

def inst_mov (code : BitVec 8) (_ : Bool) : Prog Res :=
  match code with
  | 0x4e => go do
    let m ← get1 (← fetch).toNat
    let ea ← fetch
    store1 ea.toNat m
    onRegs (movFlags m)
  | 0x5e => go do
    let m ← get1 (← fetch).toNat
    store1 (← reg Regs.hx).toNat m
    incx
    onRegs (movFlags m)
  | 0x6e => go do
    let m ← fetch
    let ea ← fetch
    store1 ea.toNat m
    onRegs (movFlags m)
  | 0x7e => go do
    let m ← get1 (← reg Regs.hx).toNat
    let ea ← fetch
    store1 ea.toNat m
    incx
    onRegs (movFlags m)
  | _ => return .halt

/-- The flags of `inst_sthx` and `inst_ldhx`. -/
def hxFlags (r : Regs) : Regs :=
  ((r.FLAG_CLEAR BIT_V).FLAG_ASSIGN BIT_N (r.H &&& 0x80 ≠ 0)).FLAG_ASSIGN BIT_Z (r.X = 0 ∧ r.H = 0)

def inst_sthx (_ : BitVec 8) (_ : Bool) : Prog Res := go do
  let ea ← fetch
  store1 ea.toNat (← reg Regs.H)
  store1 ((ea.toNat + 1) % 0x10000 : Nat) (← reg Regs.X)
  onRegs hxFlags

def inst_ldhx (code : BitVec 8) (_ : Bool) : Prog Res :=
  if code = 0x45 then go do
    let h ← fetch
    let x ← fetch
    onRegs fun r => hxFlags { r with H := h, X := x }
  else if code = 0x55 then go do
    let ea ← fetch
    let h ← get1 ea.toNat
    let x ← get1 (ea.toNat + 1)
    onRegs fun r => hxFlags { r with H := h, X := x }
  else return .halt

/-- The flags of `inst_cphx`. -/
def cphxFlags (m : BitVec 16) (r : Regs) : Regs :=
  let hx := r.hx.setWidth 32
  let operand := m.setWidth 32
  let result := hx - operand
  (((r.FLAG_ASSIGN BIT_V (0x8000 &&& (hx ^^^ operand ^^^ result ^^^ result.sshiftRight 1) ≠ 0)).FLAG_ASSIGN BIT_C
    (0x10000 &&& result ≠ 0)).FLAG_ASSIGN BIT_N (result &&& 0x8000 ≠ 0)).FLAG_ASSIGN BIT_Z (result &&& 0xffff = 0)

def inst_cphx (code : BitVec 8) (_ : Bool) : Prog Res :=
  if code = 0x65 then go do
    let m ← fetch2
    onRegs (cphxFlags m)
  else if code = 0x75 then go do
    let ea ← fetch
    let h ← get1 ea.toNat
    let l ← get1 (ea.toNat + 1)
    onRegs (cphxFlags (h ++ l))
  else return .halt

end Ucsim.Hc08
