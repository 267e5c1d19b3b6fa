import Ucsim.Avr.Machine

/-!
# Arithmetic and logical instructions

`arith_inst.cc` and `logic_inst.cc`.
-/

namespace Ucsim.Avr

/-! ## Subtractions and comparisons -/

/-- `if (x & 0x80) x |= ~0xff`. -/
def signed (x : BitVec 16) : BitVec 16 := orIf (x &&& 0x80 ≠ 0) 0xff00 x

/-- The flags that are cleared before. -/
def BIT_SUB : BitVec 16 := BIT_H ||| BIT_S ||| BIT_V ||| BIT_N ||| BIT_C

/-- The flags after a subtraction. `zero` is what happens to Z. -/
def sub_flags (D R res : BitVec 16) (zero : BitVec 16 → BitVec 16) (sreg : BitVec 16) : BitVec 16 :=
  let sreg := orIf (0x08 &&& (~~~D &&& R ||| R &&& res ||| res &&& ~~~D) ≠ 0) BIT_H sreg
  let v : Bool := decide (0x80 &&& (D &&& ~~~R &&& ~~~res ||| ~~~D &&& R &&& res) ≠ 0)
  let sreg := orIf v BIT_V sreg
  let n : Bool := decide (res &&& 0x80 ≠ 0)
  let sreg := orIf n BIT_N sreg
  let sreg := orIf (n ^^ v) BIT_S sreg
  let sreg := zero sreg
  orIf (0x80 &&& (~~~D &&& R ||| R &&& res ||| res &&& ~~~D) ≠ 0) BIT_C sreg

/-- The result and the flags without a carry. -/
def sub_plain (D R sreg : BitVec 16) : BitVec 16 × BitVec 16 :=
  let res := (D - R) &&& 0xff
  (res, sub_flags D R res (orIf (res = 0) BIT_Z) (sreg &&& ~~~(BIT_SUB ||| BIT_Z)))

/-- With a carry. The condition of `?:` is the whole difference, and Z is never set. -/
def sub_carry (D R sreg : BitVec 16) : BitVec 16 × BitVec 16 :=
  let result : BitVec 16 := if D.setWidth 32 - R.setWidth 32 - (sreg &&& BIT_C).setWidth 32 ≠ 0 then 1 else 0
  let res := result &&& 0xff
  (res, sub_flags D R res (fun sreg => if res ≠ 0 then sreg &&& ~~~BIT_Z else sreg) (sreg &&& ~~~BIT_SUB))

/-- A comparison of two values. -/
def comparison (sub : BitVec 16 → BitVec 16 → BitVec 16 → BitVec 16 × BitVec 16) (d : BitVec 16) (right : Prog (BitVec 16)) :
    Prog Unit := do
  let R := signed (← right)
  let D := signed (← read d)
  let p := sub D R (← read SREG)
  write SREG p.2

/-- A subtraction whose result goes to the register. -/
def subtract (sub : BitVec 16 → BitVec 16 → BitVec 16 → BitVec 16 × BitVec 16) (d : BitVec 16)
    (right : Prog (BitVec 16)) : Prog Unit := do
  let R := signed (← right)
  let D := signed (← read d)
  let p := sub D R (← read SREG)
  write d p.1
  write SREG p.2

/-- `16+(code&0xf0)>>4`, in which the sum is shifted. -/
def dSum (code : BitVec 16) : BitVec 16 := (16 + (code &&& 0xf0)) >>> 4

/-- `(code&0xf) | ((code&0xf00)>>8)`. -/
def KShort (code : BitVec 16) : BitVec 16 := code &&& 0xf ||| bits code 0xf00 8

def cpi_Rd_K (code : BitVec 16) : Inst :=
  inst2 .reg .imm (dSum code) (KShort code) fun d K => comparison sub_plain d (return K)

def sbci_Rd_K (code : BitVec 16) : Inst :=
  inst2 .reg .imm (dSum code) (KShort code) fun d K => subtract sub_carry d (return K)

def subi_Rd_K (code : BitVec 16) : Inst :=
  inst2 .reg .imm (dSum code) (KShort code) fun d K => subtract sub_plain d (return K)

def cpc_Rd_Rr (code : BitVec 16) : Inst :=
  inst2 .reg .reg (d5 code) (r5 code) fun d r => comparison sub_carry d (read r)

def sbc_Rd_Rr (code : BitVec 16) : Inst :=
  inst2 .reg .reg (d5 code) (r5 code) fun d r => subtract sub_carry d (read r)

def cp_Rd_Rr (code : BitVec 16) : Inst :=
  inst2 .reg .reg (d5 code) (r5 code) fun d r => comparison sub_plain d (read r)

def sub_Rd_Rr (code : BitVec 16) : Inst :=
  inst2 .reg .reg (d5 code) (r5 code) fun d r => subtract sub_plain d (read r)

/-! ## Additions -/

/-- The flags after an addition. -/
def add_flags (D R result res sreg : BitVec 16) : BitVec 16 :=
  let sreg := putIf (res = 0) BIT_Z sreg
  let sreg := putIf ((D &&& R &&& ~~~res) &&& 0x80 ≠ 0 ∨ (~~~D &&& ~~~R &&& res) &&& 0x80 ≠ 0) (BIT_V ||| BIT_S) sreg
  let sreg := if res &&& 0x80 ≠ 0 then (sreg ||| BIT_N) ^^^ BIT_S else sreg &&& ~~~BIT_N
  let sreg := putIf (result &&& ~~~0xff ≠ 0) BIT_C sreg
  putIf (15 < (R &&& 0xf) + (D &&& 0xf)) BIT_H sreg

/-- The sum goes to the register. -/
def addTo (d r : BitVec 16) (carry : BitVec 16 → BitVec 16) : Prog Unit := do
  let R ← read r
  let D ← read d
  let sreg ← read SREG
  let result := D + R + carry sreg
  let res := result &&& 0xff
  write d res
  write SREG (add_flags D R result res sreg)

def add_Rd_Rr (code : BitVec 16) : Inst :=
  inst2 .reg .reg (d5 code) (r5 code) fun d r => addTo d r fun _ => 0

def adc_Rd_Rr (code : BitVec 16) : Inst :=
  inst2 .reg .reg (d5 code) (r5 code) fun d r => addTo d r fun sreg => if sreg &&& BIT_C ≠ 0 then 1 else 0

/-! ## Registers alone -/

/-- A register and `SREG` get new values. -/
def onReg (d : BitVec 16) (op : BitVec 16 → BitVec 16 → BitVec 16 × BitVec 16) : Prog Unit := do
  let D ← read d
  let p := op D (← read SREG)
  write d p.1
  write SREG p.2

def com_Rd (code : BitVec 16) : Inst := inst1 .reg (d5 code) fun d => onReg d fun D sreg =>
  let res := ~~~D &&& 0xff
  (res, putIf (res &&& 0x80 ≠ 0) (BIT_N ||| BIT_S) (putIf (res = 0) BIT_Z sreg &&& ~~~BIT_V) ||| BIT_C)

/-- `neg_Rd`. H depends on the number of the register. -/
def neg_Rd (code : BitVec 16) : Inst := inst1 .reg (d5 code) fun d => onReg d fun D sreg =>
  let res := (~~~D + 1) &&& 0xff
  let sreg := putIf (res &&& ~~~d &&& 0x08 ≠ 0) BIT_H sreg
  let sreg := putIf (0x80 < res) BIT_S sreg
  let sreg := if res = 0 then (sreg ||| BIT_Z) &&& ~~~BIT_C else sreg &&& ~~~BIT_Z ||| BIT_C
  let sreg := putIf (res = 0x80) BIT_V sreg
  (res, putIf (res &&& 0x80 ≠ 0) BIT_N sreg)

def inc_Rd (code : BitVec 16) : Inst := inst1 .reg (d5 code) fun d => onReg d fun D sreg =>
  let data := (D + 1) &&& 0xff
  let sreg :=
    if data &&& 0x80 ≠ 0 then
      let sreg := sreg ||| BIT_N
      let sreg := if data = 0x80 then (sreg ||| BIT_V) &&& ~~~BIT_S else sreg &&& ~~~BIT_V ||| BIT_S
      sreg &&& ~~~BIT_Z
    else putIf (data = 0) BIT_Z (sreg &&& ~~~(BIT_N ||| BIT_V ||| BIT_S))
  (D + 1, sreg)

/-- The flags after a shift to the right that moves `c` out. -/
def shift_flags (c : Bool) (res sreg : BitVec 16) : BitVec 16 :=
  let n : Bool := decide (res &&& 0x80 ≠ 0)
  let sreg := orIf n BIT_N sreg
  let v : Bool := n ^^ c
  let sreg := orIf v BIT_V sreg
  let sreg := orIf (n ^^ v) BIT_S sreg
  orIf (res = 0) BIT_Z sreg

/-- The flags of the shifts. -/
def BIT_SHIFT : BitVec 16 := BIT_S ||| BIT_V ||| BIT_N ||| BIT_Z ||| BIT_C

def asr_Rd (code : BitVec 16) : Inst := inst1 .reg (d5 code) fun d => onReg d fun D sreg =>
  let c : Bool := decide (D &&& 1 ≠ 0)
  let sreg := orIf c BIT_C (sreg &&& ~~~BIT_SHIFT)
  let res := orIf (D >>> 1 &&& 0x40 ≠ 0) 0x80 (D >>> 1) &&& 0xff
  (res, shift_flags c res sreg)

def lsr_Rd (code : BitVec 16) : Inst := inst1 .reg (d5 code) fun d => onReg d fun D sreg =>
  let sreg := orIf (D &&& 1 ≠ 0) (BIT_C ||| BIT_V ||| BIT_S) (sreg &&& ~~~BIT_SHIFT)
  let res := D >>> 1 &&& 0xff
  (res, orIf (res = 0) BIT_Z sreg)

/-- `ror_Rd`. The condition of `?:` has the shifted value in it. -/
def ror_Rd (code : BitVec 16) : Inst := inst1 .reg (d5 code) fun d => onReg d fun D sreg =>
  let c : Bool := decide (D &&& 1 ≠ 0)
  let res : BitVec 16 := (if D >>> 1 ||| sreg &&& BIT_C ≠ 0 then 0x80 else 0) &&& 0xff
  (res, shift_flags c res (orIf c BIT_C (sreg &&& ~~~BIT_SHIFT)))

def dec_Rd (code : BitVec 16) : Inst := inst1 .reg (d5 code) fun d => onReg d fun D sreg =>
  let res := (D - 1) &&& 0xff
  let sreg := putIf (res = 0) BIT_Z sreg
  let n : Bool := decide (res &&& 0x80 ≠ 0)
  let sreg := putIf n BIT_N sreg
  let v : Bool := decide (D = 0x80)
  let sreg := putIf v BIT_V sreg
  (res, putIf (n ^^ v) BIT_S sreg)

/-- `mul_Rd_Rr`. -/
def mul_Rd_Rr (code : BitVec 16) : Inst :=
  inst2 .reg .reg (code >>> 4 &&& 0x1f) (r5 code) fun d r => do
    let D ← read d
    let R ← read r
    let result := R * D
    let resh := result >>> 8 &&& 0xff
    write 0 (result &&& 0xff)
    write 1 resh
    let sreg ← read SREG
    write SREG (orIf (resh &&& 0x80 ≠ 0) BIT_C (sreg &&& ~~~BIT_C))
    tick 1

/-! ## Words -/

/-- `24+(2*((code&0x30)>>4))`. -/
def dl (code : BitVec 16) : BitVec 16 := 24 + 2 * (bits code 0x30 4)

/-- `((code&0xc0)>>2)|(code&0xf)`. -/
def K6 (code : BitVec 16) : BitVec 16 := bits code 0xc0 2 ||| code &&& 0xf

/-- `ram->read(dl+1)*256 + ram->read(dl)`. -/
def readWord (dl : BitVec 16) : Prog (BitVec 16) := do
  let h ← read (dl + 1)
  let l ← read dl
  return h * 256 + l

def writeWord (dl val : BitVec 16) : Prog Unit := do
  write (dl + 1) (val >>> 8 &&& 0xff)
  write dl (val &&& 0xff)

/-- The flags after `adiw`. -/
def adiw_flags (D res sreg : BitVec 16) : BitVec 16 :=
  let sreg := putIf (res = 0) BIT_Z sreg
  let sreg := putIf (D &&& res &&& 0x8000 ≠ 0) (BIT_V ||| BIT_S) sreg
  let sreg := if res &&& 0x8000 ≠ 0 then (sreg ||| BIT_N) ^^^ BIT_S else sreg &&& ~~~BIT_N
  putIf (~~~res &&& D &&& 0x8000 ≠ 0) BIT_C sreg

def adiw_Rdl_K (code : BitVec 16) : Inst := inst2 .reg .imm (dl code) (K6 code) fun d K => do
  let D ← readWord d
  let res := D + K
  writeWord d res
  write SREG (adiw_flags D res (← read SREG))
  tick 1

/-- The flags after `sbiw`. -/
def sbiw_flags (D res sreg : BitVec 16) : BitVec 16 :=
  let v : Bool := decide (0x8000 &&& D &&& ~~~res ≠ 0)
  let sreg := orIf v BIT_V (sreg &&& ~~~BIT_SHIFT)
  let n : Bool := decide (res &&& 0x8000 ≠ 0)
  let sreg := orIf n BIT_N sreg
  let sreg := orIf (n ^^ v) BIT_S sreg
  let sreg := orIf (res = 0) BIT_Z sreg
  orIf (0x8000 &&& res &&& ~~~D ≠ 0) BIT_C sreg

/-- `if (K & 0x20) K |= ~0x3f`. -/
def signed6 (K : BitVec 16) : BitVec 16 := orIf (K &&& 0x20 ≠ 0) 0xffc0 K

def sbiw_Rdl_K (code : BitVec 16) : Inst := inst2 .reg .imm (dl code) (signed6 (K6 code)) fun d K => do
  let D ← readWord d
  let res := D - K
  writeWord d res
  write SREG (sbiw_flags D res (← read SREG))
  tick 1

/-! ## Logic -/

/-- `set_zn0s`. -/
def set_zn0s (data : BitVec 16) : Prog Unit := do
  let sreg := (← read SREG) &&& ~~~BIT_V
  let sreg := putIf (data &&& 0xff = 0) BIT_Z sreg
  write SREG (putIf (data &&& 0xff &&& 0x80 ≠ 0) (BIT_N ||| BIT_S) sreg)

/-- A register gets the data, and the flags tell about it. -/
def logic (d data : BitVec 16) : Prog Unit := do
  write d data
  set_zn0s data

/-- `((code&0xf00)>>4)|(code&0xf)`. -/
def K8 (code : BitVec 16) : BitVec 16 := bits code 0xf00 4 ||| code &&& 0xf

/-- `(code&0xf0)>>4`. -/
def d4 (code : BitVec 16) : BitVec 16 := bits code 0xf0 4

/-- `ori_Rd_K`. It reads one register and writes another. -/
def ori_Rd_K (code : BitVec 16) : Inst := inst [.reg (d4 code), .reg (d4 code + 16), .imm (K8 code)] do
  logic (d4 code + 16) (K8 code ||| (← read (d4 code)))

def andi_Rd_K (code : BitVec 16) : Inst := inst [.reg (d4 code), .reg (d4 code + 16), .imm (K8 code)] do
  logic (d4 code + 16) (K8 code &&& (← read (d4 code)))

def and_Rd_Rr (code : BitVec 16) : Inst := inst2 .reg .reg (d5 code) (r5 code) fun d r => do
  logic d ((← read d) &&& (← read r))

def eor_Rd_Rr (code : BitVec 16) : Inst := inst2 .reg .reg (d5 code) (r5 code) fun d r => do
  logic d ((← read d) ^^^ (← read r))

def or_Rd_Rr (code : BitVec 16) : Inst := inst2 .reg .reg (d5 code) (r5 code) fun d r => do
  logic d ((← read d) ||| (← read r))

end Ucsim.Avr
