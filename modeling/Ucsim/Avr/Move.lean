import Ucsim.Avr.Arith

/-!
# Data transfer and bits

`move_inst.cc`, `bit_inst.cc` and `inst.cc`.
-/

namespace Ucsim.Avr

/-! ## Bits of `SREG` -/

def set_bits (bits : BitVec 16) : Inst := inst [] do write SREG (bits ||| (← read SREG))

def clear_bits (bits : BitVec 16) : Inst := inst [] do write SREG (~~~bits &&& (← read SREG))

def sec (_ : BitVec 16) : Inst := set_bits BIT_C

def sen (_ : BitVec 16) : Inst := set_bits BIT_N

def sez (_ : BitVec 16) : Inst := set_bits BIT_Z

def sei (_ : BitVec 16) : Inst := set_bits BIT_I

def ses (_ : BitVec 16) : Inst := set_bits BIT_S

def sev (_ : BitVec 16) : Inst := set_bits BIT_V

def set (_ : BitVec 16) : Inst := set_bits BIT_T

def seh (_ : BitVec 16) : Inst := set_bits BIT_H

def clc (_ : BitVec 16) : Inst := clear_bits BIT_C

def cln (_ : BitVec 16) : Inst := clear_bits BIT_N

def clz (_ : BitVec 16) : Inst := clear_bits BIT_Z

def cli (_ : BitVec 16) : Inst := clear_bits BIT_I

def cls (_ : BitVec 16) : Inst := clear_bits BIT_S

def clv (_ : BitVec 16) : Inst := clear_bits BIT_V

def clt (_ : BitVec 16) : Inst := clear_bits BIT_T

def clh (_ : BitVec 16) : Inst := clear_bits BIT_H

/-! ## Bits of other cells -/

/-- `(code&0xf8)>>3`. -/
def P5 (code : BitVec 16) : BitVec 16 := bits code 0xf8 3

/-- `code&7`. -/
def b3 (code : BitVec 16) : BitVec 16 := code &&& 7

/-- `1 << b`. -/
def maskOf (b : BitVec 16) : BitVec 16 := (1 : BitVec 16) <<< b.toNat

def cbi_A_b (code : BitVec 16) : Inst := inst2 .io .bit (P5 code) (b3 code) fun P b => do
  write (P + 0x20) (~~~maskOf b &&& (← read (P + 0x20)))
  tick 1

def sbi_A_b (code : BitVec 16) : Inst := inst2 .io .bit (P5 code) (b3 code) fun P b => do
  write (P + 0x20) (maskOf b ||| (← read (P + 0x20)))
  tick 1

def bld_Rd_b (code : BitVec 16) : Inst := inst2 .reg .bit (d5 code) (b3 code) fun d b => do
  let sreg ← read SREG
  let data ← read d
  write d (if sreg &&& BIT_T ≠ 0 then data ||| maskOf b else data &&& ~~~maskOf b)

def bst_Rd_b (code : BitVec 16) : Inst := inst2 .reg .bit (d5 code) (b3 code) fun d b => do
  let data ← read d
  write SREG (putIf (data &&& maskOf b ≠ 0) BIT_T (← read SREG))

/-! ## Data transfer -/

/-- `lpm`. The address counts words. -/
def lpm (_ : BitVec 16) : Inst := inst [] do
  let addr := (← read ZH) * 256 + (← read ZL)
  let data := (← get).romAt addr.toNat
  write 0 (if addr &&& 1 ≠ 0 then data >>> 8 &&& 0xff else data &&& 0xff)
  tick 2

def ldi_Rd_K (code : BitVec 16) : Inst := inst2 .reg .imm (d4 code + 16) (K8 code) fun d K => do
  write d K

/-- `((code&0x2000)>>8)|((code&0xc00)>>7)|(code&0x7)`. -/
def q6 (code : BitVec 16) : BitVec 16 := bits code 0x2000 8 ||| bits code 0xc00 7 ||| code &&& 0x7

/-- An index register in two cells. -/
def index (l h : BitVec 16) : Prog (BitVec 16) := do return (← read h) * 256 + (← read l)

/-- The index register counts up. -/
def index_up (l h : BitVec 16) : Prog Unit := do
  let data := ((← read l) + 1) &&& 0xff
  write l data
  if data = 0 then write h (((← read h) + 1) &&& 0xff)

/-- The index register counts down, and its new value is the address. -/
def index_down (l h : BitVec 16) : Prog (BitVec 16) := do
  let z := ((← read l) - 1) &&& 0xff
  write l z
  if z = 0xff then write h (((← read h) - 1) &&& 0xff)
  return (← read h) * 256 + z

def ldd (l h code : BitVec 16) : Inst := inst2 .reg .disp (d5 code) (q6 code) fun d q => do
  let y ← index l h
  let data ← readFar (y.toNat + q.toNat)
  write d data
  tick 1

def ldd_Rd_Z_q : BitVec 16 → Inst := ldd ZL ZH

def ldd_Rd_Y_q : BitVec 16 → Inst := ldd YL YH

/-- Beyond the last address a store ends the program. -/
def std (l h code : BitVec 16) : Inst where
  run := do
    let y ← index l h
    let data ← read (d5 code)
    if y.toNat + (q6 code).toNat < 0x10000 then
      write (y + q6 code) data
      tick 1
      return .go
    else return .abort
  uses _ _ := [.disp (q6 code), .reg (d5 code)]

def std_Z_q_Rr : BitVec 16 → Inst := std ZL ZH

def std_Y_q_Rr : BitVec 16 → Inst := std YL YH

def lds_Rd_k (code : BitVec 16) : Inst where
  run := do
    let k ← fetch
    let data ← read k
    write (d5 code) data
    tick 2
    return .go
  uses _ second := [.reg (d5 code), .data second]

def sts_k_Rr (code : BitVec 16) : Inst where
  run := do
    let k ← fetch
    let data ← read (d5 code)
    write k data
    tick 2
    return .go
  uses _ second := [.data second, .reg (d5 code)]

/-- `LD Rd,X`. -/
def ld (l h code : BitVec 16) : Inst := inst1 .reg (d5 code) fun d => do
  let data ← read (← index l h)
  write d data
  tick 1

/-- `LD Rd,X+`. -/
def ld_up (l h code : BitVec 16) : Inst := inst1 .reg (d5 code) fun d => do
  let data ← read (← index l h)
  write d data
  index_up l h
  tick 1

/-- `LD Rd,-X`. -/
def ld_down (l h code : BitVec 16) : Inst := inst1 .reg (d5 code) fun d => do
  let data ← read (← index_down l h)
  write d data
  tick 1

def ld_Rd_X : BitVec 16 → Inst := ld XL XH

def ld_Rd_XS : BitVec 16 → Inst := ld_up XL XH

def ld_Rd_SX : BitVec 16 → Inst := ld_down XL XH

def ld_Rd_YS : BitVec 16 → Inst := ld_up YL YH

def ld_Rd_SY : BitVec 16 → Inst := ld_down YL YH

def ld_Rd_ZS : BitVec 16 → Inst := ld_up ZL ZH

def ld_Rd_SZ : BitVec 16 → Inst := ld_down ZL ZH

/-- `ST X,Rr`. -/
def st (l h code : BitVec 16) : Inst := inst1 .reg (d5 code) fun r => do
  let x ← index l h
  write x (← read r)
  tick 1

/-- `ST X+,Rr`. -/
def st_up (l h code : BitVec 16) : Inst := inst1 .reg (d5 code) fun r => do
  let x ← index l h
  write x (← read r)
  index_up l h
  tick 1

/-- `ST -X,Rr`. -/
def st_down (l h code : BitVec 16) : Inst := inst1 .reg (d5 code) fun r => do
  let x ← index_down l h
  write x (← read r)
  tick 1

def st_X_Rr : BitVec 16 → Inst := st XL XH

def st_XS_Rr : BitVec 16 → Inst := st_up XL XH

def st_SX_Rr : BitVec 16 → Inst := st_down XL XH

def st_YS_Rr : BitVec 16 → Inst := st_up YL YH

def st_SY_Rr : BitVec 16 → Inst := st_down YL YH

def st_ZS_Rr : BitVec 16 → Inst := st_up ZL ZH

def st_SZ_Rr : BitVec 16 → Inst := st_down ZL ZH

def pop_Rd (code : BitVec 16) : Inst := inst1 .reg (d5 code) fun d => do
  let D ← pop_data
  write d D
  tick 1

def push_Rr (code : BitVec 16) : Inst := inst1 .reg (d5 code) fun r => do
  let D ← read r
  push_data D
  tick 1

def swap_Rd (code : BitVec 16) : Inst := inst1 .reg (d5 code) fun d => do
  let data ← read d
  write d (data <<< 4 ||| data >>> 4 &&& 0xf)

/-- `((code&0x600)>>5)|(code&0xf)`. -/
def P6 (code : BitVec 16) : BitVec 16 := bits code 0x600 5 ||| code &&& 0xf

def in_Rd_A (code : BitVec 16) : Inst := inst2 .reg .io (d5 code) (P6 code) fun d P => do
  let data ← read (P + 0x20)
  write d data

def out_A_Rr (code : BitVec 16) : Inst := inst2 .io .reg (P6 code) (d5 code) fun P r => do
  let data ← read r
  write (P + 0x20) data

def mov_Rd_Rr (code : BitVec 16) : Inst := inst2 .reg .reg (d5 code) (r5 code) fun d r => do
  let data ← read r
  write d data

/-! ## Control of the processor -/

def nop (_ : BitVec 16) : Inst := inst [] (pure ())

def sleep (_ : BitVec 16) : Inst := inst [] (modify fun s => { s with sleep_executed := true })

def wdr (_ : BitVec 16) : Inst := inst [] (pure ())

/-- `ser_Rd`. It leaves out the 16 that other instructions add. -/
def ser_Rd (code : BitVec 16) : Inst := inst1 .reg (d4 code) fun d => write d 0xff

end Ucsim.Avr
