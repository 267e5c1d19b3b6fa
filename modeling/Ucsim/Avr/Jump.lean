import Ucsim.Avr.Disass
import Ucsim.Avr.Move

/-!
# Jumps, calls and skips

`jump_inst.cc`.
-/

namespace Ucsim.Avr

open Logic

/-! ## Jumps and calls -/

/-- `PC & ~0xffff`. -/
def pageOf (PC : Int) : Int := PC / 0x10000 * 0x10000

def ijmp (_ : BitVec 16) : Inst := inst [] do
  let z := (← read ZH) * 256 + (← read ZL)
  setPC (validate_address (pageOf (← get).PC + z.toNat))

def eijmp : BitVec 16 → Inst := stub

def icall (_ : BitVec 16) : Inst := inst [] do
  push_addr (← get).PC
  let z := (← read ZH) * 256 + (← read ZL)
  setPC (pageOf (← get).PC + z.toNat)
  tick 2

def eicall : BitVec 16 → Inst := stub

def ret (_ : BitVec 16) : Inst := inst [] do
  let a ← pop_addr
  setPC (validate_address a.toNat)
  tick 3

def reti (_ : BitVec 16) : Inst := inst [] do
  let a ← pop_addr
  setPC (validate_address a.toNat)
  write SREG ((← read SREG) ||| BIT_I)
  tick 3

/-- The target of `rjmp` and `rcall`. -/
def target12 (PC : Int) (code : BitVec 16) : Int := validate_address (PC + signedFrom 0x800 (code &&& 0xfff))

def rjmp_k (code : BitVec 16) : Inst where
  run := do
    setPC (target12 (← get).PC code)
    tick 1
    return .go
  uses PC _ := [.target (target12 PC code)]

def rcall_k (code : BitVec 16) : Inst where
  run := do
    push_addr (← get).PC
    setPC (target12 (← get).PC code)
    tick 2
    return .go
  uses PC _ := [.target (target12 PC code)]

/-- `((code&0x1f0)>>3)|(code&1)`. -/
def k6 (code : BitVec 16) : BitVec 16 := bits code 0x1f0 3 ||| code &&& 1

/-- The target of `jmp` and `call`. -/
def target22 (code second : BitVec 16) : Int := validate_address ((k6 code).toNat * 0x10000 + second.toNat)

def jmp_k (code : BitVec 16) : Inst where
  run := do
    let second ← fetch
    setPC (target22 code second)
    tick 2
    return .go
  uses _ second := [.target (target22 code second)]

def call_k (code : BitVec 16) : Inst where
  run := do
    let second ← fetch
    push_addr (← get).PC
    setPC (target22 code second)
    tick 3
    return .go
  uses _ second := [.target (target22 code second)]

/-! ## Branches -/

/-- The target of a conditional branch. -/
def target7 (PC : Int) (code : BitVec 16) : Int :=
  validate_address (PC + signedFrom 0x40 (bits code 0x3f8 3))

/-- A branch on a bit of `SREG`. -/
def branch (taken : BitVec 16 → Bool) (code : BitVec 16) : Inst where
  run := do
    if taken ((← read SREG) &&& maskOf (b3 code)) then
      setPC (target7 (← get).PC code)
      tick 1
    return .go
  uses PC _ := [.bit (b3 code), .target (target7 PC code)]

def brbs_s_k : BitVec 16 → Inst := branch fun bit => decide (bit ≠ 0)

def brbc_s_k : BitVec 16 → Inst := branch fun bit => decide (bit = 0)

/-! ## Skips -/

/-- The next instruction is looked up in the table of the disassembler. -/
def skip : Prog Res := do
  let s ← get
  match Pattern.find disass_avr (s.romAt s.PC) with
  | some row =>
    setPC (validate_address (s.PC + row.length))
    tick 1
    return .go
  | none => return .invInst

def cpse_Rd_Rr (code : BitVec 16) : Inst where
  run := do
    if (← read (r5 code)) = (← read (d5 code)) then skip else return .go
  uses _ _ := [.reg (d5 code), .reg (r5 code)]

def sbrc_Rr_b (code : BitVec 16) : Inst where
  run := do
    if (← read (d5 code)) &&& maskOf (b3 code) = 0 then skip else return .go
  uses _ _ := [.reg (d5 code), .bit (b3 code)]

def sbrs_Rr_b (code : BitVec 16) : Inst where
  run := do
    if (← read (d5 code)) &&& maskOf (b3 code) ≠ 0 then skip else return .go
  uses _ _ := [.reg (d5 code), .bit (b3 code)]

/-- `while (size > 1) { fetch(); size--; }` -/
def fetchRest : Nat → Prog Unit
  | size + 2 => do
    let _ ← fetch
    fetchRest (size + 1)
  | _ => pure ()

/-- The next instruction is fetched. Its length is that of what is at the address which is its code. -/
def skipFetched : Prog Unit := do
  let code ← fetch
  fetchRest ((← get).inst_length code.toNat)
  tick 1

def sbic_P_b (code : BitVec 16) : Inst := inst2 .io .bit (P5 code) (b3 code) fun P b => do
  if maskOf b &&& (← read (P + 0x20)) = 0 then skipFetched

def sbis_P_b (code : BitVec 16) : Inst := inst2 .io .bit (P5 code) (b3 code) fun P b => do
  if maskOf b &&& (← read (P + 0x20)) ≠ 0 then skipFetched

end Ucsim.Avr
