import Ucsim.Xa.Machine

/-!
# Operations of the XA

What `xacl.h` has for `FUNC1` and `FUNC2` in `inst_gen.cc`. `result` is an `unsigned int`.
-/

namespace Ucsim.Xa

/-- An operation on two values and the flags. -/
abbrev Alu (w : Nat) := BitVec w → BitVec w → BitVec 8 → BitVec w × BitVec 8

/-- The flags after an addition. -/
def addFlags (result : BitVec 32) (flags : BitVec 8) : BitVec 8 :=
  let flags := orIf (result = 0) BIT_Z flags
  let flags := orIf (0xff < result) BIT_C flags
  orIf (result &&& 0x80 ≠ 0) BIT_N flags

/-- The flags after a subtraction. -/
def subFlags (less : Bool) (result : BitVec 32) (flags : BitVec 8) : BitVec 8 :=
  let flags := orIf (result = 0) BIT_Z flags
  let flags := orIf (0xff < result) BIT_C flags
  orIf less BIT_N flags

/-- The flags after a logical operation or a move, with the sign given. -/
def logicFlags (zero sign : Bool) (flags : BitVec 8) : BitVec 8 :=
  orIf sign BIT_N (orIf zero BIT_Z (flags &&& ~~~(BIT_N ||| BIT_Z)))

section Width

variable {w : Nat}

def sum (dst src : BitVec w) (carry : BitVec 32) : BitVec 32 := dst.setWidth 32 + src.setWidth 32 + carry

def difference (dst src : BitVec w) (carry : BitVec 32) : BitVec 32 := dst.setWidth 32 - src.setWidth 32 - carry

/-- The body of `add1` and `add2`, which have the same masks. -/
def add : Alu w := fun dst src flags =>
  let flags := flags &&& ~~~BIT_ALL
  let result := sum dst src 0
  (result.setWidth w, addFlags result flags)

/-- The body of `sub1` and `sub2`. -/
def sub : Alu w := fun dst src flags =>
  let flags := flags &&& ~~~BIT_ALL
  let result := difference dst src 0
  (result.setWidth w, subFlags (dst < src) result flags)

/-- The body of `cmp1` and `cmp2`. -/
def cmp : Alu w := fun dst src flags =>
  let flags := flags &&& ~~~BIT_ALL
  let result := difference dst src 0
  (dst, subFlags (dst < src) result flags)

/-- The body of `and1` and `and2`. -/
def and : Alu w := fun dst src flags =>
  let result := (dst &&& src).setWidth 32
  (result.setWidth w, logicFlags (result = 0) (result &&& 0x80 ≠ 0) flags)

/-- The body of `or1` and `or2`. -/
def or : Alu w := fun dst src flags =>
  let result := (dst ||| src).setWidth 32
  (result.setWidth w, logicFlags (result = 0) (result &&& 0x80 ≠ 0) flags)

end Width

def add1 : Alu 8 := add

def add2 : Alu 16 := add

def sub1 : Alu 8 := sub

def sub2 : Alu 16 := sub

def cmp1 : Alu 8 := cmp

def cmp2 : Alu 16 := cmp

def and1 : Alu 8 := and

def and2 : Alu 16 := and

def or1 : Alu 8 := or

def or2 : Alu 16 := or

def addc1 : Alu 8 := fun dst src flags =>
  let result := if flags &&& BIT_C ≠ 0 then sum dst src 1 else sum dst src 0
  (result.setWidth 8, addFlags result (flags &&& ~~~BIT_ALL))

/-- `addc2`. It looks at C when it has been cleared. -/
def addc2 : Alu 16 := fun dst src flags =>
  let flags := flags &&& ~~~BIT_ALL
  let result := if flags &&& BIT_C ≠ 0 then sum dst src 1 else sum dst src 0
  (result.setWidth 16, addFlags result (flags &&& ~~~BIT_ALL))

def subb1 : Alu 8 := fun dst src flags =>
  let result := if flags &&& BIT_C ≠ 0 then difference dst src 1 else difference dst src 0
  (result.setWidth 8, subFlags (dst < src) result (flags &&& ~~~BIT_ALL))

/-- `subb2`. It looks at C when it has been cleared. -/
def subb2 : Alu 16 := fun dst src flags =>
  let flags := flags &&& ~~~BIT_ALL
  let result := if flags &&& BIT_C ≠ 0 then difference dst src 1 else difference dst src 0
  (result.setWidth 16, subFlags (dst < src) result (flags &&& ~~~BIT_ALL))

def xor1 : Alu 8 := fun dst src flags =>
  let dst := dst ^^^ src
  (dst, logicFlags (dst = 0) (dst &&& 0x80 ≠ 0) flags)

def xor2 : Alu 16 := fun dst src flags =>
  let dst := dst ^^^ src
  (dst, logicFlags (dst = 0) (dst &&& 0x8000 ≠ 0) flags)

def mov1 : Alu 8 := fun _ src flags => (src, logicFlags (src = 0) (src &&& 0x80 ≠ 0) flags)

def mov2 : Alu 16 := fun _ src flags => (src, logicFlags (src = 0) (src &&& 0x8000 ≠ 0) flags)

/-- An operation with the flags of the machine. -/
def Alu.run {w : Nat} (f : Alu w) (dst src : BitVec w) : Prog (BitVec w) := do
  let p := f dst src (← get_psw)
  set_psw p.2
  return p.1

/-- `FUNC1` and `FUNC2` of an instruction. -/
structure Func where
  FUNC1 : Alu 8
  FUNC2 : Alu 16

end Ucsim.Xa
