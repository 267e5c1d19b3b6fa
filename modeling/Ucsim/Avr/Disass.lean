import Ucsim.Avr.Machine

/-!
# The disassembler

`disass_avr` and the operands that `disass` prints. It prints the names of some cells in place of their numbers.
-/

namespace Ucsim.Avr

open Logic

/-- `dis_entry`, without the kind of branch. -/
structure DisEntry where
  length : Nat
  mnemonic : String

/-- `disass_avr`: mask, code, length and mnemonic. -/
def disass_avr : List (Pattern 16 DisEntry) :=
  [⟨0xffff, 0x0000, ⟨1, "nop"⟩⟩, ⟨0xffff, 0x9488, ⟨1, "clc"⟩⟩, ⟨0xffff, 0x94d8, ⟨1, "clh"⟩⟩,
   ⟨0xffff, 0x94f8, ⟨1, "cli"⟩⟩, ⟨0xffff, 0x94a8, ⟨1, "cln"⟩⟩, ⟨0xffff, 0x94c8, ⟨1, "cls"⟩⟩,
   ⟨0xffff, 0x94e8, ⟨1, "clt"⟩⟩, ⟨0xffff, 0x94b8, ⟨1, "clv"⟩⟩, ⟨0xffff, 0x9498, ⟨1, "clz"⟩⟩,
   ⟨0xffff, 0x9408, ⟨1, "sec"⟩⟩, ⟨0xffff, 0x9458, ⟨1, "seh"⟩⟩, ⟨0xffff, 0x9478, ⟨1, "sei"⟩⟩,
   ⟨0xffff, 0x9428, ⟨1, "sen"⟩⟩, ⟨0xffff, 0x9448, ⟨1, "ses"⟩⟩, ⟨0xffff, 0x9468, ⟨1, "set"⟩⟩,
   ⟨0xffff, 0x9438, ⟨1, "sev"⟩⟩, ⟨0xffff, 0x9418, ⟨1, "sez"⟩⟩, ⟨0xfc00, 0x1c00, ⟨1, "adc %d,%r"⟩⟩,
   ⟨0xfc00, 0x0c00, ⟨1, "add %d,%r"⟩⟩, ⟨0xff00, 0x9600, ⟨1, "adiw %2,%6"⟩⟩, ⟨0xfc00, 0x2000, ⟨1, "and %d,%r"⟩⟩,
   ⟨0xf000, 0x7000, ⟨1, "andi %D,%K"⟩⟩, ⟨0xfe0f, 0x9405, ⟨1, "asr %d"⟩⟩, ⟨0xff8f, 0x9488, ⟨1, "bclr %s"⟩⟩,
   ⟨0xfe08, 0xf800, ⟨1, "bld %d,%b"⟩⟩, ⟨0xfc07, 0xf400, ⟨1, "brcc %k"⟩⟩, ⟨0xfc07, 0xf000, ⟨1, "brcs %k"⟩⟩,
   ⟨0xfc07, 0xf001, ⟨1, "breq %k"⟩⟩, ⟨0xfc07, 0xf404, ⟨1, "brge %k"⟩⟩, ⟨0xfc07, 0xf405, ⟨1, "brhc %k"⟩⟩,
   ⟨0xfc07, 0xf005, ⟨1, "brhs %k"⟩⟩, ⟨0xfc07, 0xf407, ⟨1, "brid %k"⟩⟩, ⟨0xfc07, 0xf007, ⟨1, "brie %k"⟩⟩,
   ⟨0xfc07, 0xf000, ⟨1, "brlo %k"⟩⟩, ⟨0xfc07, 0xf004, ⟨1, "brlt %k"⟩⟩, ⟨0xfc07, 0xf002, ⟨1, "brmi %k"⟩⟩,
   ⟨0xfc07, 0xf401, ⟨1, "brne %k"⟩⟩, ⟨0xfc07, 0xf402, ⟨1, "brpl %k"⟩⟩, ⟨0xfc07, 0xf400, ⟨1, "brsh %k"⟩⟩,
   ⟨0xfc07, 0xf406, ⟨1, "brtc %k"⟩⟩, ⟨0xfc07, 0xf006, ⟨1, "brts %k"⟩⟩, ⟨0xfc07, 0xf403, ⟨1, "brvc %k"⟩⟩,
   ⟨0xfc07, 0xf003, ⟨1, "brvs %k"⟩⟩, ⟨0xfc00, 0xf400, ⟨1, "brbc %b,%k"⟩⟩, ⟨0xfc00, 0xf000, ⟨1, "brbs %b,%k"⟩⟩,
   ⟨0xff8f, 0x9408, ⟨1, "bset %s"⟩⟩, ⟨0xfe00, 0xfa00, ⟨1, "bst %d,%b"⟩⟩, ⟨0xfe0e, 0x940e, ⟨2, "call %A"⟩⟩,
   ⟨0xff00, 0x9800, ⟨1, "cbi %P,%b"⟩⟩, ⟨0xfe0f, 0x9400, ⟨1, "com %d"⟩⟩, ⟨0xfc00, 0x1400, ⟨1, "cp %d,%r"⟩⟩,
   ⟨0xfc00, 0x0400, ⟨1, "cpc %d,%r"⟩⟩, ⟨0xf000, 0x3000, ⟨1, "cpi %D,%K"⟩⟩, ⟨0xfc00, 0x1000, ⟨1, "cpse %d,%r"⟩⟩,
   ⟨0xfe0f, 0x940a, ⟨1, "dec %d"⟩⟩, ⟨0xfc00, 0x2400, ⟨1, "eor %d,%r"⟩⟩, ⟨0xff0f, 0x9509, ⟨1, "icall"⟩⟩,
   ⟨0xff0f, 0x9409, ⟨1, "ijmp"⟩⟩, ⟨0xf800, 0xb000, ⟨1, "in %d,%p"⟩⟩, ⟨0xfe0f, 0x9403, ⟨1, "inc %d"⟩⟩,
   ⟨0xfe0e, 0x940c, ⟨2, "jmp %A"⟩⟩, ⟨0xfe0f, 0x900c, ⟨1, "ld %d,X"⟩⟩, ⟨0xfe0f, 0x900d, ⟨1, "ld %d,X+"⟩⟩,
   ⟨0xfe0f, 0x900e, ⟨1, "ld %d,-X"⟩⟩, ⟨0xfe0f, 0x8008, ⟨1, "ld %d,Y"⟩⟩, ⟨0xfe0f, 0x9009, ⟨1, "ld %d,Y+"⟩⟩,
   ⟨0xfe0f, 0x900a, ⟨1, "ld %d,-Y"⟩⟩, ⟨0xd208, 0x8008, ⟨1, "ldd %d,Y+%q"⟩⟩, ⟨0xfe0f, 0x8000, ⟨1, "ld %d,Z"⟩⟩,
   ⟨0xfe0f, 0x9001, ⟨1, "ld %d,Z+"⟩⟩, ⟨0xfe0f, 0x9002, ⟨1, "ld %d,-Z"⟩⟩, ⟨0xd208, 0x8000, ⟨1, "ldd %d,Z+%q"⟩⟩,
   ⟨0xf000, 0xe000, ⟨1, "ldi %D,%K"⟩⟩, ⟨0xfe0f, 0x9000, ⟨2, "lds %d,%R"⟩⟩, ⟨0xffff, 0x95c8, ⟨1, "lpm"⟩⟩,
   ⟨0xffff, 0x95d8, ⟨1, "elpm"⟩⟩, ⟨0xfe0f, 0x9406, ⟨1, "lsr %d"⟩⟩, ⟨0xfc00, 0x2c00, ⟨1, "mov %d,%r"⟩⟩,
   ⟨0xfc00, 0x9c00, ⟨1, "mul %d,%r"⟩⟩, ⟨0xfe0f, 0x9401, ⟨1, "neg %d"⟩⟩, ⟨0xfc00, 0x2800, ⟨1, "or %d,%r"⟩⟩,
   ⟨0xf000, 0x6000, ⟨1, "ori %d,%K"⟩⟩, ⟨0xf800, 0xb800, ⟨1, "out %p,%d"⟩⟩, ⟨0xfe0f, 0x900f, ⟨1, "pop %d"⟩⟩,
   ⟨0xfe0f, 0x920f, ⟨1, "push %d"⟩⟩, ⟨0xf000, 0xd000, ⟨1, "rcall %a"⟩⟩, ⟨0xff9f, 0x9508, ⟨1, "ret"⟩⟩,
   ⟨0xff9f, 0x9518, ⟨1, "reti"⟩⟩, ⟨0xf000, 0xc000, ⟨1, "rjmp %a"⟩⟩, ⟨0xfe0f, 0x9407, ⟨1, "ror %d"⟩⟩,
   ⟨0xfc00, 0x0800, ⟨1, "sbc %d,%r"⟩⟩, ⟨0xf000, 0x4000, ⟨1, "sbci %D,%K"⟩⟩, ⟨0xff00, 0x9a00, ⟨1, "sbi %P,%b"⟩⟩,
   ⟨0xff00, 0x9900, ⟨1, "sbic %P,%b"⟩⟩, ⟨0xff00, 0x9b00, ⟨1, "sbis %P,%b"⟩⟩, ⟨0xff00, 0x9700, ⟨1, "sbiw %2,%6"⟩⟩,
   ⟨0xf000, 0x6000, ⟨1, "sbr %D,%K"⟩⟩, ⟨0xfe00, 0xfc00, ⟨1, "sbrc %d,%b"⟩⟩, ⟨0xfe00, 0xfe00, ⟨1, "sbrs %d,%b"⟩⟩,
   ⟨0xff0f, 0xef0f, ⟨1, "ser %D"⟩⟩, ⟨0xffef, 0x9588, ⟨1, "sleep"⟩⟩, ⟨0xfe0f, 0x920c, ⟨1, "st X,%d"⟩⟩,
   ⟨0xfe0f, 0x920d, ⟨1, "st X+,%d"⟩⟩, ⟨0xfe0f, 0x920e, ⟨1, "st -X,%d"⟩⟩, ⟨0xfe0f, 0x8208, ⟨1, "st Y,%d"⟩⟩,
   ⟨0xfe0f, 0x9209, ⟨1, "st Y+,%d"⟩⟩, ⟨0xfe0f, 0x920a, ⟨1, "st -Y,%d"⟩⟩, ⟨0xd208, 0x8208, ⟨1, "std Y+%q,%d"⟩⟩,
   ⟨0xfe0f, 0x8200, ⟨1, "st Z,%d"⟩⟩, ⟨0xfe0f, 0x9201, ⟨1, "st Z+,%d"⟩⟩, ⟨0xfe0f, 0x9202, ⟨1, "st -Z,%d"⟩⟩,
   ⟨0xd208, 0x8200, ⟨1, "std Z+%q,%d"⟩⟩, ⟨0xfe0f, 0x9200, ⟨2, "sts %R,%d"⟩⟩, ⟨0xfc00, 0x1800, ⟨1, "sub %d,%r"⟩⟩,
   ⟨0xf000, 0x5000, ⟨1, "subi %D,%K"⟩⟩, ⟨0xfe0f, 0x9402, ⟨1, "swap %d"⟩⟩, ⟨0xffef, 0x95a8, ⟨1, "wdr"⟩⟩]

/-- The letters behind the percent signs of a mnemonic. -/
def letters : List Char → List Char
  | '%' :: c :: cs => c :: letters cs
  | _ :: cs => letters cs
  | [] => []

/-- `k`, whose sign is in a bit. -/
def signedFrom (bit k : BitVec 16) : Int := if k &&& bit ≠ 0 then k.toNat - 2 * bit.toNat else k.toNat

/-- The operand that `disass` prints for a letter. -/
def printed (code second : BitVec 16) (addr : Int) : Char → Option Operand
  | 'd' => some (.reg (bits code 0x01f0 4))
  | 'D' => some (.reg (16 + bits code 0xf0 4))
  | 'K' => some (.imm (bits code 0xf00 4 ||| code &&& 0xf))
  | 'r' => some (.reg (bits code 0x0200 5 ||| code &&& 0x000f))
  | '2' => some (.reg (24 + 2 * (bits code 0x0030 4)))
  | '6' => some (.imm (bits code 0xc0 2 ||| code &&& 0xf))
  | 's' => some (.bit (bits code 0x70 4))
  | 'b' => some (.bit (code &&& 0x7))
  | 'k' => some (.target (signedFrom 0x40 (bits code 0x3f8 3) + 1 + addr))
  | 'A' => some (.target ((bits code 0x1f0 3 ||| code &&& 1).toNat * 0x10000 + second.toNat))
  | 'P' => some (.io (bits code 0xf8 3))
  | 'p' => some (.io (bits code 0x600 5 ||| code &&& 0xf))
  | 'q' => some (.disp (bits code 0x2000 8 ||| bits code 0xc00 7 ||| code &&& 7))
  | 'R' => some (.data second)
  | 'a' => some (.target (validate_address (signedFrom 0x800 (code &&& 0xfff) + 1 + addr)))
  | _ => none

/-- The operands that a name stands for: the flag of a conditional branch, and a displacement that is not printed. -/
def implied : String → List Operand
  | "brcc %k" | "brcs %k" | "brlo %k" | "brsh %k" => [.bit 0]
  | "brne %k" | "breq %k" => [.bit 1]
  | "brpl %k" | "brmi %k" => [.bit 2]
  | "brvc %k" | "brvs %k" => [.bit 3]
  | "brge %k" | "brlt %k" => [.bit 4]
  | "brhc %k" | "brhs %k" => [.bit 5]
  | "brtc %k" | "brts %k" => [.bit 6]
  | "brid %k" | "brie %k" => [.bit 7]
  | "ld %d,Y" | "ld %d,Z" | "st Y,%d" | "st Z,%d" => [.disp 0]
  | _ => []

/-- The operands that a row of the table shows for a code at an address. -/
def DisEntry.operands (row : DisEntry) (code second : BitVec 16) (addr : Int) : List Operand :=
  implied row.mnemonic ++ (letters row.mnemonic.toList).filterMap (printed code second addr)

/-- The operands that `disass` shows for what is at an address. -/
def Machine.disass (s : Machine) (addr : Int) : Option (List Operand) :=
  (Pattern.find disass_avr (s.romAt addr)).map (·.operands (s.romAt addr) (s.romAt (addr + 1)) addr)

/-- `inst_length`. -/
def Machine.inst_length (s : Machine) (addr : Int) : Nat :=
  match Pattern.find disass_avr (s.romAt addr) with
  | some row => row.length
  | none => 1

end Ucsim.Avr
