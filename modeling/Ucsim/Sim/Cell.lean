import Mathlib.Data.BitVec
import Mathlib.Logic.Function.Basic

/-!
# Memory cells and their operator chains

A cell of an address space points to a place that holds its value. Hardware elements and event
breakpoints hang on the cell as a chain of operators, and `read`, `read(skip)` and `write` thread the
value through that chain. Every operator keeps the data pointer and the mask it was created with.

Places are elements of a type `P`, hardware elements of a type `Hw`, cells as the callbacks see them
of a type `κ`. `W` is everything else the hardware callbacks can see and change.
-/

namespace Ucsim

/-- `t_mem`: an unsigned short. Addresses, of the signed type `t_addr`, are integers. -/
abbrev TMem := BitVec 16

/-- `enum hw_cath`. -/
inductive HwCath
  | dummy | timer | uart | port | pca | interrupt | wdt | cc2530Radio | cc2530Usart | cc2530Dma
  | cc2530FlashController | macTimer
  deriving DecidableEq, Repr

/-- `enum brk_event`. -/
inductive BrkEvent
  | none | wxram | rxram | rcode | wiram | riram | wsfr | rsfr
  | wflashbank0 | rflashbank0 | wflashbank1 | rflashbank1 | wflashbank2 | rflashbank2
  | wflashbank3 | rflashbank3 | wsram | rsram | read | write | access
  deriving DecidableEq, Repr

/-- What `set_brk` and `del_brk` make of a breakpoint event. -/
inductive BrkKind
  | write | read | fetch | other
  deriving DecidableEq, Repr

/-- The case labels of the two switches in `set_brk` and `del_brk`. -/
def BrkEvent.kind : BrkEvent → BrkKind
  | .write | .wxram | .wiram | .wsfr | .wflashbank0 | .wflashbank1 | .wflashbank2 | .wflashbank3
  | .wsram => .write
  | .read | .rxram | .rcode | .riram | .rsfr | .rflashbank0 | .rflashbank1 | .rflashbank2
  | .rflashbank3 | .rsram => .read
  | .none => .fetch
  | .access => .other

/-- A breakpoint object. Its number tells it from every other one, as its address does in the code. -/
structure Brk where
  nr : Nat
  event : BrkEvent
  deriving DecidableEq, Repr

/-- The memory places and the hardware state, which is all a hardware callback can depend on. -/
structure Store (P W : Type) where
  mem : P → TMem
  hw : W

/-- The store together with the list of breakpoint events of the running instruction. -/
structure Sys (P W : Type) extends Store P W where
  events : List Brk

/-- The virtual functions of `cl_hw` that the cells call. A callback may change the store and, through
other cells, add breakpoint events. The value a write callback returns is the one it leaves in `*val`. -/
structure Hardware (κ P Hw W : Type) where
  cathegory : Hw → HwCath
  read : Hw → κ → Store P W → TMem × Store P W × List Brk
  write : Hw → κ → TMem → Store P W → TMem × Store P W × List Brk

variable {κ P Hw W : Type}

namespace Sys

/-- Run a callback. -/
def call (f : Store P W → TMem × Store P W × List Brk) (s : Sys P W) : TMem × Sys P W :=
  let r := f s.toStore
  (r.1, { toStore := r.2.1, events := s.events ++ r.2.2 })

/-- `uc->events->add(bp)`. -/
def addEvent (bp : Brk) (s : Sys P W) : Sys P W := { s with events := s.events ++ [bp] }

@[simp] theorem addEvent_toStore (bp : Brk) (s : Sys P W) : (s.addEvent bp).toStore = s.toStore :=
  rfl

@[simp] theorem addEvent_events (bp : Brk) (s : Sys P W) :
    (s.addEvent bp).events = s.events ++ [bp] := rfl

variable [DecidableEq P]

/-- `*data= val`. -/
def store (p : P) (v : TMem) (s : Sys P W) : Sys P W :=
  { s with mem := Function.update s.mem p v }

@[simp] theorem store_mem (p : P) (v : TMem) (s : Sys P W) :
    (s.store p v).mem = Function.update s.mem p v := rfl

@[simp] theorem store_hw (p : P) (v : TMem) (s : Sys P W) : (s.store p v).hw = s.hw := rfl

@[simp] theorem store_events (p : P) (v : TMem) (s : Sys P W) :
    (s.store p v).events = s.events := rfl

end Sys

/-- The three operator classes with what each adds to `cl_memory_operator`. -/
inductive OperatorKind (Hw : Type)
  | hw (h : Hw)
  | write (bp : Brk)
  | read (bp : Brk)
  deriving DecidableEq, Repr

/-- `match(class cl_brk *)`: only an event break operator matches a breakpoint. -/
def OperatorKind.matchBrk (brk : Brk) : OperatorKind Hw → Bool
  | .hw _ => false
  | .write bp | .read bp => bp == brk

/-- `cl_memory_operator`; the next operator is the next element of the cell's list. -/
structure Operator (κ P Hw : Type) where
  kind : OperatorKind Hw
  cell : κ
  data : P
  mask : TMem

namespace Operator

/-- `read(void)`. A hardware operator reads its successor only for the side effects. -/
def read (H : Hardware κ P Hw W) (o : Operator κ P Hw) (next : List (Operator κ P Hw))
    (s : Sys P W) : TMem × Sys P W :=
  match o.kind with
  | .hw h =>
    let (d, s) := s.call (H.read h o.cell)
    match next with
    | [] => (d, s)
    | n :: rest =>
      let (_, s) := n.read H rest s
      (d, s)
  | .read bp =>
    match next with
    | [] => (s.mem o.data, s.addEvent bp)
    | n :: rest => n.read H rest (s.addEvent bp)
  | .write _ =>
    match next with
    | [] => (s.mem o.data, s)
    | n :: rest => n.read H rest s
  termination_by structural next

/-- `read(enum hw_cath skip)`. The successor is read without `skip`. -/
def readSkip (H : Hardware κ P Hw W) (o : Operator κ P Hw) (next : List (Operator κ P Hw))
    (skip : HwCath) (s : Sys P W) : TMem × Sys P W :=
  match o.kind with
  | .hw h =>
    let (d, s) := if H.cathegory h ≠ skip then s.call (H.read h o.cell) else (s.mem o.data, s)
    match next with
    | [] => (d, s)
    | n :: rest =>
      let (_, s) := n.read H rest s
      (d, s)
  | .read _ | .write _ => o.read H next s

variable [DecidableEq P]

/-- `write(t_mem val)`. -/
def write (H : Hardware κ P Hw W) (o : Operator κ P Hw) (next : List (Operator κ P Hw))
    (val : TMem) (s : Sys P W) : TMem × Sys P W :=
  match o.kind with
  | .hw h =>
    let (val, s) := s.call (H.write h o.cell val)
    let (val, s) := match next with
      | [] => (val, s)
      | n :: rest => n.write H rest val s
    (val &&& o.mask, s.store o.data (val &&& o.mask))
  | .write bp =>
    match next with
    | [] => (val &&& o.mask, (s.addEvent bp).store o.data (val &&& o.mask))
    | n :: rest => n.write H rest val (s.addEvent bp)
  | .read _ =>
    match next with
    | [] => (val &&& o.mask, s.store o.data (val &&& o.mask))
    | n :: rest => n.write H rest val s
  termination_by structural next

end Operator

/-- `cl_memory_cell`. The two flags are the bits of `flags` that the memory system uses. -/
@[ext]
structure Cell (κ P Hw : Type) where
  data : P
  mask : TMem
  nonDecoded : Bool
  fetchBrk : Bool
  operators : List (Operator κ P Hw)

namespace Cell

/-- `read(void)`. -/
def read (H : Hardware κ P Hw W) (c : Cell κ P Hw) (s : Sys P W) : TMem × Sys P W :=
  match c.operators with
  | [] => (s.mem c.data, s)
  | o :: next => o.read H next s

/-- `read(enum hw_cath skip)`. -/
def readSkip (H : Hardware κ P Hw W) (c : Cell κ P Hw) (skip : HwCath) (s : Sys P W) :
    TMem × Sys P W :=
  match c.operators with
  | [] => (s.mem c.data, s)
  | o :: next => o.readSkip H next skip s

/-- `get(void)`. -/
def get (c : Cell κ P Hw) (s : Store P W) : TMem := s.mem c.data

variable [DecidableEq P]

/-- `write(t_mem val)`. -/
def write (H : Hardware κ P Hw W) (c : Cell κ P Hw) (val : TMem) (s : Sys P W) : TMem × Sys P W :=
  match c.operators with
  | [] => (val &&& c.mask, s.store c.data (val &&& c.mask))
  | o :: next => o.write H next val s

/-- `set(t_mem val)`. -/
def set (c : Cell κ P Hw) (val : TMem) (s : Sys P W) : TMem × Sys P W :=
  (val &&& c.mask, s.store c.data (val &&& c.mask))

/-- `add(long what)`: no operator sees the new value. -/
def add (c : Cell κ P Hw) (what : Int) (s : Sys P W) : TMem × Sys P W :=
  let d := (s.mem c.data + BitVec.ofInt 16 what) &&& c.mask
  (d, s.store c.data d)

/-- `set_bit1(t_mem bits)`. -/
def setBit1 (c : Cell κ P Hw) (bits : TMem) (s : Sys P W) : Sys P W :=
  s.store c.data (s.mem c.data ||| (bits &&& c.mask))

/-- `set_bit0(t_mem bits)`. -/
def setBit0 (c : Cell κ P Hw) (bits : TMem) (s : Sys P W) : Sys P W :=
  s.store c.data (s.mem c.data &&& ~~~(bits &&& c.mask))

/-- `append_operator`. -/
def appendOperator (c : Cell κ P Hw) (op : Operator κ P Hw) : Cell κ P Hw :=
  { c with operators := c.operators ++ [op] }

/-- `del_operator`: unlink the first operator that matches. -/
def delOperator (c : Cell κ P Hw) (brk : Brk) : Cell κ P Hw :=
  { c with operators := c.operators.eraseP (·.kind.matchBrk brk) }

/-- `add_hw`. The operator takes the data pointer and the mask the cell has now. -/
def addHw (c : Cell κ P Hw) (self : κ) (hw : Hw) : Cell κ P Hw :=
  c.appendOperator { kind := .hw hw, cell := self, data := c.data, mask := c.mask }

end Cell

end Ucsim
