import Ucsim.S51.Uc390Stack

/-!
# Branch targets of the DS390

With 24-bit addresses an absolute branch has an operand of 19 bits, and a long one has 24. The instructions put the
target together in one way, and the disassembler in another.
-/

namespace Ucsim.S51.Uc390

variable {σ : Type}

/-! ## The jumps -/

/-- `inst_ajmp_addr` in 24-bit flat mode. -/
def ajmp_flat (code : UChar) : Prog σ Unit := do
  let x := (code >>> 5) &&& 0x07
  let h ← fetch
  let l ← fetch
  set_PC (((← get).PC &&& 0xf800) ||| address x h l)

/-- `inst_ajmp_addr` in stock mcs51 mode. -/
def ajmp_stock (code : UChar) : Prog σ Unit := do
  let h := (code >>> 5) &&& 0x07
  let l ← fetch
  set_PC (((← get).PC &&& 0xf800) ||| address 0 h l)

def inst_ajmp_addr (code : UChar) : Prog σ Res := do
  if AM1 (← get_sfr ACON) then ajmp_flat code else ajmp_stock code
  tick 1
  return .go

/-- The operand is fetched as that of `LCALL` is. -/
def inst_ljmp : Prog σ Res := do
  set_PC (← operand false)
  tick 1
  return .go

/-- The other instructions, with the jumps among them. -/
def withJumps (R : Rest σ) : Rest σ where
  read := R.read
  write := R.write
  inst code s :=
    if code &&& 0x1f = 0x01 then (inst_ajmp_addr code).run s
    else if code = 0x02 then inst_ljmp.run s
    else R.inst code s
  read_keeps := R.read_keeps

/-! ## The disassembler -/

/-- A conversion in a mnemonic, for the target of a branch. -/
inductive Conversion
  | A
  | l
  deriving DecidableEq, Repr

/-- A mnemonic that ends in a conversion. -/
structure DisEntry where
  name : List Char
  conversion : Conversion
  deriving DecidableEq, Repr

/-- The rows of `disass_390f` that are branches with a target of 19 or of 24 bits. -/
def disass_390f (code : UChar) : Option DisEntry :=
  if code &&& 0x1f = 0x01 then some ⟨['A', 'J', 'M', 'P'], .A⟩
  else if code &&& 0x1f = 0x11 then some ⟨['A', 'C', 'A', 'L', 'L'], .A⟩
  else if code = 0x02 then some ⟨['L', 'J', 'M', 'P'], .l⟩
  else if code = 0x12 then some ⟨['L', 'C', 'A', 'L', 'L'], .l⟩
  else none

/-- The number that is printed for a conversion. -/
def Conversion.value (rom : Nat → UChar) (addr : Nat) : Conversion → Nat
  | .A => (addr &&& 0xf80000) ||| address ((rom addr >>> 5) &&& 0x07) (rom (addr + 1)) (rom (addr + 2))
  | .l => address (rom (addr + 1)) (rom (addr + 2)) (rom (addr + 3))

/-- `%06lx`, for numbers of 24 bits. -/
def hex6 (n : Nat) : List Char :=
  [n / 0x100000, n / 0x10000, n / 0x1000, n / 0x100, n / 0x10, n].map fun d => (d % 16).digitChar

/-- `disass`, for the branches. Without `sep` the name is filled up to six characters. -/
def disass (rom : Nat → UChar) (addr : Nat) (sep : Option (List Char)) : Option (List Char) :=
  (disass_390f (rom addr)).map fun e =>
    e.name ++ sep.getD (List.replicate (6 - e.name.length) ' ') ++ hex6 (e.conversion.value rom addr)

/-- The branch leads to the address that `disass` prints for it. -/
def Machine.Lands (R : Rest σ) (s : Machine σ) (sep : Option (List Char)) : Prop :=
  ∃ mnemonic, disass s.rom s.PC sep = some (mnemonic ++ hex6 (s.step (withJumps R)).PC)

/-! ## Numbers that are printed -/

theorem digitChar_inj : ∀ m < 16, ∀ n < 16, Nat.digitChar m = Nat.digitChar n → m = n := by decide

theorem hex6_inj {m n : Nat} (hm : m < 0x1000000) (hn : n < 0x1000000) (h : hex6 m = hex6 n) : m = n := by
  have hdigit (k : Nat) (hk : (m / k % 16).digitChar = (n / k % 16).digitChar) : m / k % 16 = n / k % 16 :=
    digitChar_inj _ (Nat.mod_lt _ (by omega)) _ (Nat.mod_lt _ (by omega)) hk
  simp only [hex6, List.map_cons, List.map_nil, List.cons.injEq, and_true] at h
  obtain ⟨h5, h4, h3, h2, h1, h0⟩ := h
  have d5 := hdigit _ h5
  have d4 := hdigit _ h4
  have d3 := hdigit _ h3
  have d2 := hdigit _ h2
  have d1 := hdigit _ h1
  have d0 := hdigit 1 (by simpa using h0)
  omega

theorem address_lt_flat (x h l : UChar) : address x h l < 0x1000000 := by
  have hx := x.isLt
  have hh := h.isLt
  have hl := l.isLt
  rw [address]
  omega

theorem address_inj {x h l x' h' l' : UChar} :
    address x h l = address x' h' l' ↔ x = x' ∧ h = h' ∧ l = l' := by
  have hh := h.isLt
  have hl := l.isLt
  have hh' := h'.isLt
  have hl' := l'.isLt
  simp only [address, ← BitVec.toNat_inj]
  omega

/-! ## The bits of a page -/

theorem testBit_page (i : Nat) : Nat.testBit 0xf800 i = decide (11 ≤ i ∧ i < 16) := by
  have hmask : 0xf800 = (2 ^ 5 - 1) <<< 11 := rfl
  rw [hmask, Nat.testBit_shiftLeft, Nat.testBit_two_pow_sub_one, ← Bool.decide_and]
  apply decide_eq_decide.mpr
  omega

/-- The bits 11 to 15 of a number are among those of another one. -/
def PageBits (n m : Nat) : Prop := ∀ i, 11 ≤ i → i < 16 → n.testBit i = true → m.testBit i = true

theorem page_or_eq_iff (n m : Nat) : (n &&& 0xf800) ||| m = m ↔ PageBits n m := by
  constructor
  · intro h i hlow hhigh hn
    have hbit := congrArg (Nat.testBit · i) h
    simp only [Nat.testBit_or, Nat.testBit_and, testBit_page, hn, hlow, hhigh] at hbit
    simpa using hbit.symm
  · intro h
    apply Nat.eq_of_testBit_eq
    intro i
    have hi := h i
    simp only [Nat.testBit_or, Nat.testBit_and, testBit_page]
    by_cases hpage : 11 ≤ i ∧ i < 16
    · cases hn : n.testBit i with
      | true => simp [hi hpage.1 hpage.2 hn]
      | false => simp
    · simp [hpage]

/-- Code memory lies in one page of 512K. -/
theorem page_eq_zero {addr : Nat} (h : addr < 0x20000) : addr &&& 0xf80000 = 0 := by
  have hmask : 0xf80000 = (2 ^ 5 - 1) <<< 19 := rfl
  apply Nat.eq_of_testBit_eq
  intro i
  rw [hmask, Nat.testBit_and, Nat.testBit_shiftLeft, Nat.zero_testBit]
  by_cases hi : 19 ≤ i
  · have hpow : 2 ^ 17 ≤ 2 ^ i := Nat.pow_le_pow_right Nat.two_pos (by omega)
    rw [Nat.testBit_lt_two_pow (h.trans_le hpow), Bool.false_and]
  · simp [hi]

/-! ## The operands -/

/-- The operand of a branch whose bytes are read like this. -/
def Conversion.operand (byte : Nat → UChar) (addr : Nat) : Conversion → Nat
  | .A => address ((byte addr >>> 5) &&& 0x07) (byte (addr + 1)) (byte (addr + 2))
  | .l => address (byte (addr + 1)) (byte (addr + 2)) (byte (addr + 3))

/-- The bytes behind the opcode. -/
def Conversion.bytes : Conversion → Nat
  | .A => 2
  | .l => 3

theorem operand_lt (byte : Nat → UChar) (addr : Nat) (c : Conversion) : c.operand byte addr < 0x1000000 := by
  cases c with
  | A => exact address_lt_flat _ _ _
  | l => exact address_lt_flat _ _ _

theorem operand_eq_iff {byte byte' : Nat → UChar} {addr : Nat} (hcode : byte addr = byte' addr) (c : Conversion) :
    c.operand byte addr = c.operand byte' addr ↔
      ∀ i < c.bytes, byte (addr + (i + 1)) = byte' (addr + (i + 1)) := by
  cases c with
  | A =>
    rw [Conversion.operand, Conversion.operand, address_inj, hcode]
    constructor
    · rintro ⟨-, h1, h2⟩ i hi
      rw [Conversion.bytes] at hi
      rcases i with _ | _ | i
      · exact h1
      · exact h2
      · omega
    · intro h
      exact ⟨rfl, h 0 (by decide), h 1 (by decide)⟩
  | l =>
    rw [Conversion.operand, Conversion.operand, address_inj]
    constructor
    · rintro ⟨h1, h2, h3⟩ i hi
      rw [Conversion.bytes] at hi
      rcases i with _ | _ | _ | i
      · exact h1
      · exact h2
      · exact h3
      · omega
    · intro h
      exact ⟨h 0 (by decide), h 1 (by decide), h 2 (by decide)⟩

theorem value_eq_operand {addr : Nat} (haddr : addr < 0x20000) (rom : Nat → UChar) (c : Conversion) :
    c.value rom addr = c.operand rom addr := by
  cases c with
  | A => rw [Conversion.value, page_eq_zero haddr, Nat.zero_or, Conversion.operand]
  | l => rfl

namespace Machine

/-- The bytes that `fetch` gets, over the end of code memory as well. -/
def codeByte (s : Machine σ) (addr : Nat) : UChar := s.rom (addr % 0x20000)

/-- Code memory, ACON and the place in the program. -/
structure Reads (s t : Machine σ) (addr : Nat) : Prop where
  rom : t.rom = s.rom
  acon : t.acon = s.acon
  PC : t.PC = addr % 0x20000

theorem fetch_rom (s : Machine σ) : (fetch.run s).1 = s.rom s.PC ∧ s.fetched.rom = s.rom := by
  have hrun : fetch.run s = ((do
      if 0x20000 ≤ s.PC then error (.memInvalidAddress .rom s.PC)
      set_PC ((s.PC + 1) % 0x20000)
      return (← get).rom s.PC : Prog σ UChar).run s) := rfl
  rw [fetched, hrun]
  split
  · exact ⟨rfl, rfl⟩
  · exact ⟨rfl, rfl⟩

/-- Inside of code memory there is no error. -/
theorem fetch_run {s : Machine σ} (hPC : s.PC < 0x20000) :
    fetch.run s = (s.rom s.PC, { s with PC := (s.PC + 1) % 0x20000 }) := by
  have hrun : fetch.run s = ((do
      if 0x20000 ≤ s.PC then error (.memInvalidAddress .rom s.PC)
      set_PC ((s.PC + 1) % 0x20000)
      return (← get).rom s.PC : Prog σ UChar).run s) := rfl
  rw [hrun, if_neg (Nat.not_le.mpr hPC)]
  rfl

theorem Reads.fetch {s t : Machine σ} {addr : Nat} (h : Reads s t addr) :
    (Uc390.fetch.run t).1 = s.codeByte addr ∧ Reads s t.fetched (addr + 1) where
  left := by rw [t.fetch_rom.1, h.rom, h.PC, codeByte]
  right :=
    { rom := t.fetch_rom.2.trans h.rom
      acon := t.fetched_quiet.beside.acon.trans h.acon
      PC := by
        rw [t.fetched_PC, h.PC]
        omega }

theorem started_reads {s : Machine σ} (hPC : s.PC < 0x20000) :
    s.next = s.codeByte s.PC ∧ Reads s s.started (s.PC + 1) := by
  have hhere : Reads s { s with instPC := s.PC } s.PC := ⟨rfl, rfl, (Nat.mod_eq_of_lt hPC).symm⟩
  obtain ⟨hbyte, hreads⟩ := hhere.fetch
  exact ⟨hbyte, hreads.rom, hreads.acon, hreads.PC⟩

end Machine

/-! ## Where the instructions lead -/

section Steps

variable (R : Rest σ) {s : Machine σ}

/-- An absolute branch stays where bits 11 to 15 of the address behind it lead. -/
theorem ajmp_flat_PC (code : UChar) {t : Machine σ} {addr : Nat} (h : s.Reads t addr) :
    ((ajmp_flat code).run t).2.PC = (((addr + 2) % 0x20000) &&& 0xf800) |||
      address ((code >>> 5) &&& 0x07) (s.codeByte addr) (s.codeByte (addr + 1)) := by
  obtain ⟨hh, h1⟩ := h.fetch
  obtain ⟨hl, h2⟩ := h1.fetch
  have hrun : ((ajmp_flat code).run t).2.PC = (t.fetched.fetched.PC &&& 0xf800) |||
      address ((code >>> 5) &&& 0x07) (fetch.run t).1 (fetch.run t.fetched).1 := rfl
  rw [hrun, hh, hl, h2.PC]

/-- The long branches fetch three bytes. -/
theorem operand_flat {t : Machine σ} {addr : Nat} (h : s.Reads t addr) (hAM : AM1 s.acon = true) :
    ((operand false).run t).1 = address (s.codeByte addr) (s.codeByte (addr + 1)) (s.codeByte (addr + 2)) ∧
      s.Reads ((operand false).run t).2 (addr + 3) := by
  have hrun : (operand false).run t = ((do
      let x ← if AM1 t.acon then fetch else pure 0
      let h ← fetch
      let l ← fetch
      return address x h l : Prog σ Nat).run t) := rfl
  obtain ⟨hx, h1⟩ := h.fetch
  obtain ⟨hh, h2⟩ := h1.fetch
  obtain ⟨hl, h3⟩ := h2.fetch
  rw [hrun, h.acon, hAM, ← hx, ← hh, ← hl]
  exact ⟨rfl, h3⟩

/-- A call of an instruction leads to its operand. -/
theorem lcall_to_PC (addr : Nat) {t : Machine σ} (hAM : AM1 t.acon = true) :
    ((lcall_to 0 addr).run t).2.PC = addr := by
  have hbeside := ((t.push_beside (lowByte t.PC)).trans ((t.push (lowByte t.PC)).push_beside (highByte t.PC)))
  have hrun : ((lcall_to 0 addr).run t).2 = ((do
      if AM1 ((t.push (lowByte t.PC)).push (highByte t.PC)).acon then
        push_byte (xByte t.PC)
        set_PC (if (0 : BitVec 16) ≠ 0 then (0 : BitVec 16).toNat else addr)
      else if (0 : BitVec 16) ≠ 0 then
        set_PC (0 : BitVec 16).toNat
        stack_write (← stack_op (.intr (0 : BitVec 16).toNat t.PC) t.sp)
      else
        set_PC addr
        stack_write (← stack_op (.call addr t.PC) t.sp)
      return .go : Prog σ Res).run ((t.push (lowByte t.PC)).push (highByte t.PC))).2 := rfl
  rw [hrun, hbeside.acon, hAM, if_pos rfl]
  rfl

theorem conversion_cases {code : UChar} {e : DisEntry} (h : disass_390f code = some e) :
    e.conversion = .A ∧ (code &&& 0x1f = 0x01 ∨ code &&& 0x1f = 0x11) ∨
      e.conversion = .l ∧ (code = 0x02 ∨ code = 0x12) := by
  unfold disass_390f at h
  split at h
  case isTrue hcode =>
    cases h
    exact .inl ⟨rfl, .inl hcode⟩
  case isFalse =>
    split at h
    case isTrue hcode =>
      cases h
      exact .inl ⟨rfl, .inr hcode⟩
    case isFalse =>
      split at h
      case isTrue hcode =>
        cases h
        exact .inr ⟨rfl, .inl hcode⟩
      case isFalse =>
        split at h
        case isTrue hcode =>
          cases h
          exact .inr ⟨rfl, .inr hcode⟩
        case isFalse => cases h

/-- The codes of the jumps are not those of instructions with the stack. -/
theorem dispatch_rest : ∀ code : UChar, code &&& 0x1f = 0x01 ∨ code = 0x02 →
    code &&& 0x1f ≠ 0x11 ∧ code ∉ [0x12, 0x22, 0x32, 0xc0, 0xd0] := by decide

theorem step_jump {code : UChar} (hnext : s.next = code) (hcode : code &&& 0x1f = 0x01 ∨ code = 0x02) :
    s.step (withJumps R) = ((withJumps R).inst code s.started).2 := by
  obtain ⟨hacall, hothers⟩ := dispatch_rest code hcode
  simp only [List.mem_cons, List.not_mem_nil, or_false, not_or] at hothers
  obtain ⟨hlcall, hret, hreti, hpush, hpop⟩ := hothers
  rw [Machine.step_eq hnext, dispatch, if_neg hacall, if_neg hlcall, if_neg hret, if_neg hreti, if_neg hpush,
    if_neg hpop]
  rfl

theorem step_absolute (hPC : s.PC < 0x20000) (hAM : AM1 s.acon = true)
    (hcode : s.codeByte s.PC &&& 0x1f = 0x01 ∨ s.codeByte s.PC &&& 0x1f = 0x11) :
    (s.step (withJumps R)).PC =
      (((s.PC + 3) % 0x20000) &&& 0xf800) ||| Conversion.A.operand s.codeByte s.PC := by
  obtain ⟨hnext, hstarted⟩ := Machine.started_reads hPC
  have hAM' : AM1 s.started.acon = true := by rw [hstarted.acon, hAM]
  have hflat := ajmp_flat_PC (s.codeByte s.PC) hstarted
  rcases hcode with hcode | hcode
  · have hrun : ((inst_ajmp_addr (s.codeByte s.PC)).run s.started).2.PC = ((do
        if AM1 s.started.acon then ajmp_flat (s.codeByte s.PC) else ajmp_stock (s.codeByte s.PC)
        tick 1
        return .go : Prog σ Res).run s.started).2.PC := rfl
    rw [step_jump R hnext (.inl hcode)]
    simp only [withJumps, if_pos hcode]
    rw [hrun, hAM', if_pos rfl]
    exact hflat
  · have hrun : ((inst_acall_addr (s.codeByte s.PC)).run s.started).2.PC = ((do
        if AM1 s.started.acon then acall_flat (s.codeByte s.PC) else acall_stock (s.codeByte s.PC)
        tick 1
        return .go : Prog σ Res).run s.started).2.PC := rfl
    -- the pushes do not touch the place in the program
    have hsame : ((acall_flat (s.codeByte s.PC)).run s.started).2.PC =
        ((ajmp_flat (s.codeByte s.PC)).run s.started).2.PC := rfl
    rw [Machine.step_eq hnext, dispatch, if_pos hcode, hrun, hAM', if_pos rfl]
    exact hsame.trans hflat

theorem step_long (hPC : s.PC < 0x20000) (hAM : AM1 s.acon = true)
    (hcode : s.codeByte s.PC = 0x02 ∨ s.codeByte s.PC = 0x12) :
    (s.step (withJumps R)).PC = Conversion.l.operand s.codeByte s.PC := by
  obtain ⟨hnext, hstarted⟩ := Machine.started_reads hPC
  obtain ⟨hvalue, hbehind⟩ := operand_flat hstarted hAM
  rcases hcode with hcode | hcode
  · have hrun : ((withJumps R).inst 0x02 s.started).2.PC = ((operand false).run s.started).1 := rfl
    rw [step_jump R (hnext.trans hcode) (.inr rfl), hrun, hvalue]
    rfl
  · have hrun : ((dispatch (withJumps R) 0x12).run s.started).2 =
        ((lcall_to 0 ((operand false).run s.started).1).run ((operand false).run s.started).2).2 := rfl
    rw [Machine.step_eq (hnext.trans hcode), hrun, lcall_to_PC _ (by rw [hbehind.acon, hAM]), hvalue]
    rfl

end Steps

/-! ## The target that is printed -/

/-- The bytes of the operand are the same to `disass` and to `fetch`, and an absolute branch whose operand lacks no
bit of the page of 2K behind it leads where `disass` says. -/
structure Machine.Agrees (s : Machine σ) (c : Conversion) : Prop where
  bytes : ∀ i < c.bytes, s.rom (s.PC + (i + 1)) = s.codeByte (s.PC + (i + 1))
  page : c = .A → PageBits ((s.PC + 3) % 0x20000) (c.operand s.codeByte s.PC)

theorem step_PC_lt (R : Rest σ) {s : Machine σ} {e : DisEntry} (hPC : s.PC < 0x20000) (hAM : AM1 s.acon = true)
    (he : disass_390f (s.codeByte s.PC) = some e) : (s.step (withJumps R)).PC < 0x1000000 := by
  rcases conversion_cases he with ⟨-, hcode⟩ | ⟨-, hcode⟩
  · have hpage : ((s.PC + 3) % 0x20000) &&& 0xf800 < 2 ^ 24 :=
      Nat.and_lt_two_pow _ (by decide : 0xf800 < 2 ^ 24)
    rw [step_absolute R hPC hAM hcode]
    exact Nat.or_lt_two_pow hpage (operand_lt _ _ .A)
  · rw [step_long R hPC hAM hcode]
    exact operand_lt _ _ .l

/-- What is printed is an address of 24 bits, and so it is the target if the digits are. -/
theorem lands_iff_value (R : Rest σ) {s : Machine σ} {e : DisEntry} (hPC : s.PC < 0x20000) (hAM : AM1 s.acon = true)
    (he : disass_390f (s.codeByte s.PC) = some e) (sep : Option (List Char)) :
    s.Lands R sep ↔ (s.step (withJumps R)).PC = e.conversion.operand s.rom s.PC := by
  have hcode : s.codeByte s.PC = s.rom s.PC := by rw [Machine.codeByte, Nat.mod_eq_of_lt hPC]
  have htext : disass s.rom s.PC sep = some (e.name ++ sep.getD (List.replicate (6 - e.name.length) ' ') ++
      hex6 (e.conversion.operand s.rom s.PC)) := by
    rw [disass, ← hcode, he, Option.map_some, value_eq_operand hPC]
  rw [Machine.Lands, htext]
  constructor
  · rintro ⟨mnemonic, hsame⟩
    have hdigits := (List.append_inj' (Option.some.inj hsame) rfl).2
    exact (hex6_inj (operand_lt _ _ _) (step_PC_lt R hPC hAM he) hdigits).symm
  · intro hsame
    exact ⟨_, by rw [hsame]⟩

/-- With 24-bit addresses a branch leads to the address that `disass` prints if and only if `disass` sees the bytes
of its operand and, for `AJMP` and `ACALL`, the operand has the bits 11 to 15 of the address behind the branch. -/
theorem lands_iff (R : Rest σ) {s : Machine σ} {e : DisEntry} (hPC : s.PC < 0x20000) (hAM : AM1 s.acon = true)
    (he : disass_390f (s.rom s.PC) = some e) (sep : Option (List Char)) :
    s.Lands R sep ↔ s.Agrees e.conversion := by
  have hcode : s.codeByte s.PC = s.rom s.PC := by rw [Machine.codeByte, Nat.mod_eq_of_lt hPC]
  rw [← hcode] at he
  have hbytes := operand_eq_iff hcode.symm e.conversion
  rw [lands_iff_value R hPC hAM he]
  rcases conversion_cases he with ⟨hA, hbranch⟩ | ⟨hl, hbranch⟩
  · rw [hA] at hbytes ⊢
    rw [step_absolute R hPC hAM hbranch]
    constructor
    · intro hsame
      -- behind the end of code memory `fetch` is in the first 2K, where no bit is missing
      by_cases hwrap : s.PC + 3 < 0x20000
      · have hread : ∀ i < Conversion.A.bytes, s.rom (s.PC + (i + 1)) = s.codeByte (s.PC + (i + 1)) := by
          intro i hi
          rw [Conversion.bytes] at hi
          rw [Machine.codeByte, Nat.mod_eq_of_lt (by omega)]
        rw [hbytes.mpr hread] at hsame
        exact ⟨hread, fun _ => (page_or_eq_iff _ _).mp hsame⟩
      · have hlow : (s.PC + 3) % 0x20000 < 2 ^ 11 := by omega
        have hpage : PageBits ((s.PC + 3) % 0x20000) (Conversion.A.operand s.codeByte s.PC) := by
          intro i hi _ hbit
          have hpow : 2 ^ 11 ≤ 2 ^ i := Nat.pow_le_pow_right Nat.two_pos hi
          rw [Nat.testBit_lt_two_pow (hlow.trans_le hpow)] at hbit
          exact absurd hbit Bool.false_ne_true
        rw [(page_or_eq_iff _ _).mpr hpage] at hsame
        exact ⟨hbytes.mp hsame.symm, fun _ => hpage⟩
    · rintro ⟨hread, hpage⟩
      rw [(page_or_eq_iff _ _).mpr (hpage rfl), hbytes.mpr hread]
  · rw [hl] at hbytes ⊢
    rw [step_long R hPC hAM hbranch, eq_comm, hbytes]
    constructor
    · intro hread
      exact ⟨hread, fun h => absurd h (by decide)⟩
    · intro h
      exact h.bytes

/-- `AJMP 0x10F34` at 0x805. -/
def jumping : Machine Unit :=
  { booted 0xfa fun a => if a = 0x805 then 0x21 else if a = 0x806 then 0x0f else if a = 0x807 then 0x34 else 0 with
    PC := 0x805 }

/-- The jump goes where it is shown to go. -/
theorem lands_iff_jumping : jumping.Lands plain none ∧ (jumping.step (withJumps plain)).PC = 0x10f34 := by
  have hbits : PageBits ((jumping.PC + 3) % 0x20000) (Conversion.A.operand jumping.codeByte jumping.PC) :=
    (page_or_eq_iff _ _).mp (by decide)
  have hagrees : jumping.Agrees .A := ⟨by decide, fun _ => hbits⟩
  have he : disass_390f (jumping.rom jumping.PC) = some ⟨['A', 'J', 'M', 'P'], .A⟩ := by decide
  exact ⟨(lands_iff plain (by decide) (by decide) he none).mpr hagrees, by decide⟩

/-- `AJMP 0` at 0x7fd leads to 0x800. -/
def jumping_behind : Machine Unit :=
  { booted 0xfa fun a => if a = 0x7fd then 0x01 else 0 with PC := 0x7fd }

/-- It is shown as a jump to 0. -/
theorem jumping_behind_misses : ¬jumping_behind.Lands plain none ∧
    disass jumping_behind.rom 0x7fd none = some ['A', 'J', 'M', 'P', ' ', ' ', '0', '0', '0', '0', '0', '0'] ∧
    (jumping_behind.step (withJumps plain)).PC = 0x800 := by
  have hPC : (jumping_behind.step (withJumps plain)).PC = 0x800 := by decide
  have htext : disass jumping_behind.rom 0x7fd none =
      some ['A', 'J', 'M', 'P', ' ', ' ', '0', '0', '0', '0', '0', '0'] := by decide
  refine ⟨?_, htext, hPC⟩
  rintro ⟨mnemonic, h⟩
  have hsame : ['A', 'J', 'M', 'P', ' ', ' '] ++ ['0', '0', '0', '0', '0', '0'] =
      mnemonic ++ hex6 (jumping_behind.step (withJumps plain)).PC := Option.some.inj (htext.symm.trans h)
  have hdigits := (List.append_inj' hsame rfl).2
  rw [hPC] at hdigits
  exact absurd hdigits (by decide)

end Ucsim.S51.Uc390
