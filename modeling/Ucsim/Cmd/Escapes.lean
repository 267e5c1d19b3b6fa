import Mathlib.Data.BitVec
import Mathlib.Data.List.TakeWhile

/-!
# Escape sequences in the strings of commands

`proc_escape` copies a C string to a new buffer and replaces the escape sequences in it. Characters are
their codes. The terminating NUL of a C string is the end of the list, which is why no character of the
list is NUL; the bytes that are written may be.
-/

namespace Ucsim.Cmd

abbrev Byte := BitVec 8

/-- The code of a character. -/
def chr (c : Char) : Byte := BitVec.ofNat 8 c.toNat

/-- The code of the backslash. -/
def backslash : Byte := 0x5C

/-- A string up to its terminating NUL. -/
structure CString where
  chars : List Byte
  ne_zero : ∀ c ∈ chars, c ≠ 0

/-- Memory from `malloc` with places for `size` elements, filled from its start. -/
structure Buffer (α : Type) where
  size : Nat
  written : List α
  fits : written.length ≤ size

namespace Buffer

variable {α : Type}

def malloc (size : Nat) : Buffer α := ⟨size, [], Nat.zero_le size⟩

theorem fits_append {written : List α} {size : Nat} (h : written.length < size) (x : α) :
    (written ++ [x]).length ≤ size := by
  rw [List.length_append]
  exact h

/-- `*p++= x`. There is no result when `p` is behind the buffer. -/
def put (p : Buffer α) (x : α) : Option (Buffer α) :=
  if h : p.written.length < p.size then some ⟨p.size, p.written ++ [x], fits_append h x⟩ else none

@[simp] theorem malloc_written (size : Nat) : (malloc size : Buffer α).written = [] := rfl

@[simp] theorem malloc_size (size : Nat) : (malloc size : Buffer α).size = size := rfl

theorem put_spec {p : Buffer α} (x : α) (h : p.written.length < p.size) :
    ∃ q, p.put x = some q ∧ q.size = p.size ∧ q.written = p.written ++ [x] :=
  ⟨_, dif_pos h, rfl, rfl⟩

end Buffer

/-! ## The scanner -/

/-- `spec_chars`. -/
def specChars : List Byte :=
  [chr 'f', chr 'n', chr 'r', chr 't', chr 'v', chr 'a', chr 'b', 0x22]

/-- `spec`. -/
def spec : List Byte := [0x0C, 0x0A, 0x0D, 0x09, 0x0B, 0x07, 0x08, 0x22]

/-- `spec[strchr(spec_chars, c)-spec_chars]`. -/
def specOf (c : Byte) : Option Byte := (specChars.zip spec).lookup c

/-- `isdigit`. -/
def isDigit (c : Byte) : Bool := 0x30 ≤ c.toNat ∧ c.toNat ≤ 0x39

/-- A character of `"01234567"`. -/
def isOctal (c : Byte) : Bool := 0x30 ≤ c.toNat ∧ c.toNat ≤ 0x37

/-- `strspn(s, "01234567")`. -/
def octalSpan (s : List Byte) : Nat := (s.takeWhile isOctal).length

/-- The number with these octal digits. -/
def octalValue (digits : List Byte) : Nat :=
  digits.foldl (fun v c => 8 * v + (c.toNat - 0x30)) 0

/-- `LONG_MAX`; `long` has 64 bits. -/
def longMax : Nat := 2 ^ 63 - 1

/-- `strtol(s, &chk, 8)` where `s` begins with a digit: the number, at most `LONG_MAX`, and `chk`. -/
def strtol8 (s : List Byte) : Nat × List Byte :=
  (min (octalValue (s.takeWhile isOctal)) longMax, s.dropWhile isOctal)

/-- The loop of `proc_escape`: `s` is the rest of the string, `p` the buffer. -/
def escapeLoop (s : List Byte) (p : Buffer Byte) : Option (Buffer Byte) :=
  match s with
  | [] => some p
  | [c] => do
    -- a backslash at the end of the string is copied as well
    let p ← p.put c
    escapeLoop [] p
  | c :: d :: rest =>
    if c = backslash then
      if d = chr '0' then
        if !isDigit (rest.headD 0) then do
          let p ← p.put 0
          escapeLoop rest p
        else
          let i := octalSpan (d :: rest)
          let octal := (d :: rest).take i
          let (data, chk) := strtol8 octal
          if chk = [] then do
            let p ← p.put (BitVec.ofNat 8 data)
            escapeLoop ((d :: rest).drop i) p
          else escapeLoop ((d :: rest).drop i) p
      else
        match specOf d with
        | some x => do
          let p ← p.put x
          escapeLoop rest p
        | none => do
          let p ← p.put d
          escapeLoop rest p
    else do
      let p ← p.put c
      escapeLoop (d :: rest) p
termination_by s.length
decreasing_by
  all_goals simp only [List.length_cons, List.length_drop, List.length_nil]
  all_goals omega

/-- `proc_escape`: the buffer and `*len`. -/
def procEscape (string : CString) : Option (Buffer Byte × Nat) := do
  let p ← escapeLoop string.chars (Buffer.malloc (string.chars.length + 1))
  let str ← p.put 0
  return (str, p.written.length)

/-! ## What the loop does with each form -/

theorem escapeLoop_nil (p : Buffer Byte) : escapeLoop [] p = some p := by
  rw [escapeLoop]

theorem escapeLoop_raw {c : Byte} (hc : c ≠ backslash) (s : List Byte) (p : Buffer Byte) :
    escapeLoop (c :: s) p = (p.put c).bind (escapeLoop s) := by
  cases s with
  | nil =>
    rw [escapeLoop]
    rfl
  | cons d rest =>
    rw [escapeLoop, if_neg hc]
    rfl

theorem escapeLoop_letter {c x : Byte} (h0 : c ≠ chr '0') (hx : specOf c = some x) (s : List Byte)
    (p : Buffer Byte) : escapeLoop (backslash :: c :: s) p = (p.put x).bind (escapeLoop s) := by
  rw [escapeLoop, if_pos rfl, if_neg h0]
  simp only [hx]
  rfl

theorem escapeLoop_other {c : Byte} (h0 : c ≠ chr '0') (hc : specOf c = none) (s : List Byte)
    (p : Buffer Byte) : escapeLoop (backslash :: c :: s) p = (p.put c).bind (escapeLoop s) := by
  rw [escapeLoop, if_pos rfl, if_neg h0]
  simp only [hc]
  rfl

theorem escapeLoop_nul {s : List Byte} (hs : isDigit (s.headD 0) = false) (p : Buffer Byte) :
    escapeLoop (backslash :: chr '0' :: s) p = (p.put 0).bind (escapeLoop s) := by
  rw [escapeLoop, if_pos rfl, if_pos rfl, if_pos (by rw [hs]; rfl)]
  rfl

/-- All octal digits `ds` behind `\0` belong to the escape. -/
theorem escapeLoop_octal {ds s : List Byte} (hd : isDigit ((ds ++ s).headD 0) = true)
    (hds : ∀ c ∈ ds, isOctal c = true) (hs : s.takeWhile isOctal = []) (p : Buffer Byte) :
    escapeLoop (backslash :: chr '0' :: (ds ++ s)) p =
      (p.put (BitVec.ofNat 8 (min (octalValue ds) longMax))).bind (escapeLoop s) := by
  have hall : ∀ c ∈ chr '0' :: ds, isOctal c = true := by
    intro c hc
    rcases List.mem_cons.1 hc with rfl | hc
    · rfl
    · exact hds c hc
  have hspan : octalSpan (chr '0' :: ds ++ s) = (chr '0' :: ds).length := by
    rw [octalSpan, List.takeWhile_append_of_pos hall, hs, List.append_nil]
  have hself : (chr '0' :: ds).takeWhile isOctal = chr '0' :: ds :=
    List.takeWhile_eq_self_iff.2 hall
  have hnone : (chr '0' :: ds).dropWhile isOctal = [] := List.dropWhile_eq_nil_iff.2 hall
  have hvalue : octalValue (chr '0' :: ds) = octalValue ds := by simp [octalValue, chr]
  rw [escapeLoop, if_pos rfl, if_pos rfl, if_neg (by rw [hd]; decide)]
  simp only [← List.cons_append, hspan, List.take_left', List.drop_left', strtol8, hself, hnone, hvalue]
  rfl

/-- Each round of the loop writes one byte and goes on behind the characters it has read. -/
theorem escapeLoop_round (c : Byte) (s : List Byte) :
    ∃ x rest, rest.length ≤ s.length ∧ ∀ p, escapeLoop (c :: s) p = (p.put x).bind (escapeLoop rest) := by
  by_cases hc : c = backslash
  · subst hc
    cases s with
    | nil =>
      refine ⟨backslash, [], Nat.le_refl _, fun p => ?_⟩
      rw [escapeLoop]
      rfl
    | cons d rest =>
      by_cases h0 : d = chr '0'
      · subst h0
        cases hdigit : isDigit (rest.headD 0) with
        | false => exact ⟨0, rest, by simp, escapeLoop_nul hdigit⟩
        | true =>
          -- the escape ends before the first character that is no octal digit
          have hsplit : rest.takeWhile isOctal ++ rest.dropWhile isOctal = rest :=
            List.takeWhile_append_dropWhile
          have hstop : (rest.dropWhile isOctal).takeWhile isOctal = [] := by
            cases hdrop : rest.dropWhile isOctal with
            | nil => rfl
            | cons d s =>
              have hd : ¬ isOctal d = true := by
                have := List.head_dropWhile_not isOctal (by rw [hdrop]; simp) (l := rest)
                simpa [hdrop] using this
              simp [hd]
          refine ⟨BitVec.ofNat 8 (min (octalValue (rest.takeWhile isOctal)) longMax),
            rest.dropWhile isOctal, ?_, fun p => ?_⟩
          · exact (List.length_dropWhile_le isOctal rest).trans (Nat.le_succ _)
          · have hround : escapeLoop (backslash :: chr '0' :: (rest.takeWhile isOctal ++ rest.dropWhile isOctal)) p = _ :=
              escapeLoop_octal (by rw [hsplit, hdigit]) (fun c hc => List.mem_takeWhile_imp hc) hstop p
            rw [hsplit] at hround
            exact hround
      · cases hx : specOf d with
        | some x => exact ⟨x, rest, by simp, escapeLoop_letter h0 hx rest⟩
        | none => exact ⟨d, rest, by simp, escapeLoop_other h0 hx rest⟩
  · exact ⟨c, s, Nat.le_refl _, escapeLoop_raw hc s⟩

/-! ## The bounds of the buffer -/

/-- One byte for each character of the string is enough. -/
theorem escapeLoop_spec (s : List Byte) (p : Buffer Byte) (h : p.written.length + s.length < p.size) :
    ∃ q, escapeLoop s p = some q ∧ q.size = p.size ∧
      q.written.length ≤ p.written.length + s.length := by
  induction hn : s.length using Nat.strong_induction_on generalizing s p with
  | _ n ih =>
    cases s with
    | nil => exact ⟨p, escapeLoop_nil p, rfl, by omega⟩
    | cons c s =>
      obtain ⟨x, rest, hrest, hround⟩ := escapeLoop_round c s
      simp only [List.length_cons] at h hn
      obtain ⟨q, hq, hsize, hwritten⟩ := p.put_spec x (by omega)
      have hlength : q.written.length = p.written.length + 1 := by simp [hwritten]
      obtain ⟨r, hr, hrsize, hrlength⟩ := ih rest.length (by omega) rest q (by omega) rfl
      exact ⟨r, by rw [hround, hq, Option.bind_some, hr], by omega, by omega⟩

/-! ## Texts of a sequence of bytes -/

/-- The letter escapes: the letter and the byte it stands for. -/
def letterEscapes : List (Byte × Byte) :=
  [(chr 'a', 0x07), (chr 'b', 0x08), (chr 't', 0x09), (chr 'n', 0x0A), (chr 'v', 0x0B), (chr 'f', 0x0C),
    (chr 'r', 0x0D), (0x22, 0x22)]

/-- The octal digit with the value `d`. -/
def octalDigit (d : Nat) : Byte := BitVec.ofNat 8 (0x30 + d)

/-- The three octal digits of a byte. -/
def threeDigits (b : Byte) : List Byte :=
  [octalDigit (b.toNat / 64), octalDigit (b.toNat / 8 % 8), octalDigit (b.toNat % 8)]

/-- `Writes o b t`: the text `t` writes the bytes `b`. `o` says that an octal escape stands directly
before the text. -/
inductive Writes : Bool → List Byte → List Byte → Prop
  | nil (o : Bool) : Writes o [] []
  | raw {o : Bool} {x : Byte} {b t : List Byte} :
      x ≠ backslash → x ≠ 0 → (o = true → isOctal x = false) → Writes false b t →
        Writes o (x :: b) (x :: t)
  | letter {o : Bool} {c x : Byte} {b t : List Byte} :
      (c, x) ∈ letterEscapes → Writes false b t → Writes o (x :: b) (backslash :: c :: t)
  | octal {o : Bool} (x : Byte) {b t : List Byte} :
      Writes true b t → Writes o (x :: b) (backslash :: chr '0' :: (threeDigits x ++ t))

theorem letterEscapes_spec :
    ∀ e ∈ letterEscapes, e.1 ≠ chr '0' ∧ specOf e.1 = some e.2 := by
  intro e he
  simp only [letterEscapes, List.mem_cons, List.not_mem_nil, or_false] at he
  rcases he with rfl | rfl | rfl | rfl | rfl | rfl | rfl | rfl
  all_goals exact ⟨by decide, rfl⟩

theorem octalDigit_toNat {d : Nat} (h : d < 8) : (octalDigit d).toNat = 0x30 + d := by
  rw [octalDigit, BitVec.toNat_ofNat, Nat.mod_eq_of_lt (by omega)]

theorem isOctal_octalDigit {d : Nat} (h : d < 8) : isOctal (octalDigit d) = true := by
  rw [isOctal, octalDigit_toNat h, decide_eq_true_iff]
  omega

theorem isDigit_of_isOctal {c : Byte} (h : isOctal c = true) : isDigit c = true := by
  simp only [isOctal, isDigit, decide_eq_true_iff] at h ⊢
  omega

theorem threeDigits_octal (x : Byte) :
    (∀ c ∈ threeDigits x, isOctal c = true) ∧ octalValue (threeDigits x) = x.toNat := by
  have hx : x.toNat < 256 := x.isLt
  have h2 : x.toNat / 64 < 8 := by omega
  have h1 : x.toNat / 8 % 8 < 8 := by omega
  have h0 : x.toNat % 8 < 8 := by omega
  constructor
  · simp [threeDigits, isOctal_octalDigit h2, isOctal_octalDigit h1, isOctal_octalDigit h0]
  · simp only [threeDigits, octalValue, List.foldl_cons, List.foldl_nil, octalDigit_toNat h2,
      octalDigit_toNat h1, octalDigit_toNat h0]
    omega

namespace Writes

variable {b t : List Byte}

/-- Behind an octal escape stands no octal digit. -/
theorem takeWhile_octal (h : Writes true b t) : t.takeWhile isOctal = [] := by
  cases h with
  | nil => rfl
  | raw _ _ ho _ => simp [ho rfl]
  | letter _ _ => rfl
  | octal _ _ => rfl

/-- The text is not shorter than the bytes. -/
theorem length_le {o : Bool} (h : Writes o b t) : b.length ≤ t.length := by
  induction h with
  | nil _ => exact Nat.le_refl _
  | raw _ _ _ _ ih => simpa using ih
  | letter _ _ ih =>
    simp only [List.length_cons]
    omega
  | octal x _ ih =>
    simp only [List.length_cons, List.length_append]
    omega

/-- The loop writes the bytes of the text. -/
theorem escapeLoop_eq {o : Bool} (h : Writes o b t) (p : Buffer Byte) (hfits : p.written.length + b.length ≤ p.size) :
    ∃ q, escapeLoop t p = some q ∧ q.size = p.size ∧ q.written = p.written ++ b := by
  induction h generalizing p with
  | nil _ => exact ⟨p, escapeLoop_nil p, rfl, by simp⟩
  | @raw o x b t hx _ _ _ ih =>
    simp only [List.length_cons] at hfits
    obtain ⟨q, hq, hsize, hwritten⟩ := p.put_spec x (by omega)
    obtain ⟨r, hr, hrsize, hrwritten⟩ := ih q (by simp [hwritten]; omega)
    refine ⟨r, ?_, by omega, by simp [hrwritten, hwritten]⟩
    rw [escapeLoop_raw hx, hq, Option.bind_some, hr]
  | @letter o c x b t hc _ ih =>
    simp only [List.length_cons] at hfits
    obtain ⟨h0, hspec⟩ := letterEscapes_spec _ hc
    obtain ⟨q, hq, hsize, hwritten⟩ := p.put_spec x (by omega)
    obtain ⟨r, hr, hrsize, hrwritten⟩ := ih q (by simp [hwritten]; omega)
    refine ⟨r, ?_, by omega, by simp [hrwritten, hwritten]⟩
    rw [escapeLoop_letter h0 hspec, hq, Option.bind_some, hr]
  | @octal o x b t htext ih =>
    simp only [List.length_cons] at hfits
    obtain ⟨hall, hvalue⟩ := threeDigits_octal x
    have hdigit : isDigit ((threeDigits x ++ t).headD 0) = true :=
      isDigit_of_isOctal (hall _ List.mem_cons_self)
    -- a byte is below `LONG_MAX`
    have hmin : BitVec.ofNat 8 (min (octalValue (threeDigits x)) longMax) = x := by
      have hlt : x.toNat ≤ longMax := le_trans (Nat.le_of_lt x.isLt) (by decide)
      rw [hvalue, Nat.min_eq_left hlt, BitVec.ofNat_toNat, BitVec.setWidth_eq]
    obtain ⟨q, hq, hsize, hwritten⟩ := p.put_spec x (by omega)
    obtain ⟨r, hr, hrsize, hrwritten⟩ := ih q (by simp [hwritten]; omega)
    refine ⟨r, ?_, by omega, by simp [hrwritten, hwritten]⟩
    rw [escapeLoop_octal hdigit hall htext.takeWhile_octal, hmin, hq, Option.bind_some, hr]

end Writes

/-! ## `proc_escape` -/

/-- `proc_escape` returns a buffer that begins with the bytes it has counted and a NUL. -/
structure Escaped (string : CString) (bytes : List Byte) (r : Buffer Byte × Nat) : Prop where
  result : procEscape string = some r
  size : r.1.size = string.chars.length + 1
  written : r.1.written = bytes ++ [0]
  len : r.2 = bytes.length
  length_le : bytes.length ≤ string.chars.length

/-- What the loop writes is what `proc_escape` returns. -/
theorem escaped_of_loop {string : CString} {q : Buffer Byte}
    (hq : escapeLoop string.chars (Buffer.malloc (string.chars.length + 1)) = some q)
    (hsize : q.size = string.chars.length + 1) (hlength : q.written.length ≤ string.chars.length) :
    ∃ r, Escaped string q.written r := by
  obtain ⟨str, hstr, hstrsize, hwritten⟩ := q.put_spec 0 (by omega)
  refine ⟨(str, q.written.length), ?_, hstrsize.trans hsize, hwritten, rfl, hlength⟩
  simp only [procEscape, hq, Option.bind_eq_bind, Option.bind_some, hstr, Option.pure_def]

/-- `proc_escape` returns for every string, without writing behind its buffer. -/
theorem exists_escaped (string : CString) : ∃ bytes r, Escaped string bytes r := by
  obtain ⟨q, hq, hsize, hlength⟩ :=
    escapeLoop_spec string.chars (Buffer.malloc (string.chars.length + 1)) (by simp)
  exact ⟨q.written, escaped_of_loop hq (by simpa using hsize) (by simpa using hlength)⟩

/-- The bytes of a text are what `proc_escape` makes of it. -/
theorem escaped_of_writes {bytes : List Byte} {string : CString} (h : Writes false bytes string.chars) :
    ∃ r, Escaped string bytes r := by
  have hlength := h.length_le
  obtain ⟨q, hq, hsize, hwritten⟩ :=
    h.escapeLoop_eq (Buffer.malloc (string.chars.length + 1)) (by simp; omega)
  have heq : q.written = bytes := by simpa using hwritten
  rw [← heq]
  exact escaped_of_loop hq (by simpa using hsize) (by rw [heq]; exact hlength)

/-- Bytes survive being written as a text with escapes and read back. -/
theorem procEscape_round_trip (string : CString) :
    (∃ bytes r, Escaped string bytes r) ∧
      ∀ bytes, Writes false bytes string.chars → ∃ r, Escaped string bytes r :=
  ⟨exists_escaped string, fun _ => escaped_of_writes⟩

end Ucsim.Cmd
