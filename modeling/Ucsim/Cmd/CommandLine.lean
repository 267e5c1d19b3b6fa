import Ucsim.Cmd.Escapes
import Mathlib.Data.List.DropRight
import Mathlib.Data.Nat.Digits.Lemmas

/-!
# Command lines

`split` takes the name of the command from a line and makes an argument of each word behind it: a string, a number, a
symbol, a bit or an element of an array. Redirections go to the console. `shift` drops the name and splits the rest. A
line is a C string, which ends with the list.
-/

namespace Ucsim.Cmd

/-! ## Characters and numbers -/

/-- The delimiters: `strchr(" \t\v\r,", c)`. -/
def isDelim (c : Byte) : Bool := [0x20, 0x09, 0x0B, 0x0D, 0x2C].contains c

/-- The quotation mark. -/
def quote : Byte := 0x22

/-- `skip_delims`. -/
def skipDelims (start : List Byte) : List Byte := start.dropWhile isDelim

/-- The characters up to the next delimiter: `strcspn(start, " \t\v\r,")` of them. -/
def word (start : List Byte) : List Byte := start.takeWhile (!isDelim ·)

/-- What follows them. -/
def afterWord (start : List Byte) : List Byte := start.dropWhile (!isDelim ·)

/-- `isspace`. -/
def isSpace (c : Byte) : Bool := c.toNat = 0x20 ∨ 9 ≤ c.toNat ∧ c.toNat ≤ 13

/-- The digit that a character stands for, in bases up to 36. -/
def digitOf (c : Byte) : Nat :=
  if 0x30 ≤ c.toNat ∧ c.toNat ≤ 0x39 then c.toNat - 0x30
  else if 0x61 ≤ c.toNat ∧ c.toNat ≤ 0x7A then c.toNat - 0x61 + 10
  else if 0x41 ≤ c.toNat ∧ c.toNat ≤ 0x5A then c.toNat - 0x41 + 10
  else 36

/-- The number at the start of a string. -/
def numberIn (base : Nat) (s : List Byte) : Nat :=
  (s.takeWhile fun c => digitOf c < base).foldl (fun n c => base * n + digitOf c) 0

/-- The string goes on with `0x` and a digit. -/
def hexPrefix (s : List Byte) : Bool :=
  match s with
  | a :: x :: d :: _ => a = chr '0' && (x = chr 'x' || x = chr 'X') && digitOf d < 16
  | _ => false

/-- The number behind the sign; the base is that of a constant in C. -/
def magnitude (s : List Byte) : Nat :=
  if hexPrefix s then numberIn 16 (s.drop 2)
  else if s.head? = some (chr '0') then numberIn 8 s
  else numberIn 10 s

/-- A number with its sign, within the range of a `long`. -/
def toLong (negative : Bool) (n : Nat) : BitVec 64 :=
  if negative then BitVec.ofInt 64 (-(min n (longMax + 1) : Nat)) else BitVec.ofInt 64 (min n longMax : Nat)

/-- `strtol(s, 0, 0)`. -/
def strtol0 (s : List Byte) : BitVec 64 :=
  match s.dropWhile isSpace with
  | [] => 0
  | c :: rest =>
    if c = chr '-' then toLong true (magnitude rest)
    else if c = chr '+' then toLong false (magnitude rest)
    else toLong false (magnitude (c :: rest))

/-! ## Splitting -/

/-- The classes derived from `cl_cmd_arg`. -/
inductive Arg
  | int (i_value : BitVec 64)
  | sym (name : List Byte)
  | str (text : List Byte)
  | bit (sfr bit : Arg)
  | array (name index : Arg)
  deriving DecidableEq, Repr

/-- What splitting calls on the console. -/
inductive ConCall
  | ddPrintf (format : String)
  | redirect (fname : List Byte) (mode : Byte)
  deriving DecidableEq, Repr

/-- What becomes of a word: what is added to `tokens` and to `params`, and the calls on the console. -/
structure Piece where
  token : List Byte
  params : List Arg
  con : List ConCall
  deriving DecidableEq, Repr

/-- The loop of `split_out_string`: how many characters are in front of the closing quotation mark. -/
def stringLength : List Byte → Nat
  | [] => 0
  | [c] => if c = quote then 0 else 1
  | c :: d :: s =>
    if c = quote then 0
    else if c = backslash then stringLength s + 2
    else stringLength (d :: s) + 1

/-- `split_out_string`, behind the opening quotation mark. The second component is `*_end`. -/
def splitOutString (start : List Byte) : Piece × List Byte :=
  let n := stringLength start
  let text := start.take n
  match start.drop n with
  | [] => ({ token := text, params := [.str text], con := [.ddPrintf "Unterminated string\n"] }, [])
  | _ :: rest => ({ token := text, params := [.str text], con := [] }, rest)

/-- `split_out_output_redirection`, behind the `>`. -/
def splitOutOutputRedirection (start : List Byte) : Piece × List Byte :=
  let w := word start
  let (n, mode) := if w.head? = some (chr '>') then (w.drop 1, chr 'a') else (w, chr 'w')
  ({ token := n, params := [], con := [.redirect n mode] }, afterWord start)

/-- A part of a bit or of an element of an array. It is a number if it begins with a digit, or is empty: `strchr` finds
the terminating NUL. -/
def operand (s : List Byte) : Arg :=
  match s with
  | [] => .int (strtol0 s)
  | c :: _ => if isDigit c then .int (strtol0 s) else .sym s

/-- `split_out_bit`. -/
def splitOutBit (param_str dot : List Byte) : List Arg × List ConCall :=
  if dot = [] then ([], [.ddPrintf "Uncomplete bit address\n"]) else ([.bit (operand param_str) (operand dot)], [])

/-- The loop of `split_out_array` and the assignment behind it: the last `]` ends the index. Without one the first
character is left. -/
def arrayIndex (dot : List Byte) : List Byte :=
  match dot.rdropWhile (· ≠ chr ']') with
  | [] => dot.take 1
  | c :: s => (c :: s).dropLast

/-- `split_out_array`. -/
def splitOutArray (param_str dot : List Byte) : List Arg × List ConCall :=
  if dot = [] then ([], [.ddPrintf "Uncomplete array\n"])
  else if arrayIndex dot = [] then ([], [.ddPrintf "Uncomplete array index\n"])
  else ([.array (operand param_str) (operand (arrayIndex dot))], [])

/-- The characters that a number begins with. -/
def beginsNumber (c : Byte) : Bool := isDigit c || c = chr '-' || c = chr '+'

/-- The arguments made of a word that is neither a string nor a redirection. -/
def wordArgs (param_str : List Byte) : List Arg × List ConCall :=
  let dot := param_str.dropWhile (· ≠ chr '.')
  let bracket := param_str.dropWhile (· ≠ chr '[')
  if dot ≠ [] then splitOutBit (param_str.takeWhile (· ≠ chr '.')) (dot.drop 1)
  else if bracket ≠ [] then splitOutArray (param_str.takeWhile (· ≠ chr '[')) (bracket.drop 1)
  else if beginsNumber (param_str.headD 0) then ([.int (strtol0 param_str)], [])
  else ([.sym param_str], [])

/-- The body of the loop of `split`. -/
def splitPiece (start : List Byte) : Piece × List Byte :=
  match start with
  | [] => ({ token := [], params := [], con := [] }, [])
  | c :: s =>
    if c = quote then splitOutString s
    else if c = chr '>' then splitOutOutputRedirection s
    else
      let (params, con) := wordArgs (word (c :: s))
      ({ token := word (c :: s), params := params, con := con }, afterWord (c :: s))

theorem length_dropWhile_le {α : Type} (p : α → Bool) (l : List α) : (l.dropWhile p).length ≤ l.length :=
  (List.dropWhile_suffix p).length_le

/-- Each round of the loop of `split` goes forward. -/
theorem splitPiece_lt (c : Byte) (s : List Byte) : (skipDelims (splitPiece (c :: s)).2).length < (c :: s).length := by
  have hskip : ∀ l : List Byte, l.length ≤ s.length → (skipDelims l).length < (c :: s).length := fun l hl =>
    Nat.lt_succ_of_le ((length_dropWhile_le _ l).trans hl)
  unfold splitPiece
  dsimp only
  split
  · refine hskip _ ?_
    unfold splitOutString
    dsimp only
    cases hdrop : s.drop (stringLength s) with
    | nil => exact Nat.zero_le _
    | cons d rest =>
      have hlength := congrArg List.length hdrop
      rw [List.length_drop, List.length_cons] at hlength
      dsimp only
      omega
  · split
    · exact hskip _ (length_dropWhile_le _ s)
    · by_cases hc : isDelim c
      · -- a delimiter is skipped
        have hafter : afterWord (c :: s) = c :: s := by simp [afterWord, hc]
        have hdelims : skipDelims (c :: s) = skipDelims s := by simp [skipDelims, hc]
        dsimp only
        rw [hafter, hdelims]
        exact hskip s (Nat.le_refl _)
      · have hafter : afterWord (c :: s) = afterWord s := by simp [afterWord, hc]
        dsimp only
        rw [hafter]
        exact hskip _ (length_dropWhile_le _ s)

/-- The loop of `split`. -/
def splitLoop (start : List Byte) : List Piece :=
  match start with
  | [] => []
  | c :: s => (splitPiece (c :: s)).1 :: splitLoop (skipDelims (splitPiece (c :: s)).2)
termination_by start.length
decreasing_by exact splitPiece_lt c s

/-- `cl_cmdline`, with the calls on its console. -/
structure CmdLine where
  cmd : List Byte
  name : Option (List Byte)
  params : List Arg
  tokens : List (List Byte)
  con : List ConCall
  deriving DecidableEq, Repr

/-- The newline, as the name of an empty command. -/
def newline : List Byte := [0x0A]

namespace CmdLine

/-- The parameters and tokens of a line behind its name. That their lists end at `max_list_size` is left out. -/
def addPieces (l : CmdLine) (pieces : List Piece) : CmdLine :=
  { l with
    params := l.params ++ pieces.flatMap (·.params)
    tokens := l.tokens ++ pieces.map (·.token)
    con := l.con ++ pieces.flatMap (·.con) }

/-- `split`. -/
def split (l : CmdLine) : CmdLine :=
  let start := skipDelims l.cmd
  if start = [] ∨ start.head? = some 0x0A then { l with name := some newline }
  else { l with name := some (word start) }.addPieces (splitLoop (skipDelims (afterWord start)))

/-- The constructor and `init`. -/
def new (acmd : List Byte) : CmdLine := split { cmd := acmd, name := none, params := [], tokens := [], con := [] }

/-- `shift`, and whether the line has a name then. -/
def shift (l : CmdLine) : CmdLine × Bool :=
  let s := skipDelims l.cmd
  if s = [] then ({ l with name := none }, false)
  else
    let l' := split { l with cmd := skipDelims (afterWord s), params := [] }
    if l'.name = some newline then ({ l' with name := none }, false) else (l', true)

end CmdLine

/-! ## Numbers in a command line -/

/-- The character of a decimal digit. -/
def digitChar (d : Nat) : Byte := BitVec.ofNat 8 (0x30 + d)

/-- The decimal digits of a number. -/
def decimalDigits (n : Nat) : List Byte := if n = 0 then [chr '0'] else ((Nat.digits 10 n).map digitChar).reverse

/-- A number in decimal. -/
def decimal (v : BitVec 64) : List Byte :=
  if v.toInt < 0 then chr '-' :: decimalDigits v.toInt.natAbs else decimalDigits v.toInt.natAbs

theorem digitChar_toNat {d : Nat} (h : d < 10) : (digitChar d).toNat = 0x30 + d := by
  rw [digitChar, BitVec.toNat_ofNat]
  omega

theorem digitOf_digitChar {d : Nat} (h : d < 10) : digitOf (digitChar d) = d := by
  rw [digitOf, digitChar_toNat h, if_pos (by omega)]
  omega

theorem isDigit_digitChar {d : Nat} (h : d < 10) : isDigit (digitChar d) = true := by
  simp only [isDigit, digitChar_toNat h, decide_eq_true_eq]
  omega

theorem isDigit_decimalDigits (n : Nat) : ∀ c ∈ decimalDigits n, isDigit c = true := by
  intro c hc
  unfold decimalDigits at hc
  split at hc
  · rw [List.mem_singleton.mp hc]
    rfl
  · obtain ⟨d, hd, rfl⟩ := List.mem_map.mp (List.mem_reverse.mp hc)
    exact isDigit_digitChar (Nat.digits_lt_base (by decide) hd)

theorem decimalDigits_ne_nil (n : Nat) : decimalDigits n ≠ [] := by
  unfold decimalDigits
  split
  · simp
  · next h => simpa using Nat.digits_ne_nil_iff_ne_zero.mpr h

/-- Reading the digits gives the number. -/
theorem numberIn_digits {base : Nat} (hbase : base ≤ 10) (l : List Nat) (hl : ∀ d ∈ l, d < base) :
    numberIn base ((l.map digitChar).reverse) = Nat.ofDigits base l := by
  have hall : ∀ c ∈ (l.map digitChar).reverse, decide (digitOf c < base) = true := by
    intro c hc
    obtain ⟨d, hd, rfl⟩ := List.mem_map.mp (List.mem_reverse.mp hc)
    simpa [digitOf_digitChar ((hl d hd).trans_le hbase)] using hl d hd
  rw [numberIn, List.takeWhile_eq_self_iff.mpr hall, List.foldl_reverse, List.foldr_map]
  clear hall
  induction l with
  | nil => rfl
  | cons d l ih =>
    have hd := hl d List.mem_cons_self
    have ih := ih fun x hx => hl x (List.mem_cons_of_mem d hx)
    rw [List.foldr_cons, ih, Nat.ofDigits_cons, digitOf_digitChar (hd.trans_le hbase), Nat.add_comm]

/-- No decimal number begins with `0x`. -/
theorem hexPrefix_decimalDigits (n : Nat) : hexPrefix (decimalDigits n) = false := by
  have hdigits := isDigit_decimalDigits n
  generalize decimalDigits n = s at hdigits
  match s with
  | [] | [_] | [_, _] => rfl
  | a :: x :: d :: _ =>
    have hx := hdigits x (by simp)
    have hne : ∀ y : Byte, isDigit y = false → x ≠ y := fun y hy heq => by
      rw [heq, hy] at hx
      cases hx
    simp [hexPrefix, hne (chr 'x') (by decide), hne (chr 'X') (by decide)]

theorem magnitude_decimalDigits (n : Nat) : magnitude (decimalDigits n) = n := by
  rw [magnitude, hexPrefix_decimalDigits, if_neg (by decide)]
  by_cases hn : n = 0
  · subst hn
    rfl
  · have hdigits : decimalDigits n = ((Nat.digits 10 n).map digitChar).reverse := if_neg hn
    have hlt : ∀ d ∈ Nat.digits 10 n, d < 10 := fun d hd => Nat.digits_lt_base (by decide) hd
    have hhead : (decimalDigits n).head? ≠ some (chr '0') := by
      have hnil := Nat.digits_ne_nil_iff_ne_zero (b := 10).mpr hn
      rw [hdigits, List.head?_reverse, List.getLast?_map, List.getLast?_eq_some_getLast hnil, Option.map_some, ne_eq,
        Option.some_inj]
      intro heq
      have hdigit := congrArg digitOf heq
      rw [digitOf_digitChar (hlt _ (List.getLast_mem hnil))] at hdigit
      exact Nat.getLast_digit_ne_zero 10 hn hdigit
    rw [if_neg hhead, hdigits, numberIn_digits (by decide) _ hlt, Nat.ofDigits_digits]

/-- A number of type `long` is read as it is written in decimal. -/
theorem strtol0_decimal (v : BitVec 64) : strtol0 (decimal v) = v := by
  have hle : -(2 ^ 63 : Int) ≤ v.toInt ∧ v.toInt < 2 ^ 63 := ⟨BitVec.le_toInt v, BitVec.toInt_lt⟩
  have hspace : ∀ c s, isSpace c = false → (c :: s).dropWhile isSpace = c :: s := fun c s hc => by
    rw [List.dropWhile_cons, hc]
    rfl
  by_cases hneg : v.toInt < 0
  · have hdecimal : decimal v = chr '-' :: decimalDigits v.toInt.natAbs := if_pos hneg
    rw [strtol0, hdecimal, hspace _ _ (by decide)]
    dsimp only
    rw [if_pos rfl, magnitude_decimalDigits, toLong, if_pos rfl]
    have hmin : min v.toInt.natAbs (longMax + 1) = v.toInt.natAbs := by
      rw [longMax]
      omega
    rw [hmin]
    have hvalue : (-(v.toInt.natAbs : Int)) = v.toInt := by omega
    rw [hvalue, BitVec.ofInt_toInt]
  · have hdecimal : decimal v = decimalDigits v.toInt.natAbs := if_neg hneg
    obtain ⟨c, s, hcs⟩ := List.exists_cons_of_ne_nil (decimalDigits_ne_nil v.toInt.natAbs)
    have hc : isDigit c = true := isDigit_decimalDigits _ c (by rw [hcs]; exact List.mem_cons_self)
    have hother : ∀ d : Byte, isDigit d = false → c ≠ d := fun d hd heq => by
      rw [heq, hd] at hc
      cases hc
    have hcspace : isSpace c = false := by
      simp only [isDigit, decide_eq_true_eq] at hc
      simp only [isSpace, decide_eq_false_iff_not]
      omega
    rw [strtol0, hdecimal, hcs, hspace _ _ hcspace]
    dsimp only
    rw [if_neg (hother _ (by decide)), if_neg (hother _ (by decide)), ← hcs, magnitude_decimalDigits, toLong,
      if_neg (by decide)]
    have hmin : min v.toInt.natAbs longMax = v.toInt.natAbs := by
      rw [longMax]
      omega
    have hvalue : (v.toInt.natAbs : Int) = v.toInt := by omega
    rw [hmin, hvalue, BitVec.ofInt_toInt]

/-! ## Written lines -/

/-- Delimiters between words. -/
def Gap (g : List Byte) : Prop := ∀ c ∈ g, isDelim c = true

theorem gap_nil : Gap [] := fun _ hc => absurd hc List.not_mem_nil

/-- What follows a word: the end of the line or a delimiter. -/
def EndsWord (s : List Byte) : Prop := ∀ c ∈ s.head?, isDelim c = true

/-- A string that `split_out_string` does not leave: its quotation marks are behind backslashes. -/
def closed : List Byte → Bool
  | [] => true
  | [c] => c ≠ quote && c ≠ backslash
  | c :: d :: s => if c = quote then false else if c = backslash then closed s else closed (d :: s)

/-- A word that is read as a symbol: it has no delimiter, no dot and no bracket, and does not begin like a number, a
string or a redirection. -/
structure Symbol (n : List Byte) : Prop where
  plain : ∀ c ∈ n, isDelim c = false ∧ c ≠ chr '.' ∧ c ≠ chr '['
  start : ∃ c s, n = c :: s ∧ beginsNumber c = false ∧ c ≠ quote ∧ c ≠ chr '>'

namespace Arg

/-- A parameter as it is typed. -/
def text : Arg → List Byte
  | .int v => decimal v
  | .sym n => n
  | .str t => quote :: (t ++ [quote])
  | .bit s b => s.text ++ chr '.' :: b.text
  | .array n i => n.text ++ chr '[' :: (i.text ++ [chr ']'])

/-- What is added to `tokens`. -/
def token : Arg → List Byte
  | .str t => t
  | a => a.text

/-- A part of a bit or of an element of an array: a number that is not negative, or a symbol. -/
def Simple : Arg → Prop
  | .int v => 0 ≤ v.toInt
  | .sym n => Symbol n
  | _ => False

/-- A parameter that can be typed. -/
def Typed : Arg → Prop
  | .int _ => True
  | .sym n => Symbol n
  | .str t => closed t = true
  | .bit s b => s.Simple ∧ b.Simple
  | .array n i => n.Simple ∧ i.Simple

end Arg

theorem isDelim_of_isDigit {c : Byte} (h : isDigit c = true) :
    isDelim c = false ∧ c ≠ chr '.' ∧ c ≠ chr '[' ∧ c ≠ quote ∧ c ≠ chr '>' := by
  revert h
  revert c
  decide

theorem plain_decimal (v : BitVec 64) : ∀ c ∈ decimal v, isDelim c = false ∧ c ≠ chr '.' ∧ c ≠ chr '[' := by
  intro c hc
  unfold decimal at hc
  have hdigits : ∀ c ∈ decimalDigits v.toInt.natAbs, isDelim c = false ∧ c ≠ chr '.' ∧ c ≠ chr '[' := fun c hc => by
    obtain ⟨hdelim, hdot, hbracket, -⟩ := isDelim_of_isDigit (isDigit_decimalDigits _ c hc)
    exact ⟨hdelim, hdot, hbracket⟩
  split at hc
  · rcases List.mem_cons.mp hc with rfl | hc
    · decide
    · exact hdigits c hc
  · exact hdigits c hc

/-- A decimal number begins like a number, and one that is not negative with a digit. -/
theorem start_decimal (v : BitVec 64) : ∃ c s, decimal v = c :: s ∧ beginsNumber c = true ∧ c ≠ quote ∧ c ≠ chr '>' ∧
    (0 ≤ v.toInt → isDigit c = true) := by
  obtain ⟨c, s, hcs⟩ := List.exists_cons_of_ne_nil (decimalDigits_ne_nil v.toInt.natAbs)
  have hc : isDigit c = true := isDigit_decimalDigits _ c (by rw [hcs]; exact List.mem_cons_self)
  by_cases hneg : v.toInt < 0
  · exact ⟨chr '-', decimalDigits v.toInt.natAbs, if_pos hneg, by decide, by decide, by decide, fun h => by omega⟩
  · obtain ⟨-, -, -, hquote, hgreater⟩ := isDelim_of_isDigit hc
    refine ⟨c, s, (if_neg hneg).trans hcs, ?_, hquote, hgreater, fun _ => hc⟩
    simp [beginsNumber, hc]

/-- The part of a bit or of an element of an array is read as it was typed. -/
theorem operand_text {a : Arg} (ha : a.Simple) : operand a.text = a ∧ (∃ c s, a.text = c :: s ∧ c ≠ quote ∧ c ≠ chr '>') ∧
    ∀ c ∈ a.text, isDelim c = false ∧ c ≠ chr '.' ∧ c ≠ chr '[' := by
  cases a with
  | int v =>
    obtain ⟨c, s, hcs, -, hquote, hgreater, hdigit⟩ := start_decimal v
    refine ⟨?_, ⟨c, s, hcs, hquote, hgreater⟩, plain_decimal v⟩
    rw [Arg.text, hcs, operand, if_pos (hdigit ha), ← hcs, strtol0_decimal]
  | sym n =>
    obtain ⟨c, s, rfl, hnumber, hquote, hgreater⟩ := ha.start
    refine ⟨?_, ⟨c, s, rfl, hquote, hgreater⟩, ha.plain⟩
    have hdigit : isDigit c = false := by
      simp only [beginsNumber, Bool.or_eq_false_iff] at hnumber
      exact hnumber.1.1
    rw [Arg.text, operand, hdigit]
    rfl
  | str t => cases ha
  | bit s b => cases ha
  | array n i => cases ha

/-- A word in front of its end. -/
theorem word_append {w s : List Byte} (hw : ∀ c ∈ w, isDelim c = false) (hs : EndsWord s) :
    word (w ++ s) = w ∧ afterWord (w ++ s) = s := by
  have hall : ∀ c ∈ w, (!isDelim c) = true := fun c hc => by simp [hw c hc]
  have hend : s.takeWhile (!isDelim ·) = [] ∧ s.dropWhile (!isDelim ·) = s := by
    cases s with
    | nil => exact ⟨rfl, rfl⟩
    | cons c s =>
      have hc : isDelim c = true := hs c rfl
      simp [hc]
  constructor
  · rw [word, List.takeWhile_append_of_pos hall, hend.1, List.append_nil]
  · rw [afterWord, List.dropWhile_append_of_pos hall, hend.2]

theorem skipDelims_append {g s : List Byte} (hg : Gap g) : skipDelims (g ++ s) = skipDelims s :=
  List.dropWhile_append_of_pos hg

/-- A character that does not occur splits no word. -/
theorem takeWhile_ne {d : Byte} {w s : List Byte} (hw : ∀ c ∈ w, c ≠ d) :
    (w ++ d :: s).takeWhile (· ≠ d) = w ∧ (w ++ d :: s).dropWhile (· ≠ d) = d :: s := by
  have hall : ∀ c ∈ w, decide (c ≠ d) = true := fun c hc => by simpa using hw c hc
  rw [List.takeWhile_append_of_pos hall, List.dropWhile_append_of_pos hall]
  simp

theorem dropWhile_ne {d : Byte} {w : List Byte} (hw : ∀ c ∈ w, c ≠ d) : w.dropWhile (· ≠ d) = [] :=
  List.dropWhile_eq_nil_iff.mpr fun c hc => by simpa using hw c hc

/-- The index ends at the last bracket. -/
theorem arrayIndex_append (i : List Byte) : arrayIndex (i ++ [chr ']']) = i := by
  rw [arrayIndex, List.rdropWhile_concat_neg _ _ _ (by simp)]
  cases i with
  | nil => rfl
  | cons c s =>
    have hlast : (c :: s ++ [chr ']']).dropLast = c :: s := List.dropLast_concat
    exact hlast

/-- A word is read as the argument that was typed. -/
theorem wordArgs_text {a : Arg} (ha : a.Typed) (hstr : ∀ t, a ≠ .str t) : wordArgs a.text = ([a], []) := by
  cases a with
  | str t => exact absurd rfl (hstr t)
  | int v =>
    obtain ⟨c, s, hcs, hnumber, -⟩ := start_decimal v
    have hplain := plain_decimal v
    rw [Arg.text, wordArgs, dropWhile_ne fun c hc => (hplain c hc).2.1, dropWhile_ne fun c hc => (hplain c hc).2.2]
    rw [if_neg (by simp), if_neg (by simp), hcs, List.headD_cons, if_pos hnumber, ← hcs, strtol0_decimal]
  | sym n =>
    obtain ⟨c, s, rfl, hnumber, -⟩ := ha.start
    rw [Arg.text, wordArgs, dropWhile_ne fun c hc => (ha.plain c hc).2.1, dropWhile_ne fun c hc => (ha.plain c hc).2.2]
    rw [if_neg (by simp), if_neg (by simp), List.headD_cons, if_neg (by simp [hnumber])]
  | bit sfr bit =>
    obtain ⟨hsfr, -, hplain⟩ := operand_text ha.1
    obtain ⟨hbit, ⟨c, s, hcs, -⟩, -⟩ := operand_text ha.2
    obtain ⟨htake, hdrop⟩ := takeWhile_ne (d := chr '.') (s := bit.text) fun c hc => (hplain c hc).2.1
    rw [Arg.text, wordArgs, htake, hdrop]
    rw [if_pos (by simp), List.drop_one, List.tail_cons, splitOutBit, if_neg (by simp [hcs]), hsfr, hbit]
  | array name index =>
    obtain ⟨hname, -, hplain⟩ := operand_text ha.1
    obtain ⟨hindex, ⟨c, s, hcs, -⟩, hindexPlain⟩ := operand_text ha.2
    obtain ⟨htake, hdrop⟩ := takeWhile_ne (d := chr '[') (s := index.text ++ [chr ']']) fun c hc => (hplain c hc).2.2
    have hdot : ∀ c ∈ name.text ++ chr '[' :: (index.text ++ [chr ']']), c ≠ chr '.' := by
      intro c hc
      simp only [List.mem_append, List.mem_cons, List.not_mem_nil, or_false] at hc
      rcases hc with hc | rfl | hc | rfl
      · exact (hplain c hc).2.1
      · decide
      · exact (hindexPlain c hc).2.1
      · decide
    rw [Arg.text, wordArgs, dropWhile_ne hdot, htake, hdrop]
    rw [if_neg (by simp), if_pos (by simp), List.drop_one, List.tail_cons, splitOutArray, if_neg (by simp),
      arrayIndex_append, if_neg (by simp [hcs]), hname, hindex]

/-- The scan of a string stops at the closing quotation mark. -/
theorem stringLength_closed {t : List Byte} (ht : closed t = true) (s : List Byte) :
    stringLength (t ++ quote :: s) = t.length := by
  induction t using closed.induct with
  | case1 => cases s <;> simp [stringLength]
  | case2 c =>
    simp only [closed, Bool.and_eq_true, decide_eq_true_eq] at ht
    have hnil : stringLength (quote :: s) = 0 := by cases s <;> simp [stringLength]
    simp [stringLength, ht.1, ht.2, hnil]
  | case3 d s' => simp [closed] at ht
  | case4 d s' hquote ih =>
    have hne : backslash ≠ quote := by decide
    rw [closed, if_neg hne, if_pos rfl] at ht
    simp [stringLength, hne, ih ht]
  | case5 c d s' hquote hback ih =>
    rw [closed, if_neg hquote, if_neg hback] at ht
    have hcons : d :: s' ++ quote :: s = d :: (s' ++ quote :: s) := rfl
    rw [List.cons_append, hcons, stringLength, if_neg hquote, if_neg hback, ← hcons, ih ht]
    rfl

/-- Every parameter but a string is a word. -/
theorem word_text {a : Arg} (ha : a.Typed) (hstr : ∀ t, a ≠ .str t) :
    (∃ c w, a.text = c :: w ∧ c ≠ quote ∧ c ≠ chr '>') ∧ ∀ c ∈ a.text, isDelim c = false := by
  cases a with
  | str t => exact absurd rfl (hstr t)
  | int v =>
    obtain ⟨c, w, hcw, -, hquote, hgreater, -⟩ := start_decimal v
    exact ⟨⟨c, w, hcw, hquote, hgreater⟩, fun c hc => (plain_decimal v c hc).1⟩
  | sym n =>
    obtain ⟨c, w, hcw, -, hquote, hgreater⟩ := ha.start
    exact ⟨⟨c, w, hcw, hquote, hgreater⟩, fun c hc => (ha.plain c hc).1⟩
  | bit sfr bit =>
    obtain ⟨-, ⟨c, w, hcw, hne⟩, hplain⟩ := operand_text ha.1
    obtain ⟨-, -, hplain'⟩ := operand_text ha.2
    refine ⟨⟨c, w ++ chr '.' :: bit.text, by rw [Arg.text, hcw]; rfl, hne⟩, fun c hc => ?_⟩
    simp only [Arg.text, List.mem_append, List.mem_cons] at hc
    rcases hc with hc | rfl | hc
    · exact (hplain c hc).1
    · decide
    · exact (hplain' c hc).1
  | array name index =>
    obtain ⟨-, ⟨c, w, hcw, hne⟩, hplain⟩ := operand_text ha.1
    obtain ⟨-, -, hplain'⟩ := operand_text ha.2
    refine ⟨⟨c, w ++ chr '[' :: (index.text ++ [chr ']']), by rw [Arg.text, hcw]; rfl, hne⟩, fun c hc => ?_⟩
    simp only [Arg.text, List.mem_append, List.mem_cons, List.not_mem_nil, or_false] at hc
    rcases hc with hc | rfl | hc | rfl
    · exact (hplain c hc).1
    · decide
    · exact (hplain' c hc).1
    · decide

/-- No parameter begins with a delimiter. -/
theorem text_start {a : Arg} (ha : a.Typed) : ∃ c w, a.text = c :: w ∧ isDelim c = false := by
  by_cases hstr : ∃ t, a = .str t
  · obtain ⟨t, rfl⟩ := hstr
    exact ⟨quote, t ++ [quote], rfl, by decide⟩
  · obtain ⟨⟨c, w, hcw, -⟩, hdelims⟩ := word_text ha fun t ht => hstr ⟨t, ht⟩
    exact ⟨c, w, hcw, hdelims c (by rw [hcw]; exact List.mem_cons_self)⟩

theorem skipDelims_cons {c : Byte} (hc : isDelim c = false) (s : List Byte) : skipDelims (c :: s) = c :: s := by
  rw [skipDelims, List.dropWhile_cons, hc]
  rfl

/-- A parameter is taken from the line as it was typed. -/
theorem splitPiece_text {a : Arg} (ha : a.Typed) {s : List Byte} (hs : EndsWord s) :
    splitPiece (a.text ++ s) = ({ token := a.token, params := [a], con := [] }, s) := by
  by_cases hstr : ∃ t, a = .str t
  · obtain ⟨t, rfl⟩ := hstr
    have htext : (Arg.str t).text ++ s = quote :: (t ++ quote :: s) := by simp [Arg.text]
    have hlength := stringLength_closed ha s
    rw [htext, splitPiece, if_pos rfl, splitOutString, hlength, List.take_left', List.drop_left']
    · rfl
    · rfl
    · rfl
  · have hne : ∀ t, a ≠ .str t := fun t ht => hstr ⟨t, ht⟩
    obtain ⟨⟨c, w, hcw, hquote, hgreater⟩, hdelims⟩ := word_text ha hne
    obtain ⟨htake, hdrop⟩ := word_append hdelims hs
    have htoken : a.token = a.text := by
      cases a with
      | str t => exact absurd rfl (hne t)
      | _ => rfl
    have hcons : a.text ++ s = c :: (w ++ s) := by rw [hcw]; rfl
    rw [hcons, splitPiece]
    dsimp only
    rw [if_neg hquote, if_neg hgreater, ← hcons, htake, hdrop, wordArgs_text ha hne, htoken]

/-- The parameters of a line as they are typed, each behind a gap. -/
def typed : List (List Byte × Arg) → List Byte
  | [] => []
  | (g, a) :: l => g ++ a.text ++ typed l

/-- The parameters can be typed, and the gaps are of delimiters. -/
def TypedList (l : List (List Byte × Arg)) : Prop := ∀ p ∈ l, p.1 ≠ [] ∧ Gap p.1 ∧ p.2.Typed

theorem endsWord_gap {g s : List Byte} (hne : g ≠ []) (hg : Gap g) : EndsWord (g ++ s) := by
  obtain ⟨c, g', rfl⟩ := List.exists_cons_of_ne_nil hne
  intro d hd
  cases hd
  exact hg c List.mem_cons_self

theorem endsWord_typed {l : List (List Byte × Arg)} (hl : TypedList l) {e : List Byte} (he : Gap e) :
    EndsWord (typed l ++ e) := by
  cases l with
  | nil =>
    intro c hc
    exact he c (List.mem_of_mem_head? hc)
  | cons p l =>
    obtain ⟨hne, hg, -⟩ := hl p List.mem_cons_self
    rw [typed, List.append_assoc, List.append_assoc]
    exact endsWord_gap hne hg

/-- The loop takes one parameter after the other. -/
theorem splitLoop_typed {l : List (List Byte × Arg)} (hl : TypedList l) {e : List Byte} (he : Gap e) :
    splitLoop (skipDelims (typed l ++ e)) = l.map fun p => { token := p.2.token, params := [p.2], con := [] } := by
  induction l with
  | nil =>
    have hnil : skipDelims e = [] := List.dropWhile_eq_nil_iff.mpr he
    rw [typed, List.nil_append, hnil, splitLoop]
    rfl
  | cons p l ih =>
    obtain ⟨-, hg, ha⟩ := hl p List.mem_cons_self
    have hl' : TypedList l := fun q hq => hl q (List.mem_cons_of_mem p hq)
    have hpiece := splitPiece_text ha (endsWord_typed hl' he)
    obtain ⟨c, w, hcw, hc⟩ := text_start ha
    have hskip : skipDelims (typed (p :: l) ++ e) = c :: (w ++ (typed l ++ e)) := by
      rw [typed, List.append_assoc, List.append_assoc, skipDelims_append hg, hcw, List.cons_append, skipDelims_cons hc]
    rw [hskip, splitLoop, ← List.cons_append, ← hcw, hpiece, ih hl']
    rfl

/-! ## Splitting a written line -/

/-- A word that can stand for a command. -/
structure CommandName (name : List Byte) : Prop where
  ne_nil : name ≠ []
  plain : ∀ c ∈ name, isDelim c = false
  start : name.head? ≠ some 0x0A

namespace CommandName

variable {name : List Byte} (h : CommandName name)

include h

theorem ne_newline : name ≠ newline := by
  rintro rfl
  exact h.start rfl

/-- The command behind delimiters. -/
theorem skipDelims_eq {lead : List Byte} (hlead : Gap lead) (s : List Byte) :
    skipDelims (lead ++ name ++ s) = name ++ s := by
  obtain ⟨c, w, rfl⟩ := List.exists_cons_of_ne_nil h.ne_nil
  rw [List.append_assoc, skipDelims_append hlead, List.cons_append, skipDelims_cons (h.plain c List.mem_cons_self)]

theorem real (s : List Byte) : ¬ (name ++ s = [] ∨ (name ++ s).head? = some 0x0A) := by
  obtain ⟨c, w, rfl⟩ := List.exists_cons_of_ne_nil h.ne_nil
  simpa using h.start

end CommandName

namespace CmdLine

variable {lead name s e : List Byte} {args : List (List Byte × Arg)} {l : CmdLine}

/-- The name is the first word. -/
theorem split_command (hlead : Gap lead) (hname : CommandName name) (hs : EndsWord s) (hcmd : l.cmd = lead ++ name ++ s) :
    l.split = { l with name := some name }.addPieces (splitLoop (skipDelims s)) := by
  obtain ⟨htake, hdrop⟩ := word_append hname.plain hs
  rw [split, hcmd, hname.skipDelims_eq hlead, if_neg (hname.real s), htake, hdrop]

/-- A line is split into the name and the parameters that were typed. -/
theorem split_typed (hlead : Gap lead) (hname : CommandName name) (hargs : TypedList args) (he : Gap e)
    (hcmd : l.cmd = lead ++ name ++ (typed args ++ e)) :
    l.split = { l with
      name := some name
      params := l.params ++ args.map (·.2)
      tokens := l.tokens ++ args.map (·.2.token) } := by
  rw [split_command hlead hname (endsWord_typed hargs he) hcmd, splitLoop_typed hargs he]
  simp [addPieces, List.flatMap_map, Function.comp_def, ← List.map_eq_flatMap]

/-- `shift` goes on with the rest of the line. -/
theorem shift_command {g name' s' : List Byte} (hlead : Gap lead) (hname : CommandName name) (hne : g ≠ []) (hg : Gap g)
    (hname' : CommandName name') (hs' : EndsWord s') (hcmd : l.cmd = lead ++ name ++ (g ++ name' ++ s')) :
    l.shift = (split { l with cmd := name' ++ s', params := [] }, true) := by
  have hends : EndsWord (g ++ name' ++ s') := by
    rw [List.append_assoc]
    exact endsWord_gap hne hg
  obtain ⟨-, hdrop⟩ := word_append hname.plain hends
  have hnonempty : name ++ (g ++ name' ++ s') ≠ [] := fun h => hname.real _ (.inl h)
  have hsplit := split_command (l := { l with cmd := name' ++ s', params := [] }) gap_nil
    hname' hs' rfl
  rw [shift, hcmd, hname.skipDelims_eq hlead, if_neg hnonempty, hdrop, hname'.skipDelims_eq hg, if_neg]
  rw [hsplit]
  exact fun h => hname'.ne_newline (Option.some.inj h)

end CmdLine

/-! ## Round trip -/

/-- Bytes written with an octal escape each. -/
def octalText (bytes : List Byte) : List Byte := bytes.flatMap fun x => backslash :: chr '0' :: threeDigits x

theorem writes_octalText (bytes : List Byte) : ∀ o, Writes o bytes (octalText bytes) := by
  induction bytes with
  | nil => exact Writes.nil
  | cons x bytes ih => exact fun _ => Writes.octal x (ih true)

/-- A character behind a backslash does not close a string, nor does an octal digit. -/
theorem closed_octalText (bytes : List Byte) : closed (octalText bytes) = true := by
  induction bytes with
  | nil => rfl
  | cons x bytes ih =>
    have hdigit : ∀ c ∈ threeDigits x, c ≠ quote ∧ c ≠ backslash := fun c hc => by
      have hoctal := (threeDigits_octal x).1 c hc
      constructor <;> rintro rfl <;> exact absurd hoctal (by decide)
    have hcons : ∀ c s, c ≠ quote ∧ c ≠ backslash → closed s = true → closed (c :: s) = true := fun c s hc hs => by
      cases s with
      | nil => simpa [closed] using hc
      | cons d s => rwa [closed, if_neg hc.1, if_neg hc.2]
    have htail : closed (threeDigits x ++ octalText bytes) = true :=
      hcons _ _ (hdigit _ (by simp [threeDigits])) <| hcons _ _ (hdigit _ (by simp [threeDigits])) <|
        hcons _ _ (hdigit _ (by simp [threeDigits])) ih
    have htext : octalText (x :: bytes) = backslash :: chr '0' :: (threeDigits x ++ octalText bytes) := rfl
    rw [htext, closed, if_neg (by decide), if_pos rfl]
    exact htail

theorem octalText_ne_zero (bytes : List Byte) : ∀ c ∈ octalText bytes, c ≠ 0 := by
  intro c hc
  obtain ⟨x, -, hc⟩ := List.mem_flatMap.mp hc
  rcases List.mem_cons.mp hc with rfl | hc
  · decide
  · rcases List.mem_cons.mp hc with rfl | hc
    · decide
    · rintro rfl
      exact absurd ((threeDigits_octal x).1 0 hc) (by decide)

/-- A command line is split into the command and the parameters that were typed, whatever delimiters stand between them.
A string parameter can hold any bytes. -/
theorem command_line_round_trip :
    (∀ (lead name e : List Byte) (args : List (List Byte × Arg)), Gap lead → CommandName name → TypedList args → Gap e →
      CmdLine.new (lead ++ name ++ (typed args ++ e)) =
        { cmd := lead ++ name ++ (typed args ++ e)
          name := some name
          params := args.map (·.2)
          tokens := args.map (·.2.token)
          con := [] }) ∧
      ∀ bytes : List Byte, ∃ string : CString, (Arg.str string.chars).Typed ∧ ∃ r, Escaped string bytes r := by
  refine ⟨fun lead name e args hlead hname hargs he => ?_, fun bytes => ?_⟩
  · rw [CmdLine.new, CmdLine.split_typed hlead hname hargs he rfl]
    simp
  · exact ⟨⟨octalText bytes, octalText_ne_zero bytes⟩, closed_octalText bytes, escaped_of_writes (writes_octalText bytes false)⟩

/-- The parameters of the line `set p.7 a[x],-12 "\""`. -/
def setArgs : List (List Byte × Arg) :=
  [([0x20], .bit (.sym [chr 'p']) (.int 7)), ([0x20], .array (.sym [chr 'a']) (.sym [chr 'x'])), ([0x2C], .int (-12)),
    ([0x20], .str [backslash, quote])]

/-- The line is split into the command and four parameters. -/
theorem command_line_round_trip_set :
    (CmdLine.new ([] ++ [chr 's', chr 'e', chr 't'] ++ (typed setArgs ++ []))).name = some [chr 's', chr 'e', chr 't'] ∧
      (CmdLine.new ([] ++ [chr 's', chr 'e', chr 't'] ++ (typed setArgs ++ []))).params = setArgs.map (·.2) := by
  have hletter : ∀ c : Byte, isDelim c = false ∧ c ≠ chr '.' ∧ c ≠ chr '[' → beginsNumber c = false ∧ c ≠ quote ∧ c ≠ chr '>' →
      Symbol [c] := fun c hplain hstart => ⟨fun d hd => by rwa [List.mem_singleton.mp hd], c, [], rfl, hstart⟩
  have hargs : TypedList setArgs := by
    have hgap : ∀ c : Byte, isDelim c = true → Gap [c] := fun c hc d hd => by rwa [List.mem_singleton.mp hd]
    intro p hp
    simp only [setArgs, List.mem_cons, List.not_mem_nil, or_false] at hp
    rcases hp with rfl | rfl | rfl | rfl
    · exact ⟨by simp, hgap _ (by decide), hletter _ (by decide) (by decide), (by decide : 0 ≤ (7 : BitVec 64).toInt)⟩
    · exact ⟨by simp, hgap _ (by decide), hletter _ (by decide) (by decide), hletter _ (by decide) (by decide)⟩
    · exact ⟨by simp, hgap _ (by decide), trivial⟩
    · exact ⟨by simp, hgap _ (by decide), (by decide : closed [backslash, quote] = true)⟩
  have hname : CommandName [chr 's', chr 'e', chr 't'] := ⟨by simp, by decide, by decide⟩
  rw [command_line_round_trip.1 [] _ [] setArgs gap_nil hname hargs gap_nil]
  exact ⟨rfl, rfl⟩

end Ucsim.Cmd
