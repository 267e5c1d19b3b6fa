import Ucsim.Format.HexText
import Ucsim.S51.Analyze

/-!
# Loading an Intel HEX file

`read_hex_file`. What it reads behind a colon is a record, and it stores the data of the records of type
0 whose bytes sum up to 0.
-/

namespace Ucsim.S51

open Logic Format

/-! ## Reading numbers -/

/-- The characters that `strtol` skips. -/
def isSpace (c : UChar) : Bool := c = 0x20 ∨ (0x09 ≤ c ∧ c ≤ 0x0d)

/-- `strtol(s2, NULL, 16)` of the string of two characters. -/
def strtol (s2 : UChar × UChar) : Int :=
  match hexDigit s2.1 with
  | some h =>
    match hexDigit s2.2 with
    | some l => h * 16 + l
    | none => h
  | none =>
    let l : Int := ((hexDigit s2.2).getD 0 : Nat)
    if isSpace s2.1 ∨ s2.1 = 0x2b then l else if s2.1 = 0x2d then -l else 0

section

-- what `s2` holds when the file ends behind the character: the second one is left from before
variable (lone : UChar → UChar × UChar)

/-- `fscanf(f, "%2c", &s2[0])`, which is `EOF` at the end of the file only. -/
def scan2 : List UChar → Option ((UChar × UChar) × List UChar)
  | [] => none
  | [c] => some (lone c, [])
  | c :: d :: f => some ((c, d), f)

/-- The loop of `ReadInt`: the number, `ok` and the rest of the file. -/
def readInt : Nat → Int → List UChar → Int × Bool × List UChar
  | 0, l, f => (l, true, f)
  | bytes + 1, l, f =>
    match scan2 lone f with
    | none => (0, false, [])
    | some (s2, f) => readInt bytes (l * 256 + strtol s2) f

/-- `while (((c= getc(f)) != ':') && (c != EOF))`. -/
def afterColon : List UChar → Option (List UChar)
  | [] => none
  | c :: f => if c = 0x3a then some f else afterColon f

variable {Dev V : Type} (D : Devices Dev V)

/-- The loop that reads the data: `i` and `dnum - i`, `chk` and `rec`. -/
def readData : Nat → Nat → UChar → List UChar → List UChar →
    CodeProg V (Bool × UChar × List UChar × List UChar)
  | _, 0, chk, rec, f => return (true, chk, rec, f)
  | i, n + 1, chk, rec, f =>
    if i ≥ 300 then throw .recIndex
    else
      let (l, ok, f) := readInt lone 1 0 f
      let b := BitVec.ofInt 8 l
      if ok then readData (i + 1) n (chk + b) (rec ++ [b]) f
      else return (false, chk + b, rec ++ [b], f)

/-- The loop that stores the data. -/
def storeData : List UChar → BitVec 32 → Int → CodeProg V Int
  | [], _, written => return written
  | b :: data, addr, written => do
    Space.flashbank0.set D addr.toInt (tmem b)
    storeData data (addr + 1) (written + 1)

/-- The outer loop of `read_hex_file`. `fuel` bounds the rounds. -/
def readRecords : Nat → List UChar → Int → CodeProg V Int
  | 0, _, _ => throw .rounds
  | fuel + 1, f, written =>
    match afterColon f with
    | none => return written
    | some f => do
      let (l, _, f) := readInt lone 1 0 f
      let dnum : UChar := BitVec.ofInt 8 l
      let chk := dnum
      let (l, _, f) := readInt lone 2 0 f
      let addr : BitVec 32 := BitVec.ofInt 32 l
      let chk := chk + (addr &&& 0xff).setWidth 8
      let chk := chk + (addr >>> 8 &&& 0xff).setWidth 8
      let (l, ok, f) := readInt lone 1 0 f
      let rtyp : UChar := BitVec.ofInt 8 l
      let chk := chk + rtyp
      let (ok, chk, rec, f) ← if ok then readData lone 0 dnum.toNat chk [] f
        else pure (false, chk, [], f)
      if ok then
        let (l, ok, f) := readInt lone 1 0 f
        let sum : UChar := BitVec.ofInt 8 l
        if ok then
          let written ← if sum + chk = 0 ∧ rtyp = 0 then storeData D rec addr written
            else pure written
          if rtyp ≠ 1 then readRecords fuel f written else return written
        else return written
      else return written

/-- `read_hex_file` of a file that can be opened or not. -/
def readHexFile (file : Option (List UChar)) : CodeProg V Int :=
  match file with
  | none => return -1
  | some f => do
    let written ← readRecords lone D (f.length + 1) f 0
    analyze D analyzeFuel 0
    return written

end

/-! ## Records -/

/-- What is read behind a colon. -/
structure HexRecord where
  addr : BitVec 32
  rtyp : UChar
  data : List UChar
  chk : UChar
  deriving DecidableEq, Repr

namespace HexRecord

/-- The sum of all bytes of the record. -/
def sum (r : HexRecord) : UChar :=
  BitVec.ofNat 8 r.data.length + (r.addr >>> 8).setWidth 8 + r.addr.setWidth 8 + r.rtyp +
    byteSum r.data + r.chk

/-- The number of characters of a record behind the colon. -/
def textLength (r : HexRecord) : Nat := 2 * (r.data.length + 5)

end HexRecord

section

variable (lone : UChar → UChar × UChar)

/-- One byte. -/
def scanByte (f : List UChar) : Option (UChar × List UChar) :=
  (scan2 lone f).map fun r => (BitVec.ofInt 8 (strtol r.1), r.2)

def scanBytes : Nat → List UChar → Option (List UChar × List UChar)
  | 0, f => some ([], f)
  | n + 1, f => do
    let (b, f) ← scanByte lone f
    let (bs, f) ← scanBytes n f
    return (b :: bs, f)

/-- A record and the rest of the file, if the file does not end before. -/
def scanRecord (f : List UChar) : Option (HexRecord × List UChar) := do
  let (dnum, f) ← scanByte lone f
  let (h, f) ← scan2 lone f
  let (l, f) ← scan2 lone f
  let (rtyp, f) ← scanByte lone f
  let (data, f) ← scanBytes lone dnum.toNat f
  let (chk, f) ← scanByte lone f
  return ({ addr := BitVec.ofInt 32 (strtol h * 256 + strtol l), rtyp := rtyp, data := data, chk := chk }, f)

/-- The records of a file up to one of type 1, each with the text behind its colon. -/
def hexRecords : Nat → List UChar → List (List UChar × HexRecord)
  | 0, _ => []
  | fuel + 1, f =>
    match afterColon f with
    | none => []
    | some text =>
      match scanRecord lone text with
      | none => []
      | some (r, rest) => (text, r) :: if r.rtyp = 1 then [] else hexRecords fuel rest

/-- Is the record one of type 0 whose bytes sum up to 0? -/
def isAccepted (p : List UChar × HexRecord) : Bool := p.2.rtyp = 0 ∧ p.2.sum = 0

/-- The records of a file that are stored. -/
def accepted (file : List UChar) : List (List UChar × HexRecord) :=
  (hexRecords lone (file.length + 1) file).filter isAccepted

end

section

variable {lone : UChar → UChar × UChar}

theorem scanByte_some {f rest : List UChar} {b : UChar} (h : scanByte lone f = some (b, rest)) :
    ∃ l, readInt lone 1 0 f = (l, true, rest) ∧ BitVec.ofInt 8 l = b := by
  obtain ⟨⟨s2, f'⟩, hscan, heq⟩ := Option.map_eq_some_iff.mp h
  cases heq
  refine ⟨strtol s2, ?_, rfl⟩
  rw [readInt, hscan]
  simp only [readInt, zero_mul, zero_add]

theorem scan2_none {f : List UChar} (h : scan2 lone f = none) : f = [] := by
  match f with
  | [] => rfl
  | [c] => cases h
  | c :: d :: f => cases h

theorem scanByte_none {f : List UChar} (h : scanByte lone f = none) : f = [] :=
  scan2_none (Option.map_eq_none_iff.mp h)

/-- The two bytes of an address. -/
theorem readWord {f f' rest : List UChar} {h l : UChar × UChar} (hh : scan2 lone f = some (h, f'))
    (hl : scan2 lone f' = some (l, rest)) :
    readInt lone 2 0 f = (strtol h * 256 + strtol l, true, rest) := by
  rw [readInt, hh]
  dsimp only
  rw [readInt, hl]
  simp only [readInt, zero_mul, zero_add]

theorem readWord_none {f f' : List UChar} {h : UChar × UChar} (hh : scan2 lone f = some (h, f'))
    (hl : scan2 lone f' = none) : readInt lone 2 0 f = (0, false, []) := by
  rw [readInt, hh]
  dsimp only
  rw [readInt, hl]

/-- The characters that a byte takes. -/
theorem scan2_length {f rest : List UChar} {s2 : UChar × UChar} (h : scan2 lone f = some (s2, rest)) :
    (f.length = 1 ∧ rest = []) ∨ f.length = rest.length + 2 := by
  match f with
  | [] => cases h
  | [c] =>
    cases h
    exact Or.inl ⟨rfl, rfl⟩
  | c :: d :: f =>
    cases h
    exact Or.inr rfl

theorem scanByte_length {f rest : List UChar} {b : UChar} (h : scanByte lone f = some (b, rest)) :
    (f.length = 1 ∧ rest = []) ∨ f.length = rest.length + 2 := by
  obtain ⟨⟨s2, f'⟩, hscan, heq⟩ := Option.map_eq_some_iff.mp h
  cases heq
  exact scan2_length hscan

theorem scanBytes_data {n : Nat} {f rest bs : List UChar} (h : scanBytes lone n f = some (bs, rest)) :
    bs.length = n := by
  induction n generalizing f bs with
  | zero =>
    cases h
    rfl
  | succ n ih =>
    simp only [scanBytes, Option.bind_eq_bind, Option.bind_eq_some_iff] at h
    obtain ⟨⟨b, f'⟩, -, ⟨bs', f''⟩, hrest, heq⟩ := h
    cases heq
    rw [List.length_cons, ih hrest]

variable {Dev V : Type} {D : Devices Dev V}

/-- The data is read as bytes, in the bounds of `rec`. -/
theorem readData_some {i n : Nat} {chk : UChar} {rec f rest bs : List UChar} (hi : i + n ≤ 300)
    (h : scanBytes lone n f = some (bs, rest)) :
    (readData lone i n chk rec f : CodeProg V _) = pure (true, chk + byteSum bs, rec ++ bs, rest) := by
  induction n generalizing i chk rec f bs with
  | zero =>
    cases h
    rw [readData, byteSum, add_zero, List.append_nil]
  | succ n ih =>
    simp only [scanBytes, Option.bind_eq_bind, Option.bind_eq_some_iff] at h
    obtain ⟨⟨b, f'⟩, hb, ⟨bs', f''⟩, hrest, heq⟩ := h
    cases heq
    obtain ⟨l, hread, rfl⟩ := scanByte_some hb
    rw [readData, if_neg (by omega), hread]
    simp only [if_true]
    rw [ih (by omega) hrest, byteSum, BitVec.add_assoc, List.append_assoc, List.singleton_append]

/-- The file ends in the data. -/
theorem readData_none {i n : Nat} {chk : UChar} {rec f : List UChar} (hi : i + n ≤ 300)
    (h : scanBytes lone n f = none) :
    ∃ chk' rec', (readData lone i n chk rec f : CodeProg V _) = pure (false, chk', rec', []) := by
  induction n generalizing i chk rec f with
  | zero => cases h
  | succ n ih =>
    rw [readData, if_neg (by omega)]
    cases hb : scanByte lone f with
    | none =>
      rw [scanByte_none hb]
      exact ⟨_, _, rfl⟩
    | some r =>
      obtain ⟨b, f'⟩ := r
      obtain ⟨l, hread, rfl⟩ := scanByte_some hb
      rw [hread]
      simp only [if_true]
      refine ih (by omega) ?_
      cases hrest : scanBytes lone n f' with
      | none => rfl
      | some r => simp [scanBytes, hb, hrest] at h

/-! ## What is stored -/

variable (D)

/-- Store the data of records, one after the other. -/
def storeRecords : List (List UChar × HexRecord) → Int → CodeProg V Int
  | [], written => return written
  | p :: ps, written => do
    let written ← storeData D p.2.data p.2.addr written
    storeRecords ps written

variable (lone)

/-- What follows a colon in a round of the outer loop. -/
def roundAfter (fuel : Nat) (text : List UChar) (written : Int) : CodeProg V Int :=
  match scanRecord lone text with
  | none => return written
  | some (r, rest) => do
    let written ← if r.sum = 0 ∧ r.rtyp = 0 then storeData D r.data r.addr written else pure written
    if r.rtyp ≠ 1 then readRecords lone D fuel rest written else return written

variable {lone D}

/-- The checksum of the loop is that of the record. -/
theorem chk_eq (dnum : UChar) (addr : BitVec 32) (rtyp chk sum : UChar) :
    sum + (dnum + (addr &&& 0xff).setWidth 8 + (addr >>> 8 &&& 0xff).setWidth 8 + rtyp + chk)
      = dnum + (addr >>> 8).setWidth 8 + addr.setWidth 8 + rtyp + chk + sum := by
  have hlow : ∀ a : BitVec 32, (a &&& 0xff).setWidth 8 = a.setWidth 8 := by
    intro a
    apply BitVec.eq_of_toNat_eq
    have hmask : a.toNat &&& 255 = a.toNat % 256 := Nat.and_two_pow_sub_one_eq_mod a.toNat 8
    rw [BitVec.toNat_setWidth, BitVec.toNat_setWidth, BitVec.toNat_and]
    change (a.toNat &&& 255) % 256 = a.toNat % 256
    rw [hmask, Nat.mod_mod]
  rw [hlow, hlow]
  ac_rfl

/-- The end of a round: the data and the checksum are still to be read. -/
theorem roundData_eq (fuel : Nat) (f : List UChar) (dnum : UChar) (addr : BitVec 32) (rtyp chk : UChar)
    (written : Int) (hchk : chk = dnum + (addr &&& 0xff).setWidth 8 + (addr >>> 8 &&& 0xff).setWidth 8 + rtyp) :
    (do
      let (ok, chk, rec, f) ← readData lone 0 dnum.toNat chk [] f
      if ok then
        let (l, ok, f) := readInt lone 1 0 f
        let sum : UChar := BitVec.ofInt 8 l
        if ok then
          let written ← if sum + chk = 0 ∧ rtyp = 0 then storeData D rec addr written
            else pure written
          if rtyp ≠ 1 then readRecords lone D fuel f written else return written
        else return written
      else return written : CodeProg V Int)
    = match (do
        let (data, f) ← scanBytes lone dnum.toNat f
        let (chk, f) ← scanByte lone f
        return ({ addr := addr, rtyp := rtyp, data := data, chk := chk }, f) : Option (HexRecord × List UChar)) with
      | none => return written
      | some (r, rest) => do
        let written ← if r.sum = 0 ∧ r.rtyp = 0 then storeData D r.data r.addr written else pure written
        if r.rtyp ≠ 1 then readRecords lone D fuel rest written else return written := by
  have hbound : 0 + dnum.toNat ≤ 300 := by omega
  cases hdata : scanBytes lone dnum.toNat f with
  | none =>
    obtain ⟨chk', rec', hread⟩ : ∃ chk' rec', (readData lone 0 dnum.toNat chk [] f : CodeProg V _)
        = pure (false, chk', rec', []) := readData_none hbound hdata
    rw [hread]
    rfl
  | some r =>
    obtain ⟨data, f'⟩ := r
    rw [readData_some hbound hdata]
    simp only [pure_bind, List.nil_append, if_true, Option.bind_eq_bind, Option.bind_some]
    cases hsum : scanByte lone f' with
    | none =>
      rw [scanByte_none hsum]
      rfl
    | some r =>
      obtain ⟨sum, rest⟩ := r
      obtain ⟨l, hread, rfl⟩ := scanByte_some hsum
      rw [hread]
      have hlen : BitVec.ofNat 8 data.length = dnum := by
        rw [scanBytes_data hdata, BitVec.ofNat_toNat, BitVec.setWidth_eq]
      simp only [if_true, Option.bind_some, Option.pure_def, HexRecord.sum, hlen, hchk, chk_eq]

theorem readRecords_succ (fuel : Nat) (f : List UChar) (written : Int) :
    readRecords lone D (fuel + 1) f written = match afterColon f with
      | none => return written
      | some text => roundAfter lone D fuel text written := by
  rw [readRecords]
  cases hcolon : afterColon f with
  | none => rfl
  | some text =>
    dsimp only [roundAfter, scanRecord]
    cases h0 : scanByte lone text with
    | none =>
      rw [scanByte_none h0]
      rfl
    | some r =>
      obtain ⟨dnum, f0⟩ := r
      obtain ⟨l0, hread0, rfl⟩ := scanByte_some h0
      rw [hread0]
      dsimp only [Option.bind_eq_bind, Option.bind_some]
      cases h1 : scan2 lone f0 with
      | none =>
        rw [scan2_none h1]
        rfl
      | some r =>
        obtain ⟨h, f1⟩ := r
        dsimp only [Option.bind_some]
        cases h2 : scan2 lone f1 with
        | none =>
          rw [readWord_none h1 h2]
          rfl
        | some r =>
          obtain ⟨l, f2⟩ := r
          rw [readWord h1 h2]
          dsimp only [Option.bind_some]
          cases h3 : scanByte lone f2 with
          | none =>
            rw [scanByte_none h3]
            rfl
          | some r =>
            obtain ⟨rtyp, f3⟩ := r
            obtain ⟨l3, hread3, rfl⟩ := scanByte_some h3
            rw [hread3]
            exact roundData_eq fuel f3 _ _ _ _ written rfl

theorem afterColon_some {f text : List UChar} (h : afterColon f = some text) :
    ∃ before, f = before ++ 0x3a :: text := by
  induction f with
  | nil => cases h
  | cons c f ih =>
    rw [afterColon] at h
    split at h
    · next hc =>
      cases h
      exact ⟨[], by rw [hc, List.nil_append]⟩
    · obtain ⟨before, rfl⟩ := ih h
      exact ⟨c :: before, rfl⟩

/-- Bytes are read from two characters each, if a character is left behind them. -/
theorem scanBytes_length {n : Nat} {f rest bs : List UChar} (h : scanBytes lone n f = some (bs, rest))
    (hrest : rest ≠ []) : f.length = rest.length + 2 * n := by
  induction n generalizing f bs with
  | zero =>
    cases h
    rfl
  | succ n ih =>
    simp only [scanBytes, Option.bind_eq_bind, Option.bind_eq_some_iff] at h
    obtain ⟨⟨b, f'⟩, hb, ⟨bs', f''⟩, htail, heq⟩ := h
    cases heq
    dsimp only at htail
    have hf' := ih htail
    rcases scanByte_length hb with ⟨-, rfl⟩ | hlen
    · rw [List.length_nil] at hf'
      have := List.length_pos_iff.mpr hrest
      omega
    · omega

/-- A record takes the characters of its length, or ends the file one character before. -/
theorem scanRecord_length {text rest : List UChar} {r : HexRecord}
    (h : scanRecord lone text = some (r, rest)) :
    text.length = r.textLength + rest.length ∨ (text.length + 1 = r.textLength ∧ rest = []) := by
  have hne : ∀ {f f' : List UChar} {s2 : UChar × UChar}, scan2 lone f = some (s2, f') → f ≠ [] := by
    rintro f f' s2 hscan rfl
    cases hscan
  have hne' : ∀ {f f' : List UChar} {b : UChar}, scanByte lone f = some (b, f') → f ≠ [] := by
    rintro f f' b hscan rfl
    cases hscan
  simp only [scanRecord, Option.bind_eq_bind, Option.bind_eq_some_iff] at h
  obtain ⟨⟨dnum, f0⟩, h0, ⟨s2, f1⟩, h1, ⟨s2', f2⟩, h2, ⟨rtyp, f3⟩, h3, ⟨data, f4⟩, h4, ⟨chk, f5⟩, h5, heq⟩ := h
  cases heq
  dsimp only at h0 h1 h2 h3 h4 h5
  have hdata := scanBytes_length h4 (hne' h5)
  have hlen := scanBytes_data h4
  have h5pos := List.length_pos_iff.mpr (hne' h5)
  have h3pos := List.length_pos_iff.mpr (hne' h3)
  have h2pos := List.length_pos_iff.mpr (hne h2)
  have h1pos := List.length_pos_iff.mpr (hne h1)
  have hstep : ∀ {f f' : List UChar}, (f.length = 1 ∧ f' = []) ∨ f.length = f'.length + 2 →
      0 < f'.length → f.length = f'.length + 2 := by
    rintro f f' (⟨-, rfl⟩ | h) hpos
    · exact absurd hpos (by decide)
    · exact h
  have e0 := hstep (scanByte_length h0) h1pos
  have e1 := hstep (scan2_length h1) h2pos
  have e2 := hstep (scan2_length h2) h3pos
  have e3 := hstep (scanByte_length h3) (by omega)
  simp only [HexRecord.textLength, hlen]
  rcases scanByte_length h5 with ⟨h5one, rfl⟩ | h5two
  · refine Or.inr ⟨?_, rfl⟩
    omega
  · left
    omega

/-- What is left of the file is a part of it. -/
theorem scan2_suffix {f rest : List UChar} {s2 : UChar × UChar} (h : scan2 lone f = some (s2, rest)) :
    rest <:+ f := by
  match f with
  | [] => cases h
  | [c] =>
    cases h
    exact List.nil_suffix
  | c :: d :: f =>
    cases h
    exact ⟨[c, d], rfl⟩

theorem scanByte_suffix {f rest : List UChar} {b : UChar} (h : scanByte lone f = some (b, rest)) :
    rest <:+ f := by
  obtain ⟨⟨s2, f'⟩, hscan, heq⟩ := Option.map_eq_some_iff.mp h
  cases heq
  exact scan2_suffix hscan

theorem scanBytes_suffix {n : Nat} {f rest bs : List UChar} (h : scanBytes lone n f = some (bs, rest)) :
    rest <:+ f := by
  induction n generalizing f bs with
  | zero =>
    cases h
    exact List.suffix_refl _
  | succ n ih =>
    simp only [scanBytes, Option.bind_eq_bind, Option.bind_eq_some_iff] at h
    obtain ⟨⟨b, f'⟩, hb, ⟨bs', f''⟩, htail, heq⟩ := h
    cases heq
    exact (ih htail).trans (scanByte_suffix hb)

theorem scanRecord_suffix {text rest : List UChar} {r : HexRecord}
    (h : scanRecord lone text = some (r, rest)) : rest <:+ text := by
  simp only [scanRecord, Option.bind_eq_bind, Option.bind_eq_some_iff] at h
  obtain ⟨⟨dnum, f0⟩, h0, ⟨s2, f1⟩, h1, ⟨s2', f2⟩, h2, ⟨rtyp, f3⟩, h3, ⟨data, f4⟩, h4, ⟨chk, f5⟩, h5, heq⟩ := h
  cases heq
  exact (scanByte_suffix h5).trans ((scanBytes_suffix h4).trans ((scanByte_suffix h3).trans
    ((scan2_suffix h2).trans ((scan2_suffix h1).trans (scanByte_suffix h0)))))

/-- The loop stores the accepted records in order. -/
theorem readRecords_eq {fuel : Nat} {f : List UChar} (h : f.length < fuel) (written : Int) :
    readRecords lone D fuel f written = 
    storeRecords D ((hexRecords lone fuel f).filter isAccepted) written := by
  induction fuel generalizing f written with
  | zero => omega
  | succ fuel ih =>
    rw [readRecords_succ, hexRecords]
    cases hcolon : afterColon f with
    | none => rfl
    | some text =>
      obtain ⟨before, rfl⟩ := afterColon_some hcolon
      rw [List.length_append, List.length_cons] at h
      dsimp only [roundAfter]
      cases hscan : scanRecord lone text with
      | none => rfl
      | some r =>
        obtain ⟨r, rest⟩ := r
        have hrest : rest.length < fuel := by
          rcases scanRecord_length hscan with hlen | ⟨hlen, rfl⟩
          · omega
          · rw [List.length_nil]
            omega
        dsimp only
        have hnext : ∀ w : Int, (if r.rtyp ≠ 1 then readRecords lone D fuel rest w else return w)
            = storeRecords D (List.filter isAccepted
                (if r.rtyp = 1 then [] else hexRecords lone fuel rest)) w := by
          intro w
          by_cases htyp : r.rtyp = 1
          · rw [if_neg (not_not.mpr htyp), if_pos htyp]
            rfl
          · rw [if_pos htyp, if_neg htyp]
            exact ih hrest w
        simp only [hnext]
        by_cases hacc : r.rtyp = 0 ∧ r.sum = 0
        · rw [if_pos ⟨hacc.2, hacc.1⟩, List.filter_cons_of_pos (show isAccepted (text, r) = true from decide_eq_true hacc)]
          rfl
        · rw [if_neg fun h => hacc ⟨h.2, h.1⟩, pure_bind,
            List.filter_cons_of_neg (show ¬ isAccepted (text, r) = true from fun h => hacc (of_decide_eq_true h))]

theorem readHexFile_eq (file : List UChar) : readHexFile lone D (some file) = (do
    let written ← storeRecords D (accepted lone file) 0
    analyze D analyzeFuel 0
    return written) := by
  rw [readHexFile, readRecords_eq (Nat.lt_succ_self _)]
  rfl

/-- Each record of a file is read behind a colon. -/
theorem hexRecords_mem {fuel : Nat} {f : List UChar} {p : List UChar × HexRecord}
    (h : p ∈ hexRecords lone fuel f) :
    (∃ before, f = before ++ 0x3a :: p.1) ∧ ∃ rest, scanRecord lone p.1 = some (p.2, rest) := by
  induction fuel generalizing f with
  | zero => cases h
  | succ fuel ih =>
    rw [hexRecords] at h
    cases hcolon : afterColon f with
    | none =>
      rw [hcolon] at h
      cases h
    | some text =>
      rw [hcolon] at h
      dsimp only at h
      obtain ⟨before, rfl⟩ := afterColon_some hcolon
      cases hscan : scanRecord lone text with
      | none =>
        rw [hscan] at h
        cases h
      | some r =>
        obtain ⟨r, rest⟩ := r
        rw [hscan] at h
        rcases List.mem_cons.mp h with rfl | h
        · exact ⟨⟨before, rfl⟩, rest, hscan⟩
        · split at h
          · cases h
          · obtain ⟨⟨before', hrest⟩, hp⟩ := ih h
            obtain ⟨consumed, rfl⟩ := scanRecord_suffix hscan
            rw [hrest]
            exact ⟨⟨before ++ 0x3a :: (consumed ++ before'), by simp⟩, hp⟩

/-! ## What storing changes -/

/-- The cell behind the bytes that are not in the flash bank. -/
abbrev noFlash : Site := .dummy .flashbank0

/-- The memory after data is stored from an address on. -/
def storedFrom : List UChar → BitVec 32 → (Site → TMem) → Site → TMem
  | [], _, mem => mem
  | b :: data, addr, mem =>
    storedFrom data (addr + 1) (Function.update mem (Space.flashbank0.cellAt addr.toInt) (tmem b))

/-- The memory after records are stored. -/
def storedRecords : List (List UChar × HexRecord) → (Site → TMem) → Site → TMem
  | [], mem => mem
  | p :: ps, mem => storedRecords ps (storedFrom p.2.data p.2.addr mem)

/-- The number of bytes in records. -/
def dataBytes (ps : List (List UChar × HexRecord)) : Nat := (ps.map fun p => p.2.data.length).sum

/-- The same bytes but for those that are not in the flash bank. -/
def SameFlash (mem mem' : Site → TMem) : Prop := ∀ c, c ≠ noFlash → mem c = mem' c

theorem SameFlash.update {mem mem' : Site → TMem} (h : SameFlash mem mem') (c : Site) (v : TMem) :
    SameFlash (Function.update mem c v) (Function.update mem' c v) := by
  intro c' hc'
  rw [Function.update_apply, Function.update_apply, h c' hc']

theorem SameFlash.storedFrom {mem mem' : Site → TMem} (h : SameFlash mem mem') (data : List UChar)
    (addr : BitVec 32) : SameFlash (storedFrom data addr mem) (storedFrom data addr mem') := by
  induction data generalizing addr mem mem' with
  | nil => exact h
  | cons b data ih => exact ih (h.update _ _) (addr + 1)

theorem SameFlash.storedRecords {mem mem' : Site → TMem} (h : SameFlash mem mem')
    (ps : List (List UChar × HexRecord)) : SameFlash (storedRecords ps mem) (storedRecords ps mem') := by
  induction ps generalizing mem mem' with
  | nil => exact h
  | cons p ps ih => exact ih (h.storedFrom p.2.data p.2.addr)

/-- Storing a byte. -/
theorem setFlash_run (addr : Int) (b : UChar) (s : CodeState V) :
    ∃ t, (onSpace (Space.flashbank0.set D addr (tmem b))).run s = .ok ((), t) ∧
      SameFlash t.mem.sys.mem (Function.update s.mem.sys.mem (Space.flashbank0.cellAt addr) (tmem b)) := by
  by_cases hv : Space.flashbank0.invalid addr
  · have hset : (Space.flashbank0.set D addr (tmem b)).run s.mem = (do
        Space.flashbank0.errInvAddr addr
        discard ((Site.dummy .flashbank0).set D (tmem b)) : MemProg V Unit).run s.mem := by
      change (Space.flashbank0.setCells D addr (tmem b)).run s.mem = _
      rw [Space.setCells, if_pos hv]
    refine ⟨_, onSpace_run_ok (hset.trans rfl), fun c hc => ?_⟩
    have hcell : Space.flashbank0.cellAt addr = noFlash := if_pos hv
    rw [hcell, Function.update_of_ne hc]
    exact Function.update_of_ne hc _ _
  · obtain ⟨u, hrun, hu⟩ := setCells_yields (D := D) hv (tmem b) s.mem
    refine ⟨_, onSpace_run_ok hrun, fun c _ => ?_⟩
    have hbyte : tmem b &&& 0xff = tmem b := byte_and (by
      rw [BitVec.toNat_setWidth, Nat.mod_eq_of_lt (by omega)]
      exact b.isLt)
    change u.mem c = _
    rw [hu, setBytes, Function.update_apply, Space.cellAt_of_valid hv, hbyte]
    simp

theorem storeData_run (data : List UChar) (addr : BitVec 32) (written : Int) (s : CodeState V) :
    ∃ t, (storeData D data addr written).run s = .ok (written + data.length, t) ∧
      SameFlash t.mem.sys.mem (storedFrom data addr s.mem.sys.mem) := by
  induction data generalizing addr written s with
  | nil => exact ⟨s, by rw [List.length_nil, Int.natCast_zero, add_zero]; rfl, fun _ _ => rfl⟩
  | cons b data ih =>
    obtain ⟨u, hset, hu⟩ := setFlash_run (D := D) addr.toInt b s
    obtain ⟨t, hrest, ht⟩ := ih (addr + 1) (written + 1) u
    refine ⟨t, ?_, fun c hc => (ht c hc).trans (hu.storedFrom data (addr + 1) c hc)⟩
    have hlen : written + ((b :: data).length : Int) = written + 1 + data.length := by
      rw [List.length_cons]
      omega
    rw [hlen]
    exact (Program.run_bind_of_ok hset _).trans hrest

theorem storeRecords_run (ps : List (List UChar × HexRecord)) (written : Int) (s : CodeState V) :
    ∃ t, (storeRecords D ps written).run s = .ok (written + dataBytes ps, t) ∧
      SameFlash t.mem.sys.mem (storedRecords ps s.mem.sys.mem) := by
  induction ps generalizing written s with
  | nil => exact ⟨s, by rw [dataBytes, List.map_nil, List.sum_nil, Int.natCast_zero, add_zero]; rfl, fun _ _ => rfl⟩
  | cons p ps ih =>
    obtain ⟨u, hset, hu⟩ := storeData_run (D := D) p.2.data p.2.addr written s
    obtain ⟨t, hrest, ht⟩ := ih (written + p.2.data.length) u
    refine ⟨t, ?_, fun c hc => (ht c hc).trans (hu.storedRecords ps c hc)⟩
    have hlen : written + (dataBytes (p :: ps) : Int) = written + p.2.data.length + dataBytes ps := by
      rw [dataBytes, List.map_cons, List.sum_cons, ← dataBytes]
      omega
    rw [hlen]
    exact (Program.run_bind_of_ok hset _).trans hrest

/-- `read_hex_file` returns the number of bytes in the accepted records, having stored these. -/
theorem readHexFile_run (lone : UChar → UChar × UChar) (file : List UChar) (s : CodeState V) :
    ∃ t, (readHexFile lone D (some file)).run s = .ok ((dataBytes (accepted lone file) : Int), t) ∧
      SameFlash t.mem.sys.mem (storedRecords (accepted lone file) s.mem.sys.mem) := by
  obtain ⟨u, hstore, hu⟩ := storeRecords_run (D := D) (accepted lone file) 0 s
  obtain ⟨vs, t, -, hana, hmem, -⟩ := analyze_run (D := D) (le_refl 0) u
  refine ⟨t, ?_, by rwa [hmem]⟩
  rw [readHexFile_eq, Program.run_bind_of_ok hstore, Program.run_bind_of_ok hana, zero_add]
  rfl

end

/-! ## Malformed files -/

/-- The record is one of the file: it is read behind a colon there, and all its characters are. -/
structure CompleteIn (lone : UChar → UChar × UChar) (file : List UChar) (p : List UChar × HexRecord) : Prop where
  colon : ∃ before, file = before ++ 0x3a :: p.1
  record : ∃ rest, scanRecord lone p.1 = some (p.2, rest)
  complete : p.2.textLength ≤ p.1.length

/-- The file is cut off before the last digit of the checksum. -/
def CutAtEnd (p : List UChar × HexRecord) : Prop := p.1.length + 1 = p.2.textLength

/-- Every file is read to its end and inside `rec`, and stores the data of records of type 0 with the sum
0. The records with data are complete iff none of them is cut off before its last digit. -/
theorem readHexFile_stores {Dev V : Type} (D : Devices Dev V) (lone : UChar → UChar × UChar)
    (file : List UChar) :
    (∀ s : CodeState V, ∃ n t, (readHexFile lone D (some file)).run s = .ok (n, t)) ∧
    readHexFile lone D (some file) = (do
      let written ← storeRecords D (accepted lone file) 0
      analyze D analyzeFuel 0
      return written) ∧
    (∀ (s t : CodeState V), (analyze D analyzeFuel 0).run s = .ok ((), t) → t.mem.sys.mem = s.mem.sys.mem) ∧
    (∀ p ∈ accepted lone file, p.2.rtyp = 0 ∧ p.2.sum = 0) ∧
    ((∀ p ∈ accepted lone file, p.2.data ≠ [] → CompleteIn lone file p) ↔
      ∀ p ∈ hexRecords lone (file.length + 1) file, p.2.rtyp = 0 → p.2.sum = 0 → p.2.data ≠ [] →
        ¬ CutAtEnd p) := by
  refine ⟨fun s => ?_, readHexFile_eq file, fun s t hrun => ?_, fun p hp => ?_, fun h p hp h0 hsum hdata => ?_,
    fun h p hp hdata => ?_⟩
  · obtain ⟨t, hrun, -⟩ := readHexFile_run (D := D) lone file s
    exact ⟨_, t, hrun⟩
  · obtain ⟨vs, u, -, hrun', hmem, -⟩ := analyze_run (D := D) (le_refl 0) s
    rw [hrun'] at hrun
    cases hrun
    exact hmem
  · exact of_decide_eq_true (List.mem_filter.mp hp).2
  · have hmem : p ∈ accepted lone file := List.mem_filter.mpr ⟨hp, decide_eq_true ⟨h0, hsum⟩⟩
    have hlen := (h p hmem hdata).complete
    unfold CutAtEnd
    omega
  · obtain ⟨hmem, hacc⟩ := List.mem_filter.mp hp
    obtain ⟨hcolon, rest, hscan⟩ := hexRecords_mem hmem
    refine ⟨hcolon, ⟨rest, hscan⟩, ?_⟩
    obtain ⟨h0, hsum⟩ : p.2.rtyp = 0 ∧ p.2.sum = 0 := of_decide_eq_true hacc
    have hcut := h p hmem h0 hsum hdata
    unfold CutAtEnd at hcut
    rcases scanRecord_length hscan with hlen | ⟨hlen, -⟩ <;> omega

/-- `:01000100A75`, where the 7 of the data is still behind the 5. -/
def cutFile : List UChar := [0x3a, 0x30, 0x31, 0x30, 0x30, 0x30, 0x31, 0x30, 0x30, 0x41, 0x37, 0x35]

/-- The cut record is stored. -/
theorem not_readHexFile_complete :
    ¬ ∀ (lone : UChar → UChar × UChar) (file : List UChar) (s t : CodeState Unit) (n : Int),
      (readHexFile lone noDevices (some file)).run s = .ok (n, t) →
      (∀ p, ¬ (CompleteIn lone file p ∧ p.2.rtyp = 0 ∧ p.2.sum = 0 ∧ p.2.data ≠ [])) →
      SameFlash t.mem.sys.mem s.mem.sys.mem := by
  intro h
  let lone : UChar → UChar × UChar := fun c => (c, 0x37)
  let s : CodeState Unit := { mem := blank fun _ => 0, inst := fun _ => false }
  obtain ⟨t, hrun, ht⟩ := readHexFile_run (D := noDevices) lone cutFile s
  have hnone : ∀ p, ¬ (CompleteIn lone cutFile p ∧ p.2.rtyp = 0 ∧ p.2.sum = 0 ∧ p.2.data ≠ []) := by
    rintro ⟨text, r⟩ ⟨⟨⟨before, hcolon⟩, ⟨rest, hscan⟩, hlen⟩, -⟩
    cases before with
    | nil =>
      obtain rfl : cutFile.tail = text := (List.cons.inj hcolon).2
      have hread : scanRecord lone cutFile.tail = some (⟨1, 0, [0xa7], 0x57⟩, []) := by decide
      rw [hread] at hscan
      cases hscan
      exact absurd hlen (by decide)
    | cons c before =>
      have hmem : (0x3a : UChar) ∈ cutFile.tail := by
        rw [hcolon, List.cons_append, List.tail_cons]
        exact List.mem_append_right before List.mem_cons_self
      exact absurd hmem (by decide)
  have hsame := h lone cutFile s t _ hrun hnone (.cell .flashbank0 1) (by decide)
  have hstored := ht (.cell .flashbank0 1) (by decide)
  rw [hsame] at hstored
  have hbyte : storedRecords (accepted lone cutFile) s.mem.sys.mem (.cell .flashbank0 1) = 0xa7 := by
    decide +kernel
  rw [hbyte] at hstored
  exact absurd hstored (by decide)

end Ucsim.S51
