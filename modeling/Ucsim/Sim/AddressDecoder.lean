import Ucsim.Pobj.SortedList
import Ucsim.Sim.AddressSpace

/-!
# Address decoders

Activating a decoder first takes its range away from every other decoder of the list
(`undecode_area`), which removes, shrinks or splits them, and then lets each cell of the range point
into the chip. The upper half of a split decoder is a new decoder that is added to the list and
activated in turn, while the list is being walked.
-/

namespace Ucsim

namespace AddressDecoder

/-- `fully_covered_by`. -/
def fullyCoveredBy (d : AddressDecoder) (b e : Int) : Prop := b ≤ d.asBegin ∧ e ≥ d.asEnd

/-- `is_in`. -/
def isIn (d : AddressDecoder) (b e : Int) : Prop :=
  (b ≥ d.asBegin ∧ b ≤ d.asEnd) ∨ (e ≥ d.asBegin ∧ e ≤ d.asEnd)

/-- `covers`: strictly, on both sides. -/
def covers (d : AddressDecoder) (b e : Int) : Prop := b > d.asBegin ∧ e < d.asEnd

instance (d : AddressDecoder) (b e : Int) : Decidable (d.fullyCoveredBy b e) :=
  inferInstanceAs (Decidable (_ ∧ _))

instance (d : AddressDecoder) (b e : Int) : Decidable (d.isIn b e) :=
  inferInstanceAs (Decidable (_ ∨ _))

instance (d : AddressDecoder) (b e : Int) : Decidable (d.covers b e) :=
  inferInstanceAs (Decidable (_ ∧ _))

/-- The assignments at the end of `shrink_out_of`. -/
def shrunk (v : AddressDecoder) (b e : Int) : AddressDecoder :=
  let v := if b > v.asBegin then { v with asEnd := b - 1 } else v
  if v.asEnd > e then
    { v with chipBegin := v.chipBegin + (e - v.asBegin + 1), asBegin := e + 1 }
  else v

/-- The decoder that `split` makes for the part of the range behind `e`. -/
def behind (v : AddressDecoder) (e : Int) : AddressDecoder :=
  { onSpace := v.onSpace, memchip := v.memchip, asBegin := e + 1, asEnd := v.asEnd,
    chipBegin := v.chipBegin + (e - v.asBegin) + 1, activated := false }

/-- The decoder that `split` makes for the part of the range before `b`. -/
def before (v : AddressDecoder) (b : Int) : AddressDecoder :=
  { onSpace := v.onSpace, memchip := v.memchip, asBegin := v.asBegin, asEnd := b - 1,
    chipBegin := v.chipBegin, activated := false }

end AddressDecoder

variable {Hw : Type}

namespace AddressSpace

/-- Change a decoder object. -/
def setDecoder (sp : AddressSpace Hw) (d : DecoderPtr) (v : AddressDecoder) : AddressSpace Hw :=
  { sp with decoder := Function.update sp.decoder d v }

@[simp] theorem setDecoder_self (sp : AddressSpace Hw) (d : DecoderPtr) (v : AddressDecoder) :
    (sp.setDecoder d v).decoder d = v := by
  simp only [setDecoder, Function.update_self]

theorem setDecoder_ne (sp : AddressSpace Hw) {d y : DecoderPtr} (h : y ≠ d) (v : AddressDecoder) :
    (sp.setDecoder d v).decoder y = sp.decoder y := by
  simp only [setDecoder, Function.update_of_ne h]

/-- `new cl_address_decoder`. -/
def newDecoder (sp : AddressSpace Hw) (v : AddressDecoder) : DecoderPtr × AddressSpace Hw :=
  (sp.freshDecoder,
    { sp.setDecoder sp.freshDecoder v with freshDecoder := sp.freshDecoder + 1 })

/-- `cl_decoder_list::compare` on the keys `as_begin` of two decoders. -/
def compare (sp : AddressSpace Hw) (k1 k2 : DecoderPtr) : Int :=
  if (sp.decoder k1).asBegin = (sp.decoder k2).asBegin then 0
  else if (sp.decoder k1).asBegin > (sp.decoder k2).asBegin then 1
  else -1

/-- `decoders->add(d)`. The list is sorted by the keys the decoders have at that time. That its array ends at
`max_list_size` is left out. -/
def addDecoder (sp : AddressSpace Hw) (d : DecoderPtr) : AddressSpace Hw :=
  let cmp i := sp.compare (sp.decoders.getD i d) d
  { sp with decoders := SortedList.add sp.decoders cmp true d }

/-- `decoders->disconn(d)`. -/
def disconnDecoder (sp : AddressSpace Hw) (d : DecoderPtr) : AddressSpace Hw :=
  { sp with decoders := sp.decoders.erase d }

/-- Un-decode `n` cells from address `a` on. -/
def undecodeCells : Nat → Int → AddressSpace Hw → AddressSpace Hw
  | 0, _, sp => sp
  | n + 1, a, sp => undecodeCells n (a + 1) (sp.undecodeCell a)

/-- The loop `for (a= begin; a <= end; a++) undecode_cell(a)`. -/
def undecodeFromTo (sp : AddressSpace Hw) (b e : Int) : AddressSpace Hw :=
  undecodeCells (e - b + 1).toNat b sp

/-- Decode `n` cells from address `asa` on to the slots from `ca` on. -/
def decodeCells (chip : MemoryChip) : Nat → Int → Int → AddressSpace Hw → AddressSpace Hw
  | 0, _, _, sp => sp
  | n + 1, asa, ca, sp => decodeCells chip n (asa + 1) (ca + 1) (sp.decodeCell asa chip ca)

/-- The destructor of a decoder. -/
def deleteDecoder (sp : AddressSpace Hw) (d : DecoderPtr) : AddressSpace Hw :=
  let v := sp.decoder d
  if v.onSpace then sp.undecodeFromTo v.asBegin v.asEnd else sp

/-- `shrink_out_of`: whether the shrunken decoder is unnecessary. -/
def shrinkOutOf (sp : AddressSpace Hw) (d : DecoderPtr) (b e : Int) : Bool × AddressSpace Hw :=
  let v := sp.decoder d
  if v.onSpace then
    let sp := sp.undecodeFromTo (max b v.asBegin) (min e v.asEnd)
    let v := v.shrunk b e
    (v.asEnd < v.asBegin, sp.setDecoder d v)
  else (true, sp)

/-- `split`. -/
def split (sp : AddressSpace Hw) (d : DecoderPtr) (b e : Int) :
    Option DecoderPtr × AddressSpace Hw :=
  let v := sp.decoder d
  if b > v.asBegin then
    if v.asEnd > e then
      let (nd, sp) := sp.newDecoder (v.behind e)
      (some nd, (sp.shrinkOutOf d b v.asEnd).2)
    else (none, (sp.shrinkOutOf d b v.asEnd).2)
  else if e < v.asEnd then
    if v.asBegin < b then
      let (nd, sp) := sp.newDecoder (v.before b)
      (some nd, (sp.shrinkOutOf d (e + 1) v.asEnd).2)
    else (none, (sp.shrinkOutOf d (e + 1) v.asEnd).2)
  else (none, sp)

/-- The checks at the head of `activate`. Overflow of the signed subtractions, which C++ leaves
undefined, is not modelled. -/
def checks (sp : AddressSpace Hw) (v : AddressDecoder) : Option MemoryChip :=
  if v.activated then none
  else if v.onSpace = false then none
  else
    match v.memchip with
    | none => none
    | some chip =>
      if v.asBegin > v.asEnd then none
      else if v.chipBegin ≥ chip.size then none
      else if v.asBegin < sp.startAddress ∨ v.asEnd ≥ sp.startAddress + sp.size then none
      else if v.asEnd - v.asBegin > chip.size - v.chipBegin then none
      else some chip

/-- `activate`, given the effect of `undecode_area`. -/
def activateWith (undecodeArea : DecoderPtr → Int → Int → AddressSpace Hw → Option (AddressSpace Hw))
    (d : DecoderPtr) (sp : AddressSpace Hw) : Option (Bool × AddressSpace Hw) :=
  match sp.checks (sp.decoder d) with
  | none => some (false, sp)
  | some chip =>
    match undecodeArea d (sp.decoder d).asBegin (sp.decoder d).asEnd sp with
    | none => none
    | some sp =>
      let v := sp.decoder d
      let sp := decodeCells chip (v.asEnd - v.asBegin + 1).toNat v.asBegin v.chipBegin sp
      some (true, sp.setDecoder d { v with activated := true })

/-- The loop of `undecode_area` from index `i` on; `none` when `fuel` runs out. -/
def undecodeAreaFrom : (fuel : Nat) → (i : Nat) → (skip : DecoderPtr) → (b e : Int) →
    AddressSpace Hw → Option (AddressSpace Hw)
  | 0, _, _, _, _, _ => none
  | fuel + 1, i, skip, b, e, sp =>
    match sp.decoders[i]? with
    | none => some sp
    | some d =>
      if d = skip then undecodeAreaFrom fuel (i + 1) skip b e sp
      else if (sp.decoder d).fullyCoveredBy b e then
        -- `i--`: the next decoder has moved to the same index
        undecodeAreaFrom fuel i skip b e ((sp.disconnDecoder d).deleteDecoder d)
      else if (sp.decoder d).covers b e then
        match sp.split d b e with
        | (none, sp) => undecodeAreaFrom fuel (i + 1) skip b e sp
        | (some nd, sp) =>
          match activateWith (undecodeAreaFrom fuel 0) nd (sp.addDecoder nd) with
          | none => none
          | some (_, sp) => undecodeAreaFrom fuel (i + 1) skip b e sp
      else if (sp.decoder d).isIn b e then
        match sp.shrinkOutOf d b e with
        | (true, sp) =>
          undecodeAreaFrom fuel i skip b e ((sp.disconnDecoder d).deleteDecoder d)
        | (false, sp) => undecodeAreaFrom fuel (i + 1) skip b e sp
      else undecodeAreaFrom fuel (i + 1) skip b e sp

/-- `activate` of the decoder `d`; `none` when `fuel` runs out. -/
def activate (fuel : Nat) (d : DecoderPtr) (sp : AddressSpace Hw) :
    Option (Bool × AddressSpace Hw) :=
  activateWith (undecodeAreaFrom fuel 0) d sp

/-! ## More fuel changes nothing -/

theorem activateWith_mono {u u' : DecoderPtr → Int → Int → AddressSpace Hw → Option (AddressSpace Hw)}
    (hu : ∀ d b e sp sp', u d b e sp = some sp' → u' d b e sp = some sp') {d : DecoderPtr}
    {sp : AddressSpace Hw} {r : Bool × AddressSpace Hw} (h : activateWith u d sp = some r) :
    activateWith u' d sp = some r := by
  rw [activateWith] at h ⊢
  cases hchecks : sp.checks (sp.decoder d) with
  | none =>
    rw [hchecks] at h
    exact h
  | some chip =>
    simp only [hchecks] at h ⊢
    cases hrun : u d (sp.decoder d).asBegin (sp.decoder d).asEnd sp with
    | none =>
      rw [hrun] at h
      cases h
    | some sp' =>
      rw [hrun] at h
      rw [hu _ _ _ _ _ hrun]
      exact h

theorem undecodeAreaFrom_mono (fuel : Nat) :
    ∀ (fuel' i : Nat) (skip : DecoderPtr) (b e : Int) (sp sp' : AddressSpace Hw), fuel ≤ fuel' →
      undecodeAreaFrom fuel i skip b e sp = some sp' →
        undecodeAreaFrom fuel' i skip b e sp = some sp' := by
  induction fuel with
  | zero => intro fuel' i skip b e sp sp' _ h; cases h
  | succ fuel ih =>
    intro fuel' i skip b e sp sp' hle h
    obtain ⟨fuel', rfl⟩ : ∃ k, fuel' = k + 1 := ⟨fuel' - 1, by omega⟩
    have ih' (i : Nat) (skip : DecoderPtr) (b e : Int) (sp sp' : AddressSpace Hw) :=
      ih fuel' i skip b e sp sp' (by omega)
    rw [undecodeAreaFrom] at h ⊢
    cases hget : sp.decoders[i]? with
    | none =>
      rw [hget] at h
      exact h
    | some d =>
      simp only [hget] at h ⊢
      by_cases hskip : d = skip
      · simp only [if_pos hskip] at h ⊢
        exact ih' _ _ _ _ _ _ h
      · simp only [if_neg hskip] at h ⊢
        by_cases hfull : (sp.decoder d).fullyCoveredBy b e
        · simp only [if_pos hfull] at h ⊢
          exact ih' _ _ _ _ _ _ h
        · simp only [if_neg hfull] at h ⊢
          by_cases hcov : (sp.decoder d).covers b e
          · simp only [if_pos hcov] at h ⊢
            cases hsplit : sp.split d b e with
            | mk nd spB =>
              simp only [hsplit] at h ⊢
              cases nd with
              | none => exact ih' _ _ _ _ _ _ h
              | some nd =>
                cases hact : activateWith (undecodeAreaFrom fuel 0) nd (spB.addDecoder nd) with
                | none =>
                  simp only [hact] at h
                  cases h
                | some r =>
                  have hact' := activateWith_mono (fun _ _ _ _ _ => ih' 0 _ _ _ _ _) hact
                  simp only [hact] at h
                  simp only [hact']
                  exact ih' _ _ _ _ _ _ h
          · simp only [if_neg hcov] at h ⊢
            by_cases hin : (sp.decoder d).isIn b e
            · simp only [if_pos hin] at h ⊢
              cases hshrink : sp.shrinkOutOf d b e with
              | mk gone spB =>
                simp only [hshrink] at h ⊢
                cases gone with
                | true => exact ih' _ _ _ _ _ _ h
                | false => exact ih' _ _ _ _ _ _ h
            · simp only [if_neg hin] at h ⊢
              exact ih' _ _ _ _ _ _ h

theorem activate_mono {fuel fuel' : Nat} (hle : fuel ≤ fuel') {d : DecoderPtr}
    {sp : AddressSpace Hw} {r : Bool × AddressSpace Hw} (h : activate fuel d sp = some r) :
    activate fuel' d sp = some r :=
  activateWith_mono (fun d b e sp sp' => undecodeAreaFrom_mono fuel fuel' 0 d b e sp sp' hle) h

end AddressSpace

end Ucsim
