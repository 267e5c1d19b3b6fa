import Ucsim.Sim.AddressDecoder

/-!
# Activating a decoder

`WellDecoded` is the invariant of a space all of whose decoders have been activated: their ranges are
disjoint and lie in the space, and every cell in a range points to its slot, or to a place of its own
where the chip has no such slot. The loop of `undecode_area` keeps it for every decoder but the one
being activated. `Undecodes` says what a part of that loop does to the rest of the space, so that the
effect of the whole loop is the composition of the effects of its branches.
-/

namespace Ucsim

variable {Hw : Type}

namespace AddressSpace

variable {sp sp' : AddressSpace Hw}

/-! ## The loops over cells -/

/-- Un-decoding leaves a non-decoded cell as it is. -/
theorem undecodeCell_of_nonDecoded (sp : AddressSpace Hw) (a : Int) {x : Int}
    (h : (sp.cellAt x).nonDecoded = true) : (sp.undecodeCell a).cellAt x = sp.cellAt x := by
  by_cases hx : x = a
  · subst hx
    rw [undecodeCell]
    split
    · rw [unDecode_of_nonDecoded h]
    · rfl
  · exact (undecodeCell_sameBut sp a).cell x hx

theorem undecodeCells_sameBut (n : Nat) :
    ∀ (a : Int) (sp : AddressSpace Hw),
      SameBut (fun x => a ≤ x ∧ x < a + n) sp (undecodeCells n a sp) := by
  induction n with
  | zero => exact fun a sp => SameBut.refl _ sp
  | succ n ih =>
    intro a sp
    have hfirst := (undecodeCell_sameBut sp a).mono (T := fun x => a ≤ x ∧ x < a + (n + 1 : Nat))
      (fun x hx => by omega)
    have hrest := (ih (a + 1) (sp.undecodeCell a)).mono
      (T := fun x => a ≤ x ∧ x < a + (n + 1 : Nat)) (fun x hx => by omega)
    exact hfirst.trans hrest

theorem undecodeCells_of_nonDecoded (n : Nat) {x : Int} :
    ∀ (a : Int) (sp : AddressSpace Hw), (sp.cellAt x).nonDecoded = true →
      (undecodeCells n a sp).cellAt x = sp.cellAt x := by
  induction n with
  | zero => exact fun a sp _ => rfl
  | succ n ih =>
    intro a sp h
    have hfirst := undecodeCell_of_nonDecoded sp a h
    rw [undecodeCells, ih (a + 1) _ (by rw [hfirst]; exact h), hfirst]

theorem undecodeCells_nonDecoded (n : Nat) {x : Int} :
    ∀ (a : Int) (sp : AddressSpace Hw), a ≤ x → x < a + n → sp.validAddress x →
      ((undecodeCells n a sp).cellAt x).nonDecoded = true := by
  induction n with
  | zero => intro a sp h1 h2; omega
  | succ n ih =>
    intro a sp h1 h2 hv
    have hvalid := ((undecodeCell_sameBut sp a).validAddress_iff x).mpr hv
    by_cases hx : x = a
    · subst hx
      have hnd : ((sp.undecodeCell x).cellAt x).nonDecoded = true := by
        rw [undecodeCell, if_pos hv]
        exact unDecode_nonDecoded sp x
      rw [undecodeCells, undecodeCells_of_nonDecoded n _ _ hnd]
      exact hnd
    · exact ih (a + 1) _ (by omega) (by omega) hvalid

theorem undecodeFromTo_sameBut (sp : AddressSpace Hw) (b e : Int) :
    SameBut (fun x => b ≤ x ∧ x ≤ e) sp (sp.undecodeFromTo b e) :=
  (undecodeCells_sameBut (e - b + 1).toNat b sp).mono (fun x hx => by omega)

theorem undecodeFromTo_nonDecoded {b e x : Int} (hb : b ≤ x) (he : x ≤ e)
    (hv : sp.validAddress x) : ((sp.undecodeFromTo b e).cellAt x).nonDecoded = true :=
  undecodeCells_nonDecoded _ b sp hb (by omega) hv

theorem decodeCells_sameBut (chip : MemoryChip) (n : Nat) :
    ∀ (a ca : Int) (sp : AddressSpace Hw),
      SameBut (fun x => a ≤ x ∧ x < a + n) sp (decodeCells chip n a ca sp) := by
  induction n with
  | zero => exact fun a ca sp => SameBut.refl _ sp
  | succ n ih =>
    intro a ca sp
    have hfirst := (decodeCell_sameBut sp a chip ca).mono
      (T := fun x => a ≤ x ∧ x < a + (n + 1 : Nat)) (fun x hx => by omega)
    have hrest := (ih (a + 1) (ca + 1) (sp.decodeCell a chip ca)).mono
      (T := fun x => a ≤ x ∧ x < a + (n + 1 : Nat)) (fun x hx => by omega)
    exact hfirst.trans hrest

/-- The decoding loop wires each cell to the slot at the same distance from the start. -/
theorem decodeCells_wiredTo (chip : MemoryChip) (n : Nat) {x : Int} :
    ∀ (a ca : Int) (sp : AddressSpace Hw), a ≤ x → x < a + n → sp.validAddress x →
      (decodeCells chip n a ca sp).WiredTo x (chip.getSlot (ca + (x - a))) := by
  induction n with
  | zero => intro a ca sp h1 h2; omega
  | succ n ih =>
    intro a ca sp h1 h2 hv
    rw [decodeCells]
    by_cases hx : x = a
    · subst hx
      rw [Int.sub_self, Int.add_zero]
      have hrest := (decodeCells_sameBut chip n (x + 1) (ca + 1) (sp.decodeCell x chip ca)).cell x
        (by omega)
      exact (decodeCell_wiredTo hv chip ca).congr hrest
    · have hvalid := ((decodeCell_sameBut sp a chip ca).validAddress_iff x).mpr hv
      have hslot : ca + 1 + (x - (a + 1)) = ca + (x - a) := by omega
      rw [← hslot]
      exact ih (a + 1) (ca + 1) _ (by omega) (by omega) hvalid

end AddressSpace

/-! ## Ranges and slots of a decoder -/

namespace AddressDecoder

/-- The slot that a decoder gives to an address. -/
def slotOf (v : AddressDecoder) (a : Int) : Option DataPtr :=
  v.memchip.bind fun chip => chip.getSlot (v.chipBegin + (a - v.asBegin))

/-- The range of a decoder meets `[b, e]`. -/
def Meets (v : AddressDecoder) (b e : Int) : Prop := v.asBegin ≤ e ∧ b ≤ v.asEnd

/-- Two ranges do not meet. -/
def Apart (v w : AddressDecoder) : Prop := v.asEnd < w.asBegin ∨ w.asEnd < v.asBegin

theorem Apart.symm {v w : AddressDecoder} (h : Apart v w) : Apart w v := Or.symm h

/-- Shrinking at the upper end. -/
theorem shrunk_upper {v : AddressDecoder} {b e : Int} (hb : b > v.asBegin) (hbe : b ≤ e + 1) :
    v.shrunk b e = { v with asEnd := b - 1 } := by
  have hend : ¬ b - 1 > e := by omega
  rw [shrunk, if_pos hb]
  exact if_neg hend

/-- Shrinking at the lower end. -/
theorem shrunk_lower {v : AddressDecoder} {b e : Int} (hb : b ≤ v.asBegin) (he : e < v.asEnd) :
    v.shrunk b e
      = { v with chipBegin := v.chipBegin + (e - v.asBegin + 1), asBegin := e + 1 } := by
  have hb' : ¬ b > v.asBegin := by omega
  rw [shrunk, if_neg hb']
  exact if_pos he

/-- `w` gives each address of its range, which is part of that of `v`, the slot that `v` gives it. -/
structure PartOf (w v : AddressDecoder) : Prop where
  onSpace : w.onSpace = v.onSpace
  memchip : w.memchip = v.memchip
  slope : w.chipBegin - w.asBegin = v.chipBegin - v.asBegin
  low : v.asBegin ≤ w.asBegin
  high : w.asEnd ≤ v.asEnd

theorem PartOf.slotOf {w v : AddressDecoder} (h : PartOf w v) (a : Int) : w.slotOf a = v.slotOf a := by
  have hslope := h.slope
  have hidx : w.chipBegin + (a - w.asBegin) = v.chipBegin + (a - v.asBegin) := by omega
  rw [AddressDecoder.slotOf, AddressDecoder.slotOf, h.memchip, hidx]

theorem shrunk_upper_partOf {v : AddressDecoder} {b e : Int} (hb : b > v.asBegin) (hbe : b ≤ e + 1)
    (hend : b ≤ v.asEnd + 1) : PartOf (v.shrunk b e) v := by
  rw [shrunk_upper hb hbe]
  have hhigh : b - 1 ≤ v.asEnd := by omega
  exact ⟨rfl, rfl, rfl, Int.le_refl _, hhigh⟩

theorem shrunk_lower_partOf {v : AddressDecoder} {b e : Int} (hb : b ≤ v.asBegin)
    (he : e < v.asEnd) (hbegin : v.asBegin ≤ e + 1) : PartOf (v.shrunk b e) v := by
  rw [shrunk_lower hb he]
  have hslope : v.chipBegin + (e - v.asBegin + 1) - (e + 1) = v.chipBegin - v.asBegin := by omega
  exact ⟨rfl, rfl, hslope, hbegin, Int.le_refl _⟩

theorem behind_partOf {v : AddressDecoder} {b e : Int} (hbe : b ≤ e) (hcov : v.covers b e) :
    PartOf (v.behind e) v := by
  obtain ⟨hb, he⟩ := hcov
  have hslope : v.chipBegin + (e - v.asBegin) + 1 - (e + 1) = v.chipBegin - v.asBegin := by omega
  have hlow : v.asBegin ≤ e + 1 := by omega
  exact ⟨rfl, rfl, hslope, hlow, Int.le_refl _⟩

end AddressDecoder

namespace AddressSpace

variable {sp sp' sp'' : AddressSpace Hw}

/-! ## The invariant -/

/-- What holds of a decoder once it has been activated, whatever has been cut off it since. -/
structure Decodes (sp : AddressSpace Hw) (v : AddressDecoder) : Prop where
  onSpace : v.onSpace = true
  ordered : v.asBegin ≤ v.asEnd
  low : sp.startAddress ≤ v.asBegin
  high : v.asEnd < sp.startAddress + sp.size
  fits : ∃ chip, v.memchip = some chip ∧ v.asEnd - v.asBegin ≤ chip.size - v.chipBegin
  wired : ∀ a, v.asBegin ≤ a → a ≤ v.asEnd → sp.WiredTo a (v.slotOf a)

/-- `Decodes` looks at the cells in the range only. -/
theorem Decodes.congr {v : AddressDecoder} (h : sp.Decodes v)
    (hstart : sp'.startAddress = sp.startAddress) (hsize : sp'.size = sp.size)
    (hcell : ∀ a, v.asBegin ≤ a → a ≤ v.asEnd → sp'.cellAt a = sp.cellAt a) : sp'.Decodes v where
  onSpace := h.onSpace
  ordered := h.ordered
  low := by rw [hstart]; exact h.low
  high := by rw [hstart, hsize]; exact h.high
  fits := h.fits
  wired a hb he := (h.wired a hb he).congr (hcell a hb he)

/-- What has been cut off or is left of a decoder decodes its part of the range. -/
theorem Decodes.part {v w : AddressDecoder} (h : sp.Decodes v) (hw : w.PartOf v)
    (hne : w.asBegin ≤ w.asEnd) : sp.Decodes w := by
  obtain ⟨chip, hchip, hfits⟩ := h.fits
  have hslope := hw.slope
  have hlow := hw.low
  have hhigh := hw.high
  refine ⟨hw.onSpace.trans h.onSpace, hne, ?_, ?_, ⟨chip, hw.memchip.trans hchip, ?_⟩, ?_⟩
  · have := h.low
    omega
  · have := h.high
    omega
  · omega
  · intro a hb he
    rw [hw.slotOf]
    exact h.wired a (by omega) (by omega)

/-- All decoders of the list but `skip` are activated, and they do not meet. -/
structure WellDecoded (skip : DecoderPtr) (sp : AddressSpace Hw) : Prop where
  nodup : sp.decoders.Nodup
  allocated : ∀ x ∈ sp.decoders, x < sp.freshDecoder
  decodes : ∀ x ∈ sp.decoders, x ≠ skip → sp.Decodes (sp.decoder x)
  apart : ∀ x ∈ sp.decoders, ∀ y ∈ sp.decoders, x ≠ skip → y ≠ skip → x ≠ y →
    (sp.decoder x).Apart (sp.decoder y)

/-- The address `a` lies above `e` in the range of a decoder that strictly covers `[b, e]`. -/
def InTail (skip : DecoderPtr) (b e : Int) (sp : AddressSpace Hw) (a : Int) : Prop :=
  ∃ x ∈ sp.decoders, x ≠ skip ∧ (sp.decoder x).covers b e ∧ e < a ∧ a ≤ (sp.decoder x).asEnd

/-- What a part of the loop of `undecode_area` does to everything outside `[b, e]`. -/
structure Undecodes (skip : DecoderPtr) (b e : Int) (sp sp' : AddressSpace Hw) : Prop where
  startAddress : sp'.startAddress = sp.startAddress
  size : sp'.size = sp.size
  freshDecoder : sp.freshDecoder ≤ sp'.freshDecoder
  skip_eq : skip < sp.freshDecoder → sp'.decoder skip = sp.decoder skip
  skip_mem : skip < sp.freshDecoder → (skip ∈ sp'.decoders ↔ skip ∈ sp.decoders)
  covers : ∀ x ∈ sp'.decoders, x ≠ skip → (sp'.decoder x).covers b e →
    x ∈ sp.decoders ∧ (sp'.decoder x).PartOf (sp.decoder x)
  operators : ∀ a, (sp'.cellAt a).operators = (sp.cellAt a).operators
  mask : ∀ a, (sp'.cellAt a).mask = (sp.cellAt a).mask
  cell : ∀ a, ¬ (b ≤ a ∧ a ≤ e) →
    (sp.cellAt a).nonDecoded = false ∨ ¬ InTail skip b e sp a → sp'.cellAt a = sp.cellAt a

namespace Undecodes

variable {skip : DecoderPtr} {b e : Int}

theorem refl (skip : DecoderPtr) (b e : Int) (sp : AddressSpace Hw) : Undecodes skip b e sp sp where
  startAddress := rfl
  size := rfl
  freshDecoder := Nat.le_refl _
  skip_eq _ := rfl
  skip_mem _ := Iff.rfl
  covers _ hx _ _ := ⟨hx, ⟨rfl, rfl, rfl, Int.le_refl _, Int.le_refl _⟩⟩
  operators _ := rfl
  mask _ := rfl
  cell _ _ _ := rfl

/-- A decoder that covers the range after a step covered it before. -/
theorem inTail (h : Undecodes skip b e sp sp') {a : Int} (ht : InTail skip b e sp' a) :
    InTail skip b e sp a := by
  obtain ⟨x, hx, hskip, hcov, hea, hae⟩ := ht
  obtain ⟨hmem, hpart⟩ := h.covers x hx hskip hcov
  have hlow := hpart.low
  have hhigh := hpart.high
  obtain ⟨hc1, hc2⟩ := hcov
  exact ⟨x, hmem, hskip, ⟨by omega, by omega⟩, hea, by omega⟩

theorem trans (h : Undecodes skip b e sp sp') (h' : Undecodes skip b e sp' sp'') :
    Undecodes skip b e sp sp'' where
  startAddress := h'.startAddress.trans h.startAddress
  size := h'.size.trans h.size
  freshDecoder := Nat.le_trans h.freshDecoder h'.freshDecoder
  skip_eq hs := (h'.skip_eq (Nat.lt_of_lt_of_le hs h.freshDecoder)).trans (h.skip_eq hs)
  skip_mem hs := (h'.skip_mem (Nat.lt_of_lt_of_le hs h.freshDecoder)).trans (h.skip_mem hs)
  covers x hx hskip hcov := by
    obtain ⟨hmem, hpart⟩ := h'.covers x hx hskip hcov
    have hlow := hpart.low
    have hhigh := hpart.high
    obtain ⟨hc1, hc2⟩ := hcov
    obtain ⟨hmem', hpart'⟩ := h.covers x hmem hskip ⟨by omega, by omega⟩
    exact ⟨hmem', hpart.onSpace.trans hpart'.onSpace, hpart.memchip.trans hpart'.memchip,
      hpart.slope.trans hpart'.slope, Int.le_trans hpart'.low hpart.low,
      Int.le_trans hpart.high hpart'.high⟩
  operators a := (h'.operators a).trans (h.operators a)
  mask a := (h'.mask a).trans (h.mask a)
  cell a hout ha := by
    have hcell := h.cell a hout ha
    rw [← hcell]
    refine h'.cell a hout ?_
    rcases ha with hdec | htail
    · exact Or.inl (by rw [hcell]; exact hdec)
    · exact Or.inr (fun ht => htail (h.inTail ht))

end Undecodes

/-! ## The branches of the loop -/

variable {skip x : DecoderPtr} {b e : Int}

/-- Removing a decoder that lies in the range. -/
theorem WellDecoded.remove (h : WellDecoded skip sp) (hx : x ∈ sp.decoders) (hskip : x ≠ skip)
    (hcov : (sp.decoder x).fullyCoveredBy b e) :
    WellDecoded skip ((sp.disconnDecoder x).deleteDecoder x) ∧
      Undecodes skip b e sp ((sp.disconnDecoder x).deleteDecoder x) ∧
      ((sp.disconnDecoder x).deleteDecoder x).decoders = sp.decoders.erase x ∧
      ((sp.disconnDecoder x).deleteDecoder x).decoder = sp.decoder := by
  have hdx := h.decodes x hx hskip
  obtain ⟨hc1, hc2⟩ := hcov
  have hframe : SameBut (fun a => (sp.decoder x).asBegin ≤ a ∧ a ≤ (sp.decoder x).asEnd)
      (sp.disconnDecoder x) ((sp.disconnDecoder x).deleteDecoder x) := by
    have honSpace : ((sp.disconnDecoder x).decoder x).onSpace = true := hdx.onSpace
    rw [deleteDecoder, if_pos honSpace]
    exact undecodeFromTo_sameBut _ _ _
  have hmem (y : DecoderPtr) (hy : y ∈ sp.decoders.erase x) : y ∈ sp.decoders ∧ y ≠ x :=
    ⟨List.mem_of_mem_erase hy, fun hyx => by
      subst hyx
      exact h.nodup.not_mem_erase hy⟩
  have hlist : ((sp.disconnDecoder x).deleteDecoder x).decoders = sp.decoders.erase x :=
    hframe.decoders
  have hobj : ((sp.disconnDecoder x).deleteDecoder x).decoder = sp.decoder := hframe.decoder
  refine ⟨?_, ?_, hlist, hobj⟩
  · refine ⟨?_, ?_, ?_, ?_⟩
    · rw [hlist]
      exact h.nodup.erase x
    · intro y hy
      rw [hlist] at hy
      rw [hframe.freshDecoder]
      exact h.allocated y (hmem y hy).1
    · intro y hy hyskip
      rw [hlist] at hy
      rw [hobj]
      obtain ⟨hy, hyx⟩ := hmem y hy
      have hap := h.apart x hx y hy hskip hyskip (Ne.symm hyx)
      refine (h.decodes y hy hyskip).congr hframe.startAddress hframe.size ?_
      intro a h1 h2
      refine hframe.cell a ?_
      rcases hap with hap | hap
      · omega
      · omega
    · intro y hy z hz hyskip hzskip hyz
      rw [hlist] at hy hz
      rw [hobj]
      exact h.apart y (hmem y hy).1 z (hmem z hz).1 hyskip hzskip hyz
  · exact
      { startAddress := hframe.startAddress
        size := hframe.size
        freshDecoder := Nat.le_of_eq hframe.freshDecoder.symm
        skip_eq := fun _ => congrFun hobj skip
        skip_mem := fun _ => by
          rw [hlist]
          exact List.mem_erase_of_ne (Ne.symm hskip)
        covers := fun y hy _ _ => by
          rw [hlist] at hy
          rw [hobj]
          exact ⟨(hmem y hy).1, ⟨rfl, rfl, rfl, Int.le_refl _, Int.le_refl _⟩⟩
        operators := hframe.operators
        mask := hframe.mask
        cell := fun a hout _ => hframe.cell a (by omega) }

/-- Cutting cells off a decoder: `w` is what is left of it, and the cells in `S` are un-decoded. -/
theorem WellDecoded.cut (h : WellDecoded skip sp) (hx : x ∈ sp.decoders) (hskip : x ≠ skip)
    {S : Int → Prop} (hframe : SameBut S sp sp')
    (hS : ∀ a, S a → (sp.decoder x).asBegin ≤ a ∧ a ≤ (sp.decoder x).asEnd)
    {w : AddressDecoder} (hw : w.PartOf (sp.decoder x)) (hne : w.asBegin ≤ w.asEnd)
    (hkeep : ∀ a, w.asBegin ≤ a → a ≤ w.asEnd → ¬ S a) : WellDecoded skip (sp'.setDecoder x w) := by
  have hself : (sp'.setDecoder x w).decoder x = w := setDecoder_self sp' x w
  have hother (y : DecoderPtr) (hy : y ≠ x) : (sp'.setDecoder x w).decoder y = sp.decoder y :=
    (setDecoder_ne sp' hy w).trans (congrFun hframe.decoder y)
  have hlist : (sp'.setDecoder x w).decoders = sp.decoders := hframe.decoders
  have hlow := hw.low
  have hhigh := hw.high
  refine ⟨?_, ?_, ?_, ?_⟩
  · rw [hlist]
    exact h.nodup
  · intro y hy
    rw [hlist] at hy
    exact Nat.lt_of_lt_of_eq (h.allocated y hy) hframe.freshDecoder.symm
  · intro y hy hyskip
    rw [hlist] at hy
    by_cases hyx : y = x
    · subst hyx
      rw [hself]
      refine ((h.decodes y hx hskip).part hw hne).congr hframe.startAddress hframe.size ?_
      exact fun a h1 h2 => hframe.cell a (hkeep a h1 h2)
    · rw [hother y hyx]
      refine (h.decodes y hy hyskip).congr hframe.startAddress hframe.size ?_
      intro a h1 h2
      refine hframe.cell a (fun hSa => ?_)
      obtain ⟨h3, h4⟩ := hS a hSa
      rcases h.apart x hx y hy hskip hyskip (Ne.symm hyx) with hap | hap
      · omega
      · omega
  · intro y hy z hz hyskip hzskip hyz
    rw [hlist] at hy hz
    have hap := h.apart y hy z hz hyskip hzskip hyz
    by_cases hyx : y = x
    · subst hyx
      rw [hself, hother z (Ne.symm hyz)]
      rcases hap with hap | hap
      · exact Or.inl (by omega)
      · exact Or.inr (by omega)
    · rw [hother y hyx]
      by_cases hzx : z = x
      · subst hzx
        rw [hself]
        rcases hap with hap | hap
        · exact Or.inl (by omega)
        · exact Or.inr (by omega)
      · rw [hother z hzx]
        exact hap

/-- Shrinking a decoder that overlaps the range on one side. -/
theorem WellDecoded.shrink (h : WellDecoded skip sp) (hx : x ∈ sp.decoders) (hskip : x ≠ skip)
    (hbe : b ≤ e) (hfull : ¬ (sp.decoder x).fullyCoveredBy b e) (hcov : ¬ (sp.decoder x).covers b e)
    (hin : (sp.decoder x).isIn b e) :
    (sp.shrinkOutOf x b e).1 = false ∧ WellDecoded skip (sp.shrinkOutOf x b e).2 ∧
      Undecodes skip b e sp (sp.shrinkOutOf x b e).2 ∧
      (sp.shrinkOutOf x b e).2.decoders = sp.decoders ∧
      ¬ ((sp.shrinkOutOf x b e).2.decoder x).Meets b e ∧
      ∀ y, y ≠ x → (sp.shrinkOutOf x b e).2.decoder y = sp.decoder y := by
  have hdx := h.decodes x hx hskip
  have hord := hdx.ordered
  rw [AddressDecoder.fullyCoveredBy] at hfull
  rw [AddressDecoder.covers] at hcov
  rw [AddressDecoder.isIn] at hin
  -- what is left of the decoder: it ends below the range or begins above it
  have hw : ((sp.decoder x).shrunk b e).PartOf (sp.decoder x) ∧
      ((sp.decoder x).shrunk b e).asBegin ≤ ((sp.decoder x).shrunk b e).asEnd ∧
      (((sp.decoder x).shrunk b e).asEnd < b ∨ e < ((sp.decoder x).shrunk b e).asBegin) := by
    by_cases hb : b > (sp.decoder x).asBegin
    · refine ⟨AddressDecoder.shrunk_upper_partOf hb (by omega) (by omega), ?_⟩
      rw [AddressDecoder.shrunk_upper hb (by omega)]
      dsimp only
      omega
    · have he : e < (sp.decoder x).asEnd := by omega
      refine ⟨AddressDecoder.shrunk_lower_partOf (by omega) he (by omega), ?_⟩
      rw [AddressDecoder.shrunk_lower (by omega) he]
      dsimp only
      omega
  obtain ⟨hpart, hne, hout⟩ := hw
  have hframe := undecodeFromTo_sameBut sp (max b (sp.decoder x).asBegin)
    (min e (sp.decoder x).asEnd)
  have heq : sp.shrinkOutOf x b e
      = (decide (((sp.decoder x).shrunk b e).asEnd < ((sp.decoder x).shrunk b e).asBegin),
          (sp.undecodeFromTo (max b (sp.decoder x).asBegin)
            (min e (sp.decoder x).asEnd)).setDecoder x ((sp.decoder x).shrunk b e)) := by
    rw [shrinkOutOf, if_pos hdx.onSpace]
  have hother (y : DecoderPtr) (hy : y ≠ x) : (sp.shrinkOutOf x b e).2.decoder y = sp.decoder y := by
    rw [heq]
    exact (setDecoder_ne _ hy _).trans (congrFun hframe.decoder y)
  have hself : (sp.shrinkOutOf x b e).2.decoder x = (sp.decoder x).shrunk b e := by
    rw [heq]
    exact setDecoder_self _ x _
  have hmeets : ¬ ((sp.shrinkOutOf x b e).2.decoder x).Meets b e := by
    rw [hself, AddressDecoder.Meets]
    omega
  have hlist : (sp.shrinkOutOf x b e).2.decoders = sp.decoders := by
    rw [heq]
    exact hframe.decoders
  refine ⟨?_, ?_, ?_, hlist, hmeets, hother⟩
  · rw [heq]
    exact decide_eq_false (by omega)
  · rw [heq]
    exact h.cut hx hskip hframe (fun a ha => by omega) hpart hne (fun a h1 h2 h3 => by omega)
  · exact
      { startAddress := by rw [heq]; exact hframe.startAddress
        size := by rw [heq]; exact hframe.size
        freshDecoder := by rw [heq]; exact Nat.le_of_eq hframe.freshDecoder.symm
        skip_eq := fun _ => hother skip (Ne.symm hskip)
        skip_mem := fun _ => by rw [hlist]
        covers := fun y hy hyskip hycov => by
          rw [hlist] at hy
          by_cases hyx : y = x
          · subst hyx
            rw [hself]
            exact ⟨hy, hpart⟩
          · rw [hother y hyx]
            exact ⟨hy, ⟨rfl, rfl, rfl, Int.le_refl _, Int.le_refl _⟩⟩
        operators := fun a => by rw [heq]; exact hframe.operators a
        mask := fun a => by rw [heq]; exact hframe.mask a
        cell := fun a ha _ => by rw [heq]; exact hframe.cell a (by omega) }

/-- Adding a decoder that has been activated on a range that no other one meets. -/
theorem WellDecoded.extend (h : WellDecoded skip sp) {n : DecoderPtr} (hn : n < sp'.freshDecoder)
    (hnew : n ∉ sp.decoders) (hlist : ∃ i ≤ sp.decoders.length, sp'.decoders = sp.decoders.insertIdx i n)
    (hother : ∀ y, y ≠ n → sp'.decoder y = sp.decoder y)
    (hstart : sp'.startAddress = sp.startAddress) (hsize : sp'.size = sp.size)
    (hfresh : sp.freshDecoder ≤ sp'.freshDecoder)
    (hcell : ∀ a, ¬ ((sp'.decoder n).asBegin ≤ a ∧ a ≤ (sp'.decoder n).asEnd) →
      sp'.cellAt a = sp.cellAt a)
    (hdec : sp'.Decodes (sp'.decoder n))
    (hap : ∀ y ∈ sp.decoders, y ≠ skip → (sp'.decoder n).Apart (sp.decoder y)) :
    WellDecoded skip sp' := by
  obtain ⟨i, hi, hlist⟩ := hlist
  have hmem (y : DecoderPtr) (hy : y ∈ sp'.decoders) : y = n ∨ y ∈ sp.decoders := by
    rw [hlist] at hy
    exact (List.mem_insertIdx hi).mp hy
  have hne (y : DecoderPtr) (hy : y ∈ sp.decoders) : y ≠ n := fun hyn => hnew (hyn ▸ hy)
  refine ⟨?_, ?_, ?_, ?_⟩
  · rw [hlist, (List.perm_insertIdx n sp.decoders hi).nodup_iff]
    exact List.nodup_cons.mpr ⟨hnew, h.nodup⟩
  · intro y hy
    rcases hmem y hy with rfl | hy
    · exact hn
    · exact Nat.lt_of_lt_of_le (h.allocated y hy) hfresh
  · intro y hy hyskip
    rcases hmem y hy with rfl | hy
    · exact hdec
    · rw [hother y (hne y hy)]
      refine (h.decodes y hy hyskip).congr hstart hsize (fun a h1 h2 => hcell a ?_)
      rcases hap y hy hyskip with hap | hap
      · omega
      · omega
  · intro y hy z hz hyskip hzskip hyz
    rcases hmem y hy with rfl | hy
    · rcases hmem z hz with rfl | hz
      · exact absurd rfl hyz
      · rw [hother z (hne z hz)]
        exact hap z hz hzskip
    · rw [hother y (hne y hy)]
      rcases hmem z hz with rfl | hz
      · exact (hap y hy hyskip).symm
      · rw [hother z (hne z hz)]
        exact h.apart y hy z hz hyskip hzskip hyz

/-- The loop leaves decoders that do not meet the range alone. -/
theorem undecodeAreaFrom_of_apart (hbe : b ≤ e)
    (hap : ∀ y ∈ sp.decoders, y ≠ skip →
      (sp.decoder y).asBegin ≤ (sp.decoder y).asEnd ∧ ¬ (sp.decoder y).Meets b e) :
    ∀ (fuel i : Nat), sp.decoders.length - i + 1 ≤ fuel →
      undecodeAreaFrom fuel i skip b e sp = some sp := by
  intro fuel
  induction fuel with
  | zero => intro i hfuel; omega
  | succ fuel ih =>
    intro i hfuel
    rw [undecodeAreaFrom]
    cases hget : sp.decoders[i]? with
    | none => rfl
    | some y =>
      have hi : i < sp.decoders.length := (List.getElem?_eq_some_iff.mp hget).1
      have hnext := ih (i + 1) (by omega)
      by_cases hskip : y = skip
      · simp only [if_pos hskip]
        exact hnext
      · obtain ⟨hord, hmeets⟩ := hap y (List.mem_of_getElem? hget) hskip
        rw [AddressDecoder.Meets] at hmeets
        have hfull : ¬ (sp.decoder y).fullyCoveredBy b e := by
          rw [AddressDecoder.fullyCoveredBy]
          omega
        have hcov : ¬ (sp.decoder y).covers b e := by
          rw [AddressDecoder.covers]
          omega
        have hin : ¬ (sp.decoder y).isIn b e := by
          rw [AddressDecoder.isIn]
          omega
        simp only [if_neg hskip, if_neg hfull, if_neg hcov, if_neg hin]
        exact hnext

/-- When `activate` goes past its checks. -/
theorem checks_eq_some_iff (v : AddressDecoder) (chip : MemoryChip) :
    sp.checks v = some chip ↔
      v.activated = false ∧ v.onSpace = true ∧ v.memchip = some chip ∧ v.asBegin ≤ v.asEnd ∧
        v.chipBegin < chip.size ∧ sp.startAddress ≤ v.asBegin ∧
          v.asEnd < sp.startAddress + sp.size ∧ v.asEnd - v.asBegin ≤ chip.size - v.chipBegin := by
  rw [checks]
  cases hact : v.activated with
  | true => simp
  | false =>
    cases hon : v.onSpace with
    | false => simp
    | true =>
      cases hchip : v.memchip with
      | none => simp
      | some c =>
        simp only [Bool.false_eq_true, if_false, Bool.true_eq_false, true_and, Option.some.injEq]
        constructor
        · intro h
          split at h
          · cases h
          · split at h
            · cases h
            · split at h
              · cases h
              · split at h
                · cases h
                · cases h
                  refine ⟨rfl, ?_⟩
                  omega
        · rintro ⟨rfl, h⟩
          rw [if_neg (by omega), if_neg (by omega), if_neg (by omega), if_neg (by omega)]

/-- The effect of activating a decoder, once `undecode_area` has done its part. -/
theorem activateWith_accepted {undecode : DecoderPtr → Int → Int → AddressSpace Hw →
    Option (AddressSpace Hw)} {n : DecoderPtr} {chip : MemoryChip}
    (hchecks : sp.checks (sp.decoder n) = some chip)
    (hundecode : undecode n (sp.decoder n).asBegin (sp.decoder n).asEnd sp = some sp')
    (hself : sp'.decoder n = sp.decoder n) :
    ∃ sp'', activateWith undecode n sp = some (true, sp''.setDecoder n
        { sp.decoder n with activated := true }) ∧
      SameBut (fun a => (sp.decoder n).asBegin ≤ a ∧ a ≤ (sp.decoder n).asEnd) sp' sp'' ∧
      ∀ a, (sp.decoder n).asBegin ≤ a → a ≤ (sp.decoder n).asEnd → sp'.validAddress a →
        sp''.WiredTo a ((sp.decoder n).slotOf a) := by
  obtain ⟨-, -, hchip, hord, -, -, -, -⟩ := (checks_eq_some_iff _ _).mp hchecks
  refine ⟨decodeCells chip ((sp.decoder n).asEnd - (sp.decoder n).asBegin + 1).toNat
    (sp.decoder n).asBegin (sp.decoder n).chipBegin sp', ?_, ?_, ?_⟩
  · rw [activateWith]
    simp only [hchecks, hundecode, hself]
  · exact (decodeCells_sameBut chip _ _ _ sp').mono (fun a ha => by omega)
  · intro a h1 h2 hv
    rw [AddressDecoder.slotOf, hchip]
    exact decodeCells_wiredTo chip _ _ _ sp' h1 (by omega) hv

/-- The space after `split`: the decoder `x`, which strictly covered `[b, e]`, is cut back to the part
before `b`, the cells behind are un-decoded, and a decoder for the part behind `e` has been made. -/
structure SplitFrom (skip x : DecoderPtr) (b e : Int) (sp sp' : AddressSpace Hw) : Prop where
  well : WellDecoded skip sp'
  startAddress : sp'.startAddress = sp.startAddress
  size : sp'.size = sp.size
  freshDecoder : sp'.freshDecoder = sp.freshDecoder + 1
  decoders : sp'.decoders = sp.decoders
  behind : sp'.decoder sp.freshDecoder = (sp.decoder x).behind e
  front : sp'.decoder x = { sp.decoder x with asEnd := b - 1 }
  other : ∀ y, y ≠ x → y ≠ sp.freshDecoder → sp'.decoder y = sp.decoder y
  operators : ∀ a, (sp'.cellAt a).operators = (sp.cellAt a).operators
  mask : ∀ a, (sp'.cellAt a).mask = (sp.cellAt a).mask
  fetchBrk : ∀ a, (sp'.cellAt a).fetchBrk = (sp.cellAt a).fetchBrk
  cell : ∀ a, ¬ (b ≤ a ∧ a ≤ (sp.decoder x).asEnd) → sp'.cellAt a = sp.cellAt a
  undecoded : ∀ a, b ≤ a → a ≤ (sp.decoder x).asEnd → (sp'.cellAt a).nonDecoded = true

/-- Splitting a decoder that strictly covers the range. -/
theorem WellDecoded.split (h : WellDecoded skip sp) (hx : x ∈ sp.decoders) (hskip : x ≠ skip)
    (hbe : b ≤ e) (hcov : (sp.decoder x).covers b e) :
    ∃ spB, sp.split x b e = (some sp.freshDecoder, spB) ∧ SplitFrom skip x b e sp spB := by
  have hdx := h.decodes x hx hskip
  have hxn : x ≠ sp.freshDecoder := Nat.ne_of_lt (h.allocated x hx)
  obtain ⟨hcb, hce⟩ := hcov
  have hlow := hdx.low
  have hhigh := hdx.high
  let spA := (sp.newDecoder ((sp.decoder x).behind e)).2
  have hAx : spA.decoder x = sp.decoder x := setDecoder_ne sp hxn _
  have hAother (y : DecoderPtr) (hy : y ≠ sp.freshDecoder) : spA.decoder y = sp.decoder y :=
    setDecoder_ne sp hy _
  have hA : WellDecoded skip spA := by
    have hold (y : DecoderPtr) (hy : y ∈ sp.decoders) : spA.decoder y = sp.decoder y :=
      hAother y (Nat.ne_of_lt (h.allocated y hy))
    refine ⟨h.nodup, fun y hy => Nat.lt_succ_of_lt (h.allocated y hy), ?_, ?_⟩
    · intro y hy hyskip
      rw [hold y hy]
      exact (h.decodes y hy hyskip).congr rfl rfl (fun a _ _ => rfl)
    · intro y hy z hz hyskip hzskip hyz
      rw [hold y hy, hold z hz]
      exact h.apart y hy z hz hyskip hzskip hyz
  have hframe := undecodeFromTo_sameBut spA (max b (sp.decoder x).asBegin)
    (min (sp.decoder x).asEnd (sp.decoder x).asEnd)
  have hshrunk := AddressDecoder.shrunk_upper hcb (Int.le_of_lt (by omega) : b ≤ (sp.decoder x).asEnd + 1)
  have hpart : (AddressDecoder.mk (sp.decoder x).onSpace (sp.decoder x).memchip
      (sp.decoder x).asBegin (b - 1) (sp.decoder x).chipBegin (sp.decoder x).activated).PartOf
      (spA.decoder x) := by
    have := AddressDecoder.shrunk_upper_partOf hcb (by omega : b ≤ (sp.decoder x).asEnd + 1)
      (by omega)
    rw [hshrunk] at this
    rw [hAx]
    exact this
  let spB := (spA.undecodeFromTo (max b (sp.decoder x).asBegin)
    (min (sp.decoder x).asEnd (sp.decoder x).asEnd)).setDecoder x
      { sp.decoder x with asEnd := b - 1 }
  have hsplit : sp.split x b e = (some sp.freshDecoder, spB) := by
    have hshrink : (spA.shrinkOutOf x b (sp.decoder x).asEnd).2 = spB := by
      rw [shrinkOutOf, hAx, if_pos hdx.onSpace, hshrunk]
    rw [AddressSpace.split, if_pos hcb, if_pos hce, ← hshrink]
    rfl
  have hBn : spB.decoder sp.freshDecoder = (sp.decoder x).behind e := by
    refine (setDecoder_ne _ (Ne.symm hxn) _).trans ?_
    rw [hframe.decoder]
    exact setDecoder_self sp _ _
  have hBother (y : DecoderPtr) (hyx : y ≠ x) (hyn : y ≠ sp.freshDecoder) :
      spB.decoder y = sp.decoder y := by
    refine (setDecoder_ne _ hyx _).trans ?_
    rw [hframe.decoder]
    exact hAother y hyn
  have hB : WellDecoded skip spB := by
    refine hA.cut hx hskip hframe ?_ hpart ?_ ?_
    · intro a ha
      rw [hAx]
      omega
    · dsimp only
      omega
    · intro a h1 h2 h3
      dsimp only at h1 h2
      omega
  exact ⟨spB, hsplit,
    { well := hB
      startAddress := hframe.startAddress
      size := hframe.size
      freshDecoder := hframe.freshDecoder
      decoders := hframe.decoders
      behind := hBn
      front := setDecoder_self _ x _
      other := hBother
      operators := hframe.operators
      mask := hframe.mask
      fetchBrk := hframe.fetchBrk
      cell := fun a ha => hframe.cell a (by omega)
      undecoded := fun a h1 h2 => by
        have hv : spA.validAddress a := by
          show sp.startAddress ≤ a ∧ a < sp.startAddress + sp.size
          omega
        exact undecodeFromTo_nonDecoded (by omega) (by omega) hv }⟩

/-- The new decoder of a split decodes its cells again, whether or not `activate` accepts it: it is
only refused if the chip has no slot for any of them. -/
theorem SplitFrom.activateBehind {spB : AddressSpace Hw} (hB : SplitFrom skip x b e sp spB)
    (h : WellDecoded skip sp) (hx : x ∈ sp.decoders) (hskip : x ≠ skip) (hbe : b ≤ e)
    (hcov : (sp.decoder x).covers b e) (hlt : skip < sp.freshDecoder)
    (hself : (sp.decoder skip).asBegin = b ∧ (sp.decoder skip).asEnd = e)
    {fuel : Nat} (hfuel : sp.decoders.length + 2 ≤ fuel) :
    ∃ ok act spC f, activateWith (undecodeAreaFrom fuel 0) sp.freshDecoder
        (spB.addDecoder sp.freshDecoder) = some (ok, { spC with decoder := f }) ∧
      f sp.freshDecoder = { (sp.decoder x).behind e with activated := act } ∧
      (∀ y, y ≠ sp.freshDecoder → f y = spB.decoder y) ∧
      SameBut (fun a => e + 1 ≤ a ∧ a ≤ (sp.decoder x).asEnd) (spB.addDecoder sp.freshDecoder) spC ∧
      ∀ a, e + 1 ≤ a → a ≤ (sp.decoder x).asEnd → spC.WiredTo a ((sp.decoder x).slotOf a) := by
  have hdx := h.decodes x hx hskip
  have hpart := AddressDecoder.behind_partOf hbe hcov
  obtain ⟨hcb, hce⟩ := hcov
  have hlow := hdx.low
  have hhigh := hdx.high
  obtain ⟨chip, hchip, hfits⟩ := hdx.fits
  have hslope := hpart.slope
  have hn : (spB.addDecoder sp.freshDecoder).decoder sp.freshDecoder = (sp.decoder x).behind e :=
    hB.behind
  cases hchecks : (spB.addDecoder sp.freshDecoder).checks ((sp.decoder x).behind e) with
  | none =>
    refine ⟨false, false, spB.addDecoder sp.freshDecoder, spB.decoder, ?_, hB.behind,
      fun y _ => rfl, SameBut.refl _ _, ?_⟩
    · rw [activateWith, hn, hchecks]
      rfl
    · -- all checks but that of `chip_begin` hold, because they held of the split decoder
      have hbegin : ¬ ((sp.decoder x).behind e).chipBegin < chip.size := by
        intro hlt'
        have hsome : (spB.addDecoder sp.freshDecoder).checks ((sp.decoder x).behind e) = some chip :=
          (checks_eq_some_iff _ chip).mpr
          ⟨rfl, hdx.onSpace, hchip, by show e + 1 ≤ (sp.decoder x).asEnd; omega, hlt',
            by show spB.startAddress ≤ e + 1; rw [hB.startAddress]; omega,
            by show (sp.decoder x).asEnd < spB.startAddress + spB.size
               rw [hB.startAddress, hB.size]; exact hhigh,
            by show (sp.decoder x).asEnd - (e + 1) ≤ chip.size - ((sp.decoder x).behind e).chipBegin
               have : ((sp.decoder x).behind e).asBegin = e + 1 := rfl
               omega⟩
        rw [hchecks] at hsome
        cases hsome
      intro a h1 h2
      have hnone : (sp.decoder x).slotOf a = none := by
        rw [← hpart.slotOf, AddressDecoder.slotOf, hpart.memchip, hchip]
        have : ((sp.decoder x).behind e).asBegin = e + 1 := rfl
        exact if_pos (by omega)
      rw [hnone]
      exact hB.undecoded a (by omega) h2
  | some c =>
    have hundecode : undecodeAreaFrom fuel 0 sp.freshDecoder (e + 1) (sp.decoder x).asEnd
        (spB.addDecoder sp.freshDecoder) = some (spB.addDecoder sp.freshDecoder) := by
      obtain ⟨i, hi, hlist⟩ := SortedList.add_duplicates spB.decoders
        (fun i => spB.compare (spB.decoders.getD i sp.freshDecoder) sp.freshDecoder) sp.freshDecoder
      have hlist' : (spB.addDecoder sp.freshDecoder).decoders
          = spB.decoders.insertIdx i sp.freshDecoder := hlist
      refine undecodeAreaFrom_of_apart (by omega) ?_ fuel 0 ?_
      · intro y hy hyn
        rw [hlist', List.mem_insertIdx hi, hB.decoders] at hy
        have hy := hy.resolve_left hyn
        show (spB.decoder y).asBegin ≤ (spB.decoder y).asEnd ∧
          ¬ (spB.decoder y).Meets (e + 1) (sp.decoder x).asEnd
        rw [AddressDecoder.Meets]
        by_cases hyx : y = x
        · subst hyx
          rw [hB.front]
          dsimp only
          omega
        · rw [hB.other y hyx hyn]
          by_cases hyskip : y = skip
          · subst hyskip
            omega
          · have hord := (h.decodes y hy hyskip).ordered
            rcases h.apart y hy x hx hyskip hskip hyx with hap | hap
            · omega
            · omega
      · rw [hlist', List.length_insertIdx_of_le_length hi, hB.decoders]
        omega
    rw [← hn] at hchecks
    have hundecode' : undecodeAreaFrom fuel 0 sp.freshDecoder
        ((spB.addDecoder sp.freshDecoder).decoder sp.freshDecoder).asBegin
        ((spB.addDecoder sp.freshDecoder).decoder sp.freshDecoder).asEnd
        (spB.addDecoder sp.freshDecoder) = some (spB.addDecoder sp.freshDecoder) := by
      rw [hn]
      exact hundecode
    obtain ⟨spC, hact, hframe, hwired⟩ := activateWith_accepted hchecks hundecode' rfl
    rw [hn] at hact hframe hwired
    refine ⟨true, true, spC, (spC.setDecoder sp.freshDecoder
      { (sp.decoder x).behind e with activated := true }).decoder, hact, setDecoder_self _ _ _, ?_,
      hframe, ?_⟩
    · intro y hy
      rw [setDecoder_ne _ hy, hframe.decoder]
      rfl
    · intro a h1 h2
      rw [← hpart.slotOf]
      refine hwired a h1 h2 ?_
      show spB.startAddress ≤ a ∧ a < spB.startAddress + spB.size
      rw [hB.startAddress, hB.size]
      omega

/-- What the whole split branch does to the space. -/
theorem WellDecoded.splitBranch (h : WellDecoded skip sp) (hx : x ∈ sp.decoders) (hskip : x ≠ skip)
    (hbe : b ≤ e) (hcov : (sp.decoder x).covers b e) (hlt : skip < sp.freshDecoder)
    (hself : (sp.decoder skip).asBegin = b ∧ (sp.decoder skip).asEnd = e)
    {fuel : Nat} (hfuel : sp.decoders.length + 2 ≤ fuel) :
    ∃ spB ok spD, sp.split x b e = (some sp.freshDecoder, spB) ∧
      activateWith (undecodeAreaFrom fuel 0) sp.freshDecoder (spB.addDecoder sp.freshDecoder)
        = some (ok, spD) ∧
      WellDecoded skip spD ∧ Undecodes skip b e sp spD ∧
      (∃ i ≤ sp.decoders.length, spD.decoders = sp.decoders.insertIdx i sp.freshDecoder) ∧
      ¬ (spD.decoder x).Meets b e ∧ ¬ (spD.decoder sp.freshDecoder).Meets b e ∧
      ∀ y, y ≠ x → y ≠ sp.freshDecoder → spD.decoder y = sp.decoder y := by
  have hdx := h.decodes x hx hskip
  have hxn : x ≠ sp.freshDecoder := Nat.ne_of_lt (h.allocated x hx)
  have hpart := AddressDecoder.behind_partOf hbe hcov
  obtain ⟨spB, hsplit, hB⟩ := h.split hx hskip hbe hcov
  obtain ⟨ok, act, spC, f, hact, hfn, hfother, hframe, hwired⟩ :=
    hB.activateBehind h hx hskip hbe hcov hlt hself hfuel
  obtain ⟨hcb, hce⟩ := hcov
  have hlist : ∃ i ≤ sp.decoders.length, spC.decoders = sp.decoders.insertIdx i sp.freshDecoder := by
    rw [hframe.decoders, ← hB.decoders]
    exact SortedList.add_duplicates _ _ _
  have hfx : f x = { sp.decoder x with asEnd := b - 1 } := (hfother x hxn).trans hB.front
  have hfy (y : DecoderPtr) (hyx : y ≠ x) (hyn : y ≠ sp.freshDecoder) : f y = sp.decoder y :=
    (hfother y hyn).trans (hB.other y hyx hyn)
  have hfrange : (f sp.freshDecoder).asBegin = e + 1 ∧
      (f sp.freshDecoder).asEnd = (sp.decoder x).asEnd := by
    rw [hfn]
    exact ⟨rfl, rfl⟩
  have hfpart : (f sp.freshDecoder).PartOf (sp.decoder x) := by
    rw [hfn]
    exact ⟨hpart.onSpace, hpart.memchip, hpart.slope, hpart.low, hpart.high⟩
  have hcell (a : Int) (ha : ¬ (b ≤ a ∧ a ≤ (sp.decoder x).asEnd)) : spC.cellAt a = sp.cellAt a :=
    (hframe.cell a (by omega)).trans (hB.cell a ha)
  have hstart : spC.startAddress = sp.startAddress := hframe.startAddress.trans hB.startAddress
  have hsize : spC.size = sp.size := hframe.size.trans hB.size
  have hfresh : spC.freshDecoder = sp.freshDecoder + 1 := hframe.freshDecoder.trans hB.freshDecoder
  have hoperators (a : Int) : (spC.cellAt a).operators = (sp.cellAt a).operators :=
    (hframe.operators a).trans (hB.operators a)
  have hmask (a : Int) : (spC.cellAt a).mask = (sp.cellAt a).mask :=
    (hframe.mask a).trans (hB.mask a)
  -- the part behind `e` is the range of the new decoder
  have hdec : Decodes { spC with decoder := f } (f sp.freshDecoder) := by
    obtain ⟨chip, hchip, hfits⟩ := hdx.fits
    have hslope := hfpart.slope
    have hlow := hdx.low
    have hhigh := hdx.high
    refine ⟨hfpart.onSpace.trans hdx.onSpace, by omega, ?_, ?_, ⟨chip, hfpart.memchip.trans hchip, by omega⟩, ?_⟩
    · show spC.startAddress ≤ _
      omega
    · show _ < spC.startAddress + spC.size
      omega
    · intro a h1 h2
      rw [hfpart.slotOf]
      exact hwired a (by omega) (by omega)
  refine ⟨spB, ok, { spC with decoder := f }, hsplit, hact, ?_, ?_, hlist, ?_, ?_, hfy⟩
  · have hbehindApart (y : DecoderPtr) (hy : y ∈ spB.decoders) (hyskip : y ≠ skip) :
        (f sp.freshDecoder).Apart (spB.decoder y) := by
      rw [hB.decoders] at hy
      have hyn : y ≠ sp.freshDecoder := Nat.ne_of_lt (h.allocated y hy)
      by_cases hyx : y = x
      · subst hyx
        rw [hB.front]
        exact Or.inr (by dsimp only; omega)
      · rw [hB.other y hyx hyn]
        rcases h.apart y hy x hx hyskip hskip hyx with hap | hap
        · exact Or.inr (by omega)
        · exact Or.inl (by omega)
    have hnew : sp.freshDecoder ∉ spB.decoders := by
      rw [hB.decoders]
      exact fun hmem => absurd (h.allocated _ hmem) (Nat.lt_irrefl _)
    refine hB.well.extend (n := sp.freshDecoder) ?_ hnew ?_
      hfother hframe.startAddress hframe.size ?_ ?_ hdec hbehindApart
    · show sp.freshDecoder < spC.freshDecoder
      omega
    · rw [hB.decoders]
      exact hlist
    · exact Nat.le_of_eq hframe.freshDecoder.symm
    · intro a ha
      dsimp only at ha
      exact hframe.cell a (by omega)
  · exact
      { startAddress := hstart
        size := hsize
        freshDecoder := by show _ ≤ spC.freshDecoder; omega
        skip_eq := fun _ => hfy skip (Ne.symm hskip) (Nat.ne_of_lt hlt)
        skip_mem := fun _ => by
          obtain ⟨i, hi, hlist⟩ := hlist
          show skip ∈ spC.decoders ↔ _
          rw [hlist, List.mem_insertIdx hi]
          exact or_iff_right (Nat.ne_of_lt hlt)
        covers := fun y hy hyskip hycov => by
          obtain ⟨i, hi, hlist⟩ := hlist
          obtain ⟨hc1, hc2⟩ := hycov
          rw [hlist, List.mem_insertIdx hi] at hy
          dsimp only at hc1 hc2 ⊢
          by_cases hyx : y = x
          · subst hyx
            rw [hfx] at hc2
            dsimp only at hc2
            omega
          · rcases hy with rfl | hy
            · omega
            · rw [hfy y hyx (Nat.ne_of_lt (h.allocated y hy))]
              exact ⟨hy, ⟨rfl, rfl, rfl, Int.le_refl _, Int.le_refl _⟩⟩
        operators := hoperators
        mask := hmask
        cell := fun a hout ha => by
          by_cases htail : e < a ∧ a ≤ (sp.decoder x).asEnd
          · -- a decoded cell behind `e` is decoded again, to the slot it had
            have hdecoded := ha.resolve_right
              (fun hnot => hnot ⟨x, hx, hskip, ⟨hcb, hce⟩, htail.1, htail.2⟩)
            have hbefore := hdx.wired a (by omega) htail.2
            have hafter := hwired a (by omega) htail.2
            cases hslot : (sp.decoder x).slotOf a with
            | none =>
              rw [hslot, WiredTo, hdecoded] at hbefore
              cases hbefore
            | some p =>
              rw [hslot, WiredTo] at hbefore hafter
              have hfetch := (hframe.fetchBrk a).trans (hB.fetchBrk a)
              exact Cell.ext (hafter.2.trans hbefore.2.symm) (hmask a)
                (hafter.1.trans hbefore.1.symm) hfetch (hoperators a)
          · exact hcell a (by omega) }
  · show ¬ (f x).Meets b e
    rw [hfx, AddressDecoder.Meets]
    dsimp only
    omega
  · show ¬ (f sp.freshDecoder).Meets b e
    rw [AddressDecoder.Meets]
    omega

/-! ## The loop -/

/-- The loop of `undecode_area` comes to an end and clears the range. The fuel covers the decoders
still to be looked at and, if one of them strictly covers the range (`k = 1`), the walk over the list
when its upper part is activated. -/
theorem undecodeAreaFrom_spec (hbe : b ≤ e) (fuel : Nat) :
    ∀ (i k : Nat) (sp : AddressSpace Hw), WellDecoded skip sp → skip < sp.freshDecoder →
      (sp.decoder skip).asBegin = b ∧ (sp.decoder skip).asEnd = e →
      (∀ j < i, ∀ y, sp.decoders[j]? = some y → y ≠ skip → ¬ (sp.decoder y).Meets b e) →
      ((∃ y ∈ sp.decoders, y ≠ skip ∧ (sp.decoder y).covers b e) → 1 ≤ k) →
      (sp.decoders.length - i) + k * (sp.decoders.length + 3) + 1 ≤ fuel →
      ∃ sp', undecodeAreaFrom fuel i skip b e sp = some sp' ∧ WellDecoded skip sp' ∧
        Undecodes skip b e sp sp' ∧
        ∀ y ∈ sp'.decoders, y ≠ skip → ¬ (sp'.decoder y).Meets b e := by
  induction fuel with
  | zero => intro i k sp _ _ _ _ _ hfuel; omega
  | succ fuel ih =>
    intro i k sp h hlt hself hdone hk hfuel
    rw [undecodeAreaFrom]
    cases hget : sp.decoders[i]? with
    | none =>
      refine ⟨sp, rfl, h, Undecodes.refl _ _ _ _, ?_⟩
      intro y hy hyskip
      obtain ⟨j, hj⟩ := List.mem_iff_getElem?.mp hy
      have hlen := List.getElem?_eq_none_iff.mp hget
      have hjlen := (List.getElem?_eq_some_iff.mp hj).1
      exact hdone j (by omega) y hj hyskip
    | some x =>
      have hi : i < sp.decoders.length := (List.getElem?_eq_some_iff.mp hget).1
      have hx : x ∈ sp.decoders := List.mem_of_getElem? hget
      by_cases hskip : x = skip
      · simp only [if_pos hskip]
        refine ih (i + 1) k sp h hlt hself ?_ hk (by omega)
        intro j hj y hy hyskip
        by_cases hji : j = i
        · subst hji
          rw [hget] at hy
          exact absurd ((Option.some.inj hy).symm.trans hskip) hyskip
        · exact hdone j (by omega) y hy hyskip
      · simp only [if_neg hskip]
        by_cases hfull : (sp.decoder x).fullyCoveredBy b e
        · -- the decoder is removed, and the next one has its index
          simp only [if_pos hfull]
          obtain ⟨hwell, hundec, hlist, hobj⟩ := h.remove hx hskip hfull
          have hlen : (sp.decoders.erase x).length = sp.decoders.length - 1 :=
            List.length_erase_of_mem hx
          have herase : sp.decoders.erase x = sp.decoders.eraseIdx i := by
            rw [← (List.getElem?_eq_some_iff.mp hget).2]
            exact h.nodup.erase_getElem i hi
          have hmul : k * (sp.decoders.length - 1 + 3) ≤ k * (sp.decoders.length + 3) :=
            Nat.mul_le_mul_left k (by omega)
          have hnext := ih i k _ hwell (Nat.lt_of_lt_of_le hlt hundec.freshDecoder)
            (by rw [hobj]; exact hself)
            (fun j hj y hy hyskip => by
              rw [hlist, herase, List.getElem?_eraseIdx_of_lt hj] at hy
              rw [hobj]
              exact hdone j hj y hy hyskip)
            (fun ⟨y, hy, hyskip, hycov⟩ => by
              rw [hlist] at hy
              rw [hobj] at hycov
              exact hk ⟨y, List.mem_of_mem_erase hy, hyskip, hycov⟩)
            (by rw [hlist, hlen]; omega)
          obtain ⟨sp', hrun, hwell', hundec', hmeets⟩ := hnext
          exact ⟨sp', hrun, hwell', hundec.trans hundec', hmeets⟩
        · simp only [if_neg hfull]
          by_cases hcov : (sp.decoder x).covers b e
          · -- only one decoder can strictly cover the range, so this case occurs once
            simp only [if_pos hcov]
            have hk1 : 1 ≤ k := hk ⟨x, hx, hskip, hcov⟩
            have hkmul : sp.decoders.length + 3 ≤ k * (sp.decoders.length + 3) :=
              Nat.le_mul_of_pos_left _ hk1
            obtain ⟨spB, ok, spD, hsplit, hact, hwell, hundec, ⟨m, hm, hlist⟩, hxmeets, hnmeets,
              hother⟩ := h.splitBranch hx hskip hbe hcov hlt hself
                (show sp.decoders.length + 2 ≤ fuel by omega)
            simp only [hsplit, hact]
            have hnot (y : DecoderPtr) (hyn : y ∈ sp.decoders) (hyx : y ≠ x) (hyskip : y ≠ skip) :
                ¬ (sp.decoder y).Meets b e := by
              obtain ⟨hc1, hc2⟩ := hcov
              rw [AddressDecoder.Meets]
              rcases h.apart x hx y hyn hskip hyskip (Ne.symm hyx) with hap | hap
              · omega
              · omega
            have hnone (y : DecoderPtr) (hy : y = sp.freshDecoder ∨ y ∈ sp.decoders)
                (hyskip : y ≠ skip) : ¬ (spD.decoder y).Meets b e := by
              by_cases hyn : y = sp.freshDecoder
              · rw [hyn]
                exact hnmeets
              · by_cases hyx : y = x
                · rw [hyx]
                  exact hxmeets
                · rw [hother y hyx hyn]
                  exact hnot y (hy.resolve_left hyn) hyx hyskip
            have hnext := ih (i + 1) 0 spD hwell (Nat.lt_of_lt_of_le hlt hundec.freshDecoder)
              (by rw [hundec.skip_eq hlt]; exact hself)
              (fun j hj y hy hyskip => by
                rw [hlist] at hy
                have hy := List.mem_of_getElem? hy
                rw [List.mem_insertIdx hm] at hy
                exact hnone y hy hyskip)
              (fun ⟨y, hy, hyskip, hc1, hc2⟩ => by
                rw [hlist, List.mem_insertIdx hm] at hy
                have hmeets := hnone y hy hyskip
                rw [AddressDecoder.Meets] at hmeets
                omega)
              (by rw [hlist, List.length_insertIdx_of_le_length hm]; omega)
            obtain ⟨sp', hrun, hwell', hundec', hmeets⟩ := hnext
            exact ⟨sp', hrun, hwell', hundec.trans hundec', hmeets⟩
          · simp only [if_neg hcov]
            by_cases hin : (sp.decoder x).isIn b e
            · simp only [if_pos hin]
              obtain ⟨hfalse, hwell, hundec, hlist, hxmeets, hother⟩ :=
                h.shrink hx hskip hbe hfull hcov hin
              have hpair : sp.shrinkOutOf x b e = (false, (sp.shrinkOutOf x b e).2) := by
                rw [← hfalse]
              rw [hpair]
              have hnext := ih (i + 1) k _ hwell (Nat.lt_of_lt_of_le hlt hundec.freshDecoder)
                (by rw [hundec.skip_eq hlt]; exact hself)
                (fun j hj y hy hyskip => by
                  rw [hlist] at hy
                  by_cases hyx : y = x
                  · rw [hyx]
                    exact hxmeets
                  · rw [hother y hyx]
                    have hji : j ≠ i := fun hji => by
                      subst hji
                      rw [hget] at hy
                      exact hyx (Option.some.inj hy).symm
                    exact hdone j (by omega) y hy hyskip)
                (fun ⟨y, hy, hyskip, hycov⟩ => by
                  obtain ⟨hmem, hpart⟩ := hundec.covers y hy hyskip hycov
                  obtain ⟨hc1, hc2⟩ := hycov
                  have hlow := hpart.low
                  have hhigh := hpart.high
                  exact hk ⟨y, hmem, hyskip, by omega, by omega⟩)
                (by rw [hlist]; omega)
              obtain ⟨sp', hrun, hwell', hundec', hmeets⟩ := hnext
              exact ⟨sp', hrun, hwell', hundec.trans hundec', hmeets⟩
            · simp only [if_neg hin]
              refine ih (i + 1) k sp h hlt hself ?_ hk (by omega)
              intro j hj y hy hyskip
              by_cases hji : j = i
              · subst hji
                rw [hget] at hy
                obtain rfl := Option.some.inj hy
                have hord := (h.decodes x hx hskip).ordered
                rw [AddressDecoder.fullyCoveredBy] at hfull
                rw [AddressDecoder.isIn] at hin
                rw [AddressDecoder.Meets]
                omega
              · exact hdone j (by omega) y hy hyskip

/-! ## What stays in the list -/

/-- The address `a` is in the range of a decoder of the list. -/
def Covered (skip : DecoderPtr) (sp : AddressSpace Hw) (a : Int) : Prop :=
  ∃ x ∈ sp.decoders, x ≠ skip ∧ (sp.decoder x).asBegin ≤ a ∧ a ≤ (sp.decoder x).asEnd

/-- Shrinking leaves a decoder all of its range that is outside. -/
theorem shrunk_range {v : AddressDecoder} (hbe : b ≤ e) (hcov : ¬ v.covers b e) (hin : v.isIn b e) {a : Int} (hout : ¬ (b ≤ a ∧ a ≤ e)) (ha : v.asBegin ≤ a ∧ a ≤ v.asEnd) :
    (v.shrunk b e).asBegin ≤ a ∧ a ≤ (v.shrunk b e).asEnd := by
  rw [AddressDecoder.covers] at hcov
  rw [AddressDecoder.isIn] at hin
  by_cases hb : b > v.asBegin
  · rw [AddressDecoder.shrunk_upper hb (by omega)]
    dsimp only
    omega
  · rw [AddressDecoder.shrunk_lower (by omega) (by omega)]
    dsimp only
    omega

/-- Where no decoder strictly covers the range, the loop only takes the range away. -/
theorem undecodeAreaFrom_covered (hbe : b ≤ e) (fuel : Nat) :
    ∀ (i : Nat) (sp sp' : AddressSpace Hw), WellDecoded skip sp →
      (∀ y ∈ sp.decoders, y ≠ skip → ¬ (sp.decoder y).covers b e) →
      undecodeAreaFrom fuel i skip b e sp = some sp' →
      ∀ a, ¬ (b ≤ a ∧ a ≤ e) → Covered skip sp a → Covered skip sp' a := by
  induction fuel with
  | zero => intro i sp sp' _ _ hrun; cases hrun
  | succ fuel ih =>
    intro i sp sp' h hnone hrun a hout hc
    rw [undecodeAreaFrom] at hrun
    cases hget : sp.decoders[i]? with
    | none =>
      rw [hget] at hrun
      exact Option.some.inj hrun ▸ hc
    | some x =>
      have hx : x ∈ sp.decoders := List.mem_of_getElem? hget
      simp only [hget] at hrun
      by_cases hskip : x = skip
      · simp only [if_pos hskip] at hrun
        exact ih _ _ _ h hnone hrun a hout hc
      simp only [if_neg hskip] at hrun
      by_cases hfull : (sp.decoder x).fullyCoveredBy b e
      · simp only [if_pos hfull] at hrun
        obtain ⟨hwell, -, hlist, hobj⟩ := h.remove hx hskip hfull
        refine ih _ _ _ hwell (fun y hy hyskip => ?_) hrun a hout ?_
        · rw [hlist] at hy
          rw [hobj]
          exact hnone y (List.mem_of_mem_erase hy) hyskip
        · -- the decoder that is removed has nothing outside
          obtain ⟨y, hy, hyskip, ha1, ha2⟩ := hc
          have hyx : y ≠ x := by
            rintro rfl
            obtain ⟨h1, h2⟩ := hfull
            omega
          refine ⟨y, ?_, hyskip, ?_⟩
          · rw [hlist]
            exact (List.mem_erase_of_ne hyx).mpr hy
          · rw [hobj]
            exact ⟨ha1, ha2⟩
      simp only [if_neg hfull, if_neg (hnone x hx hskip)] at hrun
      by_cases hin : (sp.decoder x).isIn b e
      · simp only [if_pos hin] at hrun
        obtain ⟨hfalse, hwell, hundec, hlist, -, hother⟩ := h.shrink hx hskip hbe hfull (hnone x hx hskip) hin
        have hself : (sp.shrinkOutOf x b e).2.decoder x = (sp.decoder x).shrunk b e := by
          rw [shrinkOutOf, if_pos (h.decodes x hx hskip).onSpace]
          exact setDecoder_self _ x _
        have hpair : sp.shrinkOutOf x b e = (false, (sp.shrinkOutOf x b e).2) := by
          rw [← hfalse]
        rw [hpair] at hrun
        refine ih _ _ _ hwell (fun y hy hyskip hycov => ?_) hrun a hout ?_
        · obtain ⟨hy, hpart⟩ := hundec.covers y hy hyskip hycov
          obtain ⟨hc1, hc2⟩ := hycov
          have hlow := hpart.low
          have hhigh := hpart.high
          exact hnone y hy hyskip ⟨by omega, by omega⟩
        · obtain ⟨y, hy, hyskip, ha⟩ := hc
          refine ⟨y, hlist.symm ▸ hy, hyskip, ?_⟩
          by_cases hyx : y = x
          · subst hyx
            rw [hself]
            exact shrunk_range hbe (hnone y hy hyskip) hin hout ha
          · rw [hother y hyx]
            exact ha
      · simp only [if_neg hin] at hrun
        exact ih _ _ _ h hnone hrun a hout hc

end AddressSpace

end Ucsim
