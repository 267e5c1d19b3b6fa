import Ucsim.Logic.Run
import Ucsim.Sim.Decoding

/-!
# Runs of an address space

An address space is built empty, and then hardware is registered on its cells, breakpoints are set
and deleted, decoders are activated and removed, in any order. A new decoder is put in the list and
activated; one that `activate` would refuse is not added, as in the command that creates decoders.
Every space that such a run reaches is `WellDecoded`.
-/

namespace Ucsim

open Logic

variable {Hw : Type}

namespace AddressSpace

variable {sp sp' : AddressSpace Hw} {d : DecoderPtr}

/-- `d->activate()` returns `r`. -/
def Activates (sp : AddressSpace Hw) (d : DecoderPtr) (r : Bool × AddressSpace Hw) : Prop :=
  ∃ fuel, activate fuel d sp = some r

theorem Activates.unique {r r' : Bool × AddressSpace Hw} (h : sp.Activates d r)
    (h' : sp.Activates d r') : r = r' := by
  obtain ⟨fuel, hfuel⟩ := h
  obtain ⟨fuel', hfuel'⟩ := h'
  have hr := activate_mono (Nat.le_max_left fuel fuel') hfuel
  rw [activate_mono (Nat.le_max_right fuel fuel') hfuel'] at hr
  exact (Option.some.inj hr).symm

/-! ## The effect of an accepted activation -/

/-- What an accepted activation of `d` makes of the space `sp`. -/
structure Activated (d : DecoderPtr) (sp sp' : AddressSpace Hw) : Prop where
  startAddress : sp'.startAddress = sp.startAddress
  freshDecoder : sp.freshDecoder ≤ sp'.freshDecoder
  well : WellDecoded d sp'
  apart : ∀ x ∈ sp'.decoders, x ≠ d →
    ¬ (sp'.decoder x).Meets (sp.decoder d).asBegin (sp.decoder d).asEnd
  self : sp'.decoder d = { sp.decoder d with activated := true }
  self_mem : d ∈ sp'.decoders ↔ d ∈ sp.decoders
  decodes : sp'.Decodes (sp'.decoder d)
  wired : ∀ a, (sp.decoder d).asBegin ≤ a → a ≤ (sp.decoder d).asEnd →
    sp'.WiredTo a ((sp.decoder d).slotOf a)
  operators : ∀ a, (sp'.cellAt a).operators = (sp.cellAt a).operators
  mask : ∀ a, (sp'.cellAt a).mask = (sp.cellAt a).mask
  cell : ∀ a, ¬ ((sp.decoder d).asBegin ≤ a ∧ a ≤ (sp.decoder d).asEnd) →
    (sp.cellAt a).nonDecoded = false ∨
      ¬ InTail d (sp.decoder d).asBegin (sp.decoder d).asEnd sp a →
    sp'.cellAt a = sp.cellAt a

/-- `activate` accepts a decoder that passes its checks. The fuel is enough for one walk over the list, and
for another one when a decoder is split. -/
theorem WellDecoded.activate_fuel (h : WellDecoded d sp) (hlt : d < sp.freshDecoder) {chip : MemoryChip}
    (hchecks : sp.checks (sp.decoder d) = some chip) :
    ∃ sp', AddressSpace.activate (2 * sp.decoders.length + 4) d sp = some (true, sp') ∧ Activated d sp sp' := by
  obtain ⟨-, honSpace, hchip, hord, -, hlow, hhigh, hfits⟩ := (checks_eq_some_iff _ _).mp hchecks
  obtain ⟨sp1, hrun, hwell, hundec, hmeets⟩ :=
    undecodeAreaFrom_spec hord (2 * sp.decoders.length + 4) 0 1 sp h hlt ⟨rfl, rfl⟩
      (fun j hj => by omega) (fun _ => Nat.le_refl 1) (by omega)
  have hself := hundec.skip_eq hlt
  have hrun' : undecodeAreaFrom (2 * sp.decoders.length + 4) 0 d (sp.decoder d).asBegin
      (sp.decoder d).asEnd sp = some sp1 := hrun
  obtain ⟨spC, hact, hframe, hwired⟩ := activateWith_accepted hchecks hrun' hself
  have hstart : spC.startAddress = sp.startAddress := hframe.startAddress.trans hundec.startAddress
  have hsize : spC.size = sp.size := hframe.size.trans hundec.size
  have hsd := setDecoder_self spC d { sp.decoder d with activated := true }
  have hother (y : DecoderPtr) (hy : y ≠ d) :
      (spC.setDecoder d { sp.decoder d with activated := true }).decoder y = sp1.decoder y :=
    (setDecoder_ne spC hy _).trans (congrFun hframe.decoder y)
  have hmem (y : DecoderPtr) :
      y ∈ (spC.setDecoder d { sp.decoder d with activated := true }).decoders ↔ y ∈ sp1.decoders := by
    rw [show (spC.setDecoder d { sp.decoder d with activated := true }).decoders = sp1.decoders from
      hframe.decoders]
  have hwired' (a : Int) (h1 : (sp.decoder d).asBegin ≤ a) (h2 : a ≤ (sp.decoder d).asEnd) :
      spC.WiredTo a ((sp.decoder d).slotOf a) := by
    refine hwired a h1 h2 ?_
    rw [validAddress, hundec.startAddress, hundec.size]
    omega
  refine ⟨_, hact,
    { startAddress := hstart
      freshDecoder := Nat.le_trans hundec.freshDecoder (Nat.le_of_eq hframe.freshDecoder.symm)
      well := ?_
      apart := ?_
      self := hsd
      self_mem := (hmem d).trans (hundec.skip_mem hlt)
      decodes := ?_
      wired := hwired'
      operators := fun a => (hframe.operators a).trans (hundec.operators a)
      mask := fun a => (hframe.mask a).trans (hundec.mask a)
      cell := fun a ha ht => (hframe.cell a ha).trans (hundec.cell a ha ht) }⟩
  · refine ⟨hframe.decoders ▸ hwell.nodup, ?_, ?_, ?_⟩
    · intro y hy
      exact Nat.lt_of_lt_of_eq (hwell.allocated y ((hmem y).mp hy)) hframe.freshDecoder.symm
    · intro y hy hyd
      have hy := (hmem y).mp hy
      have hnot := hmeets y hy hyd
      rw [AddressDecoder.Meets] at hnot
      have hord' := (hwell.decodes y hy hyd).ordered
      rw [hother y hyd]
      refine (hwell.decodes y hy hyd).congr hframe.startAddress hframe.size ?_
      exact fun a h1 h2 => hframe.cell a (by omega)
    · intro y hy z hz hyd hzd hyz
      rw [hother y hyd, hother z hzd]
      exact hwell.apart y ((hmem y).mp hy) z ((hmem z).mp hz) hyd hzd hyz
  · intro y hy hyd
    rw [hother y hyd]
    exact hmeets y ((hmem y).mp hy) hyd
  · rw [hsd]
    refine ⟨honSpace, hord, ?_, ?_, ⟨chip, hchip, hfits⟩, hwired'⟩
    · show spC.startAddress ≤ (sp.decoder d).asBegin
      omega
    · show (sp.decoder d).asEnd < spC.startAddress + spC.size
      omega

theorem WellDecoded.activate (h : WellDecoded d sp) (hlt : d < sp.freshDecoder) {chip : MemoryChip}
    (hchecks : sp.checks (sp.decoder d) = some chip) :
    ∃ sp', sp.Activates d (true, sp') ∧ Activated d sp sp' := by
  obtain ⟨sp', hact, hspec⟩ := h.activate_fuel hlt hchecks
  exact ⟨sp', ⟨_, hact⟩, hspec⟩

/-- Where no decoder strictly covers the new range, the others keep all that is outside. -/
theorem WellDecoded.activate_covered (h : WellDecoded d sp) {chip : MemoryChip}
    (hchecks : sp.checks (sp.decoder d) = some chip)
    (hnone : ∀ y ∈ sp.decoders, y ≠ d → ¬ (sp.decoder y).covers (sp.decoder d).asBegin (sp.decoder d).asEnd)
    {fuel : Nat} (hact : AddressSpace.activate fuel d sp = some (true, sp')) {a : Int}
    (hout : ¬ ((sp.decoder d).asBegin ≤ a ∧ a ≤ (sp.decoder d).asEnd)) (hc : Covered d sp a) : Covered d sp' a := by
  obtain ⟨-, -, -, hord, -⟩ := (checks_eq_some_iff _ _).mp hchecks
  rw [AddressSpace.activate, activateWith, hchecks] at hact
  dsimp only at hact
  cases hrun : undecodeAreaFrom fuel 0 d (sp.decoder d).asBegin (sp.decoder d).asEnd sp with
  | none =>
    rw [hrun] at hact
    cases hact
  | some sp1 =>
    rw [hrun] at hact
    obtain ⟨x, hx, hxd, hrange⟩ := undecodeAreaFrom_covered hord fuel 0 sp sp1 h hnone hrun a hout hc
    cases hact
    have hframe := decodeCells_sameBut chip ((sp1.decoder d).asEnd - (sp1.decoder d).asBegin + 1).toNat
      (sp1.decoder d).asBegin (sp1.decoder d).chipBegin sp1
    refine ⟨x, ?_, hxd, ?_⟩
    · exact hframe.decoders.symm ▸ hx
    · rw [setDecoder_ne _ hxd, hframe.decoder]
      exact hrange

/-- `activate` refuses any other decoder, and nothing changes. -/
theorem activates_refused (hchecks : sp.checks (sp.decoder d) = none) :
    sp.Activates d (false, sp) := by
  refine ⟨0, ?_⟩
  rw [AddressSpace.activate, activateWith, hchecks]

/-- After an accepted activation of a decoder of the list all decoders of the list are activated. -/
theorem Activated.wellDecoded (h : Activated d sp sp') (hmem : d ∈ sp.decoders)
    (hlt : d < sp.freshDecoder) : WellDecoded sp'.freshDecoder sp' := by
  have hdapart (y : DecoderPtr) (hy : y ∈ sp'.decoders) (hyd : y ≠ d) :
      (sp'.decoder y).Apart (sp'.decoder d) := by
    have hnot := h.apart y hy hyd
    rw [AddressDecoder.Meets] at hnot
    rw [AddressDecoder.Apart, h.self]
    dsimp only
    omega
  refine ⟨h.well.nodup, h.well.allocated, ?_, ?_⟩
  · intro y hy _
    by_cases hyd : y = d
    · rw [hyd]
      exact h.decodes
    · exact h.well.decodes y hy hyd
  · intro y hy z hz _ _ hyz
    by_cases hyd : y = d
    · subst hyd
      exact (hdapart z hz (Ne.symm hyz)).symm
    · by_cases hzd : z = d
      · subst hzd
        exact hdapart y hy hyd
      · exact h.well.apart y hy z hz hyd hzd hyz

/-! ## Runs -/

/-- What can happen to an address space. `activate` is given the values the constructor of the new
decoder is called with. -/
inductive SpaceOp (Hw : Type)
  | registerHw (addr : Int) (hw : Hw)
  | setBrk (addr : Int) (brk : Brk)
  | delBrk (addr : Int) (brk : Brk)
  | activate (v : AddressDecoder)
  | remove (d : DecoderPtr)

/-- The effect of each operation. -/
inductive SpaceStep : SpaceOp Hw → AddressSpace Hw → AddressSpace Hw → Prop
  | registerHw (sp : AddressSpace Hw) (addr : Int) (hw : Hw) :
      SpaceStep (.registerHw addr hw) sp (sp.registerHw addr hw)
  | setBrk (sp : AddressSpace Hw) (addr : Int) (brk : Brk) :
      SpaceStep (.setBrk addr brk) sp (sp.setBrk addr brk)
  | delBrk (sp : AddressSpace Hw) (addr : Int) (brk : Brk) :
      SpaceStep (.delBrk addr brk) sp (sp.delBrk addr brk)
  | activate {sp sp' : AddressSpace Hw} {v : AddressDecoder} {chip : MemoryChip} :
      sp.checks v = some chip →
        ((sp.newDecoder v).2.addDecoder sp.freshDecoder).Activates sp.freshDecoder (true, sp') →
          SpaceStep (.activate v) sp sp'
  | refuse {sp : AddressSpace Hw} {v : AddressDecoder} :
      sp.checks v = none → SpaceStep (.activate v) sp sp
  | remove {sp : AddressSpace Hw} {d : DecoderPtr} :
      d ∈ sp.decoders → SpaceStep (.remove d) sp ((sp.disconnDecoder d).deleteDecoder d)

/-- Runs of an address space from its construction. -/
def spaceRuns (Hw : Type) (astart asize : Int) : System (SpaceOp Hw) (AddressSpace Hw) where
  init sp := sp = new astart asize
  step := SpaceStep

/-- The space with a new decoder, which is in the list if `inList`. -/
def withNew (sp : AddressSpace Hw) (v : AddressDecoder) (inList : Bool) : AddressSpace Hw :=
  if inList then (sp.newDecoder v).2.addDecoder sp.freshDecoder else (sp.newDecoder v).2

/-- With respect to a new decoder all others are activated. -/
theorem WellDecoded.withNew (h : WellDecoded sp.freshDecoder sp) (v : AddressDecoder)
    (inList : Bool) : WellDecoded sp.freshDecoder (sp.withNew v inList) := by
  have hold (y : DecoderPtr) (hy : y ≠ sp.freshDecoder) :
      (sp.newDecoder v).2.decoder y = sp.decoder y := setDecoder_ne sp hy v
  have hnew : WellDecoded sp.freshDecoder (sp.newDecoder v).2 := by
    refine ⟨h.nodup, fun y hy => Nat.lt_succ_of_lt (h.allocated y hy), ?_, ?_⟩
    · intro y hy hyd
      rw [hold y hyd]
      exact (h.decodes y hy hyd).congr rfl rfl (fun _ _ _ => rfl)
    · intro y hy z hz hyd hzd hyz
      rw [hold y hyd, hold z hzd]
      exact h.apart y hy z hz hyd hzd hyz
  cases inList with
  | false => exact hnew
  | true =>
    have hnot : sp.freshDecoder ∉ sp.decoders :=
      fun hmem => absurd (h.allocated _ hmem) (Nat.lt_irrefl _)
    obtain ⟨i, hi, hlist⟩ : ∃ i ≤ sp.decoders.length,
        (sp.withNew v true).decoders = sp.decoders.insertIdx i sp.freshDecoder :=
      SortedList.add_duplicates _ _ _
    have hmem (y : DecoderPtr) (hy : y ∈ (sp.withNew v true).decoders) (hyd : y ≠ sp.freshDecoder) :
        y ∈ sp.decoders := by
      rw [hlist, List.mem_insertIdx hi] at hy
      exact hy.resolve_left hyd
    refine ⟨?_, ?_, ?_, ?_⟩
    · rw [hlist, (List.perm_insertIdx _ sp.decoders hi).nodup_iff]
      exact List.nodup_cons.mpr ⟨hnot, h.nodup⟩
    · intro y hy
      by_cases hyd : y = sp.freshDecoder
      · rw [hyd]
        exact Nat.lt_succ_self _
      · exact Nat.lt_succ_of_lt (h.allocated y (hmem y hy hyd))
    · intro y hy hyd
      exact (hnew.decodes y (hmem y hy hyd) hyd).congr rfl rfl (fun _ _ _ => rfl)
    · intro y hy z hz hyd hzd hyz
      exact hnew.apart y (hmem y hy hyd) z (hmem z hz hzd) hyd hzd hyz

theorem withNew_decoder (sp : AddressSpace Hw) (v : AddressDecoder) (inList : Bool) :
    (sp.withNew v inList).decoder sp.freshDecoder = v := by
  cases inList with
  | false => exact setDecoder_self sp _ v
  | true => exact setDecoder_self sp _ v

theorem withNew_cellAt (sp : AddressSpace Hw) (v : AddressDecoder) (inList : Bool) (a : Int) :
    (sp.withNew v inList).cellAt a = sp.cellAt a := by
  cases inList with
  | false => rfl
  | true => rfl

theorem withNew_checks (sp : AddressSpace Hw) (v w : AddressDecoder) (inList : Bool) :
    (sp.withNew v inList).checks w = sp.checks w := by
  cases inList with
  | false => rfl
  | true => rfl

theorem withNew_freshDecoder (sp : AddressSpace Hw) (v : AddressDecoder) (inList : Bool) :
    (sp.withNew v inList).freshDecoder = sp.freshDecoder + 1 := by
  cases inList with
  | false => rfl
  | true => rfl

/-- An operation on the operators of the cells keeps the invariant. -/
theorem WellDecoded.sameWiring (h : WellDecoded d sp) (hs : SameWiring sp sp') :
    WellDecoded d sp' := by
  have hwired {a : Int} {p : Option DataPtr} (hw : sp.WiredTo a p) : sp'.WiredTo a p := by
    cases p with
    | none => rw [WiredTo] at hw ⊢; rw [hs.nonDecoded]; exact hw
    | some p => rw [WiredTo] at hw ⊢; rw [hs.nonDecoded, hs.data]; exact hw
  refine ⟨hs.decoders ▸ h.nodup, ?_, ?_, ?_⟩
  · rw [hs.decoders, hs.freshDecoder]
    exact h.allocated
  · intro x hx hxd
    rw [hs.decoders] at hx
    have hdx := h.decodes x hx hxd
    rw [hs.decoder]
    exact ⟨hdx.onSpace, hdx.ordered, hs.startAddress ▸ hdx.low,
      hs.startAddress ▸ hs.size ▸ hdx.high, hdx.fits, fun a h1 h2 => hwired (hdx.wired a h1 h2)⟩
  · rw [hs.decoders, hs.decoder]
    exact h.apart

/-- Nothing is skipped where the decoder to skip is not in the list. -/
theorem WellDecoded.reskip {skip skip' : DecoderPtr} (h : WellDecoded skip sp)
    (hnot : skip ∉ sp.decoders) : WellDecoded skip' sp where
  nodup := h.nodup
  allocated := h.allocated
  decodes x hx _ := h.decodes x hx (fun hxs => hnot (hxs ▸ hx))
  apart x hx y hy _ _ hxy :=
    h.apart x hx y hy (fun hxs => hnot (hxs ▸ hx)) (fun hys => hnot (hys ▸ hy)) hxy

theorem wellDecoded_new (astart asize : Int) :
    WellDecoded 0 (new astart asize : AddressSpace Hw) := by
  refine ⟨List.nodup_nil, ?_, ?_, ?_⟩
  · exact fun x hx => absurd hx List.not_mem_nil
  · exact fun x hx => absurd hx List.not_mem_nil
  · exact fun x hx => absurd hx List.not_mem_nil

/-- Every operation keeps the invariant. -/
theorem SpaceStep.wellDecoded {op : SpaceOp Hw} (hst : SpaceStep op sp sp')
    (h : WellDecoded sp.freshDecoder sp) : WellDecoded sp'.freshDecoder sp' := by
  cases hst with
  | registerHw _ addr hw =>
    have hs := registerHw_sameWiring sp addr hw
    exact hs.freshDecoder ▸ h.sameWiring hs
  | setBrk _ addr brk =>
    have hs := setBrk_sameWiring sp addr brk
    exact hs.freshDecoder ▸ h.sameWiring hs
  | delBrk _ addr brk =>
    have hs := delBrk_sameWiring sp addr brk
    exact hs.freshDecoder ▸ h.sameWiring hs
  | @activate _ _ v chip hchecks hact =>
    have hwell := h.withNew v true
    have hdec := withNew_decoder sp v true
    have hlt : sp.freshDecoder < (sp.withNew v true).freshDecoder := Nat.lt_succ_self _
    obtain ⟨sp'', hact', hspec⟩ := hwell.activate hlt (by rw [hdec]; exact hchecks)
    obtain ⟨-, rfl⟩ := Prod.mk.inj (hact.unique hact')
    refine hspec.wellDecoded ?_ hlt
    obtain ⟨i, hi, hlist⟩ : ∃ i ≤ sp.decoders.length,
        (sp.withNew v true).decoders = sp.decoders.insertIdx i sp.freshDecoder :=
      SortedList.add_duplicates _ _ _
    rw [hlist, List.mem_insertIdx hi]
    exact Or.inl rfl
  | refuse _ => exact h
  | @remove _ x hx =>
    have hxd : x ≠ sp.freshDecoder := Nat.ne_of_lt (h.allocated x hx)
    obtain ⟨hwell, -, hlist, -⟩ := h.remove hx hxd (b := (sp.decoder x).asBegin)
      (e := (sp.decoder x).asEnd) ⟨Int.le_refl _, Int.le_refl _⟩
    refine hwell.reskip ?_
    rw [hlist]
    exact fun hmem => absurd (h.allocated _ (List.mem_of_mem_erase hmem)) (Nat.lt_irrefl _)

/-- In every run all decoders of the list are activated and do not meet. -/
theorem wellDecoded_of_reachable {astart asize : Int} (h : (spaceRuns Hw astart asize).Reachable sp) :
    WellDecoded sp.freshDecoder sp :=
  h.invariant (I := fun sp => WellDecoded sp.freshDecoder sp)
    (fun s hs => by rw [show s = new astart asize from hs]; exact wellDecoded_new astart asize)
    (fun _ _ _ _ hI hst => SpaceStep.wellDecoded hst hI)

/-! ## What `activate` promises -/

/-- The cell at `a` is decoded and backed by the slot `i` of the chip. -/
def BackedBy (sp : AddressSpace Hw) (a : Int) (chip : MemoryChip) (i : Int) : Prop :=
  (sp.cellAt a).nonDecoded = false ∧ (sp.cellAt a).data = .slot chip.id i ∧ 0 ≤ i ∧ i < chip.size

/-- What one expects of a successful activation of `d` that turns `sp` into `sp'`. -/
structure DecodedRange (d : DecoderPtr) (sp sp' : AddressSpace Hw) : Prop where
  backed : ∃ chip, (sp.decoder d).memchip = some chip ∧
    ∀ a, (sp.decoder d).asBegin ≤ a → a ≤ (sp.decoder d).asEnd →
      sp'.BackedBy a chip ((sp.decoder d).chipBegin + (a - (sp.decoder d).asBegin))
  others : ∀ a, ¬ ((sp.decoder d).asBegin ≤ a ∧ a ≤ (sp.decoder d).asEnd) →
    (sp.cellAt a).nonDecoded = false →
      (sp'.cellAt a).nonDecoded = false ∧ (sp'.cellAt a).data = (sp.cellAt a).data
  meets : ∀ x ∈ sp'.decoders, x ≠ d →
    ¬ (sp'.decoder x).Meets (sp.decoder d).asBegin (sp.decoder d).asEnd
  apart : ∀ x ∈ sp'.decoders, ∀ y ∈ sp'.decoders, x ≠ d → y ≠ d → x ≠ y →
    (sp'.decoder x).Apart (sp'.decoder y)

/-- `activate` returns, on success with the range decoded, otherwise with nothing changed. -/
def ActivateCorrect (sp : AddressSpace Hw) (d : DecoderPtr) : Prop :=
  ∃ ok sp', sp.Activates d (ok, sp') ∧ (ok = true → DecodedRange d sp sp') ∧
    (ok = false → sp' = sp)

/-- A decoder that passes all checks of `activate`, although its first slot lies in front of the
array of the chip or its last one behind it. -/
def Overruns (sp : AddressSpace Hw) (v : AddressDecoder) : Prop :=
  ∃ chip, sp.checks v = some chip ∧
    (v.chipBegin < 0 ∨ chip.size ≤ v.chipBegin + (v.asEnd - v.asBegin))

/-- The checks let an overrunning decoder through, and some cell of its range gets no slot. -/
theorem not_activateCorrect_of_overruns (h : WellDecoded d sp) (hlt : d < sp.freshDecoder)
    (hover : Overruns sp (sp.decoder d)) : ¬ ActivateCorrect sp d := by
  rintro ⟨ok, sp', hact, hok, -⟩
  obtain ⟨chip, hchecks, hover⟩ := hover
  obtain ⟨-, -, hchip, hord, -, -, -, -⟩ := (checks_eq_some_iff _ chip).mp hchecks
  obtain ⟨sp'', hact', -⟩ := h.activate hlt hchecks
  obtain ⟨rfl, -⟩ := Prod.mk.inj (hact.unique hact')
  obtain ⟨chip', hchip', hbacked⟩ := (hok rfl).backed
  obtain rfl : chip = chip' := Option.some.inj (hchip.symm.trans hchip')
  rcases hover with hneg | hlast
  · obtain ⟨-, -, hfirst, -⟩ := hbacked _ (Int.le_refl _) hord
    omega
  · obtain ⟨-, -, -, hend⟩ := hbacked _ hord (Int.le_refl _)
    omega

/-- All other decoders are activated correctly. -/
theorem activateCorrect_of_not_overruns (h : WellDecoded d sp) (hlt : d < sp.freshDecoder)
    (hover : ¬ Overruns sp (sp.decoder d)) : ActivateCorrect sp d := by
  cases hchecks : sp.checks (sp.decoder d) with
  | none => exact ⟨false, sp, activates_refused hchecks, fun hf => (by cases hf), fun _ => rfl⟩
  | some chip =>
    have hin : ¬ ((sp.decoder d).chipBegin < 0 ∨
        chip.size ≤ (sp.decoder d).chipBegin + ((sp.decoder d).asEnd - (sp.decoder d).asBegin)) :=
      fun hv => hover ⟨chip, hchecks, hv⟩
    obtain ⟨-, -, hchip, -⟩ := (checks_eq_some_iff _ chip).mp hchecks
    obtain ⟨sp', hact, hspec⟩ := h.activate hlt hchecks
    refine ⟨true, sp', hact, fun _ => ?_, fun hf => by cases hf⟩
    refine ⟨⟨chip, hchip, ?_⟩, ?_, hspec.apart, hspec.well.apart⟩
    · intro a h1 h2
      have hwired := hspec.wired a h1 h2
      have hslot : (sp.decoder d).slotOf a
          = some (.slot chip.id ((sp.decoder d).chipBegin + (a - (sp.decoder d).asBegin))) := by
        rw [AddressDecoder.slotOf, hchip]
        exact if_neg (by omega)
      rw [hslot, WiredTo] at hwired
      exact ⟨hwired.1, hwired.2, by omega, by omega⟩
    · intro a hout hdecoded
      rw [hspec.cell a hout (Or.inl hdecoded)]
      exact ⟨hdecoded, rfl⟩

/-- `activate` does what is expected of it unless the decoder overruns its chip. -/
theorem activate_correct_iff {astart asize : Int} (h : (spaceRuns Hw astart asize).Reachable sp)
    (v : AddressDecoder) (inList : Bool) :
    ActivateCorrect (sp.withNew v inList) sp.freshDecoder ↔ ¬ Overruns sp v := by
  have hwell := (wellDecoded_of_reachable h).withNew v inList
  have hlt : sp.freshDecoder < (sp.withNew v inList).freshDecoder := by
    rw [withNew_freshDecoder]
    exact Nat.lt_succ_self _
  have hover : Overruns (sp.withNew v inList) ((sp.withNew v inList).decoder sp.freshDecoder)
      ↔ Overruns sp v := by
    simp only [Overruns, withNew_decoder, withNew_checks]
  rw [← hover]
  constructor
  · intro hcorrect hv
    exact not_activateCorrect_of_overruns hwell hlt hv hcorrect
  · intro hv
    exact activateCorrect_of_not_overruns hwell hlt hv

/-- The theorem at work: two cells on a chip of two. -/
theorem activate_correct_two :
    ActivateCorrect ((new 0 4 : AddressSpace Unit).withNew
      { onSpace := true, memchip := some { id := 0, size := 2 }, asBegin := 1, asEnd := 2,
        chipBegin := 0, activated := false } true) 0 := by
  refine (activate_correct_iff (System.Reachable.init rfl : (spaceRuns Unit 0 4).Reachable _) _
    true).mpr ?_
  rintro ⟨chip, hchecks, hover⟩
  obtain ⟨-, -, hchip, -⟩ := (checks_eq_some_iff _ chip).mp hchecks
  cases hchip
  revert hover
  decide

/-- A decoder for three cells on a chip of two: it passes all checks, and the last cell gets no slot. -/
def overrunningDecoder : AddressDecoder :=
  { onSpace := true, memchip := some { id := 0, size := 2 }, asBegin := 0, asEnd := 2,
    chipBegin := 0, activated := false }

/-- Activating that decoder on an empty space of four cells goes wrong. -/
theorem activate_overrunning_not_correct :
    (spaceRuns Unit 0 4).Reachable (new 0 4) ∧
      ¬ ActivateCorrect ((new 0 4 : AddressSpace Unit).withNew overrunningDecoder true) 0 := by
  refine ⟨System.Reachable.init rfl, ?_⟩
  let sp : AddressSpace Unit := new 0 4
  have hnew : WellDecoded sp.freshDecoder sp := wellDecoded_new 0 4
  refine not_activateCorrect_of_overruns (hnew.withNew overrunningDecoder true) (by decide) ?_
  exact ⟨{ id := 0, size := 2 }, by decide, by decide⟩

end AddressSpace

end Ucsim
