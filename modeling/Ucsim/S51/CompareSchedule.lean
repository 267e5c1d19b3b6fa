import Ucsim.S51.Timer1
import Ucsim.S51.Timer3

/-!
# The schedule of the compare events

The timers do not compare their count at every tick. They count `NextCmpEvent` down to the next value
of a channel in compare mode, and compute it anew at some events.
-/

namespace Ucsim.S51

open Logic

namespace CcTimer

variable {w : Nat}

/-! ## Countdowns -/

/-- The ticks until a countdown from `x` is at zero, one at least. -/
def ticksTo (x : BitVec w) : Nat := if x = 0 then 2 ^ w else x.toNat

theorem ticksTo_of_ne {x : BitVec w} (h : x ≠ 0) : ticksTo x = x.toNat := if_neg h

theorem ticksTo_le (x : BitVec w) : ticksTo x ≤ 2 ^ w := by
  rw [ticksTo]
  split
  · exact Nat.le_refl _
  · exact Nat.le_of_lt x.isLt

theorem one_le_ticksTo (x : BitVec w) : 1 ≤ ticksTo x := by
  rw [ticksTo]
  split
  · exact Nat.one_le_two_pow
  · next h => exact Nat.pos_of_ne_zero fun h' => h (BitVec.eq_of_toNat_eq h')

theorem two_le_pow (hw : 0 < w) : 2 ≤ 2 ^ w := Nat.pow_le_pow_right (n := 2) (by decide) hw

theorem one_toNat (hw : 0 < w) : (1 : BitVec w).toNat = 1 := BitVec.toNat_one hw

theorem zero_toNat : (0 : BitVec w).toNat = 0 := BitVec.toNat_zero

theorem ticksTo_eq_one (hw : 0 < w) {x : BitVec w} : ticksTo x = 1 ↔ x = 1 := by
  have hpow := two_le_pow hw
  by_cases h : x = 0
  · refine iff_of_false ?_ ?_
    · rw [ticksTo, if_pos h]
      omega
    · rw [h, ← BitVec.toNat_inj, one_toNat hw, zero_toNat]
      exact Nat.zero_ne_one
  · rw [ticksTo_of_ne h, ← BitVec.toNat_inj, one_toNat hw]

/-- One tick. -/
theorem ticksTo_sub_one (hw : 0 < w) {x : BitVec w} (h : x ≠ 1) : ticksTo (x - 1) + 1 = ticksTo x := by
  have hpow := two_le_pow hw
  have hx := x.isLt
  have hne : x - 1 ≠ 0 := by
    intro h'
    rw [← BitVec.sub_add_cancel x 1, h'] at h
    exact h (BitVec.zero_add 1)
  rw [ticksTo_of_ne hne, BitVec.toNat_sub, one_toNat hw]
  by_cases h0 : x = 0
  · rw [ticksTo, if_pos h0, h0, zero_toNat, Nat.add_zero, Nat.mod_eq_of_lt (by omega)]
    omega
  · have hpos : 0 < x.toNat := Nat.pos_of_ne_zero fun h' => h0 (BitVec.eq_of_toNat_eq h')
    rw [ticksTo_of_ne h0, show 2 ^ w - 1 + x.toNat = x.toNat - 1 + 2 ^ w by omega, Nat.add_mod_right,
      Nat.mod_eq_of_lt (by omega)]
    omega

/-! ## The scan of the channels -/

/-- `cmpEventIn` of a channel. -/
def cmpEventIn (K : Wiring w) (t : CcTimer w) (i : Fin 5) : BitVec w :=
  if K.down i t then t.count - t.ValRegCMP i else t.ValRegCMP i - t.count

/-- The channels are scanned from `next` on. -/
def scanFrom (K : Wiring w) (st : CcSt w) (l : List (Fin 5)) (next : BitVec w) : BitVec w :=
  l.foldl (fun next i =>
    if inCompareMode K st i then
      scan (K.down i st.hw) (K.first i) st.hw.count (st.hw.ValRegCMP i) next
    else next) next

/-- What `get_next_cc_event` computes. -/
def nextEvent (K : Wiring w) (st : CcSt w) : BitVec w := scanFrom K st K.channels (-1)

variable {K : Wiring w} {st : CcSt w}

theorem inCompareMode_iff {i : Fin 5} :
    inCompareMode K st i = true ↔ st.mem (K.regCTL i) &&& bmCmpMode ≠ 0 := decide_eq_true_iff

/-- What the schedule depends on. -/
theorem nextEvent_congr {st' : CcSt w}
    (hmodes : ∀ i ∈ K.channels, inCompareMode K st' i = inCompareMode K st i)
    (hcount : st'.hw.count = st.hw.count) (hval : st'.hw.ValRegCMP = st.hw.ValRegCMP)
    (hdown : ∀ i, K.down i st'.hw = K.down i st.hw) : nextEvent K st' = nextEvent K st := by
  rw [nextEvent, nextEvent, scanFrom, scanFrom]
  refine List.foldl_ext _ _ _ fun next i hi => ?_
  rw [hmodes i hi, hdown, hcount, hval]

theorem scan_eq (i : Fin 5) (next : BitVec w) :
    scan (K.down i st.hw) (K.first i) st.hw.count (st.hw.ValRegCMP i) next
      = if (0 < (cmpEventIn K st.hw i).toInt ∧ (cmpEventIn K st.hw i).toInt < next.toInt) ∨
          (K.first i ∧ next.toInt = -1 ∧ (cmpEventIn K st.hw i).toInt ≠ 0) then cmpEventIn K st.hw i
        else next := rfl

/-- A negative distance is never replaced. -/
theorem scanFrom_neg {next : BitVec w} (h : next.toInt < -1) (l : List (Fin 5)) :
    scanFrom K st l next = next := by
  induction l with
  | nil => rfl
  | cons i l ih =>
    rw [scanFrom, List.foldl_cons]
    by_cases hi : inCompareMode K st i
    · rw [if_pos hi, scan_eq, if_neg (by omega)]
      exact ih
    · rw [if_neg hi]
      exact ih

/-- A positive distance is replaced by smaller ones. -/
theorem scanFrom_pos (K : Wiring w) (st : CcSt w) {next : BitVec w} (h : 0 < next.toInt) (l : List (Fin 5)) :
    0 < (scanFrom K st l next).toInt ∧ (scanFrom K st l next).toInt ≤ next.toInt ∧
      ∀ k ∈ l, inCompareMode K st k → 0 < (cmpEventIn K st.hw k).toInt →
        (scanFrom K st l next).toInt ≤ (cmpEventIn K st.hw k).toInt := by
  induction l generalizing next with
  | nil => exact ⟨h, Int.le_refl _, fun k hk => absurd hk List.not_mem_nil⟩
  | cons i l ih =>
    obtain ⟨next', hnext', hpos, hle, hmin⟩ : ∃ next' : BitVec w,
        scanFrom K st (i :: l) next = scanFrom K st l next' ∧ 0 < next'.toInt ∧
          next'.toInt ≤ next.toInt ∧ (inCompareMode K st i → 0 < (cmpEventIn K st.hw i).toInt →
            next'.toInt ≤ (cmpEventIn K st.hw i).toInt) := by
      by_cases hi : inCompareMode K st i
      · by_cases hd : 0 < (cmpEventIn K st.hw i).toInt ∧ (cmpEventIn K st.hw i).toInt < next.toInt
        · refine ⟨cmpEventIn K st.hw i, ?_, hd.1, Int.le_of_lt hd.2, fun _ _ => Int.le_refl _⟩
          rw [scanFrom, List.foldl_cons, if_pos hi, scan_eq, if_pos (Or.inl hd)]
          rfl
        · refine ⟨next, ?_, h, Int.le_refl _, fun _ hd' => by omega⟩
          rw [scanFrom, List.foldl_cons, if_pos hi, scan_eq, if_neg (by omega)]
          rfl
      · refine ⟨next, ?_, h, Int.le_refl _, fun hi' => absurd hi' hi⟩
        rw [scanFrom, List.foldl_cons, if_neg hi]
        rfl
    obtain ⟨ihpos, ihle, ihmin⟩ := ih hpos
    rw [hnext']
    refine ⟨ihpos, Int.le_trans ihle hle, fun k hk hmode hd => ?_⟩
    rcases List.mem_cons.mp hk with rfl | hk
    · exact Int.le_trans ihle (hmin hmode hd)
    · exact ihmin k hk hmode hd

/-- Does a channel replace the -1 that the scan begins with? -/
def leads (K : Wiring w) (st : CcSt w) (i : Fin 5) : Bool :=
  inCompareMode K st i && K.first i && cmpEventIn K st.hw i ≠ 0 && cmpEventIn K st.hw i ≠ -1

theorem leads_iff {i : Fin 5} :
    leads K st i = true ↔
      inCompareMode K st i ∧ K.first i ∧ cmpEventIn K st.hw i ≠ 0 ∧ cmpEventIn K st.hw i ≠ -1 := by
  simp only [leads, Bool.and_eq_true, decide_eq_true_eq, and_assoc]

/-- The channel that does so first. -/
def lead (K : Wiring w) (st : CcSt w) : Option (Fin 5) := K.channels.find? (leads K st)

theorem toInt_ne_zero {x : BitVec w} : x.toInt ≠ 0 ↔ x ≠ 0 := by
  rw [ne_eq, ne_eq, ← BitVec.toInt_inj, show (0 : BitVec w).toInt = 0 from BitVec.toInt_zero]

theorem toInt_neg_one (hw : 0 < w) : (-1 : BitVec w).toInt = -1 := by
  rw [show (-1 : BitVec w) = BitVec.allOnes w from BitVec.neg_one_eq_allOnes, BitVec.toInt_allOnes, if_pos hw]

theorem toNat_neg_one : (-1 : BitVec w).toNat = 2 ^ w - 1 := by
  rw [show (-1 : BitVec w) = BitVec.allOnes w from BitVec.neg_one_eq_allOnes, BitVec.toNat_allOnes]

/-- The scan from -1: nothing is found, or the rest is scanned from the distance of the first channel
that leads. The channels that may not lead come last. -/
theorem scanFrom_lead (st : CcSt w) (hw : 0 < w) {l : List (Fin 5)}
    (hfirst : l.Pairwise fun i k => K.first k → K.first i) :
    match l.find? (leads K st) with
    | none => scanFrom K st l (-1) = -1
    | some j => ∃ l', (∀ k ∈ l', k ∈ l) ∧
        scanFrom K st l (-1) = scanFrom K st l' (cmpEventIn K st.hw j) ∧
        ∀ k ∈ l, inCompareMode K st k → 0 < (cmpEventIn K st.hw k).toInt → k = j ∨ k ∈ l' := by
  have hneg := toInt_neg_one hw
  induction l with
  | nil => rfl
  | cons i l ih =>
    have ih := ih (List.pairwise_cons.mp hfirst).2
    cases hlead : leads K st i with
    | true =>
      rw [List.find?_cons_of_pos hlead]
      obtain ⟨hmode, hf, hne, -⟩ := leads_iff.mp hlead
      refine ⟨l, fun k hk => List.mem_cons_of_mem i hk, ?_, fun k hk _ _ => List.mem_cons.mp hk⟩
      rw [scanFrom, List.foldl_cons, if_pos hmode, scan_eq,
        if_pos (Or.inr ⟨hf, hneg, toInt_ne_zero.mpr hne⟩)]
      rfl
    | false =>
      have hnot : ¬ leads K st i = true := by
        rw [hlead]
        exact Bool.false_ne_true
      have hskip : scanFrom K st (i :: l) (-1) = scanFrom K st l (-1) := by
        rw [scanFrom, List.foldl_cons]
        by_cases hi : inCompareMode K st i
        · rw [if_pos hi, scan_eq, hneg]
          by_cases hd : cmpEventIn K st.hw i = -1
          · rw [hd, ite_self]
            rfl
          · rw [if_neg]
            · rfl
            · rintro (h | ⟨hf, -, h⟩)
              · omega
              · exact hnot (leads_iff.mpr ⟨hi, hf, toInt_ne_zero.mp h, hd⟩)
        · rw [if_neg hi]
          rfl
      rw [List.find?_cons_of_neg hnot, hskip]
      cases hfind : l.find? (leads K st) with
      | none =>
        rw [hfind] at ih
        exact ih
      | some j =>
        rw [hfind] at ih
        obtain ⟨l', hl', hscan, hmem⟩ := ih
        refine ⟨l', fun k hk => List.mem_cons_of_mem i (hl' k hk), hscan, fun k hk hmode hd => ?_⟩
        rcases List.mem_cons.mp hk with rfl | hk
        · -- A channel in front of the leading one that is in compare mode is at 0 or at -1.
          have hj := (leads_iff.mp (List.find?_some hfind)).2.1
          have hk : K.first k := (List.pairwise_cons.mp hfirst).1 j (List.mem_of_find?_eq_some hfind) hj
          have hne : cmpEventIn K st.hw k ≠ 0 := toInt_ne_zero.mp (by omega)
          have hne' : cmpEventIn K st.hw k ≠ -1 := fun h => by
            rw [h, hneg] at hd
            omega
          exact absurd (leads_iff.mpr ⟨hmode, hk, hne, hne'⟩) hnot
        · exact hmem k hk hmode hd

/-- The schedule foresees a value that is `x` ticks away: the leading distance is positive and some
channel's positive distance is at most `x`, or the leading distance is negative and, as an unsigned
number, at most `x`; or nothing leads and `x` is at least a whole round but one. -/
def Foreseen (K : Wiring w) (st : CcSt w) (x : BitVec w) : Prop :=
  match lead K st with
  | none => 2 ^ w - 1 ≤ ticksTo x
  | some j =>
    if 0 < (cmpEventIn K st.hw j).toInt then
      ∃ k ∈ K.channels, inCompareMode K st k ∧ 0 < (cmpEventIn K st.hw k).toInt ∧
        (cmpEventIn K st.hw k).toNat ≤ ticksTo x
    else (cmpEventIn K st.hw j).toNat ≤ ticksTo x

instance (K : Wiring w) (st : CcSt w) (x : BitVec w) : Decidable (Foreseen K st x) :=
  match h : lead K st with
  | none => decidable_of_iff (2 ^ w - 1 ≤ ticksTo x) (by rw [Foreseen, h])
  | some j => decidable_of_iff
      (if 0 < (cmpEventIn K st.hw j).toInt then
        ∃ k ∈ K.channels, inCompareMode K st k ∧ 0 < (cmpEventIn K st.hw k).toInt ∧
          (cmpEventIn K st.hw k).toNat ≤ ticksTo x
      else (cmpEventIn K st.hw j).toNat ≤ ticksTo x) (by rw [Foreseen, h])

theorem toInt_of_pos {x : BitVec w} (h : 0 < x.toInt) : x.toInt = x.toNat := by
  have hx := x.isLt
  rw [BitVec.toInt_eq_toNat_cond] at h ⊢
  split at h
  · next hlt => rw [if_pos hlt]
  · omega

theorem ne_zero_of_pos {x : BitVec w} (h : 0 < x.toInt) : x ≠ 0 := toInt_ne_zero.mp (by omega)

/-- The countdown that `get_next_cc_event` computes ends in time for what the schedule foresees. -/
theorem ticksTo_nextEvent_le (hw : 0 < w) (hfirst : K.channels.Pairwise fun i k => K.first k → K.first i)
    {x : BitVec w} (h : Foreseen K st x) : ticksTo (nextEvent K st) ≤ ticksTo x := by
  have hscan := scanFrom_lead st hw hfirst
  rw [Foreseen, lead] at h
  rw [nextEvent]
  cases hfind : K.channels.find? (leads K st) with
  | none =>
    rw [hfind] at h hscan
    dsimp only at h hscan
    have hne : (-1 : BitVec w) ≠ 0 := toInt_ne_zero.mp (by rw [toInt_neg_one hw]; decide)
    rw [hscan, ticksTo_of_ne hne, toNat_neg_one]
    exact h
  | some j =>
    rw [hfind] at h hscan
    dsimp only at h hscan
    obtain ⟨l', -, hl', hmem⟩ := hscan
    rw [hl']
    obtain ⟨-, -, hne, hne'⟩ := leads_iff.mp (List.find?_some hfind)
    by_cases hpos : 0 < (cmpEventIn K st.hw j).toInt
    · rw [if_pos hpos] at h
      obtain ⟨k, hk, hmode, hd, hle⟩ := h
      obtain ⟨hpos', hle', hmin⟩ := scanFrom_pos K st hpos l'
      have hmin' : (scanFrom K st l' (cmpEventIn K st.hw j)).toInt ≤ (cmpEventIn K st.hw k).toInt := by
        rcases hmem k hk hmode hd with rfl | hk
        · exact hle'
        · exact hmin k hk hmode hd
      rw [toInt_of_pos hpos', toInt_of_pos hd] at hmin'
      rw [ticksTo_of_ne (ne_zero_of_pos hpos')]
      omega
    · rw [if_neg hpos] at h
      have hlt : (cmpEventIn K st.hw j).toInt < -1 := by
        have hzero := toInt_ne_zero.mpr hne
        have hneg : (cmpEventIn K st.hw j).toInt ≠ -1 := by
          rw [← toInt_neg_one hw, ne_eq, BitVec.toInt_inj]
          exact hne'
        omega
      rw [scanFrom_neg hlt, ticksTo_of_ne hne]
      exact h

/-! ## What the schedule is for -/

/-- Does the count go down? -/
def backwards (K : Wiring w) (t : CcTimer w) : Bool := K.countMode t = .upDown ∧ t.up_down

/-- How far the count is from a value, in the direction in which it goes. -/
def distance (K : Wiring w) (t : CcTimer w) (v : BitVec w) : BitVec w :=
  if backwards K t then t.count - v else v - t.count

/-- The count takes the value before it starts again at zero or turns, or as it turns. -/
def BeforeTurn (K : Wiring w) (t : CcTimer w) (v : BitVec w) : Prop :=
  match K.countMode t with
  | .freeRunning => True
  | .modulo => t.count ≠ t.ValRegCMP 0 ∧ ticksTo (v - t.count) ≤ ticksTo (t.ValRegCMP 0 - t.count) ∧
      ticksTo (v - t.count) < ticksTo (0 - t.count)
  | .upDown => ticksTo (distance K t v) ≤ ticksTo (distance K t (if t.up_down then 0 else t.ValRegCMP 0))
  | .stop | .down => False

instance (K : Wiring w) (t : CcTimer w) (v : BitVec w) : Decidable (BeforeTurn K t v) :=
  match h : K.countMode t with
  | .freeRunning => isTrue (by rw [BeforeTurn, h]; trivial)
  | .modulo => decidable_of_iff
      (t.count ≠ t.ValRegCMP 0 ∧ ticksTo (v - t.count) ≤ ticksTo (t.ValRegCMP 0 - t.count) ∧
        ticksTo (v - t.count) < ticksTo (0 - t.count)) (by rw [BeforeTurn, h])
  | .upDown => decidable_of_iff
      (ticksTo (distance K t v) ≤ ticksTo (distance K t (if t.up_down then 0 else t.ValRegCMP 0)))
      (by rw [BeforeTurn, h])
  | .stop | .down => isFalse (by rw [BeforeTurn, h]; exact id)

/-- The countdown ends in time for every channel in compare mode. -/
def Covered (K : Wiring w) (st : CcSt w) : Prop :=
  ∀ i ∈ K.channels, inCompareMode K st i → BeforeTurn K st.hw (st.hw.ValRegCMP i) →
    ticksTo st.hw.NextCmpEvent ≤ ticksTo (distance K st.hw (st.hw.ValRegCMP i))

/-- The condition where the schedule is computed: it foresees every channel in compare mode. -/
def Nearest (K : Wiring w) (st : CcSt w) : Prop :=
  ∀ i ∈ K.channels, inCompareMode K st i → BeforeTurn K st.hw (st.hw.ValRegCMP i) →
    Foreseen K st (distance K st.hw (st.hw.ValRegCMP i))

instance (K : Wiring w) (st : CcSt w) : Decidable (Nearest K st) :=
  inferInstanceAs (Decidable (∀ i ∈ K.channels, inCompareMode K st i → BeforeTurn K st.hw (st.hw.ValRegCMP i) →
    Foreseen K st (distance K st.hw (st.hw.ValRegCMP i))))

/-- The schedule has just been computed. -/
def Scheduled (K : Wiring w) (st : CcSt w) : Prop := st.hw.NextCmpEvent = nextEvent K st

/-- The output mode of a channel: 3 to 6 change the output when the count becomes zero. -/
def changesAtZero (K : Wiring w) (st : CcSt w) (i : Fin 5) : Bool :=
  3 ≤ (st.mem (K.regCTL i) &&& bmWTDonCMP) >>> 3 ∧ (st.mem (K.regCTL i) &&& bmWTDonCMP) >>> 3 ≤ 6

/-- The ticks at which `CaptureCompare` is to be called: the count is the compare value of a channel in
compare mode, or zero when the output of such a channel changes there. -/
def Needed (K : Wiring w) (st : CcSt w) : Prop :=
  ∃ i ∈ K.channels, inCompareMode K st i ∧
    (st.hw.count = st.hw.ValRegCMP i ∨ (st.hw.count = 0 ∧ changesAtZero K st i))

/-- A timer with its registers, and what its wiring fulfils. -/
structure CompareTimer (w : Nat) where
  wiring : Wiring w
  element : Element (CcTimer w)
  store : Fin 5 → CcSt w → CcSt w
  /-- The compare registers and the control register. -/
  registers : List Site
  width_pos : 0 < w
  first_channels : wiring.channels.Pairwise fun i k => wiring.first k → wiring.first i
  down_congr : ∀ i t t', t.mode = t'.mode → t.up_down = t'.up_down → wiring.down i t = wiring.down i t'
  countMode_congr : ∀ t t', t.mode = t'.mode → t.TR = t'.TR → wiring.countMode t = wiring.countMode t'
  ctl_apart : ∀ i ∈ wiring.channels,
    wiring.regCTL i ∉ .sfr Reg.IRCON :: wiring.cell_OvfFlagReg :: wiring.cell_tl :: wiring.cell_th.toList
  ctl_injective : ∀ i ∈ wiring.channels, ∀ k ∈ wiring.channels, wiring.regCTL i = wiring.regCTL k → i = k
  ctl_unregistered : ∀ i ∈ wiring.channels, element.operators (wiring.regCTL i) = 0
  scheduled_write : ∀ c ∈ registers, ∀ v st, Scheduled wiring (element.writeReg c v st)

/-- What the schedule looks at is the same. -/
structure SameView (K : Wiring w) (st st' : CcSt w) : Prop where
  compareMode : ∀ i ∈ K.channels, inCompareMode K st' i = inCompareMode K st i
  count : st'.hw.count = st.hw.count
  ValRegCMP : st'.hw.ValRegCMP = st.hw.ValRegCMP
  mode : st'.hw.mode = st.hw.mode
  TR : st'.hw.TR = st.hw.TR
  up_down : st'.hw.up_down = st.hw.up_down

namespace SameView

variable {T : CompareTimer w} {st st' : CcSt w} (h : SameView T.wiring st st')

include h

theorem down (i : Fin 5) : T.wiring.down i st'.hw = T.wiring.down i st.hw :=
  T.down_congr i _ _ h.mode h.up_down

theorem countMode : T.wiring.countMode st'.hw = T.wiring.countMode st.hw :=
  T.countMode_congr _ _ h.mode h.TR

theorem nextEvent_eq : nextEvent T.wiring st' = nextEvent T.wiring st :=
  nextEvent_congr h.compareMode h.count h.ValRegCMP h.down

theorem distance_eq (v : BitVec w) : distance T.wiring st'.hw v = distance T.wiring st.hw v := by
  rw [distance, distance, backwards, backwards, h.countMode, h.up_down, h.count]

theorem beforeTurn_iff (v : BitVec w) : BeforeTurn T.wiring st'.hw v ↔ BeforeTurn T.wiring st.hw v := by
  rw [BeforeTurn, BeforeTurn, h.countMode, h.count, h.ValRegCMP, h.up_down, h.distance_eq, h.distance_eq]

theorem covered (hN : st'.hw.NextCmpEvent = st.hw.NextCmpEvent) (hc : Covered T.wiring st) :
    Covered T.wiring st' := by
  intro i hi hmode hturn
  rw [h.compareMode i hi] at hmode
  rw [h.ValRegCMP, h.beforeTurn_iff] at hturn
  rw [hN, h.ValRegCMP, h.distance_eq]
  exact hc i hi hmode hturn

end SameView

/-- A schedule that has just been computed covers what it foresees. -/
theorem covered_of_nearest {T : CompareTimer w} {st : CcSt w} (h : Scheduled T.wiring st)
    (hn : Nearest T.wiring st) : Covered T.wiring st := by
  intro i hi hmode hturn
  rw [h]
  exact ticksTo_nextEvent_le T.width_pos T.first_channels (hn i hi hmode hturn)

/-! ## One tick -/

/-- The tick ends a period of the modulo mode: the count is at the period, or wraps around above it. -/
def Wraps (K : Wiring w) (t : CcTimer w) : Prop :=
  K.countMode t = .modulo ∧ (t.count = t.ValRegCMP 0 ∨ t.count + 1 = 0)

/-- The tick takes the count of the up/down mode to where it turns. -/
def Turns (K : Wiring w) (t : CcTimer w) : Prop :=
  K.countMode t = .upDown ∧ if t.up_down then t.count - 1 = 0 else t.count + 1 = t.ValRegCMP 0

instance (K : Wiring w) (t : CcTimer w) : Decidable (Wraps K t) := inferInstanceAs (Decidable (_ ∧ _))

instance (K : Wiring w) (t : CcTimer w) : Decidable (Turns K t) := inferInstanceAs (Decidable (_ ∧ _))

/-- The modes in which the schedule is used. -/
def Scheduling (K : Wiring w) (t : CcTimer w) : Prop :=
  K.countMode t = .freeRunning ∨ K.countMode t = .modulo ∨ K.countMode t = .upDown

theorem overflowFlags_mem {c : Site} (h : c ≠ .sfr Reg.IRCON) (h' : c ≠ K.cell_OvfFlagReg)
    (mem : Site → TMem) : overflowFlags K mem c = mem c := by
  rw [overflowFlags]
  split
  · dsimp only
    rw [Function.update_of_ne h, Function.update_of_ne h']
  · rfl

theorem refreshSfr_hw (st : CcSt w) : (refreshSfr K st).hw = st.hw := by
  rw [refreshSfr]
  cases K.cell_th <;> rfl

theorem refreshSfr_mem {c : Site} (h : c ∉ K.cell_tl :: K.cell_th.toList) (st : CcSt w) :
    (refreshSfr K st).mem c = st.mem c := by
  rw [List.mem_cons, not_or] at h
  rw [refreshSfr]
  cases hth : K.cell_th with
  | none => exact Function.update_of_ne h.1 _ _
  | some th =>
    rw [hth] at h
    have hne : c ≠ th := fun h' => h.2 (by rw [h']; exact List.mem_singleton.mpr rfl)
    dsimp only
    rw [Function.update_of_ne hne, Function.update_of_ne h.1]

section Tick

variable {T : CompareTimer w} {st st₁ : CcSt w}

theorem refreshSfr_ctl {i : Fin 5} (hi : i ∈ T.wiring.channels) (st : CcSt w) :
    (refreshSfr T.wiring st).mem (T.wiring.regCTL i) = st.mem (T.wiring.regCTL i) := by
  have h := T.ctl_apart i hi
  rw [List.mem_cons, not_or, List.mem_cons, not_or] at h
  exact refreshSfr_mem h.2.2 st

theorem overflowFlags_ctl {i : Fin 5} (hi : i ∈ T.wiring.channels) (mem : Site → TMem) :
    overflowFlags T.wiring mem (T.wiring.regCTL i) = mem (T.wiring.regCTL i) := by
  have h := T.ctl_apart i hi
  rw [List.mem_cons, not_or, List.mem_cons, not_or] at h
  exact overflowFlags_mem h.1 h.2.1 mem

/-- The control registers after the count of a tick. -/
theorem countTick_ctl {i : Fin 5} (hi : i ∈ T.wiring.channels) (st : CcSt w) :
    (countTick T.wiring st).mem (T.wiring.regCTL i) = st.mem (T.wiring.regCTL i) := by
  rw [countTick]
  split
  · rw [freeRunningCount]
    dsimp only
    rw [refreshSfr_ctl hi]
    dsimp only
    split
    · exact overflowFlags_ctl hi _
    · rfl
  · rw [moduloCount]
    dsimp only
    split <;> split <;> rw [refreshSfr_ctl hi]
    · exact overflowFlags_ctl hi _
    · exact overflowFlags_ctl hi _
  · rw [upDownCount]
    dsimp only
    split
    · rw [refreshSfr_ctl hi]
      dsimp only
      split
      · exact overflowFlags_ctl hi _
      · rfl
    · split
      · rw [refreshSfr_ctl hi]
        exact overflowFlags_ctl hi _
      · rw [refreshSfr_ctl hi]
  · rfl
  · rfl

theorem countTick_compareMode {i : Fin 5} (hi : i ∈ T.wiring.channels) (st : CcSt w) :
    inCompareMode T.wiring (countTick T.wiring st) i = inCompareMode T.wiring st i := by
  rw [inCompareMode, inCompareMode, countTick_ctl hi]

/-- The count has advanced by one, and the countdown with it. -/
structure Advances (T : CompareTimer w) (st st₁ : CcSt w) : Prop where
  NextCmpEvent : st₁.hw.NextCmpEvent = st.hw.NextCmpEvent - 1
  ValRegCMP : st₁.hw.ValRegCMP = st.hw.ValRegCMP
  meets : ∀ v, st₁.hw.count = v → distance T.wiring st.hw v = 1 ∧ BeforeTurn T.wiring st.hw v

/-- The count has not turned. -/
structure Continues (T : CompareTimer w) (st st₁ : CcSt w) : Prop where
  distance : ∀ v, distance T.wiring st₁.hw v = distance T.wiring st.hw v - 1
  beforeTurn : ∀ v, CcTimer.distance T.wiring st.hw v ≠ 1 → BeforeTurn T.wiring st₁.hw v →
    BeforeTurn T.wiring st.hw v

/-- A covered channel is met when the countdown ends. -/
theorem Advances.due (h : Advances T st st₁) (hc : Covered T.wiring st) {i : Fin 5}
    (hi : i ∈ T.wiring.channels) (hmode : inCompareMode T.wiring st i)
    (hcount : st₁.hw.count = st.hw.ValRegCMP i) : due st₁ := by
  obtain ⟨hdist, hturn⟩ := h.meets _ hcount
  have hle := hc i hi hmode hturn
  rw [hdist, (ticksTo_eq_one T.width_pos).mpr rfl] at hle
  have hone : st.hw.NextCmpEvent = 1 :=
    (ticksTo_eq_one T.width_pos).mp (Nat.le_antisymm hle (one_le_ticksTo _))
  rw [CcTimer.due, h.NextCmpEvent, hone, BitVec.sub_self]
  exact decide_eq_true (Or.inl rfl)

/-- A countdown that has not ended still covers the channels. -/
theorem Advances.covered (h : Advances T st st₁) (h' : Continues T st st₁) (hc : Covered T.wiring st)
    (hmodes : ∀ i ∈ T.wiring.channels, inCompareMode T.wiring st₁ i = inCompareMode T.wiring st i)
    (hdue : st.hw.NextCmpEvent ≠ 1) : Covered T.wiring st₁ := by
  intro i hi hmode hturn
  rw [hmodes i hi] at hmode
  rw [h.ValRegCMP] at hturn ⊢
  rw [h.NextCmpEvent, h'.distance]
  have hN := ticksTo_sub_one T.width_pos hdue
  by_cases hdist : distance T.wiring st.hw (st.hw.ValRegCMP i) = 1
  · -- The value has just been met: the count is a whole round away from it.
    rw [hdist, BitVec.sub_self]
    exact ticksTo_le _
  · have hle := hc i hi hmode (h'.beforeTurn _ hdist hturn)
    have hx := ticksTo_sub_one T.width_pos hdist
    omega

/-! ### The modes -/

theorem distance_of_ne_upDown {t : CcTimer w} (h : K.countMode t ≠ .upDown) (v : BitVec w) :
    distance K t v = v - t.count := by
  rw [distance, backwards, if_neg]
  simp [h]

theorem freeRunning_hw (h : K.countMode st.hw = .freeRunning) :
    (countTick K st).hw
      = { st.hw with NextCmpEvent := st.hw.NextCmpEvent - 1, count := st.hw.count + 1 } := by
  rw [countTick, h]
  dsimp only
  rw [freeRunningCount, refreshSfr_hw]

theorem modulo_hw (h : K.countMode st.hw = .modulo) (hw : ¬ Wraps K st.hw) :
    (countTick K st).hw
      = { st.hw with NextCmpEvent := st.hw.NextCmpEvent - 1, count := st.hw.count + 1 } := by
  have hnot : ¬ st.hw.count = st.hw.ValRegCMP 0 ∧ ¬ st.hw.count + 1 = 0 := by
    rw [← not_or]
    exact fun h' => hw ⟨h, h'⟩
  rw [countTick, h]
  dsimp only
  rw [moduloCount]
  dsimp only
  rw [if_neg hnot.1]
  dsimp only
  rw [if_neg hnot.2, refreshSfr_hw]

/-- At the end of a period the schedule is computed for a count of zero. -/
theorem wraps_spec (h : Wraps T.wiring st.hw) :
    (countTick T.wiring st).hw.count = 0 ∧ Scheduled T.wiring (countTick T.wiring st) := by
  obtain ⟨hmode, hcount⟩ := h
  obtain ⟨t, ht, hwrap⟩ : ∃ t : CcTimer w, t.count = 0 ∧ countTick T.wiring st = refreshSfr T.wiring
      (getNextCcEvent T.wiring { mem := overflowFlags T.wiring st.mem, hw := t }) := by
    rw [countTick, hmode]
    dsimp only
    rw [moduloCount]
    dsimp only
    by_cases hper : st.hw.count = st.hw.ValRegCMP 0
    · rw [if_pos hper]
      exact ⟨_, rfl, if_pos rfl⟩
    · rw [if_neg hper]
      have hzero := hcount.resolve_left hper
      exact ⟨_, hzero, if_pos hzero⟩
  rw [hwrap, Scheduled, refreshSfr_hw]
  refine ⟨ht, ?_⟩
  have hview : SameView T.wiring { mem := overflowFlags T.wiring st.mem, hw := t }
      (refreshSfr T.wiring (getNextCcEvent T.wiring { mem := overflowFlags T.wiring st.mem, hw := t })) := by
    refine ⟨fun i hi => ?_, ?_, ?_, ?_, ?_, ?_⟩
    · rw [inCompareMode, refreshSfr_ctl hi]
      rfl
    all_goals rw [refreshSfr_hw]; rfl
  rw [hview.nextEvent_eq]
  rfl

/-- The count of a mode that counts up. -/
theorem advances_of_up (hmode : T.wiring.countMode st.hw = .freeRunning ∨
      (T.wiring.countMode st.hw = .modulo ∧ ¬ Wraps T.wiring st.hw))
    (hhw : (countTick T.wiring st).hw
      = { st.hw with NextCmpEvent := st.hw.NextCmpEvent - 1, count := st.hw.count + 1 }) :
    Advances T st (countTick T.wiring st) ∧ Continues T st (countTick T.wiring st) := by
  have hne : T.wiring.countMode st.hw ≠ .upDown := by
    rcases hmode with h | ⟨h, -⟩ <;> rw [h] <;> decide
  have hsame : T.wiring.countMode (countTick T.wiring st).hw = T.wiring.countMode st.hw := by
    rw [hhw]
    exact T.countMode_congr _ _ rfl rfl
  have hdist : ∀ v, distance T.wiring (countTick T.wiring st).hw v = distance T.wiring st.hw v - 1 := by
    intro v
    rw [distance_of_ne_upDown (by rw [hsame]; exact hne), distance_of_ne_upDown hne, hhw, sub_add_eq_sub_sub]
  refine ⟨⟨by rw [hhw], by rw [hhw], fun v hv => ?_⟩, ⟨hdist, fun v hv hturn => ?_⟩⟩
  · have hone : v - st.hw.count = 1 := by
      rw [← hv, hhw]
      exact add_sub_cancel_left _ _
    refine ⟨by rw [distance_of_ne_upDown hne, hone], ?_⟩
    rcases hmode with h | ⟨h, hwraps⟩
    · rw [BeforeTurn, h]
      trivial
    · have hzero : 0 - st.hw.count ≠ 1 := fun h' => hwraps ⟨h, Or.inr (by rw [add_comm, ← h', sub_add_cancel])⟩
      have hper : st.hw.count ≠ st.hw.ValRegCMP 0 := fun h' => hwraps ⟨h, Or.inl h'⟩
      have hlt := one_le_ticksTo (0 - st.hw.count)
      have hne := mt (ticksTo_eq_one T.width_pos).mp hzero
      rw [BeforeTurn, h]
      dsimp only
      rw [hone, (ticksTo_eq_one T.width_pos).mpr rfl]
      exact ⟨hper, one_le_ticksTo _, by omega⟩
  · rw [BeforeTurn, hsame] at hturn
    rw [distance_of_ne_upDown hne] at hv
    rcases hmode with h | ⟨h, hwraps⟩
    · rw [BeforeTurn, h]
      trivial
    · rw [h, hhw] at hturn
      dsimp only at hturn
      obtain ⟨hper', hle, hlt⟩ := hturn
      have hzero : 0 - st.hw.count ≠ 1 := fun h' => hwraps ⟨h, Or.inr (by rw [add_comm, ← h', sub_add_cancel])⟩
      have hper : st.hw.count ≠ st.hw.ValRegCMP 0 := fun h' => hwraps ⟨h, Or.inl h'⟩
      have hone : st.hw.ValRegCMP 0 - st.hw.count ≠ 1 := by
        intro h'
        exact hper' (by rw [add_comm, ← h', sub_add_cancel])
      simp only [sub_add_eq_sub_sub] at hle hlt
      have hx := ticksTo_sub_one T.width_pos hv
      have hx' := ticksTo_sub_one T.width_pos hzero
      have hx'' := ticksTo_sub_one T.width_pos hone
      rw [BeforeTurn, h]
      exact ⟨hper, by omega, by omega⟩

/-! ### The up/down mode -/

theorem upDown_hw (h : K.countMode st.hw = .upDown) :
    (countTick K st).hw
      = { st.hw with
          NextCmpEvent := st.hw.NextCmpEvent - 1,
          count := if st.hw.up_down then st.hw.count - 1 else st.hw.count + 1,
          up_down := if Turns K st.hw then !st.hw.up_down else st.hw.up_down,
          up_down_changed := Turns K st.hw } := by
  rw [countTick, h]
  dsimp only
  rw [upDownCount]
  dsimp only
  cases hud : st.hw.up_down with
  | false =>
    have hturns : Turns K st.hw ↔ st.hw.count + 1 = st.hw.ValRegCMP 0 := by
      rw [Turns, hud]
      exact and_iff_right h
    simp only [hturns]
    rw [Bool.not_false, if_pos rfl, refreshSfr_hw]
    dsimp only
    split
    · next hp => simpa using hp
    · next hp => simpa using hp
  | true =>
    have hturns : Turns K st.hw ↔ st.hw.count - 1 = 0 := by
      rw [Turns, hud]
      exact and_iff_right h
    simp only [hturns]
    rw [Bool.not_true, if_neg Bool.false_ne_true]
    split
    · next hp =>
      rw [refreshSfr_hw]
      simpa using hp
    · next hp =>
      rw [refreshSfr_hw]
      simpa using hp

theorem backwards_upDown {t : CcTimer w} (h : K.countMode t = .upDown) : backwards K t = t.up_down := by
  rw [backwards, h]
  simp

/-- In the up/down mode the distances are those to where the count turns, or nearer. -/
theorem advances_of_upDown (h : T.wiring.countMode st.hw = .upDown) :
    Advances T st (countTick T.wiring st) := by
  have hhw := upDown_hw h
  refine ⟨by rw [hhw], by rw [hhw], fun v hv => ?_⟩
  have hone : distance T.wiring st.hw v = 1 := by
    rw [distance, backwards_upDown h, ← hv, hhw]
    cases st.hw.up_down with
    | false => exact add_sub_cancel_left _ _
    | true => exact sub_sub_cancel _ _
  refine ⟨hone, ?_⟩
  rw [BeforeTurn, h]
  dsimp only
  rw [hone, (ticksTo_eq_one T.width_pos).mpr rfl]
  exact one_le_ticksTo _

theorem continues_of_upDown (h : T.wiring.countMode st.hw = .upDown) (hturns : ¬ Turns T.wiring st.hw) :
    Continues T st (countTick T.wiring st) := by
  have hhw := upDown_hw h
  rw [if_neg hturns] at hhw
  have hsame : T.wiring.countMode (countTick T.wiring st).hw = .upDown := by
    rw [hhw, ← h]
    exact T.countMode_congr _ _ rfl rfl
  have hup : (countTick T.wiring st).hw.up_down = st.hw.up_down := by rw [hhw]
  have hdist : ∀ v, distance T.wiring (countTick T.wiring st).hw v = distance T.wiring st.hw v - 1 := by
    intro v
    rw [distance, distance, backwards_upDown hsame, backwards_upDown h, hup, hhw]
    cases st.hw.up_down with
    | false => exact sub_add_eq_sub_sub _ _ _
    | true => exact sub_right_comm _ _ _
  refine ⟨hdist, fun v hv hturn => ?_⟩
  have hend : distance T.wiring st.hw (if st.hw.up_down then 0 else st.hw.ValRegCMP 0) ≠ 1 := by
    intro h'
    refine hturns ⟨h, ?_⟩
    rw [distance, backwards_upDown h] at h'
    cases hud : st.hw.up_down with
    | false =>
      rw [hud] at h'
      exact (add_comm _ _).trans ((sub_eq_iff_eq_add.mp h').symm)
    | true =>
      rw [hud] at h'
      rw [if_pos rfl, ← h']
      exact (congrArg (st.hw.count - ·) (sub_zero _)).trans (sub_self _)
  rw [BeforeTurn, hsame] at hturn
  dsimp only at hturn
  rw [hdist, hdist, hup, hhw] at hturn
  have hx := ticksTo_sub_one T.width_pos hv
  have hx' := ticksTo_sub_one T.width_pos hend
  rw [BeforeTurn, h]
  dsimp only at hturn ⊢
  omega

/-- Counting advances the countdown unless a period ends. -/
theorem advances (h : Scheduling T.wiring st.hw) (hwraps : ¬ Wraps T.wiring st.hw) :
    Advances T st (countTick T.wiring st) := by
  rcases h with h | h | h
  · exact (advances_of_up (Or.inl h) (freeRunning_hw h)).1
  · exact (advances_of_up (Or.inr ⟨h, hwraps⟩) (modulo_hw h hwraps)).1
  · exact advances_of_upDown h

theorem continues (h : Scheduling T.wiring st.hw) (hwraps : ¬ Wraps T.wiring st.hw)
    (hturns : ¬ Turns T.wiring st.hw) : Continues T st (countTick T.wiring st) := by
  rcases h with h | h | h
  · exact (advances_of_up (Or.inl h) (freeRunning_hw h)).2
  · exact (advances_of_up (Or.inr ⟨h, hwraps⟩) (modulo_hw h hwraps)).2
  · exact continues_of_upDown h hturns

/-! ### The whole tick -/

/-- Is the schedule computed at a tick? -/
def Computes (K : Wiring w) (st : CcSt w) : Prop :=
  Wraps K st.hw ∨ Turns K st.hw ∨ due (countTick K st)

/-- The condition on a tick: no event falls on the end of a period of the modulo mode; where the output
of a channel changes at zero, some channel has the compare value zero; and where the schedule is
computed, it foresees the channels. -/
structure TickCond (T : CompareTimer w) (st : CcSt w) : Prop where
  wraps : Wraps T.wiring st.hw → ¬ Needed T.wiring (countTick T.wiring st)
  zero : (countTick T.wiring st).hw.count = 0 → (∃ i ∈ T.wiring.channels,
      inCompareMode T.wiring st i ∧ changesAtZero T.wiring st i) →
    Wraps T.wiring st.hw ∨ ∃ i ∈ T.wiring.channels, inCompareMode T.wiring st i ∧ st.hw.ValRegCMP i = 0
  nearest : Computes T.wiring st → Nearest T.wiring (tick T.wiring T.store st)

theorem scheduled_getNextCcEvent (st : CcSt w) : Scheduled T.wiring (getNextCcEvent T.wiring st) := by
  have hview : SameView T.wiring st (getNextCcEvent T.wiring st) :=
    ⟨fun _ _ => rfl, rfl, rfl, rfl, rfl, rfl⟩
  rw [Scheduled, hview.nextEvent_eq]
  rfl

/-- The end of a tick forgets the pin event. -/
theorem scheduled_clear {st : CcSt w} (h : Scheduled T.wiring st) :
    Scheduled T.wiring { st with hw := { st.hw with PinEvent := false } } := by
  have hview : SameView T.wiring st { st with hw := { st.hw with PinEvent := false } } :=
    ⟨fun _ _ => rfl, rfl, rfl, rfl, rfl, rfl⟩
  rw [Scheduled, hview.nextEvent_eq]
  exact h

theorem covered_clear {st : CcSt w} (h : Covered T.wiring st) :
    Covered T.wiring { st with hw := { st.hw with PinEvent := false } } := by
  have hview : SameView T.wiring st { st with hw := { st.hw with PinEvent := false } } :=
    ⟨fun _ _ => rfl, rfl, rfl, rfl, rfl, rfl⟩
  exact hview.covered rfl h

theorem scheduled_checkEvent {st : CcSt w} (h : due st ∨ Scheduled T.wiring st) :
    Scheduled T.wiring (checkEvent T.wiring T.store st) := by
  apply scheduled_clear
  by_cases hdue : due st
  · rw [if_pos hdue]
    exact scheduled_getNextCcEvent _
  · rw [if_neg hdue]
    exact h.resolve_left hdue

theorem scheduled_checkTurn {st : CcSt w} (h : due st ∨ st.hw.up_down_changed) :
    Scheduled T.wiring (checkTurn T.wiring T.store st) := by
  apply scheduled_clear
  by_cases hdue : due st
  · rw [if_pos hdue]
    split
    · exact scheduled_getNextCcEvent _
    · exact scheduled_getNextCcEvent _
  · rw [if_neg hdue, if_pos (h.resolve_left hdue)]
    exact scheduled_getNextCcEvent _

theorem tick_eq_checkEvent (h : K.countMode st.hw = .freeRunning ∨ K.countMode st.hw = .modulo)
    (store : Fin 5 → CcSt w → CcSt w) : tick K store st = checkEvent K store (countTick K st) := by
  rcases h with h | h <;> rw [tick, h]

theorem tick_eq_checkTurn (h : K.countMode st.hw = .upDown) (store : Fin 5 → CcSt w → CcSt w) :
    tick K store st = checkTurn K store (countTick K st) := by
  rw [tick, h]

theorem up_down_changed_iff (h : K.countMode st.hw = .upDown) :
    (countTick K st).hw.up_down_changed ↔ Turns K st.hw := by
  rw [upDown_hw h]
  exact decide_eq_true_iff

/-- After a tick at which the schedule is computed it is what `get_next_cc_event` makes of the state. -/
theorem scheduled_tick (h : Scheduling T.wiring st.hw) (hc : Computes T.wiring st) :
    Scheduled T.wiring (tick T.wiring T.store st) := by
  by_cases hmode : T.wiring.countMode st.hw = .upDown
  · rw [tick_eq_checkTurn hmode]
    apply scheduled_checkTurn
    rcases hc with hwraps | hturns | hdue
    · rw [hwraps.1] at hmode
      cases hmode
    · exact Or.inr ((up_down_changed_iff hmode).mpr hturns)
    · exact Or.inl hdue
  · rw [tick_eq_checkEvent (h.imp_right fun h => h.resolve_right hmode)]
    apply scheduled_checkEvent
    rcases hc with hwraps | hturns | hdue
    · exact Or.inr (wraps_spec hwraps).2
    · exact absurd hturns.1 hmode
    · exact Or.inl hdue

/-- A tick at which it is not computed only counts. -/
theorem tick_of_not_computes (h : Scheduling T.wiring st.hw) (hc : ¬ Computes T.wiring st) :
    tick T.wiring T.store st = { countTick T.wiring st with
      hw := { (countTick T.wiring st).hw with PinEvent := false } } := by
  rw [Computes, not_or, not_or] at hc
  obtain ⟨-, hturns, hdue⟩ := hc
  by_cases hmode : T.wiring.countMode st.hw = .upDown
  · rw [tick_eq_checkTurn hmode, checkTurn, if_neg hdue, if_neg (mt (up_down_changed_iff hmode).mp hturns)]
  · rw [tick_eq_checkEvent (h.imp_right fun h => h.resolve_right hmode), checkEvent, if_neg hdue]

/-- The tick calls `CaptureCompare` where it is needed, and the schedule covers the channels after it. -/
theorem covered_tick (h : Scheduling T.wiring st.hw) (hc : Covered T.wiring st) (hcond : TickCond T st) :
    (Needed T.wiring (countTick T.wiring st) → due (countTick T.wiring st)) ∧
      Covered T.wiring (tick T.wiring T.store st) := by
  constructor
  · rintro ⟨i, hi, hmode, hevent⟩
    by_cases hwraps : Wraps T.wiring st.hw
    · exact absurd ⟨i, hi, hmode, hevent⟩ (hcond.wraps hwraps)
    · have hadv := advances h hwraps
      rw [countTick_compareMode hi] at hmode
      rcases hevent with hcount | ⟨hzero, hchanges⟩
      · rw [hadv.ValRegCMP] at hcount
        exact hadv.due hc hi hmode hcount
      · rw [changesAtZero, countTick_ctl hi] at hchanges
        obtain ⟨k, hk, hkmode, hval⟩ := (hcond.zero hzero ⟨i, hi, hmode, hchanges⟩).resolve_left hwraps
        exact hadv.due hc hk hkmode (hzero.trans hval.symm)
  · by_cases hcomputes : Computes T.wiring st
    · exact covered_of_nearest (scheduled_tick h hcomputes) (hcond.nearest hcomputes)
    · rw [tick_of_not_computes h hcomputes]
      rw [Computes, not_or, not_or] at hcomputes
      obtain ⟨hwraps, hturns, hdue⟩ := hcomputes
      have hadv := advances h hwraps
      refine covered_clear (hadv.covered (continues h hwraps hturns) hc
        (fun i hi => countTick_compareMode hi st) fun hone => hdue ?_)
      rw [due, hadv.NextCmpEvent, hone, BitVec.sub_self]
      exact decide_eq_true (Or.inl rfl)

/-! ## Runs -/

/-- What happens to a timer: a tick, a write of a compare register or of the control register, and a
write of the control register of a channel. -/
inductive TimerStep
  | tick
  | write (c : Site) (v : TMem)
  | control (i : Fin 5) (v : TMem)

/-- The state after a step. -/
def step (T : CompareTimer w) (a : TimerStep) (st : CcSt w) : CcSt w :=
  match a with
  | .tick => tick T.wiring T.store st
  | .write c v => T.element.writeReg c v st
  | .control i v => T.element.writeReg (T.wiring.regCTL i) v st

/-- The registers are those of the timer, and there are no ticks in the down mode. -/
def Allowed (T : CompareTimer w) (a : TimerStep) (st : CcSt w) : Prop :=
  match a with
  | .tick => T.wiring.countMode st.hw ≠ .down
  | .write c _ => c ∈ T.registers
  | .control i _ => i ∈ T.wiring.channels

/-- The runs of a timer, from a state in which it is stopped. -/
def system (T : CompareTimer w) : System TimerStep (CcSt w) where
  init st := T.wiring.countMode st.hw = .stop
  step a st st' := Allowed T a st ∧ st' = step T a st

/-- The condition on a write of the control register of a channel: where it sets the compare bit, the
bit is set already, or a channel in compare mode comes no later. -/
def ControlCond (T : CompareTimer w) (i : Fin 5) (v : TMem) (st : CcSt w) : Prop :=
  v &&& bmCmpMode ≠ 0 → inCompareMode T.wiring st i ∨
    (BeforeTurn T.wiring st.hw (st.hw.ValRegCMP i) → ∃ k ∈ T.wiring.channels,
      inCompareMode T.wiring st k ∧ BeforeTurn T.wiring st.hw (st.hw.ValRegCMP k) ∧
        ticksTo (distance T.wiring st.hw (st.hw.ValRegCMP k))
          ≤ ticksTo (distance T.wiring st.hw (st.hw.ValRegCMP i)))

/-- The condition on a step. -/
def StepCond (T : CompareTimer w) (a : TimerStep) (st : CcSt w) : Prop :=
  match a with
  | .tick => Scheduling T.wiring st.hw → TickCond T st
  | .write c v => Nearest T.wiring (T.element.writeReg c v st)
  | .control i v => ControlCond T i v st

/-- A stopped timer has no events. -/
theorem covered_of_not_scheduling (h : ¬ Scheduling T.wiring st.hw) : Covered T.wiring st := by
  intro i hi hmode hturn
  rw [Scheduling, not_or, not_or] at h
  rw [BeforeTurn] at hturn
  cases hm : T.wiring.countMode st.hw with
  | freeRunning => exact absurd hm h.1
  | modulo => exact absurd hm h.2.1
  | upDown => exact absurd hm h.2.2
  | stop => rw [hm] at hturn; exact hturn.elim
  | down => rw [hm] at hturn; exact hturn.elim

theorem covered_control (hc : Covered T.wiring st) {i : Fin 5} (hi : i ∈ T.wiring.channels) {v : TMem}
    (hcond : ControlCond T i v st) : Covered T.wiring (T.element.writeReg (T.wiring.regCTL i) v st) := by
  have hwrite : T.element.writeReg (T.wiring.regCTL i) v st
      = { st with mem := Function.update st.mem (T.wiring.regCTL i) (v &&& 0xff) } := by
    rw [Element.writeReg, T.ctl_unregistered i hi]
    rfl
  rw [hwrite]
  intro k hk hmode hturn
  change BeforeTurn T.wiring st.hw (st.hw.ValRegCMP k) at hturn
  change ticksTo st.hw.NextCmpEvent ≤ ticksTo (distance T.wiring st.hw (st.hw.ValRegCMP k))
  rw [inCompareMode_iff] at hmode
  dsimp only at hmode
  by_cases hki : k = i
  · subst hki
    rw [Function.update_self, BitVec.and_assoc,
      show (0xff : TMem) &&& bmCmpMode = bmCmpMode by decide] at hmode
    rcases hcond hmode with hbefore | hshelter
    · exact hc k hk hbefore hturn
    · obtain ⟨j, hj, hjmode, hjturn, hle⟩ := hshelter hturn
      exact (hc j hj hjmode hjturn).trans hle
  · rw [Function.update_of_ne fun h => hki (T.ctl_injective k hk i hi h)] at hmode
    exact hc k hk (inCompareMode_iff.mpr hmode) hturn

/-- Every step that meets the condition leaves the channels covered. -/
theorem covered_step (hc : Covered T.wiring st) {a : TimerStep} (ha : Allowed T a st)
    (hcond : StepCond T a st) : Covered T.wiring (step T a st) := by
  cases a with
  | tick =>
    by_cases h : Scheduling T.wiring st.hw
    · exact (covered_tick h hc (hcond h)).2
    · have hstop : T.wiring.countMode st.hw = .stop := by
        rw [Scheduling, not_or, not_or] at h
        cases hm : T.wiring.countMode st.hw with
        | freeRunning => exact absurd hm h.1
        | modulo => exact absurd hm h.2.1
        | upDown => exact absurd hm h.2.2
        | stop => rfl
        | down => exact absurd hm ha
      rw [step, tick, hstop]
      exact hc
  | write c v => exact covered_of_nearest (T.scheduled_write c ha v st) hcond
  | control i v => exact covered_control hc ha hcond

theorem covered_reachable {st : CcSt w} (h : ((system T).guard (StepCond T)).Reachable st) :
    Covered T.wiring st := by
  refine System.Reachable.guard_invariant (fun st hst => ?_) (fun a st st' _ hc hcond hstep => ?_) h
  · apply covered_of_not_scheduling
    change T.wiring.countMode st.hw = .stop at hst
    rw [Scheduling, hst]
    decide
  · rw [hstep.2]
    exact covered_step hc hstep.1 hcond

end Tick

/-! ## The three timers -/

/-- A schedule that has just been computed, for a wiring whose directions depend on the mode. -/
theorem scheduled_of_down (hdown : ∀ i t t', t.mode = t'.mode → t.up_down = t'.up_down →
    K.down i t = K.down i t') (st : CcSt w) : Scheduled K (getNextCcEvent K st) := by
  have hnext : nextEvent K (getNextCcEvent K st) = nextEvent K st :=
    nextEvent_congr (fun _ _ => rfl) rfl rfl fun i => hdown i _ _ rfl rfl
  rw [Scheduled, hnext]
  rfl

/-- A write of a register that computes the schedule last. -/
theorem scheduled_writeReg {E : Element (CcTimer w)} {c : Site} (hops : E.operators c ≠ 0)
    (hc : ∀ i ∈ K.channels, K.regCTL i ≠ c) {v : TMem} (hwrite : ∀ st, Scheduled K (E.write c v st))
    (st : CcSt w) : Scheduled K (E.writeReg c v st) := by
  have hcalls : ∀ n st, Scheduled K (E.calls c v (n + 1) st) := by
    intro n
    induction n with
    | zero => exact hwrite
    | succ n ih => exact fun st => ih (E.write c v st)
  obtain ⟨n, hn⟩ := Nat.exists_eq_succ_of_ne_zero hops
  have hlast := hcalls n st
  have hnext : nextEvent K { mem := Function.update (E.calls c v (n + 1) st).mem c (v &&& 0xff),
                             hw := (E.calls c v (n + 1) st).hw } = nextEvent K (E.calls c v (n + 1) st) := by
    refine nextEvent_congr (fun i hi => ?_) rfl rfl fun _ => rfl
    rw [inCompareMode, inCompareMode]
    simp only [Function.update_of_ne (hc i hi)]
  rw [Element.writeReg, hn]
  exact hlast.trans hnext.symm

theorem timer1_down_congr (i : Fin 5) (t t' : CcTimer 16) (hmode : t.mode = t'.mode)
    (hud : t.up_down = t'.up_down) : Timer1.wiring.down i t = Timer1.wiring.down i t' := by
  change decide (_ ∧ t.mode = 3 ∧ t.up_down) = decide (_ ∧ t'.mode = 3 ∧ t'.up_down)
  rw [hmode, hud]

/-- The compare registers and the control register of timer 1. -/
def timer1Registers : List Site :=
  .sfr Reg.T1CTL :: Timer1.wiring.channels.flatMap fun i => [Timer1.regCMPL i, Timer1.regCMPH i]

/-- Timer 1. -/
def timer1 : CompareTimer 16 where
  wiring := Timer1.wiring
  element := Timer1.element
  store := Timer1.store
  registers := timer1Registers
  width_pos := by decide
  first_channels := by decide
  down_congr := timer1_down_congr
  countMode_congr t t' hmode _ := by
    change (if t.mode = 1 then _ else _) = if t'.mode = 1 then _ else _
    rw [hmode]
  ctl_apart := by decide
  ctl_injective := by decide
  ctl_unregistered := by decide
  scheduled_write c hc v st := by
    have hregs : ∀ c ∈ timer1Registers, Timer1.element.operators c ≠ 0 ∧
        ∀ i ∈ Timer1.wiring.channels, Timer1.wiring.regCTL i ≠ c := by decide
    exact scheduled_writeReg (hregs c hc).1 (hregs c hc).2
      (fun _ => scheduled_of_down timer1_down_congr _) st

section Char

variable {ctl cnt ctl0 ctl1 : Int} {ovf req : TMem} {decal : Nat} {cc0 cc1 : Int}

theorem char_down_congr (i : Fin 5) (t t' : CcTimer 8) (hmode : t.mode = t'.mode)
    (hud : t.up_down = t'.up_down) :
    (charWiring ctl cnt ctl0 ctl1 ovf req decal).down i t
      = (charWiring ctl cnt ctl0 ctl1 ovf req decal).down i t' := by
  change decide (t.mode = 1 ∨ t.mode = 3 ∧ t.up_down) = decide (t'.mode = 1 ∨ t'.mode = 3 ∧ t'.up_down)
  rw [hmode, hud]

theorem char_countMode_congr (t t' : CcTimer 8) (hmode : t.mode = t'.mode) (hTR : t.TR = t'.TR) :
    (charWiring ctl cnt ctl0 ctl1 ovf req decal).countMode t
      = (charWiring ctl cnt ctl0 ctl1 ovf req decal).countMode t' := by
  change (if t.TR ≠ 0 then if t.mode = 0 then _ else _ else _)
    = if t'.TR ≠ 0 then if t'.mode = 0 then _ else _ else _
  rw [hmode, hTR]

/-- The writes of timers 3 and 4 compute the schedule. -/
theorem scheduled_charWrite {c : Site}
    (hc : c = .sfr ctl ∧ c ≠ .sfr cc0 ∧ c ≠ .sfr cc1 ∨ c = .sfr cc0 ∨ c = .sfr cc1) (v : TMem)
    (st : CcSt 8) :
    Scheduled (charWiring ctl cnt ctl0 ctl1 ovf req decal)
      (charWrite (charWiring ctl cnt ctl0 ctl1 ovf req decal) cc0 cc1 c v st) := by
  rw [charWrite]
  dsimp only
  by_cases h0 : c = .sfr cc0
  · rw [if_pos h0]
    exact scheduled_of_down char_down_congr _
  · rw [if_neg h0]
    by_cases h1 : c = .sfr cc1
    · rw [if_pos h1]
      exact scheduled_of_down char_down_congr _
    · -- The control register sets the run bit after the schedule is computed.
      have hctl : c = (charWiring ctl cnt ctl0 ctl1 ovf req decal).cell_txctl :=
        (hc.resolve_right fun h => h.elim h0 h1).1
      have hscheduled := scheduled_of_down (K := charWiring ctl cnt ctl0 ctl1 ovf req decal)
        char_down_congr { st with hw := { st.hw with TR := 0, mode := modeOf v } }
      rw [if_neg h1, if_pos hctl, if_neg (clear_test v), baseWrite, if_pos hctl]
      exact hscheduled.trans (nextEvent_congr (fun _ _ => rfl) rfl rfl
        fun i => char_down_congr i _ _ rfl rfl).symm

end Char

/-- Timer 3. -/
def timer3 : CompareTimer 8 where
  wiring := Timer3.wiring
  element := Timer3.element
  store := Timer3.store
  registers := [.sfr Reg.T3CTL, .sfr Reg.T3CC0, .sfr Reg.T3CC1]
  width_pos := Nat.succ_pos 7
  first_channels := by decide
  down_congr := char_down_congr
  countMode_congr := char_countMode_congr
  ctl_apart := by decide
  ctl_injective := by decide
  ctl_unregistered := by decide
  scheduled_write c hc v st := by
    have hregs : ∀ c ∈ [Site.sfr Reg.T3CTL, .sfr Reg.T3CC0, .sfr Reg.T3CC1],
        Timer3.element.operators c ≠ 0 ∧ (∀ i ∈ Timer3.wiring.channels, Timer3.wiring.regCTL i ≠ c) ∧
          (c = .sfr Reg.T3CTL ∧ c ≠ .sfr Reg.T3CC0 ∧ c ≠ .sfr Reg.T3CC1 ∨
            c = .sfr Reg.T3CC0 ∨ c = .sfr Reg.T3CC1) := by decide
    obtain ⟨hops, hne, hcase⟩ := hregs c hc
    exact scheduled_writeReg hops hne (fun st => scheduled_charWrite hcase v st) st

/-- Timer 4. -/
def timer4 : CompareTimer 8 where
  wiring := Timer4.wiring
  element := Timer4.element
  store := Timer4.store
  registers := [.sfr Reg.T4CTL, .sfr Reg.T4CC0, .sfr Reg.T4CC1]
  width_pos := Nat.succ_pos 7
  first_channels := by decide
  down_congr := char_down_congr
  countMode_congr := char_countMode_congr
  ctl_apart := by decide
  ctl_injective := by decide
  ctl_unregistered := by decide
  scheduled_write c hc v st := by
    have hregs : ∀ c ∈ [Site.sfr Reg.T4CTL, .sfr Reg.T4CC0, .sfr Reg.T4CC1],
        Timer4.element.operators c ≠ 0 ∧ (∀ i ∈ Timer4.wiring.channels, Timer4.wiring.regCTL i ≠ c) ∧
          (c = .sfr Reg.T4CTL ∧ c ≠ .sfr Reg.T4CC0 ∧ c ≠ .sfr Reg.T4CC1 ∨
            c = .sfr Reg.T4CC0 ∨ c = .sfr Reg.T4CC1) := by decide
    obtain ⟨hops, hne, hcase⟩ := hregs c hc
    exact scheduled_writeReg hops hne (fun st => scheduled_charWrite hcase v st) st

/-- The timers with compare channels. -/
inductive TimerId
  | timer1 | timer3 | timer4
  deriving DecidableEq, Repr

namespace TimerId

/-- The width of the count. -/
def width : TimerId → Nat
  | .timer1 => 16
  | .timer3 | .timer4 => 8

/-- The timer of a name. -/
def timer : (id : TimerId) → CompareTimer id.width
  | .timer1 => CcTimer.timer1
  | .timer3 => CcTimer.timer3
  | .timer4 => CcTimer.timer4

end TimerId

/-- In every run of a timer whose steps meet the condition no tick at which `CaptureCompare` is needed
goes without it. -/
theorem captureCompare_called (id : TimerId) {st : CcSt id.width}
    (h : ((system id.timer).guard (StepCond id.timer)).Reachable st)
    (hmode : Scheduling id.timer.wiring st.hw) (hcond : TickCond id.timer st)
    (hneeded : Needed id.timer.wiring (countTick id.timer.wiring st)) :
    due (countTick id.timer.wiring st) :=
  (covered_tick hmode (covered_reachable h) hcond).1 hneeded

/-- A timer that is stopped, on an empty memory. -/
def stoppedSt (w : Nat) : CcSt w where
  mem _ := 0
  hw :=
    { count := 0, NextCmpEvent := 0, mode := 0, TR := 0, prescale := 1, up_down := false,
      up_down_changed := false, PinEvent := false, IOPin := fun _ => false,
      ExIOPin := fun _ => false, ValRegCMP := fun _ => 0, channelID := 0, high := false }

/-- Timer 3 runs free with channel 0 in compare mode at 1. -/
def comparingSt : CcSt 8 :=
  step timer3 (.write (.sfr Reg.T3CTL) 0x10)
    (step timer3 (.control 0 0x04) (step timer3 (.write (.sfr Reg.T3CC0) 1) (stoppedSt 8)))

theorem reachable_step {T : CompareTimer w} {st : CcSt w} (a : TimerStep)
    (h : ((system T).guard (StepCond T)).Reachable st) (ha : Allowed T a st) (hcond : StepCond T a st) :
    ((system T).guard (StepCond T)).Reachable (step T a st) :=
  System.Reachable.step h ⟨hcond, ha, rfl⟩

theorem reachable_allowed {T : CompareTimer w} {st : CcSt w} (a : TimerStep)
    (h : (system T).Reachable st) (ha : Allowed T a st) : (system T).Reachable (step T a st) :=
  System.Reachable.step h ⟨ha, rfl⟩

theorem comparingSt_reachable : ((system timer3).guard (StepCond timer3)).Reachable comparingSt := by
  have h0 : ((system timer3).guard (StepCond timer3)).Reachable (stoppedSt 8) :=
    System.Reachable.init (by decide : timer3.wiring.countMode (stoppedSt 8).hw = .stop)
  have h1 := reachable_step (.write (.sfr Reg.T3CC0) 1) h0
    (by decide : Site.sfr Reg.T3CC0 ∈ timer3.registers)
    (by decide : Nearest timer3.wiring (timer3.element.writeReg (.sfr Reg.T3CC0) 1 (stoppedSt 8)))
  -- The timer is stopped while the channel is put into compare mode.
  have hcontrol : ControlCond timer3 0 0x04 (step timer3 (.write (.sfr Reg.T3CC0) 1) (stoppedSt 8)) :=
    fun _ => Or.inr fun h => absurd h (by decide)
  have h2 := reachable_step (.control 0 0x04) h1
    (by decide : (0 : Fin 5) ∈ timer3.wiring.channels) hcontrol
  exact reachable_step (.write (.sfr Reg.T3CTL) 0x10) h2
    (by decide : Site.sfr Reg.T3CTL ∈ timer3.registers)
    (by decide : Nearest timer3.wiring (step timer3 (.write (.sfr Reg.T3CTL) 0x10)
      (step timer3 (.control 0 0x04) (step timer3 (.write (.sfr Reg.T3CC0) 1) (stoppedSt 8)))))

/-- The compare value is reached. -/
theorem captureCompare_called_timer3 : due (countTick timer3.wiring comparingSt) := by
  have hcond : TickCond timer3 comparingSt := by
    refine ⟨fun h => absurd h (by decide), fun h => absurd h (by decide), fun _ => ?_⟩
    exact (by decide : Nearest timer3.wiring (tick timer3.wiring timer3.store comparingSt))
  exact captureCompare_called .timer3 comparingSt_reachable (Or.inl (by decide)) hcond
    ⟨0, by decide, by decide, Or.inl (by decide)⟩

/-- Timer 3 runs free when channel 0 is put into compare mode: the control register of a channel is not
watched, and the tick that reaches the compare value goes by. -/
def lateSt : CcSt 8 :=
  step timer3 (.control 0 0x04)
    (step timer3 (.write (.sfr Reg.T3CTL) 0x10) (step timer3 (.write (.sfr Reg.T3CC0) 1) (stoppedSt 8)))

/-- A compare value is passed over. -/
theorem not_captureCompare_called :
    ¬ ∀ (id : TimerId) (st : CcSt id.width), (system id.timer).Reachable st →
      Scheduling id.timer.wiring st.hw → Needed id.timer.wiring (countTick id.timer.wiring st) →
        due (countTick id.timer.wiring st) := by
  intro h
  have h0 : (system timer3).Reachable (stoppedSt 8) :=
    System.Reachable.init (by decide : timer3.wiring.countMode (stoppedSt 8).hw = .stop)
  have h1 := reachable_allowed (.write (.sfr Reg.T3CC0) 1) h0
    (by decide : Site.sfr Reg.T3CC0 ∈ timer3.registers)
  have h2 := reachable_allowed (.write (.sfr Reg.T3CTL) 0x10) h1
    (by decide : Site.sfr Reg.T3CTL ∈ timer3.registers)
  have h3 : (system timer3).Reachable lateSt := reachable_allowed (.control 0 0x04) h2
    (by decide : (0 : Fin 5) ∈ timer3.wiring.channels)
  have hdue := h .timer3 lateSt h3 (Or.inl (by decide)) ⟨0, by decide, by decide, Or.inl (by decide)⟩
  revert hdue
  decide

end CcTimer

end Ucsim.S51
