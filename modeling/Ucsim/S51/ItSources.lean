import Mathlib.Data.List.Count
import Ucsim.Pobj.SortedList
import Ucsim.S51.Arbitration

/-!
# The list of interrupt sources

`it_sources` is a sorted list of type `cl_irqs`. The elements that `mk_hw_elements` adds to a controller put
their sources into it, most of them with the list's own search, and the PCA at a fixed place.
-/

namespace Ucsim.S51

/-! ## The list -/

namespace Irqs

/-- `cl_irqs::compare`. -/
def compare (k1 k2 : Int) : Int := if k1 = k2 then 0 else if k1 < k2 then -1 else 1

/-- `add`. The list allows duplicates. -/
def add (items : List ItSrc) (src : ItSrc) : List ItSrc :=
  SortedList.add items (fun i => compare ((items[i]?).elim 0 (·.pollPriority)) src.pollPriority) true src

/-- `add_at`. A place behind the end makes it move a block of negative size. -/
def addAt (index : Nat) (items : List ItSrc) (src : ItSrc) : Option (List ItSrc) :=
  if index ≤ items.length then some (items.insertIdx index src) else none

/-- The list is in the order of `poll_priority`. -/
def Sorted (items : List ItSrc) : Prop := items.Pairwise fun a b => a.pollPriority ≤ b.pollPriority

instance (items : List ItSrc) : Decidable (Sorted items) := inferInstanceAs (Decidable (items.Pairwise _))

end Irqs

/-- The elements that the `mk_hw_elements` of the controllers add. -/
inductive HwElement
  | timer0 | timer1 | CC2530timer1 | CC2530_MAC_timer | CC2530timer3 | CC2530timer4
  | CC2530usart0 | CC2530usart1 | CC2530DMA | CC2530flashctrler | CC2530radio
  | serial | port | interrupt | radio | dummy_hw | timer2 | wdt | pca | uc390_hw
  deriving DecidableEq, Repr

namespace HwElement

/-- A source whose bits are in TCON and whose enable bit is in IE. -/
def tconSource (ieMask srcMask : UChar) (addr : BitVec 16) (h : addr ≠ 0) (pollPriority : Int) : ItSrc :=
  { pollPriority := pollPriority, ieMask := ieMask, ieReg := 0xA8, srcReg := 0x88, srcMask := srcMask, addr := addr
    clrBit := true, active := true, addr_ne := h, srcReg_ne := tcon_ne }

/-- A source of one of the added timers, with its flag in IRCON. -/
def irconSource (ieMask srcMask : UChar) (addr : BitVec 16) (h : addr ≠ 0) : ItSrc :=
  { pollPriority := 4, ieMask := ieMask, ieReg := 0xAA, srcReg := 0xC0, srcMask := srcMask, addr := addr
    clrBit := true, active := true, addr_ne := h, srcReg_ne := by decide }

/-- The transmitter of a USART, with its flag in IRCON2. -/
def txSource (ieMask srcMask : UChar) (addr : BitVec 16) (h : addr ≠ 0) : ItSrc :=
  { pollPriority := 4, ieMask := ieMask, ieReg := 0x9A, srcReg := 0xE8, srcMask := srcMask, addr := addr
    clrBit := true, active := true, addr_ne := h, srcReg_ne := by decide }

/-- A source of the serial line. -/
def sconSource (srcMask : UChar) : ItSrc :=
  { pollPriority := 6, ieMask := 0x10, ieReg := 0xA8, srcReg := 0x98, srcMask := srcMask, addr := 0x23
    clrBit := false, active := true, addr_ne := by decide, srcReg_ne := by decide }

/-- A source of timer 2. -/
def t2conSource (srcMask : UChar) : ItSrc :=
  { pollPriority := 7, ieMask := 0x20, ieReg := 0xA8, srcReg := 0xC8, srcMask := srcMask, addr := 0x2B
    clrBit := false, active := true, addr_ne := by decide, srcReg_ne := by decide }

/-- A source of the PCA. -/
def cconSource (srcMask : UChar) : ItSrc :=
  { pollPriority := 5, ieMask := 0x40, ieReg := 0xA8, srcReg := 0xD8, srcMask := srcMask, addr := 0x33
    clrBit := false, active := true, addr_ne := by decide, srcReg_ne := by decide }

/-- The interrupt of the radio. -/
def rfSource : ItSrc :=
  { pollPriority := 4, ieMask := 0x01, ieReg := 0x9A, srcReg := 0x9B, srcMask := 0x03, addr := 0x83
    clrBit := true, active := true, addr_ne := by decide, srcReg_ne := by decide }

/-- The sources that `added_to_uc` of an element creates, in this order. -/
def sources : HwElement → List ItSrc
  | .timer0 => [tconSource 0x02 0x20 0x0B (by decide) 2]
  | .timer1 => [tconSource 0x08 0x80 0x1B (by decide) 4]
  | .CC2530timer1 => [irconSource 0x02 0x02 0x4B (by decide)]
  | .CC2530_MAC_timer => [irconSource 0x04 0x04 0x4B (by decide)]
  | .CC2530timer3 => [irconSource 0x08 0x08 0x5B (by decide)]
  | .CC2530timer4 => [irconSource 0x10 0x10 0x63 (by decide)]
  | .CC2530usart0 => [tconSource 0x04 0x08 0x13 external1_ne 4, txSource 0x04 0x02 0x3B (by decide)]
  | .CC2530usart1 => [tconSource 0x08 0x80 0x1B (by decide) 4, txSource 0x08 0x04 0x73 (by decide)]
  | .CC2530radio => [tconSource 0x01 0x02 0x03 external0_ne 4, rfSource]
  | .serial => [sconSource 0x02, sconSource 0x01]
  | .interrupt => [tconSource 0x01 0x02 0x03 external0_ne 1, tconSource 0x04 0x80 0x13 external1_ne 3]
  | .timer2 => [t2conSource 0x80, t2conSource 0x40]
  | .pca => [cconSource 0x10, cconSource 0x08, cconSource 0x04, cconSource 0x02, cconSource 0x01, cconSource 0x80]
  | .CC2530DMA | .CC2530flashctrler | .port | .radio | .dummy_hw | .wdt | .uc390_hw => []

/-- `added_to_uc`. The PCA puts each of its sources at the place 4. -/
def addedToUc (items : List ItSrc) (hw : HwElement) : Option (List ItSrc) :=
  if hw = .pca then hw.sources.foldlM (Irqs.addAt 4) items else some (hw.sources.foldl Irqs.add items)

/-- The list after some elements have been added. -/
def itSources (hws : List HwElement) : Option (List ItSrc) := hws.foldlM addedToUc []

end HwElement

/-- The classes of controllers. -/
inductive Controller
  | uc51 | uc52 | uc51r | uc89c51r | uc251 | uc390
  deriving DecidableEq, Repr

namespace Controller

/-- `cl_51core::mk_hw_elements`. -/
def core : List HwElement :=
  [.timer0, .timer1, .CC2530timer1, .CC2530_MAC_timer, .CC2530timer3, .CC2530timer4, .CC2530usart0, .CC2530usart1,
    .CC2530DMA, .CC2530flashctrler, .CC2530radio, .serial, .port, .port, .port, .port, .interrupt, .radio, .dummy_hw]

/-- `mk_hw_elements`. The class `cl_uc251` has that of `cl_uc89c51r`. -/
def mkHwElements : Controller → List HwElement
  | .uc51 => core
  | .uc52 => core ++ [.timer2]
  | .uc51r => core ++ [.timer2] ++ [.wdt, .dummy_hw]
  | .uc89c51r | .uc251 => core ++ [.timer2] ++ [.wdt, .pca, .dummy_hw]
  | .uc390 => core ++ [.timer2] ++ [.uc390_hw]

end Controller

/-! ## The order of the list -/

namespace Irqs

variable {items items' : List ItSrc} {src : ItSrc}

theorem compare_neg_iff (k1 k2 : Int) : compare k1 k2 < 0 ↔ k1 < k2 := by
  unfold compare
  split
  · omega
  · split <;> omega

theorem compare_pos_iff (k1 k2 : Int) : 0 < compare k1 k2 ↔ k2 < k1 := by
  unfold compare
  split
  · omega
  · split <;> omega

/-- An element that lies between two parts of a list in order. -/
theorem sorted_insert_iff (before after : List ItSrc) (src : ItSrc) :
    Sorted (before ++ src :: after) ↔ Sorted (before ++ after) ∧
      (∀ a ∈ before, a.pollPriority ≤ src.pollPriority) ∧ ∀ b ∈ after, src.pollPriority ≤ b.pollPriority := by
  unfold Sorted
  rw [List.pairwise_append, List.pairwise_cons, List.pairwise_append]
  constructor
  · rintro ⟨hbefore, ⟨hsrc, hafter⟩, hcross⟩
    exact ⟨⟨hbefore, hafter, fun a ha b hb => hcross a ha b (List.mem_cons_of_mem _ hb)⟩,
      fun a ha => hcross a ha src List.mem_cons_self, hsrc⟩
  · rintro ⟨⟨hbefore, hafter, hcross⟩, hlow, hhigh⟩
    refine ⟨hbefore, ⟨hhigh, hafter⟩, fun a ha b hb => ?_⟩
    rcases List.mem_cons.mp hb with rfl | hb
    · exact hlow a ha
    · exact hcross a ha b hb

/-- `add` keeps a list in order, and puts nothing else into it. -/
theorem add_sorted (h : Sorted items) (src : ItSrc) : Sorted (add items src) := by
  have hkey : ∀ i, (hi : i < items.length) → ((items[i]?).elim 0 (·.pollPriority)) = items[i].pollPriority := by
    intro i hi
    rw [List.getElem?_eq_getElem hi]
    rfl
  have hmono : ∀ i j, i ≤ j → j < items.length →
      ((items[i]?).elim 0 (·.pollPriority)) ≤ (items[j]?).elim 0 (·.pollPriority) := by
    intro i j hij hj
    rw [hkey j hj, hkey i (Nat.lt_of_le_of_lt hij hj)]
    rcases Nat.lt_or_eq_of_le hij with hlt | rfl
    · exact List.pairwise_iff_getElem.mp h i j _ hj hlt
    · exact Int.le_refl _
  have hcmp : SortedList.InOrder (fun i => compare ((items[i]?).elim 0 (·.pollPriority)) src.pollPriority)
      items.length := by
    constructor
    · intro i j hij hj
      rw [compare_neg_iff, compare_neg_iff]
      exact Int.lt_of_le_of_lt (hmono i j hij hj)
    · intro i j hij hj hpos
      rw [compare_pos_iff] at hpos ⊢
      exact Int.lt_of_lt_of_le hpos (hmono i j hij hj)
  obtain ⟨before, after, hsplit, hadd, hbelow, habove⟩ := SortedList.add_duplicates_first src hcmp
  rw [add, hadd, sorted_insert_iff]
  refine ⟨hsplit ▸ h, fun a ha => ?_, fun b hb => ?_⟩
  · obtain ⟨i, hi, rfl⟩ := List.getElem_of_mem ha
    have hlow := hbelow i hi
    rw [compare_neg_iff, hsplit, List.getElem?_append_left hi, List.getElem?_eq_getElem hi] at hlow
    exact Int.le_of_lt hlow
  · obtain ⟨i, hi, rfl⟩ := List.getElem_of_mem hb
    have hin : before.length + i < items.length := by
      rw [hsplit, List.length_append]
      omega
    have hhigh := habove (before.length + i) (Nat.le_add_right _ _) hin
    have hnot := mt (compare_neg_iff _ _).mpr (Int.not_lt.mpr hhigh)
    rw [hsplit, List.getElem?_append_right (Nat.le_add_right _ _), Nat.add_sub_cancel_left,
      List.getElem?_eq_getElem hi] at hnot
    exact Int.not_lt.mp hnot

theorem add_perm (items : List ItSrc) (src : ItSrc) : (add items src).Perm (src :: items) := by
  obtain ⟨i, hi, hadd⟩ := SortedList.add_duplicates items
    (fun i => compare ((items[i]?).elim 0 (·.pollPriority)) src.pollPriority) src
  rw [add, hadd]
  exact List.perm_insertIdx src items hi

/-- A list that is not in order stays so. -/
theorem sorted_of_add (h : Sorted (add items src)) : Sorted items := by
  obtain ⟨i, hi, hadd⟩ := SortedList.add_duplicates items
    (fun i => compare ((items[i]?).elim 0 (·.pollPriority)) src.pollPriority) src
  rw [add, hadd] at h
  exact h.sublist (List.sublist_insertIdx items i src)

/-- The sources of an element, one after the other. -/
theorem foldl_add (srcs items : List ItSrc) :
    (Sorted (srcs.foldl add items) ↔ Sorted items) ∧ (srcs.foldl add items).Perm (srcs ++ items) := by
  induction srcs generalizing items with
  | nil => exact ⟨Iff.rfl, .refl _⟩
  | cons src srcs ih =>
    obtain ⟨hsorted, hperm⟩ := ih (add items src)
    refine ⟨hsorted.trans ⟨sorted_of_add, fun h => add_sorted h src⟩, hperm.trans ?_⟩
    exact ((add_perm items src).append_left srcs).trans List.perm_middle

/-- Sources that are put at one place come to stand there in the reverse order. -/
theorem foldlM_addAt (index : Nat) (srcs items : List ItSrc) (h : index ≤ items.length) :
    srcs.foldlM (addAt index) items = some (items.take index ++ (srcs.reverse ++ items.drop index)) := by
  induction srcs generalizing items with
  | nil => rw [List.reverse_nil, List.nil_append, List.take_append_drop]; rfl
  | cons src srcs ih =>
    have hinsert := SortedList.insertIdx_take_drop src h
    have hlength : (items.take index).length = index := by
      rw [List.length_take]
      omega
    have hadd : addAt index items src = some (items.take index ++ src :: items.drop index) := by
      rw [addAt, if_pos h, hinsert]
    have htake : (items.take index ++ src :: items.drop index).take index = items.take index :=
      List.take_left' hlength
    have hdrop : (items.take index ++ src :: items.drop index).drop index = src :: items.drop index :=
      List.drop_left' hlength
    rw [List.foldlM_cons, hadd]
    show srcs.foldlM (addAt index) (items.take index ++ src :: items.drop index) = _
    rw [ih _ (by rw [List.length_append, hlength]; omega), htake, hdrop, List.reverse_cons, List.append_assoc]
    rfl

/-- Sources of one priority that lie between two parts of a list in order. -/
theorem sorted_block_iff {before mid after : List ItSrc} {p : Int} (hmid : ∀ m ∈ mid, m.pollPriority = p)
    (hne : mid ≠ []) : Sorted (before ++ (mid ++ after)) ↔ Sorted (before ++ after) ∧
      (∀ a ∈ before, a.pollPriority ≤ p) ∧ ∀ b ∈ after, p ≤ b.pollPriority := by
  obtain ⟨first, rest, rfl⟩ := List.exists_cons_of_ne_nil hne
  have hfirst : first.pollPriority = p := hmid first List.mem_cons_self
  have hrest : ∀ m ∈ rest, m.pollPriority = p := fun m hm => hmid m (List.mem_cons_of_mem _ hm)
  rw [List.cons_append, sorted_insert_iff, hfirst]
  clear hmid hne hfirst first
  induction rest with
  | nil =>
    rw [List.nil_append]
  | cons m rest ih =>
    have hm : m.pollPriority = p := hrest m List.mem_cons_self
    have hrest' := ih (fun n hn => hrest n (List.mem_cons_of_mem _ hn))
    rw [List.cons_append, sorted_insert_iff, hm]
    constructor
    · rintro ⟨⟨hsorted, hlow, hhigh⟩, hlow', hhigh'⟩
      exact hrest'.mp ⟨hsorted, hlow', hhigh⟩
    · intro h
      obtain ⟨hsorted, hlow, hhigh⟩ := hrest'.mpr h
      refine ⟨⟨hsorted, hlow, hhigh⟩, hlow, fun b hb => ?_⟩
      rcases List.mem_cons.mp hb with rfl | hb
      · exact Int.le_of_eq hm.symm
      · exact hhigh b hb

/-- In a list in order, what stands before a place and behind it can be told from two counts. -/
theorem place_iff (h : Sorted items) (p : Int) (index : Nat) :
    (index ≤ items.length ∧ (∀ a ∈ items.take index, a.pollPriority ≤ p) ∧
        ∀ b ∈ items.drop index, p ≤ b.pollPriority) ↔
      items.countP (·.pollPriority < p) ≤ index ∧ index ≤ items.countP (·.pollPriority ≤ p) := by
  have hsplit := List.take_append_drop index items
  have hbelow : items.countP (·.pollPriority < p)
      = (items.take index).countP (·.pollPriority < p) + (items.drop index).countP (·.pollPriority < p) := by
    rw [← List.countP_append, hsplit]
  have hupto : items.countP (·.pollPriority ≤ p)
      = (items.take index).countP (·.pollPriority ≤ p) + (items.drop index).countP (·.pollPriority ≤ p) := by
    rw [← List.countP_append, hsplit]
  have hcross : ∀ a ∈ items.take index, ∀ b ∈ items.drop index, a.pollPriority ≤ b.pollPriority := by
    rw [Sorted, ← hsplit, List.pairwise_append] at h
    exact h.2.2
  have htake : (items.take index).length = min index items.length := List.length_take
  constructor
  · rintro ⟨hlength, hlow, hhigh⟩
    have hnone : (items.drop index).countP (·.pollPriority < p) = 0 := by
      rw [List.countP_eq_zero]
      intro b hb
      simpa using hhigh b hb
    have hall : (items.take index).countP (·.pollPriority ≤ p) = (items.take index).length := by
      rw [List.countP_eq_length]
      intro a ha
      simpa using hlow a ha
    have hle := @List.countP_le_length _ (fun a : ItSrc => decide (a.pollPriority < p)) (items.take index)
    omega
  · rintro ⟨hfew, hmany⟩
    have hlength := @List.countP_le_length _ (fun a : ItSrc => decide (a.pollPriority ≤ p)) items
    refine ⟨by omega, fun a ha => ?_, fun b hb => ?_⟩
    · -- above `p` there would be too few sources up to `p`
      by_contra hhigh
      have hnone : (items.drop index).countP (·.pollPriority ≤ p) = 0 := by
        rw [List.countP_eq_zero]
        intro b hb
        have hab := hcross a ha b hb
        simp only [decide_eq_true_eq]
        omega
      have hfewer : (items.take index).countP (·.pollPriority ≤ p) < (items.take index).length := by
        rw [List.countP_lt_length_iff]
        exact ⟨a, ha, by simpa using hhigh⟩
      omega
    · by_contra hlow
      have hall : (items.take index).countP (·.pollPriority < p) = (items.take index).length := by
        rw [List.countP_eq_length]
        intro a ha
        have hab := hcross a ha b hb
        simp only [decide_eq_true_eq]
        omega
      have hsome : 0 < (items.drop index).countP (·.pollPriority < p) := by
        rw [List.countP_pos_iff]
        exact ⟨b, hb, by simpa using hlow⟩
      omega

end Irqs

namespace HwElement

/-- The place 4 suits the sources of the PCA when they come after some elements: at most four of the sources have to
be polled before them, and at least four may be. -/
def PcaFits (hws : List HwElement) : Prop :=
  (hws.flatMap sources).countP (·.pollPriority < 5) ≤ 4 ∧ 4 ≤ (hws.flatMap sources).countP (·.pollPriority ≤ 5)

instance (hws : List HwElement) : Decidable (PcaFits hws) := inferInstanceAs (Decidable (_ ∧ _))

theorem itSources_append (hws : List HwElement) (hw : HwElement) :
    itSources (hws ++ [hw]) = (itSources hws).bind (addedToUc · hw) := by
  rw [itSources, List.foldlM_append]
  show (itSources hws).bind (fun items => List.foldlM addedToUc items [hw]) = _
  congr 1
  funext items
  exact List.foldlM_cons.trans (bind_pure _)

/-- The place 4 is there, or the list is lost. -/
theorem addedToUc_pca (items : List ItSrc) : addedToUc items .pca =
    if 4 ≤ items.length then some (items.take 4 ++ (pca.sources.reverse ++ items.drop 4)) else none := by
  rw [addedToUc, if_pos rfl]
  by_cases hlength : 4 ≤ items.length
  · rw [if_pos hlength, Irqs.foldlM_addAt 4 _ items hlength]
  · rw [if_neg hlength]
    show (Irqs.addAt 4 items (cconSource 0x10)).bind _ = none
    rw [Irqs.addAt, if_neg hlength]
    rfl

/-- Nothing but the sources of the elements comes into the list. -/
theorem addedToUc_perm {items items' : List ItSrc} {hw : HwElement} (h : addedToUc items hw = some items') :
    items'.Perm (items ++ hw.sources) := by
  by_cases hpca : hw = .pca
  · subst hpca
    rw [addedToUc_pca] at h
    by_cases hlength : 4 ≤ items.length
    · rw [if_pos hlength] at h
      obtain rfl := Option.some.inj h
      have hrotate : (items.take 4 ++ (pca.sources.reverse ++ items.drop 4)).Perm
          (pca.sources.reverse ++ (items.take 4 ++ items.drop 4)) := by
        rw [← List.append_assoc, ← List.append_assoc]
        exact List.perm_append_comm.append_right _
      rw [List.take_append_drop] at hrotate
      exact (hrotate.trans List.perm_append_comm).trans ((List.reverse_perm _).append_left items)
    · rw [if_neg hlength] at h
      cases h
  · rw [addedToUc, if_neg hpca] at h
    obtain rfl := Option.some.inj h
    exact (Irqs.foldl_add _ _).2.trans List.perm_append_comm

theorem itSources_perm {hws : List HwElement} {items : List ItSrc} (h : itSources hws = some items) :
    items.Perm (hws.flatMap sources) := by
  induction hws using List.reverseRecOn generalizing items with
  | nil =>
    obtain rfl := Option.some.inj h
    exact .refl _
  | append_singleton hws hw ih =>
    rw [itSources_append, Option.bind_eq_some_iff] at h
    obtain ⟨before, hbefore, hadded⟩ := h
    rw [List.flatMap_append, List.flatMap_singleton]
    exact (addedToUc_perm hadded).trans ((ih hbefore).append_right _)

/-- One more element. -/
theorem addedToUc_sorted_iff {hws : List HwElement} {items : List ItSrc} (h : itSources hws = some items)
    (hw : HwElement) : (∃ items', addedToUc items hw = some items' ∧ Irqs.Sorted items') ↔
      Irqs.Sorted items ∧ (hw = .pca → PcaFits hws) := by
  by_cases hpca : hw = .pca
  · subst hpca
    have hpriority : ∀ m ∈ pca.sources.reverse, m.pollPriority = 5 := by decide
    have hperm := itSources_perm h
    have hfits : PcaFits hws ↔
        items.countP (·.pollPriority < 5) ≤ 4 ∧ 4 ≤ items.countP (·.pollPriority ≤ 5) := by
      rw [PcaFits, hperm.countP_eq, hperm.countP_eq]
    rw [addedToUc_pca, hfits]
    have hblock : Irqs.Sorted (items.take 4 ++ (pca.sources.reverse ++ items.drop 4)) ↔ Irqs.Sorted items ∧
        (∀ a ∈ items.take 4, a.pollPriority ≤ 5) ∧ ∀ b ∈ items.drop 4, 5 ≤ b.pollPriority := by
      rw [Irqs.sorted_block_iff hpriority (by decide), List.take_append_drop]
    constructor
    · rintro ⟨items', hadded, hsorted⟩
      by_cases hlength : 4 ≤ items.length
      · rw [if_pos hlength] at hadded
        obtain rfl := Option.some.inj hadded
        obtain ⟨hitems, hlow, hhigh⟩ := hblock.mp hsorted
        exact ⟨hitems, fun _ => (Irqs.place_iff hitems 5 4).mp ⟨hlength, hlow, hhigh⟩⟩
      · rw [if_neg hlength] at hadded
        cases hadded
    · rintro ⟨hitems, hplace⟩
      obtain ⟨hlength, hlow, hhigh⟩ := (Irqs.place_iff hitems 5 4).mpr (hplace rfl)
      exact ⟨_, if_pos hlength, hblock.mpr ⟨hitems, hlow, hhigh⟩⟩
  · rw [addedToUc, if_neg hpca]
    constructor
    · rintro ⟨items', hadded, hsorted⟩
      obtain rfl := Option.some.inj hadded
      exact ⟨(Irqs.foldl_add _ _).1.mp hsorted, fun heq => absurd heq hpca⟩
    · exact fun hitems => ⟨_, rfl, (Irqs.foldl_add _ _).1.mpr hitems.1⟩

/-- The list is in order exactly if the place 4 suits wherever the PCA is added. -/
theorem itSources_sorted_iff (hws : List HwElement) : (∃ items, itSources hws = some items ∧ Irqs.Sorted items) ↔
    ∀ before after, hws = before ++ .pca :: after → PcaFits before := by
  induction hws using List.reverseRecOn with
  | nil => exact iff_of_true ⟨[], rfl, .nil⟩ (fun before after h => absurd h (by simp))
  | append_singleton hws hw ih =>
    rw [itSources_append]
    have hsplit : (∀ before after, hws ++ [hw] = before ++ .pca :: after → PcaFits before) ↔
        (∀ before after, hws = before ++ .pca :: after → PcaFits before) ∧ (hw = .pca → PcaFits hws) := by
      constructor
      · intro h
        refine ⟨fun before after heq => h before (after ++ [hw]) ?_, fun heq => h hws [] ?_⟩
        · rw [heq, List.append_assoc, List.cons_append]
        · rw [heq]
      · rintro ⟨hbefore, hlast⟩ before after heq
        rcases List.eq_nil_or_concat after with rfl | ⟨after', last, rfl⟩
        · obtain ⟨rfl, hhw⟩ := List.append_inj' heq rfl
          exact hlast (List.head_eq_of_cons_eq hhw)
        · rw [List.concat_eq_append, ← List.cons_append, ← List.append_assoc] at heq
          exact hbefore before after' (List.append_inj' heq rfl).1
    rw [hsplit, ← ih]
    constructor
    · rintro ⟨items', hadded, hsorted⟩
      obtain ⟨items, hitems, hadded⟩ := Option.bind_eq_some_iff.mp hadded
      obtain ⟨hold, hplace⟩ := (addedToUc_sorted_iff hitems hw).mp ⟨items', hadded, hsorted⟩
      exact ⟨⟨items, hitems, hold⟩, hplace⟩
    · rintro ⟨⟨items, hitems, hold⟩, hplace⟩
      obtain ⟨items', hadded, hsorted⟩ := (addedToUc_sorted_iff hitems hw).mpr ⟨hold, hplace⟩
      exact ⟨items', Option.bind_eq_some_iff.mpr ⟨items, hitems, hadded⟩, hsorted⟩

/-- With a list in order, `do_interrupt` accepts a source that no source of the same priority is polled before. -/
theorem polled_first {Dev V : Type} (D : Devices Dev V) {u : Uc V} {il : ItLevel} {below : List ItLevel}
    (hsorted : Irqs.Sorted u.itSources) (hlevels : u.itLevels = il :: below)
    (hea : u.mem.sys.mem (.sfr Reg.IEN0) &&& bmEA ≠ 0) (hreti : u.mem.sys.hw.wasReti = false) :
    ∃ res v, (doInterrupt D).run u = .ok (res, v) ∧ ∀ src, Accepts u src res v →
      ∀ other ∈ u.itSources, other.Eligible u.mem.sys.mem il.level →
        other.priority u.mem.sys.mem = src.priority u.mem.sys.mem → src.pollPriority ≤ other.pollPriority := by
  obtain ⟨res, v, hrun, harbitrates⟩ := doInterrupt_arbitrates D hlevels hea hreti
  refine ⟨res, v, hrun, fun src haccepts other hother heligible _ => ?_⟩
  obtain ⟨-, before, after, hsplit, hbefore⟩ := harbitrates.accepted src haccepts
  rw [hsplit] at hother hsorted
  obtain ⟨-, hafter, -⟩ := List.pairwise_append.mp hsorted
  rcases List.mem_append.mp hother with hin | hin
  · exact absurd heligible (hbefore other hin)
  · rcases List.mem_cons.mp hin with rfl | hin
    · exact Int.le_refl _
    · exact List.rel_of_pairwise_cons hafter hin

/-- The list stays in the order of the polling priorities, and `do_interrupt` follows it, exactly if the place 4
suits wherever the PCA is added. -/
theorem polled_in_order_iff {Dev V : Type} (D : Devices Dev V) (hws : List HwElement) :
    (∃ items, itSources hws = some items ∧ Irqs.Sorted items ∧
      ∀ (u : Uc V) (il : ItLevel) (below : List ItLevel), u.itSources = items → u.itLevels = il :: below →
        u.mem.sys.mem (.sfr Reg.IEN0) &&& bmEA ≠ 0 → u.mem.sys.hw.wasReti = false →
        ∃ res v, (doInterrupt D).run u = .ok (res, v) ∧ ∀ src, Accepts u src res v →
          ∀ other ∈ items, other.Eligible u.mem.sys.mem il.level →
            other.priority u.mem.sys.mem = src.priority u.mem.sys.mem →
            src.pollPriority ≤ other.pollPriority) ↔
    ∀ before after, hws = before ++ .pca :: after → PcaFits before := by
  rw [← itSources_sorted_iff]
  constructor
  · rintro ⟨items, hitems, hsorted, -⟩
    exact ⟨items, hitems, hsorted⟩
  · rintro ⟨items, hitems, hsorted⟩
    refine ⟨items, hitems, hsorted, fun u il below heq hlevels hea hreti => ?_⟩
    subst heq
    exact polled_first D hsorted hlevels hea hreti

end HwElement

/-- Among the timers, the serial line and the external interrupts alone the place 4 would suit. -/
example : HwElement.PcaFits [.timer0, .timer1, .serial, .interrupt, .timer2] := by decide

namespace Controller

/-- The added peripherals have sources that are to be polled before the PCA's. -/
theorem not_pcaFits : ¬ HwElement.PcaFits (core ++ [.timer2] ++ [.wdt]) := by decide

/-- The controllers with a PCA are those whose list is out of order. -/
theorem sorted_iff (c : Controller) :
    (∃ items, HwElement.itSources c.mkHwElements = some items ∧ Irqs.Sorted items) ↔ c ≠ .uc89c51r ∧ c ≠ .uc251 := by
  rw [HwElement.itSources_sorted_iff]
  by_cases hc : c = .uc89c51r ∨ c = .uc251
  · have hmk : c.mkHwElements = (core ++ [.timer2] ++ [.wdt]) ++ .pca :: [.dummy_hw] := by
      rcases hc with rfl | rfl <;> rfl
    refine iff_of_false (fun h => not_pcaFits (h _ _ hmk)) (fun h => ?_)
    exact hc.elim h.1 h.2
  · have hwithout : HwElement.pca ∉ c.mkHwElements := by
      revert hc
      rcases c <;> decide
    refine iff_of_true (fun before after heq => absurd ?_ hwithout) (not_or.mp hc)
    rw [heq]
    exact List.mem_append_right _ List.mem_cons_self

/-- The elements of `cl_uc89c51r` leave the list out of order. -/
theorem not_sorted_uc89c51r :
    ¬ ∃ items, HwElement.itSources (mkHwElements .uc89c51r) = some items ∧ Irqs.Sorted items :=
  fun h => ((sorted_iff .uc89c51r).mp h).1 rfl

end Controller

end Ucsim.S51
