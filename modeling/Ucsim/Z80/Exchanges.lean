import Ucsim.Z80.Fetches

/-!
# Exchanges

`EXX` and the forms of `EX`. Each should exchange what it names and nothing else, so that it takes itself back.
-/

namespace Ucsim.Z80

/-! ## Exchanged contents -/

inductive Exchange
  | EXX | EX_AF | EX_DE_HL | EX_SP_HL | EX_SP_IX | EX_SP_IY
  deriving DecidableEq, Repr

namespace Exchange

def code : Exchange → List (BitVec 8)
  | EXX => [0xD9]
  | EX_AF => [0x08]
  | EX_DE_HL => [0xEB]
  | EX_SP_HL => [0xE3]
  | EX_SP_IX => [0xDD, 0xE3]
  | EX_SP_IY => [0xFD, 0xE3]

end Exchange

/-- The registers and the memory. -/
abbrev Contents : Type := Regs × (BitVec 16 → BitVec 8)

def Machine.contents (s : Machine) : Contents := (s.regs, s.ram)

def Machine.withContents (s : Machine) (c : Contents) : Machine := { s with regs := c.1, ram := c.2 }

/-- A word register and the word on the stack are exchanged. -/
def swapStack (r : Word) (c : Contents) : Contents :=
  let below := Function.update c.2 c.1.SP ((c.1.word r).extractLsb' 0 8)
  (c.1.setWord (wordAt c.2 c.1.SP) r, Function.update below (c.1.SP + 1) ((c.1.word r).extractLsb' 8 8))

/-- What an exchange is for. -/
def Exchange.swap : Exchange → Contents → Contents
  | EXX, (g, ram) => ({ g with BC := g.aBC, aBC := g.BC, DE := g.aDE, aDE := g.DE, HL := g.aHL, aHL := g.HL }, ram)
  | EX_AF, (g, ram) => ({ g with A := g.aA, aA := g.A, F := g.aF, aF := g.F }, ram)
  | EX_DE_HL, (g, ram) => ({ g with DE := g.HL, HL := g.DE }, ram)
  | EX_SP_HL, c => swapStack .HL c
  | EX_SP_IX, c => swapStack .IX c
  | EX_SP_IY, c => swapStack .IY c

/-! ## Involutions -/

/-- Two bytes written and written back. -/
theorem update_pair_back (ram : BitVec 16 → BitVec 8) (a b : BitVec 16) (x y : BitVec 8) :
    Function.update (Function.update (Function.update (Function.update ram a x) b y) a (ram a)) b (ram b) = ram := by
  funext c
  by_cases hb : c = b
  · rw [hb, Function.update_self]
  rw [Function.update_of_ne hb]
  by_cases ha : c = a
  · rw [ha, Function.update_self]
  rw [Function.update_of_ne ha, Function.update_of_ne hb, Function.update_of_ne ha]

theorem wordAt_update (ram : BitVec 16 → BitVec 8) (a v : BitVec 16) :
    wordAt (Function.update (Function.update ram a (v.extractLsb' 0 8)) (a + 1) (v.extractLsb' 8 8)) a = v := by
  have hne : a ≠ a + 1 := by bv_omega
  rw [wordAt, Function.update_self, Function.update_of_ne hne, Function.update_self]
  exact BitVec.extractLsb'_append_extractLsb'

/-- The word registers that are exchanged with the stack. -/
theorem swapStack_swapStack {r : Word} (hr : r = .HL ∨ r = .IX ∨ r = .IY) (c : Contents) :
    swapStack r (swapStack r c) = c := by
  obtain ⟨g, ram⟩ := c
  have hSP : ∀ v, (g.setWord v r).SP = g.SP := by
    rcases hr with rfl | rfl | rfl <;> exact fun _ => rfl
  have hword : ∀ v, (g.setWord v r).word r = v := by
    rcases hr with rfl | rfl | rfl <;> exact RegPair.word_ofWord
  have hback : ∀ v, (g.setWord v r).setWord (g.word r) r = g := by
    rcases hr with rfl | rfl | rfl <;> intro v <;> simp [Regs.setWord, Regs.word]
  apply Prod.ext
  · simp only [swapStack, hSP, wordAt_update, hback]
  · simp only [swapStack, hSP, hword, low_wordAt, high_wordAt]
    exact update_pair_back ram g.SP (g.SP + 1) _ _

theorem Exchange.swap_involutive (x : Exchange) : Function.Involutive x.swap := by
  intro c
  cases x with
  | EXX => rfl
  | EX_AF => rfl
  | EX_DE_HL => rfl
  | EX_SP_HL => exact swapStack_swapStack (.inl rfl) c
  | EX_SP_IX => exact swapStack_swapStack (.inr (.inl rfl)) c
  | EX_SP_IY => exact swapStack_swapStack (.inr (.inr rfl)) c

/-! ## The instructions -/

/-- The functions that are called for an exchange. -/
def Exchange.body : Exchange → Prog Res
  | EXX => inst_exx
  | EX_AF => inst_ex 0x08
  | EX_DE_HL => inst_ex 0xEB
  | EX_SP_HL => inst_ex 0xE3
  | EX_SP_IX => dispatchXd .IX 0xE3
  | EX_SP_IY => dispatchXd .IY 0xE3

/-- What `inst_exx` does instead. -/
def copyAlternate (c : Contents) : Contents := ({ c.1 with BC := c.1.aBC, DE := c.1.aDE }, c.2)

/-- A word register and what `get2` and `store2` reach at the stack pointer are exchanged. -/
def Machine.exchangeTop (s : Machine) (r : Word) : Machine :=
  Machine.stored
    { s with
      regs := s.regs.setWord (s.readAt (s.regs.SP.toNat + 1) ++ s.ram s.regs.SP) r
      ram := Function.update s.ram s.regs.SP ((s.regs.word r).extractLsb' 0 8) }
    (s.regs.SP.toNat + 1) ((s.regs.word r).extractLsb' 8 8)

/-- What the code of an exchange does. -/
def Exchange.done (x : Exchange) (s : Machine) : Machine :=
  match x with
  | EXX => s.withContents (copyAlternate s.contents)
  | EX_AF => s.withContents (EX_AF.swap s.contents)
  | EX_DE_HL => s.withContents (EX_DE_HL.swap s.contents)
  | EX_SP_HL => s.exchangeTop .HL
  | EX_SP_IX => s.exchangeTop .IX
  | EX_SP_IY => s.exchangeTop .IY

theorem body_run (x : Exchange) (s : Machine) : x.body.run s = (.go, x.done s) := by
  cases x with
  | EX_DE_HL =>
    have hDE : RegPair.ofWord s.regs.HL.word = s.regs.HL := RegPair.ofWord_word _
    have hHL : RegPair.ofWord s.regs.DE.word = s.regs.DE := RegPair.ofWord_word _
    have hrun : Exchange.EX_DE_HL.body.run s = (.go, { s with
      regs := { s.regs with DE := .ofWord s.regs.HL.word, HL := .ofWord s.regs.DE.word } }) := rfl
    rw [hrun, hDE, hHL]
    rfl
  | EXX => rfl
  | EX_AF => rfl
  | EX_SP_HL => rfl
  | EX_SP_IX => rfl
  | EX_SP_IY => rfl

/-- `exec_inst` fetches the code of an exchange and calls its function. -/
theorem exchange_run {x : Exchange} {s : Machine} (h : s.At x.code) : exec_inst.run s =
    (.go, { x.done s with PC := advance x.code.length s.PC, ticks := s.ticks + 1 }) := by
  have hbody : ∀ len, x.body.run { s with PC := advance len s.PC, ticks := s.ticks + 1 } =
      (.go, { x.done s with PC := advance len s.PC, ticks := s.ticks + 1 }) := by
    intro len
    rw [body_run]
    cases x <;> rfl
  rw [exec_inst_run]
  cases x with
  | EXX => rw [h.1]; exact hbody 1
  | EX_AF => rw [h.1]; exact hbody 1
  | EX_DE_HL => rw [h.1]; exact hbody 1
  | EX_SP_HL => rw [h.1]; exact hbody 1
  | EX_SP_IX =>
    have hrun : (dispatch 0xDD).run s.skip.ticked = (dispatchXd .IX s.skip.next).run s.skip.skip.ticked := rfl
    rw [h.1, hrun, h.2.1]
    exact hbody 2
  | EX_SP_IY =>
    have hrun : (dispatch 0xFD).run s.skip.ticked = (dispatchXd .IY s.skip.next).run s.skip.skip.ticked := rfl
    rw [h.1, hrun, h.2.1]
    exact hbody 2

/-! ## Behind the stack pointer -/

section Behind

variable {s : Machine} {sp : BitVec 16}

/-- The address behind the stack pointer is one of the memory, or is taken modulo its size. -/
def Machine.Behind (s : Machine) (sp : BitVec 16) : Prop := s.dummy = none ∨ sp ≠ 0xFFFF

theorem inRange_behind (h : sp ≠ 0xFFFF) : InRange (sp.toNat + 1) := by
  unfold InRange
  bv_omega

theorem readAt_behind (h : s.Behind sp) : s.readAt (sp.toNat + 1) = s.ram (sp + 1) := by
  rcases h with hmod | hlast
  · exact Machine.Modulo.readAt_succ hmod sp
  · unfold Machine.readAt
    rw [ofInt_succ]
    cases s.dummy with
    | none => rfl
    | some d => exact if_pos (inRange_behind hlast)

theorem stored_behind (h : s.Behind sp) (val : BitVec 8) :
    s.stored (sp.toNat + 1) val = { s with ram := Function.update s.ram (sp + 1) val } := by
  have hhas : s.dummy = none ∨ InRange (sp.toNat + 1) := h.imp_right inRange_behind
  have hdummy : (s.dummy.map fun d => if InRange (sp.toNat + 1) then d else fun n => d (n + 1)) = s.dummy := by
    rcases hhas with hmod | hin
    · rw [hmod]
      rfl
    · simp only [if_pos hin, Option.map_id']
  rw [Machine.stored, if_pos hhas, hdummy, ofInt_succ]

theorem exchangeTop_behind (h : s.Behind s.regs.SP) (r : Word) :
    s.exchangeTop r = s.withContents (swapStack r s.contents) := by
  rw [Machine.exchangeTop, readAt_behind h]
  exact stored_behind (s := { s with
    regs := s.regs.setWord (wordAt s.ram s.regs.SP) r
    ram := Function.update s.ram s.regs.SP ((s.regs.word r).extractLsb' 0 8) }) h _

/-- The last byte is exchanged, and the one behind it comes from the dummy cell. -/
theorem exchangeTop_last {d : Nat → BitVec 8} (hdummy : s.dummy = some d) (hSP : s.regs.SP = 0xFFFF) (r : Word) :
    s.exchangeTop r = { s with
      regs := s.regs.setWord (d 0 ++ s.ram 0xFFFF) r
      ram := Function.update s.ram 0xFFFF ((s.regs.word r).extractLsb' 0 8)
      dummy := some fun n => d (n + 1) } := by
  have hout : ¬InRange (((0xFFFF : BitVec 16).toNat : Int) + 1) := by decide
  have hread : s.readAt (((0xFFFF : BitVec 16).toNat : Int) + 1) = d 0 := by
    unfold Machine.readAt
    rw [hdummy]
    exact if_neg hout
  rw [Machine.exchangeTop, hSP, hread, Machine.stored, if_neg (not_or.mpr ⟨by simp [hdummy], hout⟩), hdummy]
  exact congrArg (fun dummy => { s with
    regs := s.regs.setWord (d 0 ++ s.ram 0xFFFF) r
    ram := Function.update s.ram 0xFFFF ((s.regs.word r).extractLsb' 0 8)
    dummy := some dummy }) (if_neg hout)

end Behind

/-- The registers that are exchanged with the stack. -/
def Exchange.top : Exchange → Option Word
  | EX_SP_HL => some .HL
  | EX_SP_IX => some .IX
  | EX_SP_IY => some .IY
  | _ => none

theorem done_of_top {x : Exchange} {r : Word} (h : x.top = some r) (s : Machine) : x.done s = s.exchangeTop r := by
  cases x with
  | EX_SP_HL => cases h; rfl
  | EX_SP_IX => cases h; rfl
  | EX_SP_IY => cases h; rfl
  | _ => nomatch h

theorem swap_of_top {x : Exchange} {r : Word} (h : x.top = some r) (c : Contents) : x.swap c = swapStack r c := by
  cases x with
  | EX_SP_HL => cases h; rfl
  | EX_SP_IX => cases h; rfl
  | EX_SP_IY => cases h; rfl
  | _ => nomatch h

theorem word_of_top {x : Exchange} {r : Word} (h : x.top = some r) : r = .HL ∨ r = .IX ∨ r = .IY := by
  cases x with
  | EX_SP_HL => cases h; exact .inl rfl
  | EX_SP_IX => cases h; exact .inr (.inl rfl)
  | EX_SP_IY => cases h; exact .inr (.inr rfl)
  | _ => nomatch h

/-! ## Once and twice -/

/-- Executed once it exchanges what it names and changes nothing else, and executed a second time it takes that
back. -/
structure Exchange.Right (x : Exchange) (s : Machine) : Prop where
  once : ∃ dummy, exec_inst.run s = (.go,
    { s.withContents (x.swap s.contents) with
      PC := advance x.code.length s.PC, ticks := s.ticks + 1, dummy := dummy })
  twice : ∀ t : Machine, t.contents = s.step.contents → t.dummy = s.step.dummy →
    (x.body.run t).2.contents = s.contents

/-- The alternates of the registers are the same as these. -/
def Regs.SameAlternates (r : Regs) : Prop := r.BC = r.aBC ∧ r.DE = r.aDE ∧ r.HL = r.aHL

/-- A word register may be exchanged with the stack: the word on it does not have its second byte in the dummy cell,
or it makes no difference. -/
def Machine.KeepsTop (s : Machine) (r : Word) : Prop :=
  s.Behind s.regs.SP ∨ (s.regs.word r).extractLsb' 8 8 = s.ram 0 ∧ s.dummy.map (· 0) = some (s.ram 0) ∧
    s.dummy.map (· 1) = some (s.ram 0)

/-- When an exchange does what it should. -/
structure Exchange.Met (x : Exchange) (s : Machine) : Prop where
  alternates : x = .EXX → s.regs.SameAlternates
  top : ∀ r, x.top = some r → s.KeepsTop r

section Right

variable {x : Exchange} {s : Machine}

theorem once_iff (h : s.At x.code) : (∃ dummy, exec_inst.run s = (.go,
    { s.withContents (x.swap s.contents) with
      PC := advance x.code.length s.PC, ticks := s.ticks + 1, dummy := dummy })) ↔
    (x.done s).contents = x.swap s.contents := by
  rw [exchange_run h]
  constructor
  · rintro ⟨dummy, heq⟩
    exact congrArg (fun p : Res × Machine => p.2.contents) heq
  · intro heq
    have hregs : (x.done s).regs = (x.swap s.contents).1 := congrArg Prod.fst heq
    have hram : (x.done s).ram = (x.swap s.contents).2 := congrArg Prod.snd heq
    have hout : (x.done s).out = s.out := by cases x <;> rfl
    exact ⟨(x.done s).dummy, congrArg (Prod.mk Res.go) (Machine.ext hregs rfl hram rfl rfl hout)⟩

theorem twice_iff (h : s.At x.code) : (∀ t : Machine, t.contents = s.step.contents → t.dummy = s.step.dummy →
    (x.body.run t).2.contents = s.contents) ↔
    ∀ t : Machine, t.contents = (x.done s).contents → t.dummy = (x.done s).dummy → (x.done t).contents = s.contents := by
  have hcontents : s.step.contents = (x.done s).contents := by
    rw [Machine.step, exchange_run h]
    rfl
  have hdummy : s.step.dummy = (x.done s).dummy := by
    rw [Machine.step, exchange_run h]
  have hbody : ∀ t, (x.body.run t).2 = x.done t := fun t => congrArg Prod.snd (body_run x t)
  simp only [hcontents, hdummy, hbody]

end Right

/-- `EXX` takes HL for nothing, and the alternates of the others for two registers each. -/
theorem copyAlternate_eq_iff (c : Contents) : copyAlternate c = Exchange.EXX.swap c ↔ c.1.SameAlternates := by
  simp only [copyAlternate, Exchange.swap, Prod.mk.injEq, Regs.mk.injEq, true_and, and_true]
  constructor
  · rintro ⟨hHL, hBC, hDE, -⟩
    exact ⟨hBC.symm, hDE.symm, hHL⟩
  · rintro ⟨hBC, hDE, hHL⟩
    exact ⟨hHL, hBC.symm, hDE.symm, hHL.symm⟩

section Top

variable {r : Word} {s : Machine}

theorem setWord_SP (hr : r = .HL ∨ r = .IX ∨ r = .IY) (g : Regs) (v : BitVec 16) : (g.setWord v r).SP = g.SP := by
  rcases hr with rfl | rfl | rfl <;> rfl

theorem word_setWord (hr : r = .HL ∨ r = .IX ∨ r = .IY) (g : Regs) (v : BitVec 16) : (g.setWord v r).word r = v := by
  rcases hr with rfl | rfl | rfl <;> exact RegPair.word_ofWord _

theorem setWord_setWord (hr : r = .HL ∨ r = .IX ∨ r = .IY) (g : Regs) (v w : BitVec 16) :
    (g.setWord v r).setWord w r = g.setWord w r := by
  rcases hr with rfl | rfl | rfl <;> rfl

theorem setWord_word (hr : r = .HL ∨ r = .IX ∨ r = .IY) (g : Regs) : g.setWord (g.word r) r = g := by
  rcases hr with rfl | rfl | rfl <;> simp [Regs.setWord, Regs.word]

/-- With both bytes in the memory. -/
theorem top_right_behind (hr : r = .HL ∨ r = .IX ∨ r = .IY) (h : s.Behind s.regs.SP) :
    (s.exchangeTop r).contents = swapStack r s.contents ∧ ∀ t : Machine, t.contents = (s.exchangeTop r).contents →
      t.dummy = (s.exchangeTop r).dummy → (t.exchangeTop r).contents = s.contents := by
  rw [exchangeTop_behind h]
  refine ⟨rfl, fun t ht hdummy => ?_⟩
  have hregs : t.regs = (swapStack r s.contents).1 := congrArg Prod.fst ht
  have hSP : t.regs.SP = s.regs.SP := by
    rw [hregs]
    exact setWord_SP hr _ _
  have htop : t.Behind t.regs.SP := by
    rw [hSP]
    exact h.imp_left hdummy.trans
  rw [exchangeTop_behind htop]
  exact (congrArg (swapStack r) ht).trans (swapStack_swapStack hr s.contents)

theorem word_eq_append (w : BitVec 16) : w = w.extractLsb' 8 8 ++ w.extractLsb' 0 8 := by
  symm
  exact BitVec.extractLsb'_append_extractLsb'

/-- The first exchange at the last address. -/
theorem once_last_iff (hr : r = .HL ∨ r = .IX ∨ r = .IY) {d : Nat → BitVec 8} (hdummy : s.dummy = some d)
    (hSP : s.regs.SP = 0xFFFF) :
    (s.exchangeTop r).contents = swapStack r s.contents ↔
      (s.regs.word r).extractLsb' 8 8 = s.ram 0 ∧ d 0 = s.ram 0 := by
  have hne : (0 : BitVec 16) ≠ 0xFFFF := by decide
  have hnext : s.regs.SP + 1 = 0 := by rw [hSP]; decide
  have hcode : (s.exchangeTop r).contents = (s.regs.setWord (d 0 ++ s.ram 0xFFFF) r,
      Function.update s.ram 0xFFFF ((s.regs.word r).extractLsb' 0 8)) := by
    rw [exchangeTop_last hdummy hSP]
    rfl
  have hswap : swapStack r s.contents = (s.regs.setWord (s.ram 0 ++ s.ram 0xFFFF) r, Function.update
      (Function.update s.ram 0xFFFF ((s.regs.word r).extractLsb' 0 8)) 0 ((s.regs.word r).extractLsb' 8 8)) := by
    have hword : wordAt s.ram s.regs.SP = s.ram 0 ++ s.ram 0xFFFF := by rw [wordAt, hnext, hSP]
    simp only [swapStack, Machine.contents, hword, hnext]
    rw [hSP]
  rw [hcode, hswap, Prod.mk.injEq]
  constructor
  · rintro ⟨hregs, hram⟩
    have hword := congrArg (fun g : Regs => g.word r) hregs
    have hzero := congrFun hram 0
    simp only [word_setWord hr, append_eq_iff] at hword
    rw [Function.update_self, Function.update_of_ne hne] at hzero
    exact ⟨hzero.symm, hword.1⟩
  · rintro ⟨hhigh, hd⟩
    rw [hd, hhigh]
    exact ⟨rfl, (Function.update_eq_self_iff.mpr (Function.update_of_ne hne _ _).symm).symm⟩

/-- The second one. -/
theorem twice_last {d : Nat → BitVec 8} (hr : r = .HL ∨ r = .IX ∨ r = .IY) (hdummy : s.dummy = some d)
    (hSP : s.regs.SP = 0xFFFF) {t : Machine} (ht : t.contents = (s.exchangeTop r).contents)
    (htd : t.dummy = (s.exchangeTop r).dummy) :
    (t.exchangeTop r).contents = (s.regs.setWord (d 1 ++ (s.regs.word r).extractLsb' 0 8) r, s.ram) := by
  rw [exchangeTop_last hdummy hSP] at ht htd
  have hregs : t.regs = s.regs.setWord (d 0 ++ s.ram 0xFFFF) r := congrArg Prod.fst ht
  have hram : t.ram = Function.update s.ram 0xFFFF ((s.regs.word r).extractLsb' 0 8) := congrArg Prod.snd ht
  have htSP : t.regs.SP = 0xFFFF := by rw [hregs, setWord_SP hr, hSP]
  have hlow : (d 0 ++ s.ram 0xFFFF).extractLsb' 0 8 = s.ram 0xFFFF := BitVec.extractLsb'_append_eq_right
  rw [exchangeTop_last htd htSP]
  simp only [Machine.contents, hregs, hram, setWord_setWord hr, word_setWord hr, hlow, Function.update_self,
    Function.update_idem, Function.update_eq_self]

/-- With the second byte in the dummy cell. -/
theorem top_right_last_iff (hr : r = .HL ∨ r = .IX ∨ r = .IY) {d : Nat → BitVec 8} (hdummy : s.dummy = some d)
    (hSP : s.regs.SP = 0xFFFF) :
    ((s.exchangeTop r).contents = swapStack r s.contents ∧ ∀ t : Machine, t.contents = (s.exchangeTop r).contents →
      t.dummy = (s.exchangeTop r).dummy → (t.exchangeTop r).contents = s.contents) ↔
      (s.regs.word r).extractLsb' 8 8 = s.ram 0 ∧ d 0 = s.ram 0 ∧ d 1 = s.ram 0 := by
  have hback : s.regs.setWord (d 1 ++ (s.regs.word r).extractLsb' 0 8) r = s.regs ↔
      d 1 = (s.regs.word r).extractLsb' 8 8 := by
    constructor
    · intro hregs
      have hword := congrArg (fun g : Regs => g.word r) hregs
      rw [word_setWord hr, word_eq_append (s.regs.word r), append_eq_iff] at hword
      exact hword.1
    · intro hd
      rw [hd, ← word_eq_append, setWord_word hr]
  rw [once_last_iff hr hdummy hSP]
  constructor
  · rintro ⟨⟨hhigh, hd⟩, htwice⟩
    have hfirst := htwice (s.exchangeTop r) rfl rfl
    rw [twice_last hr hdummy hSP rfl rfl] at hfirst
    exact ⟨hhigh, hd, (hback.mp (congrArg Prod.fst hfirst)).trans hhigh⟩
  · rintro ⟨hhigh, hd, hlast⟩
    refine ⟨⟨hhigh, hd⟩, fun t ht htd => ?_⟩
    rw [twice_last hr hdummy hSP ht htd, hback.mpr (hlast.trans hhigh.symm)]
    rfl

end Top

theorem top_right_iff {r : Word} (hr : r = .HL ∨ r = .IX ∨ r = .IY) (s : Machine) :
    ((s.exchangeTop r).contents = swapStack r s.contents ∧ ∀ t : Machine, t.contents = (s.exchangeTop r).contents →
      t.dummy = (s.exchangeTop r).dummy → (t.exchangeTop r).contents = s.contents) ↔ s.KeepsTop r := by
  by_cases h : s.Behind s.regs.SP
  · exact iff_of_true (top_right_behind hr h) (.inl h)
  obtain ⟨hsome, hSP⟩ := not_or.mp h
  obtain ⟨d, hdummy⟩ := Option.ne_none_iff_exists'.mp hsome
  rw [top_right_last_iff hr hdummy (not_not.mp hSP), Machine.KeepsTop, or_iff_right h, hdummy]
  simp

/-- An exchange is right exactly if it is not `EXX`, or the registers are the same as their alternates, and it does
not meet the dummy cell behind the stack pointer. -/
theorem exchange_right_iff (x : Exchange) (s : Machine) (h : s.At x.code) : x.Right s ↔ x.Met s := by
  have hright : x.Right s ↔ (x.done s).contents = x.swap s.contents ∧ ∀ t : Machine,
      t.contents = (x.done s).contents → t.dummy = (x.done s).dummy → (x.done t).contents = s.contents :=
    ⟨fun hx => ⟨(once_iff h).mp hx.once, (twice_iff h).mp hx.twice⟩,
      fun hx => ⟨(once_iff h).mpr hx.1, (twice_iff h).mpr hx.2⟩⟩
  rw [hright]
  cases htop : x.top with
  | some r =>
    have hmet : x.Met s ↔ s.KeepsTop r := by
      constructor
      · exact fun hx => hx.top r htop
      · refine fun hx => ⟨?_, fun r' hr' => ?_⟩
        · rintro rfl
          nomatch htop
        · obtain rfl : r = r' := Option.some.inj (htop.symm.trans hr')
          exact hx
    simp only [hmet, done_of_top htop, swap_of_top htop]
    exact top_right_iff (word_of_top htop) s
  | none =>
    have hmet : x.Met s ↔ (x = .EXX → s.regs.SameAlternates) :=
      ⟨fun hx => hx.alternates, fun hx => ⟨hx, fun r hr => nomatch htop.symm.trans hr⟩⟩
    rw [hmet]
    cases x with
    | EXX =>
      have honce : (Exchange.EXX.done s).contents = Exchange.EXX.swap s.contents ↔ s.regs.SameAlternates :=
        copyAlternate_eq_iff s.contents
      refine ⟨fun hx _ => honce.mp hx.1, fun hsame => ⟨honce.mpr (hsame rfl), fun t ht _ => ?_⟩⟩
      have hregs : t.contents = Exchange.EXX.swap s.contents := ht.trans (honce.mpr (hsame rfl))
      obtain ⟨hBC, hDE, hHL⟩ := hsame rfl
      have ht' : t.regs.SameAlternates := by
        rw [show t.regs = (Exchange.EXX.swap s.contents).1 from congrArg Prod.fst hregs]
        exact ⟨hBC.symm, hDE.symm, hHL.symm⟩
      exact ((copyAlternate_eq_iff t.contents).mpr ht').trans
        ((congrArg Exchange.EXX.swap hregs).trans (Exchange.EXX.swap_involutive s.contents))
    | EX_AF =>
      refine iff_of_true ⟨rfl, fun t ht _ => ?_⟩ nofun
      exact (congrArg Exchange.EX_AF.swap ht).trans (Exchange.EX_AF.swap_involutive s.contents)
    | EX_DE_HL =>
      refine iff_of_true ⟨rfl, fun t ht _ => ?_⟩ nofun
      exact (congrArg Exchange.EX_DE_HL.swap ht).trans (Exchange.EX_DE_HL.swap_involutive s.contents)
    | EX_SP_HL => nomatch htop
    | EX_SP_IX => nomatch htop
    | EX_SP_IY => nomatch htop

/-- `EX (SP),HL` with a word that is in the memory. -/
def exchangingTop : Machine :=
  { Machine.start (fun a => if a = 0x8000 then 3 else if a = 0x8001 then 4 else 0xE3) with
    regs := { Regs.zero with HL := ⟨1, 2⟩, SP := 0x8000 } }

/-- Both bytes are exchanged. -/
theorem exchange_right_exchangingTop : Exchange.EX_SP_HL.Right exchangingTop := by
  refine (exchange_right_iff .EX_SP_HL exchangingTop ⟨by decide, trivial⟩).mpr ⟨nofun, ?_⟩
  rintro r ⟨⟩
  exact .inl (.inr (by decide))

/-- `EXX` with 1 in HL, which stays there. -/
def exchangingAll : Machine := { Machine.start (fun _ => 0xD9) with regs := { Regs.zero with HL := ⟨0, 1⟩ } }

/-- HL is not exchanged. -/
theorem EXX_keeps_HL : exchangingAll.At Exchange.EXX.code ∧ exchangingAll.step.regs.HL = ⟨0, 1⟩ ∧
    ¬ Exchange.EXX.Right exchangingAll := by
  have hcode : exchangingAll.At Exchange.EXX.code := ⟨by decide, trivial⟩
  have hHL : exchangingAll.step.regs.HL = ⟨0, 1⟩ := by decide
  refine ⟨hcode, hHL, fun h => ?_⟩
  obtain ⟨dummy, hrun⟩ := h.once
  have hswap : exchangingAll.step.regs.HL = (Exchange.EXX.swap exchangingAll.contents).1.HL :=
    congrArg (fun p : Res × Machine => p.2.regs.HL) hrun
  rw [hswap] at hHL
  exact absurd hHL (by decide)

end Ucsim.Z80
