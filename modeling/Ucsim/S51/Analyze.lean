import Ucsim.Graph.Search
import Ucsim.S51.DebugAccess
import Ucsim.S51.Operands
import Ucsim.S51.Stable

/-!
# The instruction map

`analyze` marks the addresses that it takes for the beginning of an instruction. It looks up the kind of
each instruction in the table of the disassembler and computes the targets of the branches itself. It is
a depth first search, and the mark is a flag of the cell of `rom`.
-/

namespace Ucsim.S51

open Logic

/-! ## The table of the disassembler -/

/-- The character `branch` of an entry. -/
inductive Branch
  | acall | ajmp | lcall | ljmp | rel2 | rel3 | sjmp | stop | no
  deriving DecidableEq, Repr

/-- What `analyze` uses of an entry: `branch` and `length`. -/
structure DisEntry where
  branch : Branch
  length : Nat
  deriving DecidableEq, Repr

/-- `disass_51`: sixteen instruction codes in each line. -/
def disass51 : List DisEntry :=
  [[⟨.no, 1⟩, ⟨.ajmp, 2⟩, ⟨.ljmp, 3⟩, ⟨.no, 1⟩, ⟨.no, 1⟩, ⟨.no, 2⟩] ++
      (.replicate 10 ⟨.no, 1⟩ : List DisEntry),
    [⟨.rel3, 3⟩, ⟨.acall, 2⟩, ⟨.lcall, 3⟩, ⟨.no, 1⟩, ⟨.no, 1⟩, ⟨.no, 2⟩] ++
      (.replicate 10 ⟨.no, 1⟩ : List DisEntry),
    [⟨.rel3, 3⟩, ⟨.ajmp, 2⟩, ⟨.stop, 1⟩, ⟨.no, 1⟩, ⟨.no, 2⟩, ⟨.no, 2⟩] ++
      (.replicate 10 ⟨.no, 1⟩ : List DisEntry),
    [⟨.rel3, 3⟩, ⟨.acall, 2⟩, ⟨.stop, 1⟩, ⟨.no, 1⟩, ⟨.no, 2⟩, ⟨.no, 2⟩] ++
      (.replicate 10 ⟨.no, 1⟩ : List DisEntry),
    [⟨.rel2, 2⟩, ⟨.ajmp, 2⟩, ⟨.no, 2⟩, ⟨.no, 3⟩, ⟨.no, 2⟩, ⟨.no, 2⟩] ++
      (.replicate 10 ⟨.no, 1⟩ : List DisEntry),
    [⟨.rel2, 2⟩, ⟨.acall, 2⟩, ⟨.no, 2⟩, ⟨.no, 3⟩, ⟨.no, 2⟩, ⟨.no, 2⟩] ++
      (.replicate 10 ⟨.no, 1⟩ : List DisEntry),
    [⟨.rel2, 2⟩, ⟨.ajmp, 2⟩, ⟨.no, 2⟩, ⟨.no, 3⟩, ⟨.no, 2⟩, ⟨.no, 2⟩] ++
      (.replicate 10 ⟨.no, 1⟩ : List DisEntry),
    [⟨.rel2, 2⟩, ⟨.acall, 2⟩, ⟨.no, 2⟩, ⟨.stop, 1⟩, ⟨.no, 2⟩, ⟨.no, 3⟩] ++
      (.replicate 10 ⟨.no, 2⟩ : List DisEntry),
    [⟨.sjmp, 2⟩, ⟨.ajmp, 2⟩, ⟨.no, 2⟩, ⟨.no, 1⟩, ⟨.no, 1⟩, ⟨.no, 3⟩] ++
      (.replicate 10 ⟨.no, 2⟩ : List DisEntry),
    [⟨.no, 3⟩, ⟨.acall, 2⟩, ⟨.no, 2⟩, ⟨.no, 1⟩, ⟨.no, 2⟩, ⟨.no, 2⟩] ++
      (.replicate 10 ⟨.no, 1⟩ : List DisEntry),
    [⟨.no, 2⟩, ⟨.ajmp, 2⟩, ⟨.no, 2⟩, ⟨.no, 1⟩, ⟨.no, 1⟩, ⟨.stop, 1⟩] ++
      (.replicate 10 ⟨.no, 2⟩ : List DisEntry),
    [⟨.no, 2⟩, ⟨.acall, 2⟩, ⟨.no, 2⟩, ⟨.no, 1⟩, ⟨.rel3, 3⟩, ⟨.rel3, 3⟩] ++
      (.replicate 10 ⟨.rel3, 3⟩ : List DisEntry),
    [⟨.no, 2⟩, ⟨.ajmp, 2⟩, ⟨.no, 2⟩, ⟨.no, 1⟩, ⟨.no, 1⟩, ⟨.no, 2⟩] ++
      (.replicate 10 ⟨.no, 1⟩ : List DisEntry),
    [⟨.no, 2⟩, ⟨.acall, 2⟩, ⟨.no, 2⟩, ⟨.no, 1⟩, ⟨.no, 1⟩, ⟨.rel3, 3⟩, ⟨.no, 1⟩, ⟨.no, 1⟩] ++
      (.replicate 8 ⟨.rel2, 2⟩ : List DisEntry),
    [⟨.no, 1⟩, ⟨.ajmp, 2⟩, ⟨.no, 1⟩, ⟨.no, 1⟩, ⟨.no, 1⟩, ⟨.no, 2⟩] ++
      (.replicate 10 ⟨.no, 1⟩ : List DisEntry),
    [⟨.no, 1⟩, ⟨.acall, 2⟩, ⟨.no, 1⟩, ⟨.no, 1⟩, ⟨.no, 1⟩, ⟨.no, 2⟩] ++
      (.replicate 10 ⟨.no, 1⟩ : List DisEntry)].flatten

/-- `dis_tbl()[code]`. -/
def disTbl (code : TMem) : DisEntry := disass51.getD code.toNat ⟨.no, 0⟩

/-! ## The instruction map -/

/-- What ends a program that looks at the code: an assertion of the memory system, an index outside of
`rec`, or the bound on the rounds of a loop. -/
inductive LoadAbort
  | memory (e : Abort)
  | recIndex
  | rounds
  deriving DecidableEq, Repr

/-- The memory system, and the flags `CELL_INST` of the cells of `rom`. -/
structure CodeState (V : Type) where
  mem : MemState V
  inst : Site → Bool

abbrev CodeProg (V α : Type) := Program LoadAbort (CodeState V) α

section

variable {V α : Type}

/-- Run a program of the memory system. -/
def onSpace (x : MemProg V α) : CodeProg V α := fun t =>
  match x.run t.mem with
  | .ok (a, s) => .ok (a, { t with mem := s })
  | .error e => .error (.memory e)

instance : MonadLift (Program Abort (MemState V)) (Program LoadAbort (CodeState V)) := ⟨onSpace⟩

theorem onSpace_run_ok {x : MemProg V α} {t : CodeState V} {a : α} {s : MemState V}
    (h : x.run t.mem = .ok (a, s)) : (onSpace x).run t = .ok (a, { t with mem := s }) := by
  have hrun : (onSpace x).run t = match x.run t.mem with
      | .ok (a, s) => .ok (a, { t with mem := s })
      | .error e => .error (.memory e) := rfl
  rw [hrun, h]

/-- `inst_at`. -/
def instAt (addr : Int) : CodeProg V Bool := do return (← get).inst (Space.rom.cellAt addr)

/-- `set_inst_at`. -/
def setInstAt (addr : Int) : CodeProg V Unit :=
  modify fun t => { t with inst := Function.update t.inst (Space.rom.cellAt addr) true }

end

/-- `(addr & 0xf800) | ((h & 0x07)*256 + l)`. -/
def analyzedPage (addr : Int) (h l : TMem) : Int :=
  ((BitVec.ofInt 32 addr &&& 0xf800) ||| BitVec.ofNat 32 ((h &&& 0x07).toNat * 256 + l.toNat)).toNat

/-- `rom->validate_address(addr + (signed char)d)`. -/
def analyzedRel (addr : Int) (d : TMem) : Int := Space.rom.validateAddress (addr + (uchar d).toInt)

variable {Dev V : Type} (D : Devices Dev V)

/-- The switch of `analyze`. After it the loop goes on at the address that `addr` then has. -/
def analyzeSwitch (go : Int → CodeProg V Unit) (addr : Int) (tabl : DisEntry) : CodeProg V Unit :=
  match tabl.branch with
  | .acall => do
    let h ← Space.rom.get D (addr + 1)
    let l ← Space.rom.get D (addr + 2)
    go (analyzedPage addr h l)
    go (addr + tabl.length)
    go addr
  | .ajmp => do
    let h ← Space.rom.get D (addr + 1)
    let l ← Space.rom.get D (addr + 2)
    go (analyzedPage addr h l)
  | .lcall => do
    let h ← Space.rom.get D (addr + 1)
    let l ← Space.rom.get D (addr + 2)
    go (h.toNat * 256 + l.toNat)
    go (addr + tabl.length)
    go addr
  | .ljmp => do
    let h ← Space.rom.get D (addr + 1)
    let l ← Space.rom.get D (addr + 2)
    go (h.toNat * 256 + l.toNat)
  | .rel2 => do
    let d ← Space.rom.get D (addr + 1)
    go (analyzedRel addr d)
    go (addr + tabl.length)
    go addr
  | .rel3 => do
    let d ← Space.rom.get D (addr + 2)
    go (analyzedRel addr d)
    go (addr + tabl.length)
    go addr
  | .sjmp => do
    let target ← Space.rom.get D (addr + 1)
    go (analyzedRel (addr + 2) target)
  | .stop => return
  | .no => go (Space.rom.validateAddress (addr + tabl.length))

/-- `analyze`. A round of its loop begins as a call does, so each round after the first is one. `fuel`
bounds the depth. -/
def analyze : Nat → Int → CodeProg V Unit
  | 0, _ => throw .rounds
  | fuel + 1, addr => do
    let code ← Space.rom.get D addr
    let marked ← instAt addr
    if marked || code == 0xa5 then return
    else
      setInstAt addr
      analyzeSwitch D (analyze fuel) addr (disTbl code)

/-- There are 0x10000 cells and the dummy to be marked. -/
def analyzeFuel : Nat := 0x10002

/-! ## The search -/

/-- What `rom->get` returns. -/
def romAt (mem : Site → TMem) (addr : Int) : TMem := mem (romByte (mem mcon) (mem fmap) addr)

/-- Where `analyze` goes from an address. -/
def analyzedNext (mem : Site → TMem) (addr : Int) : List Int :=
  let tabl := disTbl (romAt mem addr)
  let byte1 := romAt mem (addr + 1)
  let byte2 := romAt mem (addr + 2)
  match tabl.branch with
  | .acall => [analyzedPage addr byte1 byte2, addr + tabl.length, addr]
  | .ajmp => [analyzedPage addr byte1 byte2]
  | .lcall => [byte1.toNat * 256 + byte2.toNat, addr + tabl.length, addr]
  | .ljmp => [byte1.toNat * 256 + byte2.toNat]
  | .rel2 => [analyzedRel addr byte1, addr + tabl.length, addr]
  | .rel3 => [analyzedRel addr byte2, addr + tabl.length, addr]
  | .sjmp => [analyzedRel (addr + 2) byte1]
  | .stop => []
  | .no => [Space.rom.validateAddress (addr + tabl.length)]

/-- The code as a graph to search: an address with the code 0xA5 is not followed. -/
def codeGraph (mem : Site → TMem) : Graph.Search Int Site where
  key := Space.rom.cellAt
  skip addr := romAt mem addr == 0xa5
  next := analyzedNext mem

/-- Started with the marks of `vs`, the program leaves the bytes alone and ends with the marks of the
result, or runs out of rounds if there is none. -/
def Searches (mem : Site → TMem) (old : Site → Bool) (x : CodeProg V Unit) (vs : List Int)
    (result : Option (List Int)) : Prop :=
  ∀ s : CodeState V, s.mem.sys.mem = mem → s.inst = (codeGraph mem).marked old vs →
    match result with
    | none => x.run s = .error .rounds
    | some vs' => ∃ t, x.run s = .ok ((), t) ∧ t.mem.sys.mem = mem ∧ t.inst = (codeGraph mem).marked old vs'

variable {D} {mem : Site → TMem} {old : Site → Bool} {vs : List Int}

namespace Searches

variable {x y : CodeProg V Unit} {result : Option (List Int)}

theorem done : Searches mem old (pure () : CodeProg V Unit) vs (some vs) := fun s hs hinst =>
  ⟨s, rfl, hs, hinst⟩

theorem bind {next : List Int → Option (List Int)} (hx : Searches mem old x vs result)
    (hy : ∀ ws, Searches mem old y ws (next ws)) :
    Searches mem old (do x; y) vs (result.bind next) := by
  intro s hs hinst
  have hrun := hx s hs hinst
  cases result with
  | none =>
    change (x >>= fun _ => y).run s = .error .rounds
    rw [StateT.run_bind, hrun]
    rfl
  | some ws =>
    obtain ⟨t, hrun, ht, htinst⟩ := hrun
    have hrest := hy ws t ht htinst
    change match next ws with
      | none => (x >>= fun _ => y).run s = .error .rounds
      | some vs' => ∃ t, (x >>= fun _ => y).run s = .ok ((), t) ∧ t.mem.sys.mem = mem ∧
          t.inst = (codeGraph mem).marked old vs'
    rw [Program.run_bind_of_ok hrun]
    exact hrest

/-- `rom->get` returns the byte behind the address. -/
theorem get {addr : Int} (h0 : 0 ≤ addr) {f : TMem → CodeProg V Unit}
    (hf : Searches mem old (f (romAt mem addr)) vs result) :
    Searches mem old (onSpace (Space.rom.get D addr) >>= f) vs result := by
  intro s hs hinst
  obtain ⟨u, hrun, hu⟩ := getRom_yields (D := D) h0 s.mem
  have hget : (onSpace (Space.rom.get D addr)).run s
      = .ok (romAt mem addr, { s with mem := { s.mem with sys := u } }) := by
    rw [← hs]
    exact onSpace_run_ok hrun
  rw [Program.run_bind_of_ok hget]
  exact hf _ (hu.trans hs) hinst

end Searches

/-- The next address is not negative. -/
theorem analyzedNext_nonneg {addr : Int} (h0 : 0 ≤ addr) : ∀ a ∈ analyzedNext mem addr, 0 ≤ a := by
  have hpage : ∀ h l, 0 ≤ analyzedPage addr h l := fun h l => Int.natCast_nonneg _
  have hrel : ∀ a d, 0 ≤ analyzedRel a d := fun a d => validateAddress_nonneg _
  unfold analyzedNext
  intro a ha
  dsimp only at ha
  split at ha
  all_goals
    simp only [List.mem_cons, List.not_mem_nil, or_false] at ha
  · rcases ha with rfl | rfl | rfl
    · exact hpage _ _
    · omega
    · exact h0
  · rw [ha]
    exact hpage _ _
  · rcases ha with rfl | rfl | rfl <;> omega
  · omega
  · rcases ha with rfl | rfl | rfl
    · exact hrel _ _
    · omega
    · exact h0
  · rcases ha with rfl | rfl | rfl
    · exact hrel _ _
    · omega
    · exact h0
  · rw [ha]
    exact hrel _ _
  · rw [ha]
    exact validateAddress_nonneg _

/-- The switch goes on with the successors, one after the other. -/
theorem analyzeSwitch_searches {go : Int → CodeProg V Unit} {visit : Int → List Int → Option (List Int)}
    (hgo : ∀ a, 0 ≤ a → ∀ vs, Searches mem old (go a) vs (visit a vs)) {addr : Int} (h0 : 0 ≤ addr)
    (vs : List Int) : Searches mem old (analyzeSwitch D go addr (disTbl (romAt mem addr))) vs
      ((analyzedNext mem addr).foldlM (fun vs b => visit b vs) vs) := by
  have hnext : ∀ a ∈ analyzedNext mem addr, 0 ≤ a := analyzedNext_nonneg h0
  unfold analyzedNext at hnext ⊢
  unfold analyzeSwitch
  have h1 : 0 ≤ addr + 1 := by omega
  have h2 : 0 ≤ addr + 2 := by omega
  have hone : ∀ a, 0 ≤ a → ∀ ws, Searches mem old (go a) ws ([a].foldlM (fun vs b => visit b vs) ws) := by
    intro a ha ws
    have hlast := hgo a ha ws
    rwa [← Option.bind_fun_some (visit a ws)] at hlast
  have hthree : ∀ a b c, 0 ≤ a → 0 ≤ b → 0 ≤ c → Searches mem old (do go a; go b; go c) vs
      ([a, b, c].foldlM (fun vs b => visit b vs) vs) := fun a b c ha hb hc =>
    (hgo a ha vs).bind fun ws => (hgo b hb ws).bind fun ws => hone c hc ws
  dsimp only at hnext ⊢
  cases hb : (disTbl (romAt mem addr)).branch with
  | acall | lcall =>
    rw [hb] at hnext
    exact Searches.get h1 (Searches.get h2 (hthree _ _ _ (hnext _ (by simp)) (hnext _ (by simp)) h0))
  | ajmp | ljmp =>
    rw [hb] at hnext
    exact Searches.get h1 (Searches.get h2 (hone _ (hnext _ (by simp)) vs))
  | rel2 =>
    rw [hb] at hnext
    exact Searches.get h1 (hthree _ _ _ (hnext _ (by simp)) (hnext _ (by simp)) h0)
  | rel3 =>
    rw [hb] at hnext
    exact Searches.get h2 (hthree _ _ _ (hnext _ (by simp)) (hnext _ (by simp)) h0)
  | sjmp =>
    rw [hb] at hnext
    exact Searches.get h1 (hone _ (hnext _ (by simp)) vs)
  | stop => exact Searches.done
  | no =>
    rw [hb] at hnext
    exact hone _ (hnext _ (by simp)) vs

/-- Marking an address. -/
theorem marked_cons (addr : Int) : Function.update ((codeGraph mem).marked old vs) (Space.rom.cellAt addr) true
    = (codeGraph mem).marked old (addr :: vs) := by
  funext c
  have hkey : (codeGraph mem).key addr = Space.rom.cellAt addr := rfl
  simp only [Function.update_apply, Graph.Search.marked, List.map_cons, List.contains_cons, hkey]
  by_cases hc : c = Space.rom.cellAt addr
  · simp [hc]
  · rw [if_neg hc, beq_eq_false_iff_ne.mpr hc, Bool.false_or]

/-- `analyze` is the search. -/
theorem analyze_searches (fuel : Nat) {addr : Int} (h0 : 0 ≤ addr) (vs : List Int) :
    Searches mem old (analyze D fuel addr) vs ((codeGraph mem).visit old fuel addr vs) := by
  induction fuel generalizing addr vs with
  | zero => exact fun s _ _ => rfl
  | succ fuel ih =>
    unfold analyze
    refine Searches.get h0 fun s hs hinst => ?_
    have hinstAt : (instAt addr : CodeProg V Bool).run s
        = .ok ((codeGraph mem).marked old vs (Space.rom.cellAt addr), s) := by
      rw [← hinst]
      rfl
    have hskip : (codeGraph mem).skip addr = (romAt mem addr == 0xa5) := rfl
    have hkey : (codeGraph mem).key addr = Space.rom.cellAt addr := rfl
    rw [Program.run_bind_of_ok hinstAt, Graph.Search.visit, hskip, hkey]
    by_cases hdone : ((codeGraph mem).marked old vs (Space.rom.cellAt addr) || romAt mem addr == 0xa5) = true
    · rw [if_pos hdone, if_pos hdone]
      exact Searches.done s hs hinst
    · rw [if_neg hdone, if_neg hdone]
      have hset : (setInstAt addr : CodeProg V Unit).run s
          = .ok ((), { s with inst := (codeGraph mem).marked old (addr :: vs) }) := by
        rw [← marked_cons, ← hinst]
        rfl
      rw [Program.run_bind_of_ok hset]
      exact analyzeSwitch_searches (fun a ha ws => ih ha ws) h0 (addr :: vs) _ hs rfl

/-- The cells that are marked. -/
def romCells : Finset Site := 
  insert (.dummy .rom) ((Finset.range 0x10000).image fun i : Nat => .cell .rom i)

theorem cellAt_mem_romCells (addr : Int) : Space.rom.cellAt addr ∈ romCells := by
  unfold romCells Space.cellAt
  split
  · exact Finset.mem_insert_self _ _
  · next h =>
    simp only [Space.invalid, Space.startAddress, Space.size] at h
    refine Finset.mem_insert_of_mem (Finset.mem_image.mpr ⟨addr.toNat, ?_, ?_⟩)
    · rw [Finset.mem_range]
      omega
    · refine congrArg (Site.cell .rom) ?_
      simp only [Space.startAddress]
      omega

/-- `analyze` ends. It changes no byte, and marks what the search follows. -/
theorem analyze_run {addr : Int} (h0 : 0 ≤ addr) (s : CodeState V) :
    ∃ vs t, (codeGraph s.mem.sys.mem).visit s.inst analyzeFuel addr [] = some vs ∧
      (analyze D analyzeFuel addr).run s = .ok ((), t) ∧ t.mem.sys.mem = s.mem.sys.mem ∧
      t.inst = (codeGraph s.mem.sys.mem).marked s.inst vs := by
  have hcard : (Graph.Search.unmarked (codeGraph s.mem.sys.mem) s.inst romCells []).card < analyzeFuel := by
    have hle : (Graph.Search.unmarked (codeGraph s.mem.sys.mem) s.inst romCells []).card ≤ romCells.card :=
      Finset.card_le_card (Finset.filter_subset _ _)
    have hcells : romCells.card ≤ ((Finset.range 0x10000).image fun i : Nat => Site.cell .rom i).card + 1 :=
      Finset.card_insert_le _ _
    have himage := Finset.card_image_le (s := Finset.range 0x10000) (f := fun i : Nat => Site.cell .rom i)
    rw [Finset.card_range] at himage
    unfold analyzeFuel
    omega
  obtain ⟨vs, hvs⟩ := Graph.Search.visit_isSome (N := fun a => 0 ≤ a) (fun a _ => cellAt_mem_romCells a)
    (fun a ha => analyzedNext_nonneg ha) h0 hcard
  have hold : s.inst = (codeGraph s.mem.sys.mem).marked s.inst [] := by
    funext c
    simp [Graph.Search.marked]
  have hrun := analyze_searches (D := D) analyzeFuel h0 [] s rfl hold
  rw [hvs] at hrun
  obtain ⟨t, hrun, hmem, hinst⟩ := hrun
  exact ⟨vs, t, hvs, hrun, hmem, hinst⟩

/-! ## Marking once -/

/-- `set_inst_at` with the assertion that the cell is not marked yet. -/
def setInstOnce (addr : Int) : CodeProg V Unit := do
  if ← instAt addr then throw .rounds
  setInstAt addr

variable (D) in
/-- `analyze` with that assertion. -/
def analyzeOnce : Nat → Int → CodeProg V Unit
  | 0, _ => throw .rounds
  | fuel + 1, addr => do
    let code ← Space.rom.get D addr
    let marked ← instAt addr
    if marked || code == 0xa5 then return
    else
      setInstOnce addr
      analyzeSwitch D (analyzeOnce fuel) addr (disTbl code)

variable (D) in
/-- The assertion never fails. -/
theorem analyzeOnce_eq (fuel : Nat) : analyzeOnce D fuel = analyze D fuel := by
  induction fuel with
  | zero => rfl
  | succ fuel ih =>
    funext addr
    unfold analyzeOnce analyze
    rw [ih]
    refine bind_congr fun code => StateT.ext fun s => ?_
    have hinstAt : (instAt addr : CodeProg V Bool).run s = .ok (s.inst (Space.rom.cellAt addr), s) := rfl
    rw [Program.run_bind_of_ok hinstAt, Program.run_bind_of_ok hinstAt]
    by_cases hdone : (s.inst (Space.rom.cellAt addr) || code == 0xa5) = true
    · rw [if_pos hdone, if_pos hdone]
    · have hmark : s.inst (Space.rom.cellAt addr) = false := by
        rw [Bool.or_eq_true, not_or, Bool.not_eq_true] at hdone
        exact hdone.1
      have honce : (setInstOnce addr : CodeProg V Unit).run s = (setInstAt addr : CodeProg V Unit).run s := by
        unfold setInstOnce
        rw [Program.run_bind_of_ok hinstAt, hmark]
        rfl
      rw [if_neg hdone, if_neg hdone, StateT.run_bind, StateT.run_bind, honce]

variable (D) in
/-- `analyze` ends from every address and marks, and no cell that it marks has been marked before. -/
theorem analyze_ends {addr : Int} (h0 : 0 ≤ addr) (s : CodeState V) :
    ∃ t, (analyze D analyzeFuel addr).run s = .ok ((), t) ∧ (analyzeOnce D analyzeFuel addr).run s = .ok ((), t) ∧
      ∀ c, s.inst c = true → t.inst c = true := by
  obtain ⟨vs, t, -, hrun, -, hinst⟩ := analyze_run (D := D) h0 s
  refine ⟨t, hrun, by rw [analyzeOnce_eq]; exact hrun, fun c hc => ?_⟩
  rw [hinst, Graph.Search.marked, hc, Bool.true_or]

/-- At the last address of blank code. -/
theorem analyze_ends_ffff :
    let s : CodeState Unit := ⟨blank fun _ => 0, fun _ => false⟩
    ∃ t, (analyze noDevices analyzeFuel 0xffff).run s = .ok ((), t) ∧
      (analyzeOnce noDevices analyzeFuel 0xffff).run s = .ok ((), t) ∧ ∀ c, s.inst c = true → t.inst c = true :=
  analyze_ends noDevices (by decide : (0 : Int) ≤ 0xffff) ⟨blank fun _ => 0, fun _ => false⟩

end Ucsim.S51
