import Ucsim.S51.Element

/-!
# The watchdog of the 8051R

`cl_wdt` is started and restarted by the writes 0x1E and 0xE1 to `WDTRST`, one after the other. It recognizes them by
what the cell of the register still holds, which a reset of the watchdog alone does not clear.
-/

namespace Ucsim.S51

open Logic

namespace Reg

def WDTRST : Int := 0xA6

end Reg

/-- The data of the watchdog. -/
structure Wdt where
  reset_value : Int
  wdt : Int
  written_since_reset : Bool

/-- The watchdog and the memory. -/
abbrev WdtSt := ElementSt Wdt

namespace Wdt

def wdtrst : Site := .sfr Reg.WDTRST

/-- The constructor. -/
def construct (reset_value : Int) : Wdt := { reset_value := reset_value, wdt := -1, written_since_reset := false }

/-- `write`. -/
def write (c : Site) (val : TMem) (st : WdtSt) : WdtSt :=
  let wdt := if c = wdtrst ∧ val &&& 0xff = 0xe1 ∧ st.mem wdtrst = 0x1e ∧ st.hw.written_since_reset then 0 else st.hw.wdt
  { st with hw := { st.hw with wdt := wdt, written_since_reset := true } }

/-- `reset`. -/
def reset (st : WdtSt) : WdtSt := { st with hw := { st.hw with wdt := -1, written_since_reset := false } }

/-- The watchdog as an element of the board. -/
def element : Element Wdt where
  cathegory := .wdt
  registered := [wdtrst]
  read c st := st.mem c
  write := write
  registered_core := by decide
  registered_code := by decide
  write_bytes _ _ _ h := h

/-- `reset` of the CPU: the watchdog is reset, and `clear_sfr` sets its register to 0. -/
def cpuReset (st : WdtSt) : WdtSt := ElementSt.store wdtrst 0 (reset st)

/-- `tick`, and whether it resets the CPU. -/
def tick (cycles : Nat) (st : WdtSt) : WdtSt × Bool :=
  if 0 ≤ st.hw.wdt then
    let st := { st with hw := { st.hw with wdt := st.hw.wdt + cycles } }
    if st.hw.reset_value < st.hw.wdt then (cpuReset st, true) else (st, false)
  else (st, false)

/-! ## What the watchdog is for -/

/-- What concerns the watchdog between two resets. -/
inductive Event
  | write (val : TMem)
  | tick (cycles : Nat)
  deriving DecidableEq, Repr

/-- The byte of the last write. The last event is first. -/
def lastWrite : List Event → Option TMem
  | [] => none
  | .write val :: _ => some (val &&& 0xff)
  | .tick _ :: h => lastWrite h

/-- Does a write complete the pair? -/
def Completes (val : TMem) (h : List Event) : Prop := val &&& 0xff = 0xe1 ∧ lastWrite h = some 0x1e

instance (val : TMem) (h : List Event) : Decidable (Completes val h) := inferInstanceAs (Decidable (_ ∧ _))

/-- The cycles since the 0xE1 of the last pair. -/
def sinceFed : List Event → Option Nat
  | [] => none
  | .write val :: h => if Completes val h then some 0 else sinceFed h
  | .tick cycles :: h => (sinceFed h).map (· + cycles)

/-- The runs of the watchdog, with the events since the construction or the last reset. The register may hold anything
in the beginning. -/
inductive Run (reset_value : Int) : List Event → WdtSt → Prop
  | construct (mem : Site → TMem) : Run reset_value [] { mem := mem, hw := construct reset_value }
  | reset {h st} (hrun : Run reset_value h st) : Run reset_value [] (cpuReset st)
  | resetAlone {h st} (hrun : Run reset_value h st) : Run reset_value [] (reset st)
  | write {h st} (val : TMem) (hrun : Run reset_value h st) :
      Run reset_value (.write val :: h) (element.writeReg wdtrst val st)
  | tick {h st} (cycles : Nat) (hrun : Run reset_value h st) :
      Run reset_value (if (tick cycles st).2 then [] else .tick cycles :: h) (tick cycles st).1

/-- What the data are after the events. -/
structure Follows (reset_value : Int) (h : List Event) (st : WdtSt) : Prop where
  limit : st.hw.reset_value = reset_value
  wdt : st.hw.wdt = ((sinceFed h).elim (-1) fun n => n : Int)
  written : st.hw.written_since_reset = (lastWrite h).isSome
  cell : ∀ b ∈ lastWrite h, st.mem wdtrst = b

variable {reset_value : Int} {h : List Event} {st : WdtSt}

/-- The watchdog sees a pair where there is one. -/
theorem Follows.completes_iff (hf : Follows reset_value h st) (val : TMem) :
    (wdtrst = wdtrst ∧ val &&& 0xff = 0xe1 ∧ st.mem wdtrst = 0x1e ∧ st.hw.written_since_reset) ↔ Completes val h := by
  have hlast : st.mem wdtrst = 0x1e ∧ st.hw.written_since_reset ↔ lastWrite h = some 0x1e := by
    rw [hf.written]
    cases hlast : lastWrite h with
    | none => exact iff_of_false (fun hseen => Bool.false_ne_true hseen.2) nofun
    | some b =>
      rw [hf.cell b hlast, Option.some_inj]
      exact and_iff_left rfl
  rw [Completes, ← hlast]
  exact and_iff_right rfl

theorem Follows.write (hf : Follows reset_value h st) (val : TMem) :
    Follows reset_value (.write val :: h) (element.writeReg wdtrst val st) := by
  refine ⟨hf.limit, ?_, rfl, ?_⟩
  · show (if wdtrst = wdtrst ∧ val &&& 0xff = 0xe1 ∧ st.mem wdtrst = 0x1e ∧ st.hw.written_since_reset then 0
      else st.hw.wdt) = _
    rw [sinceFed]
    by_cases hpair : Completes val h
    · rw [if_pos hpair, if_pos ((hf.completes_iff val).mpr hpair)]
      rfl
    · rw [if_neg hpair, if_neg fun hseen => hpair ((hf.completes_iff val).mp hseen)]
      exact hf.wdt
  · intro b hb
    cases hb
    exact Function.update_self wdtrst (val &&& 0xff) (Wdt.write wdtrst val st).mem

/-- The watchdog with more cycles counted. -/
def counted (cycles : Nat) (st : WdtSt) : WdtSt := { st with hw := { st.hw with wdt := st.hw.wdt + cycles } }

theorem tick_off {cycles : Nat} (hoff : st.hw.wdt < 0) : Wdt.tick cycles st = (st, false) :=
  if_neg (Int.not_le.mpr hoff)

theorem tick_on {cycles : Nat} (hon : 0 ≤ st.hw.wdt) : Wdt.tick cycles st =
    if st.hw.reset_value < st.hw.wdt + cycles then (cpuReset (counted cycles st), true) else (counted cycles st, false) :=
  if_pos hon

/-- A tick resets the CPU when the cycles since the last pair are more than the limit. -/
theorem Follows.tick_iff (hf : Follows reset_value h st) (cycles : Nat) :
    (Wdt.tick cycles st).2 = true ↔ ∃ n ∈ sinceFed h, reset_value < n + cycles := by
  have hwdt := hf.wdt
  cases hfed : sinceFed h with
  | none =>
    rw [hfed, Option.elim_none] at hwdt
    rw [tick_off (by omega)]
    simp
  | some n =>
    rw [hfed, Option.elim_some] at hwdt
    rw [tick_on (by omega), hf.limit, hwdt]
    simp only [Option.mem_some_iff, exists_eq_left']
    split
    next hover => exact iff_of_true rfl hover
    next hbelow => exact iff_of_false Bool.false_ne_true hbelow

/-- After a reset nothing of the run before it counts. -/
theorem follows_cpuReset (hlimit : st.hw.reset_value = reset_value) : Follows reset_value [] (cpuReset st) :=
  ⟨hlimit, rfl, rfl, nofun⟩

theorem Follows.tick_resets (hf : Follows reset_value h st) {cycles : Nat} (hresets : (Wdt.tick cycles st).2 = true) :
    Follows reset_value [] (Wdt.tick cycles st).1 := by
  by_cases hon : 0 ≤ st.hw.wdt
  · rw [tick_on hon] at hresets ⊢
    split at hresets
    next hover =>
      rw [if_pos hover]
      exact follows_cpuReset hf.limit
    next => cases hresets
  · rw [tick_off (Int.not_le.mp hon)] at hresets
    cases hresets

theorem Follows.tick (hf : Follows reset_value h st) {cycles : Nat} (hgoes : ¬ (Wdt.tick cycles st).2 = true) :
    Follows reset_value (.tick cycles :: h) (Wdt.tick cycles st).1 := by
  have hwdt := hf.wdt
  cases hfed : sinceFed h with
  | none =>
    rw [hfed, Option.elim_none] at hwdt
    rw [tick_off (by omega)]
    refine ⟨hf.limit, ?_, hf.written, hf.cell⟩
    rw [sinceFed, hfed]
    exact hwdt
  | some n =>
    rw [hfed, Option.elim_some] at hwdt
    rw [tick_on (by omega)] at hgoes ⊢
    split at hgoes
    next => exact absurd rfl hgoes
    next hbelow =>
      rw [if_neg hbelow]
      refine ⟨hf.limit, ?_, hf.written, hf.cell⟩
      show st.hw.wdt + cycles = _
      rw [sinceFed, hfed, hwdt]
      exact (Int.natCast_add n cycles).symm

theorem Run.follows (hrun : Run reset_value h st) : Follows reset_value h st := by
  induction hrun with
  | construct mem => exact ⟨rfl, rfl, rfl, nofun⟩
  | reset _ ih => exact follows_cpuReset ih.limit
  | resetAlone _ ih => exact ⟨ih.limit, rfl, rfl, nofun⟩
  | write val _ ih => exact ih.write val
  | @tick h st cycles _ ih =>
    by_cases hgoes : (Wdt.tick cycles st).2 = true
    · rw [if_pos hgoes]
      exact ih.tick_resets hgoes
    · rw [if_neg hgoes]
      exact ih.tick hgoes

/-- In every run a tick resets the CPU if and only if 0x1E and 0xE1 have been written one after the other since the last
reset, and more cycles than the limit have passed since the last such 0xE1. Any other write leaves the counter as it
is. -/
theorem resets_iff (hrun : Run reset_value h st) :
    (∀ cycles, (Wdt.tick cycles st).2 = true ↔ ∃ n ∈ sinceFed h, reset_value < n + cycles) ∧
      ∀ val, ¬ Completes val h → (element.writeReg wdtrst val st).hw.wdt = st.hw.wdt := by
  refine ⟨hrun.follows.tick_iff, fun val hother => ?_⟩
  have hseen : ¬ (wdtrst = wdtrst ∧ val &&& 0xff = 0xe1 ∧ st.mem wdtrst = 0x1e ∧ st.hw.written_since_reset) :=
    fun hseen => hother ((hrun.follows.completes_iff val).mp hseen)
  exact if_neg hseen

/-- The limit of the 8051R is reached behind the pair. -/
theorem resets_iff_fed : ∃ st, Run 0x3fff [.tick 0x3fff, .write 0xe1, .write 0x1e] st ∧ (tick 1 st).2 = true := by
  have hrun : Run 0x3fff [.tick 0x3fff, .write 0xe1, .write 0x1e] _ :=
    .tick 0x3fff (.write 0xe1 (.write 0x1e (.construct fun _ => 0)))
  exact ⟨_, hrun, ((resets_iff hrun).1 1).mpr ⟨0x3fff, by decide, by decide⟩⟩

end Wdt

end Ucsim.S51
