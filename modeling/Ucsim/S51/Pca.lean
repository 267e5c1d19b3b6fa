import Mathlib.Data.BitVec
import Mathlib.Data.Fintype.Fin
import Mathlib.Logic.Function.Basic
import Mathlib.Logic.Function.Iterate
import Mathlib.Tactic.FinCases

/-!
# The PCA

A counter of 16 bits and five modules that compare it, make pulses from it or capture it.
-/

namespace Ucsim.S51

def bmCIDL : BitVec 8 := 0x80

def bmWDTE : BitVec 8 := 0x40

def bmCPS1 : BitVec 8 := 0x04

def bmCPS0 : BitVec 8 := 0x02

def bmECF : BitVec 8 := 0x01

def bmCR : BitVec 8 := 0x40

def bmECOM : BitVec 8 := 0x40

def bmCAPP : BitVec 8 := 0x20

def bmCAPN : BitVec 8 := 0x10

def bmMAT : BitVec 8 := 0x08

def bmTOG : BitVec 8 := 0x04

def bmPWM : BitVec 8 := 0x02

def bmECI : BitVec 8 := 0x04

/-- `bmCEX`: the pins of the modules in P1. -/
def bmCEX (nr : Fin 5) : BitVec 8 := 0x08 <<< nr.val

/-- A module: its cells, its flag CCF in CCON and the bit of P1 that is its pin. `ccfs`, `toggles` and `captures` count
how often it has set the flag, toggled the pin and captured the counter; `pending` is the number of edges that it is
to capture since the last clock. -/
structure PcaModule where
  ccapl : BitVec 8
  ccaph : BitVec 8
  ccapm : BitVec 8
  cex_pos : Bool
  cex_neg : Bool
  ccf : Bool
  cex : Bool
  ccfs : Nat
  toggles : Nat
  captures : Nat
  pending : Nat
  deriving DecidableEq, Repr

/-- `cl_pca`. -/
structure Pca where
  cl : BitVec 8
  ch : BitVec 8
  cf : Bool
  clk_source : BitVec 8
  bit_CIDL : Bool
  bit_WDTE : Bool
  bit_ECF : Bool
  bit_CR : Bool
  t0_overflows : Nat
  ECI_edge : Nat
  modules : Fin 5 → PcaModule

namespace PcaModule

def Has (bit : BitVec 8) (m : PcaModule) : Prop := m.ccapm &&& bit ≠ 0

instance (bit : BitVec 8) (m : PcaModule) : Decidable (m.Has bit) := inferInstanceAs (Decidable (_ ≠ _))

/-- The recorded edges are forgotten. -/
def forgetEdges (m : PcaModule) : PcaModule := { m with cex_pos := false, cex_neg := false }

/-- CCF is set. -/
def setCCF (m : PcaModule) : PcaModule := { m with ccf := true, ccfs := m.ccfs + 1 }

/-- One of the edges has been recorded that the module captures. -/
def Taken (m : PcaModule) : Prop := (m.Has bmCAPP ∧ m.cex_pos) ∨ (m.Has bmCAPN ∧ m.cex_neg)

instance (m : PcaModule) : Decidable m.Taken := inferInstanceAs (Decidable (_ ∨ _))

/-- The first part of `do_pca_module`. Both branches clear the record of the positive edges. -/
def capture (cl ch : BitVec 8) (m : PcaModule) : PcaModule :=
  if m.Taken then
    { m.setCCF with cex_pos := false, ccapl := cl, ccaph := ch, captures := m.captures + 1 }
  else m

/-- CCAPL gets the value of CCAPH. -/
def load (m : PcaModule) : PcaModule := if m.Has bmPWM then { m with ccapl := m.ccaph } else m

def Matches (cl ch : BitVec 8) (m : PcaModule) : Prop := cl = m.ccapl ∧ ch = m.ccaph

instance (cl ch : BitVec 8) (m : PcaModule) : Decidable (m.Matches cl ch) := inferInstanceAs (Decidable (_ ∧ _))

def toggle (m : PcaModule) : PcaModule :=
  if m.Has bmTOG then { m with cex := !m.cex, toggles := m.toggles + 1 } else m

/-- The pulses. The pin is set, whether CL is below CCAPL or not. -/
def pulse (cl : BitVec 8) (m : PcaModule) : PcaModule :=
  if m.Has bmPWM then
    if cl < m.ccapl then { m with cex := true } else { m with cex := true }
  else m

/-- A match of the module that is the watchdog. -/
def Bites (watchdog : Bool) (cl ch : BitVec 8) (m : PcaModule) : Prop :=
  m.Has bmECOM ∧ m.Matches cl ch ∧ watchdog

instance (watchdog : Bool) (cl ch : BitVec 8) (m : PcaModule) : Decidable (m.Bites watchdog cl ch) :=
  inferInstanceAs (Decidable (_ ∧ _))

/-- The second part of `do_pca_module`, which the watchdog leaves. MAT is not looked at. -/
def compare (watchdog : Bool) (cl ch : BitVec 8) (m : PcaModule) : PcaModule :=
  if m.Has bmECOM then
    if m.Matches cl ch then
      if watchdog then m else (m.setCCF.toggle).pulse cl
    else m.pulse cl
  else m

end PcaModule

namespace Pca

/-- `reset`. -/
def reset (p : Pca) : Pca :=
  { p with t0_overflows := 0, ECI_edge := 0, modules := fun i => (p.modules i).forgetEdges }

/-- The last module may be the watchdog. -/
def watchdog (p : Pca) (nr : Fin 5) : Bool := nr = 4 ∧ p.bit_WDTE

/-- A module captures and compares. -/
def call (nr : Fin 5) (p : Pca) : Pca :=
  let m := (p.modules nr).capture p.cl p.ch
  { p with modules := Function.update p.modules nr (m.compare (p.watchdog nr) p.cl p.ch) }

/-- `do_pca_module`. -/
def do_pca_module (nr : Fin 5) (p : Pca) : Pca :=
  if ((p.modules nr).capture p.cl p.ch).Bites (p.watchdog nr) p.cl p.ch then (p.call nr).reset else p.call nr

/-- All modules are called in turn. -/
def callAll (p : Pca) : Pca :=
  do_pca_module 4 (do_pca_module 3 (do_pca_module 2 (do_pca_module 1 (do_pca_module 0 p))))

/-- CL and CH are moved up by one. When CL has come to 0, CCAPL is loaded in the modules that make pulses. -/
def countUp (p : Pca) : Pca :=
  if p.cl + 1 = 0 then
    { p with cl := p.cl + 1, ch := p.ch + 1, modules := fun i => (p.modules i).load }
  else { p with cl := p.cl + 1 }

/-- The counter has come to 0. -/
def Wraps (p : Pca) : Prop := p.countUp.cl = 0 ∧ p.countUp.ch = 0

instance (p : Pca) : Decidable p.Wraps := inferInstanceAs (Decidable (_ ∧ _))

/-- No edge is to be captured any more. -/
def settle (p : Pca) : Pca := { p with modules := fun i => { p.modules i with pending := 0 } }

/-- The body of the loop of `do_pca_counter`. The modules are called when CH and CL have come to 0. -/
def clock (p : Pca) : Pca := settle (if p.Wraps then callAll { p.countUp with cf := true } else p.countUp)

def do_pca_counter (cycles : Nat) (p : Pca) : Pca := clock^[cycles] p

/-- How often a call of `tick` counts. -/
def delivered (cycles : Nat) (idle : Bool) (p : Pca) : Nat :=
  if ¬p.bit_CR then 0
  else if idle ∧ p.bit_CIDL then 0
  else if p.clk_source = 0 then cycles
  else if p.clk_source = bmCPS0 then cycles * 3
  else if p.clk_source = bmCPS1 then p.t0_overflows
  else p.ECI_edge

/-- `tick`, where `idle` is the state of the controller. -/
def tick (cycles : Nat) (idle : Bool) (p : Pca) : Pca :=
  let q := p.do_pca_counter (p.delivered cycles idle)
  if ¬p.bit_CR ∨ (idle ∧ p.bit_CIDL) then q
  else if p.clk_source = bmCPS1 then { q with t0_overflows := 0 }
  else if p.clk_source = bmCPS1 ||| bmCPS0 then { q with ECI_edge := 0 }
  else q

/-! ## Registers and pins -/

/-- `write` on the cell of CMOD. -/
def writeCmod (val : BitVec 8) (p : Pca) : Pca :=
  let clk_source := val &&& (bmCPS1 ||| bmCPS0)
  let q := { p with
    bit_CIDL := val &&& bmCIDL ≠ 0
    bit_WDTE := val &&& bmWDTE ≠ 0
    bit_ECF := val &&& bmECF ≠ 0
    clk_source }
  if clk_source ≠ p.clk_source then { q with t0_overflows := 0, ECI_edge := 0 } else q

/-- `write` on the cell of CCON, which then has the value. -/
def writeCcon (val : BitVec 8) (p : Pca) : Pca :=
  { p with
    bit_CR := val &&& bmCR ≠ 0
    cf := val.getLsbD 7
    modules := fun i => { p.modules i with ccf := val.getLsbD i } }

/-- `write` on the cell of CCAPM. -/
def writeCcapm (nr : Fin 5) (val : BitVec 8) (p : Pca) : Pca :=
  let m := p.modules nr
  let m' := if m.ccapm ≠ val then { m.forgetEdges with ccapm := val, pending := 0 } else m
  { p with modules := Function.update p.modules nr m' }

/-- The edges at a pin that a module is to capture: falling ones with CAPN, rising ones with CAPP. -/
def edges (falls rises : Bool) (m : PcaModule) : Nat :=
  if (falls ∧ m.Has bmCAPN) ∨ (rises ∧ m.Has bmCAPP) then 1 else 0

/-- `happen` for a change of port 1, with what its pins showed and show, and with the latch. -/
def portChanged (p1o p1n latch : BitVec 8) (p : Pca) : Pca :=
  let falls (bits : BitVec 8) : Bool := p1n &&& bits = 0 ∧ p1o &&& bits ≠ 0
  let rises (bits : BitVec 8) : Bool := p1n &&& bits ≠ 0 ∧ p1o &&& bits = 0
  { p with
    ECI_edge := if falls bmECI then p.ECI_edge + 1 else p.ECI_edge
    modules := fun i =>
      let m := p.modules i
      { m with
        cex := latch &&& bmCEX i ≠ 0
        cex_neg := m.cex_neg || falls (bmCEX i)
        cex_pos := m.cex_pos || rises (bmCEX i)
        pending := m.pending + edges (falls (bmCEX i)) (rises (bmCEX i)) m } }

/-- `happen` for an overflow of timer 0. -/
def timer0Overflow (p : Pca) : Pca := { p with t0_overflows := p.t0_overflows + 1 }

end Pca

/-- What happens to the PCA. -/
inductive PcaEvent
  | cmod (val : BitVec 8)
  | ccon (val : BitVec 8)
  | ccapm (nr : Fin 5) (val : BitVec 8)
  | ccapl (nr : Fin 5) (val : BitVec 8)
  | ccaph (nr : Fin 5) (val : BitVec 8)
  | cl (val : BitVec 8)
  | ch (val : BitVec 8)
  | port (p1o p1n latch : BitVec 8)
  | timer0
  | tick (cycles : Nat) (idle : Bool)
  deriving DecidableEq

namespace Pca

/-- The cells of the counter and of CCAP are stored without a call of `write`. -/
def step (p : Pca) : PcaEvent → Pca
  | .cmod val => p.writeCmod val
  | .ccon val => p.writeCcon val
  | .ccapm nr val => p.writeCcapm nr val
  | .ccapl nr val => { p with modules := Function.update p.modules nr { p.modules nr with ccapl := val } }
  | .ccaph nr val => { p with modules := Function.update p.modules nr { p.modules nr with ccaph := val } }
  | .cl val => { p with cl := val }
  | .ch val => { p with ch := val }
  | .port p1o p1n latch => p.portChanged p1o p1n latch
  | .timer0 => p.timer0Overflow
  | .tick cycles idle => p.tick cycles idle

/-- The states in which the clocks of a run find the PCA. -/
def clocked (p : Pca) : List PcaEvent → List Pca
  | [] => []
  | e :: es =>
    let here := match e with
      | .tick cycles idle => (List.range (p.delivered cycles idle)).map fun n => p.do_pca_counter n
      | _ => []
    here ++ clocked (p.step e) es

/-! ## What a clock is to do -/

/-- A clock compares, makes pulses and captures as the modules are set. -/
structure Served (p : Pca) (nr : Fin 5) : Prop where
  /-- CCF is set when the counter has come to CCAP. -/
  ccf : (p.modules nr).Has bmECOM → (p.modules nr).Has bmMAT →
    ((p.clock.modules nr).ccfs ≠ (p.modules nr).ccfs ↔ (p.clock.modules nr).Matches p.clock.cl p.clock.ch)
  /-- The pin is toggled then. -/
  toggle : (p.modules nr).Has bmECOM → (p.modules nr).Has bmMAT → (p.modules nr).Has bmTOG →
    (p.clock.modules nr).toggles =
      (p.modules nr).toggles + if (p.clock.modules nr).Matches p.clock.cl p.clock.ch then 1 else 0
  /-- The pin is 0 while CL is below CCAPL. -/
  pulse : (p.modules nr).Has bmECOM → (p.modules nr).Has bmPWM →
    (p.clock.modules nr).cex = decide ((p.clock.modules nr).ccapl ≤ p.clock.cl)
  /-- Each edge since the last clock is captured. CCF is set once for each of them, and otherwise only for a match
  in a module that is to flag matches. -/
  capture : (p.modules nr).Has bmCAPP ∨ (p.modules nr).Has bmCAPN →
    (p.clock.modules nr).captures = (p.modules nr).captures + (p.modules nr).pending ∧
      ((p.modules nr).pending ≠ 0 → (p.clock.modules nr).Matches p.clock.cl p.clock.ch) ∧
      (p.modules nr).ccfs + (p.modules nr).pending ≤ (p.clock.modules nr).ccfs ∧
      (p.clock.modules nr).ccfs ≤ (p.modules nr).ccfs + (p.modules nr).pending +
        if ((p.modules nr).Has bmECOM ∧ (p.modules nr).Has bmMAT) ∧
          (p.clock.modules nr).Matches p.clock.cl p.clock.ch then 1 else 0
  /-- Where CCF has been set, it is 1. -/
  flag : (p.clock.modules nr).ccfs ≠ (p.modules nr).ccfs → (p.clock.modules nr).ccf = true

end Pca

/-! ## What it does -/

namespace PcaModule

/-- A module without what is recorded for the next clock. -/
def shown (m : PcaModule) : PcaModule := { m.forgetEdges with pending := 0 }

section Parts

variable (watchdog : Bool) (cl ch : BitVec 8) (m : PcaModule)

theorem capture_fields : (m.capture cl ch).ccapm = m.ccapm ∧ (m.capture cl ch).cex = m.cex ∧
    (m.capture cl ch).toggles = m.toggles ∧
    (m.capture cl ch).ccfs = m.ccfs + (if m.Taken then 1 else 0) ∧
    (m.capture cl ch).captures = m.captures + (if m.Taken then 1 else 0) := by
  unfold capture
  split
  · exact ⟨rfl, rfl, rfl, rfl, rfl⟩
  · exact ⟨rfl, rfl, rfl, rfl, rfl⟩

theorem capture_matches : (m.capture cl ch).Matches cl ch ↔ m.Taken ∨ m.Matches cl ch := by
  unfold capture
  split
  · next h => exact iff_of_true ⟨rfl, rfl⟩ (.inl h)
  · next h => rw [or_iff_right h]

theorem toggle_fields : m.toggle.ccapl = m.ccapl ∧ m.toggle.ccaph = m.ccaph ∧ m.toggle.ccapm = m.ccapm ∧
    m.toggle.ccfs = m.ccfs ∧ m.toggle.captures = m.captures ∧
    m.toggle.toggles = m.toggles + (if m.Has bmTOG then 1 else 0) := by
  unfold toggle
  split
  · exact ⟨rfl, rfl, rfl, rfl, rfl, rfl⟩
  · exact ⟨rfl, rfl, rfl, rfl, rfl, rfl⟩

/-- Whatever the comparison says, the pin is set. -/
theorem pulse_eq : m.pulse cl = { m with cex := if m.Has bmPWM then true else m.cex } := by
  unfold pulse
  split
  · rw [ite_self]
  · rfl

theorem compare_fields : (m.compare watchdog cl ch).ccapl = m.ccapl ∧ (m.compare watchdog cl ch).ccaph = m.ccaph ∧
    (m.compare watchdog cl ch).captures = m.captures := by
  unfold compare
  split
  · split
    · split
      · exact ⟨rfl, rfl, rfl⟩
      · rw [pulse_eq]
        exact ⟨m.setCCF.toggle_fields.1, m.setCCF.toggle_fields.2.1, m.setCCF.toggle_fields.2.2.2.2.1⟩
    · rw [pulse_eq]
      exact ⟨rfl, rfl, rfl⟩
  · exact ⟨rfl, rfl, rfl⟩

/-- What a comparison counts. -/
theorem compare_counts (hECOM : m.Has bmECOM) :
    (m.compare watchdog cl ch).ccfs = m.ccfs + (if m.Matches cl ch ∧ ¬watchdog then 1 else 0) ∧
      (m.compare watchdog cl ch).toggles =
        m.toggles + (if m.Matches cl ch ∧ ¬watchdog ∧ m.Has bmTOG then 1 else 0) := by
  unfold compare
  rw [if_pos hECOM]
  by_cases hmatch : m.Matches cl ch
  · rw [if_pos hmatch]
    cases watchdog with
    | true => simp
    | false =>
      have htoggle := m.setCCF.toggle_fields
      rw [pulse_eq]
      simp only [hmatch, Bool.false_eq_true, if_false, not_false_eq_true, and_self, if_true, true_and]
      exact ⟨htoggle.2.2.2.1, htoggle.2.2.2.2.2⟩
  · rw [if_neg hmatch, pulse_eq]
    simp [hmatch]

/-- A pin with pulses is set, unless the watchdog leaves it. -/
theorem compare_cex (hECOM : m.Has bmECOM) (hPWM : m.Has bmPWM) :
    (m.compare watchdog cl ch).cex = if m.Matches cl ch ∧ watchdog then m.cex else true := by
  unfold compare
  rw [if_pos hECOM]
  by_cases hmatch : m.Matches cl ch
  · rw [if_pos hmatch]
    cases watchdog with
    | true => simp [hmatch]
    | false =>
      have hPWM' : m.setCCF.toggle.Has bmPWM := by
        unfold Has
        rw [m.setCCF.toggle_fields.2.2.1]
        exact hPWM
      rw [pulse_eq, if_pos hPWM']
      simp
  · rw [if_neg hmatch, pulse_eq, if_pos hPWM]
    simp [hmatch]

end Parts

section Call

variable (watchdog : Bool) (cl ch : BitVec 8) (m : PcaModule)

/-- What is left of a module by a call. -/
def called : PcaModule := (m.capture cl ch).compare watchdog cl ch

theorem has_capture (bit : BitVec 8) : (m.capture cl ch).Has bit ↔ m.Has bit := by
  unfold Has
  rw [(m.capture_fields cl ch).1]

theorem called_matches : (m.called watchdog cl ch).Matches cl ch ↔ m.Taken ∨ m.Matches cl ch := by
  have hsame := (m.capture cl ch).compare_fields watchdog cl ch
  rw [← capture_matches, called, Matches, hsame.1, hsame.2.1]
  rfl

theorem called_captures : (m.called watchdog cl ch).captures = m.captures + if m.Taken then 1 else 0 :=
  ((m.capture cl ch).compare_fields watchdog cl ch).2.2.trans (m.capture_fields cl ch).2.2.2.2

/-- A call sets CCF for a capture, and for a match unless that is left to the watchdog. MAT is not looked at. -/
theorem called_ccfs : (m.called watchdog cl ch).ccfs =
    m.ccfs + (if m.Taken then 1 else 0) +
      if m.Has bmECOM ∧ (m.Taken ∨ m.Matches cl ch) ∧ ¬watchdog then 1 else 0 := by
  rw [called, ← (m.capture_fields cl ch).2.2.2.1]
  by_cases hECOM : m.Has bmECOM
  · rw [((m.capture cl ch).compare_counts watchdog cl ch ((m.has_capture cl ch _).mpr hECOM)).1]
    simp only [capture_matches, hECOM, true_and]
  · rw [compare, if_neg (mt (m.has_capture cl ch _).mp hECOM)]
    simp [hECOM]

/-- Where a call counts a setting of CCF, the flag is 1. -/
theorem called_flag (h : (m.called watchdog cl ch).ccfs ≠ m.ccfs) : (m.called watchdog cl ch).ccf = true := by
  have htoggle : ∀ u : PcaModule, u.toggle.ccf = u.ccf := by
    intro u
    unfold toggle
    split <;> rfl
  rw [called] at h ⊢
  unfold compare at h ⊢
  by_cases htaken : m.Taken
  · have hcapture : (m.capture cl ch).ccf = true := by
      rw [capture, if_pos htaken]
      rfl
    split
    · split
      · split
        · exact hcapture
        · rw [pulse_eq]
          exact htoggle _
      · rw [pulse_eq]
        exact hcapture
    · exact hcapture
  · have hcapture : m.capture cl ch = m := if_neg htaken
    rw [hcapture] at h ⊢
    split at h
    · next hECOM =>
      rw [if_pos hECOM]
      split at h
      · next hmatch =>
        rw [if_pos hmatch]
        split at h
        · exact absurd rfl h
        · next hwatchdog =>
          rw [if_neg hwatchdog, pulse_eq]
          exact htoggle _
      · rw [pulse_eq] at h
        exact absurd rfl h
    · exact absurd rfl h

/-- CCF is set for a match, unless that is left to the watchdog. -/
theorem called_ccf_iff (hECOM : m.Has bmECOM) :
    ((m.called watchdog cl ch).ccfs ≠ m.ccfs ↔ (m.called watchdog cl ch).Matches cl ch) ↔
      (watchdog → m.Matches cl ch → m.Taken) := by
  rw [called_matches, called_ccfs]
  simp only [hECOM, true_and]
  by_cases htaken : m.Taken
  · simp [htaken, Nat.add_assoc]
  · by_cases hmatch : m.Matches cl ch
    · cases watchdog <;> simp [htaken, hmatch]
    · simp [htaken, hmatch]

theorem called_toggle_iff (hECOM : m.Has bmECOM) (hTOG : m.Has bmTOG) :
    (m.called watchdog cl ch).toggles = m.toggles + (if (m.called watchdog cl ch).Matches cl ch then 1 else 0) ↔
      (watchdog → ¬(m.Taken ∨ m.Matches cl ch)) := by
  have hcounts := ((m.capture cl ch).compare_counts watchdog cl ch ((m.has_capture cl ch _).mpr hECOM)).2
  rw [(m.capture_fields cl ch).2.2.1] at hcounts
  simp only [called_matches]
  rw [called, hcounts]
  simp only [capture_matches, has_capture]
  by_cases hmatch : m.Taken ∨ m.Matches cl ch
  · cases watchdog <;> simp [hmatch, hTOG]
  · simp [hmatch]

/-- A pin with pulses is set, which is right unless CL is below CCAPL. -/
theorem called_pulse_iff (hECOM : m.Has bmECOM) (hPWM : m.Has bmPWM) :
    (m.called watchdog cl ch).cex = decide ((m.called watchdog cl ch).ccapl ≤ cl) ↔
      if watchdog ∧ (m.Taken ∨ m.Matches cl ch) then m.cex = true else m.Taken ∨ m.ccapl ≤ cl := by
  have hcex := (m.capture cl ch).compare_cex watchdog cl ch ((m.has_capture cl ch _).mpr hECOM)
    ((m.has_capture cl ch _).mpr hPWM)
  have hccapl : (m.called watchdog cl ch).ccapl ≤ cl ↔ m.Taken ∨ m.ccapl ≤ cl := by
    rw [called, ((m.capture cl ch).compare_fields watchdog cl ch).1]
    unfold capture
    split
    · next h => exact iff_of_true (BitVec.le_refl _) (.inl h)
    · next h => rw [or_iff_right h]
  simp only [hccapl]
  rw [called, hcex, (m.capture_fields cl ch).2.1]
  simp only [capture_matches]
  by_cases hbites : watchdog ∧ (m.Taken ∨ m.Matches cl ch)
  · have hreached : m.Taken ∨ m.ccapl ≤ cl := by
      refine hbites.2.imp_right fun h => ?_
      rw [h.1]
      exact BitVec.le_refl _
    simp [hbites, hreached]
  · rw [if_neg (fun h => hbites h.symm), if_neg hbites]
    simp

end Call

end PcaModule

namespace Pca

theorem reset_modules (p : Pca) (i : Fin 5) : (p.reset.modules i).shown = (p.modules i).shown := rfl

theorem do_pca_module_cases (nr : Fin 5) (p : Pca) :
    do_pca_module nr p = (p.call nr).reset ∨ do_pca_module nr p = p.call nr := by
  unfold do_pca_module
  split
  · exact .inl rfl
  · exact .inr rfl

/-- A module is called with the counter, and leaves the others alone. -/
theorem do_pca_module_shown (nr i : Fin 5) (p : Pca) : ((do_pca_module nr p).modules i).shown =
    if i = nr then (((p.modules nr).capture p.cl p.ch).compare (p.watchdog nr) p.cl p.ch).shown
    else (p.modules i).shown := by
  have hcall : ((do_pca_module nr p).modules i).shown = ((p.call nr).modules i).shown := by
    rcases do_pca_module_cases nr p with h | h
    · rw [h, reset_modules]
    · rw [h]
  rw [hcall, call]
  by_cases h : i = nr
  · rw [if_pos h, h]
    exact congrArg PcaModule.shown (Function.update_self _ _ _)
  · rw [if_neg h]
    exact congrArg PcaModule.shown (Function.update_of_ne h _ _)

theorem do_pca_module_cl (nr : Fin 5) (p : Pca) : (do_pca_module nr p).cl = p.cl := by
  rcases do_pca_module_cases nr p with h | h <;> rw [h] <;> rfl

theorem do_pca_module_ch (nr : Fin 5) (p : Pca) : (do_pca_module nr p).ch = p.ch := by
  rcases do_pca_module_cases nr p with h | h <;> rw [h] <;> rfl

theorem do_pca_module_watchdog (nr i : Fin 5) (p : Pca) : (do_pca_module nr p).watchdog i = p.watchdog i := by
  rcases do_pca_module_cases nr p with h | h <;> rw [h] <;> rfl

/-- Only the watchdog touches the other modules. -/
theorem do_pca_module_other {nr i : Fin 5} (hnr : nr ≠ 4) (hi : i ≠ nr) (p : Pca) :
    (do_pca_module nr p).modules i = p.modules i := by
  have hno : p.watchdog nr = false := by simp [watchdog, hnr]
  have hnot : ¬((p.modules nr).capture p.cl p.ch).Bites (p.watchdog nr) p.cl p.ch := by simp [PcaModule.Bites, hno]
  rw [do_pca_module, if_neg hnot]
  exact Function.update_of_ne hi _ _

/-- What a module does when all are called is what it does by itself. -/
theorem callAll_shown (nr : Fin 5) (p : Pca) : ((callAll p).modules nr).shown =
    (((p.modules nr).capture p.cl p.ch).compare (p.watchdog nr) p.cl p.ch).shown := by
  unfold callAll
  fin_cases nr
  all_goals
    simp [do_pca_module_shown, do_pca_module_other, do_pca_module_cl, do_pca_module_ch, do_pca_module_watchdog]

theorem callAll_counter (p : Pca) : (callAll p).cl = p.cl ∧ (callAll p).ch = p.ch := by
  simp [callAll, do_pca_module_cl, do_pca_module_ch]

/-- The counter steps, and the modules do their part when it wraps. -/
theorem clock_fields (p : Pca) (nr : Fin 5) :
    p.clock.cl = p.countUp.cl ∧ p.clock.ch = p.countUp.ch ∧
      (p.clock.modules nr).shown =
        if p.Wraps then
          (((p.countUp.modules nr).capture 0 0).compare (p.countUp.watchdog nr) 0 0).shown
        else (p.countUp.modules nr).shown := by
  by_cases h : p.Wraps
  · have hclock : p.clock = (callAll { p.countUp with cf := true }).settle := congrArg settle (if_pos h)
    obtain ⟨hcl, hch⟩ := callAll_counter { p.countUp with cf := true }
    have hshown := callAll_shown nr { p.countUp with cf := true }
    have hzero : p.countUp.cl = 0 ∧ p.countUp.ch = 0 := h
    rw [hclock, if_pos h]
    refine ⟨hcl, hch, ?_⟩
    rw [show ({ p.countUp with cf := true } : Pca).cl = 0 from hzero.1,
      show ({ p.countUp with cf := true } : Pca).ch = 0 from hzero.2] at hshown
    exact hshown
  · have hclock : p.clock = p.countUp.settle := congrArg settle (if_neg h)
    rw [hclock, if_neg h]
    exact ⟨rfl, rfl, rfl⟩

/-! ## When it serves -/

/-- What a clock needs to serve a module, with the counter that it leads to and CCAPL loaded. At 0 the watchdog
must not be in the way, the pin must be the one that is always set, and the record of edges must be that of the edges.
Anywhere else the module is not called, and there must be nothing to do. -/
structure Met (p : Pca) (nr : Fin 5) : Prop where
  ccf : (p.modules nr).Has bmECOM → (p.modules nr).Has bmMAT →
    if p.Wraps then p.watchdog nr → (p.countUp.modules nr).Matches 0 0 → (p.modules nr).Taken
    else ¬(p.countUp.modules nr).Matches p.countUp.cl p.countUp.ch
  toggle : (p.modules nr).Has bmECOM → (p.modules nr).Has bmMAT → (p.modules nr).Has bmTOG →
    if p.Wraps then p.watchdog nr → ¬((p.modules nr).Taken ∨ (p.countUp.modules nr).Matches 0 0)
    else ¬(p.countUp.modules nr).Matches p.countUp.cl p.countUp.ch
  pulse : (p.modules nr).Has bmECOM → (p.modules nr).Has bmPWM →
    if p.Wraps then
      if p.watchdog nr ∧ ((p.modules nr).Taken ∨ (p.countUp.modules nr).Matches 0 0) then (p.modules nr).cex = true
      else (p.modules nr).Taken ∨ (p.countUp.modules nr).ccapl ≤ 0
    else (p.modules nr).cex = decide ((p.countUp.modules nr).ccapl ≤ p.countUp.cl)
  capture : (p.modules nr).Has bmCAPP ∨ (p.modules nr).Has bmCAPN →
    ((p.modules nr).pending = if p.Wraps ∧ (p.modules nr).Taken then 1 else 0) ∧
      (p.Wraps → (p.modules nr).Has bmECOM → ¬p.watchdog nr →
        (p.modules nr).Taken ∨ (p.countUp.modules nr).Matches 0 0 → (p.modules nr).Has bmMAT)

theorem countUp_module (p : Pca) (nr : Fin 5) : ∃ l, p.countUp.modules nr = { p.modules nr with ccapl := l } := by
  unfold countUp
  split
  · show ∃ l, (p.modules nr).load = { p.modules nr with ccapl := l }
    unfold PcaModule.load
    split
    · exact ⟨_, rfl⟩
    · exact ⟨_, rfl⟩
  · exact ⟨_, rfl⟩

theorem countUp_watchdog (p : Pca) (nr : Fin 5) : p.countUp.watchdog nr = p.watchdog nr := by
  unfold countUp
  split <;> rfl

/-- What CL has come to is not looked at by the counter's own step. -/
theorem countUp_kept (p : Pca) (nr : Fin 5) :
    (∀ bit, (p.countUp.modules nr).Has bit ↔ (p.modules nr).Has bit) ∧
      ((p.countUp.modules nr).Taken ↔ (p.modules nr).Taken) ∧
      (p.countUp.modules nr).ccfs = (p.modules nr).ccfs ∧ (p.countUp.modules nr).toggles = (p.modules nr).toggles ∧
      (p.countUp.modules nr).captures = (p.modules nr).captures ∧
      (p.countUp.modules nr).cex = (p.modules nr).cex := by
  obtain ⟨l, hm⟩ := p.countUp_module nr
  rw [hm]
  exact ⟨fun _ => Iff.rfl, Iff.rfl, rfl, rfl, rfl, rfl⟩

/-- The module after a clock that calls it. -/
theorem clock_called {p : Pca} (h : p.Wraps) (nr : Fin 5) : p.clock.cl = 0 ∧ p.clock.ch = 0 ∧
    (p.clock.modules nr).shown = ((p.countUp.modules nr).called (p.watchdog nr) 0 0).shown := by
  obtain ⟨hcl, hch, hshown⟩ := p.clock_fields nr
  rw [if_pos h, countUp_watchdog] at hshown
  exact ⟨hcl.trans h.1, hch.trans h.2, hshown⟩

/-- The module after a clock that leaves it alone. -/
theorem clock_uncalled {p : Pca} (h : ¬p.Wraps) (nr : Fin 5) :
    p.clock.cl = p.countUp.cl ∧ p.clock.ch = p.countUp.ch ∧
      (p.clock.modules nr).shown = (p.countUp.modules nr).shown := by
  obtain ⟨hcl, hch, hshown⟩ := p.clock_fields nr
  rw [if_neg h] at hshown
  exact ⟨hcl, hch, hshown⟩

theorem fields_of_shown {m m' : PcaModule} (h : m.shown = m'.shown) : m.ccapl = m'.ccapl ∧ m.ccaph = m'.ccaph ∧
    m.cex = m'.cex ∧ m.ccfs = m'.ccfs ∧ m.toggles = m'.toggles ∧ m.captures = m'.captures ∧ m.ccf = m'.ccf := by
  simp only [PcaModule.shown, PcaModule.forgetEdges, PcaModule.mk.injEq] at h
  obtain ⟨hl, hh, -, -, -, hccf, hcex, hccfs, htoggles, hcaptures, -⟩ := h
  exact ⟨hl, hh, hcex, hccfs, htoggles, hcaptures, hccf⟩

theorem matches_of_shown {m m' : PcaModule} (h : m.shown = m'.shown) (cl ch : BitVec 8) :
    m.Matches cl ch ↔ m'.Matches cl ch := by
  obtain ⟨hl, hh, -⟩ := fields_of_shown h
  unfold PcaModule.Matches
  rw [hl, hh]

section Served

variable (p : Pca) (nr : Fin 5)

theorem served_ccf_iff (hECOM : (p.modules nr).Has bmECOM) :
    ((p.clock.modules nr).ccfs ≠ (p.modules nr).ccfs ↔ (p.clock.modules nr).Matches p.clock.cl p.clock.ch) ↔
      if p.Wraps then p.watchdog nr → (p.countUp.modules nr).Matches 0 0 → (p.modules nr).Taken
      else ¬(p.countUp.modules nr).Matches p.countUp.cl p.countUp.ch := by
  obtain ⟨hhas, htaken, hccfs, -⟩ := p.countUp_kept nr
  by_cases hwraps : p.Wraps
  · obtain ⟨hcl, hch, hshown⟩ := clock_called hwraps nr
    rw [if_pos hwraps, hcl, hch, matches_of_shown hshown, (fields_of_shown hshown).2.2.2.1, ← hccfs, ← htaken]
    exact (p.countUp.modules nr).called_ccf_iff _ 0 0 ((hhas _).mpr hECOM)
  · obtain ⟨hcl, hch, hshown⟩ := clock_uncalled hwraps nr
    rw [if_neg hwraps, hcl, hch, matches_of_shown hshown, (fields_of_shown hshown).2.2.2.1, hccfs]
    simp

theorem served_toggle_iff (hECOM : (p.modules nr).Has bmECOM) (hTOG : (p.modules nr).Has bmTOG) :
    (p.clock.modules nr).toggles =
        (p.modules nr).toggles + (if (p.clock.modules nr).Matches p.clock.cl p.clock.ch then 1 else 0) ↔
      if p.Wraps then p.watchdog nr → ¬((p.modules nr).Taken ∨ (p.countUp.modules nr).Matches 0 0)
      else ¬(p.countUp.modules nr).Matches p.countUp.cl p.countUp.ch := by
  obtain ⟨hhas, htaken, -, htoggles, -⟩ := p.countUp_kept nr
  by_cases hwraps : p.Wraps
  · obtain ⟨hcl, hch, hshown⟩ := clock_called hwraps nr
    simp only [matches_of_shown hshown]
    rw [if_pos hwraps, hcl, hch, (fields_of_shown hshown).2.2.2.2.1, ← htoggles, ← htaken]
    exact (p.countUp.modules nr).called_toggle_iff _ 0 0 ((hhas _).mpr hECOM) ((hhas _).mpr hTOG)
  · obtain ⟨hcl, hch, hshown⟩ := clock_uncalled hwraps nr
    simp only [matches_of_shown hshown]
    rw [if_neg hwraps, hcl, hch, (fields_of_shown hshown).2.2.2.2.1, htoggles]
    simp

theorem served_pulse_iff (hECOM : (p.modules nr).Has bmECOM) (hPWM : (p.modules nr).Has bmPWM) :
    (p.clock.modules nr).cex = decide ((p.clock.modules nr).ccapl ≤ p.clock.cl) ↔
      if p.Wraps then
        if p.watchdog nr ∧ ((p.modules nr).Taken ∨ (p.countUp.modules nr).Matches 0 0) then (p.modules nr).cex = true
        else (p.modules nr).Taken ∨ (p.countUp.modules nr).ccapl ≤ 0
      else (p.modules nr).cex = decide ((p.countUp.modules nr).ccapl ≤ p.countUp.cl) := by
  obtain ⟨hhas, htaken, -, -, -, hcex⟩ := p.countUp_kept nr
  by_cases hwraps : p.Wraps
  · obtain ⟨hcl, -, hshown⟩ := clock_called hwraps nr
    simp only [if_pos hwraps, ← htaken, ← hcex]
    rw [hcl, (fields_of_shown hshown).1, (fields_of_shown hshown).2.2.1]
    exact (p.countUp.modules nr).called_pulse_iff _ 0 0 ((hhas _).mpr hECOM) ((hhas _).mpr hPWM)
  · obtain ⟨hcl, -, hshown⟩ := clock_uncalled hwraps nr
    rw [if_neg hwraps, hcl, (fields_of_shown hshown).1, (fields_of_shown hshown).2.2.1, hcex]

theorem served_capture_iff :
    (p.clock.modules nr).captures = (p.modules nr).captures + (p.modules nr).pending ∧
        ((p.modules nr).pending ≠ 0 → (p.clock.modules nr).Matches p.clock.cl p.clock.ch) ∧
        (p.modules nr).ccfs + (p.modules nr).pending ≤ (p.clock.modules nr).ccfs ∧
        (p.clock.modules nr).ccfs ≤ (p.modules nr).ccfs + (p.modules nr).pending +
          (if ((p.modules nr).Has bmECOM ∧ (p.modules nr).Has bmMAT) ∧
            (p.clock.modules nr).Matches p.clock.cl p.clock.ch then 1 else 0) ↔
      ((p.modules nr).pending = if p.Wraps ∧ (p.modules nr).Taken then 1 else 0) ∧
        (p.Wraps → (p.modules nr).Has bmECOM → ¬p.watchdog nr →
          (p.modules nr).Taken ∨ (p.countUp.modules nr).Matches 0 0 → (p.modules nr).Has bmMAT) := by
  obtain ⟨hhas, htaken, hccfs, -, hcaptures, -⟩ := p.countUp_kept nr
  by_cases hwraps : p.Wraps
  · obtain ⟨hcl, hch, hshown⟩ := clock_called hwraps nr
    simp only [hcl, hch, matches_of_shown hshown]
    rw [(fields_of_shown hshown).2.2.2.2.2.1, (fields_of_shown hshown).2.2.2.1, PcaModule.called_captures,
      PcaModule.called_ccfs, hcaptures, hccfs]
    simp only [PcaModule.called_matches, htaken, hhas, hwraps, true_and, true_implies]
    constructor
    · rintro ⟨hcaptured, -, -, hmost⟩
      have hpending : (p.modules nr).pending = if (p.modules nr).Taken then 1 else 0 := by omega
      refine ⟨hpending, fun hECOM hwatchdog hmatch => ?_⟩
      by_contra hMAT
      rw [hpending] at hmost
      have hmore := Nat.le_of_add_le_add_left hmost
      rw [if_pos ⟨hECOM, hmatch, hwatchdog⟩, if_neg fun h => hMAT h.1.2] at hmore
      exact absurd hmore (by decide)
    · rintro ⟨hpending, hMAT⟩
      have htaken : (p.modules nr).pending ≠ 0 → (p.modules nr).Taken := by
        intro hsome
        by_contra hno
        exact hsome (hpending.trans (if_neg hno))
      refine ⟨by omega, fun hsome => .inl (htaken hsome), by omega, ?_⟩
      rw [hpending]
      refine Nat.add_le_add_left ?_ _
      -- a match that sets the flag is one that the module is to flag
      split
      · next hset =>
        rw [if_pos ⟨⟨hset.1, hMAT hset.1 hset.2.2 hset.2.1⟩, hset.2.1⟩]
      · exact Nat.zero_le _
  · obtain ⟨hcl, hch, hshown⟩ := clock_uncalled hwraps nr
    rw [(fields_of_shown hshown).2.2.2.2.2.1, (fields_of_shown hshown).2.2.2.1, hcaptures, hccfs]
    simp only [hwraps, false_and, if_false, false_implies, and_true]
    omega

theorem served_flag (h : (p.clock.modules nr).ccfs ≠ (p.modules nr).ccfs) : (p.clock.modules nr).ccf = true := by
  obtain ⟨-, -, hccfs, -⟩ := p.countUp_kept nr
  by_cases hwraps : p.Wraps
  · obtain ⟨-, -, hshown⟩ := clock_called hwraps nr
    rw [(fields_of_shown hshown).2.2.2.1, ← hccfs] at h
    rw [(fields_of_shown hshown).2.2.2.2.2.2]
    exact (p.countUp.modules nr).called_flag _ 0 0 h
  · obtain ⟨-, -, hshown⟩ := clock_uncalled hwraps nr
    rw [(fields_of_shown hshown).2.2.2.1] at h
    exact absurd hccfs h

/-- A clock serves a module exactly if its condition is met. -/
theorem served_iff_met : p.Served nr ↔ p.Met nr := by
  constructor
  · intro h
    refine ⟨fun hECOM hMAT => ?_, fun hECOM hMAT hTOG => ?_, fun hECOM hPWM => ?_, fun hcapture => ?_⟩
    · exact (p.served_ccf_iff nr hECOM).mp (h.ccf hECOM hMAT)
    · exact (p.served_toggle_iff nr hECOM hTOG).mp (h.toggle hECOM hMAT hTOG)
    · exact (p.served_pulse_iff nr hECOM hPWM).mp (h.pulse hECOM hPWM)
    · exact (p.served_capture_iff nr).mp (h.capture hcapture)
  · intro h
    refine ⟨fun hECOM hMAT => ?_, fun hECOM hMAT hTOG => ?_, fun hECOM hPWM => ?_, fun hcapture => ?_,
      p.served_flag nr⟩
    · exact (p.served_ccf_iff nr hECOM).mpr (h.ccf hECOM hMAT)
    · exact (p.served_toggle_iff nr hECOM hTOG).mpr (h.toggle hECOM hMAT hTOG)
    · exact (p.served_pulse_iff nr hECOM hPWM).mpr (h.pulse hECOM hPWM)
    · exact (p.served_capture_iff nr).mpr (h.capture hcapture)

end Served

/-! ## Runs -/

/-- In a run, all clocks serve all modules exactly if the conditions are met at all of them. -/
theorem clocks_serve_iff (p : Pca) (es : List PcaEvent) :
    (∀ q ∈ p.clocked es, ∀ nr, q.Served nr) ↔ ∀ q ∈ p.clocked es, ∀ nr, q.Met nr := by
  constructor
  · exact fun h q hq nr => (q.served_iff_met nr).mp (h q hq nr)
  · exact fun h q hq nr => (q.served_iff_met nr).mpr (h q hq nr)

/-- After the constructor. -/
def start : Pca where
  cl := 0
  ch := 0
  cf := false
  clk_source := 0
  bit_CIDL := false
  bit_WDTE := false
  bit_ECF := false
  bit_CR := false
  t0_overflows := 0
  ECI_edge := 0
  modules := fun _ => ⟨0, 0, 0, false, false, false, false, 0, 0, 0, 0⟩

/-- Module 0 is to compare with 1, and the counter runs. -/
def comparing : Pca := [.ccapm 0 (bmECOM ||| bmMAT), .ccapl 0 1, .ccon bmCR].foldl step start

/-- The first clock takes the counter to 1 and does not set CCF. -/
theorem not_served_comparing :
    comparing ∈ comparing.clocked [.tick 1 false] ∧ ¬comparing.Served 0 := by
  refine ⟨List.mem_cons_self, fun h => ?_⟩
  have hccf := h.ccf (by decide) (by decide)
  exact absurd (hccf.mpr (by decide)) (by decide)

end Pca

end Ucsim.S51
