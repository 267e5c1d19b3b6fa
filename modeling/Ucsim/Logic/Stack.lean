import Mathlib.Data.List.Basic
import Mathlib.Order.Basic

/-!
# Stacks in a memory

A stack that grows to smaller addresses, seen through its lowest cell and the cells of the memory. What is pushed is a
list of cells, the lowest first. A sequence of pushes and pops keeps the frames that are still on the stack.
-/

namespace Logic

/-- A stack in the memory of a machine: its lowest cell, and the cells, of which there are `size`. -/
structure Stack (σ β : Type) where
  low : σ → Nat
  cell : σ → Nat → β
  size : Nat

namespace Stack

variable {σ β φ : Type} (V : Stack σ β) {s t u : σ} {bs cs : List β} {addr m n : Nat}

/-- The list is in the cells from an address. -/
def Holds (s : σ) : Nat → List β → Prop
  | _, [] => True
  | addr, b :: bs => V.cell s addr = b ∧ Holds s (addr + 1) bs

/-- Cells are pushed. -/
structure Pushed (s : σ) (bs : List β) (t : σ) : Prop where
  low : V.low t + bs.length = V.low s
  holds : V.Holds t (V.low t) bs
  frame : ∀ a, V.low s ≤ a → a < V.size → V.cell t a = V.cell s a

/-- So many cells are popped. -/
structure Popped (s : σ) (n : Nat) (t : σ) : Prop where
  low : V.low t = V.low s + n
  frame : ∀ a, V.low t ≤ a → a < V.size → V.cell t a = V.cell s a

variable {V}

theorem Holds.congr (h : V.Holds s addr bs)
    (hsame : ∀ a, addr ≤ a → a < addr + bs.length → V.cell t a = V.cell s a) : V.Holds t addr bs := by
  induction bs generalizing addr with
  | nil => trivial
  | cons b bs ih =>
    rw [List.length_cons] at hsame
    exact ⟨(hsame addr (Nat.le_refl _) (by omega)).trans h.1, ih h.2 fun a ha hlt => hsame a (by omega) (by omega)⟩

theorem holds_append : V.Holds s addr (bs ++ cs) ↔ V.Holds s addr bs ∧ V.Holds s (addr + bs.length) cs := by
  induction bs generalizing addr with
  | nil => exact (and_iff_right trivial).symm
  | cons b bs ih =>
    have haddr : addr + (b :: bs).length = addr + 1 + bs.length := by
      rw [List.length_cons]
      omega
    rw [haddr]
    exact (and_congr_right fun _ => ih).trans and_assoc.symm

/-- One push after another. -/
theorem Pushed.trans (hsize : V.low s ≤ V.size) (h : V.Pushed s bs t) (h' : V.Pushed t cs u) :
    V.Pushed s (cs ++ bs) u := by
  have hs := h.low
  have ht := h'.low
  refine ⟨?_, ?_, fun a ha hlt => ?_⟩
  · rw [List.length_append]
    omega
  · rw [holds_append, ht]
    exact ⟨h'.holds, h.holds.congr fun a ha hend => h'.frame a ha (by omega)⟩
  · exact (h'.frame a (by omega) hlt).trans (h.frame a ha hlt)

/-- The machine behind a push may differ outside its stack. -/
theorem Pushed.congr (h : V.Pushed s bs t) (hlow : V.low u = V.low t)
    (hcells : ∀ a, V.low t ≤ a → V.cell u a = V.cell t a) : V.Pushed s bs u := by
  have hs := h.low
  refine ⟨by rw [hlow, hs], ?_, fun a ha hlt => (hcells a (by omega)).trans (h.frame a ha hlt)⟩
  rw [hlow]
  exact h.holds.congr fun a ha _ => hcells a ha

theorem Popped.trans (h : V.Popped s m t) (h' : V.Popped t n u) : V.Popped s (m + n) u := by
  have ht := h'.low
  exact ⟨by rw [ht, h.low, Nat.add_assoc], fun a ha hlt => (h'.frame a ha hlt).trans (h.frame a (by omega) hlt)⟩

theorem Popped.congr (h : V.Popped s n t) (hlow : V.low u = V.low t)
    (hcells : ∀ a, V.low t ≤ a → V.cell u a = V.cell t a) : V.Popped s n u :=
  ⟨hlow.trans h.low, fun a ha hlt => (hcells a (hlow ▸ ha)).trans (h.frame a (hlow ▸ ha) hlt)⟩

/-! ## Frames -/

variable (V) in
/-- The cells of the frames are on the stack, which has grown by them. -/
structure Grown (cells : φ → List β) (s : σ) (frames : List φ) (t : σ) : Prop where
  low : V.low t + (frames.flatMap cells).length = V.low s
  holds : V.Holds t (V.low t) (frames.flatMap cells)

namespace Grown

variable {cells : φ → List β} {f : φ} {frames : List φ}

theorem start (cells : φ → List β) (s : σ) : V.Grown cells s [] s := ⟨rfl, trivial⟩

theorem pushed (hsize : V.low s ≤ V.size) (h : V.Grown cells s frames t) (hpushed : V.Pushed t (cells f) u) :
    V.Grown cells s (f :: frames) u := by
  have hs := h.low
  have ht := hpushed.low
  refine ⟨?_, ?_⟩
  · rw [List.flatMap_cons, List.length_append]
    omega
  · rw [List.flatMap_cons, holds_append, ht]
    exact ⟨hpushed.holds, h.holds.congr fun a ha hend => hpushed.frame a ha (by omega)⟩

theorem popped (hsize : V.low s ≤ V.size) (h : V.Grown cells s (f :: frames) t)
    (hpopped : V.Popped t (cells f).length u) : V.Grown cells s frames u := by
  have hs := h.low
  have ht := hpopped.low
  have hcells := h.holds
  rw [List.flatMap_cons, List.length_append] at hs
  rw [List.flatMap_cons, holds_append] at hcells
  refine ⟨by omega, ?_⟩
  rw [ht]
  exact hcells.2.congr fun a ha hend => hpopped.frame a (by omega) (by omega)

theorem kept (h : V.Grown cells s frames t) (hlow : V.low u = V.low t)
    (hcells : ∀ a, V.low t ≤ a → a < V.low s → V.cell u a = V.cell t a) : V.Grown cells s frames u := by
  have hs := h.low
  refine ⟨by rw [hlow, hs], ?_⟩
  rw [hlow]
  exact h.holds.congr fun a ha hend => hcells a ha (by omega)

/-- The last frame is at the lowest cell. -/
theorem top (h : V.Grown cells s (f :: frames) t) : V.Holds t (V.low t) (cells f) := by
  have hcells := h.holds
  rw [List.flatMap_cons, holds_append] at hcells
  exact hcells.1

/-- There is room above the lowest cell for the frame to be popped. -/
theorem room (h : V.Grown cells s (f :: frames) t) : V.low t + (cells f).length ≤ V.low s := by
  have hs := h.low
  rw [List.flatMap_cons, List.length_append] at hs
  omega

end Grown

end Stack

end Logic
