import Ucsim.S51.Uc390Bytes

/-!
# Nested sequences on the DS390

The bytes of the pending instructions lie below the level of the stack, and the entries of the tracker follow them.
-/

namespace Ucsim.S51.Uc390

variable {σ : Type}

/-! ## What the tracker makes of it -/

/-- An entry tells of one to three bytes that were written. -/
structure Sized (op : StackOp) : Prop where
  write : op.isWrite = true
  grown : ∃ sp n : Nat, sp < 0x100 ∧ 1 ≤ n ∧ n ≤ 3 ∧ op.spBefore = sp ∧
    op.spAfter = ((sp + n) % 0x100 : Nat)

/-- The entry on top ends where the stack does. -/
def Agrees (ops : List StackOp) (sp : UChar) : Prop := ∀ top ∈ ops.head?, Sized top ∧ top.spAfter = sp.toNat

theorem spIncreased_of_isWrite {op : StackOp} (h : op.isWrite = true) :
    op.spIncreased = decide (op.spBefore < op.spAfter) := if_pos h

theorem spIncreased_of_not_isWrite {op : StackOp} (h : op.isWrite = false) :
    op.spIncreased = decide (op.spAfter < op.spBefore) := if_neg (by simp [h])

/-- An operation that reads what an entry has written removes this entry. -/
theorem canRemoved_of_same {top op : StackOp} (htop : Sized top) (hop : op.isWrite = false)
    (hbefore : op.spBefore = top.spAfter) (hafter : op.spAfter = top.spBefore) : top.canRemoved op = true := by
  obtain ⟨sp, n, hsp, hn, hn3, hb, ha⟩ := htop.grown
  have hopa : ((BitVec.ofInt 16 op.spAfter).toNat : Int) = top.spBefore := by
    rw [hafter, hb, BitVec.toNat_ofInt]
    omega
  have hsame : top.spIncreased = op.spIncreased := by
    rw [spIncreased_of_isWrite htop.write, spIncreased_of_not_isWrite hop, hbefore, hafter]
  rw [StackOp.canRemoved, if_neg (not_not.mpr hsame), hopa]
  split
  · exact decide_eq_true (le_refl _)
  · exact decide_eq_true (le_refl _)

/-- It does not remove the entry that ends there. -/
theorem not_canRemoved_of_end {top op : StackOp} (htop : Sized top) (hafter : top.spAfter = op.spAfter) :
    top.canRemoved op = false := by
  obtain ⟨sp, n, hsp, hn, hn3, hb, ha⟩ := htop.grown
  have hopa : ((BitVec.ofInt 16 op.spAfter).toNat : Int) = top.spAfter := by
    rw [← hafter, ha, BitVec.toNat_ofInt]
    omega
  rw [StackOp.canRemoved]
  split
  · rfl
  · rw [hopa, spIncreased_of_isWrite htop.write, hb, ha]
    split
    case isTrue hup =>
      have hlt := of_decide_eq_true hup
      exact decide_eq_false (by omega)
    case isFalse hup =>
      have hge := of_decide_eq_false (Bool.eq_false_iff.mpr hup)
      exact decide_eq_false (by omega)

theorem readFrom_matched {top op : StackOp} {rest : List StackOp} {sp : UChar} (htop : Sized top)
    (hop : op.isWrite = false) (hmatch : top.matchOp op = true) (hbefore : op.spBefore = top.spAfter)
    (hafter : op.spAfter = top.spBefore) (hsp : op.spAfter = sp.toNat) (hrest : Agrees rest sp) :
    op.readFrom (top :: rest) = (rest, []) := by
  have hdrop : (top :: rest).dropWhile (·.canRemoved op) = rest := by
    rw [List.dropWhile_cons, if_pos (canRemoved_of_same htop hop hbefore hafter)]
    cases rest with
    | nil => rfl
    | cons next rest =>
      obtain ⟨hnext, hend⟩ := hrest next rfl
      have hkept := not_canRemoved_of_end hnext (hend.trans hsp.symm)
      rw [List.dropWhile_cons, if_neg (by simp [hkept])]
  have hconsistent : op.inconsistent rest = [] := by
    cases rest with
    | nil => rfl
    | cons next rest =>
      obtain ⟨hnext, hend⟩ := hrest next rfl
      exact if_neg (not_not.mpr (hend.trans hsp.symm))
  have hunmatched : top.unmatched op = [] := if_pos hmatch
  unfold StackOp.readFrom
  rw [if_neg (by simp [hop])]
  show ((top :: rest).dropWhile (·.canRemoved op), _) = _
  rw [hdrop, hunmatched, hconsistent]
  rfl

theorem readFrom_subset (op : StackOp) (ops : List StackOp) : (op.readFrom ops).1 ⊆ ops := by
  unfold StackOp.readFrom
  split
  · exact List.Subset.refl ops
  · split
    · exact List.Subset.refl []
    · exact (List.dropWhile_sublist _).subset

theorem inconsistent_eq_nil {op : StackOp} {ops : List StackOp} (h : op.inconsistent ops = []) :
    ∀ top ∈ ops.head?, top.spAfter = op.spAfter := by
  cases ops with
  | nil => exact fun top htop => absurd htop (by simp)
  | cons first rest =>
    intro top htop
    cases Option.mem_some.mp htop
    by_contra hne
    rw [StackOp.inconsistent, if_pos hne] at h
    cases h

/-- Without an error the entry that is left on top ends where the stack does. -/
theorem readFrom_agrees {op : StackOp} {ops : List StackOp} (hop : op.isWrite = false)
    (herrors : (op.readFrom ops).2 = []) : ∀ top ∈ (op.readFrom ops).1.head?, top.spAfter = op.spAfter := by
  unfold StackOp.readFrom at herrors ⊢
  rw [if_neg (by simp [hop])] at herrors ⊢
  cases ops with
  | nil => exact fun top htop => absurd htop (by simp)
  | cons first rest => exact inconsistent_eq_nil (List.append_eq_nil_iff.mp herrors).2

/-! ## Nested sequences -/

/-- The ways to put something on the stack. -/
inductive Via
  | push | acall | lcall | intr
  deriving DecidableEq, Repr

namespace Via

/-- The bytes that should be put there. -/
def bytes (acon : UChar) (due : Nat) : Via → List UChar
  | push => [BitVec.ofNat 8 due]
  | acall | lcall | intr => returnBytes acon due

/-- How many values these bytes can tell apart. -/
def bound (acon : UChar) : Via → Nat
  | push => 0x100
  | acall | lcall | intr => addresses acon

/-- The operation that the tracker should be told. -/
inductive Writes : Via → StackOpKind → Prop
  | push (data : TMem) : Writes .push (.push data)
  | lcall (called pushed : Int) : Writes .lcall (.call called pushed)
  | intr (called pushed : Int) : Writes .intr (.intr called pushed)

/-- The operation that should remove this one. -/
inductive Reads : Via → StackOpKind → Prop
  | push (data : TMem) : Reads .push (.pop data)
  | acall (addr : Int) : Reads .acall (.ret addr)
  | lcall (addr : Int) : Reads .lcall (.ret addr)
  | intr (addr : Int) : Reads .intr (.iret addr)

variable {via : Via} {kind kind' : StackOpKind}

theorem Writes.isWrite (h : via.Writes kind) (PC a b : Int) : (⟨kind, PC, a, b⟩ : StackOp).isWrite = true := by
  cases h with
  | push data => rfl
  | lcall called pushed => rfl
  | intr called pushed => rfl

theorem Reads.not_write (h : via.Reads kind) (PC a b : Int) : (⟨kind, PC, a, b⟩ : StackOp).isWrite = false := by
  cases h with
  | push data => rfl
  | acall addr => rfl
  | lcall addr => rfl
  | intr addr => rfl

/-- The tracker takes the two for a pair. -/
theorem matchOp (h : via.Writes kind) (h' : via.Reads kind') (PC PC' a a' b b' : Int) :
    (⟨kind, PC, a, b⟩ : StackOp).matchOp ⟨kind', PC', a', b'⟩ = true := by
  cases h with
  | push data => cases h'; rfl
  | lcall called pushed => cases h'; rfl
  | intr called pushed => cases h'; rfl

end Via

/-- Something is on the stack from one state of the machine to the other. A `POP` should deliver what is due, and a
return should continue there. -/
structure Frame (σ : Type) where
  via : Via
  due : Nat
  before : Machine σ
  after : Machine σ

/-- A frame has been taken from the stack. -/
structure Got (σ : Type) where
  frame : Frame σ
  value : Nat
  before : Machine σ
  after : Machine σ

/-- An instruction, or an interrupt, puts something on the stack. Service routines are not at address 0. -/
inductive Enter (R : Rest σ) : Via → Nat → Machine σ → Machine σ → Prop
  | push {s} (hcode : s.next = 0xc0) : Enter R .push (s.pushes R).1.toNat s (s.step R)
  | acall {s} (hcode : s.next &&& 0x1f = 0x11) :
      Enter R .acall ((s.PC + if AM1 s.acon then 3 else 2) % 0x20000) s (s.step R)
  | lcall {s} (hcode : s.next = 0x12) :
      Enter R .lcall ((s.PC + if AM1 s.acon then 4 else 3) % 0x20000) s (s.step R)
  | intr {s} (il : ItLevel) (hil : il.addr ≠ 0) : Enter R .intr s.PC s (s.accepted il)

/-- The instruction that belongs to it takes it from the stack, which then has so many bytes. What `POP` writes is
neither a byte of the stack nor its pointer nor ACON. -/
inductive Leave (R : Rest σ) (n : Nat) : Via → Nat → Machine σ → Machine σ → Prop
  | pop {s} (hcode : s.next = 0xd0) (hkeep : Keeps n s.popped (s.step R)) :
      Leave R n .push s.delivers.toNat s (s.step R)
  | ret {via s} (hcode : s.next = 0x22) (hvia : via = .acall ∨ via = .lcall) :
      Leave R n via (s.step R).PC s (s.step R)
  | reti {s} (hcode : s.next = 0x32) : Leave R n .intr (s.step R).PC s (s.step R)

/-- The bytes that should be on the stack. -/
def content (acon : UChar) (frames : List (Frame σ)) : List UChar := frames.flatMap fun f => f.via.bytes acon f.due

/-- A nested sequence. The frames are those still on the stack. Whatever else happens leaves the stack, its pointer,
ACON and the tracker as they are. -/
inductive Nested (R : Rest σ) (s : Machine σ) : List (Got σ) → List (Frame σ) → Machine σ → Prop
  | start : Nested R s [] [] s
  | enter {got frames via due t t'} (h : Nested R s got frames t) (henter : Enter R via due t t')
      (hroom : t.level % 0x400 + (via.bytes t.acon due).length ≤ limit t.acon) :
      Nested R s got (⟨via, due, t, t'⟩ :: frames) t'
  | leave {got f frames value t t'} (h : Nested R s got (f :: frames) t)
      (hleave : Leave R (content t.acon frames).length f.via value t t') :
      Nested R s (⟨f, value, t, t'⟩ :: got) frames t'
  | other {got frames t t'} (h : Nested R s got frames t) (hkeep : Keeps (content t.acon frames).length t t')
      (hops : t'.stackOps = t.stackOps) : Nested R s got frames t'

/-- The value is the one that is due, and the tracker drops just the entry of the frame, without an error. -/
structure Got.Right (g : Got σ) : Prop where
  value : g.value = g.frame.due
  entry : ∃ op, g.frame.after.stackOps = op :: g.frame.before.stackOps
  there : g.before.stackOps = g.frame.after.stackOps
  dropped : g.after.stackOps = g.frame.before.stackOps
  silent : g.after.trackerErrors = g.before.trackerErrors

/-- What the code serves: every `PUSH`, and with 16-bit addresses every `LCALL` and interrupt below 0x10000. -/
def Frame.Regular (acon : UChar) (f : Frame σ) : Prop :=
  match f.via with
  | .push => True
  | .acall => False
  | .lcall | .intr => AM1 acon = false ∧ f.due < 0x10000

/-- What the tracker has been told of a frame. -/
def Frame.Told (acon : UChar) (f : Frame σ) : Prop :=
  if f.via = .acall ∨ f.via ≠ .push ∧ AM1 acon = true then f.after.stackOps = f.before.stackOps
  else ∃ kind, f.via.Writes kind ∧ Tracked kind f.before f.after

/-- The value fits into its bytes, and `ACALL` uses the stack that `RET` uses. -/
structure Frame.Sound (acon : UChar) (f : Frame σ) : Prop where
  fits : f.due < f.via.bound acon
  same : f.via = .acall → AM1 acon = true ∨ SA acon = false

section Instructions

variable {R : Rest σ} {n due value : Nat} {via : Via} {s t : Machine σ}

/-- What `inst_lcall` tells the tracker. -/
theorem told_call (hpush : via ≠ .push) (hacall : via ≠ .acall) {kind : Int → StackOpKind}
    (hkind : ∀ called, via.Writes (kind called))
    (h : if AM1 s.acon then t.stackOps = s.stackOps else ∃ called, Tracked (kind called) s t) :
    Frame.Told s.acon ⟨via, due, s, t⟩ := by
  unfold Frame.Told
  by_cases hAM : AM1 s.acon = true
  · rw [if_pos hAM] at h
    rw [if_pos (.inr ⟨hpush, hAM⟩)]
    exact h
  · rw [if_neg hAM] at h
    obtain ⟨called, htracked⟩ := h
    rw [if_neg (by simp [hacall, hAM])]
    exact ⟨kind called, hkind called, htracked⟩

theorem Enter.told (h : Enter R via due s t) : Frame.Told s.acon ⟨via, due, s, t⟩ := by
  cases h with
  | push hcode => exact ⟨.push _, .push _, (step_push R hcode).2⟩
  | acall hcode => exact (step_acall R hcode).1
  | lcall hcode =>
    refine told_call (by decide) (by decide) ?_ (step_lcall R hcode rfl).2
    exact fun called => .lcall called _
  | intr il hil =>
    refine told_call (by decide) (by decide) ?_ (accepted_spec hil s).2
    exact fun called => .intr called _

theorem Enter.pushed (h : Enter R via due s t) (hsame : via = .acall → AM1 s.acon = true ∨ SA s.acon = false) :
    Pushed (via.bytes s.acon due) s t := by
  cases h with
  | push hcode =>
    have hbytes : Via.bytes s.acon (s.pushes R).1.toNat .push = [(s.pushes R).1] := by
      rw [Via.bytes, BitVec.ofNat_toNat, BitVec.setWidth_eq]
    rw [hbytes]
    exact (step_push R hcode).1
  | acall hcode => exact (step_acall R hcode).2.2 (hsame rfl) _ rfl
  | lcall hcode => exact (step_lcall R hcode rfl).1
  | intr il hil => exact (accepted_spec hil s).1

theorem Enter.acon (h : Enter R via due s t) : t.acon = s.acon := by
  cases h with
  | push hcode => exact (step_push R hcode).1.acon
  | acall hcode => exact (step_acall R hcode).2.1
  | lcall hcode => exact (step_lcall R hcode rfl).1.acon
  | intr il hil => exact (accepted_spec hil s).1.acon

/-- What a frame leaves behind when it is taken from the stack. -/
structure Left (n : Nat) (via : Via) (value : Nat) (s t : Machine σ) : Prop where
  acon : t.acon = s.acon
  stacked : ∀ base acon rest due, rest.length = n → Stacked base acon (via.bytes s.acon due ++ rest) s →
    Stacked base acon rest t ∧ (due < via.bound s.acon → value = due)
  lt : via ≠ .push → AM1 s.acon = false → value < 0x10000
  read : ∃ kind, via.Reads kind ∧ ReadBy kind s t

theorem Leave.left (h : Leave R n via value s t) : Left n via value s t := by
  cases h with
  | pop hcode hkeep =>
    have hquiet := s.started_quiet.trans s.started.fetched_quiet
    refine ⟨hkeep.acon.trans (s.started.fetched.pop_beside.acon.trans hquiet.beside.acon), ?_,
      fun h => absurd rfl h, .pop _, .push _, step_pop R hcode⟩
    intro base acon rest due hlength hs
    have hthere : Stacked base acon (BitVec.ofNat 8 due :: rest) s.started.fetched := hs.keep (hquiet.keeps _)
    refine ⟨hthere.pop.keep (hlength ▸ hkeep), fun hdue => ?_⟩
    rw [Machine.delivers, hthere.top, BitVec.toNat_ofNat]
    exact Nat.mod_eq_of_lt hdue
  | ret hcode hvia =>
    obtain ⟨hpops, hread⟩ := step_ret R hcode
    have hstacked := fun base acon (rest : List UChar) due (_ : rest.length = n) => hpops.stacked base acon rest due
    rcases hvia with rfl | rfl
    · exact ⟨hpops.acon, hstacked, fun _ => hpops.lt, .ret _, .acall _, hread⟩
    · exact ⟨hpops.acon, hstacked, fun _ => hpops.lt, .ret _, .lcall _, hread⟩
  | reti hcode =>
    obtain ⟨hpops, hread⟩ := step_reti R hcode
    have hstacked := fun base acon (rest : List UChar) due (_ : rest.length = n) => hpops.stacked base acon rest due
    exact ⟨hpops.acon, hstacked, fun _ => hpops.lt, .iret _, .intr _, hread⟩

end Instructions

/-! ## Runs -/

section Runs

variable {R : Rest σ} {s t : Machine σ} {got : List (Got σ)} {frames : List (Frame σ)}

theorem Nested.acon (h : Nested R s got frames t) : t.acon = s.acon := by
  induction h with
  | start => rfl
  | enter _ henter _ ih => exact henter.acon.trans ih
  | leave _ hleave ih => exact hleave.left.acon.trans ih
  | other _ hkeep _ ih => exact hkeep.acon.trans ih

theorem Nested.told (h : Nested R s got frames t) : ∀ f ∈ frames, f.Told s.acon := by
  induction h with
  | start => exact List.forall_mem_nil _
  | enter h henter _ ih => exact List.forall_mem_cons.mpr ⟨h.acon ▸ henter.told, ih⟩
  | leave _ _ ih => exact (List.forall_mem_cons.mp ih).2
  | other _ _ _ ih => exact ih

/-- A frame that is served right is one that the tracker has been told of, with an address that fits. -/
theorem regular_of_right {acon : UChar} {g : Got σ} (htold : g.frame.Told acon)
    (hlt : g.frame.via ≠ .push → AM1 acon = false → g.value < 0x10000) (hright : g.Right) :
    g.frame.Regular acon := by
  obtain ⟨op, hop⟩ := hright.entry
  have htracked : ¬(g.frame.via = .acall ∨ g.frame.via ≠ .push ∧ AM1 acon = true) := by
    intro hnot
    rw [Frame.Told, if_pos hnot, hop] at htold
    exact List.cons_ne_self _ _ htold
  have hvalue := hright.value
  unfold Frame.Regular
  cases hvia : g.frame.via with
  | push => trivial
  | acall => exact absurd (.inl hvia) htracked
  | lcall =>
    rw [hvia] at htracked hlt
    have hAM : AM1 acon = false := by simpa using htracked
    exact ⟨hAM, hvalue ▸ hlt (by decide) hAM⟩
  | intr =>
    rw [hvia] at htracked hlt
    have hAM : AM1 acon = false := by simpa using htracked
    exact ⟨hAM, hvalue ▸ hlt (by decide) hAM⟩

theorem Nested.regular (h : Nested R s got frames t) (hright : ∀ g ∈ got, g.Right) :
    ∀ g ∈ got, g.frame.Regular s.acon := by
  induction h with
  | start => exact List.forall_mem_nil _
  | enter _ _ _ ih => exact ih hright
  | @leave got f frames value t t' h hleave ih =>
    obtain ⟨hhead, htail⟩ := List.forall_mem_cons.mp hright
    refine List.forall_mem_cons.mpr ⟨?_, ih htail⟩
    have hlt := hleave.left.lt
    rw [h.acon] at hlt
    exact regular_of_right (h.told f List.mem_cons_self) hlt hhead
  | other _ _ _ ih => exact ih hright

/-- The tracker has the entries of the frames over those it started with. -/
def Tower (s : Machine σ) : List (Frame σ) → List StackOp → Prop
  | [], ops => ops = s.stackOps
  | f :: frames, ops => ops = f.after.stackOps ∧ Tower s frames f.before.stackOps

theorem Nested.tower (h : Nested R s got frames t) (hright : ∀ g ∈ got, g.Right) : Tower s frames t.stackOps := by
  induction h with
  | start => rfl
  | enter _ _ _ ih => exact ⟨rfl, ih hright⟩
  | leave _ _ ih =>
    obtain ⟨hhead, htail⟩ := List.forall_mem_cons.mp hright
    rw [hhead.dropped]
    exact (ih htail).2
  | other _ _ hops ih =>
    rw [hops]
    exact ih hright

/-- After the last return the entry on top ends where the stack does. -/
theorem Nested.agrees (h : Nested R s got frames t) (hright : ∀ g ∈ got, g.Right) (hframes : frames = [])
    (hgot : got ≠ []) : ∀ top ∈ t.stackOps.head?, top.spAfter = t.sp.toNat := by
  induction h with
  | start => exact absurd rfl hgot
  | enter _ _ _ _ => cases hframes
  | @leave got f frames value t t' h hleave ih =>
    obtain ⟨hhead, htail⟩ := List.forall_mem_cons.mp hright
    obtain ⟨kind, hreads, PC, hops, herrors⟩ := hleave.left.read
    rw [hhead.silent] at herrors
    have hnone := List.self_eq_append_right.mp herrors
    rw [hops]
    exact readFrom_agrees (hreads.not_write _ _ _) hnone
  | @other got frames t t' h hkeep hops ih =>
    have hsp : t'.sp.toNat = t.sp.toNat := by rw [t'.sp_eq_level, t.sp_eq_level, hkeep.level]
    rw [hops, hsp]
    exact ih hright hframes hgot

/-- Each frame has grown the stack by its bytes. -/
def Heights (s : Machine σ) : List (Frame σ) → Prop
  | [] => True
  | f :: frames =>
    f.before.level = s.level + (content s.acon frames).length ∧
      f.after.level = s.level + (content s.acon (f :: frames)).length ∧ Heights s frames

theorem content_cons (acon : UChar) (f : Frame σ) (frames : List (Frame σ)) :
    content acon (f :: frames) = f.via.bytes acon f.due ++ content acon frames := List.flatMap_cons

theorem bytes_length (via : Via) (acon : UChar) (due : Nat) :
    1 ≤ (via.bytes acon due).length ∧ (via.bytes acon due).length ≤ 3 := by
  have hreturn : 1 ≤ (returnBytes acon due).length ∧ (returnBytes acon due).length ≤ 3 := by
    rw [returnBytes]
    split
    · simp
    · simp
  cases via with
  | push => simp [Via.bytes]
  | acall => exact hreturn
  | lcall => exact hreturn
  | intr => exact hreturn

/-- The entry of a regular frame. -/
theorem Frame.Told.entry {acon : UChar} {f : Frame σ} (htold : f.Told acon) (hregular : f.Regular acon) :
    ∃ kind PC, f.via.Writes kind ∧
      f.after.stackOps = ⟨kind, PC, f.before.sp.toNat, f.after.sp.toNat⟩ :: f.before.stackOps := by
  have htracked : ¬(f.via = .acall ∨ f.via ≠ .push ∧ AM1 acon = true) := by
    unfold Frame.Regular at hregular
    cases hvia : f.via with
    | push => simp
    | acall => rw [hvia] at hregular; exact absurd hregular id
    | lcall => rw [hvia] at hregular; simp [hregular.1]
    | intr => rw [hvia] at hregular; simp [hregular.1]
  rw [Frame.Told, if_neg htracked] at htold
  obtain ⟨kind, hwrites, PC, hops⟩ := htold
  exact ⟨kind, PC, hwrites, hops⟩

theorem sized_of_sp {op : StackOp} {n : Nat} {sp sp' : UChar} (hwrite : op.isWrite = true)
    (hbefore : op.spBefore = sp.toNat) (hafter : op.spAfter = sp'.toNat) (hn : 1 ≤ n ∧ n ≤ 3)
    (hsp : sp' = sp + BitVec.ofNat 8 n) : Sized op := by
  refine ⟨hwrite, sp.toNat, n, sp.isLt, hn.1, hn.2, hbefore, ?_⟩
  rw [hafter, hsp, BitVec.toNat_add, BitVec.toNat_ofNat]
  omega

theorem Enter.entries {via : Via} {due : Nat} (h : Enter R via due s t) (hs : ∀ op ∈ s.stackOps, Sized op) :
    ∀ op ∈ t.stackOps, Sized op := by
  have htold := h.told
  by_cases htracked : via = .acall ∨ via ≠ .push ∧ AM1 s.acon = true
  · rw [Frame.Told, if_pos htracked] at htold
    rw [show t.stackOps = s.stackOps from htold]
    exact hs
  · rw [Frame.Told, if_neg htracked] at htold
    obtain ⟨kind, hwrites, PC, hops⟩ := htold
    have hpushed := h.pushed fun hvia => absurd (.inl hvia) htracked
    rw [show t.stackOps = _ from hops]
    refine List.forall_mem_cons.mpr ⟨?_, hs⟩
    exact sized_of_sp (hwrites.isWrite _ _ _) rfl rfl (bytes_length via s.acon due) hpushed.sp

/-- The tracker only ever has such entries. -/
theorem Nested.entries (h : Nested R s got frames t) (hs : ∀ op ∈ s.stackOps, Sized op) :
    ∀ op ∈ t.stackOps, Sized op := by
  induction h with
  | start => exact hs
  | enter _ henter _ ih => exact henter.entries ih
  | leave _ hleave ih =>
    obtain ⟨kind, hreads, PC, hops, -⟩ := hleave.left.read
    rw [hops]
    exact fun op hop => ih op (readFrom_subset _ _ hop)
  | other _ _ hops ih =>
    rw [hops]
    exact ih

/-- The entry on top belongs to the frame on top. -/
theorem Tower.agrees {ops : List StackOp} (htower : Tower s frames ops) (hheights : Heights s frames)
    (htold : ∀ f ∈ frames, f.Told s.acon) (hregular : ∀ f ∈ frames, f.Regular s.acon)
    (hstart : ∀ top ∈ s.stackOps.head?, top.spAfter = s.sp.toNat) (hentries : ∀ op ∈ ops, Sized op)
    (hlevel : t.level = s.level + (content s.acon frames).length) : Agrees ops t.sp := by
  refine fun top htop => ⟨hentries top (List.mem_of_mem_head? htop), ?_⟩
  cases frames with
  | nil =>
    have hsp : t.sp = s.sp := Machine.sp_congr hlevel
    rw [show ops = s.stackOps from htower] at htop
    rw [hsp]
    exact hstart top htop
  | cons f frames =>
    obtain ⟨-, hafter, -⟩ := hheights
    obtain ⟨kind, PC, -, hops⟩ := (htold f List.mem_cons_self).entry (hregular f List.mem_cons_self)
    rw [htower.1, hops] at htop
    cases Option.mem_some.mp htop
    rw [Machine.sp_congr (hlevel.trans hafter.symm)]

theorem Enter.sound {R : Rest σ} {via : Via} {due : Nat} {acon : UChar} (h : Enter R via due s t)
    (hregular : Frame.Regular acon (⟨via, due, s, t⟩ : Frame σ)) :
    Frame.Sound acon (⟨via, due, s, t⟩ : Frame σ) := by
  cases h with
  | push hcode => exact ⟨(s.pushes R).1.isLt, nofun⟩
  | acall hcode => exact absurd hregular id
  | lcall hcode => exact ⟨hregular.2.trans_eq (if_neg (by simp [hregular.1])).symm, nofun⟩
  | intr il hil => exact ⟨hregular.2.trans_eq (if_neg (by simp [hregular.1])).symm, nofun⟩

/-- What holds as long as only sound frames are put on the stack. -/
structure Delivered (s : Machine σ) (got : List (Got σ)) (frames : List (Frame σ)) (t : Machine σ) : Prop where
  stacked : Stacked s.level s.acon (content s.acon frames) t
  heights : Heights s frames
  value : ∀ g ∈ got, g.value = g.frame.due

theorem Delivered.start (s : Machine σ) : Delivered s [] [] s where
  stacked := by
    refine ⟨rfl, rfl, ?_, trivial⟩
    have hsp := s.sp_lt
    rw [Machine.level, limit]
    split
    · show _ % 0x400 + 0 ≤ 0x3ff
      omega
    · show _ % 0x400 + 0 ≤ 0xff
      omega
  heights := trivial
  value := List.forall_mem_nil _

theorem Delivered.enter (h : Delivered s got frames t) {via : Via} {due : Nat} {t' : Machine σ}
    (hacon : t.acon = s.acon) (henter : Enter R via due t t')
    (hroom : t.level % 0x400 + (via.bytes t.acon due).length ≤ limit t.acon)
    (hsound : Frame.Sound s.acon (⟨via, due, t, t'⟩ : Frame σ)) :
    Delivered s got (⟨via, due, t, t'⟩ :: frames) t' := by
  have hpushed := henter.pushed (hacon.symm ▸ hsound.same)
  have hplace := h.stacked.place
  rw [hacon] at hroom hpushed
  have hstacked := hpushed.stacked _ _ _ h.stacked (by omega)
  exact ⟨hstacked, ⟨h.stacked.level_eq, hstacked.level_eq, h.heights⟩, h.value⟩

theorem Delivered.leave {f : Frame σ} (h : Delivered s got (f :: frames) t) {value : Nat} {t' : Machine σ}
    (hacon : t.acon = s.acon) (hleave : Leave R (content s.acon frames).length f.via value t t')
    (hsound : f.Sound s.acon) : Delivered s (⟨f, value, t, t'⟩ :: got) frames t' := by
  have hcontent := h.stacked
  rw [content_cons, ← hacon] at hcontent
  obtain ⟨hstacked, hvalue⟩ := hleave.left.stacked _ _ _ _ (by rw [hacon]) hcontent
  rw [hacon] at hstacked hvalue
  exact ⟨hstacked, h.heights.2.2, List.forall_mem_cons.mpr ⟨hvalue hsound.fits, h.value⟩⟩

/-- In all modes what is popped is what is due, if it fits and no `ACALL` misses the stack. -/
theorem Nested.delivered (h : Nested R s got frames t) (hgot : ∀ g ∈ got, g.frame.Sound s.acon)
    (hframes : ∀ f ∈ frames, f.Sound s.acon) : Delivered s got frames t := by
  induction h with
  | start => exact Delivered.start s
  | enter h henter hroom ih =>
    obtain ⟨hhead, htail⟩ := List.forall_mem_cons.mp hframes
    exact (ih hgot htail).enter h.acon henter hroom hhead
  | @leave got f frames value t t' h hleave ih =>
    obtain ⟨hhead, htail⟩ := List.forall_mem_cons.mp hgot
    rw [h.acon] at hleave
    exact (ih htail (List.forall_mem_cons.mpr ⟨hhead, hframes⟩)).leave h.acon hleave hhead
  | @other got frames t t' h hkeep hops ih =>
    have hdelivered := ih hgot hframes
    rw [h.acon] at hkeep
    exact ⟨hdelivered.stacked.keep hkeep, hdelivered.heights, hdelivered.value⟩

theorem Nested.sound (h : Nested R s got frames t) : (∀ f ∈ frames, f.Regular s.acon → f.Sound s.acon) ∧
    ∀ g ∈ got, g.frame.Regular s.acon → g.frame.Sound s.acon := by
  induction h with
  | start => exact ⟨List.forall_mem_nil _, List.forall_mem_nil _⟩
  | enter _ henter _ ih => exact ⟨List.forall_mem_cons.mpr ⟨henter.sound, ih.1⟩, ih.2⟩
  | leave _ _ ih =>
    obtain ⟨hhead, htail⟩ := List.forall_mem_cons.mp ih.1
    exact ⟨htail, List.forall_mem_cons.mpr ⟨hhead, ih.2⟩⟩
  | other _ _ _ ih => exact ih

/-- A regular frame is taken from the stack, and its entry from the tracker. -/
theorem Delivered.right {f : Frame σ} {value : Nat} {t' : Machine σ} (h : Delivered s got (f :: frames) t)
    (h' : Delivered s (⟨f, value, t, t'⟩ :: got) frames t') {n : Nat} (hleave : Leave R n f.via value t t')
    (htower : Tower s (f :: frames) t.stackOps) (htold : ∀ g ∈ f :: frames, g.Told s.acon)
    (hregular : ∀ g ∈ f :: frames, g.Regular s.acon) (hentries : ∀ op ∈ t.stackOps, Sized op)
    (hstart : ∀ top ∈ s.stackOps.head?, top.spAfter = s.sp.toNat) : (⟨f, value, t, t'⟩ : Got σ).Right := by
  obtain ⟨hbefore, hafter, hrest⟩ := h.heights
  obtain ⟨hthere, hbelow⟩ := htower
  obtain ⟨kind, PC, hwrites, hops⟩ := (htold f List.mem_cons_self).entry (hregular f List.mem_cons_self)
  -- the stack pointer goes back over the bytes of the frame
  have hsp : t.sp = f.after.sp := Machine.sp_congr (h.stacked.level_eq.trans hafter.symm)
  have hsp' : t'.sp = f.before.sp := Machine.sp_congr (h'.stacked.level_eq.trans hbefore.symm)
  rw [hthere, hops] at hentries
  obtain ⟨hsized, hsizedRest⟩ := List.forall_mem_cons.mp hentries
  have hagrees := hbelow.agrees hrest (fun g hg => htold g (List.mem_cons_of_mem f hg))
    (fun g hg => hregular g (List.mem_cons_of_mem f hg)) hstart hsizedRest h'.stacked.level_eq
  obtain ⟨kind', hreads, PC', hleftOps, hleftErrors⟩ := hleave.left.read
  have hread := readFrom_matched hsized (hreads.not_write PC' t.sp.toNat t'.sp.toNat)
    (Via.matchOp hwrites hreads _ _ _ _ _ _) (congrArg _ (congrArg _ hsp)) (congrArg _ (congrArg _ hsp')) rfl hagrees
  rw [hthere, hops, hread] at hleftOps hleftErrors
  exact ⟨h'.value _ List.mem_cons_self, ⟨_, hops⟩, hthere, hleftOps, hleftErrors.trans (List.append_nil _)⟩

theorem Nested.right (h : Nested R s got frames t) (hs : ∀ op ∈ s.stackOps, Sized op)
    (hstart : ∀ top ∈ s.stackOps.head?, top.spAfter = s.sp.toNat)
    (hgot : ∀ g ∈ got, g.frame.Regular s.acon) (hframes : ∀ f ∈ frames, f.Regular s.acon) :
    ∀ g ∈ got, g.Right := by
  induction h with
  | start => exact List.forall_mem_nil _
  | enter _ _ _ ih => exact ih hgot (List.forall_mem_cons.mp hframes).2
  | @leave got f frames value t t' h hleave ih =>
    obtain ⟨hhead, htail⟩ := List.forall_mem_cons.mp hgot
    have hall := List.forall_mem_cons.mpr ⟨hhead, hframes⟩
    have hright := ih htail hall
    have hsound : ∀ g ∈ f :: frames, g.Sound s.acon := fun g hg => h.sound.1 g hg (hall g hg)
    have hdelivered := h.delivered (fun g hg => h.sound.2 g hg (htail g hg)) hsound
    have hleave' := hleave
    rw [h.acon] at hleave'
    have hnext := hdelivered.leave h.acon hleave' (hsound f List.mem_cons_self)
    refine List.forall_mem_cons.mpr ⟨?_, hright⟩
    exact hdelivered.right hnext hleave (h.tower hright) h.told hall (h.entries hs) hstart
  | other _ _ _ ih => exact ih hgot hframes

theorem sp_esp_of_level {s t : Machine σ} (hacon : t.acon = s.acon) (hlevel : t.level = s.level) :
    t.sp = s.sp ∧ (SA s.acon = true → t.esp = s.esp) := by
  refine ⟨Machine.sp_congr hlevel, fun hSA => ?_⟩
  have hsp := s.sp_lt
  have hsp' := t.sp_lt
  rw [Machine.level_of_SA (by rw [hacon, hSA]), Machine.level_of_SA hSA] at hlevel
  apply BitVec.eq_of_toNat_eq
  omega

/-- While all frames are regular and the tracker agrees with the stack pointer at the start, every `POP` and every
return gets what is due, the tracker drops its entry, and the level is that of the frames. A complete sequence comes
out right, with the stack pointer back, exactly if all its frames are regular and the tracker agreed at the start. -/
theorem complete_right_iff (h : Nested R s got frames t) (hs : ∀ op ∈ s.stackOps, Sized op) :
    ((∀ g ∈ got, g.frame.Regular s.acon) → (∀ f ∈ frames, f.Regular s.acon) →
        (∀ top ∈ s.stackOps.head?, top.spAfter = s.sp.toNat) →
        (∀ g ∈ got, g.Right) ∧ t.level = s.level + (content s.acon frames).length) ∧
      (frames = [] →
        ((∀ g ∈ got, g.Right) ∧ t.sp = s.sp ∧ (SA s.acon = true → t.esp = s.esp) ↔
          (∀ g ∈ got, g.frame.Regular s.acon) ∧
            (got ≠ [] → ∀ top ∈ s.stackOps.head?, top.spAfter = s.sp.toNat))) := by
  have hlevel : (∀ g ∈ got, g.frame.Regular s.acon) → (∀ f ∈ frames, f.Regular s.acon) →
      t.level = s.level + (content s.acon frames).length := fun hgot hframes =>
    (h.delivered (fun g hg => h.sound.2 g hg (hgot g hg)) fun f hf => h.sound.1 f hf (hframes f hf)).stacked.level_eq
  refine ⟨fun hgot hframes hstart => ⟨h.right hs hstart hgot hframes, hlevel hgot hframes⟩, fun hframes => ?_⟩
  rw [hframes] at hlevel
  constructor
  · rintro ⟨hright, hsp, -⟩
    refine ⟨h.regular hright, fun hgot => ?_⟩
    have htower := h.tower hright
    have hagrees := h.agrees hright hframes hgot
    rw [hframes] at htower
    rw [show t.stackOps = s.stackOps from htower, hsp] at hagrees
    exact hagrees
  · rintro ⟨hgot, hstart⟩
    refine ⟨?_, sp_esp_of_level h.acon (hlevel hgot (List.forall_mem_nil _))⟩
    cases got with
    | nil => exact List.forall_mem_nil _
    | cons g got =>
      rw [hframes] at h
      exact h.right hs (hstart (List.cons_ne_nil g got)) hgot (List.forall_mem_nil _)

end Runs

/-! ## Examples -/

/-- Cells without hardware, and other instructions that do nothing. -/
def plain : Rest Unit where
  read _ addr s := (s.cell addr, s)
  write _ addr val s := { s with cell := Function.update s.cell addr val }
  inst _ s := (.go, s)
  read_keeps _ _ _ _ _ := rfl

/-- A machine after reset, with the values of SP, ESP and ACON. -/
def booted (acon : UChar) (rom : Nat → UChar) : Machine Unit where
  rom := rom
  iram _ := 0
  ixram _ := 0
  sfr :=
    { cell := fun a => if a = SP then 7 else if a = ESP then 0xfc else if a = ACON then acon else 0
      wasReti := false
      hw := () }
  PC := 0
  instPC := 0
  state := .go
  ticks := 0
  instTicks := 0
  itLevels := []
  stackOps := []
  errors := []

/-- `LCALL 4` with the 10-bit stack, and `RET` there. -/
def calling : Machine Unit :=
  booted 0xfc fun a => if a = 0 then 0x12 else if a = 2 then 4 else if a = 4 then 0x22 else 0

/-- The call has been made, and the routine has returned. -/
def called : Machine Unit := calling.step plain

def returned : Machine Unit := called.step plain

/-- The routine comes back to 3. -/
theorem complete_right_calling :
    Nested plain calling [⟨⟨.lcall, 3, calling, called⟩, 3, called, returned⟩] [] returned ∧
      (⟨⟨.lcall, 3, calling, called⟩, 3, called, returned⟩ : Got Unit).Right ∧ returned.sp = calling.sp := by
  have hPC : returned.PC = 3 := by decide
  have hret : Leave plain 0 .lcall returned.PC called returned := .ret (by decide) (.inr rfl)
  rw [hPC] at hret
  have hrun : Nested plain calling [⟨⟨.lcall, 3, calling, called⟩, 3, called, returned⟩] [] returned :=
    .leave (.enter .start (.lcall (s := calling) (by decide)) (by decide)) hret
  have hregular : Frame.Regular calling.acon ⟨.lcall, 3, calling, called⟩ := ⟨by decide, by decide⟩
  have hright := ((complete_right_iff hrun (List.forall_mem_nil _)).2 rfl).mpr
    ⟨List.forall_mem_singleton.mpr hregular, fun _ top htop => absurd htop (by simp [calling, booted])⟩
  exact ⟨hrun, hright.1 _ (List.mem_singleton.mpr rfl), hright.2.1⟩

/-- `ACALL 4` with the 10-bit stack, and `RET` there, which goes to 0. -/
def calling_short : Machine Unit :=
  booted 0xfc fun a => if a = 0 then 0x11 else if a = 1 then 4 else if a = 4 then 0x22 else 0

def called_short : Machine Unit := calling_short.step plain

def returned_short : Machine Unit := called_short.step plain

/-- The routine does not come back to 2. -/
theorem not_right_calling_short :
    Nested plain calling_short [⟨⟨.acall, 2, calling_short, called_short⟩, 0, called_short, returned_short⟩] []
        returned_short ∧
      ¬(⟨⟨.acall, 2, calling_short, called_short⟩, 0, called_short, returned_short⟩ : Got Unit).Right ∧
      returned_short.errors = [.stackTrackerEmpty] := by
  have hPC : returned_short.PC = 0 := by decide
  have hret : Leave plain 0 .acall returned_short.PC called_short returned_short := .ret (by decide) (.inl rfl)
  rw [hPC] at hret
  have hrun : Nested plain calling_short
      [⟨⟨.acall, 2, calling_short, called_short⟩, 0, called_short, returned_short⟩] [] returned_short :=
    .leave (.enter .start (.acall (s := calling_short) (by decide)) (by decide)) hret
  refine ⟨hrun, fun hright => ?_, by decide⟩
  exact absurd hright.value (by decide)

end Ucsim.S51.Uc390
