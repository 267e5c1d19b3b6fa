import Ucsim.Cmd.CommandLine

/-!
# Sets of commands

A command has several names. `get_cmd` finds the command with a name, and if there is none the only one with a name that
begins with the word. A composed command shifts the line and looks for its subcommand. What a command does itself is left
to the type `α`.
-/

namespace Ucsim.Cmd

/-- `cl_cmd` and `cl_super_cmd`. -/
inductive Command (α : Type)
  | cmd (names : List (List Byte)) (body : α)
  | super (names : List (List Byte)) (commands : List (Command α))

variable {α : Type}

namespace Command

/-- `names`. -/
def names : Command α → List (List Byte)
  | .cmd names _ => names
  | .super names _ => names

/-- `name_match`. With `strict` the name is one of the command's, otherwise one of these begins with it. -/
def nameMatch (c : Command α) (aname : Option (List Byte)) (strict : Bool) : Bool :=
  match aname with
  | none => c.names.isEmpty
  | some aname => if strict then c.names.contains aname else c.names.any (aname.isPrefixOf ·)

end Command

/-! ## Looking for a command -/

/-- The second loop of `get_cmd`: a second command that matches ends it. -/
def matchLoop (aname : Option (List Byte)) : List (Command α) → Option (Command α) → Option (Command α)
  | [], cMatched => cMatched
  | c :: rest, none =>
    if c.nameMatch aname false then matchLoop aname rest (some c) else matchLoop aname rest none
  | c :: rest, some cMatched =>
    if c.nameMatch aname false then none else matchLoop aname rest (some cMatched)

/-- `get_cmd` with the name of a line. -/
def getCmd (commands : List (Command α)) (aname : Option (List Byte)) : Option (Command α) :=
  match commands.find? (·.nameMatch aname true) with
  | some c => some c
  | none => matchLoop aname commands none

/-- `get_cmd(char *cmd_name)`. -/
def getCmdNamed (commands : List (Command α)) (cmdName : List Byte) : Option (Command α) :=
  commands.find? (·.nameMatch (some cmdName) true)

/-- Once a command has matched, no other one may. -/
theorem matchLoop_some {aname : Option (List Byte)} {commands : List (Command α)} {m c : Command α} :
    matchLoop aname commands (some m) = some c ↔ m = c ∧ ∀ d ∈ commands, d.nameMatch aname false = false := by
  induction commands with
  | nil => simp [matchLoop]
  | cons d rest ih =>
    rw [matchLoop]
    cases hd : d.nameMatch aname false with
    | true => simp [hd]
    | false => simpa [hd] using ih

/-- The loop finds the only command that matches. -/
theorem matchLoop_none {aname : Option (List Byte)} {commands : List (Command α)} {c : Command α} :
    matchLoop aname commands none = some c ↔ ∃ l r, commands = l ++ c :: r ∧ c.nameMatch aname false = true ∧
      ∀ d ∈ l ++ r, d.nameMatch aname false = false := by
  induction commands with
  | nil => simp [matchLoop]
  | cons d rest ih =>
    rw [matchLoop]
    cases hd : d.nameMatch aname false with
    | true =>
      rw [if_pos rfl, matchLoop_some]
      constructor
      · rintro ⟨rfl, hrest⟩
        exact ⟨[], rest, rfl, hd, hrest⟩
      · rintro ⟨l, r, heq, hc, hother⟩
        cases l with
        | nil =>
          obtain ⟨rfl, rfl⟩ := List.cons.inj heq
          exact ⟨rfl, hother⟩
        | cons x l =>
          obtain ⟨rfl, -⟩ := List.cons.inj heq
          have hx := hother d List.mem_cons_self
          rw [hd] at hx
          cases hx
    | false =>
      rw [if_neg (by simp), ih]
      constructor
      · rintro ⟨l, r, rfl, hc, hother⟩
        refine ⟨d :: l, r, rfl, hc, fun x hx => ?_⟩
        rcases List.mem_cons.mp hx with rfl | hx
        · exact hd
        · exact hother x hx
      · rintro ⟨l, r, heq, hc, hother⟩
        cases l with
        | nil =>
          obtain ⟨rfl, -⟩ := List.cons.inj heq
          rw [hd] at hc
          cases hc
        | cons x l =>
          obtain ⟨rfl, rfl⟩ := List.cons.inj heq
          exact ⟨l, r, rfl, hc, fun y hy => hother y (List.mem_cons_of_mem d hy)⟩

theorem getCmd_mem {aname : Option (List Byte)} {commands : List (Command α)} {c : Command α}
    (h : getCmd commands aname = some c) : c ∈ commands := by
  unfold getCmd at h
  split at h
  · next hfind => exact Option.some.inj h ▸ List.mem_of_find?_eq_some hfind
  · obtain ⟨l, r, rfl, -⟩ := matchLoop_none.mp h
    simp

theorem getCmdNamed_mem {cmdName : List Byte} {commands : List (Command α)} {c : Command α}
    (h : getCmdNamed commands cmdName = some c) : c ∈ commands := List.mem_of_find?_eq_some h

/-! ## Working -/

/-- How the work on a line ends: a command runs, a subcommand is missing behind a composed command, or the line names no
subcommand of it. -/
inductive Outcome (α : Type)
  | ran (body : α) (line : CmdLine)
  | mustBeFollowed (name : List Byte) (commands : List (Command α))
  | undefinedSubcommand (sub name : List Byte)

/-- The name of the subcommand that a composed command runs without any. -/
def noParameters : List Byte := "_no_parameters_".toList.map chr

theorem sizeOf_lt_super {c : Command α} {names : List (List Byte)} {commands : List (Command α)} (h : c ∈ commands) :
    sizeOf c < sizeOf (Command.super names commands) := by
  have hlt := List.sizeOf_lt_of_mem h
  simp only [Command.super.sizeOf_spec]
  omega

/-- `work`. -/
def Command.work : Command α → CmdLine → Outcome α
  | .cmd _ body, line => .ran body line
  | .super names commands, line =>
    if line.shift.2 then
      match _h : getCmd commands line.shift.1.name with
      | none => .undefinedSubcommand (line.shift.1.name.getD []) (names.headD [])
      | some c => c.work line.shift.1
    else
      match _h : getCmdNamed commands noParameters with
      | none => .mustBeFollowed (names.headD []) commands
      | some c => c.work line.shift.1
termination_by c => sizeOf c
decreasing_by
  · exact sizeOf_lt_super (getCmd_mem _h)
  · exact sizeOf_lt_super (getCmdNamed_mem _h)

/-- What a console does with a line that is not a repetition. There is no command for an expression, which is evaluated. -/
def execute (commands : List (Command α)) (cmdstr : List Byte) : Option (Outcome α) :=
  (getCmd commands (CmdLine.new cmdstr).name).map (·.work (CmdLine.new cmdstr))

/-! ## Names and abbreviations -/

/-- The word `w` stands for the command `c` with the name `n`: it is the name, of no command before `c`, or it begins the
name, is no name at all, and begins no name of another command. -/
def Picks (commands : List (Command α)) (w n : List Byte) (c : Command α) : Prop :=
  ∃ l r, commands = l ++ c :: r ∧ n ∈ c.names ∧
    (w = n ∧ (∀ d ∈ l, w ∉ d.names) ∨
      w <+: n ∧ (∀ d ∈ commands, w ∉ d.names) ∧ ∀ d ∈ l ++ r, ∀ m ∈ d.names, ¬ w <+: m)

theorem nameMatch_strict (c : Command α) (w : List Byte) : c.nameMatch (some w) true = true ↔ w ∈ c.names := by
  simp [Command.nameMatch]

theorem nameMatch_begin (c : Command α) (w : List Byte) : c.nameMatch (some w) false = true ↔ ∃ n ∈ c.names, w <+: n := by
  simp [Command.nameMatch]

theorem nameMatch_other (c : Command α) (w : List Byte) :
    c.nameMatch (some w) false = false ↔ ∀ n ∈ c.names, ¬ w <+: n := by
  rw [← Bool.not_eq_true, nameMatch_begin]
  simp

/-- A word picks at most one command. -/
theorem getCmd_iff {commands : List (Command α)} {w : List Byte} {c : Command α} :
    getCmd commands (some w) = some c ↔ ∃ n, Picks commands w n c := by
  unfold getCmd
  cases hfind : commands.find? (·.nameMatch (some w) true) with
  | some d =>
    obtain ⟨hd, l, r, rfl, hl⟩ := List.find?_eq_some_iff_append.mp hfind
    have hwd : w ∈ d.names := (nameMatch_strict d w).mp hd
    have hwl : ∀ x ∈ l, w ∉ x.names := fun x hx hw => by
      have hnot := hl x hx
      rw [(nameMatch_strict x w).mpr hw] at hnot
      cases hnot
    constructor
    · intro h
      obtain rfl : d = c := Option.some.inj h
      exact ⟨w, l, r, rfl, hwd, .inl ⟨rfl, hwl⟩⟩
    · rintro ⟨n, l', r', heq, hn, ⟨rfl, hwl'⟩ | ⟨-, hno, -⟩⟩
      · -- both are the first command with that name
        have hfind' : (l' ++ c :: r').find? (·.nameMatch (some w) true) = some c :=
          List.find?_eq_some_iff_append.mpr ⟨(nameMatch_strict c w).mpr hn, l', r', rfl, fun x hx => by
            have hnot := fun h => hwl' x hx ((nameMatch_strict x w).mp h)
            simpa using hnot⟩
        rw [← heq, hfind] at hfind'
        exact hfind'
      · exact absurd hwd (hno d (by simp))
  | none =>
    have hno : ∀ d ∈ commands, w ∉ d.names := fun d hd hw =>
      List.find?_eq_none.mp hfind d hd ((nameMatch_strict d w).mpr hw)
    refine matchLoop_none.trans ⟨?_, ?_⟩
    · rintro ⟨l, r, rfl, hc, hother⟩
      obtain ⟨n, hn, hw⟩ := (nameMatch_begin c w).mp hc
      exact ⟨n, l, r, rfl, hn, .inr ⟨hw, hno, fun d hd => (nameMatch_other d w).mp (hother d hd)⟩⟩
    · rintro ⟨n, l, r, rfl, hn, ⟨rfl, -⟩ | ⟨hw, -, hother⟩⟩
      · exact absurd hn (hno c (by simp))
      · exact ⟨l, r, rfl, (nameMatch_begin c w).mpr ⟨n, hn, hw⟩, fun d hd => (nameMatch_other d w).mpr (hother d hd)⟩

/-- More letters of a name pick the same command. -/
theorem Picks.extend {commands : List (Command α)} {w w' n : List Byte} {c : Command α} (h : Picks commands w n c)
    (hww' : w <+: w') (hw'n : w' <+: n) : ∃ n', Picks commands w' n' c := by
  obtain ⟨l, r, heq, hn, ⟨rfl, hl⟩ | ⟨-, hno, hother⟩⟩ := h
  · have hsame : w' = w := hw'n.eq_of_length_le hww'.length_le
    subst hsame
    exact ⟨w', l, r, heq, hn, .inl ⟨rfl, hl⟩⟩
  · have hother' : ∀ d ∈ l ++ r, ∀ m ∈ d.names, ¬ w' <+: m := fun d hd m hm hprefix =>
      hother d hd m hm (hww'.trans hprefix)
    by_cases hexact : w' ∈ c.names
    · refine ⟨w', l, r, heq, hexact, .inl ⟨rfl, fun d hd hw' => ?_⟩⟩
      exact hother' d (List.mem_append_left r hd) w' hw' (List.prefix_refl w')
    · refine ⟨n, l, r, heq, hn, .inr ⟨hw'n, fun d hd hw' => ?_, hother'⟩⟩
      rw [heq] at hd
      rcases List.mem_append.mp hd with hd | hd
      · exact hother' d (List.mem_append_left r hd) w' hw' (List.prefix_refl w')
      · rcases List.mem_cons.mp hd with rfl | hd
        · exact hexact hw'
        · exact hother' d (List.mem_append_right l hd) w' hw' (List.prefix_refl w')

/-- Words that lead through composed commands to a command; each is given with the name that it stands for. -/
inductive Leads : List (Command α) → List (List Byte × List Byte) → α → Prop
  | cmd {commands : List (Command α)} {w n : List Byte} {names : List (List Byte)} {body : α} :
      Picks commands w n (.cmd names body) → Leads commands [(w, n)] body
  | super {commands sub : List (Command α)} {w n : List Byte} {names : List (List Byte)}
      {path : List (List Byte × List Byte)} {body : α} :
      Picks commands w n (.super names sub) → Leads sub path body → Leads commands ((w, n) :: path) body

/-- The words are between those that lead to a command and the names that they stand for. -/
def Extends (path : List (List Byte × List Byte)) (ws : List (List Byte)) : Prop :=
  List.Forall₂ (fun p w => p.1 <+: w ∧ w <+: p.2) path ws

theorem Leads.extend {commands : List (Command α)} {path : List (List Byte × List Byte)} {body : α}
    (h : Leads commands path body) {ws : List (List Byte)} (hws : Extends path ws) :
    ∃ path', Leads commands path' body ∧ path'.map (·.1) = ws := by
  induction h generalizing ws with
  | @cmd commands w n names body hpick =>
    obtain ⟨w', ws, hw', hnil, rfl⟩ := List.forall₂_cons_left_iff.mp hws
    obtain rfl := List.forall₂_nil_left_iff.mp hnil
    obtain ⟨n', hpick'⟩ := hpick.extend hw'.1 hw'.2
    exact ⟨[(w', n')], .cmd hpick', rfl⟩
  | @super commands sub w n names path body hpick _ ih =>
    obtain ⟨w', ws, hw', hrest, rfl⟩ := List.forall₂_cons_left_iff.mp hws
    obtain ⟨n', hpick'⟩ := hpick.extend hw'.1 hw'.2
    obtain ⟨path', hpath', rfl⟩ := ih hrest
    exact ⟨(w', n') :: path', .super hpick' hpath', rfl⟩

/-! ## Typed commands -/

/-- The words of a command as they are typed behind the first one: each behind a gap. -/
def typedWords : List (List Byte × List Byte) → List Byte
  | [] => []
  | (g, w) :: l => g ++ w ++ typedWords l

/-- Commands can have these names, and the gaps are of delimiters. -/
def WordList (l : List (List Byte × List Byte)) : Prop := ∀ p ∈ l, p.1 ≠ [] ∧ Gap p.1 ∧ CommandName p.2

theorem endsWord_typedWords {l : List (List Byte × List Byte)} (hl : WordList l) {s : List Byte} (hs : EndsWord s) :
    EndsWord (typedWords l ++ s) := by
  cases l with
  | nil => exact hs
  | cons p l =>
    obtain ⟨hne, hg, -⟩ := hl p List.mem_cons_self
    rw [typedWords, List.append_assoc, List.append_assoc]
    exact endsWord_gap hne hg

/-- A composed command goes on with its subcommand. -/
theorem work_super {names : List (List Byte)} {commands : List (Command α)} {line line' : CmdLine} {c : Command α}
    (hshift : line.shift = (line', true)) (hc : getCmd commands line'.name = some c) :
    (Command.super names commands).work line = c.work line' := by
  rw [Command.work, hshift, if_pos rfl]
  split
  · next hnone =>
    rw [hc] at hnone
    cases hnone
  · next d hd =>
    rw [hc] at hd
    rw [Option.some.inj hd]

/-- The command that the words lead to runs on the parameters that were typed. -/
theorem Leads.work {commands : List (Command α)} {path : List (List Byte × List Byte)} {body : α}
    (h : Leads commands path body) {w : List Byte} {words : List (List Byte × List Byte)}
    (hpath : path.map (·.1) = w :: words.map (·.2)) {lead e : List Byte} {args : List (List Byte × Arg)} (hlead : Gap lead)
    (hw : CommandName w) (hwords : WordList words) (hargs : TypedList args) (he : Gap e) {l : CmdLine}
    (hcmd : l.cmd = lead ++ w ++ (typedWords words ++ (typed args ++ e))) (hparams : l.params = []) :
    ∃ c l', getCmd commands l.split.name = some c ∧ c.work l.split = .ran body l' ∧ l'.params = args.map (·.2) ∧
      l'.name = (path.map (·.1)).getLast? := by
  have hends := endsWord_typed hargs he
  induction h generalizing w words lead l with
  | @cmd commands w₁ n names body hpick =>
    obtain ⟨rfl, hnil⟩ := List.cons.inj hpath
    obtain rfl := List.map_eq_nil_iff.mp hnil.symm
    have hsplit := CmdLine.split_typed hlead hw hargs he hcmd
    refine ⟨.cmd names body, l.split, ?_, by rw [Command.work], ?_, ?_⟩
    · rw [hsplit]
      exact getCmd_iff.mpr ⟨n, hpick⟩
    · rw [hsplit, hparams]
      rfl
    · rw [hsplit]
      rfl
  | @super commands sub w₁ n names path body hpick hsub ih =>
    obtain ⟨rfl, hrest⟩ := List.cons.inj hpath
    cases words with
    | nil =>
      -- there is no word for the subcommand
      cases hsub <;> cases hrest
    | cons p words =>
      obtain ⟨hne, hg, hp⟩ := hwords p List.mem_cons_self
      have hwords' : WordList words := fun q hq => hwords q (List.mem_cons_of_mem p hq)
      have hends' := endsWord_typedWords hwords' hends
      have hcmd' : l.cmd = lead ++ w₁ ++ (p.1 ++ p.2 ++ (typedWords words ++ (typed args ++ e))) := by
        rw [hcmd, typedWords]
        simp only [List.append_assoc]
      have hends'' : EndsWord (p.1 ++ p.2 ++ (typedWords words ++ (typed args ++ e))) := by
        rw [List.append_assoc]
        exact endsWord_gap hne hg
      have hsplit := CmdLine.split_command hlead hw hends'' hcmd'
      have hcmdSplit : l.split.cmd = lead ++ w₁ ++ (p.1 ++ p.2 ++ (typedWords words ++ (typed args ++ e))) := by
        rw [hsplit]
        exact hcmd'
      have hshift := CmdLine.shift_command hlead hw hne hg hp hends' hcmdSplit
      obtain ⟨c, l', hc, hwork, hl', hname⟩ := ih hrest gap_nil hp hwords'
        (l := { l.split with cmd := p.2 ++ (typedWords words ++ (typed args ++ e)), params := [] }) rfl rfl
      refine ⟨.super names sub, l', ?_, (work_super hshift hc).trans hwork, hl', ?_⟩
      · rw [hsplit]
        exact getCmd_iff.mpr ⟨n, hpick⟩
      · rw [hname, List.map_cons, hrest, List.map_cons]
        rfl

/-- A command runs on the parameters that were typed, whichever unambiguous abbreviations of the names of the command and
of the composed commands around it lead to it. More letters of these names lead to the same command. -/
theorem abbreviations_run (commands : List (Command α)) {path : List (List Byte × List Byte)} {body : α}
    (h : Leads commands path body) {w : List Byte} {words : List (List Byte × List Byte)}
    (hpath : Extends path (w :: words.map (·.2))) {lead e : List Byte} {args : List (List Byte × Arg)} (hlead : Gap lead)
    (hw : CommandName w) (hwords : WordList words) (hargs : TypedList args) (he : Gap e) :
    ∃ l, execute commands (lead ++ w ++ (typedWords words ++ (typed args ++ e))) = some (.ran body l) ∧
      l.params = args.map (·.2) ∧ l.name = (w :: words.map (·.2)).getLast? := by
  obtain ⟨path', hleads, hmap⟩ := h.extend hpath
  obtain ⟨c, l', hc, hwork, hparams, hname⟩ := hleads.work hmap hlead hw hwords hargs he
    (l := { cmd := lead ++ w ++ (typedWords words ++ (typed args ++ e)), name := none, params := [], tokens := [], con := [] })
    rfl rfl
  refine ⟨l', ?_, hparams, hmap ▸ hname⟩
  rw [execute]
  change Option.map _ (getCmd commands (CmdLine.split _).name) = _
  rw [hc]
  exact congrArg some hwork

/-- The subcommands of `set` in a small command tree. -/
def setCommands : List (Command Nat) := [.cmd ["memory".toList.map chr] 1, .cmd ["bit".toList.map chr] 2]

/-- A small command tree: `step` and `set`. -/
def someCommands : List (Command Nat) := [.cmd ["step".toList.map chr] 0, .super ["set".toList.map chr] setCommands]

/-- The line `se m -1` sets memory. -/
theorem abbreviations_run_set : ∃ l,
    execute someCommands ([] ++ [chr 's', chr 'e'] ++ (typedWords [([0x20], [chr 'm'])] ++ (typed [([0x20], .int (-1))] ++ []))) =
      some (.ran 1 l) ∧ l.params = [.int (-1)] := by
  have hset : Picks someCommands [chr 's', chr 'e'] ("set".toList.map chr) (.super ["set".toList.map chr] setCommands) :=
    ⟨[.cmd ["step".toList.map chr] 0], [], rfl, List.mem_singleton.mpr rfl, .inr ⟨by decide, by decide, by decide⟩⟩
  have hmemory : Picks setCommands [chr 'm'] ("memory".toList.map chr) (.cmd ["memory".toList.map chr] 1) :=
    ⟨[], [.cmd ["bit".toList.map chr] 2], rfl, List.mem_singleton.mpr rfl, .inr ⟨by decide, by decide, by decide⟩⟩
  have hgap : Gap [0x20] := fun c hc => by rw [List.mem_singleton.mp hc]; rfl
  have hwords : WordList [([0x20], [chr 'm'])] := by
    intro p hp
    rw [List.mem_singleton.mp hp]
    exact ⟨by simp, hgap, by simp, by decide, by decide⟩
  have hargs : TypedList [([0x20], .int (-1))] := by
    intro p hp
    rw [List.mem_singleton.mp hp]
    exact ⟨by simp, hgap, trivial⟩
  have hpath : Extends [([chr 's', chr 'e'], "set".toList.map chr), ([chr 'm'], "memory".toList.map chr)]
      ([chr 's', chr 'e'] :: [([0x20], [chr 'm'])].map (·.2)) :=
    .cons (by decide) (.cons (by decide) .nil)
  obtain ⟨l, hrun, hparams, -⟩ := abbreviations_run someCommands (.super hset (.cmd hmemory)) hpath gap_nil
    ⟨by simp, by decide, by decide⟩ hwords hargs gap_nil
  exact ⟨l, hrun, hparams⟩

end Ucsim.Cmd
