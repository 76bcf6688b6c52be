import Launcher.Proofs.Run.SwitchOrder
import Mathlib.Data.List.Basic

/-!
# Where the options stop

A command line is options that are read through, an argument or two with which the reading stops, and what stands behind
those. Nothing of the last is looked at: it is handed to the target as it is.
-/

namespace Launcher.CommandLine

variable {s : OptionState} {args rest group taken kept consumed left : List String} {groups : List (List String)}
  {front after after' : List String} {before letters flags : List Char} {c flag : Char} {arg : String}
  {asked : Except CommandLineError ParseOutcome}

/-! ## The forms of arguments -/

/-- Switches and behind them a letter that takes a value, with the value in the same argument or in the next. -/
inductive Valued (flags : List Char) : List String → Prop
  | attached {before : List Char} {flag : Char} {text : String} (hbefore : ∀ c ∈ before, c ∈ switches)
      (hflag : flag ∈ flags) (htext : text ≠ "") : Valued flags [dash (before ++ flag :: text.toList)]
  | detached {before : List Char} {flag : Char} (hbefore : ∀ c ∈ before, c ∈ switches) (hflag : flag ∈ flags)
      (value : String) : Valued flags [dash (before ++ [flag]), value]

/-- The arguments of one option that is read through. -/
inductive Passed : List String → Prop
  | switches {letters : List Char} (h : AllSwitches letters) : Passed [dash letters]
  | valued {group : List String} (h : Valued ['W', 'X'] group) : Passed group

/-- Arguments with which the reading stops: those that it takes, and those that it keeps for the target. -/
inductive Stops : List String → List String → Prop
  | dashes : Stops ["--"] []
  /-- The reference to what is run, or a dash for the standard input. -/
  | target {arg : String} (h : arg = "-" ∨ arg.startsWith "-" = false) : Stops [] [arg]
  /-- What is run, given by its source or by the name of a module. -/
  | payload {group : List String} (h : Valued ['c', 'm'] group) : Stops group []
  | long {arg : String} (h : arg.startsWith "--" = true) (hne : arg ≠ "--") : Stops [arg] []
  /-- A letter that asks for help or for the version, or that is not supported or unknown. -/
  | letter {before : List Char} {c : Char} {more : List Char} (hbefore : ∀ b ∈ before, b ∈ switches)
      (hc : c ∉ switches) (hvalue : takesValue c = false) (hdash : before ≠ [] ∨ c ≠ '-') :
      Stops [dash (before ++ c :: more)] []

/-- Options that are read through and what a stop takes, in front of what the stop keeps. -/
inductive StopsAt : List String → List String → Prop
  | intro {groups : List (List String)} {taken kept : List String} (h : ∀ group ∈ groups, Passed group)
      (hstop : Stops taken kept) : StopsAt (groups.flatten ++ taken) kept

/-- What the reading consumes of a command line, and what it leaves of it. -/
inductive Leaves : List String → List String → Prop
  | all {groups : List (List String)} (h : ∀ group ∈ groups, Passed group) : Leaves groups.flatten []
  | stop {front kept : List String} (h : StopsAt front kept) (after : List String) : Leaves front (kept ++ after)

/-- Switches and behind them a letter that takes a value, which is not there. -/
inductive Lacks (flag : Char) : String → Prop
  | intro {before : List Char} (hbefore : ∀ b ∈ before, b ∈ switches) (hvalue : takesValue flag = true) :
      Lacks flag (dash (before ++ [flag]))

/-- What is asked for, with other arguments for the target. -/
def withPositional (positional : List String) :
    Except CommandLineError ParseOutcome → Except CommandLineError ParseOutcome
  | .ok (.run line) => .ok (.run { line with positional })
  | asked => asked

/-! ## Reading the arguments of one option -/

theorem ne_dash_of_switch (h : c ∈ switches) : c ≠ '-' := by
  rintro rfl
  exact absurd h (by decide)

theorem cluster_behind_switches (h : ∀ b ∈ before, b ∈ switches) (cs : List Char) :
    cluster s args (before ++ cs) = cluster (before.foldl press s) args cs := by
  induction before generalizing s with
  | nil => rfl
  | cons b before ih =>
      obtain ⟨hb, hbefore⟩ := List.forall_mem_cons.mp h
      rw [List.cons_append, cluster_letter (takesValue_switches b hb), letter_eq_press s b hb, List.foldl_cons]
      exact ih hbefore

theorem read_behind_switches (h : ∀ b ∈ before, b ∈ switches) (hdash : before ≠ [] ∨ c ≠ '-') (cs : List Char) :
    read s (dash (before ++ c :: cs) :: args) =
      match cluster (before.foldl press s) args (c :: cs) with
      | .next s' rest => read s' rest
      | .done s' asked => (asked, s') := by
  rw [← cluster_behind_switches h (c :: cs)]
  cases before with
  | nil => exact read_dash (hdash.resolve_left fun hne => hne rfl) cs
  | cons b before => exact read_dash (ne_dash_of_switch (h b List.mem_cons_self)) _

/-- A letter with its value is read in the same way wherever the value stands and whatever follows. -/
theorem Valued.read_eq (h : Valued flags group) (hflags : ∀ c ∈ flags, takesValue c = true) (s : OptionState) :
    ∃ s', ∃ flag ∈ flags, ∃ value, ∀ rest, read s (group ++ rest) =
      match afterValue s' flag value rest with
      | .next s' rest => read s' rest
      | .done s' asked => (asked, s') := by
  cases h with
  | @attached before flag text hbefore hflag htext =>
      have hvalue := hflags flag hflag
      have hlist : text.toList ≠ [] := mt String.toList_eq_nil_iff.mp htext
      refine ⟨before.foldl press s, flag, hflag, text, fun rest => ?_⟩
      rw [List.singleton_append, read_behind_switches hbefore (.inr (ne_dash_of_takesValue hvalue)),
        cluster_attached hvalue hlist, String.ofList_toList]
  | @detached before flag hbefore hflag value =>
      have hvalue := hflags flag hflag
      refine ⟨before.foldl press s, flag, hflag, value, fun rest => ?_⟩
      rw [List.cons_append, List.singleton_append,
        read_behind_switches hbefore (.inr (ne_dash_of_takesValue hvalue)), cluster_detached hvalue]

theorem Passed.read_eq (h : Passed group) (s : OptionState) : ∃ s', ∀ rest, read s (group ++ rest) = read s' rest := by
  cases h with
  | @switches letters hletters =>
      refine ⟨letters.foldl press s, fun rest => ?_⟩
      have hread : read s ([letters].map dash ++ rest) = read ([letters].flatten.foldl press s) rest :=
        read_switches (List.forall_mem_singleton.mpr hletters)
      rwa [List.flatten_singleton] at hread
  | valued hvalued =>
      obtain ⟨s', flag, hflag, value, hread⟩ := hvalued.read_eq (by simp [takesValue]) s
      have hgoes (rest : List String) : afterValue s' flag value rest = .next (valueEffect s' flag value) rest := by
        rcases List.mem_pair.mp hflag with rfl | rfl
        · rfl
        · rfl
      exact ⟨valueEffect s' flag value, fun rest => by rw [hread, hgoes]⟩

/-- Options that are read through leave a state, whatever follows them. -/
theorem read_passed (h : ∀ group ∈ groups, Passed group) (s : OptionState) :
    ∃ s', ∀ rest, read s (groups.flatten ++ rest) = read s' rest := by
  induction groups generalizing s with
  | nil => exact ⟨s, fun _ => rfl⟩
  | cons group groups ih =>
      obtain ⟨hgroup, hgroups⟩ := List.forall_mem_cons.mp h
      obtain ⟨s₁, hfirst⟩ := hgroup.read_eq s
      obtain ⟨s₂, hothers⟩ := ih hgroups s₁
      exact ⟨s₂, fun rest => by rw [List.flatten_cons, List.append_assoc, hfirst, hothers]⟩

/-! ## The stop -/

theorem read_long {arg : String} (h : arg.startsWith "--" = true) (hne : arg ≠ "--") :
    read s (arg :: args) = (.error (.unknownOption arg), s) := by
  obtain ⟨cs, hcs⟩ := String.startsWith_string_iff.mp h
  have hlist : arg.toList = '-' :: '-' :: cs := hcs.symm
  rw [read, List.length_cons, options, if_neg hne, hlist]
  rfl

theorem letter_of_not_mem (hc : c ∉ switches) :
    (∀ s, letter s c = .help) ∨ (∀ s, letter s c = .version) ∨
      ∃ e, (∀ s, letter s c = .error e) ∧ ∀ flag, e ≠ .missingArgument flag := by
  simp only [letter]
  split
  case h_14 => exact .inl fun _ => rfl
  case h_15 => exact .inl fun _ => rfl
  case h_16 => exact .inr (.inl fun _ => rfl)
  case h_17 => exact .inr (.inr ⟨.hashRandomization, fun _ => rfl, by simp⟩)
  case h_18 => exact .inr (.inr ⟨.unknownOption ("-" ++ String.singleton c), fun _ => rfl, by simp⟩)
  all_goals exact absurd (by decide) hc

/-- A letter that sets no switch and takes no value ends the reading in every state in the same way. -/
theorem cluster_of_not_mem (hc : c ∉ switches) (hvalue : takesValue c = false) (cs : List Char) :
    ∃ asked, (∀ s args, cluster s args (c :: cs) = .done s asked) ∧
      (∀ positional, withPositional positional asked = asked) ∧ ∀ flag, asked ≠ .error (.missingArgument flag) := by
  rcases letter_of_not_mem hc with hletter | hletter | ⟨e, hletter, he⟩
  · exact ⟨.ok .help, fun s args => by rw [cluster_letter hvalue, hletter], fun _ => rfl, by simp⟩
  · exact ⟨.ok .version, fun s args => by rw [cluster_letter hvalue, hletter], fun _ => rfl, by simp⟩
  · exact ⟨.error e, fun s args => by rw [cluster_letter hvalue, hletter], fun _ => rfl, by simpa using he⟩

/-- What is asked for at a stop, but for the arguments of the target, does not depend on what follows. -/
theorem Stops.read_eq (h : Stops taken kept) (s : OptionState) :
    ∃ s' asked, (∀ after, read s (taken ++ (kept ++ after)) = (withPositional (kept ++ after) asked, s')) ∧
      ∀ flag, asked ≠ .error (.missingArgument flag) := by
  cases h with
  | dashes => exact ⟨s, .ok (.run ⟨[], none, s.warnings⟩), fun after => read_endsOptions (.inl rfl), by simp⟩
  | @target arg harg =>
      have hne : arg ≠ "--" := by
        rintro rfl
        revert harg
        simp
      refine ⟨s, .ok (.run ⟨[], none, s.warnings⟩), fun after => ?_, by simp⟩
      have hread : read s (arg :: after) = (.ok (.run ⟨positional (arg :: after), none, s.warnings⟩), s) :=
        read_endsOptions (.inr harg)
      rwa [positional, if_neg hne] at hread
  | payload hvalued =>
      obtain ⟨s', flag, hflag, value, hread⟩ := hvalued.read_eq (by simp [takesValue]) s
      rcases List.mem_pair.mp hflag with rfl | rfl
      · exact ⟨s', .ok (.run ⟨[], some (.inlineString value), s'.warnings⟩), hread, by simp⟩
      · exact ⟨s', .ok (.run ⟨[], some (.module value), s'.warnings⟩), hread, by simp⟩
  | @long arg harg hne => exact ⟨s, .error (.unknownOption arg), fun after => read_long harg hne, by simp⟩
  | @letter before c more hbefore hc hvalue hdash =>
      obtain ⟨asked, hcluster, hsame, hmissing⟩ := cluster_of_not_mem hc hvalue more
      refine ⟨before.foldl press s, asked, fun after => ?_, hmissing⟩
      rw [List.singleton_append, read_behind_switches hbefore hdash, hcluster, hsame]

theorem withPositional_twice (first second : List String) :
    withPositional first (withPositional second asked) = withPositional first asked := by
  rcases asked with e | (line | _ | _) <;> rfl

theorem positional_withPositional {line : ParsedCommandLine} {positional : List String}
    (h : withPositional positional asked = .ok (.run line)) : line.positional = positional := by
  rcases asked with e | (asked | _ | _)
  · cases h
  · cases h
    rfl
  · cases h
  · cases h

theorem withPositional_ne_error {e : CommandLineError} (h : asked ≠ .error e) (positional : List String) :
    withPositional positional asked ≠ .error e := by
  rcases asked with e' | (line | _ | _)
  · exact h
  · simp [withPositional]
  · simp [withPositional]
  · simp [withPositional]

theorem StopsAt.read_eq (h : StopsAt front kept) (s : OptionState) :
    ∃ s' asked, (∀ after, read s (front ++ (kept ++ after)) = (withPositional (kept ++ after) asked, s')) ∧
      ∀ flag, asked ≠ .error (.missingArgument flag) := by
  obtain ⟨hgroups, hstop⟩ := h
  obtain ⟨s₁, hfirst⟩ := read_passed hgroups s
  obtain ⟨s₂, asked, hread, hmissing⟩ := hstop.read_eq s₁
  exact ⟨s₂, asked, fun after => by rw [List.append_assoc, hfirst, hread], hmissing⟩

theorem read_lacks (h : Lacks flag arg) (s : OptionState) :
    ∃ s', read s [arg] = (.error (.missingArgument flag), s') := by
  obtain @⟨before, hbefore, hvalue⟩ := h
  refine ⟨before.foldl press s, ?_⟩
  rw [read_behind_switches hbefore (.inr (ne_dash_of_takesValue hvalue)), cluster_missing hvalue]

/-! ## Every command line has one of the forms -/

theorem split_switches (letters : List Char) :
    (∀ c ∈ letters, c ∈ switches) ∨
      ∃ before c more, letters = before ++ c :: more ∧ (∀ b ∈ before, b ∈ switches) ∧ c ∉ switches := by
  induction letters with
  | nil => exact .inl fun _ h => absurd h List.not_mem_nil
  | cons c letters ih =>
      by_cases hc : c ∈ switches
      · rcases ih with hall | ⟨before, d, more, rfl, hbefore, hd⟩
        · exact .inl (List.forall_mem_cons.mpr ⟨hc, hall⟩)
        · exact .inr ⟨c :: before, d, more, rfl, List.forall_mem_cons.mpr ⟨hc, hbefore⟩, hd⟩
      · exact .inr ⟨[], c, letters, rfl, fun _ h => absurd h List.not_mem_nil, hc⟩

theorem takesValue_iff : takesValue c = true ↔ c ∈ ['W', 'X'] ∨ c ∈ ['c', 'm'] := by
  simp [takesValue, or_assoc]

/-- An option that takes a value is read through, or it stops the reading. -/
theorem valued_first (h : ∀ flags, c ∈ flags → Valued flags group) (hvalue : takesValue c = true) :
    Passed group ∨ Stops group [] :=
  (takesValue_iff.mp hvalue).imp (fun hc => .valued (h _ hc)) fun hc => .payload (h _ hc)

/-- The letters of an option argument, with the arguments behind it. -/
theorem dash_first (hne : letters ≠ []) (hdash : letters.head? ≠ some '-') (args : List String) :
    (∃ group rest, dash letters :: args = group ++ rest ∧ group ≠ [] ∧ (Passed group ∨ Stops group [])) ∨
      args = [] ∧ ∃ flag, Lacks flag (dash letters) := by
  rcases split_switches letters with hall | ⟨before, c, more, rfl, hbefore, hc⟩
  · exact .inl ⟨[dash letters], args, rfl, List.cons_ne_nil _ _, .inl (.switches ⟨hne, hall⟩)⟩
  · cases hvalue : takesValue c with
    | false =>
        have hfirst : before ≠ [] ∨ c ≠ '-' := by
          by_contra hnone
          obtain ⟨hbefore, hc⟩ := not_or.mp hnone
          rw [not_not.mp hbefore, not_not.mp hc] at hdash
          exact hdash rfl
        exact .inl ⟨[_], args, rfl, List.cons_ne_nil _ _, .inr (.letter hbefore hc hvalue hfirst)⟩
    | true =>
        by_cases hmore : more = []
        · subst hmore
          cases args with
          | nil => exact .inr ⟨rfl, c, .intro hbefore hvalue⟩
          | cons value args =>
              exact .inl ⟨[_, value], args, rfl, List.cons_ne_nil _ _,
                valued_first (fun _ hc => .detached hbefore hc value) hvalue⟩
        · have htext : String.ofList more ≠ "" := fun htext => hmore (by simpa using congrArg String.toList htext)
          have hform (flags : List Char) (hc : c ∈ flags) : Valued flags [dash (before ++ c :: more)] := by
            have hvalued := Valued.attached hbefore hc htext
            rwa [String.toList_ofList] at hvalued
          exact .inl ⟨[_], args, rfl, List.cons_ne_nil _ _, valued_first hform hvalue⟩

/-- The front of a command line is an option that is read through or a stop, or a value is missing. -/
theorem first_argument (arg : String) (args : List String) :
    (∃ group rest, arg :: args = group ++ rest ∧ group ≠ [] ∧ Passed group) ∨
      (∃ taken kept after, arg :: args = taken ++ (kept ++ after) ∧ Stops taken kept) ∨
      args = [] ∧ ∃ flag, Lacks flag arg := by
  by_cases htarget : arg = "-" ∨ arg.startsWith "-" = false
  · exact .inr (.inl ⟨[], [arg], args, rfl, .target htarget⟩)
  by_cases hdashes : arg.startsWith "--" = true
  · by_cases hne : arg = "--"
    · exact .inr (.inl ⟨["--"], [], args, by rw [hne]; rfl, .dashes⟩)
    · exact .inr (.inl ⟨[arg], [], args, rfl, .long hdashes hne⟩)
  -- A dash with letters behind it, of which the first is no dash.
  obtain ⟨hlone, hstart⟩ := not_or.mp htarget
  obtain ⟨letters, hletters⟩ := String.startsWith_string_iff.mp (Bool.not_eq_false _ ▸ hstart)
  have harg : arg = dash letters := by
    rw [dash, ← String.toList_inj, String.toList_ofList]
    exact hletters.symm
  have hne : letters ≠ [] := by
    rintro rfl
    exact hlone (String.toList_inj.mp hletters.symm)
  have hdash : letters.head? ≠ some '-' := by
    intro hhead
    obtain ⟨cs, rfl⟩ := List.head?_eq_some_iff.mp hhead
    exact hdashes (String.startsWith_string_iff.mpr ⟨cs, hletters⟩)
  rw [harg]
  rcases dash_first hne hdash args with ⟨group, rest, heq, hgroup, hform⟩ | hlacks
  · rcases hform with hpassed | hstops
    · exact .inl ⟨group, rest, heq, hgroup, hpassed⟩
    · exact .inr (.inl ⟨group, [], rest, heq, hstops⟩)
  · exact .inr (.inr hlacks)

theorem Leaves.cons (hpassed : Passed group) (h : Leaves consumed left) : Leaves (group ++ consumed) left := by
  cases h with
  | all hgroups => exact .all (List.forall_mem_cons.mpr ⟨hpassed, hgroups⟩)
  | stop h after =>
      obtain ⟨hgroups, hstop⟩ := h
      rw [← List.append_assoc]
      exact .stop (.intro (List.forall_mem_cons.mpr ⟨hpassed, hgroups⟩) hstop) after

/-- Options are read through up to a stop or to the end, or until a value is missing. -/
theorem leaves_or_lacks (args : List String) :
    (∃ consumed left, Leaves consumed left ∧ args = consumed ++ left) ∨
      ∃ groups : List (List String), ∃ arg flag, (∀ group ∈ groups, Passed group) ∧ Lacks flag arg ∧
        args = groups.flatten ++ [arg] := by
  have hnone : ∀ group ∈ ([] : List (List String)), Passed group := fun _ h => absurd h List.not_mem_nil
  -- Each option is at least one argument, so what is behind it is shorter.
  induction hlength : args.length using Nat.strongRecOn generalizing args with
  | ind n ih =>
      subst hlength
      cases args with
      | nil => exact .inl ⟨[], [], .all hnone, rfl⟩
      | cons arg args =>
          rcases first_argument arg args with ⟨group, rest, heq, hne, hpassed⟩ | ⟨taken, kept, after, heq, hstops⟩ |
            ⟨rfl, flag, hlacks⟩
          · have hshort : rest.length < (arg :: args).length := by
              rw [heq, List.length_append]
              exact Nat.lt_add_of_pos_left (List.length_pos_iff.mpr hne)
            rw [heq]
            rcases ih rest.length hshort rest rfl with ⟨consumed, left, hleaves, rfl⟩ |
              ⟨groups, arg', flag, hgroups, hlacks, rfl⟩
            · exact .inl ⟨group ++ consumed, left, hleaves.cons hpassed, (List.append_assoc ..).symm⟩
            · exact .inr ⟨group :: groups, arg', flag, List.forall_mem_cons.mpr ⟨hpassed, hgroups⟩, hlacks,
                (List.append_assoc ..).symm⟩
          · exact .inl ⟨taken, kept ++ after, .stop (.intro hnone hstops) after, heq⟩
          · exact .inr ⟨[], arg, flag, hnone, hlacks, rfl⟩

/-! ## The arguments of the target -/

theorem Leaves.not_lacking (h : Leaves consumed left) (s : OptionState) (flag : Char) :
    (read s (consumed ++ left)).1 ≠ .error (.missingArgument flag) := by
  cases h with
  | all hgroups =>
      obtain ⟨s', hread⟩ := read_passed hgroups s
      rw [hread]
      simp [read, options]
  | stop h after =>
      obtain ⟨s', asked, hread, hmissing⟩ := h.read_eq s
      rw [hread]
      exact withPositional_ne_error (hmissing flag) _

theorem Leaves.positional_eq (h : Leaves consumed left) {s : OptionState} {line : ParsedCommandLine}
    (hline : (read s (consumed ++ left)).1 = .ok (.run line)) : line.positional = left := by
  cases h with
  | all hgroups =>
      obtain ⟨s', hread⟩ := read_passed hgroups s
      rw [hread] at hline
      cases hline
      rfl
  | stop h after =>
      obtain ⟨s', asked, hread, -⟩ := h.read_eq s
      rw [hread] at hline
      exact positional_withPositional hline

theorem read_lacking {s : OptionState} (hgroups : ∀ group ∈ groups, Passed group) (hlacks : Lacks flag arg) :
    (read s (groups.flatten ++ [arg])).1 = .error (.missingArgument flag) := by
  obtain ⟨s₁, hfirst⟩ := read_passed hgroups s
  obtain ⟨s₂, hread⟩ := read_lacks hlacks s₁
  rw [hfirst, hread]

/-- What follows a stop is handed on to the target and has no other part in what is asked for, and none in the options.
If there is something to run, the arguments for the target are what is left behind those that were consumed. Every
command line has a stop or consists of options alone, unless a value is missing. -/
theorem parse_target (flags : Flags) (filters : WarningFilters) (args : List String) :
    (∀ front kept after, StopsAt front kept → args = front ++ (kept ++ after) → ∀ after',
      parse flags filters (front ++ (kept ++ after')) =
        (withPositional (kept ++ after') (parse flags filters args).1, (parse flags filters args).2)) ∧
    (∀ line, (parse flags filters args).1 = .ok (.run line) →
      ∃ consumed, Leaves consumed line.positional ∧ args = consumed ++ line.positional) ∧
    ((∃ consumed left, Leaves consumed left ∧ args = consumed ++ left) ↔
      ∀ flag, (parse flags filters args).1 ≠ .error (.missingArgument flag)) := by
  simp only [parse_eq_read]
  refine ⟨?_, fun line hline => ?_, ?_, fun hgiven => ?_⟩
  · rintro front kept after hstops rfl after'
    obtain ⟨s', asked, hread, -⟩ := hstops.read_eq { flags, filters }
    rw [hread, hread, withPositional_twice]
  · rcases leaves_or_lacks args with ⟨consumed, left, hleaves, rfl⟩ | ⟨groups, arg, flag, hgroups, hlacks, rfl⟩
    · have hleft := hleaves.positional_eq hline
      exact ⟨consumed, hleft ▸ hleaves, by rw [hleft]⟩
    · rw [read_lacking hgroups hlacks] at hline
      cases hline
  · rintro ⟨consumed, left, hleaves, rfl⟩ flag
    exact hleaves.not_lacking _ flag
  · rcases leaves_or_lacks args with hleaves | ⟨groups, arg, flag, hgroups, hlacks, rfl⟩
    · exact hleaves
    · exact absurd (read_lacking hgroups hlacks) (hgiven flag)

/-- Two dashes that are a value do not stop the reading, and options behind a source text are arguments for it. -/
theorem parse_target_source :
    StopsAt ["-vX", "--", "-c", "print(1)"] [] ∧
      parse {} [] ["-vX", "--", "-c", "print(1)", "-i", "-h"] =
        (.ok (.run ⟨["-i", "-h"], some (.inlineString "print(1)"), []⟩),
          (parse {} [] ["-vX", "--", "-c", "print(1)", "x"]).2) := by
  have hpassed : Passed [dash (['v'] ++ ['X']), "--"] := .valued (.detached (by simp [switches]) (by simp) "--")
  have hstop : Stops [dash ([] ++ ['c']), "print(1)"] [] := .payload (.detached (by simp) (by simp) "print(1)")
  have hstops : StopsAt ["-vX", "--", "-c", "print(1)"] [] := .intro (List.forall_mem_singleton.mpr hpassed) hstop
  have hasked : (parse {} [] ["-vX", "--", "-c", "print(1)", "x"]).1 =
      .ok (.run ⟨["x"], some (.inlineString "print(1)"), []⟩) := by decide
  have hreplaced := (parse_target {} [] ["-vX", "--", "-c", "print(1)", "x"]).1 _ _ ["x"] hstops rfl ["-i", "-h"]
  rw [hasked] at hreplaced
  exact ⟨hstops, hreplaced⟩

end Launcher.CommandLine
