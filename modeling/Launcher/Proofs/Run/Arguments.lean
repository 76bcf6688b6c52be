import Launcher.Run.CommandLine
import Mathlib.Logic.Relation

/-!
# Spellings of option arguments

The letters of an option argument are read one after the other, and a letter with a value takes the letters behind it
or else the next argument. So an argument can be cut behind a letter, and a value that is attached to its letter can be
an argument of its own.
-/

namespace Launcher.CommandLine

variable {s s' t : OptionState} {args rest front tail tail' : List String} {letters cs : List Char} {c : Char}

/-- A dash with letters behind it. -/
def dash (letters : List Char) : String := String.ofList ('-' :: letters)

/-! ## The letters of an argument -/

/-- What a letter does with its value. -/
def afterValue (s : OptionState) (flag : Char) (value : String) (rest : List String) : ClusterEnd :=
  if flag = 'c' then .done s (.ok (.run ⟨rest, some (.inlineString value), s.warnings⟩))
  else if flag = 'm' then .done s (.ok (.run ⟨rest, some (.module value), s.warnings⟩))
  else .next (valueEffect s flag value) rest

theorem cluster_attached (hvalue : takesValue c = true) (hcs : cs ≠ []) :
    cluster s args (c :: cs) = afterValue s c (String.ofList cs) args := by
  simp [cluster, hvalue, hcs, afterValue]

theorem cluster_detached (hvalue : takesValue c = true) (value : String) :
    cluster s (value :: args) [c] = afterValue s c value args := by
  simp [cluster, hvalue, afterValue]

theorem cluster_missing (hvalue : takesValue c = true) :
    cluster s [] [c] = .done s (.error (.missingArgument c)) := by
  simp [cluster, hvalue]

theorem cluster_letter (hvalue : takesValue c = false) (cs : List Char) :
    cluster s args (c :: cs) =
      match letter s c with
      | .state s' => cluster s' args cs
      | .help => .done s (.ok .help)
      | .version => .done s (.ok .version)
      | .error e => .done s (.error e) := by
  simp only [cluster, hvalue]
  rfl

theorem afterValue_eq_next {value : String} (h : afterValue s c value args = .next s' rest) :
    args = rest ∧ ∀ rest', afterValue s c value rest' = .next s' rest' := by
  unfold afterValue at h
  split at h
  · cases h
  · rename_i hc
    split at h
    · cases h
    · rename_i hm
      cases h
      exact ⟨rfl, fun _ => by rw [afterValue, if_neg hc, if_neg hm]⟩

/-- Letters behind which the reading goes on have taken arguments from the front, whatever follows those. -/
theorem cluster_eq_next (h : cluster s args letters = .next s' rest) :
    ∃ taken, args = taken ++ rest ∧ ∀ rest', cluster s (taken ++ rest') letters = .next s' rest' := by
  induction letters generalizing s with
  | nil =>
      cases h
      exact ⟨[], rfl, fun _ => rfl⟩
  | cons c cs ih =>
      cases hvalue : takesValue c with
      | false =>
          simp only [cluster_letter hvalue] at h ⊢
          cases hletter : letter s c with
          | state s₁ =>
              rw [hletter] at h
              exact ih h
          | help => rw [hletter] at h; cases h
          | version => rw [hletter] at h; cases h
          | error e => rw [hletter] at h; cases h
      | true =>
          by_cases hcs : cs = []
          · subst hcs
            cases args with
            | nil =>
                rw [cluster_missing hvalue] at h
                cases h
            | cons value args =>
                rw [cluster_detached hvalue] at h
                obtain ⟨rfl, hrest⟩ := afterValue_eq_next h
                exact ⟨[value], rfl, fun rest' => (cluster_detached hvalue value).trans (hrest rest')⟩
          · rw [cluster_attached hvalue hcs] at h
            obtain ⟨rfl, hrest⟩ := afterValue_eq_next h
            exact ⟨[], rfl, fun rest' => (cluster_attached hvalue hcs).trans (hrest rest')⟩

theorem length_of_cluster (h : cluster s args letters = .next s' rest) : rest.length ≤ args.length := by
  obtain ⟨taken, rfl, -⟩ := cluster_eq_next h
  rw [List.length_append]
  exact Nat.le_add_left ..

/-! ## Reading all arguments -/

/-- Read arguments to the end of the options. -/
def read (s : OptionState) (args : List String) : Except CommandLineError ParseOutcome × OptionState :=
  options s args.length args

theorem parse_eq_read (flags : Flags) (filters : WarningFilters) (args : List String) :
    parse flags filters args = read { flags, filters } args := rfl

theorem options_congr {rounds rounds' : Nat} (h : args.length ≤ rounds) (h' : args.length ≤ rounds') :
    options s rounds args = options s rounds' args := by
  -- An option takes one round and at least one argument, so the rounds last for what is left.
  induction rounds generalizing s args rounds' with
  | zero =>
      obtain rfl := List.length_eq_zero_iff.mp (Nat.le_zero.mp h)
      cases rounds' <;> rfl
  | succ rounds ih =>
      cases args with
      | nil => cases rounds' <;> rfl
      | cons arg args =>
          cases rounds' with
          | zero => cases h'
          | succ rounds' =>
              rw [List.length_cons] at h h'
              rw [options, options]
              split
              · rfl
              · split
                · rfl
                · split
                  · rename_i hcluster
                    have hlength := length_of_cluster hcluster
                    exact ih (by omega) (by omega)
                  · rfl
                · rfl

/-- An option argument, whose first letter is no dash. -/
theorem read_dash (hc : c ≠ '-') (cs : List Char) :
    read s (dash (c :: cs) :: args) =
      match cluster s args (c :: cs) with
      | .next s' rest => read s' rest
      | .done s' outcome => (outcome, s') := by
  have hlist : (dash (c :: cs)).toList = '-' :: c :: cs := String.toList_ofList
  have hne : dash (c :: cs) ≠ "--" := by
    intro heq
    rw [heq] at hlist
    cases hlist
    exact hc rfl
  rw [read, List.length_cons, options, if_neg hne, hlist]
  split
  · rename_i heq
    cases heq
    exact absurd rfl hc
  · rename_i heq
    cases heq
    cases hcluster : cluster s args (c :: cs) with
    | next s' rest => exact options_congr (length_of_cluster hcluster) (Nat.le_refl _)
    | done s' outcome => rfl
  · rename_i heq
    exact absurd rfl (heq c cs)

/-! ## What is reached -/

/-- The first argument is an option, and the reading goes on behind it and its value. -/
inductive ReadsOn : OptionState × List String → OptionState × List String → Prop
  | option {s s' : OptionState} {args rest : List String} {c : Char} {cs : List Char} (hc : c ≠ '-')
      (h : cluster s args (c :: cs) = .next s' rest) : ReadsOn (s, dash (c :: cs) :: args) (s', rest)

/-- The reading comes to a state with arguments that are left. -/
abbrev Reaches : OptionState × List String → OptionState × List String → Prop := Relation.ReflTransGen ReadsOn

theorem Reaches.read_eq (h : Reaches (s, args) (t, tail)) : read s args = read t tail := by
  suffices hall : ∀ p, Reaches p (t, tail) → read p.1 p.2 = read t tail from hall (s, args) h
  intro p h
  induction h using Relation.ReflTransGen.head_induction_on with
  | refl => rfl
  | head hstep _ ih =>
      obtain ⟨hc, hcluster⟩ := hstep
      rw [read_dash hc, hcluster]
      exact ih

/-- What was read stands in front of what is left, and is read in the same way in front of anything else. -/
theorem Reaches.exists_front (h : Reaches (s, args) (t, tail)) :
    ∃ front, args = front ++ tail ∧ ∀ tail', Reaches (s, front ++ tail') (t, tail') := by
  suffices hall : ∀ p, Reaches p (t, tail) →
      ∃ front, p.2 = front ++ tail ∧ ∀ tail', Reaches (p.1, front ++ tail') (t, tail') from hall (s, args) h
  intro p h
  induction h using Relation.ReflTransGen.head_induction_on with
  | refl => exact ⟨[], rfl, fun _ => .refl⟩
  | head hstep _ ih =>
      obtain @⟨s, s', args, rest, c, cs, hc, hcluster⟩ := hstep
      obtain ⟨taken, rfl, htaken⟩ := cluster_eq_next hcluster
      obtain ⟨front, rfl, hfront⟩ := ih
      refine ⟨dash (c :: cs) :: (taken ++ front), by simp, fun tail' => ?_⟩
      have hnext := htaken (front ++ tail')
      rw [← List.append_assoc] at hnext
      exact .head (.option hc hnext) (hfront tail')

/-- Where the arguments that are left can be replaced, they can be behind those that were read. -/
theorem Reaches.read_congr (h : Reaches (s, front ++ tail) (t, tail)) (htail : read t tail' = read t tail) :
    read s (front ++ tail') = read s (front ++ tail) := by
  obtain ⟨front', hfront, hreach⟩ := h.exists_front
  obtain rfl := List.append_cancel_right hfront
  rw [h.read_eq, (hreach tail').read_eq, htail]

/-! ## Two spellings -/

theorem ne_dash_of_takesValue (h : takesValue c = true) : c ≠ '-' := by
  rintro rfl
  cases h

/-- An argument, and two arguments that say the same. -/
inductive Respelled : String → List String → Prop
  /-- The first letter apart from the others. -/
  | cut {a b : Char} {more : List Char} (hvalue : takesValue a = false) (ha : a ≠ '-') (hb : b ≠ '-') :
      Respelled (dash (a :: b :: more)) [dash [a], dash (b :: more)]
  /-- A letter apart from the value that is attached to it. -/
  | detach {flag : Char} {text : String} (hvalue : takesValue flag = true) (htext : text ≠ "") :
      Respelled (dash (flag :: text.toList)) [dash [flag], text]

variable {arg : String} {spelling after : List String}

theorem Respelled.read_eq (h : Respelled arg spelling) (s : OptionState) (after : List String) :
    read s (spelling ++ after) = read s (arg :: after) := by
  cases h with
  | @cut a b more hvalue ha hb =>
      rw [List.cons_append, List.singleton_append, read_dash ha, read_dash ha, cluster_letter hvalue,
        cluster_letter hvalue]
      cases letter s a with
      | state s' => exact read_dash hb more
      | help => rfl
      | version => rfl
      | error e => rfl
  | @detach flag text hvalue htext =>
      have hflag := ne_dash_of_takesValue hvalue
      have hlist : text.toList ≠ [] := mt String.toList_eq_nil_iff.mp htext
      rw [List.cons_append, List.singleton_append, read_dash hflag, read_dash hflag, cluster_detached hvalue,
        cluster_attached hvalue hlist, String.ofList_toList]

/-- An argument that the reading comes to as an option can be spelled as two: nothing in what the command line asks
for, in its complaints and errors and in the options that it sets depends on it. -/
theorem parse_respelled {flags : Flags} {filters : WarningFilters} {before : List String}
    (hreach : Reaches ({ flags, filters }, before ++ arg :: after) (t, arg :: after))
    (hspelling : Respelled arg spelling) :
    parse flags filters (before ++ (spelling ++ after)) = parse flags filters (before ++ arg :: after) :=
  hreach.read_congr (hspelling.read_eq t after)

/-- What was set and said behind `-dX` with two dashes for its value. -/
def behindDashes : OptionState where
  flags := { debug := 1 }
  warnings := ["Command line option -X -- is not supported. Ignoring the option."]
  debug := 1

/-- Two dashes that are a value do not end the options, so the argument behind them is reached. -/
theorem parse_respelled_behindDashes :
    Reaches ({ flags := {} }, ["-dX", "--"] ++ "-vXdev" :: ["tool"]) (behindDashes, "-vXdev" :: ["tool"]) ∧
      Respelled "-vXdev" ["-v", "-Xdev"] ∧
      parse {} [] ["-dX", "--", "-v", "-Xdev", "tool"] = parse {} [] ["-dX", "--", "-vXdev", "tool"] := by
  have hreads : ReadsOn ({ flags := {} }, dash ['d', 'X'] :: ["--", "-vXdev", "tool"])
      (behindDashes, ["-vXdev", "tool"]) := .option (by decide) rfl
  have hreach : Reaches ({ flags := {} }, ["-dX", "--"] ++ "-vXdev" :: ["tool"]) (behindDashes, "-vXdev" :: ["tool"]) :=
    .single hreads
  have hspelling : Respelled (dash ['v', 'X', 'd', 'e', 'v']) [dash ['v'], dash ['X', 'd', 'e', 'v']] :=
    .cut rfl (by decide) (by decide)
  exact ⟨hreach, hspelling, parse_respelled hreach hspelling⟩

end Launcher.CommandLine
