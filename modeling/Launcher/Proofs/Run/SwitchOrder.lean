import Launcher.Proofs.Run.Arguments
import Mathlib.Data.List.Induction

/-!
# The order of switches

A letter without a value sets switches or raises a level. What letters leave behind depends only on how often each of
them is there, so their order, and the arguments that they are put together in, have no part in it.
-/

namespace Launcher.CommandLine

variable {s : OptionState} {n m : Char → Nat} {cs : List Char} {xs ys : List (List Char)}
  {args rest : List String}

/-- The letters that set switches and raise levels. -/
def switches : List Char := ['v', 'd', 'O', 'b', 'i', 'u', 'E', 's', 'S', 'I', 'P', 'B', '3']

/-- The options behind a letter that sets switches. -/
def press (s : OptionState) (c : Char) : OptionState :=
  match letter s c with
  | .state s' => s'
  | _ => s

/-- A level that was raised `count` times before, and then `n` times more. -/
def raised (level count n : Nat) : Nat := if n = 0 then level else min (count + n) 255

/-- The options when each letter was given so many times. -/
def given (s : OptionState) (n : Char → Nat) : OptionState :=
  { s with
    verbose := raised s.verbose s.verbose (n 'v')
    debug := raised s.debug s.debug (n 'd')
    optimize := raised s.optimize s.optimize (n 'O')
    flags :=
      { s.flags with
        verbose := raised s.flags.verbose s.verbose (n 'v')
        debug := raised s.flags.debug s.debug (n 'd')
        optimize := raised s.flags.optimize s.optimize (n 'O')
        bytecode := s.flags.bytecode || n 'b' ≠ 0
        inspect := s.flags.inspect || n 'i' ≠ 0
        unbuffered := s.flags.unbuffered || n 'u' ≠ 0
        ignoreEnvironment := s.flags.ignoreEnvironment || n 'E' ≠ 0 || n 'I' ≠ 0
        skipUserSite := s.flags.skipUserSite || n 's' ≠ 0 || n 'I' ≠ 0
        ignorePthFiles := s.flags.ignorePthFiles || n 'S' ≠ 0
        skipSiteMain := s.flags.skipSiteMain || n 'S' ≠ 0
        safePath := s.flags.safePath || n 'P' ≠ 0
        dontWriteBytecode := s.flags.dontWriteBytecode || n 'B' ≠ 0 } }

/-! ## Letters one by one -/

theorem letter_eq_press (s : OptionState) : ∀ c ∈ switches, letter s c = .state (press s c) := by
  simp [switches, press, letter]

theorem takesValue_switches : ∀ c ∈ switches, takesValue c = false := by simp [switches, takesValue]

theorem raised_succ (level count n : Nat) : raised level count (n + 1) = bump (raised count count n) := by
  by_cases hn : n = 0
  · simp [raised, bump, hn]
  · simp only [raised, bump, hn, Nat.succ_ne_zero, if_false]
    omega

theorem given_zero (s : OptionState) : given s (fun _ => 0) = s := by
  simp [given, raised]

theorem given_congr (h : ∀ c ∈ switches, n c = m c) : given s n = given s m := by
  simp only [switches, List.forall_mem_cons] at h
  obtain ⟨hv, hd, hO, hb, hi, hu, hE, hs, hS, hI, hP, hB, -⟩ := h
  simp only [given, hv, hd, hO, hb, hi, hu, hE, hs, hS, hI, hP, hB]

/-- One letter more. -/
theorem press_given (s : OptionState) (n : Char → Nat) :
    ∀ c ∈ switches, press (given s n) c = given s fun d => n d + [c].count d := by
  simp [switches, press, letter, given, raised_succ]

theorem foldl_press (h : ∀ c ∈ cs, c ∈ switches) : cs.foldl press s = given s (cs.count ·) := by
  -- From the back, since `press_given` adds a letter behind those that are counted.
  induction cs using List.reverseRecOn with
  | nil => exact (given_zero s).symm
  | append_singleton front c ih =>
      obtain ⟨hfront, hc⟩ := List.forall_mem_append.mp h
      rw [List.foldl_append, List.foldl_cons, List.foldl_nil, ih hfront,
        press_given s _ c (hc c (List.mem_singleton_self c))]
      exact congrArg (given s) (funext fun d => List.count_append.symm)

/-! ## Arguments that are switches -/

theorem cluster_switches (h : ∀ c ∈ cs, c ∈ switches) : cluster s args cs = .next (cs.foldl press s) args := by
  induction cs generalizing s with
  | nil => rfl
  | cons c cs ih =>
      obtain ⟨hc, hcs⟩ := List.forall_mem_cons.mp h
      rw [cluster_letter (takesValue_switches c hc), letter_eq_press s c hc, List.foldl_cons]
      exact ih hcs

/-- Letters of one argument, at least one and all of them switches. -/
def AllSwitches (letters : List Char) : Prop := letters ≠ [] ∧ ∀ c ∈ letters, c ∈ switches

theorem read_switches (h : ∀ x ∈ xs, AllSwitches x) :
    read s (xs.map dash ++ rest) = read (xs.flatten.foldl press s) rest := by
  induction xs generalizing s with
  | nil => rfl
  | cons x xs ih =>
      obtain ⟨⟨hne, hx⟩, hxs⟩ := List.forall_mem_cons.mp h
      obtain ⟨c, cs, rfl⟩ := List.exists_cons_of_ne_nil hne
      have hc : c ≠ '-' := by
        rintro rfl
        exact absurd (hx '-' List.mem_cons_self) (by decide)
      rw [List.map_cons, List.cons_append, read_dash hc, cluster_switches hx, List.flatten_cons, List.foldl_append]
      exact ih hxs

theorem read_switches_given (h : ∀ x ∈ xs, AllSwitches x) :
    read s (xs.map dash ++ rest) = read (given s (xs.flatten.count ·)) rest := by
  rw [read_switches h, foldl_press]
  intro c hc
  obtain ⟨x, hx, hcx⟩ := List.mem_flatten.mp hc
  exact (h x hx).2 c hcx

/-! ## The end of the options -/

/-- The options end in front of these arguments, or with the first of them. -/
def EndsOptions : List String → Prop
  | [] => True
  | arg :: _ => arg = "--" ∨ arg = "-" ∨ arg.startsWith "-" = false

/-- The arguments that are left for the target where the options end. -/
def positional : List String → List String
  | [] => []
  | arg :: args => if arg = "--" then args else arg :: args

theorem not_dash_of_startsWith {arg : String} {c : Char} {cs : List Char}
    (h : arg = "-" ∨ arg.startsWith "-" = false) : arg.toList ≠ '-' :: c :: cs := by
  intro hlist
  rcases h with rfl | h
  · cases hlist
  · rw [Bool.eq_false_iff, Ne, String.startsWith_string_iff, hlist] at h
    exact h ⟨c :: cs, rfl⟩

theorem read_endsOptions (h : EndsOptions rest) :
    read s rest = (.ok (.run ⟨positional rest, none, s.warnings⟩), s) := by
  cases rest with
  | nil => rfl
  | cons arg args =>
      rw [read, List.length_cons, options, positional]
      split
      · rfl
      · rename_i hdashes
        have hnone := h.resolve_left hdashes
        split
        · rename_i hlist
          exact absurd hlist (not_dash_of_startsWith hnone)
        · rename_i hlist
          exact absurd hlist (not_dash_of_startsWith hnone)
        · rfl

/-! ## Order and grouping -/

/-- The letters that raise levels, with the levels that they raise. -/
def levels : List (Char × (Flags → Nat)) := [('v', Flags.verbose), ('d', Flags.debug), ('O', Flags.optimize)]

theorem level_given (flags : Flags) (filters : WarningFilters) (n : Char → Nat) :
    ∀ level ∈ levels, level.2 (given { flags, filters } n).flags =
      if n level.1 = 0 then level.2 flags else min (n level.1) 255 := by
  simp [levels, given, raised]

/-- Switches in any order and put together in any way are read alike, and a level becomes the number of times that
its letter is there, whatever it was before. -/
theorem parse_switches {flags : Flags} {filters : WarningFilters} (hxs : ∀ x ∈ xs, AllSwitches x)
    (hys : ∀ y ∈ ys, AllSwitches y) (hcount : ∀ c ∈ switches, xs.flatten.count c = ys.flatten.count c)
    (hrest : EndsOptions rest) :
    parse flags filters (xs.map dash ++ rest) = parse flags filters (ys.map dash ++ rest) ∧
      (parse flags filters (xs.map dash ++ rest)).1 = .ok (.run ⟨positional rest, none, []⟩) ∧
      ∀ level ∈ levels, level.2 (parse flags filters (xs.map dash ++ rest)).2.flags =
        if xs.flatten.count level.1 = 0 then level.2 flags else min (xs.flatten.count level.1) 255 := by
  have hread : parse flags filters (xs.map dash ++ rest) =
      (.ok (.run ⟨positional rest, none, []⟩), given { flags, filters } (xs.flatten.count ·)) := by
    rw [parse_eq_read, read_switches_given hxs, read_endsOptions hrest]
    rfl
  refine ⟨?_, congrArg Prod.fst hread, ?_⟩
  · rw [parse_eq_read, parse_eq_read, read_switches_given hxs, read_switches_given hys, given_congr hcount]
  · rw [hread]
    exact level_given flags filters _

/-- The level that was set before gives way to the two times that `v` is there. -/
theorem parse_switches_reordered :
    (∀ x ∈ [['v', 'd'], ['O', 'v']], AllSwitches x) ∧ (∀ y ∈ [['O'], ['v', 'v', 'd']], AllSwitches y) ∧
      (∀ c ∈ switches, [['v', 'd'], ['O', 'v']].flatten.count c = [['O'], ['v', 'v', 'd']].flatten.count c) ∧
      EndsOptions ["app.py", "-d"] ∧
      parse { verbose := 7 } [] ["-vd", "-Ov", "app.py", "-d"] =
        parse { verbose := 7 } [] ["-O", "-vvd", "app.py", "-d"] ∧
      (parse { verbose := 7 } [] ["-vd", "-Ov", "app.py", "-d"]).2.flags.verbose = 2 := by
  have hxs : ∀ x ∈ [['v', 'd'], ['O', 'v']], AllSwitches x := by simp [AllSwitches, switches]
  have hys : ∀ y ∈ [['O'], ['v', 'v', 'd']], AllSwitches y := by simp [AllSwitches, switches]
  have hcount : ∀ c ∈ switches,
      [['v', 'd'], ['O', 'v']].flatten.count c = [['O'], ['v', 'v', 'd']].flatten.count c := by simp [switches]
  have hrest : EndsOptions ["app.py", "-d"] := .inr (.inr (by simp))
  obtain ⟨hsame, -, hlevels⟩ := @parse_switches _ _ _ { verbose := 7 } [] hxs hys hcount hrest
  exact ⟨hxs, hys, hcount, hrest, hsame, hlevels ('v', Flags.verbose) List.mem_cons_self⟩

end Launcher.CommandLine
