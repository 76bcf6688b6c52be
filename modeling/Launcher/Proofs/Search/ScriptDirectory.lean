import Launcher.Proofs.Files.Parts
import Launcher.Proofs.Run.Preparation
import Launcher.Proofs.Search.SafePath
import Launcher.Script.Session

/-!
# The directory of what is run

The search path begins with the directory of the file that is run. What is run is opened by its reference as that is
written, but for the search path the reference is taken without the blanks around it, and with the home directory for
a leading tilde. The two can be in different directories.
-/

namespace Launcher

/-! ## How a reference is taken -/

namespace Path

variable {p : Path} {home : Option Path} {text : String}

/-- What a text is taken for before it is joined with the working directory. -/
def takenAs (home : Option Path) (text : String) : String := (expandTilde home (trim text)).text

/-- A tilde alone, or with a slash of either kind behind it, stands for the home directory. -/
def LeadsHome (text : String) : Prop := text = "~" ∨ text.startsWith "~/" = true ∨ text.startsWith "~\\" = true

theorem expandTilde_of_not_leadsHome (h : ¬LeadsHome text) : expandTilde home text = ⟨text⟩ := by
  have hstart {front : String} {rest : List Char} (hlist : text.toList = front.toList ++ rest) :
      text.startsWith front = true := by
    rw [String.startsWith_string_iff]
    exact ⟨rest, hlist.symm⟩
  cases home with
  | none => rfl
  | some home =>
      rw [expandTilde]
      split
      · rename_i hlist
        exact absurd (.inl (String.toList_inj.mp hlist)) h
      · rename_i rest hlist
        exact absurd (.inr (.inl (hstart hlist))) h
      · rename_i rest hlist
        exact absurd (.inr (.inr (hstart hlist))) h
      · rfl

/-- A text without blanks around it, and without a tilde for the home directory, is taken as it is. -/
theorem takenAs_eq (htrim : trim text = text) (htilde : home = none ∨ ¬LeadsHome text) : takenAs home text = text := by
  rw [takenAs, htrim]
  rcases htilde with rfl | htilde
  · rfl
  · rw [expandTilde_of_not_leadsHome htilde]

/-- Two paths are in one directory if they lead along the same names but for the last. -/
theorem directory_fold_eq_iff {q : Path} (hp : p.isAbsolute = true) (hq : q.isAbsolute = true) :
    p.fold.directory = q.fold.directory ↔ p.namesOf.dropLast = q.namesOf.dropLast := by
  rw [directory_fold hp, directory_fold hq]
  exact ofNames_inj (fun s hs => plain_of_mem_namesOf s (List.dropLast_subset _ hs))
    fun s hs => plain_of_mem_namesOf s (List.dropLast_subset _ hs)

end Path

/-! ## The first candidate -/

theorem SearchPath.head_candidates {σ : Type} {fs : FileSystem} {expander : Expander σ} {i : PathInputs} {script : Path}
    (hsafe : i.flags.safePath = false) (hscript : i.script = some script) (s : σ) :
    (resolve fs expander i s).1.candidates.head? = some (normalizeIn i script.text).directory := by
  have hblock : scriptBlock i = [(normalizeIn i script.text).directory] := by
    rw [scriptBlock, if_neg (by simp [hsafe]), hscript]
    rfl
  have hprefix : scriptBlock i ++ variableBlock i ++ libraryBlock i <+: (collected expander i s).1.1 :=
    prefix_addSites (_, []) s
  obtain ⟨rest, hrest⟩ := hprefix
  rw [resolve_eq]
  dsimp only
  rw [← hrest, hblock]
  rfl

namespace Dispatcher

variable {σ τ : Type} {d : Dispatcher σ τ}

/-- What the search path of a run depends on. -/
def pathInputs (d : Dispatcher σ τ) (c : Context) (env : Environment) (mode : ExecutionMode) : PathInputs where
  script := if mode = .appSelf then some c.executable else mode.scriptReference?
  cwd := c.cwd
  env
  names := d.config.env
  flags := c.flags
  installation := Installation.locate d.files c.executable d.config env.home?

/-- The search path of a run, settled for a mode. -/
def resolvedPath (d : Dispatcher σ τ) (s : RunState σ τ) (env : Environment) (mode : ExecutionMode) : ResolvedPath :=
  (SearchPath.resolve d.files d.site (d.pathInputs s.context env mode) s.site).1

theorem setupSearchPath_eq_ok (s : RunState σ τ) (env : Environment) (mode : ExecutionMode) :
    ∃ t, d.setupSearchPath env mode s = (.ok (), t) ∧
      t.context.searchPath = (d.resolvedPath s env mode).candidates.filter d.files.pathExists := by
  unfold setupSearchPath
  obtain ⟨streams, htalk⟩ := (whenDebug_talks (logAll_talks _) 2).followedBy _ _
  exact ⟨_, htalk, rfl⟩

theorem pathInputs_script {c : Context} {env : Environment} {mode : ExecutionMode} {r : Path}
    (hmode : mode.scriptReference? = some r) : (d.pathInputs c env mode).script = some r := by
  have happ : mode ≠ .appSelf := by
    rintro rfl
    cases hmode
  exact (if_neg happ).trans hmode

theorem head_resolvedPath {s : RunState σ τ} {mode : ExecutionMode} {r : Path} (env : Environment)
    (hmode : mode.scriptReference? = some r) (hsafe : s.context.flags.safePath = false) :
    (d.resolvedPath s env mode).candidates.head? =
      some (s.context.cwd.join (Path.takenAs env.home? r.text)).fold.directory :=
  SearchPath.head_candidates hsafe (pathInputs_script hmode) s.site

/-- The first candidate is the directory of the reference as it is taken for the search path, and heads the search path
if it exists. It is the directory of the reference as it is written just when both lead along the same names but for the
last, and so where there are no blanks around the reference and no tilde for the home directory in front. -/
theorem setupSearchPath_scriptDirectory {s : RunState σ τ} {mode : ExecutionMode} {r : Path} (env : Environment)
    (hmode : mode.scriptReference? = some r) (hsafe : s.context.flags.safePath = false)
    (hcwd : s.context.cwd.isAbsolute = true) :
    let taken := s.context.cwd.join (Path.takenAs env.home? r.text)
    let written := s.context.cwd.join r.text
    let first := (d.resolvedPath s env mode).candidates.head?
    first = some taken.fold.directory ∧
      (∃ t, d.setupSearchPath env mode s = (.ok (), t) ∧
        (d.files.pathExists taken.fold.directory = true → t.context.searchPath.head? = some taken.fold.directory)) ∧
      (first = some written.fold.directory ↔ taken.namesOf.dropLast = written.namesOf.dropLast) ∧
      (trim r.text = r.text → env.home? = none ∨ ¬Path.LeadsHome r.text → first = some written.fold.directory) := by
  intro taken written first
  have hfirst : first = some taken.fold.directory := head_resolvedPath env hmode hsafe
  refine ⟨hfirst, ?_, ?_, fun htrim htilde => ?_⟩
  · obtain ⟨t, hrun, hentries⟩ := d.setupSearchPath_eq_ok s env mode
    refine ⟨t, hrun, fun hexists => ?_⟩
    obtain ⟨rest, hcandidates⟩ := List.head?_eq_some_iff.mp hfirst
    rw [hentries, hcandidates, List.filter_cons_of_pos hexists]
    rfl
  · rw [hfirst, Option.some_inj]
    exact Path.directory_fold_eq_iff (Path.isAbsolute_join hcwd) (Path.isAbsolute_join hcwd)
  · have hsame : taken = written := congrArg s.context.cwd.join (Path.takenAs_eq htrim htilde)
    rw [hfirst, hsame]

/-- A launcher without files. -/
def fileless : Dispatcher Script.Machine Unit := ⟨{}, {}, Script.Session.host 5, {}, SearchPath.pthExpander {}⟩

/-- A run in the directory `/w`. -/
def inWork : RunState Script.Machine Unit where
  context := { programName := "frozenrun", executable := ⟨"/bin/frozenrun"⟩, cwd := ⟨"/w"⟩, flags := {} }
  host := {}
  site := ()
  streams := {}

theorem isAbsolute_inWork : inWork.context.cwd.isAbsolute = true := by simp [inWork, Path.isAbsolute]

theorem directory_inWork {r : String} (hr : r.startsWith "/" = false) :
    (inWork.context.cwd.join r).fold.directory =
      Path.ofNames true (Path.foldParts ["w"] (((r.toList.splitOn '/').map String.ofList).filterMap
        Path.innerPart?)).dropLast := by
  have hparts : inWork.context.cwd.parts = [.root, .name "w"] := by cbv
  rw [Path.directory_fold (Path.isAbsolute_join isAbsolute_inWork), Path.namesOf,
    Path.parts_join (Path.text_ne_empty_of_isAbsolute isAbsolute_inWork) hr, hparts, Path.innerParts_eq]
  rfl

/-- A script below the working directory. -/
theorem setupSearchPath_scriptDirectory_below :
    let env : Environment := { systemHome := some ⟨"/home"⟩ }
    let mode : ExecutionMode := .script ⟨"a/b.py"⟩
    mode.scriptReference? = some ⟨"a/b.py"⟩ ∧ inWork.context.flags.safePath = false ∧
      inWork.context.cwd.isAbsolute = true ∧ trim "a/b.py" = "a/b.py" ∧ ¬Path.LeadsHome "a/b.py" ∧
      (fileless.resolvedPath inWork env mode).candidates.head? = some ⟨"/w/a"⟩ := by
  intro env mode
  have hmode : mode.scriptReference? = some ⟨"a/b.py"⟩ := rfl
  have htrim : trim "a/b.py" = "a/b.py" := by cbv
  have htilde : ¬Path.LeadsHome "a/b.py" := by simp [Path.LeadsHome]
  have hdirectory : (inWork.context.cwd.join "a/b.py").fold.directory = ⟨"/w/a"⟩ := by
    rw [directory_inWork (by simp)]
    cbv
  have hfirst := (fileless.setupSearchPath_scriptDirectory env hmode rfl isAbsolute_inWork).2.2.2 htrim (.inr htilde)
  exact ⟨hmode, rfl, isAbsolute_inWork, htrim, htilde, hfirst.trans (congrArg some hdirectory)⟩

/-- The name of a directory begins with a blank. What is run is in that directory, and the search path begins with
another. -/
theorem head_resolvedPath_blank :
    let env : Environment := { vars := [("HOME", "/home")] }
    let mode : ExecutionMode := .script ⟨" a/b.py"⟩
    let directory := (inWork.context.cwd.join " a/b.py").fold.directory
    mode.scriptReference? = some ⟨" a/b.py"⟩ ∧ inWork.context.flags.safePath = false ∧
      inWork.context.cwd.isAbsolute = true ∧ directory = ⟨"/w/ a"⟩ ∧
      (fileless.resolvedPath inWork env mode).candidates.head? = some ⟨"/w/a"⟩ ∧
      (fileless.resolvedPath inWork env mode).candidates.head? ≠ some directory := by
  intro env mode directory
  have hmode : mode.scriptReference? = some ⟨" a/b.py"⟩ := rfl
  have htaken : Path.takenAs env.home? " a/b.py" = "a/b.py" := by cbv
  have hdirectory : directory = ⟨"/w/ a"⟩ := by
    refine (directory_inWork (by simp)).trans ?_
    cbv
  have hfirst : (fileless.resolvedPath inWork env mode).candidates.head? = some ⟨"/w/a"⟩ := by
    rw [head_resolvedPath env hmode rfl, htaken, directory_inWork (by simp)]
    cbv
  refine ⟨hmode, rfl, isAbsolute_inWork, hdirectory, hfirst, ?_⟩
  rw [hfirst, hdirectory]
  decide

end Dispatcher

end Launcher
