import Launcher.Proofs.Files.Absolute
import Launcher.Search.SearchPath

/-!
# The working directory under safe path

Under safe path only the empty elements of the path variable stand for the working directory. Without one, and with
an installation and elements that lead from the root, a search path is the same in every working directory. With one,
it has the working directory in it.
-/

namespace Launcher

/-! ## Site directories from the root -/

namespace Site

variable {fs : FileSystem} {cwd : List String} {directory p : Path} {known : List Path}

theorem markerFiles_of_isAbsolute (h : directory.isAbsolute = true) :
    markerFiles { fs with cwd := cwd } directory = markerFiles fs directory := by
  have hread (name : String) : { fs with cwd := cwd }.read (directory.join name) = fs.read (directory.join name) :=
    FileSystem.read_of_isAbsolute (Path.isAbsolute_join h)
  simp only [markerFiles, FileSystem.entries_of_isAbsolute h, hread]

theorem expandLine_of_isAbsolute (h : directory.isAbsolute = true) :
    expandLine { fs with cwd := cwd } directory known = expandLine fs directory known := by
  funext e line
  have hentry (text : String) : { fs with cwd := cwd }.pathExists (Path.normalize directory none text) =
      fs.pathExists (Path.normalize directory none text) :=
    FileSystem.pathExists_of_isAbsolute (Path.isAbsolute_normalize_of_cwd h)
  simp only [expandLine, hentry]

theorem expand_of_isAbsolute (h : directory.isAbsolute = true) :
    expand { fs with cwd := cwd } directory known = expand fs directory known := by
  simp only [expand, markerFiles_of_isAbsolute h, expandLine_of_isAbsolute h]

theorem isAbsolute_of_mem_expandLine {e : SiteExpansion} {line : String} (h : directory.isAbsolute = true)
    (he : ∀ p ∈ e.directories, p.isAbsolute = true) :
    ∀ p ∈ (expandLine fs directory known e line).directories, p.isAbsolute = true := by
  unfold expandLine
  split
  · exact he
  · exact he
  · dsimp only
    split
    · intro p hp
      rcases List.mem_append.mp hp with hp | hp
      · exact he p hp
      · rw [List.mem_singleton.mp hp]
        exact Path.isAbsolute_normalize_of_cwd h
    · exact he

theorem isAbsolute_of_mem_expand (h : directory.isAbsolute = true) :
    ∀ p ∈ (expand fs directory known).directories, p.isAbsolute = true := by
  unfold expand
  refine List.foldlRecOn (motive := fun e : SiteExpansion => ∀ p ∈ e.directories, p.isAbsolute = true) _ _ ?_
    fun e he line _ => isAbsolute_of_mem_expandLine h he
  intro p hp
  dsimp only at hp
  split at hp
  · cases hp
  · rw [List.mem_singleton.mp hp]
    exact h

end Site

namespace SearchPath

variable {σ : Type} {fs : FileSystem} {expander expander' : Expander σ} {verbatim : Bool} {dir : Path}
  {dirs : List Path}

/-! ## Adding site directories -/

theorem prefix_addNew (paths more : List Path) : paths <+: addNew paths more := by
  refine List.foldlRecOn (motive := fun found => paths <+: found) _ _ List.prefix_rfl fun found hfound p _ => ?_
  split
  · exact hfound
  · exact hfound.trans (List.prefix_append ..)

theorem mem_addNew {paths more : List Path} {p : Path} (hp : p ∈ addNew paths more) : p ∈ paths ∨ p ∈ more := by
  refine List.foldlRecOn (motive := fun found => p ∈ found → p ∈ paths ∨ p ∈ more) more _ .inl
    (fun found hfound q hq hp => ?_) hp
  split at hp
  · exact hfound hp
  · rcases List.mem_append.mp hp with hp | hp
    · exact hfound hp
    · rw [List.mem_singleton.mp hp]
      exact .inr hq

theorem addSites_cons (found : List Path × List String) (s : σ) :
    addSites expander verbatim (dir :: dirs) found s =
      if verbatim then addSites expander verbatim dirs (found.1 ++ [dir], found.2) s
      else
        addSites expander verbatim dirs
          (addNew found.1 (expander dir found.1 s).1.directories, found.2 ++ (expander dir found.1 s).1.directives)
          (expander dir found.1 s).2 := rfl

/-- Site directories come behind what was found before. -/
theorem prefix_addSites (found : List Path × List String) (s : σ) :
    found.1 <+: (addSites expander verbatim dirs found s).1.1 := by
  induction dirs generalizing found s with
  | nil => exact List.prefix_rfl
  | cons dir dirs ih =>
      rw [addSites_cons]
      split
      · exact (List.prefix_append found.1 [dir]).trans (ih (_, _) s)
      · exact (prefix_addNew found.1 _).trans (ih (_, _) _)

theorem addSites_congr (h : ∀ dir ∈ dirs, ∀ known s, expander dir known s = expander' dir known s)
    (found : List Path × List String) (s : σ) :
    addSites expander verbatim dirs found s = addSites expander' verbatim dirs found s := by
  induction dirs generalizing found s with
  | nil => rfl
  | cons dir dirs ih =>
      have hrest := ih fun d hd => h d (List.mem_cons_of_mem _ hd)
      simp only [addSites_cons, h dir List.mem_cons_self, hrest]

/-- What holds of the paths found before, of the site directories and of all that they stand for holds of the paths
found after. -/
theorem forall_mem_addSites {P : Path → Prop} (hdirs : ∀ dir ∈ dirs, P dir)
    (h : ∀ dir ∈ dirs, ∀ known s, ∀ p ∈ (expander dir known s).1.directories, P p)
    {found : List Path × List String} (hfound : ∀ p ∈ found.1, P p) (s : σ) :
    ∀ p ∈ (addSites expander verbatim dirs found s).1.1, P p := by
  induction dirs generalizing found s with
  | nil => exact hfound
  | cons dir dirs ih =>
      have hrest := @ih (fun d hd => hdirs d (List.mem_cons_of_mem _ hd)) fun d hd => h d (List.mem_cons_of_mem _ hd)
      rw [addSites_cons]
      split
      · refine hrest (fun p hp => ?_) s
        rcases List.mem_append.mp hp with hp | hp
        · exact hfound p hp
        · rw [List.mem_singleton.mp hp]
          exact hdirs dir List.mem_cons_self
      · refine hrest (fun p hp => ?_) _
        rcases mem_addNew hp with hp | hp
        · exact hfound p hp
        · exact h dir List.mem_cons_self _ _ p hp

/-! ## The blocks of a search path -/

variable {i : PathInputs} {cwd : Path}

/-- The elements of the path variable, if it is consulted. -/
def elements (i : PathInputs) : List String :=
  if i.flags.ignoreEnvironment then []
  else
    match i.env.get? i.names.path with
    | some value => value.splitOn ":"
    | none => []

/-- The installation leads from the root, and so do all elements of the path variable that are not empty. -/
structure Anchored (i : PathInputs) : Prop where
  lib : i.installation.lib.isAbsolute = true
  libDynload : i.installation.libDynload.isAbsolute = true
  sitePackages : i.installation.sitePackages.isAbsolute = true
  userSite : ∀ p ∈ i.installation.userSite, p.isAbsolute = true
  element : ∀ e ∈ elements i, e = "" ∨ (⟨e⟩ : Path).isAbsolute = true

theorem variableBlock_eq (i : PathInputs) : variableBlock i = (elements i).map (normalizeIn i) := by
  unfold variableBlock elements
  split
  · rfl
  · cases i.env.get? i.names.path <;> rfl

theorem scriptBlock_of_safePath (h : i.flags.safePath = true) : scriptBlock i = [] := if_pos h

theorem normalizeIn_empty : normalizeIn i "" = i.cwd.fold := Path.normalize_empty

theorem normalizeIn_cwd {text : String} (h : (⟨text⟩ : Path).isAbsolute = true) :
    normalizeIn { i with cwd } text = normalizeIn i text :=
  (Path.normalize_of_isAbsolute h).trans (Path.normalize_of_isAbsolute h).symm

theorem libraryBlock_cwd (h : Anchored i) : libraryBlock { i with cwd } = libraryBlock i := by
  simp only [libraryBlock, normalizeIn_cwd h.lib, normalizeIn_cwd h.libDynload]

theorem siteDirectories_cwd (h : Anchored i) : siteDirectories { i with cwd } = siteDirectories i := by
  simp only [siteDirectories, normalizeIn_cwd h.sitePackages]

/-- An element that leads from the root is read in the same way in two working directories. An empty one is each of
the two directories in turn. -/
theorem variableBlock_cwd_iff (h : Anchored i) :
    variableBlock { i with cwd } = variableBlock i ↔ "" ∉ elements i ∨ cwd.fold = i.cwd.fold := by
  rw [variableBlock_eq, variableBlock_eq]
  refine List.map_inj_left.trans ⟨fun hsame => ?_, fun hor e he => ?_⟩
  · by_cases hempty : "" ∈ elements i
    · have heq := hsame "" hempty
      rw [normalizeIn_empty, normalizeIn_empty] at heq
      exact .inr heq
    · exact .inl hempty
  · rcases h.element e he with rfl | habsolute
    · rw [normalizeIn_empty, normalizeIn_empty]
      exact hor.resolve_left fun hnone => hnone he
    · exact normalizeIn_cwd habsolute

/-! ## Search paths in two working directories -/

/-- The candidates and the import lines, and the state of the expander behind them. -/
def collected (expander : Expander σ) (i : PathInputs) (s : σ) : (List Path × List String) × σ :=
  addSites expander i.flags.ignorePthFiles (siteDirectories i)
    (scriptBlock i ++ variableBlock i ++ libraryBlock i, []) s

theorem resolve_eq (s : σ) :
    resolve fs expander i s =
      (⟨(collected expander i s).1.1, (collected expander i s).1.1.filter fs.pathExists,
        (collected expander i s).1.2⟩, (collected expander i s).2) := rfl

/-- Under safe path the elements of the path variable come first. -/
theorem variableBlock_prefix_collected (hsafe : i.flags.safePath = true) (s : σ) :
    variableBlock i <+: (collected expander i s).1.1 := by
  have hblocks : variableBlock i <+: scriptBlock i ++ variableBlock i ++ libraryBlock i := by
    rw [scriptBlock_of_safePath hsafe]
    exact List.prefix_append ..
  exact hblocks.trans (prefix_addSites (_, []) s)

theorem collected_cwd (hsafe : i.flags.safePath = true) (h : Anchored i)
    (hvariable : variableBlock { i with cwd } = variableBlock i) (s : σ) :
    collected expander { i with cwd } s = collected expander i s := by
  have hscript : scriptBlock { i with cwd } = scriptBlock i := by
    rw [scriptBlock_of_safePath hsafe]
    exact if_pos hsafe
  rw [collected, hscript, hvariable, libraryBlock_cwd h, siteDirectories_cwd h]
  rfl

theorem resolve_cwd_iff (hsafe : i.flags.safePath = true) (h : Anchored i) (s : σ) :
    (resolve fs expander { i with cwd } s).1 = (resolve fs expander i s).1 ↔
      "" ∉ elements i ∨ cwd.fold = i.cwd.fold := by
  rw [← variableBlock_cwd_iff h]
  constructor
  · intro heq
    have hcandidates : (collected expander { i with cwd } s).1.1 = (collected expander i s).1.1 :=
      congrArg ResolvedPath.candidates heq
    -- Both begin with their elements, and with as many of them, whatever comes behind.
    have hfirst : variableBlock { i with cwd } <+: (collected expander i s).1.1 := by
      rw [← hcandidates]
      exact variableBlock_prefix_collected (i := { i with cwd }) hsafe s
    have hlength : (variableBlock { i with cwd }).length = (variableBlock i).length := by
      rw [variableBlock_eq, variableBlock_eq, List.length_map, List.length_map]
      rfl
    have hsecond : variableBlock i <+: (collected expander i s).1.1 := variableBlock_prefix_collected hsafe s
    exact (List.prefix_of_prefix_length_le hfirst hsecond hlength.le).eq_of_length hlength
  · intro hvariable
    rw [resolve_eq, resolve_eq, collected_cwd hsafe h hvariable]

theorem cwd_mem_collected (hsafe : i.flags.safePath = true) (hempty : "" ∈ elements i) (s : σ) :
    i.cwd.fold ∈ (collected expander i s).1.1 := by
  refine (variableBlock_prefix_collected hsafe s).subset ?_
  rw [variableBlock_eq, ← normalizeIn_empty]
  exact List.mem_map_of_mem hempty

theorem isAbsolute_of_mem_siteDirectories (h : Anchored i) : ∀ dir ∈ siteDirectories i, dir.isAbsolute = true := by
  intro dir hdir
  rcases List.mem_cons.mp hdir with rfl | hdir
  · exact Path.isAbsolute_normalize h.sitePackages
  · split at hdir
    · cases hdir
    · exact h.userSite dir (Option.mem_toList.mp hdir)

theorem isAbsolute_of_mem_collected (hsafe : i.flags.safePath = true) (h : Anchored i) (hempty : "" ∉ elements i) :
    ∀ p ∈ (collected (pthExpander fs) i ()).1.1, p.isAbsolute = true := by
  have hdirs := isAbsolute_of_mem_siteDirectories h
  refine forall_mem_addSites hdirs (fun dir hdir known s => Site.isAbsolute_of_mem_expand (hdirs dir hdir)) ?_ ()
  intro p hp
  rw [scriptBlock_of_safePath hsafe, List.nil_append, variableBlock_eq, List.mem_append] at hp
  rcases hp with hp | hp
  · obtain ⟨e, he, rfl⟩ := List.mem_map.mp hp
    exact Path.isAbsolute_normalize ((h.element e he).resolve_left fun heq => hempty (heq ▸ he))
  · simp only [libraryBlock, List.mem_cons, List.not_mem_nil, or_false] at hp
    rcases hp with rfl | rfl
    · exact Path.isAbsolute_normalize h.lib
    · exact Path.isAbsolute_normalize h.libDynload

theorem collected_process (h : Anchored i) (names : List String) :
    collected (pthExpander { fs with cwd := names }) i () = collected (pthExpander fs) i () :=
  addSites_congr (fun dir hdir _ _ => congrArg (·, ())
    (Site.expand_of_isAbsolute (isAbsolute_of_mem_siteDirectories h dir hdir))) _ _

/-- Paths from the root are looked for in the same places by a process in another directory. -/
theorem resolve_process (hsafe : i.flags.safePath = true) (h : Anchored i) (hempty : "" ∉ elements i)
    (names : List String) :
    resolve { fs with cwd := names } (pthExpander { fs with cwd := names }) i () =
      resolve fs (pthExpander fs) i () := by
  have hentries : (collected (pthExpander fs) i ()).1.1.filter { fs with cwd := names }.pathExists =
      (collected (pthExpander fs) i ()).1.1.filter fs.pathExists :=
    List.filter_congr fun p hp =>
      FileSystem.pathExists_of_isAbsolute (isAbsolute_of_mem_collected hsafe h hempty p hp)
  rw [resolve_eq, resolve_eq, collected_process h, hentries]

/-- Under safe path two working directories have one search path, whatever expands the site directories, just when no
element of the path variable is empty or the two are one directory. A process may run in the one or the other. With an
empty element the working directory is searched. -/
theorem resolve_safePath (hsafe : i.flags.safePath = true) (h : Anchored i) :
    (∀ (σ : Type) (fs : FileSystem) (expander : Expander σ) (s : σ) (cwd : Path),
      (resolve fs expander { i with cwd } s).1 = (resolve fs expander i s).1 ↔
        "" ∉ elements i ∨ cwd.fold = i.cwd.fold) ∧
    ("" ∉ elements i → ∀ (fs : FileSystem) (names : List String) (cwd : Path),
      (resolve { fs with cwd := names } (pthExpander { fs with cwd := names }) { i with cwd } ()).1 =
        (resolve fs (pthExpander fs) i ()).1) ∧
    ("" ∈ elements i → ∀ (σ : Type) (fs : FileSystem) (expander : Expander σ) (s : σ),
      i.cwd.fold ∈ (resolve fs expander i s).1.candidates) := by
  refine ⟨fun _ _ _ s _ => resolve_cwd_iff hsafe h s, fun hempty fs names cwd => ?_,
    fun hempty _ _ _ s => cwd_mem_collected hsafe hempty s⟩
  refine ((resolve_cwd_iff hsafe h ()).mpr (.inl hempty)).trans ?_
  rw [resolve_process hsafe h hempty]

/-- An installed launcher with that path variable, under safe path. -/
def samplePath (value : String) : PathInputs where
  script := none
  cwd := ⟨"/home"⟩
  env := { vars := [("FROZENRUN_PATH", value)] }
  names := .beginningWith "FROZENRUN"
  flags := { safePath := true }
  installation :=
    { executable := ⟨"/opt/bin/frozenrun"⟩
      bindir := ⟨"/opt/bin"⟩
      base := ⟨"/opt"⟩
      lib := ⟨"/opt/lib/frozenrun0.2"⟩
      libDynload := ⟨"/opt/lib/frozenrun0.2/lib-dynload"⟩
      sitePackages := ⟨"/opt/lib/frozenrun0.2/site-packages"⟩
      userSite := none }

theorem elements_samplePath (value : String) :
    elements (samplePath value) = (value.toList.splitOn ':').map String.ofList :=
  Text.splitOn_singleton value ':'

theorem anchored_samplePath {value : String}
    (h : ∀ e ∈ elements (samplePath value), e = "" ∨ (⟨e⟩ : Path).isAbsolute = true) : Anchored (samplePath value) where
  lib := by simp [samplePath, Path.isAbsolute]
  libDynload := by simp [samplePath, Path.isAbsolute]
  sitePackages := by simp [samplePath, Path.isAbsolute]
  userSite := by simp [samplePath]
  element := h

/-- With two directories in the path variable, the working directory has no part. -/
theorem resolve_safePath_twoDirectories :
    (samplePath "/lib:/usr").flags.safePath = true ∧ Anchored (samplePath "/lib:/usr") ∧
      (resolve {} (pthExpander {}) { samplePath "/lib:/usr" with cwd := ⟨"/tmp"⟩ } ()).1 =
        (resolve {} (pthExpander {}) (samplePath "/lib:/usr") ()).1 := by
  have helements : elements (samplePath "/lib:/usr") = ["/lib", "/usr"] := (elements_samplePath _).trans (by decide)
  have hanchored : Anchored (samplePath "/lib:/usr") := by
    refine anchored_samplePath fun e he => ?_
    rw [helements, List.mem_cons, List.mem_singleton] at he
    rcases he with rfl | rfl <;> exact .inr (by simp [Path.isAbsolute])
  have hempty : "" ∉ elements (samplePath "/lib:/usr") := by
    rw [helements]
    decide
  exact ⟨rfl, hanchored, ((resolve_safePath rfl hanchored).1 Unit {} (pthExpander {}) () ⟨"/tmp"⟩).mpr (.inl hempty)⟩

/-- A path variable with nothing in it has one element, the working directory. -/
theorem resolve_emptyVariable :
    (samplePath "").flags.safePath = true ∧ Anchored (samplePath "") ∧
      (resolve {} (pthExpander {}) { samplePath "" with cwd := ⟨"/tmp"⟩ } ()).1 ≠
        (resolve {} (pthExpander {}) (samplePath "") ()).1 := by
  have helements : elements (samplePath "") = [""] := (elements_samplePath _).trans (by decide)
  have hanchored : Anchored (samplePath "") := by
    refine anchored_samplePath fun e he => .inl ?_
    rw [helements] at he
    exact List.mem_singleton.mp he
  refine ⟨rfl, hanchored, fun heq => ?_⟩
  rcases (resolve_cwd_iff rfl hanchored ()).mp heq with hnone | hfold
  · exact hnone (by simp [helements])
  · have htmp : FileName "tmp" := ⟨by decide, 't', ['m', 'p'], by decide, by decide⟩
    have hhome : FileName "home" := ⟨by decide, 'h', ['o', 'm', 'e'], by decide, by decide⟩
    rw [Path.fold_of_fileName htmp (by decide), Path.fold_of_fileName hhome (by decide)] at hfold
    exact absurd (congrArg Path.text hfold) (by decide)

end SearchPath

end Launcher
