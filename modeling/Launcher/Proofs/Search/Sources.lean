import Launcher.Proofs.Files.Parts
import Launcher.Proofs.Search.PathFileLines
import Launcher.Proofs.Search.SafePath
import Mathlib.Data.List.Nodup

/-!
# The sources of a search path

Each source of a search path has paths of its own, whatever the flags are, and the flags say which sources are
consulted. The paths that are found are those of the sources that are consulted. A site directory and what its path
files name come behind all others, without the paths that are there already.
-/

namespace Launcher

/-! ## Paths in a list -/

namespace Path

/-- A path is in a list, in one spelling or another. -/
def Listed (paths : List Path) (p : Path) : Prop := p.parts ∈ paths.map parts

instance (paths : List Path) (p : Path) : Decidable (Listed paths p) :=
  inferInstanceAs (Decidable (p.parts ∈ paths.map parts))

variable {paths more found later : List Path} {p q : Path}

theorem not_listed_nil : ¬Listed [] p := List.not_mem_nil

theorem listed_singleton : Listed [q] p ↔ p.parts = q.parts := List.mem_singleton

theorem listed_append : Listed (paths ++ more) p ↔ Listed paths p ∨ Listed more p := by
  rw [Listed, List.map_append, List.mem_append]
  rfl

theorem listed_flatMap {f : Path → List Path} : Listed (paths.flatMap f) p ↔ ∃ q ∈ paths, Listed (f q) p := by
  rw [Listed, List.map_flatMap, List.mem_flatMap]
  rfl

theorem listed_flatMap_cons {f : Path → List Path} :
    Listed (paths.flatMap fun q => q :: f q) p ↔ Listed paths p ∨ Listed (paths.flatMap f) p := by
  have hcons (q : Path) : Listed (q :: f q) p ↔ q.parts = p.parts ∨ Listed (f q) p := by
    rw [Listed, List.map_cons, List.mem_cons, eq_comm]
    rfl
  have hpaths : Listed paths p ↔ ∃ q ∈ paths, q.parts = p.parts := List.mem_map
  simp only [listed_flatMap, hcons, hpaths, and_or_left, exists_or]

theorem isKnown_iff : Site.isKnown paths p = true ↔ Listed paths p := by
  rw [Site.isKnown, List.any_eq_true, Listed, List.mem_map]
  refine exists_congr fun q => and_congr_right fun _ => ?_
  rw [same, decide_eq_true_iff, eq_comm]

/-- A path that is in the list adds none. -/
theorem listed_of_known (h : Listed paths q) : Listed paths p ↔ Listed paths p ∨ Listed [q] p := by
  refine (or_iff_left_of_imp fun hq => ?_).symm
  rw [Listed, listed_singleton.mp hq]
  exact h

/-- The paths `found` are `paths` and behind them new ones, of which none is there twice. -/
def Extends (paths found : List Path) : Prop :=
  ∃ part, found = paths ++ part ∧ (part.map parts).Nodup ∧ ∀ p ∈ part, ¬Listed paths p

theorem Extends.refl (paths : List Path) : Extends paths paths :=
  ⟨[], (List.append_nil _).symm, List.nodup_nil, fun _ h => absurd h List.not_mem_nil⟩

theorem Extends.concat (h : ¬Listed paths p) : Extends paths (paths ++ [p]) :=
  ⟨[p], rfl, List.nodup_singleton _, fun _ hq => List.mem_singleton.mp hq ▸ h⟩

theorem Extends.trans (h : Extends paths found) (h' : Extends found later) : Extends paths later := by
  obtain ⟨first, rfl, hfirst, hnew⟩ := h
  obtain ⟨second, rfl, hsecond, hnewer⟩ := h'
  refine ⟨first ++ second, List.append_assoc .., ?_, fun p hp => ?_⟩
  · rw [List.map_append]
    refine hfirst.append hsecond fun part hone htwo => ?_
    obtain ⟨q, hq, rfl⟩ := List.mem_map.mp htwo
    exact hnewer q hq (listed_append.mpr (.inr hone))
  · rcases List.mem_append.mp hp with hp | hp
    · exact hnew p hp
    · exact fun hlisted => hnewer p hp (listed_append.mpr (.inl hlisted))

end Path

open Launcher.Path

/-! ## A site directory -/

namespace Site

variable {fs : FileSystem} {directory p : Path} {known : List Path}

theorem listed_expandLine (e : SiteExpansion) (line : String) :
    Listed (known ++ (expandLine fs directory known e line).directories) p ↔
      Listed (known ++ e.directories) p ∨ Listed (lineEntry fs directory line) p := by
  unfold expandLine lineEntry
  cases marker line with
  | nothing => exact (or_iff_left not_listed_nil).symm
  | directive text => exact (or_iff_left not_listed_nil).symm
  | directory text =>
      dsimp only
      cases hexists : fs.pathExists (Path.normalize directory none text) with
      | false =>
          rw [List.filter_singleton, hexists]
          exact (or_iff_left not_listed_nil).symm
      | true =>
          rw [List.filter_singleton, hexists]
          cases hknown : isKnown (known ++ e.directories) (Path.normalize directory none text) with
          | false => exact (List.append_assoc ..) ▸ listed_append
          | true => exact listed_of_known (isKnown_iff.mp hknown)

theorem listed_expandLines (lines : List String) (e : SiteExpansion) :
    Listed (known ++ (lines.foldl (expandLine fs directory known) e).directories) p ↔
      Listed (known ++ e.directories) p ∨ Listed (lines.flatMap (lineEntry fs directory)) p := by
  induction lines generalizing e with
  | nil => exact (or_iff_left not_listed_nil).symm
  | cons line lines ih =>
      rw [List.foldl_cons, ih, listed_expandLine, List.flatMap_cons, or_assoc]
      exact or_congr_right listed_append.symm

/-- With what is known, the expansion of a directory is the directory and what its path files name. -/
theorem listed_expand :
    Listed (known ++ (expand fs directory known).directories) p ↔
      Listed known p ∨ Listed (directory :: named fs directory) p := by
  have hstart : Listed (known ++ if isKnown known directory then [] else [directory]) p ↔
      Listed known p ∨ Listed [directory] p := by
    split
    · rename_i hknown
      rw [List.append_nil]
      exact listed_of_known (isKnown_iff.mp hknown)
    · exact listed_append
  rw [expand, listed_expandLines, hstart, or_assoc, ← listed_append]
  rfl

end Site

namespace SearchPath

variable {fs : FileSystem} {i : PathInputs} {p : Path} {dirs : List Path}

/-! ## Site directories one by one -/

theorem listed_addNew (paths more : List Path) : Listed (addNew paths more) p ↔ Listed (paths ++ more) p := by
  unfold addNew
  induction more generalizing paths with
  | nil => rw [List.foldl_nil, List.append_nil]
  | cons q more ih =>
      have hsplit : paths ++ q :: more = paths ++ [q] ++ more := List.append_cons ..
      rw [List.foldl_cons, ih, hsplit]
      split
      · rename_i hknown
        have hsame : Listed paths p ↔ Listed (paths ++ [q]) p :=
          (listed_of_known (isKnown_iff.mp hknown)).trans listed_append.symm
        exact listed_append.trans ((or_congr_left hsame).trans listed_append.symm)
      · rfl

theorem extends_addNew (paths more : List Path) : Extends paths (addNew paths more) := by
  refine List.foldlRecOn (motive := fun found => Extends paths found) _ _ (.refl paths) fun found hfound q _ => ?_
  split
  · exact hfound
  · rename_i hknown
    exact hfound.trans (.concat fun hlisted => hknown (isKnown_iff.mpr hlisted))

theorem extends_addSites {σ : Type} {expander : Expander σ} (found : List Path × List String)
    (s : σ) : Extends found.1 (addSites expander false dirs found s).1.1 := by
  induction dirs generalizing found s with
  | nil => exact .refl _
  | cons dir dirs ih => exact (extends_addNew found.1 _).trans (ih (_, _) _)

theorem addSites_verbatim {σ : Type} {expander : Expander σ} (found : List Path × List String)
    (s : σ) : (addSites expander true dirs found s).1.1 = found.1 ++ dirs := by
  induction dirs generalizing found with
  | nil => exact (List.append_nil _).symm
  | cons dir dirs ih => exact (ih (_, _)).trans (List.append_assoc ..)

theorem listed_addSites (found : List Path × List String) (s : Unit) :
    Listed (addSites (pthExpander fs) false dirs found s).1.1 p ↔
      Listed found.1 p ∨ Listed (dirs.flatMap fun dir => dir :: Site.named fs dir) p := by
  induction dirs generalizing found s with
  | nil => exact (or_iff_left not_listed_nil).symm
  | cons dir dirs ih =>
      have hdir : Listed (addNew found.1 (pthExpander fs dir found.1 s).1.directories) p ↔
          Listed found.1 p ∨ Listed (dir :: Site.named fs dir) p := (listed_addNew _ _).trans Site.listed_expand
      rw [addSites_cons, if_neg (by simp), ih, List.flatMap_cons]
      exact (or_congr_left hdir).trans (or_assoc.trans (or_congr_right listed_append.symm))

/-! ## Sources -/

/-- Where paths come from. -/
inductive Source where
  /-- What is run, or the working directory. -/
  | script
  | pathVariable
  | library
  | site
  | userSite
  /-- The path files in the site directory. -/
  | siteFiles
  /-- The path files in the user's site directory. -/
  | userSiteFiles
deriving DecidableEq, Repr

/-- The texts between the colons of a value. -/
structure BetweenColons (value : String) (texts : List String) : Prop where
  nonempty : texts ≠ []
  whole : ∀ text ∈ texts, ':' ∉ text.toList
  joined : ":".intercalate texts = value

theorem betweenColons_splitOn (value : String) : BetweenColons value (value.splitOn ":") where
  nonempty := Text.splitOn_ne_nil value ':'
  whole := by
    intro text htext
    rw [show value.splitOn ":" = _ from Text.splitOn_singleton value ':'] at htext
    obtain ⟨cs, hcs, rfl⟩ := List.mem_map.mp htext
    simpa using Text.not_mem_of_mem_splitOn hcs
  joined := Text.intercalate_splitOn value ':'

theorem BetweenColons.unique {value : String} {texts texts' : List String} (h : BetweenColons value texts)
    (h' : BetweenColons value texts') : texts = texts' := by
  have hsplit {texts : List String} (h : BetweenColons value texts) : value.splitOn ":" = texts :=
    h.joined ▸ Text.splitOn_intercalate h.nonempty h.whole
  rw [← hsplit h, hsplit h']

namespace Source

/-- Whether flags say that a source is consulted. -/
def enabled (f : Flags) : Source → Bool
  | script => !f.safePath
  | pathVariable => !f.ignoreEnvironment
  | library => true
  | site => true
  | userSite => !f.skipUserSite && !f.skipSiteMain
  | siteFiles => !f.ignorePthFiles
  | userSiteFiles => !f.ignorePthFiles && (!f.skipUserSite && !f.skipSiteMain)

/-- The paths that a source has, in their order. Those that path files name are in no order here. -/
inductive Has (fs : FileSystem) (i : PathInputs) : Source → List Path → Prop
  | scriptDirectory {reference : Path} (h : i.script = some reference) :
      Has fs i script [(normalizeIn i reference.text).directory]
  | workingDirectory (h : i.script = none) : Has fs i script [normalizeIn i i.cwd.text]
  | elements {value : String} {texts : List String} (h : i.env.get? i.names.path = some value)
      (htexts : BetweenColons value texts) : Has fs i pathVariable (texts.map (normalizeIn i))
  | unset (h : i.env.get? i.names.path = none) : Has fs i pathVariable []
  | library : Has fs i library [normalizeIn i i.installation.lib.text, normalizeIn i i.installation.libDynload.text]
  | site : Has fs i site [normalizeIn i i.installation.sitePackages.text]
  | userSite : Has fs i userSite i.installation.userSite.toList
  | siteFiles {paths : List Path}
      (h : ∀ p, p ∈ paths ↔ Site.Named fs (normalizeIn i i.installation.sitePackages.text) p) : Has fs i siteFiles paths
  | userSiteFiles {paths : List Path}
      (h : ∀ p, p ∈ paths ↔ ∃ directory, i.installation.userSite = some directory ∧ Site.Named fs directory p) :
      Has fs i userSiteFiles paths

/-- The paths of a source. -/
def paths (fs : FileSystem) (i : PathInputs) : Source → List Path
  | script =>
    match i.script with
    | some reference => [(normalizeIn i reference.text).directory]
    | none => [normalizeIn i i.cwd.text]
  | pathVariable =>
    match i.env.get? i.names.path with
    | some value => (value.splitOn ":").map (normalizeIn i)
    | none => []
  | library => [normalizeIn i i.installation.lib.text, normalizeIn i i.installation.libDynload.text]
  | site => [normalizeIn i i.installation.sitePackages.text]
  | userSite => i.installation.userSite.toList
  | siteFiles => Site.named fs (normalizeIn i i.installation.sitePackages.text)
  | userSiteFiles => i.installation.userSite.toList.flatMap (Site.named fs)

theorem has_paths (fs : FileSystem) (i : PathInputs) (k : Source) : k.Has fs i (k.paths fs i) := by
  cases k with
  | script =>
      unfold paths
      cases hscript : i.script with
      | some reference => exact .scriptDirectory hscript
      | none => exact .workingDirectory hscript
  | pathVariable =>
      unfold paths
      cases hvalue : i.env.get? i.names.path with
      | some value => exact .elements hvalue (betweenColons_splitOn value)
      | none => exact .unset hvalue
  | library => exact .library
  | site => exact .site
  | userSite => exact .userSite
  | siteFiles => exact .siteFiles fun _ => Site.mem_named
  | userSiteFiles =>
      refine .userSiteFiles fun p => ?_
      simp [paths, Site.mem_named]

/-- The flags have no part in what a source has. -/
theorem has_flags {k : Source} {ps : List Path} (flags : Flags) : k.Has fs { i with flags } ps ↔ k.Has fs i ps := by
  have hmove {i : PathInputs} (flags : Flags) (h : k.Has fs i ps) : k.Has fs { i with flags } ps := by
    cases h with
    | scriptDirectory h => exact .scriptDirectory (i := { i with flags }) h
    | workingDirectory h => exact .workingDirectory (i := { i with flags }) h
    | elements h htexts => exact .elements (i := { i with flags }) h htexts
    | unset h => exact .unset (i := { i with flags }) h
    | library => exact .library
    | site => exact .site
    | userSite => exact .userSite
    | siteFiles h => exact .siteFiles h
    | userSiteFiles h => exact .userSiteFiles h
  exact ⟨hmove i.flags, hmove flags⟩

/-- The paths that a source gives under the flags of a run. -/
def given (fs : FileSystem) (i : PathInputs) (k : Source) : List Path :=
  if k.enabled i.flags then k.paths fs i else []

end Source

/-- What stands in front of the site directories. -/
def front (fs : FileSystem) (i : PathInputs) : List Path :=
  Source.script.given fs i ++ Source.pathVariable.given fs i ++ Source.library.given fs i

theorem front_eq (fs : FileSystem) (i : PathInputs) :
    scriptBlock i ++ variableBlock i ++ libraryBlock i = front fs i := by
  have hscript : scriptBlock i = Source.script.given fs i := by
    rw [scriptBlock, Source.given, Source.enabled]
    cases i.flags.safePath with
    | true => rfl
    | false => rfl
  have hvariable : variableBlock i = Source.pathVariable.given fs i := by
    rw [variableBlock, Source.given, Source.enabled]
    cases i.flags.ignoreEnvironment with
    | true => rfl
    | false => rfl
  rw [hscript, hvariable]
  rfl

theorem siteDirectories_eq (fs : FileSystem) (i : PathInputs) :
    siteDirectories i = Source.site.given fs i ++ Source.userSite.given fs i := by
  cases hmain : i.flags.skipSiteMain <;> cases huser : i.flags.skipUserSite <;>
    simp [siteDirectories, Source.given, Source.enabled, Source.paths, hmain, huser]

theorem collected_eq (fs : FileSystem) (i : PathInputs) :
    collected (pthExpander fs) i () =
      addSites (pthExpander fs) i.flags.ignorePthFiles (Source.site.given fs i ++ Source.userSite.given fs i)
        (front fs i, []) () := by
  rw [collected, front_eq fs, siteDirectories_eq fs]

/-- What the path files give is named in the site directories that are given. -/
theorem files_eq (fs : FileSystem) (i : PathInputs) :
    Source.siteFiles.given fs i ++ Source.userSiteFiles.given fs i =
      if i.flags.ignorePthFiles then []
      else (Source.site.given fs i ++ Source.userSite.given fs i).flatMap (Site.named fs) := by
  have hsite : Source.siteFiles.paths fs i = (Source.site.paths fs i).flatMap (Site.named fs) :=
    (List.flatMap_singleton (Site.named fs) _).symm
  have huser : Source.userSiteFiles.paths fs i = (Source.userSite.paths fs i).flatMap (Site.named fs) := rfl
  cases hpth : i.flags.ignorePthFiles <;> cases huserFlag : i.flags.skipUserSite <;>
    cases hmain : i.flags.skipSiteMain <;>
    simp [Source.given, Source.enabled, hsite, huser, hpth, huserFlag, hmain]

theorem listed_given {k : Source} : Listed (k.given fs i) p ↔ k.enabled i.flags = true ∧ Listed (k.paths fs i) p := by
  rw [Source.given]
  split
  · rename_i henabled
    exact (and_iff_right henabled).symm
  · rename_i henabled
    exact iff_of_false not_listed_nil fun h => henabled h.1

/-- The paths found are those in front, the site directories and what the path files in them name. -/
theorem listed_collected :
    Listed (collected (pthExpander fs) i ()).1.1 p ↔
      Listed (front fs i) p ∨ Listed (Source.site.given fs i ++ Source.userSite.given fs i) p ∨
        Listed (Source.siteFiles.given fs i ++ Source.userSiteFiles.given fs i) p := by
  rw [collected_eq, files_eq]
  cases i.flags.ignorePthFiles with
  | true =>
      rw [addSites_verbatim, if_pos rfl, listed_append]
      exact or_congr_right (or_iff_left not_listed_nil).symm
  | false =>
      rw [listed_addSites, if_neg Bool.false_ne_true, listed_flatMap_cons]

/-- A path is found just if a source that is consulted has it. -/
theorem listed_collected_iff :
    Listed (collected (pthExpander fs) i ()).1.1 p ↔
      ∃ k : Source, k.enabled i.flags = true ∧ Listed (k.paths fs i) p := by
  simp only [listed_collected, front, listed_append, ← listed_given]
  constructor
  · rintro (((h | h) | h) | (h | h) | (h | h))
    exacts [⟨.script, h⟩, ⟨.pathVariable, h⟩, ⟨.library, h⟩, ⟨.site, h⟩, ⟨.userSite, h⟩, ⟨.siteFiles, h⟩,
      ⟨.userSiteFiles, h⟩]
  · rintro ⟨k, h⟩
    cases k with
    | script => exact .inl (.inl (.inl h))
    | pathVariable => exact .inl (.inl (.inr h))
    | library => exact .inl (.inr h)
    | site => exact .inr (.inl (.inl h))
    | userSite => exact .inr (.inl (.inr h))
    | siteFiles => exact .inr (.inr (.inl h))
    | userSiteFiles => exact .inr (.inr (.inr h))

/-- Behind the paths in front stand the site directories as they are, or new paths only. -/
theorem collected_append (fs : FileSystem) (i : PathInputs) :
    ∃ part, (collected (pthExpander fs) i ()).1.1 = front fs i ++ part ∧
      (i.flags.ignorePthFiles = true → part = Source.site.given fs i ++ Source.userSite.given fs i) ∧
      (i.flags.ignorePthFiles = false → (part.map Path.parts).Nodup ∧ ∀ p ∈ part, ¬Listed (front fs i) p) := by
  rw [collected_eq]
  cases i.flags.ignorePthFiles with
  | true => exact ⟨_, addSites_verbatim _ _, fun _ => rfl, fun h => absurd h (by simp)⟩
  | false =>
      obtain ⟨part, hpart, hnodup, hnew⟩ :=
        @extends_addSites (Source.site.given fs i ++ Source.userSite.given fs i) Unit (pthExpander fs)
          (front fs i, []) ()
      exact ⟨part, hpart, fun h => absurd h (by simp), fun _ => ⟨hnodup, hnew⟩⟩

/-- The candidates are the script or working directory, the elements of the path variable, the library and the site
part, in this order, each where the flags have it; with path files the site part repeats no path. The entries are the
candidates that exist. As a set the candidates are what the sources that are consulted have. The flags have no part in
what a source has, so a path that other flags take away is one of a source that they switch off. -/
theorem resolve_sources (fs : FileSystem) (i : PathInputs) :
    let found := (resolve fs (pthExpander fs) i ()).1
    ∃ paths : Source → List Path, (∀ k : Source, k.Has fs i (paths k)) ∧
      let given (k : Source) : List Path := if k.enabled i.flags then paths k else []
      (∃ part, found.candidates = given .script ++ given .pathVariable ++ given .library ++ part ∧
        (i.flags.ignorePthFiles = true → part = given .site ++ given .userSite) ∧
        (i.flags.ignorePthFiles = false → (part.map Path.parts).Nodup ∧
          ∀ p ∈ part, ¬Listed (given .script ++ given .pathVariable ++ given .library) p)) ∧
      found.entries = found.candidates.filter fs.pathExists ∧
      (∀ p, Listed found.candidates p ↔ ∃ k : Source, k.enabled i.flags = true ∧ Listed (paths k) p) ∧
      ∀ flags : Flags, (∀ (k : Source) (ps : List Path), k.Has fs { i with flags } ps ↔ k.Has fs i ps) ∧
        ∀ p, Listed found.candidates p → ¬Listed (resolve fs (pthExpander fs) { i with flags } ()).1.candidates p →
          ∃ k : Source, k.enabled i.flags = true ∧ k.enabled flags = false ∧ Listed (paths k) p := by
  intro found
  have hsame (flags : Flags) (k : Source) : k.paths fs { i with flags } = k.paths fs i := by
    cases k <;> rfl
  refine ⟨fun k => k.paths fs i, fun k => k.has_paths fs i, collected_append fs i, rfl, fun p => listed_collected_iff,
    fun flags => ⟨fun k ps => Source.has_flags flags, fun p hp hgone => ?_⟩⟩
  obtain ⟨k, henabled, hlisted⟩ := listed_collected_iff.mp hp
  refine ⟨k, henabled, Bool.eq_false_iff.mpr fun hstill => hgone ?_, hlisted⟩
  exact listed_collected_iff.mpr ⟨k, hstill, hsame flags k ▸ hlisted⟩

/-- A directory that a path file in the site directory names is a candidate. -/
theorem resolve_sources_pathFile :
    let fs := Site.withPathFile (Bytes.ofString Site.pathFileText)
    let i : PathInputs :=
      { samplePath "" with installation := { (samplePath "").installation with sitePackages := ⟨"/s"⟩ } }
    Listed (resolve fs (pthExpander fs) i ()).1.candidates ⟨"/s/x"⟩ := by
  intro fs i
  obtain ⟨paths, hhas, -, -, hset, -⟩ := resolve_sources fs i
  have hdirectory : normalizeIn i i.installation.sitePackages.text = ⟨"/s"⟩ := by cbv
  have hfiles : ⟨"/s/x"⟩ ∈ paths .siteFiles := by
    cases hhas .siteFiles with
    | siteFiles h =>
        refine (h _).mpr ?_
        rw [hdirectory]
        exact Site.named_withPathFile
  exact (hset _).mpr ⟨.siteFiles, rfl, List.mem_map_of_mem hfiles⟩

end SearchPath

end Launcher
