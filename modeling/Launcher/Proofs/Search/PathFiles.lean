import Launcher.Proofs.Search.Sources
import Launcher.Proofs.Table.Order

/-!
# What path files add

A site directory stands for itself and for the paths that the lines of its path files name. Of these the new ones are
taken, each where it is named first; all import lines are kept. With the result among the known paths nothing is new.
-/

namespace Launcher

/-! ## The new paths of a list -/

namespace Path

/-- The paths of a list that are not known, each where it stands first. -/
def firsts (known : List Path) : List Path → List Path
  | [] => []
  | p :: ps => if Site.isKnown known p then firsts known ps else p :: firsts (known ++ [p]) ps

variable {known ps qs : List Path} {p : Path}

theorem firsts_cons_of_listed (h : Listed known p) : firsts known (p :: ps) = firsts known ps :=
  if_pos (isKnown_iff.mpr h)

theorem firsts_cons_of_not_listed (h : ¬Listed known p) : firsts known (p :: ps) = p :: firsts (known ++ [p]) ps :=
  if_neg fun hknown => h (isKnown_iff.mp hknown)

theorem firsts_append (known ps qs : List Path) :
    firsts known (ps ++ qs) = firsts known ps ++ firsts (known ++ firsts known ps) qs := by
  induction ps generalizing known with
  | nil => rw [List.nil_append, firsts, List.append_nil, List.nil_append]
  | cons p ps ih =>
      by_cases hp : Listed known p
      · rw [List.cons_append, firsts_cons_of_listed hp, firsts_cons_of_listed hp, ih]
      · rw [List.cons_append, firsts_cons_of_not_listed hp, firsts_cons_of_not_listed hp, ih, ← List.append_cons,
          List.cons_append]

theorem firsts_cons (known : List Path) (p : Path) (ps : List Path) :
    firsts known (p :: ps) = (if Site.isKnown known p then [] else [p]) ++
      firsts (known ++ if Site.isKnown known p then [] else [p]) ps := firsts_append known [p] ps

theorem firsts_sublist (known ps : List Path) : (firsts known ps).Sublist ps := by
  induction ps generalizing known with
  | nil => exact .slnil
  | cons p ps ih =>
      by_cases hp : Listed known p
      · rw [firsts_cons_of_listed hp]
        exact (ih known).cons p
      · rw [firsts_cons_of_not_listed hp]
        exact (ih _).cons_cons p

theorem extends_firsts (known ps : List Path) : Extends known (known ++ firsts known ps) := by
  induction ps generalizing known with
  | nil => exact (List.append_nil known).symm ▸ .refl known
  | cons p ps ih =>
      by_cases hp : Listed known p
      · rw [firsts_cons_of_listed hp]
        exact ih known
      · rw [firsts_cons_of_not_listed hp, List.append_cons]
        exact (Extends.concat hp).trans (ih _)

theorem nodup_firsts (known ps : List Path) : ((firsts known ps).map parts).Nodup := by
  obtain ⟨part, hpart, hnodup, -⟩ := extends_firsts known ps
  exact List.append_cancel_left hpart ▸ hnodup

theorem not_listed_of_mem_firsts (h : p ∈ firsts known ps) : ¬Listed known p := by
  obtain ⟨part, hpart, -, hnew⟩ := extends_firsts known ps
  exact hnew p (List.append_cancel_left hpart ▸ h)

theorem listed_of_mem (h : p ∈ ps) : Listed ps p := List.mem_map_of_mem h

theorem listed_firsts : Listed (known ++ firsts known ps) p ↔ Listed known p ∨ Listed ps p := by
  induction ps generalizing known with
  | nil => exact listed_append
  | cons q ps ih =>
      have hcons : Listed (q :: ps) p ↔ Listed [q] p ∨ Listed ps p := @listed_append [q] ps p
      by_cases hq : Listed known q
      · rw [firsts_cons_of_listed hq, ih, hcons, ← or_assoc]
        exact or_congr_left (listed_of_known hq)
      · rw [firsts_cons_of_not_listed hq, List.append_cons, ih, hcons, ← or_assoc]
        exact or_congr_left listed_append

/-- Nothing is new where all is known. -/
theorem firsts_eq_nil (h : ∀ p ∈ ps, Listed known p) : firsts known ps = [] := by
  induction ps with
  | nil => rfl
  | cons p ps ih =>
      rw [firsts_cons_of_listed (h p List.mem_cons_self)]
      exact ih fun q hq => h q (List.mem_cons_of_mem p hq)

end Path

open Launcher.Path

namespace Site

variable {fs : FileSystem} {directory p : Path} {known : List Path} {line : String}

/-! ## Path files -/

/-- The names in a directory. -/
def names (fs : FileSystem) (directory : Path) : List String :=
  match fs.entries directory with
  | .error _ => []
  | .ok entries => entries.map Prod.fst

/-- The path files of a directory that can be read as text, in the order of their names. -/
def pathFiles (fs : FileSystem) (directory : Path) : List (String × String) :=
  (((names fs directory).filter isPathFile).mergeSort fun a b => decide (a ≤ b)).filterMap fun name =>
    (text? fs directory name).map (name, ·)

theorem markerFiles_eq (fs : FileSystem) (directory : Path) :
    markerFiles fs directory = (pathFiles fs directory).map Prod.snd := by
  have htext (name : String) : ((text? fs directory name).map (name, ·)).map Prod.snd = text? fs directory name := by
    rw [Option.map_map, Function.comp_def, Option.map_id']
  rw [markerFiles, pathFiles, names, List.map_filterMap]
  simp only [htext]
  cases fs.entries directory with
  | error _ => rw [List.filter_nil, List.mergeSort_nil, List.filterMap_nil]
  | ok entries => rfl

theorem text_of_mem_pathFiles {file : String × String} (h : file ∈ pathFiles fs directory) :
    text? fs directory file.1 = some file.2 := by
  obtain ⟨name, _, hname⟩ := List.mem_filterMap.mp h
  obtain ⟨text, htext, rfl⟩ := Option.map_eq_some_iff.mp hname
  exact htext

theorem map_fst_pathFiles (fs : FileSystem) (directory : Path) :
    (pathFiles fs directory).map Prod.fst =
      (Table.Builder.sorted ((names fs directory).filter isPathFile)).filter fun name =>
        (text? fs directory name).isSome := by
  have hname (name : String) : ((text? fs directory name).map (name, ·)).map Prod.fst =
      Option.guard (fun name => (text? fs directory name).isSome) name := by
    cases htext : text? fs directory name with
    | none => simp [Option.guard, htext]
    | some text => simp [Option.guard, htext]
  rw [pathFiles, List.map_filterMap]
  simp only [hname]
  exact congrFun List.filterMap_eq_filter _

theorem pathFiles_perm (fs : FileSystem) (directory : Path) :
    ((pathFiles fs directory).map Prod.fst).Perm
      ((names fs directory).filter fun name => (text? fs directory name).isSome && isPathFile name) := by
  rw [map_fst_pathFiles, ← List.filter_filter]
  exact (List.mergeSort_perm ..).filter _

theorem pathFiles_pairwise (fs : FileSystem) (directory : Path) :
    ((pathFiles fs directory).map Prod.fst).Pairwise (· ≤ ·) := by
  rw [map_fst_pathFiles]
  exact (Table.Builder.sorted_names_pairwise _).filter _

/-- The lines of the path files, file by file. -/
def pathLines (fs : FileSystem) (directory : Path) : List String :=
  (pathFiles fs directory).flatMap fun file => lines file.2

theorem pathLines_eq (fs : FileSystem) (directory : Path) :
    (markerFiles fs directory).flatMap lines = pathLines fs directory := by
  rw [markerFiles_eq, List.flatMap_map]
  rfl

/-! ## Lines -/

/-- The line names the path, and the path exists. -/
def namesPath (fs : FileSystem) (directory p : Path) (line : String) : Bool :=
  !line.startsWith "#" && !(trim line).isEmpty && !isImport line && fs.pathExists (linePath directory line) &&
    p.same (linePath directory line)

theorem namesPath_iff : namesPath fs directory p line = true ↔ Listed (lineEntry fs directory line) p := by
  rw [← isKnown_iff, ← Bool.eq_iff_iff, lineEntry, namesPath]
  obtain ⟨hmarker, htext, -⟩ | ⟨hmarker, himport⟩ | ⟨hmarker, htext, himport⟩ := marker_cases line
  · rw [hmarker, htext]
    rfl
  · rw [hmarker, himport, Bool.not_true, Bool.and_false]
    rfl
  · rw [hmarker, htext, himport, linePath]
    dsimp only
    rw [List.filter_singleton]
    cases fs.pathExists (Path.normalize directory none (trimEnd line)) with
    | true => exact (Bool.or_false _).symm
    | false => rfl

/-- One line adds what it names, if that is new, or itself, if it is an import line. -/
theorem expandLine_eq (e : SiteExpansion) (line : String) :
    expandLine fs directory known e line =
      { directories := e.directories ++ firsts (known ++ e.directories) (lineEntry fs directory line)
        directives := e.directives ++ ([line].filter isImport).map trimEnd } := by
  rw [expandLine, lineEntry, List.filter_singleton]
  obtain ⟨hmarker, -, himport⟩ | ⟨hmarker, himport⟩ | ⟨hmarker, -, himport⟩ := marker_cases line
  · simp [hmarker, himport, firsts]
  · simp [hmarker, himport, firsts]
  · rw [hmarker, himport]
    dsimp only
    rw [List.filter_singleton]
    cases fs.pathExists (Path.normalize directory none (trimEnd line)) with
    | false => simp [firsts]
    | true =>
        cases hknown : isKnown (known ++ e.directories) (Path.normalize directory none (trimEnd line)) with
        | true => simp [firsts, hknown]
        | false => simp [firsts, hknown]

theorem expandLines_eq (lines : List String) (e : SiteExpansion) :
    lines.foldl (expandLine fs directory known) e =
      { directories := e.directories ++ firsts (known ++ e.directories) (lines.flatMap (lineEntry fs directory))
        directives := e.directives ++ (lines.filter isImport).map trimEnd } := by
  induction lines generalizing e with
  | nil => simp [firsts]
  | cons line lines ih =>
      rw [List.foldl_cons, ih, expandLine_eq, List.flatMap_cons, firsts_append]
      have hfilter : (line :: lines).filter isImport = [line].filter isImport ++ lines.filter isImport :=
        List.filter_append [line] lines
      rw [hfilter, List.map_append, List.append_assoc, List.append_assoc, List.append_assoc]

theorem named_eq (fs : FileSystem) (directory : Path) :
    named fs directory = (pathLines fs directory).flatMap (lineEntry fs directory) := by
  rw [named, pathLines_eq]

/-- A site directory gives the new ones among itself and the paths that its path files name, and their import lines. -/
theorem expand_eq (fs : FileSystem) (directory : Path) (known : List Path) :
    expand fs directory known =
      { directories := firsts known (directory :: named fs directory)
        directives := ((pathLines fs directory).filter isImport).map trimEnd } := by
  rw [expand, expandLines_eq, pathLines_eq, ← named_eq, firsts_cons, List.nil_append]

theorem listed_named : Listed (named fs directory) p ↔
    ∃ line ∈ pathLines fs directory, namesPath fs directory p line = true := by
  rw [named_eq, Listed, List.map_flatMap, List.mem_flatMap]
  exact exists_congr fun line => and_congr_right fun _ => namesPath_iff.symm

theorem pathExists_of_mem_named (h : p ∈ named fs directory) : fs.pathExists p = true := by
  obtain ⟨line, -, hp⟩ := List.mem_flatMap.mp h
  unfold lineEntry at hp
  split at hp
  · exact (List.mem_filter.mp hp).2
  · exact absurd hp List.not_mem_nil

theorem inLines_pathFiles (fs : FileSystem) (directory : Path) :
    List.Forall₂ (fun file part => InLines file.2 part) (pathFiles fs directory)
      ((pathFiles fs directory).map fun file => lines file.2) :=
  List.forall₂_map_right_iff.mpr (List.forall₂_same.mpr fun _ _ => inLines_iff.mpr rfl)

/-! ## The order of what is found -/

/-- The place of the first line that names a path. -/
def firstLine (fs : FileSystem) (directory p : Path) (lines : List String) : Nat :=
  lines.findIdx (namesPath fs directory p)

theorem firstLine_cons_of_named {lines : List String} (h : namesPath fs directory p line = true) :
    firstLine fs directory p (line :: lines) = 0 := by
  rw [firstLine, List.findIdx_cons, h]
  rfl

theorem firstLine_cons_of_not_named {lines : List String} (h : namesPath fs directory p line = false) :
    firstLine fs directory p (line :: lines) = firstLine fs directory p lines + 1 := by
  rw [firstLine, List.findIdx_cons, h]
  rfl

theorem pairwise_lineEntry {R : Path → Path → Prop} (fs : FileSystem) (directory : Path) (line : String) :
    (lineEntry fs directory line).Pairwise R := by
  rw [lineEntry]
  cases marker line with
  | nothing => exact .nil
  | directive text => exact .nil
  | directory text => exact (List.pairwise_singleton R _).filter _

/-- New paths stand in the order of the lines that name them first. -/
theorem pairwise_firstLine (lines : List String) (known : List Path) :
    (firsts known (lines.flatMap (lineEntry fs directory))).Pairwise fun p q =>
      firstLine fs directory p lines < firstLine fs directory q lines := by
  induction lines generalizing known with
  | nil => exact .nil
  | cons line lines ih =>
      have hnamed (p : Path) (hp : p ∈ firsts known (lineEntry fs directory line)) :
          namesPath fs directory p line = true :=
        namesPath_iff.mpr (listed_of_mem ((firsts_sublist _ _).subset hp))
      have hnew (q : Path) (hq : q ∈ firsts (known ++ firsts known (lineEntry fs directory line))
          (lines.flatMap (lineEntry fs directory))) : namesPath fs directory q line = false :=
        Bool.eq_false_iff.mpr fun h => not_listed_of_mem_firsts hq (listed_firsts.mpr (.inr (namesPath_iff.mp h)))
      rw [List.flatMap_cons, firsts_append, List.pairwise_append]
      refine ⟨(pairwise_lineEntry fs directory line).sublist (firsts_sublist _ _), ?_, fun p hp q hq => ?_⟩
      · refine (ih _).imp_of_mem fun hp hq hlt => ?_
        rw [firstLine_cons_of_not_named (hnew _ hp), firstLine_cons_of_not_named (hnew _ hq)]
        exact Nat.succ_lt_succ hlt
      · rw [firstLine_cons_of_named (hnamed p hp), firstLine_cons_of_not_named (hnew q hq)]
        exact Nat.succ_pos _

/-- The expansion of a site directory is the directory itself, if it is not known, and behind it paths that exist and
that lines of its path files name. No path of it is known or there twice. The path files are the files that can be read
as text and whose names end in `.pth` and start with no dot, in the order of their names. What a line of one names is
known then or found, unless the line is blank, a comment or an import line or the path does not exist. The paths found
stand in the order of the first lines that name them, and the import lines as they come. With all of that known, nothing
is found any more. -/
theorem expand_complete (fs : FileSystem) (directory : Path) (known : List Path) :
    let found := expand fs directory known
    ∃ (files : List (String × String)) (parts : List (List String)),
      ((files.map Prod.fst).Pairwise (· ≤ ·) ∧ (∀ file ∈ files, text? fs directory file.1 = some file.2) ∧
        (files.map Prod.fst).Perm
          ((names fs directory).filter fun name => (text? fs directory name).isSome && isPathFile name)) ∧
      List.Forall₂ (fun file part => InLines file.2 part) files parts ∧
      let lines := parts.flatten
      (found.directories.map Path.parts).Nodup ∧ (∀ p ∈ found.directories, ¬Listed known p) ∧
      (∃ rest, found.directories = (if Listed known directory then [] else [directory]) ++ rest ∧
        (∀ p ∈ rest, fs.pathExists p = true ∧ ∃ line ∈ lines, namesPath fs directory p line = true) ∧
        rest.Pairwise fun p q => firstLine fs directory p lines < firstLine fs directory q lines) ∧
      (∀ line ∈ lines, line.startsWith "#" = false → (trim line).isEmpty = false → isImport line = false →
        fs.pathExists (linePath directory line) = true →
          Listed (known ++ found.directories) (linePath directory line)) ∧
      found.directives = (lines.filter isImport).map trimEnd ∧
      (expand fs directory (known ++ found.directories)).directories = [] := by
  intro found
  have hlines : ((pathFiles fs directory).map fun file => lines file.2).flatten = pathLines fs directory := rfl
  have hfound : found.directories = firsts known (directory :: named fs directory) := by
    rw [show found = _ from expand_eq fs directory known]
  have hstart : (if isKnown known directory then [] else [directory]) =
      if Listed known directory then [] else [directory] := if_congr isKnown_iff rfl rfl
  have hall (p : Path) (h : Listed (directory :: named fs directory) p) : Listed (known ++ found.directories) p :=
    hfound ▸ listed_firsts.mpr (.inr h)
  refine ⟨pathFiles fs directory, _,
    ⟨pathFiles_pairwise fs directory, fun file => text_of_mem_pathFiles, pathFiles_perm fs directory⟩,
    inLines_pathFiles fs directory, ?_⟩
  rw [hlines]
  refine ⟨hfound ▸ nodup_firsts _ _, fun p hp => not_listed_of_mem_firsts (hfound ▸ hp),
    ⟨_, hfound.trans (hstart ▸ firsts_cons ..), fun p hp => ?_, ?_⟩, ?_, ?_, ?_⟩
  · have hnamed : p ∈ named fs directory := (firsts_sublist _ _).subset hp
    exact ⟨pathExists_of_mem_named hnamed, listed_named.mp (listed_of_mem hnamed)⟩
  · rw [named_eq]
    exact pairwise_firstLine _ _
  · intro line hline hcomment hblank himport hexists
    have hnames : namesPath fs directory (linePath directory line) line = true := by
      simp [namesPath, hcomment, hblank, himport, hexists, same]
    exact hall _ (List.mem_cons_of_mem _ (listed_named.mpr ⟨line, hline, hnames⟩))
  · rw [show found = _ from expand_eq fs directory known]
  · rw [expand_eq]
    exact firsts_eq_nil fun p hp => hall p (listed_of_mem hp)

/-- A path file with a line of each kind: one names a directory, one is a comment and one an import line. -/
theorem expand_complete_lines :
    let found := expand (withPathFile (Bytes.ofString pathFileText)) ⟨"/s"⟩ []
    Listed found.directories ⟨"/s/x"⟩ ∧ found.directives = ["import z"] := by
  intro found
  obtain ⟨files, parts, ⟨-, htexts, hperm⟩, hparts, -, -, -, hall, hdirectives, -⟩ :=
    expand_complete (withPathFile (Bytes.ofString pathFileText)) ⟨"/s"⟩ []
  have htext : text? (withPathFile (Bytes.ofString pathFileText)) ⟨"/s"⟩ "p.pth" = some pathFileText :=
    text?_eq_some.mpr ⟨_, read_withPathFile _, Utf8.decode?_ofString pathFileText⟩
  have hnames : ((names (withPathFile (Bytes.ofString pathFileText)) ⟨"/s"⟩).filter fun name =>
      (text? (withPathFile (Bytes.ofString pathFileText)) ⟨"/s"⟩ name).isSome && isPathFile name) = ["p.pth"] := by
    have hfile : isPathFile "p.pth" = true := by cbv
    have hother : isPathFile "x" = false := by cbv
    simp [names, entries_withPathFile, htext, hfile, hother]
  obtain ⟨file, rfl, hfile⟩ := List.map_eq_singleton_iff.mp (List.perm_singleton.mp (hnames ▸ hperm))
  have hlines : InLines pathFileText (parts.flatten) := by
    obtain ⟨part, more, hpart, hmore, rfl⟩ := List.forall₂_cons_left_iff.mp hparts
    obtain rfl := List.forall₂_nil_left_iff.mp hmore
    have hcontent := htexts file List.mem_cons_self
    rw [hfile, htext, Option.some_inj] at hcontent
    rw [List.flatten_singleton, hcontent]
    exact hpart
  have hflat : parts.flatten = ["x", "# y", "import z"] :=
    (inLines_iff.mp hlines).symm.trans (inLines_iff.mp inLines_pathFileText)
  rw [hflat] at hall hdirectives
  refine ⟨linePath_pathFileText ▸ ?_, hdirectives.trans (by cbv)⟩
  exact hall "x" List.mem_cons_self (by cbv) (by cbv) (by cbv) (pathExists_withPathFile _)

end Site

end Launcher
