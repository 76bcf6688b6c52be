import Launcher.Proofs.Freeze.Lookup
import Launcher.Script.Session

/-!
# Trees under a package

The units of a tree that goes under a package are those of the tree on its own, under that package, and the package
itself. So with a unit there is a package for every name in front of its dots, unless the package that the tree goes
under is itself below that name: of its own enclosing packages none is made.
-/

namespace Launcher.Freeze

open Table (isIdentifier not_mem_of_isIdentifier)

/-! ## What a node means under a package -/

/-- What is found under a package with these components. -/
def Finding.under (package : List String) : Finding → Finding
  | .nothing => .nothing
  | .namespacePackage components => .namespacePackage (package ++ components)
  | .source components isPackage => .source (package ++ components) isPackage

section

variable {package names components : List String} {n : FileNode}

theorem isEmpty_append_of_ne_nil (package : List String) {names : List String} (h : names ≠ []) :
    (package ++ names).isEmpty = names.isEmpty := by
  cases names with
  | nil => exact absurd rfl h
  | cons name names => simp

/-- All but the top and its own source mean the same under a package. -/
theorem finding_under (package : List String) (hne : names ≠ []) (hinit : names ≠ [packageFile]) :
    finding package names n = (finding [] names n).under package := by
  cases hdir : n.isDir with
  | true =>
      rw [finding, if_pos hdir, finding_dir hdir, isEmpty_append_of_ne_nil package hne]
      dsimp only
      rw [apply_ite (Finding.under package)]
      rfl
  | false =>
      obtain ⟨dirs, file, rfl⟩ := (List.eq_nil_or_concat' names).resolve_left hne
      have hcomponents : (if file == packageFile then dirs
          else dirs ++ [(file.dropEnd sourceSuffix.length).toString]) ≠ [] := by
        split
        · rintro rfl
          simp_all
        · simp
      rw [finding, finding, if_neg (by simp [hdir]), if_neg (by simp [hdir]), List.getLast?_concat,
        List.dropLast_concat]
      dsimp only
      rw [isEmpty_append_of_ne_nil package hcomponents, List.nil_append]
      rw [apply_ite (Finding.under package)]
      rfl

/-- The top is the package itself, without code unless the source of the package is in it. -/
theorem finding_top (hpackage : package ≠ []) (hdir : n.isDir = true) :
    finding package [] n =
      if (n.child? packageFile).any (!·.isDir) || !holdsSource n then .nothing else .namespacePackage package := by
  have hempty : (package ++ []).isEmpty = false := by simpa using hpackage
  rw [finding, if_pos hdir, hempty, List.append_nil]
  simp

theorem finding_topSource (hpackage : package ≠ []) (hfile : n.isDir = false) :
    finding package [packageFile] n = .source package true := by
  rw [finding, if_neg (by simp [hfile])]
  simp [endsWith_packageFile, hpackage]

/-- At the top nothing is found of a tree on its own, and under a package nothing but the package itself. -/
theorem finding_of_top (hpackage : package ≠ []) (htop : names = [] ∨ names = [packageFile]) :
    finding [] names n = .nothing ∧
      (finding package names n = .nothing ∨ finding package names n = .namespacePackage package ∨
        finding package names n = .source package true) := by
  rcases htop with rfl | rfl
  · cases hdir : n.isDir with
    | true =>
        refine ⟨finding_dir hdir, ?_⟩
        rw [finding_top hpackage hdir]
        split
        · exact .inl rfl
        · exact .inr (.inl rfl)
    | false =>
        have hnothing (package : List String) : finding package [] n = .nothing := by
          rw [finding, if_neg (by simp [hdir])]
          rfl
        exact ⟨hnothing [], .inl (hnothing package)⟩
  · cases hdir : n.isDir with
    | true =>
        have hno : isIdentifier packageFile = false := by decide
        have hnothing (package : List String) : finding package [packageFile] n = .nothing := by
          rw [finding, if_pos hdir]
          simp [hno]
        exact ⟨hnothing [], .inl (hnothing package)⟩
    | false => exact ⟨@finding_packageFile [] n hdir, .inr (.inr (finding_topSource hpackage hdir))⟩

end

/-! ## Units under a package -/

/-- A unit under a package. -/
def unitUnder (package : String) (u : Table.CompiledUnit) : Table.CompiledUnit :=
  { u with name := package ++ "." ++ u.name }

theorem dotted_append {components others : List String} (hne : components ≠ []) (hothers : others ≠ []) :
    dotted (components ++ others) = dotted components ++ "." ++ dotted others :=
  String.intercalate_append_of_ne_nil hne hothers

section

variable {σ : Type} {fs : FileSystem} {host : Host σ} {optimize : Nat} {namespaces : Bool} {directory : Path}
  {tree n : FileNode} {names : List String} {package : String} {u : Table.CompiledUnit}
  {us units : List Table.CompiledUnit}

theorem dotted_components (package : String) : dotted (package.splitOn ".") = package :=
  Text.intercalate_splitOn package '.'

theorem components_ne_nil (package : String) : package.splitOn "." ≠ [] := Text.splitOn_ne_nil package '.'

theorem compileFile_under {file : Path} {components : List String} (hne : components ≠ []) (isPackage : Bool) :
    compileFile fs host optimize file (package.splitOn "." ++ components) isPackage =
      (compileFile fs host optimize file components isPackage).map (unitUnder package) := by
  unfold compileFile
  split
  · rfl
  · split
    · rw [dotted_append (components_ne_nil package) hne, dotted_components]
      rfl
    · rfl

theorem listed_of_unitsAt {above : Option String}
    (h : unitsAt fs host optimize namespaces ⟨directory, above⟩ names n = .ok us) :
    (n.isDir && !fs.isDir (names.foldl Path.join directory)) = false := by
  unfold unitsAt at h
  dsimp only at h
  split at h
  · cases h
  · rename_i hlisted
    exact Bool.eq_false_iff.mpr hlisted

theorem unitsAt_of_nothing {root : SourceRoot}
    (hlisted : (n.isDir && !fs.isDir (names.foldl Path.join root.directory)) = false)
    (hfinding : finding root.components names n = .nothing) :
    unitsAt fs host optimize namespaces root names n = .ok [] := by
  simp [unitsAt, hlisted, hfinding]

/-- Where the package itself is found, its unit is given; without code it is so only where such packages are wanted. -/
theorem unitsAt_package (h : unitsAt fs host optimize namespaces ⟨directory, some package⟩ names n = .ok us)
    (hfinding : finding (package.splitOn ".") names n = .namespacePackage (package.splitOn ".") ∨
      finding (package.splitOn ".") names n = .source (package.splitOn ".") true) :
    (∀ u ∈ us, u.name = package ∧ u.isPackage = true) ∧ (namespaces = true → us ≠ []) := by
  have hlisted := listed_of_unitsAt h
  unfold unitsAt at h
  dsimp only [SourceRoot.components] at h
  rw [hlisted, if_neg Bool.false_ne_true] at h
  rcases hfinding with hfinding | hfinding <;> rw [hfinding] at h
  · cases h
    cases namespaces with
    | true => exact ⟨fun u hu => List.mem_singleton.mp hu ▸ ⟨dotted_components package, rfl⟩, fun _ => by simp⟩
    | false => exact ⟨nofun, nofun⟩
  · dsimp only at h
    cases hcompile : compileFile fs host optimize (names.foldl Path.join directory) (package.splitOn ".") true with
    | error e => rw [hcompile] at h; cases h
    | ok v =>
        rw [hcompile] at h
        cases h
        obtain ⟨hname, hpackage, -⟩ := compileFile_eq_ok.mp hcompile
        exact ⟨fun u hu => List.mem_singleton.mp hu ▸ ⟨hname.trans (dotted_components package), hpackage⟩,
          fun _ => by simp⟩

/-- All nodes but the top and its own source give under a package what they give without one. -/
theorem unitsAt_under (hne : names ≠ []) (hinit : names ≠ [packageFile]) :
    unitsAt fs host optimize namespaces ⟨directory, some package⟩ names n =
      (unitsAt fs host optimize namespaces ⟨directory, none⟩ names n).map (·.map (unitUnder package)) := by
  unfold unitsAt
  dsimp only [SourceRoot.components]
  rw [finding_under _ hne hinit]
  split
  · rfl
  cases hfinding : finding [] names n with
  | nothing => rfl
  | namespacePackage components =>
      obtain ⟨-, rfl, -⟩ := finding_eq_namespacePackage hfinding
      cases namespaces with
      | true =>
          dsimp only [Finding.under]
          rw [if_pos rfl, if_pos rfl, dotted_append (components_ne_nil package) hne, dotted_components]
          rfl
      | false => rfl
  | source components isPackage =>
      dsimp only [Finding.under]
      rw [compileFile_under (finding_eq_source.mp hfinding).2.1]
      cases compileFile fs host optimize (names.foldl Path.join directory) components isPackage with
      | error e => rfl
      | ok u => rfl

/-- A node gives what it gives without the package, under it, or it gives the package itself. -/
theorem exists_plain (h : unitsAt fs host optimize namespaces ⟨directory, some package⟩ names n = .ok us) :
    ∃ plain, unitsAt fs host optimize namespaces ⟨directory, none⟩ names n = .ok plain ∧
      (us = plain.map (unitUnder package) ∨ plain = [] ∧ ∀ u ∈ us, u.name = package ∧ u.isPackage = true) := by
  by_cases htop : names = [] ∨ names = [packageFile]
  · obtain ⟨hplain, hfinding⟩ := @finding_of_top _ _ n (components_ne_nil package) htop
    refine ⟨[], unitsAt_of_nothing (listed_of_unitsAt h) hplain, .inr ⟨rfl, fun u hu => ?_⟩⟩
    rcases hfinding with hfinding | hfinding
    · cases h.symm.trans (unitsAt_of_nothing (listed_of_unitsAt h) hfinding)
      cases hu
    · exact (unitsAt_package h hfinding).1 u hu
  · obtain ⟨hne, hinit⟩ := not_or.mp htop
    rw [unitsAt_under hne hinit] at h
    cases hplain : unitsAt fs host optimize namespaces ⟨directory, none⟩ names n with
    | error e => rw [hplain] at h; cases h
    | ok plain =>
        rw [hplain] at h
        exact ⟨plain, rfl, .inl (Except.ok.inj h).symm⟩

theorem units_under {nodes : List (List String × FileNode)} {found : List (List Table.CompiledUnit)}
    (h : List.Forall₂ (fun (entry : List String × FileNode) us =>
      unitsAt fs host optimize namespaces ⟨directory, some package⟩ entry.1 entry.2 = .ok us) nodes found) :
    ∃ plain, List.Forall₂ (fun (entry : List String × FileNode) us =>
        unitsAt fs host optimize namespaces ⟨directory, none⟩ entry.1 entry.2 = .ok us) nodes plain ∧
      (∀ v ∈ plain.flatten, unitUnder package v ∈ found.flatten) ∧
      ∀ u ∈ found.flatten, (∃ v ∈ plain.flatten, u = unitUnder package v) ∨ u.name = package ∧ u.isPackage = true := by
  induction h with
  | nil => exact ⟨[], .nil, nofun, nofun⟩
  | @cons node us nodes found hnode _ ih =>
      obtain ⟨first, hfirst, hus⟩ := exists_plain hnode
      obtain ⟨plain, hplain, hinto, hfrom⟩ := ih
      refine ⟨first :: plain, .cons hfirst hplain, fun v hv => ?_, fun u hu => ?_⟩
      · rcases List.mem_append.mp hv with hv | hv
        · rcases hus with rfl | ⟨rfl, -⟩
          · exact List.mem_append_left _ (List.mem_map_of_mem hv)
          · cases hv
        · exact List.mem_append_right us (hinto v hv)
      · rcases List.mem_append.mp hu with hu | hu
        · rcases hus with rfl | ⟨-, hus⟩
          · obtain ⟨v, hv, rfl⟩ := List.mem_map.mp hu
            exact .inl ⟨v, List.mem_append_left _ hv, rfl⟩
          · exact .inr (hus u hu)
        · exact (hfrom u hu).imp_left fun ⟨v, hv, hvu⟩ => ⟨v, List.mem_append_right first hv, hvu⟩

theorem exists_tree {root : SourceRoot} (h : collect fs host optimize namespaces root = .ok units) :
    ∃ tree, fs.look root.directory = .ok tree := by
  unfold collect at h
  split at h
  · rename_i children hlook
    exact ⟨_, hlook⟩
  · cases h

/-- A tree under a package gives the units that it gives on its own, under the package, and the package itself. -/
theorem collect_under (h : collect fs host optimize namespaces ⟨directory, some package⟩ = .ok units) :
    ∃ plain, collect fs host optimize namespaces ⟨directory, none⟩ = .ok plain ∧
      (∀ v ∈ plain, unitUnder package v ∈ units) ∧
      ∀ u ∈ units, (∃ v ∈ plain, u = unitUnder package v) ∨ u.name = package ∧ u.isPackage = true := by
  obtain ⟨tree, hroot⟩ := exists_tree h
  obtain ⟨hdir, found, hfound, rfl⟩ := (collect_eq_ok hroot).mp h
  obtain ⟨plain, hplain, hunits⟩ := units_under hfound
  exact ⟨plain.flatten, (collect_eq_ok hroot).mpr ⟨hdir, plain, hplain, rfl⟩, hunits⟩

/-! ## The package itself -/

theorem holdsSource_of_unit (hroot : fs.look directory = .ok tree)
    (h : collect fs host optimize namespaces ⟨directory, none⟩ = .ok units) (hu : u ∈ units) :
    holdsSource tree = true := by
  obtain ⟨names, n, hn, hbecomes⟩ := exists_node hroot h hu
  cases hbecomes with
  | namespacePackage _ _ hfinding =>
      obtain ⟨-, -, -, -, hsource⟩ := finding_eq_namespacePackage hfinding
      exact holdsSource_of_append hn hsource
  | source hfinding _ =>
      obtain ⟨hdir, -, -, hat⟩ := finding_eq_source.mp hfinding
      refine holdsSource_iff.mpr ⟨names, n, hn, hdir, ?_⟩
      cases hat with
      | package components => simpa using endsWith_packageFile
      | module dirs base _ => simpa using endsWith_sourceSuffix base

/-- Where a tree gives a unit, the package that it goes under is one. -/
theorem exists_package_of_under (h : collect fs host optimize true ⟨directory, some package⟩ = .ok units)
    (hu : u ∈ units) : ∃ v ∈ units, v.name = package ∧ v.isPackage = true := by
  obtain ⟨plain, hplain, -, hfrom⟩ := collect_under h
  obtain ⟨v, hv, -⟩ | hself := hfrom u hu
  · obtain ⟨tree, hroot⟩ := exists_tree h
    have hsource := holdsSource_of_unit hroot hplain hv
    obtain ⟨hdir, found, hfound, rfl⟩ := (collect_eq_ok hroot).mp h
    have hgiven {names : List String} {n : FileNode} (hn : (names, n) ∈ visible tree)
        (hfinding : finding (package.splitOn ".") names n = .namespacePackage (package.splitOn ".") ∨
          finding (package.splitOn ".") names n = .source (package.splitOn ".") true) :
        ∃ v ∈ found.flatten, v.name = package ∧ v.isPackage = true := by
      obtain ⟨us, hus, hunits⟩ := (exists_of_forall₂ hfound).1 _ hn
      obtain ⟨hall, hne⟩ := unitsAt_package hunits hfinding
      obtain ⟨w, ws, rfl⟩ := List.exists_cons_of_ne_nil (hne rfl)
      exact ⟨w, List.mem_flatten_of_mem hus List.mem_cons_self, hall w List.mem_cons_self⟩
    cases hown : (tree.child? packageFile).any (!·.isDir) with
    | false =>
        refine hgiven (mem_visible.mpr ⟨FileNode.mem_walk_nil.mpr rfl, rfl⟩) (.inl ?_)
        rw [finding_top (components_ne_nil package) hdir, hown, hsource]
        rfl
    | true =>
        obtain ⟨s, hs, hfile⟩ := (Option.any_eq_true ..).mp hown
        exact hgiven (mem_visible_packageFile hs)
          (.inr (finding_topSource (components_ne_nil package) (by simpa using hfile)))
  · exact ⟨u, hu, hself⟩

/-! ## Packages of all names -/

/-- The components of a name are those in front of a dot and those behind it. -/
theorem splitOn_dot (p rest : String) : (p ++ "." ++ rest).splitOn "." = p.splitOn "." ++ rest.splitOn "." :=
  Text.splitOn_append p rest '.'

theorem isIdentifier_of_unit (hroot : fs.look directory = .ok tree)
    (h : collect fs host optimize namespaces ⟨directory, none⟩ = .ok units) (hu : u ∈ units) :
    ∀ c ∈ u.name.splitOn ".", isIdentifier c = true := by
  obtain ⟨names, n, -, hbecomes⟩ := exists_node hroot h hu
  obtain ⟨components, hname, hne, hids⟩ := hbecomes.exists_components
  rwa [hname, splitOn_dotted hne hids]

/-- Of a tree on its own there is a package for every name in front of a dot. -/
theorem exists_package_of_plain (h : collect fs host optimize true ⟨directory, none⟩ = .ok units) (hu : u ∈ units)
    {p rest : String} (hname : u.name = p ++ "." ++ rest) : ∃ v ∈ units, v.name = p ∧ v.isPackage = true := by
  obtain ⟨tree, hroot⟩ := exists_tree h
  have hids := isIdentifier_of_unit hroot h hu
  rw [hname, splitOn_dot] at hids
  have hdotted : u.name = dotted (p.splitOn "." ++ rest.splitOn ".") := by
    rw [hname, dotted_append (components_ne_nil p) (components_ne_nil rest), dotted_components, dotted_components]
  obtain ⟨v, hv, hvname, hpackage⟩ :=
    exists_package_of_name hroot h hu hdotted hids (components_ne_nil p) (components_ne_nil rest)
  exact ⟨v, hv, hvname.trans (dotted_components p), hpackage⟩

/-- The components of a unit's name begin with those of the package that the tree goes under. -/
theorem splitOn_of_under (h : collect fs host optimize namespaces ⟨directory, some package⟩ = .ok units)
    (hu : u ∈ units) :
    ∃ tail, u.name.splitOn "." = package.splitOn "." ++ tail := by
  obtain ⟨plain, -, -, hfrom⟩ := collect_under h
  obtain ⟨v, -, rfl⟩ | ⟨hname, -⟩ := hfrom u hu
  · exact ⟨_, splitOn_dot package v.name⟩
  · exact ⟨[], by rw [hname, List.append_nil]⟩

/-- No unit has the name of a package that encloses the one that the tree goes under. -/
theorem name_ne_of_encloses (h : collect fs host optimize namespaces ⟨directory, some package⟩ = .ok units)
    (hu : u ∈ units) {p more : String} (hencloses : package = p ++ "." ++ more) : u.name ≠ p := by
  rintro rfl
  obtain ⟨tail, htail⟩ := splitOn_of_under h hu
  rw [hencloses, splitOn_dot] at htail
  have hlength := congrArg List.length htail
  have hmore := List.length_pos_iff.mpr (components_ne_nil more)
  simp only [List.length_append] at hlength
  omega

/-- Of a tree under a package there is a package for every name in front of a dot that does not enclose that package. -/
theorem exists_package_of_under_name (h : collect fs host optimize true ⟨directory, some package⟩ = .ok units)
    (hu : u ∈ units) {p rest : String} (hname : u.name = p ++ "." ++ rest)
    (hno : ¬∃ more, package = p ++ "." ++ more) : ∃ v ∈ units, v.name = p ∧ v.isPackage = true := by
  obtain ⟨plain, hplain, hinto, hfrom⟩ := collect_under h
  obtain ⟨v, hv, rfl⟩ | ⟨hself, -⟩ := hfrom u hu
  · have hparts : package.splitOn "." ++ v.name.splitOn "." = p.splitOn "." ++ rest.splitOn "." := by
      rw [← splitOn_dot, ← splitOn_dot]
      exact congrArg (·.splitOn ".") hname
    obtain ⟨between, hp, hv'⟩ | ⟨between, hpackage, -⟩ := List.append_eq_append_iff.mp hparts <;>
      by_cases hbetween : between = []
    · rw [hbetween, List.append_nil] at hp
      rw [← dotted_components p, hp, dotted_components]
      exact exists_package_of_under h hu
    · have hvname : v.name = dotted between ++ "." ++ rest := by
        rw [← dotted_components v.name, hv', dotted_append hbetween (components_ne_nil rest), dotted_components]
      obtain ⟨w, hw, hwname, hwpackage⟩ := exists_package_of_plain hplain hv hvname
      refine ⟨unitUnder package w, hinto w hw, ?_, hwpackage⟩
      rw [unitUnder, hwname, ← dotted_components p, hp, dotted_append (components_ne_nil package) hbetween,
        dotted_components]
    · rw [hbetween, List.append_nil] at hpackage
      rw [← dotted_components p, ← hpackage, dotted_components]
      exact exists_package_of_under h hu
    · refine absurd ⟨dotted between, ?_⟩ hno
      rw [← dotted_components package, hpackage, dotted_append (components_ne_nil p) hbetween, dotted_components]
  · exact absurd ⟨rest, hself.symm.trans hname⟩ hno

end

/-! ## Names of enclosing packages -/

/-- A unit of a tree comes with a package for a name in front of one of its dots exactly if that name does not enclose
the package that the tree goes under. The same holds of what is found in a table of the units. -/
theorem exists_package_iff {σ : Type} {fs : FileSystem} {host : Host σ} {optimize : Nat} {root : SourceRoot}
    {units : List Table.CompiledUnit} {u : Table.CompiledUnit} {p rest : String}
    (h : collect fs host optimize true root = .ok units) (hu : u ∈ units) (hname : u.name = p ++ "." ++ rest) :
    ((∃ v ∈ units, v.name = p ∧ v.isPackage = true) ↔ ¬∃ more, root.package = some (p ++ "." ++ more)) ∧
      ∀ table, Table.Builder.build ⟨.packageFlag, units, []⟩ = .ok table →
        ((∃ code, table.view.find p = .found p code true) ↔ ¬∃ more, root.package = some (p ++ "." ++ more)) := by
  have hiff : (∃ v ∈ units, v.name = p ∧ v.isPackage = true) ↔ ¬∃ more, root.package = some (p ++ "." ++ more) := by
    obtain ⟨directory, _ | package⟩ := root
    · exact iff_of_true (exists_package_of_plain h hu hname) (by simp)
    · constructor
      · rintro ⟨v, hv, hvname, -⟩ ⟨more, hmore⟩
        exact name_ne_of_encloses h hv (Option.some.inj hmore) hvname
      · intro hno
        exact exists_package_of_under_name h hu hname fun ⟨more, hmore⟩ => hno ⟨more, congrArg some hmore⟩
  refine ⟨hiff, fun table hbuild => Iff.trans ?_ hiff⟩
  simp only [Table.find_eq_found_iff hbuild]
  constructor
  · rintro ⟨code, -, hv⟩
    exact ⟨_, hv, rfl, rfl⟩
  · rintro ⟨⟨name, code, isPackage⟩, hv, rfl, rfl⟩
    exact ⟨code, trivial, hv⟩

/-! ### A module that goes under a package -/

def moduleDir : FileNode := .dir [("x.py", .file (Bytes.ofString "y = 1\n"))]

def moduleFiles : FileSystem := ⟨.dir [("lib", moduleDir)], []⟩

def moduleCode : Script.Code := ⟨"lib/x.py", [.int 1], ["y"], [⟨.loadConst 0, 1⟩, ⟨.storeName 0, 1⟩]⟩

/-- The units of the module in a package. -/
def moduleUnits (package : String) : List Table.CompiledUnit :=
  [⟨package, [], true⟩, ⟨package ++ "." ++ "x", moduleCode.toBytes, false⟩]

theorem look_moduleFiles : moduleFiles.look ⟨"lib"⟩ = .ok moduleDir := by cbv

theorem visible_moduleDir :
    visible moduleDir = [([], moduleDir), (["x.py"], .file (Bytes.ofString "y = 1\n"))] := by cbv

theorem collect_module (package : String) :
    collect moduleFiles (Script.Session.host 0) 0 true ⟨⟨"lib"⟩, some package⟩ = .ok (moduleUnits package) := by
  refine (collect_eq_ok look_moduleFiles).mpr ⟨rfl, [[_], [_]], ?_, rfl⟩
  rw [visible_moduleDir]
  refine .cons ?dir (.cons ?module .nil)
  case dir =>
    have hlisted : moduleFiles.isDir ⟨"lib"⟩ = true := FileSystem.isDir_of_look look_moduleFiles rfl
    have hsource : holdsSource moduleDir = true := by cbv
    have hfinding : finding (package.splitOn ".") [] moduleDir = .namespacePackage (package.splitOn ".") := by
      rw [finding_top (components_ne_nil package) rfl, hsource]
      rfl
    simp [unitsAt, SourceRoot.components, hlisted, hfinding, dotted_components]
  case module =>
    have hat : SourceAt ["x.py"] ["x"] false := .module [] "x" (by decide)
    have hjoin : Path.join ⟨"lib"⟩ (slashed ["x.py"]) = ⟨"lib/x.py"⟩ := by cbv
    have hplain : unitsAt moduleFiles (Script.Session.host 0) 0 true ⟨⟨"lib"⟩, none⟩ ["x.py"]
        (.file (Bytes.ofString "y = 1\n")) = .ok [⟨dotted ["x"], moduleCode.toBytes, false⟩] :=
      unitsAt_source look_moduleFiles hat (by simp) (by decide) (by decide) (by rw [hjoin]; cbv) rfl
        (Utf8.decode?_ofString _) (by rw [hjoin]; rfl)
    rw [unitsAt_under (by simp) (by decide), hplain]
    rfl

/-- Under a package with one component the module comes with that package. -/
theorem exists_package_iff_module :
    SourceRoot.parse "lib=a" = .ok ⟨⟨"lib"⟩, some "a"⟩ ∧
      collect moduleFiles (Script.Session.host 0) 0 true ⟨⟨"lib"⟩, some "a"⟩ = .ok (moduleUnits "a") ∧
      ∃ v ∈ moduleUnits "a", v.name = "a" ∧ v.isPackage = true := by
  have hno : ¬∃ more, some "a" = some ("a" ++ "." ++ more) := by
    rintro ⟨more, hmore⟩
    have hlists := congrArg String.toList (Option.some.inj hmore)
    simp at hlists
  have hu : (⟨"a.x", moduleCode.toBytes, false⟩ : Table.CompiledUnit) ∈ moduleUnits "a" := by simp [moduleUnits]
  have hname : "a.x" = "a" ++ "." ++ "x" := rfl
  exact ⟨by cbv, collect_module "a", (exists_package_iff (collect_module "a") hu hname).1.mpr hno⟩

/-- Under a package below another there is none of the name of that other. -/
theorem collect_below :
    SourceRoot.parse "lib=a.b" = .ok ⟨⟨"lib"⟩, some "a.b"⟩ ∧
      collect moduleFiles (Script.Session.host 0) 0 true ⟨⟨"lib"⟩, some "a.b"⟩ = .ok (moduleUnits "a.b") ∧
      (∃ u ∈ moduleUnits "a.b", u.name = "a" ++ "." ++ "b.x") ∧ ¬∃ v ∈ moduleUnits "a.b", v.name = "a" := by
  refine ⟨by cbv, collect_module "a.b", ⟨_, List.mem_cons_of_mem _ List.mem_cons_self, rfl⟩, ?_⟩
  simp [moduleUnits]

end Launcher.Freeze
