import Launcher.Proofs.Freeze.Import

/-!
# What is frozen and what is found

The walk of a tree gives names to its files, and a search gives files to names. Both come to the same: a name that has
code in the table of the tree is the name of a source in its directory, compiled from that source, and a name without
code is the name of a package without a source.
-/

namespace Launcher.Freeze

open Script
open Table (isIdentifier)

theorem compile_ne_nil {fuel optimize : Nat} {text file : String} {code : Bytes}
    (h : (Session.host fuel).compile text file optimize = .ok code) : code ≠ [] := by
  have h : (compile { dropAsserts := 0 < optimize } file text).map Code.toBytes = .ok code := h
  cases hcompile : compile { dropAsserts := 0 < optimize } file text with
  | error e =>
      rw [hcompile] at h
      cases h
  | ok compiled =>
      rw [hcompile] at h
      cases h
      simp [Code.toBytes, Code.signature]

theorem any_isHidden_identifiers {components : List String} (hids : ∀ c ∈ components, isIdentifier c = true)
    (hcache : "__pycache__" ∉ components) : components.any isHidden = false := by
  rw [List.any_eq_false]
  intro c hc
  rw [isHidden_identifier (hids c hc) fun h => hcache (h ▸ hc)]
  exact Bool.false_ne_true

section

variable {fs : FileSystem} {config : Config} {root : Path} {tree : FileNode} {components : List String}
  {units : List Table.CompiledUnit} {fuel optimize : Nat} {namespaces : Bool} {magic : Bytes}

/-! ## From the directory to the tree -/

/-- A file in which a module is looked for is its source in the tree. -/
theorem exists_source_of_candidate (hroot : fs.look root = .ok tree) (hconfig : FindsSources config)
    (htree : SourcesOnly config tree) (hne : components ≠ []) (hids : ∀ c ∈ components, isIdentifier c = true)
    (hcache : "__pycache__" ∉ components) (hlast : components.getLast? ≠ some "__init__") {c : Finder.Candidate}
    (hc : c ∈ (Finder.ofConfig config {} [root] magic).candidates (slashed components))
    (hfile : fs.isFile (root.join c.file) = true) :
    ∃ names n isPackage, (names, n) ∈ visible tree ∧ finding [] names n = .source components isPackage := by
  have hshown := any_isHidden_identifiers hids hcache
  obtain ⟨suffix, hsuffix, hplace | ⟨dirs, base, rfl, hplace⟩⟩ := exists_suffix_of_candidate hne hc
  · rw [hplace] at hfile
    obtain ⟨n, hn, hdir⟩ :=
      exists_node_of_isFile hroot (by simp) (fileNames_initFile hids (hconfig.slash suffix hsuffix)) hfile
    obtain rfl := htree.suffix_eq hn hdir hsuffix
    have hinit : isHidden ("__init__" ++ sourceSuffix) = false := isHidden_source (by decide)
    exact ⟨_, n, true, mem_visible.mpr ⟨hn, by simpa [hshown] using hinit⟩,
      finding_eq_source.mpr ⟨hdir, hne, hids, .package components⟩⟩
  · rw [hplace] at hfile
    obtain ⟨n, hn, hdir⟩ :=
      exists_node_of_isFile hroot (by simp) (fileNames_moduleFile hids (hconfig.slash suffix hsuffix)) hfile
    obtain rfl := htree.suffix_eq hn hdir hsuffix
    rw [List.any_append, Bool.or_eq_false_iff] at hshown
    have hmodule : isHidden (base ++ sourceSuffix) = false := isHidden_source (hids base (by simp))
    have hother : base ++ sourceSuffix ≠ packageFile := fun h =>
      hlast (by simpa using (String.append_left_inj ".py").mp h)
    exact ⟨_, n, false, mem_visible.mpr ⟨hn, by simpa [hshown.1] using hmodule⟩,
      finding_eq_source.mpr ⟨hdir, hne, hids, .module dirs base hother⟩⟩

theorem exists_candidate_of_find (hdir : fs.isDir root = true) (hne : components ≠ [])
    (hids : ∀ c ∈ components, isIdentifier c = true) {origin text : String} {isPackage : Bool}
    (h : (Finder.ofConfig config {} [root] magic).find fs (dotted components) =
      .ok ⟨dotted components, origin, isPackage, .source text⟩) :
    ∃ c ∈ (Finder.ofConfig config {} [root] magic).candidates (slashed components),
      fs.isFile (root.join c.file) = true := by
  rw [find_dotted_eq_search hne hids] at h
  cases hfirst : ((Finder.ofConfig config {} [root] magic).candidates (slashed components)).find?
      (fun c => fs.isFile (root.join c.file)) with
  | none =>
      rw [search_directory_none hdir hfirst] at h
      split at h <;> cases h
  | some c => exact ⟨c, List.mem_of_find?_eq_some hfirst, by simpa using List.find?_some hfirst⟩

/-! ## Names in the table and in the directory -/

variable {encoding : Table.Encoding} {blocked : List String} {table : Table.BuiltTable}
  (hroot : fs.look root = .ok tree) (hconfig : FindsSources config) (htree : SourcesOnly config tree)
  (hcollect : collect fs (Session.host fuel) optimize namespaces ⟨root, none⟩ = .ok units)
  (hbuild : Table.Builder.build ⟨encoding, units, blocked⟩ = .ok table)
  (hids : ∀ c ∈ components, isIdentifier c = true) (hcache : "__pycache__" ∉ components)

include hroot hcollect hbuild

theorem exists_node_of_found {name : String} {code : Bytes} {isPackage : Bool}
    (hfound : table.view.find name = .found name code isPackage) :
    ∃ names n u, (names, n) ∈ visible tree ∧ Becomes fs (Session.host fuel) optimize namespaces root names n u ∧
      u.name = name ∧ u.code = code ∧ u.isPackage = isPackage := by
  obtain ⟨names, n, hn, hbecomes⟩ := exists_node hroot hcollect ((Table.find_eq_found_iff hbuild).mp hfound).2
  exact ⟨names, n, _, hn, hbecomes, rfl, rfl, rfl⟩

include hids

/-- What is in the table with code comes of a source of the tree. -/
theorem exists_source_of_found (hne : components ≠ []) {code : Bytes} {isPackage : Bool}
    (hfound : table.view.find (dotted components) = .found (dotted components) code isPackage) (hcode : code ≠ []) :
    ∃ names n, (names, n) ∈ visible tree ∧ finding [] names n = .source components isPackage := by
  obtain ⟨names, n, u, hn, hbecomes, hname, rfl, rfl⟩ := exists_node_of_found hroot hcollect hbuild hfound
  cases hbecomes with
  | namespacePackage => exact absurd rfl hcode
  | source hfinding hcompile =>
      obtain ⟨-, hothers, hotherIds, -⟩ := finding_eq_source.mp hfinding
      obtain ⟨hother, hpackage, -⟩ := compileFile_eq_ok.mp hcompile
      obtain rfl := dotted_inj hne hids hothers hotherIds (hname.symm.trans hother)
      exact ⟨names, n, hn, hpackage ▸ hfinding⟩

include hconfig htree

/-- What is in the table without code is a package without code in the directory. -/
theorem find_empty (hne : components ≠ []) (hlast : components.getLast? ≠ some "__init__") {isPackage : Bool}
    (hfound : table.view.find (dotted components) = .found (dotted components) [] isPackage) (magic : Bytes) :
    isPackage = true ∧ ∃ origin, (Finder.ofConfig config {} [root] magic).find fs (dotted components) =
      .ok ⟨dotted components, origin, true, .namespacePackage⟩ := by
  obtain ⟨names, n, u, hn, hbecomes, hname, hcode, rfl⟩ := exists_node_of_found hroot hcollect hbuild hfound
  cases hbecomes with
  | source hfinding hcompile =>
      obtain ⟨-, -, content, text, -, -, hcompiled⟩ := compileFile_eq_ok.mp hcompile
      exact absurd hcode (compile_ne_nil hcompiled)
  | @namespacePackage others hwanted hlisted hfinding =>
      obtain ⟨-, rfl, hothers, hotherIds, -⟩ := finding_eq_namespacePackage hfinding
      obtain rfl := dotted_inj hne hids hothers hotherIds hname.symm
      have hnames : ∀ s ∈ components, FileName s := fun s hs => fileName_of_isIdentifier (hids s hs)
      have hpackage : fs.isDir (root.join (slashed components)) = true := by rwa [← Path.foldl_join hne hnames]
      exact ⟨rfl, _, find_namespacePackage hroot hconfig htree hcollect (Table.nodup_of_build hbuild) hn
        (.namespacePackage hwanted hlisted hfinding) hfinding hlast hpackage magic⟩

include hcache

/-- A source of the tree is in the table with its code, and in the directory with its text. -/
theorem find_visible_source {names : List String} {n : FileNode} {isPackage : Bool} (hn : (names, n) ∈ visible tree)
    (hfinding : finding [] names n = .source components isPackage) (magic : Bytes) :
    ∃ code origin text, code ≠ [] ∧
      table.view.find (dotted components) = .found (dotted components) code isPackage ∧
      (Finder.ofConfig config {} [root] magic).find fs (dotted components) =
        .ok ⟨dotted components, origin, isPackage, .source text⟩ ∧
      (Session.host fuel).compile text origin optimize = .ok code := by
  have hexposed : Exposed tree components := fun _ _ => any_isHidden_identifiers hids hcache
  obtain ⟨u, hu, hbecomes⟩ := exists_unit hroot hcollect hn (.source hfinding)
  cases hbecomes with
  | namespacePackage _ _ hother =>
      rw [hfinding] at hother
      cases hother
  | source hother hcompile =>
      obtain ⟨rfl, rfl⟩ := Finding.source.inj (hother.symm.trans hfinding)
      obtain ⟨hname, hpackage, -⟩ := compileFile_eq_ok.mp hcompile
      obtain ⟨_, text, _, -, -, hcode, hfind⟩ :=
        find_source hroot hconfig htree hcollect (Table.nodup_of_build hbuild) hn hother hcompile hexposed magic
      rw [hname] at hfind
      exact ⟨u.code, _, text, compile_ne_nil hcode,
        (Table.find_eq_found_iff hbuild).mpr ⟨rfl, by rwa [← hname, ← hpackage]⟩, hfind, hcode⟩

/-- A name has code in the table of a tree exactly if it is found as source text in the directory of the tree, and
then the code is compiled from that text. A name without code is found as a package without code. -/
theorem find_collected (hne : components ≠ []) (hlast : components.getLast? ≠ some "__init__") (magic : Bytes) :
    let frozen := table.view.find (dotted components)
    let direct := (Finder.ofConfig config {} [root] magic).find fs (dotted components)
    ((∃ code isPackage, frozen = .found (dotted components) code isPackage ∧ code ≠ []) ↔
        ∃ origin isPackage text, direct = .ok ⟨dotted components, origin, isPackage, .source text⟩) ∧
      (∀ code isPackage origin isPackage' text, frozen = .found (dotted components) code isPackage → code ≠ [] →
        direct = .ok ⟨dotted components, origin, isPackage', .source text⟩ →
          isPackage = isPackage' ∧ (Session.host fuel).compile text origin optimize = .ok code) ∧
      ∀ isPackage, frozen = .found (dotted components) [] isPackage →
        isPackage = true ∧ ∃ origin, direct = .ok ⟨dotted components, origin, true, .namespacePackage⟩ := by
  intro frozen direct
  have hboth {names : List String} {n : FileNode} {isPackage : Bool} (hn : (names, n) ∈ visible tree)
      (hfinding : finding [] names n = .source components isPackage) :=
    find_visible_source hroot hconfig htree hcollect hbuild hids hcache hn hfinding magic
  refine ⟨⟨?found, ?located⟩, ?same, fun isPackage hfound =>
    find_empty hroot hconfig htree hcollect hbuild hids hne hlast hfound magic⟩
  case found =>
    rintro ⟨code, isPackage, hfound, hcode⟩
    obtain ⟨names, n, hn, hfinding⟩ :=
      exists_source_of_found hroot hcollect hbuild hids hne hfound hcode
    obtain ⟨_, origin, text, -, -, hdirect, -⟩ := hboth hn hfinding
    exact ⟨origin, isPackage, text, hdirect⟩
  case located =>
    rintro ⟨origin, isPackage, text, hdirect⟩
    have hdir : fs.isDir root = true := FileSystem.isDir_of_look hroot ((collect_eq_ok hroot).mp hcollect).1
    obtain ⟨c, hc, hfile⟩ := exists_candidate_of_find hdir hne hids hdirect
    obtain ⟨names, n, isPackage, hn, hfinding⟩ :=
      exists_source_of_candidate hroot hconfig htree hne hids hcache hlast hc hfile
    obtain ⟨code, _, _, hcode, hfrozen, -⟩ := hboth hn hfinding
    exact ⟨code, isPackage, hfrozen, hcode⟩
  case same =>
    intro code isPackage origin isPackage' text hfound hcode hdirect
    obtain ⟨names, n, hn, hfinding⟩ :=
      exists_source_of_found hroot hcollect hbuild hids hne hfound hcode
    obtain ⟨code', origin', text', -, hfrozen, hfind, hcompile⟩ := hboth hn hfinding
    obtain ⟨-, rfl, -⟩ := Table.Lookup.found.inj (hfrozen.symm.trans hfound)
    obtain ⟨-, rfl, rfl, htext⟩ := LocatedModule.mk.inj (Except.ok.inj (hfind.symm.trans hdirect))
    obtain rfl := ModuleCode.source.inj htext
    exact ⟨rfl, hcompile⟩

end

/-- The module in the package with code, and the package without code. -/
theorem find_collected_packages :
    let finder := Finder.ofConfig {} {} [⟨"src"⟩] []
    collect packageFiles (Session.host 0) 0 true ⟨⟨"src"⟩, none⟩ = .ok packageUnits ∧
      Table.Builder.build ⟨.packageFlag, packageUnits, []⟩ = .ok packageTable ∧
      (∃ code origin text, packageTable.view.find (dotted ["p", "b"]) = .found (dotted ["p", "b"]) code false ∧
        finder.find packageFiles (dotted ["p", "b"]) = .ok ⟨dotted ["p", "b"], origin, false, .source text⟩ ∧
        (Session.host 0).compile text origin 0 = .ok code) ∧
      packageTable.view.find (dotted ["n"]) = .found (dotted ["n"]) [] true ∧
      ∃ origin, finder.find packageFiles (dotted ["n"]) = .ok ⟨dotted ["n"], origin, true, .namespacePackage⟩ := by
  intro finder
  have hmodule := @find_collected _ _ _ _ ["p", "b"] _ _ _ _ _ _ _ look_packages findsSources_default
    sourceTree_packages.sourcesOnly collect_packages build_packages (by decide) (by decide) (by decide) (by decide) []
  have hpackage := @find_collected _ _ _ _ ["n"] _ _ _ _ _ _ _ look_packages findsSources_default
    sourceTree_packages.sourcesOnly collect_packages build_packages (by decide) (by decide) (by decide) (by decide) []
  have hfound : packageTable.view.find (dotted ["p", "b"]) =
      .found (dotted ["p", "b"]) (assignment "src/p/b.py" "y" 2).toBytes false :=
    (Table.find_eq_found_iff build_packages).mpr ⟨rfl, by
      have hname : dotted ["p", "b"] = "p.b" := by cbv
      rw [hname]
      simp [packageUnits]⟩
  have hcode : (assignment "src/p/b.py" "y" 2).toBytes ≠ [] := by simp [Code.toBytes, Code.signature]
  obtain ⟨origin, isPackage, text, hdirect⟩ := hmodule.1.mp ⟨_, _, hfound, hcode⟩
  obtain ⟨rfl, hcompile⟩ := hmodule.2.1 _ _ _ _ _ hfound hcode hdirect
  have hempty : packageTable.view.find (dotted ["n"]) = .found (dotted ["n"]) [] true :=
    (Table.find_eq_found_iff build_packages).mpr ⟨rfl, by simp [packageUnits, dotted]⟩
  exact ⟨collect_packages, build_packages, ⟨_, origin, text, hfound, hdirect, hcompile⟩, hempty,
    (hpackage.2.2 true hempty).2⟩

end Launcher.Freeze
