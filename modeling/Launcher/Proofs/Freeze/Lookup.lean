import Launcher.Proofs.Freeze.Collect
import Launcher.Proofs.Search.Shelves
import Launcher.Proofs.Table.Lookup

/-!
# Where the units of a tree are found

A unit with code that comes of a tree of sources is found in the directory of the tree as the text that it was
compiled from. In the table that is built of the units each is found with its code.
-/

namespace Launcher.Freeze

open Table (isIdentifier isUnitName)

/-! ## Trees of sources -/

/-- The ends of the names of files in which a module is looked for. -/
def moduleSuffixes (config : Config) : List String := config.sourceSuffixes ++ config.bytecodeSuffixes

/-- Sources are looked for, and no file is that has a slash behind the name of its module. -/
structure FindsSources (config : Config) : Prop where
  source : sourceSuffix ∈ config.sourceSuffixes
  slash : ∀ suffix ∈ moduleSuffixes config, '/' ∉ suffix.toList

theorem findsSources_default : FindsSources {} := ⟨by decide, by decide⟩

/-- Of the files in which a module could be looked for, there are only sources in the tree. -/
def SourcesOnly (config : Config) (tree : FileNode) : Prop :=
  ∀ names n, (names, n) ∈ tree.walk → n.isDir = false → ∀ suffix ∈ moduleSuffixes config,
    names.getLast?.any (·.endsWith suffix) = true → suffix = sourceSuffix

/-- There is nothing in the tree but directories and sources, and nothing hidden. -/
structure SourceTree (tree : FileNode) : Prop where
  shown : ∀ names n, (names, n) ∈ tree.walk → names.any isHidden = false
  source : ∀ names n, (names, n) ∈ tree.walk → n.isDir = false →
    names.getLast?.any (·.endsWith sourceSuffix) = true

/-- The source of a package with these components would not be hidden. -/
def Exposed (tree : FileNode) (components : List String) : Prop :=
  ∀ m, (components ++ [packageFile], m) ∈ tree.walk → components.any isHidden = false

section

variable {config : Config} {tree n : FileNode} {dirs : List String} {base suffix : String}

theorem SourcesOnly.suffix_eq (h : SourcesOnly config tree) (hn : (dirs ++ [base ++ suffix], n) ∈ tree.walk)
    (hfile : n.isDir = false) (hsuffix : suffix ∈ moduleSuffixes config) : suffix = sourceSuffix :=
  h _ n hn hfile suffix hsuffix (by simpa using Text.endsWith_append base suffix)

theorem SourceTree.sourcesOnly (h : SourceTree tree) : SourcesOnly {} tree := by
  intro names n hn hfile suffix hsuffix hends
  obtain ⟨file, hlast, hends⟩ := (Option.any_eq_true ..).mp hends
  have hsource : file.endsWith sourceSuffix = true := by simpa [hlast] using h.source names n hn hfile
  have hlength : ∀ suffix ∈ moduleSuffixes {}, sourceSuffix.toList.length ≤ suffix.toList.length := by decide
  have hall : ∀ suffix ∈ moduleSuffixes {}, sourceSuffix.toList <:+ suffix.toList → suffix = sourceSuffix := by decide
  exact hall suffix hsuffix
    (List.suffix_of_suffix_length_le (Text.endsWith_iff.mp hsource) (Text.endsWith_iff.mp hends)
      (hlength suffix hsuffix))

theorem SourceTree.exposed (h : SourceTree tree) (components : List String) : Exposed tree components := by
  intro m hm
  have hshown := h.shown _ m hm
  rw [List.any_append, Bool.or_eq_false_iff] at hshown
  exact hshown.1

end

/-! ### What is not hidden -/

theorem startsWith_dot {s : String} (h : FileName s) : s.startsWith "." = false := by
  obtain ⟨c, cs, hs, hc⟩ := h.head
  simp [hs, Ne.symm hc]

theorem isHidden_fileName {s : String} (h : FileName s) (hcache : s ≠ "__pycache__") : isHidden s = false := by
  rw [isHidden, startsWith_dot h, Bool.false_or]
  simpa using hcache

theorem isHidden_identifier {s : String} (h : isIdentifier s = true) (hcache : s ≠ "__pycache__") :
    isHidden s = false :=
  isHidden_fileName (fileName_of_isIdentifier h) hcache

theorem isHidden_source {base : String} (h : isIdentifier base = true) : isHidden (base ++ sourceSuffix) = false := by
  have hcache : base ++ sourceSuffix ≠ "__pycache__" := by
    intro heq
    have hmem : '.' ∈ (base ++ sourceSuffix).toList := by
      rw [String.toList_append]
      exact List.mem_append_right _ (by decide)
    rw [heq] at hmem
    exact absurd hmem (by decide)
  exact isHidden_fileName ((fileName_of_isIdentifier h).append (by decide)) hcache

/-! ## Files behind the path of a directory -/

theorem fileNames_initFile {components : List String} {suffix : String}
    (hids : ∀ c ∈ components, isIdentifier c = true) (hslash : '/' ∉ suffix.toList) :
    ∀ s ∈ components ++ ["__init__" ++ suffix], FileName s := by
  have hinit : FileName ("__init__" ++ suffix) := (fileName_of_isIdentifier (by decide)).append hslash
  exact List.forall_mem_append.mpr ⟨fun c hc => fileName_of_isIdentifier (hids c hc), by simpa using hinit⟩

theorem fileNames_moduleFile {dirs : List String} {base suffix : String}
    (hids : ∀ c ∈ dirs ++ [base], isIdentifier c = true) (hslash : '/' ∉ suffix.toList) :
    ∀ s ∈ dirs ++ [base ++ suffix], FileName s := by
  obtain ⟨hdirs, hlast⟩ := List.forall_mem_append.mp hids
  have hbase : FileName (base ++ suffix) := (fileName_of_isIdentifier (hlast base (by simp))).append hslash
  exact List.forall_mem_append.mpr ⟨fun c hc => fileName_of_isIdentifier (hdirs c hc), by simpa using hbase⟩

/-- The names to a source can be put behind the path of a directory. -/
theorem SourceAt.fileNames {names components : List String} {isPackage : Bool}
    (h : SourceAt names components isPackage) (hids : ∀ c ∈ components, isIdentifier c = true) :
    names ≠ [] ∧ ∀ s ∈ names, FileName s := by
  cases h with
  | package components => exact ⟨by simp, @fileNames_initFile _ ".py" hids (by decide)⟩
  | module dirs base hbase => exact ⟨by simp, fileNames_moduleFile hids (by decide)⟩

section

variable {fs : FileSystem} {root : Path} {tree : FileNode} {names : List String}

theorem exists_node_of_isFile (hroot : fs.look root = .ok tree) (hne : names ≠ [])
    (hnames : ∀ s ∈ names, FileName s) (h : fs.isFile (root.join (slashed names)) = true) :
    ∃ n, (names, n) ∈ tree.walk ∧ n.isDir = false := by
  obtain ⟨content, executable, hlook⟩ := FileSystem.isFile_iff.mp h
  exact ⟨_, FileNode.mem_walk_of_at? (FileSystem.at?_of_look hroot hne hnames hlook), rfl⟩

/-- No file is found where the tree has none. -/
theorem isFile_eq_false (hroot : fs.look root = .ok tree) (hne : names ≠ []) (hnames : ∀ s ∈ names, FileName s)
    (h : ∀ n, (names, n) ∈ tree.walk → n.isDir = true) : fs.isFile (root.join (slashed names)) = false := by
  rw [Bool.eq_false_iff]
  intro hfile
  obtain ⟨n, hn, hdir⟩ := exists_node_of_isFile hroot hne hnames hfile
  rw [h n hn] at hdir
  cases hdir

theorem look_of_read {p : Path} {content : Bytes} (h : fs.read p = .ok content) :
    ∃ executable, fs.look p = .ok (.file content executable) := by
  obtain ⟨n, hn, h⟩ := except_bind_eq_ok.mp h
  cases n with
  | dir children => cases h
  | file content' executable =>
      cases h
      exact ⟨executable, hn⟩

theorem read_of_look {p : Path} {content : Bytes} {executable : Bool}
    (h : fs.look p = .ok (.file content executable)) : fs.read p = .ok content :=
  except_bind_eq_ok.mpr ⟨_, h, rfl⟩

theorem isFile_of_read {p : Path} {content : Bytes} (h : fs.read p = .ok content) : fs.isFile p = true :=
  FileSystem.isFile_iff.mpr ⟨content, look_of_read h⟩

end

theorem isDir_root {fs : FileSystem} {root : Path} {tree n : FileNode} {names : List String}
    (hroot : fs.look root = .ok tree) (hne : names ≠ []) (hn : (names, n) ∈ visible tree) : fs.isDir root = true := by
  obtain ⟨x, rest, rfl⟩ := List.exists_cons_of_ne_nil hne
  exact FileSystem.isDir_of_look hroot (FileNode.isDir_of_mem_walk (mem_visible.mp hn).1)

/-! ## The search in a directory -/

theorem slashed_initFile {components : List String} (hne : components ≠ []) (suffix : String) :
    slashed components ++ "/__init__" ++ suffix = slashed (components ++ ["__init__" ++ suffix]) := by
  have hslash : "/__init__" = "/" ++ "__init__" := by decide
  rw [slashed_append hne (by simp), slashed_singleton, hslash]
  simp only [String.append_assoc]

section

variable {fs : FileSystem} {root : Path} {f : Finder} {name relative text : String} {c : Finder.Candidate}
  {content : Bytes}

theorem search_directory (hdir : fs.isDir root = true)
    (hc : (f.candidates relative).find? (fun c => fs.isFile (root.join c.file)) = some c)
    (hread : fs.read (root.join c.file) = .ok content) (hcompiled : c.compiled = false)
    (htext : Utf8.decode? content = some text) :
    f.search fs name relative none [root] = .ok ⟨name, (root.join c.file).text, c.isPackage, .source text⟩ := by
  have hfind : (f.candidates relative).find? ((Finder.directoryShelf fs root).hasFile ·.file) = some c := hc
  have hcontent : (Finder.directoryShelf fs root).read c.file = .ok content := hread
  have hdecode : Utf8.decode content = .ok text := by rw [Utf8.decode, htext]
  have hshelved : f.onShelf name relative (Finder.directoryShelf fs root) =
      .ok (some ⟨name, (root.join c.file).text, c.isPackage, .source text⟩) := by
    simp only [Finder.onShelf, hfind, hcontent, Finder.located, hcompiled, hdecode]
    rfl
  rw [Finder.search_of_shelf (Finder.shelf?_directory hdir), hshelved]
  rfl

/-- Where no file could hold the module, there is at most a package without code. -/
theorem search_directory_none (hdir : fs.isDir root = true)
    (hc : (f.candidates relative).find? (fun c => fs.isFile (root.join c.file)) = none) :
    f.search fs name relative none [root] =
      if fs.isDir (root.join relative) then .ok ⟨name, (root.join relative).text, true, .namespacePackage⟩
      else .error (.notFound name) := by
  have hfind : (f.candidates relative).find? ((Finder.directoryShelf fs root).hasFile ·.file) = none := hc
  have hempty : f.onShelf name relative (Finder.directoryShelf fs root) = .ok none := by
    simp only [Finder.onShelf, hfind]
  rw [Finder.search_of_shelf (Finder.shelf?_directory hdir), hempty]
  cases hpackage : fs.isDir (root.join relative) with
  | true =>
      have hthere : (Finder.directoryShelf fs root).hasDir relative = true := hpackage
      simp only [Finder.afterShelf, hthere]
      rfl
  | false =>
      have hthere : (Finder.directoryShelf fs root).hasDir relative = false := hpackage
      simp only [Finder.afterShelf, hthere]
      rfl

/-- A name that the table does not know is looked for in the search path, if none of its components is empty. -/
theorem find_eq_search_of_ne_empty {searchPath : List Path} (hname : ∀ s ∈ name.splitOn ".", s ≠ "")
    (htable : f.table.find name = .notFound) :
    Finder.find { f with searchPath } fs name = f.search fs name (slashed (name.splitOn ".")) none searchPath := by
  have hempty : (name.splitOn ".").any (·.isEmpty) = false := by simpa using hname
  simp only [Finder.find, htable, hempty, Finder.search_searchPath]
  rfl

theorem find_eq_search {searchPath : List Path} (hname : isUnitName name = true)
    (htable : f.table.find name = .notFound) :
    Finder.find { f with searchPath } fs name = f.search fs name (slashed (name.splitOn ".")) none searchPath :=
  find_eq_search_of_ne_empty (fun s hs => (fileName_of_isIdentifier (List.all_eq_true.mp hname s hs)).ne_empty) htable

theorem find_dotted_eq_search {components : List String} (hne : components ≠ [])
    (hids : ∀ c ∈ components, isIdentifier c = true) {config : Config} {magic : Bytes} :
    (Finder.ofConfig config {} [root] magic).find fs (dotted components) =
      (Finder.ofConfig config {} [root] magic).search fs (dotted components) (slashed components) none [root] := by
  have hsplit := splitOn_dotted hne hids
  have hname : isUnitName (dotted components) = true := by
    rw [isUnitName, hsplit]
    exact List.all_eq_true.mpr hids
  have hsearch := @find_eq_search fs (Finder.ofConfig config {} [root] magic) _ [root] hname rfl
  rwa [hsplit] at hsearch

end

section

variable {fs : FileSystem} {root : Path} {config : Config} {components : List String}

/-- The files that could hold a module, those in the place of a package of its name first. -/
theorem candidates_eq (hne : components ≠ []) (magic : Bytes) :
    (Finder.ofConfig config {} [root] magic).candidates (slashed components) =
      (config.sourceSuffixes.map fun s => ⟨slashed (components ++ ["__init__" ++ s]), true, false⟩) ++
        (config.bytecodeSuffixes.map fun s => ⟨slashed (components ++ ["__init__" ++ s]), true, true⟩) ++
        ((config.sourceSuffixes.map fun s => ⟨slashed components ++ s, false, false⟩) ++
          config.bytecodeSuffixes.map fun s => ⟨slashed components ++ s, false, true⟩) := by
  simp only [Finder.candidates, Finder.ofConfig, slashed_initFile hne]

/-- A file in which a module is looked for is the source of a package or of a module but for its suffix. -/
theorem exists_suffix_of_candidate {f : Finder} (hne : components ≠ []) {c : Finder.Candidate}
    (hc : c ∈ f.candidates (slashed components)) :
    ∃ suffix ∈ f.sourceSuffixes ++ f.bytecodeSuffixes,
      c.file = slashed (components ++ ["__init__" ++ suffix]) ∨
        ∃ dirs base, components = dirs ++ [base] ∧ c.file = slashed (dirs ++ [base ++ suffix]) := by
  have hfile : ∃ suffix ∈ f.sourceSuffixes ++ f.bytecodeSuffixes,
      c.file = slashed components ++ "/__init__" ++ suffix ∨ c.file = slashed components ++ suffix := by
    simp only [Finder.candidates, List.mem_append, List.mem_map] at hc
    rcases hc with (⟨s, hs, rfl⟩ | ⟨s, hs, rfl⟩) | ⟨s, hs, rfl⟩ | ⟨s, hs, rfl⟩
    · exact ⟨s, List.mem_append_left _ hs, .inl rfl⟩
    · exact ⟨s, List.mem_append_right _ hs, .inl rfl⟩
    · exact ⟨s, List.mem_append_left _ hs, .inr rfl⟩
    · exact ⟨s, List.mem_append_right _ hs, .inr rfl⟩
  obtain ⟨suffix, hsuffix, hfile | hfile⟩ := hfile
  · exact ⟨suffix, hsuffix, .inl (hfile.trans (slashed_initFile hne suffix))⟩
  · obtain ⟨dirs, base, rfl⟩ := (List.eq_nil_or_concat' components).resolve_left hne
    exact ⟨suffix, hsuffix, .inr ⟨dirs, base, rfl, hfile.trans (slashed_concat_append dirs base suffix)⟩⟩

theorem find?_map_eq_none {suffixes : List String} {place : String → String} {isPackage compiled : Bool}
    (h : ∀ s ∈ suffixes, fs.isFile (root.join (place s)) = false) :
    (suffixes.map fun s => (⟨place s, isPackage, compiled⟩ : Finder.Candidate)).find?
      (fun c => fs.isFile (root.join c.file)) = none := by
  simpa using h

/-- If only the source is there, it is the first file. -/
theorem find?_map_source {suffixes : List String} {place : String → String} {isPackage : Bool}
    (hsource : sourceSuffix ∈ suffixes) (hfile : fs.isFile (root.join (place sourceSuffix)) = true)
    (honly : ∀ s ∈ suffixes, fs.isFile (root.join (place s)) = true → s = sourceSuffix) :
    (suffixes.map fun s => (⟨place s, isPackage, false⟩ : Finder.Candidate)).find?
      (fun c => fs.isFile (root.join c.file)) = some ⟨place sourceSuffix, isPackage, false⟩ := by
  rw [List.find?_map]
  cases hfind : suffixes.find? ((fun c => fs.isFile (root.join c.file)) ∘
      fun s => (⟨place s, isPackage, false⟩ : Finder.Candidate)) with
  | none => exact absurd hfile (List.find?_eq_none.mp hfind _ hsource)
  | some s =>
      have hthere : fs.isFile (root.join (place s)) = true := by simpa using List.find?_some hfind
      rw [honly s (List.mem_of_find?_eq_some hfind) hthere]
      rfl

/-- The source is the first file that could hold its module, if none is in the place of a package of its name. -/
theorem find?_candidates {tree : FileNode} (hroot : fs.look root = .ok tree) (hconfig : FindsSources config)
    (htree : SourcesOnly config tree) {names : List String} {isPackage : Bool} (hne : components ≠ [])
    (hids : ∀ c ∈ components, isIdentifier c = true) (hat : SourceAt names components isPackage)
    (hfile : fs.isFile (root.join (slashed names)) = true)
    (habsent : isPackage = false → ∀ suffix ∈ moduleSuffixes config,
      fs.isFile (root.join (slashed (components ++ ["__init__" ++ suffix]))) = false) (magic : Bytes) :
    ((Finder.ofConfig config {} [root] magic).candidates (slashed components)).find?
      (fun c => fs.isFile (root.join c.file)) = some ⟨slashed names, isPackage, false⟩ := by
  have hleft : ∀ s ∈ config.sourceSuffixes, s ∈ moduleSuffixes config := fun s => List.mem_append_left _
  have hright : ∀ s ∈ config.bytecodeSuffixes, s ∈ moduleSuffixes config := fun s => List.mem_append_right _
  have honly : ∀ {dirs : List String} {base : String}, ∀ s ∈ config.sourceSuffixes,
      (∀ t ∈ dirs ++ [base ++ s], FileName t) → fs.isFile (root.join (slashed (dirs ++ [base ++ s]))) = true →
        s = sourceSuffix := by
    intro dirs base s hs hnames hthere
    obtain ⟨n, hn, hdir⟩ := exists_node_of_isFile hroot (by simp) hnames hthere
    exact htree.suffix_eq hn hdir (hleft s hs)
  rw [candidates_eq hne, List.find?_append, List.find?_append, List.find?_append]
  cases hat with
  | package =>
      have hinit := @find?_map_source fs root _ (fun s => slashed (components ++ ["__init__" ++ s])) true hconfig.source
        hfile fun s hs => honly s hs (fileNames_initFile hids (hconfig.slash s (hleft s hs)))
      rw [hinit]
      rfl
  | module dirs base hbase =>
      have habsent := habsent rfl
      have hmodule : ∀ s, slashed (dirs ++ [base]) ++ s = slashed (dirs ++ [base ++ s]) :=
        slashed_concat_append dirs base
      have hfirst := @find?_map_source fs root _ (fun s => slashed (dirs ++ [base ++ s])) false hconfig.source hfile
        fun s hs => honly s hs (fileNames_moduleFile hids (hconfig.slash s (hleft s hs)))
      rw [find?_map_eq_none fun s hs => habsent s (hleft s hs), find?_map_eq_none fun s hs => habsent s (hright s hs)]
      simp only [hmodule, hfirst]
      rfl

theorem find?_candidates_eq_none (hne : components ≠ [])
    (hinit : ∀ suffix ∈ moduleSuffixes config,
      fs.isFile (root.join (slashed (components ++ ["__init__" ++ suffix]))) = false)
    (hmodule : ∀ suffix ∈ moduleSuffixes config, fs.isFile (root.join (slashed components ++ suffix)) = false)
    (magic : Bytes) :
    ((Finder.ofConfig config {} [root] magic).candidates (slashed components)).find?
      (fun c => fs.isFile (root.join c.file)) = none := by
  have hleft : ∀ s ∈ config.sourceSuffixes, s ∈ moduleSuffixes config := fun s => List.mem_append_left _
  have hright : ∀ s ∈ config.bytecodeSuffixes, s ∈ moduleSuffixes config := fun s => List.mem_append_right _
  rw [candidates_eq hne, List.find?_append, List.find?_append, List.find?_append,
    find?_map_eq_none fun s hs => hinit s (hleft s hs), find?_map_eq_none fun s hs => hinit s (hright s hs),
    find?_map_eq_none fun s hs => hmodule s (hleft s hs), find?_map_eq_none fun s hs => hmodule s (hright s hs)]
  rfl

end

section

variable {σ : Type} {fs : FileSystem} {host : Host σ} {optimize : Nat} {namespaces : Bool} {root : Path}
  {config : Config} {tree n m : FileNode} {units : List Table.CompiledUnit} {u : Table.CompiledUnit}
  {names others components : List String} {isPackage : Bool}

/-- A source with text that compiles becomes a unit. -/
theorem unitsAt_source (hroot : fs.look root = .ok tree) (hat : SourceAt names components isPackage)
    (hne : components ≠ []) (hids : ∀ c ∈ components, isIdentifier c = true)
    (hsizes : ∀ s ∈ names, s.utf8ByteSize ≤ FileSystem.maxNameSize)
    (hpath : FileSystem.checkPath (root.join (slashed names)) = .ok ()) {content code : Bytes} {text : String}
    {executable : Bool} (hn : tree.at? names = some (.file content executable))
    (hdecode : Utf8.decode? content = some text)
    (hcompile : host.compile text (root.join (slashed names)).text optimize = .ok code) :
    unitsAt fs host optimize namespaces ⟨root, none⟩ names (.file content executable) =
      .ok [⟨dotted components, code, isPackage⟩] := by
  obtain ⟨hnames, hfileNames⟩ := hat.fileNames hids
  have hlook := FileSystem.look_of_at? hroot hnames hfileNames hsizes hpath hn
  rw [← Path.foldl_join hnames hfileNames] at hlook hcompile
  exact (Becomes.source (finding_eq_source.mpr ⟨rfl, hne, hids, hat⟩)
    (compileFile_eq_ok.mpr ⟨rfl, rfl, content, text, read_of_look hlook, hdecode, hcompile⟩)).unitsAt_eq

/-- A node that becomes a unit with the name of a source is that source. -/
theorem names_eq_of_source (hroot : fs.look root = .ok tree)
    (hcollect : collect fs host optimize namespaces ⟨root, none⟩ = .ok units) (hnodup : (units.map (·.name)).Nodup)
    (hn : (names, n) ∈ visible tree) (hu : Becomes fs host optimize namespaces root names n u)
    (hname : u.name = dotted components) (hm : (others, m) ∈ visible tree)
    (hfinding : finding [] others m = .source components isPackage) : names = others := by
  obtain ⟨v, _, hv⟩ := exists_unit hroot hcollect hm (.source hfinding)
  exact node_unique hroot hcollect hnodup hn hm hu hv (hname.trans (hv.name_of_source hfinding).symm)

/-- Beside another node that becomes a unit there is no source of a package with its name, which would be a second
unit. -/
theorem no_initFile (hroot : fs.look root = .ok tree) (htree : SourcesOnly config tree)
    (hcollect : collect fs host optimize namespaces ⟨root, none⟩ = .ok units) (hnodup : (units.map (·.name)).Nodup)
    (hn : (names, n) ∈ visible tree) (hu : Becomes fs host optimize namespaces root names n u)
    (hname : u.name = dotted components) (hne : components ≠ []) (hids : ∀ c ∈ components, isIdentifier c = true)
    (hother : names ≠ components ++ [packageFile]) (hexposed : Exposed tree components) {suffix : String}
    (hsuffix : suffix ∈ moduleSuffixes config) (hm : (components ++ ["__init__" ++ suffix], m) ∈ tree.walk) :
    m.isDir = true := by
  rw [← Bool.not_eq_false]
  intro hfile
  obtain rfl := htree.suffix_eq hm hfile hsuffix
  have hshown : (components ++ [packageFile]).any isHidden = false := by
    rw [List.any_append, hexposed m hm]
    decide +kernel
  exact hother (names_eq_of_source hroot hcollect hnodup hn hu hname (mem_visible.mpr ⟨hm, hshown⟩)
    (finding_eq_source.mpr ⟨hfile, hne, hids, .package components⟩))

/-- A source is found before any other file that could hold its module. -/
theorem find_source (hroot : fs.look root = .ok tree) (hconfig : FindsSources config)
    (htree : SourcesOnly config tree) (hcollect : collect fs host optimize namespaces ⟨root, none⟩ = .ok units)
    (hnodup : (units.map (·.name)).Nodup)
    (hn : (names, n) ∈ visible tree) (hfinding : finding [] names n = .source components isPackage)
    (hcompile : compileFile fs host optimize (names.foldl Path.join root) components isPackage = .ok u)
    (hexposed : Exposed tree components) (magic : Bytes) :
    ∃ content text executable, (names, .file content executable) ∈ tree.walk ∧ Utf8.decode? content = some text ∧
      host.compile text (names.foldl Path.join root).text optimize = .ok u.code ∧
      (Finder.ofConfig config {} [root] magic).find fs u.name =
        .ok ⟨u.name, (names.foldl Path.join root).text, isPackage, .source text⟩ := by
  obtain ⟨hdir, hne, hids, hat⟩ := finding_eq_source.mp hfinding
  obtain ⟨hnames, hfileNames⟩ := hat.fileNames hids
  obtain ⟨hname, -, content, text, hread, hdecode, hcode⟩ := compileFile_eq_ok.mp hcompile
  have hjoin : names.foldl Path.join root = root.join (slashed names) := Path.foldl_join hnames hfileNames
  rw [hjoin] at hread hcode ⊢
  obtain ⟨executable, hlook⟩ := look_of_read hread
  refine ⟨content, text, executable, FileNode.mem_walk_of_at? (FileSystem.at?_of_look hroot hnames hfileNames hlook),
    hdecode, hcode, ?_⟩
  have habsent : isPackage = false → ∀ suffix ∈ moduleSuffixes config,
      fs.isFile (root.join (slashed (components ++ ["__init__" ++ suffix]))) = false := by
    rintro rfl suffix hsuffix
    have hother : names ≠ components ++ [packageFile] := by
      cases hat with
      | module dirs base _ => exact fun heq => by simpa using congrArg List.length heq
    exact isFile_eq_false hroot (by simp) (fileNames_initFile hids (hconfig.slash suffix hsuffix)) fun m hm =>
      no_initFile hroot htree hcollect hnodup hn (.source hfinding hcompile) hname hne hids hother hexposed hsuffix hm
  rw [hname, find_dotted_eq_search hne hids]
  have hfirst := find?_candidates hroot hconfig htree hne hids hat (isFile_of_read hread) habsent magic
  exact @search_directory fs root _ _ _ _ ⟨slashed names, isPackage, false⟩ _ (isDir_root hroot hnames hn) hfirst hread
    rfl hdecode

/-- Beside a directory without code there is no source of a module with its name. Only `__init__.py` is the source
of something else. -/
theorem no_moduleFile (hroot : fs.look root = .ok tree) (htree : SourcesOnly config tree)
    (hcollect : collect fs host optimize namespaces ⟨root, none⟩ = .ok units) (hnodup : (units.map (·.name)).Nodup)
    {dirs : List String} {base : String} (hn : (dirs ++ [base], n) ∈ visible tree)
    (hu : Becomes fs host optimize namespaces root (dirs ++ [base]) n u)
    (hname : u.name = dotted (dirs ++ [base])) (hids : ∀ c ∈ dirs ++ [base], isIdentifier c = true)
    (hbase : base ≠ "__init__") {suffix : String} (hsuffix : suffix ∈ moduleSuffixes config)
    (hm : (dirs ++ [base ++ suffix], m) ∈ tree.walk) : m.isDir = true := by
  rw [← Bool.not_eq_false]
  intro hfile
  obtain rfl := htree.suffix_eq hm hfile hsuffix
  have hshown : (dirs ++ [base ++ sourceSuffix]).any isHidden = false := by
    have hdirs := (mem_visible.mp hn).2
    rw [List.any_append, Bool.or_eq_false_iff] at hdirs ⊢
    exact ⟨hdirs.1, by simpa using isHidden_source (hids base (by simp))⟩
  have hother : base ++ sourceSuffix ≠ packageFile := fun h => hbase (String.append_left_inj ".py" |>.mp h)
  have hmodule : finding [] (dirs ++ [base ++ sourceSuffix]) m = .source (dirs ++ [base]) false :=
    finding_eq_source.mpr ⟨hfile, by simp, hids, .module dirs base hother⟩
  have hsame := names_eq_of_source hroot hcollect hnodup hn hu hname (mem_visible.mpr ⟨hm, hshown⟩) hmodule
  have hlength := congrArg String.length (List.append_inj_right' hsame rfl |> List.singleton_inj.mp)
  rw [String.length_append, length_sourceSuffix] at hlength
  omega

/-- A directory without code is found as a package without code, unless it is called `__init__`. -/
theorem find_namespacePackage (hroot : fs.look root = .ok tree) (hconfig : FindsSources config)
    (htree : SourcesOnly config tree) (hcollect : collect fs host optimize namespaces ⟨root, none⟩ = .ok units)
    (hnodup : (units.map (·.name)).Nodup)
    (hn : (names, n) ∈ visible tree) (hu : Becomes fs host optimize namespaces root names n u)
    (hfinding : finding [] names n = .namespacePackage names) (hlast : names.getLast? ≠ some "__init__")
    (hpackage : fs.isDir (root.join (slashed names)) = true) (magic : Bytes) :
    (Finder.ofConfig config {} [root] magic).find fs (dotted names) =
      .ok ⟨dotted names, (root.join (slashed names)).text, true, .namespacePackage⟩ := by
  obtain ⟨-, -, hne, hids, -⟩ := finding_eq_namespacePackage hfinding
  have hname := hu.name_of_namespacePackage hfinding
  have hnames : ∀ s ∈ names, FileName s := fun s hs => fileName_of_isIdentifier (hids s hs)
  have hinit : ∀ suffix ∈ moduleSuffixes config,
      fs.isFile (root.join (slashed (names ++ ["__init__" ++ suffix]))) = false := fun suffix hsuffix =>
    isFile_eq_false hroot (by simp) (fileNames_initFile hids (hconfig.slash suffix hsuffix)) fun m hm =>
      no_initFile hroot htree hcollect hnodup hn hu hname hne hids (by simp) (fun _ _ => (mem_visible.mp hn).2) hsuffix
        hm
  have hmodule : ∀ suffix ∈ moduleSuffixes config, fs.isFile (root.join (slashed names ++ suffix)) = false := by
    intro suffix hsuffix
    obtain ⟨dirs, base, rfl⟩ := (List.eq_nil_or_concat' names).resolve_left hne
    obtain ⟨hdirs, hbase⟩ := List.forall_mem_append.mp hnames
    rw [slashed_concat_append]
    refine isFile_eq_false hroot (by simp) (List.forall_mem_append.mpr
      ⟨hdirs, by simpa using (hbase base (by simp)).append (hconfig.slash suffix hsuffix)⟩) fun m hm => ?_
    exact no_moduleFile hroot htree hcollect hnodup hn hu hname hids (by simpa using hlast) hsuffix hm
  rw [find_dotted_eq_search hne hids]
  rw [search_directory_none (isDir_root hroot hne hn) (find?_candidates_eq_none hne hinit hmodule magic), hpackage]
  rfl

end

end Launcher.Freeze
