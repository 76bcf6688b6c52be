import Launcher.Proofs.Files.Parts
import Launcher.Proofs.Freeze.Lookup

/-!
# Where modules come from

Every module that is not in the table comes from a place that the components of its name lead to, below an entry of the
search path. Only a name that begins with a slash leads from the root instead, whatever the search path is.
-/

namespace Launcher

namespace Path

/-- The parts of a path with names put behind it. A name with slashes in it is more than one part. -/
def below (p : Path) (names : List String) : List Part := p.parts ++ names.flatMap innerParts

theorem parts_join_slashed {p : Path} {names : List String} (hp : p.text ≠ "")
    (h : (slashed names).startsWith "/" = false) : (p.join (slashed names)).parts = p.below names := by
  rw [parts_join hp h, innerParts_slashed, below]

theorem parts_join_of_isAbsolute {p : Path} {names : List String} (h : (slashed names).startsWith "/" = true) :
    (p.join (slashed names)).parts = .root :: names.flatMap innerParts := by
  have habsolute : (⟨slashed names⟩ : Path).isAbsolute = true := h
  rw [join_of_isAbsolute habsolute, parts_of_isAbsolute habsolute, innerParts_slashed]

end Path

namespace Finder

variable {f : Finder} {fs : FileSystem} {name relative : String} {components names : List String} {s : Shelf}
  {package : Option String} {entry : Path} {entries : List Path} {found : LocatedModule}

/-- The suffixes of files with code. -/
def suffixes (f : Finder) : List String := f.sourceSuffixes ++ f.bytecodeSuffixes

/-- The names that lead from an entry of the search path to a module: for code a file in the place of its components,
or below it that of a package, and a directory else. -/
inductive Place (f : Finder) (components : List String) : ModuleCode → List String → Prop
  | package {code : ModuleCode} {suffix : String} (hcode : code ≠ .namespacePackage) (hsuffix : suffix ∈ f.suffixes) :
      Place f components code (components ++ ["__init__" ++ suffix])
  | module {code : ModuleCode} {suffix last : String} {front : List String} (hcode : code ≠ .namespacePackage)
      (hsuffix : suffix ∈ f.suffixes) (hcomponents : components = front ++ [last]) :
      Place f components code (front ++ [last ++ suffix])
  | directory : Place f components .namespacePackage components

/-- The code is what a file with this content holds. -/
def Decodes (f : Finder) (content : Bytes) : ModuleCode → Prop
  | .source text => Utf8.decode content = .ok text
  | .compiled code => stripHeader? f.magic content = some code
  | .namespacePackage => False

/-- The code is read from the file that a path leads to, or there is none and the path leads to a directory. -/
def ComesFrom (f : Finder) (fs : FileSystem) (p : Path) (code : ModuleCode) : Prop :=
  (∃ content, fs.read p = .ok content ∧ f.Decodes content code) ∨ fs.isDir p = true ∧ code = .namespacePackage

/-! ## What a search finds -/

theorem located_eq_ok {origin : String} {c : Candidate} {content : Bytes}
    (h : f.located name origin c content = .ok found) : found.origin = origin ∧ f.Decodes content found.code := by
  unfold located at h
  split at h <;> split at h <;> cases h
  · rename_i hcode
    exact ⟨rfl, hcode⟩
  · rename_i htext
    exact ⟨rfl, htext⟩

theorem onShelf_eq_ok (h : f.onShelf name relative s = .ok (some found)) :
    ∃ c ∈ f.candidates relative, found.origin = s.origin c.file ∧
      ∃ content, s.read c.file = .ok content ∧ f.Decodes content found.code := by
  unfold onShelf at h
  split at h
  · cases h
  · rename_i c hc
    refine ⟨c, List.mem_of_find?_eq_some hc, ?_⟩
    split at h
    · rename_i content hread
      cases hlocated : f.located name (s.origin c.file) c content with
      | error e => rw [hlocated] at h; cases h
      | ok m =>
          rw [hlocated] at h
          cases h
          exact ⟨(located_eq_ok hlocated).1, content, hread, (located_eq_ok hlocated).2⟩
    · cases h

/-- The module is a file of a directory that could hold it, or it is a directory there and has no code. -/
def InDirectory (f : Finder) (fs : FileSystem) (relative : String) (dir : Path) (found : LocatedModule) : Prop :=
  (∃ c ∈ f.candidates relative, found.origin = (dir.join c.file).text ∧
      ∃ content, fs.read (dir.join c.file) = .ok content ∧ f.Decodes content found.code) ∨
    found.origin = (dir.join relative).text ∧ fs.isDir (dir.join relative) = true ∧ found.code = .namespacePackage

theorem shelf?_of_isFile (h : fs.isFile entry = false) :
    shelf? fs entry = .ok (if fs.isDir entry then some (directoryShelf fs entry) else none) := by
  cases hdir : fs.isDir entry with
  | true => exact shelf?_directory hdir
  | false => simp [shelf?, hdir, h]

/-- A search through directories, if those seen before are among them, ends in one of them. -/
theorem search_eq_ok {all : List Path} (hfiles : ∀ entry ∈ all, fs.isFile entry = false) (hentries : entries ⊆ all)
    (hpackage : ∀ origin ∈ package, ∃ entry ∈ all, fs.isDir entry = true ∧ origin = (entry.join relative).text ∧
      fs.isDir (entry.join relative) = true)
    (h : f.search fs name relative package entries = .ok found) :
    ∃ entry ∈ all, fs.isDir entry = true ∧ f.InDirectory fs relative entry found := by
  -- The package is the first directory of that name; which entry it is in is all that is carried along.
  induction entries generalizing package with
  | nil =>
      cases package with
      | none => cases h
      | some origin =>
          cases h
          obtain ⟨entry, hentry, hdir, horigin, hthere⟩ := hpackage origin rfl
          exact ⟨entry, hentry, hdir, .inr ⟨horigin, hthere, rfl⟩⟩
  | cons entry entries ih =>
      obtain ⟨hentry, hentries⟩ := List.cons_subset.mp hentries
      have hshelf := shelf?_of_isFile (hfiles entry hentry)
      cases hdir : fs.isDir entry with
      | false =>
          rw [hdir] at hshelf
          rw [search_of_none hshelf] at h
          exact ih hentries hpackage h
      | true =>
          rw [hdir] at hshelf
          rw [search_of_shelf hshelf] at h
          rcases honShelf : f.onShelf name relative (directoryShelf fs entry) with e | _ | m <;> rw [honShelf] at h
          · cases h
          · refine ih hentries (fun origin horigin => ?_) h
            rcases Option.or_eq_some_iff.mp horigin with horigin | ⟨-, horigin⟩
            · exact hpackage origin horigin
            · split at horigin <;> cases horigin
              rename_i hthere
              exact ⟨entry, hentry, hdir, rfl, hthere⟩
          · cases h
            exact ⟨entry, hentry, hdir, .inl (onShelf_eq_ok honShelf)⟩

/-! ## Places -/

/-- What is found in a directory is in the place that some names lead to from there. -/
theorem InDirectory.exists_place {dir : Path} (hne : components ≠ [])
    (h : f.InDirectory fs (slashed components) dir found) :
    ∃ names, Place f components found.code names ∧ found.origin = (dir.join (slashed names)).text ∧
      f.ComesFrom fs (dir.join (slashed names)) found.code := by
  rcases h with ⟨c, hc, horigin, content, hread, hdecodes⟩ | ⟨horigin, hdir, hcode⟩
  · have hcode : found.code ≠ .namespacePackage := by
      intro hcode
      rw [hcode] at hdecodes
      exact hdecodes
    obtain ⟨suffix, hsuffix, hfile | ⟨front, last, hcomponents, hfile⟩⟩ := Freeze.exists_suffix_of_candidate hne hc
    · rw [hfile] at horigin hread
      exact ⟨_, .package hcode hsuffix, horigin, .inl ⟨content, hread, hdecodes⟩⟩
    · rw [hfile] at horigin hread
      exact ⟨_, .module hcode hsuffix hcomponents, horigin, .inl ⟨content, hread, hdecodes⟩⟩
  · rw [hcode]
    exact ⟨components, .directory, horigin, .inr ⟨hdir, rfl⟩⟩

theorem intercalate_eq_append (separator first : String) (more : List String) :
    ∃ rest, separator.intercalate (first :: more) = first ++ rest := by
  cases more with
  | nil => exact ⟨"", by rw [String.intercalate_singleton, String.append_empty]⟩
  | cons second more =>
      rw [String.intercalate_cons_of_ne_nil (List.cons_ne_nil second more), String.append_assoc]
      exact ⟨_, rfl⟩

/-- What leads to a place begins with the components of the name. -/
theorem Place.slashed_eq_append {code : ModuleCode} (hne : components ≠ []) (h : Place f components code names) :
    ∃ rest, slashed names = slashed components ++ rest := by
  cases h with
  | package _ _ =>
      rw [slashed_append hne (List.cons_ne_nil _ _), String.append_assoc]
      exact ⟨_, rfl⟩
  | module _ _ hcomponents =>
      rw [hcomponents, ← slashed_concat_append]
      exact ⟨_, rfl⟩
  | directory => exact ⟨"", String.append_empty.symm⟩

/-- It begins with a slash if the name does. -/
theorem Place.startsWith_slash {code : ModuleCode} (hne : components ≠ []) (hempty : "" ∉ components)
    (h : Place f components code names) :
    (slashed names).startsWith "/" = (".".intercalate components).startsWith "/" := by
  obtain ⟨rest, hnames⟩ := h.slashed_eq_append hne
  obtain ⟨first, more, rfl⟩ := List.exists_cons_of_ne_nil hne
  have hfirst : first ≠ "" := fun heq => hempty (heq ▸ List.mem_cons_self)
  obtain ⟨slashRest, hslashed⟩ := intercalate_eq_append "/" first more
  obtain ⟨dotRest, hdotted⟩ := intercalate_eq_append "." first more
  have hslashed : slashed (first :: more) = first ++ slashRest := hslashed
  rw [hnames, hslashed, hdotted, String.append_assoc, Path.startsWith_append hfirst, Path.startsWith_append hfirst]

/-- A name that the table does not know is looked for along the search path, if it has no empty component. -/
theorem find_of_notFound (htable : f.table.find name = .notFound) :
    f.find fs name =
      if "" ∈ name.splitOn "." then .error (.notFound name)
      else f.search fs name (slashed (name.splitOn ".")) none f.searchPath := by
  have hany : (name.splitOn ".").any (·.isEmpty) = true ↔ "" ∈ name.splitOn "." := by simp
  simp only [find, htable, hany]
  rfl

/-- A module that is not in the table comes from a place that the components of its name lead to. That place is below
an entry of the search path just if the name does not begin with a slash or the root itself is an entry. With a slash
in front it is below the root, whatever the entries are. -/
theorem find_place (htable : f.table.find name = .notFound) (hfiles : ∀ entry ∈ f.searchPath, fs.isFile entry = false)
    (h : f.find fs name = .ok found) :
    f.ComesFrom fs ⟨found.origin⟩ found.code ∧ ∃ names, Place f (name.splitOn ".") found.code names ∧
      ((∃ entry ∈ f.searchPath, (⟨found.origin⟩ : Path).parts = entry.below names) ↔
        name.startsWith "/" = false ∨ ∃ entry ∈ f.searchPath, entry.parts = [.root]) ∧
      (name.startsWith "/" = true → (⟨found.origin⟩ : Path).parts = .root :: names.flatMap Path.innerParts) := by
  have hne : name.splitOn "." ≠ [] := Text.splitOn_ne_nil name '.'
  rw [find_of_notFound htable] at h
  split at h
  · cases h
  rename_i hempty
  obtain ⟨entry, hentry, hdir, hfound⟩ := search_eq_ok hfiles (List.Subset.refl _)
    (fun origin hnone => absurd hnone (Option.not_mem_none origin)) h
  obtain ⟨names, hplace, horigin, hcomes⟩ := hfound.exists_place hne
  have hpath : (⟨found.origin⟩ : Path) = entry.join (slashed names) := by rw [horigin]
  have hstart : (slashed names).startsWith "/" = name.startsWith "/" := by
    rw [hplace.startsWith_slash hne hempty]
    exact congrArg (·.startsWith "/") (Text.intercalate_splitOn name '.')
  obtain ⟨_, hlook⟩ := FileSystem.isDir_iff.mp hdir
  have htext : entry.text ≠ "" := (FileSystem.look_eq_ok hlook).1
  rw [hpath]
  refine ⟨hcomes, names, hplace, ?_, fun hslash => Path.parts_join_of_isAbsolute (hstart.trans hslash)⟩
  cases hslash : name.startsWith "/" with
  | false => exact ⟨fun _ => .inl rfl, fun _ => ⟨entry, hentry, Path.parts_join_slashed htext (hstart.trans hslash)⟩⟩
  | true =>
      rw [Path.parts_join_of_isAbsolute (hstart.trans hslash)]
      constructor
      · rintro ⟨entry', hentry', hparts⟩
        exact .inr ⟨entry', hentry', (List.append_cancel_right hparts).symm⟩
      · rintro (hfalse | ⟨entry', hentry', hroot⟩)
        · cases hfalse
        · exact ⟨entry', hentry', by rw [Path.below, hroot]; rfl⟩

/-! ## A search path of one directory -/

/-- Names that lead nowhere lead to no file. -/
theorem isFile_of_follow {p : Path} {e : ReadError}
    (h : p.pieces.foldlM fs.follow (if p.isAbsolute then [] else fs.cwd) = .error e) : fs.isFile p = false := by
  rw [Bool.eq_false_iff]
  intro hfile
  obtain ⟨content, executable, hlook⟩ := FileSystem.isFile_iff.mp hfile
  obtain ⟨-, -, _, there, rfl, hthere, -⟩ := FileSystem.look_eq_ok hlook
  rw [h] at hthere
  cases hthere

theorem isFile_of_isDir {p : Path} (h : fs.isDir p = true) : fs.isFile p = false := by
  obtain ⟨children, hlook⟩ := FileSystem.isDir_iff.mp h
  rw [FileSystem.isFile, hlook]
  rfl

/-- A directory for modules, with one module in it below a package. -/
def oneShelf : FileSystem where
  root := .dir [("lib", .dir [("a", .dir [("b.py", .file [])])])]

def onOneShelf : Finder where
  searchPath := [⟨"/lib"⟩]
  sourceSuffixes := [".py"]
  bytecodeSuffixes := []
  magic := []

theorem isDir_lib : oneShelf.isDir ⟨"/lib"⟩ = true := by
  simp only [FileSystem.isDir, FileSystem.look, FileSystem.locate, Path.pieces_eq]
  cbv

theorem join_lib {q : String} (hq : q.startsWith "/" = false) : (⟨"/lib"⟩ : Path).join q = ⟨"/lib/" ++ q⟩ := by
  have hlead : (⟨"/lib"⟩ : Path).lead = "/lib/" := by cbv
  rw [Path.join_eq hq, hlead]

theorem find_below : onOneShelf.find oneShelf "a.b" = .ok ⟨"a.b", "/lib/a/b.py", false, .source ""⟩ := by
  have hsplit : "a.b".splitOn "." = ["a", "b"] := by cbv
  have hslashed : slashed ["a", "b"] = "a/b" := by cbv
  have hcandidates : onOneShelf.candidates "a/b" = [⟨"a/b/__init__.py", true, false⟩, ⟨"a/b.py", false, false⟩] := rfl
  have hpackage : oneShelf.isFile ((⟨"/lib"⟩ : Path).join "a/b/__init__.py") = false := by
    refine isFile_of_follow (e := FileSystem.notFound) ?_
    rw [join_lib (by simp), Path.pieces_eq]
    cbv
  have hjoin : (⟨"/lib"⟩ : Path).join "a/b.py" = ⟨"/lib/a/b.py"⟩ := join_lib (by simp)
  have hlook : oneShelf.look ⟨"/lib/a/b.py"⟩ = .ok (.file []) := by
    simp only [FileSystem.look, FileSystem.locate, Path.pieces_eq]
    cbv
  have hfirst : (onOneShelf.candidates "a/b").find? (fun c => oneShelf.isFile ((⟨"/lib"⟩ : Path).join c.file)) =
      some ⟨"a/b.py", false, false⟩ := by
    have hfile : oneShelf.isFile ⟨"/lib/a/b.py"⟩ = true := FileSystem.isFile_iff.mpr ⟨[], false, hlook⟩
    simp [hcandidates, hpackage, hjoin, hfile]
  have hread : oneShelf.read ((⟨"/lib"⟩ : Path).join "a/b.py") = .ok [] := by
    rw [hjoin, FileSystem.read, hlook]
    rfl
  have htext : Utf8.decode? [] = some "" := by cbv
  rw [find_of_notFound rfl, hsplit, if_neg (by decide), hslashed]
  exact (Freeze.search_directory isDir_lib hfirst hread rfl htext).trans (by rw [hjoin])

/-- A module is found below the entry. -/
theorem find_place_below :
    onOneShelf.table.find "a.b" = .notFound ∧ (∀ entry ∈ onOneShelf.searchPath, oneShelf.isFile entry = false) ∧
      onOneShelf.find oneShelf "a.b" = .ok ⟨"a.b", "/lib/a/b.py", false, .source ""⟩ ∧
      onOneShelf.ComesFrom oneShelf ⟨"/lib/a/b.py"⟩ (.source "") ∧
      ∃ names, Place onOneShelf ("a.b".splitOn ".") (.source "") names ∧
        (⟨"/lib/a/b.py"⟩ : Path).parts = (⟨"/lib"⟩ : Path).below names := by
  have hfiles : ∀ entry ∈ onOneShelf.searchPath, oneShelf.isFile entry = false :=
    List.forall_mem_singleton.mpr (isFile_of_isDir isDir_lib)
  obtain ⟨hcomes, names, hplace, hbelow, -⟩ := find_place rfl hfiles find_below
  obtain ⟨entry, hentry, hparts⟩ := hbelow.mpr (.inl (by simp))
  obtain rfl := List.mem_singleton.mp hentry
  exact ⟨rfl, hfiles, find_below, hcomes, names, hplace, hparts⟩

/-- The name is a path from the root, and what it leads to is in no place below the entry. -/
theorem find_root :
    onOneShelf.table.find "/" = .notFound ∧ (∀ entry ∈ onOneShelf.searchPath, oneShelf.isDir entry = true) ∧
      onOneShelf.find oneShelf "/" = .ok ⟨"/", "/", true, .namespacePackage⟩ ∧
      ¬∃ entry ∈ onOneShelf.searchPath, ∃ names, Place onOneShelf ("/".splitOn ".") .namespacePackage names ∧
        (⟨"/"⟩ : Path).parts = entry.below names := by
  have hsplit : "/".splitOn "." = ["/"] := by cbv
  have hcandidates : onOneShelf.candidates "/" = [⟨"//__init__.py", true, false⟩, ⟨"/.py", false, false⟩] := rfl
  have habsent : ∀ c ∈ onOneShelf.candidates "/", oneShelf.isFile ((⟨"/lib"⟩ : Path).join c.file) = false := by
    rw [hcandidates]
    intro c hc
    simp only [List.mem_cons, List.not_mem_nil, or_false] at hc
    refine isFile_of_follow (e := FileSystem.notFound) ?_
    rcases hc with rfl | rfl <;> rw [Path.join_of_isAbsolute (by simp [Path.isAbsolute]), Path.pieces_eq] <;> cbv
  have hfirst : (onOneShelf.candidates "/").find? (fun c => oneShelf.isFile ((⟨"/lib"⟩ : Path).join c.file)) = none :=
    List.find?_eq_none.mpr fun c hc => by simp [habsent c hc]
  have hjoin : (⟨"/lib"⟩ : Path).join "/" = ⟨"/"⟩ := Path.join_of_isAbsolute (by simp [Path.isAbsolute])
  have hdir : oneShelf.isDir ⟨"/"⟩ = true := by
    simp only [FileSystem.isDir, FileSystem.look, FileSystem.locate, Path.pieces_eq]
    cbv
  refine ⟨rfl, List.forall_mem_singleton.mpr isDir_lib, ?_, ?_⟩
  · rw [find_of_notFound rfl, hsplit, if_neg (by decide), slashed_singleton]
    refine (Freeze.search_directory_none isDir_lib hfirst).trans ?_
    rw [hjoin, if_pos hdir]
  · rintro ⟨entry, hentry, names, -, hparts⟩
    obtain rfl := List.mem_singleton.mp hentry
    have hroot : (⟨"/"⟩ : Path).parts = [.root] := by
      rw [Path.parts, if_pos (by simp [Path.isAbsolute]), Path.pieces_eq]
      cbv
    have hlib : (⟨"/lib"⟩ : Path).parts = [.root, .name "lib"] := by
      rw [Path.parts, if_pos (by simp [Path.isAbsolute]), Path.pieces_eq]
      cbv
    rw [hroot, Path.below, hlib] at hparts
    cases hparts

end Finder

end Launcher
