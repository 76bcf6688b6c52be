import Launcher.Proofs.Files.Look
import Launcher.Proofs.Freeze.Lookup
import Launcher.Proofs.Search.Shelves
import Launcher.Zip.Writer

/-!
# A tree on disk and in an archive

A tree of files gives the same modules as a directory on the search path and as an archive of its files. A directory
of the tree has no place of its own in the archive: it is there as far as a file is below it.
-/

namespace Launcher

open Table (isIdentifier isUnitName)

/-! ## Trees and archives -/

namespace FileNode

/-- A file system can hold files of these names. -/
def Storable (tree : FileNode) : Prop :=
  ∀ names n, tree.at? names = some n →
    ∀ s ∈ names, '/' ∉ s.toList ∧ '\x00' ∉ s.toList ∧ s.utf8ByteSize ≤ FileSystem.maxNameSize

/-- Below every directory there is a file. -/
def Filled (tree : FileNode) : Prop :=
  ∀ dirs children, tree.at? dirs = some (.dir children) →
    ∃ rest content executable, tree.at? (dirs ++ rest) = some (.file content executable)

/-- No file behind the path of the directory has too long a path. -/
def Reachable (tree : FileNode) (root : Path) : Prop :=
  ∀ names content executable, tree.at? names = some (.file content executable) →
    (root.join (slashed names)).text.utf8ByteSize ≤ FileSystem.maxPathSize

end FileNode

/-- The archive has the files of the tree, and nothing else, under the names that lead to them. -/
structure Zip.Archive.Holds (a : Zip.Archive) (tree : FileNode) : Prop where
  members : ∀ name, (∃ m ∈ a.members, m.name = name) ↔
    ∃ names content executable, tree.at? names = some (.file content executable) ∧ slashed names = name
  read : ∀ names content executable path, tree.at? names = some (.file content executable) →
    a.read path (slashed names) = .ok content

variable {tree n : FileNode} {names comps : List String} {fs : FileSystem} {root : Path} {a : Zip.Archive}

namespace FileNode

theorem ne_nil_of_file {content : Bytes} {executable : Bool} (hdir : tree.isDir = true)
    (h : tree.at? names = some (.file content executable)) : names ≠ [] := by
  rintro rfl
  rw [at?] at h
  obtain rfl := Option.some.inj h
  cases hdir

theorem Storable.splitOn_slashed (h : tree.Storable) (hne : names ≠ []) (hn : tree.at? names = some n) :
    (slashed names).splitOn "/" = names :=
  Text.splitOn_intercalate hne fun s hs => (h names n hn s hs).1

theorem Filled.below {children : List (String × FileNode)} (h : tree.Filled)
    (hn : tree.at? names = some (.dir children)) :
    ∃ rest content executable, rest ≠ [] ∧ tree.at? (names ++ rest) = some (.file content executable) := by
  obtain ⟨rest, content, executable, hfile⟩ := h names children hn
  refine ⟨rest, content, executable, ?_, hfile⟩
  rintro rfl
  rw [List.append_nil, hn] at hfile
  cases hfile

/-- What has something below it is a directory. -/
theorem at?_dir_of_append {rest : List String} (hrest : rest ≠ []) (h : tree.at? (names ++ rest) = some n) :
    ∃ children, tree.at? names = some (.dir children) := by
  rw [at?_append, Option.bind_eq_some_iff] at h
  obtain ⟨middle, hmiddle, h⟩ := h
  cases middle with
  | dir children => exact ⟨children, hmiddle⟩
  | file content executable =>
      obtain ⟨x, rest, rfl⟩ := List.exists_cons_of_ne_nil hrest
      cases h

end FileNode

/-! ## On disk -/

theorem not_mem_slashed {c : Char} (hc : c ≠ '/') (h : ∀ s ∈ names, c ∉ s.toList) : c ∉ (slashed names).toList := by
  induction names with
  | nil => simp [slashed]
  | cons s names ih =>
      obtain ⟨hs, hnames⟩ := List.forall_mem_cons.mp h
      by_cases hne : names = []
      · rw [hne, slashed_singleton]
        exact hs
      · rw [slashed_cons hne]
        simp [hs, hc, ih hnames]

theorem not_mem_lead {c : Char} {p : Path} (hc : c ≠ '/') (h : c ∉ p.text.toList) : c ∉ p.lead.toList := by
  rw [Path.lead]
  split
  · exact h
  · simp [h, hc]

theorem slashed_ne_empty (hne : names ≠ []) (hnames : ∀ s ∈ names, FileName s) : slashed names ≠ "" := by
  intro h
  have hempty : "" ∈ names := by
    have hsplit : "".splitOn "/" = [""] := Text.splitOn_singleton "" '/'
    rw [← splitOn_slashed hne hnames, h, hsplit]
    exact List.mem_singleton_self ""
  exact (hnames "" hempty).ne_empty rfl

/-- Names with more names behind them do not lead back to the root. -/
theorem startsWith_slashed_append {rest : List String} (hne : names ≠ []) (hnames : ∀ s ∈ names, FileName s) :
    (slashed (names ++ rest)).startsWith "/" = false := by
  by_cases hrest : rest = []
  · rw [hrest, List.append_nil]
    exact startsWith_slashed hne hnames
  · rw [slashed_append hne hrest, String.append_assoc, Path.startsWith_append (slashed_ne_empty hne hnames)]
    exact startsWith_slashed hne hnames

theorem slashed_eq_concat (hne : names ≠ []) (hnames : ∀ s ∈ names, FileName s) :
    ∃ front c, (slashed names).toList = front ++ [c] ∧ c ≠ '/' := by
  obtain ⟨dirs, base, rfl⟩ := (List.eq_nil_or_concat' names).resolve_left hne
  have hbase : FileName base := hnames base (by simp)
  obtain ⟨front, c, hlast⟩ :=
    (List.eq_nil_or_concat' base.toList).resolve_left (mt String.toList_eq_nil_iff.mp hbase.ne_empty)
  have hslashed : slashed (dirs ++ [base]) = slashed (dirs ++ [""]) ++ base := by
    rw [slashed_concat_append, String.empty_append]
  refine ⟨(slashed (dirs ++ [""])).toList ++ front, c, by simp [hslashed, hlast], ?_⟩
  rintro rfl
  exact hbase.slash (by simp [hlast])

section

variable (hroot : fs.look root = .ok tree) (hstorable : tree.Storable)

include hroot hstorable

/-- What the tree has is found behind the path of the directory, unless that makes too long a path. -/
theorem look_join (hne : names ≠ []) (hnames : ∀ s ∈ names, FileName s) (hn : tree.at? names = some n)
    (hsize : (root.join (slashed names)).text.utf8ByteSize ≤ FileSystem.maxPathSize) :
    fs.look (root.join (slashed names)) = .ok n := by
  have hstored := hstorable names n hn
  have hzero := (FileSystem.checkPath_eq_ok.mp (FileSystem.checkPath_of_look hroot)).1
  refine FileSystem.look_of_at? hroot hne hnames (fun s hs => (hstored s hs).2.2) ?_ hn
  refine FileSystem.checkPath_eq_ok.mpr ⟨?_, hsize⟩
  rw [Path.join_slashed hne hnames, String.toList_append]
  exact List.not_mem_append (not_mem_lead (by decide) hzero)
    (not_mem_slashed (by decide) fun s hs => (hstored s hs).2.1)

theorem look_file (hreachable : tree.Reachable root) (hne : names ≠ []) (hnames : ∀ s ∈ names, FileName s)
    {content : Bytes} {executable : Bool} (hn : tree.at? names = some (.file content executable)) :
    fs.look (root.join (slashed names)) = .ok (.file content executable) :=
  look_join hroot hstorable hne hnames hn (hreachable names content executable hn)

theorem isFile_join (hreachable : tree.Reachable root) (hne : names ≠ []) (hnames : ∀ s ∈ names, FileName s) :
    fs.isFile (root.join (slashed names)) = true ↔
      ∃ content executable, tree.at? names = some (.file content executable) := by
  rw [FileSystem.isFile_iff]
  constructor
  · rintro ⟨content, executable, hlook⟩
    exact ⟨content, executable, FileSystem.at?_of_look hroot hne hnames hlook⟩
  · rintro ⟨content, executable, hn⟩
    exact ⟨content, executable, look_file hroot hstorable hreachable hne hnames hn⟩

/-- A directory has a shorter path than the file below it. -/
theorem isDir_join (hreachable : tree.Reachable root) (hfilled : tree.Filled) (hne : names ≠ [])
    (hnames : ∀ s ∈ names, FileName s) :
    fs.isDir (root.join (slashed names)) = true ↔ ∃ children, tree.at? names = some (.dir children) := by
  rw [FileSystem.isDir_iff]
  constructor
  · rintro ⟨children, hlook⟩
    exact ⟨children, FileSystem.at?_of_look hroot hne hnames hlook⟩
  · rintro ⟨children, hn⟩
    obtain ⟨rest, content, executable, hrest, hfile⟩ := hfilled.below hn
    have hsize : (root.join (slashed names)).text.utf8ByteSize ≤ FileSystem.maxPathSize := by
      refine Nat.le_trans ?_ (hreachable _ _ _ hfile)
      rw [Path.join_slashed hne hnames, Path.join_eq (startsWith_slashed_append hne hnames),
        slashed_append hne hrest]
      simp only [String.utf8ByteSize_append]
      omega
    exact ⟨children, look_join hroot hstorable hne hnames hn hsize⟩

end

/-! ## In the archive -/

theorem contains_eq (name : String) : a.contains name = a.members.any (·.name = name) := by
  rw [Bool.eq_iff_iff]
  simp [Zip.Archive.contains, Zip.Archive.member?]

section

variable (hholds : a.Holds tree) (hstorable : tree.Storable) (hdir : tree.isDir = true)

include hholds hstorable hdir

theorem contains_slashed (hne : names ≠ []) (hnames : ∀ s ∈ names, FileName s) :
    a.contains (slashed names) = true ↔
      ∃ content executable, tree.at? names = some (.file content executable) := by
  have hmember : a.contains (slashed names) = true ↔ ∃ m ∈ a.members, m.name = slashed names := by simp [contains_eq]
  rw [hmember, hholds.members]
  constructor
  · rintro ⟨others, content, executable, hn, hsame⟩
    have hothers := hstorable.splitOn_slashed (FileNode.ne_nil_of_file hdir hn) hn
    rw [hsame, splitOn_slashed hne hnames] at hothers
    exact ⟨content, executable, hothers ▸ hn⟩
  · rintro ⟨content, executable, hn⟩
    exact ⟨names, content, executable, hn, rfl⟩

/-- A name below a directory of the archive leads below the directory of the tree. -/
theorem containsDir_slashed (hfilled : tree.Filled) (hne : names ≠ []) (hnames : ∀ s ∈ names, FileName s) :
    a.containsDir (slashed names) = true ↔ ∃ children, tree.at? names = some (.dir children) := by
  have hbelow : String.ofList ((slashed names).toList.reverse.dropWhile (· = '/')).reverse = slashed names := by
    obtain ⟨front, c, hlast, hc⟩ := slashed_eq_concat hne hnames
    rw [hlast, List.reverse_append, List.reverse_singleton, List.singleton_append,
      List.dropWhile_cons_of_neg (by simpa), List.reverse_cons, List.reverse_reverse, ← hlast, String.ofList_toList]
  simp only [Zip.Archive.containsDir, hbelow, List.any_eq_true, String.startsWith_string_iff]
  constructor
  · rintro ⟨m, hm, rest, hrest⟩
    obtain ⟨others, content, executable, hn, hname⟩ := (hholds.members m.name).mp ⟨m, hm, rfl⟩
    have hothers := hstorable.splitOn_slashed (FileNode.ne_nil_of_file hdir hn) hn
    have htext : slashed names ++ "/" ++ String.ofList rest = slashed others := by
      rw [hname, ← String.toList_inj, ← hrest]
      simp
    have hsplit : (slashed names ++ "/" ++ String.ofList rest).splitOn "/" =
        (slashed names).splitOn "/" ++ (String.ofList rest).splitOn "/" := Text.splitOn_append _ _ '/'
    rw [htext, hothers, splitOn_slashed hne hnames] at hsplit
    rw [hsplit] at hn
    exact FileNode.at?_dir_of_append (Text.splitOn_ne_nil (String.ofList rest) '/') hn
  · rintro ⟨children, hn⟩
    obtain ⟨rest, content, executable, hrest, hfile⟩ := hfilled.below hn
    obtain ⟨m, hm, hname⟩ := (hholds.members _).mpr ⟨_, content, executable, hfile, rfl⟩
    refine ⟨m, hm, (slashed rest).toList, ?_⟩
    rw [hname, slashed_append hne hrest]
    simp

end

/-! ## Modules -/

/-- The path leads to a directory of the tree, which has files of possible names below all of its directories. -/
structure DirectoryAt (fs : FileSystem) (root : Path) (tree : FileNode) : Prop where
  look : fs.look root = .ok tree
  isDir : tree.isDir = true
  storable : tree.Storable
  filled : tree.Filled

theorem DirectoryAt.isDirAt (h : DirectoryAt fs root tree) : fs.isDir root = true :=
  FileSystem.isDir_of_look h.look h.isDir

/-- The path leads to an archive of the files of the tree. -/
def ArchiveAt (fs : FileSystem) (path : Path) (tree : FileNode) : Prop :=
  ∃ bytes executable a, fs.look path = .ok (.file bytes executable) ∧ Zip.Archive.ofBytes? bytes = some a ∧ a.Holds tree

namespace Finder

variable {f : Finder} {path : Path}

/-- The files in which a module is looked for lie behind the names of the module. -/
theorem candidate_eq (hsuffixes : ∀ s ∈ f.sourceSuffixes ++ f.bytecodeSuffixes, '/' ∉ s.toList) (hne : comps ≠ [])
    (hnames : ∀ s ∈ comps, FileName s) {c : Candidate} (hc : c ∈ f.candidates (slashed comps)) :
    ∃ names, names ≠ [] ∧ (∀ s ∈ names, FileName s) ∧ c.file = slashed names := by
  obtain ⟨suffix, hsuffix, hfile | ⟨dirs, base, rfl, hfile⟩⟩ := Freeze.exists_suffix_of_candidate hne hc
  · have hinit : FileName ("__init__" ++ suffix) :=
      (Freeze.fileName_of_isIdentifier (by decide)).append (hsuffixes suffix hsuffix)
    exact ⟨_, by simp, List.forall_mem_append.mpr ⟨hnames, by simpa using hinit⟩, hfile⟩
  · obtain ⟨hdirs, hbase⟩ := List.forall_mem_append.mp hnames
    have hlast : FileName (base ++ suffix) := (hbase base (by simp)).append (hsuffixes suffix hsuffix)
    exact ⟨_, by simp, List.forall_mem_append.mpr ⟨hdirs, by simpa using hlast⟩, hfile⟩

theorem agrees_directory_archive (hsuffixes : ∀ s ∈ f.sourceSuffixes ++ f.bytecodeSuffixes, '/' ∉ s.toList)
    (hroot : DirectoryAt fs root tree) (hreachable : tree.Reachable root) (hholds : a.Holds tree) (hne : comps ≠ [])
    (hnames : ∀ s ∈ comps, FileName s) :
    (directoryShelf fs root).Agrees f (slashed comps) (archiveShelf path a) where
  hasFile := by
    intro c hc
    obtain ⟨names, hne, hnames, hfile⟩ := candidate_eq hsuffixes hne hnames hc
    rw [hfile, Bool.eq_iff_iff]
    exact (isFile_join hroot.look hroot.storable hreachable hne hnames).trans
      (contains_slashed hholds hroot.storable hroot.isDir hne hnames).symm
  read := by
    intro c hc hthere
    obtain ⟨names, hne, hnames, hfile⟩ := candidate_eq hsuffixes hne hnames hc
    rw [hfile] at hthere ⊢
    obtain ⟨content, executable, hn⟩ := (isFile_join hroot.look hroot.storable hreachable hne hnames).mp hthere
    have hread := Freeze.read_of_look (look_file hroot.look hroot.storable hreachable hne hnames hn)
    exact hread.trans (hholds.read names content executable path.text hn).symm
  hasDir := by
    rw [Bool.eq_iff_iff]
    exact (isDir_join hroot.look hroot.storable hreachable hroot.filled hne hnames).trans
      (containsDir_slashed hholds hroot.storable hroot.isDir hroot.filled hne hnames).symm

theorem shelf?_archive {bytes : Bytes} {executable : Bool} (hlook : fs.look path = .ok (.file bytes executable))
    (ha : Zip.Archive.ofBytes? bytes = some a) : shelf? fs path = .ok (some (archiveShelf path a)) := by
  have hdir : fs.isDir path = false := by
    rw [FileSystem.isDir, hlook]
    rfl
  have hfile : fs.isFile path = true := FileSystem.isFile_iff.mpr ⟨_, _, hlook⟩
  simp [shelf?, hdir, hfile, Freeze.read_of_look hlook, ha]

/-- The outcome for a name is the same with an archive of its files in the place of a directory. -/
theorem find_archived {before after : List Path} {name : String}
    (hsuffixes : ∀ s ∈ f.sourceSuffixes ++ f.bytecodeSuffixes, '/' ∉ s.toList) (hroot : DirectoryAt fs root tree)
    (hreachable : tree.Reachable root) (hpath : ArchiveAt fs path tree) (hname : isUnitName name = true) :
    outcome (find { f with searchPath := before ++ root :: after } fs name) =
      outcome (find { f with searchPath := before ++ path :: after } fs name) := by
  obtain ⟨bytes, executable, a, hlook, ha, hholds⟩ := hpath
  have hnames : ∀ s ∈ name.splitOn ".", FileName s := fun s hs =>
    Freeze.fileName_of_isIdentifier (List.all_eq_true.mp hname s hs)
  have hagrees : (directoryShelf fs root).Agrees f (slashed (name.splitOn ".")) (archiveShelf path a) :=
    agrees_directory_archive hsuffixes hroot hreachable hholds (Text.splitOn_ne_nil name '.') hnames
  have hentries : List.Forall₂ (Alike f fs (slashed (name.splitOn "."))) (before ++ root :: after)
      (before ++ path :: after) := by
    have hrefl : ∀ entries, List.Forall₂ (Alike f fs (slashed (name.splitOn "."))) entries entries := fun entries =>
      List.forall₂_same.mpr fun _ _ => .inl rfl
    have hhere : Alike f fs (slashed (name.splitOn ".")) root path :=
      .inr ⟨_, _, shelf?_directory hroot.isDirAt, shelf?_archive hlook ha, hagrees⟩
    exact List.rel_append (hrefl before) (.cons hhere (hrefl after))
  cases htable : f.table.find name with
  | found => simp only [find, htable]
  | forcedFailure => simp only [find, htable]
  | notFound =>
      rw [Freeze.find_eq_search hname htable, Freeze.find_eq_search hname htable]
      exact outcome_search hentries rfl

/-! ### Paths that are too long -/

theorem look_ne_ok_of_long {p : Path} (h : FileSystem.maxPathSize < p.text.utf8ByteSize) : fs.look p ≠ .ok n :=
  fun hlook => absurd (FileSystem.look_eq_ok hlook).2.1 (Nat.not_le.mpr h)

theorem isFile_of_long {p : Path} (h : FileSystem.maxPathSize < p.text.utf8ByteSize) : fs.isFile p = false :=
  Bool.eq_false_iff.mpr fun hfile =>
    let ⟨_, _, hlook⟩ := FileSystem.isFile_iff.mp hfile
    look_ne_ok_of_long h hlook

theorem isDir_of_long {p : Path} (h : FileSystem.maxPathSize < p.text.utf8ByteSize) : fs.isDir p = false :=
  Bool.eq_false_iff.mpr fun hdir =>
    let ⟨_, hlook⟩ := FileSystem.isDir_iff.mp hdir
    look_ne_ok_of_long h hlook

/-- Names behind a path make it longer. -/
theorem size_join (root : Path) (hne : names ≠ []) (hnames : ∀ s ∈ names, FileName s) :
    root.text.utf8ByteSize < (root.join (slashed names)).text.utf8ByteSize := by
  have hlead : root.text.utf8ByteSize ≤ root.lead.utf8ByteSize := by
    rw [Path.lead]
    split
    · exact Nat.le_refl _
    · rw [String.utf8ByteSize_append]
      exact Nat.le_add_right ..
  have hslashed : 0 < (slashed names).utf8ByteSize :=
    Nat.pos_of_ne_zero (mt String.utf8ByteSize_eq_zero_iff.mp (slashed_ne_empty hne hnames))
  rw [Path.join_slashed hne hnames, String.utf8ByteSize_append]
  omega

/-- In a directory with a path of the greatest size no module is found. -/
theorem find_of_longestPath {name : String}
    (hsuffixes : ∀ s ∈ f.sourceSuffixes ++ f.bytecodeSuffixes, '/' ∉ s.toList) (hroot : DirectoryAt fs root tree)
    (hsize : root.text.utf8ByteSize = FileSystem.maxPathSize) (hname : isUnitName name = true)
    (htable : f.table.find name = .notFound) :
    find { f with searchPath := [root] } fs name = .error (.notFound name) := by
  have hne := Text.splitOn_ne_nil name '.'
  have hnames : ∀ s ∈ name.splitOn ".", FileName s := fun s hs =>
    Freeze.fileName_of_isIdentifier (List.all_eq_true.mp hname s hs)
  have hlong : ∀ names : List String, names ≠ [] → (∀ s ∈ names, FileName s) →
      FileSystem.maxPathSize < (root.join (slashed names)).text.utf8ByteSize := fun names hne hnames =>
    hsize ▸ size_join root hne hnames
  have hfiles : (f.candidates (slashed (name.splitOn "."))).find? ((directoryShelf fs root).hasFile ·.file) = none := by
    refine List.find?_eq_none.mpr fun c hc => ?_
    obtain ⟨names, hne, hnames, hfile⟩ := candidate_eq hsuffixes hne hnames hc
    rw [hfile, Bool.not_eq_true]
    exact isFile_of_long (hlong names hne hnames)
  have hdir : (directoryShelf fs root).hasDir (slashed (name.splitOn ".")) = false := isDir_of_long (hlong _ hne hnames)
  have hshelf : f.onShelf name (slashed (name.splitOn ".")) (directoryShelf fs root) = .ok none := by
    rw [onShelf, hfiles]
  rw [Freeze.find_eq_search hname htable, search_of_shelf (shelf?_directory hroot.isDirAt), hshelf]
  simp only [afterShelf, hdir]
  rfl

/-! ### A module in a directory of modules -/

def sampleSource : Bytes := Bytes.ofString "x = 1\n"

def sampleModules : FileNode := .dir [("k.py", .file sampleSource)]

def sampleTree : FileNode := .dir [("n", sampleModules)]

def sampleZip : Bytes := Zip.append [] [("n/k.py", sampleSource)]

def sampleMember : Zip.Member where
  name := "n/k.py"
  rawName := Bytes.ofString "n/k.py"
  comment := ""
  encrypted := false
  method := 0
  checksum := (Crc32.checksum sampleSource).toNat
  size := 6
  compressedSize := 6
  header := 0

def sampleArchive : Zip.Archive := ⟨sampleZip, [sampleMember]⟩

def sampleFiles : FileSystem where
  root := .dir [("lib", sampleTree), ("lib.zip", .file sampleZip)]

def sampleFinder : Finder where
  sourceSuffixes := [".py"]
  bytecodeSuffixes := [".pyc"]
  magic := [0x4D, 0x49, 0x4E, 0x49]

theorem at?_sampleTree (h : sampleTree.at? names = some n) :
    names = [] ∧ n = sampleTree ∨ names = ["n"] ∧ n = sampleModules ∨
      names = ["n", "k.py"] ∧ n = .file sampleSource := by
  cases names with
  | nil => exact .inl ⟨rfl, (Option.some.inj h).symm⟩
  | cons x names =>
      rw [FileNode.at?] at h
      split at h
      case h_2 => cases h
      rename_i c hc
      obtain ⟨rfl, rfl⟩ : x = "n" ∧ c = sampleModules := by
        simpa [sampleTree, FileNode.children] using FileNode.mem_children_of_child? hc
      cases names with
      | nil => exact .inr (.inl ⟨rfl, (Option.some.inj h).symm⟩)
      | cons y names =>
          rw [FileNode.at?] at h
          split at h
          case h_2 => cases h
          rename_i d hd
          obtain ⟨rfl, rfl⟩ : y = "k.py" ∧ d = .file sampleSource := by
            simpa [sampleModules, FileNode.children] using FileNode.mem_children_of_child? hd
          cases names with
          | nil => exact .inr (.inr ⟨rfl, (Option.some.inj h).symm⟩)
          | cons z names => cases h

theorem at?_sampleTree_file {content : Bytes} {executable : Bool}
    (h : sampleTree.at? names = some (.file content executable)) : names = ["n", "k.py"] ∧ content = sampleSource := by
  rcases at?_sampleTree h with ⟨-, hn⟩ | ⟨-, hn⟩ | ⟨hnames, hn⟩
  · cases hn
  · cases hn
  · exact ⟨hnames, (FileNode.file.inj hn).1⟩

set_option maxRecDepth 2000 in
theorem content_sampleMember : sampleArchive.content sampleMember = .ok sampleSource := by cbv

theorem holds_sampleArchive : sampleArchive.Holds sampleTree where
  members name := by
    have hslashed : slashed ["n", "k.py"] = "n/k.py" := by cbv
    constructor
    · rintro ⟨m, hm, rfl⟩
      obtain rfl := List.mem_singleton.mp hm
      exact ⟨["n", "k.py"], sampleSource, false, rfl, hslashed⟩
    · rintro ⟨names, content, executable, hn, rfl⟩
      obtain ⟨rfl, -⟩ := at?_sampleTree_file hn
      exact ⟨sampleMember, List.mem_singleton_self _, hslashed.symm⟩
  read names content executable path hn := by
    obtain ⟨rfl, rfl⟩ := at?_sampleTree_file hn
    have hmember : sampleArchive.member? (slashed ["n", "k.py"]) = some sampleMember := by cbv
    rw [Zip.Archive.read, hmember]
    exact content_sampleMember

theorem look_sampleZip : sampleFiles.look ⟨"lib.zip"⟩ = .ok (.file sampleZip) := by
  have hname : FileName "lib.zip" := ⟨by decide, 'l', "ib.zip".toList, rfl, by decide⟩
  have habsolute : (⟨"lib.zip"⟩ : Path).isAbsolute = false := by simp [Path.isAbsolute]
  have hsplit := splitOn_slashed (List.cons_ne_nil "lib.zip" []) (by simpa using hname)
  have hpieces : (⟨"lib.zip"⟩ : Path).pieces = ["lib.zip"] := by
    rw [slashed_singleton] at hsplit
    simp [Path.pieces, habsolute, hsplit]
  have hfollow : sampleFiles.follow [] "lib.zip" = .ok ["lib.zip"] :=
    FileSystem.follow_child hname (by decide) rfl rfl
  have hfold : (⟨"lib.zip"⟩ : Path).pieces.foldlM sampleFiles.follow
      (if (⟨"lib.zip"⟩ : Path).isAbsolute then [] else sampleFiles.cwd) = .ok ["lib.zip"] := by
    rw [hpieces, habsolute]
    exact except_bind_eq_ok.mpr ⟨["lib.zip"], hfollow, rfl⟩
  exact FileSystem.look_of_foldlM (by decide) (by cbv) hfold rfl
    fun h => absurd (Text.endsWith_iff.mp h) (by decide)

theorem ofBytes?_sampleZip : Zip.Archive.ofBytes? sampleZip = some sampleArchive := by cbv

theorem directoryAt_sample (h : sampleFiles.look root = .ok sampleTree) : DirectoryAt sampleFiles root sampleTree where
  look := h
  isDir := rfl
  storable names n hn := by
    have hall : ∀ s ∈ ["n", "k.py"], '/' ∉ s.toList ∧ '\x00' ∉ s.toList ∧ s.utf8ByteSize ≤ FileSystem.maxNameSize := by
      decide
    rcases at?_sampleTree hn with ⟨rfl, -⟩ | ⟨rfl, -⟩ | ⟨rfl, -⟩
    · nofun
    · exact fun s hs => hall s (List.mem_cons.mpr (.inl (List.mem_singleton.mp hs)))
    · exact hall
  filled dirs children hn := by
    rcases at?_sampleTree hn with ⟨rfl, -⟩ | ⟨rfl, -⟩ | ⟨-, h⟩
    · exact ⟨["n", "k.py"], sampleSource, false, rfl⟩
    · exact ⟨["k.py"], sampleSource, false, rfl⟩
    · cases h

theorem onShelf_sampleZip : sampleFinder.onShelf "n.k" "n/k" (archiveShelf ⟨"lib.zip"⟩ sampleArchive) =
    .ok (some ⟨"n.k", "lib.zip/n/k.py", false, .source "x = 1\n"⟩) := by
  have hfile : (sampleFinder.candidates "n/k").find? ((archiveShelf ⟨"lib.zip"⟩ sampleArchive).hasFile ·.file) =
      some ⟨"n/k.py", false, false⟩ := by
    simp [candidates, sampleFinder, archiveShelf, contains_eq, sampleArchive, sampleMember]
  have hslashed : slashed ["n", "k.py"] = "n/k.py" := by cbv
  have hread : (archiveShelf ⟨"lib.zip"⟩ sampleArchive).read "n/k.py" = .ok sampleSource := by
    rw [← hslashed]
    exact holds_sampleArchive.read ["n", "k.py"] sampleSource false "lib.zip" rfl
  have hdecode : Utf8.decode sampleSource = .ok "x = 1\n" := by
    rw [Utf8.decode, sampleSource, Utf8.decode?_ofString]
  simp only [onShelf, hfile, hread]
  simp only [located, hdecode]
  rfl

theorem archiveAt_sample : ArchiveAt sampleFiles ⟨"lib.zip"⟩ sampleTree :=
  ⟨sampleZip, false, sampleArchive, look_sampleZip, ofBytes?_sampleZip, holds_sampleArchive⟩

theorem isUnitName_nk : isUnitName "n.k" = true := by cbv

theorem find_sampleZip : outcome (find { sampleFinder with searchPath := [⟨"lib.zip"⟩] } sampleFiles "n.k") =
    .ok ⟨"n.k", "", false, .source "x = 1\n"⟩ := by
  have hslashed : slashed ("n.k".splitOn ".") = "n/k" := by cbv
  rw [Freeze.find_eq_search isUnitName_nk rfl, hslashed,
    search_of_shelf (shelf?_archive look_sampleZip ofBytes?_sampleZip), onShelf_sampleZip]
  rfl

theorem find_archived_namespace :
    outcome (find { sampleFinder with searchPath := [⟨"lib"⟩] } sampleFiles "n.k") =
        .ok ⟨"n.k", "", false, .source "x = 1\n"⟩ := by
  have hreachable : sampleTree.Reachable ⟨"lib"⟩ := by
    intro names content executable hn
    obtain ⟨rfl, -⟩ := at?_sampleTree_file hn
    decide +kernel
  have hsame := @find_archived _ sampleFiles ⟨"lib"⟩ sampleFinder ⟨"lib.zip"⟩ [] [] "n.k" (by decide)
    (directoryAt_sample (by cbv)) hreachable archiveAt_sample isUnitName_nk
  exact hsame.trans find_sampleZip

def slashes (k : Nat) : String := String.ofList (List.replicate k '/')

/-- The directory of the modules, with as many slashes behind its name as a path can have. -/
def longestPath : Path := ⟨"lib" ++ slashes 4092⟩

theorem slashes_succ (k : Nat) : slashes (k + 1) = slashes k ++ "/" := by
  rw [← String.toList_inj]
  simp [slashes, List.replicate_succ']

theorem size_slashes (k : Nat) : (slashes k).utf8ByteSize = k := by
  induction k with
  | zero => rfl
  | succ k ih =>
      rw [slashes_succ, String.utf8ByteSize_append, ih]
      rfl

theorem look_slashes {p : Path} (h : fs.look p = .ok n) (hdir : n.isDir = true) (k : Nat)
    (hsize : p.text.utf8ByteSize + k ≤ FileSystem.maxPathSize) : fs.look ⟨p.text ++ slashes k⟩ = .ok n := by
  induction k with
  | zero =>
      rw [slashes, List.replicate_zero, String.ofList_nil, String.append_empty]
      exact h
  | succ k ih =>
      have hshort : (p.text ++ slashes k).utf8ByteSize < FileSystem.maxPathSize := by
        rw [String.utf8ByteSize_append, size_slashes]
        omega
      rw [slashes_succ, ← String.append_assoc]
      exact FileSystem.look_slash (ih (by omega)) hdir hshort

/-- In the longest path nothing is found of what the archive has. -/
theorem find_archived_longestPath :
    (∀ s ∈ sampleFinder.sourceSuffixes ++ sampleFinder.bytecodeSuffixes, '/' ∉ s.toList) ∧
      DirectoryAt sampleFiles longestPath sampleTree ∧ ArchiveAt sampleFiles ⟨"lib.zip"⟩ sampleTree ∧
      isUnitName "n.k" = true ∧
      outcome (find { sampleFinder with searchPath := [longestPath] } sampleFiles "n.k") = .error (.notFound "n.k") ∧
      outcome (find { sampleFinder with searchPath := [⟨"lib.zip"⟩] } sampleFiles "n.k") =
        .ok ⟨"n.k", "", false, .source "x = 1\n"⟩ := by
  have hlook : sampleFiles.look longestPath = .ok sampleTree :=
    look_slashes (p := ⟨"lib"⟩) (by cbv) rfl 4092 (by decide +kernel)
  have hsize : longestPath.text.utf8ByteSize = FileSystem.maxPathSize := by
    rw [longestPath, String.utf8ByteSize_append, size_slashes]
    rfl
  refine ⟨by decide, directoryAt_sample hlook, archiveAt_sample, isUnitName_nk, ?_, find_sampleZip⟩
  rw [find_of_longestPath (by decide) (directoryAt_sample hlook) hsize isUnitName_nk rfl]
  rfl

end Finder

end Launcher
