import Launcher.Freeze.App
import Launcher.Proofs.Files.Stored
import Launcher.Proofs.Files.Written
import Launcher.Proofs.Search.ArchivedTree
import Launcher.Proofs.Search.FoundCode
import Launcher.Proofs.Zip.RoundTrip

/-!
# An app carries its tree

The archive of an app has the files of the directory that are not hidden, each under the names that lead to it. So
behind the path of the app the same code is found for a module as in the directory.
-/

namespace Launcher

namespace FileNode

/-- What is in a file. -/
def content : FileNode → Bytes
  | .file content _ => content
  | .dir _ => []

end FileNode

namespace Freeze

variable {tree n : FileNode} {names others : List String} {name : String} {content : Bytes} {executable : Bool}

/-! ## What is shown of a tree -/

/-- The node that names lead to, none of which is hidden. -/
def Shown (tree : FileNode) (names : List String) (n : FileNode) : Prop :=
  tree.at? names = some n ∧ names.any isHidden = false

theorem storable_of_stored (h : tree.Stored) : tree.Storable := fun names n hn s hs =>
  (h.named names n (FileNode.mem_walk_of_at? hn) s hs).2

theorem mem_visible_iff_shown (h : tree.Stored) : (names, n) ∈ visible tree ↔ Shown tree names n := by
  rw [mem_visible, Shown]
  exact and_congr_left fun _ => ⟨h.at?_of_mem_walk, FileNode.mem_walk_of_at?⟩

theorem fileName_of_ne_dot {s : String} (hempty : s ≠ "") (hslash : '/' ∉ s.toList)
    (hdot : ∀ cs, s.toList ≠ '.' :: cs) : FileName s := by
  obtain ⟨c, cs, hcs⟩ := List.exists_cons_of_ne_nil (mt String.toList_eq_nil_iff.mp hempty)
  exact ⟨hslash, c, cs, hcs, fun hc => hdot cs (hc ▸ hcs)⟩

theorem Shown.fileNames (hn : Shown tree names n) (h : tree.Stored) : ∀ s ∈ names, FileName s := by
  intro s hs
  obtain ⟨hempty, hslash, -⟩ := h.named names n (FileNode.mem_walk_of_at? hn.1) s hs
  refine fileName_of_ne_dot hempty hslash fun cs hcs => ?_
  have hhidden : isHidden s = true := by simp [isHidden, hcs]
  exact Bool.eq_false_iff.mp hn.2 (List.any_eq_true.mpr ⟨s, hs, hhidden⟩)

theorem Shown.ne_nil (hn : Shown tree names n) (hdir : tree.isDir = true) (hfile : n.isDir = false) : names ≠ [] := by
  rintro rfl
  obtain rfl : tree = n := Option.some.inj hn.1
  rw [hdir] at hfile
  cases hfile

theorem slashed_injective (hne : names ≠ []) (hnames : ∀ s ∈ names, FileName s) (hothersNe : others ≠ [])
    (hothers : ∀ s ∈ others, FileName s) (h : slashed names = slashed others) : names = others := by
  rw [← splitOn_slashed hne hnames, h, splitOn_slashed hothersNe hothers]

/-- The members of an app: the files that are shown, under the names that lead to them. -/
def carried (tree : FileNode) : List (String × Bytes) :=
  ((visible tree).filter fun (_, n) => !n.isDir).map fun (names, n) => (slashed names, n.content)

theorem mem_carried (h : tree.Stored) : (name, content) ∈ carried tree ↔
    ∃ names executable, Shown tree names (.file content executable) ∧ slashed names = name := by
  simp only [carried, List.mem_map, List.mem_filter, Prod.exists, mem_visible_iff_shown h, Prod.mk.injEq]
  constructor
  · rintro ⟨names, n, ⟨hn, hfile⟩, hname, hcontent⟩
    cases n with
    | dir children => simp [FileNode.isDir] at hfile
    | file content' executable => exact ⟨names, executable, hcontent ▸ hn, hname⟩
  · rintro ⟨names, executable, hn, hname⟩
    exact ⟨names, _, ⟨hn, rfl⟩, hname, rfl⟩

theorem nodup_carried (h : tree.Stored) (hdir : tree.isDir = true) : ((carried tree).map Prod.fst).Nodup := by
  have hvisible : ((visible tree).map Prod.fst).Nodup := by
    have hperm : (visible tree).Perm (tree.walk.filter fun (names, _) => !names.any isHidden) := List.mergeSort_perm ..
    exact (hperm.map Prod.fst).nodup_iff.mpr ((FileNode.nodup_walk tree h).sublist (List.filter_sublist.map Prod.fst))
  have hfiles : (((visible tree).filter fun (_, n) => !n.isDir).map Prod.fst).Nodup :=
    hvisible.sublist (List.filter_sublist.map Prod.fst)
  have hnames : (carried tree).map Prod.fst =
      (((visible tree).filter fun (_, n) => !n.isDir).map Prod.fst).map slashed := by
    rw [carried, List.map_map, List.map_map]
    rfl
  rw [hnames]
  refine List.Nodup.map_on ?_ hfiles
  have hshown : ∀ names ∈ ((visible tree).filter fun (_, n) => !n.isDir).map Prod.fst,
      names ≠ [] ∧ ∀ s ∈ names, FileName s := by
    intro names hmem
    obtain ⟨⟨_, n⟩, hn, rfl⟩ := List.mem_map.mp hmem
    obtain ⟨hn, hfile⟩ := List.mem_filter.mp hn
    have hn := (mem_visible_iff_shown h).mp hn
    exact ⟨hn.ne_nil hdir (by simpa using hfile), hn.fileNames h⟩
  intro names hmem others hothers heq
  obtain ⟨hne, hfileNames⟩ := hshown names hmem
  obtain ⟨hothersNe, hothersNames⟩ := hshown others hothers
  exact slashed_injective hne hfileNames hothersNe hothersNames heq

/-! ## The assembly -/

variable {fs emptied there : FileSystem} {launcher source output : Path} {front : Bytes}

/-- No path of what is shown of the tree behind the path of its directory is too long. -/
def Short (source : Path) (tree : FileNode) : Prop :=
  ∀ names n, Shown tree names n → (names.foldl Path.join source).text.utf8ByteSize ≤ FileSystem.maxPathSize

/-- An app can be put together: there is a launcher, a directory with a file to start with, and an output that can be
written and is none of the files that are put in. -/
structure Assembly (fs : FileSystem) (launcher source output : Path) (front : Bytes) (tree : FileNode) : Prop where
  readable : fs.read launcher = .ok front
  directory : fs.look source = .ok tree
  isDir : tree.isDir = true
  stored : tree.Stored
  start : ∃ content executable, tree.at? [App.startFile] = some (.file content executable)
  short : Short source tree
  writable : ∃ emptied, fs.write output [] true = .ok emptied
  apart : ∀ names n, Shown tree names n → n.isDir = false →
    fs.locate (names.foldl Path.join source) ≠ fs.locate output

section

variable (hsource : there.look source = .ok tree) (hstored : tree.Stored) (hshort : Short source tree)

include hsource hstored hshort

/-- What is shown of the tree is found behind the path of its directory. -/
theorem look_shown (hn : Shown tree names n) : there.look (names.foldl Path.join source) = .ok n := by
  by_cases hne : names = []
  · subst hne
    obtain rfl : tree = n := Option.some.inj hn.1
    exact hsource
  · have hsize := hshort names n hn
    rw [Path.foldl_join hne (hn.fileNames hstored)] at hsize ⊢
    exact look_join hsource (storable_of_stored hstored) hne (hn.fileNames hstored) hn.1 hsize

theorem list_eq_ok : App.list there source = .ok (App.files tree) := by
  have hseen : ((visible tree).all fun (names, n) =>
      !n.isDir || there.isDir (names.foldl Path.join source)) = true := by
    refine List.all_eq_true.mpr fun ⟨names, n⟩ hn => ?_
    have hlook := look_shown hsource hstored hshort ((mem_visible_iff_shown hstored).mp hn)
    simp only [FileSystem.isDir, hlook, Bool.not_or_self]
  simp only [App.list, hsource, hseen, if_true]

end

/-- The members are read as the files that were there before the output was emptied. -/
theorem mapM_member (hstored : tree.Stored)
    (hread : ∀ names content executable, Shown tree names (.file content executable) →
      emptied.look (names.foldl Path.join source) = .ok (.file content executable)) :
    (App.files tree).mapM (App.member emptied source) = .ok (carried tree) := by
  rw [mapM_eq_ok, App.files, carried, List.forall₂_map_left_iff, List.forall₂_map_right_iff, List.forall₂_same]
  rintro ⟨names, n⟩ hn
  obtain ⟨hn, hfile⟩ := List.mem_filter.mp hn
  have hn := (mem_visible_iff_shown hstored).mp hn
  cases n with
  | dir children => simp [FileNode.isDir] at hfile
  | file content executable =>
      simp only [App.member, read_of_look (hread names content executable hn)]
      rfl

/-- The app is written, and the directory stays what it was unless the output is in it. -/
theorem Assembly.assemble_eq_ok (h : Assembly fs launcher source output front tree) :
    ∃ after, App.assemble fs launcher source output = .ok ((carried tree).length, after) ∧
      after.look output = .ok (.file (Zip.append front (carried tree)) true) ∧
      ∀ start place, fs.locate source = .ok start → after.locate output = .ok place → ¬start <+: place →
        after.look source = .ok tree := by
  obtain ⟨emptied, hemptied⟩ := h.writable
  obtain ⟨dirs, last, hwrites, hchanged⟩ := FileSystem.exists_writesTo hemptied
  obtain ⟨after, hafter, hagain⟩ := (hwrites.again hchanged rfl).exists_write (Zip.append front (carried tree)) true
  obtain ⟨content, executable, hstart⟩ := h.start
  have hmain : fs.isFile (source.join App.startFile) = true :=
    FileSystem.isFile_iff.mpr ⟨content, executable, look_shown h.directory h.stored h.short ⟨hstart, by decide +kernel⟩⟩
  have hmembers : (App.files tree).mapM (App.member emptied source) = .ok (carried tree) :=
    mapM_member h.stored fun names content executable hn =>
      FileSystem.look_other_of_write hemptied (look_shown h.directory h.stored h.short hn) rfl (h.apart _ _ hn rfl)
  refine ⟨after, ?_, FileSystem.look_of_write hafter, fun start place hsource houtput hapart => ?_⟩
  · simp [App.assemble, hmain, h.readable, list_eq_ok h.directory h.stored h.short, hemptied, hmembers, hafter,
      Except.mapError, bind, Except.bind]
  · have hwritesAgain := hwrites.again hchanged rfl
    have hplace := (hwritesAgain.again hagain rfl).locate hagain.here
    obtain rfl : dirs ++ [last] = place := Except.ok.inj (hplace.symm.trans houtput)
    have hstay : ∀ {state : FileSystem}, state.locate source = .ok start → ∀ names,
        state.locate source = .ok names → ¬names <+: dirs ++ [last] := fun hat names hnames =>
      Except.ok.inj (hat.symm.trans hnames) ▸ hapart
    have hlook := hchanged.look h.directory (.inr (hstay hsource))
    exact hagain.look hlook (.inr (hstay (hchanged.locate hsource)))

/-! ## The archive of an app -/

/-- The archive has one member for each file that is shown of the tree, which reads back. -/
structure Carries (a : Zip.Archive) (tree : FileNode) : Prop where
  nodup : (a.members.map (·.name)).Nodup
  members : ∀ name, name ∈ a.members.map (·.name) ↔
    ∃ names content executable, Shown tree names (.file content executable) ∧ slashed names = name
  read : ∀ names content executable path, Shown tree names (.file content executable) →
    a.read path (slashed names) = .ok content

theorem exists_carries (hstored : tree.Stored) (hdir : tree.isDir = true) (hzip : Zip.ReadsBack front (carried tree)) :
    ∃ a, Zip.Archive.ofBytes? (Zip.append front (carried tree)) = some a ∧ Carries a tree := by
  obtain ⟨a, ha, hnames, hread⟩ := hzip
  refine ⟨a, ha, hnames ▸ nodup_carried hstored hdir, fun name => ?_, fun names content executable path hn => ?_⟩
  · rw [hnames, List.mem_map]
    constructor
    · rintro ⟨⟨_, content⟩, hmember, rfl⟩
      obtain ⟨names, executable, hn, hname⟩ := (mem_carried hstored).mp hmember
      exact ⟨names, content, executable, hn, hname⟩
    · rintro ⟨names, content, executable, hn, rfl⟩
      exact ⟨_, (mem_carried hstored).mpr ⟨names, executable, hn, rfl⟩, rfl⟩
  · exact hread _ content path ((mem_carried hstored).mpr ⟨names, executable, hn, rfl⟩)

/-! ## Modules in an app -/

/-- No suffix of the configuration leads into a directory or makes a name one that is hidden. -/
def SuffixesShow (f : Finder) : Prop :=
  ∀ s ∈ f.sourceSuffixes ++ f.bytecodeSuffixes, '/' ∉ s.toList ∧ ("__pycache__".endsWith s = true → s = "")

theorem suffix_startsWith_dot {config : Config} (h : config.fault? = none) :
    ∀ s ∈ config.sourceSuffixes ++ config.bytecodeSuffixes, s.startsWith "." = true := by
  simp only [Config.fault?] at h
  split at h
  · cases h
  · split at h
    · cases h
    · rw [Option.map_eq_none_iff, List.find?_eq_none] at h
      simpa only [Bool.not_eq_true', Bool.not_eq_false] using h

/-- The suffixes of a configuration without a fault start with a dot, and there is none in a name that is hidden for
another reason. -/
theorem suffixesShow_ofConfig {config : Config} {table : Table.FrozenTable} {searchPath : List Path} {magic : Bytes}
    (hconfig : config.fault? = none)
    (hslash : ∀ s ∈ config.sourceSuffixes ++ config.bytecodeSuffixes, '/' ∉ s.toList) :
    SuffixesShow (Finder.ofConfig config table searchPath magic) := by
  intro s hs
  have hdot : ".".toList <+: s.toList := String.startsWith_string_iff.mp (suffix_startsWith_dot hconfig s hs)
  refine ⟨hslash s hs, fun hend => ?_⟩
  have hmem : '.' ∈ "__pycache__".toList := (Text.endsWith_iff.mp hend).subset (hdot.subset (by decide))
  exact absurd hmem (by decide)

section

variable {f : Finder} {comps : List String}

/-- A file in which a module is looked for is none that is hidden. -/
theorem candidate_shown (hsuffixes : SuffixesShow f) (hne : comps ≠ []) (hnames : ∀ s ∈ comps, FileName s)
    (hcache : "__pycache__" ∉ comps) {c : Finder.Candidate} (hc : c ∈ f.candidates (slashed comps)) :
    ∃ names, names ≠ [] ∧ (∀ s ∈ names, FileName s) ∧ names.any isHidden = false ∧ c.file = slashed names := by
  have hplace : ∀ dirs base suffix, (∀ s ∈ dirs, s ∈ comps) → FileName base → base ≠ "__pycache__" →
      suffix ∈ f.sourceSuffixes ++ f.bytecodeSuffixes →
        (∀ s ∈ dirs ++ [base ++ suffix], FileName s) ∧ (dirs ++ [base ++ suffix]).any isHidden = false := by
    intro dirs base suffix hdirs hbase hbaseCache hsuffix
    obtain ⟨hslash, hend⟩ := hsuffixes suffix hsuffix
    have hlast : base ++ suffix ≠ "__pycache__" := by
      intro heq
      have hempty := hend (heq ▸ Text.endsWith_append base suffix)
      rw [hempty, String.append_empty] at heq
      exact hbaseCache heq
    have hall : ∀ s ∈ dirs ++ [base ++ suffix], FileName s ∧ s ≠ "__pycache__" := by
      intro s hs
      rcases List.mem_append.mp hs with hs | hs
      · exact ⟨hnames s (hdirs s hs), fun heq => hcache (heq ▸ hdirs s hs)⟩
      · obtain rfl := List.mem_singleton.mp hs
        exact ⟨hbase.append hslash, hlast⟩
    refine ⟨fun s hs => (hall s hs).1, List.any_eq_false.mpr fun s hs => ?_⟩
    rw [isHidden_fileName (hall s hs).1 (hall s hs).2]
    exact Bool.false_ne_true
  obtain ⟨suffix, hsuffix, hfile | ⟨dirs, base, rfl, hfile⟩⟩ := exists_suffix_of_candidate hne hc
  · obtain ⟨hfileNames, hshown⟩ := hplace comps "__init__" suffix (fun _ hs => hs)
      (fileName_of_isIdentifier (by decide)) (by decide) hsuffix
    exact ⟨_, by simp, hfileNames, hshown, hfile⟩
  · have hbase : base ∈ dirs ++ [base] := by simp
    obtain ⟨hfileNames, hshown⟩ := hplace dirs base suffix (fun _ hs => List.mem_append_left _ hs) (hnames base hbase)
      (fun heq => hcache (heq ▸ hbase)) hsuffix
    exact ⟨_, by simp, hfileNames, hshown, hfile⟩

theorem isFile_shown (hsource : there.look source = .ok tree) (hstored : tree.Stored) (hshort : Short source tree)
    (hne : names ≠ []) (hnames : ∀ s ∈ names, FileName s) (hshown : names.any isHidden = false) :
    there.isFile (source.join (slashed names)) = true ↔
      ∃ content executable, Shown tree names (.file content executable) := by
  rw [FileSystem.isFile_iff]
  constructor
  · rintro ⟨content, executable, hlook⟩
    exact ⟨content, executable, FileSystem.at?_of_look hsource hne hnames hlook, hshown⟩
  · rintro ⟨content, executable, hn⟩
    have hlook := look_shown hsource hstored hshort hn
    rw [Path.foldl_join hne hnames] at hlook
    exact ⟨content, executable, hlook⟩

theorem contains_shown {a : Zip.Archive} (hstored : tree.Stored) (hdir : tree.isDir = true) (ha : Carries a tree)
    (hne : names ≠ []) (hnames : ∀ s ∈ names, FileName s) :
    a.contains (slashed names) = true ↔ ∃ content executable, Shown tree names (.file content executable) := by
  have hmember : a.contains (slashed names) = true ↔ slashed names ∈ a.members.map (·.name) := by
    simp [contains_eq]
  rw [hmember, ha.members]
  constructor
  · rintro ⟨others, content, executable, hn, hsame⟩
    obtain rfl := slashed_injective (hn.ne_nil hdir rfl) (hn.fileNames hstored) hne hnames hsame
    exact ⟨content, executable, hn⟩
  · rintro ⟨content, executable, hn⟩
    exact ⟨names, content, executable, hn, rfl⟩

/-- A component of a dotted name does not begin with a dot. -/
theorem fileName_of_component {s : String} (hs : s ∈ name.splitOn ".") (hempty : s ≠ "") (hslash : '/' ∉ s.toList) :
    FileName s := by
  refine fileName_of_ne_dot hempty hslash fun cs hcs => ?_
  have hsplit : name.splitOn "." = (name.toList.splitOn '.').map String.ofList := Text.splitOn_singleton name '.'
  rw [hsplit] at hs
  obtain ⟨part, hpart, rfl⟩ := List.mem_map.mp hs
  rw [String.toList_ofList] at hcs
  exact Text.not_mem_of_mem_splitOn hpart (hcs ▸ List.mem_cons_self)

/-- For a module the same code is found in a directory and in an archive that carries what is shown of it. -/
theorem foundCode_find_carried {after : FileSystem} {path : Path} {bytes : Bytes} {a : Zip.Archive}
    (hsuffixes : SuffixesShow f) (hsource : there.look source = .ok tree) (hdir : tree.isDir = true)
    (hstored : tree.Stored) (hshort : Short source tree)
    (hpath : after.look path = .ok (.file bytes executable)) (hbytes : Zip.Archive.ofBytes? bytes = some a)
    (ha : Carries a tree) (hname : ∀ s ∈ name.splitOn ".", '/' ∉ s.toList ∧ s ≠ "__pycache__") :
    Finder.foundCode (Finder.find { f with searchPath := [path] } after name) =
      Finder.foundCode (Finder.find { f with searchPath := [source] } there name) := by
  cases htable : f.table.find name with
  | found => simp only [Finder.find, htable]
  | forcedFailure => simp only [Finder.find, htable]
  | notFound =>
      by_cases hempty : ∃ s ∈ name.splitOn ".", s = ""
      · have hany : (name.splitOn ".").any (·.isEmpty) = true := by simpa using hempty
        simp only [Finder.find, htable, hany]
        rfl
      push Not at hempty
      have hne := Text.splitOn_ne_nil name '.'
      have hnames : ∀ s ∈ name.splitOn ".", FileName s := fun s hs =>
        fileName_of_component hs (hempty s hs) (hname s hs).1
      have hcache : "__pycache__" ∉ name.splitOn "." := fun hs => (hname _ hs).2 rfl
      rw [find_eq_search_of_ne_empty hempty htable, find_eq_search_of_ne_empty hempty htable]
      refine Finder.foundCode_search_congr (Finder.shelf?_archive hpath hbytes)
        (Finder.shelf?_directory (FileSystem.isDir_of_look hsource hdir)) (fun c hc => ?_) (fun c hc hthere => ?_)
      · obtain ⟨names, hne, hnames, hshown, hfile⟩ := candidate_shown hsuffixes hne hnames hcache hc
        rw [hfile, Bool.eq_iff_iff]
        exact (contains_shown hstored hdir ha hne hnames).trans
          (isFile_shown hsource hstored hshort hne hnames hshown).symm
      · obtain ⟨names, hne, hnames, hshown, hfile⟩ := candidate_shown hsuffixes hne hnames hcache hc
        rw [hfile] at hthere ⊢
        obtain ⟨content, executable, hn⟩ := (contains_shown hstored hdir ha hne hnames).mp hthere
        have hlook := look_shown hsource hstored hshort hn
        rw [Path.foldl_join hne hnames] at hlook
        exact (ha.read names content executable path.text hn).trans (read_of_look hlook).symm

end

/-- An app starts with its launcher and carries the files of the directory that are shown, so the code of a module is
found behind the path of the app as it is in the directory. -/
theorem assemble_carries (h : Assembly fs launcher source output front tree)
    (hzip : Zip.ReadsBack front (carried tree)) :
    ∃ after rest a, App.assemble fs launcher source output = .ok ((carried tree).length, after) ∧
      after.read output = .ok (front ++ rest) ∧ Zip.Archive.ofBytes? (front ++ rest) = some a ∧ Carries a tree ∧
      (∀ f name there, SuffixesShow f → (∀ s ∈ name.splitOn ".", '/' ∉ s.toList ∧ s ≠ "__pycache__") →
        there.look source = .ok tree →
          Finder.foundCode (Finder.find { f with searchPath := [output] } after name) =
            Finder.foundCode (Finder.find { f with searchPath := [source] } there name)) ∧
      ∀ start place, fs.locate source = .ok start → after.locate output = .ok place → ¬start <+: place →
        after.look source = .ok tree := by
  obtain ⟨after, hafter, houtput, hstays⟩ := h.assemble_eq_ok
  obtain ⟨a, hbytes, ha⟩ := exists_carries h.stored h.isDir hzip
  obtain ⟨rest, hrest⟩ : ∃ rest, Zip.append front (carried tree) = front ++ rest :=
    ⟨_, by rw [Zip.append_eq, List.append_assoc]⟩
  rw [hrest] at houtput hbytes
  exact ⟨after, rest, a, hafter, read_of_look houtput, hbytes, ha, fun f name there hsuffixes hname hthere =>
    foundCode_find_carried hsuffixes hthere h.isDir h.stored h.short houtput hbytes ha hname, hstays⟩

/-! ### A tree with a hidden file -/

def sampleSource : Bytes := Bytes.ofString "x = 1\n"

/-- Besides the file to start with, a file that is hidden in a directory that is shown. -/
def sampleTree : FileNode := .dir [("__main__.py", .file sampleSource), ("a.d", .dir [("__pycache__", .file [])])]

def sampleFiles : FileSystem where
  root := .dir [("bin", .file [0x4C]), ("src", sampleTree)]

theorem walk_sampleTree : sampleTree.walk = [([], sampleTree), (["__main__.py"], .file sampleSource),
    (["a.d"], .dir [("__pycache__", .file [])]), (["a.d", "__pycache__"], .file [])] := rfl

theorem visible_sampleTree : visible sampleTree = [([], sampleTree), (["__main__.py"], .file sampleSource),
    (["a.d"], .dir [("__pycache__", .file [])])] := by
  cbv

theorem carried_sampleTree : carried sampleTree = [("__main__.py", sampleSource)] := by cbv

theorem stored_sampleTree : sampleTree.Stored where
  distinct names children h := by
    have hall : ∀ p ∈ sampleTree.walk, (p.2.children.map Prod.fst).Nodup := by
      rw [walk_sampleTree]
      decide
    exact hall _ h
  named names n h := by
    have hall : ∀ names ∈ sampleTree.walk.map Prod.fst, ∀ s ∈ names,
        s ≠ "" ∧ '/' ∉ s.toList ∧ '\x00' ∉ s.toList ∧ s.utf8ByteSize ≤ FileSystem.maxNameSize := by
      rw [walk_sampleTree]
      decide
    exact hall names (List.mem_map_of_mem h)

theorem shown_sampleTree (hn : Shown sampleTree names n) :
    names = [] ∧ n = sampleTree ∨ names = ["__main__.py"] ∧ n = .file sampleSource ∨
      names = ["a.d"] ∧ n = .dir [("__pycache__", .file [])] := by
  simpa [visible_sampleTree] using (mem_visible_iff_shown stored_sampleTree).mpr hn

theorem short_sampleTree : Short ⟨"src"⟩ sampleTree := by
  intro names n hn
  rcases shown_sampleTree hn with ⟨rfl, -⟩ | ⟨rfl, -⟩ | ⟨rfl, -⟩ <;> decide +kernel

theorem look_sampleFiles : sampleFiles.look ⟨"src"⟩ = .ok sampleTree := by cbv

theorem look_launcher : sampleFiles.look ⟨"bin"⟩ = .ok (.file [0x4C]) := by cbv

theorem locate_output : sampleFiles.locate ⟨"out"⟩ = .error FileSystem.notFound := by cbv

theorem write_output : sampleFiles.write ⟨"out"⟩ [] true =
    .ok { root := .dir [("bin", .file [0x4C]), ("src", sampleTree), ("out", .file [] true)] } := by
  cbv

theorem assembly_sample : Assembly sampleFiles ⟨"bin"⟩ ⟨"src"⟩ ⟨"out"⟩ [0x4C] sampleTree where
  readable := read_of_look look_launcher
  directory := look_sampleFiles
  isDir := rfl
  stored := stored_sampleTree
  start := ⟨sampleSource, false, rfl⟩
  short := short_sampleTree
  writable := ⟨_, write_output⟩
  apart names n hn _ := by
    have hlook := look_shown look_sampleFiles stored_sampleTree short_sampleTree hn
    obtain ⟨place, hplace, -⟩ := FileSystem.look_eq_ok_iff.mp hlook
    rw [hplace, locate_output]
    intro heq
    cases heq

theorem readsBack_main (h : content.length < 2 ^ 16) : Zip.ReadsBack [0x4C] [("__main__.py", content)] := by
  have hname : (Bytes.ofString "__main__.py").length = 11 := by decide
  refine Zip.readsBack_of_fits ⟨by simp [hname], by simp, ?_⟩ (by simp)
  simp [Zip.body, Zip.length_encodeMember, hname]
  omega

theorem readsBack_sampleTree : Zip.ReadsBack [0x4C] (carried sampleTree) :=
  carried_sampleTree ▸ readsBack_main (by decide)

theorem assemble_carries_sample :
    Assembly sampleFiles ⟨"bin"⟩ ⟨"src"⟩ ⟨"out"⟩ [0x4C] sampleTree ∧ Zip.ReadsBack [0x4C] (carried sampleTree) ∧
      ∃ after rest a, App.assemble sampleFiles ⟨"bin"⟩ ⟨"src"⟩ ⟨"out"⟩ = .ok (1, after) ∧
        after.read ⟨"out"⟩ = .ok ([0x4C] ++ rest) ∧ Zip.Archive.ofBytes? ([0x4C] ++ rest) = some a ∧
        Carries a sampleTree ∧ a.read "out" "__main__.py" = .ok sampleSource := by
  obtain ⟨after, rest, a, hafter, hread, ha, hcarries, -, -⟩ := assemble_carries assembly_sample readsBack_sampleTree
  have hmain := hcarries.read ["__main__.py"] sampleSource false "out" ⟨rfl, by decide +kernel⟩
  rw [slashed_singleton] at hmain
  rw [carried_sampleTree] at hafter
  exact ⟨assembly_sample, readsBack_sampleTree, after, rest, a, hafter, hread, ha, hcarries, hmain⟩

/-! ### What an app does not carry -/

theorem fileName_start : FileName "__main__.py" := ⟨by decide, '_', _, rfl, by decide⟩

/-- A directory with a path of the greatest size: no file below it can be reached. -/
def longSource : Path := ⟨"src" ++ Finder.slashes 4092⟩

theorem assemble_longSource : sampleFiles.look longSource = .ok sampleTree ∧
    App.assemble sampleFiles ⟨"bin"⟩ longSource ⟨"out"⟩ = .error (.missingStart longSource App.startFile) := by
  have hlook : sampleFiles.look longSource = .ok sampleTree :=
    Finder.look_slashes look_sampleFiles rfl 4092 (by decide +kernel)
  have hsize : longSource.text.utf8ByteSize = FileSystem.maxPathSize := by
    rw [longSource, String.utf8ByteSize_append, Finder.size_slashes]
    rfl
  have hlong := Finder.size_join longSource (List.cons_ne_nil "__main__.py" []) (by simpa using fileName_start)
  rw [slashed_singleton, hsize] at hlong
  have hmissing : sampleFiles.isFile (longSource.join App.startFile) = false := Finder.isFile_of_long hlong
  refine ⟨hlook, ?_⟩
  simp [App.assemble, hmissing, bind, Except.bind]

theorem writesTo_start : sampleFiles.WritesTo ⟨"src/__main__.py"⟩ ["src"] "__main__.py" where
  checkPath := FileSystem.checkPath_eq_ok.mpr ⟨by decide, by decide +kernel⟩
  named := by decide +kernel
  pieces := by
    have hfront : FileName "src" := ⟨by decide, 's', _, rfl, by decide⟩
    have habsolute : (⟨"src/__main__.py"⟩ : Path).isAbsolute = false := by simp [Path.isAbsolute]
    have hjoined : slashed ["src", "__main__.py"] = "src/__main__.py" := by decide +kernel
    have hsplit := splitOn_slashed (List.cons_ne_nil "src" ["__main__.py"]) (by simpa using ⟨hfront, fileName_start⟩)
    have hfollow : sampleFiles.follow [] "src" = .ok ["src"] := FileSystem.follow_child hfront (by decide) rfl rfl
    rw [hjoined] at hsplit
    refine ⟨["src"], by simp [Path.pieces, habsolute, hsplit], ?_⟩
    rw [habsolute]
    exact except_bind_eq_ok.mpr ⟨["src"], hfollow, rfl⟩
  room := (FileSystem.hasRoom_iff (d := sampleTree) rfl).mpr ⟨rfl, rfl⟩

/-- An app in the place of a file that it should carry carries the empty file. -/
theorem assemble_overStart : ∃ after bytes a,
    App.assemble sampleFiles ⟨"bin"⟩ ⟨"src"⟩ ⟨"src/__main__.py"⟩ = .ok (1, after) ∧
      after.read ⟨"src/__main__.py"⟩ = .ok bytes ∧ Zip.Archive.ofBytes? bytes = some a ∧
      a.read "src/__main__.py" "__main__.py" = .ok [] := by
  have hpath : (⟨"src"⟩ : Path).join "__main__.py" = ⟨"src/__main__.py"⟩ := by decide +kernel
  have hshown : Shown sampleTree ["__main__.py"] (.file sampleSource) := ⟨rfl, by decide +kernel⟩
  have hstart : sampleFiles.isFile ((⟨"src"⟩ : Path).join App.startFile) = true :=
    FileSystem.isFile_iff.mpr ⟨_, _, look_shown look_sampleFiles stored_sampleTree short_sampleTree hshown⟩
  have hfiles : App.files sampleTree = [["__main__.py"]] := by cbv
  have hlist := list_eq_ok look_sampleFiles stored_sampleTree short_sampleTree
  rw [hfiles] at hlist
  obtain ⟨emptied, hempty, hchanged⟩ := writesTo_start.exists_write [] true
  have hmember : App.member emptied ⟨"src"⟩ ["__main__.py"] = .ok ("__main__.py", []) := by
    simp [App.member, hpath, read_of_look (FileSystem.look_of_write hempty)]
  have hmembers : [["__main__.py"]].mapM (App.member emptied ⟨"src"⟩) = .ok [("__main__.py", [])] :=
    mapM_eq_ok.mpr (.cons hmember .nil)
  obtain ⟨after, hafter, -⟩ :=
    (writesTo_start.again hchanged rfl).exists_write (Zip.append [0x4C] [("__main__.py", [])]) true
  obtain ⟨a, ha, -, hread⟩ := @readsBack_main [] (by decide)
  refine ⟨after, _, a, ?_, read_of_look (FileSystem.look_of_write hafter), ha, hread _ _ _ (by simp)⟩
  simp only [App.assemble, hstart, assembly_sample.readable, hlist, hempty, hmembers, hafter, Except.mapError, bind,
    Except.bind]
  rfl

/-- There is no code for a module of which no file is in the archive. -/
theorem foundCode_find_none {f : Finder} {path : Path} {bytes : Bytes} {a : Zip.Archive}
    (hpath : there.look path = .ok (.file bytes executable)) (hbytes : Zip.Archive.ofBytes? bytes = some a)
    (htable : f.table.find name = .notFound) (hname : ∀ s ∈ name.splitOn ".", s ≠ "")
    (h : ∀ c ∈ f.candidates (slashed (name.splitOn ".")), c.file ∉ a.members.map (·.name)) :
    Finder.foundCode (Finder.find { f with searchPath := [path] } there name) = none := by
  have hnone : (f.candidates (slashed (name.splitOn "."))).find?
      ((Finder.archiveShelf path a).hasFile ·.file) = none := by
    refine List.find?_eq_none.mpr fun c hc hthere => h c hc ?_
    have hcontains : a.contains c.file = true := hthere
    rw [contains_eq] at hcontains
    simpa using hcontains
  rw [find_eq_search_of_ne_empty hname htable, Finder.foundCode_search (Finder.shelf?_archive hpath hbytes), hnone]
  rfl

/-- A finder with a suffix that leads into a directory, to a file that is hidden. -/
def nestedFinder : Finder where
  sourceSuffixes := [".d/__pycache__"]
  bytecodeSuffixes := []
  magic := []

theorem candidates_nestedFinder : nestedFinder.candidates "a" =
    [⟨slashed ["a", "__init__.d", "__pycache__"], true, false⟩, ⟨slashed ["a.d", "__pycache__"], false, false⟩] := by
  decide +kernel

theorem fileNames_nested : (∀ s ∈ ["a", "__init__.d", "__pycache__"], FileName s) ∧
    ∀ s ∈ ["a.d", "__pycache__"], FileName s := by
  have hcache : FileName "__pycache__" := ⟨by decide, '_', _, rfl, by decide⟩
  have hinit : FileName "__init__.d" := ⟨by decide, '_', _, rfl, by decide⟩
  have hname : FileName "a" := ⟨by decide, 'a', _, rfl, by decide⟩
  have hdir : FileName "a.d" := ⟨by decide, 'a', _, rfl, by decide⟩
  simp [hcache, hinit, hname, hdir]

/-- In the directory the module is found in the file that is hidden. -/
theorem foundCode_nestedFinder :
    Finder.foundCode ({ nestedFinder with searchPath := [⟨"src"⟩] }.find sampleFiles "a") =
      some (false, .source "") := by
  have hsplit : "a".splitOn "." = ["a"] := Text.splitOn_of_not_mem (s := "a") (c := '.') (by decide)
  have hlook : sampleFiles.look ((⟨"src"⟩ : Path).join (slashed ["a.d", "__pycache__"])) = .ok (.file []) :=
    look_join look_sampleFiles (storable_of_stored stored_sampleTree) (by simp) fileNames_nested.2 rfl
      (by decide +kernel)
  have hthere : sampleFiles.isFile ((⟨"src"⟩ : Path).join (slashed ["a.d", "__pycache__"])) = true :=
    FileSystem.isFile_iff.mpr ⟨_, _, hlook⟩
  have hmissing : sampleFiles.isFile ((⟨"src"⟩ : Path).join (slashed ["a", "__init__.d", "__pycache__"])) = false := by
    refine Bool.eq_false_iff.mpr fun hfile => ?_
    obtain ⟨content, executable, hfile⟩ := FileSystem.isFile_iff.mp hfile
    cases FileSystem.at?_of_look look_sampleFiles (by simp) fileNames_nested.1 hfile
  have hshelf : Finder.shelf? sampleFiles ⟨"src"⟩ = .ok (some (Finder.directoryShelf sampleFiles ⟨"src"⟩)) :=
    Finder.shelf?_directory (FileSystem.isDir_of_look look_sampleFiles rfl)
  have hfound : (nestedFinder.candidates "a").find? ((Finder.directoryShelf sampleFiles ⟨"src"⟩).hasFile ·.file) =
      some ⟨slashed ["a.d", "__pycache__"], false, false⟩ := by
    simp [candidates_nestedFinder, Finder.directoryShelf, hmissing, hthere]
  have hread : (Finder.directoryShelf sampleFiles ⟨"src"⟩).read (slashed ["a.d", "__pycache__"]) = .ok [] :=
    read_of_look hlook
  have hdecode : Utf8.decode [] = .ok "" := by cbv
  rw [find_eq_search_of_ne_empty (by simp [hsplit]) rfl, hsplit, slashed_singleton, Finder.foundCode_search hshelf,
    hfound]
  simp only [Option.bind_some, hread, Finder.located, hdecode]
  rfl

/-- In the app it is not. -/
theorem foundCode_hidden : ∃ after, App.assemble sampleFiles ⟨"bin"⟩ ⟨"src"⟩ ⟨"out"⟩ = .ok (1, after) ∧
    Finder.foundCode ({ nestedFinder with searchPath := [⟨"out"⟩] }.find after "a") = none := by
  obtain ⟨after, hafter, hlook, -⟩ := assembly_sample.assemble_eq_ok
  obtain ⟨a, ha, hnames, -⟩ := readsBack_sampleTree
  rw [carried_sampleTree] at hafter hnames
  have hsplit : "a".splitOn "." = ["a"] := Text.splitOn_of_not_mem (s := "a") (c := '.') (by decide)
  refine ⟨after, hafter, foundCode_find_none hlook ha rfl (by simp [hsplit]) ?_⟩
  rw [hsplit, slashed_singleton, candidates_nestedFinder, hnames]
  decide +kernel

/-- Where an app does not carry its tree: the directory has too long a path, the output is a file of the tree, or
modules are looked for in files that are hidden. -/
theorem assemble_not_carries :
    (sampleFiles.look longSource = .ok sampleTree ∧
      App.assemble sampleFiles ⟨"bin"⟩ longSource ⟨"out"⟩ = .error (.missingStart longSource App.startFile)) ∧
    (∃ after bytes a, App.assemble sampleFiles ⟨"bin"⟩ ⟨"src"⟩ ⟨"src/__main__.py"⟩ = .ok (1, after) ∧
      after.read ⟨"src/__main__.py"⟩ = .ok bytes ∧ Zip.Archive.ofBytes? bytes = some a ∧
      sampleTree.at? ["__main__.py"] = some (.file sampleSource) ∧
      a.read "src/__main__.py" "__main__.py" = .ok [] ∧ sampleSource ≠ []) ∧
    ∃ after, App.assemble sampleFiles ⟨"bin"⟩ ⟨"src"⟩ ⟨"out"⟩ = .ok (1, after) ∧
      Finder.foundCode ({ nestedFinder with searchPath := [⟨"src"⟩] }.find sampleFiles "a") =
        some (false, .source "") ∧
      Finder.foundCode ({ nestedFinder with searchPath := [⟨"out"⟩] }.find after "a") = none := by
  obtain ⟨overwritten, bytes, a, hover, hread, ha, hmain⟩ := assemble_overStart
  obtain ⟨after, hafter, hnone⟩ := foundCode_hidden
  exact ⟨assemble_longSource, ⟨overwritten, bytes, a, hover, hread, ha, rfl, hmain, by decide⟩, after, hafter,
    foundCode_nestedFinder, hnone⟩

end Freeze

end Launcher
