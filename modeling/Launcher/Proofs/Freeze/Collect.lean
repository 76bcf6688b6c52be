import Launcher.Freeze.Collect
import Launcher.Proofs.Files.Look
import Launcher.Proofs.Table.Build
import Launcher.Proofs.Table.Names
import Mathlib.Data.List.Forall2

/-!
# The units of a tree

Each unit comes of one node of the tree: the source of a module or of a package, or a directory without such a
source. With a unit there is one for every package that its name passes through. Where the names of the units are
all different, a name comes of one node only.
-/

namespace Launcher.Freeze

open Table (isIdentifier not_mem_of_isIdentifier)

/-! ## Identifiers as names of files -/

theorem fileName_of_isIdentifier {s : String} (h : isIdentifier s = true) : FileName s where
  slash := not_mem_of_isIdentifier h (by decide)
  head := by
    have hdot : '.' ∉ s.toList := not_mem_of_isIdentifier h (by decide)
    cases hs : s.toList with
    | nil => simp [isIdentifier, hs] at h
    | cons c cs => exact ⟨c, cs, rfl, fun hc => hdot (by simp [hs, hc])⟩

theorem splitOn_dotted {components : List String} (hne : components ≠ [])
    (h : ∀ c ∈ components, isIdentifier c = true) : (dotted components).splitOn "." = components :=
  @Text.splitOn_intercalate '.' components hne fun c hc => not_mem_of_isIdentifier (h c hc) (by decide)

theorem dotted_inj {components others : List String} (hne : components ≠ [])
    (hids : ∀ c ∈ components, isIdentifier c = true) (hothers : others ≠ [])
    (hotherIds : ∀ c ∈ others, isIdentifier c = true) (h : dotted components = dotted others) :
    components = others := by
  rw [← splitOn_dotted hne hids, h, splitOn_dotted hothers hotherIds]

/-! ## What a node means -/

/-- The names lead to the source of the package or the module with these components. -/
inductive SourceAt : List String → List String → Bool → Prop where
  | package (components : List String) : SourceAt (components ++ [packageFile]) components true
  | module (dirs : List String) (base : String) : base ++ sourceSuffix ≠ packageFile →
      SourceAt (dirs ++ [base ++ sourceSuffix]) (dirs ++ [base]) false

theorem length_sourceSuffix : sourceSuffix.length = 3 := rfl

theorem dropEnd_sourceSuffix (base : String) :
    ((base ++ sourceSuffix).dropEnd sourceSuffix.length).toString = base := by
  rw [← String.toList_inj, length_sourceSuffix]
  simp [sourceSuffix]

theorem eq_dropEnd_append {file : String} (h : file.endsWith sourceSuffix = true) :
    (file.dropEnd sourceSuffix.length).toString ++ sourceSuffix = file := by
  obtain ⟨front, hfront⟩ := Text.endsWith_iff.mp h
  rw [← String.toList_inj, length_sourceSuffix, ← hfront]
  simp [← hfront, sourceSuffix]

theorem endsWith_sourceSuffix (base : String) : (base ++ sourceSuffix).endsWith sourceSuffix = true :=
  Text.endsWith_append base sourceSuffix

theorem endsWith_packageFile : packageFile.endsWith sourceSuffix = true := endsWith_sourceSuffix "__init__"

section

variable {dirs names components : List String} {file : String} {isPackage : Bool} {n : FileNode}

theorem finding_packageFile (hdir : n.isDir = false) :
    finding [] (dirs ++ [packageFile]) n =
      if dirs.isEmpty || !dirs.all isIdentifier then .nothing else .source dirs true := by
  rw [finding, if_neg (by simp [hdir]), List.getLast?_concat, List.dropLast_concat]
  simp [endsWith_packageFile]

theorem finding_file (hdir : n.isDir = false) (hfile : file ≠ packageFile) :
    finding [] (dirs ++ [file]) n =
      let components := dirs ++ [(file.dropEnd sourceSuffix.length).toString]
      if !file.endsWith sourceSuffix || !components.all isIdentifier then .nothing else .source components false := by
  have hfile : (file == packageFile) = false := by simpa using hfile
  rw [finding, if_neg (by simp [hdir]), List.getLast?_concat, List.dropLast_concat]
  simp [hfile]

theorem finding_eq_source :
    finding [] names n = .source components isPackage ↔
      n.isDir = false ∧ components ≠ [] ∧ (∀ c ∈ components, isIdentifier c = true) ∧
        SourceAt names components isPackage := by
  constructor
  · intro h
    have hdir : n.isDir = false := by
      rw [Bool.eq_false_iff]
      intro hdir
      rw [finding, if_pos hdir] at h
      dsimp only at h
      split at h <;> cases h
    obtain ⟨dirs, file, rfl⟩ : ∃ dirs file, names = dirs ++ [file] := by
      rcases List.eq_nil_or_concat' names with rfl | h'
      · rw [finding, if_neg (by simp [hdir])] at h
        cases h
      · exact h'
    by_cases hfile : file = packageFile
    · subst hfile
      rw [finding_packageFile hdir] at h
      split at h <;> cases h
      rename_i hok
      simp only [Bool.or_eq_true, not_or, List.isEmpty_iff, Bool.not_eq_true', Bool.not_eq_false,
        List.all_eq_true] at hok
      exact ⟨hdir, hok.1, hok.2, .package _⟩
    · rw [finding_file hdir hfile] at h
      dsimp only at h
      split at h <;> cases h
      rename_i hok
      simp only [Bool.or_eq_true, not_or, Bool.not_eq_true', Bool.not_eq_false, List.all_eq_true] at hok
      have hstem := eq_dropEnd_append hok.1
      have hsource := SourceAt.module dirs (file.dropEnd sourceSuffix.length).toString (by rwa [hstem])
      rw [hstem] at hsource
      exact ⟨hdir, by simp, hok.2, hsource⟩
  · rintro ⟨hdir, hne, hids, hsource⟩
    have hall : components.all isIdentifier = true := List.all_eq_true.mpr hids
    cases hsource with
    | package components =>
        have hempty : components.isEmpty = false := by simpa using hne
        rw [finding_packageFile hdir, hempty, hall]
        rfl
    | module dirs base hbase =>
        rw [finding_file hdir hbase, dropEnd_sourceSuffix, endsWith_sourceSuffix]
        dsimp only
        rw [hall]
        rfl

/-- A directory whose components are identifiers, with a source somewhere below it, is a package. It has no code
unless the source of the package is in it. -/
theorem finding_dir (hdir : n.isDir = true) :
    finding [] names n =
      if names.isEmpty || (n.child? packageFile).any (!·.isDir) || !names.all isIdentifier || !holdsSource n then
        .nothing
      else .namespacePackage names := by
  rw [finding, if_pos hdir, List.nil_append]

theorem finding_eq_namespacePackage (h : finding [] names n = .namespacePackage components) :
    n.isDir = true ∧ components = names ∧ names ≠ [] ∧ (∀ c ∈ names, isIdentifier c = true) ∧
      holdsSource n = true := by
  cases hdir : n.isDir with
  | true =>
      rw [finding_dir hdir] at h
      split at h <;> cases h
      rename_i hok
      simp only [Bool.or_eq_true, not_or, Bool.not_eq_true', Bool.not_eq_false, List.isEmpty_iff,
        List.all_eq_true] at hok
      exact ⟨rfl, rfl, hok.1.1.1, hok.1.2, hok.2⟩
  | false =>
      rw [finding, if_neg (by simp [hdir])] at h
      split at h
      · cases h
      · dsimp only at h
        split at h <;> split at h <;> cases h

end

/-! ## What is below a node -/

section

variable {tree n m : FileNode} {names more : List String}

theorem mem_visible : (names, n) ∈ visible tree ↔ (names, n) ∈ tree.walk ∧ names.any isHidden = false := by
  simp [visible, List.mem_mergeSort]

theorem mem_visible_append :
    (names ++ more, m) ∈ visible tree ↔ ∃ n, (names, n) ∈ visible tree ∧ (more, m) ∈ visible n := by
  simp only [mem_visible, FileNode.mem_walk_append, List.any_append, Bool.or_eq_false_iff]
  constructor
  · rintro ⟨⟨n, hn, hm⟩, hnames, hmore⟩
    exact ⟨n, ⟨hn, hnames⟩, hm, hmore⟩
  · rintro ⟨n, ⟨hn, hnames⟩, hm, hmore⟩
    exact ⟨⟨n, hn, hm⟩, hnames, hmore⟩

theorem mem_visible_packageFile (h : n.child? packageFile = some m) : ([packageFile], m) ∈ visible n :=
  mem_visible.mpr ⟨FileNode.mem_walk_cons.mpr ⟨m, FileNode.mem_children_of_child? h, FileNode.mem_walk_nil.mpr rfl⟩,
    by decide +kernel⟩

theorem holdsSource_iff :
    holdsSource n = true ↔
      ∃ more m, (more, m) ∈ visible n ∧ m.isDir = false ∧ more.getLast?.any (·.endsWith sourceSuffix) = true := by
  simp [holdsSource, List.any_eq_true]

/-- A directory on the way to a source holds a source. -/
theorem holdsSource_of_append (hm : (more, m) ∈ visible n) (h : holdsSource m = true) : holdsSource n = true := by
  obtain ⟨rest, s, hs, hdir, hlast⟩ := holdsSource_iff.mp h
  refine holdsSource_iff.mpr ⟨more ++ rest, s, mem_visible_append.mpr ⟨m, hm, hs⟩, hdir, ?_⟩
  cases hrest : rest.getLast? with
  | none => rw [hrest] at hlast; cases hlast
  | some file => rw [List.getLast?_append, hrest]; rwa [hrest] at hlast

end

/-! ## The units of a tree -/

section

variable {α β γ ε : Type}

theorem mapM_eq_ok {f : α → Except ε β} {as : List α} {bs : List β} :
    as.mapM f = .ok bs ↔ List.Forall₂ (fun a b => f a = .ok b) as bs := by
  induction as generalizing bs with
  | nil =>
      rw [List.mapM_nil, List.forall₂_nil_left_iff]
      exact ⟨fun h => (Except.ok.inj h).symm, fun h => congrArg Except.ok h.symm⟩
  | cons a as ih =>
      simp only [List.mapM_cons, except_bind_eq_ok, ih, List.forall₂_cons_left_iff]
      constructor
      · rintro ⟨b, hb, bs', hbs, h⟩
        exact ⟨b, bs', hb, hbs, (Except.ok.inj h).symm⟩
      · rintro ⟨b, bs', hb, hbs, rfl⟩
        exact ⟨b, hb, bs', hbs, rfl⟩

theorem exists_of_forall₂ {R : α → β → Prop} {as : List α} {bs : List β} (h : List.Forall₂ R as bs) :
    (∀ a ∈ as, ∃ b ∈ bs, R a b) ∧ ∀ b ∈ bs, ∃ a ∈ as, R a b := by
  induction h with
  | nil => exact ⟨nofun, nofun⟩
  | @cons a b as bs hab _ ih =>
      simp only [List.mem_cons, forall_eq_or_imp, exists_eq_or_imp]
      exact ⟨⟨.inl hab, fun x hx => .inr (ih.1 x hx)⟩, .inl hab, fun y hy => .inr (ih.2 y hy)⟩

/-- Where the keys of what is gathered are all different, a key comes of one member only. -/
theorem eq_of_nodup_keys {f : α → Except ε (List β)} {as : List α} {found : List (List β)} {key : β → γ}
    (h : List.Forall₂ (fun a bs => f a = .ok bs) as found) (hkeys : (found.flatten.map key).Nodup) {a a' : α}
    (ha : a ∈ as) (ha' : a' ∈ as) {b b' : β} (hb : f a = .ok [b]) (hb' : f a' = .ok [b']) (hkey : key b = key b') :
    a = a' := by
  induction h with
  | nil => cases ha
  | @cons c bs as found hc htail ih =>
      rw [List.flatten_cons, List.map_append, List.nodup_append] at hkeys
      obtain ⟨-, htailKeys, hdisjoint⟩ := hkeys
      have hkey_mem : ∀ {x : α} {y : β}, x ∈ as → f x = .ok [y] → key y ∈ found.flatten.map key := by
        intro x y hx hy
        obtain ⟨ys, hys, hfx⟩ := (exists_of_forall₂ htail).1 x hx
        obtain rfl : [y] = ys := Except.ok.inj (hy.symm.trans hfx)
        exact List.mem_map_of_mem (List.mem_flatten_of_mem hys List.mem_cons_self)
      have hhead : ∀ {y : β}, f c = .ok [y] → key y ∈ bs.map key := by
        intro y hy
        obtain rfl : [y] = bs := Except.ok.inj (hy.symm.trans hc)
        exact List.mem_cons_self
      rcases List.mem_cons.mp ha with rfl | hin <;> rcases List.mem_cons.mp ha' with rfl | hin'
      · rfl
      · exact absurd hkey (hdisjoint _ (hhead hb) _ (hkey_mem hin' hb'))
      · exact absurd hkey.symm (hdisjoint _ (hhead hb') _ (hkey_mem hin hb))
      · exact ih htailKeys hin hin'

end

section

variable {σ : Type} (fs : FileSystem) (host : Host σ) (optimize : Nat) (namespaces : Bool) (directory : Path)

/-- The unit that comes of a node. -/
inductive Becomes (names : List String) (n : FileNode) : Table.CompiledUnit → Prop where
  | namespacePackage {components : List String} : namespaces = true →
      fs.isDir (names.foldl Path.join directory) = true → finding [] names n = .namespacePackage components →
      Becomes names n ⟨dotted components, [], true⟩
  | source {components : List String} {isPackage : Bool} {u : Table.CompiledUnit} :
      finding [] names n = .source components isPackage →
      compileFile fs host optimize (names.foldl Path.join directory) components isPackage = .ok u →
      Becomes names n u

/-- A unit is wanted of the node. -/
inductive Wanted (names : List String) (n : FileNode) : Prop where
  | namespacePackage {components : List String} : namespaces = true →
      finding [] names n = .namespacePackage components → Wanted names n
  | source {components : List String} {isPackage : Bool} : finding [] names n = .source components isPackage →
      Wanted names n

variable {fs host optimize namespaces directory} {names : List String} {n : FileNode} {u : Table.CompiledUnit}
  {units : List Table.CompiledUnit}

theorem Becomes.unitsAt_eq (h : Becomes fs host optimize namespaces directory names n u) :
    unitsAt fs host optimize namespaces ⟨directory, none⟩ names n = .ok [u] := by
  cases h with
  | namespacePackage hwanted hdir h => simp [unitsAt, SourceRoot.components, hwanted, hdir, h]
  | source h hcompile =>
      have hfile : n.isDir = false := (finding_eq_source.mp h).1
      simp only [unitsAt, SourceRoot.components, hfile, h, hcompile]
      rfl

theorem unitsAt_dir (hlisted : fs.isDir (names.foldl Path.join directory) = true)
    (h : finding [] names n = .nothing) :
    unitsAt fs host optimize namespaces ⟨directory, none⟩ names n = .ok [] := by
  simp [unitsAt, SourceRoot.components, hlisted, h]

theorem exists_becomes {us : List Table.CompiledUnit}
    (h : unitsAt fs host optimize namespaces ⟨directory, none⟩ names n = .ok us) :
    (∀ u ∈ us, Becomes fs host optimize namespaces directory names n u) ∧ (Wanted namespaces names n → us ≠ []) := by
  unfold unitsAt at h
  dsimp only [SourceRoot.components] at h
  split at h
  · cases h
  rename_i hlisted
  split at h
  · rename_i hfinding
    cases h
    refine ⟨nofun, ?_⟩
    rintro (⟨-, hwanted⟩ | ⟨hwanted⟩) <;> rw [hfinding] at hwanted <;> cases hwanted
  · rename_i components hfinding
    obtain ⟨hdir, -⟩ := finding_eq_namespacePackage hfinding
    have hlisted : fs.isDir (names.foldl Path.join directory) = true := by simpa [hdir] using hlisted
    cases namespaces with
    | true =>
        cases h
        exact ⟨fun u hu => List.mem_singleton.mp hu ▸ .namespacePackage rfl hlisted hfinding, fun _ => by simp⟩
    | false =>
        cases h
        refine ⟨nofun, ?_⟩
        rintro (⟨hwanted, -⟩ | ⟨hwanted⟩)
        · cases hwanted
        · rw [hfinding] at hwanted
          cases hwanted
  · rename_i components isPackage hfinding
    cases hcompile : compileFile fs host optimize (names.foldl Path.join directory) components isPackage with
    | error e => rw [hcompile] at h; cases h
    | ok u =>
        rw [hcompile] at h
        cases h
        exact ⟨fun v hv => List.mem_singleton.mp hv ▸ .source hfinding hcompile, fun _ => by simp⟩

theorem compileFile_eq_ok {file : Path} {components : List String} {isPackage : Bool} :
    compileFile fs host optimize file components isPackage = .ok u ↔
      u.name = dotted components ∧ u.isPackage = isPackage ∧ ∃ content text, fs.read file = .ok content ∧
        Utf8.decode? content = some text ∧ host.compile text file.text optimize = .ok u.code := by
  unfold compileFile
  constructor
  · intro h
    split at h
    · cases h
    · rename_i text htext
      obtain ⟨content, hread, hdecode⟩ := Option.bind_eq_some_iff.mp htext
      split at h
      · rename_i code hcompile
        cases h
        refine ⟨rfl, rfl, content, text, ?_, hdecode, hcompile⟩
        cases hfile : fs.read file with
        | error e => rw [hfile] at hread; cases hread
        | ok bytes => rw [hfile] at hread; exact congrArg Except.ok (Option.some.inj hread)
      · cases h
  · obtain ⟨name, code, package⟩ := u
    rintro ⟨rfl, rfl, content, text, hread, hdecode, hcompile⟩
    simp only [hread, Except.toOption, Option.bind_some, hdecode, hcompile]

theorem Becomes.name_of_namespacePackage {components : List String}
    (h : Becomes fs host optimize namespaces directory names n u)
    (hfinding : finding [] names n = .namespacePackage components) : u.name = dotted components := by
  cases h with
  | namespacePackage _ _ h => rw [Finding.namespacePackage.inj (h.symm.trans hfinding)]
  | source h _ => cases h.symm.trans hfinding

theorem Becomes.name_of_source {components : List String} {isPackage : Bool}
    (h : Becomes fs host optimize namespaces directory names n u)
    (hfinding : finding [] names n = .source components isPackage) : u.name = dotted components := by
  cases h with
  | namespacePackage _ _ h => cases h.symm.trans hfinding
  | source h hcompile =>
      rw [(compileFile_eq_ok.mp hcompile).1, (Finding.source.inj (h.symm.trans hfinding)).1]

theorem Becomes.isPackage_of_namespacePackage {components : List String}
    (h : Becomes fs host optimize namespaces directory names n u)
    (hfinding : finding [] names n = .namespacePackage components) : u.isPackage = true := by
  cases h with
  | namespacePackage => rfl
  | source h _ => cases h.symm.trans hfinding

theorem Becomes.isPackage_of_source {components : List String} {isPackage : Bool}
    (h : Becomes fs host optimize namespaces directory names n u)
    (hfinding : finding [] names n = .source components isPackage) : u.isPackage = isPackage := by
  cases h with
  | namespacePackage _ _ h => cases h.symm.trans hfinding
  | source h hcompile =>
      rw [(compileFile_eq_ok.mp hcompile).2.1, (Finding.source.inj (h.symm.trans hfinding)).2]

theorem Becomes.exists_components (h : Becomes fs host optimize namespaces directory names n u) :
    ∃ components, u.name = dotted components ∧ components ≠ [] ∧ ∀ c ∈ components, isIdentifier c = true := by
  cases h with
  | @namespacePackage components _ _ hfinding =>
      obtain ⟨-, rfl, hne, hids, -⟩ := finding_eq_namespacePackage hfinding
      exact ⟨_, rfl, hne, hids⟩
  | @source components _ _ hfinding hcompile =>
      obtain ⟨-, hne, hids, -⟩ := finding_eq_source.mp hfinding
      exact ⟨components, (compileFile_eq_ok.mp hcompile).1, hne, hids⟩

/-! ### All units -/

section

variable {tree : FileNode} {names' : List String} {n' : FileNode} {u' : Table.CompiledUnit}

theorem collect_eq_ok {package : Option String} (hroot : fs.look directory = .ok tree) :
    collect fs host optimize namespaces ⟨directory, package⟩ = .ok units ↔
      tree.isDir = true ∧ ∃ found,
        List.Forall₂ (fun (entry : List String × FileNode) us =>
          unitsAt fs host optimize namespaces ⟨directory, package⟩ entry.1 entry.2 = .ok us) (visible tree) found ∧
          units = found.flatten := by
  unfold collect
  rw [hroot]
  cases tree with
  | file content executable => exact ⟨nofun, nofun⟩
  | dir children =>
      constructor
      · intro h
        obtain ⟨found, hfound, h⟩ := except_bind_eq_ok.mp h
        exact ⟨rfl, found, mapM_eq_ok.mp hfound, (Except.ok.inj h).symm⟩
      · rintro ⟨-, found, hfound, rfl⟩
        exact except_bind_eq_ok.mpr ⟨found, mapM_eq_ok.mpr hfound, rfl⟩

theorem exists_unit (hroot : fs.look directory = .ok tree)
    (h : collect fs host optimize namespaces ⟨directory, none⟩ = .ok units) (hn : (names, n) ∈ visible tree)
    (hwanted : Wanted namespaces names n) :
    ∃ u ∈ units, Becomes fs host optimize namespaces directory names n u := by
  obtain ⟨-, found, hfound, rfl⟩ := (collect_eq_ok hroot).mp h
  obtain ⟨us, hus, hunits⟩ := (exists_of_forall₂ hfound).1 _ hn
  obtain ⟨hall, hne⟩ := exists_becomes hunits
  obtain ⟨u, us', rfl⟩ := List.exists_cons_of_ne_nil (hne hwanted)
  exact ⟨u, List.mem_flatten_of_mem hus List.mem_cons_self, hall u List.mem_cons_self⟩

theorem exists_node (hroot : fs.look directory = .ok tree)
    (h : collect fs host optimize namespaces ⟨directory, none⟩ = .ok units) (hu : u ∈ units) :
    ∃ names n, (names, n) ∈ visible tree ∧ Becomes fs host optimize namespaces directory names n u := by
  obtain ⟨-, found, hfound, rfl⟩ := (collect_eq_ok hroot).mp h
  obtain ⟨us, hus, hu⟩ := List.mem_flatten.mp hu
  obtain ⟨⟨names, n⟩, hn, hunits⟩ := (exists_of_forall₂ hfound).2 us hus
  exact ⟨names, n, hn, (exists_becomes hunits).1 u hu⟩

/-- Where the names of the units are all different, each comes of one node. -/
theorem node_unique (hroot : fs.look directory = .ok tree)
    (h : collect fs host optimize namespaces ⟨directory, none⟩ = .ok units) (hnodup : (units.map (·.name)).Nodup)
    (hn : (names, n) ∈ visible tree) (hn' : (names', n') ∈ visible tree)
    (hu : Becomes fs host optimize namespaces directory names n u)
    (hu' : Becomes fs host optimize namespaces directory names' n' u')
    (hname : u.name = u'.name) : names = names' := by
  obtain ⟨-, found, hfound, rfl⟩ := (collect_eq_ok hroot).mp h
  exact congrArg Prod.fst (eq_of_nodup_keys hfound hnodup hn hn' hu.unitsAt_eq hu'.unitsAt_eq hname)

/-! ### Packages on the way -/

theorem exists_package_of_dir (hroot : fs.look directory = .ok tree)
    (h : collect fs host optimize true ⟨directory, none⟩ = .ok units) (hn : (names, n) ∈ visible tree)
    (hdir : n.isDir = true) (hne : names ≠ []) (hids : ∀ c ∈ names, isIdentifier c = true)
    (hsource : holdsSource n = true) : ∃ u ∈ units, u.name = dotted names ∧ u.isPackage = true := by
  cases hown : (n.child? packageFile).any (!·.isDir) with
  | false =>
      have hfinding : finding [] names n = .namespacePackage names := by
        have hall : names.all isIdentifier = true := List.all_eq_true.mpr hids
        have hempty : names.isEmpty = false := by simpa using hne
        rw [finding_dir hdir, hempty, hown, hall, hsource]
        rfl
      obtain ⟨u, hu, hbecomes⟩ := exists_unit hroot h hn (.namespacePackage rfl hfinding)
      exact ⟨u, hu, hbecomes.name_of_namespacePackage hfinding, hbecomes.isPackage_of_namespacePackage hfinding⟩
  | true =>
      obtain ⟨s, hs, hfile⟩ := (Option.any_eq_true ..).mp hown
      have hfinding : finding [] (names ++ [packageFile]) s = .source names true :=
        finding_eq_source.mpr ⟨by simpa using hfile, hne, hids, .package names⟩
      obtain ⟨u, hu, hbecomes⟩ :=
        exists_unit hroot h (mem_visible_append.mpr ⟨n, hn, mem_visible_packageFile hs⟩) (.source hfinding)
      exact ⟨u, hu, hbecomes.name_of_source hfinding, hbecomes.isPackage_of_source hfinding⟩

/-- A directory on the way to a source is a package. -/
theorem exists_package_of_append (hroot : fs.look directory = .ok tree)
    (h : collect fs host optimize true ⟨directory, none⟩ = .ok units) {more : List String}
    (hn : (names ++ more, n) ∈ visible tree) (hdir : n.isDir = false) (hmore : more ≠ [])
    (hlast : more.getLast?.any (·.endsWith sourceSuffix) = true) (hne : names ≠ [])
    (hids : ∀ c ∈ names, isIdentifier c = true) : ∃ u ∈ units, u.name = dotted names ∧ u.isPackage = true := by
  obtain ⟨d, hd, hbelow⟩ := mem_visible_append.mp hn
  obtain ⟨x, rest, rfl⟩ := List.exists_cons_of_ne_nil hmore
  exact exists_package_of_dir hroot h hd (FileNode.isDir_of_mem_walk (mem_visible.mp hbelow).1) hne hids
    (holdsSource_iff.mpr ⟨x :: rest, n, hbelow, hdir, hlast⟩)

/-- With a unit there is a package for every name in front of its dots. -/
theorem exists_package_of_name (hroot : fs.look directory = .ok tree)
    (h : collect fs host optimize true ⟨directory, none⟩ = .ok units) (hu : u ∈ units) {front rest : List String}
    (hname : u.name = dotted (front ++ rest)) (hids : ∀ c ∈ front ++ rest, isIdentifier c = true) (hne : front ≠ [])
    (hrest : rest ≠ []) : ∃ v ∈ units, v.name = dotted front ∧ v.isPackage = true := by
  have hcomponents : front ++ rest ≠ [] := by simp [hne]
  have hfrontIds : ∀ c ∈ front, isIdentifier c = true := fun c hc => hids c (List.mem_append_left rest hc)
  -- The components are those of the node, since a name is cut at its dots.
  have hsame : ∀ {others : List String}, others ≠ [] → (∀ c ∈ others, isIdentifier c = true) →
      u.name = dotted others → others = front ++ rest := fun hothers hotherIds hother =>
    dotted_inj hothers hotherIds hcomponents hids (hother.symm.trans hname)
  obtain ⟨names, n, hn, hbecomes⟩ := exists_node hroot h hu
  cases hbecomes with
  | @namespacePackage components _ _ hfinding =>
      obtain ⟨-, rfl, hnames, hnameIds, hsource⟩ := finding_eq_namespacePackage hfinding
      obtain rfl := hsame hnames hnameIds rfl
      obtain ⟨d, hd, hbelow⟩ := mem_visible_append.mp hn
      refine exists_package_of_dir hroot h hd ?_ hne hfrontIds (holdsSource_of_append hbelow hsource)
      obtain ⟨x, rest, rfl⟩ := List.exists_cons_of_ne_nil hrest
      exact FileNode.isDir_of_mem_walk (mem_visible.mp hbelow).1
  | source hfinding hcompile =>
      obtain ⟨hdir, hothers, hotherIds, hat⟩ := finding_eq_source.mp hfinding
      have hcomponents := hsame hothers hotherIds (compileFile_eq_ok.mp hcompile).1
      cases hat with
      | package =>
          subst hcomponents
          rw [List.append_assoc] at hn
          exact exists_package_of_append hroot h hn hdir (by simp)
            (by simpa using endsWith_packageFile) hne hfrontIds
      | module dirs base _ =>
          obtain ⟨rest, base', rfl⟩ := (List.eq_nil_or_concat' rest).resolve_left hrest
          rw [← List.append_assoc] at hcomponents
          obtain ⟨rfl, hbase⟩ := List.append_inj' hcomponents rfl
          rw [List.append_assoc] at hn
          exact exists_package_of_append hroot h hn hdir (by simp)
            (by simpa using endsWith_sourceSuffix base) hne hfrontIds

/-- With a unit there is one for every package that its name passes through. -/
theorem exists_unit_of_prefix (hroot : fs.look directory = .ok tree)
    (h : collect fs host optimize true ⟨directory, none⟩ = .ok units) (hu : u ∈ units)
    {components front : List String} (hname : u.name = dotted components)
    (hids : ∀ c ∈ components, isIdentifier c = true) (hfront : front <+: components) (hne : front ≠ []) :
    ∃ v ∈ units, v.name = dotted front := by
  obtain ⟨rest, rfl⟩ := hfront
  by_cases hrest : rest = []
  · exact ⟨u, hu, by rw [hname, hrest, List.append_nil]⟩
  · obtain ⟨v, hv, hvname, -⟩ := exists_package_of_name hroot h hu hname hids hne hrest
    exact ⟨v, hv, hvname⟩

end

end

end Launcher.Freeze
