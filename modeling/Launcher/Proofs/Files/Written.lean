import Launcher.Proofs.Files.Look

/-!
# Files that are written

A file that is written stands at the place that its path leads to. Directories stay directories and files stay files,
so every path that led somewhere leads there still, and the other files are as they were.
-/

namespace Launcher

namespace FileNode

variable {leaf tree n : FileNode} {place names : List String} {x y : String}

/-! ## A node that is put into a tree -/

theorem lookup_cons_eq_if (cs : List (String × FileNode)) :
    ((x, n) :: cs).lookup y = if y = x then some n else cs.lookup y := by
  rw [List.lookup_cons]
  by_cases h : y = x
  · simp [h]
  · simp [beq_false_of_ne h, h]

theorem lookup_putChild (cs : List (String × FileNode)) :
    (putChild x n cs).lookup y = if y = x then some n else cs.lookup y := by
  induction cs with
  | nil => rw [putChild, lookup_cons_eq_if]
  | cons p cs ih =>
      obtain ⟨z, c⟩ := p
      rw [putChild]
      split
      · rename_i hz
        subst hz
        rw [lookup_cons_eq_if, lookup_cons_eq_if]
        split <;> rfl
      · rename_i hz
        rw [lookup_cons_eq_if, lookup_cons_eq_if, ih]
        by_cases hyz : y = z
        · subst hyz
          rw [if_pos rfl, if_neg hz, if_pos rfl]
        · rw [if_neg hyz, if_neg hyz]

theorem child?_insert : (insert leaf (x :: place) tree).child? y =
    if y = x then some (insert leaf place ((tree.child? x).getD (.dir []))) else tree.child? y := by
  rw [insert, child?, children, lookup_putChild]
  rfl

theorem at?_cons (n : FileNode) (x : String) (names : List String) :
    n.at? (x :: names) = (n.child? x).bind (·.at? names) := by
  rw [at?]
  cases n.child? x <;> rfl

theorem at?_insert_self (hleaf : leaf.isDir = false) : (insert leaf place tree).at? place = some leaf := by
  induction place generalizing tree with
  | nil => simp [insert, hleaf, at?]
  | cons x place ih => rw [at?_cons, child?_insert, if_pos rfl, Option.bind_some, ih]

/-- There are directories on the way. -/
theorem at?_insert_front {rest : List String} (hrest : rest ≠ []) :
    ∃ children, (insert leaf (names ++ rest) tree).at? names = some (.dir children) := by
  induction names generalizing tree with
  | nil =>
      obtain ⟨x, rest, rfl⟩ := List.exists_cons_of_ne_nil hrest
      exact ⟨_, rfl⟩
  | cons x names ih =>
      rw [List.cons_append, at?_cons, child?_insert, if_pos rfl, Option.bind_some]
      exact ih

theorem at?_empty (hnames : names ≠ []) : (FileNode.dir []).at? names = none := by
  obtain ⟨x, names, rfl⟩ := List.exists_cons_of_ne_nil hnames
  rfl

/-- Off the way nothing changes. -/
theorem at?_insert_of_apart (hfront : ¬names <+: place) (hbehind : ¬place <+: names) :
    (insert leaf place tree).at? names = tree.at? names := by
  induction place generalizing tree names with
  | nil => exact absurd List.nil_prefix hbehind
  | cons x place ih =>
      cases names with
      | nil => exact absurd List.nil_prefix hfront
      | cons y names =>
          rw [at?_cons, at?_cons, child?_insert]
          by_cases h : y = x
          · subst h
            simp only [List.cons_prefix_cons, true_and] at hfront hbehind
            have hnames : names ≠ [] := by
              rintro rfl
              exact hfront List.nil_prefix
            rw [if_pos rfl, Option.bind_some, ih hfront hbehind]
            cases tree.child? y with
            | none => exact at?_empty hnames
            | some c => rfl
          · rw [if_neg h]

/-- Below a file there is nothing. -/
theorem isDir_of_at?_append {rest : List String} {m : FileNode} (hrest : rest ≠ []) (hn : tree.at? names = some n)
    (h : tree.at? (names ++ rest) = some m) : n.isDir = true := by
  rw [at?_append, hn, Option.bind_some] at h
  obtain ⟨x, rest, rfl⟩ := List.exists_cons_of_ne_nil hrest
  cases n with
  | dir children => rfl
  | file content executable => cases h

end FileNode

namespace FileSystem

variable {fs fs' : FileSystem} {p : Path} {place names dirs : List String} {n leaf : FileNode} {name : String}

/-! ## Where a path leads -/

theorem locate_eq_ok : fs.locate p = .ok names ↔ p.text ≠ "" ∧ checkPath p = .ok () ∧
    p.pieces.foldlM fs.follow (if p.isAbsolute then [] else fs.cwd) = .ok names ∧
    ∃ n, fs.root.at? names = some n ∧ (p.text.endsWith "/" = true → n.isDir = true) := by
  unfold locate
  by_cases htext : p.text = ""
  · simp [htext]
  · rw [if_neg (by simpa using htext), except_bind_eq_ok]
    constructor
    · rintro ⟨_, hcheck, h⟩
      obtain ⟨there, hfold, h⟩ := except_bind_eq_ok.mp h
      cases hn : fs.root.at? there with
      | none => simp [hn] at h
      | some n =>
          simp only [hn] at h
          split at h
          · cases h
          · rename_i hend
            cases h
            exact ⟨htext, hcheck, hfold, n, hn, by simpa using hend⟩
    · rintro ⟨-, hcheck, hfold, n, hn, hend⟩
      refine ⟨(), hcheck, except_bind_eq_ok.mpr ⟨names, hfold, ?_⟩⟩
      simp only [hn]
      rw [if_neg (by simpa using hend)]

theorem look_eq_ok_iff : fs.look p = .ok n ↔ ∃ names, fs.locate p = .ok names ∧ fs.root.at? names = some n := by
  unfold look
  rw [except_bind_eq_ok]
  refine exists_congr fun names => and_congr_right fun _ => ?_
  cases fs.root.at? names <;> simp

/-! ## What a change keeps -/

/-- A file can be put at a place: what is in the way to it are directories, and it is none. -/
structure HasRoom (fs : FileSystem) (dirs : List String) (name : String) : Prop where
  inDir : ∃ children, fs.root.at? dirs = some (.dir children)
  free : ∀ n, fs.root.at? (dirs ++ [name]) = some n → n.isDir = false

/-- A file was put at a place, and all else is as it was. -/
structure Changed (fs : FileSystem) (place : List String) (leaf : FileNode) (fs' : FileSystem) : Prop where
  cwd : fs'.cwd = fs.cwd
  here : fs'.root.at? place = some leaf
  isDir : ∀ names n, fs.root.at? names = some n → ∃ n', fs'.root.at? names = some n' ∧ n'.isDir = n.isDir
  apart : ∀ names n, fs.root.at? names = some n → ¬names <+: place → fs'.root.at? names = some n

theorem HasRoom.changed (h : fs.HasRoom dirs name) (hleaf : leaf.isDir = false) :
    fs.Changed (dirs ++ [name]) leaf { fs with root := FileNode.insert leaf (dirs ++ [name]) fs.root } := by
  obtain ⟨children, hdirs⟩ := h.inDir
  have hhere := @FileNode.at?_insert_self leaf fs.root (dirs ++ [name]) hleaf
  have happart : ∀ names n, fs.root.at? names = some n → ¬names <+: dirs ++ [name] →
      (FileNode.insert leaf (dirs ++ [name]) fs.root).at? names = some n := by
    intro names n hn hfront
    rw [FileNode.at?_insert_of_apart hfront, hn]
    rintro ⟨rest, rfl⟩
    have hrest : rest ≠ [] := by
      rintro rfl
      exact hfront (by simp)
    obtain ⟨m, hm, -⟩ := Option.bind_eq_some_iff.mp (FileNode.at?_append .. ▸ hn)
    have hdir := FileNode.isDir_of_at?_append hrest hm hn
    rw [h.free m hm] at hdir
    cases hdir
  refine ⟨rfl, hhere, fun names n hn => ?_, happart⟩
  by_cases hfront : names <+: dirs ++ [name]
  · obtain ⟨rest, hrest⟩ := hfront
    by_cases hnil : rest = []
    · obtain rfl : names = dirs ++ [name] := by rw [← hrest, hnil, List.append_nil]
      exact ⟨leaf, hhere, hleaf.trans (h.free n hn).symm⟩
    · obtain ⟨children', hnew⟩ := @FileNode.at?_insert_front leaf fs.root names rest hnil
      rw [hrest] at hnew
      refine ⟨_, hnew, ?_⟩
      -- The names lead to the directory of the place or to one above it.
      obtain ⟨more, last, rfl⟩ := (List.eq_nil_or_concat' rest).resolve_left hnil
      have hmore : names ++ more = dirs := by
        rw [← List.append_assoc] at hrest
        exact (List.append_inj' hrest rfl).1
      by_cases hmoreNil : more = []
      · rw [hmoreNil, List.append_nil] at hmore
        rw [hmore, hdirs] at hn
        rw [← Option.some.inj hn]
        rfl
      · rw [← hmore] at hdirs
        rw [FileNode.isDir_of_at?_append hmoreNil hn hdirs]
        rfl
  · exact ⟨n, happart names n hn hfront, rfl⟩

namespace Changed

variable {start there : List String} {piece : String} {q : Path}

/-- Files at other places are as they were. -/
theorem file (h : fs.Changed place leaf fs') (hn : fs.root.at? names = some n) (hfile : n.isDir = false)
    (hne : names ≠ place) : fs'.root.at? names = some n := by
  refine h.apart names n hn fun ⟨rest, hrest⟩ => ?_
  have hnil : rest ≠ [] := by
    rintro rfl
    exact hne (by rw [← hrest, List.append_nil])
  obtain ⟨n', hn', hkind⟩ := h.isDir names n hn
  have hdir := FileNode.isDir_of_at?_append hnil hn' (hrest ▸ h.here)
  rw [hkind, hfile] at hdir
  cases hdir

theorem follow (h : fs.Changed place leaf fs') (hfollow : fs.follow start piece = .ok there) :
    fs'.follow start piece = .ok there := by
  cases hn : fs.root.at? start with
  | none => simp [FileSystem.follow, hn] at hfollow
  | some n =>
      obtain ⟨n', hn', hkind⟩ := h.isDir start n hn
      have hchild : (n.child? piece).isSome = true → (n'.child? piece).isSome = true := by
        intro hc
        obtain ⟨c, hc⟩ := Option.isSome_iff_exists.mp hc
        have hat : fs.root.at? (start ++ [piece]) = some c := by
          rw [FileNode.at?_append, hn, Option.bind_some, FileNode.at?_singleton, hc]
        obtain ⟨c', hc', -⟩ := h.isDir _ _ hat
        rw [FileNode.at?_append, hn', Option.bind_some, FileNode.at?_singleton] at hc'
        rw [hc']
        rfl
      simp only [FileSystem.follow, hn, hn', hkind] at hfollow ⊢
      split_ifs at hfollow ⊢ <;> simp_all

theorem foldlM_follow (h : fs.Changed place leaf fs') {pieces : List String}
    (hfold : pieces.foldlM fs.follow start = .ok there) : pieces.foldlM fs'.follow start = .ok there := by
  induction pieces generalizing start with
  | nil => exact hfold
  | cons piece pieces ih =>
      obtain ⟨middle, hmiddle, hfold⟩ := except_bind_eq_ok.mp hfold
      exact except_bind_eq_ok.mpr ⟨middle, h.follow hmiddle, ih hfold⟩

/-- A path that leads to a place still leads there. -/
theorem locate (h : fs.Changed place leaf fs') (hlocate : fs.locate q = .ok names) : fs'.locate q = .ok names := by
  obtain ⟨htext, hcheck, hfold, n, hn, hend⟩ := locate_eq_ok.mp hlocate
  obtain ⟨n', hn', hkind⟩ := h.isDir names n hn
  rw [← h.cwd] at hfold
  exact locate_eq_ok.mpr ⟨htext, hcheck, h.foldlM_follow hfold, n', hn', fun hslash => hkind.trans (hend hslash)⟩

/-- What is looked up outside of the changed place is what it was. -/
theorem look (h : fs.Changed place leaf fs') (hlook : fs.look q = .ok n)
    (hplace : n.isDir = false ∧ fs.locate q ≠ .ok place ∨ ∀ names, fs.locate q = .ok names → ¬names <+: place) :
    fs'.look q = .ok n := by
  obtain ⟨names, hlocate, hn⟩ := look_eq_ok_iff.mp hlook
  refine look_eq_ok_iff.mpr ⟨names, h.locate hlocate, ?_⟩
  rcases hplace with ⟨hfile, hne⟩ | hfront
  · exact h.file hn hfile fun heq => hne (heq ▸ hlocate)
  · exact h.apart names n hn (hfront names hlocate)

end Changed

/-! ## Writing -/

/-- The path of a file in a directory that is there, or of a file that can be there. -/
structure WritesTo (fs : FileSystem) (p : Path) (dirs : List String) (name : String) : Prop where
  checkPath : checkPath p = .ok ()
  named : name ≠ "" ∧ name ≠ "." ∧ name ≠ ".." ∧ name.utf8ByteSize ≤ maxNameSize
  pieces : ∃ before, p.pieces = before ++ [name] ∧
    before.foldlM fs.follow (if p.isAbsolute then [] else fs.cwd) = .ok dirs
  room : fs.HasRoom dirs name

theorem hasRoom_iff {d : FileNode} (hd : fs.root.at? dirs = some d) :
    fs.HasRoom dirs name ↔ d.isDir = true ∧ (d.child? name).any FileNode.isDir = false := by
  have hchild : fs.root.at? (dirs ++ [name]) = d.child? name := by
    rw [FileNode.at?_append, hd, Option.bind_some, FileNode.at?_singleton]
  constructor
  · rintro ⟨⟨children, hdirs⟩, hfree⟩
    obtain rfl : d = .dir children := Option.some.inj (hd.symm.trans hdirs)
    refine ⟨rfl, ?_⟩
    cases hc : (FileNode.dir children).child? name with
    | none => rfl
    | some c => exact hfree c (hchild.trans hc)
  · rintro ⟨hdir, hfree⟩
    cases d with
    | file content executable => cases hdir
    | dir children =>
        refine ⟨⟨children, hd⟩, fun c hc => ?_⟩
        rwa [hchild.symm.trans hc] at hfree

theorem write_eq_ok {content : Bytes} {executable : Bool} : fs.write p content executable = .ok fs' ↔
    ∃ dirs name, fs.WritesTo p dirs name ∧
      fs' = { fs with root := FileNode.insert (.file content executable) (dirs ++ [name]) fs.root } := by
  unfold write
  rcases List.eq_nil_or_concat' p.pieces with hnil | ⟨before, name, hpieces⟩
  · simp only [hnil, List.reverse_nil]
    refine ⟨nofun, ?_⟩
    rintro ⟨dirs, name, ⟨-, -, ⟨before, hpieces, -⟩, -⟩, -⟩
    rw [hnil] at hpieces
    simp at hpieces
  · simp only [hpieces, List.reverse_append, List.reverse_singleton, List.singleton_append, List.reverse_reverse]
    constructor
    · intro h
      obtain ⟨_, hcheck, h⟩ := except_bind_eq_ok.mp h
      split at h
      · cases h
      rename_i hnamed
      obtain ⟨dirs, hfold, h⟩ := except_bind_eq_ok.mp h
      cases hd : fs.root.at? dirs with
      | none => simp [hd] at h
      | some d =>
          simp only [hd] at h
          split_ifs at h with hdir hsize hfree
          cases h
          have hroom : fs.HasRoom dirs name := (hasRoom_iff hd).mpr ⟨by simpa using hdir, by simpa using hfree⟩
          have hparts : name ≠ "" ∧ name ≠ "." ∧ name ≠ ".." ∧ name.utf8ByteSize ≤ maxNameSize := by
            simpa [not_or, and_assoc] using And.intro hnamed hsize
          exact ⟨dirs, name, ⟨hcheck, hparts, ⟨before, hpieces, hfold⟩, hroom⟩, rfl⟩
    · rintro ⟨dirs, last, ⟨hcheck, ⟨hempty, hdot, hdots, hsize⟩, ⟨front, hsplit, hfold⟩, hroom⟩, rfl⟩
      obtain ⟨rfl, hlast⟩ := List.append_inj' (hpieces.symm.trans hsplit) rfl
      obtain rfl : name = last := by simpa using hlast
      obtain ⟨children, hd⟩ := hroom.inDir
      obtain ⟨hdir, hfree⟩ := (hasRoom_iff hd).mp hroom
      refine except_bind_eq_ok.mpr ⟨(), hcheck, ?_⟩
      rw [if_neg (by simp [hempty, hdot, hdots])]
      refine except_bind_eq_ok.mpr ⟨dirs, hfold, ?_⟩
      simp only [hd]
      rw [if_neg (by simpa using hdir), if_neg (by omega), if_neg (by simpa using hfree)]

variable {content : Bytes} {executable : Bool}

/-- A path with a name at the end is not empty and has no slash there. -/
theorem WritesTo.text (h : fs.WritesTo p dirs name) : p.text ≠ "" ∧ p.text.endsWith "/" = false := by
  obtain ⟨before, hpieces, -⟩ := h.pieces
  have hlast : ∀ more, p.pieces ≠ more ++ [""] := by
    intro more hmore
    have hname := (List.append_inj' (hpieces.symm.trans hmore) rfl).2
    exact h.named.1 (by simpa using hname)
  have hone : "".splitOn "/" = [""] := Text.splitOn_singleton "" '/'
  have htext : p.text ≠ "" := by
    intro hempty
    exact hlast [] (by simp [Path.pieces, Path.isAbsolute, hempty, hone])
  refine ⟨htext, Bool.eq_false_iff.mpr fun hend => ?_⟩
  obtain ⟨front, hfront⟩ := Text.eq_append_of_endsWith hend
  have hslash : p = ⟨front ++ "/"⟩ := congrArg Path.mk hfront
  by_cases hnil : front = ""
  · have hsplit : ("" ++ "/").splitOn "/" = [""] ++ [""] := (Path.splitOn_slash "").trans (congrArg (· ++ [""]) hone)
    refine hlast [] ?_
    rw [hslash, hnil, Path.pieces, hsplit]
    simp [Path.isAbsolute]
  · exact hlast _ (hslash ▸ @Path.pieces_slash ⟨front⟩ hnil)

/-- What is at the place already is what the path leads to. -/
theorem WritesTo.locate (h : fs.WritesTo p dirs name) (hn : fs.root.at? (dirs ++ [name]) = some n) :
    fs.locate p = .ok (dirs ++ [name]) := by
  obtain ⟨before, hpieces, hfold⟩ := h.pieces
  obtain ⟨children, hdirs⟩ := h.room.inDir
  obtain ⟨hempty, hdot, hdots, hsize⟩ := h.named
  have hchild : (FileNode.dir children).child? name = some n := by
    rwa [FileNode.at?_append, hdirs, Option.bind_some, FileNode.at?_singleton] at hn
  have hfollow : fs.follow dirs name = .ok (dirs ++ [name]) := by
    simp [follow, hdirs, FileNode.isDir, hempty, hdot, hdots, hsize, hchild]
  have hall : p.pieces.foldlM fs.follow (if p.isAbsolute then [] else fs.cwd) = .ok (dirs ++ [name]) := by
    rw [hpieces, List.foldlM_append]
    exact except_bind_eq_ok.mpr ⟨dirs, hfold, except_bind_eq_ok.mpr ⟨_, hfollow, rfl⟩⟩
  exact locate_eq_ok.mpr ⟨h.text.1, h.checkPath, hall, n, hn, by simp [h.text.2]⟩

/-- Where a file was put, one can be put again. -/
theorem WritesTo.again (h : fs.WritesTo p dirs name) (hchanged : fs.Changed (dirs ++ [name]) leaf fs')
    (hleaf : leaf.isDir = false) : fs'.WritesTo p dirs name := by
  obtain ⟨before, hpieces, hfold⟩ := h.pieces
  obtain ⟨children, hdirs⟩ := h.room.inDir
  obtain ⟨d, hd, hdir⟩ := hchanged.isDir dirs _ hdirs
  rw [← hchanged.cwd] at hfold
  refine ⟨h.checkPath, h.named, ⟨before, hpieces, hchanged.foldlM_follow hfold⟩, ?_, fun n hn => ?_⟩
  · cases d with
    | dir children => exact ⟨children, hd⟩
    | file content executable => cases hdir
  · rw [hchanged.here] at hn
    exact Option.some.inj hn ▸ hleaf

variable {content : Bytes} {executable : Bool}

theorem exists_writesTo (h : fs.write p content executable = .ok fs') :
    ∃ dirs name, fs.WritesTo p dirs name ∧ fs.Changed (dirs ++ [name]) (.file content executable) fs' := by
  obtain ⟨dirs, name, hwrites, rfl⟩ := write_eq_ok.mp h
  exact ⟨dirs, name, hwrites, hwrites.room.changed rfl⟩

theorem WritesTo.exists_write (h : fs.WritesTo p dirs name) (content : Bytes) (executable : Bool) :
    ∃ fs', fs.write p content executable = .ok fs' ∧ fs.Changed (dirs ++ [name]) (.file content executable) fs' :=
  ⟨_, write_eq_ok.mpr ⟨dirs, name, h, rfl⟩, h.room.changed rfl⟩

/-- The file that was written is what its path leads to. -/
theorem look_of_write (h : fs.write p content executable = .ok fs') : fs'.look p = .ok (.file content executable) := by
  obtain ⟨dirs, name, hwrites, hchanged⟩ := exists_writesTo h
  exact look_eq_ok_iff.mpr ⟨_, (hwrites.again hchanged rfl).locate hchanged.here, hchanged.here⟩

/-- A file that is not the one that is written can be read as before. -/
theorem look_other_of_write (h : fs.write p content executable = .ok fs') {q : Path} (hlook : fs.look q = .ok n)
    (hfile : n.isDir = false) (hother : fs.locate q ≠ fs.locate p) : fs'.look q = .ok n := by
  obtain ⟨dirs, name, hwrites, hchanged⟩ := exists_writesTo h
  refine hchanged.look hlook (.inl ⟨hfile, fun hlocate => hother ?_⟩)
  obtain ⟨names, hnames, hn⟩ := look_eq_ok_iff.mp hlook
  obtain rfl : names = dirs ++ [name] := Except.ok.inj (hnames.symm.trans hlocate)
  rw [hlocate, hwrites.locate hn]

end FileSystem

end Launcher
