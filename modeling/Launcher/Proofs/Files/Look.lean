import Launcher.Files.FileSystem
import Launcher.Proofs.Action
import Launcher.Proofs.Text

/-!
# Paths below a directory

Names that are put behind the path of a directory, one by one or all with slashes between them, are one path, and
whatever that path leads to is the node of the tree below the directory that the names lead to.
-/

namespace Launcher

/-! ## Names that lead through a tree -/

namespace FileNode

theorem at?_append (n : FileNode) (xs ys : List String) : n.at? (xs ++ ys) = (n.at? xs).bind (·.at? ys) := by
  induction xs generalizing n with
  | nil => rfl
  | cons x xs ih =>
      rw [List.cons_append, at?, at?]
      cases n.child? x with
      | none => rfl
      | some c => exact ih c

theorem at?_singleton (n : FileNode) (x : String) : n.at? [x] = n.child? x := by
  rw [at?]
  cases n.child? x <;> rfl

theorem mem_walkAll {cs : List (String × FileNode)} {names : List String} {n : FileNode} :
    (names, n) ∈ walkAll cs ↔ ∃ x rest c, names = x :: rest ∧ (x, c) ∈ cs ∧ (rest, n) ∈ c.walk := by
  induction cs with
  | nil => simp [walkAll]
  | cons p cs ih =>
      obtain ⟨y, d⟩ := p
      simp only [walkAll, List.mem_append, List.mem_map, ih, List.mem_cons]
      constructor
      · rintro (⟨⟨rest, m⟩, hm, heq⟩ | ⟨x, rest, c, rfl, hc, hn⟩)
        · cases heq
          exact ⟨y, rest, d, rfl, .inl rfl, hm⟩
        · exact ⟨x, rest, c, rfl, .inr hc, hn⟩
      · rintro ⟨x, rest, c, rfl, heq | hc, hn⟩
        · cases heq
          exact .inl ⟨_, hn, rfl⟩
        · exact .inr ⟨x, rest, c, rfl, hc, hn⟩

theorem mem_walk_nil {t n : FileNode} : ([], n) ∈ t.walk ↔ n = t := by
  cases t with
  | file content executable => simp [walk]
  | dir cs => simp [walk, mem_walkAll]

theorem mem_walk_cons {t n : FileNode} {x : String} {rest : List String} :
    (x :: rest, n) ∈ t.walk ↔ ∃ c, (x, c) ∈ t.children ∧ (rest, n) ∈ c.walk := by
  cases t with
  | file content executable => simp [walk, children]
  | dir cs => simp [walk, mem_walkAll, children]

/-- What is below a node of the tree is in the tree. -/
theorem mem_walk_append {t n : FileNode} {xs ys : List String} :
    (xs ++ ys, n) ∈ t.walk ↔ ∃ d, (xs, d) ∈ t.walk ∧ (ys, n) ∈ d.walk := by
  induction xs generalizing t with
  | nil => simp [mem_walk_nil]
  | cons x xs ih =>
      simp only [List.cons_append, mem_walk_cons, ih]
      constructor
      · rintro ⟨c, hc, d, hd, hn⟩
        exact ⟨d, ⟨c, hc, hd⟩, hn⟩
      · rintro ⟨d, ⟨c, hc, hd⟩, hn⟩
        exact ⟨c, hc, d, hd, hn⟩

theorem isDir_of_mem_walk {t n : FileNode} {x : String} {rest : List String} (h : (x :: rest, n) ∈ t.walk) :
    t.isDir = true := by
  cases t with
  | file content executable => simp [walk] at h
  | dir cs => rfl

theorem mem_children_of_child? {t n : FileNode} {x : String} (h : t.child? x = some n) : (x, n) ∈ t.children := by
  obtain ⟨_, _, hsplit, _⟩ := List.lookup_eq_some_iff.mp h
  rw [hsplit]
  exact List.mem_append_right _ List.mem_cons_self

theorem mem_walk_of_at? {t n : FileNode} {names : List String} (h : t.at? names = some n) : (names, n) ∈ t.walk := by
  induction names generalizing t with
  | nil =>
      rw [at?] at h
      exact mem_walk_nil.mpr (Option.some.inj h).symm
  | cons x names ih =>
      rw [at?] at h
      split at h
      · rename_i c hc
        exact mem_walk_cons.mpr ⟨c, mem_children_of_child? hc, ih h⟩
      · cases h

end FileNode

/-! ## Names that are pieces of a path -/

/-- A name with no slash in it that does not begin with a dot. -/
structure FileName (s : String) : Prop where
  slash : '/' ∉ s.toList
  head : ∃ c cs, s.toList = c :: cs ∧ c ≠ '.'

namespace FileName

variable {s : String}

theorem ne_empty (h : FileName s) : s ≠ "" := by
  rintro rfl
  obtain ⟨_, _, hs, _⟩ := h.head
  cases hs

theorem ne_of_head {t : String} {cs : List Char} (h : FileName s) (ht : t.toList = '.' :: cs) : s ≠ t := by
  rintro rfl
  obtain ⟨c, _, hs, hc⟩ := h.head
  rw [ht] at hs
  cases hs
  exact hc rfl

theorem append {t : String} (h : FileName s) (ht : '/' ∉ t.toList) : FileName (s ++ t) where
  slash := by
    rw [String.toList_append, List.mem_append]
    exact not_or.mpr ⟨h.slash, ht⟩
  head := by
    obtain ⟨c, cs, hc, hdot⟩ := h.head
    exact ⟨c, cs ++ t.toList, by rw [String.toList_append, hc]; rfl, hdot⟩

end FileName

/-- The names with slashes between them. -/
def slashed (names : List String) : String := "/".intercalate names

theorem splitOn_slashed {names : List String} (hne : names ≠ []) (h : ∀ s ∈ names, FileName s) :
    (slashed names).splitOn "/" = names :=
  Text.splitOn_intercalate hne fun s hs => (h s hs).slash

theorem slashed_singleton (s : String) : slashed [s] = s := String.intercalate_singleton

theorem slashed_cons {a : String} {names : List String} (hne : names ≠ []) :
    slashed (a :: names) = a ++ "/" ++ slashed names :=
  String.intercalate_cons_of_ne_nil hne

theorem slashed_append {xs ys : List String} (hx : xs ≠ []) (hy : ys ≠ []) :
    slashed (xs ++ ys) = slashed xs ++ "/" ++ slashed ys :=
  String.intercalate_append_of_ne_nil hx hy

/-- What follows the last name belongs to it. -/
theorem slashed_concat_append (dirs : List String) (base suffix : String) :
    slashed (dirs ++ [base]) ++ suffix = slashed (dirs ++ [base ++ suffix]) := by
  by_cases hdirs : dirs = []
  · subst hdirs
    rw [List.nil_append, List.nil_append, slashed_singleton, slashed_singleton]
  · rw [slashed_append hdirs (by simp), slashed_append hdirs (by simp), slashed_singleton, slashed_singleton,
      String.append_assoc]

theorem startsWith_slashed {names : List String} (hne : names ≠ []) (h : ∀ s ∈ names, FileName s) :
    (slashed names).startsWith "/" = false := by
  obtain ⟨a, names, rfl⟩ := List.exists_cons_of_ne_nil hne
  obtain ⟨c, cs, ha, -⟩ := (h a List.mem_cons_self).head
  have hc : c ≠ '/' := by
    rintro rfl
    exact (h a List.mem_cons_self).slash (ha ▸ List.mem_cons_self)
  have hfront : ∃ rest, (slashed (a :: names)).toList = c :: rest := by
    cases names with
    | nil => exact ⟨cs, by rw [slashed_singleton, ha]⟩
    | cons b names => exact ⟨_, by rw [slashed_cons (List.cons_ne_nil b names)]; simp [ha]; rfl⟩
  obtain ⟨rest, hrest⟩ := hfront
  simp [hrest, Ne.symm hc]

namespace Path

variable {p : Path} {names : List String}

/-! ## Names behind a path -/

/-- The text of a path, up to the place where a name can follow. -/
def lead (p : Path) : String := if p.text.isEmpty ∨ p.text.endsWith "/" then p.text else p.text ++ "/"

theorem join_eq {q : String} (h : q.startsWith "/" = false) : p.join q = ⟨p.lead ++ q⟩ := by
  rw [join, if_neg (by simp [h]), lead]
  split <;> rfl

theorem endsWith_lead_append {a : String} (ha : FileName a) : (p.lead ++ a).endsWith "/" = false := by
  rw [Bool.eq_false_iff, Ne, Text.endsWith_iff, String.toList_append]
  rintro ⟨front, hfront⟩
  have hlast : (front ++ "/".toList).getLast? = a.toList.getLast? := by
    rw [hfront, List.getLast?_append_of_ne_nil _ (mt String.toList_eq_nil_iff.mp ha.ne_empty)]
  rw [List.getLast?_append_of_ne_nil _ (by decide)] at hlast
  exact ha.slash (List.mem_of_getLast? hlast.symm)

theorem join_fileName {a : String} (ha : FileName a) : p.join a = ⟨p.lead ++ a⟩ := by
  have hstart := startsWith_slashed (List.cons_ne_nil a []) (by simpa using ha)
  rw [slashed_singleton] at hstart
  exact join_eq hstart

theorem lead_join {a : String} (ha : FileName a) : (p.join a).lead = p.lead ++ a ++ "/" := by
  have hempty : ¬(p.lead ++ a).isEmpty = true := by
    simp [ha.ne_empty]
  rw [join_fileName ha, lead, if_neg (not_or.mpr ⟨hempty, by simp [endsWith_lead_append ha]⟩)]

theorem join_slashed (hne : names ≠ []) (h : ∀ s ∈ names, FileName s) :
    p.join (slashed names) = ⟨p.lead ++ slashed names⟩ :=
  join_eq (startsWith_slashed hne h)

/-- Names are put behind a path one by one as they are all at once. -/
theorem foldl_join (hne : names ≠ []) (h : ∀ s ∈ names, FileName s) :
    names.foldl join p = p.join (slashed names) := by
  induction names generalizing p with
  | nil => exact absurd rfl hne
  | cons a names ih =>
      obtain ⟨ha, hnames⟩ := List.forall_mem_cons.mp h
      rw [List.foldl_cons]
      cases names with
      | nil => rw [slashed_singleton]; rfl
      | cons b names =>
          have hmore := List.cons_ne_nil b names
          rw [ih hmore hnames, join_slashed hmore hnames, join_slashed hne h, lead_join ha, slashed_cons hmore]
          simp only [String.append_assoc]

/-- A path that is not empty is led up to by a text that ends in a slash. -/
theorem lead_eq (p : Path) (hp : p.text ≠ "") :
    ∃ front, p.lead = front ++ "/" ∧ (p.text = front ∨ p.text = front ++ "/") := by
  have hempty : p.text.isEmpty = false := by simpa using hp
  cases hend : p.text.endsWith "/" with
  | false => exact ⟨p.text, by rw [lead, if_neg (by simp [hempty, hend])], .inl rfl⟩
  | true =>
      obtain ⟨front, htext⟩ := Text.eq_append_of_endsWith hend
      exact ⟨front, by rw [lead, if_pos (.inr hend), htext], .inr htext⟩

theorem startsWith_append {s t : String} (hs : s ≠ "") : (s ++ t).startsWith "/" = s.startsWith "/" := by
  obtain ⟨c, cs, hc⟩ := List.exists_cons_of_ne_nil (mt String.toList_eq_nil_iff.mp hs)
  rw [Bool.eq_iff_iff]
  simp [hc]

theorem splitOn_slash (s : String) : (s ++ "/").splitOn "/" = s.splitOn "/" ++ [""] := by
  have h := Text.splitOn_append s "" '/'
  rw [String.append_empty] at h
  exact h.trans (congrArg _ (Text.splitOn_singleton "" '/'))

theorem drop_splitOn_append (s : String) (more : List String) :
    (s.splitOn "/" ++ more).drop 1 = (s.splitOn "/").drop 1 ++ more :=
  List.drop_append_of_le_length (List.length_pos_of_ne_nil (Text.splitOn_ne_nil s '/'))

theorem isAbsolute_slash (hp : p.text ≠ "") : (⟨p.text ++ "/"⟩ : Path).isAbsolute = p.isAbsolute :=
  startsWith_append hp

/-- A slash at the end makes an empty piece. -/
theorem pieces_slash (hp : p.text ≠ "") : (⟨p.text ++ "/"⟩ : Path).pieces = p.pieces ++ [""] := by
  simp only [pieces, isAbsolute_slash hp, splitOn_slash]
  split
  · exact drop_splitOn_append _ _
  · rfl

/-- What stands behind a path is cut into pieces by itself. A slash at the end of the path makes an empty piece
there, in which nothing is meant. -/
theorem pieces_join {q : String} (hp : p.text ≠ "") (hq : q.startsWith "/" = false) :
    ∃ base, (p.pieces = base ∨ p.pieces = base ++ [""]) ∧ (p.join q).pieces = base ++ q.splitOn "/" ∧
      (p.join q).isAbsolute = p.isAbsolute := by
  obtain ⟨front, hlead, htext⟩ := p.lead_eq hp
  have habsolute : (p.join q).isAbsolute = p.isAbsolute := by
    rw [join_eq hq, isAbsolute, isAbsolute, hlead]
    rcases htext with htext | htext
    · rw [← htext, String.append_assoc, startsWith_append hp]
    · rw [← htext, startsWith_append hp]
  have hall : (p.join q).text.splitOn "/" = front.splitOn "/" ++ q.splitOn "/" := by
    rw [join_eq hq, hlead]
    exact Text.splitOn_append front q '/'
  refine ⟨if p.isAbsolute then (front.splitOn "/").drop 1 else front.splitOn "/", ?_, ?_, habsolute⟩
  · rcases htext with htext | htext
    · exact .inl (by rw [pieces, htext])
    · refine .inr ?_
      rw [pieces, htext, splitOn_slash]
      split
      · exact drop_splitOn_append _ _
      · rfl
  · rw [pieces, habsolute, hall]
    split
    · exact drop_splitOn_append _ _
    · rfl

end Path

/-! ## What a path leads to -/

namespace FileSystem

variable {fs : FileSystem} {root : Path} {tree n : FileNode} {names : List String}

theorem follow_eq {start there : List String} {s : String} (hs : FileName s) (h : fs.follow start s = .ok there) :
    there = start ++ [s] := by
  have hempty : s.isEmpty = false := by simpa using hs.ne_empty
  unfold follow at h
  split at h
  · cases h
  · rw [if_neg (by simp [hempty]), if_neg (hs.ne_of_head rfl), if_neg (hs.ne_of_head rfl)] at h
    split at h
    · cases h
    · split at h
      · cases h
      · split at h <;> cases h
        rfl

theorem foldlM_follow_eq {start there : List String} (hnames : ∀ s ∈ names, FileName s)
    (h : names.foldlM fs.follow start = .ok there) : there = start ++ names := by
  induction names generalizing start with
  | nil =>
      rw [List.append_nil]
      exact (Except.ok.inj h).symm
  | cons s names ih =>
      obtain ⟨hs, hnames⟩ := List.forall_mem_cons.mp hnames
      obtain ⟨middle, hmiddle, h⟩ := except_bind_eq_ok.mp h
      rw [ih hnames h, follow_eq hs hmiddle, List.append_assoc]
      rfl

theorem follow_empty {start there : List String} (h : fs.follow start "" = .ok there) : there = start := by
  unfold follow at h
  split at h
  · cases h
  · cases h
    rfl

theorem isFile_iff {p : Path} :
    fs.isFile p = true ↔ ∃ content executable, fs.look p = .ok (.file content executable) := by
  rw [isFile]
  constructor
  · intro h
    split at h
    · rename_i n hn
      cases n with
      | file content executable => exact ⟨content, executable, hn⟩
      | dir children => cases h
    · cases h
  · rintro ⟨content, executable, h⟩
    rw [h]
    rfl

theorem isDir_iff {p : Path} : fs.isDir p = true ↔ ∃ children, fs.look p = .ok (.dir children) := by
  rw [isDir]
  constructor
  · intro h
    split at h
    · rename_i n hn
      cases n with
      | file content executable => cases h
      | dir children => exact ⟨children, hn⟩
    · cases h
  · rintro ⟨children, h⟩
    rw [h]
    rfl

theorem isDir_of_look {p : Path} (h : fs.look p = .ok n) (hdir : n.isDir = true) : fs.isDir p = true := by
  rwa [isDir, h]

/-- The names that the pieces of a path lead along. -/
theorem look_eq_ok {p : Path} (h : fs.look p = .ok n) :
    p.text ≠ "" ∧ p.text.utf8ByteSize ≤ maxPathSize ∧ ∃ start there,
      start = (if p.isAbsolute then [] else fs.cwd) ∧ p.pieces.foldlM fs.follow start = .ok there ∧
        fs.root.at? there = some n := by
  obtain ⟨there, hthere, h⟩ := except_bind_eq_ok.mp h
  have hn : fs.root.at? there = some n := by
    split at h <;> cases h
    assumption
  unfold locate at hthere
  split at hthere
  · cases hthere
  · rename_i hempty
    obtain ⟨_, hcheck, hthere⟩ := except_bind_eq_ok.mp hthere
    obtain ⟨there', hfold, hthere⟩ := except_bind_eq_ok.mp hthere
    have hsize : p.text.utf8ByteSize ≤ maxPathSize := by
      unfold checkPath at hcheck
      split at hcheck
      · cases hcheck
      · split at hcheck
        · cases hcheck
        · rename_i hsize
          exact Nat.not_lt.mp hsize
    have hsame : there' = there := by
      split at hthere
      · cases hthere
      · split at hthere <;> cases hthere
        rfl
    exact ⟨by simpa using hempty, hsize, _, _, rfl, hsame ▸ hfold, hn⟩

theorem checkPath_eq_ok {p : Path} :
    checkPath p = .ok () ↔ '\x00' ∉ p.text.toList ∧ p.text.utf8ByteSize ≤ maxPathSize := by
  unfold checkPath
  split
  · rename_i hzero
    exact ⟨nofun, fun h => absurd (by simpa using hzero) h.1⟩
  · rename_i hzero
    split
    · rename_i hsize
      exact ⟨nofun, fun h => absurd hsize (Nat.not_lt.mpr h.2)⟩
    · rename_i hsize
      exact ⟨fun _ => ⟨by simpa using hzero, Nat.not_lt.mp hsize⟩, fun _ => rfl⟩

theorem checkPath_of_look {p : Path} (h : fs.look p = .ok n) : checkPath p = .ok () := by
  obtain ⟨there, hthere, -⟩ := except_bind_eq_ok.mp h
  unfold locate at hthere
  split at hthere
  · cases hthere
  · obtain ⟨_, hcheck, -⟩ := except_bind_eq_ok.mp hthere
    exact hcheck

/-- An empty piece at the end leads nowhere else. -/
theorem foldlM_base {pieces base start there : List String} (hpieces : pieces = base ∨ pieces = base ++ [""])
    (h : pieces.foldlM fs.follow start = .ok there) : base.foldlM fs.follow start = .ok there := by
  rcases hpieces with rfl | rfl
  · exact h
  · rw [List.foldlM_append] at h
    obtain ⟨middle, hmiddle, h⟩ := except_bind_eq_ok.mp h
    obtain ⟨there', hfollow, h⟩ := except_bind_eq_ok.mp h
    rw [hmiddle, ← follow_empty hfollow]
    exact h

/-- What is found behind the path of a directory is the node of its tree. -/
theorem at?_of_look (hroot : fs.look root = .ok tree) (hne : names ≠ []) (hnames : ∀ s ∈ names, FileName s)
    (h : fs.look (root.join (slashed names)) = .ok n) : tree.at? names = some n := by
  obtain ⟨htext, -, start, there, rfl, hthere, htree⟩ := look_eq_ok hroot
  obtain ⟨-, -, start, below, rfl, hbelow, hn⟩ := look_eq_ok h
  obtain ⟨base, hbase, hpieces, habsolute⟩ := Path.pieces_join htext (startsWith_slashed hne hnames)
  rw [hpieces, habsolute, splitOn_slashed hne hnames, List.foldlM_append] at hbelow
  obtain ⟨middle, hmiddle, hbelow⟩ := except_bind_eq_ok.mp hbelow
  obtain rfl : middle = there := Except.ok.inj (hmiddle.symm.trans (foldlM_base hbase hthere))
  rw [foldlM_follow_eq hnames hbelow, FileNode.at?_append, htree] at hn
  exact hn

/-! ### What is found -/

theorem follow_child {start : List String} {s : String} {c : FileNode} (hs : FileName s)
    (hsize : s.utf8ByteSize ≤ maxNameSize) (hn : fs.root.at? start = some n) (hc : n.child? s = some c) :
    fs.follow start s = .ok (start ++ [s]) := by
  have hempty : s.isEmpty = false := by simpa using hs.ne_empty
  have hdir : n.isDir = true := by
    cases n with
    | file content executable => cases hc
    | dir children => rfl
  simp [follow, hn, hempty, hdir, hs.ne_of_head, hsize, hc]

theorem foldlM_follow {start : List String} (hnames : ∀ s ∈ names, FileName s)
    (hsizes : ∀ s ∈ names, s.utf8ByteSize ≤ maxNameSize) (hstart : fs.root.at? start = some tree)
    (h : tree.at? names = some n) : names.foldlM fs.follow start = .ok (start ++ names) := by
  induction names generalizing start tree with
  | nil =>
      rw [List.append_nil]
      rfl
  | cons s names ih =>
      obtain ⟨hs, hnames⟩ := List.forall_mem_cons.mp hnames
      obtain ⟨hsize, hsizes⟩ := List.forall_mem_cons.mp hsizes
      rw [FileNode.at?] at h
      split at h
      · rename_i c hc
        have hchild : fs.root.at? (start ++ [s]) = some c := by
          rw [FileNode.at?_append, hstart, Option.bind_some, FileNode.at?_singleton, hc]
        have hfollow := follow_child hs hsize hstart hc
        have hrest := ih hnames hsizes hchild h
        rw [List.foldlM_cons, hfollow]
        simpa using! hrest
      · cases h

theorem look_of_foldlM {p : Path} {there : List String} (htext : p.text ≠ "") (hcheck : checkPath p = .ok ())
    (hfold : p.pieces.foldlM fs.follow (if p.isAbsolute then [] else fs.cwd) = .ok there)
    (hn : fs.root.at? there = some n) (hend : p.text.endsWith "/" = true → n.isDir = true) : fs.look p = .ok n := by
  have hempty : p.text.isEmpty = false := by simpa using htext
  have hslash : (p.text.endsWith "/" && !n.isDir) = false := by
    cases hp : p.text.endsWith "/" with
    | false => rfl
    | true => simp [hend hp]
  have hlocate : fs.locate p = .ok there := by
    simp only [locate, hempty, hcheck, hfold, hn, hslash, bind, Except.bind]
    rfl
  simp only [look, hlocate, hn, bind, Except.bind]

/-- The node that names lead to in the tree of a directory is found behind the path of the directory. -/
theorem look_of_at? (hroot : fs.look root = .ok tree) (hne : names ≠ []) (hnames : ∀ s ∈ names, FileName s)
    (hsizes : ∀ s ∈ names, s.utf8ByteSize ≤ maxNameSize)
    (hpath : checkPath (root.join (slashed names)) = .ok ()) (h : tree.at? names = some n) :
    fs.look (root.join (slashed names)) = .ok n := by
  obtain ⟨htext, -, start, there, rfl, hthere, htree⟩ := look_eq_ok hroot
  obtain ⟨base, hbase, hpieces, habsolute⟩ := Path.pieces_join htext (startsWith_slashed hne hnames)
  obtain ⟨front, a, hlast⟩ := (List.eq_nil_or_concat' names).resolve_left hne
  have ha : FileName a := hnames a (by simp [hlast])
  have hjoin : root.join (slashed names) = ⟨(front.foldl Path.join root).lead ++ a⟩ := by
    rw [← Path.foldl_join hne hnames, hlast, List.foldl_concat, Path.join_fileName ha]
  have hempty : (root.join (slashed names)).text ≠ "" := by
    simp [hjoin, ha.ne_empty]
  have hend : (root.join (slashed names)).text.endsWith "/" = false := by
    rw [hjoin]
    exact Path.endsWith_lead_append ha
  have hfold : (root.join (slashed names)).pieces.foldlM fs.follow
      (if (root.join (slashed names)).isAbsolute then [] else fs.cwd) = .ok (there ++ names) := by
    rw [hpieces, habsolute, splitOn_slashed hne hnames, List.foldlM_append, foldlM_base hbase hthere]
    exact foldlM_follow hnames hsizes htree h
  have hfound : fs.root.at? (there ++ names) = some n := by
    rw [FileNode.at?_append, htree]
    exact h
  exact look_of_foldlM hempty hpath hfold hfound (by simp [hend])

/-- A slash behind the path of a directory leads nowhere else. -/
theorem look_slash {p : Path} (h : fs.look p = .ok n) (hdir : n.isDir = true)
    (hsize : p.text.utf8ByteSize < maxPathSize) : fs.look ⟨p.text ++ "/"⟩ = .ok n := by
  obtain ⟨htext, -, start, there, rfl, hthere, hn⟩ := look_eq_ok h
  have hzero := (checkPath_eq_ok.mp (checkPath_of_look h)).1
  refine look_of_foldlM (by simp [htext]) ?_ ?_ hn fun _ => hdir
  · refine checkPath_eq_ok.mpr ⟨by simp [hzero], ?_⟩
    rw [String.utf8ByteSize_append]
    exact hsize
  · have hstay : fs.follow there "" = .ok there := by simp [follow, hn]
    rw [Path.pieces_slash htext, Path.isAbsolute_slash htext, List.foldlM_append, hthere]
    exact except_bind_eq_ok.mpr ⟨there, rfl, except_bind_eq_ok.mpr ⟨there, hstay, rfl⟩⟩

end FileSystem

end Launcher
