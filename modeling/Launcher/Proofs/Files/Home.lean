import Launcher.Proofs.Files.Canonical

/-!
# Below the home directory

A tilde with a slash behind it stands for the home directory, and the text behind the two is joined to it. So the names
in that text lead on from the home directory, but if the text begins with a slash they lead from the root.
-/

namespace Launcher

/-! ## The text behind a tilde -/

theorem toList_trimEnd (s : String) : (trimEnd s).toList = (s.toList.reverse.dropWhile isBlank).reverse :=
  String.toList_ofList

theorem trim_tilde (rest : String) : trim ("~/" ++ rest) = "~/" ++ trimEnd rest := by
  have hlist : ("~/" ++ rest).toList = '~' :: '/' :: rest.toList := String.toList_append
  have htrim : trimChars ('~' :: '/' :: rest.toList) = '~' :: '/' :: (trimEnd rest).toList := by
    rw [trimChars_cons (by decide), dropBlanks_cons (by decide), toList_trimEnd]
  rw [trim, hlist, htrim, ← String.toList_inj, String.toList_append]
  exact String.toList_ofList

theorem startsWith_trimEnd (rest : String) : (trimEnd rest).startsWith "/" = rest.startsWith "/" := by
  have hprefix : (trimEnd rest).toList <+: rest.toList := by
    rw [toList_trimEnd, ← List.reverse_suffix, List.reverse_reverse]
    exact List.dropWhile_suffix isBlank
  rw [Bool.eq_iff_iff, String.startsWith_string_iff, String.startsWith_string_iff]
  refine ⟨fun h => h.trans hprefix, fun ⟨cs, hcs⟩ => ⟨(cs.reverse.dropWhile isBlank).reverse, ?_⟩⟩
  rw [toList_trimEnd, ← hcs]
  exact (dropBlanks_cons (by decide)).symm

namespace Path

variable {home p : Path} {text rest : String}

theorem expandTilde_home (home : Path) (rest : String) : expandTilde (some home) ("~/" ++ rest) = home.join rest := by
  have hlist : ("~/" ++ rest).toList = '~' :: '/' :: rest.toList := String.toList_append
  rw [expandTilde, hlist]
  exact congrArg home.join String.ofList_toList

/-! ## The names of a text -/

/-- The names between the slashes of a text. -/
def components (text : String) : List String := (text.splitOn "/").filter fun s => s ≠ "" ∧ s ≠ "." ∧ s ≠ ".."

theorem innerParts_of_not_up (h : ".." ∉ text.splitOn "/") : innerParts text = (components text).map .name := by
  rw [innerParts, components]
  generalize text.splitOn "/" = pieces at h
  induction pieces with
  | nil => rfl
  | cons piece pieces ih =>
      obtain ⟨hpiece, hpieces⟩ := not_or.mp (mt List.mem_cons.mpr h)
      have hrest := ih hpieces
      by_cases hnone : piece = "" ∨ piece = "."
      · have hpart : innerPart? piece = none := by simp [innerPart?, hnone]
        rw [List.filterMap_cons_none hpart, hrest, List.filter_cons_of_neg (by rcases hnone with rfl | rfl <;> simp)]
      · obtain ⟨hempty, hdot⟩ := not_or.mp hnone
        have hpart : innerPart? piece = some (.name piece) := by simp [innerPart?, hempty, hdot, Ne.symm hpiece]
        rw [List.filterMap_cons_some hpart, hrest, List.filter_cons_of_pos (by simp [hempty, hdot, Ne.symm hpiece])]
        rfl

/-- Without double dots a text that leads on adds its names to those of a path. -/
theorem namesOf_join (hp : p.text ≠ "") (hrest : rest.startsWith "/" = false) (hup : ".." ∉ rest.splitOn "/") :
    (p.join rest).namesOf = p.namesOf ++ components rest := by
  rw [namesOf, parts_join hp hrest, innerParts_of_not_up hup, foldParts_append, foldParts_names, List.reverse_reverse,
    namesOf]

theorem namesOf_join_of_isAbsolute (hrest : rest.startsWith "/" = true) (hup : ".." ∉ rest.splitOn "/") :
    (p.join rest).namesOf = components rest := by
  rw [join_of_isAbsolute hrest, namesOf, parts_of_isAbsolute hrest, innerParts_of_not_up hup]
  exact foldParts_names [] _

/-! ## Below home -/

/-- The text behind a tilde and a slash, without the blanks at its end, is joined to the home directory. -/
theorem normalize_tilde (hhome : home.isAbsolute = true) (cwd : Path) (rest : String) :
    normalize cwd (some home) ("~/" ++ rest) = ofNames true (home.join (Launcher.trimEnd rest)).namesOf := by
  have habsolute : (home.join (Launcher.trimEnd rest)).isAbsolute = true := isAbsolute_join hhome
  rw [normalize, trim_tilde, expandTilde_home, join_text_of_isAbsolute habsolute, fold_eq habsolute]

/-- Without double dots the text behind a tilde and a slash leads on from the home directory along its names, just if it
does not begin with a slash or the home directory is the root. Behind another slash it leads from the root. -/
theorem normalize_home (hhome : home.isAbsolute = true) (cwd : Path) (rest : String)
    (hup : ".." ∉ (Launcher.trimEnd rest).splitOn "/") :
    let names := components (Launcher.trimEnd rest)
    let found := normalize cwd (some home) ("~/" ++ rest)
    home.fold = ofNames true home.namesOf ∧
      (rest.startsWith "/" = false → found = ofNames true (home.namesOf ++ names)) ∧
      (rest.startsWith "/" = true → found = ofNames true names) ∧
      (found.parts = home.fold.parts ++ names.map .name ↔ rest.startsWith "/" = false ∨ home.namesOf = []) := by
  intro names found
  have hfound : found = ofNames true (home.join (Launcher.trimEnd rest)).namesOf := normalize_tilde hhome cwd rest
  have hon (h : rest.startsWith "/" = false) :
      (home.join (Launcher.trimEnd rest)).namesOf = home.namesOf ++ names :=
    namesOf_join (text_ne_empty_of_isAbsolute hhome) ((startsWith_trimEnd rest).trans h) hup
  have haway (h : rest.startsWith "/" = true) : (home.join (Launcher.trimEnd rest)).namesOf = names :=
    namesOf_join_of_isAbsolute ((startsWith_trimEnd rest).trans h) hup
  refine ⟨fold_eq hhome, fun h => hon h ▸ hfound, fun h => haway h ▸ hfound, ?_⟩
  have hbelow : home.fold.parts ++ names.map .name = .root :: (home.namesOf ++ names).map .name := by
    rw [fold_eq hhome, parts_ofNames plain_of_mem_namesOf, List.cons_append, List.map_append]
  rw [hbelow, hfound, parts_ofNames plain_of_mem_namesOf, List.cons.injEq, and_iff_right rfl,
    List.map_inj_right fun _ _ => Part.name.inj]
  cases hslash : rest.startsWith "/" with
  | false =>
      rw [hon hslash]
      exact iff_of_true rfl (.inl rfl)
  | true =>
      rw [haway hslash, or_iff_right (by simp)]
      exact List.self_eq_append_left

theorem namesOf_home : (⟨"/u"⟩ : Path).namesOf = ["u"] := by
  have habsolute : (⟨"/u"⟩ : Path).isAbsolute = true := by simp [isAbsolute]
  rw [namesOf, parts_of_isAbsolute habsolute, innerParts_eq]
  decide

/-- Slashes are doubled behind a name, and a blank is at the end. -/
theorem normalize_home_doubled :
    (⟨"/u"⟩ : Path).isAbsolute = true ∧ ".." ∉ (Launcher.trimEnd "a//b ").splitOn "/" ∧
      normalize ⟨"/w"⟩ (some ⟨"/u"⟩) "~/a//b " = ⟨"/u/a/b"⟩ := by
  have hhome : (⟨"/u"⟩ : Path).isAbsolute = true := by simp [isAbsolute]
  have hpieces : (Launcher.trimEnd "a//b ").splitOn "/" = ["a", "", "b"] :=
    (Text.splitOn_singleton (Launcher.trimEnd "a//b ") '/').trans (by decide)
  have hup : ".." ∉ (Launcher.trimEnd "a//b ").splitOn "/" := by
    rw [hpieces]
    decide
  have hfound := (normalize_home hhome ⟨"/w"⟩ "a//b " hup).2.1 (by simp)
  have htext : "~/" ++ "a//b " = "~/a//b " := by decide
  rw [namesOf_home, components, hpieces, htext] at hfound
  exact ⟨hhome, hup, hfound.trans (by decide)⟩

/-- With a second slash behind the tilde the home directory is left. -/
theorem normalize_doubleSlash :
    (⟨"/u"⟩ : Path).isAbsolute = true ∧ ".." ∉ (Launcher.trimEnd "/etc").splitOn "/" ∧
      normalize ⟨"/w"⟩ (some ⟨"/u"⟩) "~//etc" = ⟨"/etc"⟩ ∧
      (normalize ⟨"/w"⟩ (some ⟨"/u"⟩) "~//etc").parts ≠
        (⟨"/u"⟩ : Path).fold.parts ++ (components (Launcher.trimEnd "/etc")).map .name := by
  have hhome : (⟨"/u"⟩ : Path).isAbsolute = true := by simp [isAbsolute]
  have hpieces : (Launcher.trimEnd "/etc").splitOn "/" = ["", "etc"] :=
    (Text.splitOn_singleton (Launcher.trimEnd "/etc") '/').trans (by decide)
  have hup : ".." ∉ (Launcher.trimEnd "/etc").splitOn "/" := by
    rw [hpieces]
    decide
  have hnames : ((⟨"/u"⟩ : Path).join (Launcher.trimEnd "/etc")).namesOf = ["etc"] := by
    rw [namesOf_join_of_isAbsolute (by rw [startsWith_trimEnd]; simp) hup, components, hpieces]
    decide
  have htext : "~/" ++ "/etc" = "~//etc" := by decide
  have hfound : normalize ⟨"/w"⟩ (some ⟨"/u"⟩) "~//etc" = ofNames true ["etc"] := by
    rw [← htext, normalize_tilde hhome, hnames]
  have hetc : ∀ s ∈ ["etc"], Plain s := by
    rw [← hnames]
    exact fun s => plain_of_mem_namesOf s
  refine ⟨hhome, hup, hfound.trans (by decide), ?_⟩
  rw [hfound, parts_ofNames hetc, fold_eq hhome, parts_ofNames plain_of_mem_namesOf, namesOf_home, components, hpieces]
  decide

end Path

end Launcher
