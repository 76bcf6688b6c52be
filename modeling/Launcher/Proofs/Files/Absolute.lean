import Launcher.Proofs.Files.Look

/-!
# Paths from the root

A path from the root means the same in every working directory: it is joined to none, and what it leads to is
looked for from the root.
-/

namespace Launcher

/-! ## Blanks around a text -/

/-- Blanks at the end are taken off behind a character that is none. -/
theorem dropBlanks_cons {c : Char} {cs : List Char} (h : isBlank c = false) :
    ((c :: cs).reverse.dropWhile isBlank).reverse = c :: (cs.reverse.dropWhile isBlank).reverse := by
  rw [List.reverse_cons, List.dropWhile_append]
  split
  · rename_i hblank
    rw [List.dropWhile_cons_of_neg (by simp [h]), List.isEmpty_iff.mp hblank]
    rfl
  · rw [List.reverse_append]
    rfl

theorem trimChars_cons {c : Char} {cs : List Char} (h : isBlank c = false) :
    trimChars (c :: cs) = c :: (cs.reverse.dropWhile isBlank).reverse := by
  rw [trimChars, List.dropWhile_cons_of_neg (by simp [h]), dropBlanks_cons h]

namespace Path

variable {p : Path} {cwd : Path} {home : Option Path} {text : String}

theorem isAbsolute_iff : p.isAbsolute = true ↔ ∃ cs, p.text.toList = '/' :: cs := by
  rw [isAbsolute, String.startsWith_string_iff]
  constructor
  · rintro ⟨cs, hcs⟩
    exact ⟨cs, hcs.symm⟩
  · rintro ⟨cs, hcs⟩
    exact ⟨cs, hcs.symm⟩

theorem text_ne_empty_of_isAbsolute (h : p.isAbsolute = true) : p.text ≠ "" := by
  obtain ⟨cs, hcs⟩ := isAbsolute_iff.mp h
  exact fun htext => by simp [htext] at hcs

theorem isAbsolute_append {q : String} (h : p.isAbsolute = true) : (⟨p.text ++ q⟩ : Path).isAbsolute = true :=
  (startsWith_append (text_ne_empty_of_isAbsolute h)).trans h

theorem isAbsolute_trim (h : (⟨text⟩ : Path).isAbsolute = true) : (⟨trim text⟩ : Path).isAbsolute = true := by
  obtain ⟨cs, hcs⟩ := isAbsolute_iff.mp h
  have hcs : text.toList = '/' :: cs := hcs
  refine isAbsolute_iff.mpr ⟨(cs.reverse.dropWhile isBlank).reverse, ?_⟩
  rw [trim, String.toList_ofList, hcs, trimChars_cons (by decide)]

theorem expandTilde_of_isAbsolute (h : (⟨text⟩ : Path).isAbsolute = true) :
    expandTilde home text = ⟨text⟩ := by
  obtain ⟨cs, hcs⟩ := isAbsolute_iff.mp h
  have hcs : text.toList = '/' :: cs := hcs
  cases home with
  | none => rfl
  | some home =>
      rw [expandTilde, hcs]
      split <;> simp_all

theorem isAbsolute_join {q : String} (h : p.isAbsolute = true) : (p.join q).isAbsolute = true := by
  unfold join
  split
  · rename_i hq
    exact hq
  · split
    · exact isAbsolute_append h
    · rw [String.append_assoc]
      exact isAbsolute_append h

theorem join_of_isAbsolute {q : String} (h : (⟨q⟩ : Path).isAbsolute = true) : p.join q = ⟨q⟩ := if_pos h

theorem isAbsolute_fold (h : p.isAbsolute = true) : p.fold.isAbsolute = true := by
  rw [fold, ofNames, h]
  exact isAbsolute_append (p := ⟨"/"⟩) (by simp [isAbsolute])

/-- The path of a name at the root has no dots to take out. -/
theorem fold_of_fileName {s : String} (h : FileName s) (hp : p.text = "/" ++ s) : p.fold = p := by
  obtain ⟨text⟩ := p
  obtain rfl : text = "/" ++ s := hp
  have habsolute : (⟨"/" ++ s⟩ : Path).isAbsolute = true := isAbsolute_append (p := ⟨"/"⟩) (by simp [isAbsolute])
  have hcut : ("/" ++ s).splitOn "/" = ["", s] :=
    Text.splitOn_intercalate (c := '/') (List.cons_ne_nil "" [s]) (by simp [h.slash])
  simp [fold, parts, pieces, habsolute, hcut, innerPart?, h.ne_empty, h.ne_of_head, foldParts, ofNames]

/-- The working directory and the home directory have no part in what a text from the root means. -/
theorem normalize_of_isAbsolute (h : (⟨text⟩ : Path).isAbsolute = true) :
    normalize cwd home text = (⟨trim text⟩ : Path).fold := by
  have htrim := isAbsolute_trim h
  rw [normalize, expandTilde_of_isAbsolute htrim, join_of_isAbsolute htrim]

theorem isAbsolute_normalize (h : (⟨text⟩ : Path).isAbsolute = true) :
    (normalize cwd home text).isAbsolute = true := by
  rw [normalize_of_isAbsolute h]
  exact isAbsolute_fold (isAbsolute_trim h)

theorem isAbsolute_normalize_of_cwd (h : cwd.isAbsolute = true) : (normalize cwd home text).isAbsolute = true :=
  isAbsolute_fold (isAbsolute_join h)

/-- A slash at the end has no part. -/
theorem parts_slash (hp : p.text ≠ "") : (⟨p.text ++ "/"⟩ : Path).parts = p.parts := by
  have hlast : [""].filterMap innerPart? = [] := by decide
  unfold parts
  rw [pieces_slash hp, isAbsolute_slash hp]
  split
  · rw [List.filterMap_append, hlast, List.append_nil]
  · rcases p.pieces with _ | ⟨piece, rest⟩
    · rfl
    · -- A dot in front of all else is itself a part.
      by_cases hpiece : piece = "."
      · simp only [hpiece, List.cons_append, List.filterMap_append, hlast, List.append_nil]
      · split
        · rename_i heq
          exact absurd (List.cons.inj heq).1 hpiece
        · split
          · rename_i heq
            exact absurd (List.cons.inj heq).1 hpiece
          · rw [List.filterMap_append, hlast, List.append_nil]

theorem fold_join_empty : (p.join "").fold = p.fold := by
  unfold join
  split
  · rename_i h
    exact absurd h (by simp)
  · split
    · rw [String.append_empty]
    · rename_i h
      have hp : p.text ≠ "" := fun htext => h (.inl (by simp [htext]))
      rw [String.append_empty, fold, fold, parts_slash hp, isAbsolute_slash hp]

/-- An empty text means the working directory itself. -/
theorem normalize_empty : normalize cwd home "" = cwd.fold := by
  have htilde : expandTilde home (trim "") = ⟨""⟩ := by cases home <;> rfl
  rw [normalize, htilde, fold_join_empty]

end Path

namespace FileSystem

variable {fs : FileSystem} {cwd : List String} {p : Path}

theorem look_of_isAbsolute (h : p.isAbsolute = true) : { fs with cwd := cwd }.look p = fs.look p := by
  unfold look locate
  rw [if_pos h, if_pos h]
  rfl

theorem pathExists_of_isAbsolute (h : p.isAbsolute = true) :
    { fs with cwd := cwd }.pathExists p = fs.pathExists p := by
  rw [pathExists, look_of_isAbsolute h, pathExists]

theorem read_of_isAbsolute (h : p.isAbsolute = true) : { fs with cwd := cwd }.read p = fs.read p := by
  rw [read, look_of_isAbsolute h, read]

theorem entries_of_isAbsolute (h : p.isAbsolute = true) : { fs with cwd := cwd }.entries p = fs.entries p := by
  rw [entries, look_of_isAbsolute h, entries]

end FileSystem

end Launcher
