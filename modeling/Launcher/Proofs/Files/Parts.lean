import Launcher.Proofs.Files.Absolute

/-!
# The parts of paths

What is put behind a path adds its parts to those of the path. A path without dots is one of names from the root, and
the directory that it is in is the path of the names before the last one.
-/

namespace Launcher.Path

variable {p : Path} {names : List String} {piece s : String}

/-! ## Parts behind a path -/

/-- The pieces of a path, cut as a list of characters is. -/
theorem pieces_eq (p : Path) :
    p.pieces =
      if p.isAbsolute then ((p.text.toList.splitOn '/').map String.ofList).drop 1
      else (p.text.toList.splitOn '/').map String.ofList := by
  have hsplit : p.text.splitOn "/" = (p.text.toList.splitOn '/').map String.ofList :=
    Text.splitOn_singleton p.text '/'
  rw [pieces, hsplit]

/-- The parts that a text has behind a path. -/
def innerParts (text : String) : List Part := (text.splitOn "/").filterMap innerPart?

theorem innerParts_eq (text : String) :
    innerParts text = ((text.toList.splitOn '/').map String.ofList).filterMap innerPart? := by
  have hsplit : text.splitOn "/" = (text.toList.splitOn '/').map String.ofList := Text.splitOn_singleton text '/'
  rw [innerParts, hsplit]

theorem innerParts_append (s t : String) : innerParts (s ++ "/" ++ t) = innerParts s ++ innerParts t := by
  have hsplit : (s ++ "/" ++ t).splitOn "/" = s.splitOn "/" ++ t.splitOn "/" := Text.splitOn_append s t '/'
  rw [innerParts, hsplit, List.filterMap_append]
  rfl

theorem splitOn_empty : "".splitOn "/" = [""] := Text.splitOn_of_not_mem (c := '/') List.not_mem_nil

theorem innerParts_empty : innerParts "" = [] := by
  rw [innerParts, splitOn_empty]
  rfl

theorem innerParts_slashed (names : List String) : innerParts (slashed names) = names.flatMap innerParts := by
  induction names with
  | nil => exact innerParts_empty
  | cons s names ih =>
      cases names with
      | nil => rw [slashed_singleton, List.flatMap_singleton]
      | cons t names => rw [slashed_cons (List.cons_ne_nil t names), innerParts_append, ih, ← List.flatMap_cons]

theorem splitOn_slash_append (t : String) : ("/" ++ t).splitOn "/" = "" :: t.splitOn "/" := by
  have hsplit : ("" ++ "/" ++ t).splitOn "/" = "".splitOn "/" ++ t.splitOn "/" := Text.splitOn_append "" t '/'
  rw [splitOn_empty, String.empty_append] at hsplit
  exact hsplit

/-- The front of an absolute path is cut off as an empty piece. -/
theorem splitOn_of_isAbsolute (h : p.isAbsolute = true) : p.text.splitOn "/" = "" :: p.pieces := by
  obtain ⟨cs, hcs⟩ := isAbsolute_iff.mp h
  have htext : p.text = "/" ++ String.ofList cs := by
    rw [← String.toList_inj, hcs]
    simp
  rw [pieces, if_pos h, htext, splitOn_slash_append]
  rfl

/-- From the root on there is no difference between a path and what stands behind one. -/
theorem parts_of_isAbsolute (h : p.isAbsolute = true) : p.parts = .root :: innerParts p.text := by
  have hempty : innerPart? "" = none := by decide
  rw [parts, if_pos h, innerParts, splitOn_of_isAbsolute h, List.filterMap_cons_none hempty]

theorem parts_of_not_isAbsolute (h : p.isAbsolute = false) :
    p.parts = (if p.pieces.head? = some "." then [.here] else []) ++ p.pieces.filterMap innerPart? := by
  have hdot : innerPart? "." = none := by decide
  rw [parts, if_neg (by simp [h])]
  rcases p.pieces with _ | ⟨piece, rest⟩
  · rfl
  · by_cases hpiece : piece = "."
    · subst hpiece
      simp [hdot]
    · split
      · rename_i heq
        exact absurd (List.cons.inj heq).1 hpiece
      · simp [hpiece]

theorem pieces_ne_nil (hp : p.text ≠ "") (h : p.isAbsolute = false) : p.pieces ≠ [] ∧ p.pieces ≠ [""] := by
  have hpieces : p.pieces = p.text.splitOn "/" := by rw [pieces, if_neg (by simp [h])]
  rw [hpieces]
  refine ⟨Text.splitOn_ne_nil p.text '/', fun hsplit => hp ?_⟩
  have hback := Text.intercalate_splitOn p.text '/'
  have hsplit : p.text.splitOn (String.singleton '/') = [""] := hsplit
  rw [hsplit] at hback
  exact hback.symm

theorem parts_join {q : String} (hp : p.text ≠ "") (hq : q.startsWith "/" = false) :
    (p.join q).parts = p.parts ++ innerParts q := by
  obtain ⟨base, hpieces, hjoin, habsolute⟩ := pieces_join hp hq
  have hempty : innerPart? "" = none := by decide
  have hbase : p.pieces.filterMap innerPart? = base.filterMap innerPart? := by
    rcases hpieces with hpieces | hpieces <;> simp [hpieces, hempty]
  cases h : p.isAbsolute with
  | true =>
      rw [h] at habsolute
      rw [parts, parts, if_pos h, if_pos habsolute, hjoin, List.filterMap_append, hbase]
      rfl
  | false =>
      rw [h] at habsolute
      -- A dot in front is a part of the whole if it is one of the path alone.
      have hhead : (base ++ q.splitOn "/").head? = p.pieces.head? := by
        obtain ⟨hnil, hone⟩ := pieces_ne_nil hp h
        rcases base with _ | ⟨piece, rest⟩
        · rcases hpieces with hpieces | hpieces
          · exact absurd hpieces hnil
          · exact absurd hpieces hone
        · rcases hpieces with hpieces | hpieces <;> rw [hpieces] <;> rfl
      rw [parts_of_not_isAbsolute h, parts_of_not_isAbsolute habsolute, hjoin, hhead, List.filterMap_append, hbase,
        List.append_assoc]
      rfl

/-! ## Paths of names -/

/-- A name that stands for itself in a path. -/
structure Plain (s : String) : Prop where
  slash : '/' ∉ s.toList
  part : innerPart? s = some (.name s)

theorem Plain.ne_empty (h : Plain s) : s ≠ "" := by
  rintro rfl
  cases h.part

theorem Plain.ne_dot (h : Plain s) : s ≠ "." := by
  rintro rfl
  cases h.part

theorem plain_of_innerPart? (hslash : '/' ∉ piece.toList) (h : innerPart? piece = some (.name s)) : Plain s := by
  have hsame : piece = s := by
    unfold innerPart? at h
    split at h
    · cases h
    · split at h <;> cases h
      rfl
  subst hsame
  exact ⟨hslash, h⟩

theorem slash_notMem_of_mem_pieces (h : piece ∈ p.pieces) : '/' ∉ piece.toList := by
  have hmem : piece ∈ (p.text.toList.splitOn '/').map String.ofList := by
    rw [pieces_eq] at h
    split at h
    · exact List.mem_of_mem_drop h
    · exact h
  obtain ⟨cs, hcs, rfl⟩ := List.mem_map.mp hmem
  simpa using Text.not_mem_of_mem_splitOn hcs

theorem plain_of_mem_parts (h : .name s ∈ p.parts) : Plain s := by
  have hpiece : ∃ piece ∈ p.pieces, innerPart? piece = some (.name s) := by
    cases habsolute : p.isAbsolute with
    | true =>
        rw [parts, if_pos habsolute] at h
        exact List.mem_filterMap.mp ((List.mem_cons.mp h).resolve_left (by simp))
    | false =>
        rw [parts_of_not_isAbsolute habsolute] at h
        rcases List.mem_append.mp h with h | h
        · split at h
          · cases List.mem_singleton.mp h
          · cases h
        · exact List.mem_filterMap.mp h
  obtain ⟨piece, hmem, hpart⟩ := hpiece
  exact plain_of_innerPart? (slash_notMem_of_mem_pieces hmem) hpart

theorem plain_of_mem_foldParts {parts : List Part} (hnames : ∀ s ∈ names, Plain s)
    (hparts : ∀ s, .name s ∈ parts → Plain s) : ∀ s ∈ foldParts names parts, Plain s := by
  induction parts generalizing names with
  | nil =>
      intro s hs
      exact hnames s (List.mem_reverse.mp hs)
  | cons part parts ih =>
      have hrest : ∀ s, .name s ∈ parts → Plain s := fun s hs => hparts s (List.mem_cons_of_mem part hs)
      cases part with
      | root => exact ih hnames hrest
      | here => exact ih hnames hrest
      | up => exact ih (fun s hs => hnames s (List.mem_of_mem_drop hs)) hrest
      | name s => exact ih (List.forall_mem_cons.mpr ⟨hparts s List.mem_cons_self, hnames⟩) hrest

/-- The names that a path leads along, with dots and double dots taken out. -/
def namesOf (p : Path) : List String := foldParts [] p.parts

theorem plain_of_mem_namesOf : ∀ s ∈ p.namesOf, Plain s :=
  plain_of_mem_foldParts (fun _ h => absurd h List.not_mem_nil) fun _ => plain_of_mem_parts

theorem isAbsolute_ofNames (names : List String) : (ofNames true names).isAbsolute = true :=
  isAbsolute_append (p := ⟨"/"⟩) (by simp [isAbsolute])

theorem text_ofNames (names : List String) : (ofNames true names).text = "/" ++ slashed names := rfl

theorem pieces_ofNames (names : List String) : (ofNames true names).pieces = (slashed names).splitOn "/" := by
  have hsplit := splitOn_of_isAbsolute (isAbsolute_ofNames names)
  rw [text_ofNames, splitOn_slash_append] at hsplit
  exact (List.cons.inj hsplit).2.symm

theorem pieces_ofNames_of_plain (hne : names ≠ []) (h : ∀ s ∈ names, Plain s) : (ofNames true names).pieces = names :=
  (pieces_ofNames names).trans (Text.splitOn_intercalate hne fun s hs => (h s hs).slash)

theorem Plain.innerParts_eq (h : Plain s) : innerParts s = [.name s] := by
  have hcut : s.splitOn "/" = [s] := Text.splitOn_of_not_mem h.slash
  rw [innerParts, hcut, List.filterMap_cons_some h.part]
  rfl

theorem parts_ofNames (h : ∀ s ∈ names, Plain s) : (ofNames true names).parts = .root :: names.map .name := by
  have hnames : names.flatMap innerParts = names.map .name := by
    rw [List.map_eq_flatMap]
    exact List.flatMap_congr fun s hs => (h s hs).innerParts_eq
  rw [parts_of_isAbsolute (isAbsolute_ofNames names), text_ofNames, ← String.empty_append (s := "/"), innerParts_append,
    innerParts_empty, innerParts_slashed, hnames]
  rfl

theorem ofNames_inj {names' : List String} (h : ∀ s ∈ names, Plain s) (h' : ∀ s ∈ names', Plain s) :
    ofNames true names = ofNames true names' ↔ names = names' := by
  refine ⟨fun heq => ?_, fun heq => heq ▸ rfl⟩
  have hparts := congrArg parts heq
  rw [parts_ofNames h, parts_ofNames h'] at hparts
  exact List.map_injective_iff.mpr (fun _ _ => Part.name.inj) (List.cons.inj hparts).2

/-! ## Directories -/

/-- The directory that a path is in. What has no parent is in itself. -/
def directory (p : Path) : Path := p.parent?.getD p

theorem trimEnd_of_plain (absolute : Bool) (h : ∀ s ∈ names, Plain s) : trimEnd absolute names = names := by
  match names, h with
  | [], _ => rfl
  | [s], h =>
      have hs := h s List.mem_cons_self
      simp [trimEnd, hs.ne_empty, hs.ne_dot]
  | s :: t :: rest, h =>
      have hs := h s List.mem_cons_self
      simp [trimEnd, hs.ne_empty, hs.ne_dot]

theorem directory_ofNames (h : ∀ s ∈ names, Plain s) :
    (ofNames true names).directory = ofNames true names.dropLast := by
  rcases List.eq_nil_or_concat' names with rfl | ⟨front, last, rfl⟩
  · rw [directory, parent?, pieces_ofNames, slashed, String.intercalate_nil, splitOn_empty]
    rfl
  · have hreverse : ∀ s ∈ (front ++ [last]).reverse, Plain s := fun s hs => h s (List.mem_reverse.mp hs)
    have hfront : ∀ s ∈ front.reverse, Plain s := fun s hs =>
      h s (List.mem_append_left _ (List.mem_reverse.mp hs))
    rw [directory, parent?, pieces_ofNames_of_plain (by simp) h, isAbsolute_ofNames, trimEnd_of_plain true hreverse,
      List.reverse_concat]
    dsimp only
    rw [trimEnd_of_plain true hfront, List.reverse_reverse, List.dropLast_concat]
    rfl

theorem directory_fold (h : p.isAbsolute = true) : p.fold.directory = ofNames true p.namesOf.dropLast := by
  rw [fold, h]
  exact directory_ofNames plain_of_mem_namesOf

end Launcher.Path
