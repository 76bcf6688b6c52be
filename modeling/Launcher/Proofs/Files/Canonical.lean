import Launcher.Proofs.Files.Parts
import Mathlib.Logic.Relation

/-!
# Canonical paths

Whatever a text means in a working directory is a path of names from the root. These are the names that are left when
double dots have cancelled the names before them, in whatever order that is done. So such a path means itself, unless
its last name ends with a blank.
-/

namespace Launcher.Path

open Relation

variable {p cwd : Path} {home : Option Path} {text : String} {names : List String} {xs ys : List Part} {part : Part}

/-! ## Double dots that cancel -/

/-- A double dot goes, with the name right before it, or alone behind the root. -/
inductive Cancels : List Part → List Part → Prop
  | name (front : List Part) (s : String) (back : List Part) : Cancels (front ++ .name s :: .up :: back) (front ++ back)
  | root (back : List Part) : Cancels (.root :: .up :: back) (.root :: back)

/-- Names and double dots behind others are taken with the names that are left of those. -/
theorem foldParts_append (names : List String) (xs ys : List Part) :
    foldParts names (xs ++ ys) = foldParts (foldParts names xs).reverse ys := by
  induction xs generalizing names with
  | nil => simp [foldParts]
  | cons part xs ih =>
      rw [List.cons_append]
      cases part with
      | root => exact ih names
      | here => exact ih names
      | up => exact ih (names.drop 1)
      | name s => exact ih (s :: names)

theorem Cancels.foldParts_eq (h : Cancels xs ys) : foldParts [] xs = foldParts [] ys := by
  cases h with
  | name front s back =>
      rw [foldParts_append, foldParts_append]
      rfl
  | root back => rfl

theorem foldParts_names (front names : List String) : foldParts front (names.map .name) = front.reverse ++ names := by
  induction names generalizing front with
  | nil => exact (List.append_nil _).symm
  | cons s names ih =>
      have hrest := ih (s :: front)
      rwa [List.reverse_cons, List.append_assoc] at hrest

/-- The parts behind a path are double dots and names. -/
theorem mem_innerParts (h : part ∈ innerParts text) : part = .up ∨ ∃ s, part = .name s := by
  obtain ⟨piece, -, hpiece⟩ := List.mem_filterMap.mp h
  unfold innerPart? at hpiece
  split at hpiece
  · cases hpiece
  · split at hpiece
    · cases hpiece
      exact .inl rfl
    · cases hpiece
      exact .inr ⟨piece, rfl⟩

/-- Double dots and names behind names from the root cancel to the names that are left of them. -/
theorem cancels_foldParts (names : List String) (h : ∀ part ∈ xs, part = .up ∨ ∃ s, part = .name s) :
    ReflTransGen Cancels (.root :: names.map .name ++ xs) (.root :: (foldParts names.reverse xs).map .name) := by
  induction xs generalizing names with
  | nil =>
      rw [List.append_nil, foldParts, List.reverse_reverse]
  | cons part xs ih =>
      obtain ⟨hpart, hxs⟩ := List.forall_mem_cons.mp h
      rcases hpart with rfl | ⟨s, rfl⟩
      · rcases List.eq_nil_or_concat' names with rfl | ⟨front, s, rfl⟩
        · exact .head (.root xs) (ih [] hxs)
        · have hstep := Cancels.name (.root :: front.map .name) s xs
          have hrest := ih front hxs
          rw [List.map_append, List.reverse_concat, ← List.cons_append, List.append_assoc]
          exact .head hstep hrest
      · have hrest := ih (names ++ [s]) hxs
        rwa [List.map_append, List.reverse_concat, ← List.cons_append, List.append_assoc] at hrest

/-- However double dots are cancelled, the names that a path leads along are left. -/
theorem cancels_iff {parts : List Part} (h : p.isAbsolute = true) (hparts : p.parts = parts) :
    ReflTransGen Cancels parts (.root :: names.map .name) ↔ names = p.namesOf := by
  subst hparts
  constructor
  · intro hcancels
    have hfold : p.namesOf = foldParts [] (.root :: names.map .name) := by
      refine ReflTransGen.head_induction_on (motive := fun xs _ => foldParts [] xs = _) hcancels rfl ?_
      intro xs ys hstep _ heq
      exact hstep.foldParts_eq.trans heq
    have hnames := foldParts_names [] names
    exact (hfold.trans hnames).symm
  · rintro rfl
    have hcancels := cancels_foldParts [] fun part (hpart : part ∈ innerParts p.text) => mem_innerParts hpart
    rw [namesOf, parts_of_isAbsolute h]
    exact hcancels

/-! ## Canonical paths -/

/-- The parts that a text has in a working directory: its own, behind those of the directory unless it leads from the
root. Blanks at its ends do not count, and a tilde in front stands for the home directory. -/
def partsIn (cwd : Path) (home : Option Path) (text : String) : List Part :=
  let taken := expandTilde home (trim text)
  if taken.isAbsolute then taken.parts else cwd.parts ++ innerParts taken.text

theorem join_text_of_isAbsolute (h : p.isAbsolute = true) : cwd.join p.text = p := join_of_isAbsolute h

theorem parts_absolute (hcwd : cwd.isAbsolute = true) :
    (cwd.join (expandTilde home (trim text)).text).parts = partsIn cwd home text := by
  unfold partsIn
  dsimp only
  generalize expandTilde home (trim text) = taken
  split
  · rename_i htaken
    rw [join_text_of_isAbsolute htaken]
  · rename_i htaken
    exact parts_join (text_ne_empty_of_isAbsolute hcwd) (Bool.eq_false_iff.mpr htaken)

/-- A name between slashes that stands for itself is neither empty nor a dot nor two. -/
theorem Plain.isName {s : String} (h : Plain s) : s ≠ "" ∧ s ≠ "." ∧ s ≠ ".." ∧ '/' ∉ s.toList := by
  refine ⟨h.ne_empty, h.ne_dot, ?_, h.slash⟩
  rintro rfl
  cases h.part

theorem fold_eq (h : p.isAbsolute = true) : p.fold = ofNames true p.namesOf := by
  rw [fold, h, namesOf]

theorem namesOf_ofNames (h : ∀ s ∈ names, Plain s) : (ofNames true names).namesOf = names := by
  rw [namesOf, parts_ofNames h]
  exact foldParts_names [] names

/-- A path of names from the root means itself, in any directory. -/
theorem normalize_ofNames (h : ∀ s ∈ names, Plain s)
    (htrim : trim (ofNames true names).text = (ofNames true names).text)
    (cwd : Path) (home : Option Path) : normalize cwd home (ofNames true names).text = ofNames true names := by
  have habsolute := isAbsolute_ofNames names
  have hfold : normalize cwd home (ofNames true names).text = (⟨trim (ofNames true names).text⟩ : Path).fold :=
    normalize_of_isAbsolute habsolute
  rw [hfold, htrim, fold_eq habsolute, namesOf_ofNames h]

/-- A text means a path of names from the root: the only names that its parts can cancel to. If there are no blanks at
the ends of that path, it means itself. -/
theorem normalize_canonical (hcwd : cwd.isAbsolute = true) (home : Option Path) (text : String) :
    let found := normalize cwd home text
    ∃ names, found = ofNames true names ∧ found.parts = .root :: names.map .name ∧
      (∀ s ∈ names, s ≠ "" ∧ s ≠ "." ∧ s ≠ ".." ∧ '/' ∉ s.toList) ∧
      (∀ left, ReflTransGen Cancels (partsIn cwd home text) (.root :: left.map .name) ↔ left = names) ∧
      (trim found.text = found.text → ∀ cwd home, normalize cwd home found.text = found) := by
  intro found
  have habsolute := isAbsolute_join (q := (expandTilde home (trim text)).text) hcwd
  have hplain := plain_of_mem_namesOf (p := cwd.join (expandTilde home (trim text)).text)
  have hfound : found = ofNames true (cwd.join (expandTilde home (trim text)).text).namesOf := fold_eq habsolute
  refine ⟨_, hfound, ?_, fun s hs => (hplain s hs).isName, fun left => ?_, fun htrim cwd' home' => ?_⟩
  · rw [hfound, parts_ofNames hplain]
  · exact cancels_iff habsolute (parts_absolute hcwd)
  · rw [hfound] at htrim ⊢
    exact normalize_ofNames hplain htrim cwd' home'

/-- More double dots than there are names in front of them. -/
theorem normalize_canonical_above :
    (⟨"/w"⟩ : Path).isAbsolute = true ∧ normalize ⟨"/w"⟩ none " ../../b" = ⟨"/b"⟩ ∧
      (∀ left, ReflTransGen Cancels [.root, .name "w", .up, .up, .name "b"] (.root :: left.map .name) ↔ left = ["b"]) ∧
      ∀ cwd home, normalize cwd home "/b" = ⟨"/b"⟩ := by
  have hcwd : (⟨"/w"⟩ : Path).isAbsolute = true := by simp [isAbsolute]
  have htrim : trim "/b" = "/b" := by decide
  have hstart : partsIn ⟨"/w"⟩ none " ../../b" = [.root, .name "w", .up, .up, .name "b"] := by
    have htaken : trim " ../../b" = "../../b" := by decide
    rw [partsIn, expandTilde, htaken, if_neg (by simp [isAbsolute]), parts_of_isAbsolute hcwd, innerParts_eq,
      innerParts_eq]
    decide
  have hsteps : ReflTransGen Cancels [.root, .name "w", .up, .up, .name "b"] [.root, .name "b"] :=
    .head (.name [.root] "w" [.up, .name "b"]) (.single (.root [.name "b"]))
  obtain ⟨names, hfound, -, -, hcancels, hagain⟩ := normalize_canonical hcwd none " ../../b"
  rw [hstart] at hcancels
  obtain rfl := (hcancels ["b"]).mp hsteps
  have htext : ofNames true ["b"] = ⟨"/b"⟩ := by decide
  rw [htext] at hfound
  rw [hfound] at hagain
  exact ⟨hcwd, hfound, hcancels, hagain htrim⟩

end Launcher.Path
