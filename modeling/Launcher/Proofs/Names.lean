import Mathlib.Data.List.Induction
import Launcher.Proofs.Text
import Launcher.Run.Dispatcher
import Launcher.Script.Machine.Exec

/-!
# Dotted names and what stands in front of their dots

An import goes through the names in front of the dots of a name before it comes to the name itself, and a module that
is to be run has all of them looked up first.
-/

namespace Launcher

/-- The name itself, or what stands in front of one of its dots. -/
def Heads (p name : String) : Prop := p = name ∨ ∃ rest, p ++ "." ++ rest = name

namespace Heads

variable {p q part name : String}

theorem refl (name : String) : Heads name name := .inl rfl

/-- What stands in front of a dot of a longer name is that name, or stands there in the name before the last dot. -/
theorem of_concat (hpart : '.' ∉ part.toList) (h : Heads p (q ++ "." ++ part)) : p = q ++ "." ++ part ∨ Heads p q := by
  rcases h with rfl | ⟨rest, h⟩
  · exact .inl rfl
  have hlists : p.toList ++ '.' :: rest.toList = q.toList ++ '.' :: part.toList := by
    have h := congrArg String.toList h
    simpa using h
  right
  rcases List.append_eq_append_iff.mp hlists with ⟨between, hq, hrest⟩ | ⟨between, hp, hrest⟩
  · cases between with
    | nil => exact .inl (String.toList_inj.mp (by simpa using hq.symm))
    | cons c between =>
        obtain ⟨rfl, -⟩ := List.cons.inj hrest
        exact .inr ⟨String.ofList between, by rw [← String.toList_inj, hq]; simp⟩
  · cases between with
    | nil => exact .inl (String.toList_inj.mp (by simpa using hp))
    | cons c between =>
        obtain ⟨-, hrest⟩ := List.cons.inj hrest
        exact absurd (by simp [hrest]) hpart

theorem of_no_dot (hname : '.' ∉ name.toList) (h : Heads p name) : p = name := by
  rcases h with rfl | ⟨rest, rfl⟩
  · rfl
  · exact absurd (by simp) hname

end Heads

/-! ## Names that an import goes through -/

namespace Script.Exec

/-- One more component at the end of a dotted name. -/
def extendParts (parts : List String) (part : String) : List String :=
  match parts with
  | [] => [part]
  | q :: _ => (if q.isEmpty then part else q ++ "." ++ part) :: parts

theorem throughNames_eq (dotted : String) :
    throughNames dotted = ((dotted.splitOn ".").foldl extendParts []).reverse := rfl

/-- What stands in front of the dots of each name is among `done` or among the names before it. -/
def Ordered (done : List String) : List String → Prop
  | [] => True
  | name :: names => (∀ p, Heads p name → p = name ∨ p ∈ done) ∧ Ordered (name :: done) names

theorem ordered_append {done xs ys : List String} :
    Ordered done (xs ++ ys) ↔ Ordered done xs ∧ Ordered (xs.reverse ++ done) ys := by
  induction xs generalizing done with
  | nil => simp [Ordered]
  | cons x xs ih => simp [Ordered, ih, and_assoc]

theorem ordered_extendParts {parts : List String} {part : String} (hpart : '.' ∉ part.toList)
    (h : Ordered [] parts.reverse) : Ordered [] (extendParts parts part).reverse := by
  cases parts with
  | nil => exact ⟨fun p hp => .inl (hp.of_no_dot hpart), trivial⟩
  | cons q rest =>
      rw [extendParts, List.reverse_cons, ordered_append, List.reverse_reverse, List.append_nil]
      refine ⟨h, fun p hp => ?_, trivial⟩
      split at hp
      case isTrue hempty =>
        rw [if_pos hempty]
        exact .inl (hp.of_no_dot hpart)
      case isFalse hempty =>
        rw [if_neg hempty]
        refine (hp.of_concat hpart).imp_right fun hq => ?_
        rw [List.reverse_cons, ordered_append, List.reverse_reverse, List.append_nil] at h
        exact List.mem_cons.mpr (h.2.1 p hq)

theorem ordered_throughNames (dotted : String) : Ordered [] (throughNames dotted) := by
  have hall : ∀ parts : List String, (∀ part ∈ parts, '.' ∉ part.toList) →
      ∀ start, Ordered [] start.reverse → Ordered [] (parts.foldl extendParts start).reverse := by
    intro parts
    induction parts with
    | nil => exact fun _ _ h => h
    | cons part parts ih =>
        intro hparts start hstart
        obtain ⟨hpart, hparts⟩ := List.forall_mem_cons.mp hparts
        exact ih hparts _ (ordered_extendParts hpart hstart)
  have hparts : dotted.splitOn "." = (dotted.toList.splitOn '.').map String.ofList :=
    Text.splitOn_singleton dotted '.'
  refine hall _ (fun part hpart => ?_) [] trivial
  rw [hparts] at hpart
  obtain ⟨cs, hcs, rfl⟩ := List.mem_map.mp hpart
  simpa using Text.not_mem_of_mem_splitOn hcs

/-- The names of the front parts, the shortest first. -/
def frontNames (components : List String) : List String :=
  (List.range components.length).map fun i => ".".intercalate (components.take (i + 1))

theorem frontNames_concat (front : List String) (part : String) :
    frontNames (front ++ [part]) = frontNames front ++ [".".intercalate (front ++ [part])] := by
  have hfront : ∀ i ∈ List.range front.length, (front ++ [part]).take (i + 1) = front.take (i + 1) :=
    fun i hi => List.take_append_of_le_length (Nat.succ_le_of_lt (List.mem_range.mp hi))
  rw [frontNames, List.length_append, List.length_singleton, List.range_succ, List.map_append]
  congr 1
  · exact List.map_congr_left fun i hi => by rw [hfront i hi]
  · rw [List.map_singleton, List.take_of_length_le (by simp)]

theorem intercalate_concat {front : List String} (hne : front ≠ []) (part : String) :
    ".".intercalate (front ++ [part]) = ".".intercalate front ++ "." ++ part := by
  rw [String.intercalate_append_of_ne_nil hne (List.cons_ne_nil part []), String.intercalate_singleton]

theorem intercalate_ne_empty {components : List String} (hne : components ≠ []) (h : "" ∉ components) :
    ".".intercalate components ≠ "" := by
  rcases List.eq_nil_or_concat components with rfl | ⟨front, part, rfl⟩
  · exact absurd rfl hne
  rw [List.concat_eq_append] at h ⊢
  by_cases hfront : front = []
  · subst hfront
    rw [List.nil_append, String.intercalate_singleton]
    rintro rfl
    exact h (List.mem_singleton_self "")
  · rw [intercalate_concat hfront]
    intro hempty
    simpa using congrArg String.length hempty

/-- Components none of which is empty go through the names of their front parts. -/
theorem foldl_extendParts_eq {components : List String} (h : "" ∉ components) :
    components.foldl extendParts [] = (frontNames components).reverse := by
  induction components using List.reverseRecOn with
  | nil => rfl
  | append_singleton front part ih =>
      have hfront : "" ∉ front := fun hin => h (List.mem_append_left _ hin)
      rw [List.foldl_concat, ih hfront, frontNames_concat, List.reverse_concat]
      by_cases hne : front = []
      · subst hne
        simp [extendParts, frontNames]
      -- The last of the names is the front itself, which the next component is put behind.
      obtain ⟨names, hnames⟩ : ∃ names, (frontNames front).reverse = ".".intercalate front :: names := by
        rcases List.eq_nil_or_concat front with rfl | ⟨rest, last, rfl⟩
        · exact absurd rfl hne
        · rw [List.concat_eq_append, frontNames_concat, List.reverse_concat]
          exact ⟨_, rfl⟩
      have hempty : (".".intercalate front).isEmpty = false := by simpa using intercalate_ne_empty hne hfront
      rw [hnames, extendParts, hempty, intercalate_concat hne]
      rfl

theorem throughNames_eq_frontNames {name : String} (h : "" ∉ name.splitOn ".") :
    throughNames name = frontNames (name.splitOn ".") := by
  rw [throughNames_eq, foldl_extendParts_eq h, List.reverse_reverse]

end Script.Exec

/-! ## Packages that enclose a module -/

theorem Dispatcher.mem_enclosing {p rest name : String} (h : p ++ "." ++ rest = name) : p ∈ enclosing name := by
  have hsplit : name.splitOn "." = p.splitOn "." ++ rest.splitOn "." := by
    rw [← h]
    exact Text.splitOn_append p rest '.'
  have hp : 0 < (p.splitOn ".").length := List.length_pos_of_ne_nil (Text.splitOn_ne_nil p '.')
  have hrest : 0 < (rest.splitOn ".").length := List.length_pos_of_ne_nil (Text.splitOn_ne_nil rest '.')
  refine List.mem_map.mpr ⟨(p.splitOn ".").length - 1, ?_, ?_⟩
  · rw [List.mem_range, hsplit, List.length_append]
    omega
  · rw [hsplit, Nat.sub_add_cancel hp, List.take_left]
    exact Text.intercalate_splitOn p '.'

theorem Dispatcher.enclosing_subset {name : String} (h : "" ∉ name.splitOn ".") :
    enclosing name ⊆ Script.Exec.throughNames name := by
  rw [Script.Exec.throughNames_eq_frontNames h]
  exact List.map_subset _ (List.range_subset.mpr (Nat.sub_le ..))

end Launcher
