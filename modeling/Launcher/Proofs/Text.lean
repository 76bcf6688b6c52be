-- Texts are evaluated by `cbv`, with equations of functions on bytes that no smaller part of the library has.
import Mathlib

/-!
# Texts cut at a character

A text is cut at a character as the list of its characters is. So texts without that character come back from
the text in which it stands between them.
-/

namespace Launcher.Text

open String

/-! ## The steps of a cut -/

/-- A separator of one character is passed in one step. -/
theorem splitOnAux_cons (c d : Char) (l m r : List Char) (acc : List String) :
    splitOnAux (ofList (l ++ m ++ d :: r)) (String.singleton c) ⟨utf8Len l⟩ ⟨utf8Len (l ++ m)⟩ 0 acc =
      if d = c then
        splitOnAux (ofList (l ++ m ++ d :: r)) (String.singleton c) ⟨utf8Len (l ++ m ++ [d])⟩
          ⟨utf8Len (l ++ m ++ [d])⟩ 0 (ofList m :: acc)
      else
        splitOnAux (ofList (l ++ m ++ d :: r)) (String.singleton c) ⟨utf8Len l⟩ ⟨utf8Len (l ++ m ++ [d])⟩ 0 acc := by
  have hinside : ¬Pos.Raw.atEnd (ofList (l ++ m ++ d :: r)) ⟨utf8Len (l ++ m)⟩ = true := fun h =>
    List.cons_ne_nil d r ((atEnd_of_valid (l ++ m) (d :: r)).mp h)
  have hget : Pos.Raw.get (String.singleton c) 0 = c := get_of_valid [] [c]
  have hnext : Pos.Raw.next (String.singleton c) 0 = ⟨utf8Len [c]⟩ := next_of_valid [] c []
  have hend : Pos.Raw.atEnd (String.singleton c) ⟨utf8Len [c]⟩ = true := (atEnd_of_valid [c] []).mpr rfl
  have hlen : utf8Len (l ++ m ++ [d]) = utf8Len (l ++ m) + d.utf8Size := by
    rw [utf8Len_append, utf8Len_cons, utf8Len_nil, Nat.zero_add]
  rw [splitOnAux, if_neg hinside, get_of_valid, hget, next_of_valid, hnext, if_pos hend, hlen]
  by_cases hd : d = c
  · have hextract := extract_of_valid l m (d :: r)
    rw [← utf8Len_append] at hextract
    subst hd
    have hback : Pos.Raw.unoffsetBy ⟨utf8Len (l ++ m) + d.utf8Size⟩ ⟨utf8Len [d]⟩ = ⟨utf8Len (l ++ m)⟩ := by
      rw [Pos.Raw.unoffsetBy, utf8Len_cons, utf8Len_nil, Nat.zero_add, Nat.add_sub_cancel]
    rw [List.headD_cons, if_pos (beq_self_eq_true d), if_pos rfl, hback, hextract]
  · have hback : Pos.Raw.unoffsetBy ⟨utf8Len (l ++ m)⟩ 0 = ⟨utf8Len (l ++ m)⟩ := by
      rw [Pos.Raw.unoffsetBy, Pos.Raw.byteIdx_zero, Nat.sub_zero]
    rw [List.headD_cons, if_neg (by simpa using hd), if_neg hd, hback, next_of_valid]

/-- The part `m` was read since the last cut; `r` is still to be read. -/
theorem splitOnAux_of_valid (c : Char) (l m r : List Char) (acc : List String) :
    splitOnAux (ofList (l ++ m ++ r)) (String.singleton c) ⟨utf8Len l⟩ ⟨utf8Len (l ++ m)⟩ 0 acc =
      acc.reverse ++ (r.splitOnPPrepend (· == c) m.reverse).map ofList := by
  induction r generalizing l m acc with
  | nil =>
      have hextract := extract_of_valid l m []
      rw [splitOnAux, if_pos ((atEnd_of_valid (l ++ m) []).mpr rfl), utf8Len_append, hextract]
      simp
  | cons d r ih =>
      rw [splitOnAux_cons, List.splitOnPPrepend_cons_eq_if]
      by_cases hd : d = c
      · have hrest := ih (l ++ m ++ [d]) [] (ofList m :: acc)
        rw [if_pos hd, if_pos (by simpa using hd)]
        simpa using hrest
      · have hrest := ih l (m ++ [d]) acc
        rw [if_neg hd, if_neg (by simpa using hd)]
        simpa using hrest

/-! ## Cuts -/

theorem splitOn_singleton (s : String) (c : Char) :
    s.splitOn (String.singleton c) = (s.toList.splitOn c).map ofList := by
  have hne : (String.singleton c == "") = false := by simp [String.singleton_ne_empty]
  have h := splitOnAux_of_valid c [] [] s.toList []
  rw [String.splitOn, hne]
  simpa [List.splitOn_eq_splitOnP] using h

theorem splitOn_ne_nil (s : String) (c : Char) : s.splitOn (String.singleton c) ≠ [] := by
  rw [splitOn_singleton]
  exact fun h => List.splitOn_ne_nil c s.toList (List.map_eq_nil_iff.mp h)

theorem splitOn_append (s t : String) (c : Char) :
    (s ++ String.singleton c ++ t).splitOn (String.singleton c) =
      s.splitOn (String.singleton c) ++ t.splitOn (String.singleton c) := by
  simp [splitOn_singleton, List.splitOn_append_cons_self]

theorem splitOn_intercalate {c : Char} {parts : List String} (hne : parts ≠ [])
    (h : ∀ s ∈ parts, c ∉ s.toList) :
    ((String.singleton c).intercalate parts).splitOn (String.singleton c) = parts := by
  have hlists : ∀ l ∈ parts.map String.toList, c ∉ l := by
    rintro l hl
    obtain ⟨s, hs, rfl⟩ := List.mem_map.mp hl
    exact h s hs
  rw [splitOn_singleton, String.toList_intercalate, String.toList_singleton,
    List.splitOn_intercalate c hlists (by simpa using hne), List.map_map]
  simp [Function.comp_def]

theorem splitOn_of_not_mem {s : String} {c : Char} (h : c ∉ s.toList) : s.splitOn (String.singleton c) = [s] := by
  have hone := splitOn_intercalate (List.cons_ne_nil s []) (List.forall_mem_singleton.mpr h)
  rwa [String.intercalate_singleton] at hone

/-- Lines without the character that ends each of them; behind the last end there is an empty one. -/
theorem splitOn_join {c : Char} {lines : List String} (h : ∀ s ∈ lines, c ∉ s.toList) :
    (String.join (lines.map (· ++ String.singleton c))).splitOn (String.singleton c) = lines ++ [""] := by
  induction lines with
  | nil => exact splitOn_of_not_mem List.not_mem_nil
  | cons s lines ih =>
      obtain ⟨hs, hlines⟩ := List.forall_mem_cons.mp h
      rw [List.map_cons, String.join_cons, splitOn_append, splitOn_of_not_mem hs, ih hlines, List.cons_append,
        List.nil_append, List.cons_append]

theorem not_mem_of_mem_splitOn {c : Char} {cs part : List Char} (h : part ∈ cs.splitOn c) : c ∉ part := by
  induction cs generalizing part with
  | nil => simp_all
  | cons d cs ih =>
      rw [List.splitOn_cons_eq_if_modifyHead] at h
      split at h
      · rcases List.mem_cons.mp h with rfl | h
        · exact List.not_mem_nil
        · exact ih h
      · rename_i hd
        cases hsplit : cs.splitOn c with
        | nil => exact absurd hsplit (List.splitOn_ne_nil c cs)
        | cons first rest =>
            rw [hsplit] at h ih
            rcases List.mem_cons.mp h with rfl | h
            · have hfirst := ih List.mem_cons_self
              have hne : c ≠ d := fun heq => hd (by simp [heq])
              simp [hfirst, hne]
            · exact ih (List.mem_cons_of_mem _ h)

theorem intercalate_splitOn (name : String) (c : Char) :
    (String.singleton c).intercalate (name.splitOn (String.singleton c)) = name := by
  rw [← String.toList_inj, String.toList_intercalate, splitOn_singleton, List.map_map]
  simp [Function.comp_def, List.intercalate_splitOn]

/-! ## The ends of a text -/

theorem endsWith_iff {s suffix : String} : s.endsWith suffix = true ↔ suffix.toList <:+ s.toList := by
  have h := @String.Slice.endsWith_string_iff suffix s.toSlice
  simpa using! h

theorem eq_append_of_endsWith {s suffix : String} (h : s.endsWith suffix = true) : ∃ front, s = front ++ suffix := by
  obtain ⟨cs, hcs⟩ := endsWith_iff.mp h
  exact ⟨String.ofList cs, by rw [← String.toList_inj, String.toList_append, String.toList_ofList, hcs]⟩

theorem endsWith_append (s suffix : String) : (s ++ suffix).endsWith suffix = true := by
  rw [endsWith_iff, String.toList_append]
  exact List.suffix_append ..

end Launcher.Text
