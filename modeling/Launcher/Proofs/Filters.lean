import Launcher.Proofs.Number.Digits
import Launcher.Proofs.Text
import Launcher.Warning
import Mathlib.Data.List.DropRight

/-!
# The written form of warning filters

A filter that was read has fields without colons and without blanks at their ends, and a line below 2^32. The written
form of such a filter is read as that filter, so it says all that matters about the text that the filter was read from.
-/

namespace Launcher

/-! ## Texts without blanks at their ends -/

theorem trimChars_eq_rdropWhile (cs : List Char) : trimChars cs = (cs.dropWhile isBlank).rdropWhile isBlank := rfl

theorem trimChars_trimChars (cs : List Char) : trimChars (trimChars cs) = trimChars cs := by
  have hpart : trimChars cs <+: cs.dropWhile isBlank := List.rdropWhile_prefix isBlank _
  have hfront : (trimChars cs).dropWhile isBlank = trimChars cs := by
    refine List.dropWhile_eq_self_iff.mpr fun hlength => ?_
    rw [hpart.getElem hlength]
    exact List.dropWhile_eq_self_iff.mp (List.dropWhile_idempotent isBlank cs) (hlength.trans_le hpart.length_le)
  rw [trimChars_eq_rdropWhile (trimChars cs), hfront]
  exact List.rdropWhile_idempotent isBlank _

/-- Nothing is taken off a text without blanks. -/
theorem trimChars_of_not_blank {cs : List Char} (h : ∀ c ∈ cs, isBlank c = false) : trimChars cs = cs := by
  have hfront : cs.dropWhile isBlank = cs :=
    List.dropWhile_eq_self_iff.mpr fun hlength => by simp [h _ (List.getElem_mem hlength)]
  rw [trimChars_eq_rdropWhile, hfront]
  exact List.rdropWhile_eq_self_iff.mpr fun hne => by simp [h _ (List.getLast_mem hne)]

theorem isBlank_of_isDigit {c : Char} (h : c.isDigit = true) : isBlank c = false := by
  have hrange : 48 ≤ c.toNat ∧ c.toNat ≤ 57 := by simpa [Char.isDigit, UInt32.le_iff_toNat_le] using h
  simp [isBlank]
  omega

theorem trim_trim (s : String) : trim (trim s) = trim s := by
  rw [trim, trim, String.toList_ofList, trimChars_trimChars]

theorem mem_of_mem_trim {c : Char} {s : String} (h : c ∈ (trim s).toList) : c ∈ s.toList := by
  rw [trim, String.toList_ofList] at h
  exact (List.dropWhile_suffix isBlank).subset ((List.rdropWhile_prefix isBlank _).subset h)

namespace WarningAction

/-- The full name of an action is the beginning of no other name. -/
theorem ofName?_name (a : WarningAction) : ofName? a.name = some a := by
  cases a <;> decide

end WarningAction

namespace WarningFilter

/-! ## Reading -/

/-- The fields of a written filter. -/
def fieldsOf (spec : String) : List String := (spec.splitOn ":").map trim

/-- The line that a field stands for. -/
def lineOf? (field : String) : Option Nat := if field.isEmpty then some 0 else natBelow? (1 <<< 32) field

variable {spec : String} {f g : WarningFilter}

theorem parse_eq_ok_iff : parse spec = .ok f ↔
    (fieldsOf spec).length ≤ 5 ∧ WarningAction.ofName? ((fieldsOf spec).getD 0 "") = some f.action ∧
      lineOf? ((fieldsOf spec).getD 4 "") = some f.line ∧ f.message = (fieldsOf spec).getD 1 "" ∧
      f.category = (fieldsOf spec).getD 2 "" ∧ f.module = (fieldsOf spec).getD 3 "" := by
  obtain ⟨action, message, category, module, line⟩ := f
  unfold parse
  dsimp only
  rw [← fieldsOf, ← lineOf?]
  split
  · rename_i hlength
    exact ⟨nofun, fun h => absurd h.1 (Nat.not_le.mpr hlength)⟩
  · rename_i hlength
    rcases WarningAction.ofName? ((fieldsOf spec).getD 0 "") with _ | action'
    · exact ⟨nofun, fun h => nomatch h.2.1⟩
    rcases lineOf? ((fieldsOf spec).getD 4 "") with _ | line'
    · exact ⟨nofun, fun h => nomatch h.2.2.1⟩
    simp only [Except.ok.injEq, mk.injEq, Option.some.injEq, Nat.not_lt.mp hlength, true_and, @eq_comm _ _ message,
      @eq_comm _ _ category, @eq_comm _ _ module]
    tauto

/-! ## Filters that have been read -/

/-- A text that stands between two colons, without the blanks around it. -/
structure IsField (s : String) : Prop where
  colon : ':' ∉ s.toList
  trimmed : trim s = s

/-- A filter that some text is read as. -/
structure Readable (f : WarningFilter) : Prop where
  message : IsField f.message
  category : IsField f.category
  module : IsField f.module
  line : f.line < 1 <<< 32

theorem isField_getD (spec : String) (i : Nat) : IsField ((fieldsOf spec).getD i "") := by
  rw [List.getD_eq_getElem?_getD, fieldsOf, List.getElem?_map]
  rcases hpart : (spec.splitOn ":")[i]? with _ | part
  · exact ⟨List.not_mem_nil, rfl⟩
  · have hsplit : spec.splitOn ":" = (spec.toList.splitOn ':').map String.ofList := Text.splitOn_singleton spec ':'
    have hmem := List.mem_of_getElem? hpart
    rw [hsplit] at hmem
    obtain ⟨cs, hcs, rfl⟩ := List.mem_map.mp hmem
    refine ⟨fun hcolon => Text.not_mem_of_mem_splitOn hcs ?_, trim_trim _⟩
    simpa using mem_of_mem_trim hcolon

theorem lt_of_lineOf? {field : String} {line : Nat} (h : lineOf? field = some line) : line < 1 <<< 32 := by
  unfold lineOf? at h
  split at h
  · exact Option.some.inj h ▸ by decide
  · exact lt_of_natBelow? h

theorem readable_of_parse (h : parse spec = .ok f) : f.Readable := by
  obtain ⟨-, -, hline, hmessage, hcategory, hmodule⟩ := parse_eq_ok_iff.mp h
  exact ⟨hmessage ▸ isField_getD spec 1, hcategory ▸ isField_getD spec 2, hmodule ▸ isField_getD spec 3,
    lt_of_lineOf? hline⟩

/-! ## Written forms -/

theorem isField_action (a : WarningAction) : IsField a.name := by
  cases a <;> exact ⟨by decide, by decide⟩

theorem isField_toString (n : Nat) : IsField (toString n) where
  colon := Decimal.not_mem_toString (by decide) n
  trimmed := by
    have hblank : ∀ c ∈ (toString n).toList, isBlank c = false := by
      rw [Decimal.toList_toString]
      exact fun c hc => isBlank_of_isDigit (Decimal.isDigit_of_mem hc)
    rw [trim, trimChars_of_not_blank hblank, String.ofList_toList]

theorem Readable.fieldsOf_text (h : f.Readable) :
    fieldsOf f.text = [f.action.name, f.message, f.category, f.module, toString f.line] := by
  have hparts : ∀ s ∈ [f.action.name, f.message, f.category, f.module, toString f.line], IsField s := by
    simp only [List.forall_mem_cons]
    exact ⟨isField_action _, h.message, h.category, h.module, isField_toString _, nofun⟩
  have hsplit : f.text.splitOn ":" = [f.action.name, f.message, f.category, f.module, toString f.line] :=
    Text.splitOn_intercalate (List.cons_ne_nil _ _) fun s hs => (hparts s hs).colon
  rw [fieldsOf, hsplit]
  exact (List.map_congr_left fun s hs => (hparts s hs).trimmed).trans (List.map_id _)

theorem lineOf?_toString {n : Nat} (h : n < 1 <<< 32) : lineOf? (toString n) = some n := by
  have hne : (toString n).isEmpty = false := by
    rw [String.isEmpty_eq_false_iff, ← String.toList_inj.ne, Decimal.toList_toString]
    exact Nat.toDigits_ne_nil
  rw [lineOf?, hne, if_neg Bool.false_ne_true]
  exact natBelow?_toString h

/-- The written form of a readable filter is read as that filter. -/
theorem Readable.parse_text (h : f.Readable) : parse f.text = .ok f := by
  rw [parse_eq_ok_iff, h.fieldsOf_text]
  exact ⟨Nat.le_refl 5, f.action.ofName?_name, lineOf?_toString h.line, rfl, rfl, rfl⟩

/-- The written form of a filter that was read is read as that filter again. So where the filters of two texts have one
written form they are one filter, and cover the same warnings. -/
theorem parse_text_of_parse (h : parse spec = .ok f) :
    parse f.text = .ok f ∧
      ∀ spec' g, parse spec' = .ok g → g.text = f.text → g = f ∧ ∀ w, g.covers w = f.covers w := by
  have hread := (readable_of_parse h).parse_text
  refine ⟨hread, fun spec' g hg htext => ?_⟩
  have hagain := (readable_of_parse hg).parse_text
  rw [htext, hread] at hagain
  obtain rfl := Except.ok.inj hagain
  exact ⟨rfl, fun _ => rfl⟩

/-- An action cut short, blanks, a field left empty and a line with a sign and zeros. -/
theorem parse_text_of_parse_short :
    let spec := "\tig : disk  full ::app:+007 "
    let f : WarningFilter := ⟨.ignore, "disk  full", "", "app", 7⟩
    parse spec = .ok f ∧ f.text = "ignore:disk  full::app:7" ∧ parse "ignore:disk  full::app:7" = .ok f ∧
      ∀ spec' g, parse spec' = .ok g → g.text = "ignore:disk  full::app:7" → g = f ∧ ∀ w, g.covers w = f.covers w := by
  intro spec f
  have hsplit : spec.splitOn ":" = ["\tig ", " disk  full ", "", "app", "+007 "] :=
    (Text.splitOn_singleton spec ':').trans (by cbv)
  have hparse : parse spec = .ok f := by
    rw [parse_eq_ok_iff, fieldsOf, hsplit]
    cbv
  have htext : f.text = "ignore:disk  full::app:7" := by cbv
  exact ⟨hparse, htext, htext ▸ parse_text_of_parse hparse⟩

end WarningFilter

end Launcher
