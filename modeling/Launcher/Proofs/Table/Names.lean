import Launcher.Proofs.Text
import Launcher.Table.Unit
import Mathlib.Data.String.Basic
import Mathlib.Tactic.SplitIfs

/-!
# Names of units

The names that a unit can have, by their grammar, and the order of names, which is that of their bytes.
-/

namespace Launcher.Table

/-! ## Identifiers -/

theorem isIdentifierPart_of_mem {s : String} {c : Char} (h : isIdentifier s = true) (hc : c ∈ s.toList) :
    isIdentifierPart c = true := by
  unfold isIdentifier at h
  split at h
  · cases h
  · rename_i d ds hs
    obtain ⟨hstart, hparts⟩ := Bool.and_eq_true_iff.mp h
    rw [hs] at hc
    rcases List.mem_cons.mp hc with rfl | hc
    · unfold isIdentifierPart Char.isAlphanum
      rcases Bool.or_eq_true_iff.mp hstart with hc | hc <;> simp [hc]
    · exact List.all_eq_true.mp hparts c hc

theorem not_mem_of_isIdentifier {s : String} {c : Char} (h : isIdentifier s = true)
    (hc : isIdentifierPart c = false) : c ∉ s.toList := fun hmem => by
  rw [isIdentifierPart_of_mem h hmem] at hc
  cases hc

/-- The characters that an identifier can begin with. -/
def Letter (c : Char) : Prop := 'a' ≤ c ∧ c ≤ 'z' ∨ 'A' ≤ c ∧ c ≤ 'Z' ∨ c = '_'

/-- A letter or an underscore, and behind it letters, underscores and digits, all of ASCII. -/
def Identifier (s : String) : Prop :=
  ∃ c cs, s.toList = c :: cs ∧ Letter c ∧ ∀ d ∈ cs, Letter d ∨ '0' ≤ d ∧ d ≤ '9'

/-- One identifier or more, with dots between them. -/
def DottedName (name : String) : Prop :=
  ∃ parts, parts ≠ [] ∧ (∀ part ∈ parts, Identifier part) ∧ ".".intercalate parts = name

theorem isIdentifierStart_iff (c : Char) : isIdentifierStart c = true ↔ Letter c := by
  have hstart : isIdentifierStart c = (decide (c.val ≥ 'A'.val ∧ c.val ≤ 'Z'.val) ||
      (decide (c.val ≥ 'a'.val) && decide (c.val ≤ 'z'.val)) || c == '_') := rfl
  simp only [hstart, Letter, Char.le_def, Bool.or_eq_true, Bool.and_eq_true, decide_eq_true_eq, beq_iff_eq, ge_iff_le]
  exact or_assoc.trans or_left_comm

theorem isIdentifierPart_iff (c : Char) : isIdentifierPart c = true ↔ Letter c ∨ '0' ≤ c ∧ c ≤ '9' := by
  have hpart : isIdentifierPart c =
      (c.isAlpha || (decide (c.val ≥ '0'.val) && decide (c.val ≤ '9'.val)) || c == '_') := rfl
  rw [← isIdentifierStart_iff, isIdentifierStart]
  simp only [hpart, Char.le_def, Bool.or_eq_true, Bool.and_eq_true, decide_eq_true_eq, beq_iff_eq, ge_iff_le]
  exact or_right_comm

theorem isIdentifier_iff (s : String) : isIdentifier s = true ↔ Identifier s := by
  unfold isIdentifier Identifier
  cases s.toList with
  | nil => simp
  | cons c cs => simp [isIdentifierStart_iff, isIdentifierPart_iff]

theorem isUnitName_iff (name : String) : isUnitName name = true ↔ DottedName name := by
  simp only [isUnitName, List.all_eq_true, isIdentifier_iff]
  constructor
  · intro h
    exact ⟨name.splitOn ".", Text.splitOn_ne_nil name '.', h, Text.intercalate_splitOn name '.'⟩
  · rintro ⟨parts, hne, hparts, rfl⟩
    have hdot : ∀ part ∈ parts, '.' ∉ part.toList := fun part hpart =>
      not_mem_of_isIdentifier ((isIdentifier_iff part).mpr (hparts part hpart)) (by decide)
    have hsplit : (".".intercalate parts).splitOn "." = parts := Text.splitOn_intercalate hne hdot
    rwa [hsplit]

/-! ## Characters of names -/

theorem mem_of_mem_intercalate {sep : String} {parts : List String} {c : Char}
    (h : c ∈ (sep.intercalate parts).toList) : c ∈ sep.toList ∨ ∃ part ∈ parts, c ∈ part.toList := by
  induction parts with
  | nil => simp at h
  | cons part parts ih =>
      cases parts with
      | nil => exact .inr ⟨part, List.mem_cons_self, by simpa using h⟩
      | cons next parts =>
          rw [String.intercalate_cons_cons, String.toList_append, String.toList_append, List.mem_append,
            List.mem_append] at h
          rcases h with (hc | hc) | hc
          · exact .inr ⟨part, List.mem_cons_self, hc⟩
          · exact .inl hc
          · exact (ih hc).imp_right fun ⟨p, hp, hc⟩ => ⟨p, List.mem_cons_of_mem _ hp, hc⟩

theorem mem_of_isUnitName {name : String} (h : isUnitName name = true) {c : Char} (hc : c ∈ name.toList) :
    c = '.' ∨ isIdentifierPart c = true := by
  have hname : ".".intercalate (name.splitOn ".") = name := Text.intercalate_splitOn name '.'
  rw [← hname] at hc
  rcases mem_of_mem_intercalate hc with hc | ⟨part, hpart, hc⟩
  · exact .inl (by simpa using hc)
  · exact .inr (isIdentifierPart_of_mem (List.all_eq_true.mp h part hpart) hc)

theorem mem_blobIdentifier {name : String} (h : isUnitName name = true) {c : Char}
    (hc : c ∈ (blobIdentifier name).toList) : isIdentifierPart c = true := by
  have hfront : "_FM_".toList.all isIdentifierPart = true := by decide
  have hbetween : "__".toList.all isIdentifierPart = true := by decide
  rw [blobIdentifier, String.toList_append, List.mem_append] at hc
  rcases hc with hc | hc
  · exact List.all_eq_true.mp hfront c hc
  · rcases mem_of_mem_intercalate hc with hc | ⟨part, hpart, hc⟩
    · exact List.all_eq_true.mp hbetween c hc
    · exact isIdentifierPart_of_mem (List.all_eq_true.mp h part hpart) hc

theorem not_mem_of_isUnitName {name : String} {c : Char} (h : isUnitName name = true) (hdot : c ≠ '.')
    (hc : isIdentifierPart c = false) : c ∉ name.toList := fun hmem => by
  rcases mem_of_isUnitName h hmem with rfl | hpart
  · exact hdot rfl
  · rw [hc] at hpart
    cases hpart

theorem not_mem_blobIdentifier {name : String} {c : Char} (h : isUnitName name = true)
    (hc : isIdentifierPart c = false) : c ∉ (blobIdentifier name).toList := fun hmem => by
  rw [mem_blobIdentifier h hmem] at hc
  cases hc

/-! ## The order of bytes -/

theorem ofString_ofList (cs : List Char) : Bytes.ofString (String.ofList cs) = cs.flatMap String.utf8EncodeChar := by
  simp [Bytes.ofString, List.utf8Encode]

/-- The first byte in which two characters differ is smaller in the smaller one, and there is one. -/
theorem utf8EncodeChar_lt {c d : Char} (h : c < d) (bs bs' : Bytes) :
    String.utf8EncodeChar c ++ bs < String.utf8EncodeChar d ++ bs' := by
  have hlt : c.val.toNat < d.val.toNat := h
  have hmax : d.val.toNat < 0x110000 := by
    have hvalid := d.valid
    unfold UInt32.isValidChar Nat.isValidChar at hvalid
    omega
  unfold String.utf8EncodeChar
  generalize c.val.toNat = v at hlt
  generalize d.val.toNat = w at hlt hmax
  dsimp only
  -- One case for each pair of lengths; where they differ it is by the first byte.
  split_ifs <;>
    simp (disch := omega) only [List.cons_append, List.nil_append, List.cons_lt_cons_iff, UInt8.lt_iff_toNat_lt,
      ← UInt8.toNat_inj, UInt8.toNat_ofNat', Nat.mod_eq_of_lt] <;>
    omega

theorem flatMap_utf8EncodeChar_lt {cs ds : List Char} (h : cs < ds) :
    cs.flatMap String.utf8EncodeChar < ds.flatMap String.utf8EncodeChar := by
  induction cs generalizing ds with
  | nil =>
      cases ds with
      | nil => cases h
      | cons d ds =>
          obtain ⟨b, bs, hd⟩ := List.exists_cons_of_ne_nil (String.utf8EncodeChar_ne_nil (c := d))
          rw [List.flatMap_cons, hd]
          exact List.nil_lt_cons ..
  | cons c cs ih =>
      cases ds with
      | nil => cases h
      | cons d ds =>
          rw [List.flatMap_cons, List.flatMap_cons]
          rcases List.cons_lt_cons_iff.mp h with hlt | ⟨rfl, hlt⟩
          · exact utf8EncodeChar_lt hlt ..
          · exact List.append_left_lt (ih hlt)

/-- Names are in order where their bytes are. -/
theorem ofString_lt_iff (s t : String) : Bytes.ofString s < Bytes.ofString t ↔ s < t := by
  have hbytes : ∀ {s t : String}, s < t → Bytes.ofString s < Bytes.ofString t := by
    intro s t h
    rw [← String.ofList_toList (s := s), ← String.ofList_toList (s := t), ofString_ofList, ofString_ofList]
    exact flatMap_utf8EncodeChar_lt (String.lt_iff_toList_lt.mp h)
  refine ⟨fun h => Decidable.not_not.mp fun hnot => ?_, hbytes⟩
  rcases Std.le_iff_lt_or_eq.mp (String.not_lt.mp hnot) with hlt | rfl
  · exact List.lt_asymm h (hbytes hlt)
  · exact List.lt_irrefl _ h

end Launcher.Table
