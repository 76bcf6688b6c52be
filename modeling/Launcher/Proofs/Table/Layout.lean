import Launcher.Proofs.Number.Digits
import Launcher.Proofs.Table.Canonical
import Launcher.Table.Source

/-!
# The lines of a source text

The text of a table has its lines, each ended by a line feed and none with one inside: two in front, the array of each
unit, and an entry for each unit, for each name whose import must fail and for the sentinel.
-/

namespace Launcher.Table.Source

/-! ## Kinds of lines -/

def lines (text : String) : List String := text.splitOn "\n"

/-- The line that opens an array of so many bytes. -/
def opening (identifier : String) (size : Nat) : String :=
  "pub static " ++ identifier ++ ": [u8; " ++ toString size ++ "] = ["

/-- The line that closes an array. -/
def closing : String := "];"

/-- The line of an entry with code, which refers to an array. -/
def referring (isPackage : Bool) (name identifier : String) : String :=
  "    frozenrun_table::FrozenEntry::" ++ (if isPackage then "package" else "module") ++ "(\"" ++ name ++ "\", &" ++
    identifier ++ "),"

/-- The line of an entry for a name whose import must fail. -/
def blocking (name : String) : String :=
  "    frozenrun_table::FrozenEntry::forced_failure(\"" ++ name ++ "\"),"

/-! ## The lines of a table -/

def row (bs : Bytes) : String := "    " ++ String.join (bs.map fun b => toString b.toNat ++ ",")

def rows (code : Bytes) : List String := (chunks (bytesPerLine - 1) code.length code).map row

/-- The lines of an array, and two in front of it. -/
def arrayLines (identifier : String) (code : Bytes) : List String :=
  "" :: "#[allow(non_upper_case_globals)]" :: opening identifier code.length :: (rows code ++ [closing])

def blobLines (r : Record) : List String :=
  match r.code with
  | some code => arrayLines (blobIdentifier r.name) code
  | none => []

def entryLine (r : Record) : String := "    " ++ entry r ++ ","

def modulesOpening : String := "pub static FROZEN_MODULES: &[frozenrun_table::FrozenEntry<'static>] = &["

def linesOf (t : BuiltTable) : List String :=
  "// Generated by frozenrun-freeze. Do not edit." :: ("// encoding: " ++ t.encoding.name) ::
    (t.records.flatMap blobLines ++ "" :: modulesOpening :: (t.records.map entryLine ++ [closing]))

theorem blob_eq (identifier : String) (code : Bytes) :
    blob identifier code = String.join ((arrayLines identifier code).map (· ++ "\n")) := by
  -- Literals that go over the end of a line are cut there.
  have hfront : "\n#[allow(non_upper_case_globals)]\npub static " =
      "\n" ++ ("#[allow(non_upper_case_globals)]" ++ ("\n" ++ "pub static ")) := by decide
  have hback : "] = [\n" = "] = [" ++ "\n" := by decide
  have hclosing : "];\n" = closing ++ "\n" := by decide
  have hrows : (chunks (bytesPerLine - 1) code.length code).map byteLine = (rows code).map (· ++ "\n") := by
    rw [rows, List.map_map]
    rfl
  delta blob arrayLines opening
  rw [hrows, hfront, hback, hclosing]
  simp only [-String.reduceAppend, List.map_cons, List.map_append, List.map_nil, String.join_cons, String.join_append,
    String.join_nil, String.append_assoc, String.append_empty, String.empty_append]

theorem join_flatMap {f : Record → String} {g : Record → List String} (rs : List Record)
    (h : ∀ r, f r = String.join ((g r).map (· ++ "\n"))) :
    String.join (rs.map f) = String.join ((rs.flatMap g).map (· ++ "\n")) := by
  induction rs with
  | nil => rfl
  | cons r rs ih => rw [List.map_cons, String.join_cons, ih, h, List.flatMap_cons, List.map_append, String.join_append]

theorem text_eq (t : BuiltTable) : text t = String.join ((linesOf t).map (· ++ "\n")) := by
  have hheader : "// Generated by frozenrun-freeze. Do not edit.\n// encoding: " =
      "// Generated by frozenrun-freeze. Do not edit." ++ ("\n" ++ "// encoding: ") := by decide
  have hmodules : "\npub static FROZEN_MODULES: &[frozenrun_table::FrozenEntry<'static>] = &[\n" =
      "\n" ++ (modulesOpening ++ "\n") := by decide
  have hclosing : "];\n" = closing ++ "\n" := by decide
  have hcomma : ",\n" = "," ++ "\n" := by decide
  have hentries : (t.records.map fun r => "    " ++ entry r ++ ",\n") = (t.records.map entryLine).map (· ++ "\n") := by
    rw [List.map_map, hcomma]
    exact List.map_congr_left fun r _ => (String.append_assoc ..).symm
  delta text linesOf
  rw [hentries, join_flatMap (g := blobLines) t.records, hheader, hmodules, hclosing]
  · simp only [-String.reduceAppend, List.map_cons, List.map_append, List.map_nil, String.join_cons, String.join_append,
      String.join_nil, String.append_assoc, String.append_empty, String.empty_append]
  · intro r
    unfold blobLines
    cases r.code with
    | none => rw [List.map_nil, String.join_nil]
    | some code => exact blob_eq ..

/-! ## The lines of a finished table -/

variable {b : Builder} {t : BuiltTable} {us : List CompiledUnit} {blocked : List String}

def unitArray (u : CompiledUnit) : List String := arrayLines (blobIdentifier u.name) u.code

def unitLine (u : CompiledUnit) : String := referring u.isPackage u.name (blobIdentifier u.name)

def sentinelLine : String := "    frozenrun_table::FrozenEntry::SENTINEL,"

theorem entryLine_unit {u : CompiledUnit} (h : u.record.isSentinel = false) : entryLine u.record = unitLine u := by
  have hopen : "(\"" = "(" ++ "\"" := by decide
  have hmid : "\", &" = "\"" ++ ", &" := by decide
  have hclose : ")," = ")" ++ "," := by decide
  have hentry : "    frozenrun_table::FrozenEntry::" = "    " ++ "frozenrun_table::FrozenEntry::" := by decide
  unfold entryLine entry unitLine referring
  rw [h, hopen, hmid, hclose, hentry]
  simp only [-String.reduceAppend, CompiledUnit.record, Record.unit, Option.isNone_some, Bool.false_eq_true, if_false,
    String.append_assoc]
  rfl

theorem entryLine_forcedFailure {name : String} (h : (Record.forcedFailure name).isSentinel = false) :
    entryLine (.forcedFailure name) = blocking name := by
  have hopen : "    frozenrun_table::FrozenEntry::forced_failure(\"" =
      "    " ++ ("frozenrun_table::FrozenEntry::" ++ ("forced_failure(" ++ "\"")) := by decide
  have hclose : "\")," = "\"" ++ (")" ++ ",") := by decide
  unfold entryLine entry blocking
  rw [h, hopen, hclose]
  simp only [-String.reduceAppend, Record.forcedFailure, Option.isNone_none, Bool.false_eq_true, if_false, if_true,
    String.append_assoc]

theorem entryLine_sentinel : entryLine .sentinel = sentinelLine := by decide

/-- Only units have arrays, and no name is empty but the last. -/
theorem linesOf_of_canonical (h : b.Canonical t us blocked) :
    linesOf t = "// Generated by frozenrun-freeze. Do not edit." :: ("// encoding: " ++ t.encoding.name) ::
      (us.flatMap unitArray ++ "" :: modulesOpening ::
        (us.map unitLine ++ blocked.map blocking ++ [sentinelLine, closing])) := by
  have hnamed : ∀ r ∈ us.map CompiledUnit.record ++ blocked.map Record.forcedFailure, r.isSentinel = false :=
    fun r hr => by simpa [Record.isSentinel] using h.named r hr
  rw [List.forall_mem_append, List.forall_mem_map, List.forall_mem_map] at hnamed
  have hunits : (us.map CompiledUnit.record).map entryLine = us.map unitLine := by
    rw [List.map_map]
    exact List.map_congr_left fun u hu => entryLine_unit (hnamed.1 u hu)
  have hblocked : (blocked.map Record.forcedFailure).map entryLine = blocked.map blocking := by
    rw [List.map_map]
    exact List.map_congr_left fun name hname => entryLine_forcedFailure (hnamed.2 name hname)
  have hnone : (blocked.map Record.forcedFailure).flatMap blobLines = [] := by
    rw [List.flatMap_map]
    exact List.flatMap_eq_nil_iff.mpr fun _ _ => rfl
  have harrays : (us.map CompiledUnit.record).flatMap blobLines = us.flatMap unitArray := List.flatMap_map ..
  have hlast : [Record.sentinel].flatMap blobLines = [] := rfl
  rw [linesOf, h.records, List.flatMap_append, List.flatMap_append, harrays, hnone, hlast, List.map_append,
    List.map_append, hunits, hblocked, List.map_singleton, entryLine_sentinel]
  simp only [List.append_nil, List.append_assoc, List.cons_append, List.nil_append]

/-! ## Line feeds -/

theorem not_mem_append {c : Char} {s t : String} (hs : c ∉ s.toList) (ht : c ∉ t.toList) : c ∉ (s ++ t).toList := by
  rw [String.toList_append, List.mem_append, not_or]
  exact ⟨hs, ht⟩

theorem not_mem_row {c : Char} (hspace : c ≠ ' ') (hcomma : c ≠ ',') (hdigit : c.isDigit = false) (bs : Bytes) :
    c ∉ (row bs).toList := by
  refine not_mem_append (by simpa using hspace) ?_
  rw [String.toList_join, List.mem_flatMap]
  rintro ⟨s, hs, hc⟩
  obtain ⟨b, -, rfl⟩ := List.mem_map.mp hs
  exact not_mem_append (Decimal.not_mem_toString hdigit b.toNat) (by simpa using hcomma) hc

theorem newline_not_mem_unitArray {u : CompiledUnit} (h : isUnitName u.name = true) :
    ∀ line ∈ unitArray u, '\n' ∉ line.toList := by
  have hid : '\n' ∉ (blobIdentifier u.name).toList := not_mem_blobIdentifier h (by decide)
  have hopening : '\n' ∉ (opening (blobIdentifier u.name) u.code.length).toList :=
    not_mem_append (not_mem_append (not_mem_append (not_mem_append (by decide) hid) (by decide))
      (Decimal.not_mem_toString (by decide) _)) (by decide)
  simp only [unitArray, arrayLines, List.forall_mem_cons, List.forall_mem_append]
  refine ⟨by decide, by decide, hopening, fun line hline => ?_, by decide⟩
  obtain ⟨bs, -, rfl⟩ := List.mem_map.mp hline
  exact not_mem_row (by decide) (by decide) (by decide) bs

theorem newline_not_mem_unitLine {u : CompiledUnit} (h : isUnitName u.name = true) : '\n' ∉ (unitLine u).toList := by
  have hname : '\n' ∉ u.name.toList := not_mem_of_isUnitName h (by decide) (by decide)
  have hid : '\n' ∉ (blobIdentifier u.name).toList := not_mem_blobIdentifier h (by decide)
  have hfront : ∀ isPackage : Bool,
      '\n' ∉ ("    frozenrun_table::FrozenEntry::" ++ if isPackage then "package" else "module").toList := by decide
  exact not_mem_append (not_mem_append (not_mem_append (not_mem_append (not_mem_append (hfront _) (by decide)) hname)
    (by decide)) hid) (by decide)

theorem newline_not_mem_blocking {name : String} (h : isUnitName name = true) : '\n' ∉ (blocking name).toList :=
  not_mem_append (not_mem_append (by decide) (not_mem_of_isUnitName h (by decide) (by decide))) (by decide)

theorem newline_not_mem_linesOf (h : b.Canonical t us blocked) (hus : ∀ u ∈ us, isUnitName u.name = true)
    (hblocked : ∀ name ∈ blocked, isUnitName name = true) : ∀ line ∈ linesOf t, '\n' ∉ line.toList := by
  have hencoding : '\n' ∉ ("// encoding: " ++ t.encoding.name).toList := by cases t.encoding <;> decide
  simp only [linesOf_of_canonical h, List.forall_mem_cons, List.forall_mem_append, List.forall_mem_map,
    List.forall_mem_flatMap]
  refine ⟨by decide, hencoding, fun u hu => newline_not_mem_unitArray (hus u hu), by decide, by decide,
    ⟨fun u hu => newline_not_mem_unitLine (hus u hu), fun name hname => newline_not_mem_blocking (hblocked name hname)⟩,
    by decide, by decide⟩

/-- A finished table has the lines that its units and its blocked names have, and its text has these lines. -/
theorem layout_of_build (h : b.build = .ok t) : ∃ us blocked, b.Canonical t us blocked ∧
    (∀ u ∈ us, isUnitName u.name = true) ∧ lines (text t) = linesOf t ++ [""] := by
  obtain ⟨hconsistent, us, blocked, hcanonical⟩ := Builder.canonical_of_build h
  have hus : ∀ u ∈ us, isUnitName u.name = true := fun u hu =>
    (isUnitName_iff u.name).mpr (hconsistent.unitNames u (hcanonical.perm.mem_iff.mp hu))
  have hblocked : ∀ name ∈ blocked, isUnitName name = true := fun name hname =>
    (isUnitName_iff name).mpr (hconsistent.blockedNames name ((hcanonical.mem name).mp hname))
  refine ⟨us, blocked, hcanonical, hus, ?_⟩
  rw [text_eq]
  exact Text.splitOn_join (newline_not_mem_linesOf hcanonical hus hblocked)

end Launcher.Table.Source
