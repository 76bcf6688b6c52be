import Launcher.Proofs.Files.Parts
import Launcher.Proofs.Text
import Launcher.Search.Site

/-!
# The lines of path files

A line of a text ends at a newline, or at a carriage return and a newline, or it is the last one and ends with the
text. These rules leave one list of lines for every text. What a path file names follows from its lines: a line that is
no comment, not blank and no import line names the path that its text means in the directory, if that path exists.
-/

namespace Launcher

namespace Site

variable {fs : FileSystem} {directory p : Path} {line rest text : String} {whole pieces found : List String}

/-! ## Lines -/

/-- The lines of a text. What ends a line is no part of it, and a carriage return ends one only before a newline. -/
inductive InLines : String → List String → Prop
  | nil : InLines "" []
  | last {line : String} (hsome : line ≠ "") (hline : '\n' ∉ line.toList) : InLines line [line]
  | newline {line rest : String} {lines : List String} (hline : '\n' ∉ line.toList)
      (hreturn : line.endsWith "\r" = false) (hrest : InLines rest lines) :
      InLines (line ++ "\n" ++ rest) (line :: lines)
  | returned {line rest : String} {lines : List String} (hline : '\n' ∉ line.toList) (hrest : InLines rest lines) :
      InLines (line ++ "\r\n" ++ rest) (line :: lines)

/-! ## Pieces between newlines -/

/-- A line without a carriage return at its end. -/
def dropReturn (line : String) : String := if line.endsWith "\r" then (line.dropEnd 1).toString else line

theorem splitOn_newline_ne_nil (text : String) : text.splitOn "\n" ≠ [] := Text.splitOn_ne_nil text '\n'

theorem intercalate_splitOn_newline (text : String) : "\n".intercalate (text.splitOn "\n") = text :=
  Text.intercalate_splitOn text '\n'

theorem not_mem_of_mem_splitOn {piece : String} (h : piece ∈ text.splitOn "\n") : '\n' ∉ piece.toList := by
  rw [show text.splitOn "\n" = _ from Text.splitOn_singleton text '\n'] at h
  obtain ⟨cs, hcs, rfl⟩ := List.mem_map.mp h
  simpa using Text.not_mem_of_mem_splitOn hcs

/-- The lines that the pieces of a text between newlines give. What stands behind the last newline is one if it is
there. -/
def ofPieces : List String → List String
  | [] => []
  | [final] => if final = "" then [] else [final]
  | line :: piece :: pieces => dropReturn line :: ofPieces (piece :: pieces)

theorem dropReturn_of_not_endsWith (h : line.endsWith "\r" = false) : dropReturn line = line := by
  rw [dropReturn, h, if_neg Bool.false_ne_true]

theorem dropReturn_append (line : String) : dropReturn (line ++ "\r") = line := by
  rw [dropReturn, if_pos (Text.endsWith_append line "\r"), ← String.toList_inj]
  simp

theorem ofPieces_cons (line : String) (h : pieces ≠ []) :
    ofPieces (line :: pieces) = dropReturn line :: ofPieces pieces := by
  obtain ⟨piece, pieces, rfl⟩ := List.exists_cons_of_ne_nil h
  rfl

theorem ofPieces_concat (whole : List String) (final : String) :
    ofPieces (whole ++ [final]) = whole.map dropReturn ++ if final = "" then [] else [final] := by
  induction whole with
  | nil => rfl
  | cons line whole ih =>
      rw [List.cons_append, ofPieces_cons line (List.concat_ne_nil final whole), ih, List.map_cons, List.cons_append]

theorem map_zipIdx_dropReturn {P : Nat → Prop} [DecidablePred P] (h : ∀ i < whole.length, P i) :
    (whole.zipIdx.map fun (line, i) => if line.endsWith "\r" ∧ P i then (line.dropEnd 1).toString else line) =
      whole.map dropReturn := by
  have hfst : whole.map dropReturn = whole.zipIdx.map (dropReturn ∘ Prod.fst) := by
    rw [← List.map_map, List.zipIdx_map_fst]
  rw [hfst]
  refine List.map_congr_left fun (line, i) hmem => ?_
  have hi : P i := h i (by simpa using (List.mem_zipIdx hmem).2.1)
  rw [Function.comp_apply, dropReturn]
  simp [hi]

/-- A text ends with a newline just if there is a newline and nothing stands behind the last one. -/
theorem endsWith_newline_iff {final : String} (hfinal : '\n' ∉ final.toList)
    (h : text.splitOn "\n" = whole ++ [final]) : text.endsWith "\n" = true ↔ final = "" ∧ whole ≠ [] := by
  have htext : "\n".intercalate (whole ++ [final]) = text := by
    rw [← h, intercalate_splitOn_newline]
  have hnot : ¬final.endsWith "\n" = true := fun h =>
    hfinal ((Text.endsWith_iff.mp h).subset (List.mem_singleton_self '\n'))
  by_cases hwhole : whole = []
  · subst hwhole
    rw [List.nil_append, String.intercalate_singleton] at htext
    rw [← htext]
    exact iff_of_false hnot fun h => h.2 rfl
  · rw [String.intercalate_append_of_ne_nil hwhole (List.cons_ne_nil final []), String.intercalate_singleton] at htext
    by_cases hempty : final = ""
    · subst hempty
      rw [← htext, String.append_empty]
      exact iff_of_true (Text.endsWith_append ..) ⟨rfl, hwhole⟩
    · rw [← htext, Text.endsWith_iff, String.toList_append]
      refine iff_of_false (fun hsuffix => hnot ?_) fun h => hempty h.1
      refine Text.endsWith_iff.mpr (List.suffix_of_suffix_length_le hsuffix (List.suffix_append ..) ?_)
      exact Nat.succ_le_of_lt (List.length_pos_of_ne_nil (mt String.toList_eq_nil_iff.mp hempty))

theorem lines_eq (text : String) : lines text = ofPieces (text.splitOn "\n") := by
  obtain ⟨whole, final, hpieces⟩ : ∃ whole final, text.splitOn "\n" = whole ++ [final] :=
    ⟨_, _, (List.dropLast_append_getLast (splitOn_newline_ne_nil text)).symm⟩
  have hfinal : '\n' ∉ final.toList := not_mem_of_mem_splitOn (hpieces ▸ List.mem_append_right whole List.mem_cons_self)
  have hends := endsWith_newline_iff hfinal hpieces
  rw [hpieces, ofPieces_concat, lines, hpieces]
  by_cases hempty : final = ""
  · subst hempty
    have hall : ∀ i < whole.length, i < whole.length - 1 ∨ text.endsWith "\n" = true := fun i hi =>
      .inr (hends.mpr ⟨rfl, List.ne_nil_of_length_pos (Nat.zero_lt_of_lt hi)⟩)
    simpa using map_zipIdx_dropReturn hall
  · have hnot : ¬text.endsWith "\n" = true := fun h => hempty (hends.mp h).1
    have hall : ∀ i < whole.length, i < whole.length ∨ text.endsWith "\n" = true := fun i hi => .inl hi
    simpa [hempty, hnot, List.zipIdx_append] using map_zipIdx_dropReturn hall

/-! ## Every text has lines of its own -/

theorem lines_of_not_mem (h : '\n' ∉ text.toList) : lines text = if text = "" then [] else [text] := by
  rw [lines_eq, show text.splitOn "\n" = [text] from Text.splitOn_of_not_mem h]
  rfl

theorem lines_append (h : '\n' ∉ line.toList) (rest : String) :
    lines (line ++ "\n" ++ rest) = dropReturn line :: lines rest := by
  have hsplit : (line ++ "\n" ++ rest).splitOn "\n" = line :: rest.splitOn "\n" := by
    refine (Text.splitOn_append line rest '\n').trans ?_
    rw [Text.splitOn_of_not_mem h]
    rfl
  rw [lines_eq, lines_eq, hsplit, ofPieces_cons line (splitOn_newline_ne_nil rest)]

theorem lines_of_inLines (h : InLines text found) : lines text = found := by
  induction h with
  | nil => rw [lines_of_not_mem (by simp), if_pos rfl]
  | last hsome hline => rw [lines_of_not_mem hline, if_neg hsome]
  | newline hline hreturn _ ih => rw [lines_append hline, dropReturn_of_not_endsWith hreturn, ih]
  | @returned line rest _ hline _ ih =>
      have hsplit : line ++ "\r\n" ++ rest = line ++ "\r" ++ "\n" ++ rest := by
        rw [← String.toList_inj]
        simp
      rw [hsplit, lines_append (by simpa using hline), dropReturn_append, ih]

theorem inLines_ofPieces (hne : pieces ≠ []) (h : ∀ piece ∈ pieces, '\n' ∉ piece.toList) :
    InLines ("\n".intercalate pieces) (ofPieces pieces) := by
  induction pieces with
  | nil => exact absurd rfl hne
  | cons line pieces ih =>
      obtain ⟨hline, hpieces⟩ := List.forall_mem_cons.mp h
      by_cases hmore : pieces = []
      · subst hmore
        rw [String.intercalate_singleton, ofPieces]
        split
        · rename_i hempty
          exact hempty ▸ .nil
        · exact .last ‹_› hline
      · rw [String.intercalate_cons_of_ne_nil hmore, ofPieces_cons line hmore]
        cases hreturn : line.endsWith "\r" with
        | false =>
            rw [dropReturn_of_not_endsWith hreturn]
            exact .newline hline hreturn (ih hmore hpieces)
        | true =>
            obtain ⟨front, rfl⟩ := Text.eq_append_of_endsWith hreturn
            rw [dropReturn_append, show front ++ "\r" ++ "\n" = front ++ "\r\n" from String.append_assoc]
            exact .returned (fun h => hline (by simp [h])) (ih hmore hpieces)

/-- The lines of a text are those that the rules leave for it. -/
theorem inLines_iff : InLines text found ↔ lines text = found := by
  refine ⟨lines_of_inLines, ?_⟩
  rintro rfl
  have hpieces : InLines ("\n".intercalate (text.splitOn "\n")) (ofPieces (text.splitOn "\n")) :=
    inLines_ofPieces (splitOn_newline_ne_nil text) fun piece => not_mem_of_mem_splitOn
  rwa [intercalate_splitOn_newline, ← lines_eq] at hpieces

/-! ## What a line means -/

/-- The line is one that gives code, which is kept and not run. -/
def isImport (line : String) : Bool := line.startsWith "import " || line.startsWith "import\t"

/-- The path that the text of a line means. -/
def linePath (directory : Path) (line : String) : Path := Path.normalize directory none (trimEnd line)

/-- An import line starts with a letter. -/
theorem toList_of_isImport (h : isImport line = true) : ∃ cs, line.toList = 'i' :: cs := by
  rcases (Bool.or_eq_true ..).mp h with h | h
  · obtain ⟨cs, hcs⟩ := String.startsWith_string_iff.mp h
    exact ⟨_, hcs.symm⟩
  · obtain ⟨cs, hcs⟩ := String.startsWith_string_iff.mp h
    exact ⟨_, hcs.symm⟩

theorem marker_of_isImport (h : isImport line = true) : marker line = .directive (trimEnd line) := by
  obtain ⟨cs, hcs⟩ := toList_of_isImport h
  have hcomment : line.startsWith "#" = false := by
    rw [Bool.eq_false_iff, Ne, String.startsWith_string_iff, hcs]
    rintro ⟨rest, hrest⟩
    exact absurd (List.cons.inj hrest).1 (by decide)
  have hblank : (trim line).isEmpty = false := by
    rw [trim, hcs, trimChars_cons (by decide)]
    simp
  rw [marker, hcomment, hblank, if_neg (by simp), if_pos ((Bool.or_eq_true ..).mp h)]

/-- A line is a comment or blank, or it is an import line, or it has the text of a path. -/
theorem marker_cases (line : String) :
    (marker line = .nothing ∧ (!line.startsWith "#" && !(trim line).isEmpty) = false ∧ isImport line = false) ∨
      (marker line = .directive (trimEnd line) ∧ isImport line = true) ∨
      (marker line = .directory (trimEnd line) ∧ (!line.startsWith "#" && !(trim line).isEmpty) = true ∧
        isImport line = false) := by
  cases himport : isImport line with
  | true => exact .inr (.inl ⟨marker_of_isImport himport, rfl⟩)
  | false =>
      have hno : ¬(line.startsWith "import " ∨ line.startsWith "import\t") := fun h =>
        Bool.eq_false_iff.mp himport ((Bool.or_eq_true ..).mpr h)
      by_cases h : line.startsWith "#" ∨ (trim line).isEmpty
      · exact .inl ⟨if_pos h, by grind, rfl⟩
      · exact .inr (.inr ⟨by rw [marker, if_neg h, if_neg hno], by grind, rfl⟩)

/-- The path that a line of a path file names, if it exists. -/
def lineEntry (fs : FileSystem) (directory : Path) (line : String) : List Path :=
  match marker line with
  | .directory text => [Path.normalize directory none text].filter fs.pathExists
  | _ => []

theorem mem_lineEntry : p ∈ lineEntry fs directory line ↔
    (line.startsWith "#" = false ∧ (trim line).isEmpty = false ∧ isImport line = false) ∧
      fs.pathExists p = true ∧ linePath directory line = p := by
  rw [lineEntry]
  obtain ⟨hmarker, htext, himport⟩ | ⟨hmarker, himport⟩ | ⟨hmarker, htext, himport⟩ := marker_cases line
  · rw [hmarker]
    refine iff_of_false List.not_mem_nil fun h => ?_
    rw [h.1.1, h.1.2.1] at htext
    exact absurd htext (by simp)
  · rw [hmarker, himport]
    exact iff_of_false List.not_mem_nil fun h => absurd h.1.2.2 (by simp)
  · rw [hmarker]
    simp only [Bool.and_eq_true, Bool.not_eq_true'] at htext
    simp only [List.mem_filter, List.mem_singleton, linePath]
    exact ⟨fun h => ⟨⟨htext.1, htext.2, himport⟩, h.2, h.1.symm⟩, fun h => ⟨h.2.2.symm, h.2.1⟩⟩

/-! ## What path files name -/

/-- The name is one of a path file that is not hidden. -/
def isPathFile (name : String) : Bool := name.endsWith ".pth" && !name.startsWith "."

/-- The text of a file in a directory, if it can be read as one. -/
def text? (fs : FileSystem) (directory : Path) (name : String) : Option String :=
  match fs.read (directory.join name) with
  | .ok content => Utf8.decode? content
  | .error _ => none

theorem text?_eq_some {name : String} : text? fs directory name = some text ↔
    ∃ content, fs.read (directory.join name) = .ok content ∧ Utf8.decode? content = some text := by
  rw [text?]
  cases fs.read (directory.join name) with
  | error _ => simp
  | ok content => simp

/-- A path exists and is named by a line of a path file in the directory. -/
inductive Named (fs : FileSystem) (directory : Path) : Path → Prop
  | intro {entries : List (String × FileNode)} {entry : String × FileNode} {content : Bytes} {text line : String}
      {lines : List String} (hentries : fs.entries directory = .ok entries) (hentry : entry ∈ entries)
      (hname : isPathFile entry.1 = true) (hread : fs.read (directory.join entry.1) = .ok content)
      (htext : Utf8.decode? content = some text) (hlines : InLines text lines) (hline : line ∈ lines)
      (hcomment : line.startsWith "#" = false) (hblank : (trim line).isEmpty = false)
      (himport : isImport line = false) (hexists : fs.pathExists (linePath directory line) = true) :
      Named fs directory (linePath directory line)

/-- The existing paths that the path files of a directory name. -/
def named (fs : FileSystem) (directory : Path) : List Path :=
  ((markerFiles fs directory).flatMap lines).flatMap (lineEntry fs directory)

theorem mem_markerFiles : text ∈ markerFiles fs directory ↔
    ∃ entries, fs.entries directory = .ok entries ∧ ∃ entry ∈ entries, isPathFile entry.1 = true ∧
      ∃ content, fs.read (directory.join entry.1) = .ok content ∧ Utf8.decode? content = some text := by
  rw [markerFiles]
  cases fs.entries directory with
  | error _ => simp
  | ok entries =>
      change text ∈ List.filterMap (text? fs directory) _ ↔ _
      simp only [List.mem_filterMap, List.mem_mergeSort, List.mem_filter, List.mem_map, text?_eq_some]
      constructor
      · rintro ⟨_, ⟨⟨entry, hentry, rfl⟩, hname⟩, htext⟩
        exact ⟨entries, rfl, entry, hentry, hname, htext⟩
      · rintro ⟨_, heq, entry, hentry, hname, htext⟩
        obtain rfl := Except.ok.inj heq
        exact ⟨_, ⟨⟨entry, hentry, rfl⟩, hname⟩, htext⟩

theorem mem_named : p ∈ named fs directory ↔ Named fs directory p := by
  simp only [named, List.mem_flatMap, mem_markerFiles, mem_lineEntry]
  constructor
  · rintro ⟨line, ⟨text, ⟨entries, hentries, entry, hentry, hname, content, hread, htext⟩, hline⟩,
      ⟨hcomment, hblank, himport⟩, hexists, rfl⟩
    exact .intro hentries hentry hname hread htext (inLines_iff.mpr rfl) hline hcomment hblank himport hexists
  · rintro ⟨hentries, hentry, hname, hread, htext, hlines, hline, hcomment, hblank, himport, hexists⟩
    exact ⟨_, ⟨_, ⟨_, hentries, _, hentry, hname, _, hread, htext⟩, inLines_iff.mp hlines ▸ hline⟩,
      ⟨hcomment, hblank, himport⟩, hexists, rfl⟩

/-! ### A directory with a path file -/

/-- The text of a path file with a line of each kind. -/
def pathFileText : String := "x\r\n# y\nimport z\n"

/-- The directory `/s` with a path file of that content, and the directory `/s/x`. -/
def withPathFile (content : Bytes) : FileSystem where
  root := .dir [("s", .dir [("p.pth", .file content), ("x", .dir [])])]

theorem inLines_pathFileText : InLines pathFileText ["x", "# y", "import z"] := by
  have himport : InLines ("import z" ++ "\n" ++ "") ["import z"] := .newline (by decide) (by cbv) .nil
  have hcomment : InLines ("# y" ++ "\n" ++ ("import z" ++ "\n" ++ "")) ["# y", "import z"] :=
    .newline (by decide) (by cbv) himport
  exact .returned (by decide : '\n' ∉ "x".toList) hcomment

theorem entries_withPathFile (content : Bytes) :
    (withPathFile content).entries ⟨"/s"⟩ = .ok [("p.pth", .file content), ("x", .dir [])] := by cbv

theorem read_withPathFile (content : Bytes) :
    (withPathFile content).read (Path.join ⟨"/s"⟩ "p.pth") = .ok content := by
  have hjoin : Path.join ⟨"/s"⟩ "p.pth" = ⟨"/s/p.pth"⟩ := by cbv
  have hlook : (withPathFile content).look ⟨"/s/p.pth"⟩ = .ok (.file content) := by
    simp only [FileSystem.look, FileSystem.locate, Path.pieces_eq]
    cbv
  rw [hjoin, FileSystem.read, hlook]
  rfl

theorem linePath_pathFileText : linePath ⟨"/s"⟩ "x" = ⟨"/s/x"⟩ := by cbv

theorem pathExists_withPathFile (content : Bytes) : (withPathFile content).pathExists (linePath ⟨"/s"⟩ "x") = true := by
  rw [linePath_pathFileText]
  simp only [FileSystem.pathExists, FileSystem.look, FileSystem.locate, Path.pieces_eq]
  cbv

theorem named_withPathFile : Named (withPathFile (Bytes.ofString pathFileText)) ⟨"/s"⟩ ⟨"/s/x"⟩ := by
  rw [← linePath_pathFileText]
  exact .intro (entries_withPathFile _) List.mem_cons_self (by cbv) (read_withPathFile _)
    (Utf8.decode?_ofString pathFileText) inLines_pathFileText List.mem_cons_self (by cbv) (by cbv) (by cbv)
    (pathExists_withPathFile _)

end Site

end Launcher
