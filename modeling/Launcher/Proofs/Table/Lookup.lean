import Launcher.Proofs.Table.Build
import Launcher.Proofs.Table.RoundTrip
import Launcher.Proofs.Text
import Launcher.Table.View

/-!
# Answers of a finished table

A finished table, and the table that is read from its bytes, answer every name by what the builder was given for it.
-/

namespace Launcher.Table

/-! ## What a builder was given -/

/-- What a name stands for, by the units and the forced failures that were added. -/
inductive Builder.Gives (b : Builder) (name : String) : Lookup → Prop where
  | unit {u : CompiledUnit} : u ∈ b.units → u.name = name → Gives b name (.found name u.code u.isPackage)
  | blocked : name ∈ b.failImport → Gives b name .forcedFailure
  | absent : (∀ u ∈ b.units, u.name ≠ name) → name ∉ b.failImport → Gives b name .notFound

theorem Builder.gives_some (b : Builder) (name : String) : ∃ answer, b.Gives name answer := by
  by_cases hunit : ∃ u ∈ b.units, u.name = name
  · obtain ⟨u, hu, hname⟩ := hunit
    exact ⟨_, .unit hu hname⟩
  · by_cases hblocked : name ∈ b.failImport
    · exact ⟨_, .blocked hblocked⟩
    · exact ⟨_, .absent (fun u hu hname => hunit ⟨u, hu, hname⟩) hblocked⟩

/-- The names are short enough for the four bytes in which the byte form has their lengths. -/
structure Builder.NamesFit (b : Builder) : Prop where
  units : ∀ u ∈ b.units, u.record.NameFits
  blocked : ∀ name ∈ b.failImport, (Record.forcedFailure name).NameFits

/-! ## The entries of a finished table -/

theorem isEmpty_of_isUnitName {name : String} (h : isUnitName name = true) : name.isEmpty = false := by
  have hempty : isUnitName "" = false := by cbv
  rw [Bool.eq_false_iff]
  intro hname
  rw [String.isEmpty_iff.mp hname, hempty] at h
  cases h

/-- The entries are the records of what was added; two with one name are the same. -/
structure Entries (b : Builder) (entries : List Record) : Prop where
  mem : ∀ r, r ∈ entries ↔
    (∃ u ∈ b.units, u.record = r) ∨ ∃ name ∈ b.failImport, Record.forcedFailure name = r
  unique : ∀ r ∈ entries, ∀ r' ∈ entries, r.name = r'.name → r = r'
  named : ∀ r ∈ entries, r.isSentinel = false
  made : ∀ r ∈ entries, r.Made
  signed : b.encoding = .signedSize → ∀ r ∈ entries, r.isPackage = true → r.code ≠ some []

theorem eq_of_name_eq {rs : List Record} (h : rs.Pairwise fun a b => a.name < b.name) {r r' : Record}
    (hr : r ∈ rs) (hr' : r' ∈ rs) (hname : r.name = r'.name) : r = r' := by
  induction h with
  | nil => cases hr
  | cons ha _ ih =>
      rcases List.mem_cons.mp hr with rfl | hmem <;> rcases List.mem_cons.mp hr' with rfl | hmem'
      · rfl
      · exact absurd hname (Std.ne_of_lt (ha r' hmem'))
      · exact absurd hname.symm (Std.ne_of_lt (ha r hmem))
      · exact ih hmem hmem'

section

variable {b : Builder} {rs : List Record} {blocked : List String}

theorem Builder.UnitRecords.mem (hrs : b.UnitRecords rs) (r : Record) :
    r ∈ rs ↔ ∃ u ∈ b.units, u.record = r := by
  rw [hrs.perm.mem_iff, List.mem_map]

theorem Builder.UnitRecords.unique (hrs : b.UnitRecords rs) {r r' : Record} (hr : r ∈ rs) (hr' : r' ∈ rs)
    (hname : r.name = r'.name) : r = r' := by
  exact eq_of_name_eq (List.pairwise_map.mp hrs.increasing) hr hr' hname

theorem Builder.BlockedNames.mem_map (hblocked : b.BlockedNames (rs.map (·.name)) blocked) (r : Record) :
    r ∈ blocked.map Record.forcedFailure ↔ ∃ name ∈ b.failImport, Record.forcedFailure name = r := by
  simp only [List.mem_map, hblocked.mem]

theorem Builder.BlockedNames.name_ne (hblocked : b.BlockedNames (rs.map (·.name)) blocked) {r r' : Record}
    (hr : r ∈ rs) (hr' : r' ∈ blocked.map Record.forcedFailure) : r.name ≠ r'.name := by
  obtain ⟨name, hname, rfl⟩ := List.mem_map.mp hr'
  intro heq
  exact hblocked.free name hname (List.mem_map.mpr ⟨r, hr, heq⟩)

theorem entries_of_parts (hrs : b.UnitRecords rs) (hblocked : b.BlockedNames (rs.map (·.name)) blocked) :
    Entries b (rs ++ blocked.map Record.forcedFailure) where
  mem r := by rw [List.mem_append, hrs.mem, hblocked.mem_map]
  unique r hr r' hr' hname := by
    rcases List.mem_append.mp hr with hr | hr <;> rcases List.mem_append.mp hr' with hr' | hr'
    · exact hrs.unique hr hr' hname
    · exact absurd hname (hblocked.name_ne hr hr')
    · exact absurd hname.symm (hblocked.name_ne hr' hr)
    · obtain ⟨name, _, rfl⟩ := List.mem_map.mp hr
      obtain ⟨name', _, rfl⟩ := List.mem_map.mp hr'
      exact congrArg Record.forcedFailure hname
  named r hr := by
    rcases List.mem_append.mp hr with hr | hr
    · obtain ⟨u, hu, rfl⟩ := (hrs.mem r).mp hr
      exact isEmpty_of_isUnitName (hrs.allowed u hu).name
    · obtain ⟨name, hname, rfl⟩ := (hblocked.mem_map r).mp hr
      exact isEmpty_of_isUnitName (hblocked.allowed name hname)
  made r hr := by
    rcases List.mem_append.mp hr with hr | hr
    · obtain ⟨u, hu, rfl⟩ := (hrs.mem r).mp hr
      exact .unit (hrs.allowed u hu).size
    · obtain ⟨name, _, rfl⟩ := List.mem_map.mp hr
      exact .forcedFailure
  signed hsigned r hr hpackage := by
    rcases List.mem_append.mp hr with hr | hr
    · exact hrs.signed hsigned r hr hpackage
    · obtain ⟨name, _, rfl⟩ := List.mem_map.mp hr
      cases hpackage

end

theorem view_entries {b : Builder} {t : BuiltTable} (h : b.build = .ok t) :
    t.encoding = b.encoding ∧ t.records = t.view.entries ++ [Record.sentinel] ∧ Entries b t.view.entries := by
  obtain ⟨rs, blocked, hrs, hblocked, hencoding, hrecords⟩ := Builder.build_of_ok h
  have hentries := entries_of_parts hrs hblocked
  have hview : t.view.entries = rs ++ blocked.map Record.forcedFailure := by
    rw [BuiltTable.view, hrecords]
    exact Format.takeWhile_of_named hentries.named
  rw [hview]
  exact ⟨hencoding, hrecords, hentries⟩

/-! ## Lookup -/

variable {b : Builder} {t : BuiltTable}

theorem Entries.find_of_mem {table : FrozenTable} (h : Entries b table.entries) {r : Record}
    (hr : r ∈ table.entries) : table.entries.find? (·.name = r.name) = some r := by
  cases hfind : table.entries.find? (·.name = r.name) with
  | none => simpa using List.find?_eq_none.mp hfind r hr
  | some r' =>
      have hname : r'.name = r.name := by simpa using List.find?_some hfind
      rw [h.unique r' (List.mem_of_find?_eq_some hfind) r hr hname]

theorem find_of_code {table : FrozenTable} {name : String} {r : Record} {code : Bytes}
    (h : table.entries.find? (·.name = name) = some r) (hcode : r.code = some code) :
    table.find name = .found r.name code r.isPackage := by
  simp only [FrozenTable.find, h, hcode]

theorem find_of_no_code {table : FrozenTable} {name : String} {r : Record}
    (h : table.entries.find? (·.name = name) = some r) (hcode : r.code = none) :
    table.find name = .forcedFailure := by
  simp only [FrozenTable.find, h, hcode]

theorem Entries.find_of_gives {table : FrozenTable} (h : Entries b table.entries) {name : String}
    {answer : Lookup} (hgives : b.Gives name answer) : table.find name = answer := by
  cases hgives with
  | @unit u hu hname =>
      subst hname
      exact find_of_code (h.find_of_mem ((h.mem u.record).mpr (.inl ⟨u, hu, rfl⟩))) rfl
  | blocked hblocked =>
      have hmem := (h.mem (.forcedFailure name)).mpr (.inr ⟨name, hblocked, rfl⟩)
      exact find_of_no_code (h.find_of_mem hmem) rfl
  | absent hunits hblocked =>
      have hnone : table.entries.find? (·.name = name) = none := by
        refine List.find?_eq_none.mpr fun r hr => ?_
        rw [decide_eq_true_eq]
        rintro rfl
        rcases (h.mem r).mp hr with ⟨u, hu, rfl⟩ | ⟨name, hname, rfl⟩
        · exact hunits u hu rfl
        · exact hblocked hname
      rw [FrozenTable.find, hnone]

theorem Entries.find_eq {table : FrozenTable} (h : Entries b table.entries) (name : String)
    (answer : Lookup) : table.find name = answer ↔ b.Gives name answer := by
  obtain ⟨answer', hgives⟩ := b.gives_some name
  rw [h.find_of_gives hgives]
  refine ⟨fun heq => heq ▸ hgives, fun hgives' => ?_⟩
  rw [← h.find_of_gives hgives, h.find_of_gives hgives']

/-- Units with code or without are found as they were added. -/
theorem find_eq_found_iff (h : b.build = .ok t) {name found : String} {code : Bytes} {isPackage : Bool} :
    t.view.find name = .found found code isPackage ↔ found = name ∧ ⟨name, code, isPackage⟩ ∈ b.units := by
  rw [(view_entries h).2.2.find_eq]
  constructor
  · rintro (⟨hu, rfl⟩ | _)
    exact ⟨rfl, hu⟩
  · rintro ⟨rfl, hu⟩
    exact .unit hu rfl

theorem nodup_of_build (h : b.build = .ok t) : (b.units.map (·.name)).Nodup := by
  obtain ⟨rs, blocked, hrs, -⟩ := Builder.build_of_ok h
  have hperm := hrs.perm.map (·.name)
  rw [List.map_map] at hperm
  exact hperm.nodup (hrs.increasing.imp fun hlt => Std.ne_of_lt hlt)

theorem any_isSentinel_of_build (h : b.build = .ok t) : t.records.any (·.isSentinel) = true := by
  rw [(view_entries h).2.1]
  exact Format.any_isSentinel_concat _

theorem fits_of_nameFits (h : b.build = .ok t) {r : Record} (hr : r ∈ t.view.entries) (hname : r.NameFits) :
    r.Fits t.encoding := by
  obtain ⟨hencoding, -, hentries⟩ := view_entries h
  exact (hentries.made r hr).fits hname fun hsigned => hentries.signed (hencoding ▸ hsigned) r hr

theorem fits_of_build (h : b.build = .ok t) (hnames : b.NamesFit) :
    ∀ r ∈ t.records.takeWhile (!·.isSentinel), r.Fits t.encoding := by
  intro r hr
  refine fits_of_nameFits h hr ?_
  rcases ((view_entries h).2.2.mem r).mp hr with ⟨u, hu, rfl⟩ | ⟨name, hname, rfl⟩
  · exact hnames.units u hu
  · exact hnames.blocked name hname

/-- The bytes of a finished table are read as the table that it is. -/
theorem parse_toBytes (h : b.build = .ok t) (hnames : b.NamesFit) : FrozenTable.parse t.toBytes = .ok t.view := by
  rw [FrozenTable.parse, BuiltTable.toBytes, Format.read_write (fits_of_build h hnames),
    if_pos (any_isSentinel_of_build h)]
  rfl

/-- A longer name is lost in the bytes. -/
theorem parse_agrees_iff (h : b.build = .ok t) :
    (∃ parsed, FrozenTable.parse t.toBytes = .ok parsed ∧ ∀ name, parsed.find name = t.view.find name) ↔
      b.NamesFit := by
  refine ⟨?_, fun hnames => ⟨t.view, parse_toBytes h hnames, fun _ => rfl⟩⟩
  rintro ⟨parsed, hparse, hagree⟩
  have hentries := (view_entries h).2.2
  have hread : ∀ r ∈ parsed.entries, r.NameFits := by
    unfold FrozenTable.parse at hparse
    rcases hr : Format.read t.toBytes with _ | ⟨encoding, rs⟩
    · rw [hr] at hparse; cases hparse
    · rw [hr] at hparse
      cases hparse
      exact fun r hr' => (Format.fits_of_read hr r hr').2.name
  have hfits : ∀ r ∈ t.view.entries, r.NameFits := by
    intro r hr
    have hview : t.view.find r.name ≠ .notFound := by
      cases hcode : r.code with
      | none => rw [find_of_no_code (hentries.find_of_mem hr) hcode]; nofun
      | some code => rw [find_of_code (hentries.find_of_mem hr) hcode]; nofun
    rw [← hagree, FrozenTable.find] at hview
    split at hview
    · exact absurd rfl hview
    · rename_i r' hfind
      have hname : r'.name = r.name := by simpa using List.find?_some hfind
      rw [Record.NameFits, ← hname]
      exact hread r' (List.mem_of_find?_eq_some hfind)
  exact ⟨fun u hu => hfits _ ((hentries.mem _).mpr (.inl ⟨u, hu, rfl⟩)),
    fun name hname => hfits _ ((hentries.mem _).mpr (.inr ⟨name, hname, rfl⟩))⟩

/-- A finished table answers every name by what the builder was given, and so does the table that is read from its
bytes, exactly when the names fit there. -/
theorem build_find (h : b.build = .ok t) :
    (∀ name answer, t.view.find name = answer ↔ b.Gives name answer) ∧
      (b.NamesFit ↔ ∃ parsed, FrozenTable.parse t.toBytes = .ok parsed ∧
        ∀ name answer, parsed.find name = answer ↔ b.Gives name answer) := by
  have hview := (view_entries h).2.2.find_eq
  refine ⟨hview, fun hnames => ⟨t.view, parse_toBytes h hnames, hview⟩, ?_⟩
  rintro ⟨parsed, hparse, hfind⟩
  refine (parse_agrees_iff h).mp ⟨parsed, hparse, fun name => ?_⟩
  exact (hfind _ _).mpr ((hview _ _).mp rfl)

/-- A package and a module, and a name that is listed twice. -/
theorem build_find_package :
    ∃ t parsed, Builder.build ⟨.signedSize, [⟨"p", [1], true⟩, ⟨"a.b", [], false⟩], ["z", "z"]⟩ = .ok t ∧
      FrozenTable.parse t.toBytes = .ok parsed ∧ t.view.find "a" = .notFound ∧
      parsed.find "p" = .found "p" [1] true ∧ parsed.find "z" = .forcedFailure ∧ parsed.find "" = .notFound := by
  have hbuild : Builder.build ⟨.signedSize, [⟨"p", [1], true⟩, ⟨"a.b", [], false⟩], ["z", "z"]⟩ =
      .ok ⟨.signedSize, [.unit "a.b" [] false, .unit "p" [1] true, .forcedFailure "z", .sentinel],
        ["_FM_a__b", "_FM_p"]⟩ := by
    cbv
  obtain ⟨hview, hparsed⟩ := build_find hbuild
  obtain ⟨parsed, hparse, hfind⟩ := hparsed.mp ⟨by decide, by decide⟩
  refine ⟨_, parsed, hbuild, hparse, ?_, ?_, ?_, ?_⟩
  · exact (hview _ _).mpr (.absent (by decide) (by decide))
  · exact (hfind _ _).mpr (.unit (u := ⟨"p", [1], true⟩) (by decide) rfl)
  · exact (hfind _ _).mpr (.blocked (by decide))
  · exact (hfind _ _).mpr (.absent (by decide) (by decide))

end Launcher.Table
