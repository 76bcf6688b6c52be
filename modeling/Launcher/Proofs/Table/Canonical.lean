import Launcher.Proofs.Table.Lookup
import Launcher.Proofs.Table.Names
import Launcher.Proofs.Table.Order
import Mathlib.Data.List.Nodup

/-!
# What a table can be built of

A table is built of what was added if that is consistent, and not otherwise. It is then the only one that has the units
in the order of the bytes of their names, behind them the names whose import must fail in the same order, each once,
and the sentinel.
-/

namespace Launcher.Table

namespace Builder

variable {b : Builder} {t : BuiltTable} {names : List String}

/-! ## Checks of sorted names -/

theorem increasing_of_nodup (hsorted : names.Pairwise (· ≤ ·)) (hnodup : names.Nodup) : names.Pairwise (· < ·) :=
  (hsorted.and hnodup).imp fun ⟨hle, hne⟩ => Std.lt_of_le_of_ne hle hne

theorem firstRepeated?_of_increasing (h : names.Pairwise (· < ·)) : firstRepeated? names = none := by
  fun_induction firstRepeated? names with
  | case1 a rest => exact absurd ((List.pairwise_cons.mp h).1 a List.mem_cons_self) (String.lt_irrefl a)
  | case2 a b rest hne ih => exact ih h.of_cons
  | case3 => rfl

theorem collision?_eq_none {seen : List String} :
    collision? seen names = none ↔
      (names.map blobIdentifier).Nodup ∧ ∀ name ∈ names, ∀ s ∈ seen, blobIdentifier s ≠ blobIdentifier name := by
  induction names generalizing seen with
  | nil => simp [collision?]
  | cons name names ih =>
      rw [collision?]
      cases hfind : seen.find? fun s => blobIdentifier s = blobIdentifier name with
      | some first =>
          have hsame : blobIdentifier first = blobIdentifier name := by simpa using List.find?_some hfind
          have hseen := List.mem_of_find?_eq_some hfind
          constructor
          · intro h
            cases h
          · rintro ⟨-, hne⟩
            exact absurd hsame (hne name List.mem_cons_self first hseen)
      | none =>
          have hseen : ∀ s ∈ seen, blobIdentifier s ≠ blobIdentifier name := by
            simpa using List.find?_eq_none.mp hfind
          simp only [ih, List.map_cons, List.nodup_cons, List.mem_map, List.forall_mem_cons, forall_and]
          constructor
          · rintro ⟨hnodup, hname, hrest⟩
            refine ⟨⟨?_, hnodup⟩, hseen, hrest⟩
            rintro ⟨n, hn, hsame⟩
            exact hname n hn hsame.symm
          · rintro ⟨⟨hname, hnodup⟩, -, hrest⟩
            exact ⟨hnodup, fun n hn hsame => hname ⟨n, hn, hsame.symm⟩, hrest⟩

/-! ## Parts of a table -/

theorem UnitRecords.eq_sortedRecords {rs : List Record} (h : b.UnitRecords rs) : rs = b.sortedRecords := by
  have hperm : rs.Perm b.sortedRecords := h.perm.trans (List.mergeSort_perm ..).symm
  have hnodup : (b.sortedRecords.map (·.name)).Nodup :=
    (hperm.map _).nodup (h.increasing.imp Std.ne_of_lt)
  have hsorted : b.sortedRecords.Pairwise fun r r' => r.name < r'.name :=
    List.pairwise_map.mp (increasing_of_nodup (List.pairwise_map.mpr (sorted_pairwise _)) hnodup)
  have hincreasing : rs.Pairwise fun r r' => r.name < r'.name := List.pairwise_map.mp h.increasing
  exact hperm.eq_of_pairwise (fun _ _ _ _ hab hba => absurd hba (String.lt_asymm hab)) hincreasing hsorted

theorem unitRecords_eq_ok {rs : List Record} : b.unitRecords = .ok rs ↔ b.UnitRecords rs := by
  refine ⟨unitRecords_of_ok, fun h => ?_⟩
  obtain rfl := h.eq_sortedRecords
  have hnone : (b.sortedRecords.find? fun r => b.encoding = .signedSize ∧ r.isPackage ∧ r.code = some []) = none := by
    refine List.find?_eq_none.mpr fun r hr hbad => ?_
    obtain ⟨hsigned, hpackage, hcode⟩ := of_decide_eq_true hbad
    exact h.signed hsigned r hr hpackage hcode
  rw [unitRecords_of_allowed h.allowed, firstRepeated?_of_increasing h.increasing]
  dsimp only
  rw [hnone]

theorem blockedNames_eq_ok {units : List String} :
    b.blockedNames units = .ok names ↔ b.BlockedNames units names ∧ names.Pairwise (· < ·) := by
  constructor
  · intro h
    refine ⟨blockedNames_of_ok h, ?_⟩
    unfold blockedNames at h
    split at h
    · cases h
    · dsimp only at h
      split at h
      · cases h
      · cases h
        exact withoutRepeats_increasing (sorted_names_pairwise _)
  · rintro ⟨h, hincreasing⟩
    have hnames : withoutRepeats (sorted b.failImport) = names :=
      eq_of_increasing (withoutRepeats_increasing (sorted_names_pairwise _)) hincreasing fun name => by
        rw [mem_withoutRepeats, sorted, List.mem_mergeSort, h.mem]
    have hvalid : b.failImport.find? (!isUnitName ·) = none :=
      List.find?_eq_none.mpr fun name hname => by simp [h.allowed name hname]
    have hfree : names.find? units.contains = none :=
      List.find?_eq_none.mpr fun name hname => by simpa using h.free name hname
    simp only [blockedNames, hvalid, hnames, hfree]

/-- A table of these parts. -/
def tableOf (b : Builder) (rs : List Record) (blocked : List String) : BuiltTable :=
  ⟨b.encoding, rs ++ blocked.map Record.forcedFailure ++ [Record.sentinel], (rs.map (·.name)).map blobIdentifier⟩

theorem build_eq_ok : b.build = .ok t ↔
    ∃ rs blocked, b.UnitRecords rs ∧ (b.BlockedNames (rs.map (·.name)) blocked ∧ blocked.Pairwise (· < ·)) ∧
      ((rs.map (·.name)).map blobIdentifier).Nodup ∧ b.tableOf rs blocked = t := by
  simp only [build, except_bind_eq_ok, unitRecords_eq_ok, blockedNames_eq_ok]
  refine exists_congr fun rs => ?_
  rw [← exists_and_left]
  refine exists_congr fun blocked => and_congr_right fun _ => and_congr_right fun _ => ?_
  cases hcollision : collision? [] (rs.map (·.name)) with
  | some pair =>
      constructor
      · intro h
        cases h
      · rintro ⟨hnodup, -⟩
        rw [collision?_eq_none.mpr ⟨hnodup, by simp⟩] at hcollision
        cases hcollision
  | none =>
      have hnodup := (collision?_eq_none.mp hcollision).1
      exact ⟨fun h => ⟨hnodup, Except.ok.inj h⟩, fun h => congrArg Except.ok h.2⟩

/-! ## Consistent input -/

/-- What was added does not contradict itself, and fits a table. -/
structure Consistent (b : Builder) : Prop where
  unitNames : ∀ u ∈ b.units, DottedName u.name
  blockedNames : ∀ name ∈ b.failImport, DottedName name
  sizes : ∀ u ∈ b.units, u.code.length ≤ 2 ^ 31 - 1
  distinct : (b.units.map (·.name)).Nodup
  free : ∀ u ∈ b.units, u.name ∉ b.failImport
  identifiers : ∀ u ∈ b.units, ∀ v ∈ b.units, blobIdentifier u.name = blobIdentifier v.name → u.name = v.name
  signed : b.encoding = .signedSize → ∀ u ∈ b.units, u.isPackage = true → u.code ≠ []

/-- Names in the order of their bytes, each once. -/
def Increasing (names : List String) : Prop := (names.map Bytes.ofString).Pairwise (· < ·)

theorem increasing_iff : Increasing names ↔ names.Pairwise (· < ·) := by
  simp only [Increasing, List.pairwise_map, ofString_lt_iff]

/-- The table has the records of all units and of all blocked names that were added, in order, and no name is missing
in front of the sentinel. -/
structure Canonical (b : Builder) (t : BuiltTable) (units : List CompiledUnit) (blocked : List String) : Prop where
  encoding : t.encoding = b.encoding
  perm : units.Perm b.units
  increasing : Increasing (units.map (·.name))
  mem : ∀ name, name ∈ blocked ↔ name ∈ b.failImport
  blockedIncreasing : Increasing blocked
  records : t.records = units.map CompiledUnit.record ++ blocked.map Record.forcedFailure ++ [Record.sentinel]
  named : ∀ r ∈ units.map CompiledUnit.record ++ blocked.map Record.forcedFailure, r.name ≠ ""
  identifiers : t.identifiers = units.map fun u => blobIdentifier u.name

/-! ### Sorting what was added -/

def sortedUnits (b : Builder) : List CompiledUnit := b.units.mergeSort fun u v => decide (u.name ≤ v.name)

theorem map_record_sortedUnits (b : Builder) : b.sortedUnits.map CompiledUnit.record = b.sortedRecords :=
  List.map_mergeSort fun _ _ _ _ => rfl

theorem map_name_record (us : List CompiledUnit) : (us.map CompiledUnit.record).map (·.name) = us.map (·.name) :=
  List.map_map

theorem consistent_of_parts {us : List CompiledUnit} {blocked : List String} (hperm : us.Perm b.units)
    (hunits : b.UnitRecords (us.map CompiledUnit.record)) (hblocked : b.BlockedNames (us.map (·.name)) blocked)
    (hids : ((us.map (·.name)).map blobIdentifier).Nodup) : b.Consistent := by
  have hincreasing := hunits.increasing
  rw [map_name_record] at hincreasing
  refine ⟨fun u hu => ?_, fun name hname => ?_, fun u hu => (hunits.allowed u hu).size, ?_, fun u hu hname => ?_,
    fun u hu v hv hsame => ?_, fun hsigned u hu hpackage hcode => ?_⟩
  · exact (isUnitName_iff u.name).mp (hunits.allowed u hu).name
  · exact (isUnitName_iff name).mp (hblocked.allowed name hname)
  · exact ((hperm.map _).nodup_iff).mp (hincreasing.imp Std.ne_of_lt)
  · exact hblocked.free u.name ((hblocked.mem u.name).mpr hname) (List.mem_map_of_mem (hperm.mem_iff.mpr hu))
  · exact List.inj_on_of_nodup_map hids (List.mem_map_of_mem (hperm.mem_iff.mpr hu))
      (List.mem_map_of_mem (hperm.mem_iff.mpr hv)) hsame
  · exact hunits.signed hsigned u.record (List.mem_map_of_mem (hperm.mem_iff.mpr hu)) hpackage (congrArg some hcode)

theorem unitRecords_of_consistent {us : List CompiledUnit} (h : b.Consistent) (hperm : us.Perm b.units)
    (hincreasing : Increasing (us.map (·.name))) : b.UnitRecords (us.map CompiledUnit.record) := by
  refine ⟨fun u hu => ⟨(isUnitName_iff u.name).mpr (h.unitNames u hu), h.sizes u hu⟩, hperm.map _, ?_, ?_⟩
  · rw [map_name_record]
    exact increasing_iff.mp hincreasing
  · intro hsigned r hr hpackage hcode
    obtain ⟨u, hu, rfl⟩ := List.mem_map.mp hr
    exact h.signed hsigned u (hperm.mem_iff.mp hu) hpackage (Option.some.inj hcode)

theorem blockedNames_of_consistent {us : List CompiledUnit} {blocked : List String} (h : b.Consistent)
    (hperm : us.Perm b.units) (hmem : ∀ name, name ∈ blocked ↔ name ∈ b.failImport) :
    b.BlockedNames (us.map (·.name)) blocked := by
  refine ⟨fun name hname => (isUnitName_iff name).mpr (h.blockedNames name hname), hmem, fun name hname hunit => ?_⟩
  obtain ⟨u, hu, rfl⟩ := List.mem_map.mp hunit
  exact h.free u (hperm.mem_iff.mp hu) ((hmem u.name).mp hname)

theorem nodup_identifiers {us : List CompiledUnit} (h : b.Consistent) (hperm : us.Perm b.units) :
    ((us.map (·.name)).map blobIdentifier).Nodup := by
  have hnames : (us.map (·.name)).Nodup := ((hperm.map _).nodup_iff).mpr h.distinct
  refine hnames.map_on fun n hn m hm hsame => ?_
  obtain ⟨u, hu, rfl⟩ := List.mem_map.mp hn
  obtain ⟨v, hv, rfl⟩ := List.mem_map.mp hm
  exact h.identifiers u (hperm.mem_iff.mp hu) v (hperm.mem_iff.mp hv) hsame

theorem build_of_parts {us : List CompiledUnit} {blocked : List String} (h : b.Consistent) (hperm : us.Perm b.units)
    (hincreasing : Increasing (us.map (·.name))) (hmem : ∀ name, name ∈ blocked ↔ name ∈ b.failImport)
    (hblocked : Increasing blocked) : b.build = .ok (b.tableOf (us.map CompiledUnit.record) blocked) := by
  refine build_eq_ok.mpr ⟨us.map CompiledUnit.record, blocked, unitRecords_of_consistent h hperm hincreasing, ?_⟩
  rw [map_name_record]
  exact ⟨⟨blockedNames_of_consistent h hperm hmem, increasing_iff.mp hblocked⟩, nodup_identifiers h hperm, rfl⟩

theorem canonical_of_build (h : b.build = .ok t) :
    b.Consistent ∧ ∃ units blocked, b.Canonical t units blocked := by
  obtain ⟨rs, blocked, hunits, ⟨hblocked, hincreasing⟩, hids, rfl⟩ := build_eq_ok.mp h
  obtain rfl : rs = b.sortedUnits.map CompiledUnit.record := by
    rw [map_record_sortedUnits, hunits.eq_sortedRecords]
  have hperm : b.sortedUnits.Perm b.units := List.mergeSort_perm ..
  have hentries := entries_of_parts hunits hblocked
  have hsorted := hunits.increasing
  rw [map_name_record] at hblocked hids hsorted
  refine ⟨consistent_of_parts hperm hunits hblocked hids, b.sortedUnits, blocked, ?_⟩
  refine ⟨rfl, hperm, increasing_iff.mpr hsorted, hblocked.mem, increasing_iff.mpr hincreasing, rfl,
    fun r hr hname => ?_, ?_⟩
  · have hnamed := hentries.named r hr
    rw [Record.isSentinel, hname] at hnamed
    cases hnamed
  · rw [tableOf, map_name_record, List.map_map]
    rfl

theorem build_of_consistent (h : b.Consistent) : ∃ t, b.build = .ok t := by
  have hsorted : (b.sortedUnits.map (·.name)).Pairwise (· ≤ ·) := by
    rw [← map_name_record, map_record_sortedUnits]
    exact List.pairwise_map.mpr (sorted_pairwise _)
  have hperm : b.sortedUnits.Perm b.units := List.mergeSort_perm ..
  have hnodup : (b.sortedUnits.map (·.name)).Nodup := ((hperm.map _).nodup_iff).mpr h.distinct
  have hmem : ∀ name, name ∈ withoutRepeats (sorted b.failImport) ↔ name ∈ b.failImport := fun name => by
    rw [mem_withoutRepeats, sorted, List.mem_mergeSort]
  exact ⟨_, build_of_parts h hperm (increasing_iff.mpr (increasing_of_nodup hsorted hnodup)) hmem
    (increasing_iff.mpr (withoutRepeats_increasing (sorted_names_pairwise _)))⟩

/-- A table is built of what is consistent and of nothing else, and then it is the one that lists this in order. -/
theorem build_canonical (b : Builder) :
    ((∃ t, b.build = .ok t) ↔ b.Consistent) ∧
      ∀ t, b.build = .ok t ↔ b.Consistent ∧ ∃ units blocked, b.Canonical t units blocked := by
  refine ⟨⟨fun ⟨_, h⟩ => (canonical_of_build h).1, build_of_consistent⟩, fun t => ⟨canonical_of_build, ?_⟩⟩
  rintro ⟨h, us, blocked, hcanonical⟩
  have hbuild := build_of_parts h hcanonical.perm hcanonical.increasing hcanonical.mem hcanonical.blockedIncreasing
  rw [tableOf, map_name_record, List.map_map, ← hcanonical.encoding, ← hcanonical.records] at hbuild
  rw [hbuild]
  obtain ⟨_, _, ids⟩ := t
  obtain rfl : ids = us.map fun u => blobIdentifier u.name := hcanonical.identifiers
  rfl

end Builder

end Launcher.Table
