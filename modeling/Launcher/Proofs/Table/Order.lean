import Launcher.Proofs.Table.Build
import Launcher.Proofs.Text
import Launcher.Table.Source

/-!
# The order in which units are added

A table hangs on the units and the blocked names that were added, and not on their order. Neither do the complaints,
apart from those about a name or a size that is not allowed: they are about the first one that was added.
-/

namespace Launcher.Table

/-- The complaint is about the first unit, or name, that is not allowed, in the order in which they were added. -/
def TableError.Positional : TableError → Prop
  | invalidUnitName _ => True
  | unitTooLarge _ _ => True
  | _ => False

/-- The results are the same, or both are complaints about the first that is not allowed. -/
inductive Agrees {α : Type} : Except TableError α → Except TableError α → Prop where
  | same (x : Except TableError α) : Agrees x x
  | positional {e e' : TableError} : e.Positional → e'.Positional → Agrees (.error e) (.error e')

namespace Agrees

variable {α β : Type} {x y : Except TableError α}

theorem bind {f g : α → Except TableError β} (h : Agrees x y) (hf : ∀ a, Agrees (f a) (g a)) :
    Agrees (x >>= f) (y >>= g) := by
  cases h with
  | same =>
      cases x with
      | error e => exact .same _
      | ok a => exact hf a
  | positional he he' => exact .positional he he'

theorem ok_iff {a : α} (h : Agrees x y) : x = .ok a ↔ y = .ok a := by
  cases h with
  | same => exact .rfl
  | positional => exact ⟨nofun, nofun⟩

theorem error_iff {e : TableError} (h : Agrees x y) (he : ¬ e.Positional) : x = .error e ↔ y = .error e := by
  cases h with
  | same => exact .rfl
  | positional hx hy =>
      constructor
      · intro heq
        cases heq
        exact absurd hx he
      · intro heq
        cases heq
        exact absurd hy he

end Agrees

/-! ## Units -/

theorem positional_of_encodeUnit {u : CompiledUnit} {e : TableError} (h : encodeUnit u = .error e) : e.Positional := by
  unfold encodeUnit at h
  split at h
  · cases h
    trivial
  · split at h
    · cases h
      trivial
    · cases h

theorem positional_of_mapM {us : List CompiledUnit} {e : TableError} (h : us.mapM encodeUnit = .error e) :
    e.Positional := by
  induction us with
  | nil => cases h
  | cons u us ih =>
      rw [List.mapM_cons] at h
      cases hu : encodeUnit u with
      | error e' =>
          rw [hu] at h
          cases h
          exact positional_of_encodeUnit hu
      | ok r =>
          rw [hu] at h
          cases hus : us.mapM encodeUnit with
          | error e' =>
              rw [hus] at h
              cases h
              exact ih hus
          | ok rs =>
              rw [hus] at h
              cases h

/-- Where a unit is not allowed, the complaint is about such a unit. -/
theorem mapM_encodeUnit_eq_error {us : List CompiledUnit} (h : ¬ ∀ u ∈ us, u.Allowed) :
    ∃ e, us.mapM encodeUnit = .error e ∧ e.Positional := by
  cases hmap : us.mapM encodeUnit with
  | error e => exact ⟨e, rfl, positional_of_mapM hmap⟩
  | ok rs => exact absurd (mapM_encodeUnit_eq_ok.mp hmap).1 h

namespace Builder

/-! ## Sorting -/

theorem sorted_names_pairwise (names : List String) : (sorted names).Pairwise (· ≤ ·) := by
  have htrans : ∀ a b c : String, decide (a ≤ b) = true → decide (b ≤ c) = true → decide (a ≤ c) = true := by
    simp only [decide_eq_true_eq]
    exact fun _ _ _ => String.le_trans
  have htotal : ∀ a b : String, (decide (a ≤ b) || decide (b ≤ a)) = true := by
    simp only [Bool.or_eq_true, decide_eq_true_eq]
    exact String.le_total
  rw [sorted]
  simpa only [decide_eq_true_eq] using List.pairwise_mergeSort htrans htotal names

theorem sorted_eq_of_perm {names names' : List String} (h : names.Perm names') : sorted names = sorted names' := by
  have hperm : (sorted names).Perm (sorted names') :=
    (List.mergeSort_perm ..).trans (h.trans (List.mergeSort_perm ..).symm)
  exact hperm.eq_of_pairwise (fun _ _ _ _ => String.le_antisymm) (sorted_names_pairwise _) (sorted_names_pairwise _)

theorem withoutRepeats_increasing {names : List String} (h : names.Pairwise (· ≤ ·)) :
    (withoutRepeats names).Pairwise (· < ·) := by
  fun_induction withoutRepeats names with
  | case1 a rest ih => exact ih h.of_cons
  | case2 a b rest hne ih =>
      obtain ⟨ha, hrest⟩ := List.pairwise_cons.mp h
      refine List.pairwise_cons.mpr ⟨fun c hc => ?_, ih hrest⟩
      have hlt : a < b := Std.lt_of_le_of_ne (ha b List.mem_cons_self) hne
      rcases List.mem_cons.mp (mem_withoutRepeats.mp hc) with rfl | hc
      · exact hlt
      · exact Std.lt_of_lt_of_le hlt ((List.pairwise_cons.mp hrest).1 c hc)
  | case3 names hnames =>
      cases names with
      | nil => exact .nil
      | cons a rest =>
          cases rest with
          | nil => exact List.pairwise_singleton _ a
          | cons b rest => exact absurd rfl (hnames a b rest)

/-- Increasing lists with the same members are equal. -/
theorem eq_of_increasing {names names' : List String} (h : names.Pairwise (· < ·)) (h' : names'.Pairwise (· < ·))
    (hmem : ∀ name, name ∈ names ↔ name ∈ names') : names = names' := by
  have hperm : names.Perm names' :=
    (List.perm_ext_iff_of_nodup (h.imp Std.ne_of_lt) (h'.imp Std.ne_of_lt)).mpr hmem
  exact hperm.eq_of_pairwise (fun _ _ _ _ hab hba => absurd hba (String.lt_asymm hab)) h h'

/-- The records of the units, if all are allowed, in the order of their names. -/
def sortedRecords (b : Builder) : List Record :=
  (b.units.map CompiledUnit.record).mergeSort fun a b => decide (a.name ≤ b.name)

theorem map_name_sortedRecords (b : Builder) :
    b.sortedRecords.map (·.name) = sorted ((b.units.map CompiledUnit.record).map (·.name)) :=
  List.map_mergeSort fun _ _ _ _ => rfl

theorem unitRecords_of_allowed {b : Builder} (h : ∀ u ∈ b.units, u.Allowed) :
    b.unitRecords =
      match firstRepeated? (b.sortedRecords.map (·.name)) with
      | some name => .error (.duplicateUnitName name)
      | none =>
        match b.sortedRecords.find? fun r => b.encoding = .signedSize ∧ r.isPackage ∧ r.code = some [] with
        | some r => .error (.ambiguousEmptyPackage r.name)
        | none => .ok b.sortedRecords := by
  rw [unitRecords, mapM_encodeUnit_eq_ok.mpr ⟨h, rfl⟩]
  rfl

/-! ## Builders with the same content -/

/-- The same units in any order, and the same blocked names in any order and as often as one likes. -/
structure SameContent (b b' : Builder) : Prop where
  encoding : b.encoding = b'.encoding
  units : b.units.Perm b'.units
  failImport : ∀ name, name ∈ b.failImport ↔ name ∈ b'.failImport

namespace SameContent

variable {b b' : Builder}

theorem sortedNames (h : b.SameContent b') : b.sortedRecords.map (·.name) = b'.sortedRecords.map (·.name) := by
  rw [map_name_sortedRecords, map_name_sortedRecords]
  exact sorted_eq_of_perm ((h.units.map _).map _)

/-- Units of one name may be put in either order, but these are complained about. -/
theorem sortedRecords (h : b.SameContent b') (hfirst : firstRepeated? (b.sortedRecords.map (·.name)) = none) :
    b.sortedRecords = b'.sortedRecords := by
  have hincreasing : ∀ {b : Builder}, firstRepeated? (b.sortedRecords.map (·.name)) = none →
      b.sortedRecords.Pairwise fun r r' => r.name < r'.name := by
    intro b hfirst
    exact List.pairwise_map.mp (increasing_of_firstRepeated? (List.pairwise_map.mpr (sorted_pairwise _)) hfirst)
  have hperm : b.sortedRecords.Perm b'.sortedRecords :=
    (List.mergeSort_perm ..).trans ((h.units.map _).trans (List.mergeSort_perm ..).symm)
  exact hperm.eq_of_pairwise (fun _ _ _ _ hab hba => absurd hba (String.lt_asymm hab)) (hincreasing hfirst)
    (hincreasing (h.sortedNames ▸ hfirst))

theorem unitRecords (h : b.SameContent b') : Agrees b.unitRecords b'.unitRecords := by
  have hmem : ∀ u, u ∈ b.units ↔ u ∈ b'.units := fun u => h.units.mem_iff
  by_cases hallowed : ∀ u ∈ b.units, u.Allowed
  · have hallowed' : ∀ u ∈ b'.units, u.Allowed := fun u hu => hallowed u ((hmem u).mpr hu)
    rw [unitRecords_of_allowed hallowed, unitRecords_of_allowed hallowed', ← h.sortedNames]
    cases hfirst : firstRepeated? (b.sortedRecords.map (·.name)) with
    | some name => exact .same _
    | none =>
        rw [← h.sortedRecords hfirst, ← h.encoding]
        exact .same _
  · have hallowed' : ¬ ∀ u ∈ b'.units, u.Allowed := fun hall => hallowed fun u hu => hall u ((hmem u).mp hu)
    obtain ⟨e, he, hpositional⟩ := mapM_encodeUnit_eq_error hallowed
    obtain ⟨e', he', hpositional'⟩ := mapM_encodeUnit_eq_error hallowed'
    rw [Builder.unitRecords, Builder.unitRecords, he, he']
    exact .positional hpositional hpositional'

theorem blockedNames (h : b.SameContent b') (units : List String) :
    Agrees (b.blockedNames units) (b'.blockedNames units) := by
  have hnames : withoutRepeats (sorted b.failImport) = withoutRepeats (sorted b'.failImport) := by
    refine eq_of_increasing (withoutRepeats_increasing (sorted_names_pairwise _))
      (withoutRepeats_increasing (sorted_names_pairwise _)) fun name => ?_
    rw [mem_withoutRepeats, mem_withoutRepeats, sorted, sorted, List.mem_mergeSort, List.mem_mergeSort]
    exact h.failImport name
  have hinvalid : (b.failImport.find? (!isUnitName ·)).isSome = (b'.failImport.find? (!isUnitName ·)).isSome := by
    rw [Bool.eq_iff_iff, List.find?_isSome, List.find?_isSome]
    simp only [h.failImport]
  unfold Builder.blockedNames
  cases hfind : b.failImport.find? (!isUnitName ·) <;> cases hfind' : b'.failImport.find? (!isUnitName ·) <;>
    rw [hfind, hfind'] at hinvalid
  · dsimp only
    rw [hnames]
    exact .same _
  · cases hinvalid
  · cases hinvalid
  · exact .positional trivial trivial

theorem build (h : b.SameContent b') : Agrees b.build b'.build := by
  refine h.unitRecords.bind fun rs => (h.blockedNames _).bind fun blocked => ?_
  rw [h.encoding]
  exact .same _

end SameContent

/-! ## The table -/

/-- In whatever order the same was added, the same table comes of it, in its records, its identifiers, its bytes and
its text, or none, for the same reason unless that is a name or a size that is not allowed. -/
theorem build_sameContent {b b' : Builder} (h : b.SameContent b') :
    ((∃ t, b.build = .ok t) ↔ ∃ t', b'.build = .ok t') ∧
    (∀ t t', b.build = .ok t → b'.build = .ok t' →
      t.records = t'.records ∧ t.identifiers = t'.identifiers ∧ t.toBytes = t'.toBytes ∧
        Source.text t = Source.text t') ∧
    ∀ e : TableError, ¬ e.Positional → (b.build = .error e ↔ b'.build = .error e) := by
  have hagrees := h.build
  refine ⟨exists_congr fun t => hagrees.ok_iff, ?_, fun e he => hagrees.error_iff he⟩
  intro t t' ht ht'
  obtain rfl : t = t' := Except.ok.inj ((hagrees.ok_iff.mp ht).symm.trans ht')
  exact ⟨rfl, rfl, rfl, rfl⟩

/-- A package, its module and two blocked names in two orders, and two units of one name in both. -/
theorem build_sameContent_swapped :
    let p : CompiledUnit := ⟨"p", [1], true⟩
    let a : CompiledUnit := ⟨"p.a", [2], false⟩
    let p' : CompiledUnit := ⟨"p", [3], false⟩
    (∃ t t', build ⟨.signedSize, [a, p], ["z", "b"]⟩ = .ok t ∧ build ⟨.signedSize, [p, a], ["b", "z", "b"]⟩ = .ok t' ∧
      t.records = t'.records ∧ t.identifiers = t'.identifiers ∧ t.toBytes = t'.toBytes ∧
      Source.text t = Source.text t') ∧
    build ⟨.signedSize, [p, p'], []⟩ = .error (.duplicateUnitName "p") ∧
    build ⟨.signedSize, [p', p], []⟩ = .error (.duplicateUnitName "p") := by
  intro p a p'
  have hunits : SameContent ⟨.signedSize, [a, p], ["z", "b"]⟩ ⟨.signedSize, [p, a], ["b", "z", "b"]⟩ :=
    ⟨rfl, .swap .., by grind⟩
  have hrepeated : SameContent ⟨.signedSize, [p, p'], []⟩ ⟨.signedSize, [p', p], []⟩ := ⟨rfl, .swap .., fun _ => .rfl⟩
  have hbuild : build ⟨.signedSize, [a, p], ["z", "b"]⟩ =
      .ok ⟨.signedSize, [.unit "p" [1] true, .unit "p.a" [2] false, .forcedFailure "b", .forcedFailure "z", .sentinel],
        ["_FM_p", "_FM_p__a"]⟩ := by
    cbv
  have hfails : build ⟨.signedSize, [p, p'], []⟩ = .error (.duplicateUnitName "p") := by cbv
  obtain ⟨hok, hsame, -⟩ := build_sameContent hunits
  obtain ⟨t', ht'⟩ := hok.mp ⟨_, hbuild⟩
  exact ⟨⟨_, t', hbuild, ht', hsame _ _ hbuild ht'⟩, hfails,
    ((build_sameContent hrepeated).2.2 _ id).mp hfails⟩

end Builder

end Launcher.Table
