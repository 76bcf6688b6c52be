import Launcher.Proofs.Action
import Launcher.Table.Builder

/-!
# What a builder builds

A finished table has the records of the units, in the order of their names and no name twice, then the forced
failures, none of them under the name of a unit, and the sentinel.
-/

namespace Launcher.Table

/-! ## Units and their records -/

def CompiledUnit.record (u : CompiledUnit) : Record := .unit u.name u.code u.isPackage

/-- A unit that can stand in a table. -/
structure CompiledUnit.Allowed (u : CompiledUnit) : Prop where
  name : isUnitName u.name = true
  size : u.code.length ≤ maxCodeSize

theorem encodeUnit_eq_ok {u : CompiledUnit} {r : Record} :
    encodeUnit u = .ok r ↔ u.Allowed ∧ u.record = r := by
  unfold encodeUnit
  split
  · rename_i hname
    exact ⟨nofun, fun h => by simp [h.1.name] at hname⟩
  · split
    · rename_i hsize
      exact ⟨nofun, fun h => absurd h.1.size (Nat.not_le.mpr hsize)⟩
    · rename_i hname hsize
      have hallowed : u.Allowed := ⟨by simpa using hname, Nat.not_lt.mp hsize⟩
      exact ⟨fun h => ⟨hallowed, Except.ok.inj h⟩, fun h => congrArg Except.ok h.2⟩

theorem mapM_encodeUnit_eq_ok {us : List CompiledUnit} {rs : List Record} :
    us.mapM encodeUnit = .ok rs ↔ (∀ u ∈ us, u.Allowed) ∧ us.map CompiledUnit.record = rs := by
  induction us generalizing rs with
  | nil => simp [Pure.pure, Except.pure]
  | cons u us ih =>
      simp only [List.mapM_cons, except_bind_eq_ok, encodeUnit_eq_ok, ih, List.forall_mem_cons]
      constructor
      · rintro ⟨r, ⟨hu, rfl⟩, rs', ⟨hus, rfl⟩, h⟩
        exact ⟨⟨hu, hus⟩, Except.ok.inj h⟩
      · rintro ⟨⟨hu, hus⟩, rfl⟩
        exact ⟨_, ⟨hu, rfl⟩, _, ⟨hus, rfl⟩, rfl⟩

/-! ## Lists of names -/

namespace Builder

/-- Where no name is the one before it, the names of a sorted list are all different. -/
theorem increasing_of_firstRepeated? {names : List String} (hsorted : names.Pairwise (· ≤ ·))
    (h : firstRepeated? names = none) : names.Pairwise (· < ·) := by
  induction names with
  | nil => exact .nil
  | cons a names ih =>
      obtain ⟨ha, hsorted⟩ := List.pairwise_cons.mp hsorted
      cases names with
      | nil => exact List.pairwise_singleton _ a
      | cons b names =>
          rw [firstRepeated?] at h
          split at h
          · cases h
          · rename_i hab
            have hlt : a < b := Std.lt_of_le_of_ne (ha b List.mem_cons_self) hab
            refine List.pairwise_cons.mpr ⟨?_, ih hsorted h⟩
            rintro c (_ | ⟨_, hc⟩)
            · exact hlt
            · exact Std.lt_of_lt_of_le hlt ((List.pairwise_cons.mp hsorted).1 c hc)

theorem mem_withoutRepeats {names : List String} {name : String} :
    name ∈ withoutRepeats names ↔ name ∈ names := by
  fun_induction withoutRepeats names with
  | case1 a rest ih => rw [ih, List.mem_cons, List.mem_cons, List.mem_cons, or_self_left]
  | case2 a b rest hne ih => rw [List.mem_cons, ih, ← List.mem_cons]
  | case3 names hne => rfl

theorem sorted_pairwise (rs : List Record) :
    (rs.mergeSort fun a b => decide (a.name ≤ b.name)).Pairwise fun a b => a.name ≤ b.name := by
  have htrans : ∀ a b c : Record, decide (a.name ≤ b.name) = true → decide (b.name ≤ c.name) = true →
      decide (a.name ≤ c.name) = true := by
    simp only [decide_eq_true_eq]
    exact fun _ _ _ => String.le_trans
  have htotal : ∀ a b : Record, (decide (a.name ≤ b.name) || decide (b.name ≤ a.name)) = true := by
    simp only [Bool.or_eq_true, decide_eq_true_eq]
    exact fun _ _ => String.le_total ..
  simpa only [decide_eq_true_eq] using List.pairwise_mergeSort htrans htotal rs

/-! ## The records of the units -/

/-- The records of the units, once these are found to be in order. -/
structure UnitRecords (b : Builder) (rs : List Record) : Prop where
  allowed : ∀ u ∈ b.units, u.Allowed
  perm : rs.Perm (b.units.map CompiledUnit.record)
  increasing : (rs.map (·.name)).Pairwise (· < ·)
  signed : b.encoding = .signedSize → ∀ r ∈ rs, r.isPackage = true → r.code ≠ some []

theorem unitRecords_of_ok {b : Builder} {rs : List Record} (h : b.unitRecords = .ok rs) :
    b.UnitRecords rs := by
  obtain ⟨rs₀, hmap, h⟩ := except_bind_eq_ok.mp h
  obtain ⟨hallowed, rfl⟩ := mapM_encodeUnit_eq_ok.mp hmap
  dsimp only at h
  split at h
  · cases h
  · rename_i hfirst
    split at h
    · cases h
    · rename_i hnone
      cases h
      refine ⟨hallowed, List.mergeSort_perm _ _, ?_, ?_⟩
      · exact increasing_of_firstRepeated? (List.pairwise_map.mpr (sorted_pairwise _)) hfirst
      · intro hsigned r hr hpackage hcode
        have hbad := List.find?_eq_none.mp hnone r hr
        simp [hsigned, hpackage, hcode] at hbad

/-! ## The names whose import must fail -/

structure BlockedNames (b : Builder) (units names : List String) : Prop where
  allowed : ∀ name ∈ b.failImport, isUnitName name = true
  mem : ∀ name, name ∈ names ↔ name ∈ b.failImport
  free : ∀ name ∈ names, name ∉ units

theorem blockedNames_of_ok {b : Builder} {units names : List String} (h : b.blockedNames units = .ok names) :
    b.BlockedNames units names := by
  unfold blockedNames at h
  split at h
  · cases h
  · rename_i hvalid
    dsimp only at h
    split at h
    · cases h
    · rename_i hfree
      cases h
      refine ⟨?_, fun name => mem_withoutRepeats.trans List.mem_mergeSort, ?_⟩
      · intro name hname
        simpa using List.find?_eq_none.mp hvalid name hname
      · intro name hname
        simpa using List.find?_eq_none.mp hfree name hname

/-! ## The table -/

/-- The parts of a finished table. -/
theorem build_of_ok {b : Builder} {t : BuiltTable} (h : b.build = .ok t) :
    ∃ rs blocked, b.UnitRecords rs ∧ b.BlockedNames (rs.map (·.name)) blocked ∧
      t.encoding = b.encoding ∧
      t.records = rs ++ blocked.map Record.forcedFailure ++ [Record.sentinel] := by
  obtain ⟨rs, hrs, h⟩ := except_bind_eq_ok.mp h
  obtain ⟨blocked, hblocked, h⟩ := except_bind_eq_ok.mp h
  refine ⟨rs, blocked, unitRecords_of_ok hrs, blockedNames_of_ok hblocked, ?_⟩
  split at h
  · cases h
  · cases h; exact ⟨rfl, rfl⟩

end Builder

end Launcher.Table
