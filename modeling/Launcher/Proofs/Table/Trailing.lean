import Launcher.Proofs.Checksum.Crc32
import Launcher.Proofs.Table.Lookup

/-!
# Bytes behind the sentinel

The reader stops at the sentinel, so that bytes behind it are refused by the checksum or not at all. Whatever stands
there, it can be gone on with by four bytes, chosen in one way, that the checksum does not notice.
-/

namespace Launcher.Table

namespace BuiltTable

/-- The part of the bytes of a table that the checksum is taken of: its records and the sentinel. -/
def area (t : BuiltTable) : Bytes := t.toBytes.drop Format.headerSize

/-- The checksum is the same with `tail` behind the sentinel as without. -/
def Hides (t : BuiltTable) (tail : Bytes) : Prop := Crc32.checksum (t.area ++ tail) = Crc32.checksum t.area

instance (t : BuiltTable) (tail : Bytes) : Decidable (t.Hides tail) := inferInstanceAs (Decidable (_ = _))

variable {t : BuiltTable} {tail : Bytes}

theorem toBytes_eq_framed (t : BuiltTable) :
    t.toBytes = Format.framed t.encoding (t.records.takeWhile (!·.isSentinel)).length (Crc32.checksum t.area).toNat
      t.area := by
  have hwrite := @Format.write_eq t.encoding t.records _ rfl
  have harea : t.area = (Format.upToSentinel t.records).flatMap (Format.encodeRecord t.encoding) := by
    rw [area, toBytes, hwrite, Format.drop_framed]
  rwa [← harea] at hwrite

theorem parse_append_of_not_hides (h : ¬t.Hides tail) :
    FrozenTable.parse (t.toBytes ++ tail) =
      .error (.checksumMismatch (Crc32.checksum t.area).toNat (Crc32.checksum (t.area ++ tail)).toNat) := by
  have hne : (Crc32.checksum (t.area ++ tail)).toNat ≠ (Crc32.checksum t.area).toNat := mt UInt32.toNat_inj.mp h
  rw [FrozenTable.parse, toBytes_eq_framed, Format.framed_append, Format.read_framed, Format.checksum_mod, if_pos hne]
  rfl

end BuiltTable

variable {b : Builder} {t : BuiltTable} {tail : Bytes}

theorem parse_append_of_hides (h : b.build = .ok t) (hnames : b.NamesFit) (htail : t.Hides tail) :
    FrozenTable.parse (t.toBytes ++ tail) = .ok t.view := by
  have hany := any_isSentinel_of_build h
  have hread := Format.read_write_append (fits_of_build h hnames) (by rw [hany]; nofun) htail
  rw [FrozenTable.parse, BuiltTable.toBytes, hread, if_pos hany]
  rfl

/-- Bytes behind a finished table are refused where they change the checksum, and only there; what they are gone on
with can always be chosen, in one way for the last four, so that they are not refused. -/
theorem parse_extended (h : b.build = .ok t) :
    (∀ tail, ¬t.Hides tail → FrozenTable.parse (t.toBytes ++ tail) =
      .error (.checksumMismatch (Crc32.checksum t.area).toNat (Crc32.checksum (t.area ++ tail)).toNat)) ∧
    (b.NamesFit → ∀ tail, t.Hides tail → FrozenTable.parse (t.toBytes ++ tail) = .ok t.view) ∧
    (b.NamesFit → ∀ tail, ∃! last : Bytes,
      last.length = 4 ∧ ∃ table, FrozenTable.parse (t.toBytes ++ (tail ++ last)) = .ok table) := by
  refine ⟨fun _ => BuiltTable.parse_append_of_not_hides, fun hnames _ => parse_append_of_hides h hnames,
    fun hnames tail => ?_⟩
  have hread : ∀ last : Bytes, (∃ table, FrozenTable.parse (t.toBytes ++ (tail ++ last)) = .ok table) ↔
      Crc32.checksum (t.area ++ tail ++ last) = Crc32.checksum t.area := by
    intro last
    rw [List.append_assoc]
    refine ⟨fun ⟨table, htable⟩ => ?_, fun hhides => ⟨t.view, parse_append_of_hides h hnames hhides⟩⟩
    refine Decidable.not_not.mp fun hhides => ?_
    cases htable.symm.trans (BuiltTable.parse_append_of_not_hides hhides)
  simp only [hread]
  exact Crc32.existsUnique_checksum (t.area ++ tail) (Crc32.checksum t.area)

/-- A table with one unit. -/
def oneUnit : BuiltTable := ⟨.packageFlag, [.unit "a" [1] false, .sentinel], ["_FM_a"]⟩

theorem build_oneUnit : Builder.build ⟨.packageFlag, [⟨"a", [1], false⟩], []⟩ = .ok oneUnit := by cbv

/-- Five bytes behind it are refused; the four that the checksum does not notice are not. -/
theorem parse_extended_oneUnit :
    ¬oneUnit.Hides (Bytes.ofString "junk!") ∧ oneUnit.Hides [133, 112, 153, 34] ∧
      (∃ e, FrozenTable.parse (oneUnit.toBytes ++ Bytes.ofString "junk!") = .error e) ∧
      FrozenTable.parse (oneUnit.toBytes ++ [133, 112, 153, 34]) = .ok oneUnit.view := by
  obtain ⟨hrefused, hread, -⟩ := parse_extended build_oneUnit
  have hjunk : ¬oneUnit.Hides (Bytes.ofString "junk!") := by decide +kernel
  have hhides : oneUnit.Hides [133, 112, 153, 34] := by decide +kernel
  exact ⟨hjunk, hhides, ⟨_, hrefused _ hjunk⟩, hread ⟨by decide, by decide⟩ _ hhides⟩

/-- A finished table with four bytes behind its sentinel that can be read all the same. -/
theorem parse_unnoticed :
    Builder.build ⟨.packageFlag, [⟨"a", [1], false⟩], []⟩ = .ok oneUnit ∧
      oneUnit.toBytes = [0x46, 0x52, 0x5A, 0x54, 0x41, 0x42, 0x4C, 0, 1, 0, 0, 0, 1, 0, 0, 0, 1, 0, 0, 0,
        125, 237, 173, 54, 1, 0, 0, 0, 0x61, 1, 1, 0, 0, 0, 1, 0, 0, 0, 0, 0, 0, 0, 0, 0] ∧
      FrozenTable.parse (oneUnit.toBytes ++ [133, 112, 153, 34]) = .ok ⟨some .packageFlag, [.unit "a" [1] false]⟩ := by
  have hhides : oneUnit.Hides [133, 112, 153, 34] := by decide +kernel
  exact ⟨build_oneUnit, by decide +kernel, parse_append_of_hides build_oneUnit ⟨by decide, by decide⟩ hhides⟩

end Launcher.Table
