import Launcher.Proofs.Table.RoundTrip
import Launcher.Table.View

/-!
# What gets through the reader

The tables that bytes can be read as are those whose records have names and fit the format. Among these are records
that contradict themselves: without code, and yet with a size or the mark of a package; or marked as a package with
the size of a module. All other records that get through are sound.
-/

namespace Launcher.Table

namespace Record

variable {encoding : Encoding} {r : Record}

/-- A record says about its code what the format has it say: without code it has no size and is no package, and with
code its size is the length of that, negated for a package, where there is anything to negate. -/
structure Sound (r : Record) : Prop where
  named : r.name ≠ ""
  blank : r.code = none → r.size = 0 ∧ r.isPackage = false
  size : ∀ c, r.code = some c → r.size.natAbs = c.length
  sign : ∀ c, r.code = some c → c ≠ [] → (r.isPackage = true ↔ r.size < 0)

/-- A record without code that has a size or is marked as a package. -/
def Stray (r : Record) : Prop := r.code = none ∧ (r.size ≠ 0 ∨ r.isPackage = true)

/-- A record with code that is marked as a package and has the size of a module. -/
def Misflagged (r : Record) : Prop := r.code ≠ none ∧ r.isPackage = true ∧ 0 < r.size

instance (r : Record) : Decidable r.Stray := inferInstanceAs (Decidable (_ ∧ _))

instance (r : Record) : Decidable r.Misflagged := inferInstanceAs (Decidable (_ ∧ _))

theorem Sound.not_stray (h : r.Sound) : ¬r.Stray := by
  rintro ⟨hcode, hsize | hpackage⟩
  · exact hsize (h.blank hcode).1
  · exact Bool.false_ne_true ((h.blank hcode).2.symm.trans hpackage)

theorem Sound.not_misflagged (h : r.Sound) : ¬r.Misflagged := by
  rintro ⟨hcode, hpackage, hsize⟩
  obtain ⟨c, hc⟩ := Option.ne_none_iff_exists'.mp hcode
  have hlen := h.size c hc
  have hne : c ≠ [] := by
    rintro rfl
    rw [List.length_nil] at hlen
    omega
  exact Int.lt_asymm hsize ((h.sign c hc hne).mp hpackage)

/-- What a record needs to get through the reader. -/
structure Admitted (encoding : Encoding) (r : Record) : Prop where
  named : r.isSentinel = false
  fits : r.Fits encoding

theorem Admitted.name_ne (h : r.Admitted encoding) : r.name ≠ "" := by
  rintro hname
  have hnamed := h.named
  rw [isSentinel, hname] at hnamed
  cases hnamed

theorem Admitted.sound (h : r.Admitted encoding) (hstray : ¬r.Stray) (hflag : ¬r.Misflagged) : r.Sound := by
  refine ⟨h.name_ne, fun hcode => ?_, fun c hc => (h.fits.code c hc).symm, fun c hc hne => ⟨fun hpackage => ?_,
    h.fits.package⟩⟩
  · refine ⟨Decidable.not_not.mp fun hsize => hstray ⟨hcode, .inl hsize⟩, ?_⟩
    exact Bool.eq_false_iff.mpr fun hpackage => hstray ⟨hcode, .inr hpackage⟩
  · have hlen := h.fits.code c hc
    have hpos : 0 < c.length := List.length_pos_iff.mpr hne
    have hsize : ¬0 < r.size := fun hsize => hflag ⟨by rw [hc]; nofun, hpackage, hsize⟩
    omega

/-- Where the sign is the mark of a package, it is so for every record. -/
theorem Admitted.not_misflagged (h : r.Admitted .signedSize) : ¬r.Misflagged :=
  fun ⟨_, hpackage, hsize⟩ => Int.lt_asymm hsize (h.fits.signed rfl hpackage)

end Record

namespace FrozenTable

theorem admitted_of_parse {bs : Bytes} {t : FrozenTable} (h : parse bs = .ok t) :
    ∃ encoding, t.encoding = some encoding ∧ ∀ r ∈ t.entries, r.Admitted encoding := by
  unfold parse at h
  rcases hread : Format.read bs with e | ⟨encoding, rs⟩
  · rw [hread] at h; cases h
  · rw [hread] at h
    cases h
    refine ⟨encoding, rfl, fun r hr => ?_⟩
    obtain ⟨hnamed, hfits⟩ := Format.fits_of_read hread r hr
    exact ⟨hnamed, hfits⟩

/-- Records that get through are read from what is written for them with a sentinel behind. -/
theorem parse_write {encoding : Encoding} {rs : List Record} (h : ∀ r ∈ rs, r.Admitted encoding) :
    parse (Format.write encoding (rs ++ [.sentinel])) = .ok ⟨some encoding, rs⟩ := by
  have hbefore : (rs ++ [Record.sentinel]).takeWhile (!·.isSentinel) = rs :=
    Format.takeWhile_of_named fun r hr => (h r hr).named
  have hread := @Format.read_write encoding (rs ++ [.sentinel]) (by rw [hbefore]; exact fun r hr => (h r hr).fits)
  rw [parse, hread, if_pos (Format.any_isSentinel_concat rs), hbefore]
  rfl

/-- Bytes can be read as the tables of admitted records and as no others; of the records that get through, those that
contradict themselves are just the stray and the misflagged ones. -/
theorem parse_accepts (t : FrozenTable) :
    ((∃ bs, parse bs = .ok t) ↔
      ∃ encoding, t.encoding = some encoding ∧ ∀ r ∈ t.entries, r.Admitted encoding) ∧
    ∀ bs, parse bs = .ok t → ∀ r ∈ t.entries,
      (r.Sound ↔ ¬r.Stray ∧ ¬r.Misflagged) ∧ (t.encoding = some .signedSize → ¬r.Misflagged) := by
  constructor
  · constructor
    · rintro ⟨bs, h⟩
      exact admitted_of_parse h
    · rintro ⟨encoding, hencoding, hall⟩
      obtain ⟨_, rs⟩ := t
      obtain rfl := hencoding
      exact ⟨_, parse_write hall⟩
  · intro bs h r hr
    obtain ⟨encoding, hencoding, hall⟩ := admitted_of_parse h
    have hadmitted := hall r hr
    refine ⟨⟨fun hs => ⟨hs.not_stray, hs.not_misflagged⟩, fun hs => hadmitted.sound hs.1 hs.2⟩, fun hsigned => ?_⟩
    obtain rfl := Option.some.inj (hencoding.symm.trans hsigned)
    exact hadmitted.not_misflagged

/-- A package and two records without code, of which one has no size and one has. -/
theorem parse_accepts_stray :
    let rs : List Record := [⟨"a", some [7, 8], -2, true⟩, ⟨"b", none, 0, false⟩, ⟨"c", none, 5, false⟩]
    parse (Format.write .signedSize (rs ++ [.sentinel])) = .ok ⟨some .signedSize, rs⟩ ∧
      Record.Sound ⟨"a", some [7, 8], -2, true⟩ ∧ Record.Sound ⟨"b", none, 0, false⟩ ∧
      ¬Record.Sound ⟨"c", none, 5, false⟩ := by
  intro rs
  have hall : ∀ r ∈ rs, r.Admitted .signedSize := by
    simp only [rs, List.forall_mem_cons]
    exact ⟨⟨by decide, by decide, by decide, by simp, by decide, by decide⟩,
      ⟨by decide, by decide, by decide, nofun, by decide, by decide⟩,
      ⟨by decide, by decide, by decide, nofun, by decide, by decide⟩, nofun⟩
  have hparse := parse_write hall
  have hsound := (parse_accepts ⟨some .signedSize, rs⟩).2 _ hparse
  simp only [rs, List.forall_mem_cons] at hsound
  obtain ⟨⟨ha, -⟩, ⟨hb, -⟩, ⟨hc, -⟩, -⟩ := hsound
  exact ⟨hparse, ha.mpr ⟨by decide, by decide⟩, hb.mpr ⟨by decide, by decide⟩, fun h => (hc.mp h).1 (by decide)⟩

/-- A record with one byte of code that is marked as a package and has the size 1, and one without code that has the
size 5. -/
theorem parse_misflagged :
    parse [0x46, 0x52, 0x5A, 0x54, 0x41, 0x42, 0x4C, 0, 1, 0, 0, 0, 1, 0, 0, 0, 2, 0, 0, 0, 0x66, 0x1E, 0x8F, 0xE5,
        1, 0, 0, 0, 0x61, 3, 1, 0, 0, 0, 7, 1, 0, 0, 0, 0x62, 0, 5, 0, 0, 0, 0, 0, 0, 0, 0, 0, 0, 0, 0] =
      .ok ⟨some .packageFlag, [⟨"a", some [7], 1, true⟩, ⟨"b", none, 5, false⟩]⟩ ∧
      ¬Record.Sound ⟨"a", some [7], 1, true⟩ ∧ ¬Record.Sound ⟨"b", none, 5, false⟩ := by
  have hwrite : Format.write .packageFlag ([⟨"a", some [7], 1, true⟩, ⟨"b", none, 5, false⟩] ++ [.sentinel]) =
      [0x46, 0x52, 0x5A, 0x54, 0x41, 0x42, 0x4C, 0, 1, 0, 0, 0, 1, 0, 0, 0, 2, 0, 0, 0, 0x66, 0x1E, 0x8F, 0xE5,
        1, 0, 0, 0, 0x61, 3, 1, 0, 0, 0, 7, 1, 0, 0, 0, 0x62, 0, 5, 0, 0, 0, 0, 0, 0, 0, 0, 0, 0, 0, 0] := by
    decide +kernel
  refine ⟨?_, fun h => h.not_misflagged (by decide), fun h => h.not_stray (by decide)⟩
  rw [← hwrite]
  refine parse_write ?_
  simp only [List.forall_mem_cons]
  exact ⟨⟨by decide, by decide, by decide, by simp, by decide, by decide⟩,
    ⟨by decide, by decide, by decide, nofun, by decide, by decide⟩, nofun⟩

end FrozenTable

end Launcher.Table
