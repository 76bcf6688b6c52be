import Launcher.Proofs.Checksum.Crc32
import Launcher.Proofs.Table.Trailing

/-!
# Damaged tables

What is left of a table that was cut off is refused: the reader goes through it as it goes through the whole, and comes
to its end in a record or in front of one, but never to a sentinel. A table that was changed in up to four bytes in a
row is refused for its checksum, before its records are looked at.
-/

namespace Launcher.Table

/-- The complaints about bytes that end too early. -/
def TableError.IsEarlyEnd : TableError → Prop
  | truncated _ => True
  | missingSentinel => True
  | _ => False

namespace Format

/-! ## Reading a front part -/

/-- What a reader gives on some bytes, beside what it gives on them with `tail` behind: the same, and the `tail` is
left over, or the complaint that there are too few. -/
inductive Continues {α : Type} (tail : Bytes) :
    Except TableError (α × Place) → Except TableError (α × Place) → Prop where
  | truncated (offset : Nat) (y : Except TableError (α × Place)) : Continues tail (.error (.truncated offset)) y
  | error (e : TableError) : Continues tail (.error e) (.error e)
  | ok (a : α) (o : Nat) (rest : Bytes) : Continues tail (.ok (a, ⟨o, rest⟩)) (.ok (a, ⟨o, rest ++ tail⟩))

namespace Continues

variable {α β : Type} {tail : Bytes} {x y : Except TableError (α × Place)}

theorem bind {f g : α × Place → Except TableError (β × Place)} (h : Continues tail x y)
    (hf : ∀ a o rest, Continues tail (f (a, ⟨o, rest⟩)) (g (a, ⟨o, rest ++ tail⟩))) :
    Continues tail (x >>= f) (y >>= g) := by
  cases h with
  | truncated offset => exact .truncated offset _
  | error e => exact .error e
  | ok a o rest => exact hf a o rest

theorem map {f : α → β} (h : Continues tail x y) :
    Continues tail (x.map fun (a, p) => (f a, p)) (y.map fun (a, p) => (f a, p)) := by
  cases h with
  | truncated offset => exact .truncated offset _
  | error e => exact .error e
  | ok a o rest => exact .ok (f a) o rest

theorem of_ok {a : α} {o : Nat} {rest : Bytes} (h : Continues tail x (.ok (a, ⟨o, rest⟩))) :
    (∃ offset, x = .error (.truncated offset)) ∨ ∃ front, x = .ok (a, ⟨o, front⟩) ∧ front ++ tail = rest := by
  cases h with
  | truncated offset => exact .inl ⟨offset, rfl⟩
  | ok a o front => exact .inr ⟨front, rfl, rfl⟩

end Continues

variable {encoding : Encoding} {o : Nat} {bs tail : Bytes}

theorem take_continues (n : Nat) : Continues tail (take n ⟨o, bs⟩) (take n ⟨o, bs ++ tail⟩) := by
  unfold take
  dsimp only
  split
  · rename_i hbytes
    rw [Bytes.takeBytes_append_of_some hbytes tail]
    exact .ok ..
  · exact .truncated ..

theorem takeNat_continues (n : Nat) : Continues tail (takeNat n ⟨o, bs⟩) (takeNat n ⟨o, bs ++ tail⟩) :=
  (take_continues n).map

theorem takeInt_continues : Continues tail (takeInt ⟨o, bs⟩) (takeInt ⟨o, bs ++ tail⟩) :=
  (takeNat_continues 4).map (f := fun n : Nat => if n < 0x80000000 then (n : Int) else n - 0x100000000)

theorem takeCode_continues (flags : Nat) (size : Int) :
    Continues tail (takeCode flags size ⟨o, bs⟩) (takeCode flags size ⟨o, bs ++ tail⟩) := by
  unfold takeCode
  split
  · exact (take_continues _).map
  · exact .ok ..

theorem takeRecord_continues : Continues tail (takeRecord encoding ⟨o, bs⟩) (takeRecord encoding ⟨o, bs ++ tail⟩) := by
  unfold takeRecord
  refine (takeNat_continues 4).bind fun length o rest => ?_
  refine (take_continues length).bind fun bytes o rest => ?_
  dsimp only
  split
  · exact .error _
  · rename_i name _
    refine (takeNat_continues 1).bind fun flags o rest => ?_
    refine takeInt_continues.bind fun size o rest => ?_
    dsimp only
    split
    · exact .ok ..
    · refine (takeCode_continues flags size).bind fun code o rest => ?_
      dsimp only
      cases packageOf encoding name flags size with
      | error e => exact .error e
      | ok isPackage => exact .ok ..

/-! ## Records that are cut off -/

theorem takeRecords_of_front {a : Option Record} {o' : Nat} {rest : Bytes}
    (hwhole : takeRecord encoding ⟨o, bs ++ tail⟩ = .ok (a, ⟨o', rest⟩))
    (hrest : ∀ front, front ++ tail = rest → ∃ r, a = some r ∧
      ∀ rounds, ∃ e, takeRecords encoding rounds ⟨o', front⟩ = .error e ∧ e.IsEarlyEnd) (rounds : Nat) :
    ∃ e, takeRecords encoding rounds ⟨o, bs⟩ = .error e ∧ e.IsEarlyEnd := by
  cases rounds with
  | zero => exact ⟨.missingSentinel, rfl, trivial⟩
  | succ rounds =>
      rw [takeRecords]
      split
      · exact ⟨.missingSentinel, rfl, trivial⟩
      · have hfront := @takeRecord_continues encoding o bs tail
        rw [hwhole] at hfront
        rcases hfront.of_ok with ⟨offset, hx⟩ | ⟨front, hx, hgoesOn⟩
        · rw [hx]
          exact ⟨.truncated offset, rfl, trivial⟩
        · obtain ⟨r, rfl, hmore⟩ := hrest front hgoesOn
          obtain ⟨e, he, hearly⟩ := hmore rounds
          refine ⟨e, ?_, hearly⟩
          simp only [hx, Bind.bind, Except.bind, he]

/-- A front part of some records with a sentinel behind them comes to its end before that of the sentinel. -/
theorem takeRecords_of_cut {rs : List Record} (hrs : ∀ r ∈ rs, r.isSentinel = false ∧ r.Fits encoding)
    (hbytes : bs ++ tail = (rs ++ [Record.sentinel]).flatMap (encodeRecord encoding)) (htail : tail ≠ [])
    (rounds : Nat) : ∃ e, takeRecords encoding rounds ⟨o, bs⟩ = .error e ∧ e.IsEarlyEnd := by
  induction rs generalizing bs rounds o with
  | nil =>
      obtain ⟨o', hwhole⟩ := @takeRecord_sentinel encoding .sentinel rfl o []
      have hone : bs ++ tail = encodeRecord encoding .sentinel ++ [] := hbytes
      rw [← hone] at hwhole
      refine takeRecords_of_front hwhole (fun front hfront => ?_) rounds
      exact absurd (List.append_eq_nil_iff.mp hfront).2 htail
  | cons r rs ih =>
      obtain ⟨⟨hnamed, hfits⟩, hrs⟩ := List.forall_mem_cons.mp hrs
      obtain ⟨o', hwhole⟩ := takeRecord_encodeRecord hfits hnamed o
        ((rs ++ [Record.sentinel]).flatMap (encodeRecord encoding))
      rw [List.cons_append, List.flatMap_cons] at hbytes
      rw [← hbytes] at hwhole
      exact takeRecords_of_front hwhole (fun front hfront => ⟨r, rfl, ih hrs hfront⟩) rounds

/-- A front part of a framed area is too short for a header, or it frames a front part of the area. -/
theorem prefix_framed {count checksum : Nat} {area : Bytes} (h : bs <+: framed encoding count checksum area) :
    bs.length < headerSize ∨ ∃ front, front <+: area ∧ bs = framed encoding count checksum front := by
  obtain ⟨tail, htail⟩ := h
  have hheader := @framed_append encoding count checksum [] area
  rw [List.nil_append] at hheader
  rw [← hheader] at htail
  rcases List.append_eq_append_iff.mp htail with ⟨missing, hmissing, -⟩ | ⟨front, hfront, harea⟩
  · cases missing with
    | nil => exact .inr ⟨[], List.nil_prefix, by rw [hmissing, List.append_nil]⟩
    | cons b missing =>
        have hlength := congrArg List.length hmissing
        rw [List.length_append, List.length_cons] at hlength
        have hsize : (framed encoding count checksum []).length = headerSize := rfl
        exact .inl (by omega)
  · exact .inr ⟨front, ⟨tail, harea.symm⟩, by rw [hfront, framed_append, List.nil_append]⟩

end Format

/-! ## Tables that are cut off -/

namespace BuiltTable

/-- The bytes are refused: if not for their checksum, then because they end too early. -/
def RefusesCut (t : BuiltTable) (bs : Bytes) : Prop :=
  ∃ e, FrozenTable.parse bs = .error e ∧
    (Crc32.checksum (bs.drop Format.headerSize) = Crc32.checksum t.area → e.IsEarlyEnd)

/-- What is cut off in its header is refused for that, and behind it for its checksum or by its records. -/
theorem refusesCut_of_reads {t : BuiltTable} {bs : Bytes} (hbs : bs <+: t.toBytes)
    (hrecords : Format.headerSize ≤ bs.length → Crc32.checksum (bs.drop Format.headerSize) = Crc32.checksum t.area →
      ∀ rounds, ∃ e, Format.takeRecords t.encoding rounds ⟨Format.headerSize, bs.drop Format.headerSize⟩ = .error e ∧
        e.IsEarlyEnd) : t.RefusesCut bs := by
  rw [toBytes_eq_framed] at hbs
  rcases Format.prefix_framed hbs with hshort | ⟨front, -, rfl⟩
  · refine ⟨.truncated bs.length, ?_, fun _ => trivial⟩
    rw [FrozenTable.parse, Format.read, if_pos hshort]
    rfl
  · have hlong : Format.headerSize ≤ (Format.framed t.encoding (t.records.takeWhile (!·.isSentinel)).length
        (Crc32.checksum t.area).toNat front).length := by
      simp [Format.framed, Format.headerSize, Format.magic]
      omega
    have hrecords := hrecords hlong
    rw [Format.drop_framed] at hrecords
    rw [RefusesCut, FrozenTable.parse, Format.read_framed, Format.drop_framed, Format.checksum_mod]
    split
    · rename_i hchecksum
      refine ⟨_, rfl, fun hsame => ?_⟩
      exact absurd (congrArg UInt32.toNat hsame) hchecksum
    · rename_i hchecksum
      obtain ⟨e, he, hearly⟩ := hrecords (UInt32.toNat_inj.mp (not_not.mp hchecksum)) _
      refine ⟨e, ?_, fun _ => hearly⟩
      rw [he]
      rfl

theorem refusesCut_of_records {t : BuiltTable} {rs : List Record} {bs : Bytes}
    (hrs : ∀ r ∈ rs, r.isSentinel = false ∧ r.Fits t.encoding) (hbs : bs <+: t.toBytes)
    (hcut : bs.drop Format.headerSize <+: (rs ++ [Record.sentinel]).flatMap (Format.encodeRecord t.encoding))
    (hne : Format.headerSize ≤ bs.length →
      bs.drop Format.headerSize ≠ (rs ++ [Record.sentinel]).flatMap (Format.encodeRecord t.encoding)) :
    t.RefusesCut bs := by
  refine refusesCut_of_reads hbs fun hlong _ rounds => ?_
  obtain ⟨tail, htail⟩ := hcut
  refine Format.takeRecords_of_cut hrs htail ?_ rounds
  rintro rfl
  exact hne hlong (by rw [← htail, List.append_nil])

end BuiltTable

variable {b : Builder} {t : BuiltTable}

theorem area_of_build (h : b.build = .ok t) :
    t.area = (t.view.entries ++ [Record.sentinel]).flatMap (Format.encodeRecord t.encoding) := by
  obtain ⟨-, hrecords, hentries⟩ := view_entries h
  have hwhole : Format.upToSentinel t.records = t.view.entries ++ [Record.sentinel] :=
    hrecords ▸ Format.upToSentinel_of_named hentries.named
  rw [BuiltTable.area, BuiltTable.toBytes, Format.write_eq rfl, Format.drop_framed, hwhole]

/-- Every front part of a finished table is refused. Where all names fit, this is every one that is not the whole.
Otherwise it is every one that has not the checksum of the whole, and every one that ends in front of the first record
whose name does not fit. -/
theorem parse_truncated (h : b.build = .ok t) :
    (b.NamesFit → ∀ bs, bs <+: t.toBytes → bs ≠ t.toBytes → t.RefusesCut bs) ∧
    (∀ bs, bs <+: t.toBytes → Crc32.checksum (bs.drop Format.headerSize) ≠ Crc32.checksum t.area → t.RefusesCut bs) ∧
    ∀ front back, t.view.entries = front ++ back → (∀ r ∈ front, r.NameFits) →
      ∀ bs, bs <+: t.toBytes →
        bs.length ≤ Format.headerSize + (front.flatMap (Format.encodeRecord t.encoding)).length →
        t.RefusesCut bs := by
  have harea := area_of_build h
  have hnamed := (view_entries h).2.2.named
  refine ⟨fun hnames bs hbs hne => ?_, fun bs hbs hdiffers => ?_, fun front back hsplit hnames bs hbs hlength => ?_⟩
  · have hcut : bs.drop Format.headerSize <+: t.area := hbs.drop Format.headerSize
    rw [harea] at hcut
    refine BuiltTable.refusesCut_of_records (fun r hr => ⟨hnamed r hr, fits_of_build h hnames r hr⟩) hbs hcut ?_
    rw [← harea]
    intro hlong hwhole
    have hlength := congrArg List.length hwhole
    rw [BuiltTable.area, List.length_drop, List.length_drop] at hlength
    have hle := hbs.length_le
    exact hne (hbs.eq_of_length (by omega))
  · exact BuiltTable.refusesCut_of_reads hbs fun _ hsame => absurd hsame hdiffers
  · have hcut : bs.drop Format.headerSize <+: t.area := hbs.drop Format.headerSize
    rw [harea, hsplit, List.append_assoc, List.flatMap_append] at hcut
    have hfront : bs.drop Format.headerSize <+: front.flatMap (Format.encodeRecord t.encoding) :=
      List.prefix_of_prefix_length_le hcut (List.prefix_append ..) (by rw [List.length_drop]; omega)
    have hmem : ∀ r ∈ front, r ∈ t.view.entries := fun r hr => hsplit ▸ List.mem_append_left back hr
    refine @BuiltTable.refusesCut_of_records t front bs
      (fun r hr => ⟨hnamed r (hmem r hr), fits_of_nameFits h (hmem r hr) (hnames r hr)⟩) hbs ?_ fun _ hwhole => ?_
    · rw [List.flatMap_append]
      exact hfront.trans (List.prefix_append ..)
    · have hle := hfront.length_le
      rw [hwhole, List.flatMap_append, List.length_append] at hle
      have hsentinel : (List.flatMap (Format.encodeRecord t.encoding) [Record.sentinel]).length = 9 := rfl
      omega

/-- A module with nine zeros in its code, which read like a sentinel, and a table of it. -/
def hollowUnit : CompiledUnit := ⟨"a", List.replicate 9 0 ++ [79, 78, 115, 93], false⟩

def hollowTable : BuiltTable := ⟨.packageFlag, [hollowUnit.record, .sentinel], ["_FM_a"]⟩

/-- Cut off behind the nine zeros, the bytes have the checksum of the whole, and are refused all the same. -/
theorem parse_truncated_hollow :
    Builder.build ⟨.packageFlag, [hollowUnit], []⟩ = .ok hollowTable ∧
      Crc32.checksum ((hollowTable.toBytes.take 43).drop Format.headerSize) = Crc32.checksum hollowTable.area ∧
      ∃ e, FrozenTable.parse (hollowTable.toBytes.take 43) = .error e ∧ e.IsEarlyEnd := by
  have hbuild : Builder.build ⟨.packageFlag, [hollowUnit], []⟩ = .ok hollowTable := by cbv
  have hchecksum : Crc32.checksum ((hollowTable.toBytes.take 43).drop Format.headerSize) =
      Crc32.checksum hollowTable.area := by decide +kernel
  obtain ⟨hwhole, -⟩ := parse_truncated hbuild
  have hcut : hollowTable.toBytes.take 43 <+: hollowTable.toBytes := List.take_prefix ..
  obtain ⟨e, he, hearly⟩ := hwhole ⟨by decide, by decide⟩ (hollowTable.toBytes.take 43) hcut (by decide +kernel)
  exact ⟨hbuild, hchecksum, e, he, hearly hchecksum⟩

/-! ## Tables that are changed -/

/-- Up to four bytes in a row behind the header are not changed without notice, whatever the records. -/
theorem read_changed {encoding : Encoding} {rs : List Record} {front window window' back : Bytes}
    (hbytes : Format.write encoding rs = front ++ window ++ back) (hfront : Format.headerSize ≤ front.length)
    (hfour : window.length ≤ 4) (hlength : window'.length = window.length) (hne : window' ≠ window) :
    Format.read (front ++ window' ++ back) =
      .error (.checksumMismatch (Crc32.checksum ((Format.write encoding rs).drop Format.headerSize)).toNat
        (Crc32.checksum ((front ++ window' ++ back).drop Format.headerSize)).toNat) := by
  have hwrite := @Format.write_eq encoding rs _ rfl
  generalize (Format.upToSentinel rs).flatMap (Format.encodeRecord encoding) = area at hwrite
  have hprefix : front <+: Format.write encoding rs := ⟨window ++ back, by rw [hbytes, List.append_assoc]⟩
  rw [hwrite] at hprefix
  rcases Format.prefix_framed hprefix with hshort | ⟨front, -, rfl⟩
  · exact absurd hfront (Nat.not_le.mpr hshort)
  · simp only [Format.framed_append] at hbytes ⊢
    have harea : area = front ++ window ++ back := by
      have hdrop := congrArg (List.drop Format.headerSize) (hwrite.symm.trans hbytes)
      rwa [Format.drop_framed, Format.drop_framed] at hdrop
    have hchecksum : (Crc32.checksum (front ++ window' ++ back)).toNat ≠ (Crc32.checksum area).toNat := by
      intro hsame
      rw [harea] at hsame
      exact hne (Crc32.eq_of_checksum hlength (hlength ▸ hfour) (UInt32.toNat_inj.mp hsame))
    rw [hwrite, Format.drop_framed, Format.drop_framed, Format.read_framed, Format.checksum_mod, if_pos hchecksum]

/-- The last byte of the code of a package and the length of the next name, which stands behind it, are changed. -/
theorem read_changed_boundary :
    let bytes := Format.write .signedSize [.unit "p" [1, 2, 3, 4] true, .forcedFailure "q", .sentinel]
    bytes = bytes.take 36 ++ [3, 4, 1, 0] ++ bytes.drop 40 ∧ ∃ expected actual,
      Format.read (bytes.take 36 ++ [3, 9, 0, 0] ++ bytes.drop 40) = .error (.checksumMismatch expected actual) := by
  intro bytes
  have hbytes : bytes = bytes.take 36 ++ [3, 4, 1, 0] ++ bytes.drop 40 := by decide +kernel
  exact ⟨hbytes, _, _, read_changed hbytes (by decide +kernel) (by decide) rfl (by decide)⟩

end Launcher.Table
