import Launcher.Proofs.Action
import Launcher.Proofs.Bytes
import Launcher.Table.Format
import Mathlib.Algebra.Group.Int.Defs

/-!
# Reading what was written

The byte form of records, read back, gives the records before the first sentinel, and a complaint where there is
none.
-/

namespace Launcher.Table

/-! ## Records that fit the format -/

/-- A record as the constructors of records make it, from code that is not too large. -/
inductive Record.Made : Record → Prop where
  | unit {name : String} {code : Bytes} {isPackage : Bool} : code.length ≤ maxCodeSize →
      Made (unit name code isPackage)
  | forcedFailure {name : String} : Made (forcedFailure name)
  | sentinel : Made sentinel

/-- The length of the name fits the four bytes that there are for it. -/
def Record.NameFits (r : Record) : Prop := (Bytes.ofString r.name).length < 2 ^ 32

instance (r : Record) : Decidable r.NameFits := inferInstanceAs (Decidable (_ < _))

/-- The size tells how long the code is, and whether it is a package, where the encoding leaves that to it. -/
structure Record.Fits (encoding : Encoding) (r : Record) : Prop where
  name : r.NameFits
  size : -2 ^ 31 ≤ r.size ∧ r.size < 2 ^ 31
  code : ∀ c, r.code = some c → c.length = r.size.natAbs
  package : r.size < 0 → r.isPackage = true
  signed : encoding = .signedSize → r.isPackage = true → r.size < 0

theorem Record.Made.size_fits {r : Record} (h : r.Made) : -2 ^ 31 ≤ r.size ∧ r.size < 2 ^ 31 := by
  cases h with
  | @unit name code isPackage hlen =>
      rw [maxCodeSize] at hlen
      simp only [Record.unit]
      split <;> omega
  | forcedFailure | sentinel => simp [Record.forcedFailure, Record.sentinel]

theorem Record.Made.fits {encoding : Encoding} {r : Record} (h : r.Made) (hname : r.NameFits)
    (hempty : encoding = .signedSize → r.isPackage = true → r.code ≠ some []) : r.Fits encoding := by
  have hsize := h.size_fits
  cases h with
  | @unit name code isPackage hlen =>
      refine ⟨hname, hsize, ?_, ?_, ?_⟩
      · intro c hc
        obtain rfl : code = c := Option.some.inj hc
        simp only [Record.unit]
        split <;> omega
      · intro hneg
        cases isPackage
        · simp only [Record.unit, Bool.false_eq_true, if_false] at hneg; omega
        · rfl
      · intro hsigned hpackage
        obtain rfl : isPackage = true := hpackage
        have hne : code ≠ [] := fun hnil => hempty hsigned rfl (congrArg some hnil)
        have hpos : 0 < code.length := List.length_pos_iff.mpr hne
        simp only [Record.unit, if_true]; omega
  | forcedFailure | sentinel => exact ⟨hname, hsize, nofun, nofun, nofun⟩

namespace Format

/-! ## Numbers -/

theorem take_append (o : Nat) (h t : Bytes) : take h.length ⟨o, h ++ t⟩ = .ok (h, ⟨o + h.length, t⟩) := by
  simp [take, Bytes.takeBytes_append]

theorem takeNat_encodeLE (o k v : Nat) (t : Bytes) :
    takeNat k ⟨o, Bytes.encodeLE k v ++ t⟩ = .ok (v % 256 ^ k, ⟨o + k, t⟩) := by
  have h := take_append o (Bytes.encodeLE k v) t
  rw [Bytes.length_encodeLE] at h
  simp only [takeNat, h, Except.map, Bytes.valueLE_encodeLE]

theorem takeInt_encodeInt (o : Nat) (i : Int) (t : Bytes) :
    takeInt ⟨o, encodeInt i ++ t⟩ = .ok (i.bmod (2 ^ 32), ⟨o + 4, t⟩) := by
  have hfits : (i % 0x100000000).toNat % 256 ^ 4 = (i % 0x100000000).toNat := by omega
  have hsigned : (if (i % 0x100000000).toNat < 0x80000000 then ((i % 0x100000000).toNat : Int)
      else (i % 0x100000000).toNat - 0x100000000) = i.bmod (2 ^ 32) := by
    rw [Int.bmod_def]
    split <;> split <;> omega
  simp only [takeInt, encodeInt, takeNat_encodeLE, Except.map, hfits, hsigned]

/-! ## One record -/

theorem takeNat_byte (o : Nat) (b : UInt8) (t : Bytes) :
    takeNat 1 ⟨o, b :: t⟩ = .ok (b.toNat, ⟨o + 1, t⟩) := rfl

theorem flags_code (encoding : Encoding) (r : Record) :
    (flags encoding r).toNat % 2 = 1 ↔ r.code.isSome = true := by
  unfold flags
  split <;> split <;> simp_all

theorem flags_package (encoding : Encoding) (r : Record) :
    (flags encoding r).toNat / 2 % 2 = 1 ↔ r.isPackage = true ∧ encoding = .packageFlag := by
  unfold flags
  split <;> split <;> simp_all

variable {encoding : Encoding} {r : Record} {rounds : Nat}

theorem packageOf_flags (h : r.Fits encoding) :
    packageOf encoding r.name (flags encoding r).toNat r.size = .ok r.isPackage := by
  have hflag := flags_package encoding r
  cases encoding with
  | signedSize =>
      have hsize : r.size < 0 ↔ r.isPackage = true := ⟨h.package, h.signed rfl⟩
      simp only [packageOf, hsize, Bool.decide_eq_true]
  | packageFlag =>
      simp only [and_true] at hflag
      simp only [packageOf, hflag, Bool.decide_eq_true]
      rw [if_neg fun hbad => hbad.2 (h.package hbad.1)]

theorem takeCode_flags (h : r.Fits encoding) (o : Nat) (t : Bytes) :
    ∃ o', takeCode (flags encoding r).toNat r.size ⟨o, r.code.getD [] ++ t⟩ = .ok (r.code, ⟨o', t⟩) := by
  simp only [takeCode, flags_code]
  cases hc : r.code with
  | none => exact ⟨o, rfl⟩
  | some c =>
      rw [← h.code c hc]
      simp only [Option.isSome_some, if_true, Option.getD_some, take_append, Except.map]
      exact ⟨_, rfl⟩

/-- The bytes of a record are taken off the front. -/
theorem takeRecord_encodeRecord (h : r.Fits encoding) (hs : r.isSentinel = false) (o : Nat) (t : Bytes) :
    ∃ o', takeRecord encoding ⟨o, encodeRecord encoding r ++ t⟩ = .ok (some r, ⟨o', t⟩) := by
  have hname : (Bytes.ofString r.name).length % 256 ^ 4 = (Bytes.ofString r.name).length :=
    Nat.mod_eq_of_lt h.name
  have hsize : r.size.bmod (2 ^ 32) = r.size := Int.bmod_eq_of_le h.size.1 h.size.2
  obtain ⟨o', hcode⟩ := takeCode_flags h (o + 4 + (Bytes.ofString r.name).length + 1 + 4) t
  refine ⟨o', ?_⟩
  rw [Record.isSentinel] at hs
  simp only [takeRecord, encodeRecord, List.append_assoc, List.cons_append, takeNat_encodeLE, hname,
    take_append, Utf8.decode?_ofString, takeNat_byte, takeInt_encodeInt, hsize, hs, hcode, packageOf_flags h,
    Bind.bind, Except.bind, Bool.false_eq_true, if_false]

theorem takeRecord_sentinel (hs : r.isSentinel = true) (o : Nat) (t : Bytes) :
    ∃ o', takeRecord encoding ⟨o, encodeRecord encoding r ++ t⟩ = .ok (none, ⟨o', r.code.getD [] ++ t⟩) := by
  have hname : r.name = "" := by simpa [Record.isSentinel] using hs
  have hlen : (Bytes.ofString r.name).length % 256 ^ 4 = (Bytes.ofString r.name).length := by rw [hname]; rfl
  refine ⟨o + 4 + (Bytes.ofString r.name).length + 1 + 4, ?_⟩
  rw [Record.isSentinel] at hs
  simp only [takeRecord, encodeRecord, List.append_assoc, List.cons_append, takeNat_encodeLE, hlen,
    take_append, Utf8.decode?_ofString, takeNat_byte, takeInt_encodeInt, hs, Bind.bind, Except.bind, if_true]

/-! ## Many records -/

theorem encodeRecord_append_isEmpty (t : Bytes) : (encodeRecord encoding r ++ t).isEmpty = false := by
  simp [encodeRecord]

theorem upToSentinel_cons (r : Record) (rs : List Record) :
    upToSentinel (r :: rs) = if r.isSentinel then [r] else r :: upToSentinel rs := by
  cases hs : r.isSentinel <;> simp [upToSentinel, hs]

theorem takeWhile_of_named {rs : List Record} (h : ∀ r ∈ rs, r.isSentinel = false) :
    (rs ++ [Record.sentinel]).takeWhile (!·.isSentinel) = rs := by
  rw [List.takeWhile_append_of_pos fun r hr => by simp [h r hr]]
  exact List.append_nil _

theorem upToSentinel_of_named {rs : List Record} (h : ∀ r ∈ rs, r.isSentinel = false) :
    upToSentinel (rs ++ [Record.sentinel]) = rs ++ [Record.sentinel] := by
  induction rs with
  | nil => rfl
  | cons r rs ih =>
      obtain ⟨hr, hrs⟩ := List.forall_mem_cons.mp h
      rw [List.cons_append, upToSentinel_cons, hr, if_neg Bool.false_ne_true, ih hrs]

theorem any_isSentinel_concat (rs : List Record) : (rs ++ [Record.sentinel]).any (·.isSentinel) = true := by
  rw [List.any_append]
  exact Bool.or_true _

/-- The records up to the first sentinel are read as they were written, whatever follows the sentinel. -/
theorem takeRecords_upToSentinel {rs : List Record} (hrs : ∀ r ∈ rs.takeWhile (!·.isSentinel), r.Fits encoding)
    (hrounds : (upToSentinel rs).length ≤ rounds) {tail : Bytes} (htail : rs.any (·.isSentinel) = false → tail = [])
    (o : Nat) :
    takeRecords encoding rounds ⟨o, (upToSentinel rs).flatMap (encodeRecord encoding) ++ tail⟩ =
      if rs.any (·.isSentinel) then .ok (rs.takeWhile (!·.isSentinel)) else .error .missingSentinel := by
  induction rs generalizing rounds o with
  | nil =>
      obtain rfl := htail rfl
      cases rounds <;> rfl
  | cons r rs ih =>
      rw [upToSentinel_cons] at hrounds ⊢
      cases rounds with
      | zero => split at hrounds <;> simp at hrounds
      | succ rounds =>
          cases hs : r.isSentinel with
          | true =>
              obtain ⟨o', hp⟩ := @takeRecord_sentinel encoding r hs o tail
              have hbytes := @encodeRecord_append_isEmpty encoding r tail
              rw [if_pos rfl, List.flatMap_cons, List.flatMap_nil, List.append_nil, takeRecords, hbytes, hp]
              simp [hs, Bind.bind, Except.bind]
          | false =>
              have hr : r.Fits encoding := hrs r (by simp [hs])
              have hrest : ∀ r ∈ rs.takeWhile (!·.isSentinel), r.Fits encoding := fun r' hr' =>
                hrs r' (by simp [hs, hr'])
              have hlen : (upToSentinel rs).length ≤ rounds := by
                simpa [hs] using hrounds
              have hbehind : rs.any (·.isSentinel) = false → tail = [] := fun h =>
                htail (by rw [List.any_cons, hs, h]; rfl)
              obtain ⟨o', hp⟩ := takeRecord_encodeRecord hr hs o
                ((upToSentinel rs).flatMap (encodeRecord encoding) ++ tail)
              rw [if_neg (by simp), List.flatMap_cons, List.append_assoc, takeRecords, encodeRecord_append_isEmpty, hp]
              simp only [Bind.bind, Except.bind, ih hrest hlen hbehind o', Bool.false_eq_true, if_false]
              rw [List.any_cons, hs, Bool.false_or, List.takeWhile_cons, hs]
              cases rs.any (·.isSentinel) <;> rfl

/-! ## Whole tables -/

theorem ofNumber?_number (encoding : Encoding) : Encoding.ofNumber? encoding.number = some encoding := by
  cases encoding <;> rfl

theorem length_upToSentinel_le (rs : List Record) :
    (upToSentinel rs).length ≤ ((upToSentinel rs).flatMap (encodeRecord encoding)).length := by
  induction upToSentinel rs with
  | nil => exact Nat.le_refl _
  | cons r rs ih =>
      rw [List.flatMap_cons, List.length_append, List.length_cons]
      have hpos : 0 < (encodeRecord encoding r).length := by
        simp only [encodeRecord, List.length_append, Bytes.length_encodeLE]; omega
      omega

theorem checksum_mod (bs : Bytes) : (Crc32.checksum bs).toNat % 256 ^ 4 = (Crc32.checksum bs).toNat :=
  Nat.mod_eq_of_lt (Crc32.checksum bs).toNat_lt

/-- A header, and behind it the area of the records. -/
def framed (encoding : Encoding) (count checksum : Nat) (area : Bytes) : Bytes :=
  magic ++ (Bytes.encodeLE 4 version ++ (Bytes.encodeLE 4 encoding.number ++ (Bytes.encodeLE 4 count ++
    (Bytes.encodeLE 4 checksum ++ area))))

theorem drop_framed (count checksum : Nat) (area : Bytes) :
    (framed encoding count checksum area).drop headerSize = area := rfl

theorem framed_append (count checksum : Nat) (area tail : Bytes) :
    framed encoding count checksum area ++ tail = framed encoding count checksum (area ++ tail) := by
  simp only [framed, List.append_assoc]

/-- Behind a sound header the checksum decides whether the records are looked at. -/
theorem read_framed (encoding : Encoding) (count checksum : Nat) (area : Bytes) :
    read (framed encoding count checksum area) =
      if (Crc32.checksum area).toNat ≠ checksum % 256 ^ 4 then
        .error (.checksumMismatch (checksum % 256 ^ 4) (Crc32.checksum area).toNat)
      else
        takeRecords encoding (framed encoding count checksum area).length ⟨headerSize, area⟩ >>= fun rs =>
          if rs.length % 0x100000000 ≠ count % 256 ^ 4 then
            .error (.entryCountMismatch (count % 256 ^ 4) (rs.length % 0x100000000))
          else .ok (encoding, rs) := by
  have hversion : version % 256 ^ 4 = version := rfl
  have hnumber : encoding.number % 256 ^ 4 = encoding.number := by cases encoding <;> rfl
  have hlong : ¬(framed encoding count checksum area).length < headerSize := by
    simp only [framed, List.length_append, Bytes.length_encodeLE, headerSize, magic, List.length_cons]; omega
  have hmagic : (framed encoding count checksum area).take 8 = magic := rfl
  have hfields : (framed encoding count checksum area).drop 8 =
      Bytes.encodeLE 4 version ++ (Bytes.encodeLE 4 encoding.number ++ (Bytes.encodeLE 4 count ++
        (Bytes.encodeLE 4 checksum ++ area))) := rfl
  unfold read
  rw [if_neg hlong, if_neg fun h => h hmagic, hfields, drop_framed]
  simp only [takeNat_encodeLE, Bind.bind, Except.bind, hversion, hnumber, ofNumber?_number, ne_eq, not_true, if_false]
  rfl

/-- The parts of a byte form. -/
theorem write_eq {rs : List Record} {body : Bytes}
    (hbody : (upToSentinel rs).flatMap (encodeRecord encoding) = body) :
    write encoding rs =
      framed encoding (rs.takeWhile (!·.isSentinel)).length (Crc32.checksum body).toNat body := by
  simp only [write, framed, hbody, List.append_assoc]

/-- Whatever follows the sentinel, it is read only where it does not change the checksum, and then it is passed over. -/
theorem read_write_append {rs : List Record} (hrs : ∀ r ∈ rs.takeWhile (!·.isSentinel), r.Fits encoding) {tail : Bytes}
    (htail : rs.any (·.isSentinel) = false → tail = [])
    (hcrc : Crc32.checksum ((write encoding rs).drop headerSize ++ tail) =
      Crc32.checksum ((write encoding rs).drop headerSize)) :
    read (write encoding rs ++ tail) =
      if rs.any (·.isSentinel) then .ok (encoding, rs.takeWhile (!·.isSentinel))
      else .error .missingSentinel := by
  have hrounds : (upToSentinel rs).length ≤ (write encoding rs ++ tail).length := by
    have hlen := @length_upToSentinel_le encoding rs
    simp only [write_eq rfl, framed, List.length_append]; omega
  have htable := takeRecords_upToSentinel hrs hrounds htail headerSize
  generalize hbody : (upToSentinel rs).flatMap (encodeRecord encoding) = body at htable
  rw [write_eq hbody, drop_framed] at hcrc
  rw [write_eq hbody, framed_append] at htable ⊢
  rw [read_framed, htable, hcrc, checksum_mod, if_neg fun h => h rfl]
  cases rs.any (·.isSentinel) with
  | true => exact if_neg fun h => h rfl
  | false => rfl

/-- The records before the first sentinel are read as they were written; a list without a sentinel is refused. -/
theorem read_write {rs : List Record} (hrs : ∀ r ∈ rs.takeWhile (!·.isSentinel), r.Fits encoding) :
    read (write encoding rs) =
      if rs.any (·.isSentinel) then .ok (encoding, rs.takeWhile (!·.isSentinel))
      else .error .missingSentinel := by
  have h := read_write_append hrs (fun _ => rfl) (congrArg Crc32.checksum (List.append_nil _))
  rwa [List.append_nil] at h

/-! ## What is read -/

theorem length_of_take {n : Nat} {p p' : Place} {bs : Bytes} (h : take n p = .ok (bs, p')) : bs.length = n := by
  unfold take at h
  split at h
  · rename_i hbytes
    cases h; exact Bytes.length_of_takeBytes hbytes
  · cases h

theorem takeNat_lt {n v : Nat} {p p' : Place} (h : takeNat n p = .ok (v, p')) : v < 256 ^ n := by
  unfold takeNat at h
  rcases htake : take n p with _ | ⟨bs, p₁⟩
  · rw [htake] at h; cases h
  · rw [htake] at h
    cases h
    rw [← length_of_take htake]
    exact Bytes.valueLE_lt bs

theorem takeInt_bounds {p p' : Place} {i : Int} (h : takeInt p = .ok (i, p')) : -2 ^ 31 ≤ i ∧ i < 2 ^ 31 := by
  unfold takeInt at h
  rcases hnat : takeNat 4 p with _ | ⟨n, p₁⟩
  · rw [hnat] at h; cases h
  · rw [hnat] at h
    cases h
    have hlt := takeNat_lt hnat
    split <;> omega

theorem length_of_takeCode {flags : Nat} {size : Int} {p p' : Place} {code : Option Bytes}
    (h : takeCode flags size p = .ok (code, p')) : ∀ c, code = some c → c.length = size.natAbs := by
  unfold takeCode at h
  split at h
  · rcases htake : take size.natAbs p with _ | ⟨bs, p₁⟩
    · rw [htake] at h; cases h
    · rw [htake] at h
      cases h
      rintro c ⟨⟩
      exact length_of_take htake
  · cases h; exact nofun

/-- A negative size is that of a package, and where there is no flag nothing else is. -/
theorem sign_of_packageOf {name : String} {flags : Nat} {size : Int} {isPackage : Bool}
    (h : packageOf encoding name flags size = .ok isPackage) :
    (size < 0 → isPackage = true) ∧ (encoding = .signedSize → isPackage = true → size < 0) := by
  cases encoding with
  | signedSize =>
      cases h
      exact ⟨fun hneg => decide_eq_true hneg, fun _ hpackage => of_decide_eq_true hpackage⟩
  | packageFlag =>
      simp only [packageOf] at h
      split at h
      · cases h
      · rename_i hflag
        cases h
        exact ⟨fun hneg => decide_eq_true (Decidable.not_not.mp fun hn => hflag ⟨hneg, hn⟩), nofun⟩

/-- A record that is taken off has a name, and it fits. -/
theorem fits_of_takeRecord {p p' : Place} (h : takeRecord encoding p = .ok (some r, p')) :
    r.isSentinel = false ∧ r.Fits encoding := by
  obtain ⟨⟨length, p₁⟩, hlength, h⟩ := except_bind_eq_ok.mp h
  obtain ⟨⟨bytes, p₂⟩, hbytes, h⟩ := except_bind_eq_ok.mp h
  dsimp only at h
  split at h
  · cases h
  · rename_i name hname
    obtain ⟨⟨flags, p₃⟩, _, h⟩ := except_bind_eq_ok.mp h
    obtain ⟨⟨size, p₄⟩, hsize, h⟩ := except_bind_eq_ok.mp h
    dsimp only at h
    split at h
    · cases h
    · rename_i hnamed
      obtain ⟨⟨code, p₅⟩, hcode, h⟩ := except_bind_eq_ok.mp h
      obtain ⟨isPackage, hpackage, h⟩ := except_bind_eq_ok.mp h
      cases h
      have hsign := sign_of_packageOf hpackage
      refine ⟨Bool.eq_false_iff.mpr hnamed, ⟨?_, takeInt_bounds hsize, length_of_takeCode hcode, hsign.1, hsign.2⟩⟩
      rw [Record.NameFits, Bytes.ofString_of_decode? hname, length_of_take hbytes]
      exact takeNat_lt hlength

theorem fits_of_takeRecords {rs : List Record} {p : Place} (h : takeRecords encoding rounds p = .ok rs) :
    ∀ r ∈ rs, r.isSentinel = false ∧ r.Fits encoding := by
  induction rounds generalizing p rs with
  | zero => cases h
  | succ rounds ih =>
      unfold takeRecords at h
      split at h
      · cases h
      · obtain ⟨⟨found, p'⟩, hrecord, h⟩ := except_bind_eq_ok.mp h
        cases found with
        | none => cases h; exact nofun
        | some r =>
            obtain ⟨more, hmore, h⟩ := except_bind_eq_ok.mp h
            cases h
            exact List.forall_mem_cons.mpr ⟨fits_of_takeRecord hrecord, ih hmore⟩

theorem fits_of_read {bs : Bytes} {rs : List Record} (h : read bs = .ok (encoding, rs)) :
    ∀ r ∈ rs, r.isSentinel = false ∧ r.Fits encoding := by
  unfold read at h
  split at h
  · cases h
  split at h
  · cases h
  obtain ⟨⟨_, p₁⟩, _, h⟩ := except_bind_eq_ok.mp h
  dsimp only at h
  split at h
  · cases h
  obtain ⟨⟨_, p₂⟩, _, h⟩ := except_bind_eq_ok.mp h
  dsimp only at h
  split at h
  · cases h
  obtain ⟨⟨_, p₃⟩, _, h⟩ := except_bind_eq_ok.mp h
  obtain ⟨⟨_, p₄⟩, _, h⟩ := except_bind_eq_ok.mp h
  dsimp only at h
  split at h
  · cases h
  obtain ⟨rs', hrs, h⟩ := except_bind_eq_ok.mp h
  split at h
  · cases h
  · cases h; exact fits_of_takeRecords hrs

end Format

/-- Records from their constructors, read back from their byte form. -/
theorem read_write_made (encoding : Encoding) (rs : List Record) (hmade : ∀ r ∈ rs, r.Made)
    (hnames : ∀ r ∈ rs, r.NameFits)
    (hempty : encoding = .signedSize → ∀ r ∈ rs.takeWhile (!·.isSentinel), r.isPackage = true →
      r.code ≠ some []) :
    Format.read (Format.write encoding rs) =
      if rs.any (·.isSentinel) then .ok (encoding, rs.takeWhile (!·.isSentinel))
      else .error .missingSentinel := by
  refine Format.read_write fun r hr => ?_
  have hmem : r ∈ rs := (List.takeWhile_sublist _).mem hr
  exact (hmade r hmem).fits (hnames r hmem) fun hsigned => hempty hsigned r hr

/-- A list in which a name comes twice, and again behind the sentinel. -/
theorem read_write_made_repeated :
    Format.read (Format.write .signedSize [.unit "a" [1, 2] true, .forcedFailure "b", .unit "a" [] false,
        .sentinel, .unit "a" [] true]) =
      .ok (.signedSize, [.unit "a" [1, 2] true, .forcedFailure "b", .unit "a" [] false]) :=
  read_write_made .signedSize [.unit "a" [1, 2] true, .forcedFailure "b", .unit "a" [] false, .sentinel,
      .unit "a" [] true]
    (by
      simp only [List.forall_mem_cons]
      exact ⟨.unit (by decide), .forcedFailure, .unit (by decide), .sentinel, .unit (by decide), nofun⟩)
    (by decide) (by decide)

end Launcher.Table
