import Launcher.Proofs.Bytes
import Launcher.Zip.Archive
import Launcher.Zip.Writer
import Mathlib.Data.List.Nodup

/-!
# Reading an archive that was written

An archive that was written behind other bytes is found there, and each of its members reads back, as long as the
numbers that describe it fit the fields of the headers.
-/

namespace Launcher.Zip

/-! ## Records and their fields -/

section

variable {k i v size : Nat} {xs ys r bytes signature : Bytes}

/-- A field lies behind what stands in front of the rest of a record. -/
theorem field_append (h : xs.length ≤ i) : field (xs ++ ys) i k = field ys (i - xs.length) k := by
  rw [field, field, List.drop_append, List.drop_eq_nil_of_le h, List.nil_append]

theorem field_encodeLE_append : field (Bytes.encodeLE k v ++ ys) 0 k = v % 256 ^ k := by
  have htake : (Bytes.encodeLE k v ++ ys).take k = Bytes.encodeLE k v :=
    List.take_left' (Bytes.length_encodeLE k v)
  rw [field, List.drop_zero, htake, Bytes.valueLE_encodeLE]

theorem field_encodeLE : field (Bytes.encodeLE k v) 0 k = v % 256 ^ k := by
  have h := @field_encodeLE_append k v []
  rwa [List.append_nil] at h

/-- A record is found where it stands. -/
theorem recordAt?_eq (hbytes : bytes = xs ++ (r ++ ys)) (hsize : r.length = size)
    (hsignature : startsWith r signature = true) : recordAt? bytes signature size xs.length = some r := by
  have htake : (bytes.drop xs.length).take size = r := by
    rw [hbytes, List.drop_left, List.take_left' hsize]
  rw [recordAt?, htake, if_pos ⟨hsize, hsignature⟩]

/-- At the end there is no room for a record. -/
theorem recordAt?_eq_none {place : Nat} (h : bytes.length - place < size) :
    recordAt? bytes signature size place = none := by
  have hshort : ((bytes.drop place).take size).length ≠ size := by
    rw [List.length_take, List.length_drop]
    omega
  rw [recordAt?, if_neg fun hr => hshort hr.1]

theorem startsWith_append : startsWith (signature ++ ys) signature = true :=
  List.isPrefixOf_iff_prefix.mpr (List.prefix_append signature ys)

end

/-! ## The layout of an archive -/

/-- The members one behind the other, each with its header. -/
def body (members : List (String × Bytes)) : Bytes :=
  members.flatMap fun (name, content) => encodeMember name content

/-- The part of a member that stands in front of its name. -/
def localHeader (name : String) (content : Bytes) : Bytes :=
  localSignature ++ commonFields (Bytes.ofString name) content

/-- The part of a directory entry that stands in front of the name. -/
def entryHeader (offset : Nat) (name : String) (content : Bytes) : Bytes :=
  centralSignature ++ Bytes.encodeLE 2 20 ++ commonFields (Bytes.ofString name) content ++ Bytes.encodeLE 2 0 ++
    Bytes.encodeLE 2 0 ++ Bytes.encodeLE 2 0 ++ Bytes.encodeLE 4 0 ++ Bytes.encodeLE 4 offset

/-- The record at the end: how many members there are, and the size and the place of the directory. -/
def endRecord (count size start : Nat) : Bytes :=
  endSignature ++ Bytes.encodeLE 2 0 ++ Bytes.encodeLE 2 0 ++ Bytes.encodeLE 2 count ++ Bytes.encodeLE 2 count ++
    Bytes.encodeLE 4 size ++ Bytes.encodeLE 4 start ++ Bytes.encodeLE 2 0

variable {front before rest : Bytes} {members : List (String × Bytes)} {name : String} {content : Bytes}
  {offset : Nat}

theorem encodeMember_eq : encodeMember name content = localHeader name content ++ (Bytes.ofString name ++ content) := by
  simp only [encodeMember, localHeader, List.append_assoc]

theorem encodeEntry_eq : encodeEntry offset name content = entryHeader offset name content ++ Bytes.ofString name := rfl

theorem append_eq : append front members = front ++ body members ++ (encodeDirectory front.length members ++
    endRecord members.length (encodeDirectory front.length members).length (front.length + (body members).length)) := by
  simp only [append, endRecord, body, List.append_assoc]

@[simp] theorem body_cons : body ((name, content) :: members) = encodeMember name content ++ body members := rfl

theorem body_append (xs ys : List (String × Bytes)) : body (xs ++ ys) = body xs ++ body ys := List.flatMap_append

theorem length_localHeader : (localHeader name content).length = 30 := by
  simp [localHeader, commonFields, localSignature]

theorem length_entryHeader : (entryHeader offset name content).length = 46 := by
  simp [entryHeader, commonFields, centralSignature]

theorem length_endRecord {count size start : Nat} : (endRecord count size start).length = 22 := by
  simp [endRecord, endSignature]

theorem length_encodeMember :
    (encodeMember name content).length = 30 + (Bytes.ofString name).length + content.length := by
  rw [encodeMember_eq, List.length_append, List.length_append, length_localHeader, Nat.add_assoc]

/-! ### The numbers in the headers -/

theorem fields_localHeader (hname : (Bytes.ofString name).length < 2 ^ 16) :
    field (localHeader name content) 26 2 = (Bytes.ofString name).length ∧
      field (localHeader name content) 28 2 = 0 := by
  have hsignature : localSignature.length = 4 := rfl
  simp [localHeader, commonFields, hsignature, field_append, field_encodeLE_append, field_encodeLE]
  omega

theorem fields_entryHeader (hname : (Bytes.ofString name).length < 2 ^ 16) (hcontent : content.length < 2 ^ 32)
    (hoffset : offset < 2 ^ 32) : field (entryHeader offset name content) 8 2 = 0x800 ∧
      field (entryHeader offset name content) 10 2 = 0 ∧
      field (entryHeader offset name content) 16 4 = (Crc32.checksum content).toNat ∧
      field (entryHeader offset name content) 20 4 = content.length ∧
      field (entryHeader offset name content) 24 4 = content.length ∧
      field (entryHeader offset name content) 28 2 = (Bytes.ofString name).length ∧
      field (entryHeader offset name content) 30 2 = 0 ∧ field (entryHeader offset name content) 32 2 = 0 ∧
      field (entryHeader offset name content) 42 4 = offset := by
  have hsignature : centralSignature.length = 4 := rfl
  have hchecksum : (Crc32.checksum content).toNat < 2 ^ 32 := (Crc32.checksum content).toNat_lt
  simp [entryHeader, commonFields, hsignature, field_append, field_encodeLE_append, field_encodeLE]
  omega

theorem fields_endRecord {count size start : Nat} (hcount : count < 2 ^ 16) (hstart : start < 2 ^ 32) :
    field (endRecord count size start) 4 2 = 0 ∧ field (endRecord count size start) 6 2 = 0 ∧
      field (endRecord count size start) 8 2 = count ∧ field (endRecord count size start) 10 2 = count ∧
      field (endRecord count size start) 16 4 = start ∧ field (endRecord count size start) 20 2 = 0 := by
  have hsignature : endSignature.length = 4 := rfl
  simp [endRecord, hsignature, field_append, field_encodeLE_append, field_encodeLE]
  omega

/-- The numbers of an archive fit the fields that they are written to, and none of them says that it stands in
another place. -/
structure Fits (front : Bytes) (members : List (String × Bytes)) : Prop where
  names : ∀ p ∈ members, (Bytes.ofString p.1).length < 2 ^ 16
  count : members.length < 0xFFFF
  size : front.length + (body members).length < 0xFFFFFFFF

/-! ## Members that are described -/

/-- A member as it is described by the entry that is written for it. -/
def described (offset : Nat) (name : String) (content : Bytes) : Member where
  name := name
  rawName := Bytes.ofString name
  comment := ""
  encrypted := false
  method := 0
  checksum := (Crc32.checksum content).toNat
  size := content.length
  compressedSize := content.length
  header := offset

/-- Members that stand one behind the other, as the entries say that are written for them. -/
def describedFrom (offset : Nat) : List (String × Bytes) → List Member
  | [] => []
  | (name, content) :: members =>
    described offset name content :: describedFrom (offset + (encodeMember name content).length) members

theorem names_describedFrom : (describedFrom offset members).map (·.name) = members.map Prod.fst := by
  induction members generalizing offset with
  | nil => rfl
  | cons p members ih => simp [describedFrom, described, ih]

/-- An entry is read as the member that it was written for. -/
theorem memberAt?_encodeEntry {bytes : Bytes} {x : Extent} (hbase : x.base = 0)
    (hbytes : bytes = before ++ (encodeEntry offset name content ++ rest))
    (hname : (Bytes.ofString name).length < 2 ^ 16) (hoffset : offset < x.start)
    (hcontent : content.length ≤ x.start) (hstart : x.start < 2 ^ 32) :
    memberAt? bytes x before.length =
      some (described offset name content, before.length + (encodeEntry offset name content).length) := by
  have hrecord : recordAt? bytes centralSignature 46 before.length = some (entryHeader offset name content) := by
    have hsplit : bytes = before ++ (entryHeader offset name content ++ (Bytes.ofString name ++ rest)) := by
      rw [hbytes, encodeEntry_eq, List.append_assoc]
    refine recordAt?_eq hsplit length_entryHeader ?_
    simp only [entryHeader, List.append_assoc, startsWith_append]
  have hrest : bytes.drop (before.length + 46) = Bytes.ofString name ++ rest := by
    rw [hbytes, encodeEntry_eq, List.append_assoc, ← @length_entryHeader name content offset,
      ← List.length_append, ← List.append_assoc, List.drop_left]
  obtain ⟨hflags, hmethod, hcrc, hpacked, hsize, hlength, hextra, hcomment, hheader⟩ :=
    @fields_entryHeader name content offset hname (by omega) (by omega)
  have hutf8 : Nat.testBit 0x800 11 = true := by decide
  have htext : legacyText true (Bytes.ofString name) = name := Utf8.decodeLossy_ofString name
  have hempty : legacyText true [] = "" := Utf8.decodeLossy_ofString ""
  have hnoExtra : (described offset name content).corrected? [] = some (described offset name content) := rfl
  rw [described] at hnoExtra
  have hplace : ¬x.start ≤ offset := Nat.not_le.mpr hoffset
  simp [memberAt?, hrecord, hflags, hmethod, hcrc, hpacked, hsize, hlength, hextra, hcomment, hheader, hrest,
    Bytes.takeBytes_append, Bytes.takeBytes, hutf8, htext, hempty, hnoExtra, aesMethod, hbase, hplace, described,
    encodeEntry_eq, length_entryHeader, Nat.add_assoc]

/-- The entries of a directory are read as the members that they were written for. -/
theorem membersFrom?_encodeDirectory {bytes : Bytes} {x : Extent} (hbase : x.base = 0) (hstart : x.start < 2 ^ 32)
    (hbytes : bytes = before ++ (encodeDirectory offset members ++ rest))
    (hnames : ∀ p ∈ members, (Bytes.ofString p.1).length < 2 ^ 16) (hroom : offset + (body members).length ≤ x.start) :
    membersFrom? bytes x members.length before.length = some (describedFrom offset members) := by
  induction members generalizing offset before with
  | nil => rfl
  | cons p members ih =>
      obtain ⟨name, content⟩ := p
      obtain ⟨hname, hnames⟩ := List.forall_mem_cons.mp hnames
      rw [body_cons, List.length_append] at hroom
      have hlength := @length_encodeMember name content
      have hbytes' : bytes = before ++ (encodeEntry offset name content ++
          (encodeDirectory (offset + (encodeMember name content).length) members ++ rest)) := by
        rw [hbytes, encodeDirectory, List.append_assoc]
      have hmember := memberAt?_encodeEntry hbase hbytes' hname (by omega) (by omega) hstart
      have hrest := @ih (before ++ encodeEntry offset name content) (offset + (encodeMember name content).length)
        (by rw [hbytes', List.append_assoc]) hnames (by omega)
      rw [List.length_append] at hrest
      simp only [List.length_cons, membersFrom?, hmember, Option.bind_eq_bind, Option.bind_some, hrest, describedFrom]

/-! ## The end of an archive -/

theorem startsWith_encodeDirectory (hmembers : members ≠ []) :
    startsWith (encodeDirectory offset members) centralSignature = true := by
  obtain ⟨⟨name, content⟩, members, rfl⟩ := List.exists_cons_of_ne_nil hmembers
  simp only [encodeDirectory, encodeEntry, List.append_assoc, startsWith_append]

theorem firstAt?_of_startsWith {α : Type} {signature rest : Bytes} {f : Nat → Option α} {place : Nat} {a : α}
    (hrest : rest ≠ []) (h : startsWith rest signature = true) (ha : f place = some a) :
    firstAt? signature f rest place = some a := by
  obtain ⟨b, rest, rfl⟩ := List.exists_cons_of_ne_nil hrest
  rw [firstAt?, if_pos h, ha, Option.some_or]

theorem encodeDirectory_ne_nil (hmembers : members ≠ []) : encodeDirectory offset members ≠ [] := by
  intro h
  have hstart := @startsWith_encodeDirectory members offset hmembers
  rw [h] at hstart
  cases hstart

/-- The directory begins where the end record says, with nothing in front of the archive. -/
theorem narrowExtent?_append {r : Bytes} {start place : Nat} (hstart : start = front.length + (body members).length)
    (hplace : place = start + (encodeDirectory front.length members).length) (hdisk : field r 4 2 = field r 6 2)
    (hcount : field r 8 2 = members.length) (htotal : field r 10 2 = members.length) (hoffset : field r 16 4 = start) :
    narrowExtent? (append front members) r place = some ⟨0, start, members.length⟩ := by
  cases members with
  | nil =>
      have hbase : place - start = 0 := by simp [hplace, encodeDirectory]
      simp [narrowExtent?, htotal, hoffset, hbase, undivided?, hdisk, hcount]
  | cons p members =>
      have hne := List.cons_ne_nil p members
      have hpos : 0 < (encodeDirectory front.length (p :: members)).length :=
        List.length_pos_of_ne_nil (encodeDirectory_ne_nil hne)
      have hdirectory : ((append front (p :: members)).drop start).take (place - start) =
          encodeDirectory front.length (p :: members) := by
        rw [append_eq, hplace, Nat.add_sub_cancel_left, hstart, ← List.length_append, List.drop_left, List.take_left]
      have hfirst : firstBetween? (append front (p :: members)) centralSignature start place
          (fun p => some (p - start)) = some 0 := by
        rw [firstBetween?, hdirectory]
        exact firstAt?_of_startsWith (encodeDirectory_ne_nil hne) (startsWith_encodeDirectory hne) (by simp)
      have hbehind : ¬place ≤ start := by omega
      simp [narrowExtent?, htotal, hoffset, hbehind, hfirst, undivided?, hdisk, hcount]

/-- The end record that was written leads to the directory. -/
theorem extentAt?_append (h : Fits front members) {start place : Nat}
    (hstart : start = front.length + (body members).length)
    (hplace : place = start + (encodeDirectory front.length members).length) :
    extentAt? (append front members) place = some ⟨0, start, members.length⟩ := by
  generalize hr : endRecord members.length (encodeDirectory front.length members).length start = r
  have hbytes : append front members =
      front ++ body members ++ encodeDirectory front.length members ++ (r ++ []) := by
    rw [append_eq, ← hr, hstart, List.append_nil, ← List.append_assoc]
  have hbefore : place = (front ++ body members ++ encodeDirectory front.length members).length := by
    rw [hplace, hstart, List.length_append, List.length_append]
  have hrecord : recordAt? (append front members) endSignature 22 place = some r := by
    rw [hbefore]
    refine recordAt?_eq hbytes ?_ ?_
    · rw [← hr, length_endRecord]
    · rw [← hr]
      simp only [endRecord, List.append_assoc, startsWith_append]
  have hsize := h.size
  have hcount := h.count
  have hfields := @fields_endRecord members.length (encodeDirectory front.length members).length start (by omega)
    (by omega)
  rw [hr] at hfields
  obtain ⟨hdisk, hdirectoryDisk, hhere, htotal, hoffset, hcomment⟩ := hfields
  have hlength : ¬(append front members).length < place + 22 := by
    have hr22 : r.length = 22 := by rw [← hr, length_endRecord]
    rw [hbytes, List.append_nil, List.length_append, ← hbefore, hr22]
    exact Nat.lt_irrefl _
  have hwide : ¬(members.length = 0xFFFF ∨ start = 0xFFFFFFFF) := by omega
  have hnarrow := narrowExtent?_append hstart hplace (hdisk.trans hdirectoryDisk.symm) hhere htotal hoffset
  simp [extentAt?, hrecord, hcomment, hlength, htotal, hoffset, hwide, hnarrow]

/-! ## The archive -/

theorem lastAt?_append {α : Type} (f : Nat → Option α) (best : Option α) (xs ys : Bytes) (place : Nat) :
    ∃ best', lastAt? f best (xs ++ ys) place = lastAt? f best' ys (place + xs.length) := by
  induction xs generalizing best place with
  | nil => exact ⟨best, rfl⟩
  | cons b xs ih =>
      obtain ⟨best', h⟩ := ih _ (place + 1)
      refine ⟨best', h.trans ?_⟩
      rw [List.length_cons, Nat.add_right_comm, Nat.add_assoc]

theorem lastAt?_of_none {α : Type} {f : Nat → Option α} {best : Option α} {rest : Bytes} {place : Nat}
    (h : ∀ p, place ≤ p → f p = none) : lastAt? f best rest place = best := by
  induction rest generalizing place with
  | nil => rfl
  | cons b rest ih =>
      have hnone : (if startsWith (b :: rest) endSignature then f place else none) = none := by
        rw [h place (Nat.le_refl place), ite_self]
      rw [lastAt?, hnone, Option.none_or]
      exact ih fun p hp => h p (by omega)

/-- The last answer that counts is the one behind which there are no others. -/
theorem lastAt?_of_last {α : Type} {f : Nat → Option α} {best : Option α} {rest : Bytes} {place : Nat} {a : α}
    (hrest : startsWith rest endSignature = true) (ha : f place = some a) (h : ∀ p, place + 1 ≤ p → f p = none) :
    lastAt? f best rest place = some a := by
  cases rest with
  | nil => cases hrest
  | cons b rest => rw [lastAt?, if_pos hrest, ha, Option.some_or, lastAt?_of_none h]

/-- The members that were written are those that are read. -/
theorem directory?_append (h : Fits front members) :
    directory? (append front members) = some (describedFrom front.length members) := by
  obtain ⟨start, hstart⟩ : ∃ start, start = front.length + (body members).length := ⟨_, rfl⟩
  obtain ⟨place, hplace⟩ : ∃ place, place = start + (encodeDirectory front.length members).length := ⟨_, rfl⟩
  have hsize := h.size
  have hhere : membersAt? (append front members) place = some (describedFrom front.length members) := by
    have hread := @membersFrom?_encodeDirectory (front ++ body members) _ members front.length
      (append front members) ⟨0, start, members.length⟩ rfl (show start < 2 ^ 32 by omega) append_eq h.names
      (Nat.le_of_eq hstart.symm)
    rw [List.length_append, ← hstart] at hread
    simp only [membersAt?, extentAt?_append h hstart hplace, Option.bind_eq_bind, Option.bind_some, hread]
  -- Behind the end record there is no room for another one.
  have hbehind : ∀ p, place + 1 ≤ p → membersAt? (append front members) p = none := by
    intro p hp
    have hshort : (append front members).length - p < 22 := by
      rw [append_eq]
      simp only [List.length_append, length_endRecord]
      omega
    simp only [membersAt?, extentAt?, recordAt?_eq_none hshort, Option.bind_eq_bind, Option.bind_none]
  have hend : startsWith (endRecord members.length (encodeDirectory front.length members).length start)
      endSignature = true := by
    simp only [endRecord, List.append_assoc, startsWith_append]
  have hthere : 0 + (front ++ body members ++ encodeDirectory front.length members).length = place := by
    rw [hplace, hstart, List.length_append, List.length_append, Nat.zero_add]
  obtain ⟨best, hlast⟩ := lastAt?_append (membersAt? (append front members)) none
    (front ++ body members ++ encodeDirectory front.length members)
    (endRecord members.length (encodeDirectory front.length members).length start) 0
  rw [hthere, lastAt?_of_last hend hhere hbehind, hstart, List.append_assoc, ← append_eq] at hlast
  exact hlast

/-! ## The content of the members -/

namespace Archive

variable {bytes : Bytes} {a : Archive}

/-- The content of a member stands behind its header. -/
theorem content_described (hbytes : a.bytes = before ++ (encodeMember name content ++ rest))
    (hname : (Bytes.ofString name).length < 2 ^ 16) :
    a.content (described before.length name content) = .ok content := by
  have hrecord : recordAt? a.bytes localSignature 30 before.length = some (localHeader name content) := by
    have hsplit : a.bytes = before ++ (localHeader name content ++ (Bytes.ofString name ++ content ++ rest)) := by
      rw [hbytes, encodeMember_eq, List.append_assoc]
    refine recordAt?_eq hsplit length_localHeader ?_
    simp only [localHeader, startsWith_append]
  have hfields := @fields_localHeader name content hname
  have hbehind : a.bytes.drop (before.length + 30 + (Bytes.ofString name).length + 0) = content ++ rest := by
    have hsplit : a.bytes = before ++ localHeader name content ++ Bytes.ofString name ++ (content ++ rest) := by
      rw [hbytes, encodeMember_eq]
      simp only [List.append_assoc]
    rw [hsplit, Nat.add_zero, ← @length_localHeader name content, ← List.length_append, ← List.length_append,
      List.drop_left]
  have hraw : a.raw (described before.length name content) = .ok content := by
    simp only [raw, described, hrecord, hfields, hbehind, List.take_left]
  have hstored : (described before.length name content).method = 0 := rfl
  have hplain : (described before.length name content).encrypted = false := rfl
  have hopen : (described before.length name content).sealed = false := rfl
  have hchecksum : (described before.length name content).checksum = (Crc32.checksum content).toNat := rfl
  have hexpand : expand (described before.length name content) content = .ok content := rfl
  simp [Archive.content, hraw, hstored, hplain, hopen, hchecksum, hexpand, bind, Except.bind]

end Archive

theorem describedFrom_append (xs ys : List (String × Bytes)) :
    describedFrom offset (xs ++ ys) = describedFrom offset xs ++ describedFrom (offset + (body xs).length) ys := by
  induction xs generalizing offset with
  | nil => rfl
  | cons p xs ih =>
      obtain ⟨name, content⟩ := p
      rw [List.cons_append, describedFrom, describedFrom, ih, body_cons, List.length_append, List.cons_append,
        Nat.add_assoc]

/-- Where no name is given twice, a member is found by its name. -/
theorem Archive.member?_of_mem {a : Archive} {m : Member} (hnodup : (a.members.map (·.name)).Nodup)
    (hm : m ∈ a.members) : a.member? m.name = some m := by
  cases hfind : a.member? m.name with
  | none =>
      have hnone := List.find?_eq_none.mp hfind m (List.mem_reverse.mpr hm)
      simp at hnone
  | some m' =>
      have hname : m'.name = m.name := by simpa using List.find?_some hfind
      have hm' : m' ∈ a.members := List.mem_reverse.mp (List.mem_of_find?_eq_some hfind)
      exact congrArg some (List.inj_on_of_nodup_map hnodup hm' hm hname)

/-! ## Reading back -/

/-- Each member that was written reads back. -/
theorem Archive.read_of_mem {a : Archive} (h : Fits front members) (hnodup : (members.map Prod.fst).Nodup)
    (hbytes : a.bytes = append front members) (hmembers : a.members = describedFrom front.length members)
    (hmember : (name, content) ∈ members) (path : String) : a.read path name = .ok content := by
  have hname := h.names _ hmember
  obtain ⟨xs, ys, rfl⟩ := List.append_of_mem hmember
  have hsplit : ∃ rest, a.bytes = (front ++ body xs) ++ (encodeMember name content ++ rest) := by
    rw [hbytes, append_eq, body_append, body_cons]
    simp only [List.append_assoc]
    exact ⟨_, rfl⟩
  obtain ⟨rest, hsplit⟩ := hsplit
  have hdescribed : described (front ++ body xs).length name content ∈ a.members := by
    rw [hmembers, describedFrom_append, List.length_append]
    exact List.mem_append_right _ List.mem_cons_self
  have hnames : (a.members.map (·.name)).Nodup := by
    rw [hmembers, names_describedFrom]
    exact hnodup
  have hfound : a.member? name = some (described (front ++ body xs).length name content) :=
    Archive.member?_of_mem hnames hdescribed
  rw [Archive.read, hfound]
  exact Archive.content_described hsplit hname

/-- Behind the bytes in front there is an archive with the members that were written, and each of them reads back. -/
def ReadsBack (front : Bytes) (members : List (String × Bytes)) : Prop :=
  ∃ a, Archive.ofBytes? (append front members) = some a ∧ a.members.map (·.name) = members.map Prod.fst ∧
    ∀ name content path, (name, content) ∈ members → a.read path name = .ok content

theorem readsBack_of_fits (h : Fits front members) (hnodup : (members.map Prod.fst).Nodup) :
    ReadsBack front members := by
  refine ⟨⟨append front members, describedFrom front.length members⟩, ?_, names_describedFrom,
    fun name content path hmember => Archive.read_of_mem h hnodup rfl rfl hmember path⟩
  rw [Archive.ofBytes?, directory?_append h, Option.map_some]

end Launcher.Zip
