import Launcher.Proofs.Table.Layout

/-!
# Tables read from their source text

From the lines of its text a table can be told: the entries give the names, and each entry with code refers to the one
array in which this is listed.
-/

namespace Launcher.Table.Source

/-- The line begins a declaration under this identifier. -/
def Declares (identifier line : String) : Prop := ("pub static " ++ identifier ++ ":").toList <+: line.toList

instance (identifier line : String) : Decidable (Declares identifier line) := inferInstanceAs (Decidable (_ <+: _))

/-- The numbers that stand in a line. -/
def numerals (line : List Char) : List Nat :=
  ((line.splitOnP (!·.isDigit)).filter (· ≠ [])).map fun digits => Nat.ofDigitChars 10 digits 0

/-- Among the lines there is an array under this identifier in which these bytes are listed. -/
def HasArray (lines : List String) (identifier : String) (bytes : Bytes) : Prop :=
  ∃ before listing after, lines = before ++ opening identifier bytes.length :: (listing ++ closing :: after) ∧
    closing ∉ listing ∧ (listing.flatMap fun line => numerals line.toList) = bytes.map (·.toNat)

variable {b : Builder} {t : BuiltTable} {us : List CompiledUnit} {blocked : List String}

/-! ## Entries -/

/-- An indented line with a letter in it, which a row of numbers has not. -/
def Indented (line : String) : Prop := line.toList.head? = some ' ' ∧ 'f' ∈ line.toList

theorem toList_opening (identifier : String) (size : Nat) :
    (opening identifier size).toList = "pub static ".toList ++ (identifier.toList ++ ':' ::
      (" [u8; ".toList ++ ((toString size).toList ++ "] = [".toList))) := by
  unfold opening
  simp only [String.toList_append, List.append_assoc]
  simp

theorem not_indented_unitArray (u : CompiledUnit) : ∀ line ∈ unitArray u, ¬Indented line := by
  have hopening : ¬Indented (opening (blobIdentifier u.name) u.code.length) := fun h => by
    rw [Indented, toList_opening] at h
    simp at h
  have hrows : ∀ line ∈ rows u.code, ¬Indented line := fun line hline h => by
    obtain ⟨bs, -, rfl⟩ := List.mem_map.mp hline
    exact not_mem_row (by decide) (by decide) (by decide) bs h.2
  simp only [unitArray, arrayLines, List.forall_mem_cons, List.forall_mem_append]
  exact ⟨by simp [Indented], by simp [Indented], hopening, hrows, by simp [Indented, closing]⟩

theorem mem_linesOf_of_indented (h : b.Canonical t us blocked) {line : String} (hline : Indented line) :
    line ∈ linesOf t ++ [""] ↔ line ∈ us.map unitLine ∨ line ∈ blocked.map blocking ∨ line = sentinelLine := by
  have hne : ∀ {s : String}, s.toList.head? ≠ some ' ' → line ≠ s := fun hs heq => hs (heq ▸ hline.1)
  have harrays : line ∉ us.flatMap unitArray := fun hmem => by
    obtain ⟨u, -, hmem⟩ := List.mem_flatMap.mp hmem
    exact not_indented_unitArray u line hmem hline
  have hfirst : line ≠ "// Generated by frozenrun-freeze. Do not edit." := hne (by simp)
  have hencoding : line ≠ "// encoding: " ++ t.encoding.name := hne (by simp)
  have hempty : line ≠ "" := hne (by simp)
  have hmodules : line ≠ modulesOpening := hne (by simp [modulesOpening])
  have hclosing : line ≠ closing := hne (by simp [closing])
  simp only [linesOf_of_canonical h, List.mem_append, List.mem_cons, List.not_mem_nil, or_false, hfirst, hencoding,
    harrays, hempty, hmodules, hclosing, false_or, or_assoc]

/-! The entries are alike up to the word that tells their kinds apart. -/

theorem toList_referring (isPackage : Bool) (name identifier : String) :
    (referring isPackage name identifier).toList = "    frozenrun_table::FrozenEntry::".toList ++
      ((if isPackage then "package" else "module").toList ++ ("(".toList ++ '"' :: (name.toList ++
        '"' :: (", &".toList ++ (identifier.toList ++ "),".toList))))) := by
  unfold referring
  simp only [String.toList_append, List.append_assoc]
  simp

theorem toList_blocking (name : String) :
    (blocking name).toList = "    frozenrun_table::FrozenEntry::".toList ++
      ("forced_failure(".toList ++ '"' :: (name.toList ++ '"' :: "),".toList)) := by
  unfold blocking
  simp only [String.toList_append, List.append_assoc]
  simp

theorem toList_sentinelLine :
    sentinelLine.toList = "    frozenrun_table::FrozenEntry::".toList ++ "SENTINEL,".toList := by
  decide

theorem referring_ne_blocking (isPackage : Bool) (name identifier blocked : String) :
    referring isPackage name identifier ≠ blocking blocked := fun h => by
  rw [← String.toList_inj, toList_referring, toList_blocking, List.append_cancel_left_eq] at h
  cases isPackage <;> simp at h

theorem referring_ne_sentinelLine (isPackage : Bool) (name identifier : String) :
    referring isPackage name identifier ≠ sentinelLine := fun h => by
  rw [← String.toList_inj, toList_referring, toList_sentinelLine, List.append_cancel_left_eq] at h
  cases isPackage <;> simp at h

theorem blocking_ne_sentinelLine (name : String) : blocking name ≠ sentinelLine := fun h => by
  rw [← String.toList_inj, toList_blocking, toList_sentinelLine, List.append_cancel_left_eq] at h
  simp at h

theorem blocking_injective : Function.Injective blocking := fun name name' h => by
  unfold blocking at h
  rwa [String.append_left_inj, String.append_right_inj] at h

theorem referring_eq_unitLine {isPackage : Bool} {name identifier : String} {u : CompiledUnit}
    (hu : isUnitName u.name = true) :
    referring isPackage name identifier = unitLine u ↔
      isPackage = u.isPackage ∧ name = u.name ∧ identifier = blobIdentifier u.name := by
  constructor
  · intro h
    have hname : '"' ∉ u.name.toList := not_mem_of_isUnitName hu (by decide) (by decide)
    have hid : '"' ∉ (blobIdentifier u.name).toList := not_mem_blobIdentifier hu (by decide)
    rw [unitLine, ← String.toList_inj, toList_referring, toList_referring, List.append_cancel_left_eq] at h
    have hkind : isPackage = u.isPackage := by
      cases hu : u.isPackage <;> cases isPackage <;> simp [hu] at h ⊢
    rw [hkind, List.append_cancel_left_eq, List.append_cancel_left_eq, List.cons.injEq] at h
    have hid' : '"' ∉ ", &".toList ++ ((blobIdentifier u.name).toList ++ "),".toList) := by simpa using hid
    obtain ⟨hnames, -, htails⟩ := (List.append_cons_inj_of_notMem hname hid').mp h.2.symm
    rw [List.append_cancel_left_eq, List.append_cancel_right_eq] at htails
    exact ⟨hkind, (String.toList_inj.mp hnames).symm, (String.toList_inj.mp htails).symm⟩
  · rintro ⟨rfl, rfl, rfl⟩
    rfl

theorem referring_mem_iff (h : b.Canonical t us blocked) (hus : ∀ u ∈ us, isUnitName u.name = true)
    {isPackage : Bool} {name identifier : String} :
    referring isPackage name identifier ∈ linesOf t ++ [""] ↔
      ∃ u ∈ us, isPackage = u.isPackage ∧ name = u.name ∧ identifier = blobIdentifier u.name := by
  have hindented : Indented (referring isPackage name identifier) := by
    rw [Indented, toList_referring]
    simp
  have hblocked : referring isPackage name identifier ∉ blocked.map blocking := fun hmem => by
    obtain ⟨name', -, heq⟩ := List.mem_map.mp hmem
    exact referring_ne_blocking _ _ _ _ heq.symm
  rw [mem_linesOf_of_indented h hindented, List.mem_map]
  simp only [hblocked, referring_ne_sentinelLine, or_false]
  exact exists_congr fun u => and_congr_right fun hu => eq_comm.trans (referring_eq_unitLine (hus u hu))

theorem blocking_mem_iff (h : b.Canonical t us blocked) {name : String} :
    blocking name ∈ linesOf t ++ [""] ↔ name ∈ blocked := by
  have hindented : Indented (blocking name) := by
    rw [Indented, toList_blocking]
    simp
  have hunits : blocking name ∉ us.map unitLine := fun hmem => by
    obtain ⟨u, -, heq⟩ := List.mem_map.mp hmem
    exact referring_ne_blocking _ _ _ _ heq
  rw [mem_linesOf_of_indented h hindented]
  simp only [hunits, blocking_ne_sentinelLine, or_false, false_or]
  exact List.mem_map_of_injective blocking_injective

/-! ## Declarations -/

theorem eq_of_append_cons {α : Type} {a : α} {l l' r r' : List α} (hl : a ∉ l) (hl' : a ∉ l')
    (h : l ++ a :: r = l' ++ a :: r') : l = l' ∧ r = r' := by
  rcases List.append_eq_append_iff.mp h with ⟨m, rfl, hm⟩ | ⟨m, rfl, hm⟩ <;> cases m with
  | nil => simpa [eq_comm] using hm
  | cons c m =>
      obtain ⟨rfl, -⟩ := List.cons.inj hm
      simp at hl hl'

theorem not_declares_of_head? {identifier line : String} (h : line.toList.head? ≠ some 'p') :
    ¬Declares identifier line := by
  rintro ⟨rest, hrest⟩
  rw [← hrest] at h
  simp at h

theorem countP_eq_zero_of_head? {identifier : String} {ls : List String}
    (h : ∀ line ∈ ls, line.toList.head? ≠ some 'p') : ls.countP (Declares identifier ·) = 0 :=
  List.countP_eq_zero.mpr fun line hline => by simpa using not_declares_of_head? (h line hline)

theorem declares_self {identifier line : String} {rest : List Char}
    (hline : line.toList = "pub static ".toList ++ (identifier.toList ++ ':' :: rest)) : Declares identifier line := by
  refine ⟨rest, ?_⟩
  rw [hline, String.toList_append, String.toList_append, List.append_assoc, List.append_assoc]
  rfl

/-- A declaration is under one identifier, which ends at the colon. -/
theorem declares_iff {identifier identifier' line : String} {rest : List Char} (hid : ':' ∉ identifier.toList)
    (hid' : ':' ∉ identifier'.toList)
    (hline : line.toList = "pub static ".toList ++ (identifier'.toList ++ ':' :: rest)) :
    Declares identifier line ↔ identifier' = identifier := by
  constructor
  · rintro ⟨rest', h⟩
    rw [hline, String.toList_append, String.toList_append, List.append_assoc, List.append_assoc,
      List.append_cancel_left_eq] at h
    exact (String.toList_inj.mp (eq_of_append_cons hid hid' h).1).symm
  · rintro rfl
    exact declares_self hline

theorem toList_modulesOpening : modulesOpening.toList =
    "pub static ".toList ++ ("FROZEN_MODULES".toList ++ ':' ::
      " &[frozenrun_table::FrozenEntry<'static>] = &[".toList) := by
  decide

theorem countP_unitArray {identifier : String} (hid : ':' ∉ identifier.toList) {u : CompiledUnit}
    (hu : isUnitName u.name = true) :
    (unitArray u).countP (Declares identifier ·) = if blobIdentifier u.name == identifier then 1 else 0 := by
  have hid' : ':' ∉ (blobIdentifier u.name).toList := not_mem_blobIdentifier hu (by decide)
  have hrows : (rows u.code).countP (Declares identifier ·) = 0 := by
    refine countP_eq_zero_of_head? (List.forall_mem_map.mpr fun bs _ => ?_)
    simp [row]
  have hempty : ¬Declares identifier "" := not_declares_of_head? (by simp)
  have hattribute : ¬Declares identifier "#[allow(non_upper_case_globals)]" := not_declares_of_head? (by simp)
  have hclosing : ¬Declares identifier closing := not_declares_of_head? (by simp [closing])
  simp [unitArray, arrayLines, List.countP_cons, hrows, hempty, hattribute, hclosing,
    declares_iff hid hid' (toList_opening ..)]

theorem countP_flatMap_unitArray {identifier : String} (hid : ':' ∉ identifier.toList)
    (hus : ∀ u ∈ us, isUnitName u.name = true) :
    (us.flatMap unitArray).countP (Declares identifier ·) =
      (us.map fun u => blobIdentifier u.name).count identifier := by
  induction us with
  | nil => rfl
  | cons u us ih =>
      obtain ⟨hu, hus⟩ := List.forall_mem_cons.mp hus
      rw [List.flatMap_cons, List.countP_append, countP_unitArray hid hu, ih hus, List.map_cons, List.count_cons,
        Nat.add_comm]

/-- Only the arrays are declared under identifiers of units, each once. -/
theorem countP_linesOf (h : b.Canonical t us blocked) (hus : ∀ u ∈ us, isUnitName u.name = true) {identifier : String}
    (hid : ':' ∉ identifier.toList) (hne : "FROZEN_MODULES" ≠ identifier) :
    (linesOf t ++ [""]).countP (Declares identifier ·) = t.identifiers.count identifier := by
  have hempty : ¬Declares identifier "" := not_declares_of_head? (by simp)
  have hfirst : ¬Declares identifier "// Generated by frozenrun-freeze. Do not edit." := not_declares_of_head? (by simp)
  have hencoding : ¬Declares identifier ("// encoding: " ++ t.encoding.name) := not_declares_of_head? (by simp)
  have hclosing : ¬Declares identifier closing := not_declares_of_head? (by simp [closing])
  have hsentinel : ¬Declares identifier sentinelLine := not_declares_of_head? (by simp [sentinelLine])
  have hmodules : ¬Declares identifier modulesOpening := fun hdeclares =>
    hne ((declares_iff hid (by decide) toList_modulesOpening).mp hdeclares)
  have hunits : (us.map unitLine).countP (Declares identifier ·) = 0 := by
    refine countP_eq_zero_of_head? (List.forall_mem_map.mpr fun u _ => ?_)
    rw [unitLine, toList_referring]
    simp
  have hblocked : (blocked.map blocking).countP (Declares identifier ·) = 0 := by
    refine countP_eq_zero_of_head? (List.forall_mem_map.mpr fun name _ => ?_)
    rw [toList_blocking]
    simp
  rw [linesOf_of_canonical h, h.identifiers, ← countP_flatMap_unitArray hid hus]
  simp only [List.countP_append, List.countP_cons, List.countP_nil, hempty, hfirst, hencoding, hclosing, hsentinel,
    hmodules, hunits, hblocked, decide_false, Bool.false_eq_true, if_false, Nat.add_zero]

/-! ## Arrays -/

theorem flatten_chunks {α : Type} (n : Nat) {rounds : Nat} {as : List α} (h : as.length ≤ rounds) :
    (chunks n rounds as).flatten = as := by
  fun_induction chunks n rounds as with
  | case1 as => exact (List.eq_nil_of_length_eq_zero (Nat.le_zero.mp h)).symm
  | case2 => rfl
  | case3 rounds as hne ih =>
      have hpos : 0 < as.length := List.length_pos_iff.mpr hne
      have hdrop : (as.drop (n + 1)).length ≤ rounds := by
        rw [List.length_drop]
        omega
      rw [List.flatten_cons, ih hdrop, List.take_append_drop]

theorem numerals_cons {c : Char} (hc : c.isDigit = false) (cs : List Char) : numerals (c :: cs) = numerals cs := by
  simp [numerals, List.splitOnP_cons_eq_if_modifyHead, hc]

theorem numerals_append (n : Nat) {c : Char} (hc : c.isDigit = false) (cs : List Char) :
    numerals (Nat.toDigits 10 n ++ c :: cs) = n :: numerals cs := by
  have hdigits : (Nat.toDigits 10 n).splitOnP (!·.isDigit) = [Nat.toDigits 10 n] :=
    List.splitOnP_eq_singleton fun d hd => by simp [Nat.isDigit_of_mem_toDigits (by decide) (by decide) hd]
  have hvalue : Nat.ofDigitChars 10 (Nat.toDigits 10 n) 0 = n := Nat.ofDigitChars_toDigits (by decide) (by decide)
  have hfirst : ([Nat.toDigits 10 n].filter (· ≠ [])) = [Nat.toDigits 10 n] := by simp [Nat.toDigits_ne_nil]
  rw [numerals, List.splitOnP_append_cons _ _ (by simp [hc]), hdigits, List.filter_append, hfirst, List.map_append,
    List.map_singleton, hvalue, List.singleton_append, numerals]

theorem numerals_flatMap (bs : Bytes) :
    numerals (bs.flatMap fun b => Nat.toDigits 10 b.toNat ++ [',']) = bs.map (·.toNat) := by
  have hcomma : ','.isDigit = false := by decide
  induction bs with
  | nil => rfl
  | cons b bs ih =>
      rw [List.flatMap_cons, List.append_assoc, List.singleton_append, numerals_append _ hcomma, ih, List.map_cons]

theorem numerals_row (bs : Bytes) : numerals (row bs).toList = bs.map (·.toNat) := by
  have hspace : ' '.isDigit = false := by decide
  have hlist : (row bs).toList = ' ' :: ' ' :: ' ' :: ' ' :: bs.flatMap fun b => Nat.toDigits 10 b.toNat ++ [','] := by
    rw [row, String.toList_append, String.toList_join, List.flatMap_map]
    simp only [String.toList_append, Decimal.toList_toString]
    rfl
  rw [hlist, numerals_cons hspace, numerals_cons hspace, numerals_cons hspace, numerals_cons hspace, numerals_flatMap]

/-- Rows of any length, and none, list what was cut into them. -/
theorem numerals_rows (code : Bytes) : ((rows code).flatMap fun line => numerals line.toList) = code.map (·.toNat) := by
  have hflatten := flatten_chunks (bytesPerLine - 1) (Nat.le_refl code.length)
  rw [rows, List.flatMap_map]
  simp only [numerals_row]
  rw [← List.map_flatMap, List.flatMap_id', hflatten]

theorem closing_not_mem_rows (code : Bytes) : closing ∉ rows code := fun hmem => by
  obtain ⟨bs, -, heq⟩ := List.mem_map.mp hmem
  have hbracket : ']' ∉ (row bs).toList := not_mem_row (by decide) (by decide) (by decide) bs
  rw [heq] at hbracket
  exact hbracket (by decide)

theorem unitArray_isInfix (h : b.Canonical t us blocked) {u : CompiledUnit} (hu : u ∈ us) :
    unitArray u <:+: linesOf t ++ [""] := by
  have harrays : unitArray u <:+: us.flatMap unitArray := by
    rw [List.flatMap_def]
    exact List.infix_of_mem_flatten (List.mem_map_of_mem hu)
  rw [linesOf_of_canonical h]
  refine List.IsInfix.trans (List.infix_cons (List.infix_cons ?_)) List.infix_append_left
  exact harrays.trans List.infix_append_left

theorem hasArray_of_mem (h : b.Canonical t us blocked) {u : CompiledUnit} (hu : u ∈ us) :
    HasArray (linesOf t ++ [""]) (blobIdentifier u.name) u.code := by
  obtain ⟨front, back, heq⟩ := unitArray_isInfix h hu
  refine ⟨front ++ ["", "#[allow(non_upper_case_globals)]"], rows u.code, back, ?_, closing_not_mem_rows u.code,
    numerals_rows u.code⟩
  rw [← heq, unitArray, arrayLines]
  simp only [List.append_assoc, List.cons_append, List.nil_append]

/-- Under an identifier that is declared once, the listing ends at the first line that closes an array. -/
theorem hasArray_unique {ls : List String} {identifier : String} {code code' : Bytes}
    (hone : ls.countP (Declares identifier ·) = 1) (h : HasArray ls identifier code)
    (h' : HasArray ls identifier code') : code = code' := by
  obtain ⟨before, listing, after, rfl, hlisting, hcode⟩ := h
  obtain ⟨before', listing', after', heq, hlisting', hcode'⟩ := h'
  rw [List.countP_append, List.countP_cons_of_pos (by simp [declares_self (toList_opening ..)])] at hone
  have hbefore : before.countP (Declares identifier ·) = 0 := by omega
  have hbehind : (listing ++ closing :: after).countP (Declares identifier ·) = 0 := by omega
  have hnot : ∀ {size : Nat} {ls : List String}, ls.countP (Declares identifier ·) = 0 →
      opening identifier size ∉ ls := fun hzero hmem =>
    List.countP_eq_zero.mp hzero _ hmem (by simp [declares_self (toList_opening ..)])
  obtain ⟨-, -, hbehind⟩ := (List.append_cons_inj_of_notMem (hnot hbefore) (hnot hbehind)).mp heq
  obtain ⟨rfl, -⟩ := eq_of_append_cons hlisting hlisting' hbehind
  exact List.map_injective_iff.mpr (fun _ _ => UInt8.toNat_inj.mp) (hcode.symm.trans hcode')

/-! ## What a table was built of -/

theorem countP_declares (h : b.build = .ok t) {identifier : String} (hid : identifier ∈ t.identifiers) :
    (lines (text t)).countP (Declares identifier ·) = 1 := by
  obtain ⟨us, blocked, hcanonical, hus, hlines⟩ := layout_of_build h
  obtain ⟨rs, blocked', -, -, hnodup, ht⟩ := Builder.build_eq_ok.mp h
  have hnodup' : t.identifiers.Nodup := ht ▸ hnodup
  obtain ⟨u, hu, rfl⟩ := List.mem_map.mp (hcanonical.identifiers ▸ hid)
  have hne : "FROZEN_MODULES" ≠ blobIdentifier u.name := fun heq => by
    have hlists := congrArg String.toList heq
    rw [blobIdentifier, String.toList_append] at hlists
    simp at hlists
  rw [hlines, countP_linesOf hcanonical hus (not_mem_blobIdentifier (hus u hu) (by decide)) hne,
    List.count_eq_one_of_mem hnodup' hid]

/-- The units of a table are those whose entries refer to an array that lists their code. -/
theorem mem_units_iff (h : b.build = .ok t) (u : CompiledUnit) : u ∈ b.units ↔
    ∃ identifier, referring u.isPackage u.name identifier ∈ lines (text t) ∧
      HasArray (lines (text t)) identifier u.code := by
  obtain ⟨us, blocked, hcanonical, hus, hlines⟩ := layout_of_build h
  rw [← hcanonical.perm.mem_iff, hlines]
  simp only [referring_mem_iff hcanonical hus]
  constructor
  · intro hu
    exact ⟨_, ⟨u, hu, rfl, rfl, rfl⟩, hasArray_of_mem hcanonical hu⟩
  · rintro ⟨_, ⟨v, hv, hpackage, hname, rfl⟩, harray⟩
    have hone := countP_declares h (hcanonical.identifiers ▸ List.mem_map_of_mem hv)
    rw [hlines] at hone
    have hcode : u.code = v.code := hasArray_unique hone harray (hasArray_of_mem hcanonical hv)
    obtain rfl : u = v := by
      cases u
      cases v
      simp_all
    exact hv

theorem mem_failImport_iff (h : b.build = .ok t) (name : String) :
    name ∈ b.failImport ↔ blocking name ∈ lines (text t) := by
  obtain ⟨us, blocked, hcanonical, hus, hlines⟩ := layout_of_build h
  rw [hlines, blocking_mem_iff hcanonical, hcanonical.mem]

theorem encoding_of_linesOf {t t' : BuiltTable} (hlines : linesOf t ++ [""] = linesOf t' ++ [""]) :
    t.encoding = t'.encoding := by
  have hsecond : "// encoding: " ++ t.encoding.name = "// encoding: " ++ t'.encoding.name :=
    (List.cons.inj (List.cons.inj hlines).2).1
  rw [String.append_right_inj] at hsecond
  cases ht : t.encoding <;> cases ht' : t'.encoding <;> simp_all [Encoding.name]

/-- The text says what was added, so tables with one text were built of the same. -/
theorem eq_of_text {b b' : Builder} {t t' : BuiltTable} (h : b.build = .ok t) (h' : b'.build = .ok t')
    (htext : text t = text t') : t = t' := by
  have hunits : b.units.Perm b'.units := by
    have hnodup := (nodup_of_build h).of_map
    have hnodup' := (nodup_of_build h').of_map
    refine (List.perm_ext_iff_of_nodup hnodup hnodup').mpr fun u => ?_
    rw [mem_units_iff h, mem_units_iff h', htext]
  have hencoding : b.encoding = b'.encoding := by
    rw [← (view_entries h).1, ← (view_entries h').1]
    obtain ⟨_, _, _, _, hlines⟩ := layout_of_build h
    obtain ⟨_, _, _, _, hlines'⟩ := layout_of_build h'
    exact encoding_of_linesOf (hlines.symm.trans (htext ▸ hlines'))
  have hsame : b.SameContent b' := ⟨hencoding, hunits, fun name => by
    rw [mem_failImport_iff h, mem_failImport_iff h', htext]⟩
  exact Except.ok.inj ((hsame.build.ok_iff.mp h).symm.trans h')

/-- A table is determined by its text. There every identifier is declared once, and the entries with code are those of
the units: each refers to the declaration that lists the code of its unit, and no other code is listed there. -/
theorem text_determines (h : b.build = .ok t) :
    (∀ (b' : Builder) (t' : BuiltTable), b'.build = .ok t' → text t = text t' →
      t.encoding = t'.encoding ∧ t.records = t'.records) ∧
    (∀ identifier ∈ t.identifiers, (lines (text t)).countP (Declares identifier ·) = 1) ∧
    (∀ r ∈ t.records, r.code.isSome = true →
      referring r.isPackage r.name (blobIdentifier r.name) ∈ lines (text t)) ∧
    ∀ isPackage name identifier, referring isPackage name identifier ∈ lines (text t) →
      identifier ∈ t.identifiers ∧ ∃ code, Record.unit name code isPackage ∈ t.records ∧
        ∀ code', HasArray (lines (text t)) identifier code' ↔ code' = code := by
  obtain ⟨us, blocked, hcanonical, hus, hlines⟩ := layout_of_build h
  refine ⟨fun b' t' h' htext => ?_, fun identifier => countP_declares h, fun r hr hcode => ?_,
    fun isPackage name identifier hline => ?_⟩
  · obtain rfl := eq_of_text h h' htext
    exact ⟨rfl, rfl⟩
  · rw [hcanonical.records, List.mem_append, List.mem_append, List.mem_map] at hr
    obtain (⟨u, hu, rfl⟩ | hr) | hr := hr
    · rw [hlines, referring_mem_iff hcanonical hus]
      exact ⟨u, hu, rfl, rfl, rfl⟩
    · obtain ⟨name, -, rfl⟩ := List.mem_map.mp hr
      cases hcode
    · obtain rfl := List.mem_singleton.mp hr
      cases hcode
  · rw [hlines, referring_mem_iff hcanonical hus] at hline
    obtain ⟨u, hu, rfl, rfl, rfl⟩ := hline
    have hid : blobIdentifier u.name ∈ t.identifiers := hcanonical.identifiers ▸ List.mem_map_of_mem hu
    have hrecord : u.record ∈ t.records := by
      rw [hcanonical.records, List.append_assoc]
      exact List.mem_append_left _ (List.mem_map_of_mem hu)
    have harray : HasArray (lines (text t)) (blobIdentifier u.name) u.code := hlines ▸ hasArray_of_mem hcanonical hu
    refine ⟨hid, u.code, hrecord, fun code' => ⟨fun harray' => ?_, fun heq => heq ▸ harray⟩⟩
    exact hasArray_unique (countP_declares h hid) harray' harray

/-- A package whose code fills a row and begins another, a module without code, and a blocked name that is listed once
or twice. -/
theorem text_determines_rows :
    let p : CompiledUnit := ⟨"p", List.replicate 16 255 ++ [0], true⟩
    let a : CompiledUnit := ⟨"p.a", [], false⟩
    ∃ t t', Builder.build ⟨.signedSize, [a, p], ["z"]⟩ = .ok t ∧
      Builder.build ⟨.signedSize, [p, a], ["z", "z"]⟩ = .ok t' ∧
      (t.encoding = t'.encoding ∧ t.records = t'.records) ∧
      (lines (text t)).countP (Declares "_FM_p" ·) = 1 ∧ referring true "p" "_FM_p" ∈ lines (text t) ∧
      (∀ code, HasArray (lines (text t)) "_FM_p" code ↔ code = p.code) ∧
      ∀ code, HasArray (lines (text t)) "_FM_p__a" code ↔ code = [] := by
  intro p a
  have hbuild : Builder.build ⟨.signedSize, [a, p], ["z"]⟩ =
      .ok ⟨.signedSize, [p.record, a.record, .forcedFailure "z", .sentinel], ["_FM_p", "_FM_p__a"]⟩ := by
    cbv
  have hbuild' : Builder.build ⟨.signedSize, [p, a], ["z", "z"]⟩ =
      .ok ⟨.signedSize, [p.record, a.record, .forcedFailure "z", .sentinel], ["_FM_p", "_FM_p__a"]⟩ := by
    cbv
  have hp : blobIdentifier p.record.name = "_FM_p" := by cbv
  have ha : blobIdentifier a.record.name = "_FM_p__a" := by cbv
  obtain ⟨hsame, hone, hentry, harray⟩ := text_determines hbuild
  have hpline := hentry p.record List.mem_cons_self rfl
  have haline := hentry a.record (List.mem_cons_of_mem _ List.mem_cons_self) rfl
  rw [hp] at hpline
  rw [ha] at haline
  obtain ⟨hpid, code, hpmem, hpcode⟩ := harray _ _ _ hpline
  obtain ⟨-, code', hamem, hacode⟩ := harray _ _ _ haline
  obtain ⟨rfl, -⟩ : code = p.code ∧ (code.length : Int) = 17 := by
    simpa [Record.unit, CompiledUnit.record, Record.forcedFailure, Record.sentinel, p, a] using hpmem
  obtain rfl : code' = [] := by
    simpa [Record.unit, CompiledUnit.record, Record.forcedFailure, Record.sentinel, p, a] using hamem
  exact ⟨_, _, hbuild, hbuild', hsame _ _ hbuild' rfl, hone _ hpid, hpline, hpcode, hacode⟩

end Launcher.Table.Source
