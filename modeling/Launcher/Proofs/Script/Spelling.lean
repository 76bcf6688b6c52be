import Launcher.Proofs.Bytes
import Launcher.Script.Code.Bytes

/-!
# The byte strings of a code object

A code object fits its byte form if its texts, its lists and its operands are no larger than four bytes can count. Then
it is spelled by its own bytes and by those that have other bytes in place of operands that mean nothing; the reader
takes these off the front, whatever is behind them, and nothing else. So no byte string that can be read begins with
another one.
-/

namespace Launcher.Script

/-! ## What fits the byte form -/

def TextFits (s : String) : Prop := s.utf8ByteSize < 2 ^ 32

instance (s : String) : Decidable (TextFits s) := inferInstanceAs (Decidable (_ < _))

def ListFits {α : Type} (Fits : α → Prop) (as : List α) : Prop := as.length < 2 ^ 32 ∧ ∀ a ∈ as, Fits a

def Const.Fits : Const → Prop
  | .str s => TextFits s
  | _ => True

def Step.Fits (s : Step) : Prop := (Code.opcode s.instr).2 < 2 ^ 32 ∧ s.line < 2 ^ 32

/-- Four bytes are enough for each length, each operand and each line. -/
structure Code.Fits (code : Code) : Prop where
  file : TextFits code.file
  consts : ListFits Const.Fits code.consts
  names : ListFits TextFits code.names
  body : ListFits Step.Fits code.body

/-- Whether the operand of an instruction means something. -/
def Instr.hasOperand : Instr → Bool
  | .negate | .not | .subscript | .pop | .printExpr | .raise | .assertFail => false
  | _ => true

namespace Code

/-! ## Readers and what they take off -/

/-- What the reader takes off the front is what spells the value, whatever is behind it. -/
structure Reads {α : Type} (Spells : α → Bytes → Prop) (take : Bytes → Option (α × Bytes)) : Prop where
  accepts {a : α} {bs : Bytes} (t : Bytes) : Spells a bs → take (bs ++ t) = some (a, t)
  spells {a : α} {bs t : Bytes} : take bs = some (a, t) → ∃ h, Spells a h ∧ h ++ t = bs

/-- The value fits, and these are the bytes that are written for it. -/
def Encodes {α : Type} (Fits : α → Prop) (encode : α → Bytes) (a : α) (bs : Bytes) : Prop := Fits a ∧ bs = encode a

/-- Values are spelled one after the other. -/
inductive SpellsAll {α : Type} (Spells : α → Bytes → Prop) : List α → Bytes → Prop where
  | nil : SpellsAll Spells [] []
  | cons {a : α} {as : List α} {h t : Bytes} : Spells a h → SpellsAll Spells as t → SpellsAll Spells (a :: as) (h ++ t)

/-- Values are spelled behind their number. -/
def SpellsList {α : Type} (Spells : α → Bytes → Prop) (as : List α) (bs : Bytes) : Prop :=
  as.length < 2 ^ 32 ∧ ∃ h, SpellsAll Spells as h ∧ Bytes.encodeLE 4 as.length ++ h = bs

section

variable {α : Type} {Fits : α → Prop} {encode : α → Bytes} {Spells : α → Bytes → Prop}
  {take : Bytes → Option (α × Bytes)}

/-- A reader goes on the same where more is behind. -/
theorem Reads.append (h : Reads Spells take) {a : α} {bs t : Bytes} (heq : take bs = some (a, t)) (tail : Bytes) :
    take (bs ++ tail) = some (a, t ++ tail) := by
  obtain ⟨front, hspells, rfl⟩ := h.spells heq
  rw [List.append_assoc]
  exact h.accepts (t ++ tail) hspells

theorem Reads.many (h : Reads Spells take) (n : Nat) :
    Reads (fun as bs => as.length = n ∧ SpellsAll Spells as bs) (takeMany take n) where
  accepts {as bs} t := by
    rintro ⟨rfl, hall⟩
    induction hall with
    | nil => rfl
    | cons ha _ ih => simp [takeMany, List.append_assoc, h.accepts _ ha, ih]
  spells {as bs t} heq := by
    induction n generalizing as bs with
    | zero =>
        cases heq
        exact ⟨[], ⟨rfl, .nil⟩, rfl⟩
    | succ n ih =>
        simp only [takeMany, Option.bind_eq_bind, Option.bind_eq_some_iff] at heq
        obtain ⟨⟨a, bs'⟩, ha, ⟨as', t'⟩, has, heq⟩ := heq
        cases heq
        obtain ⟨front, hfront, rfl⟩ := h.spells ha
        obtain ⟨rest, ⟨hlen, hrest⟩, rfl⟩ := ih has
        exact ⟨front ++ rest, ⟨congrArg (· + 1) hlen, .cons hfront hrest⟩, List.append_assoc ..⟩

theorem Reads.list (h : Reads Spells take) : Reads (SpellsList Spells) (takeList take) where
  accepts {as bs} t := by
    rintro ⟨hlen, bs, hall, rfl⟩
    have hn := Bytes.takeLE_of_lt (k := 4) hlen
    simp [takeList, List.append_assoc, hn, (h.many as.length).accepts t ⟨rfl, hall⟩]
  spells heq := by
    simp only [takeList, Option.bind_eq_bind, Option.bind_eq_some_iff] at heq
    obtain ⟨⟨n, bs⟩, hn, heq⟩ := heq
    obtain ⟨front, ⟨rfl, hall⟩, rfl⟩ := (h.many n).spells heq
    obtain ⟨hlen, hbytes⟩ := Bytes.of_takeLE hn
    exact ⟨_, ⟨hlen, front, hall, rfl⟩, by rw [List.append_assoc, hbytes]⟩

theorem SpellsAll.flatMap {as : List α} (h : ∀ a ∈ as, Spells a (encode a)) :
    SpellsAll Spells as (as.flatMap encode) := by
  induction as with
  | nil => exact .nil
  | cons a as ih =>
      obtain ⟨ha, has⟩ := List.forall_mem_cons.mp h
      exact .cons ha (ih has)

theorem SpellsAll.encoded {as : List α} {bs : Bytes} (h : SpellsAll (Encodes Fits encode) as bs) :
    (∀ a ∈ as, Fits a) ∧ bs = as.flatMap encode := by
  induction h with
  | nil => exact ⟨nofun, rfl⟩
  | cons ha _ ih =>
      obtain ⟨hfits, rfl⟩ := ih
      exact ⟨List.forall_mem_cons.mpr ⟨ha.1, hfits⟩, by rw [ha.2, List.flatMap_cons]⟩

theorem Reads.encodedList (h : Reads (Encodes Fits encode) take) :
    Reads (Encodes (ListFits Fits) (encodeList encode)) (takeList take) where
  accepts t := by
    rintro ⟨⟨hlen, hfits⟩, rfl⟩
    exact h.list.accepts t ⟨hlen, _, .flatMap fun a ha => ⟨hfits a ha, rfl⟩, rfl⟩
  spells heq := by
    obtain ⟨_, ⟨hlen, _, hall, rfl⟩, rfl⟩ := h.list.spells heq
    obtain ⟨hfits, rfl⟩ := hall.encoded
    exact ⟨_, ⟨⟨hlen, hfits⟩, rfl⟩, rfl⟩

end

/-! ## Texts and constants -/

theorem length_ofString (s : String) : (Bytes.ofString s).length = s.utf8ByteSize := rfl

theorem reads_text : Reads (Encodes TextFits encodeText) takeText where
  accepts {s bs} t := by
    rintro ⟨hfits, rfl⟩
    have hn := Bytes.takeLE_of_lt (k := 4) hfits
    have htext := Bytes.takeBytes_append (Bytes.ofString s) t
    rw [length_ofString] at htext
    simp [encodeText, takeText, length_ofString, hn, htext]
  spells {s bs t} h := by
    simp only [takeText, Option.bind_eq_bind, Option.bind_eq_some_iff] at h
    obtain ⟨⟨n, _⟩, hn, ⟨text, _⟩, htext, _, hs, h⟩ := h
    cases h
    obtain ⟨hlen, hbytes⟩ := Bytes.of_takeLE hn
    obtain rfl := Bytes.ofString_of_decode? hs
    obtain rfl := Bytes.length_of_takeBytes htext
    exact ⟨_, ⟨hlen, rfl⟩, by rw [encodeText, List.append_assoc, Bytes.append_of_takeBytes htext, hbytes]⟩

theorem int64_ofNat_toNat (i : Int64) : (UInt64.ofNat i.toUInt64.toNat).toInt64 = i := by
  rw [UInt64.ofNat_toNat]
  rfl

theorem reads_const : Reads (Encodes Const.Fits encodeConst) takeConst where
  accepts {c bs} t := by
    rintro ⟨hfits, rfl⟩
    cases c with
    | none => rfl
    | bool b => cases b <;> rfl
    | int i =>
        have hn := Bytes.takeLE_of_lt (k := 8) i.toUInt64.toNat_lt t
        simp only [encodeConst, List.cons_append, takeConst, hn, Option.map_some, int64_ofNat_toNat]
    | float x =>
        have hn := Bytes.takeLE_of_lt (k := 8) x.bits.toNat_lt t
        simp only [encodeConst, List.cons_append, takeConst, hn, Option.map_some, UInt64.ofNat_toNat]
    | str s => simp only [encodeConst, List.cons_append, takeConst, reads_text.accepts t ⟨hfits, rfl⟩, Option.map_some]
  spells {c bs t} h := by
    unfold takeConst at h
    split at h
    case h_1 | h_2 | h_3 =>
      cases h
      exact ⟨_, ⟨trivial, rfl⟩, rfl⟩
    case h_4 | h_5 =>
      obtain ⟨⟨n, _⟩, hn, h⟩ := Option.map_eq_some_iff.mp h
      cases h
      obtain ⟨hlt, hbytes⟩ := Bytes.of_takeLE hn
      have hword : (UInt64.ofNat n).toNat = n := (UInt64.toNat_ofNat' ..).trans (Nat.mod_eq_of_lt hlt)
      rw [← hword] at hbytes
      exact ⟨_, ⟨trivial, rfl⟩, congrArg (_ :: ·) hbytes⟩
    case h_6 =>
      obtain ⟨_, htext, h⟩ := Option.map_eq_some_iff.mp h
      cases h
      obtain ⟨_, ⟨hfits, rfl⟩, rfl⟩ := reads_text.spells htext
      exact ⟨_, ⟨hfits, rfl⟩, rfl⟩
    case h_7 => cases h

/-! ## Instructions -/

/-- The bytes of a step, where those of an operand that means nothing can be any. -/
inductive SpellsStep (s : Step) : Bytes → Prop where
  | mk (operand : Bytes) : s.Fits → operand.length = 4 →
      (s.instr.hasOperand → operand = Bytes.encodeLE 4 (opcode s.instr).2) →
      SpellsStep s ((opcode s.instr).1 :: operand ++ Bytes.encodeLE 4 s.line)

theorem spellsStep_encodeStep {s : Step} (h : s.Fits) : SpellsStep s (encodeStep s) :=
  .mk _ h (Bytes.length_encodeLE ..) fun _ => rfl

theorem instr?_opcode (i : Instr) : instr? (opcode i).1 (opcode i).2 = some i := by
  cases i with
  | binary op | compare op => cases op <;> rfl
  | _ => rfl

theorem instr?_of_hasOperand {i : Instr} (h : i.hasOperand = false) (operand : Nat) :
    instr? (opcode i).1 operand = some i := by
  cases i <;> first | rfl | cases h

theorem opcode_of_instr? {number : UInt8} {operand : Nat} {i : Instr} (h : instr? number operand = some i) :
    (opcode i).1 = number ∧ (opcode i).2 ≤ operand ∧ (i.hasOperand → (opcode i).2 = operand) := by
  unfold instr? at h
  split at h
  case h_5 | h_6 =>
    obtain ⟨op, hop, rfl⟩ := Option.map_eq_some_iff.mp h
    obtain ⟨hlt, rfl⟩ := List.getElem?_eq_some_iff.mp hop
    have hoperand := List.Nodup.idxOf_getElem (by decide) operand hlt
    exact ⟨rfl, Nat.le_of_eq hoperand, fun _ => hoperand⟩
  all_goals cases h
  case h_7 | h_8 | h_10 | h_13 | h_14 | h_18 | h_19 => exact ⟨rfl, Nat.zero_le _, nofun⟩
  all_goals exact ⟨rfl, Nat.le_refl _, fun _ => rfl⟩

theorem reads_step : Reads SpellsStep takeStep where
  accepts {s bs} t := by
    rintro ⟨operand, hfits, hlen, hoperand⟩
    have hline := Bytes.takeLE_of_lt (k := 4) hfits.2 t
    have htake := Bytes.takeLE_append hlen (Bytes.encodeLE 4 s.line ++ t)
    have hinstr : instr? (opcode s.instr).1 (Bytes.valueLE operand) = some s.instr := by
      cases h : s.instr.hasOperand with
      | false => exact instr?_of_hasOperand h _
      | true =>
          have hlt : (opcode s.instr).2 < 256 ^ 4 := hfits.1
          rw [hoperand h, Bytes.valueLE_encodeLE, Nat.mod_eq_of_lt hlt, instr?_opcode]
    simp [takeStep, List.append_assoc, htake, hline, hinstr]
  spells {s bs t} h := by
    cases bs with
    | nil => cases h
    | cons number bs =>
        simp only [takeStep, Option.bind_eq_bind, Option.bind_eq_some_iff] at h
        obtain ⟨⟨operand, _⟩, hoperand, ⟨line, _⟩, hline, i, hi, h⟩ := h
        cases h
        obtain ⟨rfl, hle, hmeans⟩ := opcode_of_instr? hi
        obtain ⟨hoperandLt, hoperandBytes⟩ := Bytes.of_takeLE hoperand
        obtain ⟨hlineLt, hlineBytes⟩ := Bytes.of_takeLE hline
        refine ⟨_, .mk (Bytes.encodeLE 4 operand) ⟨Nat.lt_of_le_of_lt hle hoperandLt, hlineLt⟩
          (Bytes.length_encodeLE ..) fun h => by rw [hmeans h], ?_⟩
        rw [List.cons_append, List.cons_append, List.append_assoc, hlineBytes, hoperandBytes]

/-! ## Code objects -/

/-- The bytes in front of the instructions. -/
def head (code : Code) : Bytes :=
  signature ++ encodeText code.file ++ encodeList encodeConst code.consts ++ encodeList encodeText code.names ++
    Bytes.encodeLE 4 code.body.length

theorem toBytes_eq_head (code : Code) : code.toBytes = code.head ++ code.body.flatMap encodeStep := by
  simp only [toBytes, head, encodeList, List.append_assoc]

/-- The bytes of a code object, whatever stands for operands that mean nothing. -/
def Spells (code : Code) (bs : Bytes) : Prop :=
  code.Fits ∧ ∃ steps, SpellsAll SpellsStep code.body steps ∧ code.head ++ steps = bs

/-- Take a code object off the front. -/
def takeCode (bs : Bytes) : Option (Code × Bytes) := do
  let bs ← Bytes.drop? signature bs
  let (file, bs) ← takeText bs
  let (consts, bs) ← takeList takeConst bs
  let (names, bs) ← takeList takeText bs
  let (body, bs) ← takeList takeStep bs
  some (⟨file, consts, names, body⟩, bs)

theorem ofBytes?_eq_takeCode (bs : Bytes) :
    ofBytes? bs = (takeCode bs).bind fun (code, rest) =>
      if rest.isEmpty && jumpsInside code.body then some code else none := by
  simp [ofBytes?, takeCode, Option.bind_assoc]

theorem SpellsAll.forall_fits {steps : List Step} {bs : Bytes} (h : SpellsAll SpellsStep steps bs) :
    ∀ s ∈ steps, s.Fits := by
  induction h with
  | nil => nofun
  | cons hs _ ih =>
      cases hs with
      | mk operand hfits => exact List.forall_mem_cons.mpr ⟨hfits, ih⟩

theorem reads_code : Reads Spells takeCode where
  accepts {code bs} t := by
    rintro ⟨hfits, steps, hsteps, rfl⟩
    have hbody := reads_step.list.accepts t ⟨hfits.body.1, steps, hsteps, rfl⟩
    rw [List.append_assoc] at hbody
    simp [takeCode, head, List.append_assoc, Bytes.drop?_append, reads_text.accepts _ ⟨hfits.file, rfl⟩,
      reads_const.encodedList.accepts _ ⟨hfits.consts, rfl⟩, reads_text.encodedList.accepts _ ⟨hfits.names, rfl⟩, hbody]
  spells {code bs t} h := by
    simp only [takeCode, Option.bind_eq_bind, Option.bind_eq_some_iff] at h
    obtain ⟨_, hsignature, ⟨file, _⟩, hfile, ⟨consts, _⟩, hconsts, ⟨names, _⟩, hnames, ⟨body, _⟩, hbody, h⟩ := h
    cases h
    obtain rfl := Bytes.append_of_drop? hsignature
    obtain ⟨_, ⟨hfile', rfl⟩, rfl⟩ := reads_text.spells hfile
    obtain ⟨_, ⟨hconsts', rfl⟩, rfl⟩ := reads_const.encodedList.spells hconsts
    obtain ⟨_, ⟨hnames', rfl⟩, rfl⟩ := reads_text.encodedList.spells hnames
    obtain ⟨_, ⟨hlen, steps, hsteps, rfl⟩, rfl⟩ := reads_step.list.spells hbody
    exact ⟨_, ⟨⟨hfile', hconsts', hnames', hlen, hsteps.forall_fits⟩, steps, hsteps, rfl⟩,
      by simp only [head, List.append_assoc]⟩

theorem ofBytes_eq_ok {bs : Bytes} {code : Code} :
    ofBytes bs = .ok code ↔ code.Spells bs ∧ jumpsInside code.body := by
  have hread : ofBytes bs = .ok code ↔ ofBytes? bs = some code := by
    unfold ofBytes
    cases ofBytes? bs <;> simp
  rw [hread, ofBytes?_eq_takeCode, Option.bind_eq_some_iff]
  constructor
  · rintro ⟨⟨code', rest⟩, htake, h⟩
    dsimp only at h
    split at h
    · rename_i hend
      cases h
      rw [Bool.and_eq_true, List.isEmpty_iff] at hend
      obtain ⟨rfl, hjumps⟩ := hend
      obtain ⟨bs, hspells, rfl⟩ := reads_code.spells htake
      exact ⟨(List.append_nil bs).symm ▸ hspells, hjumps⟩
    · cases h
  · rintro ⟨hspells, hjumps⟩
    have htake := reads_code.accepts [] hspells
    rw [List.append_nil] at htake
    exact ⟨_, htake, by simp [hjumps]⟩

/-- A code object is spelled by its own bytes, if it fits. -/
theorem spells_toBytes {code : Code} : code.Spells code.toBytes ↔ code.Fits := by
  rw [toBytes_eq_head]
  exact ⟨And.left, fun h => ⟨h, _, .flatMap fun s hs => spellsStep_encodeStep (h.body.2 s hs), rfl⟩⟩

theorem ofBytes_toBytes_iff {code : Code} :
    ofBytes code.toBytes = .ok code ↔ code.Fits ∧ jumpsInside code.body := by
  rw [ofBytes_eq_ok, spells_toBytes]

/-! ## Front parts -/

/-- The longer one of two byte strings that are read is read like the shorter one, and has nothing behind. -/
theorem eq_of_front {bs bs' : Bytes} {code code' : Code} (h : ofBytes bs = .ok code) (h' : ofBytes bs' = .ok code')
    (hfront : bs <+: bs') : bs = bs' := by
  obtain ⟨tail, rfl⟩ := hfront
  have htake := reads_code.accepts [] (ofBytes_eq_ok.mp h).1
  have htake' := reads_code.accepts [] (ofBytes_eq_ok.mp h').1
  rw [List.append_nil] at htake htake'
  have hsame := htake'.symm.trans (reads_code.append htake tail)
  cases hsame
  exact (List.append_nil bs).symm

theorem ofBytes_eq_error {bs : Bytes} (h : ∀ code, ofBytes bs ≠ .ok code) : ofBytes bs = .error badData := by
  unfold ofBytes at h ⊢
  cases hread : ofBytes? bs with
  | some code => exact absurd (by rw [hread]) (h code)
  | none => rfl

/-- Of two byte strings that are read neither begins with the other, unless they are the same: what is left when bytes
are cut off is refused, and so is all that has something behind. -/
theorem ofBytes_prefixFree {bs : Bytes} {code : Code} (h : ofBytes bs = .ok code) :
    (∀ bs' code', ofBytes bs' = .ok code' → bs <+: bs' ∨ bs' <+: bs → bs' = bs) ∧
    (∀ tail ≠ [], ofBytes (bs ++ tail) = .error badData) ∧
    ∀ n < bs.length, ofBytes (bs.take n) = .error badData := by
  have hfree : ∀ bs' code', ofBytes bs' = .ok code' → bs <+: bs' ∨ bs' <+: bs → bs' = bs := by
    rintro bs' code' h' (hfront | hfront)
    · exact (eq_of_front h h' hfront).symm
    · exact eq_of_front h' h hfront
  refine ⟨hfree, fun tail htail => ?_, fun n hn => ?_⟩
  · refine ofBytes_eq_error fun code' h' => htail ?_
    exact List.append_right_eq_self.mp (hfree _ code' h' (.inl (List.prefix_append ..)))
  · refine ofBytes_eq_error fun code' h' => Nat.ne_of_lt hn ?_
    have heq := congrArg List.length (hfree _ code' h' (.inr (List.take_prefix ..)))
    rwa [List.length_take, Nat.min_eq_left (Nat.le_of_lt hn)] at heq

/-- The bytes of code with a name and a jump to its end, also with a byte less and a byte more. -/
theorem ofBytes_prefixFree_jump :
    let bs : Bytes := [0x4D, 0x43, 1, 1, 0, 0, 0, 0x6D, 0, 0, 0, 0, 1, 0, 0, 0, 1, 0, 0, 0, 0x78, 2, 0, 0, 0,
      2, 0, 0, 0, 0, 1, 0, 0, 0, 15, 2, 0, 0, 0, 1, 0, 0, 0]
    ofBytes bs = .ok ⟨"m", [], ["x"], [⟨.loadName 0, 1⟩, ⟨.jumpIfTrue 2, 1⟩]⟩ ∧
      ofBytes (bs ++ [0]) = .error badData ∧ ofBytes (bs.take 42) = .error badData := by
  intro bs
  have hread : ofBytes bs = .ok ⟨"m", [], ["x"], [⟨.loadName 0, 1⟩, ⟨.jumpIfTrue 2, 1⟩]⟩ := rfl
  obtain ⟨-, hmore, hless⟩ := ofBytes_prefixFree hread
  exact ⟨hread, hmore [0] (by decide), hless 42 (by decide)⟩

end Code

end Launcher.Script
