import Launcher.Bytes.Basic

/-!
Text read from UTF-8 bytes. Bytes that are no text are refused with the place where they stop
being one and what is wrong there.
-/
namespace Launcher

/-- Why bytes are not UTF-8: the text before `index` is sound, and what follows is either a
character cut off by the end or `length` bytes that begin no character. -/
inductive Utf8Fault where
  | incomplete (index : Nat)
  | invalid (length index : Nat)
deriving DecidableEq, Repr

namespace Utf8Fault

def message : Utf8Fault → String
  | incomplete i => s!"incomplete utf-8 byte sequence from index {i}"
  | invalid n i => s!"invalid utf-8 sequence of {n} bytes from index {i}"

end Utf8Fault

namespace Utf8

/-- For the first byte of a character of several bytes: how many follow it, and the range of
the first of those. The range leaves out spellings that are too long, surrogates and numbers
past the last character. -/
def lead? (b : UInt8) : Option (Nat × UInt8 × UInt8) :=
  if 0xC2 ≤ b ∧ b ≤ 0xDF then some (1, 0x80, 0xBF)
  else if b = 0xE0 then some (2, 0xA0, 0xBF)
  else if b = 0xED then some (2, 0x80, 0x9F)
  else if 0xE1 ≤ b ∧ b ≤ 0xEF then some (2, 0x80, 0xBF)
  else if b = 0xF0 then some (3, 0x90, 0xBF)
  else if b = 0xF4 then some (3, 0x80, 0x8F)
  else if 0xF1 ≤ b ∧ b ≤ 0xF3 then some (3, 0x80, 0xBF)
  else none

/-- What is wrong with `bs` as text, where `next` is the rest of the character under way: how
many bytes it still needs, the range of the next one, and how many it has. `start` is where the
current character began. -/
def fault? (start : Nat) (next : Option (Nat × UInt8 × UInt8 × Nat)) : Bytes → Option Utf8Fault
  | [] => next.map fun _ => .incomplete start
  | b :: bs =>
    match next with
    | none =>
      if b < 0x80 then fault? (start + 1) none bs
      else
        match lead? b with
        | none => some (.invalid 1 start)
        | some (more, lo, hi) => fault? start (some (more, lo, hi, 1)) bs
    | some (more, lo, hi, seen) =>
      if lo ≤ b ∧ b ≤ hi then
        if more ≤ 1 then fault? (start + seen + 1) none bs
        else fault? start (some (more - 1, 0x80, 0xBF, seen + 1)) bs
      else some (.invalid seen start)

/-- The text that bytes spell. -/
def decode? (bs : Bytes) : Option String := String.fromUTF8? ⟨bs.toArray⟩

/-- The text that bytes spell, or why they spell none. -/
def decode (bs : Bytes) : Except Utf8Fault String :=
  match decode? bs with
  | some s => .ok s
  | none => .error ((fault? 0 none bs).getD (.incomplete bs.length))

/-- The text that bytes spell, with a mark in place of each stretch that spells none. A round gets
past at least one byte. -/
def lossyFrom : (rounds : Nat) → Bytes → String
  | 0, _ => ""
  | rounds + 1, bs =>
    match decode bs with
    | .ok s => s
    | .error (.incomplete i) => (decode? (bs.take i)).getD "" ++ "\uFFFD"
    | .error (.invalid n i) =>
      (decode? (bs.take i)).getD "" ++ "\uFFFD" ++ lossyFrom rounds (bs.drop (i + n))

def decodeLossy (bs : Bytes) : String := lossyFrom (bs.length + 1) bs

/-- Reading the bytes of a text gives the text. -/
@[simp] theorem decode?_ofString (s : String) : decode? (Bytes.ofString s) = some s := by
  have h : (⟨(Bytes.ofString s).toArray⟩ : ByteArray) = s.toByteArray := by
    simp [Bytes.ofString]
  rw [decode?, h, String.fromUTF8?]
  simp [String.fromUTF8, s.isValidUTF8]

/-- A text needs no marks. -/
@[simp] theorem decodeLossy_ofString (s : String) : decodeLossy (Bytes.ofString s) = s := by
  simp [decodeLossy, lossyFrom, decode]

end Utf8

end Launcher
