/-!
Byte strings as lists, and unsigned integers written with the least significant byte first.
A reader takes a value off the front and returns it with what is left.
-/
namespace Launcher

/-- A byte string. -/
abbrev Bytes := List UInt8

namespace Bytes

/-- The UTF-8 bytes of a text. -/
def ofString (s : String) : Bytes := s.toByteArray.data.toList

/-- The first `n` bytes and the rest, when there are that many. -/
def takeBytes : Nat → Bytes → Option (Bytes × Bytes)
  | 0, bs => some ([], bs)
  | _ + 1, [] => none
  | n + 1, b :: bs => (takeBytes n bs).map fun (h, t) => (b :: h, t)

/-- The `k` low bytes of `v`, least significant first. -/
def encodeLE : Nat → Nat → Bytes
  | 0, _ => []
  | k + 1, v => UInt8.ofNat v :: encodeLE k (v / 256)

/-- The number that bytes spell, least significant first. -/
def valueLE : Bytes → Nat
  | [] => 0
  | b :: bs => b.toNat + 256 * valueLE bs

/-- Take `k` bytes off the front as one number. -/
def takeLE (k : Nat) (bs : Bytes) : Option (Nat × Bytes) :=
  (takeBytes k bs).map fun (h, t) => (valueLE h, t)

/-- Drop `bs` off the front of a byte string that starts with it. -/
def drop? : Bytes → Bytes → Option Bytes
  | [], rest => some rest
  | _ :: _, [] => none
  | b :: bs, c :: cs => if b = c then drop? bs cs else none

end Bytes

end Launcher
