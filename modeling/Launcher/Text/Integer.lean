import Launcher.Number.Decimal

/-!
Integers read from texts of ASCII digits. A plus sign may stand in front; a minus sign only where
negative numbers exist.
-/
namespace Launcher

/-- The number that a nonempty list of digits spells, if it is below `limit`. -/
def digitsBelow? (limit : Nat) (cs : List Char) : Option Nat :=
  if !cs.isEmpty && cs.all Char.isDigit then
    let n := Decimal.valueOf cs
    if n < limit then some n else none
  else none

/-- The number below `limit` that a text spells. -/
def natBelow? (limit : Nat) (s : String) : Option Nat :=
  match s.toList with
  | '+' :: cs => digitsBelow? limit cs
  | cs => digitsBelow? limit cs

/-- The integer of 64 bits that a text spells. -/
def int64? (s : String) : Option Int64 :=
  match s.toList with
  | '-' :: cs => (digitsBelow? ((1 <<< 63) + 1) cs).map fun n => Int64.ofInt (-(n : Int))
  | '+' :: cs => (digitsBelow? (1 <<< 63) cs).map Int64.ofNat
  | cs => (digitsBelow? (1 <<< 63) cs).map Int64.ofNat

end Launcher
