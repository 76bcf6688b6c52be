import Launcher.Number.Double

/-!
Decimal digits of a binary64 number: the fewest that read back as the same number, and the number
that digits spell.
-/
namespace Launcher

/-- A positive decimal number `0.d₁d₂… * 10 ^ point`, by its digits. The first and the last digit
are not zero. -/
structure Decimal where
  digits : List Char
  point : Int
deriving DecidableEq, Repr

namespace Decimal

/-- Digits of a number, most significant first. -/
def digitsOf (n : Nat) : List Char := Nat.toDigits 10 n

/-- The number that decimal digits spell. -/
def valueOf (digits : List Char) : Nat :=
  digits.foldl (fun n c => 10 * n + (c.toNat - '0'.toNat)) 0

/-- The `p` with `10 ^ (p - 1) ≤ num / den < 10 ^ p`, for a positive fraction. -/
def decade (num den : Nat) : Int :=
  if den ≤ num then (digitsOf (num / den)).length
  else 1 - ((digitsOf ((den + num - 1) / num - 1)).length : Int)

/-- A finite positive number and the interval of reals that round to it, all over `2 ^ scale`:
`low` and `high` are the ends, and they belong to it when the significand is even. -/
structure Interval where
  low : Nat
  value : Nat
  high : Nat
  scale : Int
  closed : Bool

/-- The numbers next to `x` lie half as far below as above when `x` is a power of two. -/
def interval (x : Double) : Interval :=
  let m := x.significand
  let below := if x.fraction = 0 ∧ 1 < x.exponentField then 1 else 2
  ⟨4 * m - below, 4 * m, 4 * m + 2, x.exponent - 2, m % 2 = 0⟩

/-- The point of the grid of step `10 ^ k` that lies in the interval and is nearest to its value,
as a multiple of the step: of the two neighbours of the value, the upper one on a tie. -/
def onGrid? (i : Interval) (k : Int) : Option Nat :=
  let up := Nat.pow 10 (-k).toNat <<< i.scale.toNat
  let step := Nat.pow 10 k.toNat <<< (-i.scale).toNat
  let value := i.value * up
  let inside (d : Nat) : Bool :=
    if i.closed then i.low * up ≤ d * step && d * step ≤ i.high * up
    else i.low * up < d * step && d * step < i.high * up
  let d := value / step
  match inside d, inside (d + 1) with
  | true, true => some (if step ≤ 2 * (value % step) then d + 1 else d)
  | true, false => some d
  | false, true => some (d + 1)
  | false, false => none

/-- The first hit on the grids with ever more digits. -/
def firstGrid (i : Interval) (point : Int) : (tries digits : Nat) → Decimal
  | 0, _ => ⟨digitsOf i.value, point⟩
  | tries + 1, digits =>
    match onGrid? i (point - digits) with
    | some d =>
      let ds := digitsOf d
      ⟨(ds.reverse.dropWhile (· = '0')).reverse, point + ds.length - digits⟩
    | none => firstGrid i point tries (digits + 1)

/-- The fewest digits that read back as the finite positive number `x`, and of those the nearest
to it. Seventeen digits always do. -/
def shortest (x : Double) : Decimal :=
  let i := interval x
  let point := decade (i.value <<< i.scale.toNat) (1 <<< (-i.scale).toNat)
  firstGrid i point 17 1

/-- Written as `d.ddd` times a power of ten; the exponent has a sign and two digits at least. -/
def scientific (d : Decimal) : String :=
  let e := d.point - 1
  let size := digitsOf e.natAbs
  let exponent := (if e < 0 then '-' else '+') :: (if size.length < 2 then '0' :: size else size)
  let mantissa :=
    match d.digits with
    | [] => ['0']
    | [c] => [c]
    | c :: cs => c :: '.' :: cs
  String.ofList (mantissa ++ 'e' :: exponent)

/-- Written with a decimal point, for a number that is not whole. -/
def positional (d : Decimal) : String :=
  if d.point ≤ 0 then
    String.ofList ('0' :: '.' :: List.replicate (-d.point).toNat '0' ++ d.digits)
  else
    let n := d.point.toNat
    String.ofList (d.digits.take n ++ '.' :: d.digits.drop n)

/-- The number nearest to `n * 10 ^ scale`. Sizes beyond the range of finite numbers are settled
without computing the power. -/
def toDouble (n : Nat) (scale : Int) : Double :=
  let top := (digitsOf n).length + scale
  if n = 0 ∨ top < -330 then ⟨0⟩
  else if 310 < top then ⟨0x7ff0000000000000⟩
  else Double.ofFloat (Float.ofScientific n (scale < 0) scale.natAbs)

end Decimal

end Launcher
