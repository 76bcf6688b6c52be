import Launcher.Number.Decimal
import Launcher.Text.DigitGroups
import Launcher.Toml.Quoted
import Launcher.Toml.Value

/-!
Numbers. Whole ones have 64 bits, and are decimal without zeros in front or, without a sign,
hexadecimal, octal or binary. Others have a point or an exponent, or are `inf` or `nan`; a number
that is too large is refused.
-/
namespace Launcher.Toml

/-- The whole number of a nonempty text of digits in a base. -/
def based (base : Nat) (cs : List Char) : Option (Value × List Char) := do
  let (digits, rest) := digitGroups (fun c => (hexDigit? c).any (· < base)) cs
  let n := digits.foldl (fun n c => base * n + (hexDigit? c).getD 0) 0
  if digits.isEmpty ∨ 1 <<< 63 ≤ n then none else some (.integer n, rest)

/-- The digits before a point or an exponent. -/
def wholeDigits : List Char → List Char × List Char
  | '0' :: cs => (['0'], cs)
  | cs => digitGroups Char.isDigit cs

/-- The exponent at the front of a text. -/
def exponent? (cs : List Char) : Option (Int × List Char) := do
  let (negative, cs) :=
    match cs with
    | '+' :: cs => (false, cs)
    | '-' :: cs => (true, cs)
    | cs => (false, cs)
  let (digits, rest) := digitGroups Char.isDigit cs
  let n : Int := Decimal.valueOf digits
  if digits.isEmpty then none else some (if negative then -n else n, rest)

/-- The number of the given digits, of which the last `places` follow the point. -/
def float? (negative : Bool) (digits : List Char) (places : Nat) (exponent : Int) :
    Option Value :=
  let x := Decimal.toDouble (Decimal.valueOf digits) (exponent - places)
  if negative then some (.float x.neg) else if x.isInfinite then none else some (.float x)

/-- The number that follows its sign. A point wants digits after it, and so does an exponent. -/
def decimal? (negative : Bool) (cs : List Char) : Option (Value × List Char) := do
  let (whole, rest) := wholeDigits cs
  if whole.isEmpty then none
  let finish (digits : List Char) (places : Nat) (rest : List Char) :
      Option (Value × List Char) := do
    match rest with
    | c :: after =>
      if c = 'e' ∨ c = 'E' then
        let (e, rest) ← exponent? after
        some (← float? negative digits places e, rest)
      else some (← float? negative digits places 0, rest)
    | [] => some (← float? negative digits places 0, rest)
  match rest with
  | '.' :: after =>
    let (places, rest) := digitGroups Char.isDigit after
    if places.isEmpty then none else finish (whole ++ places) places.length rest
  | _ =>
    if rest.head?.any fun c => c = 'e' ∨ c = 'E' then finish whole 0 rest
    else
      let n := Decimal.valueOf whole
      if (if negative then 1 <<< 63 else (1 <<< 63) - 1) < n then none
      else some (.integer (if negative then -(n : Int) else n), rest)

/-- A number or a word for one, after its sign. -/
def signed? (negative : Bool) : List Char → Option (Value × List Char)
  | 'i' :: 'n' :: 'f' :: cs =>
    some (.float ⟨if negative then 0xfff0000000000000 else 0x7ff0000000000000⟩, cs)
  | 'n' :: 'a' :: 'n' :: cs => some (.float Double.nan, cs)
  | cs => decimal? negative cs

def number? : List Char → Option (Value × List Char)
  | '0' :: 'x' :: cs => based 16 cs
  | '0' :: 'o' :: cs => based 8 cs
  | '0' :: 'b' :: cs => based 2 cs
  | '+' :: cs => signed? false cs
  | '-' :: cs => signed? true cs
  | cs => signed? false cs

end Launcher.Toml
