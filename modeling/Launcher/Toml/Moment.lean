import Launcher.Number.Decimal

/-!
Dates, times of day, and dates with a time, with or without an offset from universal time.
-/
namespace Launcher.Toml

/-- The number of the `n` digits at the front of a text, if it is between `lo` and `hi`. -/
def digits? (n lo hi : Nat) (cs : List Char) : Option (Nat × List Char) :=
  let ds := cs.take n
  let value := Decimal.valueOf ds
  if ds.length = n ∧ ds.all Char.isDigit ∧ lo ≤ value ∧ value ≤ hi then some (value, cs.drop n)
  else none

/-- The text after a character. -/
def after? (c : Char) : List Char → Option (List Char)
  | d :: cs => if c = d then some cs else none
  | [] => none

def isLeap (year : Nat) : Bool := year % 4 = 0 && (year % 100 != 0 || year % 400 = 0)

def daysIn (year month : Nat) : Nat :=
  match month with
  | 2 => if isLeap year then 29 else 28
  | 4 | 6 | 9 | 11 => 30
  | _ => 31

/-- The text after a date. -/
def date? (cs : List Char) : Option (List Char) := do
  let (year, cs) ← digits? 4 0 9999 cs
  let (month, cs) ← digits? 2 1 12 (← after? '-' cs)
  let (_, cs) ← digits? 2 1 (daysIn year month) (← after? '-' cs)
  some cs

/-- The text after hours and minutes. -/
def clock? (cs : List Char) : Option (List Char) := do
  let (_, cs) ← digits? 2 0 23 cs
  let (_, cs) ← digits? 2 0 59 (← after? ':' cs)
  some cs

/-- The text after a time of day. A minute may have a leap second. -/
def time? (cs : List Char) : Option (List Char) := do
  let (_, cs) ← digits? 2 0 60 (← after? ':' (← clock? cs))
  match cs with
  | '.' :: d :: cs => some (if d.isDigit then cs.dropWhile Char.isDigit else '.' :: d :: cs)
  | cs => some cs

/-- The text after an offset, if there is one. -/
def skipOffset : List Char → List Char
  | c :: cs =>
    if c = 'Z' ∨ c = 'z' then cs
    else if c = '+' ∨ c = '-' then (clock? cs).getD (c :: cs)
    else c :: cs
  | [] => []

/-- The text after a moment. -/
def moment? (cs : List Char) : Option (List Char) :=
  match date? cs with
  | none => time? cs
  | some (c :: cs) =>
    if c = 'T' ∨ c = 't' ∨ c = ' ' then
      match time? cs with
      | some cs => some (skipOffset cs)
      | none => some (c :: cs)
    else some (c :: cs)
  | some [] => some []

end Launcher.Toml
