/-!
Digits in groups that single underscores join.
-/
namespace Launcher

/-- More digits after a digit: the digits alone, and the rest. -/
def moreDigits (isDigit : Char → Bool) : List Char → List Char × List Char
  | '_' :: d :: cs =>
    if isDigit d then
      let (digits, rest) := moreDigits isDigit cs
      (d :: digits, rest)
    else ([], '_' :: d :: cs)
  | c :: cs =>
    if isDigit c then
      let (digits, rest) := moreDigits isDigit cs
      (c :: digits, rest)
    else ([], c :: cs)
  | [] => ([], [])

/-- The digits at the front of a text, without the underscores between them, and the rest. -/
def digitGroups (isDigit : Char → Bool) : List Char → List Char × List Char
  | c :: cs =>
    if isDigit c then
      let (digits, rest) := moreDigits isDigit cs
      (c :: digits, rest)
    else ([], c :: cs)
  | [] => ([], [])

end Launcher
