import Launcher.Number.Decimal
import Launcher.Toml.Space

/-!
Texts in quotes. Backslashes mean something between double quotes only. Three quotes open and close
a text of several lines, whose newlines are all read as line feeds and whose first one counts for
nothing.
-/
namespace Launcher.Toml

/-- The value of a hexadecimal digit. -/
def hexDigit? (c : Char) : Option Nat :=
  if '0' ≤ c ∧ c ≤ '9' then some (c.toNat - '0'.toNat)
  else if 'a' ≤ c ∧ c ≤ 'f' then some (c.toNat - 'a'.toNat + 10)
  else if 'A' ≤ c ∧ c ≤ 'F' then some (c.toNat - 'A'.toNat + 10)
  else none

/-- The character with the number that hexadecimal digits spell. -/
def codePoint? (digits : List Char) : Option Char := do
  let n ← digits.foldlM (fun n c => (hexDigit? c).map (16 * n + ·)) 0
  if n.isValidChar then some (Char.ofNat n) else none

/-- What a backslash and the character after it stand for. -/
def escape? : Char → Option Char
  | 'b' => some '\x08'
  | 'f' => some '\x0c'
  | 'n' => some '\n'
  | 'r' => some '\r'
  | 't' => some '\t'
  | '"' => some '"'
  | '\\' => some '\\'
  | _ => none

/-- A text and what follows it. -/
abbrev Reading := Option (List Char × List Char)

/-- A character in front of a text. -/
def onto (c : Char) (r : Reading) : Reading := r.map fun (cs, rest) => (c :: cs, rest)

/-- What follows three closing quotes: up to two more belong to the text. -/
def closing (quote : Char) : List Char → List Char × List Char
  | c :: d :: cs =>
    if c = quote then if d = quote then ([c, d], cs) else ([c], d :: cs) else ([], c :: d :: cs)
  | [c] => if c = quote then ([c], []) else ([], [c])
  | [] => ([], [])

/-- The text up to its closing double quotes. `block` says that it may have several lines, and
`joined` that it comes after a backslash at the end of a line. -/
def basic (block joined : Bool) : List Char → Reading
  | [] => none
  | '\\' :: 'u' :: a :: b :: c :: d :: cs => do
    onto (← codePoint? [a, b, c, d]) (basic block false cs)
  | '\\' :: 'U' :: a :: b :: c :: d :: e :: f :: g :: h :: cs => do
    onto (← codePoint? [a, b, c, d, e, f, g, h]) (basic block false cs)
  | '\\' :: c :: cs =>
    match escape? c with
    | some x => onto x (basic block false cs)
    | none =>
      if block ∧ (newline? (skipSpace (c :: cs))).isSome then basic block true (c :: cs) else none
  | '"' :: cs =>
    if !block then some ([], cs)
    else
      match cs with
      | '"' :: '"' :: rest => some (closing '"' rest)
      | _ => onto '"' (basic block false cs)
  | '\r' :: '\n' :: cs =>
    if !block then none
    else if joined then basic block true cs
    else onto '\n' (basic block false cs)
  | c :: cs =>
    if joined ∧ (isSpace c ∨ c = '\n') then basic block true cs
    else if isPlain c ∨ (block ∧ c = '\n') then onto c (basic block false cs)
    else none

/-- The text up to its closing single quotes. -/
def literal (block : Bool) : List Char → Reading
  | [] => none
  | '\'' :: cs =>
    if !block then some ([], cs)
    else
      match cs with
      | '\'' :: '\'' :: rest => some (closing '\'' rest)
      | _ => onto '\'' (literal block cs)
  | '\r' :: '\n' :: cs => if block then onto '\n' (literal block cs) else none
  | c :: cs => if isPlain c ∨ (block ∧ c = '\n') then onto c (literal block cs) else none

/-- A text in quotes of any kind. -/
def quoted? : List Char → Reading
  | '"' :: '"' :: '"' :: cs => basic true false ((newline? cs).getD cs)
  | '\'' :: '\'' :: '\'' :: cs => literal true ((newline? cs).getD cs)
  | '"' :: cs => basic false false cs
  | '\'' :: cs => literal false cs
  | _ => none

end Launcher.Toml
