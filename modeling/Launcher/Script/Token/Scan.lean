import Launcher.Script.Token
import Launcher.Number.Decimal
import Launcher.Text.DigitGroups

/-!
Tokens of a source text. At each place the longest token is taken; blanks, comments and lines
joined by a backslash count for nothing. A newline becomes a token outside brackets and after
another token of its line.
-/
namespace Launcher.Script

/-- Why a text has no tokens. -/
inductive ScanFault where
  | integerTooLarge
  | unterminatedString
  | invalidCharacter (c : Char)
deriving DecidableEq, Repr

/-- A fault and the line on which the token that has it would begin. -/
structure ScanError where
  fault : ScanFault
  line : Nat
deriving DecidableEq, Repr

namespace ScanFault

def message : ScanFault → String
  | integerTooLarge => "integer literal too large"
  | unterminatedString => "unterminated string literal"
  | invalidCharacter c => s!"invalid character '{c}'"

end ScanFault

namespace Scan

def isDigit (c : Char) : Bool := '0' ≤ c && c ≤ '9'

def isNameStart (c : Char) : Bool := ('a' ≤ c && c ≤ 'z') || ('A' ≤ c && c ≤ 'Z') || c == '_'

def isNamePart (c : Char) : Bool := isNameStart c || isDigit c

/-- A blank inside a line. -/
def isGap (c : Char) : Bool := c == ' ' || c == '\t' || c == '\r' || c == '\x0c'

/-- An exponent `e`, sign and digits: its value, and the rest. -/
def exponent? (cs : List Char) : Option (Int × List Char) :=
  let digits (negative : Bool) (cs : List Char) : Option (Int × List Char) :=
    match cs.takeWhile isDigit with
    | [] => none
    | ds =>
      let n : Int := Decimal.valueOf ds
      some (if negative then -n else n, cs.dropWhile isDigit)
  match cs with
  | c :: '-' :: r => if c == 'e' || c == 'E' then digits true r else none
  | c :: '+' :: r => if c == 'e' || c == 'E' then digits false r else none
  | c :: r => if c == 'e' || c == 'E' then digits false r else none
  | [] => none

/-- A floating-point number of the given digits, of which the last `places` follow the point. -/
def float (digits : List Char) (places : Nat) (exponent : Int) : Lexeme :=
  .float (Decimal.toDouble (Decimal.valueOf digits) (exponent - places))

/-- What may follow the digits after a point: an exponent. -/
def fraction (digits : List Char) (places : Nat) (rest : List Char) : Lexeme × List Char :=
  match exponent? rest with
  | some (e, rest) => (float digits places e, rest)
  | none => (float digits places 0, rest)

/-- A number that begins with a digit. -/
def number (cs : List Char) : Except ScanFault (Lexeme × List Char) :=
  let (whole, rest) := digitGroups isDigit cs
  match rest with
  | '.' :: after =>
    let (places, rest) := digitGroups isDigit after
    .ok (fraction (whole ++ places) places.length rest)
  | _ =>
    match exponent? rest with
    | some (e, rest) => .ok (float whole 0 e, rest)
    | none =>
      let n := Decimal.valueOf whole
      if n < 1 <<< 63 then .ok (.int n, rest) else .error .integerTooLarge

/-- What a backslash and the character after it stand for in a string. -/
def escaped : Char → List Char
  | 'n' => ['\n']
  | 't' => ['\t']
  | 'r' => ['\r']
  | '0' => ['\x00']
  | '\\' => ['\\']
  | '\'' => ['\'']
  | '"' => ['"']
  | '\n' => []
  | c => ['\\', c]

/-- The characters of a string up to its closing quote, the newlines crossed on the way, and the
rest. -/
def stringBody (quote : Char) : List Char → Option (List Char × Nat × List Char)
  | [] => none
  | '\\' :: c :: cs => do
    let (value, crossed, rest) ← stringBody quote cs
    some (escaped c ++ value, (if c = '\n' then crossed + 1 else crossed), rest)
  | c :: cs =>
    if c = quote then some ([], 0, cs)
    else if c = '\n' ∨ c = '\\' then none
    else do
      let (value, crossed, rest) ← stringBody quote cs
      some (c :: value, crossed, rest)

/-- A sign of two characters or, failing that, of one. -/
def mark? : List Char → Option (Mark × List Char)
  | '/' :: '/' :: r => some (.doubleSlash, r)
  | '=' :: '=' :: r => some (.doubleEqual, r)
  | '!' :: '=' :: r => some (.notEqual, r)
  | '<' :: '=' :: r => some (.lessEqual, r)
  | '>' :: '=' :: r => some (.greaterEqual, r)
  | '+' :: r => some (.plus, r)
  | '-' :: r => some (.minus, r)
  | '*' :: r => some (.star, r)
  | '/' :: r => some (.slash, r)
  | '%' :: r => some (.percent, r)
  | ',' :: r => some (.comma, r)
  | '.' :: r => some (.dot, r)
  | '=' :: r => some (.equal, r)
  | '<' :: r => some (.less, r)
  | '>' :: r => some (.greater, r)
  | ';' :: r => some (.semicolon, r)
  | '(' :: r => some (.openParen, r)
  | '[' :: r => some (.openBracket, r)
  | ')' :: r => some (.closeParen, r)
  | ']' :: r => some (.closeBracket, r)
  | _ => none

/-- What stands at one place of a text. -/
inductive Piece where
  | gap
  | newline
  | lexeme (l : Lexeme)

/-- The piece at the front of a text that begins with `c`, the newlines inside it, and what
follows it. -/
def piece (c : Char) (cs : List Char) : Except ScanFault (Piece × Nat × List Char) :=
  if isGap c then .ok (.gap, 0, cs)
  else if c = '#' then .ok (.gap, 0, cs.dropWhile (· ≠ '\n'))
  else if c = '\n' then .ok (.newline, 1, cs)
  else if c = '\\' then
    match cs with
    | '\n' :: r => .ok (.gap, 1, r)
    | '\r' :: '\n' :: r => .ok (.gap, 1, r)
    | _ => .error (.invalidCharacter c)
  else if isNameStart c then
    .ok (.lexeme (.name (String.ofList (c :: cs.takeWhile isNamePart))), 0, cs.dropWhile isNamePart)
  else if isDigit c then
    (number (c :: cs)).map fun (l, rest) => (.lexeme l, 0, rest)
  else if c = '.' ∧ cs.head?.any isDigit then
    let digits := cs.takeWhile isDigit
    let (l, rest) := fraction digits digits.length (cs.dropWhile isDigit)
    .ok (.lexeme l, 0, rest)
  else if c = '"' ∨ c = '\'' then
    match stringBody c cs with
    | some (value, crossed, rest) => .ok (.lexeme (.str (String.ofList value)), crossed, rest)
    | none => .error .unterminatedString
  else
    match mark? (c :: cs) with
    | some (m, rest) => .ok (.lexeme (.mark m), 0, rest)
    | none => .error (.invalidCharacter c)

/-- How many brackets are open after a lexeme; one that closes nothing is ignored. -/
def depthAfter (depth : Nat) : Lexeme → Nat
  | .mark m => if m.isOpen then depth + 1 else if m.isClose then depth - 1 else depth
  | _ => depth

/-- Tokens of the text `cs` from line `line` on. `depth` brackets are open, and `fresh` says that
the line holds no token yet. Each piece has a character, so the length of the text bounds the
steps. -/
def tokens (line depth : Nat) (fresh : Bool) :
    (steps : Nat) → List Char → Except ScanError (List Token)
  | 0, _ | _ + 1, [] =>
    .ok ((if fresh then [] else [⟨.newline, line⟩]) ++ [⟨.endOfSource, line⟩])
  | steps + 1, c :: cs =>
    match piece c cs with
    | .error fault => .error ⟨fault, line⟩
    | .ok (.gap, crossed, rest) => tokens (line + crossed) depth fresh steps rest
    | .ok (.newline, crossed, rest) =>
      if depth = 0 ∧ !fresh then do
        let ts ← tokens (line + crossed) depth true steps rest
        .ok (⟨.newline, line⟩ :: ts)
      else tokens (line + crossed) depth fresh steps rest
    | .ok (.lexeme l, crossed, rest) => do
      let ts ← tokens (line + crossed) (depthAfter depth l) false steps rest
      .ok (⟨l, line⟩ :: ts)

end Scan

/-- The tokens of a source text. -/
def tokenize (source : String) : Except ScanError (List Token) :=
  let cs := source.toList
  Scan.tokens 1 0 true cs.length cs

end Launcher.Script
