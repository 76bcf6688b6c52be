import Launcher.Toml.Moment
import Launcher.Toml.Number
import Launcher.Toml.Table

/-!
Documents read from their text. What stands in brackets or braces nests up to 79 deep, and a key
has up to 79 parts.
-/
namespace Launcher.Toml

def maxDepth : Nat := 79

/-! ## Keys -/

def isBare (c : Char) : Bool := c.isAlphanum || c == '_' || c == '-'

/-- A part of a key. -/
def keyPart? : List Char → Option (String × List Char)
  | '"' :: cs => (basic false false cs).map fun (s, rest) => (String.ofList s, rest)
  | '\'' :: cs => (literal false cs).map fun (s, rest) => (String.ofList s, rest)
  | cs =>
    let (part, rest) := cs.span isBare
    if part.isEmpty then none else some (String.ofList part, rest)

/-- A key of at most the given number of parts, with spaces around them. -/
def keyUpTo : Nat → List Char → Option (Key × List Char)
  | 0, _ => none
  | parts + 1, cs => do
    let (part, rest) ← keyPart? (skipSpace cs)
    match skipSpace rest with
    | '.' :: rest =>
      let (key, rest) ← keyUpTo parts rest
      some ({ key with tables := part :: key.tables }, rest)
    | rest => some (⟨[], part⟩, rest)

def key? (cs : List Char) : Option (Key × List Char) := keyUpTo maxDepth cs

/-! ## Values -/

/-- A reader of values. -/
abbrev Reader := List Char → Option (Value × List Char)

/-- A value that is not made of others. -/
def scalar? : Reader
  | 't' :: 'r' :: 'u' :: 'e' :: cs => some (.boolean true, cs)
  | 'f' :: 'a' :: 'l' :: 's' :: 'e' :: cs => some (.boolean false, cs)
  | '"' :: cs => (quoted? ('"' :: cs)).map fun (s, rest) => (.string (String.ofList s), rest)
  | '\'' :: cs => (quoted? ('\'' :: cs)).map fun (s, rest) => (.string (String.ofList s), rest)
  | cs =>
    match moment? cs with
    | some rest => some (.moment, rest)
    | none => number? cs

/-- The items of an array and its closing bracket. A comma may follow the last one. -/
def items (item : Reader) : (rounds : Nat) → List Char → Option (List Value × List Char)
  | 0, _ => none
  | rounds + 1, cs => do
    match ← skipLines false cs with
    | ']' :: rest => some ([], rest)
    | cs =>
      let (v, rest) ← item cs
      match ← skipLines false rest with
      | ',' :: rest =>
        let (vs, rest) ← items item rounds rest
        some (v :: vs, rest)
      | ']' :: rest => some ([v], rest)
      | _ => none

/-- A key, an equals sign and a value. -/
def pair? (item : Reader) (cs : List Char) : Option ((Key × Value) × List Char) := do
  let (key, rest) ← key? cs
  let (v, rest) ← item (skipSpace (← after? '=' rest))
  some ((key, v), rest)

/-- The keys and values of a table in braces and its closing brace. -/
def pairs (item : Reader) : (rounds : Nat) → List Char → Option (List (Key × Value) × List Char)
  | 0, _ => none
  | rounds + 1, cs => do
    let (p, rest) ← pair? item cs
    match skipSpace rest with
    | ',' :: rest =>
      let (ps, rest) ← pairs item rounds rest
      some (p :: ps, rest)
    | '\x7d' :: rest => some ([p], rest)
    | _ => none

/-- A table after its opening brace. -/
def inlineTable (item : Reader) (cs : List Char) : Option (Value × List Char) := do
  let (ps, rest) ←
    match skipSpace cs with
    | '\x7d' :: rest => some ([], rest)
    | _ => pairs item cs.length cs
  some (.table .inline (← ofPairs ps), rest)

/-- A value, in which others may nest so many deep. -/
def value? : (depth : Nat) → Reader
  | 0, cs => scalar? cs
  | depth + 1, cs =>
    match cs with
    | '[' :: rest =>
      (items (value? depth) (rest.length + 1) rest).map fun (vs, rest) => (.array vs, rest)
    | '\x7b' :: rest => inlineTable (value? depth) rest
    | cs => scalar? cs

/-! ## Documents -/

/-- The header after its opening brackets. -/
def header? (element : Bool) (cs : List Char) : Option (Line × List Char) := do
  let (key, rest) ← key? cs
  let rest ← after? ']' rest
  let rest ← if element then after? ']' rest else some rest
  some (.header element key, rest)

/-- A header, or a key and its value. -/
def line? : List Char → Option (Line × List Char)
  | '[' :: '[' :: cs => header? true cs
  | '[' :: cs => header? false cs
  | cs => (pair? (value? maxDepth) cs).map fun ((k, v), rest) => (.entry k v, rest)

/-- Lines, of which there are at most `rounds`. -/
def lines : (rounds : Nat) → List Char → Option (List Line)
  | 0, _ => none
  | rounds + 1, cs => do
    match ← skipLines false cs with
    | [] => some []
    | cs =>
      let (l, rest) ← line? cs
      let ls ← lines rounds (← endLine? rest)
      some (l :: ls)

/-- The table that a text means. A mark of byte order may stand in front. -/
def parse? (text : String) : Option Value := do
  let cs :=
    match text.toList with
    | '\uFEFF' :: cs => cs
    | cs => cs
  ofLines (← lines (cs.length + 1) cs)

end Launcher.Toml
