import Launcher.Script.Token
import Launcher.Script.Tree

/-!
Syntax trees of token lists. Operators bind, from loosest to tightest: `or`, `and`, `not`, one
comparison, `+ -`, `* / // %`, sign, and last calls, attributes and subscripts; operators of two
operands group to the left.

A reader works on a cursor, the tokens still to come and the line of the last one taken. It
returns a value and the cursor behind it, or the cursor at which the tokens stop making sense.
Inner expressions stand behind a bracket, so the number of tokens bounds how deep they nest, and
each round of a loop takes a token.
-/
namespace Launcher.Script

/-- A place in a token list. -/
structure Cursor where
  line : Nat
  rest : List Token
deriving DecidableEq, Repr

namespace Cursor

/-- The line an error at this place is reported on: that of the token to come or, after the last
token, that of the last. -/
def errorLine (c : Cursor) : Nat :=
  match c.rest with
  | t :: _ => t.line
  | [] => c.line

/-- Take the next token, if there is one. -/
def skip (c : Cursor) : Cursor :=
  match c.rest with
  | t :: ts => ⟨t.line, ts⟩
  | [] => c

/-- What comes next; after the last token the source has ended. -/
def peek (c : Cursor) : Lexeme :=
  match c.rest with
  | t :: _ => t.lexeme
  | [] => .endOfSource

/-- Take the mark `m` if it comes next. -/
def mark? (m : Mark) (c : Cursor) : Option Cursor :=
  if c.peek = .mark m then some c.skip else none

/-- Take the word `word` if it comes next. -/
def word? (word : String) (c : Cursor) : Option Cursor :=
  if c.peek = .name word then some c.skip else none

end Cursor

/-- A function from a cursor to a value and the cursor behind it. -/
abbrev Reader (α : Type) := Cursor → Except Cursor (α × Cursor)

namespace Reader

/-- Take a name that is no keyword. The token is taken also where it is refused. -/
def name : Reader String := fun c =>
  match c.peek with
  | .name s => if isKeyword s then .error c.skip else .ok (s, c.skip)
  | _ => .error c.skip

/-- Take the mark `m`. -/
def expect (m : Mark) : Reader Unit := fun c =>
  match c.mark? m with
  | some c => .ok ((), c)
  | none => .error c

/-- Further operands after `left`, each behind an operator that `op?` knows, grouped to the left.
`make` gets the line of the operator and the line of the right operand's end. -/
def leftChain (operand : Reader Expr) (op? : Lexeme → Option (Nat → Nat → Expr → Expr → Expr)) :
    (rounds : Nat) → Expr → Reader Expr
  | 0, left, c => .ok (left, c)
  | rounds + 1, left, c =>
    match op? c.peek with
    | none => .ok (left, c)
    | some make => do
      let opLine := c.skip.line
      let (right, c) ← operand c.skip
      leftChain operand op? rounds (make opLine c.line left right) c

/-- Operands joined by operators that group to the left. -/
def leftJoined (operand : Reader Expr)
    (op? : Lexeme → Option (Nat → Nat → Expr → Expr → Expr)) : Reader Expr := fun c => do
  let (first, c) ← operand c
  leftChain operand op? c.rest.length first c

/-- Expressions with commas between them, and possibly one at the end, up to the mark `close`. -/
def items (expression : Reader Expr) (close : Mark) : (rounds : Nat) → Reader (List Expr)
  | 0, c => .error c
  | rounds + 1, c =>
    match c.mark? close with
    | some c => .ok ([], c)
    | none => do
      let (e, c) ← expression c
      match c.mark? .comma with
      | some c =>
        let (es, c) ← items expression close rounds c
        .ok (e :: es, c)
      | none =>
        let (_, c) ← expect close c
        .ok ([e], c)

/-- The strings that follow a string literal. -/
def moreStrings : (rounds : Nat) → Cursor → String × Cursor
  | 0, c => ("", c)
  | rounds + 1, c =>
    match c.peek with
    | .str s =>
      let (more, c) := moreStrings rounds c.skip
      (s ++ more, c)
    | _ => ("", c)

/-- A literal, a name, or an expression or list in brackets. -/
def atom (expression : Reader Expr) : Reader Expr := fun c =>
  let next := c.skip
  match c.peek with
  | .int n => .ok (.const next.line (.int (Int64.ofNat n)), next)
  | .float x => .ok (.const next.line (.float x), next)
  | .str s =>
    let (more, c) := moreStrings next.rest.length next
    .ok (.const c.line (.str (s ++ more)), c)
  | .name "None" => .ok (.const next.line .none, next)
  | .name "True" => .ok (.const next.line (.bool true), next)
  | .name "False" => .ok (.const next.line (.bool false), next)
  | .name s => if isKeyword s then .error c else .ok (.name next.line s, next)
  | .mark .openParen => do
    let (e, c) ← expression next
    let (_, c) ← expect .closeParen c
    .ok (e, c)
  | .mark .openBracket => do
    let (es, c) ← items expression .closeBracket (next.rest.length + 1) next
    .ok (.list c.line es, c)
  | .newline | .endOfSource => .error next
  | _ => .error c

/-- Calls, attributes and subscripts behind `e`. -/
def suffixes (expression : Reader Expr) : (rounds : Nat) → Expr → Reader Expr
  | 0, e, c => .ok (e, c)
  | rounds + 1, e, c =>
    match c.peek with
    | .mark .openParen => do
      let (args, c) ← items expression .closeParen (c.rest.length + 1) c.skip
      suffixes expression rounds (.call c.line e args) c
    | .mark .dot => do
      let (id, c) ← name c.skip
      suffixes expression rounds (.attr c.line e id) c
    | .mark .openBracket => do
      let (index, c) ← expression c.skip
      let (_, c) ← expect .closeBracket c
      suffixes expression rounds (.subscript c.line e index) c
    | _ => .ok (e, c)

/-- An atom with what follows it directly. -/
def primary (expression : Reader Expr) : Reader Expr := fun c => do
  let (e, c) ← atom expression c
  suffixes expression c.rest.length e c

/-- An operand with signs in front; a plus sign leaves no node. -/
def signed (operand : Reader Expr) : (rounds : Nat) → Reader Expr
  | 0, c => operand c
  | rounds + 1, c =>
    match c.peek with
    | .mark .minus => do
      let (e, c) ← signed operand rounds c.skip
      .ok (.negate c.line e, c)
    | .mark .plus => signed operand rounds c.skip
    | _ => operand c

def factorOp? : Lexeme → Option BinaryOp
  | .mark .star => some .mul
  | .mark .slash => some .div
  | .mark .doubleSlash => some .floorDiv
  | .mark .percent => some .mod
  | _ => none

def termOp? : Lexeme → Option BinaryOp
  | .mark .plus => some .add
  | .mark .minus => some .sub
  | _ => none

def comparison? : Lexeme → Option Comparison
  | .mark .doubleEqual => some .eq
  | .mark .notEqual => some .ne
  | .mark .less => some .lt
  | .mark .lessEqual => some .le
  | .mark .greater => some .gt
  | .mark .greaterEqual => some .ge
  | _ => none

/-- The node of an arithmetic operator, on the line where its right operand ends. -/
def binaryNode (op : BinaryOp) : Nat → Nat → Expr → Expr → Expr :=
  fun _ line left right => .binary line op left right

def sum (expression : Reader Expr) : Reader Expr :=
  leftJoined
    (leftJoined (fun c => signed (primary expression) c.rest.length c)
      fun l => (factorOp? l).map binaryNode)
    fun l => (termOp? l).map binaryNode

/-- One sum, or two that are compared. -/
def compared (expression : Reader Expr) : Reader Expr := fun c => do
  let (left, c) ← sum expression c
  match comparison? c.peek with
  | none => .ok (left, c)
  | some op =>
    let (right, c) ← sum expression c.skip
    .ok (.compare c.line op left right, c)

/-- An operand with `not` in front, any number of times. -/
def negated (operand : Reader Expr) : (rounds : Nat) → Reader Expr
  | 0, c => operand c
  | rounds + 1, c =>
    match c.word? "not" with
    | none => operand c
    | some c => do
      let (e, c) ← negated operand rounds c
      .ok (.not c.line e, c)

/-- The node of a word that joins two operands, on the line of the word. -/
def wordNode (word : String) (node : Nat → Expr → Expr → Expr) (l : Lexeme) :
    Option (Nat → Nat → Expr → Expr → Expr) :=
  if l = .name word then some fun line _ left right => node line left right else none

def conjunction (expression : Reader Expr) : Reader Expr :=
  leftJoined (fun c => negated (compared expression) c.rest.length c) (wordNode "and" .and)

def disjunction (expression : Reader Expr) : Reader Expr :=
  leftJoined (conjunction expression) (wordNode "or" .or)

/-- An expression in which brackets nest less than `depth` deep. -/
def expressionWithin : (depth : Nat) → Reader Expr
  | 0, c => .error c
  | depth + 1, c => disjunction (expressionWithin depth) c

def expression : Reader Expr := fun c => expressionWithin (c.rest.length + 1) c

/-! ## Statements -/

/-- More components of a dotted name, each behind a dot. -/
def moreComponents : (rounds : Nat) → String → Reader String
  | 0, dotted, c => .ok (dotted, c)
  | rounds + 1, dotted, c =>
    match c.mark? .dot with
    | none => .ok (dotted, c)
    | some c => do
      let (id, c) ← name c
      moreComponents rounds (dotted ++ "." ++ id) c

/-- Dotted names with commas between them, each with the line of its end. -/
def dottedNames : (rounds : Nat) → Reader (List (Nat × String))
  | 0, c => .error c
  | rounds + 1, c => do
    let (first, c) ← name c
    let (dotted, c) ← moreComponents c.rest.length first c
    match c.mark? .comma with
    | none => .ok ([(c.line, dotted)], c)
    | some next =>
      let (more, d) ← dottedNames rounds next
      .ok ((c.line, dotted) :: more, d)

/-- What follows the word `assert`. -/
def assertion : Reader Statement := fun c => do
  let (test, c) ← expression c
  match c.mark? .comma with
  | none => .ok (.assert c.line test c.line none, c)
  | some next =>
    let (message, d) ← expression next
    .ok (.assert c.line test d.line (some message), d)

/-- What follows the word `raise`. Without a class it is a complaint that nothing is being
handled. -/
def raising : Reader Statement := fun c =>
  let bare : Statement :=
    .raise c.line "RuntimeError" c.line
      (some (.const c.line (.str "No active exception to reraise")))
  match c.peek with
  | .newline | .endOfSource | .mark .semicolon => .ok (bare, c)
  | _ => do
    let (kind, c) ← name c
    match c.mark? .openParen with
    | none => .ok (.raise c.line kind c.line none, c)
    | some next =>
      match next.mark? .closeParen with
      | some d => .ok (.raise c.line kind d.line none, d)
      | none =>
        let (message, d) ← expression next
        let (_, d) ← expect .closeParen d
        .ok (.raise c.line kind d.line (some message), d)

/-- What follows the `=` of an assignment. -/
def assignment (id : String) : Reader Statement := fun c => do
  let (value, c) ← expression c
  .ok (.assign c.line id value, c)

def simpleStatement : Reader Statement := fun c =>
  let next := c.skip
  match c.peek, next.peek with
  | .name "import", _ => do
    let (names, c) ← dottedNames (next.rest.length + 1) next
    .ok (.imports names, c)
  | .name "assert", _ => assertion next
  | .name "raise", _ => raising next
  | .name "pass", _ => .ok (.pass, next)
  | .name _, .mark .equal => do
    let (id, c) ← name c
    assignment id c.skip
  | _, _ => do
    let (e, c) ← expression c
    .ok (.expression c.line e, c)

/-- Statements behind semicolons; one semicolon may end the line. -/
def moreStatements : (rounds : Nat) → Reader (List Statement)
  | 0, c => .ok ([], c)
  | rounds + 1, c =>
    match c.mark? .semicolon with
    | none => .ok ([], c)
    | some c =>
      match c.peek with
      | .newline | .endOfSource => .ok ([], c)
      | _ => do
        let (s, c) ← simpleStatement c
        let (ss, c) ← moreStatements rounds c
        .ok (s :: ss, c)

/-- The statements of a line, and its end. -/
def statementLine : Reader (List Statement) := fun c => do
  let (s, c) ← simpleStatement c
  let (ss, c) ← moreStatements c.rest.length c
  match c.peek with
  | .newline | .endOfSource => .ok (s :: ss, c.skip)
  | _ => .error c

/-- Lines up to the end of the source. -/
def program : (rounds : Nat) → Reader Program
  | 0, c => .ok ([], c)
  | rounds + 1, c =>
    match c.peek with
    | .newline => program rounds c.skip
    | .endOfSource => .ok ([], c)
    | _ => do
      let (ss, c) ← statementLine c
      let (more, c) ← program rounds c
      .ok (ss ++ more, c)

end Reader

/-- The program that tokens spell, or the line on which they stop making sense. -/
def Program.ofTokens (ts : List Token) : Except Nat Program :=
  match Reader.program ts.length ⟨1, ts⟩ with
  | .ok (p, _) => .ok p
  | .error c => .error c.errorLine

end Launcher.Script
