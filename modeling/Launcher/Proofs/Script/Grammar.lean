import Launcher.Script.Token
import Launcher.Script.Tree

/-!
# The grammar of the script language

What lists of tokens spell, and the trees they spell. The grammar is given by rules alone and says nothing of how
a list is read; operators of two operands group to the left, and each node is on the line of its last token.
-/

namespace Launcher.Script.Grammar

/-- How tightly an operator binds, from the loosest on. -/
inductive Level where
  | disjunction | conjunction | negation | comparison | sum | product | sign | primary | atom
deriving DecidableEq, Repr

/-- The next tighter level, of the operands of a level. -/
def Level.inner : Level → Level
  | disjunction => conjunction
  | conjunction => negation
  | negation => comparison
  | comparison => sum
  | sum => product
  | product => sign
  | sign => primary
  | primary | atom => atom

/-- The line of the last token, or `line` if there is none. -/
def endLine (line : Nat) (ts : List Token) : Nat := ts.foldl (fun _ t => t.line) line

def lastLine (ts : List Token) : Nat := endLine 0 ts

/-- A name of a variable, a module or an attribute. -/
def IsName (id : String) : Prop := id ∉ keywords

/-- The operators that group to the left, and the node of each: `last` is the line on which the right operand
ends. -/
inductive Joins : Level → Token → (last : Nat) → Expr → Expr → Expr → Prop where
  | or {line last : Nat} {a b : Expr} :
      Joins .disjunction ⟨.name "or", line⟩ last a b (.or line a b)
  | and {line last : Nat} {a b : Expr} :
      Joins .conjunction ⟨.name "and", line⟩ last a b (.and line a b)
  | sum {m : Mark} {op : BinaryOp} {line last : Nat} {a b : Expr} :
      op ∈ [.add, .sub] → m.text = op.symbol →
      Joins .sum ⟨.mark m, line⟩ last a b (.binary last op a b)
  | product {m : Mark} {op : BinaryOp} {line last : Nat} {a b : Expr} :
      op ∈ [.mul, .div, .floorDiv, .mod] → m.text = op.symbol →
      Joins .product ⟨.mark m, line⟩ last a b (.binary last op a b)

/-- The words that stand for a value. -/
inductive IsConst : String → Const → Prop where
  | none : IsConst "None" .none
  | true : IsConst "True" (.bool true)
  | false : IsConst "False" (.bool false)

mutual

/-- The tokens spell an expression of a level. -/
inductive Derives : Level → List Token → Expr → Prop where
  /-- Each level has the expressions of the tighter ones. -/
  | inner {level : Level} {ts : List Token} {e : Expr} : Derives level.inner ts e → Derives level ts e
  | joined {level : Level} {ts us : List Token} {a b e : Expr} {t : Token} : Derives level ts a →
      Derives level.inner us b → Joins level t (lastLine us) a b e → Derives level (ts ++ t :: us) e
  | not {ts : List Token} {e : Expr} {line : Nat} : Derives .negation ts e →
      Derives .negation (⟨.name "not", line⟩ :: ts) (.not (lastLine ts) e)
  | compare {ts us : List Token} {a b : Expr} {m : Mark} {op : Comparison} {line : Nat} :
      Derives .sum ts a → m.text = op.symbol → Derives .sum us b →
      Derives .comparison (ts ++ ⟨.mark m, line⟩ :: us) (.compare (lastLine us) op a b)
  | minus {ts : List Token} {e : Expr} {line : Nat} : Derives .sign ts e →
      Derives .sign (⟨.mark .minus, line⟩ :: ts) (.negate (lastLine ts) e)
  | plus {ts : List Token} {e : Expr} {line : Nat} : Derives .sign ts e →
      Derives .sign (⟨.mark .plus, line⟩ :: ts) e
  | call {ts us : List Token} {e : Expr} {es : List Expr} {line line' : Nat} : Derives .primary ts e →
      Items us es →
      Derives .primary (ts ++ ⟨.mark .openParen, line⟩ :: us ++ [⟨.mark .closeParen, line'⟩])
        (.call line' e es)
  | attr {ts : List Token} {e : Expr} {id : String} {line line' : Nat} : Derives .primary ts e →
      IsName id → Derives .primary (ts ++ [⟨.mark .dot, line⟩, ⟨.name id, line'⟩]) (.attr line' e id)
  | subscript {ts us : List Token} {a b : Expr} {line line' : Nat} : Derives .primary ts a →
      Derives .disjunction us b →
      Derives .primary (ts ++ ⟨.mark .openBracket, line⟩ :: us ++ [⟨.mark .closeBracket, line'⟩])
        (.subscript line' a b)
  | int {n line : Nat} : Derives .atom [⟨.int n, line⟩] (.const line (.int (Int64.ofNat n)))
  | float {x : Double} {line : Nat} : Derives .atom [⟨.float x, line⟩] (.const line (.float x))
  /-- Strings side by side are one string. -/
  | str {ts : List Token} {ss : List String} : ts ≠ [] → ts.map Token.lexeme = ss.map Lexeme.str →
      Derives .atom ts (.const (lastLine ts) (.str (String.join ss)))
  | word {word : String} {c : Const} {line : Nat} : IsConst word c →
      Derives .atom [⟨.name word, line⟩] (.const line c)
  | name {id : String} {line : Nat} : IsName id → Derives .atom [⟨.name id, line⟩] (.name line id)
  | parens {ts : List Token} {e : Expr} {line line' : Nat} : Derives .disjunction ts e →
      Derives .atom (⟨.mark .openParen, line⟩ :: ts ++ [⟨.mark .closeParen, line'⟩]) e
  | list {ts : List Token} {es : List Expr} {line line' : Nat} : Items ts es →
      Derives .atom (⟨.mark .openBracket, line⟩ :: ts ++ [⟨.mark .closeBracket, line'⟩])
        (.list line' es)

/-- The tokens spell expressions with commas between them, and possibly one at the end. -/
inductive Items : List Token → List Expr → Prop where
  | nil : Items [] []
  | one {ts : List Token} {e : Expr} : Derives .disjunction ts e → Items ts [e]
  | cons {ts us : List Token} {e : Expr} {es : List Expr} {line : Nat} : Derives .disjunction ts e →
      Items us es → Items (ts ++ ⟨.mark .comma, line⟩ :: us) (e :: es)

end

/-! ## Statements -/

/-- The tokens spell a dotted name. -/
inductive Dotted : List Token → String → Prop where
  | one {id : String} {line : Nat} : IsName id → Dotted [⟨.name id, line⟩] id
  | more {ts : List Token} {dotted id : String} {line line' : Nat} : Dotted ts dotted → IsName id →
      Dotted (ts ++ [⟨.mark .dot, line⟩, ⟨.name id, line'⟩]) (dotted ++ "." ++ id)

/-- The tokens spell dotted names with commas between them; each is on the line of its end. -/
inductive DottedNames : List Token → List (Nat × String) → Prop where
  | last {ts : List Token} {dotted : String} : Dotted ts dotted → DottedNames ts [(lastLine ts, dotted)]
  | more {ts us : List Token} {dotted : String} {names : List (Nat × String)} {line : Nat} :
      Dotted ts dotted → DottedNames us names →
      DottedNames (ts ++ ⟨.mark .comma, line⟩ :: us) ((lastLine ts, dotted) :: names)

/-- The tokens spell a statement. -/
inductive Spells : List Token → Statement → Prop where
  | imports {ts : List Token} {names : List (Nat × String)} {line : Nat} : DottedNames ts names →
      Spells (⟨.name "import", line⟩ :: ts) (.imports names)
  | assert {ts : List Token} {e : Expr} {line : Nat} : Derives .disjunction ts e →
      Spells (⟨.name "assert", line⟩ :: ts) (.assert (lastLine ts) e (lastLine ts) none)
  | assertMessage {ts us : List Token} {a b : Expr} {line line' : Nat} : Derives .disjunction ts a →
      Derives .disjunction us b →
      Spells (⟨.name "assert", line⟩ :: ts ++ ⟨.mark .comma, line'⟩ :: us)
        (.assert (lastLine ts) a (lastLine us) (some b))
  /-- Without a class it is a complaint that nothing is being handled. -/
  | reraise {line : Nat} : Spells [⟨.name "raise", line⟩]
      (.raise line "RuntimeError" line (some (.const line (.str "No active exception to reraise"))))
  | raise {kind : String} {line line' : Nat} : IsName kind →
      Spells [⟨.name "raise", line⟩, ⟨.name kind, line'⟩] (.raise line' kind line' none)
  | raiseEmpty {kind : String} {line line' line₁ line₂ : Nat} : IsName kind →
      Spells [⟨.name "raise", line⟩, ⟨.name kind, line'⟩, ⟨.mark .openParen, line₁⟩,
        ⟨.mark .closeParen, line₂⟩] (.raise line' kind line₂ none)
  | raiseMessage {ts : List Token} {e : Expr} {kind : String} {line line' line₁ line₂ : Nat} :
      IsName kind → Derives .disjunction ts e →
      Spells (⟨.name "raise", line⟩ :: ⟨.name kind, line'⟩ :: ⟨.mark .openParen, line₁⟩ :: ts ++
        [⟨.mark .closeParen, line₂⟩]) (.raise line' kind line₂ (some e))
  | pass {line : Nat} : Spells [⟨.name "pass", line⟩] .pass
  | assign {ts : List Token} {e : Expr} {id : String} {line line' : Nat} : IsName id →
      Derives .disjunction ts e →
      Spells (⟨.name id, line⟩ :: ⟨.mark .equal, line'⟩ :: ts) (.assign (lastLine ts) id e)
  | expression {ts : List Token} {e : Expr} : Derives .disjunction ts e →
      Spells ts (.expression (lastLine ts) e)

/-- The tokens spell statements with semicolons between them, and possibly one at the end. -/
inductive SpellsAll : List Token → List Statement → Prop where
  | last {ts : List Token} {s : Statement} : Spells ts s → SpellsAll ts [s]
  | closed {ts : List Token} {s : Statement} {line : Nat} : Spells ts s →
      SpellsAll (ts ++ [⟨.mark .semicolon, line⟩]) [s]
  | more {ts us : List Token} {s : Statement} {ss : List Statement} {line : Nat} : Spells ts s →
      SpellsAll us ss → SpellsAll (ts ++ ⟨.mark .semicolon, line⟩ :: us) (s :: ss)

/-- The tokens spell the lines of a source. -/
inductive SpellsProgram : List Token → Program → Prop where
  | done {line : Nat} : SpellsProgram [⟨.endOfSource, line⟩] []
  | line {ts us : List Token} {ss : List Statement} {p : Program} {line : Nat} : SpellsAll ts ss →
      SpellsProgram us p → SpellsProgram (ts ++ ⟨.newline, line⟩ :: us) (ss ++ p)

/-! ## Ends -/

theorem endLine_append (line : Nat) (ts us : List Token) :
    endLine line (ts ++ us) = endLine (endLine line ts) us :=
  List.foldl_append

theorem endLine_of_ne_nil {ts : List Token} (line : Nat) (h : ts ≠ []) : endLine line ts = lastLine ts := by
  cases ts with
  | nil => exact absurd rfl h
  | cons t ts => rfl

theorem Derives.ne_nil {level : Level} {ts : List Token} {e : Expr} : Derives level ts e → ts ≠ []
  | .inner h => h.ne_nil
  | .str h _ => h
  | .joined .. | .compare .. | .call .. | .attr .. | .subscript .. => by simp
  | .not _ | .minus _ | .plus _ | .int | .float | .word _ | .name _ | .parens _ | .list _ => by simp

theorem Dotted.ne_nil {ts : List Token} {dotted : String} : Dotted ts dotted → ts ≠ []
  | .one _ => by simp
  | .more .. => by simp

end Launcher.Script.Grammar
