import Launcher.Script.Code

/-!
Syntax trees of the script language. Each node that an instruction comes from carries the line of
that instruction: the line of the last token that belongs to the node.
-/
namespace Launcher.Script

/-- An expression. Parentheses leave no node. -/
inductive Expr where
  | const (line : Nat) (c : Const)
  | name (line : Nat) (id : String)
  | list (line : Nat) (items : List Expr)
  | call (line : Nat) (callee : Expr) (args : List Expr)
  | attr (line : Nat) (object : Expr) (id : String)
  | subscript (line : Nat) (object index : Expr)
  | negate (line : Nat) (e : Expr)
  | binary (line : Nat) (op : BinaryOp) (left right : Expr)
  | compare (line : Nat) (op : Comparison) (left right : Expr)
  | not (line : Nat) (e : Expr)
  /-- The line is that of the word `and`. -/
  | and (line : Nat) (left right : Expr)
  /-- The line is that of the word `or`. -/
  | or (line : Nat) (left right : Expr)
deriving Repr

/-- A statement. -/
inductive Statement where
  /-- Import dotted names, each with its line. -/
  | imports (names : List (Nat × String))
  /-- Fail with the message unless the test holds. `testLine` is where the test ends. -/
  | assert (testLine : Nat) (test : Expr) (line : Nat) (message : Option Expr)
  /-- Raise an error of a class, named on `kindLine`. -/
  | raise (kindLine : Nat) (kind : String) (line : Nat) (message : Option Expr)
  | pass
  | assign (line : Nat) (id : String) (value : Expr)
  | expression (line : Nat) (e : Expr)
deriving Repr

/-- The statements of a source, in order. -/
abbrev Program := List Statement

end Launcher.Script
