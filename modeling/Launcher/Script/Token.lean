import Launcher.Number.Double

/-!
Tokens of the script language. A source is a list of lines, each ended by a `newline` token, and
`endOfSource` comes last.
-/
namespace Launcher.Script

/-- A sign made of one or two punctuation characters. -/
inductive Mark where
  | doubleSlash | doubleEqual | notEqual | lessEqual | greaterEqual
  | plus | minus | star | slash | percent | comma | dot | equal | less | greater | semicolon
  | openParen | openBracket | closeParen | closeBracket
deriving DecidableEq, Repr

namespace Mark

def text : Mark → String
  | doubleSlash => "//"
  | doubleEqual => "=="
  | notEqual => "!="
  | lessEqual => "<="
  | greaterEqual => ">="
  | plus => "+"
  | minus => "-"
  | star => "*"
  | slash => "/"
  | percent => "%"
  | comma => ","
  | dot => "."
  | equal => "="
  | less => "<"
  | greater => ">"
  | semicolon => ";"
  | openParen => "("
  | openBracket => "["
  | closeParen => ")"
  | closeBracket => "]"

def isOpen (m : Mark) : Bool := m == openParen || m == openBracket

def isClose (m : Mark) : Bool := m == closeParen || m == closeBracket

end Mark

/-- What a token stands for. Integers are below `2 ^ 63`. -/
inductive Lexeme where
  | int (n : Nat)
  | float (x : Double)
  | str (s : String)
  | name (s : String)
  | mark (m : Mark)
  | newline
  | endOfSource
deriving DecidableEq, Repr

/-- A lexeme and the number of the line on which it begins. -/
structure Token where
  lexeme : Lexeme
  line : Nat
deriving DecidableEq, Repr

/-- Words that are no names of variables, modules or attributes. -/
def keywords : List String :=
  ["import", "assert", "raise", "pass", "not", "and", "or", "None", "True", "False"]

def isKeyword (word : String) : Bool := keywords.contains word

end Launcher.Script
