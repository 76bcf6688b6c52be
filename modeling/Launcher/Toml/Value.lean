import Launcher.Dict
import Launcher.Number.Double

/-!
The values of a TOML document, and the lines that it is made of.
-/
namespace Launcher.Toml

/-- How a table came about, which decides in what ways more keys can be put into it. -/
inductive Origin where
  /-- It stands in braces. -/
  | inline
  /-- A header names it. -/
  | header
  /-- A header names a table below it. -/
  | implied
  /-- A dotted key leads through it. -/
  | dotted
deriving DecidableEq, Repr

inductive Value where
  | string (s : String)
  | integer (n : Int)
  | float (x : Double)
  | boolean (b : Bool)
  /-- A date, a time, or both. -/
  | moment
  | array (items : List Value)
  | table (origin : Origin) (entries : List (String × Value))
  /-- The tables of headers in double brackets. -/
  | tables (elements : List (List (String × Value)))
deriving Inhabited

/-- The keys of a table with their values. -/
abbrev Entries := Dict Value

/-- A dotted key: the tables that it leads through, and the name at its end. -/
structure Key where
  tables : List String
  name : String
deriving DecidableEq, Repr

/-- A line with something on it. -/
inductive Line where
  /-- A header in single brackets, or in double brackets for an element of an array. -/
  | header (element : Bool) (key : Key)
  | entry (key : Key) (value : Value)

end Launcher.Toml
