import Launcher.Bytes.Basic

/-!
Frozen units, their names, and the records they become in a table. The size of a record is the
length of its code, negated for a package.
-/
namespace Launcher.Table

/-- A compiled module or package, under its dotted name. -/
structure CompiledUnit where
  name : String
  code : Bytes
  isPackage : Bool
deriving DecidableEq, Repr

/-- A line of a table. A record without code marks a name whose import must fail, and one without
a name ends the table. -/
structure Record where
  name : String
  code : Option Bytes
  size : Int
  isPackage : Bool
deriving DecidableEq, Repr

namespace Record

/-- The record of a unit. -/
def unit (name : String) (code : Bytes) (isPackage : Bool) : Record :=
  ⟨name, some code, if isPackage then -(code.length : Int) else code.length, isPackage⟩

def forcedFailure (name : String) : Record := ⟨name, none, 0, false⟩

def sentinel : Record := ⟨"", none, 0, false⟩

def isSentinel (r : Record) : Bool := r.name.isEmpty

def isForcedFailure (r : Record) : Bool := !r.isSentinel && r.code.isNone

end Record

def isIdentifierStart (c : Char) : Bool := c.isAlpha || c == '_'

def isIdentifierPart (c : Char) : Bool := c.isAlphanum || c == '_'

/-- An identifier of ASCII letters, digits and underscores. -/
def isIdentifier (s : String) : Bool :=
  match s.toList with
  | [] => false
  | c :: cs => isIdentifierStart c && cs.all isIdentifierPart

/-- Identifiers with dots between them. -/
def isUnitName (name : String) : Bool := (name.splitOn ".").all isIdentifier

/-- The identifier under which the code of a unit is emitted: a dot becomes two underscores. -/
def blobIdentifier (name : String) : String := "_FM_" ++ "__".intercalate (name.splitOn ".")

/-- The greatest length of a unit's code. -/
def maxCodeSize : Nat := 0x7FFFFFFF

end Launcher.Table
