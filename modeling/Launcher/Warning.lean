import Launcher.Text.Blank
import Launcher.Text.Case.Lower
import Launcher.Text.Integer

/-!
Warnings and the filters that decide what becomes of them. A filter is written
`action:message:category:module:line`; every field may be left out, and an empty field matches
everything.
-/
namespace Launcher

/-- What becomes of a warning. -/
inductive WarningAction where
  | default | error | ignore | always | module | once
deriving DecidableEq, Repr

namespace WarningAction

def all : List WarningAction := [default, error, ignore, always, module, once]

def name : WarningAction → String
  | default => "default"
  | error => "error"
  | ignore => "ignore"
  | always => "always"
  | module => "module"
  | once => "once"

/-- The action of a name or of the beginning of a name; the first in order wins. No name at all
is `default`, and `all` is another name for `always`. -/
def ofName? (name : String) : Option WarningAction :=
  if name.isEmpty then some default
  else if name = "all" then some always
  else all.find? fun a => name.toList.isPrefixOf a.name.toList

end WarningAction

/-- A warning: its category, text, and the module and line that gave it. -/
structure Warning where
  category : String
  message : String
  module : String
  line : Nat
deriving DecidableEq, Repr

/-- A rule for the warnings that match it. Empty texts and line 0 match everything. -/
structure WarningFilter where
  action : WarningAction
  message : String
  category : String
  module : String
  line : Nat
deriving DecidableEq, Repr

/-- Why a filter cannot be read. -/
inductive WarningFilterError where
  | tooManyFields (spec : String)
  | invalidAction (action : String)
  | invalidLine (line : String)
deriving DecidableEq, Repr

namespace WarningFilterError

def reason : WarningFilterError → String
  | tooManyFields spec => "too many fields (max 5): '" ++ spec ++ "'"
  | invalidAction action => "invalid action: '" ++ action ++ "'"
  | invalidLine line => "invalid lineno '" ++ line ++ "'"

end WarningFilterError

namespace WarningFilter

/-- Read a filter. Blanks around a field do not count. -/
def parse (spec : String) : Except WarningFilterError WarningFilter :=
  let fields := (spec.splitOn ":").map trim
  let field (i : Nat) : String := fields.getD i ""
  if 5 < fields.length then .error (.tooManyFields spec)
  else
    match WarningAction.ofName? (field 0) with
    | none => .error (.invalidAction (field 0))
    | some action =>
      let line := if (field 4).isEmpty then some 0 else natBelow? (1 <<< 32) (field 4)
      match line with
      | none => .error (.invalidLine (field 4))
      | some line => .ok ⟨action, field 1, field 2, field 3, line⟩

/-- The written form of a filter, with all five fields. -/
def text (f : WarningFilter) : String :=
  ":".intercalate [f.action.name, f.message, f.category, f.module, toString f.line]

/-- The message begins like the filter's, whatever the case; the category is the filter's, or the
filter's is the root of all categories; module and line are equal. -/
def covers (f : WarningFilter) (w : Warning) : Bool :=
  (lowerCase f.message).toList.isPrefixOf (lowerCase w.message).toList &&
    (f.category.isEmpty || f.category == "Warning" || f.category == w.category) &&
    (f.module.isEmpty || f.module == w.module) &&
    (f.line == 0 || f.line == w.line)

end WarningFilter

/-- Filters in order of precedence: the last one added comes first. -/
abbrev WarningFilters := List WarningFilter

namespace WarningFilters

def add (fs : WarningFilters) (f : WarningFilter) : WarningFilters := f :: fs

/-- The action of the first filter that matches. -/
def actionFor (fs : WarningFilters) (w : Warning) : WarningAction :=
  match List.find? (·.covers w) fs with
  | some f => f.action
  | none => .default

end WarningFilters

end Launcher
