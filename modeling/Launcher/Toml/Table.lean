import Launcher.Toml.Value

/-!
Tables put together from headers and keys. No key gets a second value, a table is named by at most
one header, and a table that a header names takes no dotted keys from elsewhere.
-/
namespace Launcher.Toml

/-- Put a value at the end of a dotted key. The key may lead through tables that dotted keys have
made and, on its way to one of these, through implied tables and to the last element of an array
of tables. -/
def put (name : String) (v : Value) : List String → Entries → Option Entries
  | [], es => if es.has name then none else some (es.set name v)
  | t :: tables, es =>
    let inner (es : Entries) : Option Entries := put name v tables es
    match es.get? t with
    | none => (inner []).map fun new => es.set t (.table .dotted new)
    | some (.table .dotted old) => (inner old).map fun new => es.set t (.table .dotted new)
    | some (.table .implied old) =>
      if tables.isEmpty then none
      else (inner old).map fun new => es.set t (.table .implied new)
    | some (.tables ts) =>
      if tables.isEmpty then none
      else
        match ts.getLast? with
        | some last => (inner last).map fun new => es.set t (.tables (ts.dropLast ++ [new]))
        | none => none
    | some _ => none

/-- The table of keys and values. -/
def ofPairs (pairs : List (Key × Value)) : Option Entries :=
  pairs.foldlM (fun es (k, v) => put k.name v k.tables es) []

/-- Change the table that a header leads to. Tables on the way that are not there are implied. -/
def within (f : Entries → Option Entries) : List String → Entries → Option Entries
  | [], es => f es
  | t :: tables, es =>
    match es.get? t with
    | none => (within f tables []).map fun new => es.set t (.table .implied new)
    | some (.table .inline _) => none
    | some (.table origin old) => (within f tables old).map fun new => es.set t (.table origin new)
    | some (.tables ts) =>
      match ts.getLast? with
      | some last => (within f tables last).map fun new => es.set t (.tables (ts.dropLast ++ [new]))
      | none => none
    | some _ => none

/-- Begin the table of a header. -/
def beginTable (name : String) (es : Entries) : Option Entries :=
  match es.get? name with
  | none => some (es.set name (.table .header []))
  | some (.table .implied old) => some (es.set name (.table .header old))
  | some _ => none

/-- Begin the next element of an array of tables. -/
def beginElement (name : String) (es : Entries) : Option Entries :=
  match es.get? name with
  | none => some (es.set name (.tables [[]]))
  | some (.tables ts) => some (es.set name (.tables (ts ++ [[]])))
  | some _ => none

/-- A document under construction: its tables, and the way to the table that keys go to. -/
structure Draft where
  root : Entries := []
  place : List String := []

namespace Draft

def addLine (d : Draft) : Line → Option Draft
  | .header element key =>
    let begin := if element then beginElement key.name else beginTable key.name
    (within begin key.tables d.root).map fun root => ⟨root, key.tables ++ [key.name]⟩
  | .entry key value =>
    (within (put key.name value key.tables) d.place d.root).map fun root => { d with root }

end Draft

/-- The table that lines mean. -/
def ofLines (lines : List Line) : Option Value :=
  (lines.foldlM Draft.addLine {}).map fun d => .table .header d.root

end Launcher.Toml
