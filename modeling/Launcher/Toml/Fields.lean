import Launcher.Toml.Value

/-!
Records read from values. A table gives a record's fields by their keys, and an array gives them
by their order.
-/
namespace Launcher.Toml.Value

def text? : Value → Option String
  | .string s => some s
  | _ => none

/-- The elements of an array of either kind. -/
def elements? : Value → Option (List Value)
  | .array vs => some vs
  | .tables ts => some (ts.map (.table .header))
  | _ => none

def texts? (v : Value) : Option (List String) := do
  (← v.elements?).mapM text?

/-- The values of the fields that go by `keys`. A `closed` record has no other keys; an array may
have more elements than the record has fields. A moment counts as a table with one key, which no
record has. -/
def fields? (closed : Bool) (keys : List String) (v : Value) : Option (List (Option Value)) :=
  match v with
  | .table _ es =>
    if closed ∧ es.any fun (k, _) => !keys.contains k then none
    else some (keys.map (Dict.get? es))
  | .moment => if closed then none else some (keys.map fun _ => none)
  | v => v.elements?.map fun vs => keys.zipIdx.map fun (_, i) => vs[i]?

/-- Read a field that may be missing. -/
def orElse {α : Type} (read : Value → Option α) (missing : α) : Option Value → Option α
  | some v => read v
  | none => some missing

end Launcher.Toml.Value
