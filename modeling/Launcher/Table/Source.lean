import Launcher.Table.Builder

/-!
Tables as Rust source: a static byte array for the code of each unit, and an array of records that
refers to them.
-/
namespace Launcher.Table.Source

def bytesPerLine : Nat := 16

/-- Lists of at most `n + 1` members. -/
def chunks {α : Type} (n : Nat) : (rounds : Nat) → List α → List (List α)
  | 0, _ | _ + 1, [] => []
  | rounds + 1, as => as.take (n + 1) :: chunks n rounds (as.drop (n + 1))

def byteLine (bs : Bytes) : String :=
  "    " ++ String.join (bs.map fun b => toString b.toNat ++ ",") ++ "\n"

/-- The declaration of a byte array. -/
def blob (identifier : String) (code : Bytes) : String :=
  "\n#[allow(non_upper_case_globals)]\npub static " ++ identifier ++
    ": [u8; " ++ toString code.length ++ "] = [\n" ++
    String.join ((chunks (bytesPerLine - 1) code.length code).map byteLine) ++ "];\n"

/-- The expression of a record. -/
def entry (r : Record) : String :=
  let quoted := "\"" ++ r.name ++ "\""
  "frozenrun_table::FrozenEntry::" ++
    if r.isSentinel then "SENTINEL"
    else if r.code.isNone then "forced_failure(" ++ quoted ++ ")"
    else
      (if r.isPackage then "package" else "module") ++ "(" ++ quoted ++ ", &" ++
        blobIdentifier r.name ++ ")"

/-- The source text of a table. -/
def text (t : BuiltTable) : String :=
  "// Generated by frozenrun-freeze. Do not edit.\n// encoding: " ++ t.encoding.name ++ "\n" ++
    String.join (t.records.map fun r =>
      match r.code with
      | some code => blob (blobIdentifier r.name) code
      | none => "") ++
    "\npub static FROZEN_MODULES: &[frozenrun_table::FrozenEntry<'static>] = &[\n" ++
    String.join (t.records.map fun r => "    " ++ entry r ++ ",\n") ++ "];\n"

end Launcher.Table.Source
