import Launcher.Text.Blank

/-!
Paths with slashes. A path keeps the text it was written with; two texts mean the same path when
their parts are equal. Doubled slashes, slashes at the end and dots inside a path have no part.
-/
namespace Launcher

structure Path where
  text : String
deriving DecidableEq, Repr, Inhabited

namespace Path

/-- A part of a path. `here` is a dot, which counts only at the very front. -/
inductive Part where
  | root
  | here
  | up
  | name (s : String)
deriving DecidableEq, Repr

def isAbsolute (p : Path) : Bool := p.text.startsWith "/"

/-- The texts between slashes, without the empty one in front of an absolute path. -/
def pieces (p : Path) : List String :=
  let all := p.text.splitOn "/"
  if p.isAbsolute then all.drop 1 else all

/-- The part that a piece behind the first one stands for. -/
def innerPart? (piece : String) : Option Part :=
  if piece.isEmpty ∨ piece = "." then none
  else if piece = ".." then some .up
  else some (.name piece)

def parts (p : Path) : List Part :=
  if p.isAbsolute then .root :: p.pieces.filterMap innerPart?
  else
    match p.pieces with
    | "." :: rest => .here :: rest.filterMap innerPart?
    | all => all.filterMap innerPart?

/-- Both texts mean the same path. -/
def same (p q : Path) : Bool := p.parts = q.parts

/-- `p` followed by `q`, or `q` alone if it is absolute. -/
def join (p : Path) (q : String) : Path :=
  if q.startsWith "/" then ⟨q⟩
  else if p.text.isEmpty ∨ p.text.endsWith "/" then ⟨p.text ++ q⟩
  else ⟨p.text ++ "/" ++ q⟩

/-- Pieces from the back on, without those at the end that have no part. -/
def trimEnd (absolute : Bool) : List String → List String
  | [] => []
  | [p] => if p.isEmpty ∨ (p = "." ∧ absolute) then [] else [p]
  | p :: q :: rest => if p.isEmpty ∨ p = "." then trimEnd absolute (q :: rest) else p :: q :: rest

/-- The path without its last part, which must not be the root. -/
def parent? (p : Path) : Option Path :=
  match trimEnd p.isAbsolute p.pieces.reverse with
  | [] => none
  | _ :: before =>
    let kept := (trimEnd p.isAbsolute before).reverse
    some ⟨(if p.isAbsolute then "/" else "") ++ "/".intercalate kept⟩

/-- The last part, if it is a name. -/
def fileName? (p : Path) : Option String :=
  match p.parts.getLast? with
  | some (.name s) => some s
  | _ => none

/-- Names left after each `..` has cancelled the name before it; at the front it cancels
nothing. The names before come in reverse. -/
def foldParts (names : List String) : List Part → List String
  | [] => names.reverse
  | .up :: rest => foldParts (names.drop 1) rest
  | .name s :: rest => foldParts (s :: names) rest
  | _ :: rest => foldParts names rest

/-- The path that `names` lead to, from the root or from nowhere. -/
def ofNames (absolute : Bool) (names : List String) : Path :=
  ⟨(if absolute then "/" else "") ++ "/".intercalate names⟩

/-- The path without dots and double dots. -/
def fold (p : Path) : Path := ofNames p.isAbsolute (foldParts [] p.parts)

/-- A path with the home directory put in for a leading tilde, if there is one. -/
def expandTilde (home : Option Path) (text : String) : Path :=
  match home with
  | none => ⟨text⟩
  | some home =>
    match text.toList with
    | ['~'] => home
    | '~' :: '/' :: rest | '~' :: '\\' :: rest => home.join (String.ofList rest)
    | _ => ⟨text⟩

/-- The absolute path without dots that a text means in a working directory. Blanks at its ends do
not count, and a leading tilde stands for the home directory. -/
def normalize (cwd : Path) (home : Option Path) (text : String) : Path :=
  (cwd.join (expandTilde home (trim text)).text).fold

end Path

end Launcher
