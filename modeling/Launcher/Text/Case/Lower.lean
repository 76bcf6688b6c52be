import Launcher.Text.Case.Table

/-!
Lower case in the sense of Unicode's full case mapping: one character can become two, and a
capital sigma at the end of a word becomes a final sigma.
-/
namespace Launcher

namespace LowerCase

/-- The lower-case partner of a character, if it is a single one. -/
def partner? (c : Char) : Option Char :=
  let n := c.toNat
  (CaseTable.lower.find? fun r => r.first ≤ n && n ≤ r.last && (n - r.first) % r.step == 0).map
    fun r => Char.ofNat ((n : Int) + r.shift).toNat

def inRanges (ranges : List (Nat × Nat)) (c : Char) : Bool :=
  ranges.any fun (first, last) => first ≤ c.toNat && c.toNat ≤ last

def isCased (c : Char) : Bool := inRanges CaseTable.cased c

def isIgnorable (c : Char) : Bool := inRanges CaseTable.ignorable c

/-- The first character that counts for case is a cased one. -/
def casedNext (cs : List Char) : Bool := (cs.dropWhile isIgnorable).head?.any isCased

/-- Lower case of a text, where `before` is the part already done, last character first. -/
def chars (before : List Char) : List Char → List Char
  | [] => []
  | c :: cs =>
    let here :=
      if c = 'Σ' then [if casedNext before && !casedNext cs then 'ς' else 'σ']
      else if c = 'İ' then ['i', '\u0307']
      else if c.toNat < 128 then [c.toLower]
      else [(partner? c).getD c]
    here ++ chars (c :: before) cs

end LowerCase

/-- A text in lower case. -/
def lowerCase (s : String) : String := String.ofList (LowerCase.chars [] s.toList)

end Launcher
