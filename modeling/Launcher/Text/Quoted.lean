import Launcher.Text.Unprintable

/-!
Texts in double quotes, as diagnostics show them.
-/
namespace Launcher

/-- A character inside double quotes. -/
def debugChar (c : Char) : List Char :=
  match c with
  | '"' => ['\\', '"']
  | '\\' => ['\\', '\\']
  | '\n' => ['\\', 'n']
  | '\r' => ['\\', 'r']
  | '\t' => ['\\', 't']
  | '\x00' => ['\\', '0']
  | c =>
    if isUnprintable c then ['\\', 'u', '{'] ++ Nat.toDigits 16 c.toNat ++ ['}'] else [c]

/-- A text in double quotes. -/
def debugQuoted (s : String) : String := String.ofList ('"' :: s.toList.flatMap debugChar ++ ['"'])

/-- A list of texts in double quotes. -/
def debugList (ss : List String) : String := "[" ++ ", ".intercalate (ss.map debugQuoted) ++ "]"

end Launcher
