import Precedence.Text.Unseen

/-!
# Quoted text

The form in which a message shows a piece of source text: between double quotes, on one line, with
every character visible.
-/

namespace Precedence.Text

/-- An unseen character is written by its number in lower-case hexadecimal. -/
def escaped : Char → List Char
  | '\x00' => ['\\', '0']
  | '\t' => ['\\', 't']
  | '\n' => ['\\', 'n']
  | '\r' => ['\\', 'r']
  | '"' => ['\\', '"']
  | '\\' => ['\\', '\\']
  | c =>
    if isUnseen c then ['\\', 'u', '\x7b'] ++ Nat.toDigits 16 c.toNat ++ ['\x7d'] else [c]

def quote (s : String) : String :=
  String.ofList ('"' :: s.toList.flatMap escaped ++ ['"'])

end Precedence.Text
