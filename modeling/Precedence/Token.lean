/-!
# Tokens

A token is a kind together with the text it was read from.  The two words of the language that
look like names but are not stand in `keywords`.
-/

namespace Precedence

inductive Kind where
  | eof
  | illegal
  | identifier
  | int
  | openParen
  | closeParen
  | assign
  | equals
  | bang
  | notEquals
  | less
  | greater
  | semicolon
  | plus
  | minus
  | slash
  | asterisk
  | «let»
  | «return»
  deriving DecidableEq, Repr, Inhabited

namespace Kind

def all : List Kind :=
  [.eof, .illegal, .identifier, .int, .openParen, .closeParen, .assign, .equals, .bang, .notEquals,
    .less, .greater, .semicolon, .plus, .minus, .slash, .asterisk, .let, .return]

/-- The name under which messages speak of a kind. -/
def name : Kind → String
  | .eof => "EOF"
  | .illegal => "Illegal"
  | .identifier => "Identifier"
  | .int => "Int"
  | .openParen => "OpenParen"
  | .closeParen => "CloseParen"
  | .assign => "Assign"
  | .equals => "Equals"
  | .bang => "Bang"
  | .notEquals => "NotEquals"
  | .less => "Less"
  | .greater => "Greater"
  | .semicolon => "Semicolon"
  | .plus => "Plus"
  | .minus => "Minus"
  | .slash => "Slash"
  | .asterisk => "Asterisk"
  | .let => "Let"
  | .return => "Return"

theorem mem_all (k : Kind) : k ∈ all := by
  cases k <;> decide

end Kind

structure Token where
  kind : Kind
  text : String
  deriving DecidableEq, Repr, Inhabited

/-- The token that stands for the end of the input. -/
def Token.eof : Token := ⟨.eof, ""⟩

/-! ## Keywords -/

def keywords : List (String × Kind) :=
  [("let", .let), ("return", .return)]

def keyword? (word : String) : Option Kind :=
  keywords.lookup word

/-- A word is a keyword only as a whole; any other word is a name. -/
def Token.ofWord (word : String) : Token :=
  ⟨(keyword? word).getD .identifier, word⟩

end Precedence
