import Precedence.Token
import Precedence.Text.Quoted

/-!
# Diagnostics

What can be wrong with a text, with the wording in which it is reported and, where there is one, the
tip that goes with it.
-/

namespace Precedence

open Text

inductive Diagnostic where
  | unrecognised (text : String)
  | unexpected (expected found : Kind)
  | noOperand (kind : Kind)
  | badInteger (text : String)
  | tooDeep (limit : Nat)
  deriving DecidableEq, Repr

namespace Diagnostic

def name : Diagnostic → String
  | .unrecognised _ => "UnrecognisedToken"
  | .unexpected _ _ => "UnexpectedToken"
  | .noOperand _ => "MissingPrefixHandler"
  | .badInteger _ => "InvalidIntegerLiteral"
  | .tooDeep _ => "NestingTooDeep"

def message : Diagnostic → String
  | .unrecognised text => "unrecognised character: " ++ quote text
  | .unexpected expected found =>
    "expected next token to be " ++ expected.name ++ ", got " ++ found.name ++ " instead"
  | .noOperand kind => "no prefix parse function for " ++ kind.name ++ " found"
  | .badInteger text => "could not parse " ++ quote text ++ " as integer"
  | .tooDeep limit => "expression nested deeper than " ++ toString limit ++ " levels"

/-- A tip shows the text at fault as it stands, unquoted. -/
def tip? : Diagnostic → Option String
  | .unrecognised _ => none
  | .unexpected expected found =>
    some ("Expected `" ++ expected.name ++ "` here but found `" ++ found.name ++ "`")
  | .noOperand kind => some ("`" ++ kind.name ++ "` cannot start an expression")
  | .badInteger text =>
    some ("Invalid integer: `" ++ text ++ "`, is it above the 64-bit limit?")
  | .tooDeep _ => some "Split the expression into smaller let statements"

end Diagnostic

end Precedence
