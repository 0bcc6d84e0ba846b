import Precedence.Diagnostic
import Precedence.Power

/-!
# The log

The events that reading a text leaves behind, in the order in which they happen.
-/

namespace Precedence

inductive Event where
  | lexed (token : Token)
  | illegal (text : String)
  | step (token : Token)
  | expression (kind : Kind) (power : Power)
  | diagnostic (diagnostic : Diagnostic)
  | program (statements diagnostics : Nat)
  deriving DecidableEq, Repr

namespace Event

inductive Field where
  | text (value : String)
  | number (value : Nat)
  deriving DecidableEq, Repr

/-- Steps are traced; what a run comes to is for debugging. -/
def level : Event → String
  | .lexed _ | .illegal _ | .step _ | .expression _ _ => "TRACE"
  | .diagnostic _ | .program _ _ => "DEBUG"

def message : Event → String
  | .lexed _ => "lexed token"
  | .illegal _ => "illegal character"
  | .step _ => "advance"
  | .expression _ _ => "parse_expr"
  | .diagnostic _ => "diagnostic"
  | .program _ _ => "parsed program"

def fields : Event → List (String × Field)
  | .lexed token | .step token => [("kind", .text token.kind.name), ("value", .text token.text)]
  | .illegal text => [("value", .text text)]
  | .expression kind power => [("kind", .text kind.name), ("bp", .text power.name)]
  | .diagnostic d => [("error", .text d.message)]
  | .program statements diagnostics =>
    [("statements", .number statements), ("errors", .number diagnostics)]

end Event

end Precedence
