import Precedence.Token

/-!
# Expressions

Trees of operators over names and integers.  Every node keeps the token it was read from, which need
not agree with what else the node says: a tree can also be built by hand.
-/

namespace Precedence

structure Identifier where
  token : Token
  value : String
  deriving DecidableEq, Repr

def Identifier.ofToken (token : Token) : Identifier := ⟨token, token.text⟩

inductive Expr where
  | identifier (name : Identifier)
  | integer (token : Token) (value : Int)
  | unary (token : Token) (operator : String) (operand : Expr)
  | binary (token : Token) (operator : String) (left right : Expr)
  deriving DecidableEq, Repr

namespace Expr

/-- The token of the node itself: for an operator, the operator. -/
def token : Expr → Token
  | .identifier name => name.token
  | .integer token _ => token
  | .unary token _ _ => token
  | .binary token _ _ _ => token

/-- Each operator stands in parentheses with its operands, so that precedence shows. -/
def render : Expr → String
  | .identifier name => name.value
  | .integer token _ => token.text
  | .unary _ operator operand => "(" ++ operator ++ operand.render ++ ")"
  | .binary _ operator left right =>
    "(" ++ left.render ++ " " ++ operator ++ " " ++ right.render ++ ")"

def height : Expr → Nat
  | .identifier _ => 1
  | .integer _ _ => 1
  | .unary _ _ operand => operand.height + 1
  | .binary _ _ left right => max left.height right.height + 1

/-- The tokens of the nodes from left to right, without the parentheses. -/
def tokens : Expr → List Token
  | .identifier name => [name.token]
  | .integer token _ => [token]
  | .unary token _ operand => token :: operand.tokens
  | .binary token _ left right => left.tokens ++ token :: right.tokens

end Expr

end Precedence
