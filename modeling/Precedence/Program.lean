import Precedence.Expr

/-!
# Statements and programs

A statement whose expression could not be read is kept without it.
-/

namespace Precedence

inductive Stmt where
  | letBinding (token : Token) (name : Identifier) (value : Option Expr)
  | returnValue (token : Token) (value : Option Expr)
  | expression (token : Token) (value : Option Expr)
  deriving DecidableEq, Repr

namespace Stmt

/-- The token a statement starts with. -/
def token : Stmt → Token
  | .letBinding token _ _ => token
  | .returnValue token _ => token
  | .expression token _ => token

def value? : Stmt → Option Expr
  | .letBinding _ _ value => value
  | .returnValue _ value => value
  | .expression _ value => value

def renderValue (value : Option Expr) : String := (value.map Expr.render).getD ""

/-- An expression alone is written without a semicolon. -/
def render : Stmt → String
  | .letBinding token name value =>
    token.text ++ " " ++ name.value ++ " = " ++ renderValue value ++ ";"
  | .returnValue token value => token.text ++ " " ++ renderValue value ++ ";"
  | .expression _ value => renderValue value

end Stmt

structure Program where
  statements : List Stmt
  deriving DecidableEq, Repr

namespace Program

/-- Nothing stands between two statements. -/
def render (p : Program) : String := String.join (p.statements.map Stmt.render)

/-- The text of the token a program starts with. -/
def literal (p : Program) : String :=
  match p.statements with
  | [] => ""
  | s :: _ => s.token.text

end Program

end Precedence
