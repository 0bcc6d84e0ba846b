import Precedence.Program
import Precedence.Session.Expression

/-!
# Reading statements

What the token in hand starts: a binding, a return, or an expression that stands alone.  A semicolon
at the end may be missing.
-/

namespace Precedence.Session

variable {σ : Type} [Supply σ]

def letBinding (s : Session σ) : Option Stmt × Session σ :=
  match s.expect .identifier with
  | (false, named) => (none, named)
  | (true, named) =>
    match named.expect .assign with
    | (false, bound) => (none, bound)
    | (true, bound) =>
      let r := bound.step.expr .lowest
      (some (.letBinding s.current (.ofToken named.current) r.1), r.2.skipSemicolon)

def returnValue (s : Session σ) : Option Stmt × Session σ :=
  let r := s.step.expr .lowest
  (some (.returnValue s.current r.1), r.2.skipSemicolon)

def expressionAlone (s : Session σ) : Option Stmt × Session σ :=
  let r := s.expr .lowest
  (some (.expression s.current r.1), r.2.skipSemicolon)

def statement : StatementRule → Session σ → Option Stmt × Session σ
  | .letBinding => letBinding
  | .returnValue => returnValue

/-- A kind without a rule of its own starts an expression. -/
def stmt (s : Session σ) : Option Stmt × Session σ :=
  match Rules.standard.statement s.current.kind with
  | some rule => s.statement rule
  | none => s.expressionAlone

end Precedence.Session
