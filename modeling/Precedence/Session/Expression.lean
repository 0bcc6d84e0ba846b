import Precedence.Expr
import Precedence.Rules
import Precedence.Session
import Precedence.Text.Numeral

/-!
# Reading expressions

An expression is an operand followed by operators that bind tighter than a given power, each with
its right operand.  The reading goes down by levels: a nested expression takes one, and so does
every operator folded over what stands to its left, until the expression is done.  Where no level is
left, the expression is given up.  Whoever gives up has said why.
-/

namespace Precedence.Session

variable {σ : Type} [Supply σ]

/-- How the expressions inside another are read. -/
abbrev Inner (σ : Type) : Type := Power → Session σ → Option Expr × Session σ

/-! ## Operands and operators -/

def readIdentifier (s : Session σ) : Option Expr × Session σ :=
  (some (.identifier (.ofToken s.current)), s)

def readInteger (s : Session σ) : Option Expr × Session σ :=
  match Text.integer64? s.current.text with
  | some value => (some (.integer s.current value), s)
  | none => (none, s.diagnose (.badInteger s.current.text))

def readUnary (inner : Inner σ) (s : Session σ) : Option Expr × Session σ :=
  match inner .unary s.step with
  | (some operand, after) => (some (.unary s.current s.current.text operand), after)
  | (none, after) => (none, after)

def readGrouped (inner : Inner σ) (s : Session σ) : Option Expr × Session σ :=
  match inner .lowest s.step with
  | (some e, inside) =>
    match inside.expect .closeParen with
    | (true, after) => (some e, after)
    | (false, after) => (none, after)
  | (none, inside) => (none, inside)

/-- The right operand is read at the power of the operator, so that equals group to the left. -/
def readBinary (inner : Inner σ) (left : Expr) (s : Session σ) : Option Expr × Session σ :=
  match inner (Rules.standard.power s.current.kind) s.step with
  | (some right, after) => (some (.binary s.current s.current.text left right), after)
  | (none, after) => (none, after)

def readOperand (inner : Inner σ) : OperandRule → Session σ → Option Expr × Session σ
  | .identifier => readIdentifier
  | .integer => readInteger
  | .unary => readUnary inner
  | .grouped => readGrouped inner

def readOperator (inner : Inner σ) : OperatorRule → Expr → Session σ → Option Expr × Session σ
  | .binary => readBinary inner

/-! ## Expressions -/

mutual

/-- Reads an expression with the given levels to spend. -/
def exprWithin : Nat → Power → Session σ → Option Expr × Session σ
  | 0, _, s => (none, s.diagnose (.tooDeep s.limit))
  | n + 1, power, s =>
    let s := s.enter.note (.expression s.current.kind power)
    match Rules.standard.operand s.current.kind with
    | none => (none, (s.diagnose (.noOperand s.current.kind)).exit 1)
    | some rule =>
      match readOperand (exprWithin n) rule s with
      | (some left, s) => foldWithin n power 1 left s
      | (none, s) => (none, s.exit 1)

/-- Goes on with the operators behind `left`; `taken` levels are given back at the end. -/
def foldWithin : Nat → Power → Nat → Expr → Session σ → Option Expr × Session σ
  | n, power, taken, left, s =>
    if s.upcoming.kind ≠ .semicolon ∧ power < Rules.standard.power s.upcoming.kind then
      match Rules.standard.operator s.upcoming.kind with
      | none => (some left, s.exit taken)
      | some rule =>
        match n with
        | 0 => (none, (s.diagnose (.tooDeep s.limit)).exit taken)
        | n + 1 =>
          match readOperator (exprWithin n) rule left s.enter.step with
          | (some left, s) => foldWithin n power (taken + 1) left s
          | (none, s) => (none, s.exit (taken + 1))
    else (some left, s.exit taken)

end

def expr (power : Power) (s : Session σ) : Option Expr × Session σ :=
  exprWithin s.levels power s

def operand (rule : OperandRule) (s : Session σ) : Option Expr × Session σ :=
  readOperand (exprWithin s.levels) rule s

def operator (rule : OperatorRule) (left : Expr) (s : Session σ) : Option Expr × Session σ :=
  readOperator (exprWithin s.levels) rule left s

end Precedence.Session
