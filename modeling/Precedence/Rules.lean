import Precedence.Token
import Precedence.Power

/-!
# Rules by kind

Which rule reads what, by the kind of the token in hand: how a statement goes on, what can start an
operand, and what can follow an operand, and how tightly it binds.  Rules are registered one by one;
a later registration replaces an earlier one of its sort for its kind.
-/

namespace Precedence

inductive StatementRule where
  | letBinding
  | returnValue
  deriving DecidableEq, Repr

inductive OperandRule where
  | identifier
  | integer
  | unary
  | grouped
  deriving DecidableEq, Repr

inductive OperatorRule where
  | binary
  deriving DecidableEq, Repr

/-! ## Tables -/

def Table (α : Type) : Type := Kind → Option α

namespace Table

variable {α : Type}

def empty : Table α := fun _ => none

def insert (kind : Kind) (a : α) (t : Table α) : Table α :=
  fun k => if k = kind then some a else t k

theorem insert_apply (kind k : Kind) (a : α) (t : Table α) :
    t.insert kind a k = if k = kind then some a else t k := rfl

/-- What was inserted last goes before what was there. -/
theorem insert_eq_or (kind k : Kind) (a : α) (t : Table α) :
    t.insert kind a k = (if k = kind then some a else none).or (t k) := by
  rw [insert_apply]
  split <;> rfl

end Table

/-! ## Registration -/

/-- A table for each sort of rule, whatever the rules are made of. -/
structure RuleBook (S O P : Type) where
  statement : Table S
  operand : Table O
  operator : Table P
  /-- The powers of the operators. -/
  binding : Table Power

namespace RuleBook

variable {S O P : Type}

def empty : RuleBook S O P := ⟨Table.empty, Table.empty, Table.empty, Table.empty⟩

def onStatement (kind : Kind) (rule : S) (r : RuleBook S O P) : RuleBook S O P :=
  { r with statement := r.statement.insert kind rule }

def onOperand (kind : Kind) (rule : O) (r : RuleBook S O P) : RuleBook S O P :=
  { r with operand := r.operand.insert kind rule }

/-- An operator comes with its power. -/
def onOperator (kind : Kind) (power : Power) (rule : P) (r : RuleBook S O P) : RuleBook S O P :=
  { r with operator := r.operator.insert kind rule, binding := r.binding.insert kind power }

/-- What is no operator does not bind. -/
def power (r : RuleBook S O P) (kind : Kind) : Power := (r.binding kind).getD .lowest

end RuleBook

abbrev Rules : Type := RuleBook StatementRule OperandRule OperatorRule

namespace Rules

def empty : Rules := RuleBook.empty

/-- The rules of the language. -/
def standard : Rules :=
  empty
    |>.onOperator .equals .equals .binary
    |>.onOperator .notEquals .equals .binary
    |>.onOperator .less .lessGreater .binary
    |>.onOperator .greater .lessGreater .binary
    |>.onOperator .plus .sum .binary
    |>.onOperator .minus .sum .binary
    |>.onOperator .asterisk .product .binary
    |>.onOperator .slash .product .binary
    |>.onOperand .identifier .identifier
    |>.onOperand .int .integer
    |>.onOperand .bang .unary
    |>.onOperand .minus .unary
    |>.onOperand .openParen .grouped
    |>.onStatement .let .letBinding
    |>.onStatement .return .returnValue

end Rules

end Precedence
