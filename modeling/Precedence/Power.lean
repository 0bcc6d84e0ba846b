/-!
# Binding powers

How tightly an operator holds its operands, from not at all to tightest.
-/

namespace Precedence

inductive Power where
  | lowest
  | equals
  | lessGreater
  | sum
  | product
  | unary
  | call
  deriving DecidableEq, Repr, Inhabited

namespace Power

def all : List Power := [.lowest, .equals, .lessGreater, .sum, .product, .unary, .call]

def name : Power → String
  | .lowest => "Lowest"
  | .equals => "Equals"
  | .lessGreater => "LessGreater"
  | .sum => "Sum"
  | .product => "Product"
  | .unary => "Prefix"
  | .call => "Call"

def rank : Power → Nat
  | .lowest => 0
  | .equals => 1
  | .lessGreater => 2
  | .sum => 3
  | .product => 4
  | .unary => 5
  | .call => 6

instance : LT Power := ⟨fun a b => a.rank < b.rank⟩

instance : LE Power := ⟨fun a b => a.rank ≤ b.rank⟩

instance (a b : Power) : Decidable (a < b) := inferInstanceAs (Decidable (a.rank < b.rank))

instance (a b : Power) : Decidable (a ≤ b) := inferInstanceAs (Decidable (a.rank ≤ b.rank))

instance : Ord Power := ⟨fun a b => compare a.rank b.rank⟩

end Power

end Precedence
