/-!
# Decimal numerals

Reading a numeral of ASCII digits, with or without a sign, as an integer of 64 bits.
-/

namespace Precedence.Text

def digitValue (c : Char) : Nat := c.toNat - '0'.toNat

/-- The number that a run of digits denotes in base ten. -/
def digitsValue (cs : List Char) : Nat :=
  cs.foldl (fun n c => 10 * n + digitValue c) 0

/-- A numeral has at least one digit and nothing but digits. -/
def unsigned? (cs : List Char) : Option Nat :=
  if cs ≠ [] ∧ cs.all Char.isDigit then some (digitsValue cs) else none

/-- One sign may stand in front. -/
def signed? : List Char → Option Int
  | '-' :: cs => (unsigned? cs).map fun n => -Int.ofNat n
  | '+' :: cs => (unsigned? cs).map Int.ofNat
  | cs => (unsigned? cs).map Int.ofNat

/-- From minus two to the power 63 up to, and without, two to the power 63. -/
def InRange64 (v : Int) : Prop := -9223372036854775808 ≤ v ∧ v < 9223372036854775808

instance (v : Int) : Decidable (InRange64 v) := inferInstanceAs (Decidable (_ ∧ _))

/-- Leading zeros do not count: only the value has to fit. -/
def integer64? (s : String) : Option Int :=
  (signed? s.toList).filter fun v => InRange64 v

end Precedence.Text
