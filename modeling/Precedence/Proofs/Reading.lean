import Precedence.Expr
import Precedence.Rules
import Precedence.Text.Numeral

/-!
# Readings

A reading is a derivation of how tokens become an expression at a given power: one operand, then
folds over it.  It counts what the nesting limit counts, and so it says from how many levels on the
tokens are read, as well as what they are read as.
-/

namespace Precedence

/-! ## What the standard rules say -/

namespace Rules

theorem standard_operator_of_lt {p : Power} {k : Kind} (h : p < standard.power k) :
    standard.operator k = some .binary := by
  have hpos : 0 < (standard.power k).rank := Nat.zero_lt_of_lt h
  cases k <;> first | rfl | exact absurd hpos (by decide)

theorem not_power_lt_lowest {p : Power} : ¬ p < .lowest := Nat.not_lt_zero _

theorem ne_semicolon_of_lt {p : Power} {k : Kind} (h : p < standard.power k) : k ≠ .semicolon := by
  rintro rfl
  exact not_power_lt_lowest h

theorem ne_eof_of_lt {p : Power} {k : Kind} (h : p < standard.power k) : k ≠ .eof := by
  rintro rfl
  exact not_power_lt_lowest h

theorem standard_statement_of_operand {k : Kind} {rule : OperandRule}
    (h : standard.operand k = some rule) : standard.statement k = none := by
  cases k <;> first | rfl | cases h

/-- Minus is the one kind that both starts an operand and goes on behind one. -/
theorem standard_power_of_operand {k : Kind} {rule : OperandRule}
    (h : standard.operand k = some rule) (hk : k ≠ .minus) : standard.power k ≤ .lowest := by
  cases k <;> first | exact absurd rfl hk | decide | cases h

theorem kind_of_standard_operand {k : Kind} {rule : OperandRule}
    (h : standard.operand k = some rule) :
    match rule with
    | .identifier => k = .identifier
    | .integer => k = .int
    | .unary => k = .bang ∨ k = .minus
    | .grouped => k = .openParen := by
  cases k <;> cases h <;> decide

theorem standard_power_le_product (k : Kind) : standard.power k ≤ .product := by
  cases k <;> decide

/-- No operator binds tighter than a unary one. -/
theorem standard_power_le_unary (k : Kind) : standard.power k ≤ .unary :=
  Nat.le_succ_of_le (standard_power_le_product k)

theorem standard_power_le_call (k : Kind) : standard.power k ≤ .call :=
  Nat.le_succ_of_le (standard_power_le_unary k)

end Rules

/-- `Reading p us e k n q`: at the power `p` the tokens `us` are read as `e`, in `k` folds and on
`n` levels; the operator folded last has the power `q`.  Without folds `q` is the greatest. -/
inductive Reading : Power → List Token → Expr → Nat → Nat → Power → Prop
  | identifier {p t} (ht : Rules.standard.operand t.kind = some .identifier) :
      Reading p [t] (.identifier (.ofToken t)) 0 1 .call
  | integer {p t v} (ht : Rules.standard.operand t.kind = some .integer)
      (hv : Text.integer64? t.text = some v) : Reading p [t] (.integer t v) 0 1 .call
  | unary {p t us e k n q} (ht : Rules.standard.operand t.kind = some .unary)
      (h : Reading .unary us e k n q) : Reading p (t :: us) (.unary t t.text e) 0 (n + 1) .call
  | grouped {p o us c e k n q} (ho : Rules.standard.operand o.kind = some .grouped)
      (hc : c.kind = .closeParen) (h : Reading .lowest us e k n q) :
      Reading p (o :: us ++ [c]) e 0 (n + 1) .call
  | binary {p us op vs l r k n q j m q'} (hl : Reading p us l k n q)
      (hlt : p < Rules.standard.power op.kind) (hle : Rules.standard.power op.kind ≤ q)
      (hr : Reading (Rules.standard.power op.kind) vs r j m q') :
      Reading p (us ++ op :: vs) (.binary op op.text l r) (k + 1) (max n (k + 2 + m))
        (Rules.standard.power op.kind)

/-- What a statement reads its expression as, on at most `N` levels. -/
def ReadingWithin (N : Nat) (us : List Token) (e : Expr) : Prop :=
  ∃ k n q, Reading .lowest us e k n q ∧ n ≤ N

namespace Reading

variable {p q : Power} {us : List Token} {e : Expr} {k n : Nat}

/-- The first token of an expression is one that can start an operand. -/
theorem head_operand (h : Reading p us e k n q) :
    ∃ t vs rule, us = t :: vs ∧ Rules.standard.operand t.kind = some rule := by
  induction h with
  | identifier ht => exact ⟨_, _, _, rfl, ht⟩
  | integer ht => exact ⟨_, _, _, rfl, ht⟩
  | unary ht => exact ⟨_, _, _, rfl, ht⟩
  | grouped ho => exact ⟨_, _, _, rfl, ho⟩
  | binary hl hlt hle hr ihl ihr =>
    obtain ⟨t, vs, rule, rfl, ht⟩ := ihl
    exact ⟨t, _, rule, rfl, ht⟩

theorem levels_pos (h : Reading p us e k n q) : k < n := by
  induction h with
  | identifier => exact Nat.one_pos
  | integer => exact Nat.one_pos
  | unary => exact Nat.succ_pos _
  | grouped => exact Nat.succ_pos _
  | binary hl hlt hle hr ihl ihr => omega

theorem power_le (h : Reading p us e k n q) : p ≤ q := by
  cases h with
  | identifier | integer | unary | grouped => cases p <;> decide
  | binary hl hlt hle hr => exact Nat.le_of_lt hlt

theorem power_lt (h : Reading p us e k n q) (hp : p ≤ .product) : p < q := by
  cases h with
  | identifier | integer | unary | grouped => exact Nat.lt_of_le_of_lt hp (by decide)
  | binary hl hlt hle hr => exact hlt

/-- Every level and every fold has a token of its own. -/
theorem levels_le_length (h : Reading p us e k n q) : n ≤ us.length := by
  suffices hboth : n ≤ us.length ∧ k + 1 ≤ us.length from hboth.1
  induction h with
  | identifier => simp
  | integer => simp
  | unary ht h ih => simp only [List.length_cons]; omega
  | grouped ho hc h ih =>
    simp only [List.cons_append, List.length_cons, List.length_append]
    omega
  | binary hl hlt hle hr ihl ihr =>
    simp only [List.length_append, List.length_cons]
    omega

/-- Apart from closing parentheses, only what starts or joins operands is part of an expression. -/
theorem kind_ne (h : Reading p us e k n q) {kind : Kind}
    (hoperand : Rules.standard.operand kind = none) (hpower : Rules.standard.power kind = .lowest)
    (hclose : kind ≠ .closeParen) : ∀ t ∈ us, t.kind ≠ kind := by
  have hstart {t : Token} {rule : OperandRule} (ht : Rules.standard.operand t.kind = some rule) :
      t.kind ≠ kind := by
    rintro rfl
    rw [hoperand] at ht
    cases ht
  induction h with
  | identifier ht => simpa using hstart ht
  | integer ht => simpa using hstart ht
  | unary ht h ih => exact List.forall_mem_cons.2 ⟨hstart ht, ih⟩
  | grouped ho hc h ih =>
    rw [List.cons_append, List.forall_mem_cons, List.forall_mem_append, List.forall_mem_singleton,
      hc]
    exact ⟨hstart ho, ih, hclose.symm⟩
  | binary hl hlt hle hr ihl ihr =>
    rw [List.forall_mem_append, List.forall_mem_cons]
    refine ⟨ihl, ?_, ihr⟩
    rintro rfl
    rw [hpower] at hlt
    exact Rules.not_power_lt_lowest hlt

theorem kind_ne_semicolon (h : Reading p us e k n q) : ∀ t ∈ us, t.kind ≠ .semicolon :=
  h.kind_ne rfl rfl (by decide)

end Reading

end Precedence
