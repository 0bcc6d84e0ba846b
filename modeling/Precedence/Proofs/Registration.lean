import Precedence.Proofs.Expression

/-!
# Registration

Whatever is registered, in whatever order and however often: what a rule book says of a kind is what
was registered for it last, and operators and powers stay in step.  So the loop that folds never
stands in front of a kind that binds and has no rule.
-/

namespace Precedence

/-- An entry of a rule book. -/
inductive Registration (S O P : Type) where
  | statement (kind : Kind) (rule : S)
  | operand (kind : Kind) (rule : O)
  | operator (kind : Kind) (power : Power) (rule : P)

variable {S O P α : Type}

namespace Registration

def kind : Registration S O P → Kind
  | .statement kind _ => kind
  | .operand kind _ => kind
  | .operator kind _ _ => kind

def statement? : Registration S O P → Option S
  | .statement _ rule => some rule
  | _ => none

def operand? : Registration S O P → Option O
  | .operand _ rule => some rule
  | _ => none

def operator? : Registration S O P → Option P
  | .operator _ _ rule => some rule
  | _ => none

/-- The power that an operator comes with. -/
def power? : Registration S O P → Option Power
  | .operator _ power _ => some power
  | _ => none

theorem power?_eq_none {e : Registration S O P} (h : e.operator? = none) : e.power? = none := by
  cases e with
  | statement | operand => rfl
  | operator => cases h

def enter : Registration S O P → RuleBook S O P → RuleBook S O P
  | .statement kind rule => .onStatement kind rule
  | .operand kind rule => .onOperand kind rule
  | .operator kind power rule => .onOperator kind power rule

/-- What the entry has of one sort, if it is about the kind `k`. -/
def about? (sort? : Registration S O P → Option α) (k : Kind) (e : Registration S O P) : Option α :=
  if k = e.kind then sort? e else none

/-- The last of one sort that was registered for the kind `k`. -/
def latest? (sort? : Registration S O P → Option α) (k : Kind)
    (history : List (Registration S O P)) : Option α :=
  (history.filterMap (about? sort? k)).getLast?

theorem about?_eq_none {sort? : Registration S O P → Option α} {k : Kind} {e : Registration S O P}
    (h : e.kind ≠ k ∨ sort? e = none) : about? sort? k e = none := by
  unfold about?
  cases h with
  | inl h => exact if_neg fun hk => h hk.symm
  | inr h => rw [h, ite_self]

theorem latest?_cons (sort? : Registration S O P → Option α) (k : Kind) (e : Registration S O P)
    (history : List (Registration S O P)) (before : Option α) :
    (latest? sort? k (e :: history)).or before =
      (latest? sort? k history).or ((about? sort? k e).or before) := by
  unfold latest?
  rw [List.filterMap_cons]
  cases about? sort? k e with
  | none => rfl
  | some a =>
    dsimp only
    rw [List.getLast?_cons]
    cases (history.filterMap (about? sort? k)).getLast? <;> rfl

/-! ## One entry -/

variable (e : Registration S O P) (book : RuleBook S O P) (k : Kind)

theorem statement_enter :
    (e.enter book).statement k = (about? statement? k e).or (book.statement k) := by
  cases e with
  | statement kind rule => exact Table.insert_eq_or ..
  | operand | operator => rw [about?_eq_none (.inr rfl)]; rfl

theorem operand_enter :
    (e.enter book).operand k = (about? operand? k e).or (book.operand k) := by
  cases e with
  | operand kind rule => exact Table.insert_eq_or ..
  | statement | operator => rw [about?_eq_none (.inr rfl)]; rfl

theorem operator_enter :
    (e.enter book).operator k = (about? operator? k e).or (book.operator k) := by
  cases e with
  | operator kind power rule => exact Table.insert_eq_or ..
  | statement | operand => rw [about?_eq_none (.inr rfl)]; rfl

theorem binding_enter :
    (e.enter book).binding k = (about? power? k e).or (book.binding k) := by
  cases e with
  | operator kind power rule => exact Table.insert_eq_or ..
  | statement | operand => rw [about?_eq_none (.inr rfl)]; rfl

end Registration

namespace RuleBook

open Registration

/-! ## A history of entries -/

def register (history : List (Registration S O P)) (book : RuleBook S O P) : RuleBook S O P :=
  history.foldl (fun book e => e.enter book) book

/-- The book with each rule replaced, by the reader that it stands for, say. -/
def map {S' O' P' : Type} (f : S → S') (g : O → O') (h : P → P') (book : RuleBook S O P) :
    RuleBook S' O' P' where
  statement kind := (book.statement kind).map f
  operand kind := (book.operand kind).map g
  operator kind := (book.operator kind).map h
  binding := book.binding

/-- Where each entry overrides what `get` reads, the last one counts. -/
theorem register_latest (get : RuleBook S O P → Option α) {sort? : Registration S O P → Option α}
    {k : Kind} (hstep : ∀ e book, get (e.enter book) = (about? sort? k e).or (get book))
    (history : List (Registration S O P)) (book : RuleBook S O P) :
    get (book.register history) = (latest? sort? k history).or (get book) := by
  induction history generalizing book with
  | nil => rfl
  | cons e history ih =>
    show get ((e.enter book).register history) = _
    rw [ih, hstep, latest?_cons]

/-- Operators have a power, and nothing else has one. -/
def InStep (book : RuleBook S O P) : Prop :=
  ∀ k, (book.operator k).isSome ↔ (book.binding k).isSome

theorem inStep_empty : (empty : RuleBook S O P).InStep := fun _ => Iff.rfl

theorem inStep_standard (f : StatementRule → S) (g : OperandRule → O) (h : OperatorRule → P) :
    (Rules.standard.map f g h).InStep := by
  intro k
  cases k <;> exact Iff.rfl

theorem InStep.enter {book : RuleBook S O P} (h : book.InStep) (e : Registration S O P) :
    (e.enter book).InStep := by
  intro k
  cases e with
  | statement | operand => exact h k
  | operator kind power rule =>
    show ((book.operator.insert kind rule) k).isSome ↔ ((book.binding.insert kind power) k).isSome
    rw [Table.insert_apply, Table.insert_apply]
    split
    · exact Iff.rfl
    · exact h k

theorem InStep.register {book : RuleBook S O P} (h : book.InStep)
    (history : List (Registration S O P)) : (book.register history).InStep := by
  induction history generalizing book with
  | nil => exact h
  | cons e history ih => exact ih (h.enter e)

/-- What binds at all has a rule. -/
theorem InStep.exists_operator {book : RuleBook S O P} (h : book.InStep) {k : Kind} {power : Power}
    (hlt : power < book.power k) : ∃ rule, book.operator k = some rule := by
  apply Option.isSome_iff_exists.1
  apply (h k).2
  cases hpower : book.binding k with
  | some _ => rfl
  | none =>
    rw [RuleBook.power, hpower] at hlt
    exact absurd hlt Rules.not_power_lt_lowest

/-- Whether it starts empty or with the rules of the language, whatever these are read by: after any
history a book has a rule for each operator that has a power and for no other; it says of a kind
what was registered last, or what it said at the start; entries of another sort or for another kind
make no difference.  What binds has a rule, and the loop never gives up in front of it. -/
theorem register_in_step {book : RuleBook S O P}
    (hbook : book = .empty ∨ ∃ f g h, book = Rules.standard.map f g h)
    (history : List (Registration S O P)) (kind : Kind) :
    let after := book.register history
    ((after.operator kind).isSome ↔ (after.binding kind).isSome) ∧
      after.statement kind = (latest? statement? kind history).or (book.statement kind) ∧
      after.operand kind = (latest? operand? kind history).or (book.operand kind) ∧
      after.operator kind = (latest? operator? kind history).or (book.operator kind) ∧
      after.power kind = ((latest? power? kind history).or (book.binding kind)).getD .lowest ∧
      (∀ e : Registration S O P,
        (e.kind ≠ kind ∨ e.statement? = none →
          (e.enter after).statement kind = after.statement kind) ∧
        (e.kind ≠ kind ∨ e.operand? = none → (e.enter after).operand kind = after.operand kind) ∧
        (e.kind ≠ kind ∨ e.operator? = none → (e.enter after).operator kind = after.operator kind ∧
          (e.enter after).power kind = after.power kind)) ∧
      (∀ power, power < after.power kind → ∃ rule, after.operator kind = some rule) ∧
      ∀ (σ : Type) [Supply σ] n power taken left (s t : Session σ) e,
        Session.foldWithin n power taken left s = (some e, t) →
          ¬ power < Rules.standard.power t.upcoming.kind := by
  intro after
  have hstart : book.InStep := by
    obtain rfl | ⟨f, g, h, rfl⟩ := hbook
    · exact inStep_empty
    · exact inStep_standard f g h
  have hafter : after.InStep := hstart.register history
  have hbinding : after.binding kind = (latest? power? kind history).or (book.binding kind) :=
    register_latest (·.binding kind) (fun e book => binding_enter e book kind) history book
  refine ⟨hafter kind, ?_, ?_, ?_, ?_, fun e => ⟨?_, ?_, ?_⟩, fun power => hafter.exists_operator,
    ?_⟩
  · exact register_latest (·.statement kind) (fun e book => statement_enter e book kind) history book
  · exact register_latest (·.operand kind) (fun e book => operand_enter e book kind) history book
  · exact register_latest (·.operator kind) (fun e book => operator_enter e book kind) history book
  · rw [power, hbinding]
  · intro h
    rw [statement_enter, about?_eq_none h, Option.none_or]
  · intro h
    rw [operand_enter, about?_eq_none h, Option.none_or]
  · intro h
    have hpower : e.kind ≠ kind ∨ e.power? = none := h.imp_right power?_eq_none
    rw [power, power, operator_enter, binding_enter, about?_eq_none h, about?_eq_none hpower,
      Option.none_or, Option.none_or]
    exact ⟨rfl, rfl⟩
  · intro σ _ n power taken left s t e h
    exact (Session.of_foldWithin (I := fun _ => True) (fun _ _ _ _ => id) trivial h).2

/-- An operator replaced twice, and a kind that becomes an operator. -/
theorem register_in_step_replaced :
    let book : RuleBook StatementRule OperandRule String := Rules.standard.map id id fun _ => "old"
    let after := book.register [.operator .bang .call "postfix", .operator .equals .product "first",
      .operand .equals .grouped, .operator .equals .sum "second"]
    after.operator .equals = some "second" ∧ after.power .equals = .sum ∧
      after.operand .equals = some .grouped ∧ after.operand .bang = some .unary ∧
      after.power .bang = .call ∧ after.operator .plus = some "old" := by
  intro book after
  have hbook : book = .empty ∨ ∃ f g h, book = Rules.standard.map f g h := .inr ⟨_, _, _, rfl⟩
  obtain ⟨-, -, hoperand, hoperator, hpower, -⟩ := register_in_step hbook _ .equals
  obtain ⟨-, -, hoperand', -, hpower', -⟩ := register_in_step hbook _ .bang
  obtain ⟨-, -, -, hplus, -⟩ := register_in_step hbook _ .plus
  exact ⟨hoperator, hpower, hoperand, hoperand', hpower', hplus⟩

end RuleBook

end Precedence
