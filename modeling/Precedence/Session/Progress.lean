import Precedence.Session.Statement

/-!
# Progress

Whatever a session reads, its cursor only steps forward, token by token.
-/

namespace Precedence.Session

variable {σ : Type} [Supply σ]

/-- The cursor of `t` is that of `s` some steps further on. -/
def Reaches (s t : Session σ) : Prop := ∃ n, t.cursor = s.cursor.steps n

namespace Reaches

theorem of_cursor_eq {s t : Session σ} (h : t.cursor = s.cursor) : Reaches s t := ⟨0, h⟩

theorem refl (s : Session σ) : Reaches s s := of_cursor_eq rfl

theorem trans {s t u : Session σ} (hst : Reaches s t) (htu : Reaches t u) : Reaches s u := by
  obtain ⟨m, hm⟩ := hst
  obtain ⟨n, hn⟩ := htu
  exact ⟨m + n, by rw [hn, hm, Cursor.steps_add]⟩

theorem of_step {s t : Session σ} (h : Reaches s.step t) : Reaches s t :=
  trans ⟨1, rfl⟩ h

end Reaches

theorem reaches_expect (kind : Kind) (s : Session σ) : Reaches s (s.expect kind).2 := by
  unfold expect
  split
  · exact .of_step (.refl _)
  · exact .of_cursor_eq rfl

theorem reaches_skipSemicolon (s : Session σ) : Reaches s s.skipSemicolon := by
  unfold skipSemicolon
  split
  · exact .of_step (.refl _)
  · exact .refl s

/-! ## Expressions -/

def InnerReaches (inner : Inner σ) : Prop := ∀ power s, Reaches s (inner power s).2

theorem reaches_readOperand {inner : Inner σ} (hinner : InnerReaches inner) (rule : OperandRule)
    (s : Session σ) : Reaches s (readOperand inner rule s).2 := by
  cases rule with
  | identifier => exact .refl s
  | integer =>
    simp only [readOperand, readInteger]
    split <;> exact .of_cursor_eq rfl
  | unary =>
    have h := Reaches.of_step (hinner .unary s.step)
    simp only [readOperand, readUnary]
    split <;> simp_all
  | grouped =>
    have h := Reaches.of_step (hinner .lowest s.step)
    simp only [readOperand, readGrouped]
    split
    next e s' he =>
      rw [he] at h
      have hc := h.trans (reaches_expect .closeParen s')
      split <;> simp_all
    next s' he => rwa [he] at h

theorem reaches_readOperator {inner : Inner σ} (hinner : InnerReaches inner) (rule : OperatorRule)
    (left : Expr) (s : Session σ) : Reaches s (readOperator inner rule left s).2 := by
  cases rule
  have h := Reaches.of_step (hinner (Rules.standard.power s.current.kind) s.step)
  simp only [readOperator, readBinary]
  split <;> simp_all

theorem reaches_within (n : Nat) :
    InnerReaches (exprWithin (σ := σ) n) ∧
      ∀ power taken left (s : Session σ), Reaches s (foldWithin n power taken left s).2 := by
  induction n with
  | zero =>
    constructor
    · intro power s
      exact .of_cursor_eq rfl
    · intro power taken left s
      unfold foldWithin
      split
      · split <;> exact .of_cursor_eq rfl
      · exact .of_cursor_eq rfl
  | succ n ih =>
    obtain ⟨hexpr, hfold⟩ := ih
    constructor
    · intro power s
      unfold exprWithin
      dsimp only
      split
      · exact .of_cursor_eq rfl
      next rule _ =>
        have h := reaches_readOperand hexpr rule
          (s.enter.note (.expression s.current.kind power))
        split
        next left s' he =>
          rw [he] at h
          exact .trans (.trans (.of_cursor_eq rfl) h) (hfold power 1 left s')
        next s' he =>
          rw [he] at h
          exact .trans (.trans (.of_cursor_eq rfl) h) (.of_cursor_eq rfl)
    · intro power taken left s
      unfold foldWithin
      split
      · split
        · exact .of_cursor_eq rfl
        next rule _ =>
          have h := Reaches.of_step (.trans (.of_cursor_eq (s := s.step) rfl)
            (reaches_readOperator hexpr rule left s.enter.step))
          dsimp only
          split
          next left' s' he =>
            rw [he] at h
            exact h.trans (hfold power (taken + 1) left' s')
          next s' he =>
            rw [he] at h
            exact h.trans (.of_cursor_eq rfl)
      · exact .of_cursor_eq rfl

theorem reaches_expr (power : Power) (s : Session σ) : Reaches s (s.expr power).2 :=
  (reaches_within s.levels).1 power s

/-! ## Statements -/

theorem reaches_letBinding (s : Session σ) : Reaches s s.letBinding.2 := by
  have h := reaches_expect .identifier s
  unfold letBinding
  split
  next named he => rwa [he] at h
  next named he =>
    rw [he] at h
    have h2 := h.trans (reaches_expect .assign named)
    split
    next bound he2 => rwa [he2] at h2
    next bound he2 =>
      rw [he2] at h2
      exact h2.trans (.of_step ((reaches_expr .lowest bound.step).trans
        (reaches_skipSemicolon _)))

theorem reaches_returnValue (s : Session σ) : Reaches s s.returnValue.2 :=
  .of_step ((reaches_expr .lowest s.step).trans (reaches_skipSemicolon _))

theorem reaches_expressionAlone (s : Session σ) : Reaches s s.expressionAlone.2 :=
  (reaches_expr .lowest s).trans (reaches_skipSemicolon _)

theorem reaches_statement (rule : StatementRule) (s : Session σ) :
    Reaches s (s.statement rule).2 := by
  cases rule
  · exact reaches_letBinding s
  · exact reaches_returnValue s

theorem reaches_stmt (s : Session σ) : Reaches s s.stmt.2 := by
  unfold stmt
  split
  · exact reaches_statement _ s
  · exact reaches_expressionAlone s

end Precedence.Session
