import Precedence.Session.Statement

/-!
# What a reading leaves behind

A reading that succeeds adds no diagnostic and one that gives up adds exactly one.  Either way the
levels it has taken are given back.
-/

namespace Precedence.Session

variable {σ α : Type}

/-- What a session has on its books: the diagnostics, the limit and the depth. -/
def ledger (s : Session σ) : List Diagnostic × Nat × Int := (s.diagnosed, s.limit, s.nesting.depth)

@[simp] theorem ledger_step [Supply σ] (s : Session σ) : s.step.ledger = s.ledger := rfl

@[simp] theorem ledger_diagnose (d : Diagnostic) (s : Session σ) :
    (s.diagnose d).ledger = (d :: s.ledger.1, s.ledger.2) := rfl

@[simp] theorem ledger_enter (s : Session σ) :
    s.enter.ledger = (s.ledger.1, s.ledger.2.1, s.ledger.2.2 + 1) := rfl

@[simp] theorem ledger_exit (n : Nat) (s : Session σ) :
    (s.exit n).ledger = (s.ledger.1, s.ledger.2.1, s.ledger.2.2 - n) := rfl

theorem diagnosed_of_ledger {s t : Session σ} (h : t.ledger = s.ledger) :
    t.diagnosed = s.diagnosed := congrArg Prod.fst h

theorem limit_of_ledger {s t : Session σ} (h : t.ledger = s.ledger) : t.limit = s.limit :=
  congrArg (fun l => l.2.1) h

theorem depth_of_ledger {s t : Session σ} (h : t.ledger = s.ledger) :
    t.nesting.depth = s.nesting.depth := congrArg (fun l => l.2.2) h

theorem levels_of_ledger {s t : Session σ} (h : t.ledger = s.ledger) : t.levels = s.levels := by
  rw [levels, levels, limit_of_ledger h, depth_of_ledger h]

/-- The books after `r` are those of `s`, but for one diagnostic where `r` has given up. -/
def Settles (s : Session σ) : Option α × Session σ → Prop
  | (some _, t) => t.ledger = s.ledger
  | (none, t) => ∃ d, t.ledger = (s.diagnose d).ledger

namespace Settles

theorem of_ledger {s t : Session σ} {r : Option α × Session σ} (hs : t.ledger = s.ledger)
    (hr : t.Settles r) : s.Settles r := by
  match r with
  | (some _, u) => exact Eq.trans hr hs
  | (none, u) =>
    obtain ⟨d, hd⟩ := hr
    exact ⟨d, by rw [hd, ledger_diagnose, hs, ledger_diagnose]⟩

/-- Whatever keeps the books may follow. -/
theorem trans_ledger {s t u : Session σ} {o : Option α} (h : s.Settles (o, t))
    (hu : u.ledger = t.ledger) : s.Settles (o, u) := by
  cases o with
  | none =>
    obtain ⟨d, hd⟩ := h
    exact ⟨d, hu.trans hd⟩
  | some a => exact hu.trans h

theorem exit {s t : Session σ} {n : Nat} (h : s.Settles ((none : Option α), t)) :
    (s.exit n).Settles ((none : Option α), t.exit n) := by
  obtain ⟨d, hd⟩ := h
  exact ⟨d, by rw [ledger_exit, hd]; rfl⟩

theorem ledger_eq {s t : Session σ} {a : α} (h : s.Settles (some a, t)) :
    t.ledger = s.ledger := h

theorem diagnosed_none {s t : Session σ} (h : s.Settles ((none : Option α), t)) :
    ∃ d, t.diagnosed = d :: s.diagnosed := by
  obtain ⟨d, hd⟩ := h
  exact ⟨d, congrArg Prod.fst hd⟩

theorem diagnosed_suffix {s : Session σ} {r : Option α × Session σ} (h : s.Settles r) :
    s.diagnosed <:+ r.2.diagnosed := by
  match r with
  | (some a, t) => exact ⟨[], (diagnosed_of_ledger h.ledger_eq).symm⟩
  | (none, t) =>
    obtain ⟨d, hcons⟩ := h.diagnosed_none
    exact ⟨[d], hcons.symm⟩

theorem isSome_iff {s : Session σ} {r : Option α × Session σ} (h : s.Settles r) :
    r.1.isSome ↔ r.2.diagnostics = s.diagnostics := by
  match r with
  | (some _, t) => simp [diagnostics, diagnosed_of_ledger h.ledger_eq]
  | (none, t) =>
    obtain ⟨d, hcons⟩ := h.diagnosed_none
    simp [diagnostics, hcons]

theorem eq_none_iff {s : Session σ} {r : Option α × Session σ} (h : s.Settles r) :
    r.1 = none ↔ ∃ d, r.2.diagnostics = s.diagnostics ++ [d] := by
  match r with
  | (some _, t) => simp [diagnostics, diagnosed_of_ledger h.ledger_eq]
  | (none, t) =>
    obtain ⟨d, hcons⟩ := h.diagnosed_none
    simp [diagnostics, hcons]

/-- Books without a new diagnostic are those of a reading that succeeded. -/
theorem eq_some {s t : Session σ} {o : Option α} (h : s.Settles (o, t))
    (hbooks : t.ledger = s.ledger) : ∃ a, o = some a := by
  cases o with
  | some a => exact ⟨a, rfl⟩
  | none =>
    -- A list is not its own tail.
    obtain ⟨d, hcons⟩ := h.diagnosed_none
    rw [diagnosed_of_ledger hbooks] at hcons
    exact absurd hcons.symm (List.cons_ne_self d s.diagnosed)

/-- The limit and the depth are the same again, whatever came of the reading. -/
theorem ledger_snd {s : Session σ} {r : Option α × Session σ} (h : s.Settles r) :
    r.2.ledger.2 = s.ledger.2 := by
  match r with
  | (some _, t) => exact congrArg Prod.snd h.ledger_eq
  | (none, t) =>
    obtain ⟨d, hd⟩ := h
    show t.ledger.2 = s.ledger.2
    rw [hd]
    rfl

/-- And with them the levels that the limit leaves. -/
theorem levels {s : Session σ} {r : Option α × Session σ} (h : s.Settles r) :
    r.2.levels = s.levels :=
  congrArg (fun books : Nat × Int => (books.1 - books.2).toNat) h.ledger_snd

end Settles

/-! ## Expressions -/

variable [Supply σ]

def InnerSettles (inner : Inner σ) : Prop := ∀ power (s : Session σ), s.Settles (inner power s)

theorem expect_eq_true_iff {kind : Kind} {s t : Session σ} :
    s.expect kind = (true, t) ↔ s.upcoming.kind = kind ∧ t = s.step := by
  unfold expect
  by_cases h : s.upcoming.kind = kind
  · rw [if_pos h]
    simp [h, eq_comm]
  · rw [if_neg h]
    simp [h]

-- A step that is refused is a reading that gives up.
theorem settles_of_expect_false {kind : Kind} {s t : Session σ} (h : s.expect kind = (false, t)) :
    s.Settles ((none : Option α), t) := by
  unfold expect at h
  split at h
  · cases h
  · cases h
    exact ⟨_, rfl⟩

theorem settles_readOperand {inner : Inner σ} (hinner : InnerSettles inner) (rule : OperandRule)
    (s : Session σ) : s.Settles (readOperand inner rule s) := by
  cases rule with
  | identifier => exact rfl
  | integer =>
    simp only [readOperand, readInteger]
    split
    · exact rfl
    · exact ⟨_, rfl⟩
  | unary =>
    have h := hinner .unary s.step
    simp only [readOperand, readUnary]
    split
    next operand t he => rw [he] at h; exact h
    next t he => rw [he] at h; exact h
  | grouped =>
    have h := hinner .lowest s.step
    simp only [readOperand, readGrouped]
    split
    next e t he =>
      rw [he] at h
      split
      next after hc =>
        obtain ⟨-, rfl⟩ := expect_eq_true_iff.1 hc
        exact h
      next after hc => exact .of_ledger h.ledger_eq (settles_of_expect_false hc)
    next t he => rw [he] at h; exact h

theorem settles_readOperator {inner : Inner σ} (hinner : InnerSettles inner) (rule : OperatorRule)
    (left : Expr) (s : Session σ) : s.Settles (readOperator inner rule left s) := by
  cases rule
  have h := hinner (Rules.standard.power s.current.kind) s.step
  simp only [readOperator, readBinary]
  split
  next right t he => rw [he] at h; exact h
  next t he => rw [he] at h; exact h

-- Both functions at once, by induction on the levels; a fold gives back what was taken before it.
theorem settles_within (n : Nat) :
    InnerSettles (exprWithin (σ := σ) n) ∧
      ∀ power taken left (s : Session σ),
        (s.exit taken).Settles (foldWithin n power taken left s) := by
  induction n with
  | zero =>
    constructor
    · intro power s
      exact ⟨_, rfl⟩
    · intro power taken left s
      unfold foldWithin
      split
      · split
        · exact rfl
        · exact ⟨_, rfl⟩
      · exact rfl
  | succ n ih =>
    obtain ⟨hexpr, hfold⟩ := ih
    constructor
    · intro power s
      unfold exprWithin
      dsimp only
      have hback : (s.enter.exit 1).ledger = s.ledger := by simp
      split
      · exact .of_ledger hback ⟨_, rfl⟩
      next rule _ =>
        have h := settles_readOperand hexpr rule
          (s.enter.note (.expression s.current.kind power))
        split
        next left t he =>
          rw [he] at h
          refine .of_ledger ?_ (hfold power 1 left t)
          rw [ledger_exit, h.ledger_eq]
          exact hback
        next t he =>
          rw [he] at h
          exact .of_ledger hback h.exit
    · intro power taken left s
      unfold foldWithin
      split
      · split
        · exact rfl
        next rule _ =>
          -- The level of this fold is given back together with the others.
          have h := settles_readOperator hexpr rule left s.enter.step
          have hback : (s.enter.step.exit (taken + 1)).ledger = (s.exit taken).ledger := by
            simp only [ledger_exit, ledger_step, ledger_enter]
            congr 2
            push_cast
            omega
          dsimp only
          split
          next left' t he =>
            rw [he] at h
            refine .of_ledger ?_ (hfold power (taken + 1) left' t)
            rw [ledger_exit, h.ledger_eq, ← hback]
            rfl
          next t he =>
            rw [he] at h
            exact .of_ledger hback h.exit
      · exact rfl

theorem settles_expr (power : Power) (s : Session σ) : s.Settles (s.expr power) :=
  (settles_within s.levels).1 power s

/-! ## Statements -/

@[simp] theorem ledger_skipSemicolon (s : Session σ) : s.skipSemicolon.ledger = s.ledger := by
  unfold skipSemicolon
  split <;> rfl

theorem settles_letBinding (s : Session σ) :
    s.Settles (s.letBinding.1.bind Stmt.value?, s.letBinding.2) := by
  unfold letBinding
  split
  next named hn => exact settles_of_expect_false hn
  next named hn =>
    obtain ⟨-, rfl⟩ := expect_eq_true_iff.1 hn
    split
    next bound hb => exact .of_ledger (ledger_step s) (settles_of_expect_false hb)
    next bound hb =>
      obtain ⟨-, rfl⟩ := expect_eq_true_iff.1 hb
      exact (settles_expr .lowest s.step.step.step).trans_ledger (ledger_skipSemicolon _)

theorem settles_expressionAlone (s : Session σ) :
    s.Settles (s.expressionAlone.1.bind Stmt.value?, s.expressionAlone.2) :=
  (settles_expr .lowest s).trans_ledger (ledger_skipSemicolon _)

theorem settles_statement (rule : StatementRule) (s : Session σ) :
    s.Settles ((s.statement rule).1.bind Stmt.value?, (s.statement rule).2) := by
  cases rule with
  | letBinding => exact settles_letBinding s
  | returnValue => exact (settles_expr .lowest s.step).trans_ledger (ledger_skipSemicolon _)

/-- A statement without its expression is as good as none: one diagnostic says why. -/
theorem settles_stmt (s : Session σ) : s.Settles (s.stmt.1.bind Stmt.value?, s.stmt.2) := by
  unfold stmt
  split
  next rule _ => exact settles_statement rule s
  · exact settles_expressionAlone s

end Precedence.Session
