import Precedence.Proofs.Expression

/-!
# Sentences

A program is a row of statements, each with or without its semicolon.  What counts as an expression
is left open at first.  With readings for expressions, clauses are what single statements are read
from.
-/

namespace Precedence

/-- A statement without its semicolon. -/
inductive Clause (E : List Token → Expr → Prop) : List Token → Stmt → Prop
  | letBinding {l name a us e} (hl : l.kind = .let) (hname : name.kind = .identifier)
      (ha : a.kind = .assign) (he : E us e) :
      Clause E (l :: name :: a :: us) (.letBinding l (.ofToken name) (some e))
  | returnValue {r us e} (hr : r.kind = .return) (he : E us e) :
      Clause E (r :: us) (.returnValue r (some e))
  | expression {t us e} (he : E (t :: us) e) : Clause E (t :: us) (.expression t (some e))

/-- A minus behind a statement without semicolon would go on with its expression. -/
inductive Sentence (E : List Token → Expr → Prop) : List Token → List Stmt → Prop
  | nil : Sentence E [] []
  | closed {us c ts st ss} (hst : Clause E us st) (hc : c.kind = .semicolon)
      (hss : Sentence E ts ss) : Sentence E (us ++ c :: ts) (st :: ss)
  | opened {us ts st ss} (hst : Clause E us st) (hminus : ∀ t ∈ ts.head?, t.kind ≠ .minus)
      (hss : Sentence E ts ss) : Sentence E (us ++ ts) (st :: ss)

variable {E F : List Token → Expr → Prop} {us ts : List Token} {st : Stmt} {ss : List Stmt}

theorem Clause.mono (h : Clause E us st) (hEF : ∀ vs e, vs.length ≤ us.length → E vs e → F vs e) :
    Clause F us st := by
  cases h with
  | letBinding hl hname ha he => exact .letBinding hl hname ha (hEF _ _ (by simp; omega) he)
  | returnValue hr he => exact .returnValue hr (hEF _ _ (by simp) he)
  | expression he => exact .expression (hEF _ _ (Nat.le_refl _) he)

theorem Sentence.mono (h : Sentence E ts ss)
    (hEF : ∀ vs e, vs.length ≤ ts.length → E vs e → F vs e) : Sentence F ts ss := by
  induction h with
  | nil => exact .nil
  | closed hst hc hss ih =>
    refine .closed (hst.mono fun vs e hvs => hEF vs e ?_) hc (ih fun vs e hvs => hEF vs e ?_)
    all_goals
      rw [List.length_append, List.length_cons]
      omega
  | opened hst hminus hss ih =>
    refine .opened (hst.mono fun vs e hvs => hEF vs e ?_) hminus (ih fun vs e hvs => hEF vs e ?_)
    all_goals
      rw [List.length_append]
      omega

theorem Sentence.single (h : Clause E us st) : Sentence E us [st] := by
  have hopened := Sentence.opened h (by simp) .nil
  rwa [List.append_nil] at hopened

/-- Tokens that go on with no statement in front of them, not even by its semicolon. -/
def Apart (ts : List Token) : Prop :=
  ∀ t ∈ ts.head?, t.kind ≠ .semicolon ∧ Rules.standard.power t.kind ≤ .lowest

theorem apart_nil : Apart [] := by
  intro t ht
  cases ht

/-- Where one statement is all that is said, there is nothing else but perhaps a semicolon. -/
theorem Sentence.of_singleton (h : Sentence E ts [st]) :
    ∃ us, Clause E us st ∧ (ts = us ∨ ∃ c, c.kind = .semicolon ∧ ts = us ++ [c]) := by
  cases h with
  | closed hst hc hss =>
    cases hss
    exact ⟨_, hst, .inr ⟨_, hc, rfl⟩⟩
  | opened hst hminus hss =>
    cases hss
    exact ⟨_, hst, .inl (List.append_nil _)⟩

theorem Sentence.of_expression {t : Token} {v : Option Expr}
    (h : Sentence E ts [.expression t v]) :
    ∃ us e, v = some e ∧ E us e ∧ us.head? = some t ∧
      (ts = us ∨ ∃ c, c.kind = .semicolon ∧ ts = us ++ [c]) := by
  obtain ⟨us, hst, hts⟩ := h.of_singleton
  cases hst with
  | expression he => exact ⟨_, _, rfl, he, rfl, hts⟩

/-- An expression alone has the token that it starts with. -/
theorem Sentence.head?_of_expression {t : Token} {v : Option Expr}
    (h : Sentence E ts (.expression t v :: ss)) : ts.head? = some t := by
  cases h with
  | closed hst => cases hst; rfl
  | opened hst => cases hst; rfl

/-! ## The tokens of sentences -/

theorem Clause.head {N : Nat} (h : Clause (ReadingWithin N) us st) :
    ∃ t vs, us = t :: vs ∧ t.kind ≠ .semicolon ∧
      (t.kind ≠ .minus → Rules.standard.power t.kind ≤ .lowest) := by
  cases h with
  | letBinding hl => exact ⟨_, _, rfl, by rw [hl]; decide, fun _ => by rw [hl]; decide⟩
  | returnValue hr => exact ⟨_, _, rfl, by rw [hr]; decide, fun _ => by rw [hr]; decide⟩
  | expression he =>
    obtain ⟨k, n, q, hread, -⟩ := he
    obtain ⟨t, vs, rule, hus, ht⟩ := hread.head_operand
    refine ⟨t, vs, hus, ?_, Rules.standard_power_of_operand ht⟩
    intro hsemi
    rw [hsemi] at ht
    cases ht

theorem Clause.kind_ne {N : Nat} {kind : Kind} (h : Clause (ReadingWithin N) us st)
    (hoperand : Rules.standard.operand kind = none) (hpower : Rules.standard.power kind = .lowest)
    (hkind : kind ∉ [.closeParen, .let, .return, .assign]) : ∀ t ∈ us, t.kind ≠ kind := by
  simp only [List.mem_cons, List.not_mem_nil, or_false, not_or] at hkind
  obtain ⟨hclose, hlet, hreturn, hassign⟩ := hkind
  have hread {vs : List Token} {e : Expr} (he : ReadingWithin N vs e) :
      ∀ t ∈ vs, t.kind ≠ kind := by
    obtain ⟨k, n, q, hr, -⟩ := he
    exact hr.kind_ne hoperand hpower hclose
  cases h with
  | letBinding hl hname ha he =>
    rw [List.forall_mem_cons, List.forall_mem_cons, List.forall_mem_cons, hl, hname, ha]
    refine ⟨Ne.symm hlet, ?_, Ne.symm hassign, hread he⟩
    rintro rfl
    cases hoperand
  | returnValue hr he =>
    rw [List.forall_mem_cons, hr]
    exact ⟨Ne.symm hreturn, hread he⟩
  | expression he => exact hread he

theorem Clause.kind_ne_eof {N : Nat} (h : Clause (ReadingWithin N) us st) :
    ∀ t ∈ us, t.kind ≠ .eof :=
  h.kind_ne rfl rfl (by decide)

theorem Clause.kind_ne_semicolon {N : Nat} (h : Clause (ReadingWithin N) us st) :
    ∀ t ∈ us, t.kind ≠ .semicolon :=
  h.kind_ne rfl rfl (by decide)

theorem Sentence.kind_ne {N : Nat} {kind : Kind} (h : Sentence (ReadingWithin N) ts ss)
    (hoperand : Rules.standard.operand kind = none) (hpower : Rules.standard.power kind = .lowest)
    (hkind : kind ∉ [.closeParen, .let, .return, .assign, .semicolon]) :
    ∀ t ∈ ts, t.kind ≠ kind := by
  have hclause {us : List Token} {st : Stmt} (hst : Clause (ReadingWithin N) us st) :
      ∀ t ∈ us, t.kind ≠ kind :=
    hst.kind_ne hoperand hpower fun hmem => hkind (List.mem_append_left [Kind.semicolon] hmem)
  induction h with
  | nil => exact List.forall_mem_nil _
  | closed hst hc hss ih =>
    have hsemi : Kind.semicolon ≠ kind := fun heq => hkind (by rw [← heq]; decide)
    rw [List.forall_mem_append, List.forall_mem_cons, hc]
    exact ⟨hclause hst, hsemi, ih⟩
  | opened hst hminus hss ih => exact List.forall_mem_append.2 ⟨hclause hst, ih⟩

theorem Sentence.kind_ne_eof {N : Nat} (h : Sentence (ReadingWithin N) ts ss) :
    ∀ t ∈ ts, t.kind ≠ .eof :=
  h.kind_ne rfl rfl (by decide)

theorem Sentence.head {N : Nat} {t : Token} (h : Sentence (ReadingWithin N) (t :: ts) ss) :
    t.kind ≠ .semicolon ∧ (t.kind ≠ .minus → Rules.standard.power t.kind ≤ .lowest) := by
  generalize hus : t :: ts = us at h
  cases h with
  | nil => cases hus
  | closed hst =>
    obtain ⟨u, vs, rfl, hu⟩ := hst.head
    rw [(List.cons.inj hus).1]
    exact hu
  | opened hst =>
    obtain ⟨u, vs, rfl, hu⟩ := hst.head
    rw [(List.cons.inj hus).1]
    exact hu

/-! ## Statements are read -/

namespace Session

variable {σ : Type} [Supply σ]

-- Completeness for the expression of a statement.
theorem expr_of_reading {s : Session σ} {N : Nat} {e : Expr} (h : ReadingWithin N us e)
    (hN : s.levels = N) (hs : s.cursor.Spells us)
    (hnext : Rules.standard.power (s.cursor.steps us.length).current.kind ≤ .lowest) :
    ∃ t : Session σ, t.cursor.step = s.cursor.steps us.length ∧ s.expr .lowest = (some e, t) := by
  obtain ⟨k, n, q, hr, hn⟩ := h
  exact stops_of_arrives
    (exprWithin_arrives hr (by rw [hN]; exact hn) hs (Nat.le_trans hnext hr.power_le)) hnext

-- Soundness for the expression of a statement.
theorem reading_of_expr {s t : Session σ} {e : Expr} (h : s.expr .lowest = (some e, t)) :
    ∃ us, ReadingWithin s.levels us e ∧ s.cursor.Spells us ∧
      t.cursor.step = s.cursor.steps us.length ∧
      Rules.standard.power t.upcoming.kind ≤ .lowest := by
  obtain ⟨us, k, n, q, hr, hn, hus, hd, hstop⟩ := (reads_within s.levels).1 _ _ _ _ h
  exact ⟨us, ⟨k, n, q, hr, hn⟩, hus, hd, hstop⟩

theorem stmt_of_clause {s : Session σ} (h : Clause (ReadingWithin s.levels) us st)
    (hs : s.cursor.Spells us)
    (hnext : Rules.standard.power (s.cursor.steps us.length).current.kind ≤ .lowest) :
    ∃ t : Session σ, t.cursor.step = s.cursor.steps us.length ∧
      s.stmt = (some st, t.skipSemicolon) := by
  cases h with
  | @letBinding l name a vs e hl hname ha he =>
    obtain ⟨hcur, hup, hup', hvs⟩ := hs
    have hcur : s.current = l := hcur
    have hup : s.upcoming = name := hup
    have hup' : s.step.upcoming = a := hup'
    obtain ⟨t, ht, hexpr⟩ := expr_of_reading (s := s.step.step.step) he rfl hvs hnext
    refine ⟨t, ht, ?_⟩
    have hrule : Rules.standard.statement s.current.kind = some .letBinding := by
      rw [hcur, hl]; rfl
    have hfirst : s.expect .identifier = (true, s.step) :=
      expect_eq_true_iff.2 ⟨by rw [hup, hname], rfl⟩
    have hsecond : s.step.expect .assign = (true, s.step.step) :=
      expect_eq_true_iff.2 ⟨by rw [hup', ha], rfl⟩
    rw [stmt, hrule]
    show s.letBinding = _
    rw [letBinding, hfirst]
    dsimp only
    rw [hsecond]
    dsimp only
    rw [hexpr, hcur, current_step, hup]
  | @returnValue r vs e hr he =>
    obtain ⟨hcur, hvs⟩ := hs
    have hcur : s.current = r := hcur
    obtain ⟨t, ht, hexpr⟩ := expr_of_reading (s := s.step) he rfl hvs hnext
    refine ⟨t, ht, ?_⟩
    have hrule : Rules.standard.statement s.current.kind = some .returnValue := by
      rw [hcur, hr]; rfl
    rw [stmt, hrule]
    show s.returnValue = _
    rw [returnValue, hexpr, hcur]
  | @expression first vs e he =>
    have hcur : s.current = first := hs.1
    obtain ⟨t, ht, hexpr⟩ := expr_of_reading he rfl hs hnext
    refine ⟨t, ht, ?_⟩
    have hrule : Rules.standard.statement s.current.kind = none := by
      obtain ⟨k, n, q, hr, -⟩ := he
      obtain ⟨u, ws, rule, hu, hoperand⟩ := hr.head_operand
      rw [hcur, (List.cons.inj hu).1]
      exact Rules.standard_statement_of_operand hoperand
    rw [stmt, hrule]
    show s.expressionAlone = _
    rw [expressionAlone, hexpr, hcur]

/-- From `s` to `t` a clause has been read, up to a token that does not go on with it, and the
semicolon if there was one. -/
def ReadsClause (s : Session σ) (o : Option Stmt) (t : Session σ) : Prop :=
  ∃ us st, o = some st ∧ Clause (ReadingWithin s.levels) us st ∧ s.cursor.Spells us ∧
    ∃ u : Session σ, t = u.skipSemicolon ∧ u.cursor.step = s.cursor.steps us.length ∧
      Rules.standard.power u.upcoming.kind ≤ .lowest

-- A value is there only if both expected tokens were.
theorem clause_of_letBinding {s t : Session σ} {o : Option Stmt} {e : Expr}
    (hlet : s.current.kind = .let) (h : s.letBinding = (o, t))
    (ho : o.bind Stmt.value? = some e) : ReadsClause s o t := by
  unfold letBinding at h
  split at h
  next => cases h; cases ho
  next named hn =>
    obtain ⟨hname, rfl⟩ := expect_eq_true_iff.1 hn
    split at h
    next => cases h; cases ho
    next bound hb =>
      obtain ⟨hassign, rfl⟩ := expect_eq_true_iff.1 hb
      cases h
      obtain ⟨u, hu⟩ : ∃ u, s.step.step.step.expr .lowest = (some e, u) :=
        ⟨_, Prod.ext ho rfl⟩
      obtain ⟨us, hr, hus, hd, hstop⟩ := reading_of_expr hu
      refine ⟨s.current :: s.upcoming :: s.step.upcoming :: us, _, rfl, ?_,
        ⟨rfl, rfl, rfl, hus⟩, _, rfl, ?_⟩
      · rw [hu]
        exact .letBinding hlet hname hassign hr
      · rw [hu]
        exact ⟨hd, hstop⟩

theorem clause_of_stmt {s t : Session σ} {o : Option Stmt} {e : Expr} (h : s.stmt = (o, t))
    (ho : o.bind Stmt.value? = some e) : ReadsClause s o t := by
  unfold stmt at h
  split at h
  next rule hrule =>
    cases rule with
    | letBinding =>
      have hlet : s.current.kind = .let := by
        cases hk : s.current.kind <;> rw [hk] at hrule <;> first | rfl | cases hrule
      exact clause_of_letBinding hlet h ho
    | returnValue =>
      have hreturn : s.current.kind = .return := by
        cases hk : s.current.kind <;> rw [hk] at hrule <;> first | rfl | cases hrule
      cases h
      obtain ⟨u, hu⟩ : ∃ u, s.step.expr .lowest = (some e, u) := ⟨_, Prod.ext ho rfl⟩
      obtain ⟨us, hr, hus, hd, hstop⟩ := reading_of_expr hu
      refine ⟨s.current :: us, _, rfl, ?_, ⟨rfl, hus⟩, _, rfl, ?_⟩
      · rw [hu]
        exact .returnValue hreturn hr
      · rw [hu]
        exact ⟨hd, hstop⟩
  · cases h
    obtain ⟨u, hu⟩ : ∃ u, s.expr .lowest = (some e, u) := ⟨_, Prod.ext ho rfl⟩
    obtain ⟨us, hr, hus, hd, hstop⟩ := reading_of_expr hu
    obtain ⟨k, n, q, hread, -⟩ := id hr
    obtain ⟨first, vs, -, rfl, -⟩ := hread.head_operand
    have hcur : s.current = first := hus.1
    refine ⟨first :: vs, _, rfl, ?_, hus, _, rfl, ?_⟩
    · rw [hu, hcur]
      exact .expression hr
    · rw [hu]
      exact ⟨hd, hstop⟩

end Session

end Precedence
