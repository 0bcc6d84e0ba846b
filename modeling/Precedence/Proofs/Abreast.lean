import Mathlib.Data.List.Forall2
import Precedence.Proofs.Run

/-!
# Abreast

Two sessions with like tokens in front of them read alike, up to a seam where the tokens part.  What
is read depends on the kinds of the tokens and on which numerals fit, and nothing behind a semicolon
or an end marker is looked at before the round that has come to it is over.
-/

namespace Precedence

/-! ## Likeness -/

/-- Like tokens are of one kind, and if they are numbers, numerals of 64 bits both or neither. -/
structure Likeness where
  like : Token → Token → Prop
  kind_eq {a b : Token} (h : like a b) : a.kind = b.kind
  numeral_eq {a b : Token} (h : like a b) (hint : a.kind = .int) :
    (Text.integer64? a.text).isSome = (Text.integer64? b.text).isSome

/-- Nothing is like a token but the token itself. -/
def Likeness.same : Likeness where
  like := Eq
  kind_eq := congrArg Token.kind
  numeral_eq h _ := by rw [h]

/-- Like tokens of which something can be made: an end marker is part of nothing. -/
def Likeness.Solid (R : Likeness) (a b : Token) : Prop := R.like a b ∧ a.kind ≠ .eof

/-- Trees of one shape with like tokens in the same places. -/
inductive Expr.Like (R : Likeness) : Expr → Expr → Prop
  | identifier {a b} (h : R.Solid a b) :
      Like R (.identifier (.ofToken a)) (.identifier (.ofToken b))
  | integer {a b v w} (h : R.Solid a b) (hv : Text.integer64? a.text = some v)
      (hw : Text.integer64? b.text = some w) : Like R (.integer a v) (.integer b w)
  | unary {a b d e} (h : R.Solid a b) (hoperand : Like R d e) :
      Like R (.unary a a.text d) (.unary b b.text e)
  | binary {a b l l' r r'} (h : R.Solid a b) (hleft : Like R l l') (hright : Like R r r') :
      Like R (.binary a a.text l r) (.binary b b.text l' r')

inductive Stmt.Like (R : Likeness) : Stmt → Stmt → Prop
  | letBinding {a b x y v w} (h : R.Solid a b) (hname : R.Solid x y)
      (hvalue : Option.Rel (Expr.Like R) v w) :
      Like R (.letBinding a (.ofToken x) v) (.letBinding b (.ofToken y) w)
  | returnValue {a b v w} (h : R.Solid a b) (hvalue : Option.Rel (Expr.Like R) v w) :
      Like R (.returnValue a v) (.returnValue b w)
  | expression {a b v w} (h : R.Solid a b) (hvalue : Option.Rel (Expr.Like R) v w) :
      Like R (.expression a v) (.expression b w)

/-- Only a numeral that does not fit is shown as it is written. -/
inductive Diagnostic.Like (R : Likeness) : Diagnostic → Diagnostic → Prop
  | unexpected (expected found : Kind) :
      Like R (.unexpected expected found) (.unexpected expected found)
  | noOperand (kind : Kind) : Like R (.noOperand kind) (.noOperand kind)
  | badInteger {a b} (h : R.Solid a b) : Like R (.badInteger a.text) (.badInteger b.text)
  | tooDeep (limit : Nat) : Like R (.tooDeep limit) (.tooDeep limit)

theorem Expr.Like.eq {d e : Expr} (h : Expr.Like .same d e) : d = e := by
  induction h with
  | identifier h => cases h.1; rfl
  | integer h hv hw =>
    cases h.1
    rw [hv] at hw
    cases hw
    rfl
  | unary h _ ih => cases h.1; rw [ih]
  | binary h _ _ ihl ihr => cases h.1; rw [ihl, ihr]

theorem eq_of_rel {α : Type} {r : α → α → Prop} (hr : ∀ {a b}, r a b → a = b) {v w : Option α}
    (h : Option.Rel r v w) : v = w := by
  cases h with
  | none => rfl
  | some h => rw [hr h]

theorem eq_of_forall₂ {α : Type} {r : α → α → Prop} (hr : ∀ {a b}, r a b → a = b)
    {xs ys : List α} (h : List.Forall₂ r xs ys) : xs = ys := by
  rw [← List.forall₂_eq_eq_eq]
  exact h.imp fun _ _ => hr

theorem Stmt.Like.eq {st st' : Stmt} (h : Stmt.Like .same st st') : st = st' := by
  cases h with
  | letBinding h hname hvalue => cases h.1; cases hname.1; rw [eq_of_rel Expr.Like.eq hvalue]
  | returnValue h hvalue => cases h.1; rw [eq_of_rel Expr.Like.eq hvalue]
  | expression h hvalue => cases h.1; rw [eq_of_rel Expr.Like.eq hvalue]

theorem Diagnostic.Like.eq {d e : Diagnostic} (h : Diagnostic.Like .same d e) : d = e := by
  cases h with
  | badInteger h => cases h.1; rfl
  | _ => rfl

/-! ## Sessions abreast -/

/-- Where two sessions come to together: a token that ends every expression, with no semicolon
behind it on either side.  Each side brings the diagnostics that it had to start with. -/
structure Seam (σ τ : Type) where
  left : Cursor σ
  right : Cursor τ
  ends : left.current.kind = .semicolon ∨ left.current.kind = .eof
  left_ne : left.upcoming.kind ≠ .semicolon
  right_ne : right.upcoming.kind ≠ .semicolon
  leftDiagnosed : List Diagnostic
  rightDiagnosed : List Diagnostic

/-- Where there is nothing left on either side. -/
def Seam.ofEnded {σ τ : Type} [Supply σ] [Supply τ] {c : Cursor σ} {d : Cursor τ} (hc : c.Ended)
    (hd : d.Ended) (ds es : List Diagnostic) : Seam σ τ where
  left := c
  right := d
  ends := .inr (by rw [hc.current]; rfl)
  left_ne := by rw [show c.upcoming = .eof from hc.step.current]; decide
  right_ne := by rw [show d.upcoming = .eof from hd.step.current]; decide
  leftDiagnosed := ds
  rightDiagnosed := es

namespace Session

variable {σ τ : Type} {R : Likeness} {p : Seam σ τ} {n : Nat} {s : Session σ} {t : Session τ}

/-- The books are the same but for what was in them to start with. -/
structure Alike (R : Likeness) (p : Seam σ τ) (s : Session σ) (t : Session τ) : Prop where
  diagnosed : ∃ ds es, List.Forall₂ (Diagnostic.Like R) ds es ∧
    s.diagnosed = ds ++ p.leftDiagnosed ∧ t.diagnosed = es ++ p.rightDiagnosed
  limit : s.limit = t.limit
  depth : s.nesting.depth = t.nesting.depth

namespace Alike

theorem levels (h : Alike R p s t) : s.levels = t.levels := by
  rw [Session.levels, Session.levels, h.limit, h.depth]

theorem diagnose (h : Alike R p s t) {d e : Diagnostic} (hd : d.Like R e) :
    Alike R p (s.diagnose d) (t.diagnose e) := by
  obtain ⟨ds, es, hds, hs, ht⟩ := h.diagnosed
  exact ⟨⟨d :: ds, e :: es, .cons hd hds, congrArg _ hs, congrArg _ ht⟩, h.limit, h.depth⟩

end Alike

/-- The seam is `n` steps ahead on both sides, and up to it the tokens are like one another. -/
structure Abreast [Supply σ] [Supply τ] (R : Likeness) (p : Seam σ τ) (n : Nat) (s : Session σ)
    (t : Session τ) : Prop extends Alike R p s t where
  left : s.cursor.steps n = p.left
  right : t.cursor.steps n = p.right
  like : ∀ m ≤ n, R.like (s.cursor.steps m).current (t.cursor.steps m).current

variable [Supply σ] [Supply τ]

namespace Abreast

theorem current (h : Abreast R p n s t) : R.like s.current t.current := h.like 0 (Nat.zero_le n)

theorem solid (h : Abreast R p n s t) (heof : s.current.kind ≠ .eof) :
    R.Solid s.current t.current :=
  ⟨h.current, heof⟩

theorem upcoming (h : Abreast R p (n + 1) s t) : R.like s.upcoming t.upcoming :=
  h.like 1 (Nat.le_add_left 1 n)

theorem step (h : Abreast R p (n + 1) s t) : Abreast R p n s.step t.step :=
  { diagnosed := h.diagnosed, limit := h.limit, depth := h.depth, left := h.left, right := h.right
    like := fun m hm => h.like (m + 1) (Nat.succ_le_succ hm) }

theorem diagnose (h : Abreast R p n s t) {d e : Diagnostic} (hd : d.Like R e) :
    Abreast R p n (s.diagnose d) (t.diagnose e) :=
  { h.toAlike.diagnose hd with left := h.left, right := h.right, like := h.like }

theorem note (h : Abreast R p n s t) (e : Event) : Abreast R p n (s.note e) (t.note e) :=
  { h with }

theorem enter (h : Abreast R p n s t) : Abreast R p n s.enter t.enter :=
  { h with depth := congrArg (· + 1) h.depth }

theorem exit (h : Abreast R p n s t) (k : Nat) : Abreast R p n (s.exit k) (t.exit k) :=
  { h with depth := congrArg (· - (k : Int)) h.depth }

/-- Whoever has a token in hand that does not end expressions is not at the seam yet. -/
theorem exists_succ (h : Abreast R p n s t) (hsemi : s.current.kind ≠ .semicolon)
    (heof : s.current.kind ≠ .eof) : ∃ m, n = m + 1 := by
  cases n with
  | succ m => exact ⟨m, rfl⟩
  | zero =>
    have hcursor : s.cursor = p.left := h.left
    have hends := p.ends
    rw [← hcursor] at hends
    exact absurd hends (not_or_intro hsemi heof)

theorem exists_succ_of_operand (h : Abreast R p n s t) {rule : OperandRule}
    (hrule : Rules.standard.operand s.current.kind = some rule) : ∃ m, n = m + 1 := by
  apply h.exists_succ <;> intro hk <;> rw [hk] at hrule <;> cases hrule

theorem exists_succ_of_power (h : Abreast R p n s t)
    (hpower : .lowest < Rules.standard.power s.current.kind) : ∃ m, n = m + 1 := by
  apply h.exists_succ <;> intro hk <;> rw [hk] at hpower <;> cases hpower

/-- A token that both expect is stepped onto by both or by neither. -/
theorem expect (h : Abreast R p (n + 1) s t) (kind : Kind) :
    s.expect kind = (true, s.step) ∧ t.expect kind = (true, t.step) ∧ s.upcoming.kind = kind ∨
      ∃ s' t', s.expect kind = (false, s') ∧ t.expect kind = (false, t') ∧
        Abreast R p (n + 1) s' t' := by
  have hkind := R.kind_eq h.upcoming
  unfold Session.expect
  by_cases hk : s.upcoming.kind = kind
  · rw [if_pos hk, if_pos (hkind ▸ hk)]
    exact .inl ⟨rfl, rfl, hk⟩
  · rw [if_neg hk, if_neg (hkind ▸ hk), hkind]
    exact .inr ⟨_, _, rfl, rfl, h.diagnose (.unexpected _ _)⟩

theorem skipSemicolon (h : Abreast R p n s t) :
    ∃ m ≤ n, Abreast R p m s.skipSemicolon t.skipSemicolon := by
  unfold Session.skipSemicolon
  cases n with
  | zero =>
    -- What is behind the seam is no semicolon on either side.
    have hs : s.cursor = p.left := h.left
    have ht : t.cursor = p.right := h.right
    rw [if_neg (show s.upcoming.kind ≠ _ by rw [Session.upcoming, hs]; exact p.left_ne),
      if_neg (show t.upcoming.kind ≠ _ by rw [Session.upcoming, ht]; exact p.right_ne)]
    exact ⟨0, Nat.le_refl 0, h⟩
  | succ n =>
    rw [R.kind_eq h.upcoming]
    by_cases hsemi : t.upcoming.kind = .semicolon
    · rw [if_pos hsemi, if_pos hsemi]
      exact ⟨n, Nat.le_succ n, h.step⟩
    · rw [if_neg hsemi, if_neg hsemi]
      exact ⟨n + 1, Nat.le_refl _, h⟩

end Abreast

/-! ## Rows of tokens -/

/-- Like rows of tokens come into hand like for like. -/
theorem like_of_spells {us vs : List Token} (h : List.Forall₂ R.like us vs) {c : Cursor σ}
    {d : Cursor τ} (hc : c.Spells us) (hd : d.Spells vs) {m : Nat} (hm : m < us.length) :
    R.like (c.steps m).current (d.steps m).current := by
  induction h generalizing c d m with
  | nil => exact absurd hm (Nat.not_lt_zero m)
  | cons htoken _ ih =>
    obtain ⟨hcur, hc⟩ := Cursor.spells_cons.1 hc
    obtain ⟨hcur', hd⟩ := Cursor.spells_cons.1 hd
    cases m with
    | zero =>
      rw [← hcur, ← hcur'] at htoken
      exact htoken
    | succ m => exact ih hc hd (Nat.lt_of_succ_lt_succ hm)

/-- Sessions at the start of like rows are abreast of each other up to the ends of the rows. -/
theorem Abreast.of_spells {us vs : List Token} (h : List.Forall₂ R.like us vs)
    (hs : s.cursor.Spells us) (ht : t.cursor.Spells vs) (hbooks : Alike R p s t)
    (hleft : s.cursor.steps us.length = p.left) (hright : t.cursor.steps vs.length = p.right)
    (hseam : R.like p.left.current p.right.current) : Abreast R p us.length s t :=
  { hbooks with
    left := hleft
    right := by rw [h.length_eq]; exact hright
    like := fun m hm => by
      rcases Nat.lt_or_eq_of_le hm with hlt | rfl
      · exact like_of_spells h hs ht hlt
      · rw [hleft, h.length_eq, hright]
        exact hseam }

/-! ## Expressions -/

/-- Both readings have given up, or both have read like expressions and stand in front of the
seam. -/
inductive Concur (R : Likeness) (p : Seam σ τ) (n : Nat) :
    Option Expr × Session σ → Option Expr × Session τ → Prop
  | some {d e s t m} (hm : m < n) (hlike : d.Like R e) (h : Abreast R p (m + 1) s t) :
      Concur R p n (some d, s) (some e, t)
  | none {s t m} (hm : m ≤ n) (h : Abreast R p m s t) : Concur R p n (none, s) (none, t)

theorem Concur.mono {r : Option Expr × Session σ} {q : Option Expr × Session τ} {m : Nat}
    (h : Concur R p m r q) (hmn : m ≤ n) : Concur R p n r q := by
  cases h with
  | some hm hlike h => exact .some (Nat.lt_of_lt_of_le hm hmn) hlike h
  | none hm h => exact .none (Nat.le_trans hm hmn) h

def InnerConcurs (R : Likeness) (p : Seam σ τ) (inner : Inner σ) (inner' : Inner τ) : Prop :=
  ∀ power ⦃n s t⦄, Abreast R p n s t → Concur R p n (inner power s) (inner' power t)

variable {inner : Inner σ} {inner' : Inner τ}

theorem concur_readInteger (h : Abreast R p (n + 1) s t) (hint : s.current.kind = .int) :
    Concur R p (n + 1) s.readInteger t.readInteger := by
  have hboth := R.numeral_eq h.current hint
  have hsolid := h.solid (by rw [hint]; decide)
  unfold readInteger
  cases hv : Text.integer64? s.current.text <;> cases hw : Text.integer64? t.current.text <;>
    rw [hv, hw] at hboth
  · exact .none (Nat.le_refl _) (h.diagnose (.badInteger hsolid))
  · cases hboth
  · cases hboth
  · exact .some (Nat.lt_succ_self n) (.integer hsolid hv hw) h

theorem concur_readUnary (hinner : InnerConcurs R p inner inner') (h : Abreast R p (n + 1) s t)
    (heof : s.current.kind ≠ .eof) :
    Concur R p (n + 1) (readUnary inner s) (readUnary inner' t) := by
  have hoperand := hinner .unary h.step
  unfold readUnary
  generalize inner .unary s.step = r at hoperand ⊢
  generalize inner' .unary t.step = q at hoperand ⊢
  cases hoperand with
  | some hm hlike hafter => exact .some (Nat.lt_succ_of_lt hm) (.unary (h.solid heof) hlike) hafter
  | none hm hafter => exact .none (Nat.le_succ_of_le hm) hafter

theorem concur_readGrouped (hinner : InnerConcurs R p inner inner')
    (h : Abreast R p (n + 1) s t) :
    Concur R p (n + 1) (readGrouped inner s) (readGrouped inner' t) := by
  have hinside := hinner .lowest h.step
  unfold readGrouped
  generalize inner .lowest s.step = r at hinside ⊢
  generalize inner' .lowest t.step = q at hinside ⊢
  cases hinside with
  | none hm hafter => exact .none (Nat.le_succ_of_le hm) hafter
  | @some d e s' t' m hm hlike hafter =>
    dsimp only
    rcases hafter.expect .closeParen with ⟨hs, ht, hclose⟩ | ⟨s'', t'', hs, ht, hstay⟩
    · rw [hs, ht]
      -- The parenthesis in hand is not where the seam is.
      have hkind : s'.step.current.kind = .closeParen := hclose
      obtain ⟨k, rfl⟩ := hafter.step.exists_succ (by rw [hkind]; decide) (by rw [hkind]; decide)
      exact .some (by omega) hlike hafter.step
    · rw [hs, ht]
      exact .none (by omega) hstay

theorem concur_readOperand (hinner : InnerConcurs R p inner inner') {rule : OperandRule}
    (h : Abreast R p n s t) (hrule : Rules.standard.operand s.current.kind = some rule) :
    Concur R p n (readOperand inner rule s) (readOperand inner' rule t) := by
  obtain ⟨m, rfl⟩ := h.exists_succ_of_operand hrule
  have heof : s.current.kind ≠ .eof := by
    intro hk
    rw [hk] at hrule
    cases hrule
  cases rule with
  | identifier => exact .some (Nat.lt_succ_self m) (.identifier (h.solid heof)) h
  | integer => exact concur_readInteger h (Rules.kind_of_standard_operand hrule)
  | unary => exact concur_readUnary hinner h heof
  | grouped => exact concur_readGrouped hinner h

theorem concur_readBinary (hinner : InnerConcurs R p inner inner') {l l' : Expr}
    (hleft : l.Like R l') (h : Abreast R p (n + 1) s t) (heof : s.current.kind ≠ .eof) :
    Concur R p (n + 1) (readBinary inner l s) (readBinary inner' l' t) := by
  have hright := hinner (Rules.standard.power t.current.kind) h.step
  unfold readBinary
  rw [R.kind_eq h.current]
  generalize inner _ s.step = r at hright ⊢
  generalize inner' _ t.step = q at hright ⊢
  cases hright with
  | some hm hlike hafter =>
    exact .some (Nat.lt_succ_of_lt hm) (.binary (h.solid heof) hleft hlike) hafter
  | none hm hafter => exact .none (Nat.le_succ_of_le hm) hafter

-- Both functions at once, by induction on the levels, of which both sides have the same.
theorem concur_within (N : Nat) :
    InnerConcurs R p (exprWithin (σ := σ) N) (exprWithin (σ := τ) N) ∧
      ∀ {n power taken l l'} {s : Session σ} {t : Session τ}, l.Like R l' →
        Abreast R p (n + 1) s t →
        Concur R p (n + 1) (foldWithin N power taken l s) (foldWithin N power taken l' t) := by
  induction N with
  | zero =>
    constructor
    · intro power n s t h
      unfold exprWithin
      rw [h.limit]
      exact .none (Nat.le_refl n) (h.diagnose (.tooDeep _))
    · intro n power taken l l' s t hleft h
      have hkind := R.kind_eq h.upcoming
      by_cases hlt : power < Rules.standard.power s.upcoming.kind
      · rw [foldWithin_zero hlt, foldWithin_zero (hkind ▸ hlt), h.limit]
        exact .none (Nat.le_refl _) ((h.diagnose (.tooDeep _)).exit taken)
      · rw [foldWithin_stop hlt, foldWithin_stop (hkind ▸ hlt)]
        exact .some (Nat.lt_succ_self n) hleft (h.exit taken)
  | succ N ih =>
    obtain ⟨hexpr, hfold⟩ := ih
    constructor
    · intro power n s t h
      have hkind := R.kind_eq h.current
      have hopen := h.enter.note (.expression s.current.kind power)
      rw [exprWithin_succ, exprWithin_succ, ← hkind]
      cases hrule : Rules.standard.operand s.current.kind with
      | none => exact .none (Nat.le_refl n) ((hopen.diagnose (.noOperand _)).exit 1)
      | some rule =>
        have hoperand := concur_readOperand hexpr hopen hrule
        dsimp only
        generalize readOperand _ rule (s.enter.note _) = r at hoperand ⊢
        generalize readOperand _ rule (t.enter.note _) = q at hoperand ⊢
        cases hoperand with
        | some hm hlike hafter => exact (hfold hlike hafter).mono hm
        | none hm hafter => exact .none hm (hafter.exit 1)
    · intro n power taken l l' s t hleft h
      have hkind := R.kind_eq h.upcoming
      by_cases hlt : power < Rules.standard.power s.upcoming.kind
      · rw [foldWithin_succ hlt, foldWithin_succ (hkind ▸ hlt)]
        -- The operator is in hand after one step, so the seam is behind it.
        have hpower : .lowest < Rules.standard.power s.enter.step.current.kind :=
          Nat.lt_of_le_of_lt (Nat.zero_le _) hlt
        have hstep := h.enter.step
        obtain ⟨k, rfl⟩ := hstep.exists_succ_of_power hpower
        have hfolded := concur_readBinary hexpr hleft hstep (Rules.ne_eof_of_lt hlt)
        generalize readBinary _ l s.enter.step = r at hfolded ⊢
        generalize readBinary _ l' t.enter.step = q at hfolded ⊢
        cases hfolded with
        | some hm hlike hafter => exact (hfold hlike hafter).mono (Nat.le_succ_of_le hm)
        | none hm hafter => exact .none (Nat.le_succ_of_le hm) (hafter.exit (taken + 1))
      · rw [foldWithin_stop hlt, foldWithin_stop (hkind ▸ hlt)]
        exact .some (Nat.lt_succ_self n) hleft (h.exit taken)

theorem concur_expr (power : Power) (h : Abreast R p n s t) :
    Concur R p n (s.expr power) (t.expr power) := by
  rw [expr, expr, h.levels]
  exact (concur_within _).1 power h

/-! ## Statements -/

/-- What a reading of a value comes to, and how far it leads, the semicolon behind it included. -/
theorem abreast_value (h : Abreast R p n s t) :
    Option.Rel (Expr.Like R) (s.expr .lowest).1 (t.expr .lowest).1 ∧
      ∃ m ≤ n, Abreast R p m (s.expr .lowest).2.skipSemicolon
        (t.expr .lowest).2.skipSemicolon := by
  have hconcur := concur_expr .lowest h
  generalize s.expr .lowest = r at hconcur ⊢
  generalize t.expr .lowest = q at hconcur ⊢
  cases hconcur with
  | some hm hlike hafter =>
    obtain ⟨k, hk, hskip⟩ := hafter.skipSemicolon
    exact ⟨.some hlike, k, by omega, hskip⟩
  | none hm hafter =>
    obtain ⟨k, hk, hskip⟩ := hafter.skipSemicolon
    exact ⟨.none, k, by omega, hskip⟩

theorem abreast_letBinding (h : Abreast R p (n + 1) s t) (heof : s.current.kind ≠ .eof) :
    Option.Rel (Stmt.Like R) s.letBinding.1 t.letBinding.1 ∧
      ∃ m ≤ n + 1, Abreast R p m s.letBinding.2 t.letBinding.2 := by
  unfold letBinding
  rcases h.expect .identifier with ⟨hs, ht, hname⟩ | ⟨s', t', hs, ht, hstay⟩
  · rw [hs, ht]
    dsimp only
    have hkind : s.step.current.kind = .identifier := hname
    obtain ⟨k, rfl⟩ := h.step.exists_succ (by rw [hkind]; decide) (by rw [hkind]; decide)
    rcases h.step.expect .assign with ⟨hs', ht', hassign⟩ | ⟨s'', t'', hs', ht', hstay⟩
    · rw [hs', ht']
      have hkind' : s.step.step.current.kind = .assign := hassign
      obtain ⟨j, rfl⟩ := h.step.step.exists_succ (by rw [hkind']; decide) (by rw [hkind']; decide)
      obtain ⟨hvalue, m, hm, hafter⟩ := abreast_value h.step.step.step
      have hsolid := h.step.solid (by rw [hkind]; decide)
      exact ⟨.some (.letBinding (h.solid heof) hsolid hvalue), m, by omega, hafter⟩
    · rw [hs', ht']
      exact ⟨.none, k + 1, by omega, hstay⟩
  · rw [hs, ht]
    exact ⟨.none, n + 1, Nat.le_refl _, hstay⟩

theorem abreast_stmt (h : Abreast R p n s t) (heof : s.current.kind ≠ .eof) :
    Option.Rel (Stmt.Like R) s.stmt.1 t.stmt.1 ∧ ∃ m ≤ n, Abreast R p m s.stmt.2 t.stmt.2 := by
  unfold stmt
  rw [← R.kind_eq h.current]
  cases hrule : Rules.standard.statement s.current.kind with
  | none =>
    obtain ⟨hvalue, m, hm, hafter⟩ := abreast_value h
    exact ⟨.some (.expression (h.solid heof) hvalue), m, hm, hafter⟩
  | some rule =>
    obtain ⟨k, rfl⟩ : ∃ k, n = k + 1 := by
      apply h.exists_succ <;> intro hk <;> rw [hk] at hrule <;> cases hrule
    cases rule with
    | letBinding => exact abreast_letBinding h heof
    | returnValue =>
      obtain ⟨hvalue, m, hm, hafter⟩ := abreast_value h.step
      exact ⟨.some (.returnValue (h.solid heof) hvalue), m, Nat.le_succ_of_le hm, hafter⟩

end Session

/-! ## Runs -/

namespace Session

variable {σ τ : Type} [FiniteSupply σ] [FiniteSupply τ] {R : Likeness} {p : Seam σ τ} {n : Nat}
  {s : Session σ} {t : Session τ}

/-- Both sessions are one step behind the seam. -/
structure Beyond (R : Likeness) (p : Seam σ τ) (s : Session σ) (t : Session τ) : Prop
    extends Alike R p s t where
  left : s.cursor = p.left.step
  right : t.cursor = p.right.step

theorem abreast_round (h : Abreast R p n s t) (heof : s.current.kind ≠ .eof) :
    Option.Rel (Stmt.Like R) s.round.1 t.round.1 ∧
      ((∃ m < n, Abreast R p m s.round.2 t.round.2) ∨ Beyond R p s.round.2 t.round.2) := by
  obtain ⟨hlike, m, hm, hafter⟩ := abreast_stmt h heof
  refine ⟨hlike, ?_⟩
  cases m with
  | succ m => exact .inl ⟨m, hm, hafter.step⟩
  | zero =>
    exact .inr { hafter with
      left := congrArg Cursor.step hafter.left, right := congrArg Cursor.step hafter.right }

/-- Round for round both runs are alike, until they end together or are behind the seam. -/
theorem runs_abreast (h : Abreast R p n s t) :
    ∃ os ps s' t', Runs s os s' ∧ Runs t ps t' ∧ List.Forall₂ (Option.Rel (Stmt.Like R)) os ps ∧
      ((∃ m ≤ n, Abreast R p m s' t' ∧ s'.current.kind = .eof) ∨ Beyond R p s' t') := by
  induction n using Nat.strongRecOn generalizing s t with
  | ind n ih =>
    have hkind := R.kind_eq h.current
    by_cases hcur : s.current.kind = .eof
    · exact ⟨[], [], s, t, .nil, .nil, .nil, .inl ⟨n, Nat.le_refl n, h, hcur⟩⟩
    · obtain ⟨hlike, ⟨m, hm, hafter⟩ | hbeyond⟩ := abreast_round h hcur
      · obtain ⟨os, ps, s', t', hs, ht, hall, hend⟩ := ih m hm hafter
        refine ⟨_, _, s', t', .cons hcur hs, .cons (hkind ▸ hcur) ht, .cons hlike hall, ?_⟩
        exact hend.imp_left fun ⟨k, hk, hstop⟩ => ⟨k, by omega, hstop⟩
      · exact ⟨_, _, _, _, .cons hcur .nil, .cons (hkind ▸ hcur) .nil, .cons hlike .nil,
          .inr hbeyond⟩

/-- Runs that lead from `s` and `t` to an end marker and are alike in all they leave behind; both
have come equally far, and no more than `n` steps. -/
structure EndAlike (R : Likeness) (n : Nat) (s : Session σ) (t : Session τ)
    (os ps : List (Option Stmt)) (s' : Session σ) (t' : Session τ) : Prop where
  left : Runs s os s'
  right : Runs t ps t'
  left_eof : s'.current.kind = .eof
  right_eof : t'.current.kind = .eof
  outcomes : List.Forall₂ (Option.Rel (Stmt.Like R)) os ps
  diagnosed : ∃ ds es, List.Forall₂ (Diagnostic.Like R) ds es ∧
    s'.diagnosed = ds ++ s.diagnosed ∧ t'.diagnosed = es ++ t.diagnosed
  steps : ∃ m ≤ n, s'.cursor = s.cursor.steps m ∧ t'.cursor = t.cursor.steps m

/-- Sessions that show like rows of tokens run alike to an end marker, at most one step behind the
rows. -/
theorem exists_endAlike {ts us : List Token} (h : List.Forall₂ R.like ts us)
    (heof : R.like .eof .eof) (hs : s.cursor.Shows ts) (ht : t.cursor.Shows us)
    (hlimit : s.limit = t.limit) (hdepth : s.nesting.depth = t.nesting.depth) :
    ∃ os ps s' t', EndAlike R (ts.length + 1) s t os ps s' t' := by
  let p : Seam σ τ := .ofEnded hs.2 ht.2 s.diagnosed t.diagnosed
  have hseam : R.like p.left.current p.right.current := by
    show R.like (s.cursor.steps ts.length).current (t.cursor.steps us.length).current
    rw [hs.2.current, ht.2.current]
    exact heof
  have hbooks : Alike R p s t := ⟨⟨[], [], .nil, rfl, rfl⟩, hlimit, hdepth⟩
  have habreast : Abreast R p ts.length s t := .of_spells h hs.1 ht.1 hbooks rfl rfl hseam
  obtain ⟨os, ps, s', t', hruns, hruns', hall, ⟨k, hk, hstop, hcur⟩ | hbeyond⟩ :=
    runs_abreast habreast
  · -- The runs have ended in front of the seam, and so as many steps behind the start.
    obtain ⟨m, hm⟩ := hruns.reaches
    obtain ⟨m', hm'⟩ := hruns'.reaches
    have hleft : s.cursor.steps (m + k) = s.cursor.steps ts.length := by
      rw [Cursor.steps_add, ← hm]
      exact hstop.left
    have hright : t.cursor.steps (m' + k) = t.cursor.steps us.length := by
      rw [Cursor.steps_add, ← hm']
      exact hstop.right
    have hsum := s.cursor.steps_injective hleft
    have hsum' := t.cursor.steps_injective hright
    have hlen := h.length_eq
    obtain rfl : m = m' := by omega
    exact ⟨os, ps, s', t', hruns, hruns', hcur, R.kind_eq hstop.current ▸ hcur, hall,
      hstop.diagnosed, m, by omega, hm, hm'⟩
  · have hs' : s'.cursor = s.cursor.steps (ts.length + 1) := by
      rw [Cursor.steps_succ]
      exact hbeyond.left
    have ht' : t'.cursor = t.cursor.steps (ts.length + 1) := by
      rw [Cursor.steps_succ, h.length_eq]
      exact hbeyond.right
    refine ⟨os, ps, s', t', hruns, hruns', ?_, ?_, hall, hbeyond.diagnosed, _, Nat.le_refl _, hs',
      ht'⟩
    · rw [Session.current, hbeyond.left]
      exact congrArg Token.kind hs.2.step.current
    · rw [Session.current, hbeyond.right]
      exact congrArg Token.kind ht.2.step.current

/-- Sessions that show the same tokens run to their ends in the same way. -/
theorem exists_endAlike_same {ts : List Token} (hs : s.cursor.Shows ts) (ht : t.cursor.Shows ts)
    (hlimit : s.limit = t.limit) (hdepth : s.nesting.depth = t.nesting.depth) :
    ∃ os s' t', EndAlike .same (ts.length + 1) s t os os s' t' ∧
      ∃ ds, s'.diagnosed = ds ++ s.diagnosed ∧ t'.diagnosed = ds ++ t.diagnosed := by
  obtain ⟨os, ps, s', t', hend⟩ := exists_endAlike (R := .same) (List.forall₂_same.2 fun _ _ => rfl)
    rfl hs ht hlimit hdepth
  obtain rfl := eq_of_forall₂ (eq_of_rel Stmt.Like.eq) hend.outcomes
  obtain ⟨ds, es, hds, hleft, hright⟩ := hend.diagnosed
  obtain rfl := eq_of_forall₂ Diagnostic.Like.eq hds
  exact ⟨os, s', t', hend, ds, hleft, hright⟩

end Session

end Precedence
