import Precedence.Proofs.Expression
import Precedence.Session.Progress

/-!
# Powers nest

Reading at a lower power starts as at a higher one and can only go on where that has stopped: what
is read at the higher power is then the left end of what is read at the lower one.
-/

namespace Precedence

/-- The tree `d` stands on the left spine of `e`, below its top. -/
inductive Expr.OnSpine : Expr → Expr → Prop
  | here {d r : Expr} {t : Token} {o : String} : OnSpine d (.binary t o d r)
  | deeper {d l r : Expr} {t : Token} {o : String} (h : OnSpine d l) :
      OnSpine d (.binary t o l r)

namespace Session

variable {σ α : Type}

/-! ## Readings do not look at the log -/

/-- The session without its log. -/
def unlogged (s : Session σ) : Session σ := { s with events := [] }

/-- The session with older events in front of its log. -/
def since (es : List Event) (s : Session σ) : Session σ := { s with events := s.events ++ es }

/-- What was read, in a session with older events. -/
def readSince (es : List Event) (r : α × Session σ) : α × Session σ := (r.1, r.2.since es)

theorem current_since (es : List Event) (s : Session σ) : (s.since es).current = s.current := rfl

theorem enter_since (es : List Event) (s : Session σ) : (s.since es).enter = s.enter.since es := rfl

section Since

variable [Supply σ] {inner : Inner σ} {es : List Event}

theorem step_since (es : List Event) (s : Session σ) : (s.since es).step = s.step.since es := by
  simp only [step, since, List.cons_append, List.append_assoc]

theorem expect_since (es : List Event) (kind : Kind) (s : Session σ) :
    (s.since es).expect kind = readSince es (s.expect kind) := by
  show ite (s.upcoming.kind = kind) _ _ = _
  unfold expect
  split
  · rw [step_since]
    rfl
  · rfl

theorem readBinary_since (hinner : ∀ p s, inner p (s.since es) = readSince es (inner p s))
    (left : Expr) (s : Session σ) :
    readBinary inner left (s.since es) = readSince es (readBinary inner left s) := by
  rw [readBinary_eq_map, readBinary_eq_map, step_since, hinner]
  rfl

theorem readOperand_since (hinner : ∀ p s, inner p (s.since es) = readSince es (inner p s))
    (rule : OperandRule) (s : Session σ) :
    readOperand inner rule (s.since es) = readSince es (readOperand inner rule s) := by
  cases rule with
  | identifier => rfl
  | integer =>
    show readInteger (s.since es) = readSince es (readInteger s)
    cases hvalue : Text.integer64? s.current.text with
    | none =>
      rw [readInteger_of_none hvalue, readInteger_of_none (s := s.since es) hvalue]
      rfl
    | some v =>
      rw [readInteger_of_some hvalue, readInteger_of_some (s := s.since es) hvalue]
      rfl
  | unary =>
    show readUnary inner (s.since es) = readSince es (readUnary inner s)
    rw [readUnary_eq_map, readUnary_eq_map, step_since, hinner]
    rfl
  | grouped =>
    show readGrouped inner (s.since es) = readSince es (readGrouped inner s)
    unfold readGrouped
    rw [step_since, hinner]
    obtain ⟨_ | e, t⟩ := inner .lowest s.step
    · rfl
    · dsimp only [readSince]
      rw [expect_since]
      obtain ⟨_ | _, u⟩ := t.expect .closeParen <;> rfl

-- Both functions at once, by induction on the levels.
theorem within_since (es : List Event) (n : Nat) :
    (∀ p (s : Session σ), exprWithin n p (s.since es) = readSince es (exprWithin n p s)) ∧
      ∀ p taken left (s : Session σ),
        foldWithin n p taken left (s.since es) = readSince es (foldWithin n p taken left s) := by
  have hstop (n : Nat) (p taken left) (s : Session σ)
      (h : ¬ p < Rules.standard.power s.upcoming.kind) :
      foldWithin n p taken left (s.since es) = readSince es (foldWithin n p taken left s) := by
    rw [foldWithin_stop h, foldWithin_stop (s := s.since es) h]
    rfl
  induction n with
  | zero =>
    constructor
    · intro p s
      rfl
    · intro p taken left s
      by_cases hop : p < Rules.standard.power s.upcoming.kind
      · rw [foldWithin_zero hop, foldWithin_zero (s := s.since es) hop]
        rfl
      · exact hstop 0 p taken left s hop
  | succ n ih =>
    obtain ⟨hexpr, hfold⟩ := ih
    constructor
    · intro p s
      rw [exprWithin_succ, exprWithin_succ, current_since]
      cases Rules.standard.operand s.current.kind with
      | none => rfl
      | some rule =>
        have hleft := readOperand_since hexpr rule (s.enter.note (.expression s.current.kind p))
        change readOperand (exprWithin n) rule ((s.since es).enter.note _) = _ at hleft
        dsimp only
        rw [hleft]
        obtain ⟨_ | left, t⟩ := readOperand (exprWithin n) rule _
        · rfl
        · exact hfold p 1 left t
    · intro p taken left s
      by_cases hop : p < Rules.standard.power s.upcoming.kind
      · have hright := readBinary_since hexpr left s.enter.step
        rw [foldWithin_succ hop, foldWithin_succ (s := s.since es) hop, enter_since, step_since,
          hright]
        obtain ⟨_ | e, t⟩ := readBinary (exprWithin n) left s.enter.step
        · rfl
        · exact hfold p (taken + 1) e t
      · exact hstop (n + 1) p taken left s hop

end Since

/-! ## Two powers -/

/-- How a reading comes out at a lower power, set beside the same reading at a higher one: alike,
without a level to go on, or further on. -/
inductive GoesOn [Supply σ] : Option Expr × Session σ → Option Expr × Session σ → Prop
  | alike {o t u} (h : u.unlogged = t.unlogged) : GoesOn (o, t) (o, u)
  | tooDeep {e t u} (h : u.unlogged = (t.diagnose (.tooDeep t.limit)).unlogged) :
      GoesOn (some e, t) (none, u)
  | further {e t o u} {n : Nat} (hcursor : u.cursor = t.cursor.steps (n + 1))
      (hspine : ∀ d ∈ o, e.OnSpine d) : GoesOn (some e, t) (o, u)

variable [Supply σ] {lo hi : Power}

theorem GoesOn.since {r r' : Option Expr × Session σ} (h : GoesOn r r') (es fs : List Event) :
    GoesOn (readSince es r) (readSince fs r') := by
  cases h with
  | alike h => exact .alike h
  | tooDeep h => exact .tooDeep h
  | further hcursor hspine => exact .further hcursor hspine

/-- A fold takes the loop at least one step on and leaves what it has on the left spine. -/
theorem fold_further {p : Power} {s : Session σ} (h : p < Rules.standard.power s.upcoming.kind)
    (n taken : Nat) (left : Expr) :
    (∃ k, (foldWithin (n + 1) p taken left s).2.cursor = s.cursor.steps (k + 1)) ∧
      ∀ d ∈ (foldWithin (n + 1) p taken left s).1, left.OnSpine d := by
  have hread : Reaches s.enter.step (readBinary (exprWithin n) left s.enter.step).2 :=
    reaches_readOperator (reaches_within n).1 .binary left s.enter.step
  rw [foldWithin_succ h]
  split
  next e t he =>
    rw [he] at hread
    obtain ⟨right, -, rfl⟩ := of_readBinary he
    constructor
    · exact hread.trans ((reaches_within n).2 p (taken + 1) _ t)
    · intro d hd
      -- The tree of this fold has `left` at its left end, and every later fold keeps that.
      have hkept := of_foldWithin (I := left.OnSpine) (fun _ _ _ _ => .deeper) .here
        (Prod.ext hd rfl)
      exact hkept.1
  next t he =>
    rw [he] at hread
    exact ⟨hread, fun d hd => by cases hd⟩

-- By induction on the levels: up to where the higher power stops, both loops do the same.
theorem goesOn_fold (h : lo ≤ hi) (n taken : Nat) (left : Expr) (s : Session σ) :
    GoesOn (foldWithin n hi taken left s) (foldWithin n lo taken left s) := by
  induction n generalizing taken left s with
  | zero =>
    by_cases hlo : lo < Rules.standard.power s.upcoming.kind
    · by_cases hhi : hi < Rules.standard.power s.upcoming.kind
      · rw [foldWithin_zero hhi, foldWithin_zero hlo]
        exact .alike rfl
      · rw [foldWithin_stop hhi, foldWithin_zero hlo]
        exact .tooDeep rfl
    · rw [foldWithin_stop hlo, foldWithin_stop fun hhi => hlo (Nat.lt_of_le_of_lt h hhi)]
      exact .alike rfl
  | succ n ih =>
    by_cases hlo : lo < Rules.standard.power s.upcoming.kind
    · by_cases hhi : hi < Rules.standard.power s.upcoming.kind
      · rw [foldWithin_succ hhi, foldWithin_succ hlo]
        obtain ⟨_ | e, t⟩ := readBinary (exprWithin n) left s.enter.step
        · exact .alike rfl
        · exact ih (taken + 1) e t
      · -- Here the higher power stops, and the lower one goes on alone.
        obtain ⟨⟨k, hcursor⟩, hspine⟩ := fold_further hlo n taken left
        rw [foldWithin_stop hhi]
        exact .further hcursor hspine
    · rw [foldWithin_stop hlo, foldWithin_stop fun hhi => hlo (Nat.lt_of_le_of_lt h hhi)]
      exact .alike rfl

/-- The operand in front is read alike at both powers. -/
theorem goesOn_expr (h : lo ≤ hi) (s : Session σ) : GoesOn (s.expr hi) (s.expr lo) := by
  unfold expr
  cases s.levels with
  | zero => exact .alike rfl
  | succ n =>
    rw [exprWithin_succ, exprWithin_succ]
    cases Rules.standard.operand s.current.kind with
    | none => exact .alike rfl
    | some rule =>
      -- The notes in front of the operand differ, so it is read without a log, behind neither.
      let opened := s.enter.unlogged
      let noted (p : Power) : List Event := .expression s.current.kind p :: s.events
      have hsince (p : Power) := readOperand_since ((within_since (noted p) n).1) rule opened
      change ∀ p, readOperand (exprWithin n) rule (s.enter.note (.expression s.current.kind p)) = _
        at hsince
      dsimp only
      rw [hsince hi, hsince lo]
      obtain ⟨_ | left, t⟩ := readOperand (exprWithin n) rule opened
      · exact .alike rfl
      · show GoesOn (foldWithin n hi 1 left (t.since _)) (foldWithin n lo 1 left (t.since _))
        rw [(within_since _ n).2, (within_since _ n).2]
        exact (goesOn_fold h n 1 left t).since _ _

/-- What is given up at a power is given up at a lower one, with nothing different but the log.
What is read stops in front of a token that binds no tighter than the power, and at a lower power
it is read again, or no level is left to go on from there, or the reading goes on and keeps what was
read at its left end. -/
theorem expr_lower_power (h : lo ≤ hi) (s : Session σ) :
    (∀ t, s.expr hi = (none, t) → ∃ u, s.expr lo = (none, u) ∧ u.unlogged = t.unlogged) ∧
      ∀ e t, s.expr hi = (some e, t) →
        (t.upcoming.kind = .semicolon ∨ Rules.standard.power t.upcoming.kind ≤ hi) ∧
          ((∃ u, s.expr lo = (some e, u) ∧ u.unlogged = t.unlogged) ∨
            (∃ u, s.expr lo = (none, u) ∧ u.cursor = t.cursor ∧
              u.diagnostics = t.diagnostics ++ [.tooDeep s.limit]) ∨
            ∃ o u n, s.expr lo = (o, u) ∧ u.cursor = t.cursor.steps (n + 1) ∧
              ∀ d ∈ o, e.OnSpine d) := by
  have hgoes := goesOn_expr h s
  generalize hlower : s.expr lo = lower at hgoes
  constructor
  · intro t ht
    rw [ht] at hgoes
    cases hgoes with
    | alike hlog => exact ⟨_, rfl, hlog⟩
  · intro e t ht
    obtain ⟨_, _, _, _, -, -, -, -, hstop⟩ := (reads_within s.levels).1 hi s e t ht
    refine ⟨.inr hstop, ?_⟩
    have hlimit : t.limit = s.limit := by
      have hsettles := settles_expr hi s
      rw [ht] at hsettles
      exact limit_of_ledger hsettles
    rw [ht] at hgoes
    cases hgoes with
    | alike hlog => exact .inl ⟨_, rfl, hlog⟩
    | tooDeep hlog =>
      rw [hlimit] at hlog
      have hcursor := congrArg cursor hlog
      have hdiagnosed := congrArg diagnostics hlog
      exact .inr (.inl ⟨_, rfl, hcursor, hdiagnosed.trans (diagnostics_diagnose _ t)⟩)
    | further hcursor hspine => exact .inr (.inr ⟨_, _, _, rfl, hcursor, hspine⟩)

/-- A sum goes on behind the product that it starts with. -/
theorem expr_lower_power_sum :
    let name (text : String) : Token := ⟨.identifier, text⟩
    let s := start 8 [name "a", ⟨.asterisk, "*"⟩, name "b", ⟨.plus, "+"⟩, name "c"]
    Power.lowest ≤ .sum ∧ ∃ e t, s.expr .sum = (some e, t) ∧ e.render = "(a * b)" ∧
      t.upcoming.kind = .plus ∧
      ∃ o u n, s.expr .lowest = (o, u) ∧ u.cursor = t.cursor.steps (n + 1) ∧
        ∀ d ∈ o, e.OnSpine d := by
  intro name s
  have hle : Power.lowest ≤ .sum := by decide
  refine ⟨hle, _, _, rfl, by decide +kernel, by decide +kernel, ?_⟩
  obtain ⟨-, hgoes⟩ := (expr_lower_power hle s).2 _ _ rfl
  obtain ⟨u, hu, -⟩ | ⟨u, hu, -⟩ | hfurther := hgoes
  · cases hu
  · cases hu
  · exact hfurther

end Session

end Precedence
