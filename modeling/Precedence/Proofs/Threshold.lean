import Mathlib.Data.Nat.Find
import Precedence.Proofs.Moves
import Precedence.Proofs.Run

/-!
# The limit as a threshold

A limit that is not hit makes no difference.  So for every supply there is one limit from which on
all is read as without any, and below which each limit is hit; it is at most one more than the
number of the tokens.
-/

namespace Precedence

variable {σ : Type}

namespace Session

variable {α : Type} {s t : Session σ} {limit : Nat}

/-- The limit was not hit. -/
def Shallow (s : Session σ) : Prop := ∀ n, .tooDeep n ∉ s.diagnosed

theorem shallow_iff : s.Shallow ↔ ∀ n, .tooDeep n ∉ s.diagnostics := by
  simp only [Shallow, diagnostics, List.mem_reverse]

theorem Shallow.of_suffix (h : t.Shallow) (hsuffix : s.diagnosed <:+ t.diagnosed) : s.Shallow :=
  fun n hn => h n (hsuffix.subset hn)

theorem Shallow.diagnose (h : s.Shallow) {d : Diagnostic} (hd : ∀ n, d ≠ .tooDeep n) :
    (s.diagnose d).Shallow := by
  intro n hn
  rcases List.mem_cons.1 hn with rfl | hn
  · exact hd n rfl
  · exact h n hn

theorem not_shallow_tooDeep (s : Session σ) (n : Nat) : ¬ (s.diagnose (.tooDeep n)).Shallow :=
  fun h => h n List.mem_cons_self

/-! ## Another limit -/

def withLimit (limit : Nat) (s : Session σ) : Session σ := { s with limit := limit }

/-- What was read, in a session with another limit. -/
def atLimit (limit : Nat) (r : α × Session σ) : α × Session σ := (r.1, r.2.withLimit limit)

theorem levels_withLimit_le (h : s.limit ≤ limit) : s.levels ≤ (s.withLimit limit).levels := by
  show ((s.limit : Int) - s.nesting.depth).toNat ≤ ((limit : Int) - s.nesting.depth).toNat
  omega

theorem current_withLimit (s : Session σ) : (s.withLimit limit).current = s.current := rfl

variable [Supply σ]

theorem step_withLimit (s : Session σ) :
    (s.withLimit limit).step = s.step.withLimit limit := rfl

theorem expect_withLimit (kind : Kind) (s : Session σ) :
    (s.withLimit limit).expect kind = atLimit limit (s.expect kind) := by
  show ite (s.upcoming.kind = kind) _ _ = _
  unfold expect
  split <;> rfl

theorem skipSemicolon_withLimit (s : Session σ) :
    (s.withLimit limit).skipSemicolon = s.skipSemicolon.withLimit limit := by
  show ite (s.upcoming.kind = .semicolon) _ _ = _
  unfold skipSemicolon
  split <;> rfl

/-! ## Expressions -/

/-- Where `inner` has not hit its limit, `inner'` does the same under the other limit. -/
def Agrees (limit : Nat) (inner inner' : Inner σ) : Prop :=
  ∀ power s, (inner power s).2.Shallow →
    inner' power (s.withLimit limit) = atLimit limit (inner power s)

variable {inner inner' : Inner σ}

theorem readUnary_withLimit (hinner : Agrees limit inner inner')
    (h : (readUnary inner s).2.Shallow) :
    readUnary inner' (s.withLimit limit) = atLimit limit (readUnary inner s) := by
  rw [readUnary_eq_map] at h ⊢
  rw [readUnary_eq_map, step_withLimit, hinner .unary s.step h]
  rfl

theorem readBinary_withLimit (hinner : Agrees limit inner inner') (left : Expr)
    (h : (readBinary inner left s).2.Shallow) :
    readBinary inner' left (s.withLimit limit) = atLimit limit (readBinary inner left s) := by
  rw [readBinary_eq_map] at h ⊢
  rw [readBinary_eq_map, step_withLimit]
  have hagrees := hinner (Rules.standard.power s.current.kind) s.step h
  change inner' (Rules.standard.power (s.withLimit limit).current.kind) _ = _ at hagrees
  rw [hagrees]
  rfl

theorem readGrouped_withLimit (hinner : Agrees limit inner inner')
    (h : (readGrouped inner s).2.Shallow) :
    readGrouped inner' (s.withLimit limit) = atLimit limit (readGrouped inner s) := by
  have hagrees := hinner .lowest s.step
  unfold readGrouped at h ⊢
  rw [step_withLimit]
  split at h
  next e inside he =>
    rw [he] at hagrees
    have hsuffix := (trail_expect .closeParen inside).diagnosed_suffix
    split at h <;>
      next after hc =>
        rw [hc] at hsuffix
        rw [hagrees (h.of_suffix hsuffix)]
        dsimp only [atLimit]
        rw [expect_withLimit, hc]
        rfl
  next inside he =>
    rw [he] at hagrees
    rw [hagrees h]
    rfl

theorem readOperand_withLimit (hinner : Agrees limit inner inner') (rule : OperandRule)
    (h : (readOperand inner rule s).2.Shallow) :
    readOperand inner' rule (s.withLimit limit) = atLimit limit (readOperand inner rule s) := by
  cases rule with
  | identifier => rfl
  | integer =>
    simp only [readOperand, readInteger, current_withLimit]
    cases Text.integer64? s.current.text <;> rfl
  | unary => exact readUnary_withLimit hinner h
  | grouped => exact readGrouped_withLimit hinner h

/-- What is read before a fold comes before what the fold diagnoses. -/
theorem Shallow.of_fold {n taken : Nat} {power : Power} {left : Expr}
    (h : (foldWithin n power taken left s).2.Shallow) : s.Shallow :=
  h.of_suffix ((settles_within n).2 power taken left s).diagnosed_suffix

-- Both functions at once, by induction on the smaller number of levels.
theorem withLimit_within (limit : Nat) {n m : Nat} (hm : n ≤ m) :
    Agrees limit (exprWithin (σ := σ) n) (exprWithin m) ∧
      ∀ power taken left (s : Session σ), (foldWithin n power taken left s).2.Shallow →
        foldWithin m power taken left (s.withLimit limit) =
          atLimit limit (foldWithin n power taken left s) := by
  have hstop (n m : Nat) (power taken left) (s : Session σ)
      (h : ¬ power < Rules.standard.power s.upcoming.kind) :
      foldWithin m power taken left (s.withLimit limit) =
        atLimit limit (foldWithin n power taken left s) := by
    rw [foldWithin_stop h, foldWithin_stop (s := s.withLimit limit) h]
    rfl
  induction n generalizing m with
  | zero =>
    constructor
    · intro power s h
      exact absurd h (not_shallow_tooDeep s s.limit)
    · intro power taken left s h
      by_cases hop : power < Rules.standard.power s.upcoming.kind
      · rw [foldWithin_zero hop] at h
        exact absurd h (not_shallow_tooDeep s s.limit)
      · exact hstop 0 m power taken left s hop
  | succ n ih =>
    obtain ⟨m, rfl⟩ : ∃ k, m = k + 1 := ⟨m - 1, by omega⟩
    obtain ⟨hexpr, hfold⟩ := ih (Nat.le_of_succ_le_succ hm)
    constructor
    · intro power s h
      rw [exprWithin_succ] at h ⊢
      rw [exprWithin_succ, current_withLimit]
      split at h
      · rfl
      next rule _ =>
        have hleft := readOperand_withLimit (s := s.enter.note (.expression s.current.kind power))
          hexpr rule
        change _ → readOperand _ rule ((s.withLimit limit).enter.note _) = _ at hleft
        split at h
        next left t he =>
          rw [he] at hleft
          rw [hleft h.of_fold]
          exact hfold power 1 left t h
        next t he =>
          rw [he] at hleft
          rw [hleft h]
          rfl
    · intro power taken left s h
      by_cases hop : power < Rules.standard.power s.upcoming.kind
      · rw [foldWithin_succ hop] at h ⊢
        rw [foldWithin_succ (s := s.withLimit limit) hop]
        have hright := readBinary_withLimit (s := s.enter.step) hexpr left
        change _ → readBinary _ left (s.withLimit limit).enter.step = _ at hright
        split at h
        next e t he =>
          rw [he] at hright
          rw [hright h.of_fold]
          exact hfold power (taken + 1) e t h
        next t he =>
          rw [he] at hright
          rw [hright h]
          rfl
      · exact hstop (n + 1) (m + 1) power taken left s hop

/-! ## Statements and rounds -/

theorem expr_withLimit (hlimit : s.limit ≤ limit) (power : Power)
    (h : (s.expr power).2.Shallow) :
    (s.withLimit limit).expr power = atLimit limit (s.expr power) :=
  (withLimit_within limit (levels_withLimit_le hlimit)).1 power s h

/-- What a statement makes of the expression it ends with. -/
theorem value_withLimit (hlimit : s.limit ≤ limit) (make : Option Expr → Option Stmt)
    (h : (s.expr .lowest).2.skipSemicolon.Shallow) :
    (make ((s.withLimit limit).expr .lowest).1,
        ((s.withLimit limit).expr .lowest).2.skipSemicolon) =
      atLimit limit (make (s.expr .lowest).1, (s.expr .lowest).2.skipSemicolon) := by
  have hvalue : (s.expr .lowest).2.Shallow := by
    rwa [Shallow, diagnosed_of_ledger (ledger_skipSemicolon _)] at h
  rw [expr_withLimit hlimit .lowest hvalue]
  exact congrArg (Prod.mk _) (skipSemicolon_withLimit _)

theorem letBinding_withLimit (hlimit : s.limit ≤ limit) (h : s.letBinding.2.Shallow) :
    (s.withLimit limit).letBinding = atLimit limit s.letBinding := by
  unfold letBinding at h ⊢
  rw [expect_withLimit, current_withLimit]
  split at h
  next named hn => rw [hn]; rfl
  next named hn =>
    obtain ⟨-, rfl⟩ := expect_eq_true_iff.1 hn
    rw [hn]
    dsimp only [atLimit]
    rw [expect_withLimit]
    split at h
    next bound hb => rw [hb]; rfl
    next bound hb =>
      obtain ⟨-, rfl⟩ := expect_eq_true_iff.1 hb
      rw [hb]
      exact value_withLimit (s := s.step.step.step) hlimit
        (fun e => some (.letBinding s.current (.ofToken s.step.current) e)) h

theorem statement_withLimit (hlimit : s.limit ≤ limit) (rule : StatementRule)
    (h : (s.statement rule).2.Shallow) :
    (s.withLimit limit).statement rule = atLimit limit (s.statement rule) := by
  cases rule with
  | letBinding => exact letBinding_withLimit hlimit h
  | returnValue =>
    exact value_withLimit (s := s.step) hlimit (fun e => some (.returnValue s.current e)) h

theorem stmt_withLimit (hlimit : s.limit ≤ limit) (h : s.stmt.2.Shallow) :
    (s.withLimit limit).stmt = atLimit limit s.stmt := by
  unfold stmt at h ⊢
  rw [current_withLimit]
  split at h
  next rule _ => exact statement_withLimit hlimit rule h
  next _ => exact value_withLimit hlimit (fun e => some (.expression s.current e)) h

end Session

/-! ## Runs -/

namespace Session

variable [FiniteSupply σ] {s t : Session σ} {limit : Nat} {os : List (Option Stmt)}

theorem round_withLimit (hlimit : s.limit ≤ limit) (h : s.round.2.Shallow) :
    (s.withLimit limit).round = atLimit limit s.round := by
  rw [round, stmt_withLimit hlimit h]
  rfl

/-- A run that has not hit its limit is one under every higher limit. -/
theorem Runs.withLimit (h : Runs s os t) (hlimit : s.limit ≤ limit) (ht : t.Shallow) :
    Runs (s.withLimit limit) os (t.withLimit limit) := by
  induction h with
  | nil => exact .nil
  | @cons s t os hcur hrest ih =>
    have hround := round_withLimit hlimit (ht.of_suffix hrest.diagnosed_suffix)
    have hkept : s.round.2.limit = s.limit := congrArg Prod.fst s.settles_round.ledger_snd
    have hrest' := ih (by rwa [hkept]) ht
    have hwhole : Runs (s.withLimit limit) ((s.withLimit limit).round.1 :: os) _ :=
      .cons hcur (by rw [hround]; exact hrest')
    rwa [hround] at hwhole

/-! ## Levels for every token -/

theorem Shallow.expect (h : s.Shallow) (kind : Kind) : (s.expect kind).2.Shallow := by
  unfold Session.expect
  split
  · exact h
  · exact h.diagnose fun _ => Diagnostic.noConfusion

theorem Shallow.readOperand {inner : Inner σ}
    (hinner : ∀ power, (inner power s.step).2.Shallow) (h : s.Shallow) (rule : OperandRule) :
    (readOperand inner rule s).2.Shallow := by
  cases rule with
  | identifier => exact h
  | integer =>
    simp only [Session.readOperand, readInteger]
    split
    · exact h
    · exact h.diagnose fun _ => Diagnostic.noConfusion
  | unary =>
    rw [Session.readOperand, readUnary_eq_map]
    exact hinner .unary
  | grouped =>
    have hinside := hinner .lowest
    simp only [Session.readOperand, readGrouped]
    split
    next e inside he =>
      rw [he] at hinside
      have hclose := hinside.expect .closeParen
      split <;> simp_all
    next inside he => rwa [he] at hinside

-- Both functions at once, by induction on the levels: each of them is taken for another token, an
-- expression that is opened on an end marker apart.
theorem shallow_within (n : Nat) :
    (∀ power (s : Session σ), s.Shallow → s.cursor.ahead < n →
        (exprWithin n power s).2.Shallow) ∧
      ∀ power taken left (s : Session σ), s.Shallow → s.cursor.step.ahead < n →
        (foldWithin n power taken left s).2.Shallow := by
  induction n with
  | zero => exact ⟨fun _ _ _ h => absurd h (Nat.not_lt_zero _),
      fun _ _ _ _ _ h => absurd h (Nat.not_lt_zero _)⟩
  | succ n ih =>
    obtain ⟨hexpr, hfold⟩ := ih
    have hbehind {opened t : Session σ} (hcur : opened.current.kind ≠ .eof)
        (hahead : opened.cursor.ahead < n + 1) (ht : Reaches opened t) :
        t.cursor.step.ahead < n :=
      Nat.lt_of_lt_of_le (ht.ahead_step_lt hcur) (Nat.le_of_lt_succ hahead)
    constructor
    · intro power s hs hahead
      rw [exprWithin_succ]
      cases hrule : Rules.standard.operand s.current.kind with
      | none => exact hs.diagnose fun _ => Diagnostic.noConfusion
      | some rule =>
        let opened := s.enter.note (.expression s.current.kind power)
        have hcur : opened.current.kind ≠ .eof := by
          intro heof
          change s.current.kind = .eof at heof
          rw [heof] at hrule
          cases hrule
        have hleft : (readOperand (exprWithin n) rule opened).2.Shallow :=
          Shallow.readOperand (fun power =>
            hexpr power opened.step hs (hbehind hcur hahead (.refl opened))) hs rule
        have hreaches := reaches_readOperand (reaches_within n).1 rule opened
        dsimp only
        split
        next left t he =>
          rw [he] at hleft hreaches
          exact hfold power 1 left t hleft (hbehind hcur hahead hreaches)
        next t he =>
          rw [he] at hleft
          exact hleft
    · intro power taken left s hs hahead
      by_cases hop : power < Rules.standard.power s.upcoming.kind
      · let opened := s.enter.step
        have hcur : opened.current.kind ≠ .eof := Rules.ne_eof_of_lt hop
        have hright : (readBinary (exprWithin n) left opened).2.Shallow := by
          rw [readBinary_eq_map]
          exact hexpr _ opened.step hs (hbehind hcur hahead (.refl opened))
        have hreaches := reaches_readOperator (reaches_within n).1 .binary left opened
        rw [foldWithin_succ hop]
        split
        next e t he =>
          rw [he] at hright
          rw [readOperator, he] at hreaches
          exact hfold power (taken + 1) e t hright (hbehind hcur hahead hreaches)
        next t he =>
          rw [he] at hright
          exact hright
      · rw [foldWithin_stop hop]
        exact hs

/-- The limit was not hit, and there is a level for every token ahead and one more. -/
structure Ample (s : Session σ) : Prop where
  shallow : s.Shallow
  ahead_lt : s.cursor.ahead < s.levels

namespace Ample

theorem step (h : s.Ample) : s.step.Ample :=
  ⟨h.shallow, Nat.lt_of_le_of_lt (Reaches.of_step (.refl s.step)).ahead_le h.ahead_lt⟩

theorem shallow_value (h : s.Ample) : (s.expr .lowest).2.skipSemicolon.Shallow := by
  rw [Shallow, diagnosed_of_ledger (ledger_skipSemicolon _)]
  exact (shallow_within s.levels).1 .lowest s h.shallow h.ahead_lt

theorem shallow_letBinding (h : s.Ample) : s.letBinding.2.Shallow := by
  have hname := h.shallow.expect .identifier
  unfold letBinding
  split
  next named hn => rwa [hn] at hname
  next named hn =>
    obtain ⟨-, rfl⟩ := expect_eq_true_iff.1 hn
    have hassign := h.step.shallow.expect .assign
    split
    next bound hb => rwa [hb] at hassign
    next bound hb =>
      obtain ⟨-, rfl⟩ := expect_eq_true_iff.1 hb
      exact h.step.step.step.shallow_value

theorem shallow_stmt (h : s.Ample) : s.stmt.2.Shallow := by
  unfold stmt
  split
  next rule _ =>
    cases rule with
    | letBinding => exact h.shallow_letBinding
    | returnValue => exact h.step.shallow_value
  · exact h.shallow_value

theorem round (h : s.Ample) : s.round.2.Ample where
  shallow := h.shallow_stmt
  ahead_lt := by
    rw [s.settles_round.levels]
    exact Nat.lt_of_le_of_lt (reaches_round s).ahead_le h.ahead_lt

theorem runs (h : s.Ample) (hruns : Runs s os t) : t.Ample := by
  induction hruns with
  | nil => exact h
  | cons hcur hrest ih => exact ih h.round

end Ample

/-! ## Which limit was hit -/

/-- Every diagnostic about a limit names that of the session. -/
def Named (s : Session σ) : Prop := ∀ n, .tooDeep n ∈ s.diagnosed → n = s.limit

theorem Move.named (h : Move s t) (hs : s.Named) : t.Named := by
  cases h with
  | step | note | enter | exit => exact hs
  | diagnose hd =>
    intro n hn
    rcases List.mem_cons.1 hn with rfl | hn
    · exact absurd rfl (hd n)
    · exact hs n hn
  | refuse =>
    intro n hn
    rcases List.mem_cons.1 hn with hn | hn
    · cases hn
      rfl
    · exact hs n hn

theorem Runs.trail (h : Runs s os t) (hs : s.InBounds) : Trail s t := by
  induction h with
  | nil => exact .refl
  | @cons s t os hcur hrest ih =>
    have hround : Trail s s.round.2 := (trail_stmt hs).tail (.step s.stmt.2)
    exact hround.trans (ih (hround.inBounds hs))

theorem Runs.named (h : Runs s os t) (hs : s.InBounds) (hnamed : s.Named) : t.Named :=
  (h.trail hs).preserves Move.named hnamed

end Session

open Session

/-! ## Programs -/

variable [FiniteSupply σ] {supply : σ} {N M : Nat}

/-- A limit that is not hit may as well be higher. -/
theorem parse_of_shallow (hM : N ≤ M) (h : (parse N supply).2.Shallow) :
    (parse M supply).2.Shallow ∧ (parse M supply).1 = (parse N supply).1 ∧
      (parse M supply).2.diagnostics = (parse N supply).2.diagnostics ∧
      (parse M supply).2.cursor = (parse N supply).2.cursor := by
  obtain ⟨os, t, hruns, ht⟩ := exists_runs (start N supply)
  obtain ⟨hprogram, hdiagnostics, hcursor⟩ := parse_of_runs hruns ht
  rw [shallow_iff, hdiagnostics, ← shallow_iff] at h
  have hhigher : Runs (start M supply) os (t.withLimit M) := hruns.withLimit hM h
  obtain ⟨hprogram', hdiagnostics', hcursor'⟩ := parse_of_runs hhigher ht
  rw [shallow_iff, hprogram, hprogram', hdiagnostics, hdiagnostics', hcursor, hcursor']
  exact ⟨shallow_iff.1 h, rfl, rfl, rfl⟩

/-- With more levels than there are tokens no limit is hit. -/
theorem shallow_parse (h : FiniteSupply.size supply < M) : (parse M supply).2.Shallow := by
  obtain ⟨os, t, hruns, ht⟩ := exists_runs (start M supply)
  obtain ⟨-, hdiagnostics, -⟩ := parse_of_runs hruns ht
  have hample : (start M supply).Ample :=
    ⟨fun _ => List.not_mem_nil, Nat.lt_of_le_of_lt (Cursor.ahead_start_le 2 supply) h⟩
  rw [shallow_iff, hdiagnostics, ← shallow_iff]
  exact (hample.runs hruns).shallow

theorem eq_of_tooDeep_mem_parse {n : Nat} (h : .tooDeep n ∈ (parse M supply).2.diagnostics) :
    n = M := by
  obtain ⟨os, t, hruns, ht⟩ := exists_runs (start M supply)
  obtain ⟨-, hdiagnostics, -⟩ := parse_of_runs hruns ht
  have hlimit : t.limit = M := (hruns.trail (inBounds_start M supply)).limit_eq
  rw [hdiagnostics, diagnostics, List.mem_reverse] at h
  rw [← hlimit]
  exact hruns.named (inBounds_start M supply) (fun _ h => absurd h List.not_mem_nil) n h

/-- For every list of tokens there is one limit, at most one above their number, from which on
nothing depends on the limit any more, and below which each limit is hit. -/
theorem exists_threshold (ts : List Token) :
    ∃ N ≤ ts.length + 1,
      (∀ M, N ≤ M →
        (∀ n, .tooDeep n ∉ (parse M ts).2.diagnostics) ∧
        (parse M ts).1 = (parse N ts).1 ∧
        (parse M ts).2.diagnostics = (parse N ts).2.diagnostics ∧
        (parse M ts).2.cursor.pulls = (parse N ts).2.cursor.pulls) ∧
      ∀ M < N, .tooDeep M ∈ (parse M ts).2.diagnostics := by
  classical
  have henough : ∃ N, (parse N ts).2.Shallow :=
    ⟨ts.length + 1, shallow_parse (Nat.lt_succ_self ts.length)⟩
  refine ⟨Nat.find henough, Nat.find_min' henough (shallow_parse (Nat.lt_succ_self ts.length)),
    fun M hM => ?_, fun M hM => ?_⟩
  · obtain ⟨hshallow, hprogram, hdiagnostics, hcursor⟩ :=
      parse_of_shallow hM (Nat.find_spec henough)
    exact ⟨shallow_iff.1 hshallow, hprogram, hdiagnostics, congrArg Cursor.pulls hcursor⟩
  · have hhit := Nat.find_min henough hM
    rw [shallow_iff] at hhit
    push Not at hhit
    obtain ⟨n, hn⟩ := hhit
    rwa [eq_of_tooDeep_mem_parse hn] at hn

-- The threshold may be one above the number of the tokens: the end marker may take a level too.
example : .tooDeep 1 ∈ (parse 1 [(⟨.minus, "-"⟩ : Token)]).2.diagnostics := by decide +kernel

end Precedence
