import Precedence.Proofs.Lookahead
import Precedence.Proofs.Outcome
import Precedence.Proofs.Reading

/-!
# Reading expressions

`exprWithin` finds exactly the readings that its levels allow: where a reading leads the way it goes
to the end of it, unless the levels fall short, and where it comes to an end a reading has led it.
-/

namespace Precedence

namespace Session

variable {σ : Type} [Supply σ]

/-! ## One round of the loop -/

theorem exprWithin_succ (n : Nat) (p : Power) (s : Session σ) :
    exprWithin (n + 1) p s =
      match Rules.standard.operand s.current.kind with
      | none => (none, ((s.enter.note (.expression s.current.kind p)).diagnose
          (.noOperand s.current.kind)).exit 1)
      | some rule =>
        match readOperand (exprWithin n) rule (s.enter.note (.expression s.current.kind p)) with
        | (some left, t) => foldWithin n p 1 left t
        | (none, t) => (none, t.exit 1) := by
  rw [exprWithin]
  rfl

theorem exprWithin_of_operand {n : Nat} {p : Power} {s t : Session σ} {rule : OperandRule}
    {left : Expr} (hrule : Rules.standard.operand s.current.kind = some rule)
    (hleft : readOperand (exprWithin n) rule (s.enter.note (.expression s.current.kind p)) =
      (some left, t)) :
    exprWithin (n + 1) p s = foldWithin n p 1 left t := by
  rw [exprWithin_succ, hrule]
  dsimp only
  rw [hleft]

theorem exprWithin_of_no_operand {n : Nat} {p : Power} {s : Session σ} {rule : OperandRule}
    (hrule : Rules.standard.operand s.current.kind = some rule)
    (hnone : (readOperand (exprWithin n) rule (s.enter.note (.expression s.current.kind p))).1 =
      none) :
    (exprWithin (n + 1) p s).1 = none := by
  rw [exprWithin_succ, hrule]
  dsimp only
  split
  next left t he => rw [he] at hnone; cases hnone
  next => rfl

-- What does not bind tighter than `p` ends the expression.
theorem foldWithin_stop {n taken : Nat} {p : Power} {left : Expr} {s : Session σ}
    (h : ¬ p < Rules.standard.power s.upcoming.kind) :
    foldWithin n p taken left s = (some left, s.exit taken) := by
  unfold foldWithin
  rw [if_neg fun hboth => h hboth.2]

-- No operator is folded where no level is left.
theorem foldWithin_zero {taken : Nat} {p : Power} {left : Expr} {s : Session σ}
    (h : p < Rules.standard.power s.upcoming.kind) :
    foldWithin 0 p taken left s = (none, (s.diagnose (.tooDeep s.limit)).exit taken) := by
  unfold foldWithin
  rw [if_pos ⟨Rules.ne_semicolon_of_lt h, h⟩, Rules.standard_operator_of_lt h]

theorem foldWithin_full {taken : Nat} {p : Power} {left : Expr} {s : Session σ}
    (h : p < Rules.standard.power s.upcoming.kind) : (foldWithin 0 p taken left s).1 = none := by
  rw [foldWithin_zero h]

theorem foldWithin_succ {n taken : Nat} {p : Power} {left : Expr} {s : Session σ}
    (h : p < Rules.standard.power s.upcoming.kind) :
    foldWithin (n + 1) p taken left s =
      match readBinary (exprWithin n) left s.enter.step with
      | (some e, t) => foldWithin n p (taken + 1) e t
      | (none, t) => (none, t.exit (taken + 1)) := by
  rw [foldWithin]
  rw [if_pos ⟨Rules.ne_semicolon_of_lt h, h⟩, Rules.standard_operator_of_lt h]
  rfl

omit [Supply σ] in
theorem readInteger_of_some {s : Session σ} {v : Int}
    (h : Text.integer64? s.current.text = some v) :
    s.readInteger = (some (.integer s.current v), s) := by
  rw [readInteger, h]

omit [Supply σ] in
theorem readInteger_of_none {s : Session σ} (h : Text.integer64? s.current.text = none) :
    s.readInteger = (none, s.diagnose (.badInteger s.current.text)) := by
  rw [readInteger, h]

theorem readBinary_eq {inner : Inner σ} {left right : Expr} {s t : Session σ}
    (h : inner (Rules.standard.power s.current.kind) s.step = (some right, t)) :
    readBinary inner left s = (some (.binary s.current s.current.text left right), t) := by
  rw [readBinary, h]

theorem of_readBinary {inner : Inner σ} {left e : Expr} {s t : Session σ}
    (h : readBinary inner left s = (some e, t)) :
    ∃ right, inner (Rules.standard.power s.current.kind) s.step = (some right, t) ∧
      e = .binary s.current s.current.text left right := by
  rw [readBinary] at h
  split at h
  next right u hu =>
    cases h
    exact ⟨right, hu, rfl⟩
  next => cases h

theorem readBinary_eq_map (inner : Inner σ) (left : Expr) (s : Session σ) :
    readBinary inner left s =
      ((inner (Rules.standard.power s.current.kind) s.step).1.map
        (.binary s.current s.current.text left),
      (inner (Rules.standard.power s.current.kind) s.step).2) := by
  unfold readBinary
  split
  next h => rw [h]; rfl
  next h => rw [h]; rfl

theorem readBinary_none {inner : Inner σ} {left : Expr} {s : Session σ}
    (h : (inner (Rules.standard.power s.current.kind) s.step).1 = none) :
    (readBinary inner left s).1 = none := by
  rw [readBinary_eq_map, h]
  rfl

theorem readUnary_eq_map (inner : Inner σ) (s : Session σ) :
    readUnary inner s =
      ((inner .unary s.step).1.map (.unary s.current s.current.text), (inner .unary s.step).2) := by
  unfold readUnary
  split
  next h => rw [h]; rfl
  next h => rw [h]; rfl

theorem readUnary_none {inner : Inner σ} {s : Session σ} (h : (inner .unary s.step).1 = none) :
    (readUnary inner s).1 = none := by
  rw [readUnary_eq_map, h]
  rfl

theorem readGrouped_none {inner : Inner σ} {s : Session σ} (h : (inner .lowest s.step).1 = none) :
    (readGrouped inner s).1 = none := by
  rw [readGrouped]
  split
  next e t he => rw [he] at h; cases h
  next => rfl

/-- The fold with its right operand read. -/
theorem foldWithin_of_some {n taken : Nat} {p : Power} {left right : Expr} {s t : Session σ}
    (h : p < Rules.standard.power s.upcoming.kind)
    (hright : exprWithin n (Rules.standard.power s.upcoming.kind) s.enter.step.step =
      (some right, t)) :
    foldWithin (n + 1) p taken left s =
      foldWithin n p (taken + 1) (.binary s.upcoming s.upcoming.text left right) t := by
  have hbinary : readBinary (exprWithin n) left s.enter.step =
      (some (.binary s.upcoming s.upcoming.text left right), t) := readBinary_eq hright
  rw [foldWithin_succ h, hbinary]

theorem foldWithin_of_none {n taken : Nat} {p : Power} {left : Expr} {s : Session σ}
    (h : p < Rules.standard.power s.upcoming.kind)
    (hright : (exprWithin n (Rules.standard.power s.upcoming.kind) s.enter.step.step).1 = none) :
    (foldWithin (n + 1) p taken left s).1 = none := by
  have hbinary : (readBinary (exprWithin n) left s.enter.step).1 = none := readBinary_none hright
  rw [foldWithin_succ h]
  split
  next e t he => rw [he] at hbinary; cases hbinary
  next => rfl

/-- The loop ends only where nothing binds tighter, with whatever each fold keeps. -/
theorem of_foldWithin {I : Expr → Prop}
    (hfold : ∀ token text left right, I left → I (.binary token text left right))
    {n taken : Nat} {p : Power} {left e : Expr} {s t : Session σ} (hleft : I left)
    (h : foldWithin n p taken left s = (some e, t)) :
    I e ∧ ¬ p < Rules.standard.power t.upcoming.kind := by
  induction n generalizing taken left s with
  | zero =>
    by_cases hop : p < Rules.standard.power s.upcoming.kind
    · rw [foldWithin_zero hop] at h
      cases h
    · rw [foldWithin_stop hop] at h
      cases h
      exact ⟨hleft, hop⟩
  | succ n ih =>
    by_cases hop : p < Rules.standard.power s.upcoming.kind
    · rw [foldWithin_succ hop] at h
      split at h
      next folded u hu =>
        obtain ⟨right, -, rfl⟩ := of_readBinary hu
        exact ih (hfold _ _ left right hleft) h
      next => cases h
    · rw [foldWithin_stop hop] at h
      cases h
      exact ⟨hleft, hop⟩

/-! ## Readings are found -/

theorem upcoming_of_step_eq {s : Session σ} {c : Cursor σ} (h : s.cursor.step = c) :
    s.upcoming = c.current :=
  congrArg Cursor.current h

/-- The loop stops in front of a token that binds no tighter. -/
theorem stops_of_arrives {N m taken : Nat} {p : Power} {e : Expr} {s : Session σ} {d : Cursor σ}
    (h : ∃ t : Session σ, t.cursor.step = d ∧ exprWithin N p s = foldWithin m p taken e t)
    (hstop : Rules.standard.power d.current.kind ≤ p) :
    ∃ t : Session σ, t.cursor.step = d ∧ exprWithin N p s = (some e, t) := by
  obtain ⟨t, ht, he⟩ := h
  refine ⟨t.exit taken, ht, ?_⟩
  rw [he, foldWithin_stop]
  rw [← ht] at hstop
  exact Nat.not_lt.2 hstop

/-- With levels enough the loop comes to hold what the reading says, past the tokens read. -/
theorem exprWithin_arrives {p q : Power} {us : List Token} {e : Expr} {k n : Nat}
    (h : Reading p us e k n q) {N : Nat} (hN : n ≤ N) {s : Session σ} (hs : s.cursor.Spells us)
    (hnext : Rules.standard.power (s.cursor.steps us.length).current.kind ≤ q) :
    ∃ t : Session σ, t.cursor.step = s.cursor.steps us.length ∧
      exprWithin N p s = foldWithin (N - (k + 1)) p (k + 1) e t := by
  -- One case for each way to read; every level that the reading counts is one of the `N`.
  induction h generalizing N s with
  | @identifier p t ht =>
    obtain ⟨M, rfl⟩ : ∃ M, N = M + 1 := ⟨N - 1, by omega⟩
    have hcur : s.current = t := hs.1
    subst hcur
    exact ⟨s.enter.note (.expression s.current.kind p), rfl, exprWithin_of_operand ht rfl⟩
  | @integer p t v ht hv =>
    obtain ⟨M, rfl⟩ : ∃ M, N = M + 1 := ⟨N - 1, by omega⟩
    have hcur : s.current = t := hs.1
    subst hcur
    have hvalue : Text.integer64? (s.enter.note (.expression s.current.kind p)).current.text =
        some v := hv
    refine ⟨s.enter.note (.expression s.current.kind p), rfl, exprWithin_of_operand ht ?_⟩
    rw [readOperand, readInteger, hvalue]
    rfl
  | @unary p t us e k n q ht h ih =>
    obtain ⟨M, rfl⟩ : ∃ M, N = M + 1 := ⟨N - 1, by omega⟩
    have hcur : s.current = t := hs.1
    subst hcur
    -- Whatever follows, the operand ends where its reading does.
    have hstop := Rules.standard_power_le_unary (s.cursor.step.steps us.length).current.kind
    obtain ⟨t, ht', he⟩ := stops_of_arrives
      (ih (N := M) (s := (s.enter.note (.expression s.current.kind p)).step) (by omega) hs.2
        (Nat.le_trans hstop h.power_le)) hstop
    refine ⟨t, ht', exprWithin_of_operand ht ?_⟩
    show readUnary _ _ = _
    unfold readUnary
    rw [he]
    rfl
  | @grouped p o us c e k n q ho hc h ih =>
    obtain ⟨M, rfl⟩ : ∃ M, N = M + 1 := ⟨N - 1, by omega⟩
    have hcur : s.current = o := hs.1
    subst hcur
    obtain ⟨hus, hclose⟩ := Cursor.spells_append.1 hs.2
    -- A closing parenthesis does not bind, so the expression inside ends in front of it.
    have hpar : (s.cursor.step.steps us.length).current.kind = .closeParen := by
      rw [hclose.1, hc]
    have hstop : Rules.standard.power (s.cursor.step.steps us.length).current.kind ≤ .lowest := by
      rw [hpar]
      decide
    obtain ⟨t, ht, he⟩ := stops_of_arrives
      (ih (N := M) (s := (s.enter.note (.expression s.current.kind p)).step) (by omega) hus
        (Nat.le_trans hstop h.power_le)) hstop
    have hup : t.upcoming.kind = .closeParen := by
      rw [upcoming_of_step_eq ht]
      exact hpar
    refine ⟨t.step, ?_, exprWithin_of_operand ho ?_⟩
    · rw [Cursor.steps_length_append_cons]
      exact congrArg Cursor.step ht
    · show readGrouped _ _ = _
      unfold readGrouped
      rw [he]
      dsimp only
      rw [expect, if_pos hup]
  | @binary p us op vs l r k n q j m q' hl hlt hle hr ihl ihr =>
    obtain ⟨hus, hop, hvs⟩ := Cursor.spells_append.1 hs
    rw [Cursor.steps_length_append_cons] at hnext ⊢
    -- The loop holds the left operand and stands in front of the operator.
    obtain ⟨t, ht, he⟩ := ihl (N := N) (by omega) hus (by rw [hop]; exact hle)
    have hup : t.upcoming = op := by rw [upcoming_of_step_eq ht, hop]
    have hcur : t.enter.step.step.cursor = (s.cursor.steps us.length).step :=
      congrArg Cursor.step ht
    obtain ⟨M, hM⟩ : ∃ M, N - (k + 1) = M + 1 := ⟨N - (k + 2), by omega⟩
    -- What stops the whole stops the right operand, too, as it is read at the same power.
    obtain ⟨u, hu, hright⟩ := stops_of_arrives
      (ihr (N := M) (s := t.enter.step.step) (by omega) (by rw [hcur]; exact hvs)
        (by rw [hcur]; exact Nat.le_trans hnext hr.power_le)) (by rw [hcur]; exact hnext)
    rw [← hup] at hlt hright
    refine ⟨u, by rw [hu, hcur], ?_⟩
    have hM' : N - (k + 1 + 1) = M := by omega
    rw [he, hM, hM', foldWithin_of_some hlt hright, hup]

/-- With fewer levels than the reading counts the expression is given up. -/
theorem exprWithin_falls_short {p q : Power} {us : List Token} {e : Expr} {k n : Nat}
    (h : Reading p us e k n q) {N : Nat} (hN : N < n) {s : Session σ} (hs : s.cursor.Spells us)
    (hnext : Rules.standard.power (s.cursor.steps us.length).current.kind ≤ q) :
    (exprWithin N p s).1 = none := by
  -- Somewhere in the reading is a part that its levels do not reach; it brings the rest down.
  induction h generalizing N s with
  | identifier | integer =>
    obtain rfl : N = 0 := by omega
    rfl
  | @unary p t us e k n q ht h ih =>
    cases N with
    | zero => rfl
    | succ M =>
      have hcur : s.current = t := hs.1
      subst hcur
      have hstop := Rules.standard_power_le_unary (s.cursor.step.steps us.length).current.kind
      have hnone := ih (N := M) (s := (s.enter.note (.expression s.current.kind p)).step)
        (by omega) hs.2 (Nat.le_trans hstop h.power_le)
      exact exprWithin_of_no_operand ht (readUnary_none hnone)
  | @grouped p o us c e k n q ho hc h ih =>
    cases N with
    | zero => rfl
    | succ M =>
      have hcur : s.current = o := hs.1
      subst hcur
      obtain ⟨hus, hclose⟩ := Cursor.spells_append.1 hs.2
      have hstop : Rules.standard.power (s.cursor.step.steps us.length).current.kind ≤ .lowest := by
        rw [hclose.1, hc]
        decide
      have hnone := ih (N := M) (s := (s.enter.note (.expression s.current.kind p)).step)
        (by omega) hus (Nat.le_trans hstop h.power_le)
      exact exprWithin_of_no_operand ho (readGrouped_none hnone)
  | @binary p us op vs l r k n q j m q' hl hlt hle hr ihl ihr =>
    obtain ⟨hus, hop, hvs⟩ := Cursor.spells_append.1 hs
    have hleft : Rules.standard.power (s.cursor.steps us.length).current.kind ≤ q := by
      rw [hop]
      exact hle
    by_cases hn : N < n
    · exact ihl hn hus hleft
    · -- The left operand is read, so it is the fold that has too few levels.
      obtain ⟨t, ht, he⟩ := exprWithin_arrives hl (Nat.le_of_not_lt hn) hus hleft
      have hup : t.upcoming = op := by rw [upcoming_of_step_eq ht, hop]
      have hcur : t.enter.step.step.cursor = (s.cursor.steps us.length).step :=
        congrArg Cursor.step ht
      rw [he]
      cases hM : N - (k + 1) with
      | zero => exact foldWithin_full (by rw [hup]; exact hlt)
      | succ M =>
        rw [Cursor.steps_length_append_cons] at hnext
        have hnone := ihr (N := M) (s := t.enter.step.step) (by omega) (by rw [hcur]; exact hvs)
          (by rw [hcur]; exact Nat.le_trans hnext hr.power_le)
        rw [← hup] at hlt hnone
        exact foldWithin_of_none hlt hnone

/-! ## Nothing else is found -/

/-- Some reading on at most `N` levels leads from `c` to `d`, where nothing binds tighter. -/
def Reads (p : Power) (N : Nat) (e : Expr) (c d : Cursor σ) : Prop :=
  ∃ us k n q, Reading p us e k n q ∧ n ≤ N ∧ c.Spells us ∧ d = c.steps us.length ∧
    Rules.standard.power d.current.kind ≤ p

-- The operand alone: no operator is folded yet, so it may stand at any power.
theorem reading_of_readOperand {N : Nat}
    (hinner : ∀ p (s : Session σ) e t, exprWithin N p s = (some e, t) →
      Reads p N e s.cursor t.cursor.step)
    {p : Power} {rule : OperandRule} {s t : Session σ} {left : Expr}
    (hrule : Rules.standard.operand s.current.kind = some rule)
    (h : readOperand (exprWithin N) rule s = (some left, t)) :
    ∃ us n, Reading p us left 0 n .call ∧ n ≤ N + 1 ∧ s.cursor.Spells us ∧
      t.cursor.step = s.cursor.steps us.length := by
  cases rule with
  | identifier =>
    cases h
    exact ⟨[s.current], 1, .identifier hrule, by omega, ⟨rfl, trivial⟩, rfl⟩
  | integer =>
    simp only [readOperand, readInteger] at h
    split at h
    next value hv =>
      cases h
      exact ⟨[s.current], 1, .integer hrule hv, by omega, ⟨rfl, trivial⟩, rfl⟩
    next => cases h
  | unary =>
    simp only [readOperand, readUnary] at h
    split at h
    next e u he =>
      cases h
      obtain ⟨us, k, n, q, hr, hn, hus, hd, -⟩ := hinner _ _ _ _ he
      exact ⟨s.current :: us, n + 1, .unary hrule hr, by omega, ⟨rfl, hus⟩, hd⟩
    next => cases h
  | grouped =>
    simp only [readOperand, readGrouped] at h
    split at h
    next e u he =>
      obtain ⟨us, k, n, q, hr, hn, hus, hd, -⟩ := hinner _ _ _ _ he
      unfold expect at h
      by_cases hclose : u.upcoming.kind = .closeParen
      · rw [if_pos hclose] at h
        cases h
        have hup : u.upcoming = (s.cursor.step.steps us.length).current :=
          upcoming_of_step_eq hd
        refine ⟨s.current :: us ++ [u.upcoming], n + 1, .grouped hrule hclose hr, by omega,
          ⟨rfl, Cursor.spells_append.2 ⟨hus, hup.symm, trivial⟩⟩, ?_⟩
        rw [Cursor.steps_length_append_cons]
        exact congrArg Cursor.step hd
      · rw [if_neg hclose] at h
        cases h
    next => cases h

-- By induction on the levels.  The loop carries a reading of all that it has folded so far.
theorem reads_within (N : Nat) :
    (∀ p (s : Session σ) e t, exprWithin N p s = (some e, t) → Reads p N e s.cursor t.cursor.step) ∧
      ∀ p taken left (s : Session σ) e t c us k n q, Reading p us left k n q → n ≤ k + 1 + N →
        c.Spells us → s.cursor.step = c.steps us.length →
        Rules.standard.power s.upcoming.kind ≤ q →
        foldWithin N p taken left s = (some e, t) → Reads p (k + 1 + N) e c t.cursor.step := by
  induction N with
  | zero =>
    constructor
    · intro p s e t h
      cases h
    · intro p taken left s e t c us k n q hr hn hus hd hq h
      by_cases hlt : p < Rules.standard.power s.upcoming.kind
      · have hnone : (foldWithin 0 p taken left s).1 = none := foldWithin_full hlt
        rw [h] at hnone
        cases hnone
      · rw [foldWithin_stop hlt] at h
        cases h
        exact ⟨us, k, n, q, hr, hn, hus, hd, Nat.le_of_not_lt hlt⟩
  | succ N ih =>
    obtain ⟨hexpr, hfold⟩ := ih
    constructor
    · intro p s e t h
      rw [exprWithin_succ] at h
      split at h
      · cases h
      next rule hrule =>
        split at h
        next left u hu =>
          obtain ⟨us, n, hr, hn, hus, hd⟩ := reading_of_readOperand (p := p)
            (s := s.enter.note (.expression s.current.kind p)) hexpr hrule hu
          have hcall := Rules.standard_power_le_call u.upcoming.kind
          have hreads := hfold p 1 left u e t s.cursor us 0 n .call hr (by omega) hus hd hcall h
          rwa [Nat.zero_add, Nat.add_comm] at hreads
        next => cases h
    · intro p taken left s e t c us k n q hr hn hus hd hq h
      by_cases hlt : p < Rules.standard.power s.upcoming.kind
      · rw [foldWithin_succ hlt] at h
        split at h
        next folded u hu =>
          obtain ⟨right, hright, rfl⟩ := of_readBinary hu
          obtain ⟨vs, j, m, q', hv, hm, hvs, hu', hstop⟩ := hexpr _ _ _ _ hright
          have hcur : s.enter.step.step.cursor = (c.steps us.length).step :=
            congrArg Cursor.step hd
          have hop : s.upcoming = (c.steps us.length).current := upcoming_of_step_eq hd
          rw [hcur] at hvs hu'
          have hspell : c.Spells (us ++ s.upcoming :: vs) :=
            Cursor.spells_append.2 ⟨hus, hop.symm, hvs⟩
          have hlen : u.cursor.step = c.steps (us ++ s.upcoming :: vs).length := by
            rw [hu', Cursor.steps_length_append_cons]
          -- The fold makes one longer reading of the two, with which the loop goes on.
          have hreads := hfold p (taken + 1) _ u e t c _ (k + 1) _ _ (.binary hr hlt hq hv)
            (by omega) hspell hlen hstop h
          have hsum : k + 1 + 1 + N = k + 1 + (N + 1) := by omega
          rwa [hsum] at hreads
        next => cases h
      · rw [foldWithin_stop hlt] at h
        cases h
        exact ⟨us, k, n, q, hr, hn, hus, hd, Nat.le_of_not_lt hlt⟩

end Session

/-! ## The levels of a reading -/

namespace Reading

variable {p q q' : Power} {us : List Token} {e e' : Expr} {k k' n n' : Nat}

theorem levels_le (h : Reading p us e k n q) (h' : Reading p us e' k' n' q') : n' ≤ n := by
  refine Nat.le_of_not_lt fun hlt => ?_
  -- Where nothing follows, `n` levels would be enough for one reading and too few for the other.
  obtain ⟨hspells, hend⟩ := Session.shows_start_listed 0 us
  have hnext (b : Power) : Rules.standard.power
      ((Session.start 0 us).cursor.steps us.length).current.kind ≤ b := by
    rw [hend.current]
    exact Nat.zero_le _
  obtain ⟨t, -, hfound⟩ := Session.stops_of_arrives
    (Session.exprWithin_arrives h (Nat.le_refl n) hspells (hnext q)) (hnext p)
  have hnone := Session.exprWithin_falls_short h' hlt hspells (hnext q')
  rw [hfound] at hnone
  cases hnone

/-- However tokens are read as a whole, it takes the same levels. -/
theorem levels_eq (h : Reading p us e k n q) (h' : Reading p us e' k' n' q') : n = n' :=
  Nat.le_antisymm (h'.levels_le h) (h.levels_le h')

end Reading

end Precedence
