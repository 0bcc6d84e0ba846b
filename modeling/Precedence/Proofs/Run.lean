import Precedence.Proofs.Rounds

/-!
# Runs

A run is a row of rounds together with what each of them has given.  Main result: every round that
gives no statement with an expression in it is diagnosed once, and nothing else is.
-/

namespace Precedence

variable {σ : Type}

/-- What a round has given is complete if it is a statement with its expression. -/
def complete (o : Option Stmt) : Bool := (o.bind Stmt.value?).isSome

namespace Session

/-- Rounds lead from `s` to `t`, and `os` is what they have given one by one. -/
inductive Runs [FiniteSupply σ] : Session σ → List (Option Stmt) → Session σ → Prop
  | nil {s} : Runs s [] s
  | cons {s t os} (hcur : s.current.kind ≠ .eof) (hrest : Runs s.round.2 os t) :
      Runs s (s.round.1 :: os) t

variable [FiniteSupply σ] {s t u : Session σ} {os ps : List (Option Stmt)}

/-! ## Runs and the loop -/

namespace Runs

theorem append (h : Runs s os t) (h' : Runs t ps u) : Runs s (os ++ ps) u := by
  induction h with
  | nil => exact h'
  | cons hcur hrest ih => exact .cons hcur (ih h')

theorem roundsFrom_eq (h : Runs s os t) (kept : List Stmt) :
    roundsFrom kept s = roundsFrom ((os.filterMap id).reverse ++ kept) t := by
  induction h generalizing kept with
  | nil => rfl
  | @cons s t os hcur hrest ih =>
    rw [roundsFrom_of_ne hcur, ih]
    cases s.round.1 with
    | none => rfl
    | some st => simp

theorem roundsFrom_of_eof (h : Runs s os t) (ht : t.current.kind = .eof) :
    roundsFrom [] s = (os.filterMap id, t) := by
  rw [h.roundsFrom_eq, Session.roundsFrom_of_eof ht, List.append_nil, List.reverse_reverse]

end Runs

theorem exists_runs (s : Session σ) : ∃ os t, Runs s os t ∧ t.current.kind = .eof := by
  by_cases hcur : s.current.kind = .eof
  · exact ⟨[], s, .nil, hcur⟩
  · have hlt := ahead_round_lt s hcur
    obtain ⟨os, t, hruns, ht⟩ := exists_runs s.round.2
    exact ⟨_, t, .cons hcur hruns, ht⟩
termination_by s.cursor.ahead

/-! ## What a run leaves behind -/

theorem reaches_round (s : Session σ) : Reaches s s.round.2 :=
  (reaches_stmt s).trans (.of_step (.refl _))

namespace Runs

theorem reaches (h : Runs s os t) : Reaches s t := by
  induction h with
  | nil => exact .refl _
  | cons _ _ ih => exact (reaches_round _).trans ih

/-- Between two rounds the depth is what it was. -/
theorem ledger_snd (h : Runs s os t) : t.ledger.2 = s.ledger.2 := by
  induction h with
  | nil => rfl
  | @cons s t os hcur hrest ih => exact ih.trans s.settles_round.ledger_snd

theorem diagnosed_suffix (h : Runs s os t) : s.diagnosed <:+ t.diagnosed := by
  induction h with
  | nil => exact List.suffix_refl _
  | @cons s t os hcur hrest ih => exact s.settles_round.diagnosed_suffix.trans ih

/-- Every round that is not complete has left one diagnostic. -/
theorem length_diagnosed (h : Runs s os t) :
    t.diagnosed.length = s.diagnosed.length + os.countP fun o => !complete o := by
  induction h with
  | nil => simp
  | @cons s t os hcur hrest ih =>
    have hsettles := s.settles_round
    rw [ih, List.countP_cons, complete]
    cases hvalue : s.round.1.bind Stmt.value? with
    | none =>
      rw [hvalue] at hsettles
      obtain ⟨d, hcons⟩ := hsettles.diagnosed_none
      rw [hcons, List.length_cons]
      simp only [Option.isSome_none, Bool.not_false, if_true]
      omega
    | some e =>
      rw [hvalue] at hsettles
      rw [diagnosed_of_ledger hsettles.ledger_eq]
      rfl

/-- Every round has used up a token that is no end marker. -/
theorem length_le (h : Runs s os t) : os.length + t.cursor.ahead ≤ s.cursor.ahead := by
  induction h with
  | nil => simp
  | @cons s t os hcur hrest ih =>
    have hlt := ahead_round_lt s hcur
    rw [List.length_cons]
    omega

end Runs

end Session

open Session

/-! ## Programs -/

/-- What a run up to the end marker says about the program and the session that has read it. -/
theorem parse_of_runs {σ : Type} [FiniteSupply σ] {limit : Nat} {supply : σ}
    {os : List (Option Stmt)} {t : Session σ} (h : Runs (start limit supply) os t)
    (ht : t.current.kind = .eof) :
    (parse limit supply).1 = ⟨os.filterMap id⟩ ∧
      (parse limit supply).2.diagnostics = t.diagnostics ∧
      (parse limit supply).2.cursor = t.cursor := by
  have hrounds : roundsFrom [] { start limit supply with diagnosed := [] } =
      (os.filterMap id, t) := h.roundsFrom_of_eof ht
  rw [parse, program, hrounds]
  exact ⟨rfl, rfl, rfl⟩

theorem Cursor.ahead_start_le [FiniteSupply σ] (n : Nat) (supply : σ) :
    ((Cursor.start supply).steps n).ahead ≤ FiniteSupply.size supply :=
  (Cursor.start supply).ahead_steps_le n

/-- A reading that succeeds leaves no diagnostic and one that fails leaves exactly one, from any
session on; so the diagnostics of a program count the rounds that went wrong, and neither they nor
the statements can outnumber the tokens. -/
theorem diagnoses_each_failure_once {σ : Type} [Supply σ] (s : Session σ) (p : Power)
    (limit : Nat) (ts : List Token) :
    (((s.expr p).1.isSome ↔ (s.expr p).2.diagnostics = s.diagnostics) ∧
      ((s.expr p).1 = none ↔ ∃ d, (s.expr p).2.diagnostics = s.diagnostics ++ [d])) ∧
    ((∃ st e, s.stmt.1 = some st ∧ st.value? = some e ∧ s.stmt.2.diagnostics = s.diagnostics) ∨
      (s.stmt.1 = none ∨ ∃ st, s.stmt.1 = some st ∧ st.value? = none) ∧
        ∃ d, s.stmt.2.diagnostics = s.diagnostics ++ [d]) ∧
    ∃ os t, Runs (start limit ts) os t ∧ t.current.kind = .eof ∧
      (parse limit ts).1.statements = os.filterMap id ∧
      (parse limit ts).2.diagnostics.length = os.countP (fun o => !complete o) ∧
      ((parse limit ts).2.diagnostics = [] ↔ ∀ o ∈ os, complete o) ∧
      (parse limit ts).2.diagnostics.length ≤ ts.length ∧
      (parse limit ts).1.statements.length ≤ ts.length := by
  refine ⟨⟨(s.settles_expr p).isSome_iff, (s.settles_expr p).eq_none_iff⟩, ?_, ?_⟩
  · have hsettles := s.settles_stmt
    cases hvalue : s.stmt.1.bind Stmt.value? with
    | some e =>
      obtain ⟨st, hst, he⟩ := Option.bind_eq_some_iff.1 hvalue
      exact .inl ⟨st, e, hst, he, hsettles.isSome_iff.1 (by rw [hvalue]; rfl)⟩
    | none =>
      refine .inr ⟨?_, hsettles.eq_none_iff.1 hvalue⟩
      cases hst : s.stmt.1 with
      | none => exact .inl rfl
      | some st =>
        rw [hst] at hvalue
        exact .inr ⟨st, rfl, hvalue⟩
  · obtain ⟨os, t, hruns, ht⟩ := exists_runs (start limit ts)
    obtain ⟨hprogram, hdiagnostics, -⟩ := parse_of_runs hruns ht
    have hcount : t.diagnostics.length = os.countP fun o => !complete o := by
      rw [Session.diagnostics, List.length_reverse, hruns.length_diagnosed]
      exact Nat.zero_add _
    have hrounds : os.length ≤ ts.length :=
      Nat.le_trans (Nat.le_of_add_right_le hruns.length_le) (Cursor.ahead_start_le 2 ts)
    rw [hprogram, hdiagnostics]
    refine ⟨os, t, hruns, ht, rfl, hcount, ?_, ?_, ?_⟩
    · rw [← List.length_eq_zero_iff, hcount, List.countP_eq_zero]
      simp
    · rw [hcount]
      exact Nat.le_trans List.countP_le_length hrounds
    · exact Nat.le_trans (List.length_filterMap_le id os) hrounds

end Precedence
