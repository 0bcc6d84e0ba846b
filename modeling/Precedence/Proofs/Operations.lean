import Precedence.Proofs.Lookahead
import Precedence.Proofs.Moves
import Precedence.Proofs.Run

/-!
# Operations on a session

Everything that can be asked of a session, in any order and on whatever token is in hand.  Main
result: between two operations all levels are handed back, within them the depth never leaves its
bounds, and the two tokens in view are always the last two that were drawn.
-/

namespace Precedence

inductive Operation where
  | step
  | expect (kind : Kind)
  | diagnose (d : Diagnostic)
  | program
  | stmt
  | statement (rule : StatementRule)
  | expressionAlone
  | expr (power : Power)
  | operand (rule : OperandRule)
  | operator (rule : OperatorRule) (left : Expr)

namespace Session

variable {σ : Type}

/-- A program that is being read proceeds from `s` to `t`, keeping the statements `kept`.  There may
be no end to it: nothing is asked of the supply. -/
inductive Proceeds [Supply σ] : Session σ → List Stmt → Session σ → Prop
  | nil {s} : Proceeds s [] s
  | round {s t kept} (hcur : s.current.kind ≠ .eof) (hrest : Proceeds s.stmt.2.step kept t) :
      Proceeds s (s.stmt.1.toList ++ kept) t

/-- A program forgets the earlier diagnostics before it starts. -/
def cleared (s : Session σ) : Session σ := { s with diagnosed := [] }

end Session

open Session

/-- What an operation makes of the session `s`; a program makes something of it only if it comes to
an end. -/
def Operation.Leads {σ : Type} [Supply σ] (s t : Session σ) : Operation → Prop
  | .step => t = s.step
  | .expect kind => t = (s.expect kind).2
  | .diagnose d => t = s.diagnose d
  | .program => ∃ kept u, Proceeds s.cleared kept u ∧ u.current.kind = .eof ∧
      t = u.note (.program kept.length u.diagnosed.length)
  | .stmt => t = s.stmt.2
  | .statement rule => t = (s.statement rule).2
  | .expressionAlone => t = s.expressionAlone.2
  | .expr power => t = (s.expr power).2
  | .operand rule => t = (s.operand rule).2
  | .operator rule left => t = (s.operator rule left).2

namespace Session

/-! ## Programs that come to an end -/

section Finite

variable {σ : Type} [FiniteSupply σ] {s t : Session σ} {kept : List Stmt}

theorem Proceeds.roundsFrom_eq (h : Proceeds s kept t) (ht : t.current.kind = .eof)
    (before : List Stmt) : roundsFrom before s = (before.reverse ++ kept, t) := by
  induction h generalizing before with
  | nil => rw [roundsFrom_of_eof ht, List.append_nil]
  | @round s t kept hcur hrest ih =>
    rw [roundsFrom_of_ne hcur, Session.round, ih ht]
    cases s.stmt.1 <;> simp

theorem exists_proceeds (s : Session σ) : ∃ kept t, Proceeds s kept t ∧ t.current.kind = .eof := by
  by_cases hcur : s.current.kind = .eof
  · exact ⟨[], s, .nil, hcur⟩
  · have hlt := ahead_round_lt s hcur
    obtain ⟨kept, t, hrest, ht⟩ := exists_proceeds s.stmt.2.step
    exact ⟨_, t, .round hcur hrest, ht⟩
termination_by s.cursor.ahead
decreasing_by exact hlt

/-- On a finite supply a program always comes to its end, and to the same one. -/
theorem leads_program_iff : Operation.program.Leads s t ↔ t = s.program.2 := by
  have hprogram {kept : List Stmt} {u : Session σ} (h : Proceeds s.cleared kept u)
      (hu : u.current.kind = .eof) :
      s.program.2 = u.note (.program kept.length u.diagnosed.length) := by
    have hrounds : roundsFrom [] { s with diagnosed := [] } = (kept, u) := h.roundsFrom_eq hu []
    rw [program, hrounds]
  constructor
  · rintro ⟨kept, u, h, hu, rfl⟩
    exact (hprogram h hu).symm
  · rintro rfl
    obtain ⟨kept, u, h, hu⟩ := exists_proceeds s.cleared
    exact ⟨kept, u, h, hu, hprogram h hu⟩

end Finite

/-! ## What is kept up -/

variable {σ : Type} [Supply σ] {limit : Nat} {supply : σ} {s t : Session σ}

/-- Sessions that a fresh one on `supply` comes to by operations. -/
inductive Reached (limit : Nat) (supply : σ) : Session σ → Prop
  | start : Reached limit supply (start limit supply)
  | operation {s t : Session σ} (op : Operation) (hs : Reached limit supply s) (h : op.Leads s t) :
      Reached limit supply t

structure Sound (limit : Nat) (supply : σ) (s : Session σ) : Prop extends InBounds s where
  limit_eq : s.limit = limit
  depth_eq : s.nesting.depth = 0
  drawn : ∃ n, s.cursor = (Cursor.start supply).steps (n + 2)

namespace Sound

theorem start (limit : Nat) (supply : σ) : Sound limit supply (Session.start limit supply) where
  toInBounds := inBounds_start limit supply
  limit_eq := rfl
  depth_eq := rfl
  drawn := ⟨0, rfl⟩

theorem of_reaches (hs : Sound limit supply s) (hbounds : InBounds t) (hreaches : Reaches s t)
    (hbooks : t.ledger.2 = s.ledger.2) : Sound limit supply t := by
  obtain ⟨hlimit, hdepth⟩ := Prod.mk.inj hbooks
  obtain ⟨n, hn⟩ := hs.drawn
  obtain ⟨k, hk⟩ := hreaches
  refine { hbounds with
    limit_eq := hlimit.trans hs.limit_eq, depth_eq := hdepth.trans hs.depth_eq, drawn := ?_ }
  exact ⟨n + k, by rw [hk, hn, ← Cursor.steps_add, Nat.add_right_comm]⟩

theorem of_trail (hs : Sound limit supply s) (h : Trail s t) (hbooks : t.ledger.2 = s.ledger.2) :
    Sound limit supply t :=
  hs.of_reaches (h.inBounds hs.toInBounds) h.reaches hbooks

/-- One round of a program. -/
theorem round (hs : Sound limit supply s) : Sound limit supply s.stmt.2.step :=
  hs.of_trail ((trail_stmt hs.toInBounds).tail (.step _)) s.settles_stmt.ledger_snd

theorem proceeds {kept : List Stmt} (hs : Sound limit supply s) (h : Proceeds s kept t) :
    Sound limit supply t := by
  induction h with
  | nil => exact hs
  | round hcur hrest ih => exact ih hs.round

theorem cleared (hs : Sound limit supply s) : Sound limit supply s.cleared :=
  { hs with }

end Sound

/-- Apart from programs, operations keep all that was diagnosed before. -/
theorem sound_of_leads {op : Operation} (hop : op ≠ .program) (hs : Sound limit supply s)
    (h : op.Leads s t) : Sound limit supply t ∧ s.diagnosed <:+ t.diagnosed := by
  have hbounds := hs.toInBounds
  have hgoes {t : Session σ} (htrail : Trail s t) (hbooks : t.ledger.2 = s.ledger.2) :
      Sound limit supply t ∧ s.diagnosed <:+ t.diagnosed :=
    ⟨hs.of_trail htrail hbooks, htrail.diagnosed_suffix⟩
  cases op with
  | step =>
    cases h
    exact hgoes (.single (.step s)) rfl
  | expect kind =>
    cases h
    refine hgoes (trail_expect kind s) ?_
    unfold expect
    split <;> rfl
  | diagnose d =>
    -- Any cause may be recorded from outside, even one that no move would give.
    cases h
    exact ⟨{ hs with }, List.suffix_cons d s.diagnosed⟩
  | program => exact absurd rfl hop
  | stmt =>
    cases h
    exact hgoes (trail_stmt hbounds) s.settles_stmt.ledger_snd
  | statement rule =>
    cases h
    exact hgoes (trail_statement rule hbounds) (settles_statement rule s).ledger_snd
  | expressionAlone =>
    cases h
    exact hgoes (trail_expressionAlone hbounds) (settles_expressionAlone s).ledger_snd
  | expr power =>
    cases h
    exact hgoes (trail_expr power hbounds) (settles_expr power s).ledger_snd
  | operand rule =>
    cases h
    exact hgoes (trail_operand rule hbounds)
      (settles_readOperand (settles_within s.levels).1 rule s).ledger_snd
  | operator rule left =>
    cases h
    exact hgoes (trail_operator rule left hbounds)
      (settles_readOperator (settles_within s.levels).1 rule left s).ledger_snd

theorem Reached.sound (h : Reached limit supply s) : Sound limit supply s := by
  induction h with
  | start => exact .start limit supply
  | operation op hs h ih =>
    by_cases hop : op = .program
    · subst hop
      obtain ⟨kept, u, hproceeds, -, rfl⟩ := h
      exact { ih.cleared.proceeds hproceeds with }
    · exact (sound_of_leads hop ih h).1

end Session

/-! ## The tokens in view -/

/-- The two tokens in view are the last two that were drawn. -/
theorem Cursor.take_eq {σ : Type} [Supply σ] (n : Nat) (c : Cursor σ) :
    Supply.take (n + 2) c.supply =
      Supply.take n c.supply ++ [(c.steps (n + 2)).current, (c.steps (n + 2)).upcoming] := by
  induction n generalizing c with
  | zero => rfl
  | succ n ih => exact congrArg ((Supply.next c.supply).1 :: ·) (ih c.step)

namespace Session

variable {σ : Type} [Supply σ] {limit : Nat} {supply : σ} {s t : Session σ}

theorem Sound.take_eq (h : Sound limit supply s) :
    ∃ n, s.cursor.pulls = n + 2 ∧
      Supply.take (n + 2) supply = Supply.take n supply ++ [s.current, s.upcoming] := by
  obtain ⟨n, hn⟩ := h.drawn
  refine ⟨n, ?_, ?_⟩
  · rw [hn, Cursor.pulls_steps]
    exact Nat.zero_add (n + 2)
  · rw [current, upcoming, hn]
    exact Cursor.take_eq n (Cursor.start supply)

/-- Whatever is asked of a session, and in whatever order: between two operations the depth is zero,
in them it is never below zero or above the limit, in a program without an end no more than in any
other; what is in view are the last two of the tokens drawn; and only a program forgets what was
diagnosed. -/
theorem reached_in_bounds (h : Reached limit supply s) :
    s.nesting.depth = 0 ∧ 0 ≤ s.nesting.lowest ∧ s.nesting.highest ≤ limit ∧
    (∃ n, s.cursor.pulls = n + 2 ∧
      Supply.take (n + 2) supply = Supply.take n supply ++ [s.current, s.upcoming]) ∧
    (∀ kept t, Proceeds s.cleared kept t →
      t.nesting.depth = 0 ∧ 0 ≤ t.nesting.lowest ∧ t.nesting.highest ≤ limit) ∧
    ∀ (op : Operation) (t : Session σ), op ≠ .program → op.Leads s t →
      s.diagnostics <+: t.diagnostics := by
  have hs := h.sound
  have hhigh {t : Session σ} (ht : Sound limit supply t) : t.nesting.highest ≤ limit := by
    rw [← ht.limit_eq]
    exact ht.highest_le
  refine ⟨hs.depth_eq, hs.lowest_nonneg, hhigh hs, hs.take_eq, ?_, ?_⟩
  · intro kept t hproceeds
    have ht := hs.cleared.proceeds hproceeds
    exact ⟨ht.depth_eq, ht.lowest_nonneg, hhigh ht⟩
  · intro op t hop hleads
    exact List.reverse_prefix.2 (sound_of_leads hop hs hleads).2

/-- A parenthesis is looked for where there is none, and then a program is read on two levels. -/
theorem reached_in_bounds_out_of_place :
    let a : Token := ⟨.identifier, "a"⟩
    let ts : List Token := [a, ⟨.minus, "-"⟩, a, ⟨.semicolon, ";"⟩]
    let s := ((start 2 ts).operand .grouped).2.program.2
    Reached 2 ts s ∧ s.nesting.depth = 0 ∧ 0 ≤ s.nesting.lowest ∧ s.nesting.highest ≤ 2 ∧
      s.cursor.pulls = 6 ∧ Supply.take 6 ts = Supply.take 4 ts ++ [s.current, s.upcoming] := by
  intro a ts s
  have hs : Reached 2 ts s := by
    refine .operation .program (.operation (.operand .grouped) .start rfl) ?_
    exact leads_program_iff.2 rfl
  obtain ⟨hdepth, hlow, hhigh, ⟨n, hn, htake⟩, -, -⟩ := reached_in_bounds hs
  have hsix : s.cursor.pulls = 6 := by decide +kernel
  obtain rfl : n = 4 := by omega
  exact ⟨hs, hdepth, hlow, hhigh, hsix, htake⟩

end Session

end Precedence
