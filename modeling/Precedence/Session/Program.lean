import Precedence.Scanner
import Precedence.Session.Progress

/-!
# Reading whole programs

Statement after statement, up to the end marker.  After each statement, read or given up, the cursor
takes one step, so that every round uses up a token.
-/

namespace Precedence

namespace Session

variable {σ : Type} [FiniteSupply σ]

theorem Reaches.ahead_le {s t : Session σ} (h : Reaches s t) :
    t.cursor.ahead ≤ s.cursor.ahead := by
  obtain ⟨n, hn⟩ := h
  rw [hn]
  exact s.cursor.ahead_steps_le n

theorem Reaches.ahead_step_lt {s t : Session σ} (h : Reaches s t) (hcur : s.current.kind ≠ .eof) :
    t.cursor.step.ahead < s.cursor.ahead := by
  obtain ⟨n, hn⟩ := h
  have hstep : t.cursor.step = s.cursor.steps (n + 1) := by
    rw [Cursor.steps_add, ← hn]
    rfl
  rw [hstep]
  exact Cursor.ahead_steps_lt n s.cursor hcur

/-- One round: a statement and the step behind it. -/
def round (s : Session σ) : Option Stmt × Session σ :=
  let r := s.stmt
  (r.1, r.2.step)

theorem ahead_round_lt (s : Session σ) (h : s.current.kind ≠ .eof) :
    s.round.2.cursor.ahead < s.cursor.ahead :=
  (reaches_stmt s).ahead_step_lt h

/-- The rounds up to the end marker; `kept` holds the statements so far, the newest first. -/
def roundsFrom (kept : List Stmt) (s : Session σ) : List Stmt × Session σ :=
  if _ : s.current.kind = .eof then (kept.reverse, s)
  else roundsFrom (s.round.1.toList ++ kept) s.round.2
termination_by s.cursor.ahead
decreasing_by exact ahead_round_lt s ‹_›

/-- Earlier diagnostics are forgotten. -/
def program (s : Session σ) : Program × Session σ :=
  let r := roundsFrom [] { s with diagnosed := [] }
  (⟨r.1⟩, r.2.note (.program r.1.length r.2.diagnosed.length))

end Session

/-! ## From a supply to a program -/

/-- The program that a supply spells out, with the session that has read it. -/
def parse {σ : Type} [FiniteSupply σ] (limit : Nat) (supply : σ) : Program × Session σ :=
  (Session.start limit supply).program

def parseText (text : String) : Program × List Diagnostic :=
  let r := parse defaultLimit (Scanner.ofString text)
  (r.1, r.2.diagnostics)

end Precedence
