import Precedence.Supply

/-!
# Sessions

What is known while a token supply is being read: the token in hand and the one after it, the
diagnostics so far, how deep the expression in hand is nested, and the log.
-/

namespace Precedence

variable {σ : Type}

/-! ## The cursor -/

/-- Two tokens of a supply, and how many were drawn from it. -/
structure Cursor (σ : Type) where
  supply : σ
  current : Token
  upcoming : Token
  pulls : Nat

namespace Cursor

/-- Before anything is drawn, end markers stand in for the two tokens. -/
def start (supply : σ) : Cursor σ := ⟨supply, .eof, .eof, 0⟩

def step [Supply σ] (c : Cursor σ) : Cursor σ :=
  let r := Supply.next c.supply
  ⟨r.2, c.upcoming, r.1, c.pulls + 1⟩

def steps [Supply σ] : Nat → Cursor σ → Cursor σ
  | 0, c => c
  | n + 1, c => c.step.steps n

theorem steps_add [Supply σ] (m n : Nat) (c : Cursor σ) :
    c.steps (m + n) = (c.steps m).steps n := by
  induction m generalizing c with
  | zero => rw [Nat.zero_add]; rfl
  | succ m ih => rw [Nat.succ_add]; exact ih c.step

/-- Only an end marker does not count. -/
def weight (t : Token) : Nat := if t.kind = .eof then 0 else 1

theorem weight_of_ne {t : Token} (h : t.kind ≠ .eof) : weight t = 1 := if_neg h

/-- How many tokens other than end markers can still come into hand. -/
def ahead [FiniteSupply σ] (c : Cursor σ) : Nat :=
  FiniteSupply.size c.supply + weight c.upcoming + weight c.current

theorem ahead_step_le [FiniteSupply σ] (c : Cursor σ) :
    c.step.ahead + weight c.current ≤ c.ahead := by
  have hle := FiniteSupply.size_next_le c.supply
  have hlt := FiniteSupply.size_next_lt c.supply
  have hnew : FiniteSupply.size (Supply.next c.supply).2 +
      weight (Supply.next c.supply).1 ≤ FiniteSupply.size c.supply := by
    unfold weight
    split
    · omega
    next h => have := hlt h; omega
  simp only [ahead, step]
  omega

theorem ahead_steps_le [FiniteSupply σ] (n : Nat) (c : Cursor σ) :
    (c.steps n).ahead ≤ c.ahead := by
  induction n generalizing c with
  | zero => exact Nat.le_refl _
  | succ n ih => exact Nat.le_trans (ih c.step) (by have := c.ahead_step_le; omega)

/-- A step away from a token uses it up. -/
theorem ahead_steps_lt [FiniteSupply σ] (n : Nat) (c : Cursor σ) (h : c.current.kind ≠ .eof) :
    (c.steps (n + 1)).ahead < c.ahead := by
  have h1 := c.ahead_step_le
  have h2 := c.step.ahead_steps_le n
  rw [weight_of_ne h] at h1
  exact Nat.lt_of_le_of_lt h2 (by omega)

end Cursor

/-! ## The nesting gauge -/

/-- The depth, with the least and the greatest it has been. -/
structure Nesting where
  depth : Int
  lowest : Int
  highest : Int
  deriving DecidableEq, Repr

namespace Nesting

def zero : Nesting := ⟨0, 0, 0⟩

def enter (n : Nesting) : Nesting := ⟨n.depth + 1, n.lowest, max n.highest (n.depth + 1)⟩

def exit (levels : Nat) (n : Nesting) : Nesting :=
  ⟨n.depth - levels, min n.lowest (n.depth - levels), n.highest⟩

end Nesting

/-! ## Sessions -/

/-- The lists have the newest entry first, so that each new one is added in one step. -/
structure Session (σ : Type) where
  cursor : Cursor σ
  diagnosed : List Diagnostic
  /-- How many levels an expression may be nested. -/
  limit : Nat
  nesting : Nesting
  events : List Event

namespace Session

def current (s : Session σ) : Token := s.cursor.current

def upcoming (s : Session σ) : Token := s.cursor.upcoming

/-- In the order in which they were diagnosed. -/
def diagnostics (s : Session σ) : List Diagnostic := s.diagnosed.reverse

/-- In the order in which the events happened. -/
def log (s : Session σ) : List Event := s.events.reverse

/-- The levels that the limit leaves. -/
def levels (s : Session σ) : Nat := (s.limit - s.nesting.depth).toNat

def note (e : Event) (s : Session σ) : Session σ := { s with events := e :: s.events }

def diagnose (d : Diagnostic) (s : Session σ) : Session σ :=
  { s with diagnosed := d :: s.diagnosed, events := .diagnostic d :: s.events }

def enter (s : Session σ) : Session σ := { s with nesting := s.nesting.enter }

def exit (levels : Nat) (s : Session σ) : Session σ :=
  { s with nesting := s.nesting.exit levels }

/-- What the supply has to say about the new token comes before the step itself. -/
def step [Supply σ] (s : Session σ) : Session σ :=
  let c := s.cursor.step
  let told := (Supply.announce σ c.upcoming).toList
  { s with cursor := c, events := .step c.current :: told ++ s.events }

/-- Steps onto the token ahead if it is of the kind expected; if not, stays and says so. -/
def expect [Supply σ] (kind : Kind) (s : Session σ) : Bool × Session σ :=
  if s.upcoming.kind = kind then (true, s.step)
  else (false, s.diagnose (.unexpected kind s.upcoming.kind))

/-- A semicolon that may be missing. -/
def skipSemicolon [Supply σ] (s : Session σ) : Session σ :=
  if s.upcoming.kind = .semicolon then s.step else s

/-- A session at the first token of a supply. -/
def start [Supply σ] (limit : Nat) (supply : σ) : Session σ :=
  let fresh : Session σ := ⟨.start supply, [], limit, .zero, []⟩
  fresh.step.step

/-! ## What each operation changes -/

@[simp] theorem diagnostics_diagnose (d : Diagnostic) (s : Session σ) :
    (s.diagnose d).diagnostics = s.diagnostics ++ [d] :=
  List.reverse_cons

theorem current_step [Supply σ] (s : Session σ) : s.step.current = s.upcoming := rfl

/-- The two steps at the start leave no trace but the log. -/
theorem cursor_start [Supply σ] (limit : Nat) (supply : σ) :
    (start limit supply).cursor = (Cursor.start supply).steps 2 := rfl

end Session

/-- The limit where none is given. -/
def defaultLimit : Nat := 256

end Precedence
