import Precedence.Session

/-!
# What lies ahead

A cursor shows two tokens, but the supply behind it settles all that follow.  `Spells` says which
tokens come next, the one in hand first, and `Shows` that nothing but end markers follows them.
-/

namespace Precedence

namespace Cursor

variable {σ : Type} [Supply σ]

/-! ## The tokens that come next -/

def Spells : Cursor σ → List Token → Prop
  | _, [] => True
  | c, t :: ts => c.current = t ∧ c.step.Spells ts

/-- Only end markers are left, the one in hand among them. -/
def Ended (c : Cursor σ) : Prop := ∀ n, (c.steps n).current = .eof

def Shows (c : Cursor σ) (ts : List Token) : Prop := c.Spells ts ∧ (c.steps ts.length).Ended

@[simp] theorem spells_nil (c : Cursor σ) : c.Spells [] := trivial

@[simp] theorem spells_cons {c : Cursor σ} {t : Token} {ts : List Token} :
    c.Spells (t :: ts) ↔ c.current = t ∧ c.step.Spells ts := Iff.rfl

@[simp] theorem steps_zero (c : Cursor σ) : c.steps 0 = c := rfl

@[simp] theorem pulls_steps (n : Nat) (c : Cursor σ) : (c.steps n).pulls = c.pulls + n := by
  induction n generalizing c with
  | zero => rfl
  | succ n ih =>
    rw [steps, ih, show c.step.pulls = c.pulls + 1 from rfl]
    omega

/-- No cursor comes by the same place twice. -/
theorem steps_injective (c : Cursor σ) {m n : Nat} (h : c.steps m = c.steps n) : m = n := by
  have hpulls := congrArg Cursor.pulls h
  rw [pulls_steps, pulls_steps] at hpulls
  omega

theorem steps_succ (c : Cursor σ) (n : Nat) : c.steps (n + 1) = (c.steps n).step :=
  c.steps_add n 1

theorem spells_append {c : Cursor σ} {us vs : List Token} :
    c.Spells (us ++ vs) ↔ c.Spells us ∧ (c.steps us.length).Spells vs := by
  induction us generalizing c with
  | nil => simp
  | cons t us ih => rw [List.cons_append, spells_cons, ih, spells_cons, and_assoc]; rfl

/-- Past a row of tokens, one more token and another row. -/
theorem steps_length_append_cons (c : Cursor σ) (us vs : List Token) (t : Token) :
    c.steps (us ++ t :: vs).length = (c.steps us.length).step.steps vs.length := by
  rw [List.length_append, steps_add]
  rfl

/-! ## Everything that comes -/

theorem shows_nil {c : Cursor σ} : c.Shows [] ↔ c.Ended := by simp [Shows]

theorem shows_cons {c : Cursor σ} {t : Token} {ts : List Token} :
    c.Shows (t :: ts) ↔ c.current = t ∧ c.step.Shows ts := by
  rw [Shows, spells_cons, and_assoc]; rfl

theorem shows_append {c : Cursor σ} {us vs : List Token} :
    c.Shows (us ++ vs) ↔ c.Spells us ∧ (c.steps us.length).Shows vs := by
  rw [Shows, spells_append, and_assoc, List.length_append, steps_add]; rfl

theorem Ended.current {c : Cursor σ} (h : c.Ended) : c.current = .eof := h 0

theorem Ended.step {c : Cursor σ} (h : c.Ended) : c.step.Ended := fun n => h (n + 1)

theorem ended_iff {c : Cursor σ} : c.Ended ↔ c.current = .eof ∧ c.step.Ended := by
  refine ⟨fun h => ⟨h.current, h.step⟩, fun ⟨hcur, hrest⟩ n => ?_⟩
  cases n with
  | zero => exact hcur
  | succ n => exact hrest n

/-- An end marker at the end is followed by more of them anyway. -/
theorem shows_append_eof {c : Cursor σ} {ts : List Token} :
    c.Shows (ts ++ [Token.eof]) ↔ c.Shows ts := by
  have hend {d : Cursor σ} : d.Shows [Token.eof] ↔ d.Ended := by
    rw [shows_cons, shows_nil, ← ended_iff]
  rw [shows_append, hend]
  rfl

theorem Ended.steps {c : Cursor σ} (h : c.Ended) (n : Nat) : (c.steps n).Ended := by
  intro m
  rw [← steps_add]
  exact h (n + m)

theorem Shows.steps {c : Cursor σ} {ts : List Token} (h : c.Shows ts) (n : Nat) :
    (c.steps n).Shows (ts.drop n) := by
  induction ts generalizing c n with
  | nil =>
    rw [List.drop_nil, shows_nil]
    exact (shows_nil.1 h).steps n
  | cons t ts ih =>
    cases n with
    | zero => exact h
    | succ n => exact ih (shows_cons.1 h).2 n

/-- Tokens that come next and are no end markers stand at the head of all that come. -/
theorem Spells.of_shows {c : Cursor σ} {us ts : List Token} (hus : c.Spells us) (hts : c.Shows ts)
    (heof : ∀ t ∈ us, t.kind ≠ .eof) :
    ∃ vs, ts = us ++ vs ∧ (c.steps us.length).Shows vs := by
  induction us generalizing c ts with
  | nil => exact ⟨ts, rfl, hts⟩
  | cons u us ih =>
    obtain ⟨hu, hus⟩ := spells_cons.1 hus
    cases ts with
    | nil =>
      -- Then the first of `us` would be an end marker.
      have hend := (shows_nil.1 hts).current
      rw [hu] at hend
      exact absurd (congrArg Token.kind hend) (heof u List.mem_cons_self)
    | cons t ts =>
      obtain ⟨ht, hts⟩ := shows_cons.1 hts
      obtain ⟨vs, hvs, hrest⟩ := ih hus hts fun t ht => heof t (List.mem_cons_of_mem u ht)
      exact ⟨vs, by rw [hvs, ← ht, hu]; rfl, hrest⟩

theorem Spells.current_mem {c : Cursor σ} {ts : List Token} (h : c.Spells ts) {m : Nat}
    (hm : m < ts.length) : (c.steps m).current ∈ ts := by
  induction ts generalizing c m with
  | nil => exact absurd hm (Nat.not_lt_zero m)
  | cons t ts ih =>
    obtain ⟨hcur, hrest⟩ := spells_cons.1 h
    cases m with
    | zero => exact hcur ▸ List.mem_cons_self
    | succ m => exact List.mem_cons_of_mem t (ih hrest (Nat.lt_of_succ_lt_succ hm))

/-- Where no token is an end marker, the first one to come is behind them all. -/
theorem Shows.length_le_of_eof {c : Cursor σ} {ts : List Token} (h : c.Shows ts)
    (heof : ∀ t ∈ ts, t.kind ≠ .eof) {m : Nat} (hm : (c.steps m).current.kind = .eof) :
    ts.length ≤ m := by
  refine Nat.le_of_not_lt fun hlt => ?_
  exact heof _ (h.1.current_mem hlt) hm

/-! ## Lists -/

/-- Two steps bring the first token that is still in the supply into hand. -/
theorem shows_listed (c : Cursor (List Token)) : c.step.step.Shows c.supply := by
  generalize hts : c.supply = ts
  induction ts generalizing c with
  | nil =>
    rw [shows_nil]
    intro n
    induction n generalizing c with
    | zero =>
      show (nextListed c.supply).1 = _
      rw [hts]; rfl
    | succ n ih =>
      apply ih c.step
      show (nextListed c.supply).2 = []
      rw [hts]; rfl
  | cons t ts ih =>
    rw [shows_cons]
    constructor
    · show (nextListed c.supply).1 = t
      rw [hts]; rfl
    · apply ih c.step
      show (nextListed c.supply).2 = ts
      rw [hts]; rfl

end Cursor

theorem Session.shows_start_listed (limit : Nat) (ts : List Token) :
    (start limit ts).cursor.Shows ts :=
  Cursor.shows_listed (.start ts)

end Precedence
