import Precedence.Bookmark
import Precedence.Proofs.Abreast
import Precedence.Proofs.Scanning

/-!
# Pulls

How often a program draws on its supply.  Two pulls bring the first token into hand, each token
takes one more, and one can go to waste at the end: a statement cut off in the middle may step onto
the end marker, and the step after the statement then leads past it.
-/

namespace Precedence

/-! ## The tokens in hand -/

namespace Cursor

variable {σ : Type} [Supply σ] {c : Cursor σ} {ts : List Token}

/-- What is in hand on the way of `n` steps, from the first token to the last. -/
def inHand : Nat → Cursor σ → List Token
  | 0, c => [c.current]
  | n + 1, c => c.current :: c.step.inHand n

theorem Ended.inHand_eq (h : c.Ended) (n : Nat) : c.inHand n = List.replicate (n + 1) .eof := by
  induction n generalizing c with
  | zero => rw [inHand, h.current]; rfl
  | succ n ih => rw [inHand, h.current, ih h.step]; rfl

/-- Behind the tokens to come there are end markers, more than are ever in hand. -/
theorem Shows.inHand_eq_take (h : c.Shows ts) {n k : Nat} (hk : n < k) :
    c.inHand n = (ts ++ List.replicate k Token.eof).take (n + 1) := by
  induction ts generalizing c n with
  | nil =>
    rw [(shows_nil.1 h).inHand_eq, List.nil_append, List.take_replicate, Nat.min_eq_left hk]
  | cons t ts ih =>
    obtain ⟨hcur, hrest⟩ := shows_cons.1 h
    cases n with
    | zero =>
      rw [inHand, hcur]
      rfl
    | succ n =>
      rw [inHand, hcur, ih hrest (Nat.lt_of_succ_lt hk)]
      rfl

theorem Shows.inHand_eq (h : c.Shows ts) (k : Nat) :
    c.inHand (ts.length + k) = ts ++ List.replicate (k + 1) .eof := by
  have hmore : k + 1 ≤ ts.length + k + 1 := by omega
  rw [h.inHand_eq_take (Nat.lt_succ_self _), Nat.add_assoc, List.take_length_add_append,
    List.take_replicate, Nat.min_eq_left hmore]

theorem Spells.inHand_eq {us : List Token} {n : Nat} (h : c.Spells us) (hn : us.length = n + 1) :
    c.inHand n = us := by
  induction us generalizing c n with
  | nil => cases hn
  | cons u us ih =>
    obtain ⟨hcur, hrest⟩ := spells_cons.1 h
    cases n with
    | zero =>
      rw [inHand, hcur, List.length_eq_zero_iff.1 (Nat.succ.inj hn)]
    | succ n => rw [inHand, hcur, ih hrest (Nat.succ.inj hn)]

/-- What comes into hand is what the supply hands out. -/
theorem inHand_step_step (n : Nat) (c : Cursor σ) :
    c.step.step.inHand n = Supply.take (n + 1) c.supply := by
  induction n generalizing c with
  | zero => rfl
  | succ n ih =>
    rw [inHand, ih c.step]
    rfl

/-- Once a scanner has handed out an end marker there is nothing left in it. -/
theorem ahead_eq_nil {c : Cursor Scanner} (h : c.step.step.current.kind = .eof) :
    c.step.step.supply.ahead = [] := by
  have hread : readToken c.supply.ahead = (.eof, []) := readToken_of_eof h
  have hahead : c.step.supply.ahead = [] := congrArg Prod.snd hread
  show (readToken c.step.supply.ahead).2 = []
  rw [hahead, readToken_nil]

end Cursor

/-! ## Programs -/

open Session

variable {σ : Type} [FiniteSupply σ] {limit : Nat} {supply : σ} {ts : List Token}

/-- A program ends at an end marker at most one step behind its tokens, end markers among them
included. -/
theorem exists_steps_parse (hts : (start limit supply).cursor.Shows ts) :
    ∃ m ≤ ts.length + 1, (parse limit supply).2.cursor = (start limit supply).cursor.steps m ∧
      (parse limit supply).2.current.kind = .eof := by
  obtain ⟨os, s, t, hend, -⟩ := exists_endAlike_same hts hts rfl rfl
  obtain ⟨m, hm, hcursor, -⟩ := hend.steps
  obtain ⟨-, -, hparse⟩ := parse_of_runs hend.left hend.left_eof
  refine ⟨m, hm, hparse.trans hcursor, ?_⟩
  rw [Session.current, hparse]
  exact hend.left_eof

theorem pulls_start (limit : Nat) (supply : σ) : (start limit supply).cursor.pulls = 2 := rfl

theorem supply_parse_scanned (limit : Nat) (text : String) :
    (parse limit (Scanner.ofString text)).2.cursor.supply.ahead = [] := by
  obtain ⟨m, -, hcursor, heof⟩ := exists_steps_parse (shows_start_scanned limit text)
  -- The two pulls at the start may as well be the last two.
  have hback : (parse limit (Scanner.ofString text)).2.cursor =
      ((Cursor.start (Scanner.ofString text)).steps m).step.step := by
    rw [hcursor, cursor_start, ← Cursor.steps_add, Nat.add_comm, Cursor.steps_add]
    rfl
  rw [Session.current, hback] at heof
  rw [hback]
  exact Cursor.ahead_eq_nil heof

/-- However the tokens are mixed, end markers included, a program takes no more than three pulls
beyond their number; without end markers every token comes into hand once and is followed by one or
two end markers.  A text is read to its end. -/
theorem parse_pulls (limit : Nat) (ts : List Token) (text : String) :
    (parse limit ts).2.cursor.pulls ≤ ts.length + 3 ∧
    ((∀ t ∈ ts, t.kind ≠ .eof) → ∃ k ≤ 1, (parse limit ts).2.cursor.pulls = ts.length + 2 + k ∧
      (parse limit ts).2.cursor = (start limit ts).cursor.steps (ts.length + k) ∧
      (start limit ts).cursor.inHand (ts.length + k) = ts ++ List.replicate (k + 1) .eof) ∧
    (Bookmark.start text).lend?
        (fun scanner => let r := parse limit scanner; (r, r.2.cursor.supply)) =
      some (parse limit (Scanner.ofString text), ⟨text, text.utf8ByteSize⟩) := by
  have hshows := shows_start_listed limit ts
  obtain ⟨m, hm, hcursor, hcur⟩ := exists_steps_parse hshows
  have hpulls : (parse limit ts).2.cursor.pulls = 2 + m := by
    rw [hcursor, Cursor.pulls_steps, pulls_start]
  refine ⟨by omega, fun heof => ?_, ?_⟩
  · rw [Session.current, hcursor] at hcur
    have hle := hshows.length_le_of_eof heof hcur
    obtain ⟨k, rfl⟩ := Nat.exists_eq_add_of_le hle
    exact ⟨k, by omega, by omega, hcursor, hshows.inHand_eq k⟩
  · rw [Bookmark.lend?, Bookmark.rest?_start]
    show some (parse limit (Scanner.ofString text), Bookmark.before
      (parse limit (Scanner.ofString text)).2.cursor.supply.ahead _) = _
    rw [supply_parse_scanned]
    rfl

/-- `let x =` takes three pulls beyond its three tokens. -/
theorem parse_pulls_cut_off :
    let ts : List Token := [⟨.let, "let"⟩, ⟨.identifier, "x"⟩, ⟨.assign, "="⟩]
    (∀ t ∈ ts, t.kind ≠ .eof) ∧ (parse 256 ts).2.cursor.pulls = 6 ∧
      (start 256 ts).cursor.inHand 4 = ts ++ [.eof, .eof] := by
  intro ts
  have heof : ∀ t ∈ ts, t.kind ≠ .eof := by decide
  obtain ⟨k, hk, hpulls, -, hhand⟩ := (parse_pulls 256 ts "").2.1 heof
  have hsix : (parse 256 ts).2.cursor.pulls = 6 := by decide +kernel
  have hlen : ts.length = 3 := rfl
  obtain rfl : k = 1 := by omega
  exact ⟨heof, hsix, hhand⟩

end Precedence
