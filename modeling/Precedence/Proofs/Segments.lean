import Precedence.Proofs.Grammar
import Precedence.Proofs.Pulls

/-!
# Segments

Each round uses up a segment of the tokens, and the segments make up all of them, whatever goes
wrong.  A statement that is complete says what its segment says and nothing else: without the marks
that only group and separate, the segment is the row of the statement's own tokens.
-/

namespace Precedence

/-! ## Tokens left out -/

/-- The tokens that are of none of the kinds. -/
def without (kinds : List Kind) (ts : List Token) : List Token := ts.filter fun t => t.kind ∉ kinds

section Without

variable {kinds : List Kind} {t : Token} {us : List Token}

theorem without_append (kinds : List Kind) (us vs : List Token) :
    without kinds (us ++ vs) = without kinds us ++ without kinds vs := List.filter_append us vs

theorem without_cons_of_mem (us : List Token) (h : t.kind ∈ kinds) :
    without kinds (t :: us) = without kinds us := List.filter_cons_of_neg (by simpa using h)

theorem without_cons_of_not_mem (us : List Token) (h : t.kind ∉ kinds) :
    without kinds (t :: us) = t :: without kinds us := List.filter_cons_of_pos (by simpa using h)

theorem without_eq_self (h : ∀ t ∈ us, t.kind ∉ kinds) : without kinds us = us :=
  List.filter_eq_self.2 fun t ht => decide_eq_true (h t ht)

theorem without_eq_nil (h : ∀ t ∈ us, t.kind ∈ kinds) : without kinds us = [] :=
  List.filter_eq_nil_iff.2 fun t ht => by simpa using h t ht

end Without

/-! ## What trees say -/

def infixKinds : List Kind :=
  [.equals, .notEquals, .less, .greater, .plus, .minus, .asterisk, .slash]

/-- Every node is made from a token of its kind and says what that token says. -/
inductive Expr.Faithful : Expr → Prop
  | identifier {name : Identifier} (hkind : name.token.kind = .identifier)
      (hvalue : name.value = name.token.text) : Faithful (.identifier name)
  | integer {token : Token} {value : Int} (hkind : token.kind = .int)
      (hvalue : Text.Numeral token.text value) : Faithful (.integer token value)
  | unary {token : Token} {operator : String} {operand : Expr}
      (hkind : token.kind = .bang ∨ token.kind = .minus) (hoperator : operator = token.text)
      (h : Faithful operand) : Faithful (.unary token operator operand)
  | binary {token : Token} {operator : String} {left right : Expr}
      (hkind : token.kind ∈ infixKinds) (hoperator : operator = token.text)
      (hleft : Faithful left) (hright : Faithful right) :
      Faithful (.binary token operator left right)

inductive Stmt.Faithful : Stmt → Prop
  | letBinding {token : Token} {name : Identifier} {value : Option Expr}
      (hkind : token.kind = .let) (hname : name.token.kind = .identifier)
      (hvalue : name.value = name.token.text) (h : ∀ e ∈ value, e.Faithful) :
      Faithful (.letBinding token name value)
  | returnValue {token : Token} {value : Option Expr} (hkind : token.kind = .return)
      (h : ∀ e ∈ value, e.Faithful) : Faithful (.returnValue token value)
  | expression {token : Token} {value : Option Expr} (h : ∀ e ∈ value, e.Faithful) :
      Faithful (.expression token value)

/-- The keyword, the name that is bound, and the tokens of the value. -/
def Stmt.tokens : Stmt → List Token
  | .letBinding token name value => token :: name.token :: (value.map Expr.tokens).getD []
  | .returnValue token value => token :: (value.map Expr.tokens).getD []
  | .expression _ value => (value.map Expr.tokens).getD []

/-- What groups and separates, and leaves no trace in a tree. -/
def marks : List Kind := [.openParen, .closeParen, .assign, .semicolon]

theorem Layer.mem_infixKinds {a : Layer} {k : Kind} (h : k ∈ a.operators) : k ∈ infixKinds := by
  cases a <;> revert h <;> cases k <;> decide

theorem not_mem_marks_of_mem_infixKinds {k : Kind} (h : k ∈ infixKinds) : k ∉ marks := by
  revert h
  cases k <;> decide

theorem Derives.faithful {a : Layer} {us : List Token} {e : Expr} (h : Derives a us e) :
    e.Faithful := by
  induction h with
  | identifier ht => exact .identifier ht rfl
  | integer ht hv => exact .integer ht hv
  | unary ht _ ih => exact .unary ht rfl ih
  | grouped _ _ _ ih => exact ih
  | binary _ hop _ ihl ihr => exact .binary (Layer.mem_infixKinds hop) rfl ihl ihr
  | pass _ _ ih => exact ih

/-- Parentheses apart, a tree has the tokens it was read from, in their order. -/
theorem Derives.without_marks {a : Layer} {us : List Token} {e : Expr} (h : Derives a us e) :
    without marks us = e.tokens := by
  induction h with
  | identifier ht => exact without_cons_of_not_mem [] (by rw [ht]; decide)
  | integer ht hv => exact without_cons_of_not_mem [] (by rw [ht]; decide)
  | unary ht _ ih =>
    rw [without_cons_of_not_mem _ (by rcases ht with ht | ht <;> rw [ht] <;> decide), ih]
    rfl
  | grouped ho hc _ ih =>
    rw [List.cons_append, without_cons_of_mem _ (by rw [ho]; decide), without_append, ih,
      without_cons_of_mem [] (by rw [hc]; decide)]
    exact List.append_nil _
  | binary _ hop _ ihl ihr =>
    have hmark := not_mem_marks_of_mem_infixKinds (Layer.mem_infixKinds hop)
    rw [without_append, without_cons_of_not_mem _ hmark, ihl, ihr]
    rfl
  | pass _ _ ih => exact ih

theorem ReadingWithin.derives {N : Nat} {us : List Token} {e : Expr} (h : ReadingWithin N us e) :
    Derives .equality us e := by
  obtain ⟨k, n, q, hread, -⟩ := h
  exact (readingWithin_iff_derives (Nat.le_refl us.length)).1
    ⟨k, n, q, hread, hread.levels_le_length⟩

section Clause

variable {N : Nat} {us : List Token} {st : Stmt}

theorem Clause.faithful (h : Clause (ReadingWithin N) us st) : st.Faithful := by
  cases h with
  | letBinding hl hname _ he =>
    exact .letBinding hl hname rfl fun _ h => Option.some.inj h ▸ he.derives.faithful
  | returnValue hr he => exact .returnValue hr fun _ h => Option.some.inj h ▸ he.derives.faithful
  | expression he => exact .expression fun _ h => Option.some.inj h ▸ he.derives.faithful

theorem Clause.without_marks (h : Clause (ReadingWithin N) us st) :
    without marks us = st.tokens := by
  cases h with
  | letBinding hl hname ha he =>
    rw [without_cons_of_not_mem _ (by rw [hl]; decide),
      without_cons_of_not_mem _ (by rw [hname]; decide),
      without_cons_of_mem _ (by rw [ha]; decide), he.derives.without_marks]
    rfl
  | returnValue hr he =>
    rw [without_cons_of_not_mem _ (by rw [hr]; decide), he.derives.without_marks]
    rfl
  | expression he => exact he.derives.without_marks

theorem Clause.head?_eq {E : List Token → Expr → Prop} (h : Clause E us st) :
    us.head? = some st.token := by
  cases h <;> rfl

end Clause

/-! ## Tokens that are used up -/

namespace Cursor

variable {σ : Type} [Supply σ] {c : Cursor σ} {ts : List Token}

/-- End markers apart, the tokens that come into hand on the way are the next ones to come. -/
theorem Shows.without_inHand (h : c.Shows ts) (n : Nat) :
    without [.eof] (c.inHand n) = without [.eof] (ts.take (n + 1)) := by
  have hends : without [.eof] ((List.replicate (n + 1) Token.eof).take (n + 1 - ts.length)) = [] :=
    without_eq_nil fun t ht => by
      rw [List.eq_of_mem_replicate (List.mem_of_mem_take ht)]
      decide
  rw [h.inHand_eq_take (Nat.lt_succ_self n), List.take_append, without_append, hends,
    List.append_nil]

end Cursor

/-! ## Rounds and their segments -/

namespace Session

variable {σ : Type}

theorem Reaches.cursor_eq [Supply σ] {s t : Session σ} (h : Reaches s t) :
    t.cursor = s.cursor.steps (t.cursor.pulls - s.cursor.pulls) := by
  obtain ⟨n, hn⟩ := h
  rw [hn, Cursor.pulls_steps, Nat.add_sub_cancel_left]

variable [FiniteSupply σ] {s : Session σ} {ts : List Token}

/-- How many steps the statement in hand takes. -/
def stride (s : Session σ) : Nat := s.stmt.2.cursor.pulls - s.cursor.pulls

/-- The tokens that a round has in hand; an end marker that it may run into is none of them. -/
def segment (s : Session σ) : List Token :=
  without [.eof] (s.cursor.inHand s.stride)

/-- Up to the end marker, the segment of each round and what the round has given. -/
def rounds (s : Session σ) : List (List Token × Option Stmt) :=
  if _ : s.current.kind = .eof then [] else (s.segment, s.round.1) :: rounds s.round.2
termination_by s.cursor.ahead
decreasing_by exact ahead_round_lt s ‹_›

theorem cursor_round (s : Session σ) : s.round.2.cursor = s.cursor.steps (s.stride + 1) := by
  rw [Cursor.steps_succ, stride, ← (reaches_stmt s).cursor_eq]
  rfl

/-- A round uses up its segment and leaves the rest. -/
theorem segment_eq_take (hs : s.cursor.Shows ts) :
    s.segment = without [.eof] (ts.take (s.stride + 1)) ∧
      s.round.2.cursor.Shows (ts.drop (s.stride + 1)) := by
  refine ⟨hs.without_inHand s.stride, ?_⟩
  rw [cursor_round]
  exact hs.steps (s.stride + 1)

theorem segment_ne_nil (h : s.current.kind ≠ .eof) : s.segment ≠ [] := by
  have hhead : ∃ us, s.cursor.inHand s.stride = s.current :: us := by
    cases s.stride <;> exact ⟨_, rfl⟩
  obtain ⟨us, hus⟩ := hhead
  rw [segment, hus, without_cons_of_not_mem us (by simpa using h)]
  exact List.cons_ne_nil _ _

/-- End markers at the end of the tokens are in no segment, but all that is in front of them is. -/
theorem flatten_rounds {ends : List Token} (hs : s.cursor.Shows (ts ++ ends))
    (heof : ∀ t ∈ ts, t.kind ≠ .eof) (hends : ∀ t ∈ ends, t.kind = .eof) :
    (s.rounds.map Prod.fst).flatten = ts := by
  fun_induction rounds s generalizing ts ends with
  | case1 s hcur =>
    cases ts with
    | nil => rfl
    | cons t ts =>
      rw [current, (Cursor.shows_cons.1 hs).1] at hcur
      exact absurd hcur (heof t List.mem_cons_self)
  | case2 s hcur ih =>
    obtain ⟨htake, hrest⟩ := segment_eq_take hs
    have hfront : without [.eof] (ts.take (s.stride + 1)) = ts.take (s.stride + 1) :=
      without_eq_self fun t ht => by simpa using heof t (List.mem_of_mem_take ht)
    have hback : without [.eof] (ends.take (s.stride + 1 - ts.length)) = [] :=
      without_eq_nil fun t ht => by simpa using hends t (List.mem_of_mem_take ht)
    rw [List.take_append, without_append, hfront, hback, List.append_nil] at htake
    rw [List.drop_append] at hrest
    rw [List.map_cons, List.flatten_cons, htake,
      ih hrest (fun t ht => heof t (List.mem_of_mem_drop ht))
        (fun t ht => hends t (List.mem_of_mem_drop ht)), List.take_append_drop]

theorem runs_rounds (s : Session σ) :
    ∃ t, Runs s (s.rounds.map Prod.snd) t ∧ t.current.kind = .eof := by
  fun_induction rounds s with
  | case1 s hcur => exact ⟨s, .nil, hcur⟩
  | case2 s hcur ih =>
    obtain ⟨t, hruns, ht⟩ := ih
    exact ⟨t, .cons hcur hruns, ht⟩

theorem exists_of_mem_rounds {r : List Token × Option Stmt} (h : r ∈ s.rounds) :
    ∃ t : Session σ, t.current.kind ≠ .eof ∧ r = (t.segment, t.round.1) := by
  fun_induction rounds s with
  | case1 s hcur => cases h
  | case2 s hcur ih =>
    cases h with
    | head => exact ⟨s, hcur, rfl⟩
    | tail _ h => exact ih h

/-- The segment of a statement that is complete is a clause, and the semicolon if there is one. -/
theorem segment_of_complete {st : Stmt} {e : Expr} (ho : s.round.1 = some st)
    (he : st.value? = some e) :
    ∃ us cs, s.segment = us ++ cs ∧ Clause (ReadingWithin s.levels) us st ∧
      ∀ c ∈ cs, c.kind = .semicolon := by
  have hsettles := s.settles_round
  rw [ho, Option.bind_some, he] at hsettles
  obtain ⟨us, st', ho', hclause, hus, -, hcursor⟩ := clause_of_round hsettles.ledger_eq
  obtain rfl : st = st' := by rw [ho] at ho'; exact Option.some.inj ho'
  have hkept : without [.eof] us = us :=
    without_eq_self fun t ht => by simpa using hclause.kind_ne_eof t ht
  rw [cursor_round, Cursor.pastSemicolon] at hcursor
  by_cases hsemi : (s.cursor.steps us.length).current.kind = .semicolon
  · rw [if_pos hsemi, ← Cursor.steps_succ] at hcursor
    have hstride : s.stride = us.length := Nat.succ.inj (s.cursor.steps_injective hcursor)
    have hspells : s.cursor.Spells (us ++ [(s.cursor.steps us.length).current]) :=
      Cursor.spells_append.2 ⟨hus, rfl, trivial⟩
    refine ⟨us, _, ?_, hclause, List.forall_mem_singleton.2 hsemi⟩
    rw [segment, hstride, hspells.inHand_eq (by simp), without_append, hkept,
      without_cons_of_not_mem [] (by rw [hsemi]; decide)]
    rfl
  · rw [if_neg hsemi] at hcursor
    have hstride := s.cursor.steps_injective hcursor
    refine ⟨us, [], ?_, hclause, List.forall_mem_nil _⟩
    rw [segment, hus.inHand_eq hstride.symm, hkept, List.append_nil]

end Session

/-! ## Programs -/

open Session

/-- Round by round, the segments make up the tokens and the statements come in their order; a
statement that is complete has, marks apart, exactly the tokens of its segment, and each of its
nodes says what the token of the node does.  It makes no difference whether the tokens end with end
markers of their own. -/
theorem rounds_faithful (limit : Nat) (ts ends : List Token) (heof : ∀ t ∈ ts, t.kind ≠ .eof)
    (hends : ∀ t ∈ ends, t.kind = .eof) :
    let rs := (start limit (ts ++ ends)).rounds
    (rs.map Prod.fst).flatten = ts ∧ (∀ r ∈ rs, r.1 ≠ []) ∧
      (parse limit (ts ++ ends)).1.statements = rs.filterMap Prod.snd ∧
      ∀ us st e, (us, some st) ∈ rs → st.value? = some e →
        without marks us = st.tokens ∧ st.Faithful ∧ us.head? = some st.token := by
  intro rs
  refine ⟨flatten_rounds (shows_start_listed limit (ts ++ ends)) heof hends, ?_, ?_, ?_⟩
  · intro r hr
    obtain ⟨s, hcur, rfl⟩ := exists_of_mem_rounds hr
    exact segment_ne_nil hcur
  · obtain ⟨t, hruns, ht⟩ := runs_rounds (start limit (ts ++ ends))
    obtain ⟨hprogram, -⟩ := parse_of_runs hruns ht
    rw [hprogram, List.filterMap_map]
    rfl
  · intro us st e hr he
    obtain ⟨s, hcur, heq⟩ := exists_of_mem_rounds hr
    obtain ⟨rfl, ho⟩ := Prod.mk.inj heq
    obtain ⟨vs, cs, hsegment, hclause, hcs⟩ := segment_of_complete ho.symm he
    have hmarks : without marks cs = [] :=
      without_eq_nil fun c hc => by rw [hcs c hc]; decide
    refine ⟨?_, hclause.faithful, ?_⟩
    · rw [hsegment, without_append, hclause.without_marks, hmarks, List.append_nil]
    · rw [hsegment, List.head?_append, hclause.head?_eq, Option.some_or]

/-- In `let x 5; let y = (-a)` the first binding fails in front of the `5`, which is then read as a
statement of its own; the second binding is complete. -/
theorem rounds_faithful_resumed :
    let x : Token := ⟨.identifier, "x"⟩
    let y : Token := ⟨.identifier, "y"⟩
    let second : List Token := [⟨.let, "let"⟩, y, ⟨.assign, "="⟩, ⟨.openParen, "("⟩, ⟨.minus, "-"⟩,
      ⟨.identifier, "a"⟩, ⟨.closeParen, ")"⟩]
    let ts : List Token := [⟨.let, "let"⟩, x, ⟨.int, "5"⟩, ⟨.semicolon, ";"⟩] ++ second
    let rs := (start 256 (ts ++ [.eof])).rounds
    let st : Stmt := .letBinding ⟨.let, "let"⟩ (.ofToken y) (some
      (.unary ⟨.minus, "-"⟩ "-" (.identifier (.ofToken ⟨.identifier, "a"⟩))))
    (∀ t ∈ ts, t.kind ≠ .eof) ∧ rs.map (fun r => r.1.length) = [2, 2, 7] ∧
      (rs.map Prod.fst).flatten = ts ∧ (second, some st) ∈ rs ∧
      without marks second = st.tokens ∧ st.Faithful := by
  intro x y second ts rs st
  have heof : ∀ t ∈ ts, t.kind ≠ .eof := by decide
  have hst : (second, some st) ∈ rs := by decide +kernel
  obtain ⟨hflatten, -, -, hcomplete⟩ := rounds_faithful 256 ts [.eof] heof (by decide)
  obtain ⟨htokens, hfaithful, -⟩ := hcomplete second st _ hst rfl
  exact ⟨heof, by decide +kernel, hflatten, hst, htokens, hfaithful⟩

end Precedence
