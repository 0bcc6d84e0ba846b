import Precedence.Session.Program
import Precedence.Proofs.Sentence

/-!
# Rounds

Statement after statement up to the end marker.  Main result: the sentences of readings are exactly
what a run without diagnostics has read.
-/

namespace Precedence

variable {σ : Type} {us ts : List Token} {st : Stmt} {ss : List Stmt}

/-! ## One round -/

/-- Where the next round starts, `c` being behind a clause. -/
def Cursor.pastSemicolon [Supply σ] (c : Cursor σ) : Cursor σ :=
  if c.current.kind = .semicolon then c.step else c

namespace Session

variable [FiniteSupply σ]

theorem settles_round (s : Session σ) : s.Settles (s.round.1.bind Stmt.value?, s.round.2) :=
  s.settles_stmt.trans_ledger (ledger_step _)

theorem cursor_step_skipSemicolon {s : Session σ} {c : Cursor σ} (h : s.cursor.step = c) :
    s.skipSemicolon.step.cursor = c.pastSemicolon := by
  subst h
  unfold skipSemicolon
  show _ = if s.upcoming.kind = .semicolon then _ else _
  by_cases hsemi : s.upcoming.kind = .semicolon
  · rw [if_pos hsemi, if_pos hsemi]
    rfl
  · rw [if_neg hsemi, if_neg hsemi]
    rfl

theorem round_of_clause {s : Session σ} (h : Clause (ReadingWithin s.levels) us st)
    (hs : s.cursor.Spells us)
    (hnext : Rules.standard.power (s.cursor.steps us.length).current.kind ≤ .lowest) :
    s.round.1 = some st ∧ s.round.2.ledger = s.ledger ∧
      s.round.2.cursor = (s.cursor.steps us.length).pastSemicolon := by
  obtain ⟨t, ht, hstmt⟩ := stmt_of_clause h hs hnext
  have hvalue : ∃ e, st.value? = some e := by
    cases h <;> exact ⟨_, rfl⟩
  obtain ⟨e, he⟩ := hvalue
  have hround : s.round = (some st, t.skipSemicolon.step) := by
    rw [round, hstmt]
  -- The statement has its expression, so the round has settled without a diagnostic.
  have hsettles := s.settles_round
  rw [hround] at hsettles ⊢
  refine ⟨rfl, ?_, cursor_step_skipSemicolon ht⟩
  have hbind : (some st).bind Stmt.value? = some e := he
  dsimp only at hsettles
  rw [hbind] at hsettles
  exact hsettles

theorem clause_of_round {s : Session σ} (h : s.round.2.ledger = s.ledger) :
    ∃ us st, s.round.1 = some st ∧ Clause (ReadingWithin s.levels) us st ∧ s.cursor.Spells us ∧
      Rules.standard.power (s.cursor.steps us.length).current.kind ≤ .lowest ∧
      s.round.2.cursor = (s.cursor.steps us.length).pastSemicolon := by
  obtain ⟨e, he⟩ := s.settles_round.eq_some h
  have hstmt : s.stmt = (s.stmt.1, s.stmt.2) := rfl
  obtain ⟨us, st, ho, hst, hus, u, ht, hu, hstop⟩ := clause_of_stmt hstmt he
  refine ⟨us, st, ho, hst, hus, ?_, ?_⟩
  · rw [← hu]
    exact hstop
  · show s.stmt.2.step.cursor = _
    rw [ht]
    exact cursor_step_skipSemicolon hu

/-! ## Whole runs -/

theorem current_ne_eof {s : Session σ} {N : Nat} (h : Clause (ReadingWithin N) us st)
    (hs : s.cursor.Spells us) : s.current.kind ≠ .eof := by
  obtain ⟨t, vs, rfl, -⟩ := h.head
  have hcur : s.current = t := hs.1
  rw [hcur]
  exact h.kind_ne_eof t List.mem_cons_self

theorem roundsFrom_of_eof {kept : List Stmt} {s : Session σ} (h : s.current.kind = .eof) :
    roundsFrom kept s = (kept.reverse, s) := by
  rw [roundsFrom, dif_pos h]

theorem roundsFrom_of_ne {kept : List Stmt} {s : Session σ} (h : s.current.kind ≠ .eof) :
    roundsFrom kept s = roundsFrom (s.round.1.toList ++ kept) s.round.2 := by
  rw [roundsFrom, dif_neg h]

theorem roundsFrom_of_round {kept : List Stmt} {s : Session σ} (h : s.current.kind ≠ .eof)
    (ho : s.round.1 = some st) : roundsFrom kept s = roundsFrom (st :: kept) s.round.2 := by
  rw [roundsFrom_of_ne h, ho]
  rfl

/-- Rounds only add to the diagnostics. -/
theorem diagnosed_suffix_roundsFrom (kept : List Stmt) (s : Session σ) :
    s.diagnosed <:+ (roundsFrom kept s).2.diagnosed := by
  fun_induction roundsFrom kept s with
  | case1 kept s h => exact List.suffix_refl _
  | case2 kept s h ih => exact s.settles_round.diagnosed_suffix.trans ih

-- Completeness, by induction on the sentence: every clause is a round.
theorem roundsFrom_of_sentence {N : Nat} (h : Sentence (ReadingWithin N) ts ss)
    (kept : List Stmt) {s : Session σ} (hN : s.levels = N) (hts : s.cursor.Shows ts) :
    ∃ t : Session σ, t.diagnosed = s.diagnosed ∧ roundsFrom kept s = (kept.reverse ++ ss, t) := by
  induction h generalizing kept s with
  | nil =>
    have heof : s.current.kind = .eof := congrArg Token.kind (Cursor.shows_nil.1 hts).current
    exact ⟨s, rfl, by rw [roundsFrom_of_eof heof, List.append_nil]⟩
  | @closed us c ts st ss hst hc hss ih =>
    obtain ⟨hus, hrest⟩ := Cursor.shows_append.1 hts
    obtain ⟨hcur, hrest⟩ := Cursor.shows_cons.1 hrest
    have hkind : (s.cursor.steps us.length).current.kind = .semicolon := by rw [hcur, hc]
    rw [← hN] at hst
    obtain ⟨ho, hbooks, hcursor⟩ := round_of_clause hst hus (by rw [hkind]; decide)
    rw [Cursor.pastSemicolon, if_pos hkind] at hcursor
    obtain ⟨t, ht, he⟩ := ih (st :: kept) (s := s.round.2)
      (by rw [levels_of_ledger hbooks, hN]) (by rw [hcursor]; exact hrest)
    refine ⟨t, by rw [ht, diagnosed_of_ledger hbooks], ?_⟩
    rw [roundsFrom_of_round (current_ne_eof hst hus) ho, he, List.reverse_cons, List.append_assoc]
    rfl
  | @opened us ts st ss hst hminus hss ih =>
    obtain ⟨hus, hrest⟩ := Cursor.shows_append.1 hts
    -- What follows starts a statement of its own, or there is nothing left.
    have hnext : (s.cursor.steps us.length).current.kind ≠ .semicolon ∧
        Rules.standard.power (s.cursor.steps us.length).current.kind ≤ .lowest := by
      cases ts with
      | nil =>
        rw [(Cursor.shows_nil.1 hrest).current]
        decide
      | cons t ts =>
        rw [(Cursor.shows_cons.1 hrest).1]
        exact ⟨hss.head.1, hss.head.2 (hminus t rfl)⟩
    rw [← hN] at hst
    obtain ⟨ho, hbooks, hcursor⟩ := round_of_clause hst hus hnext.2
    rw [Cursor.pastSemicolon, if_neg hnext.1] at hcursor
    obtain ⟨t, ht, he⟩ := ih (st :: kept) (s := s.round.2)
      (by rw [levels_of_ledger hbooks, hN]) (by rw [hcursor]; exact hrest)
    refine ⟨t, by rw [ht, diagnosed_of_ledger hbooks], ?_⟩
    rw [roundsFrom_of_round (current_ne_eof hst hus) ho, he, List.reverse_cons, List.append_assoc]
    rfl

-- Soundness, by induction on the rounds: every round is a clause.
theorem sentence_of_roundsFrom (kept : List Stmt) (s : Session σ)
    (h : (roundsFrom kept s).2.diagnosed = s.diagnosed) {ts : List Token} (hts : s.cursor.Shows ts)
    (heof : ∀ t ∈ ts, t.kind ≠ .eof) :
    ∃ ss, Sentence (ReadingWithin s.levels) ts ss ∧
      (roundsFrom kept s).1 = kept.reverse ++ ss := by
  fun_induction roundsFrom kept s generalizing ts with
  | case1 kept s hcur =>
    refine ⟨[], ?_, by simp⟩
    cases ts with
    | nil => exact .nil
    | cons t ts =>
      have ht : s.current = t := (Cursor.shows_cons.1 hts).1
      rw [ht] at hcur
      exact absurd hcur (heof t List.mem_cons_self)
  | case2 kept s hcur ih =>
    -- The diagnostics at the end are those at the start, so this round has added none.
    have hsuffix := diagnosed_suffix_roundsFrom (s.round.1.toList ++ kept) s.round.2
    have hbooks : s.round.2.ledger = s.ledger := by
      have hsettles := s.settles_round
      cases ho : s.round.1.bind Stmt.value? with
      | some e =>
        rw [ho] at hsettles
        exact hsettles
      | none =>
        rw [ho] at hsettles
        obtain ⟨d, hcons⟩ := hsettles.diagnosed_none
        rw [h, hcons] at hsuffix
        have hlen := hsuffix.length_le
        rw [List.length_cons] at hlen
        omega
    obtain ⟨us, st, ho, hst, hus, hnext, hcursor⟩ := clause_of_round hbooks
    obtain ⟨vs, rfl, hrest⟩ := hus.of_shows hts hst.kind_ne_eof
    have hlevels := levels_of_ledger hbooks
    by_cases hsemi : (s.cursor.steps us.length).current.kind = .semicolon
    · rw [Cursor.pastSemicolon, if_pos hsemi] at hcursor
      cases vs with
      | nil =>
        rw [(Cursor.shows_nil.1 hrest).current] at hsemi
        cases hsemi
      | cons c vs =>
        obtain ⟨hc, hrest⟩ := Cursor.shows_cons.1 hrest
        obtain ⟨ss, hss, hout⟩ := ih (by rw [h, diagnosed_of_ledger hbooks])
          (by rw [hcursor]; exact hrest) fun t ht =>
            heof t (List.mem_append_right us (List.mem_cons_of_mem c ht))
        refine ⟨st :: ss, .closed hst (by rw [← hc, hsemi]) (by rw [← hlevels]; exact hss), ?_⟩
        rw [hout, ho, List.reverse_append, List.append_assoc]
        rfl
    · rw [Cursor.pastSemicolon, if_neg hsemi] at hcursor
      obtain ⟨ss, hss, hout⟩ := ih (by rw [h, diagnosed_of_ledger hbooks])
        (by rw [hcursor]; exact hrest) fun t ht => heof t (List.mem_append_right us ht)
      -- The clause ended in front of this token, so it cannot be a minus.
      have hminus : ∀ t ∈ vs.head?, t.kind ≠ .minus := by
        intro t ht hk
        cases vs with
        | nil => cases ht
        | cons v vs =>
          cases ht
          rw [(Cursor.shows_cons.1 hrest).1, hk] at hnext
          exact absurd hnext (by decide)
      refine ⟨st :: ss, .opened hst hminus (by rw [← hlevels]; exact hss), ?_⟩
      rw [hout, ho, List.reverse_append, List.append_assoc]
      rfl

/-- Whatever else goes wrong, the expressions that are kept have been read on the levels given. -/
theorem exists_reading_of_mem_roundsFrom (kept : List Stmt) (s : Session σ) {st : Stmt}
    (hst : st ∈ (roundsFrom kept s).1) (hkept : st ∉ kept) {e : Expr} (he : st.value? = some e) :
    ∃ us, ReadingWithin s.levels us e := by
  fun_induction roundsFrom kept s with
  | case1 kept s hcur => exact absurd (List.mem_reverse.1 hst) hkept
  | case2 kept s hcur ih =>
    -- Either the statement is from this round, or it is from a later one.
    by_cases hnew : st ∈ s.round.1.toList
    · have ho : s.stmt.1 = some st := by
        rw [Option.mem_toList] at hnew
        exact hnew
      have hstmt : s.stmt = (s.stmt.1, s.stmt.2) := rfl
      obtain ⟨us, st', ho', hclause, -⟩ := clause_of_stmt hstmt (by rw [ho]; exact he)
      obtain rfl : st = st' := by rw [ho] at ho'; exact Option.some.inj ho'
      cases hclause with
      | letBinding hl hname ha hread => cases he; exact ⟨_, hread⟩
      | returnValue hr hread => cases he; exact ⟨_, hread⟩
      | expression hread => cases he; exact ⟨_, hread⟩
    · have hlevels : s.round.2.levels = s.levels := s.settles_round.levels
      rw [← hlevels]
      exact ih hst fun hmem => (List.mem_append.1 hmem).elim hnew hkept

end Session

theorem exists_reading_of_mem_parse {σ : Type} [FiniteSupply σ] {limit : Nat} {supply : σ}
    {st : Stmt} (hst : st ∈ (parse limit supply).1.statements) {e : Expr}
    (he : st.value? = some e) : ∃ us, ReadingWithin limit us e := by
  have h := Session.exists_reading_of_mem_roundsFrom []
    { Session.start limit supply with diagnosed := [] } hst List.not_mem_nil he
  rwa [show Session.levels _ = limit from by show ((limit : Int) - 0).toNat = limit; omega] at h

/-- A run without diagnostics has read a sentence, and every sentence is read so. -/
theorem parse_iff_sentence {σ : Type} [FiniteSupply σ] {limit : Nat} {supply : σ}
    {ts : List Token} (hts : (Session.start limit supply).cursor.Shows ts)
    (heof : ∀ t ∈ ts, t.kind ≠ .eof) {ss : List Stmt} :
    (parse limit supply).2.diagnostics = [] ∧ (parse limit supply).1 = ⟨ss⟩ ↔
      Sentence (ReadingWithin limit) ts ss := by
  let s : Session σ := { Session.start limit supply with diagnosed := [] }
  have hlevels : s.levels = limit := by
    show ((limit : Int) - 0).toNat = limit
    omega
  have hdiag : (parse limit supply).2.diagnostics = [] ↔
      (Session.roundsFrom [] s).2.diagnosed = s.diagnosed := List.reverse_eq_nil_iff
  have hprogram : (parse limit supply).1 = ⟨(Session.roundsFrom [] s).1⟩ := rfl
  rw [hdiag, hprogram]
  constructor
  · rintro ⟨hd, hp⟩
    obtain ⟨ss', hss, hout⟩ := Session.sentence_of_roundsFrom [] s hd hts heof
    rw [hlevels] at hss
    have hsame : ss' = ss := by simpa [hout] using hp
    rwa [hsame] at hss
  · intro h
    obtain ⟨t, ht, he⟩ := Session.roundsFrom_of_sentence h [] hlevels hts
    rw [he]
    exact ⟨ht, rfl⟩

/-- What tokens say as a whole they say in one way. -/
theorem Sentence.unique {N : Nat} {ss' : List Stmt} (h : Sentence (ReadingWithin N) ts ss)
    (h' : Sentence (ReadingWithin N) ts ss') : ss = ss' := by
  have hshows := Session.shows_start_listed N ts
  have hp := ((parse_iff_sentence hshows h.kind_ne_eof).2 h).2
  have hp' := ((parse_iff_sentence hshows h.kind_ne_eof).2 h').2
  rw [hp] at hp'
  exact Program.mk.inj hp'

theorem Cursor.shows_pastSemicolon [Supply σ] {c : Cursor σ} {vs : List Token} (h : c.Shows vs)
    (hvs : (∃ t, t.kind = .semicolon ∧ vs = t :: ts) ∨ vs = ts ∧ Apart ts) :
    Rules.standard.power c.current.kind ≤ .lowest ∧ c.pastSemicolon.Shows ts := by
  unfold pastSemicolon
  rcases hvs with ⟨t, ht, rfl⟩ | ⟨rfl, hapart⟩
  · obtain ⟨hcur, hrest⟩ := shows_cons.1 h
    rw [hcur, ht, if_pos rfl]
    exact ⟨by decide, hrest⟩
  · cases vs with
    | nil =>
      rw [(shows_nil.1 h).current]
      exact ⟨by decide, h⟩
    | cons v vs =>
      obtain ⟨hsemi, hpower⟩ := hapart v rfl
      rw [(shows_cons.1 h).1, if_neg hsemi]
      exact ⟨hpower, h⟩

/-- A sentence that starts with a clause has its statement first, and goes on behind it. -/
theorem Sentence.behind {N : Nat} {vs : List Token}
    (h : Sentence (ReadingWithin N) (us ++ vs) ss) (hst : Clause (ReadingWithin N) us st)
    (hvs : (∃ t, t.kind = .semicolon ∧ vs = t :: ts) ∨ vs = ts ∧ Apart ts) :
    ∃ ss', ss = st :: ss' ∧ Sentence (ReadingWithin N) ts ss' := by
  let s := Session.start N (us ++ vs)
  have hlevels : s.levels = N := by
    show ((N : Int) - 0).toNat = N
    omega
  have hshows : s.cursor.Shows (us ++ vs) := Session.shows_start_listed N (us ++ vs)
  obtain ⟨hus, hrest⟩ := Cursor.shows_append.1 hshows
  obtain ⟨hpower, hrest⟩ := Cursor.shows_pastSemicolon hrest hvs
  rw [← hlevels] at hst
  -- The run that reads the sentence reads the clause in its first round.
  obtain ⟨ho, hbooks, hcursor⟩ := Session.round_of_clause hst hus hpower
  obtain ⟨t, ht, hrun⟩ := Session.roundsFrom_of_sentence h [] hlevels hshows
  rw [Session.roundsFrom_of_round (Session.current_ne_eof hst hus) ho] at hrun
  have hclean : (Session.roundsFrom [st] s.round.2).2.diagnosed = s.round.2.diagnosed := by
    rw [hrun, Session.diagnosed_of_ledger hbooks]
    exact ht
  have heof : ∀ t ∈ ts, t.kind ≠ .eof := by
    intro v hv
    refine h.kind_ne_eof v (List.mem_append_right us ?_)
    rcases hvs with ⟨t, -, rfl⟩ | ⟨rfl, -⟩
    · exact List.mem_cons_of_mem t hv
    · exact hv
  obtain ⟨ss', hss', hout⟩ := Session.sentence_of_roundsFrom [st] s.round.2 hclean
    (by rw [hcursor]; exact hrest) heof
  rw [Session.levels_of_ledger hbooks, hlevels] at hss'
  rw [hrun] at hout
  exact ⟨ss', hout, hss'⟩

end Precedence
