import Mathlib.Data.List.Chain
import Precedence.Proofs.Rendering

/-!
# Statements side by side

A program is rendered with nothing between its statements, so two of them may grow together: a name
with a word or a number behind it, or a number with another.  Where no two do, and only there,
reading the rendering gives the program again.
-/

namespace Precedence

open Text

namespace Stmt

/-- A name or a number alone takes in what the statement behind it starts with. -/
def glues : Stmt → Stmt → Bool
  | .expression _ (some (.identifier _)), next => next.render.toList.head?.any isWordPart
  | .expression _ (some (.integer _ _)), .expression _ (some (.integer _ _)) => true
  | _, _ => false

/-- An expression alone has the token that its rendering starts with. -/
def rendered : Stmt → Stmt
  | .expression _ value => .expression (readToken (renderValue value).toList).1 value
  | .letBinding token name value => .letBinding token name value
  | .returnValue token value => .returnValue token value

variable {st : Stmt}

theorem glues_of_ne_expression (h : ∀ t v, st ≠ .expression t v) (next : Stmt) :
    st.glues next = false := by
  cases st with
  | letBinding | returnValue => rfl
  | expression t v => exact absurd rfl (h t v)

theorem rendered_of_ne_expression (h : ∀ t v, st ≠ .expression t v) : st.rendered = st := by
  cases st with
  | letBinding | returnValue => rfl
  | expression t v => exact absurd rfl (h t v)

/-! ## Statements that can be read -/

inductive Lexable : Stmt → Prop
  | letBinding {s e} (hname : IsName s) (he : Expr.Lexable e) :
      Lexable (.letBinding ⟨.let, "let"⟩ ⟨⟨.identifier, s⟩, s⟩ (some e))
  | returnValue {e} (he : Expr.Lexable e) : Lexable (.returnValue ⟨.return, "return"⟩ (some e))
  | expression {t e} (he : Expr.Lexable e) : Lexable (.expression t (some e))

/-- Whether a character that follows the rendering at once becomes part of its last token. -/
def runsOn : Stmt → Char → Bool
  | .expression _ (some e), c => e.runsOn c
  | _, _ => false

def writtenValue (value : Option Expr) : List Token := (value.map Expr.written).getD []

/-- What is written without the semicolon. -/
def clause : Stmt → List Token
  | .letBinding token name value => token :: name.token :: ⟨.assign, "="⟩ :: writtenValue value
  | .returnValue token value => token :: writtenValue value
  | .expression _ value => writtenValue value

/-- The tokens of the rendering. -/
def written : Stmt → List Token
  | .expression _ value => writtenValue value
  | st => st.clause ++ [⟨.semicolon, ";"⟩]

end Stmt

variable {st next : Stmt} {ss : List Stmt}

/-! ## Scanning a rendering -/

-- Both keywords, and the equals sign, are written with a space behind them.
theorem tokensOf_let (cs : List Char) :
    tokensOf ('l' :: 'e' :: 't' :: ' ' :: cs) = ⟨.let, "let"⟩ :: tokensOf cs := by
  rw [← tokensOf_space cs]
  exact tokensOf_of_head rfl rfl

theorem tokensOf_return (cs : List Char) :
    tokensOf ('r' :: 'e' :: 't' :: 'u' :: 'r' :: 'n' :: ' ' :: cs) =
      ⟨.return, "return"⟩ :: tokensOf cs := by
  rw [← tokensOf_space cs]
  exact tokensOf_of_head rfl rfl

theorem tokensOf_assign (cs : List Char) :
    tokensOf ('=' :: ' ' :: cs) = ⟨.assign, "="⟩ :: tokensOf cs := by
  rw [← tokensOf_space cs]
  exact tokensOf_of_head rfl rfl

namespace Stmt

theorem toList_render_letBinding (s : String) (e : Expr) :
    (letBinding ⟨.let, "let"⟩ ⟨⟨.identifier, s⟩, s⟩ (some e)).render.toList =
      'l' :: 'e' :: 't' :: ' ' ::
        (s.toList ++ ' ' :: '=' :: ' ' :: (e.render.toList ++ [';'])) := by
  simp [render, renderValue]

theorem toList_render_returnValue (e : Expr) :
    (returnValue ⟨.return, "return"⟩ (some e)).render.toList =
      'r' :: 'e' :: 't' :: 'u' :: 'r' :: 'n' :: ' ' :: (e.render.toList ++ [';']) := by
  simp [render, renderValue]

end Stmt

namespace Stmt.Lexable

theorem render_head (h : st.Lexable) : ∃ c cs, st.render.toList = c :: cs ∧ Leads c := by
  cases h with
  | letBinding => exact ⟨'l', _, toList_render_letBinding _ _, .inl (by decide)⟩
  | returnValue => exact ⟨'r', _, toList_render_returnValue _, .inl (by decide)⟩
  | expression he => exact he.render_head

theorem tokensOf_render (h : st.Lexable) {rest : List Char}
    (hrest : ∀ c ∈ rest.head?, st.runsOn c = false) :
    tokensOf (st.render.toList ++ rest) = st.written ++ tokensOf rest := by
  cases h with
  | @letBinding s e hname he =>
    have hspace {cs : List Char} : ∀ c ∈ (' ' :: cs).head?, isWordPart c = false := by
      intro c hc
      cases hc
      decide
    have hend := e.not_runsOn_head (by decide : isWordPart ';' = false) rest
    rw [toList_render_letBinding]
    simp only [List.cons_append, List.append_assoc, List.nil_append]
    rw [tokensOf_let, tokensOf_word hname.1 hspace, tokensOf_space, tokensOf_assign,
      he.tokensOf_render hend, tokensOf_semicolon, ofWord_of_isName hname]
    simp [written, clause, writtenValue]
  | @returnValue e he =>
    have hend := e.not_runsOn_head (by decide : isWordPart ';' = false) rest
    rw [toList_render_returnValue]
    simp only [List.cons_append, List.append_assoc, List.nil_append]
    rw [tokensOf_return, he.tokensOf_render hend, tokensOf_semicolon]
    simp [written, clause, writtenValue]
  | expression he => exact he.tokensOf_render hrest

variable {c : Char} {cs : List Char}

/-- Only a number alone starts with a digit. -/
theorem glues_integer (h : st.Lexable) (hc : st.render.toList = c :: cs) {t u : Token} {v : Int} :
    glues (.expression t (some (.integer u v))) st = c.isDigit := by
  cases h with
  | letBinding =>
    rw [toList_render_letBinding] at hc
    obtain ⟨rfl, -⟩ := List.cons.inj hc
    rfl
  | returnValue =>
    rw [toList_render_returnValue] at hc
    obtain ⟨rfl, -⟩ := List.cons.inj hc
    rfl
  | @expression t e he =>
    have hc : e.render.toList = c :: cs := hc
    -- A name cannot start with a digit, and what has operators starts with its parenthesis.
    cases he with
    | @identifier s h =>
      obtain ⟨⟨d, ds, hs, hd, -⟩, -⟩ := h
      obtain ⟨rfl, -⟩ := List.cons.inj (hs.symm.trans hc)
      exact (not_isDigit_of_isWordStart hd).symm
    | @integer s h hv =>
      have hs : s.toList = c :: cs := hc
      rw [hs] at h
      exact (h.2 c List.mem_cons_self).symm
    | unary =>
      rw [Expr.toList_render_unary] at hc
      obtain ⟨rfl, -⟩ := List.cons.inj hc
      rfl
    | binary =>
      rw [Expr.toList_render_binary] at hc
      obtain ⟨rfl, -⟩ := List.cons.inj hc
      rfl

/-- Two statements grow together where the second goes on with the last token of the first. -/
theorem glues_eq (h : st.Lexable) (hnext : next.Lexable) (hc : next.render.toList = c :: cs) :
    st.glues next = st.runsOn c := by
  cases h with
  | letBinding | returnValue => rfl
  | expression he =>
    cases he with
    | identifier =>
      show next.render.toList.head?.any isWordPart = isWordPart c
      rw [hc]
      rfl
    | integer => exact hnext.glues_integer hc
    | unary | binary => rfl

end Stmt.Lexable

/-! ## Tokens that grow -/

/-- A run of characters of one class takes in one more of them. -/
theorem readToken_ne_of_run {q : Char → Bool} {c d : Char} {ds : List Char} {t : List Char → Token}
    (hhead : ∀ cs, Lexeme.ofHead d cs = ⟨d :: cs.takeWhile q, some (t cs)⟩)
    (htext : ∀ cs, (t cs).text = .ofList (d :: cs.takeWhile q)) (hds : ∀ x ∈ ds, q x = true)
    (hc : q c = true) (rest : List Char) :
    (readToken (d :: ds ++ c :: rest)).1 ≠ (readToken (d :: ds)).1 := by
  have hread (cs : List Char) : (readToken (d :: cs)).1 = t cs := by rw [readToken, hhead]
  rw [List.cons_append, hread, hread]
  intro h
  have hlen := congrArg (fun t => t.text.toList.length) h
  have hle := (List.takeWhile_prefix q : ds.takeWhile q <+: ds).length_le
  simp only [htext, String.toList_ofList, List.takeWhile_append_of_pos hds,
    List.takeWhile_cons_of_pos hc, List.length_cons, List.length_append] at hlen
  omega

theorem Expr.Lexable.readToken_ne_of_runsOn {e : Expr} (h : e.Lexable) {c : Char}
    (hc : e.runsOn c = true) (rest : List Char) :
    (readToken (e.render.toList ++ c :: rest)).1 ≠ (readToken e.render.toList).1 := by
  cases h with
  | @identifier s h =>
    obtain ⟨⟨d, ds, hs, hd, hds⟩, -⟩ := h
    show (readToken (s.toList ++ c :: rest)).1 ≠ (readToken s.toList).1
    rw [hs]
    exact readToken_ne_of_run (fun _ => ofHead_word hd) (fun _ => rfl) hds hc rest
  | @integer s h hv =>
    show (readToken (s.toList ++ c :: rest)).1 ≠ (readToken s.toList).1
    cases hs : s.toList with
    | nil => exact absurd hs h.1
    | cons d ds =>
      rw [hs] at h
      obtain ⟨hd, hds⟩ := List.forall_mem_cons.1 h.2
      exact readToken_ne_of_run (fun _ => ofHead_number hd) (fun _ => rfl) hds hc rest
  | unary | binary => cases hc

/-! ## Sentences of renderings -/

theorem ReadingWithin.mono {M N : Nat} {us : List Token} {e : Expr} (h : ReadingWithin M us e)
    (hMN : M ≤ N) : ReadingWithin N us e := by
  obtain ⟨k, n, q, hr, hn⟩ := h
  exact ⟨k, n, q, hr, Nat.le_trans hn hMN⟩

/-- What starts like a rendering goes on with no statement in front of it. -/
theorem apart_tokensOf {cs : List Char} (hcs : ∀ c ∈ cs.head?, Leads c) : Apart (tokensOf cs) := by
  intro t ht
  have hfirst := head_tokensOf ht
  cases cs with
  | nil =>
    rw [tokensOf_nil] at ht
    cases ht
  | cons c cs =>
    have hkind : (readToken (c :: cs)).1.kind ∈
        [Kind.let, .return, .identifier, .int, .openParen] := by
      rw [readToken]
      rcases hcs c rfl with hc | hc | rfl
      · rw [ofHead_word hc]
        show (Token.ofWord _).kind ∈ _
        rw [kind_ofWord]
        split
        · decide
        · split <;> decide
      · rw [ofHead_number hc]
        show Kind.int ∈ _
        decide
      · show Kind.openParen ∈ _
        decide
    have hall : ∀ k ∈ [Kind.let, .return, .identifier, .int, .openParen],
        k ≠ .semicolon ∧ Rules.standard.power k ≤ .lowest := by decide
    rw [← hfirst]
    exact hall _ hkind

variable {N : Nat} {us vs ts : List Token}

/-- Without its semicolon, if there is one, a statement is its clause. -/
theorem Clause.filter_eq (h : Clause (ReadingWithin N) us st)
    (hvs : vs = us ∨ ∃ c, c.kind = .semicolon ∧ vs = us ++ [c]) :
    vs.filter (fun t => t.kind != .semicolon) = us := by
  have hus : us.filter (fun t => t.kind != .semicolon) = us :=
    List.filter_eq_self.2 fun t ht => bne_iff_ne.2 (h.kind_ne_semicolon t ht)
  rcases hvs with rfl | ⟨c, hc, rfl⟩
  · exact hus
  · rw [List.filter_append, hus, List.filter_singleton, hc]
    exact List.append_nil us

namespace Stmt

theorem written_eq (st : Stmt) :
    st.written = st.clause ∨ ∃ c, c.kind = .semicolon ∧ st.written = st.clause ++ [c] := by
  cases st with
  | letBinding | returnValue => exact .inr ⟨_, rfl, rfl⟩
  | expression => exact .inl rfl

/-- A statement in front of a sentence makes a sentence, and what is behind the statement in one is
a sentence. -/
theorem sentence_written_append (hst : Clause (ReadingWithin N) st.clause st.rendered)
    (hts : Apart ts) :
    Sentence (ReadingWithin N) (st.written ++ ts) (st.rendered :: ss) ↔
      Sentence (ReadingWithin N) ts ss := by
  constructor
  · intro h
    -- The semicolon, if there is one, goes with the statement.
    obtain ⟨ss', hss, hsentence⟩ : ∃ ss', st.rendered :: ss = st.rendered :: ss' ∧
        Sentence (ReadingWithin N) ts ss' := by
      rcases st.written_eq with hwritten | ⟨c, hc, hwritten⟩
      · rw [hwritten] at h
        exact h.behind hst (.inr ⟨rfl, hts⟩)
      · rw [hwritten, List.append_assoc] at h
        exact h.behind hst (.inl ⟨c, hc, rfl⟩)
    rwa [(List.cons.inj hss).2]
  · intro h
    rcases st.written_eq with hwritten | ⟨c, hc, hwritten⟩
    · rw [hwritten]
      refine .opened hst (fun t ht hminus => ?_) h
      have hpower := (hts t ht).2
      rw [hminus] at hpower
      exact absurd hpower (by decide)
    · rw [hwritten, List.append_assoc]
      exact .closed hst hc h

end Stmt

namespace Stmt.Lexable

theorem tokensOf_render_alone (h : st.Lexable) : tokensOf st.render.toList = st.written := by
  have htokens : tokensOf (st.render.toList ++ []) = st.written ++ tokensOf [] :=
    h.tokensOf_render (by simp)
  rwa [tokensOf_nil, List.append_nil, List.append_nil] at htokens

/-- With levels enough a rendering without its semicolon is a clause. -/
theorem exists_clause (h : st.Lexable) : ∃ M, Clause (ReadingWithin M) st.clause st.rendered := by
  have hread {e : Expr} (he : e.Lexable) : ReadingWithin e.cost e.written e :=
    ⟨0, e.cost, .call, he.reading .lowest, Nat.le_refl _⟩
  cases h with
  | @letBinding s e hname he => exact ⟨e.cost, .letBinding rfl rfl rfl (hread he)⟩
  | @returnValue e he => exact ⟨e.cost, .returnValue rfl (hread he)⟩
  | @expression t e he =>
    obtain ⟨u, us, hus⟩ := e.written_eq_cons
    have hfirst : (readToken e.render.toList).1 = u := by
      apply head_tokensOf
      rw [he.tokensOf_render_alone, hus]
      rfl
    refine ⟨e.cost, ?_⟩
    -- The token that the statement is given is the one that the clause starts with.
    show Clause _ e.written (.expression (readToken e.render.toList).1 (some e))
    have hwritten := hread he
    rw [hus] at hwritten ⊢
    rw [hfirst]
    exact .expression hwritten

/-- Levels that suffice for the rendering on its own suffice for its clause. -/
theorem clause_of_parse (h : st.Lexable)
    (hd : (parse N (Scanner.ofString st.render)).2.diagnostics = []) :
    Clause (ReadingWithin N) st.clause st.rendered := by
  obtain ⟨ss, hss⟩ : ∃ ss, Sentence (ReadingWithin N) st.written ss := by
    rw [← h.tokensOf_render_alone]
    exact ⟨_, parse_text_iff_sentence.1 ⟨hd, rfl⟩⟩
  obtain ⟨M, hM⟩ := h.exists_clause
  have hwide : Clause (ReadingWithin (max M N)) st.clause st.rendered :=
    hM.mono fun _ _ _ hread => hread.mono (Nat.le_max_left M N)
  -- On more levels than either needs, the statement is what was read.
  have hsame : ss = [st.rendered] := by
    have hmore : Sentence (ReadingWithin (max M N)) st.written ss :=
      hss.mono fun _ _ _ hread => hread.mono (Nat.le_max_right M N)
    have halone : Sentence (ReadingWithin (max M N)) (st.written ++ []) [st.rendered] :=
      (sentence_written_append hwide apart_nil).2 .nil
    rw [List.append_nil] at halone
    exact hmore.unique halone
  rw [hsame] at hss
  obtain ⟨us, hus, hwritten⟩ := hss.of_singleton
  rwa [← hus.filter_eq hwritten, hwide.filter_eq st.written_eq] at hus

end Stmt.Lexable

/-! ## Programs -/

theorem toList_render_cons (st : Stmt) (ss : List Stmt) :
    (Program.mk (st :: ss)).render.toList =
      st.render.toList ++ (Program.mk ss).render.toList := by
  rw [Program.render, List.map_cons, String.join_cons, String.toList_append]
  rfl

/-- A program's rendering starts with that of its first statement. -/
theorem exists_of_head_render (hss : ∀ st ∈ ss, st.Lexable) {c : Char}
    (hc : c ∈ (Program.mk ss).render.toList.head?) :
    ∃ next ∈ ss.head?, ∃ cs, next.render.toList = c :: cs ∧ Leads c := by
  cases ss with
  | nil => cases hc
  | cons next ss =>
    obtain ⟨d, ds, hd, hleads⟩ := (hss next List.mem_cons_self).render_head
    rw [toList_render_cons, hd] at hc
    cases hc
    exact ⟨next, rfl, ds, hd, hleads⟩

/-- What two statements that grow together are read as does not start with the first. -/
theorem not_sentence_of_glues (hst : st.Lexable) (hnext : next.Lexable)
    (hglues : st.glues next = true) (rest : List Char) :
    ¬ Sentence (ReadingWithin N) (tokensOf (st.render.toList ++ (next.render.toList ++ rest)))
      (st.rendered :: ss) := by
  intro h
  obtain ⟨c, cs, hc, -⟩ := hnext.render_head
  rw [hst.glues_eq hnext hc] at hglues
  rw [hc] at h
  cases hst with
  | letBinding | returnValue => cases hglues
  | @expression t e he =>
    exact he.readToken_ne_of_runsOn hglues (cs ++ rest) (head_tokensOf h.head?_of_expression)

/-- The renderings of statements, one behind the other, say the statements exactly where no two grow
together. -/
theorem sentence_render_iff (hss : ∀ st ∈ ss, st.Lexable)
    (hclause : ∀ st ∈ ss, Clause (ReadingWithin N) st.clause st.rendered) :
    Sentence (ReadingWithin N) (tokensOf (Program.mk ss).render.toList) (ss.map Stmt.rendered) ↔
      ss.IsChain fun st next => st.glues next = false := by
  -- By induction on the statements: either the first is cut off and what is left is read on its own,
  -- or the first token is another one already.
  induction ss with
  | nil =>
    have htokens : tokensOf (Program.mk []).render.toList = [] := tokensOf_nil
    rw [htokens]
    exact iff_of_true .nil .nil
  | cons st ss ih =>
    obtain ⟨hst, hss⟩ := List.forall_mem_cons.1 hss
    obtain ⟨hclause, hclauses⟩ := List.forall_mem_cons.1 hclause
    rw [List.isChain_cons, ← ih hss hclauses, toList_render_cons, List.map_cons]
    by_cases hglues : ∀ next ∈ ss.head?, st.glues next = false
    · have hruns : ∀ c ∈ (Program.mk ss).render.toList.head?, st.runsOn c = false := by
        intro c hc
        obtain ⟨next, hnext, cs, hcs, -⟩ := exists_of_head_render hss hc
        rw [← hst.glues_eq (hss next (List.mem_of_mem_head? hnext)) hcs]
        exact hglues next hnext
      have hapart : Apart (tokensOf (Program.mk ss).render.toList) := by
        apply apart_tokensOf
        intro c hc
        obtain ⟨-, -, -, -, hleads⟩ := exists_of_head_render hss hc
        exact hleads
      rw [hst.tokensOf_render hruns, Stmt.sentence_written_append hclause hapart]
      exact (and_iff_right hglues).symm
    · refine iff_of_false ?_ fun h => hglues h.1
      cases ss with
      | nil => exact absurd (by simp) hglues
      | cons next ss =>
        have htrue : st.glues next = true := by simpa using hglues
        rw [toList_render_cons]
        exact not_sentence_of_glues hst (hss next List.mem_cons_self) htrue _

/-! ## What was read -/

/-- A token of a text is a keyword only if it is written as one. -/
theorem Lexed.mem_keywords {t : Token} (h : Lexed t) (ht : t.kind = .let ∨ t.kind = .return) :
    (t.text, t.kind) ∈ keywords := by
  cases h with
  | @word w h =>
    show (w, (Token.ofWord w).kind) ∈ keywords
    rw [kind_ofWord] at ht ⊢
    by_cases hlet : w = "let"
    · subst hlet
      decide
    · by_cases hreturn : w = "return"
      · subst hreturn
        decide
      · rw [if_neg hlet, if_neg hreturn] at ht
        simp at ht
  | number => simp at ht
  | @fixed kind text h =>
    rcases ht with hkind | hkind <;> cases hkind <;> simp [patterns] at h
  | illegal => simp at ht

theorem Lexed.eq_let {t : Token} (h : Lexed t) (ht : t.kind = .let) : t = ⟨.let, "let"⟩ := by
  have hmem := h.mem_keywords (.inl ht)
  obtain ⟨kind, text⟩ := t
  cases ht
  obtain rfl : text = "let" := by simpa [keywords] using hmem
  rfl

theorem Lexed.eq_return {t : Token} (h : Lexed t) (ht : t.kind = .return) :
    t = ⟨.return, "return"⟩ := by
  have hmem := h.mem_keywords (.inr ht)
  obtain ⟨kind, text⟩ := t
  cases ht
  obtain rfl : text = "return" := by simpa [keywords] using hmem
  rfl

/-- The tokens of a text make statements of what can be rendered and read again. -/
theorem Clause.lexable (h : Clause (ReadingWithin N) us st) (hus : ∀ t ∈ us, Lexed t) :
    st.Lexable := by
  have hread {vs : List Token} {e : Expr} (he : ReadingWithin N vs e) (hvs : ∀ t ∈ vs, Lexed t) :
      e.Lexable := by
    obtain ⟨k, n, q, hr, -⟩ := he
    exact hr.lexable hvs
  cases h with
  | @letBinding l name a vs e hl hname ha he =>
    obtain ⟨hlet, hrest⟩ := List.forall_mem_cons.1 hus
    obtain ⟨hlexed, hvs⟩ := List.forall_mem_cons.1 hrest
    have hisName := hlexed.isName hname
    obtain ⟨kind, s⟩ := name
    cases hname
    rw [hlet.eq_let hl]
    exact .letBinding hisName (hread he (List.forall_mem_cons.1 hvs).2)
  | returnValue hr he =>
    obtain ⟨hreturn, hvs⟩ := List.forall_mem_cons.1 hus
    rw [hreturn.eq_return hr]
    exact .returnValue (hread he hvs)
  | expression he => exact .expression (hread he hus)

theorem Sentence.lexable (h : Sentence (ReadingWithin N) ts ss) (hts : ∀ t ∈ ts, Lexed t) :
    ∀ st ∈ ss, st.Lexable := by
  induction h with
  | nil => exact List.forall_mem_nil _
  | closed hst hc hss ih =>
    obtain ⟨hus, hrest⟩ := List.forall_mem_append.1 hts
    exact List.forall_mem_cons.2 ⟨hst.lexable hus, ih (List.forall_mem_cons.1 hrest).2⟩
  | opened hst hminus hss ih =>
    obtain ⟨hus, hrest⟩ := List.forall_mem_append.1 hts
    exact List.forall_mem_cons.2 ⟨hst.lexable hus, ih hrest⟩

/-- A program that has been read without a diagnostic is what its rendering is read as, but for the
tokens of expressions that stand alone, exactly where no two statements side by side grow together;
the limit only has to suffice for each statement on its own.  Statements that end in semicolons
never grow together. -/
theorem parse_render_program {limit₀ limit : Nat} {text : String}
    (hd : (parse limit₀ (Scanner.ofString text)).2.diagnostics = [])
    (hlimit : ∀ st ∈ (parse limit₀ (Scanner.ofString text)).1.statements,
      (parse limit (Scanner.ofString st.render)).2.diagnostics = []) :
    let p := (parse limit₀ (Scanner.ofString text)).1
    let again := parse limit (Scanner.ofString p.render)
    (again.2.diagnostics = [] ∧ again.1.statements = p.statements.map Stmt.rendered ↔
      p.statements.IsChain fun st next => st.glues next = false) ∧
    ((∀ st ∈ p.statements, ∀ t v, st ≠ .expression t v) →
      again.2.diagnostics = [] ∧ again.1 = p) := by
  intro p again
  have hsentence : Sentence (ReadingWithin limit₀) (tokensOf text.toList) p.statements :=
    parse_text_iff_sentence.1 ⟨hd, rfl⟩
  have hlexable := hsentence.lexable fun t ht => lexed_of_mem_tokensOf ht
  have hclause : ∀ st ∈ p.statements, Clause (ReadingWithin limit) st.clause st.rendered :=
    fun st hst => (hlexable st hst).clause_of_parse (hlimit st hst)
  have hiff : again.2.diagnostics = [] ∧ again.1.statements = p.statements.map Stmt.rendered ↔
      p.statements.IsChain fun st next => st.glues next = false := by
    rw [← sentence_render_iff hlexable hclause, ← parse_text_iff_sentence]
    exact and_congr_right fun _ => ⟨congrArg Program.mk, congrArg Program.statements⟩
  refine ⟨hiff, fun hclosed => ?_⟩
  have hchain : p.statements.IsChain fun st next => st.glues next = false :=
    List.isChain_iff_getElem.2 fun i _ =>
      Stmt.glues_of_ne_expression (hclosed _ (List.getElem_mem _)) _
  obtain ⟨hagain, hstatements⟩ := hiff.2 hchain
  have hsame : p.statements.map Stmt.rendered = p.statements := by
    rw [List.map_congr_left fun st hst => Stmt.rendered_of_ne_expression (hclosed st hst)]
    exact List.map_id' p.statements
  rw [hsame] at hstatements
  exact ⟨hagain, congrArg Program.mk hstatements⟩

/-- `1 a !b` is rendered as `1a(!b)`, whose tokens are the same but for the parentheses; `a b` would
be rendered as one name. -/
theorem parse_render_program_abutting :
    let p := (parse 256 (Scanner.ofString "1 a !b")).1
    let again := parse 256 (Scanner.ofString p.render)
    (parse 256 (Scanner.ofString "1 a !b")).2.diagnostics = [] ∧
      (∀ st ∈ p.statements, (parse 256 (Scanner.ofString st.render)).2.diagnostics = []) ∧
      p.render = "1a(!b)" ∧ again.2.diagnostics = [] ∧
      again.1.statements = p.statements.map Stmt.rendered := by
  intro p again
  have hd : (parse 256 (Scanner.ofString "1 a !b")).2.diagnostics = [] := by decide +kernel
  have hlimit : ∀ st ∈ p.statements,
      (parse 256 (Scanner.ofString st.render)).2.diagnostics = [] := by decide +kernel
  have hchain : p.statements.IsChain fun st next => st.glues next = false := by decide +kernel
  exact ⟨hd, hlimit, by decide +kernel, (parse_render_program hd hlimit).1.2 hchain⟩

end Precedence
