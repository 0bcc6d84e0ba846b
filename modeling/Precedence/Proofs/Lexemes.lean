import Precedence.Proofs.Scanning

/-!
# The lexemes of a text

A text is cut into lexemes without loss.  Those that are no blanks are its tokens, and what a token
says is what its lexeme is made of.
-/

namespace Precedence

open Text

/-! ## What a lexeme is made of -/

theorem Pattern.match?_prefix {p : Pattern} {cs text : List Char} (h : p.match? cs = some text) :
    text <+: cs := by
  match p, cs with
  | .word, c :: cs | .number, c :: cs | .blank, c :: cs =>
    simp only [match?] at h
    split at h
    · cases h
      exact (List.prefix_cons_inj c).2 (List.takeWhile_prefix _)
    · cases h
  | .fixed k t, c :: cs =>
    simp only [match?] at h
    split at h
    next hprefix =>
      cases h
      exact List.isPrefixOf_iff_prefix.1 hprefix
    next => cases h
  | .word, [] | .number, [] | .blank, [] | .fixed _ _, [] => simp [match?] at h

theorem Lexeme.ofHead_text_prefix (c : Char) (cs : List Char) :
    (Lexeme.ofHead c cs).text <+: c :: cs := by
  unfold Lexeme.ofHead
  split
  next p text h => exact Pattern.match?_prefix (mem_of_firstMatch? h).2
  next => exact (List.prefix_cons_inj c).2 (List.nil_prefix)

theorem isWordPart_iff {c : Char} :
    isWordPart c = true ↔ isWordStart c = true ∨ c.isDigit = true := by
  simp only [isWordPart, isWordStart, Char.isAlphanum, Bool.or_eq_true]
  exact or_right_comm

theorem not_isBlank_of_isWordPart {c : Char} (h : isWordPart c = true) : isBlank c = false := by
  rw [Bool.eq_false_iff]
  intro hblank
  rcases isWordPart_iff.1 h with hstart | hdigit
  · rw [not_isWordStart_of_isBlank hblank] at hstart
    cases hstart
  · rw [not_isDigit_of_isBlank hblank] at hdigit
    cases hdigit

/-- What holds of all kinds and texts in the table. -/
theorem Pattern.of_mem_fixed (P : Kind → String → Bool)
    (h : (patterns.all fun | .fixed kind text => P kind text | _ => true) = true) {kind : Kind}
    {text : String} (hmem : .fixed kind text ∈ patterns) : P kind text = true :=
  List.all_eq_true.1 h _ hmem

theorem not_isBlank_of_mem_patterns {kind : Kind} {text : String}
    (h : .fixed kind text ∈ patterns) : ∀ c ∈ text.toList, isBlank c = false := by
  have hall := Pattern.of_mem_fixed (fun _ s => s.toList.all fun c => !isBlank c) (by decide) h
  intro c hc
  simpa using List.all_eq_true.1 hall c hc

/-- A token says what its lexeme says, and holds no blank. -/
theorem text_of_match {p : Pattern} (hp : p ∈ patterns) {cs text : List Char}
    (hm : p.match? cs = some text) {t : Token} (ht : p.token? text = some t) :
    t.text.toList = text ∧ ∀ c ∈ text, isBlank c = false := by
  match p, cs with
  | .word, c :: cs =>
    simp only [Pattern.match?] at hm
    split at hm
    next hc =>
      cases hm
      cases ht
      refine ⟨String.toList_ofList, List.forall_mem_cons.2 ⟨?_, fun d hd => ?_⟩⟩
      · exact not_isBlank_of_isWordPart (isWordPart_iff.2 (.inl hc))
      · exact not_isBlank_of_isWordPart (List.all_eq_true.1 List.all_takeWhile d hd)
    next => cases hm
  | .number, c :: cs =>
    simp only [Pattern.match?] at hm
    split at hm
    next hc =>
      cases hm
      cases ht
      refine ⟨String.toList_ofList, List.forall_mem_cons.2 ⟨?_, fun d hd => ?_⟩⟩
      · exact not_isBlank_of_isWordPart (isWordPart_iff.2 (.inr hc))
      · have hdigit := List.all_eq_true.1 List.all_takeWhile d hd
        exact not_isBlank_of_isWordPart (isWordPart_iff.2 (.inr hdigit))
    next => cases hm
  | .fixed k s, c :: cs =>
    simp only [Pattern.match?] at hm
    split at hm
    next =>
      cases hm
      cases ht
      exact ⟨rfl, not_isBlank_of_mem_patterns hp⟩
    next => cases hm
  | .blank, c :: cs => cases ht
  | .word, [] | .number, [] | .blank, [] | .fixed _ _, [] => cases hm

theorem not_isBlank_of_firstMatch? {c : Char} {cs : List Char}
    (h : firstMatch? (c :: cs) = none) : isBlank c = false := by
  have hblank := List.findSome?_eq_none_iff.1 h .blank (by decide)
  rw [Option.map_eq_none_iff, Pattern.match?] at hblank
  split at hblank
  next => cases hblank
  next hc => exact Bool.not_eq_true _ ▸ hc

theorem text_of_ofHead {c : Char} {cs : List Char} {t : Token}
    (ht : (Lexeme.ofHead c cs).token? = some t) :
    t.text.toList = (Lexeme.ofHead c cs).text ∧
      ∀ d ∈ (Lexeme.ofHead c cs).text, isBlank d = false := by
  unfold Lexeme.ofHead at ht ⊢
  split at ht
  next p text hmatch =>
    obtain ⟨hp, hm⟩ := mem_of_firstMatch? hmatch
    exact text_of_match hp hm ht
  next hmatch =>
    cases ht
    exact ⟨String.toList_singleton c, by simpa using not_isBlank_of_firstMatch? hmatch⟩

/-- What has no token is a run of blanks. -/
theorem isBlank_of_ofHead {c : Char} {cs : List Char} (h : (Lexeme.ofHead c cs).token? = none) :
    ∀ d ∈ (Lexeme.ofHead c cs).text, isBlank d = true := by
  unfold Lexeme.ofHead at h ⊢
  split at h
  next p text hmatch =>
    obtain ⟨hp, hm⟩ := mem_of_firstMatch? hmatch
    cases p with
    | blank =>
      simp only [Pattern.match?] at hm
      split at hm
      next hc =>
        cases hm
        exact List.forall_mem_cons.2 ⟨hc, List.all_eq_true.1 List.all_takeWhile⟩
      next => cases hm
    | word | number | fixed => cases h
  next => cases h

theorem mem_text_ofHead (c : Char) (cs : List Char) : c ∈ (Lexeme.ofHead c cs).text := by
  have hprefix := Lexeme.ofHead_text_prefix c cs
  cases htext : (Lexeme.ofHead c cs).text with
  | nil => exact absurd htext (Lexeme.ofHead_text_ne_nil c cs)
  | cons d ds =>
    rw [htext] at hprefix
    rw [(List.cons_prefix_cons.1 hprefix).1]
    exact List.mem_cons_self

/-- Only a blank is part of no token. -/
theorem exists_token_iff (c : Char) (cs : List Char) :
    (∃ t, (Lexeme.ofHead c cs).token? = some t) ↔ isBlank c = false := by
  constructor
  · rintro ⟨t, ht⟩
    exact (text_of_ofHead ht).2 c (mem_text_ofHead c cs)
  · intro hc
    cases ht : (Lexeme.ofHead c cs).token? with
    | some t => exact ⟨t, rfl⟩
    | none =>
      rw [isBlank_of_ofHead ht c (mem_text_ofHead c cs)] at hc
      cases hc

/-! ## The lexemes of a text -/

/-- The pieces a text is cut into, blank runs included. -/
def lexemes : List Char → List Lexeme
  | [] => []
  | c :: cs => Lexeme.ofHead c cs :: lexemes ((c :: cs).drop (Lexeme.ofHead c cs).text.length)
termination_by cs => cs.length
decreasing_by exact Lexeme.length_drop_lt c cs

theorem text_append_drop (c : Char) (cs : List Char) :
    (Lexeme.ofHead c cs).text ++ (c :: cs).drop (Lexeme.ofHead c cs).text.length = c :: cs := by
  obtain ⟨rest, hrest⟩ := Lexeme.ofHead_text_prefix c cs
  rw [← hrest, List.drop_left]

theorem lexemes_ne_nil {cs : List Char} (h : cs ≠ []) : lexemes cs ≠ [] := by
  cases cs with
  | nil => exact absurd rfl h
  | cons c cs =>
    rw [lexemes]
    exact List.cons_ne_nil _ _

/-- Nothing of a text is lost in its lexemes. -/
theorem flatMap_lexemes (cs : List Char) : (lexemes cs).flatMap Lexeme.text = cs := by
  fun_induction lexemes cs with
  | case1 => rfl
  | case2 c cs ih => rw [List.flatMap_cons, ih, text_append_drop]

theorem tokensOf_cons (c : Char) (cs : List Char) :
    tokensOf (c :: cs) = (Lexeme.ofHead c cs).token?.toList ++
      tokensOf ((c :: cs).drop (Lexeme.ofHead c cs).text.length) := by
  cases ht : (Lexeme.ofHead c cs).token? with
  | some t =>
    have hread : readToken (c :: cs) = (t, (c :: cs).drop (Lexeme.ofHead c cs).text.length) := by
      rw [readToken, ht]
    have hlexed : Lexed t := .of_ofHead ht
    rw [tokensOf_of_ne (by rw [hread]; exact hlexed.kind_ne_eof), hread]
    rfl
  | none =>
    have hread : readToken (c :: cs) =
        readToken ((c :: cs).drop (Lexeme.ofHead c cs).text.length) := by
      rw [readToken, ht]
    rw [tokensOf, tokensOf.eq_def (List.drop _ _), hread]
    rfl

/-- The tokens are those of the lexemes one by one. -/
theorem filterMap_lexemes (cs : List Char) :
    (lexemes cs).filterMap Lexeme.token? = tokensOf cs := by
  fun_induction lexemes cs with
  | case1 => exact tokensOf_nil.symm
  | case2 c cs ih =>
    rw [tokensOf_cons, ← ih, List.filterMap_cons]
    cases (Lexeme.ofHead c cs).token? <;> rfl

theorem exists_ofHead_of_mem_lexemes {cs : List Char} {l : Lexeme} (h : l ∈ lexemes cs) :
    ∃ c ds, l = Lexeme.ofHead c ds := by
  fun_induction lexemes cs with
  | case1 => cases h
  | case2 c cs ih =>
    cases h with
    | head => exact ⟨c, cs, rfl⟩
    | tail _ h => exact ih h

/-- A token says something, and nothing blank. -/
theorem text_of_mem_tokensOf {cs : List Char} {t : Token} (h : t ∈ tokensOf cs) :
    (∃ c, c ∈ t.text.toList) ∧ ∀ c ∈ t.text.toList, isBlank c = false := by
  rw [← filterMap_lexemes] at h
  obtain ⟨l, hl, ht⟩ := List.mem_filterMap.1 h
  obtain ⟨c, ds, rfl⟩ := exists_ofHead_of_mem_lexemes hl
  obtain ⟨htext, hblank⟩ := text_of_ofHead ht
  rw [htext]
  exact ⟨⟨c, mem_text_ofHead c ds⟩, hblank⟩

theorem tokensOf_blanks {bs : List Char} (h : ∀ b ∈ bs, isBlank b = true) (cs : List Char) :
    tokensOf (bs ++ cs) = tokensOf cs := by
  induction bs with
  | nil => rfl
  | cons b bs ih =>
    obtain ⟨hb, hbs⟩ := List.forall_mem_cons.1 h
    rw [List.cons_append, tokensOf_blank hb, ih hbs]

end Precedence
