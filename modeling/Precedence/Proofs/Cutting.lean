import Precedence.Proofs.Lexemes

/-!
# Cutting a text in two

A lexeme depends on the text behind it only as far as that goes on with it.  So the tokens of two
texts are those of the whole unless the second starts with a character that goes on with the last
token of the first, and only then.
-/

namespace Precedence

open Text

namespace Lexeme

/-- Whether a character makes another lexeme of this one if it follows at once. -/
def goesOn (l : Lexeme) (y : Char) : Bool :=
  match l.token? with
  | none => isBlank y
  | some t =>
    match t.kind with
    | .identifier | .let | .return => isWordPart y
    | .int => y.isDigit
    | .assign | .bang => y == '='
    | _ => false

theorem goesOn_word (text : List Char) (w : String) (y : Char) :
    goesOn ⟨text, some (.ofWord w)⟩ y = isWordPart y := by
  rw [goesOn]
  dsimp only
  rw [kind_ofWord]
  by_cases hlet : w = "let"
  · rw [if_pos hlet]
  · by_cases hreturn : w = "return"
    · rw [if_neg hlet, if_pos hreturn]
    · rw [if_neg hlet, if_neg hreturn]

end Lexeme

theorem Lexeme.goesOn_iff {l : Lexeme} {t : Token} (ht : l.token? = some t) {y : Char} :
    l.goesOn y = true ↔
      t.kind ∈ [.identifier, .let, .return] ∧ isWordPart y = true ∨
        t.kind = .int ∧ y.isDigit = true ∨ t.kind ∈ [.assign, .bang] ∧ y = '=' := by
  rw [goesOn, ht]
  dsimp only
  cases t.kind <;> simp

/-- A character that goes on with nothing, whatever stands in front of it. -/
def parts (y : Char) : Bool := !isWordPart y && !isBlank y && y != '='

theorem Lexeme.goesOn_of_parts {y : Char} (h : parts y = true) (l : Lexeme) :
    l.goesOn y = false := by
  simp only [parts, Bool.and_eq_true, Bool.not_eq_true', bne_iff_ne] at h
  obtain ⟨⟨hword, hblank⟩, hequals⟩ := h
  have hdigit := not_isDigit_of_not_isWordPart hword
  unfold goesOn
  split
  · exact hblank
  · split <;> first | exact hword | exact hdigit | exact beq_eq_false_iff_ne.2 hequals | rfl

/-! ## The head of a longer text -/

/-- A run that ends inside a text ends there whatever follows the text. -/
theorem takeWhile_append_stop {q : Char → Bool} {cs rest : List Char}
    (hrest : cs.takeWhile q = cs → ∀ y ∈ rest.head?, q y = false) :
    (cs ++ rest).takeWhile q = cs.takeWhile q := by
  induction cs with
  | nil => exact takeWhile_run (List.forall_mem_nil _) (hrest rfl)
  | cons c cs ih =>
    by_cases hc : q c = true
    · rw [List.cons_append, List.takeWhile_cons_of_pos hc, List.takeWhile_cons_of_pos hc, ih]
      intro hall
      apply hrest
      rw [List.takeWhile_cons_of_pos hc, hall]
    · rw [List.cons_append, List.takeWhile_cons_of_neg hc, List.takeWhile_cons_of_neg hc]

/-- A symbol is told by one more character at most. -/
theorem ofHead_symbol {c : Char} (hword : isWordStart c = false) (hdigit : c.isDigit = false)
    (hblank : isBlank c = false) (cs : List Char) :
    Lexeme.ofHead c cs = Lexeme.ofHead c (cs.take 1) := by
  cases cs with
  | nil => rfl
  | cons d ds =>
    simp [Lexeme.ofHead, firstMatch?, List.findSome?_cons, patterns, Pattern.match?, hword, hdigit,
      hblank]

/-- Only an equals sign, behind another or an exclamation mark, is part of a symbol of two. -/
theorem ofHead_symbol_of_ne {c y : Char} (hword : isWordStart c = false)
    (hdigit : c.isDigit = false) (hblank : isBlank c = false)
    (h : y ≠ '=' ∨ c ≠ '=' ∧ c ≠ '!') : Lexeme.ofHead c [y] = Lexeme.ofHead c [] := by
  rcases h with hy | ⟨hequals, hbang⟩
  · simp [Lexeme.ofHead, firstMatch?, List.findSome?_cons, patterns, Pattern.match?, hword, hdigit,
      hblank, hy.symm]
  · simp [Lexeme.ofHead, firstMatch?, List.findSome?_cons, patterns, Pattern.match?, hword, hdigit,
      hblank, hequals.symm, hbang.symm]

/-- What follows a text does not change the lexeme at its head, unless it goes on with a lexeme that
takes all of the text. -/
theorem ofHead_append {c : Char} {cs rest : List Char}
    (hrest : (Lexeme.ofHead c cs).text = c :: cs →
      ∀ y ∈ rest.head?, (Lexeme.ofHead c cs).goesOn y = false) :
    Lexeme.ofHead c (cs ++ rest) = Lexeme.ofHead c cs := by
  by_cases hword : isWordStart c = true
  · rw [ofHead_word hword] at hrest ⊢
    rw [ofHead_word hword, takeWhile_append_stop]
    intro hall y hy
    rw [← Lexeme.goesOn_word]
    exact hrest (congrArg _ hall) y hy
  rw [Bool.not_eq_true] at hword
  by_cases hdigit : c.isDigit = true
  · rw [ofHead_number hdigit] at hrest ⊢
    rw [ofHead_number hdigit, takeWhile_append_stop]
    intro hall
    exact hrest (congrArg _ hall)
  rw [Bool.not_eq_true] at hdigit
  by_cases hblank : isBlank c = true
  · rw [ofHead_blank hblank] at hrest ⊢
    rw [ofHead_blank hblank, takeWhile_append_stop]
    intro hall
    exact hrest (congrArg _ hall)
  rw [Bool.not_eq_true] at hblank
  rw [ofHead_symbol hword hdigit hblank (cs ++ rest)]
  cases cs with
  | cons d ds => exact (ofHead_symbol hword hdigit hblank (d :: ds)).symm
  | nil =>
    -- Only here can the text that follows show in a symbol: its first character is looked at.
    cases rest with
    | nil => rfl
    | cons y ys =>
      apply ofHead_symbol_of_ne hword hdigit hblank
      by_cases hy : y = '='
      · subst hy
        right
        constructor
        · rintro rfl
          exact Bool.noConfusion (hrest rfl '=' rfl)
        · rintro rfl
          exact Bool.noConfusion (hrest rfl '=' rfl)
      · exact .inl hy

/-! ## A token that is gone on with -/

theorem Lexed.isWord {t : Token} (h : Lexed t) (ht : t.kind ∈ [.identifier, .let, .return]) :
    IsWord t.text := by
  cases h with
  | word h => exact h
  | number => exact absurd ht (by simp)
  | @fixed kind text h =>
    dsimp only at ht
    simp only [List.mem_cons, List.not_mem_nil, or_false] at ht
    rcases ht with rfl | rfl | rfl <;> simp [patterns] at h
  | illegal => exact absurd ht (by simp)

theorem takeWhile_append_cons_ne {q : Char → Bool} {cs : List Char} {y : Char} (ys : List Char)
    (hcs : ∀ c ∈ cs, q c = true) (hy : q y = true) : (cs ++ y :: ys).takeWhile q ≠ cs := by
  intro h
  have hlen := congrArg List.length h
  rw [List.takeWhile_append_of_pos hcs, List.takeWhile_cons_of_pos hy, List.length_append,
    List.length_cons] at hlen
  omega

/-- A token is not the same any more once a character has gone on with it. -/
theorem token?_ne_of_goesOn {c y : Char} {cs : List Char} {t : Token}
    (ht : (Lexeme.ofHead c cs).token? = some t) (hend : (Lexeme.ofHead c cs).text = c :: cs)
    (hy : (Lexeme.ofHead c cs).goesOn y = true) (ys : List Char) :
    (Lexeme.ofHead c (cs ++ y :: ys)).token? ≠ some t := by
  intro hsame
  have hlexed : Lexed t := .of_ofHead ht
  have hchars : t.text.toList = c :: cs := by rw [(text_of_ofHead ht).1, hend]
  -- The token would have to say two things.
  have htext : (Lexeme.ofHead c (cs ++ y :: ys)).text = c :: cs := by
    rw [← (text_of_ofHead hsame).1, hchars]
  rcases (Lexeme.goesOn_iff ht).1 hy with ⟨hkind, hpart⟩ | ⟨hkind, hdigit⟩ | ⟨hkind, rfl⟩
  · obtain ⟨d, ds, hword, hd, hds⟩ := hlexed.isWord hkind
    rw [hchars] at hword
    cases hword
    rw [ofHead_word hd] at htext
    exact takeWhile_append_cons_ne ys hds hpart (List.cons.inj htext).2
  · have hdigits := (hlexed.isDigits hkind).2
    rw [hchars, List.forall_mem_cons] at hdigits
    rw [ofHead_number hdigits.1] at htext
    exact takeWhile_append_cons_ne ys hdigits.2 hdigit (List.cons.inj htext).2
  · have hfixed := hlexed.fixed_mem (by revert hkind; cases t.kind <;> decide)
    simp only [List.mem_cons, List.not_mem_nil, or_false] at hkind
    rcases hkind with hkind | hkind
    · rw [hkind] at hfixed
      have hequals : t.text = "=" := by simpa [patterns] using hfixed
      rw [hequals] at hchars
      cases hchars
      cases htext
    · rw [hkind] at hfixed
      have hbang : t.text = "!" := by simpa [patterns] using hfixed
      rw [hbang] at hchars
      cases hchars
      cases htext

/-! ## The tokens of two texts in one -/

/-- The last token of `cs` reaches its end, and `y` goes on with it. -/
def Joins (cs : List Char) (y : Char) : Prop :=
  ∃ l ∈ (lexemes cs).getLast?, l.token?.isSome ∧ l.goesOn y = true

theorem not_joins_nil (y : Char) : ¬ Joins [] y := by
  rintro ⟨l, hl, -⟩
  rw [lexemes] at hl
  cases hl

theorem joins_of_drop_eq_nil {c y : Char} {cs : List Char}
    (h : (c :: cs).drop (Lexeme.ofHead c cs).text.length = []) :
    Joins (c :: cs) y ↔
      (Lexeme.ofHead c cs).token?.isSome ∧ (Lexeme.ofHead c cs).goesOn y = true := by
  rw [Joins, lexemes, h, lexemes]
  simp

theorem joins_of_drop_ne_nil {c y : Char} {cs : List Char}
    (h : (c :: cs).drop (Lexeme.ofHead c cs).text.length ≠ []) :
    Joins (c :: cs) y ↔ Joins ((c :: cs).drop (Lexeme.ofHead c cs).text.length) y := by
  rw [Joins, lexemes, List.getLast?_cons_of_ne_nil (lexemes_ne_nil h)]
  rfl

theorem tokensOf_cons_append {c : Char} {cs rest : List Char}
    (h : (Lexeme.ofHead c cs).text = c :: cs →
      ∀ y ∈ rest.head?, (Lexeme.ofHead c cs).goesOn y = false) :
    tokensOf (c :: cs ++ rest) = (Lexeme.ofHead c cs).token?.toList ++
      tokensOf ((c :: cs).drop (Lexeme.ofHead c cs).text.length ++ rest) := by
  rw [List.cons_append, tokensOf_cons, ofHead_append h, ← List.cons_append,
    List.drop_append_of_le_length (Lexeme.ofHead_text_prefix c cs).length_le]

/-- A text of one lexeme in front of another text. -/
theorem tokensOf_append_iff_of_lexeme {c : Char} {cs : List Char}
    (htext : (Lexeme.ofHead c cs).text = c :: cs) (rest : List Char) :
    tokensOf (c :: cs ++ rest) = tokensOf (c :: cs) ++ tokensOf rest ↔
      ∀ y ∈ rest.head?, ¬ ((Lexeme.ofHead c cs).token?.isSome ∧
        (Lexeme.ofHead c cs).goesOn y = true) := by
  have halone : tokensOf (c :: cs) = (Lexeme.ofHead c cs).token?.toList := by
    rw [tokensOf_cons, htext, List.drop_length, tokensOf_nil, List.append_nil]
  cases ht : (Lexeme.ofHead c cs).token? with
  | none =>
    -- Blanks are skipped, whether or not more of them follow.
    have hblank := isBlank_of_ofHead ht
    rw [htext] at hblank
    rw [halone, ht, tokensOf_blanks hblank]
    simp
  | some t =>
    rw [halone, ht]
    constructor
    · intro h y hy hgoes
      obtain ⟨ys, rfl⟩ : ∃ ys, rest = y :: ys := List.head?_eq_some_iff.1 hy
      have hc := (exists_token_iff c cs).1 ⟨t, ht⟩
      obtain ⟨u, hu⟩ := (exists_token_iff c (cs ++ y :: ys)).2 hc
      rw [List.cons_append, tokensOf_cons, hu] at h
      have hsame : u = t := (List.cons.inj h).1
      exact token?_ne_of_goesOn ht htext hgoes.2 ys (by rw [hu, hsame])
    · intro h
      rw [tokensOf_cons_append fun _ y hy => by simpa using h y hy, ht, htext, List.drop_length]
      rfl

-- By induction on the lexemes of the first text: only the last one can meet the second.
theorem tokensOf_append_iff_not_joins (cs rest : List Char) :
    tokensOf (cs ++ rest) = tokensOf cs ++ tokensOf rest ↔ ∀ y ∈ rest.head?, ¬ Joins cs y := by
  fun_induction lexemes cs with
  | case1 => simp [tokensOf_nil, not_joins_nil]
  | case2 c cs ih =>
    by_cases hend : (c :: cs).drop (Lexeme.ofHead c cs).text.length = []
    · have htext := text_append_drop c cs
      rw [hend, List.append_nil] at htext
      simp only [joins_of_drop_eq_nil hend]
      exact tokensOf_append_iff_of_lexeme htext rest
    · have hstop : (Lexeme.ofHead c cs).text ≠ c :: cs := by
        intro htext
        rw [htext, List.drop_length] at hend
        exact hend rfl
      rw [tokensOf_cons_append fun htext => absurd htext hstop, tokensOf_cons, List.append_assoc,
        List.append_cancel_left_eq, ih]
      simp only [joins_of_drop_ne_nil hend]

/-- A text can be cut in front of a character that goes on with nothing. -/
theorem tokensOf_append (cs : List Char) {rest : List Char}
    (hrest : ∀ y ∈ rest.head?, parts y = true) :
    tokensOf (cs ++ rest) = tokensOf cs ++ tokensOf rest := by
  rw [tokensOf_append_iff_not_joins]
  rintro y hy ⟨l, -, -, hgoes⟩
  rw [Lexeme.goesOn_of_parts (hrest y hy)] at hgoes
  cases hgoes

/-! ## Where the last token ends -/

/-- The last token reaches the end of the text if the text ends in what it says. -/
theorem exists_last_lexeme_iff {cs : List Char} {t : Token} :
    (∃ l ∈ (lexemes cs).getLast?, l.token? = some t) ↔
      (tokensOf cs).getLast? = some t ∧ t.text.toList <:+ cs := by
  have htokens := filterMap_lexemes cs
  have hchars := flatMap_lexemes cs
  constructor
  · rintro ⟨l, hl, ht⟩
    obtain ⟨ls, hls⟩ := List.getLast?_eq_some_iff.1 hl
    obtain ⟨c, ds, rfl⟩ := exists_ofHead_of_mem_lexemes (List.mem_of_getLast? hl)
    rw [hls, List.filterMap_append, List.filterMap_cons, ht] at htokens
    rw [hls, List.flatMap_append, List.flatMap_singleton, ← (text_of_ofHead ht).1] at hchars
    exact ⟨by rw [← htokens]; exact List.getLast?_concat, ⟨_, hchars⟩⟩
  · rintro ⟨hlast, hsuffix⟩
    have hne : lexemes cs ≠ [] := by
      intro hnil
      rw [hnil] at htokens
      rw [← htokens] at hlast
      cases hlast
    obtain ⟨l, hl⟩ := Option.isSome_iff_exists.1 (List.getLast?_isSome.2 hne)
    refine ⟨l, hl, ?_⟩
    obtain ⟨ls, hls⟩ := List.getLast?_eq_some_iff.1 hl
    obtain ⟨c, ds, rfl⟩ := exists_ofHead_of_mem_lexemes (List.mem_of_getLast? hl)
    cases hu : (Lexeme.ofHead c ds).token? with
    | some u =>
      rw [hls, List.filterMap_append, List.filterMap_cons, hu] at htokens
      rw [← htokens, List.filterMap_nil, List.getLast?_concat] at hlast
      exact hlast
    | none =>
      -- The text ends in a blank then, and so it cannot end in a token.
      have hblanks : (Lexeme.ofHead c ds).text <:+ cs := by
        rw [hls, List.flatMap_append, List.flatMap_singleton] at hchars
        exact ⟨_, hchars⟩
      obtain ⟨⟨d, hd⟩, hnone⟩ := text_of_mem_tokensOf (List.mem_of_getLast? hlast)
      rcases List.suffix_or_suffix_of_suffix hsuffix hblanks with hshort | hshort
      · have hblank := isBlank_of_ofHead hu d (hshort.subset hd)
        rw [hnone d hd] at hblank
        cases hblank
      · have hmem := mem_text_ofHead c ds
        have hblank := isBlank_of_ofHead hu c hmem
        rw [hnone c (hshort.subset hmem)] at hblank
        cases hblank

theorem joins_iff {cs : List Char} {y : Char} :
    Joins cs y ↔ ∃ t, (tokensOf cs).getLast? = some t ∧ t.text.toList <:+ cs ∧
      (t.kind ∈ [.identifier, .let, .return] ∧ isWordPart y = true ∨
        t.kind = .int ∧ y.isDigit = true ∨ t.kind ∈ [.assign, .bang] ∧ y = '=') := by
  constructor
  · rintro ⟨l, hl, hsome, hy⟩
    obtain ⟨t, ht⟩ := Option.isSome_iff_exists.1 hsome
    obtain ⟨hlast, hsuffix⟩ := exists_last_lexeme_iff.1 ⟨l, hl, ht⟩
    exact ⟨t, hlast, hsuffix, (Lexeme.goesOn_iff ht).1 hy⟩
  · rintro ⟨t, hlast, hsuffix, hkind⟩
    obtain ⟨l, hl, ht⟩ := exists_last_lexeme_iff.2 ⟨hlast, hsuffix⟩
    exact ⟨l, hl, by rw [ht]; rfl, (Lexeme.goesOn_iff ht).2 hkind⟩

theorem not_joins_of_isBlank {y : Char} (h : isBlank y = true) (cs : List Char) :
    ¬ Joins cs y := by
  rintro ⟨l, -, hsome, hy⟩
  obtain ⟨t, ht⟩ := Option.isSome_iff_exists.1 hsome
  rcases (Lexeme.goesOn_iff ht).1 hy with ⟨-, hpart⟩ | ⟨-, hdigit⟩ | ⟨-, rfl⟩
  · rw [not_isBlank_of_isWordPart hpart] at h
    cases h
  · rw [not_isDigit_of_isBlank h] at hdigit
    cases hdigit
  · cases h

/-- Blanks between two texts keep their tokens apart. -/
theorem tokensOf_append_blanks (cs : List Char) {bs : List Char} (hne : bs ≠ [])
    (hbs : ∀ b ∈ bs, isBlank b = true) (rest : List Char) :
    tokensOf (cs ++ (bs ++ rest)) = tokensOf cs ++ tokensOf rest := by
  rw [← tokensOf_blanks hbs rest, tokensOf_append_iff_not_joins]
  intro y hy
  cases bs with
  | nil => exact absurd rfl hne
  | cons b bs =>
    cases hy
    exact not_joins_of_isBlank (hbs _ List.mem_cons_self) cs

/-- Tokens written one by one, each behind a space. -/
def spaced (ts : List Token) : List Char := ts.flatMap fun t => ' ' :: t.text.toList

theorem tokensOf_spaced {ts : List Token} (h : ∀ t ∈ ts, tokensOf t.text.toList = [t]) :
    tokensOf (spaced ts) = ts := by
  induction ts with
  | nil => exact tokensOf_nil
  | cons t ts ih =>
    obtain ⟨ht, hts⟩ := List.forall_mem_cons.1 h
    have hcut : tokensOf (t.text.toList ++ spaced ts) =
        tokensOf t.text.toList ++ tokensOf (spaced ts) := by
      rw [tokensOf_append_iff_not_joins]
      intro y hy
      apply not_joins_of_isBlank
      cases ts with
      | nil => cases hy
      | cons u us =>
        cases hy
        rfl
    show tokensOf (' ' :: (t.text.toList ++ spaced ts)) = t :: ts
    rw [tokensOf_blank rfl, hcut, ht, ih hts]
    rfl

/-- The tokens of two texts in one are those of the first and then those of the second, unless the
second starts with a character that goes on with a token at the very end of the first; with a blank
in between that does not happen. -/
theorem tokensOf_append_iff (s₁ s₂ : String) :
    (tokensOf (s₁ ++ s₂).toList = tokensOf s₁.toList ++ tokensOf s₂.toList ↔
      ¬ ∃ t y, (tokensOf s₁.toList).getLast? = some t ∧ t.text.toList <:+ s₁.toList ∧
        s₂.toList.head? = some y ∧
        (t.kind ∈ [.identifier, .let, .return] ∧ isWordPart y = true ∨
          t.kind = .int ∧ y.isDigit = true ∨ t.kind ∈ [.assign, .bang] ∧ y = '=')) ∧
    ∀ w : String, w ≠ "" → (∀ c ∈ w.toList, isBlank c = true) →
      tokensOf (s₁ ++ w ++ s₂).toList = tokensOf s₁.toList ++ tokensOf s₂.toList := by
  constructor
  · rw [String.toList_append, tokensOf_append_iff_not_joins]
    constructor
    · rintro h ⟨t, y, hlast, hsuffix, hy, hkind⟩
      exact h y hy (joins_iff.2 ⟨t, hlast, hsuffix, hkind⟩)
    · rintro h y hy hjoins
      obtain ⟨t, hlast, hsuffix, hkind⟩ := joins_iff.1 hjoins
      exact h ⟨t, y, hlast, hsuffix, hy, hkind⟩
  · intro w hne hblank
    rw [String.toList_append, String.toList_append, List.append_assoc]
    exact tokensOf_append_blanks _ (by simpa using hne) hblank _

end Precedence
