import Precedence.Proofs.Lookahead
import Precedence.Proofs.Numeral
import Precedence.Scanner

/-!
# The tokens of a text

What one token at the head of a text looks like, and what tokens a scanner hands out: each has a
text that fits its kind, and end markers come when there is nothing left.
-/

namespace Precedence

open Text

/-! ## The shape of a token -/

/-- A letter or underscore, then letters, digits and underscores. -/
def IsWord (s : String) : Prop :=
  ∃ c cs, s.toList = c :: cs ∧ isWordStart c = true ∧ ∀ d ∈ cs, isWordPart d = true

/-- A word that is no keyword. -/
def IsName (s : String) : Prop := IsWord s ∧ s ≠ "let" ∧ s ≠ "return"

/-- The tokens that a text can be cut into. -/
inductive Lexed : Token → Prop
  | word {w} (h : IsWord w) : Lexed (.ofWord w)
  | number {w} (h : IsDigits w.toList) : Lexed ⟨.int, w⟩
  | fixed {kind text} (h : Pattern.fixed kind text ∈ patterns) : Lexed ⟨kind, text⟩
  | illegal {c} : Lexed ⟨.illegal, .singleton c⟩

-- What a pattern of the table matches is a text of its kind.
theorem Lexed.of_match {p : Pattern} (hp : p ∈ patterns) {cs text : List Char}
    (hm : p.match? cs = some text) {t : Token} (ht : p.token? text = some t) : Lexed t := by
  match p, cs with
  | .word, c :: cs =>
    simp only [Pattern.match?] at hm
    split at hm
    next hc =>
      cases hm
      cases ht
      refine .word ⟨c, cs.takeWhile isWordPart, String.toList_ofList, hc, ?_⟩
      exact List.all_eq_true.1 List.all_takeWhile
    next => cases hm
  | .number, c :: cs =>
    simp only [Pattern.match?] at hm
    split at hm
    next hc =>
      cases hm
      cases ht
      refine .number ?_
      rw [String.toList_ofList]
      refine ⟨List.cons_ne_nil _ _, List.forall_mem_cons.2 ⟨hc, ?_⟩⟩
      exact List.all_eq_true.1 List.all_takeWhile
    next => cases hm
  | .blank, c :: cs => cases ht
  | .fixed k s, c :: cs =>
    cases ht
    exact .fixed hp
  | .word, [] | .number, [] | .blank, [] | .fixed _ _, [] => cases hm

theorem Lexed.of_ofHead {c : Char} {cs : List Char} {t : Token}
    (h : (Lexeme.ofHead c cs).token? = some t) : Lexed t := by
  unfold Lexeme.ofHead at h
  split at h
  next p text hmatch =>
    obtain ⟨hp, hm⟩ := mem_of_firstMatch? hmatch
    exact .of_match hp hm h
  next =>
    cases h
    exact .illegal

theorem kind_ofWord (w : String) :
    (Token.ofWord w).kind =
      if w = "let" then .let else if w = "return" then .return else .identifier := by
  show (keyword? w).getD .identifier = _
  unfold keyword? keywords
  rw [List.lookup_cons, List.lookup_cons, List.lookup_nil]
  by_cases hlet : w = "let"
  · rw [if_pos hlet, beq_iff_eq.2 hlet]
    rfl
  · rw [if_neg hlet, beq_eq_false_iff_ne.2 hlet]
    by_cases hreturn : w = "return"
    · rw [if_pos hreturn, beq_iff_eq.2 hreturn]
      rfl
    · rw [if_neg hreturn, beq_eq_false_iff_ne.2 hreturn]
      rfl

theorem ofWord_of_isName {w : String} (h : IsName w) : Token.ofWord w = ⟨.identifier, w⟩ := by
  have hkind : (Token.ofWord w).kind = .identifier := by
    rw [kind_ofWord, if_neg h.2.1, if_neg h.2.2]
  rw [← hkind]
  rfl

namespace Lexed

variable {t : Token}

/-- What is neither a word nor a number has the text of its kind. -/
theorem fixed_mem (h : Lexed t) (ht : t.kind ∉ [.identifier, .let, .return, .int, .illegal]) :
    .fixed t.kind t.text ∈ patterns := by
  cases h with
  | @word w h =>
    rw [kind_ofWord] at ht
    split at ht
    · exact absurd ht (by decide)
    · split at ht <;> exact absurd ht (by decide)
  | number => exact absurd ht (by simp)
  | fixed h => exact h
  | illegal => exact absurd ht (by simp)

theorem mem_spelled (h : Lexed t) (ht : t.kind ∉ [.identifier, .let, .return, .int, .illegal]) :
    t ∈ patterns.filterMap fun p => p.token? [] :=
  List.mem_filterMap.2 ⟨_, h.fixed_mem ht, rfl⟩

theorem kind_ne_eof (h : Lexed t) : t.kind ≠ .eof := by
  intro heof
  have hmem := h.fixed_mem (by rw [heof]; decide)
  rw [heof] at hmem
  simp [patterns] at hmem

theorem isName (h : Lexed t) (ht : t.kind = .identifier) : IsName t.text := by
  cases h with
  | @word w h =>
    rw [kind_ofWord] at ht
    by_cases hlet : w = "let"
    · rw [if_pos hlet] at ht
      cases ht
    · by_cases hreturn : w = "return"
      · rw [if_neg hlet, if_pos hreturn] at ht
        cases ht
      · exact ⟨h, hlet, hreturn⟩
  | number => cases ht
  | @fixed kind text h =>
    cases ht
    simp [patterns] at h
  | illegal => cases ht

theorem isDigits (h : Lexed t) (ht : t.kind = .int) : IsDigits t.text.toList := by
  cases h with
  | @word w h =>
    rw [kind_ofWord] at ht
    split at ht
    · cases ht
    · split at ht <;> cases ht
  | number h => exact h
  | @fixed kind text h =>
    cases ht
    simp [patterns] at h
  | illegal => cases ht

end Lexed

-- There is a token ahead, or nothing but blanks.
theorem readToken_eq_or (cs : List Char) :
    readToken cs = (.eof, []) ∨ Lexed (readToken cs).1 := by
  fun_induction readToken cs with
  | case1 => exact .inl rfl
  | case2 c cs t ht => exact .inr (.of_ofHead ht)
  | case3 c cs ht ih => exact ih

theorem readToken_of_eof {cs : List Char} (h : (readToken cs).1.kind = .eof) :
    readToken cs = (.eof, []) :=
  (readToken_eq_or cs).resolve_right fun hlexed => hlexed.kind_ne_eof h

theorem tokensOf_of_eof {cs : List Char} (h : (readToken cs).1.kind = .eof) : tokensOf cs = [] := by
  rw [tokensOf, dif_pos h]

theorem tokensOf_of_ne {cs : List Char} (h : (readToken cs).1.kind ≠ .eof) :
    tokensOf cs = (readToken cs).1 :: tokensOf (readToken cs).2 := by
  rw [tokensOf, dif_neg h]

theorem lexed_of_mem_tokensOf {cs : List Char} {t : Token} (ht : t ∈ tokensOf cs) : Lexed t := by
  fun_induction tokensOf cs with
  | case1 cs h => cases ht
  | case2 cs h ih =>
    cases ht with
    | head =>
      refine (readToken_eq_or cs).resolve_left fun hend => h ?_
      rw [hend]
      rfl
    | tail _ ht => exact ih ht

theorem kind_ne_eof_of_mem_tokensOf (cs : List Char) : ∀ t ∈ tokensOf cs, t.kind ≠ .eof :=
  fun _ ht => (lexed_of_mem_tokensOf ht).kind_ne_eof

/-! ## What a scanner shows -/

theorem readToken_nil : readToken [] = (.eof, []) := by
  rw [readToken]

/-- Two steps bring the first token of the text that is still ahead into hand. -/
theorem Cursor.shows_scanned (c : Cursor Scanner) :
    c.step.step.Shows (tokensOf c.supply.ahead) := by
  generalize hcs : c.supply.ahead = cs
  have hnext : c.step.step.current = (readToken cs).1 := by
    rw [← hcs]
    rfl
  have hahead : c.step.supply.ahead = (readToken cs).2 := by
    rw [← hcs]
    rfl
  by_cases heof : (readToken cs).1.kind = .eof
  · -- Nothing is left, and so it stays.
    rw [tokensOf_of_eof heof, Cursor.shows_nil]
    rw [readToken_of_eof heof] at hnext hahead
    intro n
    clear hcs heof cs
    induction n generalizing c with
    | zero => exact hnext
    | succ n ih =>
      apply ih c.step
      · show (readToken c.step.supply.ahead).1 = _
        rw [hahead, readToken_nil]
      · show (readToken c.step.supply.ahead).2 = _
        rw [hahead, readToken_nil]
  · rw [tokensOf_of_ne heof, Cursor.shows_cons]
    have hlt := length_readToken_lt cs heof
    refine ⟨hnext, ?_⟩
    have ih := Cursor.shows_scanned c.step
    rwa [hahead] at ih
termination_by c.supply.ahead.length
decreasing_by
  rw [hahead]
  exact hlt

theorem Session.shows_start_scanned (limit : Nat) (text : String) :
    (start limit (Scanner.ofString text)).cursor.Shows (tokensOf text.toList) :=
  Cursor.shows_scanned (.start (Scanner.ofString text))

/-! ## Kinds of characters -/

theorem toNat_of_isDigit {c : Char} (h : c.isDigit = true) : 48 ≤ c.toNat ∧ c.toNat ≤ 57 :=
  Char.isDigit_iff_toNat.1 h

theorem toNat_of_isWordStart {c : Char} (h : isWordStart c = true) :
    65 ≤ c.toNat ∧ c.toNat ≤ 122 := by
  have hcases : (c.isUpper = true ∨ c.isLower = true) ∨ c = '_' := by
    have hbool : ((c.isUpper || c.isLower) || c == '_') = true := h
    rwa [Bool.or_eq_true, Bool.or_eq_true, beq_iff_eq] at hbool
  rcases hcases with (h | h) | rfl
  · have hupper : 65 ≤ c.toNat ∧ c.toNat ≤ 90 := of_decide_eq_true h
    omega
  · have hbool : (decide (c.val ≥ 'a'.val) && decide (c.val ≤ 'z'.val)) = true := h
    rw [Bool.and_eq_true, decide_eq_true_eq, decide_eq_true_eq] at hbool
    have hlower : 97 ≤ c.toNat ∧ c.toNat ≤ 122 := hbool
    omega
  · decide

theorem toNat_of_isBlank {c : Char} (h : isBlank c = true) : c.toNat < 48 ∨ 122 < c.toNat := by
  simp only [isBlank, Bool.or_eq_true, Bool.and_eq_true, decide_eq_true_eq, beq_iff_eq] at h
  omega

theorem not_isWordStart_of_isDigit {c : Char} (h : c.isDigit = true) : isWordStart c = false := by
  rw [Bool.eq_false_iff]
  intro hstart
  have hle := toNat_of_isDigit h
  have hge := toNat_of_isWordStart hstart
  omega

theorem not_isWordStart_of_isBlank {c : Char} (h : isBlank c = true) : isWordStart c = false := by
  rw [Bool.eq_false_iff]
  intro hstart
  have hblank := toNat_of_isBlank h
  have hge := toNat_of_isWordStart hstart
  omega

theorem not_isDigit_of_isBlank {c : Char} (h : isBlank c = true) : c.isDigit = false := by
  rw [Bool.eq_false_iff]
  intro hdigit
  have hblank := toNat_of_isBlank h
  have hge := toNat_of_isDigit hdigit
  omega

theorem not_isDigit_of_isWordStart {c : Char} (h : isWordStart c = true) : c.isDigit = false := by
  rw [Bool.eq_false_iff]
  intro hdigit
  rw [not_isWordStart_of_isDigit hdigit] at h
  cases h

theorem not_isDigit_of_not_isWordPart {c : Char} (h : isWordPart c = false) :
    c.isDigit = false := by
  simp only [isWordPart, Char.isAlphanum, Bool.or_eq_false_iff] at h
  exact h.1.2

/-! ## Texts with a known head -/

theorem head_tokensOf {cs : List Char} {t : Token} (h : t ∈ (tokensOf cs).head?) :
    (readToken cs).1 = t := by
  by_cases heof : (readToken cs).1.kind = .eof
  · rw [tokensOf_of_eof heof] at h
    cases h
  · rw [tokensOf_of_ne heof] at h
    cases h
    rfl

theorem tokensOf_nil : tokensOf [] = [] := by
  apply tokensOf_of_eof
  rw [readToken_nil]
  rfl

theorem readToken_of_head {c : Char} {cs text rest : List Char} {t : Token}
    (hhead : Lexeme.ofHead c cs = ⟨text, some t⟩) (hrest : c :: cs = text ++ rest) :
    readToken (c :: cs) = (t, rest) := by
  rw [readToken, hhead]
  show (t, (c :: cs).drop text.length) = _
  rw [hrest, List.drop_left]

theorem tokensOf_of_head {c : Char} {cs text rest : List Char} {t : Token}
    (hhead : Lexeme.ofHead c cs = ⟨text, some t⟩) (hrest : c :: cs = text ++ rest) :
    tokensOf (c :: cs) = t :: tokensOf rest := by
  have hread := readToken_of_head hhead hrest
  have hlexed : Lexed t := .of_ofHead (congrArg Lexeme.token? hhead)
  rw [tokensOf_of_ne (by rw [hread]; exact hlexed.kind_ne_eof), hread]

theorem tokensOf_semicolon (cs : List Char) :
    tokensOf (';' :: cs) = ⟨.semicolon, ";"⟩ :: tokensOf cs :=
  tokensOf_of_head rfl rfl

/-- A run ends where its text does if what follows does not go on with it. -/
theorem takeWhile_run {p : Char → Bool} {cs rest : List Char} (hcs : ∀ c ∈ cs, p c = true)
    (hrest : ∀ c ∈ rest.head?, p c = false) : (cs ++ rest).takeWhile p = cs := by
  rw [List.takeWhile_append_of_pos hcs]
  cases rest with
  | nil => simp
  | cons c rest =>
    have hc := hrest c rfl
    rw [List.takeWhile_cons_of_neg (by simp [hc]), List.append_nil]

theorem ofHead_word {c : Char} {cs : List Char} (h : isWordStart c = true) :
    Lexeme.ofHead c cs = ⟨c :: cs.takeWhile isWordPart,
      some (.ofWord (.ofList (c :: cs.takeWhile isWordPart)))⟩ := by
  simp [Lexeme.ofHead, firstMatch?, patterns, Pattern.match?, h, Pattern.token?]

theorem ofHead_number {c : Char} {cs : List Char} (h : c.isDigit = true) :
    Lexeme.ofHead c cs = ⟨c :: cs.takeWhile Char.isDigit,
      some ⟨.int, .ofList (c :: cs.takeWhile Char.isDigit)⟩⟩ := by
  simp [Lexeme.ofHead, firstMatch?, patterns, Pattern.match?, h, Pattern.token?,
    not_isWordStart_of_isDigit h]

theorem ofHead_blank {c : Char} {cs : List Char} (h : isBlank c = true) :
    Lexeme.ofHead c cs = ⟨c :: cs.takeWhile isBlank, none⟩ := by
  simp [Lexeme.ofHead, firstMatch?, patterns, Pattern.match?, h, Pattern.token?,
    not_isWordStart_of_isBlank h, not_isDigit_of_isBlank h]

theorem tokensOf_word {w : String} (h : IsWord w) {rest : List Char}
    (hrest : ∀ c ∈ rest.head?, isWordPart c = false) :
    tokensOf (w.toList ++ rest) = .ofWord w :: tokensOf rest := by
  obtain ⟨c, cs, hw, hc, hcs⟩ := h
  rw [hw]
  have hhead : Lexeme.ofHead c (cs ++ rest) = ⟨c :: cs, some (.ofWord w)⟩ := by
    rw [ofHead_word hc, takeWhile_run hcs hrest, ← hw, String.ofList_toList]
  exact tokensOf_of_head hhead rfl

theorem tokensOf_number {w : String} (h : IsDigits w.toList) {rest : List Char}
    (hrest : ∀ c ∈ rest.head?, c.isDigit = false) :
    tokensOf (w.toList ++ rest) = ⟨.int, w⟩ :: tokensOf rest := by
  cases hw : w.toList with
  | nil => exact absurd hw h.1
  | cons c cs =>
    rw [hw] at h
    obtain ⟨hc, hcs⟩ := List.forall_mem_cons.1 h.2
    have hhead : Lexeme.ofHead c (cs ++ rest) = ⟨c :: cs, some ⟨.int, w⟩⟩ := by
      rw [ofHead_number hc, takeWhile_run hcs hrest, ← hw, String.ofList_toList]
    exact tokensOf_of_head hhead rfl

theorem readToken_of_blank {c : Char} {cs : List Char} (h : isBlank c = true) :
    readToken (c :: cs) = readToken (cs.dropWhile isBlank) := by
  rw [readToken, ofHead_blank h]
  show readToken (cs.drop (cs.takeWhile isBlank).length) = _
  have hdrop : (cs.takeWhile isBlank ++ cs.dropWhile isBlank).drop (cs.takeWhile isBlank).length =
      cs.dropWhile isBlank := List.drop_left
  rw [List.takeWhile_append_dropWhile] at hdrop
  rw [hdrop]

theorem readToken_dropWhile (cs : List Char) :
    readToken (cs.dropWhile isBlank) = readToken cs := by
  cases cs with
  | nil => rfl
  | cons c cs =>
    by_cases hc : isBlank c = true
    · rw [List.dropWhile_cons_of_pos hc, readToken_of_blank hc]
    · rw [List.dropWhile_cons_of_neg hc]

/-- A blank before a token does not count. -/
theorem tokensOf_blank {c : Char} {cs : List Char} (h : isBlank c = true) :
    tokensOf (c :: cs) = tokensOf cs := by
  have hread : readToken (c :: cs) = readToken cs := by
    rw [readToken_of_blank h, readToken_dropWhile]
  rw [tokensOf, tokensOf.eq_def cs]
  simp only [hread]

end Precedence
