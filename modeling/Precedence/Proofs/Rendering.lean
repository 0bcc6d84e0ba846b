import Precedence.Proofs.Scanning
import Precedence.Proofs.Rounds

/-!
# Reading what was rendered

A rendering shows every operator in parentheses of its own.  Read again it gives the same
expression, provided that the nodes say what their tokens say; but every pair of parentheses takes a
level that the expression may have done without when it was first read.
-/

namespace Precedence

open Text

/-! ## Expressions that can be read -/

/-- The unary operators as they are written. -/
def unaryTokens : List Token := [⟨.bang, "!"⟩, ⟨.minus, "-"⟩]

/-- The binary operators as they are written. -/
def binaryTokens : List Token :=
  [⟨.equals, "=="⟩, ⟨.notEquals, "!="⟩, ⟨.less, "<"⟩, ⟨.greater, ">"⟩, ⟨.plus, "+"⟩, ⟨.minus, "-"⟩,
    ⟨.asterisk, "*"⟩, ⟨.slash, "/"⟩]

namespace Expr

/-- Every node has a token that a text can hold, and says no more than its token. -/
inductive Lexable : Expr → Prop
  | identifier {s} (h : IsName s) : Lexable (.identifier ⟨⟨.identifier, s⟩, s⟩)
  | integer {s} (h : IsDigits s.toList) (hv : digitsValue s.toList < 0x8000000000000000) :
      Lexable (.integer ⟨.int, s⟩ (digitsValue s.toList))
  | unary {t e} (ht : t ∈ unaryTokens) (h : Lexable e) : Lexable (.unary t t.text e)
  | binary {t l r} (ht : t ∈ binaryTokens) (hl : Lexable l) (hr : Lexable r) :
      Lexable (.binary t t.text l r)

/-- The levels that reading the rendering takes: one for an expression, one for its parentheses, and
one more for an operator behind its left operand. -/
def cost : Expr → Nat
  | .identifier _ => 1
  | .integer _ _ => 1
  | .unary _ _ operand => operand.cost + 2
  | .binary _ _ left right => max (left.cost + 1) (right.cost + 3)

/-- The tokens of the nodes, with the parentheses of the rendering. -/
def written : Expr → List Token
  | .identifier name => [name.token]
  | .integer token _ => [token]
  | .unary token _ operand =>
    ⟨.openParen, "("⟩ :: (token :: operand.written) ++ [⟨.closeParen, ")"⟩]
  | .binary token _ left right =>
    ⟨.openParen, "("⟩ :: (left.written ++ token :: right.written) ++ [⟨.closeParen, ")"⟩]

/-- Whether a character that follows the rendering at once becomes part of its last token. -/
def runsOn : Expr → Char → Bool
  | .identifier _, c => isWordPart c
  | .integer _ _, c => c.isDigit
  | .unary _ _ _, _ => false
  | .binary _ _ _ _, _ => false

theorem written_eq_cons (e : Expr) : ∃ t us, e.written = t :: us := by
  cases e <;> exact ⟨_, _, rfl⟩

end Expr

/-! ## Scanning a rendering -/

theorem tokensOf_open (cs : List Char) :
    tokensOf ('(' :: cs) = ⟨.openParen, "("⟩ :: tokensOf cs :=
  tokensOf_of_head rfl rfl

theorem tokensOf_close (cs : List Char) :
    tokensOf (')' :: cs) = ⟨.closeParen, ")"⟩ :: tokensOf cs :=
  tokensOf_of_head rfl rfl

theorem tokensOf_space (cs : List Char) : tokensOf (' ' :: cs) = tokensOf cs :=
  tokensOf_blank (by decide)

theorem tokensOf_minus (cs : List Char) : tokensOf ('-' :: cs) = ⟨.minus, "-"⟩ :: tokensOf cs :=
  tokensOf_of_head rfl rfl

/-- An exclamation mark in front of an equals sign would be one token with it. -/
theorem tokensOf_bang {c : Char} {cs : List Char} (hc : c ≠ '=') :
    tokensOf ('!' :: c :: cs) = ⟨.bang, "!"⟩ :: tokensOf (c :: cs) := by
  have hhead : Lexeme.ofHead '!' (c :: cs) = ⟨['!'], some ⟨.bang, "!"⟩⟩ := by
    simp [Lexeme.ofHead, firstMatch?, patterns, Pattern.match?, Pattern.token?, isWordStart,
      isBlank, hc.symm]
  exact tokensOf_of_head hhead rfl

-- In a rendering an operator always has a space behind it, so no two of them are taken for one.
theorem tokensOf_binary {t : Token} (ht : t ∈ binaryTokens) (cs : List Char) :
    tokensOf (t.text.toList ++ ' ' :: cs) = t :: tokensOf cs := by
  have hspaced : tokensOf (t.text.toList ++ ' ' :: cs) = t :: tokensOf (' ' :: cs) := by
    simp only [binaryTokens, List.mem_cons, List.not_mem_nil, or_false] at ht
    rcases ht with rfl | rfl | rfl | rfl | rfl | rfl | rfl | rfl <;>
      exact tokensOf_of_head rfl rfl
  rw [hspaced, tokensOf_space]

/-- What a rendering starts with: a word, a number or a parenthesis. -/
def Leads (c : Char) : Prop := isWordStart c = true ∨ c.isDigit = true ∨ c = '('

namespace Expr

theorem toList_render_unary (t : Token) (op : String) (e : Expr) :
    (unary t op e).render.toList = '(' :: (op.toList ++ (e.render.toList ++ [')'])) := by
  simp [render]

theorem toList_render_binary (t : Token) (op : String) (l r : Expr) :
    (binary t op l r).render.toList =
      '(' :: (l.render.toList ++ ' ' :: (op.toList ++ ' ' :: (r.render.toList ++ [')']))) := by
  simp [render]

theorem not_runsOn_head (e : Expr) {c : Char} (h : isWordPart c = false) (cs : List Char) :
    ∀ d ∈ (c :: cs).head?, e.runsOn d = false := by
  intro d hd
  cases hd
  cases e with
  | identifier => exact h
  | integer => exact not_isDigit_of_not_isWordPart h
  | unary | binary => rfl

end Expr

namespace Expr.Lexable

variable {e : Expr}

theorem render_head (h : e.Lexable) : ∃ c cs, e.render.toList = c :: cs ∧ Leads c := by
  cases h with
  | identifier h =>
    obtain ⟨⟨c, cs, hs, hc, -⟩, -⟩ := h
    exact ⟨c, cs, hs, .inl hc⟩
  | @integer s h hv =>
    cases hs : s.toList with
    | nil => exact absurd hs h.1
    | cons c cs =>
      rw [hs] at h
      exact ⟨c, cs, hs, .inr (.inl (h.2 c List.mem_cons_self))⟩
  | unary => exact ⟨'(', _, toList_render_unary _ _ _, .inr (.inr rfl)⟩
  | binary => exact ⟨'(', _, toList_render_binary _ _ _ _, .inr (.inr rfl)⟩

theorem tokensOf_unary (h : e.Lexable) {t : Token} (ht : t ∈ unaryTokens) (rest : List Char) :
    tokensOf (t.text.toList ++ (e.render.toList ++ rest)) =
      t :: tokensOf (e.render.toList ++ rest) := by
  obtain ⟨c, cs, hcs, hleads⟩ := h.render_head
  have hc : c ≠ '=' := by
    rintro rfl
    rcases hleads with hword | hdigit | hparen
    · exact absurd hword (by decide)
    · exact absurd hdigit (by decide)
    · exact absurd hparen (by decide)
  simp only [unaryTokens, List.mem_cons, List.not_mem_nil, or_false] at ht
  rcases ht with rfl | rfl
  · rw [hcs]
    exact tokensOf_bang hc
  · exact tokensOf_minus _

/-- A rendering is cut into its tokens whatever comes behind it, unless that goes on with the last
of them. -/
theorem tokensOf_render (h : e.Lexable) {rest : List Char}
    (hrest : ∀ c ∈ rest.head?, e.runsOn c = false) :
    tokensOf (e.render.toList ++ rest) = e.written ++ tokensOf rest := by
  induction h generalizing rest with
  | @identifier s h =>
    show tokensOf (s.toList ++ rest) = ⟨.identifier, s⟩ :: tokensOf rest
    rw [← ofWord_of_isName h]
    exact tokensOf_word h.1 hrest
  | integer h hv => exact tokensOf_number h hrest
  | @unary t e ht h ih =>
    have hclose := e.not_runsOn_head (by decide : isWordPart ')' = false) rest
    rw [toList_render_unary, List.cons_append, List.append_assoc, List.append_assoc,
      tokensOf_open, List.singleton_append, h.tokensOf_unary ht, ih hclose, tokensOf_close]
    simp [written]
  | @binary t l r ht hl hr ihl ihr =>
    have hclose := r.not_runsOn_head (by decide : isWordPart ')' = false) rest
    have hspace := l.not_runsOn_head (by decide : isWordPart ' ' = false)
    rw [toList_render_binary, List.cons_append, List.append_assoc, tokensOf_open,
      List.cons_append, ihl (hspace _), tokensOf_space, List.append_assoc, List.cons_append,
      tokensOf_binary ht, List.append_assoc, List.singleton_append, ihr hclose, tokensOf_close]
    simp [written]

theorem tokensOf_render_alone (h : e.Lexable) : tokensOf e.render.toList = e.written := by
  have htokens : tokensOf (e.render.toList ++ []) = e.written ++ tokensOf [] :=
    h.tokensOf_render (by simp)
  rwa [tokensOf_nil, List.append_nil, List.append_nil] at htokens

end Expr.Lexable

/-! ## Reading a rendering -/

theorem kind_of_mem_unaryTokens {t : Token} (h : t ∈ unaryTokens) :
    Rules.standard.operand t.kind = some .unary := by
  revert t
  decide

theorem power_of_mem_binaryTokens {t : Token} (h : t ∈ binaryTokens) :
    .lowest < Rules.standard.power t.kind := by
  revert t
  decide

-- In its parentheses an operator can be read at any power.
theorem Expr.Lexable.reading {e : Expr} (h : e.Lexable) (p : Power) :
    Reading p e.written e 0 e.cost .call := by
  induction h generalizing p with
  | identifier => exact .identifier rfl
  | @integer s h hv =>
    refine .integer rfl (integer64?_eq_some_iff.2 ⟨.plain h, ?_, ?_⟩)
    · omega
    · omega
  | @unary t e ht h ih => exact .grouped rfl rfl (.unary (kind_of_mem_unaryTokens ht) (ih .unary))
  | @binary t l r ht hl hr ihl ihr =>
    have hlevels : max (l.cost + 1) (r.cost + 3) = max l.cost (0 + 2 + r.cost) + 1 := by omega
    show Reading p _ _ 0 (max (l.cost + 1) (r.cost + 3)) .call
    rw [hlevels]
    have hcall := Rules.standard_power_le_call t.kind
    exact .grouped rfl rfl (.binary (ihl .lowest) (power_of_mem_binaryTokens ht) hcall (ihr _))

/-- With levels enough a rendering says the expression and nothing else, without them nothing. -/
theorem Expr.Lexable.sentence_iff {e : Expr} (h : e.Lexable) {N : Nat} {ss : List Stmt} :
    Sentence (ReadingWithin N) e.written ss ↔
      e.cost ≤ N ∧ ∃ t, e.written.head? = some t ∧ ss = [.expression t (some e)] := by
  obtain ⟨t, us, hus⟩ := e.written_eq_cons
  have hhead : e.written.head? = some t := by rw [hus]; rfl
  have hwritten {M : Nat} (hM : e.cost ≤ M) :
      Sentence (ReadingWithin M) e.written [.expression t (some e)] := by
    have hread : ReadingWithin M e.written e := ⟨0, e.cost, .call, h.reading .lowest, hM⟩
    rw [hus] at hread ⊢
    exact .single (.expression hread)
  constructor
  · intro hss
    -- More levels would not change what is said, so it is this expression.
    have hmore : Sentence (ReadingWithin (max N e.cost)) e.written ss := by
      refine hss.mono fun vs d _ hd => ?_
      obtain ⟨k, n, q, hr, hn⟩ := hd
      exact ⟨k, n, q, hr, by omega⟩
    have hsame : ss = [.expression t (some e)] := hmore.unique (hwritten (by omega))
    rw [hsame] at hss
    obtain ⟨vs, d, -, ⟨k, n, q, hr, hn⟩, -, hvs⟩ := hss.of_expression
    rcases hvs with rfl | ⟨c, hc, hvs⟩
    · have hcost := (h.reading .lowest).levels_eq hr
      exact ⟨by omega, t, hhead, hsame⟩
    · have hmem : c ∈ e.written := by
        rw [hvs]
        exact List.mem_append_right vs List.mem_cons_self
      exact absurd hc ((h.reading .lowest).kind_ne_semicolon c hmem)
  · rintro ⟨hN, t', ht', rfl⟩
    rw [hhead] at ht'
    cases ht'
    exact hwritten hN

theorem parse_text_iff_sentence {limit : Nat} {text : String} {ss : List Stmt} :
    (parse limit (Scanner.ofString text)).2.diagnostics = [] ∧
        (parse limit (Scanner.ofString text)).1 = ⟨ss⟩ ↔
      Sentence (ReadingWithin limit) (tokensOf text.toList) ss :=
  parse_iff_sentence (Session.shows_start_scanned limit text) fun _ ht =>
    (lexed_of_mem_tokensOf ht).kind_ne_eof

theorem Expr.Lexable.parse_iff {e : Expr} (h : e.Lexable) {limit : Nat} {ss : List Stmt} :
    (parse limit (Scanner.ofString e.render)).2.diagnostics = [] ∧
        (parse limit (Scanner.ofString e.render)).1 = ⟨ss⟩ ↔
      e.cost ≤ limit ∧ ∃ t, e.written.head? = some t ∧ ss = [.expression t (some e)] := by
  rw [parse_text_iff_sentence, h.tokensOf_render_alone, h.sentence_iff]

theorem Expr.Lexable.parse_of_cost_le {e : Expr} (h : e.Lexable) {limit : Nat}
    (hcost : e.cost ≤ limit) :
    (parse limit (Scanner.ofString e.render)).2.diagnostics = [] ∧
      ∃ t, (parse limit (Scanner.ofString e.render)).1 = ⟨[.expression t (some e)]⟩ := by
  obtain ⟨t, us, hus⟩ := e.written_eq_cons
  have hhead : e.written.head? = some t := by rw [hus]; rfl
  obtain ⟨hd, hp⟩ := h.parse_iff.2 ⟨hcost, t, hhead, rfl⟩
  exact ⟨hd, t, hp⟩

/-- Reading gives back what was rendered exactly where the limit is not below the cost. -/
theorem parse_render_iff {e : Expr} (h : e.Lexable) (limit : Nat) :
    ((parse limit (Scanner.ofString e.render)).2.diagnostics = [] ∧
        ∃ t, (parse limit (Scanner.ofString e.render)).1 = ⟨[.expression t (some e)]⟩) ↔
      e.cost ≤ limit := by
  constructor
  · rintro ⟨hd, t, hp⟩
    exact (h.parse_iff.1 ⟨hd, hp⟩).1
  · intro hcost
    exact h.parse_of_cost_le hcost

/-- `((-a) + 12)` takes four levels, no matter that it could be written with fewer parentheses. -/
theorem parse_render_negated_sum :
    let a : Identifier := ⟨⟨.identifier, "a"⟩, "a"⟩
    let e : Expr := .binary ⟨.plus, "+"⟩ "+" (.unary ⟨.minus, "-"⟩ "-" (.identifier a))
      (.integer ⟨.int, "12"⟩ 12)
    e.Lexable ∧
      ((parse 4 (Scanner.ofString e.render)).2.diagnostics = [] ∧
        ∃ t, (parse 4 (Scanner.ofString e.render)).1 = ⟨[.expression t (some e)]⟩) ∧
      ¬ ((parse 3 (Scanner.ofString e.render)).2.diagnostics = [] ∧
        ∃ t, (parse 3 (Scanner.ofString e.render)).1 = ⟨[.expression t (some e)]⟩) := by
  intro a e
  have hname : IsName "a" := ⟨⟨'a', [], rfl, by decide, by simp⟩, by decide, by decide⟩
  have hchars : "12".toList = ['1', '2'] := rfl
  have hdigits : IsDigits "12".toList := by
    rw [hchars]
    exact ⟨by simp, List.all_eq_true.1 (by decide)⟩
  have hvalue : digitsValue "12".toList = 12 := by
    rw [hchars]
    rfl
  have htwelve : Expr.Lexable (.integer ⟨.int, "12"⟩ 12) := by
    have h := Expr.Lexable.integer hdigits (by rw [hvalue]; decide)
    rw [hvalue] at h
    exact h
  have he : e.Lexable := .binary (t := ⟨.plus, "+"⟩) (by decide)
    (.unary (t := ⟨.minus, "-"⟩) (by decide) (.identifier hname)) htwelve
  refine ⟨he, (parse_render_iff he 4).2 (by decide), fun h => ?_⟩
  have hle := (parse_render_iff he 3).1 h
  revert hle
  decide

/-! ## What was read can be rendered -/

-- A token of a text that can stand in front of an operand is one of the two.
theorem Lexed.mem_unaryTokens {t : Token} (h : Lexed t)
    (ht : Rules.standard.operand t.kind = some .unary) : t ∈ unaryTokens := by
  have hkind : t.kind ∉ [.identifier, .let, .return, .int, .illegal] := by
    rcases Rules.kind_of_standard_operand ht with hk | hk <;> rw [hk] <;> decide
  have hall : ∀ t ∈ patterns.filterMap fun p => p.token? [],
      Rules.standard.operand t.kind = some .unary → t ∈ unaryTokens := by decide
  exact hall t (h.mem_spelled hkind) ht

-- A token of a text that binds is one of the eight.
theorem Lexed.mem_binaryTokens {t : Token} (h : Lexed t)
    (ht : .lowest < Rules.standard.power t.kind) : t ∈ binaryTokens := by
  have hkind : t.kind ∉ [.identifier, .let, .return, .int, .illegal] := by
    intro hk
    simp only [List.mem_cons, List.not_mem_nil, or_false] at hk
    revert ht
    rcases hk with hk | hk | hk | hk | hk <;> rw [hk] <;> decide
  have hall : ∀ t ∈ patterns.filterMap fun p => p.token? [],
      .lowest < Rules.standard.power t.kind → t ∈ binaryTokens := by decide
  exact hall t (h.mem_spelled hkind) ht

-- Digits alone have no sign, so the number is the one they spell.
theorem Text.Numeral.eq_of_isDigits {s : String} {v : Int} (h : Numeral s v)
    (hs : IsDigits s.toList) :
    v = digitsValue s.toList ∧ digitsValue s.toList < 0x8000000000000000 := by
  obtain ⟨hv, -, hlt⟩ := h
  generalize s.toList = cs at *
  cases hv with
  | plain => exact ⟨rfl, by omega⟩
  | plus => exact absurd rfl (hs.head_ne (by decide))
  | minus => exact absurd rfl (hs.head_ne (by decide))

/-- The tokens of a text make trees of what can be rendered and read again. -/
theorem Reading.lexable {p q : Power} {us : List Token} {e : Expr} {k n : Nat}
    (h : Reading p us e k n q) (hus : ∀ t ∈ us, Lexed t) : e.Lexable := by
  induction h with
  | @identifier p t ht =>
    have hlexed := hus t List.mem_cons_self
    have hkind : t.kind = .identifier := Rules.kind_of_standard_operand ht
    have hname := hlexed.isName hkind
    obtain ⟨kind, text⟩ := t
    cases hkind
    exact .identifier hname
  | @integer p t v ht hv =>
    have hlexed := hus t List.mem_cons_self
    have hkind : t.kind = .int := Rules.kind_of_standard_operand ht
    have hdigits := hlexed.isDigits hkind
    obtain ⟨rfl, hlt⟩ := (integer64?_eq_some_iff.1 hv).eq_of_isDigits hdigits
    obtain ⟨kind, text⟩ := t
    cases hkind
    exact .integer hdigits hlt
  | unary ht h ih =>
    obtain ⟨hlexed, hus⟩ := List.forall_mem_cons.1 hus
    exact .unary (hlexed.mem_unaryTokens ht) (ih hus)
  | grouped ho hc h ih =>
    apply ih
    intro t ht
    exact hus t (List.mem_append_left _ (List.mem_cons_of_mem _ ht))
  | binary hl hlt hle hr ihl ihr =>
    obtain ⟨hus, hvs⟩ := List.forall_mem_append.1 hus
    obtain ⟨hop, hvs⟩ := List.forall_mem_cons.1 hvs
    exact .binary (hop.mem_binaryTokens (Nat.lt_of_le_of_lt (Nat.zero_le _) hlt)) (ihl hus)
      (ihr hvs)

/-! ## Rendering what was read -/

theorem render_expression (t : Token) (e : Expr) :
    (Program.mk [.expression t (some e)]).render = e.render := by
  show "" ++ e.render = e.render
  rw [String.empty_append]

/-- A text that is one expression and nothing else has given a tree that can be rendered. -/
theorem exists_lexable_of_parse {limit : Nat} {text : String} {t : Token} {v : Option Expr}
    (hd : (parse limit (Scanner.ofString text)).2.diagnostics = [])
    (hp : (parse limit (Scanner.ofString text)).1 = ⟨[.expression t v]⟩) :
    ∃ e, v = some e ∧ e.Lexable := by
  have hsentence := parse_text_iff_sentence.1 ⟨hd, hp⟩
  obtain ⟨us, e, rfl, ⟨k, n, q, hr, hn⟩, -, hts⟩ := hsentence.of_expression
  have hmem : ∀ t ∈ us, t ∈ tokensOf text.toList := by
    intro t ht
    rcases hts with hts | ⟨c, -, hts⟩ <;> rw [hts]
    · exact ht
    · exact List.mem_append_left [c] ht
  exact ⟨e, rfl, hr.lexable fun t ht => lexed_of_mem_tokensOf (hmem t ht)⟩

/-- Reading the rendering at the same limit keeps the text exactly where that limit is not below the
cost, which it may be although the text itself was read. -/
theorem render_fixed_iff {limit : Nat} {text : String} {t : Token} {v : Option Expr}
    (hd : (parse limit (Scanner.ofString text)).2.diagnostics = [])
    (hp : (parse limit (Scanner.ofString text)).1 = ⟨[.expression t v]⟩) :
    ∃ e, v = some e ∧
      let rendering := (parse limit (Scanner.ofString text)).1.render
      ((parse limit (Scanner.ofString rendering)).2.diagnostics = [] ∧
        (parse limit (Scanner.ofString rendering)).1.render = rendering ↔ e.cost ≤ limit) := by
  obtain ⟨e, rfl, he⟩ := exists_lexable_of_parse hd hp
  refine ⟨e, rfl, ?_⟩
  rw [hp, render_expression]
  constructor
  · rintro ⟨hagain, -⟩
    exact (he.parse_iff.1 ⟨hagain, rfl⟩).1
  · intro hcost
    obtain ⟨hagain, u, hsame⟩ := he.parse_of_cost_le hcost
    rw [hsame, render_expression]
    exact ⟨hagain, rfl⟩

/-- Four levels suffice for `a + b` and for its rendering. -/
theorem render_fixed_sum :
    let text := "a + b"
    let rendering := (parse 4 (Scanner.ofString text)).1.render
    (parse 4 (Scanner.ofString rendering)).2.diagnostics = [] ∧
      (parse 4 (Scanner.ofString rendering)).1.render = rendering := by
  intro text rendering
  have hd : (parse 4 (Scanner.ofString text)).2.diagnostics = [] := by decide +kernel
  have hp : (parse 4 (Scanner.ofString text)).1 = ⟨[.expression ⟨.identifier, "a"⟩
      (some (.binary ⟨.plus, "+"⟩ "+" (.identifier ⟨⟨.identifier, "a"⟩, "a"⟩)
        (.identifier ⟨⟨.identifier, "b"⟩, "b"⟩)))]⟩ := by decide +kernel
  obtain ⟨e, he, hfixed⟩ := render_fixed_iff hd hp
  cases he
  exact hfixed.2 (by decide)

/-- Three levels suffice for `a + b`, but not for its rendering `(a + b)`. -/
theorem render_not_fixed_sum :
    let text := "a + b"
    let rendering := (parse 3 (Scanner.ofString text)).1.render
    (parse 3 (Scanner.ofString text)).2.diagnostics = [] ∧
      (∃ t v, (parse 3 (Scanner.ofString text)).1 = ⟨[.expression t v]⟩) ∧
      rendering = "(a + b)" ∧ (parse 3 (Scanner.ofString rendering)).2.diagnostics ≠ [] := by
  intro text rendering
  have hp : (parse 3 (Scanner.ofString text)).1 = ⟨[.expression ⟨.identifier, "a"⟩
      (some (.binary ⟨.plus, "+"⟩ "+" (.identifier ⟨⟨.identifier, "a"⟩, "a"⟩)
        (.identifier ⟨⟨.identifier, "b"⟩, "b"⟩)))]⟩ := by decide +kernel
  refine ⟨by decide +kernel, ⟨_, _, hp⟩, ?_, ?_⟩
  · show (parse 3 (Scanner.ofString text)).1.render = _
    rw [hp]
    decide +kernel
  · decide +kernel

end Precedence
