import Precedence.Proofs.Cutting

/-!
# The longest match

The table is tried in order and no lengths are compared; nevertheless the first pattern that matches
is the one that matches most.  That is so because no pattern of the table stands before one that
could match more at the same place.
-/

namespace Precedence

open Text

/-! ## What a pattern describes -/

/-- A first character, and any number of further ones. -/
def IsRun (first more : Char → Bool) (text : List Char) : Prop :=
  ∃ c cs, text = c :: cs ∧ first c = true ∧ ∀ d ∈ cs, more d = true

theorem IsRun.head {first more : Char → Bool} {c : Char} {u : List Char}
    (h : IsRun first more (c :: u)) : first c = true := by
  obtain ⟨d, ds, hcons, hd, -⟩ := h
  rwa [(List.cons.inj hcons).1]

/-- No run at the head goes further than its characters last. -/
theorem IsRun.length_le {first more : Char → Bool} {c : Char} {cs u : List Char}
    (hu : IsRun first more u) (h : u <+: c :: cs) :
    u.length ≤ (c :: cs.takeWhile more).length := by
  obtain ⟨d, ds, rfl, -, hds⟩ := hu
  obtain ⟨-, rest, rfl⟩ := List.cons_prefix_cons.1 h
  rw [List.takeWhile_append_of_pos hds, List.length_cons, List.length_cons, List.length_append]
  omega

theorem isRun_takeWhile {first more : Char → Bool} {c : Char} (hc : first c = true)
    (cs : List Char) : IsRun first more (c :: cs.takeWhile more) :=
  ⟨c, _, rfl, hc, List.all_eq_true.1 List.all_takeWhile⟩

namespace Pattern

/-- The texts that a pattern is made for, whatever stands behind them. -/
def Describes : Pattern → List Char → Prop
  | .word, u => IsRun isWordStart isWordPart u
  | .number, u => IsRun Char.isDigit Char.isDigit u
  | .blank, u => IsRun isBlank isBlank u
  | .fixed _ text, u => u = text.toList

/-- Of the texts that `p` describes, `text` is the longest at the head of `cs`. -/
structure Longest (p : Pattern) (cs text : List Char) : Prop where
  describes : p.Describes text
  at_head : text <+: cs
  length_le : ∀ u, p.Describes u → u <+: cs → u.length ≤ text.length

variable {p q : Pattern} {cs text u v : List Char} {c : Char}

theorem longest_of_match? (h : p.match? cs = some text) : p.Longest cs text := by
  match p, cs with
  | .word, c :: cs | .number, c :: cs | .blank, c :: cs =>
    have hprefix := match?_prefix h
    simp only [match?] at h
    split at h
    next hc =>
      cases h
      exact ⟨isRun_takeWhile hc cs, hprefix, fun u => IsRun.length_le⟩
    next => cases h
  | .fixed k s, c :: cs =>
    have hprefix := match?_prefix h
    simp only [match?] at h
    split at h
    next =>
      cases h
      exact ⟨rfl, hprefix, fun u hu _ => Nat.le_of_eq (congrArg List.length hu)⟩
    next => cases h
  | .word, [] | .number, [] | .blank, [] | .fixed _ _, [] => cases h

theorem ne_nil_of_describes (hp : p ∈ patterns) (hu : p.Describes u) : u ≠ [] := by
  cases p with
  | word | number | blank =>
    obtain ⟨d, ds, rfl, -⟩ := hu
    exact List.cons_ne_nil d ds
  | fixed k s =>
    have hne : (!s.toList.isEmpty) = true :=
      of_mem_fixed (fun _ s => !s.toList.isEmpty) (by decide) hp
    subst hu
    simpa using hne

/-- Where a text that a pattern describes stands at the head, the pattern matches. -/
theorem exists_match? (hp : p ∈ patterns) (hu : p.Describes u) (h : u <+: cs) :
    ∃ text, p.match? cs = some text := by
  obtain ⟨c, u, rfl⟩ := List.exists_cons_of_ne_nil (ne_nil_of_describes hp hu)
  obtain ⟨rest, rfl⟩ := h
  rw [List.cons_append]
  cases p with
  | word | number | blank => exact ⟨_, if_pos (IsRun.head hu)⟩
  | fixed k s =>
    have hs : s.toList = c :: u := hu.symm
    have hprefix : s.toList.isPrefixOf (c :: (u ++ rest)) = true := by
      rw [hs, List.isPrefixOf_iff_prefix, ← List.cons_append]
      exact List.prefix_append _ _
    exact ⟨_, if_pos hprefix⟩

/-! ## The order of the table -/

/-- Wherever both match, `p` matches more. -/
def Outlasts (p q : Pattern) : Prop :=
  ∀ cs u v, p.Describes u → u <+: cs → q.Describes v → v <+: cs → v.length < u.length

def starts : Pattern → Char → Bool
  | .word, c => isWordStart c
  | .number, c => c.isDigit
  | .blank, c => isBlank c
  | .fixed _ text, c => text.toList.head? = some c

theorem starts_of_describes (h : p.Describes (c :: u)) : p.starts c = true := by
  cases p with
  | word | number | blank => exact IsRun.head h
  | fixed k s =>
    have hs : s.toList = c :: u := h.symm
    rw [starts, hs]
    exact decide_eq_true rfl

/-- Patterns that no character starts both of are never in each other's way. -/
theorem outlasts_of_apart (hp : p ∈ patterns) (h : ∀ c, p.starts c = true → q.starts c = false) :
    p.Outlasts q := by
  intro cs u v hu hucs hv hvcs
  match u, v with
  | [], _ => exact absurd rfl (ne_nil_of_describes hp hu)
  | c :: u, [] => exact Nat.succ_pos _
  | c :: u, d :: v =>
    obtain ⟨rest, rfl⟩ := hucs
    obtain ⟨rfl, -⟩ := List.cons_prefix_cons.1 hvcs
    have hapart := h d (starts_of_describes hu)
    rw [starts_of_describes hv] at hapart
    cases hapart

/-- Of two texts at one place one is part of the other. -/
theorem outlasts_fixed {k k' : Kind} {s t : String} (h : ¬ s.toList <+: t.toList) :
    Outlasts (.fixed k s) (.fixed k' t) := by
  rintro cs _ _ rfl hs rfl ht
  refine Nat.lt_of_not_le fun hle => h ?_
  exact List.prefix_of_prefix_length_le hs ht hle

/-- A fixed text stands before no other that goes on with it, and runs of other characters before
all of them. -/
def mayPrecede : Pattern → Pattern → Bool
  | .fixed _ s, .fixed _ t => !s.toList.isPrefixOf t.toList
  | p, .fixed _ t => t.toList.head?.all fun c => !p.starts c
  | .word, .number | .word, .blank | .number, .blank => true
  | _, _ => false

theorem outlasts_of_mayPrecede (hp : p ∈ patterns) (h : p.mayPrecede q = true) :
    p.Outlasts q := by
  match p, q with
  | .fixed k s, .fixed k' t =>
    refine outlasts_fixed fun hprefix => ?_
    rw [mayPrecede, List.isPrefixOf_iff_prefix.2 hprefix] at h
    cases h
  | .word, .fixed _ t | .number, .fixed _ t | .blank, .fixed _ t =>
    refine outlasts_of_apart hp fun c hc => ?_
    refine decide_eq_false fun hhead => ?_
    change Option.all _ t.toList.head? = true at h
    rw [hhead, Option.all_some, hc] at h
    cases h
  | .word, .number => exact outlasts_of_apart hp fun _ => not_isDigit_of_isWordStart
  | .word, .blank =>
    exact outlasts_of_apart hp fun _ hc => not_isBlank_of_isWordPart (isWordPart_iff.2 (.inl hc))
  | .number, .blank =>
    exact outlasts_of_apart hp fun _ hc => not_isBlank_of_isWordPart (isWordPart_iff.2 (.inr hc))

theorem patterns_in_order : patterns.Pairwise fun p q => p.mayPrecede q = true := by
  decide

end Pattern

/-! ## The first match -/

open Pattern

/-- Where no pattern matches, there is nothing that one of them describes. -/
theorem firstMatch?_eq_none_iff {cs : List Char} :
    firstMatch? cs = none ↔ ∀ p ∈ patterns, ∀ u, p.Describes u → ¬ u <+: cs := by
  rw [firstMatch?, List.findSome?_eq_none_iff]
  refine forall₂_congr fun p hp => ?_
  rw [Option.map_eq_none_iff]
  constructor
  · intro hnone u hu hucs
    obtain ⟨text, hsome⟩ := exists_match? hp hu hucs
    rw [hnone] at hsome
    cases hsome
  · intro hnone
    refine Option.eq_none_iff_forall_ne_some.2 fun text hsome => ?_
    have hlongest := longest_of_match? hsome
    exact hnone text hlongest.describes hlongest.at_head

/-- A pattern that stands before the first that matches does not match, and one behind it matches
less. -/
theorem firstMatch?_longest {cs text : List Char} {p : Pattern}
    (h : firstMatch? cs = some (p, text)) :
    p ∈ patterns ∧ p.Longest cs text ∧
      ∀ q ∈ patterns, q ≠ p → ∀ u, q.Describes u → u <+: cs → u.length < text.length := by
  obtain ⟨hp, hmatch⟩ := mem_of_firstMatch? h
  have hlongest := longest_of_match? hmatch
  refine ⟨hp, hlongest, fun q hq hne u hu hucs => ?_⟩
  obtain ⟨before, p', after, htable, hfirst, hbefore⟩ := List.findSome?_eq_some_iff.1 h
  obtain ⟨text', -, hpair⟩ := Option.map_eq_some_iff.1 hfirst
  obtain rfl : p' = p := congrArg Prod.fst hpair
  have hwhere := hq
  have horder := patterns_in_order
  rw [htable] at hwhere horder
  rcases List.mem_append.1 hwhere with hearlier | hlater
  · -- Then `q` would have been the first.
    obtain ⟨other, hother⟩ := exists_match? hq hu hucs
    have hnone := hbefore q hearlier
    rw [hother] at hnone
    cases hnone
  · have hbehind := (List.mem_cons.1 hlater).resolve_left hne
    have hmay := (List.pairwise_cons.1 (List.pairwise_append.1 horder).2.1).1 q hbehind
    exact outlasts_of_mayPrecede hp hmay cs text u hlongest.describes hlongest.at_head hu hucs

/-! ## Characters that start nothing -/

/-- A character that some pattern starts with is enough for one of them. -/
theorem exists_describes_singleton {p : Pattern} (hp : p ∈ patterns) {c : Char} {u : List Char}
    (hu : p.Describes (c :: u)) : ∃ q ∈ patterns, q.Describes [c] := by
  cases p with
  | word | number | blank => exact ⟨_, hp, c, [], rfl, IsRun.head hu, List.forall_mem_nil _⟩
  | fixed k s =>
    have hs : s.toList = c :: u := hu.symm
    have hfirst : (firstMatch? (s.toList.take 1)).isSome = true :=
      of_mem_fixed (fun _ s => (firstMatch? (s.toList.take 1)).isSome) (by decide) hp
    rw [hs] at hfirst
    obtain ⟨⟨q, text⟩, hq⟩ := Option.isSome_iff_exists.1 hfirst
    obtain ⟨hmem, hmatch⟩ := mem_of_firstMatch? hq
    have hlongest := longest_of_match? hmatch
    obtain hnil | ⟨rest, hcons, hrest⟩ := List.prefix_cons_iff.1 hlongest.at_head
    · exact absurd hnil (ne_nil_of_describes hmem hlongest.describes)
    · rw [List.prefix_nil.1 hrest] at hcons
      exact ⟨q, hmem, hcons ▸ hlongest.describes⟩

theorem firstMatch?_cons_eq_none_iff {c : Char} {cs : List Char} :
    firstMatch? (c :: cs) = none ↔ ∀ p ∈ patterns, ∀ u, p.Describes u → u.head? ≠ some c := by
  rw [firstMatch?_eq_none_iff]
  constructor
  · intro hnone p hp u hu hhead
    obtain ⟨u, rfl⟩ := List.head?_eq_some_iff.1 hhead
    obtain ⟨q, hq, hsingle⟩ := exists_describes_singleton hp hu
    exact hnone q hq [c] hsingle ((List.prefix_cons_inj c).2 List.nil_prefix)
  · intro hnone p hp u hu hucs
    obtain ⟨d, u, rfl⟩ := List.exists_cons_of_ne_nil (ne_nil_of_describes hp hu)
    exact hnone p hp _ hu (congrArg some (List.cons_prefix_cons.1 hucs).1)

/-! ## Tokens -/

theorem ofHead_of_firstMatch? {c : Char} {cs text : List Char} {p : Pattern}
    (h : firstMatch? (c :: cs) = some (p, text)) : Lexeme.ofHead c cs = ⟨text, p.token? text⟩ := by
  rw [Lexeme.ofHead, h]

theorem readToken_of_firstMatch? {c : Char} {cs text : List Char} {p : Pattern}
    (h : firstMatch? (c :: cs) = some (p, text)) :
    readToken (c :: cs) = (p.token? text).elim (readToken ((c :: cs).drop text.length))
      fun t => (t, (c :: cs).drop text.length) := by
  rw [readToken, ofHead_of_firstMatch? h]
  cases p.token? text <;> rfl

theorem readToken_of_firstMatch?_none {c : Char} {cs : List Char}
    (h : firstMatch? (c :: cs) = none) :
    readToken (c :: cs) = (⟨.illegal, String.singleton c⟩, cs) := by
  rw [readToken, Lexeme.ofHead, h]
  rfl

theorem Pattern.kind_ne_illegal {p : Pattern} (hp : p ∈ patterns) {text : List Char} {t : Token}
    (ht : p.token? text = some t) : t.kind ≠ .illegal := by
  cases p with
  | word =>
    cases ht
    rw [kind_ofWord]
    split
    · nofun
    · split <;> nofun
  | number => cases ht; nofun
  | blank => cases ht
  | fixed k s =>
    cases ht
    exact of_decide_eq_true (of_mem_fixed (fun k _ => decide (k ≠ .illegal)) (by decide) hp)

/-- A run is read to its end. -/
theorem readToken_run {q : Char → Bool} {c : Char} {cs : List Char} {t : Token}
    (hc : q c = true) (hhead : Lexeme.ofHead c cs = ⟨c :: cs.takeWhile q, some t⟩) :
    readToken (c :: cs) = (t, (c :: cs).dropWhile q) := by
  refine readToken_of_head hhead ?_
  rw [← List.takeWhile_cons_of_pos hc, List.takeWhile_append_dropWhile]

/-- An equals sign or exclamation mark with no equals sign behind it is read alone. -/
theorem ofHead_of_head?_ne {c : Char} (hc : c = '=' ∨ c = '!') {cs : List Char}
    (h : cs.head? ≠ some '=') : Lexeme.ofHead c cs = Lexeme.ofHead c [] := by
  have hclasses : isWordStart c = false ∧ c.isDigit = false ∧ isBlank c = false := by
    rcases hc with rfl | rfl <;> decide
  obtain ⟨hword, hdigit, hblank⟩ := hclasses
  cases cs with
  | nil => rfl
  | cons d ds =>
    have hd : d ≠ '=' := fun heq => h (congrArg some heq)
    rw [ofHead_symbol hword hdigit hblank]
    exact ofHead_symbol_of_ne hword hdigit hblank (.inl hd)

/-- A character is illegal just when no pattern starts with it. -/
theorem kind_eq_illegal_iff {c : Char} (hc : isBlank c = false) (cs : List Char) :
    (readToken (c :: cs)).1.kind = .illegal ↔
      ∀ p ∈ patterns, ∀ u, p.Describes u → u.head? ≠ some c := by
  rw [← @firstMatch?_cons_eq_none_iff c cs]
  cases h : firstMatch? (c :: cs) with
  | none =>
    rw [readToken_of_firstMatch?_none h]
    exact iff_of_true rfl rfl
  | some r =>
    obtain ⟨p, text⟩ := r
    obtain ⟨t, ht⟩ := (exists_token_iff c cs).2 hc
    rw [ofHead_of_firstMatch? h] at ht
    change p.token? text = some t at ht
    rw [readToken_of_firstMatch? h, ht]
    exact iff_of_false (Pattern.kind_ne_illegal (mem_of_firstMatch? h).1 ht) nofun

/-- The first pattern that matches matches more than any other could, and takes all that it can; its
match is the token, or is skipped.  So blanks are skipped as long as they last; a word or a number
is as long as it can be, and a keyword is one only as the whole word; an operator of two characters
goes before its first character alone; and just those characters are illegal, one by one, with which
no pattern starts. -/
theorem first_match_longest (c : Char) (cs : List Char) :
    (∀ p text, firstMatch? (c :: cs) = some (p, text) →
      p ∈ patterns ∧ p.Longest (c :: cs) text ∧
      (∀ q ∈ patterns, q ≠ p → ∀ u, q.Describes u → u <+: c :: cs → u.length < text.length) ∧
      readToken (c :: cs) = (p.token? text).elim (readToken ((c :: cs).drop text.length))
        fun t => (t, (c :: cs).drop text.length)) ∧
    (isBlank c = true → readToken (c :: cs) = readToken ((c :: cs).dropWhile isBlank)) ∧
    (isWordStart c = true →
      let word := String.ofList ((c :: cs).takeWhile isWordPart)
      readToken (c :: cs) = (⟨if word = "let" then .let else if word = "return" then .return
        else .identifier, word⟩, (c :: cs).dropWhile isWordPart)) ∧
    (c.isDigit = true → readToken (c :: cs) =
      (⟨.int, String.ofList ((c :: cs).takeWhile Char.isDigit)⟩,
        (c :: cs).dropWhile Char.isDigit)) ∧
    (readToken ('=' :: '=' :: cs) = (⟨.equals, "=="⟩, cs) ∧
      readToken ('!' :: '=' :: cs) = (⟨.notEquals, "!="⟩, cs)) ∧
    (cs.head? ≠ some '=' → readToken ('=' :: cs) = (⟨.assign, "="⟩, cs) ∧
      readToken ('!' :: cs) = (⟨.bang, "!"⟩, cs)) ∧
    (isBlank c = false → ((readToken (c :: cs)).1.kind = .illegal ↔
      ∀ p ∈ patterns, ∀ u, p.Describes u → u.head? ≠ some c)) ∧
    ((∀ p ∈ patterns, ∀ u, p.Describes u → u.head? ≠ some c) →
      readToken (c :: cs) = (⟨.illegal, String.singleton c⟩, cs)) := by
  refine ⟨fun p text h => ?_, fun _ => (readToken_dropWhile (c :: cs)).symm, fun hc => ?_,
    fun hc => ?_, ⟨readToken_of_head rfl rfl, readToken_of_head rfl rfl⟩, fun hne => ⟨?_, ?_⟩,
    fun hc => kind_eq_illegal_iff hc cs, fun hnone => ?_⟩
  · obtain ⟨hp, hlongest, hothers⟩ := firstMatch?_longest h
    exact ⟨hp, hlongest, hothers, readToken_of_firstMatch? h⟩
  · have hpart := isWordPart_iff.2 (.inl hc)
    intro word
    rw [readToken_run hpart (ofHead_word hc), ← List.takeWhile_cons_of_pos hpart, ← kind_ofWord]
    rfl
  · rw [readToken_run hc (ofHead_number hc), ← List.takeWhile_cons_of_pos hc]
  · exact readToken_of_head (ofHead_of_head?_ne (.inl rfl) hne) rfl
  · exact readToken_of_head (ofHead_of_head?_ne (.inr rfl) hne) rfl
  · exact readToken_of_firstMatch?_none (firstMatch?_cons_eq_none_iff.2 hnone)

/-- Of `letter==1` the word is read whole, though it begins like a keyword. -/
theorem first_match_longest_letter :
    let ahead := "letter==1".toList
    firstMatch? ahead = some (.word, "letter".toList) ∧
      (∀ q ∈ patterns, q ≠ .word → ∀ u, q.Describes u → u <+: ahead → u.length < 6) ∧
      readToken ahead = (⟨.identifier, "letter"⟩, "==1".toList) := by
  intro ahead
  have hmatch : firstMatch? ahead = some (.word, "letter".toList) := by decide +kernel
  obtain ⟨hfirst, -, hword, -⟩ := first_match_longest 'l' "etter==1".toList
  obtain ⟨-, -, hothers, -⟩ := hfirst .word "letter".toList hmatch
  exact ⟨hmatch, hothers, (hword (by decide)).trans (by decide +kernel)⟩

end Precedence
