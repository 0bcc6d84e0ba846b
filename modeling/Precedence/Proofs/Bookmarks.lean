import Precedence.Bookmark
import Precedence.Proofs.Lexemes

/-!
# Reading from a bookmark

A bookmark can be read from just where it stands between two characters of its source.  What is
read is a run of blanks and then the text of one token, so a source is nothing but the texts of its
tokens with blanks in between.
-/

namespace Precedence

open Text

/-! ## Bytes -/

theorem byteCount_eq (cs : List Char) : byteCount cs = (String.ofList cs).utf8ByteSize := by
  have hfrom (n : Nat) : cs.foldl (fun n c => n + c.utf8Size) n =
      n + (String.ofList cs).utf8ByteSize := by
    induction cs generalizing n with
    | nil => rfl
    | cons c cs ih =>
      rw [List.foldl_cons, ih, String.ofList_cons, String.utf8ByteSize_append,
        String.utf8ByteSize_singleton, Nat.add_assoc]
  rw [byteCount, hfrom, Nat.zero_add]

theorem byteCount_toList (s : String) : byteCount s.toList = s.utf8ByteSize := by
  rw [byteCount_eq, String.ofList_toList]

theorem byteCount_append (cs ds : List Char) :
    byteCount (cs ++ ds) = byteCount cs + byteCount ds := by
  simp only [byteCount_eq, String.ofList_append, String.utf8ByteSize_append]

theorem byteCount_cons (c : Char) (cs : List Char) :
    byteCount (c :: cs) = c.utf8Size + byteCount cs := by
  rw [← List.singleton_append, byteCount_append]
  exact congrArg (· + byteCount cs) (Nat.zero_add c.utf8Size)

theorem byteCount_pos {cs : List Char} (h : cs ≠ []) : 0 < byteCount cs := by
  cases cs with
  | nil => exact absurd rfl h
  | cons c cs =>
    have hc := c.utf8Size_pos
    rw [byteCount_cons]
    omega

theorem dropBytes_byteCount (front rest : List Char) :
    dropBytes (byteCount front) (front ++ rest) = some rest := by
  induction front with
  | nil => rw [List.nil_append, byteCount, List.foldl_nil, dropBytes]
  | cons c front ih =>
    have hc := c.utf8Size_pos
    obtain ⟨n, hn⟩ : ∃ n, byteCount (c :: front) = n + 1 :=
      Nat.exists_eq_succ_of_ne_zero (by rw [byteCount_cons]; omega)
    have hrest : n + 1 - c.utf8Size = byteCount front := by
      rw [← hn, byteCount_cons, Nat.add_sub_cancel_left]
    rw [hn, List.cons_append, dropBytes, if_pos (by rw [← hn, byteCount_cons]; omega), hrest, ih]

/-- Bytes can be dropped just where they are those of the first characters. -/
theorem dropBytes_eq_some_iff {n : Nat} {cs rest : List Char} :
    dropBytes n cs = some rest ↔ ∃ front, cs = front ++ rest ∧ n = byteCount front := by
  constructor
  · intro h
    fun_induction dropBytes n cs with
    | case1 cs => exact ⟨[], by cases h; rfl, rfl⟩
    | case2 n => cases h
    | case3 n c cs hle ih =>
      obtain ⟨front, rfl, hn⟩ := ih h
      exact ⟨c :: front, rfl, by rw [byteCount_cons]; omega⟩
    | case4 n c cs hgt => cases h
  · rintro ⟨front, rfl, rfl⟩
    exact dropBytes_byteCount front rest

/-! ## Places that can be read from -/

namespace Bookmark

variable {b : Bookmark} {rest : List Char}

/-- The bytes in front of the bookmark are whole characters of its source. -/
def OnBoundary (b : Bookmark) : Prop := (⟨b.offset⟩ : String.Pos.Raw).IsValid b.source

theorem rest?_eq_some_iff :
    b.rest? = some rest ↔ ∃ front, b.source.toList = front ++ rest ∧ b.offset = byteCount front :=
  dropBytes_eq_some_iff

theorem onBoundary_iff : b.OnBoundary ↔ ∃ rest, b.rest? = some rest := by
  simp only [OnBoundary, String.Pos.Raw.isValid_iff_exists_append, rest?_eq_some_iff]
  constructor
  · rintro ⟨front, rest, hsource, hoffset⟩
    refine ⟨rest.toList, front.toList, by rw [hsource, String.toList_append], ?_⟩
    rw [byteCount_toList]
    exact congrArg String.Pos.Raw.byteIdx hoffset
  · rintro ⟨rest, front, hsource, hoffset⟩
    refine ⟨.ofList front, .ofList rest, ?_, ?_⟩
    · rw [← String.ofList_append, ← hsource, String.ofList_toList]
    · rw [hoffset, byteCount_eq]
      rfl

theorem OnBoundary.le (h : b.OnBoundary) : b.offset ≤ b.source.utf8ByteSize := h.le_rawEndPos

/-- Where a reading from here leads that uses up `used`. -/
theorem before_eq {used rest : List Char} (h : b.rest? = some (used ++ rest)) :
    (b.before rest).rest? = some rest ∧ (b.before rest).offset = b.offset + byteCount used := by
  obtain ⟨front, hsource, hoffset⟩ := rest?_eq_some_iff.1 h
  have hbefore : (b.before rest).offset = byteCount (front ++ used) := by
    show b.source.utf8ByteSize - byteCount rest = _
    rw [← byteCount_toList, hsource, ← List.append_assoc, byteCount_append, Nat.add_sub_cancel]
  refine ⟨rest?_eq_some_iff.2 ⟨front ++ used, ?_, hbefore⟩, ?_⟩
  · rw [List.append_assoc]
    exact hsource
  · rw [hbefore, byteCount_append, hoffset]

end Bookmark

/-! ## One token -/

/-- What a token is read from: blanks, which do not count, and then what it says. -/
theorem readToken_append (cs : List Char) :
    ∃ ws, (∀ c ∈ ws, isBlank c = true) ∧
      cs = ws ++ (readToken cs).1.text.toList ++ (readToken cs).2 := by
  fun_induction readToken cs with
  | case1 => exact ⟨[], List.forall_mem_nil _, rfl⟩
  | case2 c cs t ht =>
    refine ⟨[], List.forall_mem_nil _, ?_⟩
    rw [(text_of_ofHead ht).1, List.nil_append, text_append_drop]
  | case3 c cs ht ih =>
    obtain ⟨ws, hws, hrest⟩ := ih
    refine ⟨(Lexeme.ofHead c cs).text ++ ws, ?_, ?_⟩
    · exact List.forall_mem_append.2 ⟨isBlank_of_ofHead ht, hws⟩
    · rw [List.append_assoc, List.append_assoc, ← List.append_assoc ws, ← hrest, text_append_drop]

/-! ## All tokens -/

/-- Tokens one behind the other make up a text, with blanks in front of each and at the end. -/
inductive Cut : List Token → List Char → Prop
  | nil {ws} (hws : ∀ c ∈ ws, isBlank c = true) : Cut [] ws
  | cons {ws t ts cs} (hws : ∀ c ∈ ws, isBlank c = true) (h : Cut ts cs) :
      Cut (t :: ts) (ws ++ t.text.toList ++ cs)

theorem cut_tokensOf (cs : List Char) : Cut (tokensOf cs) cs := by
  fun_induction tokensOf cs with
  | case1 cs heof =>
    obtain ⟨ws, hws, hcs⟩ := readToken_append cs
    rw [readToken_of_eof heof] at hcs
    have hblank : cs = ws := hcs.trans (by simp [Token.eof])
    rw [hblank]
    exact .nil hws
  | case2 cs hne ih =>
    obtain ⟨ws, hws, hcs⟩ := readToken_append cs
    have hcut := Cut.cons (t := (readToken cs).1) hws ih
    rwa [← hcs] at hcut

/-! ## Reading on and on -/

namespace Bookmark

variable {b b' : Bookmark} {cs : List Char} {t : Token}

/-- The next `n` tokens, and the place behind them. -/
def draw? : Nat → Bookmark → Option (List Token × Bookmark)
  | 0, b => some ([], b)
  | n + 1, b => b.next?.bind fun r => (draw? n r.2).map fun q => (r.1 :: q.1, q.2)

theorem next?_eq (h : b.rest? = some cs) :
    b.next? = some ((readToken cs).1, b.before (readToken cs).2) := by
  rw [next?, lend?, h]
  rfl

theorem next?_isSome_iff : b.next?.isSome ↔ b.OnBoundary := by
  rw [onBoundary_iff, next?, lend?, Option.isSome_map, Option.isSome_iff_exists]

theorem offset_of_rest?_nil (h : b.rest? = some []) : b.offset = b.source.utf8ByteSize := by
  obtain ⟨front, hsource, hoffset⟩ := rest?_eq_some_iff.1 h
  rw [hoffset, ← byteCount_toList, hsource, List.append_nil]

/-- One call takes blanks and the text of its token away from what was left. -/
theorem exists_of_next? (h : b.next? = some (t, b')) :
    b'.source = b.source ∧ ∃ ws rest, (∀ c ∈ ws, isBlank c = true) ∧
      b.rest? = some (ws ++ t.text.toList ++ rest) ∧
      b'.rest? = some rest ∧ b'.offset = b.offset + byteCount (ws ++ t.text.toList) ∧
      (t = .eof ∧ rest = [] ∨ t.kind ≠ .eof ∧ t.text ≠ "") := by
  obtain ⟨cs, hcs⟩ := onBoundary_iff.1 (next?_isSome_iff.1 (Option.isSome_of_eq_some h))
  rw [next?_eq hcs] at h
  cases h
  obtain ⟨ws, hws, hsplit⟩ := readToken_append cs
  have hleft : b.rest? = some (ws ++ (readToken cs).1.text.toList ++ (readToken cs).2) := by
    rw [← hsplit]
    exact hcs
  obtain ⟨hrest, hoffset⟩ := before_eq hleft
  refine ⟨rfl, ws, (readToken cs).2, hws, hleft, hrest, hoffset, ?_⟩
  by_cases heof : (readToken cs).1.kind = .eof
  · rw [readToken_of_eof heof]
    exact .inl ⟨rfl, rfl⟩
  · have hmem : (readToken cs).1 ∈ tokensOf cs := by
      rw [tokensOf_of_ne heof]
      exact List.mem_cons_self
    obtain ⟨⟨c, hc⟩, -⟩ := text_of_mem_tokensOf hmem
    refine .inr ⟨heof, fun hempty => ?_⟩
    rw [hempty] at hc
    cases hc

theorem draw?_of_rest?_nil (n : Nat) (h : b.rest? = some []) :
    ∃ b', b.draw? n = some (List.replicate n .eof, b') ∧ b'.source = b.source ∧
      b'.rest? = some [] := by
  induction n generalizing b with
  | zero => exact ⟨b, rfl, rfl, h⟩
  | succ n ih =>
    have hnext := next?_eq h
    rw [readToken_nil] at hnext
    rw [← List.append_nil []] at h
    obtain ⟨b', hdraw, hsource, hrest⟩ := ih (before_eq h).1
    refine ⟨b', ?_, hsource, hrest⟩
    rw [draw?, hnext, Option.bind_some, hdraw]
    rfl

/-- All tokens are drawn in order, and from then on nothing but end markers. -/
theorem draw?_eq (k : Nat) (h : b.rest? = some cs) :
    ∃ b', b.draw? ((tokensOf cs).length + k) = some (tokensOf cs ++ List.replicate k .eof, b') ∧
      b'.source = b.source ∧ ∃ rest, b'.rest? = some rest ∧ (0 < k → rest = []) := by
  fun_induction tokensOf cs generalizing b with
  | case1 cs heof =>
    cases k with
    | zero => exact ⟨b, rfl, rfl, cs, h, fun hk => absurd hk (Nat.lt_irrefl 0)⟩
    | succ k =>
      have hnext := next?_eq h
      rw [readToken_of_eof heof] at hnext
      rw [← List.append_nil cs] at h
      obtain ⟨b', hdraw, hsource, hrest⟩ := draw?_of_rest?_nil k (before_eq h).1
      refine ⟨b', ?_, hsource, [], hrest, fun _ => rfl⟩
      rw [List.length_nil, Nat.zero_add, draw?, hnext, Option.bind_some, hdraw]
      rfl
  | case2 cs hne ih =>
    obtain ⟨ws, -, hsplit⟩ := readToken_append cs
    have hnext := next?_eq h
    rw [hsplit] at h
    obtain ⟨b', hdraw, hsource, hrest⟩ := ih (before_eq h).1
    refine ⟨b', ?_, hsource, hrest⟩
    rw [List.length_cons, Nat.add_right_comm, draw?, hnext, Option.bind_some, hdraw]
    rfl

/-- A bookmark that is moved about in a source can be read from if and only if it stands between two
characters; a call takes away some blanks and the text of the token it gives, and leaves it between
two characters again.  From the start on, the tokens and the blanks between them are all there is,
and then there are end markers for ever. -/
theorem draws_source (source : String) :
    (∀ n, ((start source).skip n).next?.isSome ↔ ((start source).skip n).OnBoundary) ∧
    (∀ n t b, ((start source).skip n).next? = some (t, b) →
      b.source = source ∧ b.OnBoundary ∧ b.offset ≤ source.utf8ByteSize ∧
      (∃ ws rest, (∀ c ∈ ws, isBlank c = true) ∧
        ((start source).skip n).rest? = some (ws ++ t.text.toList ++ rest) ∧
        b.rest? = some rest ∧ b.offset = n + byteCount (ws ++ t.text.toList)) ∧
      (t.kind ≠ .eof → t.text ≠ "" ∧ n < b.offset) ∧
      (t.kind = .eof → t = .eof ∧ b.offset = source.utf8ByteSize)) ∧
    ∃ ts, (∀ t ∈ ts, t.kind ≠ .eof) ∧ Cut ts source.toList ∧
      ∀ k, ∃ b, (start source).draw? (ts.length + k) = some (ts ++ List.replicate k .eof, b) ∧
        b.source = source ∧ b.OnBoundary ∧ (0 < k → b.offset = source.utf8ByteSize) := by
  refine ⟨fun n => next?_isSome_iff, fun n t b h => ?_, tokensOf source.toList,
    kind_ne_eof_of_mem_tokensOf source.toList, cut_tokensOf source.toList, fun k => ?_⟩
  · obtain ⟨hsource, ws, rest, hws, hleft, hrest, hoffset, hend⟩ := exists_of_next? h
    have hboundary : b.OnBoundary := onBoundary_iff.2 ⟨rest, hrest⟩
    have hstart : ((start source).skip n).offset = n := Nat.zero_add n
    rw [hstart] at hoffset
    refine ⟨hsource, hboundary, ?_, ⟨ws, rest, hws, hleft, hrest, hoffset⟩, ?_, ?_⟩
    · have hle := hboundary.le
      rwa [hsource] at hle
    · intro hne
      rcases hend with ⟨rfl, -⟩ | ⟨-, htext⟩
      · exact absurd rfl hne
      · have hpos : 0 < byteCount t.text.toList :=
          byteCount_pos fun hnil => htext (String.toList_eq_nil_iff.1 hnil)
        rw [byteCount_append] at hoffset
        exact ⟨htext, by omega⟩
    · intro heof
      rcases hend with ⟨rfl, rfl⟩ | ⟨hne, -⟩
      · exact ⟨rfl, by rw [offset_of_rest?_nil hrest, hsource]; rfl⟩
      · exact absurd heof hne
  · obtain ⟨b, hdraw, hsource, rest, hrest, hend⟩ := draw?_eq k (rest?_start source)
    refine ⟨b, hdraw, hsource, onBoundary_iff.2 ⟨rest, hrest⟩, fun hk => ?_⟩
    rw [hend hk] at hrest
    rw [offset_of_rest?_nil hrest, hsource]
    rfl

/-- Behind the two bytes of a letter that belongs to no token, a blank of three bytes is skipped;
inside the blank there is no place to read from. -/
theorem draws_source_wide_blank :
    let source := "λ\u3000let"
    let b := (start source).skip 2
    let behind : Bookmark := ⟨source, 8⟩
    b.next? = some (⟨.let, "let"⟩, behind) ∧ b.OnBoundary ∧ behind.OnBoundary ∧
      behind.offset ≤ source.utf8ByteSize ∧ ¬ ((start source).skip 3).OnBoundary ∧
      ∃ ts, Cut ts source.toList ∧ ∃ b, (start source).draw? (ts.length + 2) =
        some (ts ++ [.eof, .eof], b) ∧ b.offset = source.utf8ByteSize := by
  intro source b behind
  have hnext : b.next? = some (⟨.let, "let"⟩, behind) := by decide +kernel
  have hinside : ((start source).skip 3).next? = none := by decide +kernel
  obtain ⟨hreads, hcalls, ts, -, hcut, hdraws⟩ := draws_source source
  obtain ⟨-, hbehind, hle, -⟩ := hcalls 2 _ _ hnext
  obtain ⟨c, hdraw, -, -, hend⟩ := hdraws 2
  refine ⟨hnext, (hreads 2).1 (Option.isSome_of_eq_some hnext), hbehind, hle, ?_, ts, hcut, c,
    hdraw, hend (by decide)⟩
  rw [← hreads 3, hinside]
  exact Bool.false_ne_true

end Bookmark

end Precedence
