import Precedence.Proofs.Pulls

/-!
# Tokenizing

A text can be cut into tokens at once or while it is read.  Both ways come to the same tokens, so
they are read as the same program; and a text that is refused at once is not read without a
diagnostic.
-/

namespace Precedence

/-! ## What a supply hands out -/

/-- A supply hands out its tokens and then end markers. -/
theorem Supply.take_eq {σ : Type} [Supply σ] {supply : σ} {ts : List Token}
    (h : ((Cursor.start supply).steps 2).Shows ts) (n : Nat) :
    Supply.take n supply = (ts ++ List.replicate n Token.eof).take n := by
  cases n with
  | zero => rfl
  | succ n =>
    rw [← h.inHand_eq_take (Nat.lt_succ_self n)]
    exact (Cursor.inHand_step_step n (.start supply)).symm

theorem take_scanned (source : String) (n : Nat) :
    Supply.take n (Scanner.ofString source) =
      (tokensOf source.toList ++ List.replicate n Token.eof).take n :=
  Supply.take_eq (Cursor.shows_scanned (.start (Scanner.ofString source))) n

/-- Whether a scanner ever hands out a token of a kind is seen from the tokens of its text. -/
theorem forall_mem_take_scanned {source : String} {kind : Kind} (hkind : kind ≠ .eof) :
    (∀ n, ∀ t ∈ Supply.take n (Scanner.ofString source), t.kind ≠ kind) ↔
      ∀ t ∈ tokensOf source.toList, t.kind ≠ kind := by
  constructor
  · intro h t ht
    refine h (tokensOf source.toList).length t ?_
    rw [take_scanned, List.take_left]
    exact ht
  · intro h n t ht
    rw [take_scanned] at ht
    rcases List.mem_append.1 (List.mem_of_mem_take ht) with ht | ht
    · exact h t ht
    · rw [List.eq_of_mem_replicate ht]
      exact hkind.symm

/-! ## All at once -/

theorem tokenizeFrom_eq (cs : List Char) (done : Array Token) :
    tokenizeFrom cs done = match (tokensOf cs).find? fun t => t.kind = .illegal with
      | some t => .error (.unrecognised t.text)
      | none => .ok (done ++ (tokensOf cs ++ [Token.eof]).toArray) := by
  fun_induction tokenizeFrom cs done with
  | case1 cs done heof =>
    rw [tokensOf_of_eof heof, readToken_of_eof heof]
    simp
  | case2 cs done heof hillegal =>
    rw [tokensOf_of_ne heof, List.find?_cons_of_pos (by simpa using hillegal)]
  | case3 cs done heof hlegal ih =>
    rw [ih, tokensOf_of_ne heof, List.find?_cons_of_neg (by simpa using hlegal)]
    cases (tokensOf (readToken cs).2).find? fun t => t.kind = .illegal with
    | some t => rfl
    | none => simp

/-- A text is refused at the first token that is illegal. -/
theorem tokenize_eq (source : String) :
    tokenize source = match (tokensOf source.toList).find? fun t => t.kind = .illegal with
      | some t => .error (.unrecognised t.text)
      | none => .ok (tokensOf source.toList ++ [Token.eof]) := by
  rw [tokenize, tokenizeFrom_eq]
  cases (tokensOf source.toList).find? fun t => t.kind = .illegal with
  | some t => rfl
  | none => simp [Except.map]

theorem tokenize_eq_ok_iff {source : String} {ts : List Token} :
    tokenize source = .ok ts ↔
      (∀ t ∈ tokensOf source.toList, t.kind ≠ .illegal) ∧
        ts = tokensOf source.toList ++ [Token.eof] := by
  rw [tokenize_eq]
  cases hfind : (tokensOf source.toList).find? fun t => t.kind = .illegal with
  | none =>
    have hclean : ∀ t ∈ tokensOf source.toList, t.kind ≠ .illegal := by
      simpa using List.find?_eq_none.1 hfind
    exact ⟨fun h => ⟨hclean, (Except.ok.inj h).symm⟩, fun h => congrArg _ h.2.symm⟩
  | some t =>
    have ht : t.kind = .illegal := by simpa using List.find?_some hfind
    exact ⟨nofun, fun h => absurd ht (h.1 t (List.mem_of_find?_eq_some hfind))⟩

theorem tokenize_eq_error {source : String} {d : Diagnostic} (h : tokenize source = .error d) :
    ∃ us t vs, tokensOf source.toList = us ++ t :: vs ∧ (∀ u ∈ us, u.kind ≠ .illegal) ∧
      t.kind = .illegal ∧ d = .unrecognised t.text := by
  rw [tokenize_eq] at h
  cases hfind : (tokensOf source.toList).find? fun t => t.kind = .illegal with
  | none =>
    rw [hfind] at h
    cases h
  | some t =>
    rw [hfind] at h
    cases h
    obtain ⟨ht, us, vs, hsplit, hus⟩ := List.find?_eq_some_iff_append.1 hfind
    exact ⟨us, t, vs, hsplit, by simpa using hus, by simpa using ht, rfl⟩

/-! ## Supplies with the same tokens -/

/-- What two readings have in common if nobody can tell them apart by what they give. -/
structure SameReading {σ τ : Type} (r : Program × Session σ) (q : Program × Session τ) : Prop where
  program : r.1 = q.1
  diagnostics : r.2.diagnostics = q.2.diagnostics
  pulls : r.2.cursor.pulls = q.2.cursor.pulls

open Session

/-- Where the tokens come from makes no difference. -/
theorem sameReading_of_shows {σ τ : Type} [FiniteSupply σ] [FiniteSupply τ] {limit : Nat}
    {supply : σ} {supply' : τ} {ts : List Token} (hs : (start limit supply).cursor.Shows ts)
    (ht : (start limit supply').cursor.Shows ts) :
    SameReading (parse limit supply) (parse limit supply') := by
  obtain ⟨os, s, t, hend, ds, hleft, hright⟩ := exists_endAlike_same hs ht rfl rfl
  obtain ⟨hprogram, hdiagnostics, hcursor⟩ := parse_of_runs hend.left hend.left_eof
  obtain ⟨hprogram', hdiagnostics', hcursor'⟩ := parse_of_runs hend.right hend.right_eof
  obtain ⟨m, -, hm, hm'⟩ := hend.steps
  refine ⟨hprogram.trans hprogram'.symm, ?_, ?_⟩
  · rw [hdiagnostics, hdiagnostics', Session.diagnostics, Session.diagnostics, hleft, hright]
    rfl
  · rw [hcursor, hcursor', hm, hm', Cursor.pulls_steps, Cursor.pulls_steps, pulls_start,
      pulls_start]

/-- No sentence has an illegal token in it, so none goes by without a diagnostic. -/
theorem diagnostics_ne_nil_of_illegal {σ : Type} [FiniteSupply σ] {limit : Nat} {supply : σ}
    {ts : List Token} (hts : (start limit supply).cursor.Shows ts)
    (heof : ∀ t ∈ ts, t.kind ≠ .eof) {t : Token} (ht : t ∈ ts) (hkind : t.kind = .illegal) :
    (parse limit supply).2.diagnostics ≠ [] := by
  intro hnil
  have hsentence := (parse_iff_sentence hts heof).1 ⟨hnil, rfl⟩
  exact hsentence.kind_ne rfl rfl (by decide) t ht hkind

theorem exists_lend?_parse (limit : Nat) (source : String) :
    ∃ b, (Bookmark.start source).lend?
        (fun scanner => let r := parse limit scanner; (r, r.2.cursor.supply)) =
      some (parse limit (Scanner.ofString source), b) := by
  rw [Bookmark.lend?, Bookmark.rest?_start]
  exact ⟨_, rfl⟩

/-- A text is cut into tokens at once just where none of the tokens that come while it is read is
illegal, and they are then the same tokens; to read them from a list, from a scanner, or from a
bookmark that is lent out comes to the same.  A text that is refused is refused for the first
illegal token, and whoever reads it nevertheless gets a diagnostic. -/
theorem tokenize_agrees (source : String) :
    ((∃ ts, tokenize source = .ok ts) ↔
      ∀ n, ∀ t ∈ Supply.take n (Scanner.ofString source), t.kind ≠ .illegal) ∧
    (∀ ts, tokenize source = .ok ts →
      (∃ us, ts = us ++ [Token.eof] ∧ ∀ t ∈ us, t.kind ≠ .eof) ∧
      Supply.take ts.length (Scanner.ofString source) = ts ∧
      ∀ limit, SameReading (parse limit ts) (parse limit (Scanner.ofString source)) ∧
        ∃ r b, (Bookmark.start source).lend?
            (fun scanner => let r := parse limit scanner; (r, r.2.cursor.supply)) = some (r, b) ∧
          SameReading (parse limit ts) r) ∧
    ∀ d, tokenize source = .error d →
      (∃ us t, Supply.take (us.length + 1) (Scanner.ofString source) = us ++ [t] ∧
        (∀ u ∈ us, u.kind ≠ .eof ∧ u.kind ≠ .illegal) ∧ t.kind = .illegal ∧
        d = .unrecognised t.text) ∧
      (parseText source).2 ≠ [] ∧
      ∀ limit, (parse limit (Scanner.ofString source)).2.diagnostics ≠ [] := by
  have heof := kind_ne_eof_of_mem_tokensOf source.toList
  refine ⟨?_, fun ts hok => ?_, fun d herror => ?_⟩
  · rw [forall_mem_take_scanned (by decide)]
    simp only [tokenize_eq_ok_iff, exists_and_left, exists_eq, and_true]
  · obtain ⟨-, rfl⟩ := tokenize_eq_ok_iff.1 hok
    refine ⟨⟨_, rfl, heof⟩, ?_, fun limit => ?_⟩
    · rw [take_scanned, List.length_append, List.take_length_add_append]
      rfl
    · have hlisted := shows_start_listed limit (tokensOf source.toList ++ [Token.eof])
      have hsame := sameReading_of_shows (Cursor.shows_append_eof.1 hlisted)
        (shows_start_scanned limit source)
      obtain ⟨b, hb⟩ := exists_lend?_parse limit source
      exact ⟨hsame, _, b, hb, hsame⟩
  · obtain ⟨us, t, vs, hsplit, hus, ht, rfl⟩ := tokenize_eq_error herror
    have hmem : t ∈ tokensOf source.toList := by
      rw [hsplit]
      exact List.mem_append_right us List.mem_cons_self
    have hdiagnosed (limit : Nat) : (parse limit (Scanner.ofString source)).2.diagnostics ≠ [] :=
      diagnostics_ne_nil_of_illegal (shows_start_scanned limit source) heof hmem ht
    refine ⟨⟨us, t, ?_, fun u hu => ⟨?_, hus u hu⟩, ht, rfl⟩, hdiagnosed defaultLimit, hdiagnosed⟩
    · rw [take_scanned, hsplit, List.append_assoc, List.take_length_add_append]
      rfl
    · refine heof u ?_
      rw [hsplit]
      exact List.mem_append_left _ hu

/-- `1 + x` is read the same from a list and from a scanner; `x = @ 1;` is refused for the `@`. -/
theorem tokenize_agrees_sum :
    let ts : List Token := [⟨.int, "1"⟩, ⟨.plus, "+"⟩, ⟨.identifier, "x"⟩, .eof]
    tokenize "1 + x" = .ok ts ∧ Supply.take 4 (Scanner.ofString "1 + x") = ts ∧
      SameReading (parse 256 ts) (parse 256 (Scanner.ofString "1 + x")) ∧
      tokenize "x = @ 1;" = .error (.unrecognised "@") ∧ (parseText "x = @ 1;").2 ≠ [] := by
  intro ts
  have hok : tokenize "1 + x" = .ok ts := by decide +kernel
  have herror : tokenize "x = @ 1;" = .error (.unrecognised "@") := by decide +kernel
  obtain ⟨-, htokens, hsame⟩ := (tokenize_agrees "1 + x").2.1 ts hok
  obtain ⟨-, hdiagnosed, -⟩ := (tokenize_agrees "x = @ 1;").2.2 _ herror
  exact ⟨hok, htokens, (hsame 256).1, herror, hdiagnosed⟩

end Precedence
