import Precedence.Proofs.Abreast
import Precedence.Proofs.Cutting

/-!
# Containment

A semicolon keeps what went wrong in front of it from what comes after.  The last round before it
ends right behind it, with all levels given back, and the token behind it is looked at for nothing
but whether it is a semicolon too.
-/

namespace Precedence

/-! ## Up to a semicolon -/

section Seam

variable {σ τ : Type} [Supply σ] [Supply τ] {vs : List Token} {t : Token}

theorem Cursor.Shows.upcoming_ne_semicolon {c : Cursor σ} (h : c.Shows (t :: vs))
    (hvs : ∀ v ∈ vs.head?, v.kind ≠ .semicolon) : c.upcoming.kind ≠ .semicolon := by
  have hrest := (Cursor.shows_cons.1 h).2
  show c.step.current.kind ≠ .semicolon
  cases vs with
  | nil =>
    rw [(Cursor.shows_nil.1 hrest).current]
    decide
  | cons v vs =>
    rw [(Cursor.shows_cons.1 hrest).1]
    exact hvs v rfl

/-- Where there is nothing left on one side but a semicolon, and the same semicolon with anything
but another one behind it on the other. -/
def Seam.ofSemicolon {c : Cursor σ} {d : Cursor τ} (hc : c.Shows [t]) (hd : d.Shows (t :: vs))
    (ht : t.kind = .semicolon) (hvs : ∀ v ∈ vs.head?, v.kind ≠ .semicolon)
    (ds es : List Diagnostic) : Seam σ τ where
  left := c
  right := d
  ends := .inl (by rw [(Cursor.shows_cons.1 hc).1, ht])
  left_ne := hc.upcoming_ne_semicolon (by simp)
  right_ne := hd.upcoming_ne_semicolon hvs
  leftDiagnosed := ds
  rightDiagnosed := es

end Seam

namespace Session

variable {σ τ : Type} [FiniteSupply σ] [FiniteSupply τ] {us vs : List Token} {c : Token}
  {s : Session σ} {t : Session τ}

/-- A run to an end marker has used up all the tokens, if none of them is one. -/
theorem Runs.length_le_of_eof {os : List (Option Stmt)} {s' : Session σ} (h : Runs s os s')
    (hs : s.cursor.Shows us) (heof : ∀ u ∈ us, u.kind ≠ .eof) (hend : s'.current.kind = .eof)
    {k n : Nat} (hk : s'.cursor.steps k = s.cursor.steps n) : us.length ≤ n := by
  obtain ⟨m, hm⟩ := h.reaches
  rw [hm, ← Cursor.steps_add] at hk
  have hindex := s.cursor.steps_injective hk
  have hlen := hs.length_le_of_eof heof (by rw [← hm]; exact hend)
  omega

/-- Where a row ends in a semicolon, going on behind it changes nothing about the rounds up to it,
and the next one starts there. -/
theorem runs_up_to_semicolon (hs : s.cursor.Shows (us ++ [c]))
    (ht : t.cursor.Shows (us ++ c :: vs)) (hc : c.kind = .semicolon)
    (heof : ∀ u ∈ us, u.kind ≠ .eof) (hvs : ∀ v ∈ vs.head?, v.kind ≠ .semicolon)
    (hlimit : s.limit = t.limit) (hdepth : s.nesting.depth = t.nesting.depth) :
    ∃ os s' t', Runs s os s' ∧ Runs t os t' ∧ s'.current.kind = .eof ∧ t'.cursor.Shows vs ∧
      ∃ ds, s'.diagnosed = ds ++ s.diagnosed ∧ t'.diagnosed = ds ++ t.diagnosed := by
  obtain ⟨hus, hend⟩ := Cursor.shows_append.1 hs
  obtain ⟨hus', hrest⟩ := Cursor.shows_append.1 ht
  let p : Seam σ τ := .ofSemicolon hend hrest hc hvs s.diagnosed t.diagnosed
  obtain ⟨hcur, hend⟩ := Cursor.shows_cons.1 hend
  obtain ⟨hcur', hrest⟩ := Cursor.shows_cons.1 hrest
  have hbooks : Alike .same p s t := ⟨⟨[], [], .nil, rfl, rfl⟩, hlimit, hdepth⟩
  have habreast : Abreast .same p us.length s t :=
    .of_spells (List.forall₂_same.2 fun _ _ => rfl) hus hus' hbooks rfl rfl (hcur.trans hcur'.symm)
  obtain ⟨os, ps, s', t', hruns, hruns', hall, ⟨k, -, hstop, hcur⟩ | hbeyond⟩ :=
    runs_abreast habreast
  · -- In front of the semicolon there is no end marker to stop at.
    have hlen : (us ++ [c]).length ≤ us.length := by
      refine hruns.length_le_of_eof hs ?_ hcur hstop.left
      rw [List.forall_mem_append, List.forall_mem_singleton, hc]
      exact ⟨heof, by decide⟩
    rw [List.length_append, List.length_singleton] at hlen
    omega
  · obtain rfl := eq_of_forall₂ (eq_of_rel Stmt.Like.eq) hall
    obtain ⟨ds, es, hds, hleft, hright⟩ := hbeyond.diagnosed
    obtain rfl := eq_of_forall₂ Diagnostic.Like.eq hds
    refine ⟨os, s', t', hruns, hruns', ?_, ?_, ds, hleft, hright⟩
    · rw [Session.current, hbeyond.left]
      exact congrArg Token.kind (Cursor.shows_nil.1 hend).current
    · rw [hbeyond.right]
      exact hrest

end Session

/-! ## Programs -/

open Session

/-- What a program is read from, cut behind a semicolon, gives the statements and the diagnostics of
the two pieces one after the other. -/
theorem parse_of_pieces {σ τ υ : Type} [FiniteSupply σ] [FiniteSupply τ] [FiniteSupply υ]
    {limit : Nat} {first : σ} {second : τ} {whole : υ} {us vs : List Token} {c : Token}
    (hfirst : (start limit first).cursor.Shows (us ++ [c]))
    (hsecond : (start limit second).cursor.Shows vs)
    (hwhole : (start limit whole).cursor.Shows (us ++ c :: vs)) (hc : c.kind = .semicolon)
    (heof : ∀ u ∈ us, u.kind ≠ .eof) (hvs : ∀ v ∈ vs.head?, v.kind ≠ .semicolon) :
    (parse limit whole).1.statements =
        (parse limit first).1.statements ++ (parse limit second).1.statements ∧
      (parse limit whole).2.diagnostics =
        (parse limit first).2.diagnostics ++ (parse limit second).2.diagnostics := by
  obtain ⟨os, s, t, hs, ht, hend, hshows, ds, hds, hds'⟩ :=
    runs_up_to_semicolon hfirst hwhole hc heof hvs rfl rfl
  -- Behind the semicolon the books are those of a start, but for the diagnostics.
  obtain ⟨hlimit, hdepth⟩ := Prod.mk.inj ht.ledger_snd
  obtain ⟨ps, u, v, halike, es, hu, hv⟩ := exists_endAlike_same hshows hsecond hlimit hdepth
  obtain ⟨hprogram₁, hdiagnostics₁, -⟩ := parse_of_runs hs hend
  obtain ⟨hprogram₂, hdiagnostics₂, -⟩ := parse_of_runs halike.right halike.right_eof
  obtain ⟨hprogram, hdiagnostics, -⟩ := parse_of_runs (ht.append halike.left) halike.left_eof
  rw [hprogram, hprogram₁, hprogram₂, hdiagnostics, hdiagnostics₁, hdiagnostics₂]
  constructor
  · exact List.filterMap_append
  · rw [diagnostics, diagnostics, diagnostics, hu, hds, hds', hv]
    show (es ++ (ds ++ [])).reverse = (ds ++ []).reverse ++ (es ++ []).reverse
    rw [List.append_nil, List.append_nil, List.reverse_append]

/-- Errors stay in front of a semicolon: a text that ends in one and a text that does not start with
another give, read as one, what they give apart. -/
theorem parse_append (limit : Nat) (s₁ s₂ : String) (h₁ : s₁.toList.getLast? = some ';')
    (h₂ : (readToken s₂.toList).1.kind ≠ .semicolon) :
    (parse limit (Scanner.ofString (s₁ ++ s₂))).1.statements =
        (parse limit (Scanner.ofString s₁)).1.statements ++
          (parse limit (Scanner.ofString s₂)).1.statements ∧
      (parse limit (Scanner.ofString (s₁ ++ s₂))).2.diagnostics =
        (parse limit (Scanner.ofString s₁)).2.diagnostics ++
          (parse limit (Scanner.ofString s₂)).2.diagnostics := by
  obtain ⟨cs, hcs⟩ := List.getLast?_eq_some_iff.1 h₁
  have hcut (rest : List Char) :
      tokensOf (cs ++ ';' :: rest) = tokensOf cs ++ ⟨.semicolon, ";"⟩ :: tokensOf rest := by
    rw [tokensOf_append cs fun y hy => by cases hy; decide, tokensOf_semicolon]
  have hfirst := shows_start_scanned limit s₁
  rw [hcs, hcut, tokensOf_nil] at hfirst
  have hwhole := shows_start_scanned limit (s₁ ++ s₂)
  rw [String.toList_append, hcs, List.append_assoc, List.singleton_append, hcut] at hwhole
  refine parse_of_pieces hfirst (shows_start_scanned limit s₂) hwhole rfl ?_ ?_
  · intro u hu
    exact (lexed_of_mem_tokensOf hu).kind_ne_eof
  · intro v hv
    rw [← head_tokensOf hv]
    exact h₂

/-- In `(1;` a parenthesis is missing, which the `2` behind it has nothing to do with. -/
theorem parse_append_unclosed :
    let s₁ := "let x = (1;"
    let s₂ := "2"
    s₁.toList.getLast? = some ';' ∧ (readToken s₂.toList).1.kind ≠ .semicolon ∧
      (parse 256 (Scanner.ofString (s₁ ++ s₂))).1.statements =
        [.letBinding ⟨.let, "let"⟩ (.ofToken ⟨.identifier, "x"⟩) none,
          .expression ⟨.int, "2"⟩ (some (.integer ⟨.int, "2"⟩ 2))] ∧
      (parse 256 (Scanner.ofString (s₁ ++ s₂))).2.diagnostics =
        [.unexpected .closeParen .semicolon] := by
  intro s₁ s₂
  have h₁ : s₁.toList.getLast? = some ';' := by decide +kernel
  have h₂ : (readToken s₂.toList).1.kind ≠ .semicolon := by decide +kernel
  obtain ⟨hstatements, hdiagnostics⟩ := parse_append 256 s₁ s₂ h₁ h₂
  refine ⟨h₁, h₂, ?_, ?_⟩
  · rw [hstatements]
    decide +kernel
  · rw [hdiagnostics]
    decide +kernel

end Precedence
