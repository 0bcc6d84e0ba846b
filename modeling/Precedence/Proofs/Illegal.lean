import Precedence.Proofs.Threshold
import Precedence.Proofs.Tokenizing

/-!
# Illegal tokens

A character that belongs to no token comes into hand sooner or later, and just once as something
that should start an expression.  So unless levels run out, there are as many diagnostics of that
sort as there are such characters: of those diagnosed and those still to come, the number stays the
same.
-/

namespace Precedence

variable {σ : Type}

namespace Session

variable [Supply σ] {total : Nat} {s : Session σ}

/-! ## What is still to be told -/

/-- The illegal tokens that have been diagnosed and those that are still to come, the one in hand
among them, are `total`.  Nothing is said where the limit was hit. -/
def Untold (total : Nat) (s : Session σ) : Prop :=
  s.Shallow → ∃ ts, s.cursor.Shows ts ∧ (∀ t ∈ ts, t.kind ≠ .eof) ∧
    s.diagnosed.count (.noOperand .illegal) + ts.countP (fun t => t.kind = .illegal) = total

/-- The same, with the token in hand no longer among those to come. -/
def Told (total : Nat) (s : Session σ) : Prop := Untold total s.step

theorem Untold.told (h : Untold total s) (hkind : s.current.kind ≠ .illegal) : Told total s := by
  intro hshallow
  obtain ⟨ts, hts, heof, hsum⟩ := h hshallow
  cases ts with
  | nil => exact ⟨[], Cursor.shows_nil.2 (Cursor.shows_nil.1 hts).step, heof, hsum⟩
  | cons t ts =>
    obtain ⟨hcur, hrest⟩ := Cursor.shows_cons.1 hts
    have ht : t.kind ≠ .illegal := by
      rw [← hcur]
      exact hkind
    rw [List.countP_cons_of_neg (by simpa using ht)] at hsum
    exact ⟨ts, hrest, (List.forall_mem_cons.1 heof).2, hsum⟩

theorem Untold.told_diagnose (h : Untold total s) (hkind : s.current.kind = .illegal) :
    Told total (s.diagnose (.noOperand .illegal)) := by
  intro hshallow
  obtain ⟨ts, hts, heof, hsum⟩ := h (hshallow.of_suffix (List.suffix_cons _ _))
  cases ts with
  | nil =>
    -- An end marker is not illegal.
    rw [current, (Cursor.shows_nil.1 hts).current] at hkind
    cases hkind
  | cons t ts =>
    obtain ⟨hcur, hrest⟩ := Cursor.shows_cons.1 hts
    have ht : t.kind = .illegal := by
      rw [← hcur]
      exact hkind
    rw [List.countP_cons_of_pos (by simpa using ht)] at hsum
    refine ⟨ts, hrest, (List.forall_mem_cons.1 heof).2, ?_⟩
    show (_ :: s.diagnosed).count _ + _ = total
    rw [List.count_cons_self]
    omega

theorem Told.diagnose (h : Told total s) {d : Diagnostic} (hd : d ≠ .noOperand .illegal) :
    Told total (s.diagnose d) := by
  intro hshallow
  obtain ⟨ts, hts, heof, hsum⟩ := h (hshallow.of_suffix (List.suffix_cons d _))
  refine ⟨ts, hts, heof, ?_⟩
  show (d :: s.diagnosed).count _ + _ = total
  rw [List.count_cons_of_ne hd]
  exact hsum

/-- Where the token in hand starts no expression, that is what is said of it. -/
theorem Untold.told_noOperand (h : Untold total s) :
    Told total (s.diagnose (.noOperand s.current.kind)) := by
  by_cases hkind : s.current.kind = .illegal
  · rw [hkind]
    exact h.told_diagnose hkind
  · exact (h.told hkind).diagnose fun heq => hkind (Diagnostic.noOperand.inj heq)

theorem told_tooDeep (total n : Nat) (s : Session σ) : Told total (s.diagnose (.tooDeep n)) :=
  fun hshallow => absurd hshallow (not_shallow_tooDeep s n)

theorem Told.expect (h : Told total s) (kind : Kind) (hkind : kind ≠ .illegal) :
    Told total (s.expect kind).2 := by
  unfold Session.expect
  split
  next hup => exact Untold.told h (by rw [current_step, hup]; exact hkind)
  next => exact h.diagnose Diagnostic.noConfusion

theorem Told.skipSemicolon (h : Told total s) : Told total s.skipSemicolon := by
  unfold Session.skipSemicolon
  split
  next hup => exact Untold.told h (by rw [current_step, hup]; decide)
  next => exact h

/-! ## Expressions -/

/-- The expressions inside deal with the token in hand and with all they come past. -/
def InnerTells (total : Nat) (inner : Inner σ) : Prop :=
  ∀ power s, Untold total s → Told total (inner power s).2

variable {inner : Inner σ}

theorem Told.readOperand (hinner : InnerTells total inner) (rule : OperandRule)
    (h : Told total s) : Told total (readOperand inner rule s).2 := by
  cases rule with
  | identifier => exact h
  | integer =>
    simp only [Session.readOperand, readInteger]
    split
    · exact h
    · exact h.diagnose Diagnostic.noConfusion
  | unary =>
    rw [Session.readOperand, readUnary_eq_map]
    exact hinner .unary s.step h
  | grouped =>
    have hinside := hinner .lowest s.step h
    simp only [Session.readOperand, readGrouped]
    split
    next e inside he =>
      rw [he] at hinside
      have hclose := hinside.expect .closeParen (by decide)
      split <;> next after hc => rwa [hc] at hclose
    next inside he => rwa [he] at hinside

theorem Told.readBinary (hinner : InnerTells total inner) (left : Expr) (h : Told total s) :
    Told total (readBinary inner left s).2 := by
  rw [readBinary_eq_map]
  exact hinner _ s.step h

-- Both functions at once, by induction on the levels.
theorem told_within (total n : Nat) :
    InnerTells total (exprWithin (σ := σ) n) ∧
      ∀ power taken left (s : Session σ), Told total s →
        Told total (foldWithin n power taken left s).2 := by
  induction n with
  | zero =>
    constructor
    · intro power s h
      exact told_tooDeep total s.limit s
    · intro power taken left s h
      by_cases hop : power < Rules.standard.power s.upcoming.kind
      · rw [foldWithin_zero hop]
        exact told_tooDeep total s.limit s
      · rw [foldWithin_stop hop]
        exact h
  | succ n ih =>
    obtain ⟨hexpr, hfold⟩ := ih
    constructor
    · intro power s h
      rw [exprWithin_succ]
      cases hrule : Rules.standard.operand s.current.kind with
      | none => exact h.told_noOperand
      | some rule =>
        have hopened : Told total (s.enter.note (.expression s.current.kind power)) := by
          refine h.told fun hkind => ?_
          rw [hkind] at hrule
          cases hrule
        have hleft := hopened.readOperand hexpr rule
        dsimp only
        split
        next left t he =>
          rw [he] at hleft
          exact hfold power 1 left t hleft
        next t he =>
          rw [he] at hleft
          exact hleft
    · intro power taken left s h
      by_cases hop : power < Rules.standard.power s.upcoming.kind
      · have hopened : Told total s.enter.step := by
          refine Untold.told h fun hkind => ?_
          change s.upcoming.kind = .illegal at hkind
          rw [hkind] at hop
          cases hop
        have hright := hopened.readBinary hexpr left
        rw [foldWithin_succ hop]
        split
        next e t he =>
          rw [he] at hright
          exact hfold power (taken + 1) e t hright
        next t he =>
          rw [he] at hright
          exact hright
      · rw [foldWithin_stop hop]
        exact h

/-! ## Statements -/

theorem Untold.told_value (h : Untold total s) : Told total (s.expr .lowest).2.skipSemicolon :=
  ((told_within total s.levels).1 .lowest s h).skipSemicolon

theorem Told.letBinding (h : Told total s) : Told total s.letBinding.2 := by
  have hname := h.expect .identifier (by decide)
  unfold Session.letBinding
  split
  next named hn => rwa [hn] at hname
  next named hn =>
    rw [hn] at hname
    have hassign := hname.expect .assign (by decide)
    split
    next bound hb => rwa [hb] at hassign
    next bound hb =>
      rw [hb] at hassign
      exact Untold.told_value hassign

theorem Untold.told_stmt (h : Untold total s) : Told total s.stmt.2 := by
  unfold stmt
  split
  next rule hrule =>
    have hkeyword : Told total s := by
      refine h.told fun hkind => ?_
      rw [hkind] at hrule
      cases hrule
    cases rule with
    | letBinding => exact hkeyword.letBinding
    | returnValue => exact Untold.told_value hkeyword
  next => exact h.told_value

end Session

/-! ## Programs -/

open Session

namespace Session

variable [FiniteSupply σ] {total : Nat} {s t : Session σ} {os : List (Option Stmt)}

/-- The step behind a statement leads to a token that nothing has been said of. -/
theorem Untold.round (h : Untold total s) : Untold total s.round.2 := h.told_stmt

theorem Runs.untold (hruns : Runs s os t) (h : Untold total s) : Untold total t := by
  induction hruns with
  | nil => exact h
  | cons hcur hrest ih => exact ih h.round

end Session

theorem count_noOperand_of_shows [FiniteSupply σ] {limit : Nat} {supply : σ} {ts : List Token}
    (hts : (start limit supply).cursor.Shows ts) (heof : ∀ t ∈ ts, t.kind ≠ .eof)
    (hshallow : (parse limit supply).2.Shallow) :
    (parse limit supply).2.diagnostics.count (.noOperand .illegal) =
      ts.countP fun t => t.kind = .illegal := by
  obtain ⟨os, t, hruns, ht⟩ := exists_runs (start limit supply)
  obtain ⟨-, hdiagnostics, -⟩ := parse_of_runs hruns ht
  rw [shallow_iff, hdiagnostics, ← shallow_iff] at hshallow
  have hstart : Untold (ts.countP fun t => t.kind = .illegal) (start limit supply) :=
    fun _ => ⟨ts, hts, heof, Nat.zero_add _⟩
  obtain ⟨us, hus, hne, hsum⟩ := hruns.untold hstart hshallow
  rw [hdiagnostics, diagnostics, List.count_reverse]
  cases us with
  | nil => exact hsum
  | cons u us =>
    -- Behind the last round an end marker is in hand.
    rw [current, (Cursor.shows_cons.1 hus).1] at ht
    exact absurd ht (hne u List.mem_cons_self)

/-- Wherever in a text they stand, characters that belong to no token are diagnosed once each for
not starting an expression, provided the limit is not hit. -/
theorem diagnoses_each_illegal_once (limit : Nat) (text : String)
    (h : ∀ n, .tooDeep n ∉ (parse limit (Scanner.ofString text)).2.diagnostics) (n : Nat)
    (hn : (tokensOf text.toList).length ≤ n) :
    (parse limit (Scanner.ofString text)).2.diagnostics.count (.noOperand .illegal) =
      (Supply.take n (Scanner.ofString text)).countP fun t => t.kind = .illegal := by
  rw [count_noOperand_of_shows (shows_start_scanned limit text)
    (kind_ne_eof_of_mem_tokensOf text.toList) (shallow_iff.2 h)]
  obtain ⟨k, rfl⟩ := Nat.exists_eq_add_of_le hn
  rw [take_scanned, List.take_length_add_append, List.countP_append, List.take_replicate,
    List.countP_replicate, if_neg (by decide), Nat.add_zero]

/-- Between statements, as a name, as an operand and behind a prefix. -/
theorem diagnoses_each_illegal_once_four :
    let text := "@ let # = (1 + $; !& ;"
    let diagnostics := (parse 256 (Scanner.ofString text)).2.diagnostics
    (∀ n, .tooDeep n ∉ diagnostics) ∧ diagnostics.length = 6 ∧
      diagnostics.count (.noOperand .illegal) = 4 ∧
      (Supply.take 13 (Scanner.ofString text)).countP (fun t => t.kind = .illegal) = 4 := by
  intro text diagnostics
  have hall : diagnostics = [.noOperand .illegal, .unexpected .identifier .illegal,
      .noOperand .illegal, .noOperand .assign, .noOperand .illegal, .noOperand .illegal] := by
    decide +kernel
  have hshallow : ∀ n, .tooDeep n ∉ diagnostics := by
    intro n
    rw [hall]
    simp
  have hcount := diagnoses_each_illegal_once 256 text hshallow 13 (by decide +kernel)
  have hfour : diagnostics.count (.noOperand .illegal) = 4 := by
    rw [hall]
    decide
  exact ⟨hshallow, by rw [hall]; rfl, hfour, hcount.symm.trans hfour⟩

end Precedence
