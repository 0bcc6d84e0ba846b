import Precedence.Proofs.Threshold
import Precedence.Proofs.Tokenizing

/-!
# The log

The log of a run is the run over again: it has each token when it is drawn and when it comes into
hand, each expression where it starts, and each diagnostic when it is made, once and in their order.
-/

namespace Precedence

/-! ## Events by their messages -/

def Event.bears (messages : List String) (e : Event) : Bool := e.message ∈ messages

/-- The messages of what is logged when a token is drawn. -/
def drawn : List String := ["lexed token", "illegal character"]

/-- What is logged when a token is drawn that is no end marker. -/
def Token.told (t : Token) : Event := if t.kind = .illegal then .illegal t.text else .lexed t

theorem Scanner.announce_of_ne {t : Token} (h : t.kind ≠ .eof) :
    Scanner.announce t = some t.told := by
  rw [Scanner.announce, Token.told]
  cases hk : t.kind <;> first | rfl | exact absurd hk h

theorem Scanner.announce_of_eof {t : Token} (h : t.kind = .eof) : Scanner.announce t = none := by
  rw [Scanner.announce, h]

theorem Scanner.bears_of_announce {t : Token} {e : Event} (h : Scanner.announce t = some e) :
    e.bears drawn = true := by
  by_cases heof : t.kind = .eof
  · rw [announce_of_eof heof] at h
    cases h
  · rw [announce_of_ne heof, Token.told] at h
    split at h <;> cases h <;> rfl

/-- The events, newest first, have all the steps that have led from the start to the cursor `c`, and
the diagnostics `ds`. -/
inductive Recounts (supply : Scanner) :
    Cursor Scanner → List Diagnostic → List Event → Prop
  | start : Recounts supply (.start supply) [] []
  | step {c ds es} (h : Recounts supply c ds es) :
      Recounts supply c.step ds
        (.step c.upcoming :: ((Scanner.announce c.step.upcoming).toList ++ es))
  | expression {c ds es} (power : Power) (hc : 0 < c.pulls) (h : Recounts supply c ds es) :
      Recounts supply c ds (.expression c.current.kind power :: es)
  | diagnostic {c ds es} (d : Diagnostic) (h : Recounts supply c ds es) :
      Recounts supply c (d :: ds) (.diagnostic d :: es)

namespace Recounts

variable {supply : Scanner} {c : Cursor Scanner} {ds : List Diagnostic} {es older : List Event}

theorem cursor_eq (h : Recounts supply c ds es) : c = (Cursor.start supply).steps c.pulls := by
  induction h with
  | start => rfl
  | @step c ds es _ ih =>
    show c.step = (Cursor.start supply).steps (c.pulls + 1)
    rw [Cursor.steps_succ, ← ih]
  | expression _ _ _ ih => exact ih
  | diagnostic _ _ ih => exact ih

/-- The newest event of `older` is that of a token just drawn, and in `es` a step comes at once. -/
def Drawing (supply : Scanner) (older es : List Event) : Prop :=
  ∃ c ds e rest, Recounts supply c ds rest ∧ Scanner.announce c.step.upcoming = some e ∧
    older = e :: rest ∧ .step c.upcoming :: older <:+ es

theorem Drawing.mono {es' : List Event} (h : Drawing supply older es) (hes : es <:+ es') :
    Drawing supply older es' := by
  obtain ⟨c, ds, e, rest, hrest, hann, holder, hstep⟩ := h
  exact ⟨c, ds, e, rest, hrest, hann, holder, hstep.trans hes⟩

/-- What is older in a log is a log itself, unless a token has just been drawn. -/
theorem of_suffix (h : Recounts supply c ds es) (hsuffix : older <:+ es) :
    (∃ c' ds', Recounts supply c' ds' older) ∨ Drawing supply older es := by
  -- Only a step adds two events, and only between these two no log ends.
  induction h with
  | start =>
    rw [List.suffix_nil.1 hsuffix]
    exact .inl ⟨_, _, .start⟩
  | @step c ds es h ih =>
    rcases List.suffix_cons_iff.1 hsuffix with rfl | hsuffix
    · exact .inl ⟨_, _, h.step⟩
    · cases hann : Scanner.announce c.step.upcoming with
      | none =>
        rw [hann] at hsuffix
        exact (ih hsuffix).imp_right fun hdrawing => hdrawing.mono (List.suffix_cons _ _)
      | some e =>
        rw [hann] at hsuffix
        rcases List.suffix_cons_iff.1 hsuffix with rfl | hsuffix
        · exact .inr ⟨c, ds, e, es, h, hann, rfl, List.suffix_refl _⟩
        · exact (ih hsuffix).imp_right fun hdrawing =>
            hdrawing.mono ((List.suffix_cons _ _).trans (List.suffix_cons _ _))
  | expression power hc h ih =>
    rcases List.suffix_cons_iff.1 hsuffix with rfl | hsuffix
    · exact .inl ⟨_, _, h.expression power hc⟩
    · exact (ih hsuffix).imp_right fun hdrawing => hdrawing.mono (List.suffix_cons _ _)
  | diagnostic d h ih =>
    rcases List.suffix_cons_iff.1 hsuffix with rfl | hsuffix
    · exact .inl ⟨_, _, h.diagnostic d⟩
    · exact (ih hsuffix).imp_right fun hdrawing => hdrawing.mono (List.suffix_cons _ _)

/-- What is older than an expression is a log up to the token that the expression starts on. -/
theorem of_expression (h : Recounts supply c ds es) {kind : Kind} {power : Power}
    (hsuffix : .expression kind power :: older <:+ es) :
    ∃ c' ds', Recounts supply c' ds' older ∧ 0 < c'.pulls ∧ c'.current.kind = kind := by
  obtain ⟨c', ds', hlog⟩ | ⟨c', ds', e, rest, -, hann, hcons, -⟩ := h.of_suffix hsuffix
  · cases hlog with
    | expression _ hc hlog => exact ⟨c', ds', hlog, hc, rfl⟩
  · rw [← (List.cons.inj hcons).1] at hann
    cases Scanner.bears_of_announce hann

end Recounts

/-! ## Sessions -/

namespace Session

variable {supply : Scanner} {s t : Session Scanner}

variable {last e : Event} {es front back : List Event}

section Placed

variable {text : String} {c : Cursor Scanner} {ds : List Diagnostic}
  (hlog : Recounts (Scanner.ofString text) c ds es) (hevents : s.events = last :: es)
include hlog hevents

end Placed

end Session

open Session

/-! ## Programs -/

end Precedence
