import Mathlib.Logic.Relation
import Precedence.Proofs.Outcome
import Precedence.Session.Progress

/-!
# Moves

All that a session does is done by moves of six sorts.  A level is entered only where the limit
leaves one, refused only where it does not, and handed back only after it was entered.  So what
every move preserves holds from one end of a reading to the other, and in between.
-/

namespace Precedence.Session

variable {σ : Type}

inductive Move [Supply σ] : Session σ → Session σ → Prop
  | step (s) : Move s s.step
  | note (s) (power : Power) : Move s (s.note (.expression s.current.kind power))
  | diagnose (s) {d : Diagnostic} (hd : ∀ limit, d ≠ .tooDeep limit) : Move s (s.diagnose d)
  | refuse (s) (h : (s.limit : Int) ≤ s.nesting.depth) : Move s (s.diagnose (.tooDeep s.limit))
  | enter (s) (h : s.nesting.depth < s.limit) : Move s s.enter
  | exit (s) (n : Nat) (h : (n : Int) ≤ s.nesting.depth) : Move s (s.exit n)

/-- Moves lead from one session to the other. -/
abbrev Trail [Supply σ] : Session σ → Session σ → Prop := Relation.ReflTransGen Move

/-- Of the limit, `n` levels are left. -/
def Room (n : Nat) (s : Session σ) : Prop :=
  0 ≤ s.nesting.depth ∧ s.nesting.depth + n = s.limit

variable {s t u : Session σ} {n : Nat}

theorem Room.of_ledger_snd (h : Room n s) (hbooks : t.ledger.2 = s.ledger.2) : Room n t := by
  obtain ⟨hlimit, hdepth⟩ := Prod.mk.inj hbooks
  rw [Room, hlimit, hdepth]
  exact h

theorem Room.enter (h : Room (n + 1) s) : s.nesting.depth < s.limit ∧ Room n s.enter := by
  obtain ⟨hlow, hdepth⟩ := h
  have henter : s.enter.nesting.depth = s.nesting.depth + 1 := rfl
  have hlimit : s.enter.limit = s.limit := rfl
  rw [Room, henter, hlimit]
  omega

/-- Neither the depth nor anything it has been is below zero or above the limit. -/
structure InBounds (s : Session σ) : Prop where
  lowest_nonneg : 0 ≤ s.nesting.lowest
  lowest_le : s.nesting.lowest ≤ s.nesting.depth
  le_highest : s.nesting.depth ≤ s.nesting.highest
  highest_le : s.nesting.highest ≤ s.limit

theorem InBounds.room (h : InBounds s) : Room s.levels s := by
  obtain ⟨hnonneg, hle, hge, hhigh⟩ := h
  rw [Room, levels]
  omega

/-! ## Expressions -/

variable [Supply σ]

theorem trail_expect (kind : Kind) (s : Session σ) : Trail s (s.expect kind).2 := by
  unfold expect
  split
  · exact .single (.step s)
  · exact .single (.diagnose s fun _ => Diagnostic.noConfusion)

theorem trail_skipSemicolon (s : Session σ) : Trail s s.skipSemicolon := by
  unfold skipSemicolon
  split
  · exact .single (.step s)
  · exact .refl

def InnerTrails (n : Nat) (inner : Inner σ) : Prop :=
  ∀ power s, Room n s → Trail s (inner power s).2

variable {inner : Inner σ}

theorem trail_readOperand (hinner : InnerTrails n inner) (rule : OperandRule) (h : Room n s) :
    Trail s (readOperand inner rule s).2 := by
  have hstep (power : Power) : Trail s (inner power s.step).2 := .head (.step s) (hinner power _ h)
  cases rule with
  | identifier => exact .refl
  | integer =>
    simp only [readOperand, readInteger]
    split
    · exact .refl
    · exact .single (.diagnose s fun _ => Diagnostic.noConfusion)
  | unary =>
    have hunary := hstep .unary
    simp only [readOperand, readUnary]
    split <;> simp_all
  | grouped =>
    have hinside := hstep .lowest
    simp only [readOperand, readGrouped]
    split
    next e t he =>
      rw [he] at hinside
      have hclose := hinside.trans (trail_expect .closeParen t)
      split <;> simp_all
    next t he => rwa [he] at hinside

theorem trail_readOperator (hinner : InnerTrails n inner) (rule : OperatorRule) (left : Expr)
    (h : Room n s) : Trail s (readOperator inner rule left s).2 := by
  cases rule
  have hstep : Trail s (inner (Rules.standard.power s.current.kind) s.step).2 :=
    .head (.step s) (hinner _ _ h)
  simp only [readOperator, readBinary]
  split <;> simp_all

-- Both functions at once, by induction on the levels, of which the session has just as many left.
theorem trail_within (n : Nat) :
    InnerTrails n (exprWithin (σ := σ) n) ∧
      ∀ power (taken : Nat) left (s : Session σ), Room n s → (taken : Int) ≤ s.nesting.depth →
        Trail s (foldWithin n power taken left s).2 := by
  induction n with
  | zero =>
    constructor
    · intro power s ⟨_, hdepth⟩
      exact .single (.refuse s (by omega))
    · intro power taken left s ⟨_, hdepth⟩ htaken
      unfold foldWithin
      split
      · split
        · exact .single (.exit s taken htaken)
        · exact .head (.refuse s (by omega)) (.single (.exit _ taken htaken))
      · exact .single (.exit s taken htaken)
  | succ n ih =>
    obtain ⟨hexpr, hfold⟩ := ih
    constructor
    · intro power s h
      obtain ⟨hlt, hroom⟩ := h.enter
      let opened := s.enter.note (.expression s.current.kind power)
      have hopen : Trail s opened :=
        .head (.enter s hlt) (.single (.note s.enter power))
      have hone : ((1 : Nat) : Int) ≤ opened.nesting.depth := Int.add_le_add_right h.1 1
      unfold exprWithin
      dsimp only
      split
      · exact hopen.trans (.head (.diagnose opened fun _ => Diagnostic.noConfusion)
          (.single (.exit _ 1 hone)))
      next rule _ =>
        have htrail := hopen.trans (trail_readOperand (s := opened) hexpr rule hroom)
        have hbooks := (settles_readOperand (settles_within n).1 rule opened).ledger_snd
        -- The level is still held, whatever came of the operand.
        have hback := (Prod.mk.inj hbooks).2
        split
        next left t he =>
          rw [he] at htrail hbooks hback
          exact htrail.trans (hfold power 1 left t (hroom.of_ledger_snd hbooks)
            (by rw [hback]; exact hone))
        next t he =>
          rw [he] at htrail hback
          exact htrail.tail (.exit t 1 (by rw [hback]; exact hone))
    · intro power taken left s h htaken
      unfold foldWithin
      split
      · split
        · exact .single (.exit s taken htaken)
        next rule _ =>
          obtain ⟨hlt, hroom⟩ := h.enter
          let opened := s.enter.step
          have hopen : Trail s opened := .head (.enter s hlt) (.single (.step s.enter))
          have hmore : ((taken + 1 : Nat) : Int) ≤ opened.nesting.depth :=
            Int.add_le_add_right htaken 1
          have htrail := hopen.trans (trail_readOperator (s := opened) hexpr rule left hroom)
          have hbooks := (settles_readOperator (settles_within n).1 rule left opened).ledger_snd
          have hback := (Prod.mk.inj hbooks).2
          dsimp only
          split
          next left' t he =>
            rw [he] at htrail hbooks hback
            exact htrail.trans (hfold power (taken + 1) left' t (hroom.of_ledger_snd hbooks)
              (by rw [hback]; exact hmore))
          next t he =>
            rw [he] at htrail hback
            exact htrail.tail (.exit t (taken + 1) (by rw [hback]; exact hmore))
      · exact .single (.exit s taken htaken)

/-! ## What moves preserve -/

/-- What holds after every move holds all along a trail. -/
theorem Trail.preserves {P : Session σ → Prop} (hP : ∀ {s t}, Move s t → P s → P t)
    (h : Trail s t) (hs : P s) : P t := by
  induction h with
  | refl => exact hs
  | tail _ hmove ih => exact hP hmove ih

theorem Move.inBounds (h : Move s t) (hs : InBounds s) : InBounds t := by
  obtain ⟨hnonneg, hle, hge, hhigh⟩ := hs
  cases h with
  | step | note | diagnose | refuse => exact ⟨hnonneg, hle, hge, hhigh⟩
  | enter h =>
    have hdepth : s.enter.nesting = ⟨s.nesting.depth + 1, s.nesting.lowest,
      max s.nesting.highest (s.nesting.depth + 1)⟩ := rfl
    have hlimit : s.enter.limit = s.limit := rfl
    constructor <;> simp only [hdepth, hlimit] <;> omega
  | exit n h =>
    have hdepth : (s.exit n).nesting = ⟨s.nesting.depth - n,
      min s.nesting.lowest (s.nesting.depth - n), s.nesting.highest⟩ := rfl
    have hlimit : (s.exit n).limit = s.limit := rfl
    constructor <;> simp only [hdepth, hlimit] <;> omega

theorem Trail.inBounds (h : Trail s t) (hs : InBounds s) : InBounds t :=
  h.preserves Move.inBounds hs

theorem inBounds_start (limit : Nat) (supply : σ) : InBounds (start limit supply) where
  lowest_nonneg := Int.le_refl 0
  lowest_le := Int.le_refl 0
  le_highest := Int.le_refl 0
  highest_le := Int.natCast_nonneg limit

theorem Move.limit_eq (h : Move s t) : t.limit = s.limit := by
  cases h <;> rfl

theorem Trail.limit_eq (h : Trail s t) : t.limit = s.limit :=
  h.preserves (P := fun u => u.limit = s.limit) (fun hmove hs => hmove.limit_eq.trans hs) rfl

theorem Move.reaches (h : Move s t) : Reaches s t := by
  cases h with
  | step => exact .of_step (.refl _)
  | note | diagnose | refuse | enter | exit => exact .of_cursor_eq rfl

theorem Trail.reaches (h : Trail s t) : Reaches s t :=
  h.preserves (P := Reaches s) (fun hmove hs => hs.trans hmove.reaches) (.refl s)

theorem Move.diagnosed_suffix (h : Move s t) : s.diagnosed <:+ t.diagnosed := by
  cases h with
  | diagnose | refuse => exact List.suffix_cons _ _
  | step | note | enter | exit => exact List.suffix_refl _

theorem Trail.diagnosed_suffix (h : Trail s t) : s.diagnosed <:+ t.diagnosed :=
  h.preserves (P := fun u => s.diagnosed <:+ u.diagnosed)
    (fun hmove hs => hs.trans hmove.diagnosed_suffix) (List.suffix_refl _)

/-! ## Statements and rounds -/

theorem trail_expr (power : Power) (h : InBounds s) : Trail s (s.expr power).2 :=
  (trail_within s.levels).1 power s h.room

theorem trail_operand (rule : OperandRule) (h : InBounds s) : Trail s (s.operand rule).2 :=
  trail_readOperand (trail_within s.levels).1 rule h.room

theorem trail_operator (rule : OperatorRule) (left : Expr) (h : InBounds s) :
    Trail s (s.operator rule left).2 :=
  trail_readOperator (trail_within s.levels).1 rule left h.room

/-- An expression after some moves, and the semicolon behind it. -/
theorem Trail.value (h : Trail s t) (hs : InBounds s) :
    Trail s (t.expr .lowest).2.skipSemicolon :=
  (h.trans (trail_expr .lowest (h.inBounds hs))).trans (trail_skipSemicolon _)

theorem trail_letBinding (h : InBounds s) : Trail s s.letBinding.2 := by
  have hname := trail_expect .identifier s
  unfold letBinding
  split
  next named he => rwa [he] at hname
  next named he =>
    rw [he] at hname
    have hassign := hname.trans (trail_expect .assign named)
    split
    next bound he2 => rwa [he2] at hassign
    next bound he2 =>
      rw [he2] at hassign
      exact Trail.value (hassign.tail (.step bound)) h

theorem trail_expressionAlone (h : InBounds s) : Trail s s.expressionAlone.2 :=
  Trail.value .refl h

theorem trail_statement (rule : StatementRule) (h : InBounds s) :
    Trail s (s.statement rule).2 := by
  cases rule with
  | letBinding => exact trail_letBinding h
  | returnValue => exact Trail.value (.single (.step s)) h

theorem trail_stmt (h : InBounds s) : Trail s s.stmt.2 := by
  unfold stmt
  split
  · exact trail_statement _ h
  · exact trail_expressionAlone h

end Precedence.Session
