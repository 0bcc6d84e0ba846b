import Mathlib.Data.List.Induction
import Mathlib.Data.Nat.Digits.Defs
import Precedence.Proofs.Expression
import Precedence.Proofs.Scanning
import Precedence.Session.Progress

/-!
# Integers

Which tokens are read as integers, and as which.  The numeral may have a sign and any number of
leading zeros; nothing counts but whether its value fits in 64 bits, and no value comes out changed.
-/

namespace Precedence

namespace Text

/-- Each digit counts ten times as much as the one behind it. -/
def positional (digits : List Char) : Nat := Nat.ofDigits 10 (digits.map digitValue).reverse

/-- The text is a sign, or none, with digits behind it, and `v` is the number it stands for. -/
def Denotes (s : String) (v : Int) : Prop :=
  ∃ sign digits, s.toList = sign ++ digits ∧ IsDigits digits ∧
    (sign ∈ [[], ['+']] ∧ v = positional digits ∨ sign = ['-'] ∧ v = -positional digits)

theorem digitsValue_eq_positional (digits : List Char) :
    digitsValue digits = positional digits := by
  induction digits using List.reverseRecOn with
  | nil => rfl
  | append_singleton digits c ih =>
    rw [positional, List.map_append, List.reverse_append]
    show _ = Nat.ofDigits 10 (digitValue c :: (digits.map digitValue).reverse)
    rw [Nat.ofDigits_cons, digitsValue, List.foldl_append]
    show 10 * digitsValue digits + digitValue c = digitValue c + 10 * positional digits
    rw [ih, Nat.add_comm]

theorem signedDigits_iff_denotes {s : String} {v : Int} :
    SignedDigits s.toList v ↔ Denotes s v := by
  constructor
  · intro h
    generalize hs : s.toList = cs at h
    cases h with
    | plain h =>
      rw [digitsValue_eq_positional]
      exact ⟨[], cs, hs, h, .inl ⟨by simp, rfl⟩⟩
    | plus h =>
      rw [digitsValue_eq_positional]
      exact ⟨['+'], _, hs, h, .inl ⟨by simp, rfl⟩⟩
    | minus h =>
      rw [digitsValue_eq_positional]
      exact ⟨['-'], _, hs, h, .inr ⟨rfl, rfl⟩⟩
  · rintro ⟨sign, digits, hs, hdigits, hvalue⟩
    rw [hs]
    rw [← digitsValue_eq_positional] at hvalue
    obtain ⟨hsign, rfl⟩ | ⟨rfl, rfl⟩ := hvalue
    · simp only [List.mem_cons, List.not_mem_nil, or_false] at hsign
      obtain rfl | rfl := hsign
      · exact .plain hdigits
      · exact .plus hdigits
    · exact .minus hdigits

theorem integer64?_eq_some_iff_denotes {s : String} {v : Int} :
    integer64? s = some v ↔ Denotes s v ∧ -2 ^ 63 ≤ v ∧ v ≤ 2 ^ 63 - 1 := by
  rw [integer64?_eq_some_iff, Numeral, signedDigits_iff_denotes]
  constructor
  · intro ⟨hs, hlow, hhigh⟩
    exact ⟨hs, by omega, by omega⟩
  · intro ⟨hs, hlow, hhigh⟩
    exact ⟨hs, by omega, by omega⟩

/-- Without a sign it is only the upper end that matters. -/
theorem integer64?_of_isDigits {s : String} (h : IsDigits s.toList) :
    integer64? s =
      if positional s.toList ≤ 9223372036854775807 then some (positional s.toList : Int)
      else none := by
  have hs : Denotes s (positional s.toList) := ⟨[], s.toList, rfl, h, .inl ⟨by simp, rfl⟩⟩
  split
  next hfits => exact integer64?_eq_some_iff_denotes.2 ⟨hs, by omega, by omega⟩
  next hfits =>
    cases hread : integer64? s with
    | none => rfl
    | some v =>
      obtain ⟨hsigned, hlow, hhigh⟩ := integer64?_eq_some_iff.1 hread
      -- The text has the one value that was said to be too great.
      have hvalue := signed?_eq_some_iff.2 hsigned
      rw [signed?_eq_some_iff.2 (signedDigits_iff_denotes.2 hs)] at hvalue
      cases hvalue
      omega

end Text

namespace Session

open Text

variable {σ : Type}

theorem readInteger_eq_some_iff {s : Session σ} {e : Expr} :
    s.readInteger.1 = some e ↔ ∃ v, integer64? s.current.text = some v ∧ e = .integer s.current v := by
  cases hv : integer64? s.current.text with
  | none =>
    rw [readInteger_of_none hv]
    constructor
    · intro h
      cases h
    · rintro ⟨_, hv', -⟩
      cases hv'
  | some v =>
    rw [readInteger_of_some hv]
    constructor
    · intro h
      cases h
      exact ⟨v, rfl, rfl⟩
    · rintro ⟨_, hv', rfl⟩
      cases hv'
      rfl

section Expr

variable [Supply σ] {s : Session σ} {power : Power} {levels : Nat} (hkind : s.current.kind = .int)
include hkind

/-- The loop starts with the integer. -/
theorem exprWithin_of_integer {v : Int} (h : integer64? s.current.text = some v) :
    exprWithin (levels + 1) power s =
      foldWithin levels power 1 (.integer s.current v) (s.enter.note (.expression .int power)) := by
  have hrule : Rules.standard.operand s.current.kind = some .integer := by
    rw [hkind]
    rfl
  rw [exprWithin_of_operand hrule (readInteger_of_some h), hkind]
  rfl

theorem exprWithin_of_no_integer (h : integer64? s.current.text = none) :
    exprWithin (levels + 1) power s = (none, ((s.enter.note (.expression .int power)).diagnose
      (.badInteger s.current.text)).exit 1) := by
  have hrule : Rules.standard.operand s.current.kind = some .integer := by
    rw [hkind]
    rfl
  have hread : (s.enter.note (.expression .int power)).readInteger = _ := readInteger_of_none h
  rw [exprWithin_succ, hrule, hkind]
  dsimp only [readOperand]
  rw [hread]
  rfl

end Expr

/-- What comes into hand while a text is read is one of its tokens, up to the end of the text. -/
theorem current_mem_tokensOf {text : String} {limit : Nat} {s : Session Scanner}
    (h : Reaches (start limit (.ofString text)) s) (heof : s.current.kind ≠ .eof) :
    s.current ∈ tokensOf text.toList := by
  obtain ⟨n, hn⟩ := h
  have hshows : s.cursor.Shows ((tokensOf text.toList).drop n) := by
    rw [hn]
    exact (shows_start_scanned limit text).steps n
  cases hrest : (tokensOf text.toList).drop n with
  | nil =>
    rw [hrest, Cursor.shows_nil] at hshows
    exact absurd (congrArg Token.kind hshows.current) heof
  | cons t ts =>
    rw [hrest, Cursor.shows_cons] at hshows
    apply List.mem_of_mem_drop
    rw [hrest, ← hshows.1]
    exact List.mem_cons_self

/-- A number is read as what it denotes, sign and leading zeros or not, if that fits in 64 bits, and
is shown as it was written; else it is refused in its own words, and nothing else happens.  The
numbers of a text have no sign, so there an expression can start with each of them but those that
are too great. -/
theorem integers_exact :
    (∀ {σ : Type} (s : Session σ),
      (∀ e, s.readInteger.1 = some e ↔ ∃ v, Denotes s.current.text v ∧ -2 ^ 63 ≤ v ∧
        v ≤ 2 ^ 63 - 1 ∧ e = .integer s.current v) ∧
      (∀ e, s.readInteger.1 = some e → e.render = s.current.text ∧ s.readInteger.2 = s) ∧
      (s.readInteger.1 = none →
        s.readInteger.2 = s.diagnose (.badInteger s.current.text)) ∧
      s.readInteger.2.cursor = s.cursor) ∧
    ∀ (text : String) (limit : Nat) (s : Session Scanner),
      Reaches (start limit (.ofString text)) s → s.current.kind = .int →
      IsDigits s.current.text.toList ∧ ∀ power levels,
        let opened := s.enter.note (.expression .int power)
        exprWithin (levels + 1) power s =
          if positional s.current.text.toList ≤ 9223372036854775807 then
            foldWithin levels power 1 (.integer s.current (positional s.current.text.toList)) opened
          else (none, (opened.diagnose (.badInteger s.current.text)).exit 1) := by
  constructor
  · intro σ s
    refine ⟨fun e => ?_, ?_⟩
    · rw [readInteger_eq_some_iff]
      simp only [integer64?_eq_some_iff_denotes, and_assoc]
    · cases hv : integer64? s.current.text with
      | none =>
        rw [readInteger_of_none hv]
        refine ⟨fun e he => ?_, fun _ => rfl, rfl⟩
        cases he
      | some v =>
        rw [readInteger_of_some hv]
        refine ⟨fun e he => ?_, fun hnone => ?_, rfl⟩
        · cases he
          exact ⟨rfl, rfl⟩
        · cases hnone
  · intro text limit s hreaches hkind
    have hmem := current_mem_tokensOf hreaches (by rw [hkind]; decide)
    have hdigits := (lexed_of_mem_tokensOf hmem).isDigits hkind
    refine ⟨hdigits, fun power levels => ?_⟩
    have hvalue := integer64?_of_isDigits hdigits
    split
    next hfits =>
      rw [if_pos hfits] at hvalue
      exact exprWithin_of_integer hkind hvalue
    next hfits =>
      rw [if_neg hfits] at hvalue
      exact exprWithin_of_no_integer hkind hvalue

/-- The ends of the range, and the number behind the upper one. -/
theorem integers_exact_ends :
    let low : Session (List Token) := start 1 [⟨.int, "-009223372036854775808"⟩]
    let s := start 1 (Scanner.ofString "9223372036854775807 9223372036854775808")
    low.readInteger.1 = some (.integer low.current (-9223372036854775808)) ∧
      (s.expr .lowest).1 = some (.integer s.current 9223372036854775807) ∧
      (s.step.expr .lowest).1 = none ∧
      (s.step.expr .lowest).2.diagnostics = [.badInteger "9223372036854775808"] := by
  intro low s
  have hlow : Denotes low.current.text (-9223372036854775808) :=
    ⟨['-'], "009223372036854775808".toList, by decide +kernel,
      ⟨by decide +kernel, List.all_eq_true.1 (by decide +kernel)⟩, .inr ⟨rfl, by decide +kernel⟩⟩
  have hs : Reaches s s := .refl s
  have hnext : Reaches s s.step := .of_step (.refl s.step)
  have hfirst : s.expr .lowest = _ :=
    (integers_exact.2 _ _ s hs (by decide +kernel)).2 .lowest 0
  have hsecond : s.step.expr .lowest = _ :=
    (integers_exact.2 _ _ s.step hnext (by decide +kernel)).2 .lowest 0
  rw [if_pos (by decide +kernel)] at hfirst
  rw [if_neg (by decide +kernel)] at hsecond
  refine ⟨((integers_exact.1 low).1 _).2 ⟨_, hlow, by decide, by decide, rfl⟩, ?_, ?_, ?_⟩
  · have hvalue : positional s.current.text.toList = 9223372036854775807 := by decide +kernel
    rw [hfirst, foldWithin_stop (by decide +kernel), hvalue]
    rfl
  · rw [hsecond]
  · rw [hsecond]
    decide +kernel

end Session

end Precedence
