import Precedence.Text.Numeral

/-!
# Numerals and their values

Which texts are numerals of 64 bits, said without reading them.
-/

namespace Precedence.Text

/-- Digits in base ten, and not none of them. -/
def IsDigits (cs : List Char) : Prop := cs ≠ [] ∧ ∀ c ∈ cs, c.isDigit = true

/-- Digits with at most one sign in front of them, and the number they stand for. -/
inductive SignedDigits : List Char → Int → Prop
  | plain {cs} (h : IsDigits cs) : SignedDigits cs (digitsValue cs)
  | plus {cs} (h : IsDigits cs) : SignedDigits ('+' :: cs) (digitsValue cs)
  | minus {cs} (h : IsDigits cs) : SignedDigits ('-' :: cs) (-digitsValue cs)

/-- The text is a signed or unsigned decimal numeral, and its value `v` fits in 64 bits. -/
def Numeral (s : String) (v : Int) : Prop :=
  SignedDigits s.toList v ∧ -0x8000000000000000 ≤ v ∧ v < 0x8000000000000000

theorem unsigned?_eq_some_iff {cs : List Char} {n : Nat} :
    unsigned? cs = some n ↔ IsDigits cs ∧ n = digitsValue cs := by
  unfold unsigned?
  by_cases h : cs ≠ [] ∧ cs.all Char.isDigit
  · have hdigits : IsDigits cs := ⟨h.1, List.all_eq_true.1 h.2⟩
    rw [if_pos h, Option.some.injEq]
    exact ⟨fun hn => ⟨hdigits, hn.symm⟩, fun hn => hn.2.symm⟩
  · rw [if_neg h]
    constructor
    · intro hn
      cases hn
    · intro hn
      exact absurd ⟨hn.1.1, List.all_eq_true.2 hn.1.2⟩ h

theorem IsDigits.head_ne {c d : Char} {cs : List Char} (h : IsDigits (c :: cs))
    (hd : d.isDigit = false) : c ≠ d := by
  rintro rfl
  have hc := h.2 c List.mem_cons_self
  rw [hd] at hc
  cases hc

theorem signed?_eq_some_iff {cs : List Char} {v : Int} :
    signed? cs = some v ↔ SignedDigits cs v := by
  constructor
  · intro h
    unfold signed? at h
    split at h
    all_goals
      obtain ⟨n, hn, rfl⟩ := Option.map_eq_some_iff.1 h
      obtain ⟨hdigits, rfl⟩ := unsigned?_eq_some_iff.1 hn
    · exact .minus hdigits
    · exact .plus hdigits
    · exact .plain hdigits
  · intro h
    cases h with
    | plus h => exact Option.map_eq_some_iff.2 ⟨_, unsigned?_eq_some_iff.2 ⟨h, rfl⟩, rfl⟩
    | minus h => exact Option.map_eq_some_iff.2 ⟨_, unsigned?_eq_some_iff.2 ⟨h, rfl⟩, rfl⟩
    | plain h =>
      -- A digit is no sign, so nothing is taken off the text.
      have hplain : signed? cs = (unsigned? cs).map Int.ofNat := by
        unfold signed?
        split
        · exact absurd rfl (h.head_ne (by decide : '-'.isDigit = false))
        · exact absurd rfl (h.head_ne (by decide : '+'.isDigit = false))
        · rfl
      rw [hplain]
      exact Option.map_eq_some_iff.2 ⟨_, unsigned?_eq_some_iff.2 ⟨h, rfl⟩, rfl⟩

theorem integer64?_eq_some_iff {s : String} {v : Int} :
    integer64? s = some v ↔ Numeral s v := by
  unfold integer64? Numeral
  rw [Option.filter_eq_some_iff, signed?_eq_some_iff, decide_eq_true_iff, InRange64]

end Precedence.Text
