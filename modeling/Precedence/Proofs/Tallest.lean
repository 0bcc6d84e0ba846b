import Precedence.Proofs.Cutting
import Precedence.Proofs.Height
import Precedence.Proofs.Rendering

/-!
# The tallest tree of a text

The greatest height in closed form.  Tokens that reach it can be written as a text, so it is a text
that the limit has to be chosen for.
-/

namespace Precedence

theorem greatestHeight_eq {limit : Nat} (h : 3 ≤ limit) :
    greatestHeight limit = 3 + (limit - 1) * (limit - 2) / 2 := by
  obtain ⟨n, rfl⟩ : ∃ n, limit = n + 3 := ⟨limit - 3, by omega⟩
  have htwo := two_mul_greatestHeight n
  show greatestHeight (n + 3) = 3 + (n + 2) * (n + 1) / 2
  rw [Nat.mul_comm (n + 2)]
  generalize (n + 1) * (n + 2) = product at htwo ⊢
  omega

/-! ## The tower as a text -/

namespace Tower

/-- What the tower is built of. -/
def bricks : List Token := [bang, plus, name, ⟨.openParen, "("⟩, ⟨.closeParen, ")"⟩]

theorem tokensOf_brick : ∀ t ∈ bricks, tokensOf t.text.toList = [t] := by
  decide +kernel

theorem mem_bricks_of_addends (k : Nat) : ∀ t ∈ addends k, t ∈ bricks := by
  induction k with
  | zero => exact List.forall_mem_nil _
  | succ k ih => exact List.forall_mem_append.2 ⟨ih, by decide⟩

theorem mem_bricks_of_lead (n : Nat) : ∀ t ∈ leadTokens n, t ∈ bricks := by
  induction n with
  | zero => decide
  | succ n ih =>
    rw [leadTokens]
    by_cases hn : n < 2
    · rw [if_pos hn, List.forall_mem_cons]
      exact ⟨by decide, ih⟩
    · rw [if_neg hn, List.cons_append, List.forall_mem_cons, List.forall_mem_append,
        List.forall_mem_append]
      exact ⟨by decide, ⟨ih, mem_bricks_of_addends (n - 1)⟩, by decide⟩

def text (n : Nat) : String := .ofList (spaced (tokens n))

theorem tokensOf_text (n : Nat) : tokensOf (text n).toList = tokens n := by
  rw [text, String.toList_ofList]
  apply tokensOf_spaced
  intro t ht
  rcases List.mem_append.1 ht with hlead | haddend
  · exact tokensOf_brick t (mem_bricks_of_lead n t hlead)
  · exact tokensOf_brick t (mem_bricks_of_addends (n - 1) t haddend)

theorem parse_text (n : Nat) :
    (parse (n + 1) (Scanner.ofString (text n))).2.diagnostics = [] ∧
      ∃ t, (parse (n + 1) (Scanner.ofString (text n))).1 = ⟨[.expression t (some (tree n))]⟩ := by
  obtain ⟨t, hsentence⟩ := exists_sentence n
  rw [← tokensOf_text] at hsentence
  obtain ⟨hd, hp⟩ := parse_text_iff_sentence.2 hsentence
  exact ⟨hd, t, hp⟩

end Tower

/-- From three levels on no tree is higher than this, whatever it is read from, and some text that is
read without a diagnostic has one as high. -/
theorem height_le_and_reached {limit : Nat} (h : 3 ≤ limit) :
    (∀ (σ : Type) [FiniteSupply σ] (supply : σ), ∀ st ∈ (parse limit supply).1.statements,
      ∀ e ∈ st.value?, e.height ≤ 3 + (limit - 1) * (limit - 2) / 2) ∧
    ∃ text : String, (parse limit (Scanner.ofString text)).2.diagnostics = [] ∧
      ∃ st ∈ (parse limit (Scanner.ofString text)).1.statements, ∃ e ∈ st.value?,
        e.height = 3 + (limit - 1) * (limit - 2) / 2 := by
  rw [← greatestHeight_eq h]
  refine ⟨fun σ _ supply st hst e he => height_le_of_mem_parse hst he, ?_⟩
  obtain ⟨n, rfl⟩ : ∃ n, limit = n + 1 := ⟨limit - 1, by omega⟩
  obtain ⟨hd, t, hp⟩ := Tower.parse_text n
  refine ⟨Tower.text n, hd, .expression t (some (Tower.tree n)), ?_, Tower.tree n, rfl,
    Tower.height_tree n⟩
  rw [hp]
  exact List.mem_cons_self

/-- On five levels a tree can be nine high, and no higher. -/
theorem height_le_and_reached_five :
    3 ≤ 5 ∧
      (∀ ts : List Token, ∀ st ∈ (parse 5 ts).1.statements, ∀ e ∈ st.value?, e.height ≤ 9) ∧
      ∃ text : String, (parse 5 (Scanner.ofString text)).2.diagnostics = [] ∧
        ∃ st ∈ (parse 5 (Scanner.ofString text)).1.statements, ∃ e ∈ st.value?, e.height = 9 := by
  have hthree : 3 ≤ 5 := by decide
  obtain ⟨hle, hreached⟩ := height_le_and_reached hthree
  exact ⟨hthree, fun ts => hle (List Token) ts, hreached⟩

end Precedence
