import Precedence.Proofs.Rounds

/-!
# The height of trees under the limit

The limit counts the levels in use at one time, and an operand has handed its levels back when an
operator behind it takes the next.  So the operators of one expression lie on top of all that its
first operand has used, and in every pair of parentheses at the front the same can be done again.
What bounds the height of a tree is about half the square of the limit, not the limit itself.
-/

namespace Precedence

/-- The greatest height of what stands in front of the first operator.  On few levels nothing is
higher than a row of unary operators; from there on an expression in parentheses is. -/
def leadingHeight : Nat → Nat
  | 0 => 0
  | n + 1 => leadingHeight n + max 1 (n - 2)

/-- Every level but two leaves room for one more operator behind that. -/
def greatestHeight (limit : Nat) : Nat := leadingHeight limit + (limit - 2)

theorem greatestHeight_le_succ (n : Nat) : greatestHeight n ≤ leadingHeight (n + 1) := by
  show leadingHeight n + (n - 2) ≤ leadingHeight n + max 1 (n - 2)
  omega

theorem leadingHeight_lt_succ (n : Nat) : leadingHeight n < leadingHeight (n + 1) := by
  show leadingHeight n < leadingHeight n + max 1 (n - 2)
  omega

theorem leadingHeight_mono {m n : Nat} (h : m ≤ n) : leadingHeight m ≤ leadingHeight n := by
  induction h with
  | refl => exact Nat.le_refl _
  | step h ih => exact Nat.le_trans ih (Nat.le_of_lt (leadingHeight_lt_succ _))

-- The closed form, doubled to avoid a division.
theorem two_mul_greatestHeight (n : Nat) :
    2 * greatestHeight (n + 3) = (n + 1) * (n + 2) + 6 := by
  induction n with
  | zero => rfl
  | succ n ih =>
    have hstep : greatestHeight (n + 4) = greatestHeight (n + 3) + (n + 2) := by
      show leadingHeight (n + 3) + max 1 (n + 3 - 2) + (n + 4 - 2) =
        leadingHeight (n + 3) + (n + 3 - 2) + (n + 2)
      omega
    rw [hstep, Nat.mul_add, ih]
    simp only [Nat.add_mul, Nat.mul_add]
    omega

theorem greatestHeight_le_iff (limit : Nat) : greatestHeight limit ≤ limit ↔ limit ≤ 2 := by
  constructor
  · intro h
    refine Nat.le_of_not_lt fun hlimit => ?_
    obtain ⟨n, rfl⟩ : ∃ n, limit = n + 3 := ⟨limit - 3, by omega⟩
    have htwo := two_mul_greatestHeight n
    have hmul : (n + 1) * 2 ≤ (n + 1) * (n + 2) := Nat.mul_le_mul_left _ (by omega)
    omega
  · intro hlimit
    match limit, hlimit with
    | 0, _ | 1, _ | 2, _ => decide

/-! ## No tree is higher -/

namespace Reading

variable {p q : Power} {us : List Token} {e : Expr} {k n : Nat}

theorem folds_unary (h : Reading .unary us e k n q) : k = 0 := by
  cases h with
  | @binary _ _ op _ _ _ _ _ _ _ _ _ hl hlt =>
    have hle := Rules.standard_power_le_product op.kind
    exact absurd (Nat.lt_of_lt_of_le hlt hle) (by decide)
  | _ => rfl

/-- The last fold needs a level for itself and one for its right operand. -/
theorem folds_le (h : Reading p us e k n q) : k ≤ n - 2 := by
  induction h with
  | binary hl hlt hle hr ihl ihr =>
    have hpos := hr.levels_pos
    omega
  | _ => exact Nat.zero_le _

-- Every fold adds one, whatever the first operand was; a right operand costs more than it adds.
theorem height_le (h : Reading p us e k n q) : e.height ≤ leadingHeight n + k := by
  induction h with
  | identifier => exact Nat.le_refl 1
  | integer => exact Nat.le_refl 1
  | @unary p t us e k n q ht h ih =>
    have hk := h.folds_unary
    have hlt := leadingHeight_lt_succ n
    show e.height + 1 ≤ leadingHeight (n + 1) + 0
    omega
  | @grouped p o us c e k n q ho hc h ih =>
    have hk := h.folds_le
    -- In parentheses an expression with all its folds becomes a first operand.
    have hle : leadingHeight n + (n - 2) ≤ leadingHeight (n + 1) := greatestHeight_le_succ n
    omega
  | @binary p us op vs l r k n q j m q' hl hlt hle hr ihl ihr =>
    have hj := hr.folds_le
    have hright : leadingHeight m + (m - 2) ≤ leadingHeight (m + 1) := greatestHeight_le_succ m
    have hn : leadingHeight n ≤ leadingHeight (max n (k + 2 + m)) := leadingHeight_mono (by omega)
    have hm : leadingHeight (m + 1) ≤ leadingHeight (max n (k + 2 + m)) :=
      leadingHeight_mono (by omega)
    show max l.height r.height + 1 ≤ _
    omega

theorem height_le_greatestHeight (h : Reading p us e k n q) : e.height ≤ greatestHeight n := by
  have hheight := h.height_le
  have hk := h.folds_le
  show e.height ≤ leadingHeight n + (n - 2)
  omega

end Reading

theorem greatestHeight_mono {m n : Nat} (h : m ≤ n) : greatestHeight m ≤ greatestHeight n := by
  have hle := leadingHeight_mono h
  show leadingHeight m + (m - 2) ≤ leadingHeight n + (n - 2)
  omega

/-! ## A tree as high as that -/

namespace Tower

def bang : Token := ⟨.bang, "!"⟩

def plus : Token := ⟨.plus, "+"⟩

def name : Token := ⟨.identifier, "a"⟩

def leaf : Expr := .identifier (.ofToken name)

def addends : Nat → List Token
  | 0 => []
  | k + 1 => addends k ++ [plus, name]

def sum (e : Expr) : Nat → Expr
  | 0 => e
  | k + 1 => .binary plus "+" (sum e k) leaf

/-- The tokens in front of the first operator, on `n + 1` levels. -/
def leadTokens : Nat → List Token
  | 0 => [name]
  | n + 1 =>
    if n < 2 then bang :: leadTokens n
    else ⟨.openParen, "("⟩ :: (leadTokens n ++ addends (n - 1)) ++ [⟨.closeParen, ")"⟩]

def lead : Nat → Expr
  | 0 => leaf
  | n + 1 => if n < 2 then .unary bang "!" (lead n) else sum (lead n) (n - 1)

theorem height_pos (e : Expr) : 0 < e.height := by
  cases e <;> exact Nat.succ_pos _

theorem height_sum (e : Expr) (k : Nat) : (sum e k).height = e.height + k := by
  induction k with
  | zero => rfl
  | succ k ih =>
    have hpos := height_pos e
    show max (sum e k).height 1 + 1 = _
    omega

theorem height_lead (n : Nat) : (lead n).height = leadingHeight (n + 1) := by
  induction n with
  | zero => rfl
  | succ n ih =>
    show Expr.height (if n < 2 then _ else _) = leadingHeight (n + 1) + max 1 (n + 1 - 2)
    by_cases hn : n < 2
    · rw [if_pos hn]
      show (lead n).height + 1 = _
      omega
    · rw [if_neg hn, height_sum]
      omega

-- Folding names does not raise the levels as long as two are left.
theorem reading_sum {us : List Token} {e : Expr} {n N : Nat}
    (h : Reading .lowest us e 0 n .call) (hn : n ≤ N) {k : Nat} (hk : k ≤ N - 2) :
    ∃ m q, Reading .lowest (us ++ addends k) (sum e k) k m q ∧ m ≤ N ∧ .sum ≤ q := by
  induction k with
  | zero => exact ⟨n, .call, by rw [addends, List.append_nil]; exact h, hn, by decide⟩
  | succ k ih =>
    obtain ⟨m, q, hr, hm, hq⟩ := ih (by omega)
    have hname : Reading .sum [name] leaf 0 1 .call := .identifier rfl
    refine ⟨max m (k + 2 + 1), .sum, ?_, by omega, by decide⟩
    rw [addends, ← List.append_assoc]
    exact .binary hr (by decide) hq hname

theorem reading_lead (n : Nat) (p : Power) :
    ∃ m, Reading p (leadTokens n) (lead n) 0 m .call ∧ m ≤ n + 1 := by
  induction n generalizing p with
  | zero => exact ⟨1, .identifier rfl, Nat.le_refl 1⟩
  | succ n ih =>
    rw [leadTokens, lead]
    by_cases hn : n < 2
    · rw [if_pos hn, if_pos hn]
      obtain ⟨m, hr, hm⟩ := ih .unary
      exact ⟨m + 1, .unary (t := bang) rfl hr, by omega⟩
    · rw [if_neg hn, if_neg hn]
      obtain ⟨m, hr, hm⟩ := ih .lowest
      obtain ⟨m', q, hsum, hm', -⟩ := reading_sum hr hm (k := n - 1) (by omega)
      exact ⟨m' + 1, .grouped rfl rfl hsum, by omega⟩

def tokens (n : Nat) : List Token := leadTokens n ++ addends (n - 1)

def tree (n : Nat) : Expr := sum (lead n) (n - 1)

theorem height_tree (n : Nat) : (tree n).height = greatestHeight (n + 1) := by
  show (sum (lead n) (n - 1)).height = leadingHeight (n + 1) + (n + 1 - 2)
  rw [height_sum, height_lead]
  omega

theorem reading_tree (n : Nat) : ReadingWithin (n + 1) (tokens n) (tree n) := by
  obtain ⟨m, hr, hm⟩ := reading_lead n .lowest
  obtain ⟨m', q, hsum, hm', -⟩ := reading_sum hr hm (k := n - 1) (by omega)
  exact ⟨_, m', q, hsum, hm'⟩

theorem exists_sentence (n : Nat) :
    ∃ t, Sentence (ReadingWithin (n + 1)) (tokens n) [.expression t (some (tree n))] := by
  have hread := reading_tree n
  obtain ⟨k, m, q, hr, -⟩ := id hread
  obtain ⟨t, us, -, hus, -⟩ := hr.head_operand
  refine ⟨t, ?_⟩
  rw [hus] at hread ⊢
  exact .single (.expression hread)

theorem parse_tokens (n : Nat) :
    (parse (n + 1) (tokens n)).2.diagnostics = [] ∧
      ∃ t, (parse (n + 1) (tokens n)).1 = ⟨[.expression t (some (tree n))]⟩ := by
  obtain ⟨t, hsentence⟩ := exists_sentence n
  obtain ⟨hd, hp⟩ := (parse_iff_sentence (Session.shows_start_listed (n + 1) (tokens n))
    hsentence.kind_ne_eof).2 hsentence
  exact ⟨hd, t, hp⟩

end Tower

theorem height_le_of_mem_parse {σ : Type} [FiniteSupply σ] {limit : Nat} {supply : σ} {st : Stmt}
    {e : Expr} (hst : st ∈ (parse limit supply).1.statements) (he : e ∈ st.value?) :
    e.height ≤ greatestHeight limit := by
  obtain ⟨us, k, n, q, h, hn⟩ := exists_reading_of_mem_parse hst he
  exact Nat.le_trans h.height_le_greatestHeight (greatestHeight_mono hn)

theorem exists_height_eq {limit : Nat} (h : 0 < limit) :
    ∃ ts : List Token, (parse limit ts).2.diagnostics = [] ∧
      ∃ st ∈ (parse limit ts).1.statements, ∃ e ∈ st.value?, e.height = greatestHeight limit := by
  obtain ⟨n, rfl⟩ : ∃ n, limit = n + 1 := ⟨limit - 1, by omega⟩
  obtain ⟨hd, t, hp⟩ := Tower.parse_tokens n
  refine ⟨Tower.tokens n, hd, .expression t (some (Tower.tree n)), ?_, Tower.tree n, rfl,
    Tower.height_tree n⟩
  rw [hp]
  exact List.mem_cons_self

/-- What the limit bounds is the greatest height, which some text reaches without a diagnostic.  The
height itself it bounds only where it is too low for any operator. -/
theorem height_le_limit_iff (limit : Nat) :
    (∀ ts : List Token, ∀ st ∈ (parse limit ts).1.statements, ∀ e ∈ st.value?,
      e.height ≤ greatestHeight limit) ∧
    ((∃ ts : List Token, (parse limit ts).2.diagnostics = [] ∧
      ∃ st ∈ (parse limit ts).1.statements, ∃ e ∈ st.value?,
        e.height = greatestHeight limit) ↔ 0 < limit) ∧
    ((∀ ts : List Token, ∀ st ∈ (parse limit ts).1.statements, ∀ e ∈ st.value?,
      e.height ≤ limit) ↔ limit ≤ 2) := by
  refine ⟨fun ts st hst e he => height_le_of_mem_parse hst he, ⟨?_, exists_height_eq⟩, ?_, ?_⟩
  · rintro ⟨ts, -, st, hst, e, he, -⟩
    obtain ⟨us, k, n, q, h, hn⟩ := exists_reading_of_mem_parse hst he
    have hpos := h.levels_pos
    omega
  · intro h
    by_cases hlimit : 0 < limit
    · obtain ⟨ts, -, st, hst, e, he, hheight⟩ := exists_height_eq hlimit
      have hle := h ts st hst e he
      rw [hheight] at hle
      exact (greatestHeight_le_iff limit).1 hle
    · omega
  · intro hlimit ts st hst e he
    have hle := (greatestHeight_le_iff limit).2 hlimit
    exact Nat.le_trans (height_le_of_mem_parse hst he) hle

/-- `!!a + a` has height four and is read on three levels. -/
theorem parse_higher_than_limit :
    let bang : Token := ⟨.bang, "!"⟩
    let a : Token := ⟨.identifier, "a"⟩
    let ts : List Token := [bang, bang, a, ⟨.plus, "+"⟩, a]
    (parse 3 ts).2.diagnostics = [] ∧
      ∃ st ∈ (parse 3 ts).1.statements, ∃ e ∈ st.value?, e.height = 4 := by
  intro bang a ts
  obtain ⟨hd, t, hp⟩ := Tower.parse_tokens 2
  refine ⟨hd, .expression t (some (Tower.tree 2)), ?_, Tower.tree 2, rfl, Tower.height_tree 2⟩
  show _ ∈ (parse 3 (Tower.tokens 2)).1.statements
  rw [hp]
  exact List.mem_cons_self

end Precedence
