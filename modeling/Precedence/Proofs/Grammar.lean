import Precedence.Proofs.Numeral
import Precedence.Proofs.Rounds

/-!
# The grammar

The language in five layers, loosest first: equality, relation, sum, product and unary.  Every
binary layer is left-recursive, so operators of one layer group to the left, and a tighter layer
stands inside a looser one.  The main result is that reading a list of tokens, with levels enough,
succeeds exactly on the sentences of this grammar and gives the tree of the derivation.
-/

namespace Precedence

inductive Layer where
  | equality
  | relation
  | sum
  | product
  | unary
  deriving DecidableEq, Repr

namespace Layer

def operators : Layer → List Kind
  | .equality => [.equals, .notEquals]
  | .relation => [.less, .greater]
  | .sum => [.plus, .minus]
  | .product => [.asterisk, .slash]
  | .unary => []

/-- The layer that the operands of a binary layer come from. -/
def tighter : Layer → Layer
  | .equality => .relation
  | .relation => .sum
  | .sum => .product
  | .product => .unary
  | .unary => .unary

end Layer

inductive Derives : Layer → List Token → Expr → Prop
  | identifier {t} (ht : t.kind = .identifier) : Derives .unary [t] (.identifier (.ofToken t))
  | integer {t v} (ht : t.kind = .int) (hv : Text.Numeral t.text v) :
      Derives .unary [t] (.integer t v)
  | unary {t us e} (ht : t.kind = .bang ∨ t.kind = .minus) (h : Derives .unary us e) :
      Derives .unary (t :: us) (.unary t t.text e)
  | grouped {o us c e} (ho : o.kind = .openParen) (hc : c.kind = .closeParen)
      (h : Derives .equality us e) : Derives .unary (o :: us ++ [c]) e
  | binary {a us op vs l r} (hl : Derives a us l) (hop : op.kind ∈ a.operators)
      (hr : Derives a.tighter vs r) : Derives a (us ++ op :: vs) (.binary op op.text l r)
  | pass {a us e} (ha : a ≠ .unary) (h : Derives a.tighter us e) : Derives a us e

/-! ## Layers and powers -/

namespace Layer

/-- The power of the operators of a layer. -/
def power : Layer → Power
  | .equality => .equals
  | .relation => .lessGreater
  | .sum => .sum
  | .product => .product
  | .unary => .unary

/-- The loosest layer whose operators all bind at least as tight as `p`. -/
def ofPower : Power → Layer
  | .lowest => .equality
  | .equals => .equality
  | .lessGreater => .relation
  | .sum => .sum
  | .product => .product
  | .unary => .unary
  | .call => .unary

theorem power_of_mem {a : Layer} {k : Kind} (h : k ∈ a.operators) :
    Rules.standard.power k = a.power := by
  revert h
  cases a <;> cases k <;> decide

theorem mem_ofPower {k : Kind} (h : .lowest < Rules.standard.power k) :
    k ∈ (ofPower (Rules.standard.power k)).operators := by
  revert h
  cases k <;> decide

theorem power_tighter {a : Layer} (h : a ≠ .unary) : a.power < a.tighter.power := by
  revert h
  cases a <;> decide

theorem power_ofPower_mono {p q : Power} (h : p ≤ q) : (ofPower p).power ≤ (ofPower q).power := by
  revert h
  cases p <;> cases q <;> decide

/-- Above a power lies the layer next to its own. -/
theorem power_tighter_ofPower_le {p q : Power} (hp : .lowest < p) (hp' : p ≤ .product)
    (hpq : p < q) :
    (ofPower p).tighter.power ≤ (ofPower q).power := by
  revert hp hp' hpq
  cases p <;> cases q <;> decide

end Layer

-- A tighter layer stands inside a looser one, however many layers lie between.
theorem Derives.lift {a b : Layer} {us : List Token} {e : Expr} (h : Derives b us e)
    (hab : a.power ≤ b.power) : Derives a us e := by
  by_cases heq : a = b
  · rw [heq]
    exact h
  · have ha : a ≠ .unary := by
      rintro rfl
      revert hab heq
      cases b <;> decide
    have hle : a.tighter.power ≤ b.power := by
      revert hab heq
      cases a <;> cases b <;> decide
    exact .pass ha (Derives.lift h hle)
termination_by 5 - a.power.rank
decreasing_by
  have hlt : a.power.rank < a.tighter.power.rank := Layer.power_tighter ha
  have hle : a.tighter.power.rank ≤ 5 := by cases a <;> decide
  omega

/-! ## Readings and derivations -/

-- The power of the operator folded last says in which layer the expression lies.
theorem derives_of_reading {p q : Power} {us : List Token} {e : Expr} {k n : Nat}
    (h : Reading p us e k n q) : Derives (.ofPower q) us e := by
  induction h with
  | identifier ht => exact .identifier (Rules.kind_of_standard_operand ht)
  | integer ht hv =>
    exact .integer (Rules.kind_of_standard_operand ht) (Text.integer64?_eq_some_iff.1 hv)
  | unary ht h ih =>
    have hle : Layer.unary.power ≤ (Layer.ofPower _).power := Layer.power_ofPower_mono h.power_le
    exact .unary (Rules.kind_of_standard_operand ht) (ih.lift hle)
  | grouped ho hc h ih =>
    have hle : Layer.equality.power ≤ (Layer.ofPower _).power :=
      Layer.power_ofPower_mono h.power_le
    exact .grouped (Rules.kind_of_standard_operand ho) hc (ih.lift hle)
  | @binary p us op vs l r k n q j m q' hl hlt hle hr ihl ihr =>
    have hpos : .lowest < Rules.standard.power op.kind := Nat.lt_of_le_of_lt (Nat.zero_le _) hlt
    have hproduct := Rules.standard_power_le_product op.kind
    -- Left of an operator its own layer may stand, right of it only the next.
    exact .binary (ihl.lift (Layer.power_ofPower_mono hle)) (Layer.mem_ofPower hpos)
      (ihr.lift (Layer.power_tighter_ofPower_le hpos hproduct (hr.power_lt hproduct)))

/-- A derivation is found at every power below its layer. -/
theorem reading_of_derives {a : Layer} {us : List Token} {e : Expr} (h : Derives a us e) {p : Power}
    (hp : a = .unary ∨ p < a.power) : ∃ k n q, Reading p us e k n q ∧ a.power ≤ q := by
  induction h generalizing p with
  | @identifier t ht =>
    have hrule : Rules.standard.operand t.kind = some .identifier := by rw [ht]; rfl
    exact ⟨0, 1, .call, .identifier hrule, by decide⟩
  | @integer t v ht hv =>
    have hrule : Rules.standard.operand t.kind = some .integer := by rw [ht]; rfl
    exact ⟨0, 1, .call, .integer hrule (Text.integer64?_eq_some_iff.2 hv), by decide⟩
  | @unary t us e ht h ih =>
    have hrule : Rules.standard.operand t.kind = some .unary := by
      rcases ht with ht | ht <;> rw [ht] <;> rfl
    obtain ⟨k, n, q, hr, -⟩ := ih (p := .unary) (.inl rfl)
    exact ⟨0, n + 1, .call, .unary hrule hr, by decide⟩
  | @grouped o us c e ho hc h ih =>
    have hrule : Rules.standard.operand o.kind = some .grouped := by rw [ho]; rfl
    obtain ⟨k, n, q, hr, -⟩ := ih (p := .lowest) (.inr (by decide))
    exact ⟨0, n + 1, .call, .grouped hrule hc hr, by decide⟩
  | @binary a us op vs l r hl hop hr ihl ihr =>
    have hpower := Layer.power_of_mem hop
    have ha : a ≠ .unary := by
      rintro rfl
      cases hop
    have hlt : p < a.power := hp.resolve_left ha
    obtain ⟨k, n, q, hleft, hq⟩ := ihl hp
    obtain ⟨j, m, q', hright, -⟩ := ihr (p := a.power) (.inr (Layer.power_tighter ha))
    rw [← hpower] at hlt hq hright
    exact ⟨_, _, _, .binary hleft hlt hq hright, Nat.le_of_eq (congrArg Power.rank hpower.symm)⟩
  | @pass a us e ha h ih =>
    have hnext := Layer.power_tighter ha
    obtain ⟨k, n, q, hr, hq⟩ := ih (.inr (Nat.lt_trans (hp.resolve_left ha) hnext))
    exact ⟨k, n, q, hr, Nat.le_trans (Nat.le_of_lt hnext) hq⟩

/-- Where there are as many levels as tokens, the limit does not show. -/
theorem readingWithin_iff_derives {N : Nat} {us : List Token} {e : Expr} (hN : us.length ≤ N) :
    ReadingWithin N us e ↔ Derives .equality us e := by
  constructor
  · rintro ⟨k, n, q, h, -⟩
    have hle : Layer.equality.power ≤ (Layer.ofPower q).power := Layer.power_ofPower_mono h.power_le
    exact (derives_of_reading h).lift hle
  · intro h
    obtain ⟨k, n, q, hr, -⟩ := reading_of_derives h (p := .lowest) (.inr (by decide))
    exact ⟨k, n, q, hr, Nat.le_trans hr.levels_le_length hN⟩

/-- Reading a list of tokens accepts the sentences of the grammar and nothing else, and gives the
statements of the one derivation that there is. -/
theorem parse_accepts_grammar (ts : List Token) (limit : Nat) (heof : ∀ t ∈ ts, t.kind ≠ .eof)
    (hlimit : ts.length < limit) :
    ((parse limit ts).2.diagnostics = [] ↔ ∃ ss, Sentence (Derives .equality) ts ss) ∧
      ∀ ss, Sentence (Derives .equality) ts ss →
        (parse limit ts).1 = ⟨ss⟩ ∧ ∀ ss', Sentence (Derives .equality) ts ss' → ss' = ss := by
  have hshows := Session.shows_start_listed limit ts
  have hreads : ∀ ss, (parse limit ts).2.diagnostics = [] ∧ (parse limit ts).1 = ⟨ss⟩ ↔
      Sentence (Derives .equality) ts ss := by
    intro ss
    rw [parse_iff_sentence hshows heof]
    constructor <;> intro h
    · exact h.mono fun us e hus => (readingWithin_iff_derives (by omega)).1
    · exact h.mono fun us e hus => (readingWithin_iff_derives (by omega)).2
  constructor
  · constructor
    · intro hd
      exact ⟨(parse limit ts).1.statements, (hreads _).1 ⟨hd, rfl⟩⟩
    · rintro ⟨ss, hss⟩
      exact ((hreads ss).2 hss).1
  · intro ss hss
    have hp := ((hreads ss).2 hss).2
    refine ⟨hp, fun ss' hss' => ?_⟩
    have hp' := ((hreads ss').2 hss').2
    rw [hp] at hp'
    exact (Program.mk.inj hp').symm

/-- `a - b == 2 return !c;` -/
theorem parse_comparison_and_return :
    let a : Token := ⟨.identifier, "a"⟩
    let b : Token := ⟨.identifier, "b"⟩
    let c : Token := ⟨.identifier, "c"⟩
    let two : Token := ⟨.int, "2"⟩
    let minus : Token := ⟨.minus, "-"⟩
    let equals : Token := ⟨.equals, "=="⟩
    let bang : Token := ⟨.bang, "!"⟩
    let back : Token := ⟨.return, "return"⟩
    let ts : List Token := [a, minus, b, equals, two, back, bang, c, ⟨.semicolon, ";"⟩]
    (∀ t ∈ ts, t.kind ≠ .eof) ∧ ts.length < 10 ∧ (parse 10 ts).2.diagnostics = [] ∧
      (parse 10 ts).1 = ⟨[.expression a (some (.binary equals "=="
          (.binary minus "-" (.identifier (.ofToken a)) (.identifier (.ofToken b)))
          (.integer two 2))),
        .returnValue back (some (.unary bang "!" (.identifier (.ofToken c))))]⟩ := by
  intro a b c two minus equals bang back ts
  have heof : ∀ t ∈ ts, t.kind ≠ .eof := by decide
  have hlimit : ts.length < 10 := by decide
  have hname (t : Token) (ht : t.kind = .identifier) :
      Derives .product [t] (.identifier (.ofToken t)) := .pass (by decide) (.identifier ht)
  have hdifference : Derives .sum ([a] ++ minus :: [b]) _ :=
    .binary (.pass (by decide) (hname a rfl)) (by decide) (hname b rfl)
  have htwo : Derives .unary [two] (.integer two 2) :=
    .integer rfl (Text.integer64?_eq_some_iff.1 (by decide))
  have hequal : Derives .equality (([a] ++ minus :: [b]) ++ equals :: [two]) _ :=
    .binary (.pass (by decide) (.pass (by decide) hdifference)) (by decide)
      (htwo.lift (by decide))
  have hnot : Derives .equality [bang, c] _ :=
    (Derives.unary (.inl rfl) (.identifier rfl)).lift (by decide)
  have hback : Sentence (Derives .equality) ([back, bang, c] ++ ⟨.semicolon, ";"⟩ :: []) _ :=
    .closed (.returnValue rfl hnot) rfl .nil
  have hss : Sentence (Derives .equality) ts _ := .opened (.expression hequal) (by decide) hback
  have h := parse_accepts_grammar ts 10 heof hlimit
  exact ⟨heof, hlimit, h.1.2 ⟨_, hss⟩, (h.2 _ hss).1⟩

end Precedence
