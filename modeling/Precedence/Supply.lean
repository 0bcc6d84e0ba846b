import Precedence.Event

/-!
# Token supplies

Anything that hands out tokens one at a time.  A finite supply has a size, which no token handed out
lets grow and every token but the end marker makes smaller; so it comes to give nothing but end
markers.
-/

namespace Precedence

class Supply (σ : Type) where
  next : σ → Token × σ
  /-- What the log says when the supply hands out a token. -/
  announce : Token → Option Event := fun _ => none

class FiniteSupply (σ : Type) extends Supply σ where
  size : σ → Nat
  size_next_le : ∀ s, size (next s).2 ≤ size s
  size_next_lt : ∀ s, (next s).1.kind ≠ .eof → size (next s).2 < size s

/-- A list of tokens is followed by end markers for ever. -/
def nextListed : List Token → Token × List Token
  | [] => (.eof, [])
  | t :: ts => (t, ts)

instance : FiniteSupply (List Token) where
  next := nextListed
  size := List.length
  size_next_le
    | [] => Nat.le_refl _
    | _ :: _ => Nat.le_succ _
  size_next_lt
    | [], h => absurd rfl h
    | _ :: _, _ => Nat.lt_succ_self _

/-- The first `n` tokens of a supply, end markers included. -/
def Supply.take {σ : Type} [Supply σ] : Nat → σ → List Token
  | 0, _ => []
  | n + 1, s => (next s).1 :: take n (next s).2

end Precedence
