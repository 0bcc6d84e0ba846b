import Precedence.Lexeme
import Precedence.Supply

/-!
# Scanning

Tokens are read on demand from the characters that lie ahead.  `readToken` skips blank lexemes and
gives the first token behind them; `tokenize` reads a whole text at once and refuses it at the first
character that belongs to no token.
-/

namespace Precedence

/-- At the end of the text there is only the end marker, however often it is asked for. -/
def readToken : List Char → Token × List Char
  | [] => (.eof, [])
  | c :: cs =>
    match (Lexeme.ofHead c cs).token? with
    | some t => (t, (c :: cs).drop (Lexeme.ofHead c cs).text.length)
    | none => readToken ((c :: cs).drop (Lexeme.ofHead c cs).text.length)
termination_by cs => cs.length
decreasing_by exact Lexeme.length_drop_lt c cs

theorem length_readToken_le (cs : List Char) : (readToken cs).2.length ≤ cs.length := by
  fun_induction readToken cs with
  | case1 => exact Nat.le_refl _
  | case2 c cs => exact Nat.le_of_lt (Lexeme.length_drop_lt c cs)
  | case3 c cs _ ih => exact Nat.le_trans ih (Nat.le_of_lt (Lexeme.length_drop_lt c cs))

theorem length_readToken_lt (cs : List Char) (h : (readToken cs).1.kind ≠ .eof) :
    (readToken cs).2.length < cs.length := by
  fun_induction readToken cs with
  | case1 => exact absurd rfl h
  | case2 c cs => exact Lexeme.length_drop_lt c cs
  | case3 c cs _ ih => exact Nat.lt_trans (ih h) (Lexeme.length_drop_lt c cs)

/-! ## Reading as a token supply -/

structure Scanner where
  ahead : List Char
  deriving DecidableEq, Repr

namespace Scanner

def ofString (source : String) : Scanner := ⟨source.toList⟩

def next (s : Scanner) : Token × Scanner :=
  let r := readToken s.ahead
  (r.1, ⟨r.2⟩)

def announce (t : Token) : Option Event :=
  match t.kind with
  | .eof => none
  | .illegal => some (.illegal t.text)
  | _ => some (.lexed t)

instance : FiniteSupply Scanner where
  next := next
  announce := announce
  size s := s.ahead.length
  size_next_le s := length_readToken_le s.ahead
  size_next_lt s h := length_readToken_lt s.ahead h

end Scanner

/-! ## Reading everything at once -/

/-- The tokens of a text in order, without the end marker. -/
def tokensOf (cs : List Char) : List Token :=
  if _ : (readToken cs).1.kind = .eof then []
  else (readToken cs).1 :: tokensOf (readToken cs).2
termination_by cs.length
decreasing_by exact length_readToken_lt cs ‹_›

def tokenizeFrom (cs : List Char) (done : Array Token) : Except Diagnostic (Array Token) :=
  if _ : (readToken cs).1.kind = .eof then .ok (done.push (readToken cs).1)
  else if (readToken cs).1.kind = .illegal then .error (.unrecognised (readToken cs).1.text)
  else tokenizeFrom (readToken cs).2 (done.push (readToken cs).1)
termination_by cs.length
decreasing_by exact length_readToken_lt cs ‹_›

/-- The tokens of a text, the end marker last. -/
def tokenize (source : String) : Except Diagnostic (List Token) :=
  (tokenizeFrom source.toList #[]).map Array.toList

end Precedence
