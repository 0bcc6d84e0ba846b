import Precedence.Token
import Precedence.Text.Blank

/-!
# Lexemes

The pieces a source text is cut into.  What stands at the head of a text is decided by a table of
patterns, tried in order: the first that matches gives the lexeme.  A blank run is a lexeme without
a token; a character that starts no pattern is a lexeme by itself.
-/

namespace Precedence

open Text

def isWordStart (c : Char) : Bool := c.isAlpha || c == '_'

def isWordPart (c : Char) : Bool := c.isAlphanum || c == '_'

inductive Pattern where
  | word
  | number
  | blank
  | fixed (kind : Kind) (text : String)
  deriving DecidableEq, Repr

namespace Pattern

/-- The text that a pattern matches at the head of `cs`, as long as it can be and never empty. -/
def match? : Pattern → List Char → Option (List Char)
  | .word, c :: cs => if isWordStart c then some (c :: cs.takeWhile isWordPart) else none
  | .number, c :: cs => if c.isDigit then some (c :: cs.takeWhile Char.isDigit) else none
  | .blank, c :: cs => if isBlank c then some (c :: cs.takeWhile isBlank) else none
  | .fixed _ text, c :: cs => if text.toList.isPrefixOf (c :: cs) then some text.toList else none
  | _, [] => none

/-- The token that the matched text becomes. -/
def token? : Pattern → List Char → Option Token
  | .word, text => some (.ofWord (String.ofList text))
  | .number, text => some ⟨.int, String.ofList text⟩
  | .blank, _ => none
  | .fixed kind text, _ => some ⟨kind, text⟩

end Pattern

/-- An operator of two characters stands before its first character alone. -/
def patterns : List Pattern :=
  [.word, .number, .blank, .fixed .openParen "(", .fixed .closeParen ")", .fixed .equals "==",
    .fixed .notEquals "!=", .fixed .bang "!", .fixed .assign "=", .fixed .less "<",
    .fixed .greater ">", .fixed .semicolon ";", .fixed .plus "+", .fixed .minus "-",
    .fixed .slash "/", .fixed .asterisk "*"]

def firstMatch? (cs : List Char) : Option (Pattern × List Char) :=
  patterns.findSome? fun p => (p.match? cs).map fun text => (p, text)

structure Lexeme where
  text : List Char
  token? : Option Token
  deriving DecidableEq, Repr

/-- The lexeme at the head of the non-empty text `c :: cs`. -/
def Lexeme.ofHead (c : Char) (cs : List Char) : Lexeme :=
  match firstMatch? (c :: cs) with
  | some (p, text) => ⟨text, p.token? text⟩
  | none => ⟨[c], some ⟨.illegal, String.singleton c⟩⟩

/-! ## Lexemes take something -/

theorem Pattern.match?_ne_nil {p : Pattern} (hp : p ∈ patterns) {cs text : List Char}
    (h : p.match? cs = some text) : text ≠ [] := by
  match p, cs with
  | .word, c :: cs | .number, c :: cs | .blank, c :: cs =>
    simp only [match?] at h
    split at h
    · cases h; exact List.cons_ne_nil _ _
    · cases h
  | .fixed k t, c :: cs =>
    simp only [match?] at h
    split at h
    · cases h
      rintro h
      rw [String.toList_eq_nil_iff] at h
      subst h
      simp [patterns] at hp
    · cases h
  | .word, [] | .number, [] | .blank, [] | .fixed _ _, [] => simp [match?] at h

theorem mem_of_firstMatch? {cs text : List Char} {p : Pattern}
    (h : firstMatch? cs = some (p, text)) : p ∈ patterns ∧ p.match? cs = some text := by
  obtain ⟨q, hq, hm⟩ := List.exists_of_findSome?_eq_some h
  obtain ⟨t, ht, he⟩ := Option.map_eq_some_iff.1 hm
  cases he
  exact ⟨hq, ht⟩

theorem Lexeme.ofHead_text_ne_nil (c : Char) (cs : List Char) :
    (Lexeme.ofHead c cs).text ≠ [] := by
  unfold Lexeme.ofHead
  split
  next p text h =>
    obtain ⟨hp, hm⟩ := mem_of_firstMatch? h
    exact p.match?_ne_nil hp hm
  next => exact List.cons_ne_nil _ _

/-- What is left behind the lexeme is shorter. -/
theorem Lexeme.length_drop_lt (c : Char) (cs : List Char) :
    ((c :: cs).drop (Lexeme.ofHead c cs).text.length).length < (c :: cs).length := by
  have h := List.length_pos_iff.2 (Lexeme.ofHead_text_ne_nil c cs)
  rw [List.length_drop, List.length_cons]
  omega

end Precedence
