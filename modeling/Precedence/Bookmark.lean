import Precedence.Scanner

/-!
# Bookmarks

A place in a source text, given by the bytes in front of it.  A bookmark can be moved anywhere, past
the end or into the middle of a character; from such a place nothing can be read.
-/

namespace Precedence

def byteCount (cs : List Char) : Nat := cs.foldl (fun n c => n + c.utf8Size) 0

/-- What follows the first `n` bytes, where they end between two characters. -/
def dropBytes : Nat → List Char → Option (List Char)
  | 0, cs => some cs
  | _ + 1, [] => none
  | n + 1, c :: cs => if c.utf8Size ≤ n + 1 then dropBytes (n + 1 - c.utf8Size) cs else none

structure Bookmark where
  source : String
  offset : Nat
  deriving DecidableEq, Repr

namespace Bookmark

def start (source : String) : Bookmark := ⟨source, 0⟩

def rest? (b : Bookmark) : Option (List Char) := dropBytes b.offset b.source.toList

@[simp] theorem rest?_start (source : String) : (start source).rest? = some source.toList := by
  rw [rest?, start, dropBytes]

def atEnd (b : Bookmark) : Bool := b.source.utf8ByteSize ≤ b.offset

def skip (n : Nat) (b : Bookmark) : Bookmark := { b with offset := b.offset + n }

/-- The place where only `rest` is left. -/
def before (rest : List Char) (b : Bookmark) : Bookmark :=
  { b with offset := b.source.utf8ByteSize - byteCount rest }

/-- Lets `use` read from here; the bookmark then stands where `use` stopped reading. -/
def lend? {α : Type} (use : Scanner → α × Scanner) (b : Bookmark) : Option (α × Bookmark) :=
  b.rest?.map fun cs =>
    let r := use ⟨cs⟩
    (r.1, b.before r.2.ahead)

def next? (b : Bookmark) : Option (Token × Bookmark) := b.lend? Scanner.next

end Bookmark

end Precedence
