/-!
# Blank characters

The characters that separate tokens: those with the Unicode property White_Space.
-/

namespace Precedence.Text

/-- White_Space holds of 25 characters, six of them ASCII. -/
def isBlank (c : Char) : Bool :=
  let n := c.toNat
  (0x09 ≤ n && n ≤ 0x0d) || n == 0x20 || n == 0x85 || n == 0xa0 || n == 0x1680 ||
    (0x2000 ≤ n && n ≤ 0x200a) || n == 0x2028 || n == 0x2029 || n == 0x202f || n == 0x205f ||
    n == 0x3000

end Precedence.Text
