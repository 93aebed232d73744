/-!
# `TokenGate.Text.Space`: white space

`isWhite` is the Unicode `White_Space` property: the ASCII blanks and line breaks
`U+0009 ..= U+000D` and `U+0020`, next line `U+0085`, the no-break and typographic
spaces, the line and paragraph separators, and the ideographic space. `trim` removes
such characters from both ends of a text.
-/

set_option autoImplicit false

namespace TokenGate.Space

/-- Whether a character is white space. -/
def isWhite (c : Char) : Bool :=
  let n := c.toNat
  (0x09 ≤ n && n ≤ 0x0D) || n == 0x20 || n == 0x85 || n == 0xA0 || n == 0x1680
    || (0x2000 ≤ n && n ≤ 0x200A) || n == 0x2028 || n == 0x2029 || n == 0x202F
    || n == 0x205F || n == 0x3000

/-- A text without white space at either end. -/
def trim (s : String) : String :=
  String.ofList (((s.toList.dropWhile isWhite).reverse.dropWhile isWhite).reverse)

end TokenGate.Space
