/-! Blank characters. Two classes are in use: the five characters that separate words in a
source text, and the white space that is dropped around a line of input before it is converted. -/
namespace StackScript.Text

/-- The characters that separate words. Every other character, a vertical tab or a no-break
space included, belongs to a word. -/
def isBlank (c : Char) : Bool :=
  c == ' ' || c == '\t' || c == '\r' || c == '\n' || c == '\x0c'

/-- The code points with the Unicode property `White_Space`, as closed ranges in order. -/
def whiteSpaceRanges : List (Nat × Nat) :=
  [(0x09, 0x0d), (0x20, 0x20), (0x85, 0x85), (0xa0, 0xa0), (0x1680, 0x1680), (0x2000, 0x200a),
    (0x2028, 0x2029), (0x202f, 0x202f), (0x205f, 0x205f), (0x3000, 0x3000)]

/-- A character with the property `White_Space`. -/
def isWhiteSpace (c : Char) : Bool :=
  whiteSpaceRanges.any fun range => range.1 ≤ c.toNat && c.toNat ≤ range.2

/-- The characters without the longest run at the end that satisfies `drop`. -/
def dropEndWhile (drop : Char → Bool) (chars : List Char) : List Char :=
  (chars.reverse.dropWhile drop).reverse

/-- The characters without white space at either end. -/
def trim (chars : List Char) : List Char :=
  dropEndWhile isWhiteSpace (chars.dropWhile isWhiteSpace)

end StackScript.Text
