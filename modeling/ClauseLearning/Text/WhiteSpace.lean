import ClauseLearning.Text.CodeRanges

/-!
# White space

`isWhiteSpace` is the property of being white space, on all characters. `trimmed` leaves out the white space at both
ends of a text.
-/

namespace ClauseLearning

/-- The white space characters. -/
def whiteSpaces : CodeRanges where
  ranges := [(0x9, 0xd), (0x20, 0x20), (0x85, 0x85), (0xa0, 0xa0), (0x1680, 0x1680), (0x2000, 0x200a), (0x2028, 0x2029),
    (0x202f, 0x202f), (0x205f, 0x205f), (0x3000, 0x3000)]

def isWhiteSpace (c : Char) : Bool := whiteSpaces.contains c

/-- A text without the white space at its ends. -/
def trimmed (cs : List Char) : List Char := ((cs.dropWhile isWhiteSpace).reverse.dropWhile isWhiteSpace).reverse

end ClauseLearning
