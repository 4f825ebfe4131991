/-!
# Blank text

The characters with the Unicode property White_Space, and texts that consist of nothing else.
-/

namespace MatrixAudit

/-- The ranges of code points with the property White_Space, both ends included. -/
def whiteSpaceRanges : List (Nat × Nat) :=
  [(0x9, 0xD), (0x20, 0x20), (0x85, 0x85), (0xA0, 0xA0), (0x1680, 0x1680), (0x2000, 0x200A),
    (0x2028, 0x2029), (0x202F, 0x202F), (0x205F, 0x205F), (0x3000, 0x3000)]

def isWhiteSpace (c : Char) : Bool :=
  whiteSpaceRanges.any fun range => range.1 ≤ c.toNat && c.toNat ≤ range.2

/-- Whether nothing is left of a text without its white space. -/
def isBlank (text : String) : Bool := text.toList.all isWhiteSpace

/-- There are twenty-five such characters. -/
example : (whiteSpaceRanges.map fun range => range.2 + 1 - range.1).sum = 25 := rfl

end MatrixAudit
