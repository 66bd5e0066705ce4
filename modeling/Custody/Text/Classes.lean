/-! Classes of characters, and the blank ones.

A property of the Unicode Character Database is a list of closed ranges of code
points in ascending order; membership asks for a range that spans the code point.
Blank means White_Space: the ASCII separators U+001C to U+001F, NUL and the byte
order mark are not blank, U+0085 and U+00A0 are. -/
namespace Custody.Text

/-- Whether some range `(first, last)` of the list spans the code point. -/
def inRanges (ranges : List (Nat × Nat)) (point : Nat) : Bool :=
  ranges.any fun range => range.1 ≤ point && point ≤ range.2

@[simp] theorem inRanges_nil (point : Nat) : inRanges [] point = false := rfl

/-- The code points with the property White_Space. -/
def blankRanges : List (Nat × Nat) :=
  [(0x9, 0xD), (0x20, 0x20), (0x85, 0x85), (0xA0, 0xA0), (0x1680, 0x1680), (0x2000, 0x200A),
   (0x2028, 0x2029), (0x202F, 0x202F), (0x205F, 0x205F), (0x3000, 0x3000)]

def isBlank (c : Char) : Bool :=
  inRanges blankRanges c.toNat

/-- The text without the blanks before and after it. -/
def trim (s : List Char) : List Char :=
  ((s.dropWhile isBlank).reverse.dropWhile isBlank).reverse

@[simp] theorem trim_nil : trim [] = [] := rfl

end Custody.Text
