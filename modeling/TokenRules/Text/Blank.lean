import TokenRules.Text.Ranges

/-! Blank characters: white space of Unicode together with the four information separators
U+001C to U+001F. The zero-width space, the byte order mark and U+180E are not blank. -/
namespace TokenRules.Text

def blankRanges : List (CodePoint × CodePoint) :=
  [(0x9, 0xD), (0x1C, 0x20), (0x85, 0x85), (0xA0, 0xA0), (0x1680, 0x1680), (0x2000, 0x200A),
   (0x2028, 0x2029), (0x202F, 0x202F), (0x205F, 0x205F), (0x3000, 0x3000)]

def isBlank (c : CodePoint) : Bool :=
  inRanges blankRanges c

/-- Tab, line feed, vertical tab, form feed, carriage return and space. -/
def isAsciiBlank (c : CodePoint) : Bool :=
  (0x9 ≤ c && c ≤ 0xD) || c == 0x20

/-- Drops the blanks at both ends. -/
def strip (t : Text) : Text :=
  ((t.dropWhile isBlank).reverse.dropWhile isBlank).reverse

end TokenRules.Text
