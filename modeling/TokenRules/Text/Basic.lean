/-! Text as a list of code points. A surrogate is a code point like any other here, because an
escape sequence can name one alone; positions, lengths and columns all count code points. -/
namespace TokenRules

abbrev CodePoint := Nat

abbrev Text := List CodePoint

namespace Text

def ofString (s : String) : Text :=
  s.toList.map Char.toNat

/-- The text's characters between two positions. -/
def slice (t : Text) (start stop : Nat) : Text :=
  (t.drop start).take (stop - start)

end Text
end TokenRules
