import TokenRules.Text.Basic

/-! Sets of code points given as closed ranges. -/
namespace TokenRules.Text

def inRanges (ranges : List (CodePoint × CodePoint)) (c : CodePoint) : Bool :=
  ranges.any fun range => range.1 ≤ c && c ≤ range.2

end TokenRules.Text
