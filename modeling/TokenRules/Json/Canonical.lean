import TokenRules.Json.Value

/-! The canonical text of values: no blanks, members in their order, and all characters but the
printable ones of ASCII as a backslash, `u` and the code point in braces. -/
namespace TokenRules.Json

namespace Canonical

def char (c : CodePoint) : Text :=
  if c == Sign.quotation || c == Sign.backslash then [Sign.backslash, c]
  else if 0x20 ≤ c && c ≤ 0x7E then [c]
  else [Sign.backslash, 0x75, Sign.leftBrace] ++ Text.hex c ++ [Sign.rightBrace]

def string (t : Text) : Text :=
  Sign.quotation :: t.flatMap char ++ [Sign.quotation]

end Canonical

mutual

/-- The canonical text of a value, followed by `tail`. -/
def Value.canonicalBefore (tail : Text) : Value → Text
  | .null => Text.ofString "null" ++ tail
  | .bool true => Text.ofString "true" ++ tail
  | .bool false => Text.ofString "false" ++ tail
  | .integer i => Text.signedDecimal i ++ tail
  | .real x => realStyle.write x ++ tail
  | .string t => Canonical.string t ++ tail
  | .array [] => Sign.leftBracket :: Sign.rightBracket :: tail
  | .array (v :: vs) =>
    Sign.leftBracket :: v.canonicalBefore (Value.elementsBefore (Sign.rightBracket :: tail) vs)
  | .object [] => Sign.leftBrace :: Sign.rightBrace :: tail
  | .object ((k, v) :: ms) =>
    Sign.leftBrace :: (Canonical.string k ++ Sign.colon ::
      v.canonicalBefore (Value.membersBefore (Sign.rightBrace :: tail) ms))
  | .foreign => Text.ofString "()" ++ tail

def Value.elementsBefore (tail : Text) : List Value → Text
  | [] => tail
  | v :: vs => Sign.comma :: v.canonicalBefore (Value.elementsBefore tail vs)

def Value.membersBefore (tail : Text) : List (Text × Value) → Text
  | [] => tail
  | (k, v) :: ms =>
    Sign.comma :: (Canonical.string k ++ Sign.colon ::
      v.canonicalBefore (Value.membersBefore tail ms))

end

def Value.canonical (v : Value) : Text :=
  v.canonicalBefore []

end TokenRules.Json
