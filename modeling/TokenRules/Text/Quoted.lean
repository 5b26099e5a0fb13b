import TokenRules.Text.Numeral
import TokenRules.Text.Printable

/-! Text in quotes, as messages show it: on one line, with every unprintable character escaped.
Apostrophes enclose it, unless it holds an apostrophe and no quotation mark. -/
namespace TokenRules.Text

def quoteMark (t : Text) : CodePoint :=
  if t.contains 0x27 && !t.contains 0x22 then 0x22 else 0x27

def escapeQuoted (mark c : CodePoint) : Text :=
  if c == mark || c == 0x5C then [0x5C, c]
  else if c == 0x9 then ofString "\\t"
  else if c == 0xA then ofString "\\n"
  else if c == 0xD then ofString "\\r"
  else if isPrintable c then [c]
  else if c ≤ 0xFF then ofString "\\x" ++ paddedHex 2 c
  else if c ≤ 0xFFFF then ofString "\\u" ++ paddedHex 4 c
  else ofString "\\U" ++ paddedHex 8 c

def quoted (t : Text) : Text :=
  let mark := quoteMark t
  mark :: t.flatMap (escapeQuoted mark) ++ [mark]

end TokenRules.Text
