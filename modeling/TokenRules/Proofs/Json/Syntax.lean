import TokenRules.Proofs.Json.Derivation

/-! The grammar of JSON texts, and the values that they denote. The text of a value is spelled out
character by character, with white space around the values, names and signs of a collection. A dialect
says which characters are digits, white space or bare characters of a string. -/
namespace TokenRules.Json

/-- Also how many digits an integer may have. -/
structure Dialect where
  digit : CodePoint → Prop
  blank : CodePoint → Prop
  bare : CodePoint → Prop
  fits : Nat → Prop

namespace Dialect

/-- JSON as on json.org, with integers of any length. -/
def standard : Dialect where
  digit c := 0x30 ≤ c ∧ c ≤ 0x39
  blank c := c = Sign.space ∨ c = Sign.tab ∨ c = Sign.lineFeed ∨ c = Sign.carriageReturn
  bare c := 0x20 ≤ c ∧ c ≤ 0x10FFFF
  fits _ := True

/-- The same, with integers that are not too long to be read. -/
def bounded : Dialect :=
  { standard with fits := (· ≤ Decimal.maxIntegerDigits) }

/-- Digits and blanks of any script, and strings with control characters. -/
def lenient : Dialect where
  digit c := Text.isDigit c
  blank c := Text.isBlank c
  bare _ := True
  fits := (· ≤ Decimal.maxIntegerDigits)

end Dialect

/-- A mark, perhaps a sign, and digits. -/
structure Exponent where
  mark : CodePoint
  sign : Option CodePoint
  digits : Text

/-- The parts of a number: perhaps a minus, the whole part, and perhaps a fraction and an exponent. -/
structure NumberLiteral where
  negative : Bool
  whole : Text
  fraction : Option Text
  exponent : Option Exponent

namespace Exponent

def text (e : Exponent) : Text :=
  e.mark :: (e.sign.toList ++ e.digits)

structure WellFormed (D : Dialect) (e : Exponent) : Prop where
  mark : e.mark = 0x65 ∨ e.mark = 0x45
  sign : ∀ s ∈ e.sign, s = Sign.hyphen ∨ s = Sign.plus
  nonempty : e.digits ≠ []
  digits : ∀ c ∈ e.digits, D.digit c

end Exponent

def digitsOf (t : Text) : List Nat :=
  t.filterMap Text.digitValue?

def signed (negative : Bool) (n : Nat) : Int :=
  if negative then -(n : Int) else n

def Exponent.value (e : Exponent) : Int :=
  signed (e.sign == some Sign.hyphen) (Decimal.digitsValue (digitsOf e.digits))

namespace NumberLiteral

def sign (n : NumberLiteral) : Text :=
  if n.negative then [Sign.hyphen] else []

def fractionText (n : NumberLiteral) : Text :=
  n.fraction.elim [] (Sign.stop :: ·)

def exponentText (n : NumberLiteral) : Text :=
  n.exponent.elim [] Exponent.text

def text (n : NumberLiteral) : Text :=
  n.sign ++ (n.whole ++ (n.fractionText ++ n.exponentText))

/-- The whole part is zero, or does not start with zero. -/
structure WellFormed (D : Dialect) (n : NumberLiteral) : Prop where
  whole : n.whole = [0x30] ∨
    ∃ c rest, n.whole = c :: rest ∧ 0x31 ≤ c ∧ c ≤ 0x39 ∧ ∀ d ∈ rest, D.digit d
  fraction : ∀ t ∈ n.fraction, t ≠ [] ∧ ∀ c ∈ t, D.digit c
  exponent : ∀ e ∈ n.exponent, e.WellFormed D

def IsInteger (n : NumberLiteral) : Prop :=
  n.fraction = none ∧ n.exponent = none

/-- All digits before the exponent. -/
def digits (n : NumberLiteral) : List Nat :=
  digitsOf (n.whole ++ n.fraction.getD [])

/-- The power of ten by which the digits, taken as an integer, are to be multiplied. -/
def scale (n : NumberLiteral) : Int :=
  n.exponent.elim 0 Exponent.value - (n.fraction.getD []).length

/-- An integer if there is neither a fraction nor an exponent, or else the nearest binary64 number. -/
def value (n : NumberLiteral) : Value :=
  match n.fraction, n.exponent with
  | none, none => .integer (signed n.negative (Decimal.digitsValue n.digits))
  | _, _ => .real (Binary64.ofDecimal n.negative (Decimal.digitsValue n.digits)
      (n.digits.dropWhile (· == 0)).length n.scale)

end NumberLiteral

/-- A part of a string: a character that stands for itself, a short escape of a character, or an escape
of a unit by four hexadecimal digits. -/
inductive StringPart where
  | bare (c : CodePoint)
  | short (letter c : CodePoint)
  | unit (digits : Text)

namespace StringPart

/-- The short escapes, each with the character that it stands for. -/
def shortEscapes : List (CodePoint × CodePoint) :=
  [(Sign.quotation, Sign.quotation), (Sign.backslash, Sign.backslash), (Sign.slash, Sign.slash),
   (0x62, 0x08), (0x66, 0x0C), (0x6E, Sign.lineFeed), (0x72, Sign.carriageReturn),
   (0x74, Sign.tab)]

def text : StringPart → Text
  | .bare c => [c]
  | .short letter _ => [Sign.backslash, letter]
  | .unit digits => Sign.backslash :: 0x75 :: digits

def WellFormed (D : Dialect) : StringPart → Prop
  | .bare c => D.bare c ∧ c ≠ Sign.quotation ∧ c ≠ Sign.backslash
  | .short letter c => (letter, c) ∈ shortEscapes
  | .unit digits => digits.length = 4 ∧ ∀ c ∈ digits, Text.isHexDigit c

/-- The characters that the parts of a string stand for. A unit that is a high surrogate makes one
character with the low surrogate right after it; any other unit stands alone. -/
def characters : List StringPart → Text
  | [] => []
  | .bare c :: rest | .short _ c :: rest => c :: characters rest
  | .unit high :: .unit low :: rest =>
    if StringLiteral.isHighSurrogate (Text.hexNumber high) &&
        StringLiteral.isLowSurrogate (Text.hexNumber low) then
      StringLiteral.combine (Text.hexNumber high) (Text.hexNumber low) :: characters rest
    else Text.hexNumber high :: characters (.unit low :: rest)
  | .unit digits :: rest => Text.hexNumber digits :: characters rest

end StringPart

namespace Dialect

/-- A string in quotation marks. -/
inductive Quoted (D : Dialect) : Text → Text → Prop
  | spelled : (∀ part ∈ parts, StringPart.WellFormed D part) →
      Quoted D (Sign.quotation :: (parts.flatMap StringPart.text ++ [Sign.quotation]))
        (StringPart.characters parts)

/-- A value of a single token. -/
inductive Scalar (D : Dialect) : Text → Value → Prop
  | null : Scalar D (Text.ofString "null") .null
  | affirmed : Scalar D (Text.ofString "true") (.bool true)
  | denied : Scalar D (Text.ofString "false") (.bool false)
  | number {n : NumberLiteral} : n.WellFormed D → (n.IsInteger → D.fits n.whole.length) →
      Scalar D n.text n.value
  | string : Quoted D t s → Scalar D t (.string s)

def Blanks (D : Dialect) (t : Text) : Prop :=
  ∀ c ∈ t, D.blank c

mutual

/-- The text of a value, without white space around it. The members of an object stay as they were
written. -/
inductive Spells (D : Dialect) : Text → Value → Prop
  | scalar : D.Scalar t v → Spells D t v
  | emptyArray : D.Blanks a → Spells D (Sign.leftBracket :: (a ++ [Sign.rightBracket])) (.array [])
  | array : Elements D t vs →
      Spells D (Sign.leftBracket :: (t ++ [Sign.rightBracket])) (.array vs)
  | emptyObject : D.Blanks a → Spells D (Sign.leftBrace :: (a ++ [Sign.rightBrace])) (.object [])
  | object : Members D t ms → Spells D (Sign.leftBrace :: (t ++ [Sign.rightBrace])) (.object ms)

/-- The text of a value with white space around it, as which a whole text is read. -/
inductive Padded (D : Dialect) : Text → Value → Prop
  | padded : D.Blanks a → Spells D t v → D.Blanks b → Padded D (a ++ (t ++ b)) v

inductive Elements (D : Dialect) : Text → List Value → Prop
  | one : Padded D t v → Elements D t [v]
  | more : Elements D t vs → Padded D u v → Elements D (t ++ Sign.comma :: u) (vs ++ [v])

inductive Members (D : Dialect) : Text → List (Text × Value) → Prop
  | one : D.Blanks a → D.Quoted k key → D.Blanks b → Padded D t v →
      Members D (a ++ (k ++ (b ++ Sign.colon :: t))) [(key, v)]
  | more : Members D t ms → D.Blanks a → D.Quoted k key → D.Blanks b → Padded D u v →
      Members D (t ++ Sign.comma :: (a ++ (k ++ (b ++ Sign.colon :: u)))) (ms ++ [(key, v)])

end

end Dialect
end TokenRules.Json
