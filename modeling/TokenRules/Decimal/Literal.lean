import TokenRules.Decimal.Binary64
import TokenRules.Text.Blank
import TokenRules.Text.Digit
import TokenRules.Text.Quoted

/-! Reading numbers from text, and writing integers. Digits may come from any script. An integer may have a sign, blanks
around it and single low lines between digits, and at most `maxIntegerDigits` digits; a real number
has a whole part, then perhaps a fraction and an exponent. -/
namespace TokenRules.Decimal

inductive LiteralError where
  | tooManyDigits (count : Nat)
  | malformed (literal : Text)
  deriving DecidableEq, Repr

def maxIntegerDigits : Nat := 4300

def LiteralError.message : LiteralError → Text
  | .tooManyDigits count =>
    Text.ofString "Exceeds the limit (" ++ Text.decimal maxIntegerDigits
      ++ Text.ofString " digits) for integer string conversion: value has " ++ Text.decimal count
      ++ Text.ofString " digits; use sys.set_int_max_str_digits() to increase the limit"
  | .malformed literal =>
    Text.ofString "invalid literal for int() with base 10: " ++ (Text.quoted literal).take 200

/-- Writes an integer, unless it has more digits than can be read again. -/
def writeInteger? (i : Int) : Option Text :=
  if maxIntegerDigits < (Text.decimal i.natAbs).length then none else some (Text.signedDecimal i)

/-- What is said of an integer that is not written. -/
def unwritableMessage : Text :=
  Text.ofString "Exceeds the limit (" ++ Text.decimal maxIntegerDigits
    ++ Text.ofString " digits) for integer string conversion; use sys.set_int_max_str_digits() to increase the limit"

theorem writeInteger?_eq_some : writeInteger? i = some shown ↔
    (Text.decimal i.natAbs).length ≤ maxIntegerDigits ∧ Text.signedDecimal i = shown := by
  rw [writeInteger?]
  split
  · next long => simp [Nat.not_le.mpr long]
  · next short => simp [Nat.not_lt.mp short]

theorem writeInteger?_eq_none : writeInteger? i = none ↔ maxIntegerDigits < (Text.decimal i.natAbs).length := by
  rw [writeInteger?]
  split <;> simp_all

/-- The number that a row of digits denotes. -/
def digitsValue (digits : List Nat) : Nat :=
  digits.foldl (fun n d => n * 10 + d) 0

/-- Splits off a leading sign; `true` stands for minus. -/
def splitSign : Text → Bool × Text
  | 0x2D :: rest => (true, rest)
  | 0x2B :: rest => (false, rest)
  | t => (false, t)

def isMargin (c : CodePoint) : Bool :=
  if c < 128 then Text.isAsciiBlank c else Text.isBlank c

/-- Whether low lines stand only singly and between digits. -/
def wellGrouped : Text → Bool
  | [] => false
  | [c] => c != 0x5F
  | c :: d :: rest => c != 0x5F && (d != 0x5F || !rest.isEmpty) && wellGrouped
      (if d == 0x5F then rest else d :: rest)
termination_by t => t.length
decreasing_by split <;> simp only [List.length_cons] <;> omega

def readInteger (t : Text) : Except LiteralError Int :=
  let (negative, body) := splitSign (t.dropWhile isMargin)
  let isBody (c : CodePoint) : Bool := Text.isDigit c || c == 0x5F
  let digits := (body.takeWhile isBody).filterMap Text.digitValue?
  if !wellGrouped (body.takeWhile isBody) then .error (.malformed t)
  else if maxIntegerDigits < digits.length then .error (.tooManyDigits digits.length)
  else if !(body.dropWhile isBody).all isMargin then .error (.malformed t)
  else .ok (if negative then -(digitsValue digits : Int) else digitsValue digits)

/-- The digits at the start of a text, and the rest. -/
def spanDigits (t : Text) : List Nat × Text :=
  ((t.takeWhile Text.isDigit).filterMap Text.digitValue?, t.dropWhile Text.isDigit)

/-- A point and the digits after it. -/
def readFraction? : Text → Option (List Nat × Text)
  | 0x2E :: rest =>
    let (digits, rest) := spanDigits rest
    if digits.isEmpty then none else some (digits, rest)
  | t => some ([], t)

/-- A mark, perhaps a sign, and digits; zero if there is no mark. -/
def readExponent? : Text → Option (Int × Text)
  | [] => some (0, [])
  | mark :: rest =>
    if mark == 0x65 || mark == 0x45 then
      let (negative, rest) := splitSign rest
      let (digits, rest) := spanDigits rest
      if digits.isEmpty then none
      else some (if negative then -(digitsValue digits : Int) else digitsValue digits, rest)
    else some (0, mark :: rest)

def readReal? (t : Text) : Option Binary64 := do
  let (negative, rest) := splitSign t
  let (whole, rest) := spanDigits rest
  let (fraction, rest) ← readFraction? rest
  let (exponent, rest) ← readExponent? rest
  if whole.isEmpty || !rest.isEmpty then none
  else
    let digits := whole ++ fraction
    let significant := digits.dropWhile (· == 0)
    some (Binary64.ofDecimal negative (digitsValue significant) significant.length
      (exponent - fraction.length))

end TokenRules.Decimal
