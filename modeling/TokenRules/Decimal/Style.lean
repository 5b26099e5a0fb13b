import TokenRules.Decimal.Shortest
import TokenRules.Text.Numeral

/-! Decimal text of binary64 numbers under a style: which exponents are written out in zeros, and
how an exponent is written otherwise. -/
namespace TokenRules.Decimal

/-- How a number is written. The exponent meant is that of its first digit. -/
structure Style where
  leastPositional : Int
  positionalBound : Int
  exponentMark : Text
  exponentPlus : Text
  exponentDigits : Nat
  wholeSuffix : Text
  infinity : Text
  notANumber : Text

namespace Style

def digitText (digits : List Nat) : Text :=
  digits.map (· + 0x30)

def zeros (n : Nat) : List Nat :=
  List.replicate n 0

/-- Digits with a point and no exponent. -/
def positional (s : Style) (d : Digits) : Text :=
  if d.exponent < 0 then
    digitText [0] ++ [0x2E] ++ digitText (zeros (-d.exponent - 1).toNat ++ d.digits)
  else
    let count := d.exponent.toNat + 1
    if count < d.digits.length then
      digitText (d.digits.take count) ++ [0x2E] ++ digitText (d.digits.drop count)
    else digitText (d.digits ++ zeros (count - d.digits.length)) ++ s.wholeSuffix

/-- One digit before the point, and an exponent. -/
def scientific (s : Style) (d : Digits) : Text :=
  let mantissa := match d.digits with
    | [] => digitText [0]
    | [digit] => digitText [digit]
    | digit :: more => digitText [digit] ++ [0x2E] ++ digitText more
  let size := Text.decimal d.exponent.natAbs
  mantissa ++ s.exponentMark ++ (if d.exponent < 0 then [0x2D] else s.exponentPlus)
    ++ List.replicate (s.exponentDigits - size.length) 0x30 ++ size

def magnitude (s : Style) (significand : Nat) (exponent : Int) : Text :=
  if significand == 0 then digitText [0] ++ s.wholeSuffix
  else
    let d := shortest significand exponent
    if s.leastPositional ≤ d.exponent && d.exponent < s.positionalBound then s.positional d
    else s.scientific d

def write (s : Style) : Binary64 → Text
  | .nan => s.notANumber
  | .infinite negative => (if negative then [0x2D] else []) ++ s.infinity
  | .finite negative significand exponent =>
    (if negative then [0x2D] else []) ++ s.magnitude significand exponent

end Style
end TokenRules.Decimal
