/-! Binary64 numbers held exactly, and the rounding of a decimal to the nearest of them. A finite
number is `significand * 2 ^ exponent` with a significand below `2 ^ 53`; either the significand
has its full 53 bits or the exponent is the least one, so each number has one form. -/
namespace TokenRules

inductive Binary64 where
  | nan
  | infinite (negative : Bool)
  | finite (negative : Bool) (significand : Nat) (exponent : Int)
  deriving DecidableEq, Repr

namespace Binary64

def precision : Nat := 53

/-- The least significand that uses all bits. -/
def leastFull : Nat := Nat.pow 2 (precision - 1)

def leastExponent : Int := -1074

def greatestExponent : Int := 971

def zero (negative : Bool) : Binary64 :=
  .finite negative 0 leastExponent

/-- The quotient rounded to the nearest integer, a half going to the even neighbour. -/
def roundDiv (num den : Nat) : Nat :=
  let quotient := num / den
  let rest := 2 * (num % den)
  if den < rest || (rest == den && quotient % 2 == 1) then quotient + 1 else quotient

/-- The greatest `k` with `2 ^ k ≤ num / den`, for positive `num` and `den`. -/
def log2Ratio (num den : Nat) : Int :=
  let guess : Int := (num.log2 : Int) - den.log2
  if num * Nat.pow 2 (-guess).toNat < den * Nat.pow 2 guess.toNat then guess - 1 else guess

/-- The number nearest to a positive ratio; beyond the greatest finite number it is infinite. -/
def ofRatio (negative : Bool) (num den : Nat) : Binary64 :=
  let exponent := max (log2Ratio num den - (precision - 1)) leastExponent
  let rounded :=
    roundDiv (num * Nat.pow 2 (-exponent).toNat) (den * Nat.pow 2 exponent.toNat)
  let (significand, exponent) :=
    if rounded == 2 * leastFull then (leastFull, exponent + 1) else (rounded, exponent)
  if greatestExponent < exponent then .infinite negative
  else .finite negative significand exponent

/-- The number nearest to `± coefficient * 10 ^ scale`, where `digits` bounds the coefficient by
`10 ^ digits`. Magnitudes outside `10 ^ -330` to `10 ^ 310` are settled without the power. -/
def ofDecimal (negative : Bool) (coefficient digits : Nat) (scale : Int) : Binary64 :=
  if coefficient == 0 then zero negative
  else if scale + digits < -330 then zero negative
  else if 310 < scale then .infinite negative
  else ofRatio negative (coefficient * Nat.pow 10 scale.toNat) (Nat.pow 10 (-scale).toNat)

end Binary64
end TokenRules
