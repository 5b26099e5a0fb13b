import TokenRules.Decimal.Binary64

/-! The fewest decimal digits that read back as a given binary64 number. All reals nearer to the
number than to its neighbours read back as it, those half-way too if its significand is even. On
each decimal grid, from one digit to seventeen, only the two points around the number are tried;
the first grid with a point in the interval wins, and of two points the nearer, a tie going to the
even digit. -/
namespace TokenRules.Decimal

/-- The reals that read back as a number, in units of `1 / scale`. -/
structure Interval where
  low : Nat
  value : Nat
  high : Nat
  closed : Bool
  scale : Nat
  deriving Repr

/-- The interval of `significand * 2 ^ exponent`, in quarters of the last place. The neighbour
below the least full significand is only half as far away. -/
def Interval.of (significand : Nat) (exponent : Int) : Interval :=
  let unit := Nat.pow 2 (exponent - 2).toNat
  let below :=
    if significand == Binary64.leastFull && Binary64.leastExponent < exponent then 1 else 2
  { low := (4 * significand - below) * unit
    value := 4 * significand * unit
    high := (4 * significand + 2) * unit
    closed := significand % 2 == 0
    scale := Nat.pow 2 (2 - exponent).toNat }

/-- Whether `num / den` lies in the interval. -/
def Interval.holds (i : Interval) (num den : Nat) : Bool :=
  let low := i.low * den
  let high := i.high * den
  let point := num * i.scale
  (low < point && point < high) || (i.closed && (point == low || point == high))

/-- The least `p` with `value < 10 ^ p`. -/
def Interval.magnitude (i : Interval) : Int :=
  let guess : Int := ((i.value.log2 : Int) - i.scale.log2) * 1233 / 4096 - 1
  let exceeds (p : Int) : Bool :=
    i.value * Nat.pow 10 (-p).toNat < i.scale * Nat.pow 10 p.toNat
  ([guess, guess + 1, guess + 2].find? exceeds).getD (guess + 3)

/-- The point of the grid `10 ^ place` that reads back, if the grid has one near the value. -/
def Interval.pointOn? (i : Interval) (place : Int) : Option Nat :=
  let up := Nat.pow 10 place.toNat
  let down := Nat.pow 10 (-place).toNat
  let below := i.value * down / (i.scale * up)
  let rest := 2 * (i.value * down - below * (i.scale * up))
  let nearer := if rest < i.scale * up || (rest == i.scale * up && below % 2 == 0)
    then [below, below + 1] else [below + 1, below]
  nearer.find? fun n => i.holds (n * up) down

/-- Digits without zeros at either end, and the power of ten of the first of them. -/
structure Digits where
  digits : List Nat
  exponent : Int
  deriving DecidableEq, Repr

/-- Drops the zeros at the end. -/
def trimZeros (digits : List Nat) : List Nat :=
  (digits.reverse.dropWhile (· == 0)).reverse

/-- The shortest digits of a positive finite number. -/
def shortest (significand : Nat) (exponent : Int) : Digits :=
  let interval := Interval.of significand exponent
  let magnitude := interval.magnitude
  let hit := (List.range 17).findSome? fun (n : Nat) =>
    let place := magnitude - (n + 1 : Nat)
    (interval.pointOn? place).map fun point => (point, place)
  let (point, place) := hit.getD (interval.value / interval.scale, 0)
  let digits := (Nat.toDigits 10 point).map fun c => c.toNat - 0x30
  { digits := trimZeros digits, exponent := place + (digits.length - 1) }

end TokenRules.Decimal
