import TokenRules.Text.Basic

/-! Numbers written out in ASCII digits: decimal, and hexadecimal in lower case. -/
namespace TokenRules.Text

def decimal (n : Nat) : Text :=
  (Nat.toDigits 10 n).map Char.toNat

theorem decimal_length_le_iff (positive : 0 < k) : (decimal n).length ≤ k ↔ n < Nat.pow 10 k := by
  rw [decimal, List.length_map]
  exact Nat.length_toDigits_le_iff (by decide) positive

theorem lt_decimal_length (positive : 0 < k) : k < (decimal (Nat.pow 10 k)).length :=
  Nat.not_le.mp fun short => Nat.lt_irrefl _ ((decimal_length_le_iff positive).mp short)

def signedDecimal (i : Int) : Text :=
  if i < 0 then 0x2D :: decimal i.natAbs else decimal i.natAbs

def hex (n : Nat) : Text :=
  (Nat.toDigits 16 n).map Char.toNat

/-- At least `width` hexadecimal digits, with zeros in front. -/
def paddedHex (width n : Nat) : Text :=
  List.replicate (width - (hex n).length) 0x30 ++ hex n

def hexValue? (c : CodePoint) : Option Nat :=
  if 0x30 ≤ c && c ≤ 0x39 then some (c - 0x30)
  else if 0x61 ≤ c && c ≤ 0x66 then some (c - 0x57)
  else if 0x41 ≤ c && c ≤ 0x46 then some (c - 0x37)
  else none

def isHexDigit (c : CodePoint) : Bool :=
  (hexValue? c).isSome

/-- The number that a text of hexadecimal digits denotes. -/
def hexNumber (t : Text) : Nat :=
  t.foldl (fun n c => n * 16 + (hexValue? c).getD 0) 0

end TokenRules.Text
