import TokenRules.Text.Numeral
import TokenRules.Text.Sign

/-! String literals. Decoding resolves the escapes from the left; two escapes that spell a surrogate
pair make one character, any other surrogate escape stays a lone surrogate. A bad escape is blamed
on its backslash. Encoding escapes only what cannot stand for itself. -/
namespace TokenRules.Json

/-- An escape that stands for nothing, and where its backslash is. -/
structure BadEscape where
  position : Int
  shown : Text
  deriving DecidableEq, Repr

def BadEscape.message (e : BadEscape) : Text :=
  Text.ofString "Unexpected escape sequence: '" ++ e.shown ++ [Sign.apostrophe]

namespace StringLiteral

/-- The characters that a backslash and one character stand for. -/
def shortEscape? : CodePoint → Option CodePoint
  | 0x62 => some 0x08
  | 0x66 => some 0x0C
  | 0x6E => some 0x0A
  | 0x72 => some 0x0D
  | 0x74 => some 0x09
  | Sign.quotation => some Sign.quotation
  | Sign.slash => some Sign.slash
  | Sign.backslash => some Sign.backslash
  | _ => none

/-- The number of four hexadecimal digits at the start. -/
def unit? (t : Text) : Option Nat :=
  let digits := t.take 4
  if digits.length == 4 && digits.all Text.isHexDigit then some (Text.hexNumber digits) else none

def isHighSurrogate (n : Nat) : Bool := 0xD800 ≤ n && n ≤ 0xDBFF

def isLowSurrogate (n : Nat) : Bool := 0xDC00 ≤ n && n ≤ 0xDFFF

def combine (high low : Nat) : CodePoint :=
  0x10000 + (high - 0xD800) * 0x400 + (low - 0xDC00)

/-- The low surrogate of an escape at the start. -/
def lowEscape? : Text → Option Nat
  | Sign.backslash :: 0x75 :: rest => (unit? rest).filter isLowSurrogate
  | _ => none

/-- What one step of decoding does with the text after a backslash: it yields a character and goes
on after `length` characters, or it fails and shows that many. -/
inductive Piece where
  | decoded (c : CodePoint) (length : Nat)
  | bad (length : Nat)
  deriving DecidableEq, Repr

/-- The piece of the text after a backslash, which is not empty. -/
def piece (c : CodePoint) (rest : Text) : Piece :=
  if c == 0x75 then
    match unit? rest with
    | none => .bad (rest.take 4).length.succ
    | some n =>
      if isHighSurrogate n then
        match lowEscape? (rest.drop 4) with
        | some low => .decoded (combine n low) 11
        | none => .decoded n 5
      else .decoded n 5
  else
    match shortEscape? c with
    | some d => .decoded d 1
    | none => .bad 1

/-- Decodes the text between the quotation marks, which starts at `position`. A backslash with
nothing after it stands for itself. -/
def decode (position : Int) : Text → Except BadEscape Text
  | [] => .ok []
  | [c] => .ok [c]
  | Sign.backslash :: c :: rest =>
    match piece c rest with
    | .decoded d length =>
      match decode (position + 1 + length) (rest.drop (length - 1)) with
      | .ok t => .ok (d :: t)
      | .error e => .error e
    | .bad length => .error ⟨position, Sign.backslash :: (c :: rest).take length⟩
  | c :: d :: rest =>
    match decode (position + 1) (d :: rest) with
    | .ok t => .ok (c :: t)
    | .error e => .error e
termination_by t => t.length
decreasing_by all_goals simp; try omega

/-- The text of a literal at `start`: its first and last characters are the quotation marks. -/
def dequote (literal : Text) (start : Int) : Except BadEscape Text :=
  decode (start + 1) literal.tail.dropLast

/-- The letter of the short escape of a control character. -/
def controlLetter? : CodePoint → Option CodePoint
  | 0x08 => some 0x62
  | 0x09 => some 0x74
  | 0x0A => some 0x6E
  | 0x0C => some 0x66
  | 0x0D => some 0x72
  | _ => none

def encodeChar (c : CodePoint) : Text :=
  if c == Sign.quotation || c == Sign.backslash then [Sign.backslash, c]
  else if c < 0x20 then
    match controlLetter? c with
    | some letter => [Sign.backslash, letter]
    | none => [Sign.backslash, 0x75] ++ Text.paddedHex 4 c
  else [c]

def enquote (t : Text) : Text :=
  Sign.quotation :: t.flatMap encodeChar ++ [Sign.quotation]

end StringLiteral
end TokenRules.Json
