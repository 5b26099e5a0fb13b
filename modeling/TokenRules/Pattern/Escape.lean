import TokenRules.Pattern.CharSet
import TokenRules.Pattern.Token
import TokenRules.Text.CharacterNames
import TokenRules.Text.Numeral

/-! Escape sequences that stand for a character or a class of characters. -/
namespace TokenRules.Pattern

/-- What a character-like part of a source stands for. -/
inductive Atom where
  | char (c : CodePoint)
  | charClass (kind : CharClass) (negated : Bool)
  deriving DecidableEq, Repr

namespace Atom

def member (ascii : Bool) : Atom → Member
  | .char c => .single c
  | .charClass kind negated => .charClass kind ascii negated

def charSet (f : Flags) : Atom → CharSet
  | .char c => CharSet.char (Folding.ofFlags f) c
  | .charClass kind negated => ⟨[.charClass kind f.ascii negated], false, Folding.ofFlags f⟩

end Atom

namespace Escape

def isAsciiLetter (c : CodePoint) : Bool :=
  (0x41 ≤ c && c ≤ 0x5A) || (0x61 ≤ c && c ≤ 0x7A)

def isOctalDigit (c : CodePoint) : Bool :=
  0x30 ≤ c && c ≤ 0x37

def octalNumber (t : Text) : Nat :=
  t.foldl (fun n c => n * 8 + (c - 0x30)) 0

/-- The letters `d`, `s` and `w` name classes, their capitals the complements. -/
def charClass? : CodePoint → Option Atom
  | 0x64 => some (.charClass .digit false)
  | 0x44 => some (.charClass .digit true)
  | 0x73 => some (.charClass .blank false)
  | 0x53 => some (.charClass .blank true)
  | 0x77 => some (.charClass .word false)
  | 0x57 => some (.charClass .word true)
  | _ => none

/-- The letters `a`, `f`, `n`, `r`, `t` and `v` name control characters. -/
def control? : CodePoint → Option CodePoint
  | 0x61 => some 0x07
  | 0x66 => some 0x0C
  | 0x6E => some 0x0A
  | 0x72 => some 0x0D
  | 0x74 => some 0x09
  | 0x76 => some 0x0B
  | _ => none

/-- The letters `x`, `u` and `U` take a fixed number of hexadecimal digits. -/
def hexCount? : CodePoint → Option Nat
  | 0x78 => some 2
  | 0x75 => some 4
  | 0x55 => some 8
  | _ => none

def hexadecimal (count : Nat) (ts : List Token) : Except Fault (Atom × List Token) :=
  let (digits, rest) := Token.span Text.isHexDigit count ts
  if digits.length == count && Text.hexNumber digits ≤ 0x10FFFF then
    .ok (.char (Text.hexNumber digits), rest)
  else .error .badSyntax

/-- An octal number whose first digits are already read; it must fit a byte. -/
def octal (digits : Text) (rest : List Token) : Except Fault (Atom × List Token) :=
  if octalNumber digits ≤ 0xFF then .ok (.char (octalNumber digits), rest) else .error .badSyntax

theorem hexadecimal_length (h : hexadecimal count ts = .ok (atom, rest)) :
    rest.length ≤ ts.length := by
  have := Token.span_length Text.isHexDigit count ts
  simp only [hexadecimal] at h
  split at h <;> simp_all

theorem octal_rest (h : octal digits ts = .ok (atom, rest)) : rest = ts := by
  simp only [octal] at h
  split at h <;> simp_all

variable [CharacterNames]

/-- A character asked for by its name, which stands in braces. -/
def byName : List Token → Except Fault (Atom × List Token)
  | .plain Sign.leftBrace :: ts =>
    match Token.nameUntil Sign.rightBrace ts with
    | .error e => .error e
    | .ok (name, rest) =>
      match CharacterNames.codePoint? name with
      | some c => .ok (.char c, rest)
      | none => .error .badSyntax
  | _ => .error .badSyntax

/-- An escape that means the same inside brackets and outside. The letter `N` takes a name. No other ASCII
letter or digit may follow a backslash; any other character stands for itself. -/
def common (c : CodePoint) (rest : List Token) : Except Fault (Atom × List Token) :=
  match charClass? c, control? c, hexCount? c with
  | some atom, _, _ => .ok (atom, rest)
  | _, some control, _ => .ok (.char control, rest)
  | _, _, some count => hexadecimal count rest
  | none, none, none =>
    if c == 0x4E then byName rest
    else if isAsciiLetter c || Text.isAsciiDigit c then .error .badSyntax else .ok (.char c, rest)

/-- A name is read up to the brace that closes it. -/
theorem byName_ok (h : byName ts = .ok (atom, rest)) : ∃ name c within,
    ts = .plain Sign.leftBrace :: within ∧ Token.nameUntil Sign.rightBrace within = .ok (name, rest) ∧
      CharacterNames.codePoint? name = some c ∧ atom = .char c := by
  unfold byName at h
  split at h
  · next within =>
    split at h
    · contradiction
    · next name rest' read =>
      split at h
      · next c known =>
        obtain ⟨rfl, rfl⟩ := Prod.mk.inj (Except.ok.inj h)
        exact ⟨name, c, within, rfl, read, known, rfl⟩
      · contradiction
  · contradiction

theorem common_length (h : common c ts = .ok (atom, rest)) : rest.length ≤ ts.length := by
  simp only [common] at h
  split at h
  · simp_all
  · simp_all
  · exact hexadecimal_length h
  · split at h
    · obtain ⟨_, _, within, rfl, read, -, -⟩ := byName_ok h
      exact Nat.le_succ_of_le (Nat.le_of_lt (Token.nameUntil_length read))
    · split at h <;> simp_all

end Escape
end TokenRules.Pattern
