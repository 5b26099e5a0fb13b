import TokenRules.Text.Sign

/-! Line breaks under the five conventions. A text is cut from the left: each break is taken as long
as the convention allows, and the next is looked for after it. -/
namespace TokenRules.Source

/-- `normal` takes all of CR, LF and CR LF; `unicode` also the separators of the Unicode
line-breaking algorithm; the others take one sequence only. -/
inductive LineBreaks where
  | normal | unicode | unix | apple | dos
  deriving DecidableEq, Repr

namespace LineBreaks

def name : LineBreaks → Text
  | .normal => Text.ofString "normal"
  | .unicode => Text.ofString "unicode"
  | .unix => Text.ofString "unix"
  | .apple => Text.ofString "apple"
  | .dos => Text.ofString "dos"

def all : List LineBreaks := [.normal, .unicode, .unix, .apple, .dos]

def ofName? (name : Text) : Option LineBreaks :=
  all.find? (·.name == name)

/-- Whether a carriage return and a line feed make one break. -/
def joinsPair : LineBreaks → Bool
  | .normal | .unicode | .dos => true
  | .unix | .apple => false

/-- Whether a character is a break by itself. -/
def breaksAt : LineBreaks → CodePoint → Bool
  | .normal, c => c == Sign.lineFeed || c == Sign.carriageReturn
  | .unicode, c =>
    (0x0A ≤ c && c ≤ 0x0D) || (0x1C ≤ c && c ≤ 0x1E) || c == 0x85 || c == 0x2028 || c == 0x2029
  | .unix, c => c == Sign.lineFeed
  | .apple, c => c == Sign.carriageReturn
  | .dos, _ => false

end LineBreaks

/-- A line break from `start` up to `stop`. -/
structure Break where
  start : Nat
  stop : Nat
  deriving DecidableEq, Repr

/-- The breaks of a text that starts at `offset`. -/
def breaks (mode : LineBreaks) (offset : Nat) : Text → List Break
  | [] => []
  | [c] => if mode.breaksAt c then [⟨offset, offset + 1⟩] else []
  | c :: d :: rest =>
    if mode.joinsPair && c == Sign.carriageReturn && d == Sign.lineFeed then
      ⟨offset, offset + 2⟩ :: breaks mode (offset + 2) rest
    else if mode.breaksAt c then ⟨offset, offset + 1⟩ :: breaks mode (offset + 1) (d :: rest)
    else breaks mode (offset + 1) (d :: rest)

end TokenRules.Source
