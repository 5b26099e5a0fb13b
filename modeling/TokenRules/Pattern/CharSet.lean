import TokenRules.Pattern.Flags
import TokenRules.Text.Blank
import TokenRules.Text.Digit
import TokenRules.Text.LetterCase
import TokenRules.Text.Word

/-! Sets of characters: what a bracket expression, a dot, a class escape or a plain character
matches. Under a case folding the character is lowered and then compared with all case variants of
a member. -/
namespace TokenRules.Pattern

/-- How far a comparison of characters ignores case. -/
inductive Folding where
  | exact | ascii | full
  deriving DecidableEq, Repr

namespace Folding

def ofFlags (f : Flags) : Folding :=
  if f.ignoreCase then if f.ascii then .ascii else .full else .exact

def apply : Folding → CodePoint → CodePoint
  | .exact, c => c
  | .ascii, c => Text.asciiLower c
  | .full, c => Text.lower c

end Folding

inductive CharClass where
  | digit | blank | word
  deriving DecidableEq, Repr

def CharClass.contains (ascii : Bool) : CharClass → CodePoint → Bool
  | .digit, c => if ascii then Text.isAsciiDigit c else Text.isDigit c
  | .blank, c => if ascii then Text.isAsciiBlank c else Text.isBlank c
  | .word, c => if ascii then Text.isAsciiWord c else Text.isWord c

inductive Member where
  | single (c : CodePoint)
  | range (first last : CodePoint)
  | charClass (kind : CharClass) (ascii negated : Bool)
  deriving DecidableEq, Repr

/-- The last code point of the basic plane. -/
def basicPlaneEnd : CodePoint := 0xFFFF

namespace Member

def between (first last c : CodePoint) : Bool :=
  first ≤ c && c ≤ last

/-- Whether a range holds a letter or its capital; ranges that leave the basic plane are compared
this way, beside the variants of the basic plane. -/
def holdsEitherCase (first last c : CodePoint) : Bool :=
  basicPlaneEnd < last && (between first last c || between first last (Text.upper c))

/-- Whether a member stands for `c`. A single letter beyond the basic plane is compared as it is
with the lowered `c`: under a full folding a small letter stands for its capital too, and a capital for
nothing. -/
def covers (folding : Folding) : Member → CodePoint → Bool
  | .charClass kind ascii negated, c => kind.contains ascii (folding.apply c) != negated
  | .single m, c =>
    match folding with
    | .exact => c == m
    | .ascii => Text.asciiLower c == if m ≤ basicPlaneEnd then Text.asciiLower m else m
    | .full =>
      if m ≤ basicPlaneEnd then (Text.capitalFamily (Text.lower m)).contains (Text.lower c)
      else Text.lower c == m
  | .range first last, c =>
    match folding with
    | .exact => between first last c
    | .ascii =>
      let low := Text.asciiLower c
      between first last low || (between 0x61 0x7A low && between first last (low - 0x20))
        || holdsEitherCase first last low
    | .full =>
      (Text.caseVariants c).any (fun v => v ≤ basicPlaneEnd && between first last v)
        || holdsEitherCase first last (Text.lower c)

end Member

structure CharSet where
  members : List Member
  negated : Bool
  folding : Folding
  deriving DecidableEq, Repr

namespace CharSet

/-- Whether some member stands for `c`. A character that is the only member counts in its lower-case
form, so it stands for all its case variants on every plane. -/
def covers (s : CharSet) (c : CodePoint) : Bool :=
  match s.members with
  | [.single m] => (Member.single (s.folding.apply m)).covers s.folding c
  | members => members.any (·.covers s.folding c)

def contains (s : CharSet) (c : CodePoint) : Bool :=
  s.covers c != s.negated

/-- The set of one character and, under a folding, its case variants. -/
def char (folding : Folding) (c : CodePoint) : CharSet :=
  ⟨[.single c], false, folding⟩

/-- The union of sets that are not negated and fold case alike; equal members count once. -/
def union? : List CharSet → Option CharSet
  | [] => none
  | first :: others =>
    if (first :: others).all fun s => !s.negated && s.folding == first.folding then
      some ⟨((first :: others).flatMap (·.members)).eraseDups, false, first.folding⟩
    else none

/-- Every character, or every one but a line feed. -/
def dot (f : Flags) : CharSet :=
  if f.dotAll then ⟨[], true, .exact⟩ else ⟨[.single 0x0A], true, .exact⟩

end CharSet
end TokenRules.Pattern
