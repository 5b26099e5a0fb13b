import TokenRules.Text.LetterCase
import TokenRules.Text.Sign

/-! The names of characters, by which a pattern may ask for them. Which names there are is left open, but for
how they are spelled: with letters, digits, spaces and hyphens. -/
namespace TokenRules

/-- A sign that a name may have in it. -/
def Text.isNameSign (c : CodePoint) : Bool :=
  (0x41 ≤ c && c ≤ 0x5A) || (0x61 ≤ c && c ≤ 0x7A) || (0x30 ≤ c && c ≤ 0x39) || c == Sign.space
    || c == Sign.hyphen

/-- A table of the names of characters. -/
class CharacterNames where
  codePoint? : Text → Option CodePoint
  spelled : codePoint? name = some c → name ≠ [] ∧ ∀ x ∈ name, Text.isNameSign x

namespace CharacterNames

/-- The names of the signs and digits of ASCII in lower case, row by row. -/
def asciiRows : List (CodePoint × List String) :=
  [(0x20, ["space", "exclamation mark", "quotation mark", "number sign", "dollar sign", "percent sign",
    "ampersand", "apostrophe", "left parenthesis", "right parenthesis", "asterisk", "plus sign", "comma",
    "hyphen-minus", "full stop", "solidus", "digit zero", "digit one", "digit two", "digit three",
    "digit four", "digit five", "digit six", "digit seven", "digit eight", "digit nine", "colon",
    "semicolon", "less-than sign", "equals sign", "greater-than sign", "question mark", "commercial at"]),
   (0x5B, ["left square bracket", "reverse solidus", "right square bracket", "circumflex accent",
    "low line", "grave accent"]),
   (0x7B, ["left curly bracket", "vertical line", "right curly bracket", "tilde"])]

/-- The names of all characters of ASCII but the controls. -/
def asciiNames : List (Text × CodePoint) :=
  (asciiRows.flatMap fun (first, names) => (names.map Text.ofString).zipIdx first) ++
    (List.range 26).flatMap fun i =>
      [(Text.ofString "latin capital letter " ++ [0x61 + i], 0x41 + i),
       (Text.ofString "latin small letter " ++ [0x61 + i], 0x61 + i)]

theorem asciiNames_spelled : ∀ entry ∈ asciiNames, entry.1 ≠ [] ∧ ∀ x ∈ entry.1, Text.isNameSign x := by
  have spelled : (asciiNames.all fun entry => !entry.1.isEmpty && entry.1.all Text.isNameSign) = true := by
    decide +kernel
  simpa using spelled

/-- Letters are signs of a name in either case. -/
theorem isNameSign_of_lower (lower : Text.isNameSign (Text.asciiLower c)) : Text.isNameSign c := by
  unfold Text.asciiLower at lower
  split at lower
  · next capital => simp [Text.isNameSign, capital]
  · exact lower

/-- The names of ASCII, in any case, where there are no others at hand. -/
instance ascii : CharacterNames where
  codePoint? name := asciiNames.lookup (name.map Text.asciiLower)
  spelled {name c} found := by
    obtain ⟨before, after, names, -⟩ := List.lookup_eq_some_iff.mp found
    have member : (name.map Text.asciiLower, c) ∈ asciiNames :=
      names ▸ List.mem_append_right before List.mem_cons_self
    obtain ⟨nonempty, signs⟩ := asciiNames_spelled _ member
    refine ⟨fun empty => nonempty (by rw [empty]; rfl), fun x inside => ?_⟩
    exact isNameSign_of_lower (signs _ (List.mem_map_of_mem inside))

end CharacterNames

example : CharacterNames.codePoint? (Text.ofString "Digit One") = some 0x31 := by decide +kernel

end TokenRules
