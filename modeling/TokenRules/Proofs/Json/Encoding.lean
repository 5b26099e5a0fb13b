import TokenRules.Proofs.Json.Decoding
import TokenRules.Proofs.Json.Parsing

/-! Encoded strings. Each character is written as one part of a string literal, so that decoding gives the
characters back one by one, and the string rule takes the literal to its last mark and no further. -/
namespace TokenRules.Json

open Pattern

namespace StringPart

/-- The part that a character is written as. -/
def ofChar (c : CodePoint) : StringPart :=
  if c == Sign.quotation || c == Sign.backslash then .short c c
  else if c < 0x20 then
    match StringLiteral.controlLetter? c with
    | some letter => .short letter c
    | none => .unit (Text.paddedHex 4 c)
  else .bare c

theorem text_ofChar (c : CodePoint) : (ofChar c).text = StringLiteral.encodeChar c := by
  unfold ofChar StringLiteral.encodeChar
  split
  · rfl
  · split
    · cases StringLiteral.controlLetter? c <;> rfl
    · rfl

/-- The four digits of a control character. -/
theorem hexNumber_control (control : c < 0x20) : (Text.paddedHex 4 c).length = 4 ∧
    (∀ d ∈ Text.paddedHex 4 c, Text.isHexDigit d) ∧ Text.hexNumber (Text.paddedHex 4 c) = c := by
  have digits : ∀ c < 0x20, (Text.paddedHex 4 c).length = 4 ∧
      (∀ d ∈ Text.paddedHex 4 c, Text.isHexDigit d) ∧ Text.hexNumber (Text.paddedHex 4 c) = c := by
    decide
  exact digits c control

theorem controlLetter_short (control : c < 0x20) (found : StringLiteral.controlLetter? c = some letter) :
    (letter, c) ∈ shortEscapes := by
  have letters : ∀ c < 0x20, ∀ letter ∈ StringLiteral.controlLetter? c, (letter, c) ∈ shortEscapes := by
    decide
  exact letters c control letter found

theorem wellFormed_ofChar {D : Dialect} (bare : 0x20 ≤ c → D.bare c) : (ofChar c).WellFormed D := by
  unfold ofChar
  split
  · next mark =>
    rcases Bool.or_eq_true_iff.mp mark with same | same
    all_goals
      obtain rfl := beq_iff_eq.mp same
      show (_, _) ∈ shortEscapes
      decide
  · next noMark =>
    split
    · next control =>
      split
      · next found => exact controlLetter_short control found
      · obtain ⟨four, hex, -⟩ := hexNumber_control control
        exact ⟨four, hex⟩
    · next printable =>
      simp only [Bool.or_eq_true, beq_iff_eq, not_or] at noMark
      exact ⟨bare (Nat.le_of_not_lt printable), noMark⟩

/-- A unit that is no high surrogate stands alone, whatever comes after it. -/
theorem characters_unit (low : StringLiteral.isHighSurrogate (Text.hexNumber digits) = false)
    (parts : List StringPart) :
    characters (.unit digits :: parts) = Text.hexNumber digits :: characters parts := by
  rw [characters.eq_def]
  split <;> simp_all

theorem characters_ofChar (c : CodePoint) (parts : List StringPart) :
    characters (ofChar c :: parts) = c :: characters parts := by
  unfold ofChar
  split
  · rfl
  · split
    · next control =>
      split
      · rfl
      · obtain ⟨-, -, value⟩ := hexNumber_control control
        have low : StringLiteral.isHighSurrogate (Text.hexNumber (Text.paddedHex 4 c)) = false := by
          rw [value, StringLiteral.isHighSurrogate, Bool.and_eq_false_iff, decide_eq_false_iff_not]
          exact .inl (Nat.not_le_of_lt (Nat.lt_trans control (by decide)))
        rw [characters_unit low, value]
    · rfl

theorem characters_map (s : Text) : characters (s.map ofChar) = s := by
  induction s with
  | nil => rfl
  | cons c s ih => rw [List.map_cons, characters_ofChar, ih]

end StringPart

/-- An encoded string is a quotation of it. -/
theorem Dialect.quoted_enquote {D : Dialect} (bare : ∀ c ∈ s, 0x20 ≤ c → D.bare c) :
    D.Quoted (StringLiteral.enquote s) s := by
  have formed : ∀ part ∈ s.map StringPart.ofChar, part.WellFormed D :=
    List.forall_mem_map.mpr fun c member => StringPart.wellFormed_ofChar (bare c member)
  have spelled := Dialect.Quoted.spelled formed
  have text : (s.map StringPart.ofChar).flatMap StringPart.text = s.flatMap StringLiteral.encodeChar := by
    rw [List.flatMap_map]
    exact congrArg (List.flatMap · s) (funext StringPart.text_ofChar)
  rwa [StringPart.characters_map, text] at spelled

namespace StringLiteral

theorem lexeme?_enquote (s t : Text) : lexeme? (enquote s ++ t) = some (4, enquote s) := by
  have spelled : Dialect.lenient.Quoted (enquote s) s := Dialect.quoted_enquote fun _ _ _ => trivial
  exact lexeme?_eq_some.mpr ⟨_, rfl, spelled.taken t⟩

/-- No part of an encoded string holds a control character. -/
theorem encodeChar_printable (c : CodePoint) : ∀ d ∈ encodeChar c, 0x20 ≤ d := by
  have escaped : ∀ c < 0x20, ∀ d ∈ encodeChar c, 0x20 ≤ d := by
    decide
  by_cases control : c < 0x20
  · exact escaped c control
  · have printable : 0x20 ≤ c := Nat.le_of_not_lt control
    intro d member
    unfold encodeChar at member
    split at member
    · simp only [List.mem_cons, List.not_mem_nil, or_false] at member
      obtain rfl | rfl := member
      · decide
      · exact printable
    · obtain rfl := List.mem_singleton.mp member
      exact printable

theorem enquote_body (s : Text) : ∃ body, enquote s = Sign.quotation :: (body ++ [Sign.quotation]) ∧
    QuotedBody body ∧ ∀ c ∈ body, 0x20 ≤ c := by
  have taken : quoted (enquote s ++ []) = some (enquote s) :=
    (Dialect.quoted_enquote (D := .lenient) fun _ _ _ => trivial).taken []
  obtain ⟨body, same, shape⟩ := quoted_body taken
  refine ⟨body, same, shape, ?_⟩
  have body : s.flatMap encodeChar = body := by
    rw [enquote, List.cons_append] at same
    exact List.append_cancel_right (List.cons.inj same).2
  intro c member
  rw [← body] at member
  obtain ⟨d, -, member⟩ := List.mem_flatMap.mp member
  exact encodeChar_printable d c member

/-- Decoding gives back what was encoded, at any place, and so does parsing: the string rule takes the whole
literal as one token, whatever stands behind it. So no two strings are encoded alike, and between the marks
of a literal there are no control characters and no marks but escaped ones. -/
theorem enquote_undone (s : Text) :
    (∀ start, dequote (enquote s) start = .ok s) ∧
    parse (enquote s) = .ok (.string s) ∧
    (∃ m, (engine.tokens (enquote s)).1 = [m] ∧ m.text = enquote s ∧
      m.lastGroup = some (Engine.groupName 4)) ∧
    (∀ p t, Alone 4 p → ∃ m, p.matchAt (.start (enquote s ++ t)) = some m ∧ m.text = enquote s) ∧
    (∀ t, enquote t = enquote s → t = s) ∧
    ∃ body, enquote s = Sign.quotation :: (body ++ [Sign.quotation]) ∧
      QuotedBody body ∧ ∀ c ∈ body, 0x20 ≤ c := by
  have spelled : ∀ s, Dialect.lenient.Quoted (enquote s) s :=
    fun s => Dialect.quoted_enquote fun _ _ _ => trivial
  have undone : ∀ s start, dequote (enquote s) start = .ok s := fun s => (spelled s).dequote
  refine ⟨undone s, ?_, ?_, ?_, ?_, enquote_body s⟩
  · have nothing : Dialect.lenient.Blanks [] := by simp [Dialect.Blanks]
    have padded := Dialect.Padded.padded nothing (.scalar (.string (spelled s))) nothing
    rw [List.nil_append, List.append_nil] at padded
    rw [padded.parse Dialect.lenient_narrow fun _ fits => fits]
    simp only [Value.merged]
  · have found := lexeme?_enquote s []
    have tiles := tile_some found
    rw [tile_nil, List.append_nil] at tiles
    rw [List.append_nil] at found
    have tokens : (engine.tokens (enquote s)).1 = matchesFrom (.start (enquote s)) (tile (enquote s)).1 :=
      (scanning_start _).tokens.1
    rw [tokens, tiles]
    exact ⟨_, rfl, token_text found _, rfl⟩
  · intro p t rule
    have found := lexeme?_enquote s t
    exact ⟨_, (rule.lexeme _).mpr ⟨_, found, rfl⟩, token_text found _⟩
  · intro t same
    have decoded := undone t 0
    rw [same, undone s] at decoded
    exact (Except.ok.inj decoded).symm

/-- A mark, a backslash before a `u`, both halves of a pair, a null and a line feed. -/
def awkward : Text := [0x22, 0x5C, 0x75, 0xD83D, 0xDE00, 0x00, 0x0A]

theorem enquote_undone_awkward :
    (∃ p m, Alone 4 p ∧ p.matchAt (.start (enquote awkward ++ [Sign.quotation])) = some m ∧
      m.text = enquote awkward) ∧
    dequote (enquote awkward) 7 = .ok awkward ∧ parse (enquote awkward) = .ok (.string awkward) := by
  obtain ⟨decoded, parsed, -, matched, -⟩ := enquote_undone awkward
  obtain ⟨p, rule⟩ := alone_exists (i := 4) (by decide)
  obtain ⟨m, taken, whole⟩ := matched p [Sign.quotation] rule
  exact ⟨⟨p, m, rule, taken, whole⟩, decoded 7, parsed⟩

end StringLiteral
end TokenRules.Json
