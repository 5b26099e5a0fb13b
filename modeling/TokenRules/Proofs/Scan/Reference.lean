import TokenRules.Proofs.Pattern.Opening
import TokenRules.Scan.RuleSource

/-! References to groups by number, as a source has them and as they are looked for. The search goes by the
characters alone. So it finds all references of the source, and besides them what stands in brackets or in
a comment and would be a reference elsewhere. -/
namespace TokenRules

namespace Pattern.Token

theorem ofText_cons (c : CodePoint) (plain : c ≠ Sign.backslash) (t : Text) :
    ofText (c :: t) = .plain c :: ofText t := by
  rw [ofText]
  · rintro rfl
    exact absurd rfl plain
  · intro c' rest same
    exact absurd same plain

/-- Only an escape that breaks off would go on into the text that follows. -/
theorem ofText_append {s : Text} (whole : dangling ∉ ofText s) (t : Text) :
    ofText (s ++ t) = ofText s ++ ofText t := by
  fun_induction ofText s with
  | case1 => rfl
  | case2 => simp at whole
  | case3 c rest ih =>
    simp only [List.mem_cons, reduceCtorEq, false_or] at whole
    simp [ofText, ih whole]
  | case4 c rest noEnd noEscape ih =>
    simp only [List.mem_cons, reduceCtorEq, false_or] at whole
    have plain : c ≠ Sign.backslash := by
      rintro rfl
      cases rest with
      | nil => exact noEnd rfl rfl
      | cons d rest => exact noEscape d rest rfl rfl
    rw [List.cons_append, ofText_cons c plain, ih whole, List.cons_append]

theorem ofText_plain {s : Text} (plain : Sign.backslash ∉ s) : ofText s = s.map .plain := by
  induction s with
  | nil => rfl
  | cons c s ih =>
    simp only [List.mem_cons, not_or] at plain
    rw [ofText_cons c (Ne.symm plain.1), ih plain.2, List.map_cons]

theorem ofText_plain_append {s : Text} (plain : Sign.backslash ∉ s) (t : Text) :
    ofText (s ++ t) = s.map .plain ++ ofText t := by
  rw [ofText_append (by simp [ofText_plain plain]), ofText_plain plain]

/-- A plain token is a character that starts the text. -/
theorem ofText_eq_cons (same : ofText s = .plain c :: ts) : ∃ rest, s = c :: rest ∧ ofText rest = ts := by
  unfold ofText at same
  split at same
  · contradiction
  · simp at same
  · simp at same
  · obtain ⟨⟨⟩, rfl⟩ := List.cons.inj same
    exact ⟨_, rfl, rfl⟩

theorem ofText_eq_append {letters : Text} (same : ofText s = letters.map .plain ++ ts) :
    ∃ rest, s = letters ++ rest ∧ ofText rest = ts := by
  induction letters generalizing s with
  | nil => exact ⟨s, rfl, same⟩
  | cons c letters ih =>
    obtain ⟨s', rfl, later⟩ := ofText_eq_cons same
    obtain ⟨rest, rfl, after⟩ := ih later
    exact ⟨rest, rfl, after⟩

end Pattern.Token

namespace Pattern

/-- What a reader takes for a reference to a group by its number, if a part starts there. -/
def StartsReference (ts : List Token) : Prop :=
  ∃ c rest f index after, ts = .escaped c :: rest ∧ Text.isAsciiDigit c ∧ c ≠ 0x30 ∧
    Reader.reference f c rest = .ok (.numberedReference index, after)

theorem numbered_iff_suffix : Numbered ts ↔ ∃ us, us <:+ ts ∧ StartsReference us := by
  constructor
  · rintro ⟨c, rest, f, index, after, suffix, found⟩
    exact ⟨_, suffix, c, rest, f, index, after, rfl, found⟩
  · rintro ⟨_, suffix, c, rest, f, index, after, rfl, found⟩
    exact ⟨c, rest, f, index, after, suffix, found⟩

theorem numbered_cons : Numbered (t :: ts) ↔ StartsReference (t :: ts) ∨ Numbered ts := by
  simp only [numbered_iff_suffix, List.suffix_cons_iff, or_and_right, exists_or, exists_eq_left]

/-- Whether three octal digits come next, the first of which is known. -/
def octalAhead (c : CodePoint) : List Token → Bool
  | .plain d :: .plain e :: _ => [c, d, e].all Escape.isOctalDigit
  | _ => false

end Pattern

namespace RulePattern
open Pattern

theorem octal_range {c : CodePoint} :
    Escape.isOctalDigit c = true ↔ (0x30 : Nat) ≤ c ∧ (c : Nat) ≤ 0x37 := by
  simp [Escape.isOctalDigit]

theorem digit_range {c : CodePoint} :
    Text.isAsciiDigit c = true ↔ (0x30 : Nat) ≤ c ∧ (c : Nat) ≤ 0x39 := by
  simp [Text.isAsciiDigit]

theorem octal_ascii {c : CodePoint} (octal : Escape.isOctalDigit c) :
    Text.isAsciiDigit c ∧ c ≠ Sign.backslash := by
  rw [octal_range] at octal
  refine ⟨digit_range.mpr ⟨octal.1, Nat.le_trans octal.2 (by decide)⟩, ?_⟩
  rintro rfl
  exact absurd octal.2 (by decide)

theorem octalAhead_text {rest : Text} (octal : octalAhead c (Token.ofText rest)) :
    ∃ d e rest', rest = d :: e :: rest' ∧ Escape.isOctalDigit c ∧ Escape.isOctalDigit d ∧
      Escape.isOctalDigit e := by
  unfold octalAhead at octal
  split at octal
  · next d e ts same =>
    obtain ⟨after, rfl, later⟩ := Token.ofText_eq_cons same
    obtain ⟨rest', rfl, -⟩ := Token.ofText_eq_cons later
    exact ⟨d, e, rest', rfl, by simpa using octal⟩
  · contradiction

/-- A backslash and a digit are a reference unless they start an octal number. -/
theorem reference_of_not_octal (ahead : octalAhead c ts = false) :
    ∃ index after, ∀ f, Reader.reference f c ts = .ok (.numberedReference index, after) := by
  match ts with
  | [] | .escaped _ :: _ | .dangling :: _ => exact ⟨_, _, fun f => rfl⟩
  | [.plain d] | .plain d :: .escaped _ :: _ | .plain d :: .dangling :: _ =>
    simp only [Reader.reference]
    cases Text.isAsciiDigit d <;> exact ⟨_, _, fun f => rfl⟩
  | .plain d :: .plain e :: rest =>
    rw [octalAhead] at ahead
    simp only [Reader.reference, ahead]
    cases Text.isAsciiDigit d <;> exact ⟨_, _, fun f => rfl⟩

theorem not_octal_of_reference (refers : Reader.reference f c ts = .ok (.numberedReference index, after)) :
    octalAhead c ts = false := by
  unfold octalAhead
  split
  · next d e rest =>
    refine eq_false_of_ne_true fun octal => ?_
    have digit : Text.isAsciiDigit d = true := by
      simp only [List.all_cons, Bool.and_eq_true] at octal
      exact (octal_ascii octal.2.1).1
    simp only [Reader.reference, digit, octal, Except.map, Part.atom] at refers
    cases value : Escape.octal [c, d, e] rest <;> simp [value] at refers
  · rfl

/-- A source is refused for a digit where the reader refers to a group. -/
theorem refersToGroup_iff {c : CodePoint} {rest : Text} : refersToGroup c rest ↔
    ((0x31 : Nat) ≤ c ∧ (c : Nat) ≤ 0x39) ∧ octalAhead c (Token.ofText rest) = false := by
  have few : rest.length < 2 → octalAhead c (Token.ofText rest) = false := by
    intro short
    refine eq_false_of_ne_true fun octal => ?_
    obtain ⟨d, e, rest', rfl, -⟩ := octalAhead_text octal
    simp only [List.length_cons] at short
    omega
  match rest with
  | [] | [_] => simp [refersToGroup, few (by simp)]
  | d :: e :: rest =>
    have value : octalAhead c (Token.ofText (d :: e :: rest)) =
        (Escape.isOctalDigit c && (Escape.isOctalDigit d && Escape.isOctalDigit e)) := by
      by_cases both : Escape.isOctalDigit d ∧ Escape.isOctalDigit e
      · rw [Token.ofText_cons d (octal_ascii both.1).2, Token.ofText_cons e (octal_ascii both.2).2]
        simp [octalAhead, both]
      · refine (eq_false_of_ne_true fun octal => ?_).trans (by simpa using fun _ => both)
        obtain ⟨_, _, _, same, -, first, second⟩ := octalAhead_text octal
        obtain ⟨rfl, rfl, -⟩ := by simpa using same
        exact both ⟨first, second⟩
    have octal : Escape.isOctalDigit c = false ↔ ¬ ((0x30 : Nat) ≤ c ∧ (c : Nat) ≤ 0x37) := by
      rw [← octal_range, Bool.not_eq_true]
    have range : ((0x31 : Nat) ≤ c ∧ (c : Nat) ≤ 0x37) ∨ c = (0x38 : Nat) ∨ c = (0x39 : Nat) ↔
        (0x31 : Nat) ≤ c ∧ (c : Nat) ≤ 0x39 := by
      grind
    rw [value, refersToGroup]
    cases Escape.isOctalDigit d && Escape.isOctalDigit e with
    | false => simpa [or_assoc] using range
    | true =>
      simp [octal]
      grind

theorem startsReference_iff {c : CodePoint} : StartsReference (.escaped c :: ts) ↔
    ((0x31 : Nat) ≤ c ∧ (c : Nat) ≤ 0x39) ∧ octalAhead c ts = false := by
  constructor
  · rintro ⟨c, rest, f, index, after, same, digit, nonzero, refers⟩
    obtain ⟨⟨⟩, rfl⟩ := List.cons.inj same
    rw [digit_range] at digit
    exact ⟨⟨Nat.lt_of_le_of_ne digit.1 (Ne.symm nonzero), digit.2⟩, not_octal_of_reference refers⟩
  · rintro ⟨⟨low, high⟩, ahead⟩
    obtain ⟨index, after, refers⟩ := reference_of_not_octal ahead
    refine ⟨c, ts, {}, index, after, rfl, digit_range.mpr ⟨Nat.le_of_succ_le low, high⟩, ?_, refers {}⟩
    rintro rfl
    exact absurd low (by decide)

/-- The search finds each place where a reference could start, and no others. -/
theorem hasNumberedReference_iff (source : Text) :
    hasNumberedReference source ↔ Numbered (Token.ofText source) := by
  fun_induction hasNumberedReference source with
  | case1 => simp [Numbered, Token.ofText]
  | case2 c rest ih =>
    rw [Token.ofText, numbered_cons, startsReference_iff, ← refersToGroup_iff, ← ih, Bool.or_eq_true]
  | case3 c rest other ih =>
    have none : ∀ t ts, (∀ c, t ≠ .escaped c) → ¬ StartsReference (t :: ts) := by
      rintro t ts plain ⟨c, _, _, _, _, same, -⟩
      exact plain c (List.cons.inj same).1
    by_cases plain : c = Sign.backslash
    · subst plain
      cases rest with
      | nil =>
        have broken : Token.ofText [Sign.backslash] = [.dangling] := rfl
        rw [ih, broken, numbered_cons]
        simp [none, Token.ofText]
      | cons d rest => exact absurd rfl (other d rest rfl)
    · rw [Token.ofText_cons c plain, numbered_cons, ih]
      simp [none]

/-- A reference starts wherever a part does that looks like one, whatever the flags. -/
theorem part_of_startsReference [CharacterNames] (starts : StartsReference (t :: ts)) (f : Flags) :
    ∃ index after, Reader.part f t ts = .ok (.numberedReference index, after) := by
  obtain ⟨c, rest, _, _, _, same, digit, nonzero, refers⟩ := starts
  obtain ⟨rfl, rfl⟩ := List.cons.inj same
  obtain ⟨index, after, refers⟩ := reference_of_not_octal (not_octal_of_reference refers)
  refine ⟨index, after, ?_⟩
  have anchor : Reader.anchor? f c = none := by
    unfold Reader.anchor?
    split <;> first | rfl | exact absurd digit (by decide)
  simp only [Reader.part, Reader.escape, anchor, beq_iff_eq, nonzero, if_false, digit, if_true, refers]

/-- A source that is accepted refers to no group by its number. -/
theorem unnumbered_of_accepted {source : Text} (accepted : hasNumberedReference source = false) :
    ¬ Numbered (Token.ofText source) := by
  rw [← hasNumberedReference_iff, accepted]
  exact Bool.false_ne_true

end RulePattern
end TokenRules
