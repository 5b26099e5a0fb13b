import TokenRules.Proofs.Json.Number
import TokenRules.Proofs.Json.Quotation
import TokenRules.Proofs.Json.Tiling

/-! The tokens of a dialect: the rule that each belongs to, its text and its event. A token that the
engine finds is one of a dialect if it has no characters but the dialect's. -/
namespace TokenRules.Json

open Pattern

namespace Dialect

/-- A token at an offset: the number of its rule, its text and its event. -/
inductive Token (D : Dialect) (offset : Nat) : Nat → Text → Event → Prop
  | null : Token D offset 0 (Text.ofString "null") (.value .null)
  | affirmed : Token D offset 1 (Text.ofString "true") (.value (.bool true))
  | denied : Token D offset 2 (Text.ofString "false") (.value (.bool false))
  | number {n : NumberLiteral} : n.WellFormed D → (n.IsInteger → D.fits n.whole.length) →
      Token D offset 3 n.text (.value n.value)
  | string : D.Quoted w s → Token D offset 4 w (.value (.string s))
  | openArray : Token D offset 5 [Sign.leftBracket] (.openArray offset)
  | openObject : Token D offset 6 [Sign.leftBrace] (.openObject offset)
  | closeArray : Token D offset 7 [Sign.rightBracket] .closeArray
  | closeObject : Token D offset 8 [Sign.rightBrace] .closeObject
  | comma : Token D offset 9 [Sign.comma] .comma
  | colon : Token D offset 10 [Sign.colon] .colon

/-- Its digits and blanks are digits and blanks of Unicode, and those of ASCII are among them. -/
structure Narrow (D : Dialect) : Prop where
  digit : ∀ c, D.digit c → Text.isDigit c
  blank : ∀ c, D.blank c → Text.isBlank c
  ascii : ∀ c, 0x30 ≤ c → c ≤ 0x39 → D.digit c
  printable : ∀ c, 0x20 ≤ c → c < 0x7F → D.bare c

/-- Whether all characters of a token are those of the dialect. -/
def Plain (D : Dialect) (i : Nat) (w : Text) : Prop :=
  ∀ c ∈ w, if i = 4 then D.bare c
    else (Text.isDigit c → D.digit c) ∧ (Text.isBlank c → D.blank c)

theorem standard_narrow : standard.Narrow where
  digit _ digit := isDigit_of_ascii digit.1 digit.2
  blank c blank := by
    rcases blank with rfl | rfl | rfl | rfl <;> decide
  ascii _ least greatest := ⟨least, greatest⟩
  printable _ least less := ⟨least, Nat.le_trans (Nat.le_of_lt less) (by decide)⟩

theorem bounded_narrow : bounded.Narrow :=
  ⟨standard_narrow.digit, standard_narrow.blank, standard_narrow.ascii, standard_narrow.printable⟩

theorem lenient_narrow : lenient.Narrow where
  digit _ digit := digit
  blank _ blank := blank
  ascii _ := isDigit_of_ascii
  printable _ _ _ := trivial

end Dialect

theorem not_digit_of_blank (blank : Text.isBlank c) : Text.isDigit c = false := by
  have table : ∀ range ∈ Text.blankRanges, ∀ k ≤ range.2 - range.1,
      Text.isDigit (range.1 + k) = false := by decide
  obtain ⟨range, member, inside⟩ := List.any_eq_true.mp blank
  obtain ⟨least, greatest⟩ : range.1 ≤ c ∧ c ≤ range.2 := by simpa using inside
  have solid := table range member (c - range.1) (Nat.sub_le_sub_right greatest _)
  rwa [Nat.add_sub_cancel' least] at solid

theorem hex_printable (hex : Text.isHexDigit c) : 0x20 ≤ c ∧ c < 0x7F := by
  have within : ∀ least greatest : Nat, 0x20 ≤ least → greatest < 0x7F → least ≤ c ∧ c ≤ greatest →
      0x20 ≤ c ∧ c < 0x7F := fun _ _ low high inside =>
    ⟨Nat.le_trans low inside.1, Nat.lt_of_le_of_lt inside.2 high⟩
  simp only [Text.isHexDigit, Text.hexValue?, Bool.and_eq_true, decide_eq_true_eq] at hex
  split at hex
  · next inside => exact within _ _ (by decide) (by decide) inside
  · split at hex
    · next inside => exact within _ _ (by decide) (by decide) inside
    · split at hex
      · next inside => exact within _ _ (by decide) (by decide) inside
      · contradiction

theorem endsNumber_of_blank (blank : Text.isBlank c) : EndsNumber c := by
  refine ⟨not_digit_of_blank blank, ?_, ?_, ?_⟩
  · rintro rfl
    contradiction
  · rintro rfl
    contradiction
  · rintro rfl
    contradiction

namespace Dialect

variable {D : Dialect}

theorem Token.rule_lt (token : D.Token offset i w e) : i < 11 := by
  cases token with
  | _ => decide

/-- The engine finds a token at its place; a number must not go on after it. -/
theorem Token.found (narrow : D.Narrow) (token : D.Token offset i w e)
    (ends : i = 3 → Ahead EndsNumber t) : lexeme? (w ++ t) = some (i, w) := by
  have words : ∀ w, word w (w ++ t) = some w := fun w => if_pos (List.prefix_append w t)
  rw [lexeme?_eq_some]
  cases token with
  | number formed fits => exact ⟨_, rfl, formed.taken narrow.digit (ends rfl)⟩
  | string spelled => exact ⟨_, rfl, spelled.taken t⟩
  | _ => exact ⟨_, rfl, words _⟩

theorem Token.readEvent (narrow : D.Narrow) (fits : ∀ n, D.fits n → n ≤ Decimal.maxIntegerDigits)
    (token : D.Token offset i w e) : readEvent offset i w = .ok (some e) := by
  cases token with
  | number formed short =>
    have read := (formed.readNumber_ok narrow.digit).mpr ⟨fun integer => fits _ (short integer), rfl⟩
    rw [Json.readEvent, read]
  | string spelled => rw [Json.readEvent, spelled.dequote offset]
  | _ => rfl

/-- The characters of a number are digits of the dialect, or neither digits nor blanks. -/
theorem number_plain {n : NumberLiteral} (narrow : D.Narrow) (formed : n.WellFormed D) :
    ∀ c ∈ n.text, D.digit c ∨ Text.isDigit c = false ∧ Text.isBlank c = false := by
  have sign : ∀ c ∈ n.sign, Text.isDigit c = false ∧ Text.isBlank c = false := by
    rw [NumberLiteral.sign]
    cases n.negative <;> decide
  have whole : ∀ c ∈ n.whole, D.digit c := by
    rcases formed.whole with zero | ⟨x, rest, same, least, greatest, others⟩
    · rw [zero]
      exact List.forall_mem_singleton.mpr (narrow.ascii _ (Nat.le_refl _) (by decide))
    · rw [same]
      exact List.forall_mem_cons.mpr ⟨narrow.ascii _ (Nat.le_of_succ_le least) greatest, others⟩
  have fraction : ∀ c ∈ n.fractionText,
      D.digit c ∨ Text.isDigit c = false ∧ Text.isBlank c = false := by
    cases here : n.fraction with
    | none => simp [NumberLiteral.fractionText, here]
    | some f =>
      simp only [NumberLiteral.fractionText, here, Option.elim_some]
      exact List.forall_mem_cons.mpr
        ⟨.inr (by decide), fun c member => .inl ((formed.fraction f here).2 c member)⟩
  have exponent : ∀ c ∈ n.exponentText,
      D.digit c ∨ Text.isDigit c = false ∧ Text.isBlank c = false := by
    cases here : n.exponent with
    | none => simp [NumberLiteral.exponentText, here]
    | some e =>
      obtain ⟨mark, signs, -, digits⟩ := formed.exponent e here
      simp only [NumberLiteral.exponentText, here, Option.elim_some, Exponent.text]
      refine List.forall_mem_cons.mpr ⟨.inr ?_, fun c member => ?_⟩
      · rcases mark with mark | mark
        · rw [mark]
          decide
        · rw [mark]
          decide
      · rcases List.mem_append.mp member with member | member
        · rcases signs c (Option.mem_toList.mp member) with rfl | rfl
          · exact .inr (by decide)
          · exact .inr (by decide)
        · exact .inl (digits c member)
  intro c member
  simp only [NumberLiteral.text, List.mem_append] at member
  rcases member with member | member | member | member
  · exact .inr (sign c member)
  · exact .inl (whole c member)
  · exact fraction c member
  · exact exponent c member

/-- The characters of a string are bare characters of the dialect, or printable ones of ASCII. -/
theorem Quoted.plain (narrow : D.Narrow) (spelled : D.Quoted w s) : ∀ c ∈ w, D.bare c := by
  obtain ⟨formed⟩ := spelled
  have quotation : D.bare Sign.quotation := narrow.printable _ (by decide) (by decide)
  have backslash : D.bare Sign.backslash := narrow.printable _ (by decide) (by decide)
  intro c member
  simp only [List.mem_cons, List.mem_append, List.not_mem_nil, or_false, List.mem_flatMap] at member
  rcases member with rfl | ⟨part, among, member⟩ | rfl
  · exact quotation
  · have formed := formed part among
    cases part with
    | bare d =>
      obtain rfl : c = d := by simpa [StringPart.text] using member
      exact formed.1
    | short letter d =>
      have table : ∀ escape ∈ StringPart.shortEscapes, 0x20 ≤ escape.1 ∧ escape.1 < 0x7F := by
        decide
      have same : c = Sign.backslash ∨ c = letter := by simpa [StringPart.text] using member
      rcases same with rfl | rfl
      · exact backslash
      · exact narrow.printable c (table _ formed).1 (table _ formed).2
    | unit digits =>
      have same : c = Sign.backslash ∨ c = 0x75 ∨ c ∈ digits := by
        simpa [StringPart.text] using member
      rcases same with rfl | rfl | member
      · exact backslash
      · exact narrow.printable _ (by decide) (by decide)
      · obtain ⟨least, less⟩ := hex_printable (formed.2 c member)
        exact narrow.printable c least less
  · exact quotation

theorem Token.plain (narrow : D.Narrow) (token : D.Token offset i w e) : D.Plain i w := by
  cases token with
  | number formed =>
    intro c member
    rw [if_neg (by decide)]
    rcases number_plain narrow formed c member with digit | ⟨noDigit, noBlank⟩
    · refine ⟨fun _ => digit, fun blank => ?_⟩
      have noDigit := not_digit_of_blank blank
      rw [narrow.digit c digit] at noDigit
      contradiction
    · simp [noDigit, noBlank]
  | string spelled =>
    intro c member
    rw [if_pos rfl]
    exact spelled.plain narrow c member
  | _ =>
    have signs : ∀ i, i ≠ 4 → ∀ w, (∀ c ∈ w, Text.isDigit c = false ∧ Text.isBlank c = false) →
        D.Plain i w := by
      intro i other w neither c member
      rw [if_neg other]
      simp [neither c member]
    exact signs _ (by decide) _ (by decide)

/-- A token of the engine that has an event is one of the dialect, if its characters are. -/
theorem token_sound (fits : ∀ n ≤ Decimal.maxIntegerDigits, D.fits n)
    (narrow : D.Narrow) (found : lexeme? t = some (i, w))
    (read : Json.readEvent offset i w = .ok (some e)) (plain : D.Plain i w) :
    D.Token offset i w e := by
  cases readEvent_readAs read with
  | number number =>
    obtain ⟨n, rfl, formed⟩ :=
      number_sound (lexeme?_front found rfl) fun c member => (plain c member).1
    obtain ⟨short, rfl⟩ := (formed.readNumber_ok narrow.digit).mp number
    exact .number formed fun integer => fits _ (short integer)
  | string decoded => exact .string (quoted_sound (lexeme?_front found rfl) decoded plain)
  | _ =>
    obtain rfl := word_eq_some (lexeme?_front found rfl)
    constructor

/-- The tokens without an event are blanks. -/
theorem blank_sound (found : lexeme? t = some (i, w)) (read : Json.readEvent offset i w = .ok none)
    (plain : D.Plain i w) : D.Blanks w := by
  cases readEvent_readAs read with
  | @blank i =>
    obtain rfl : i = 0 := Nat.lt_one_iff.mp (Nat.lt_of_add_lt_add_right (lexeme?_inside found))
    obtain ⟨-, blank⟩ := several_eq_some (lexeme?_front found rfl)
    exact fun c member => (plain c member).2 (blank c member)

end Dialect
end TokenRules.Json
