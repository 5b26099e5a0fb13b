import TokenRules.Proofs.Json.Lexer
import TokenRules.Proofs.Json.Syntax

/-! String tokens against the grammar of strings: the string rule takes a quotation up to the mark that
closes it, and decoding gives the characters that its parts stand for. -/
namespace TokenRules.Json

open Pattern

namespace StringLiteral

theorem decode_bare (plain : c ≠ Sign.backslash) (p : Int) (t : Text) :
    decode p (c :: t) = (decode (p + 1) t).map (c :: ·) := by
  cases t with
  | nil => simp [decode, Except.map]
  | cons d t =>
    rw [decode]
    · cases decode (p + 1) (d :: t) <;> rfl
    · exact plain

theorem decode_escape (p : Int) (c : CodePoint) (rest : Text) :
    decode p (Sign.backslash :: c :: rest) = match piece c rest with
      | .decoded d length => (decode (p + 1 + length) (rest.drop (length - 1))).map (d :: ·)
      | .bad length => .error ⟨p, Sign.backslash :: (c :: rest).take length⟩ := by
  rw [decode]
  cases piece c rest with
  | bad length => rfl
  | decoded d length =>
    dsimp only
    cases decode (p + 1 + length) (rest.drop (length - 1)) <;> rfl

theorem shortEscape?_eq_some : shortEscape? letter = some c ↔
    (letter, c) ∈ StringPart.shortEscapes := by
  constructor
  · intro found
    unfold shortEscape? at found
    split at found
    case h_9 => contradiction
    all_goals
      obtain rfl := Option.some.inj found
      decide
  · intro member
    simp only [StringPart.shortEscapes, List.mem_cons, List.not_mem_nil, or_false] at member
    rcases member with same | same | same | same | same | same | same | same
    all_goals
      obtain ⟨rfl, rfl⟩ := Prod.mk.inj same
      rfl

theorem unit?_eq_some : unit? t = some n ↔ ∃ digits rest, t = digits ++ rest ∧
    digits.length = 4 ∧ (∀ c ∈ digits, Text.isHexDigit c) ∧ n = Text.hexNumber digits := by
  simp only [unit?]
  constructor
  · intro found
    split at found
    · next hex =>
      obtain ⟨length, all⟩ : (t.take 4).length = 4 ∧ ∀ c ∈ t.take 4, Text.isHexDigit c := by
        simpa only [Bool.and_eq_true, beq_iff_eq, List.all_eq_true] using hex
      exact ⟨t.take 4, t.drop 4, (List.take_append_drop 4 t).symm, length, all,
        (Option.some.inj found).symm⟩
    · contradiction
  · rintro ⟨digits, rest, rfl, length, all, rfl⟩
    have front : (digits ++ rest).take 4 = digits := by rw [← length, List.take_left]
    have hex : (digits.length == 4 && digits.all Text.isHexDigit) = true := by
      simpa only [Bool.and_eq_true, beq_iff_eq, List.all_eq_true] using ⟨length, all⟩
    rw [front, if_pos hex]

/-- An escape of a low surrogate. -/
theorem lowEscape?_eq_some : lowEscape? t = some low ↔ ∃ digits rest,
    t = Sign.backslash :: 0x75 :: (digits ++ rest) ∧ digits.length = 4 ∧
      (∀ c ∈ digits, Text.isHexDigit c) ∧ low = Text.hexNumber digits ∧ isLowSurrogate low := by
  constructor
  · intro found
    unfold lowEscape? at found
    split at found
    · next rest =>
      obtain ⟨unit, isLow⟩ := Option.filter_eq_some_iff.mp found
      obtain ⟨digits, rest', rfl, length, all, value⟩ := unit?_eq_some.mp unit
      exact ⟨digits, rest', rfl, length, all, value, isLow⟩
    · contradiction
  · rintro ⟨digits, rest, rfl, length, all, value, isLow⟩
    exact Option.filter_eq_some_iff.mpr
      ⟨unit?_eq_some.mpr ⟨digits, rest, rfl, length, all, value⟩, isLow⟩

theorem unit?_append (length : digits.length = 4) (all : ∀ c ∈ digits, Text.isHexDigit c) (t : Text) :
    unit? (digits ++ t) = some (Text.hexNumber digits) :=
  unit?_eq_some.mpr ⟨digits, t, rfl, length, all, rfl⟩

theorem decode_short (escape : (letter, c) ∈ StringPart.shortEscapes) (p : Int) (t : Text) :
    decode p (Sign.backslash :: letter :: t) = (decode (p + 2) t).map (c :: ·) := by
  have noUnit : (letter == 0x75) = false := by
    have table : ∀ escape ∈ StringPart.shortEscapes, escape.1 ≠ 0x75 := by decide
    rw [beq_eq_false_iff_ne]
    exact table _ escape
  have short : piece letter t = .decoded c 1 := by
    rw [piece, noUnit, shortEscape?_eq_some.mpr escape]
    rfl
  rw [decode_escape, short]
  simp [Int.add_assoc]

/-- A unit that is no high surrogate, or is not followed by a low one. -/
theorem decode_unit (length : digits.length = 4) (all : ∀ c ∈ digits, Text.isHexDigit c)
    (alone : isHighSurrogate (Text.hexNumber digits) → lowEscape? t = none) (p : Int) :
    decode p (Sign.backslash :: 0x75 :: (digits ++ t)) =
      (decode (p + 6) t).map (Text.hexNumber digits :: ·) := by
  have rest : (digits ++ t).drop 4 = t := by rw [← length, List.drop_left]
  have unit : piece 0x75 (digits ++ t) = .decoded (Text.hexNumber digits) 5 := by
    simp only [piece, unit?_append length all, rest]
    split
    · split
      · next high => rw [alone high]
      · rfl
    · contradiction
  rw [decode_escape, unit]
  simp [Int.add_assoc, rest]

theorem decode_pair (length : digits.length = 4) (all : ∀ c ∈ digits, Text.isHexDigit c)
    (length' : digits'.length = 4) (all' : ∀ c ∈ digits', Text.isHexDigit c)
    (high : isHighSurrogate (Text.hexNumber digits)) (low : isLowSurrogate (Text.hexNumber digits'))
    (p : Int) (t : Text) :
    decode p (Sign.backslash :: 0x75 :: (digits ++ Sign.backslash :: 0x75 :: (digits' ++ t))) =
      (decode (p + 12) t).map (combine (Text.hexNumber digits) (Text.hexNumber digits') :: ·) := by
  have first : ∀ u : Text, (digits ++ u).drop 4 = u := fun u => by rw [← length, List.drop_left]
  have rest : (digits ++ Sign.backslash :: 0x75 :: (digits' ++ t)).drop 10 = t := by
    have split : digits ++ Sign.backslash :: 0x75 :: (digits' ++ t) =
        (digits ++ Sign.backslash :: 0x75 :: digits') ++ t := by simp
    have ten : (digits ++ Sign.backslash :: 0x75 :: digits').length = 10 := by
      simp [length, length']
    rw [split, ← ten, List.drop_left]
  have escape := lowEscape?_eq_some.mpr ⟨digits', t, rfl, length', all', rfl, low⟩
  have pair : piece 0x75 (digits ++ Sign.backslash :: 0x75 :: (digits' ++ t)) =
      .decoded (combine (Text.hexNumber digits) (Text.hexNumber digits')) 11 := by
    simp [piece, unit?_append length all, first, high, escape]
  rw [decode_escape, pair]
  simp [Int.add_assoc, rest]

end StringLiteral

namespace StringPart

variable {D : Dialect} {parts : List StringPart}

theorem lowEscape?_none (formed : ∀ part ∈ parts, WellFormed D part)
    (other : ∀ digits rest, parts ≠ .unit digits :: rest) :
    StringLiteral.lowEscape? (parts.flatMap text) = none := by
  cases found : StringLiteral.lowEscape? (parts.flatMap text) with
  | none => rfl
  | some low =>
    obtain ⟨digits, rest, same, -⟩ := StringLiteral.lowEscape?_eq_some.mp found
    cases parts with
    | nil => simp at same
    | cons part parts =>
      have first := formed part List.mem_cons_self
      cases part with
      | bare c => exact absurd (List.cons.inj same).1 first.2.2
      | short letter c =>
        have table : ∀ escape ∈ StringPart.shortEscapes, escape.1 ≠ 0x75 := by decide
        exact absurd (List.cons.inj (List.cons.inj same).2).1 (table _ first)
      | unit digits => exact absurd rfl (other digits parts)

/-- Decoding the text of the parts gives the characters that they stand for. -/
theorem decode_text (formed : ∀ part ∈ parts, WellFormed D part) (p : Int) :
    StringLiteral.decode p (parts.flatMap text) = .ok (characters parts) := by
  fun_induction characters parts generalizing p with
  | case1 => simp [StringLiteral.decode]
  | case2 c rest ih =>
    obtain ⟨first, others⟩ := List.forall_mem_cons.mp formed
    have step := StringLiteral.decode_bare first.2.2 p (rest.flatMap text)
    rw [ih others] at step
    exact step
  | case3 letter c rest ih =>
    obtain ⟨first, others⟩ := List.forall_mem_cons.mp formed
    have step := StringLiteral.decode_short first p (rest.flatMap text)
    rw [ih others] at step
    exact step
  | case4 high low rest pair ih =>
    obtain ⟨first, others⟩ := List.forall_mem_cons.mp formed
    obtain ⟨second, others⟩ := List.forall_mem_cons.mp others
    obtain ⟨isHigh, isLow⟩ := Bool.and_eq_true_iff.mp pair
    have step := StringLiteral.decode_pair first.1 first.2 second.1 second.2 isHigh isLow p
      (rest.flatMap text)
    rw [ih others] at step
    simpa [text, Except.map] using step
  | case5 high low rest noPair ih =>
    obtain ⟨first, others⟩ := List.forall_mem_cons.mp formed
    obtain ⟨second, -⟩ := List.forall_mem_cons.mp others
    have alone : StringLiteral.isHighSurrogate (Text.hexNumber high) →
        StringLiteral.lowEscape? ((StringPart.unit low :: rest).flatMap text) = none := by
      intro isHigh
      have isLow : StringLiteral.isLowSurrogate (Text.hexNumber low) = false := by
        simpa [isHigh] using noPair
      have unit := StringLiteral.unit?_append second.1 second.2 (rest.flatMap text)
      simp [text, StringLiteral.lowEscape?, unit, isLow]
    have step := StringLiteral.decode_unit first.1 first.2 alone p
    rw [ih others] at step
    exact step
  | case6 digits rest other ih =>
    obtain ⟨first, others⟩ := List.forall_mem_cons.mp formed
    have step := StringLiteral.decode_unit first.1 first.2
      (fun _ => lowEscape?_none others other) p
    rw [ih others] at step
    exact step

/-- What a string quotes is no mark and no lone backslash. -/
theorem quotedPart_bares (bares : ∀ c ∈ u, c ≠ Sign.quotation ∧ c ≠ Sign.backslash) (t : Text) :
    quotedPart (u ++ t) = (quotedPart t).map (u ++ ·) := by
  induction u with
  | nil => simp
  | cons c u ih =>
    obtain ⟨first, others⟩ := List.forall_mem_cons.mp bares
    rw [List.cons_append, quotedPart_bare first.1 first.2, ih others]
    simp [Function.comp_def]

theorem quotedPart_escape (plain : c ≠ Sign.lineFeed) (t : Text) :
    quotedPart (Sign.backslash :: c :: t) = (quotedPart t).map ([Sign.backslash, c] ++ ·) := by
  simp [quotedPart, plain]

theorem hex_bare (hex : Text.isHexDigit c) : c ≠ Sign.quotation ∧ c ≠ Sign.backslash := by
  constructor
  · rintro rfl
    contradiction
  · rintro rfl
    contradiction

/-- The closing mark of a quotation is the first that no escape takes along. -/
theorem quotedPart_text (formed : ∀ part ∈ parts, WellFormed D part) (t : Text) :
    quotedPart (parts.flatMap text ++ Sign.quotation :: t) =
      some (parts.flatMap text ++ [Sign.quotation]) := by
  induction parts with
  | nil => rfl
  | cons part parts ih =>
    obtain ⟨first, others⟩ := List.forall_mem_cons.mp formed
    have rest := ih others
    rw [List.flatMap_cons, List.append_assoc]
    cases part with
    | bare c =>
      rw [quotedPart_bares (by simpa [text] using first.2), rest]
      simp
    | short letter c =>
      have plain : letter ≠ Sign.lineFeed := by
        have table : ∀ escape ∈ StringPart.shortEscapes, escape.1 ≠ Sign.lineFeed := by decide
        exact table _ first
      have step := quotedPart_escape plain (parts.flatMap text ++ Sign.quotation :: t)
      rw [rest] at step
      exact step
    | unit digits =>
      have step := quotedPart_escape (c := 0x75) (by decide)
        (digits ++ (parts.flatMap text ++ Sign.quotation :: t))
      rw [quotedPart_bares fun c member => hex_bare (first.2 c member), rest] at step
      simpa [text] using step

end StringPart

theorem Dialect.Quoted.taken {D : Dialect} (spelled : D.Quoted w s) (t : Text) :
    quoted (w ++ t) = some w := by
  obtain ⟨formed⟩ := spelled
  rw [List.cons_append, List.append_assoc]
  exact followed_append (u := [Sign.quotation]) (one_cons rfl _) (StringPart.quotedPart_text formed t)

theorem Dialect.Quoted.dequote {D : Dialect} (spelled : D.Quoted w s) (offset : Int) :
    StringLiteral.dequote w offset = .ok s := by
  obtain ⟨formed⟩ := spelled
  rw [StringLiteral.dequote, List.tail_cons, List.dropLast_concat]
  exact StringPart.decode_text formed _

/-- The text between the marks of a quotation: no mark and no backslash but in an escape. -/
inductive QuotedBody : Text → Prop
  | nil : QuotedBody []
  | escape : QuotedBody t → QuotedBody (Sign.backslash :: c :: t)
  | bare : c ≠ Sign.quotation → c ≠ Sign.backslash → QuotedBody t → QuotedBody (c :: t)

theorem quotedPart_body (found : quotedPart t = some w) :
    ∃ body, w = body ++ [Sign.quotation] ∧ QuotedBody body := by
  fun_induction quotedPart t generalizing w with
  | case1 => contradiction
  | case2 t =>
    obtain rfl := Option.some.inj found
    exact ⟨[], rfl, .nil⟩
  | case3 c t feed => contradiction
  | case4 c t plain ih =>
    obtain ⟨v, rest, rfl⟩ := Option.map_eq_some_iff.mp found
    obtain ⟨body, rfl, shape⟩ := ih rest
    exact ⟨Sign.backslash :: c :: body, rfl, .escape shape⟩
  | case5 => contradiction
  | case6 c t noMark noEscape single ih =>
    obtain ⟨v, rest, rfl⟩ := Option.map_eq_some_iff.mp found
    obtain ⟨body, rfl, shape⟩ := ih rest
    exact ⟨c :: body, rfl, .bare noMark (not_backslash single noEscape) shape⟩

theorem quoted_body (found : quoted t = some w) :
    ∃ body, w = Sign.quotation :: (body ++ [Sign.quotation]) ∧ QuotedBody body := by
  obtain ⟨u, v, mark, rest, rfl⟩ := followed_eq_some.mp found
  obtain ⟨x, -, -, isMark, rfl⟩ := one_eq_some.mp mark
  obtain rfl : x = Sign.quotation := by simpa using isMark
  obtain ⟨body, rfl, shape⟩ := quotedPart_body rest
  exact ⟨body, rfl, shape⟩

namespace QuotedBody

theorem tail_bare (shape : QuotedBody (c :: t)) (plain : c ≠ Sign.backslash) :
    c ≠ Sign.quotation ∧ QuotedBody t := by
  cases shape with
  | escape => exact absurd rfl plain
  | bare noMark _ rest => exact ⟨noMark, rest⟩

theorem tail_escape (shape : QuotedBody (Sign.backslash :: c :: t)) : QuotedBody t := by
  cases shape with
  | escape rest => exact rest
  | bare _ plain => exact absurd rfl plain

theorem drop_hex (shape : QuotedBody (digits ++ t)) (all : ∀ c ∈ digits, Text.isHexDigit c) :
    QuotedBody t := by
  induction digits with
  | nil => exact shape
  | cons c digits ih =>
    obtain ⟨first, others⟩ := List.forall_mem_cons.mp all
    exact ih (shape.tail_bare (StringPart.hex_bare first).2).2 others

/-- What one step of decoding takes is made of parts, and ends where a part of the body ends. -/
theorem piece_parts {D : Dialect} (found : StringLiteral.piece c rest = .decoded d length) :
    ∃ parts : List StringPart, (∀ part ∈ parts, part.WellFormed D) ∧
      Sign.backslash :: c :: rest = parts.flatMap StringPart.text ++ rest.drop (length - 1) ∧
      (QuotedBody rest → QuotedBody (rest.drop (length - 1))) := by
  unfold StringLiteral.piece at found
  split at found
  · next unicode =>
    obtain rfl : c = 0x75 := by simpa using unicode
    split at found
    · contradiction
    · next n unit =>
      obtain ⟨digits, rest, rfl, four, all, -⟩ := StringLiteral.unit?_eq_some.mp unit
      have behind : ∀ u : Text, (digits ++ u).drop 4 = u := fun u => by rw [← four, List.drop_left]
      have alone : ∃ parts : List StringPart, (∀ part ∈ parts, part.WellFormed D) ∧
          Sign.backslash :: 0x75 :: (digits ++ rest) =
            parts.flatMap StringPart.text ++ (digits ++ rest).drop 4 ∧
          (QuotedBody (digits ++ rest) → QuotedBody ((digits ++ rest).drop 4)) := by
        refine ⟨[.unit digits], by simpa using ⟨four, all⟩, ?_, ?_⟩
        · simp [StringPart.text, behind]
        · rw [behind]
          exact fun shape => shape.drop_hex all
      split at found
      · split at found
        · next low escape =>
          obtain ⟨-, rfl⟩ := StringLiteral.Piece.decoded.inj found
          rw [behind] at escape
          obtain ⟨digits', rest, rfl, four', all', -⟩ := StringLiteral.lowEscape?_eq_some.mp escape
          have split : digits ++ Sign.backslash :: 0x75 :: (digits' ++ rest) =
              (digits ++ Sign.backslash :: 0x75 :: digits') ++ rest := by simp
          have behind' : (digits ++ Sign.backslash :: 0x75 :: (digits' ++ rest)).drop (11 - 1) =
              rest := by
            have ten : (digits ++ Sign.backslash :: 0x75 :: digits').length = 11 - 1 := by
              simp [four, four']
            rw [split, ← ten, List.drop_left]
          refine ⟨[.unit digits, .unit digits'], by simpa using ⟨⟨four, all⟩, four', all'⟩, ?_, ?_⟩
          · simp [StringPart.text, behind']
          · rw [behind']
            exact fun shape => ((shape.drop_hex all).tail_escape).drop_hex all'
        · obtain ⟨-, rfl⟩ := StringLiteral.Piece.decoded.inj found
          exact alone
      · obtain ⟨-, rfl⟩ := StringLiteral.Piece.decoded.inj found
        exact alone
  · split at found
    · next meant short =>
      obtain ⟨-, rfl⟩ := StringLiteral.Piece.decoded.inj found
      refine ⟨[.short c meant], ?_, rfl, fun shape => shape⟩
      exact List.forall_mem_singleton.mpr (StringLiteral.shortEscape?_eq_some.mp short)
    · contradiction

/-- What decodes is made of parts. -/
theorem parts {D : Dialect} (shape : QuotedBody t) (decoded : StringLiteral.decode p t = .ok s)
    (bare : ∀ c ∈ t, D.bare c) : ∃ parts : List StringPart,
      (∀ part ∈ parts, part.WellFormed D) ∧ t = parts.flatMap StringPart.text := by
  have first : ∀ {c : CodePoint} {t : Text}, c ≠ Sign.backslash → QuotedBody (c :: t) →
      (∀ x ∈ c :: t, D.bare x) → (StringPart.bare c).WellFormed D := by
    intro c t plain shape bare
    exact ⟨bare c List.mem_cons_self, (shape.tail_bare plain).1, plain⟩
  fun_induction StringLiteral.decode p t generalizing s with
  | case1 => exact ⟨[], by simp, rfl⟩
  | case2 p c =>
    have plain : c ≠ Sign.backslash := by
      rintro rfl
      cases shape with
      | bare _ plain => exact plain rfl
    exact ⟨[.bare c], by simpa using first plain shape bare, rfl⟩
  | case3 p c rest d length found text rest' ih =>
    obtain ⟨parts, formed, same, tail⟩ := piece_parts (D := D) found
    obtain ⟨parts', formed', same'⟩ := ih (tail shape.tail_escape) rest' fun x member =>
      bare x (List.mem_cons_of_mem _ (List.mem_cons_of_mem _ (List.mem_of_mem_drop member)))
    refine ⟨parts ++ parts', ?_, by rw [List.flatMap_append, ← same', ← same]⟩
    intro part member
    rcases List.mem_append.mp member with member | member
    · exact formed part member
    · exact formed' part member
  | case4 => contradiction
  | case5 => contradiction
  | case6 p c d rest plain text rest' ih =>
    obtain ⟨parts, formed, same⟩ := ih (shape.tail_bare plain).2 rest' fun x member =>
      bare x (List.mem_cons_of_mem _ member)
    refine ⟨.bare c :: parts, List.forall_mem_cons.mpr ⟨first plain shape bare, formed⟩, ?_⟩
    rw [same]
    rfl
  | case7 => contradiction

end QuotedBody

/-- A string token that can be decoded is a quotation, of any dialect that has its characters. -/
theorem quoted_sound {D : Dialect} (found : quoted t = some w)
    (decoded : StringLiteral.dequote w offset = .ok s) (bare : ∀ c ∈ w, D.bare c) :
    D.Quoted w s := by
  obtain ⟨body, rfl, shape⟩ := quoted_body found
  have inner : StringLiteral.decode (offset + 1) body = .ok s := by
    rw [← decoded, StringLiteral.dequote, List.tail_cons, List.dropLast_concat]
  obtain ⟨parts, formed, rfl⟩ := shape.parts inner fun c member => bare c (by simp [member])
  rw [StringPart.decode_text formed] at inner
  obtain rfl := Except.ok.inj inner
  exact .spelled formed

end TokenRules.Json
