import TokenRules.Proofs.Json.Alone
import TokenRules.Proofs.Json.Quotation
import TokenRules.Proofs.Json.Tiling

/-! The body of a string literal, cut from the left into characters and escapes. There is one way to
cut it. If it can be cut to its end, decoding gives what the segments stand for; or else it blames the
backslash at which the cutting is stuck. -/
namespace TokenRules.Json

open Pattern

namespace StringLiteral

/-- A character that stands for itself, the two escapes of a surrogate pair, the escape of another unit,
or a short escape. -/
inductive Segment where
  | plain (c : CodePoint)
  | pair (high low : Text)
  | unit (digits : Text)
  | short (letter c : CodePoint)

/-- Four hexadecimal digits. -/
def IsUnit (digits : Text) : Prop :=
  digits.length = 4 ∧ ∀ c ∈ digits, Text.isHexDigit c

def unitText (digits : Text) : Text := Sign.backslash :: 0x75 :: digits

namespace Segment

def text : Segment → Text
  | .plain c => [c]
  | .pair high low => unitText high ++ unitText low
  | .unit digits => unitText digits
  | .short letter _ => [Sign.backslash, letter]

/-- What a segment stands for. -/
def character : Segment → CodePoint
  | .plain c | .short _ c => c
  | .pair high low => combine (Text.hexNumber high) (Text.hexNumber low)
  | .unit digits => Text.hexNumber digits

def WellFormed : Segment → Prop
  | .plain c => c ≠ Sign.backslash
  | .pair high low => (IsUnit high ∧ isHighSurrogate (Text.hexNumber high)) ∧
      IsUnit low ∧ isLowSurrogate (Text.hexNumber low)
  | .unit digits => IsUnit digits
  | .short letter c => (letter, c) ∈ StringPart.shortEscapes

/-- No longer segment could have been cut off: a high surrogate stands alone only if no escape of a low
one follows. -/
def Whole (behind : Text) : Segment → Prop
  | .unit digits => isHighSurrogate (Text.hexNumber digits) →
      ∀ low, IsUnit low → isLowSurrogate (Text.hexNumber low) → ¬ unitText low <+: behind
  | .plain _ | .pair _ _ | .short _ _ => True

end Segment

/-- No segment can be cut off. -/
def Stuck (t : Text) : Prop :=
  ∀ segment : Segment, segment.WellFormed → ¬ segment.text <+: t

/-- A text, cut from the left into segments, and what stays when no other segment can be cut off. -/
inductive Segmented : Text → List Segment → Text → Prop
  | stops (stuck : Stuck t) : Segmented t [] t
  | segment {segment : Segment} (formed : segment.WellFormed) (whole : segment.Whole t)
      (more : Segmented t segments rest) : Segmented (segment.text ++ t) (segment :: segments) rest

/-- The escape that is shown when the cutting is stuck: of a unit at most four characters, of any other
escape one. -/
def blamed : Text → Text
  | Sign.backslash :: 0x75 :: t => Sign.backslash :: 0x75 :: t.take 4
  | t => t.take 2

theorem short_ne_unit (escape : (letter, c) ∈ StringPart.shortEscapes) : letter ≠ 0x75 := by
  have table : ∀ escape ∈ StringPart.shortEscapes, escape.1 ≠ 0x75 := by decide
  exact table _ escape

theorem unitText_inj (unit : IsUnit digits) (unit' : IsUnit digits')
    (same : unitText digits ++ t = unitText digits' ++ u) : digits = digits' ∧ t = u :=
  List.append_inj (List.cons.inj (List.cons.inj same).2).2 (unit.1.trans unit'.1.symm)

namespace Segment

theorem text_ne_nil (segment : Segment) : segment.text ≠ [] := by
  cases segment <;> simp [text, unitText]

/-- An escape of a unit, which a high surrogate of a pair has before it, is not taken for a whole one. -/
theorem pair_not_whole (pair : (Segment.pair high low).WellFormed) (unit : IsUnit digits)
    (same : unitText digits ++ t = (Segment.pair high low).text ++ u) :
    ¬ (Segment.unit digits).Whole t := by
  intro whole
  obtain ⟨⟨unitHigh, isHigh⟩, unitLow, isLow⟩ := pair
  rw [text, List.append_assoc] at same
  obtain ⟨rfl, rfl⟩ := unitText_inj unit unitHigh same
  exact whole isHigh low unitLow isLow ⟨u, rfl⟩

theorem unit_ne_short (escape : (letter, c) ∈ StringPart.shortEscapes) :
    unitText digits ++ t ≠ (Segment.short letter c).text ++ u := by
  intro same
  exact short_ne_unit escape (List.cons.inj (List.cons.inj same).2).1.symm

/-- Only one segment can be cut off a text. -/
theorem unique {a b : Segment} (formed : a.WellFormed) (formed' : b.WellFormed) (whole : a.Whole t)
    (whole' : b.Whole u) (same : a.text ++ t = b.text ++ u) : a = b ∧ t = u := by
  cases a with
  | plain c =>
    cases b with
    | plain d =>
      obtain ⟨rfl, rfl⟩ := List.cons.inj same
      exact ⟨rfl, rfl⟩
    | pair | unit | short => exact absurd (List.cons.inj same).1 formed
  | pair high low =>
    cases b with
    | plain d => exact absurd (List.cons.inj same).1.symm formed'
    | pair high' low' =>
      simp only [text, List.append_assoc] at same
      obtain ⟨rfl, lows⟩ := unitText_inj formed.1.1 formed'.1.1 same
      obtain ⟨rfl, rfl⟩ := unitText_inj formed.2.1 formed'.2.1 lows
      exact ⟨rfl, rfl⟩
    | unit digits => exact absurd whole' (pair_not_whole formed formed' same.symm)
    | short letter c =>
      rw [text, List.append_assoc] at same
      exact absurd same (unit_ne_short formed')
  | unit digits =>
    cases b with
    | plain d => exact absurd (List.cons.inj same).1.symm formed'
    | pair high low => exact absurd whole (pair_not_whole formed' formed same)
    | unit digits' =>
      obtain ⟨rfl, rfl⟩ := unitText_inj formed formed' same
      exact ⟨rfl, rfl⟩
    | short letter c => exact absurd same (unit_ne_short formed')
  | short letter c =>
    cases b with
    | plain d => exact absurd (List.cons.inj same).1.symm formed'
    | pair high low =>
      rw [text.eq_2, List.append_assoc] at same
      exact absurd same.symm (unit_ne_short formed)
    | unit digits => exact absurd same.symm (unit_ne_short formed)
    | short letter' c' =>
      obtain ⟨rfl, rfl⟩ := List.cons.inj (List.cons.inj same).2
      have meant := (shortEscape?_eq_some.mpr formed).symm.trans (shortEscape?_eq_some.mpr formed')
      obtain rfl := Option.some.inj meant
      exact ⟨rfl, rfl⟩

/-- Decoding goes segment by segment. -/
theorem decode {segment : Segment} (formed : segment.WellFormed) (whole : segment.Whole t) (p : Int) :
    decode p (segment.text ++ t) =
      (decode (p + segment.text.length) t).map (segment.character :: ·) := by
  cases segment with
  | plain c => exact decode_bare formed p t
  | pair high low =>
    obtain ⟨⟨unitHigh, isHigh⟩, unitLow, isLow⟩ := formed
    have step := decode_pair unitHigh.1 unitHigh.2 unitLow.1 unitLow.2 isHigh isLow p t
    simpa [text, unitText, character, unitHigh.1, unitLow.1] using step
  | unit digits =>
    have alone : isHighSurrogate (Text.hexNumber digits) → lowEscape? t = none := by
      intro isHigh
      rw [Option.eq_none_iff_forall_ne_some]
      intro n found
      obtain ⟨low, rest, rfl, length, all, rfl, isLow⟩ := lowEscape?_eq_some.mp found
      exact whole isHigh low ⟨length, all⟩ isLow ⟨rest, rfl⟩
    have step := decode_unit formed.1 formed.2 alone p
    simpa [text, unitText, character, formed.1] using step
  | short letter c => exact decode_short formed p t

/-- What stands behind a segment of a body is a body. -/
theorem behind {segment : Segment} (formed : segment.WellFormed)
    (shape : QuotedBody (segment.text ++ t)) : QuotedBody t := by
  have unit : ∀ {digits u}, IsUnit digits → QuotedBody (unitText digits ++ u) → QuotedBody u :=
    fun unit shape => shape.tail_escape.drop_hex unit.2
  cases segment with
  | plain c => exact (shape.tail_bare formed).2
  | pair high low =>
    rw [text, List.append_assoc] at shape
    exact unit formed.2.1 (unit formed.1.1 shape)
  | unit digits => exact unit formed shape
  | short letter c => exact shape.tail_escape

end Segment

/-- A text is stuck, or a segment can be cut off. -/
theorem stuck_or_segment (t : Text) : Stuck t ∨ ∃ segment : Segment, ∃ u,
    t = segment.text ++ u ∧ segment.WellFormed ∧ segment.Whole u := by
  by_cases fits : ∃ segment : Segment, segment.WellFormed ∧ segment.text <+: t
  · obtain ⟨segment, formed, u, rfl⟩ := fits
    refine .inr ?_
    by_cases whole : segment.Whole u
    · exact ⟨segment, u, rfl, formed, whole⟩
    · -- A high surrogate that a low one follows is cut off with it.
      cases segment with
      | plain | pair | short => exact absurd trivial whole
      | unit digits =>
        simp only [Segment.Whole, Classical.not_forall, Classical.not_not] at whole
        obtain ⟨isHigh, low, unitLow, isLow, v, rfl⟩ := whole
        exact ⟨.pair digits low, v, by simp [Segment.text], ⟨⟨formed, isHigh⟩, unitLow, isLow⟩, trivial⟩
  · exact .inl fun segment formed ahead => fits ⟨segment, formed, ahead⟩

theorem segmented_exists (t : Text) : ∃ segments rest, Segmented t segments rest := by
  induction size : t.length using Nat.strongRecOn generalizing t with
  | ind size ih =>
    subst size
    obtain stuck | ⟨segment, u, rfl, formed, whole⟩ := stuck_or_segment t
    · exact ⟨[], t, .stops stuck⟩
    · have shorter : u.length < (segment.text ++ u).length := by
        have := List.length_pos_iff.mpr segment.text_ne_nil
        rw [List.length_append]
        omega
      obtain ⟨segments, rest, more⟩ := ih _ shorter u rfl
      exact ⟨segment :: segments, rest, .segment formed whole more⟩

theorem Segmented.unique (segmented : Segmented t segments rest)
    (other : Segmented t segments' rest') : segments' = segments ∧ rest' = rest := by
  induction segmented generalizing segments' with
  | stops stuck =>
    cases other with
    | stops => exact ⟨rfl, rfl⟩
    | segment formed whole more => exact absurd ⟨_, rfl⟩ (stuck _ formed)
  | @segment u segments rest segment formed whole more ih =>
    generalize same : segment.text ++ u = t at other
    cases other with
    | stops stuck => exact absurd ⟨u, same⟩ (stuck _ formed)
    | segment formed' whole' more' =>
      obtain ⟨rfl, rfl⟩ := segment.unique formed formed' whole whole' same
      obtain ⟨rfl, rfl⟩ := ih more'
      exact ⟨rfl, rfl⟩

theorem Segmented.text (segmented : Segmented t segments rest) :
    t = segments.flatMap Segment.text ++ rest := by
  induction segmented with
  | stops => rfl
  | segment formed whole more ih => rw [List.flatMap_cons, List.append_assoc, ← ih]

theorem Segmented.stuck (segmented : Segmented t segments rest) : Stuck rest := by
  induction segmented with
  | stops stuck => exact stuck
  | segment formed whole more ih => exact ih

/-- Only a backslash can be stuck. -/
theorem Stuck.backslash (stuck : Stuck (c :: t)) : c = Sign.backslash := by
  refine Classical.byContradiction fun plain => ?_
  exact stuck (.plain c) plain ⟨t, rfl⟩

theorem decode_stuck (stuck : Stuck (Sign.backslash :: c :: t)) (p : Int) :
    decode p (Sign.backslash :: c :: t) = .error ⟨p, blamed (Sign.backslash :: c :: t)⟩ := by
  by_cases unicode : c = 0x75
  · subst unicode
    have noUnit : unit? t = none := by
      rw [Option.eq_none_iff_forall_ne_some]
      intro n found
      obtain ⟨digits, rest, rfl, length, all, -⟩ := unit?_eq_some.mp found
      exact stuck (.unit digits) ⟨length, all⟩ ⟨rest, rfl⟩
    have bad : piece 0x75 t = .bad (t.take 4).length.succ := by
      rw [piece, noUnit]
      rfl
    rw [decode_escape, bad, blamed]
    simp
  · have noShort : shortEscape? c = none := by
      rw [Option.eq_none_iff_forall_ne_some]
      intro d found
      exact stuck (.short c d) (shortEscape?_eq_some.mp found) ⟨t, rfl⟩
    have bad : piece c t = .bad 1 := by
      have other : (c == 0x75) = false := by simpa using unicode
      rw [piece, other, noShort]
      rfl
    rw [decode_escape, bad, blamed]
    · rfl
    · rintro u same
      exact unicode (List.cons.inj (List.cons.inj same).2).1

theorem Segmented.decode (segmented : Segmented t segments rest) (shape : QuotedBody t) (p : Int) :
    decode p t = if rest = [] then .ok (segments.map Segment.character)
      else .error ⟨p + (segments.flatMap Segment.text).length, blamed rest⟩ := by
  induction segmented generalizing p with
  | @stops t stuck =>
    cases t with
    | nil => simp [StringLiteral.decode]
    | cons c t =>
      obtain rfl := stuck.backslash
      cases shape with
      | escape => simpa using decode_stuck stuck p
      | bare _ plain => exact absurd rfl plain
  | segment formed whole more ih =>
    rw [Segment.decode formed whole, ih (Segment.behind formed shape)]
    split
    · rfl
    · simp [Except.map, Int.add_assoc]

end StringLiteral

namespace StringLiteral

/-- Decoding a literal that is taken goes through the segments of its body. -/
theorem dequote_quoted (taken : quoted t = some w) (start : Int) : ∃ body segments rest,
    w = Sign.quotation :: (body ++ [Sign.quotation]) ∧ Segmented body segments rest ∧
      dequote w start = if rest = [] then .ok (segments.map Segment.character)
        else .error ⟨start + 1 + (segments.flatMap Segment.text).length, blamed rest⟩ := by
  obtain ⟨body, rfl, shape⟩ := quoted_body taken
  obtain ⟨segments, rest, segmented⟩ := segmented_exists body
  refine ⟨body, segments, rest, rfl, segmented, ?_⟩
  rw [dequote, List.tail_cons, List.dropLast_concat, segmented.decode shape]

/-- Where the cutting is stuck in a literal. -/
theorem Segmented.drop (segmented : Segmented body segments rest) :
    (Sign.quotation :: (body ++ [Sign.quotation])).drop (1 + (segments.flatMap Segment.text).length) =
      rest ++ [Sign.quotation] := by
  rw [Nat.add_comm, List.drop_succ_cons, segmented.text, List.append_assoc, List.drop_left]

theorem Segmented.rest_cons (segmented : Segmented body segments rest) (stuck : rest ≠ []) :
    ∃ u, rest = Sign.backslash :: u := by
  obtain ⟨x, u, rfl⟩ := List.exists_cons_of_ne_nil stuck
  obtain rfl := segmented.stuck.backslash
  exact ⟨u, rfl⟩

theorem blamed_ahead (t : Text) : blamed t <+: t := by
  unfold blamed
  split
  · next t => exact List.take_prefix 6 (Sign.backslash :: 0x75 :: t)
  · exact List.take_prefix 2 _

/-- The escape that is blamed stands between the marks of its literal. -/
theorem dequote_error (taken : quoted t = some w) (failed : dequote w start = .error bad) :
    ∃ index : Nat, bad.position = start + index ∧ 0 < index ∧ index + 1 < w.length ∧
      w[index]? = some Sign.backslash ∧ bad.shown <+: w.drop index := by
  obtain ⟨body, segments, rest, rfl, segmented, decoded⟩ := dequote_quoted taken start
  rw [decoded] at failed
  split at failed
  · contradiction
  · next stuck =>
    obtain rfl := Except.error.inj failed
    have behind := segmented.drop
    obtain ⟨u, rfl⟩ := segmented.rest_cons stuck
    refine ⟨1 + (segments.flatMap Segment.text).length, by simp [Int.add_assoc], by omega, ?_, ?_, ?_⟩
    · have length := congrArg List.length behind
      simp only [List.length_drop, List.length_append, List.length_cons, List.length_nil] at length ⊢
      omega
    · rw [← List.head?_drop, behind]
      rfl
    · rw [behind]
      exact (blamed_ahead _).trans (List.prefix_append _ _)

/-- A literal that the string rule matches is cut in one way. It denotes what its segments stand for, or
the backslash at which the cutting is stuck is blamed. -/
theorem dequote_segmented (rule : Alone 4 p) (matched : p.matchAt c = some m) (start : Int) :
    ∃ body segments rest, m.text = Sign.quotation :: (body ++ [Sign.quotation]) ∧
      body = segments.flatMap Segment.text ++ rest ∧ Segmented body segments rest ∧
      (∀ segments' rest', Segmented body segments' rest' → segments' = segments ∧ rest' = rest) ∧
      (rest = [] → dequote m.text start = .ok (segments.map Segment.character)) ∧
      (rest ≠ [] → ∃ index : Nat, index = 1 + (segments.flatMap Segment.text).length ∧
        m.text[index]? = some Sign.backslash ∧
        dequote m.text start = .error ⟨start + index, blamed rest⟩) := by
  obtain ⟨w, found, rfl⟩ := (rule.lexeme c).mp matched
  obtain ⟨body, segments, rest, rfl, segmented, decoded⟩ :=
    dequote_quoted (lexeme?_front found rfl) start
  rw [token_text found, decoded]
  refine ⟨body, segments, rest, rfl, segmented.text, segmented, fun _ _ => segmented.unique,
    fun done => if_pos done, fun stuck => ⟨_, rfl, ?_, ?_⟩⟩
  · obtain ⟨u, rfl⟩ := segmented.rest_cons stuck
    rw [← List.head?_drop, segmented.drop]
    rfl
  · rw [if_neg stuck]
    simp [Int.add_assoc]

theorem stuck_nil : Stuck [] :=
  fun segment _ ahead => segment.text_ne_nil (List.prefix_nil.mp ahead)

/-- A pair with letters of either case, as its body. -/
def smile : Text := unitText [0x44, 0x38, 0x33, 0x64] ++ unitText [0x64, 0x45, 0x30, 0x30]

theorem dequote_segmented_smile : ∃ p m, Alone 4 p ∧
    p.matchAt (.start (Sign.quotation :: (smile ++ [Sign.quotation]))) = some m ∧
    m.text = Sign.quotation :: (smile ++ [Sign.quotation]) ∧ dequote m.text 7 = .ok [0x1F600] := by
  obtain ⟨p, rule⟩ := alone_exists (i := 4) (by decide)
  have found : lexeme? (Cursor.start (Sign.quotation :: (smile ++ [Sign.quotation]))).after =
      some (4, Sign.quotation :: (smile ++ [Sign.quotation])) := by
    decide +kernel
  have matched := (rule.lexeme _).mpr ⟨_, found, rfl⟩
  obtain ⟨body, segments, rest, text, -, -, unique, decoded, -⟩ := dequote_segmented rule matched 7
  have whole := token_text found none
  obtain rfl : smile = body := by
    rw [whole] at text
    exact List.append_cancel_right (List.cons.inj text).2
  have formed : (Segment.pair [0x44, 0x38, 0x33, 0x64] [0x64, 0x45, 0x30, 0x30]).WellFormed := by
    simp only [Segment.WellFormed, IsUnit]
    decide
  have cut : Segmented smile [.pair [0x44, 0x38, 0x33, 0x64] [0x64, 0x45, 0x30, 0x30]] [] :=
    .segment formed trivial (.stops stuck_nil)
  obtain ⟨rfl, rfl⟩ := unique _ _ cut
  exact ⟨p, _, rule, matched, whole, decoded rfl⟩

end StringLiteral
end TokenRules.Json
