import TokenRules.Proofs.Source.Rows

/-! Diagnostics. The row is left out by the length of the line, as if a line could be as long as the text only
when it is the text: every break takes a character from each line. The caret stands under the column, or
behind the line if the place is in its break. There is no diagnostic where a row with too many digits would
have to be written. -/
namespace TokenRules.Source

/-- A text is without breaks if no sequence of its convention is in it. -/
theorem breaks_eq_nil_iff (mode : LineBreaks) (content : Text) :
    breaks mode 0 content = [] ↔ ∀ w ∈ mode.sequences, ¬ w <:+: content := by
  have cut : mode.Cut content 0 (breaks mode 0 content) := LineBreaks.cut_breaks mode rfl
  constructor
  · intro none w member inside
    rw [none] at cut
    obtain ⟨before, after, rfl⟩ := inside
    cases cut with
    | done bare =>
      have bare := bare before.length (Nat.zero_le _)
      rw [LineBreaks.ahead?, List.append_assoc, List.drop_left, List.find?_eq_none] at bare
      exact bare w member (List.isPrefixOf_iff_prefix.mpr (List.prefix_append w after))
  · intro bare
    refine List.eq_nil_iff_forall_not_mem.mpr ?_
    intro b member
    obtain ⟨-, mark, ahead, -⟩ := cut.mem member
    have front := (LineBreaks.ahead?_shape ahead).1
    exact bare mark (List.mem_of_find?_eq_some ahead)
      (front.isInfix.trans (List.drop_suffix b.start content).isInfix)

/-- What stands under a line up to the caret. -/
def padding (line : Text) (column : Nat) : Text :=
  (line.take column).map fun c => if c == Sign.tab then c else Sign.space

theorem illustration_eq (line : Text) (column : Nat) :
    illustration line column = line ++ [Sign.lineFeed] ++ padding line column ++ [Sign.caret] := by
  simp only [illustration, padding, Int.toNat_natCast, if_neg (Int.not_lt.mpr (Int.natCast_nonneg column))]

theorem padding_length (line : Text) (column : Nat) :
    (padding line column).length = min column line.length := by
  rw [padding, List.length_map, List.length_take]

theorem padding_tabs {shown : Text} {column : Nat} (inside : i < (padding shown column).length) :
    (padding shown column)[i]? = some (if shown[i]? = some Sign.tab then Sign.tab else Sign.space) := by
  rw [padding_length] at inside
  have here : shown[i]? = some shown[i] := List.getElem?_eq_getElem (by omega)
  have taken : (shown.take column)[i]? = some shown[i] := by
    rw [List.getElem?_take_of_lt (by omega), here]
  rw [padding, List.getElem?_map, taken, here, Option.map_some]
  by_cases tab : shown[i] = Sign.tab
  · simp [tab]
  · simp [tab]

namespace SourceText

/-- Only the line of a text without breaks is as long as the text. -/
theorem line_length_iff (s : SourceText) (index : Nat) :
    (s.locate index).line.length = s.content.length ↔ s.breaks = [] := by
  obtain ⟨order, most⟩ := s.line_bounds index
  have length : (s.locate index).line.length =
      lineStop s.content (ahead s.breaks index) - lineStart (passed s.breaks index) := by
    rw [s.locate_eq, Text.slice, List.length_take, List.length_drop]
    omega
  have within := breaks_within s.lineBreaks 0 s.content
  rw [length]
  constructor
  · intro whole
    have none : passed s.breaks index = [] := by
      cases last : (passed s.breaks index).getLast? with
      | none => exact List.getLast?_eq_none_iff.mp last
      | some b =>
        have inside := within b (List.mem_filter.mp (List.mem_of_getLast? last)).1
        have start : lineStart (passed s.breaks index) = b.stop := by rw [lineStart, last]; rfl
        omega
    have none' : ahead s.breaks index = [] := by
      cases rest : ahead s.breaks index with
      | nil => rfl
      | cons b bs =>
        have head : b ∈ ahead s.breaks index := by rw [rest]; exact .head bs
        have inside := within b (List.mem_filter.mp head).1
        have stop : lineStop s.content (ahead s.breaks index) = b.start := by rw [rest]; rfl
        omega
    rw [← s.passed_append_ahead index, none, none']
    rfl
  · intro none
    rw [none]
    rfl

/-- What a diagnostic says of a row: nothing, if the text has no breaks. -/
def rowMark (s : SourceText) (row : Int) : Text :=
  if s.breaks = [] then []
  else Text.ofString " (line: " ++ Text.signedDecimal row ++ Text.ofString ")"

theorem rowMark_cases (s : SourceText) (row : Int) :
    (∃ w ∈ s.lineBreaks.sequences, w <:+: s.content) ∧
        s.rowMark row = Text.ofString " (line: " ++ Text.signedDecimal row ++ Text.ofString ")" ∨
      (¬ ∃ w ∈ s.lineBreaks.sequences, w <:+: s.content) ∧ s.rowMark row = [] := by
  have bare := breaks_eq_nil_iff s.lineBreaks s.content
  by_cases none : s.breaks = []
  · right
    constructor
    · rintro ⟨w, member, inside⟩
      exact bare.mp none w member inside
    · exact if_pos none
  · left
    constructor
    · refine Classical.byContradiction fun missing => none (bare.mpr ?_)
      intro w member inside
      exact missing ⟨w, member, inside⟩
    · exact if_neg none

theorem diagnostic_eq (s : SourceText) (index : Nat) (description : Text) : s.diagnostic index description =
    (description ++ s.rowMark (s.locate index).row ++ [Sign.lineFeed] ++
      illustration (s.locate index).line (s.locate index).column, s.locate index) := by
  rw [diagnostic, rowMark]
  by_cases none : s.breaks = []
  · simp only [none, (s.line_length_iff index).mpr none, beq_self_eq_true, if_true]
  · have shorter : ((s.locate index).line.length == s.content.length) = false :=
      beq_eq_false_iff_ne.mpr fun whole => none ((s.line_length_iff index).mp whole)
    simp only [none, shorter, Bool.false_eq_true, if_false]

/-- A diagnostic can be written if it leaves the row out, or if the row is short enough. -/
theorem diagnostic?_eq_some (s : SourceText) (offset : Int) (description : Text)
    (fits : (s.locate offset).line.length = s.content.length ∨
      (Text.decimal (s.locate offset).row.natAbs).length ≤ Decimal.maxIntegerDigits) :
    s.diagnostic? offset description = some (s.diagnostic offset description) := by
  rw [diagnostic?, diagnostic, rowMark?]
  split
  · rfl
  · next shorter =>
    have short := fits.resolve_left fun whole => shorter (beq_iff_eq.mpr whole)
    rw [Decimal.writeInteger?_eq_some.mpr ⟨short, rfl⟩]
    rfl

theorem diagnostic?_eq_none (s : SourceText) (offset : Int) (description : Text)
    (shorter : (s.locate offset).line.length ≠ s.content.length)
    (long : Decimal.maxIntegerDigits < (Text.decimal (s.locate offset).row.natAbs).length) :
    s.diagnostic? offset description = none := by
  rw [diagnostic?, rowMark?, if_neg (by simpa using shorter), Decimal.writeInteger?_eq_none.mpr long]
  rfl

/-- A row that has to be shown, because there is a break in the text, and that has too many digits for it. -/
def Overlong (s : SourceText) (row : Int) : Prop :=
  (∃ w ∈ s.lineBreaks.sequences, w <:+: s.content) ∧
    Decimal.maxIntegerDigits < (Text.decimal row.natAbs).length

/-- A diagnostic is the description, the row if there is a break anywhere in the text, the line of the place,
and a caret. Under the line the caret has as many blanks before it as the column says, or else the length of
the line; they are the tabs of the line, and spaces. There is a diagnostic of each place, unless its row is
overlong. -/
theorem diagnostic_shows (s : SourceText) (index : Nat) (description : Text) :
    ∃ (row : Int) (column : Nat) (shown mark blanks : Text),
      s.locate index = ⟨row, column, shown⟩ ∧ s.locate? index = some ⟨row, column, shown⟩ ∧
      (¬ s.Overlong row → s.diagnostic? index description = some
        (description ++ mark ++ [Sign.lineFeed] ++ shown ++ [Sign.lineFeed] ++ blanks ++ [Sign.caret],
          ⟨row, column, shown⟩)) ∧
      (s.Overlong row → s.diagnostic? index description = none) ∧
      ((∃ w ∈ s.lineBreaks.sequences, w <:+: s.content) ∧
          mark = Text.ofString " (line: " ++ Text.signedDecimal row ++ Text.ofString ")" ∨
        (¬ ∃ w ∈ s.lineBreaks.sequences, w <:+: s.content) ∧ mark = []) ∧
      blanks.length = min column shown.length ∧
      ∀ i < blanks.length, blanks[i]? = some (if shown[i]? = some Sign.tab then Sign.tab else Sign.space) := by
  have started : lineStart (passed s.breaks index) ≤ index := by
    refine lineStart_le ?_
    intro b member
    simpa using (List.mem_filter.mp member).2
  have located : s.locate index = ⟨s.firstRow + (passed s.breaks index).length,
      (index - lineStart (passed s.breaks index) : Nat), (s.locate index).line⟩ := by
    rw [s.locate_eq, Int.ofNat_sub started]
  have whole := (s.line_length_iff index).trans (breaks_eq_nil_iff s.lineBreaks s.content)
  generalize s.firstRow + (passed s.breaks index).length = row,
    index - lineStart (passed s.breaks index) = column, (s.locate index).line = shown at located
  refine ⟨row, column, shown, s.rowMark row, padding shown column, located, ?_, ?_, ?_, s.rowMark_cases row,
    padding_length shown column, ?_⟩
  · rw [locate?_eq, located]
  · intro short
    have fits : (s.locate index).line.length = s.content.length ∨
        (Text.decimal (s.locate index).row.natAbs).length ≤ Decimal.maxIntegerDigits := by
      rw [whole, located]
      refine Classical.or_iff_not_imp_right.mpr fun long w member inside => short ?_
      exact ⟨⟨w, member, inside⟩, Nat.not_le.mp long⟩
    rw [diagnostic?_eq_some s index description fits, diagnostic_eq, located, illustration_eq]
    simp only [List.append_assoc]
  · rintro ⟨⟨w, member, inside⟩, long⟩
    refine diagnostic?_eq_none s index description (fun same => whole.mp same w member inside) ?_
    rwa [located]
  · intro i inside
    exact padding_tabs inside

/-- The second row of a section whose first has nothing but nines for its number. -/
theorem diagnostic_shows_overlong :
    let s : SourceText := ⟨Text.ofString "a\nb", .unix, Nat.pow 10 Decimal.maxIntegerDigits - 1⟩
    s.locate 2 = ⟨Nat.pow 10 Decimal.maxIntegerDigits, 0, Text.ofString "b"⟩ ∧
      s.diagnostic? 2 (Text.ofString "Bad") = none := by
  have long := Text.lt_decimal_length (by decide : 0 < Decimal.maxIntegerDigits)
  generalize Nat.pow 10 Decimal.maxIntegerDigits = n at long ⊢
  intro s
  have row : s.locate 2 = ⟨n, 0, Text.ofString "b"⟩ := by
    have first : s.locate 2 = ⟨((n : Int) - 1) + 1, 0, Text.ofString "b"⟩ := s.locate_eq 2
    rw [first, Int.sub_add_cancel]
  refine ⟨row, ?_⟩
  obtain ⟨row', column, shown, mark, blanks, located, -, -, fails, -⟩ :=
    diagnostic_shows s 2 (Text.ofString "Bad")
  obtain ⟨rfl, -, -⟩ := Location.mk.inj (row.symm.trans located)
  exact fails ⟨⟨[Sign.lineFeed], List.mem_singleton_self _, [0x61], [0x62], rfl⟩, long⟩

end SourceText
end TokenRules.Source
