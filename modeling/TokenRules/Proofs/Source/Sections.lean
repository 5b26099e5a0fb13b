import TokenRules.Proofs.Source.Rows

/-! Sections of a text. Behind the end of a break the breaks are those of the rest by itself, so the rest has
the same rows, columns and lines as in the whole text, if its rows are counted on. -/
namespace TokenRules.Source

variable {mode : LineBreaks} {content first second : Text}

namespace LineBreaks

/-- A break ahead of a text is not looked for behind the text's end. -/
theorem ahead?_append (ahead : mode.ahead? (t ++ u) = some mark) (inside : mark.length ≤ t.length) :
    mode.ahead? t = some mark := by
  obtain ⟨front, before, after, sequences, others⟩ := List.find?_eq_some_iff_append.mp ahead
  refine List.find?_eq_some_iff_append.mpr ⟨?_, before, after, sequences, ?_⟩
  · rw [List.isPrefixOf_iff_prefix] at front ⊢
    exact List.prefix_of_prefix_length_le front (List.prefix_append t u) inside
  · intro w member
    have other := others w member
    rw [Bool.not_eq_true', Bool.eq_false_iff, Ne, List.isPrefixOf_iff_prefix] at other ⊢
    intro front
    exact other (front.trans (List.prefix_append t u))

theorem ahead?_append_none (bare : mode.ahead? (t ++ u) = none) : mode.ahead? t = none := by
  rw [ahead?, List.find?_eq_none] at bare ⊢
  intro w member
  have other := bare w member
  rw [List.isPrefixOf_iff_prefix] at other ⊢
  intro front
  exact other (front.trans (List.prefix_append t u))

/-- A break that ends where a second text begins parts the breaks of the two. -/
theorem Cut.parted (cut : Cut mode (first ++ second) start bs) (member : b ∈ bs)
    (ends : b.stop = first.length) : ∃ before after, bs = before ++ after ∧
      before.getLast? = some b ∧ Cut mode first start before ∧
      Cut mode (first ++ second) first.length after := by
  induction cut with
  | done => simp at member
  | @next start place mark bs least none ahead rest ih =>
    have within : place + mark.length ≤ first.length := by
      rcases List.mem_cons.mp member with rfl | later
      · exact Nat.le_of_eq ends
      · obtain ⟨further, _, -, stop⟩ := rest.mem later
        omega
    have drops : ∀ n ≤ place, (first ++ second).drop n = first.drop n ++ second := by
      intro n le
      exact List.drop_append_of_le_length (by omega)
    have none' : ∀ earlier, start ≤ earlier → earlier < place →
        mode.ahead? (first.drop earlier) = .none := by
      intro earlier first' less
      have bare := none earlier first' less
      rw [drops earlier (Nat.le_of_lt less)] at bare
      exact ahead?_append_none bare
    have ahead' : mode.ahead? (first.drop place) = some mark := by
      rw [drops place (Nat.le_refl place)] at ahead
      refine ahead?_append ahead ?_
      rw [List.length_drop]
      omega
    rcases List.mem_cons.mp member with rfl | later
    · refine ⟨[_], bs, rfl, rfl, .next least none' ahead' (.ended (Nat.le_of_eq ends.symm)), ?_⟩
      rw [← ends]
      exact rest
    · obtain ⟨before, after, rfl, last, front, back⟩ := ih later
      refine ⟨_ :: before, after, rfl, ?_, .next least none' ahead' front, back⟩
      rw [List.getLast?_cons, last]
      rfl

end LineBreaks

/-- A break of a text that stands further on. -/
def Break.shift (k : Nat) (b : Break) : Break := ⟨k + b.start, k + b.stop⟩

theorem breaks_shift (mode : LineBreaks) (k offset : Nat) (t : Text) :
    breaks mode (k + offset) t = (breaks mode offset t).map (.shift k) := by
  fun_induction breaks mode offset t with
  | case1 => rfl
  | case2 offset c single => simp [breaks, single, Break.shift, Nat.add_assoc]
  | case3 offset c notSingle => simp [breaks, notSingle]
  | case4 offset c d rest pair ih =>
    rw [breaks, if_pos pair, Nat.add_assoc, ih]
    rfl
  | case5 offset c d rest notPair single ih =>
    rw [breaks, if_neg notPair, if_pos single, Nat.add_assoc, ih]
    rfl
  | case6 offset c d rest notPair notSingle ih =>
    rw [breaks, if_neg notPair, if_neg notSingle, Nat.add_assoc, ih]

/-- The breaks of a text up to the end of one of them, and those of the rest. -/
theorem breaks_parted (ends : ∃ b ∈ breaks mode 0 (first ++ second), b.stop = first.length) :
    breaks mode 0 (first ++ second) =
        breaks mode 0 first ++ (breaks mode 0 second).map (.shift first.length) ∧
      ∃ b, (breaks mode 0 first).getLast? = some b ∧ b.stop = first.length := by
  obtain ⟨b, member, stop⟩ := ends
  have whole : ∀ t, mode.Cut t 0 (breaks mode 0 t) := fun t => LineBreaks.cut_breaks mode rfl
  obtain ⟨before, after, parted, last, front, back⟩ := (whole (first ++ second)).parted member stop
  obtain rfl := front.unique (whole first)
  obtain rfl := back.unique (LineBreaks.cut_breaks mode List.drop_left)
  constructor
  · rw [parted, ← breaks_shift]
    rfl
  · exact ⟨b, last, stop⟩

theorem slice_append_right (first second : Text) (start stop : Nat) :
    (first ++ second).slice (first.length + start) (first.length + stop) = second.slice start stop := by
  rw [Text.slice, Text.slice, ← List.drop_drop, List.drop_left, Nat.add_sub_add_left]

theorem passed_shift (k : Nat) (bs : List Break) (index : Nat) :
    passed (bs.map (.shift k)) (k + index) = (passed bs index).map (.shift k) := by
  simp [passed, List.filter_map, Function.comp_def, Break.shift]

theorem ahead_shift (k : Nat) (bs : List Break) (index : Nat) :
    ahead (bs.map (.shift k)) (k + index) = (ahead bs index).map (.shift k) := by
  simp [ahead, List.filter_map, Function.comp_def, Break.shift]

theorem lineStop_shift (first second : Text) (bs : List Break) :
    lineStop (first ++ second) (bs.map (.shift first.length)) = first.length + lineStop second bs := by
  cases bs with
  | nil => exact List.length_append
  | cons b bs => rfl

theorem lineStart_shift (last : ∃ b, before.getLast? = some b ∧ b.stop = k) (bs : List Break) :
    lineStart (before ++ bs.map (.shift k)) = k + lineStart bs := by
  obtain ⟨b, last, rfl⟩ := last
  rw [lineStart, lineStart, List.getLast?_append, List.getLast?_map]
  cases bs.getLast? with
  | none => simp [last]
  | some b' => rfl

/-- The breaks of the first text end before a place of the second. -/
theorem passed_parted (ends : ∃ b ∈ breaks mode 0 (first ++ second), b.stop = first.length) (index : Nat) :
    passed (breaks mode 0 (first ++ second)) (first.length + index) =
      breaks mode 0 first ++ (passed (breaks mode 0 second) index).map (.shift first.length) := by
  have all : (breaks mode 0 first).filter (·.stop ≤ first.length + index) = breaks mode 0 first := by
    refine List.filter_eq_self.mpr ?_
    intro b member
    have within := (breaks_within mode 0 first b member).2.2
    simp only [decide_eq_true_eq]
    omega
  rw [(breaks_parted ends).1, passed, List.filter_append, all, ← passed, passed_shift]

theorem ahead_parted (ends : ∃ b ∈ breaks mode 0 (first ++ second), b.stop = first.length) (index : Nat) :
    ahead (breaks mode 0 (first ++ second)) (first.length + index) =
      (ahead (breaks mode 0 second) index).map (.shift first.length) := by
  have none : (breaks mode 0 first).filter (first.length + index < ·.stop) = [] := by
    refine List.filter_eq_nil_iff.mpr ?_
    intro b member
    have within := (breaks_within mode 0 first b member).2.2
    simp only [decide_eq_true_eq]
    omega
  rw [(breaks_parted ends).1, ahead, List.filter_append, none, List.nil_append, ← ahead, ahead_shift]

namespace SourceText

theorem locate_parted (row : Int)
    (ends : ∃ b ∈ Source.breaks mode 0 (first ++ second), b.stop = first.length) (index : Nat) :
    (SourceText.mk second mode (row + (Source.breaks mode 0 first).length)).locate index =
      (SourceText.mk (first ++ second) mode row).locate (first.length + index : Nat) := by
  obtain ⟨-, last⟩ := breaks_parted ends
  rw [locate_eq, locate_eq, breaks, breaks, passed_parted ends, ahead_parted ends, lineStart_shift last,
    lineStop_shift, slice_append_right, List.length_append, List.length_map]
  generalize passed (Source.breaks mode 0 second) index = before
  have row' : row + (Source.breaks mode 0 first).length + before.length =
      row + ((Source.breaks mode 0 first).length + before.length : Nat) := by
    omega
  have column : (index : Int) - lineStart before =
      (first.length + index : Nat) - (first.length + lineStart before : Nat) := by
    omega
  rw [row', column]

theorem line?_parted (row : Int)
    (ends : ∃ b ∈ Source.breaks mode 0 (first ++ second), b.stop = first.length) (k : Nat) :
    (SourceText.mk second mode (row + (Source.breaks mode 0 first).length)).line?
        (row + (Source.breaks mode 0 first).length + k) =
      (SourceText.mk (first ++ second) mode row).line? (row + (Source.breaks mode 0 first).length + k) := by
  obtain ⟨parted, last⟩ := breaks_parted ends
  let part : SourceText := ⟨second, mode, row + (Source.breaks mode 0 first).length⟩
  let whole : SourceText := ⟨first ++ second, mode, row⟩
  have counted : row + (Source.breaks mode 0 first).length + k =
      whole.firstRow + ((Source.breaks mode 0 first).length + k : Nat) := by
    rw [Int.natCast_add, ← Int.add_assoc]
  have length : whole.breaks.length = (Source.breaks mode 0 first).length + part.breaks.length := by
    rw [breaks, breaks, parted, List.length_append, List.length_map]
  suffices same : part.line? (part.firstRow + k) =
      whole.line? (whole.firstRow + ((Source.breaks mode 0 first).length + k : Nat)) by
    rw [← counted] at same
    exact same
  rcases Nat.lt_or_ge part.breaks.length k with beyond | inside
  · rw [part.line?_beyond beyond, whole.line?_beyond (by omega)]
  · rw [part.line?_between inside, whole.line?_between (by omega), breaks, breaks, parted,
      List.take_length_add_append, List.drop_length_add_append, ← List.map_take, ← List.map_drop,
      lineStart_shift last, lineStop_shift, slice_append_right]

/-- A section that begins behind a break has its places and lines as in the whole text. Its rows are counted on
from the breaks before it; every place has the same location, and every row the same line. -/
theorem section_located (mode : LineBreaks) {first second : Text} (row : Int)
    (ends : ∃ b ∈ Source.breaks mode 0 (first ++ second), b.stop = first.length) :
    let whole : SourceText := ⟨first ++ second, mode, row⟩
    let part : SourceText := ⟨second, mode, row + (Source.breaks mode 0 first).length⟩
    (∀ index : Nat, part.locate index = whole.locate (first.length + index : Nat) ∧
      part.locate? index = whole.locate? (first.length + index : Nat)) ∧
    (∀ k ≤ part.breaks.length, ∃ line, part.line? (part.firstRow + k) = some line ∧
      whole.line? (part.firstRow + k) = some line) ∧
    ∀ k : Nat, part.breaks.length < k →
      part.line? (part.firstRow + k) = none ∧ whole.line? (part.firstRow + k) = none := by
  intro whole part
  refine ⟨?_, ?_, ?_⟩
  · intro index
    have same : part.locate index = whole.locate (first.length + index : Nat) := locate_parted row ends index
    exact ⟨same, by rw [locate?_eq, locate?_eq, same]⟩
  · intro k inside
    have line := part.line?_between inside
    exact ⟨_, line, (line?_parted row ends k).symm.trans line⟩
  · intro k beyond
    have none := part.line?_beyond beyond
    exact ⟨none, (line?_parted row ends k).symm.trans none⟩

/-- A pair ends the first text, and the second begins with another break. -/
theorem section_located_pair :
    let first : Text := [0x61, Sign.carriageReturn, Sign.lineFeed]
    let second : Text := [Sign.lineFeed, 0x62]
    (∃ b ∈ Source.breaks .normal 0 (first ++ second), b.stop = first.length) ∧
      (SourceText.mk second .normal 8).locate (1 : Nat) = ⟨9, 0, [0x62]⟩ ∧
      (SourceText.mk (first ++ second) .normal 7).locate (4 : Nat) = ⟨9, 0, [0x62]⟩ := by
  intro first second
  have ends : ∃ b ∈ Source.breaks .normal 0 (first ++ second), b.stop = first.length := by decide
  obtain ⟨places, -, -⟩ := section_located .normal 7 ends
  have part : (SourceText.mk second .normal 8).locate (1 : Nat) = ⟨9, 0, [0x62]⟩ := by decide
  exact ⟨ends, part, (places 1).1.symm.trans part⟩

end SourceText
end TokenRules.Source
