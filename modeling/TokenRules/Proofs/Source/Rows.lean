import TokenRules.Proofs.Source.Lookup

/-! Rows and columns by the breaks of a text. Which breaks a text has is said by the sequences of its
convention alone: the first place with one is looked for, and the next behind it. A place has the row of
the breaks that end before it, and the column from the last of them. -/
namespace TokenRules.Source

variable {mode : LineBreaks} {content : Text}

namespace LineBreaks

/-- The sequences that make one break, the pair before its first character. -/
def sequences : LineBreaks → List Text
  | .normal => [[Sign.carriageReturn, Sign.lineFeed], [Sign.carriageReturn], [Sign.lineFeed]]
  | .unicode => [Sign.carriageReturn, Sign.lineFeed] ::
      [0x0A, 0x0B, 0x0C, 0x0D, 0x1C, 0x1D, 0x1E, 0x85, 0x2028, 0x2029].map ([·])
  | .unix => [[Sign.lineFeed]]
  | .apple => [[Sign.carriageReturn]]
  | .dos => [[Sign.carriageReturn, Sign.lineFeed]]

/-- The break at the front of a text. -/
def ahead? (mode : LineBreaks) (t : Text) : Option Text :=
  mode.sequences.find? (·.isPrefixOf t)

/-- The breaks of a text from a place on: the leftmost one, and those of what is behind it. -/
inductive Cut (mode : LineBreaks) (content : Text) : Nat → List Break → Prop where
  | done : (∀ place, start ≤ place → mode.ahead? (content.drop place) = none) → Cut mode content start []
  | next : start ≤ place →
      (∀ earlier, start ≤ earlier → earlier < place → mode.ahead? (content.drop earlier) = none) →
      mode.ahead? (content.drop place) = some mark → Cut mode content (place + mark.length) bs →
      Cut mode content start (⟨place, place + mark.length⟩ :: bs)

theorem ahead?_nil (mode : LineBreaks) : mode.ahead? [] = none := by
  cases mode <;> rfl

theorem find?_single (l : List CodePoint) (c : CodePoint) (t : Text) :
    (l.map ([·])).find? (·.isPrefixOf (c :: t)) = if c ∈ l then some [c] else none := by
  induction l with
  | nil => rfl
  | cons d l ih =>
    by_cases same : d = c
    · simp [same]
    · simp [same, Ne.symm same, ih]

theorem isPrefixOf_pair (a b c : CodePoint) (t : Text) :
    [a, b].isPrefixOf (c :: t) = (c == a && t.head? == some b) := by
  cases t with
  | nil => simp [List.isPrefixOf]
  | cons d t => simp [List.isPrefixOf, Bool.beq_comm (a := a), Bool.beq_comm (a := b)]

/-- A pair is one break, where it is one at all; else a character is a break by itself or none. -/
theorem ahead?_cons (mode : LineBreaks) (c : CodePoint) (t : Text) : mode.ahead? (c :: t) =
    if mode.joinsPair && (c == Sign.carriageReturn && t.head? == some Sign.lineFeed) then
      some [Sign.carriageReturn, Sign.lineFeed]
    else if mode.breaksAt c then some [c] else none := by
  have single : ∀ l : List CodePoint, (c ∈ l ↔ mode.breaksAt c) →
      (l.map ([·])).find? (·.isPrefixOf (c :: t)) = if mode.breaksAt c then some [c] else none :=
    fun l same => by simp only [find?_single, same]
  cases mode with
  | normal =>
    have others := single [Sign.carriageReturn, Sign.lineFeed] (by simp [breaksAt, or_comm])
    rw [ahead?, sequences, List.find?_cons, isPrefixOf_pair]
    simp only [joinsPair, Bool.true_and]
    split <;> simp_all
  | unicode =>
    have others := single [0x0A, 0x0B, 0x0C, 0x0D, 0x1C, 0x1D, 0x1E, 0x85, 0x2028, 0x2029] (by
      simp [breaksAt]
      grind)
    rw [ahead?, sequences, List.find?_cons, isPrefixOf_pair]
    simp only [joinsPair, Bool.true_and]
    split <;> simp_all
  | unix => exact single [Sign.lineFeed] (by simp [breaksAt])
  | apple => exact single [Sign.carriageReturn] (by simp [breaksAt])
  | dos =>
    rw [ahead?, sequences, List.find?_cons, isPrefixOf_pair]
    simp only [joinsPair, Bool.true_and, breaksAt]
    split <;> simp_all

/-- A break is read off the text, and is the pair or one character. -/
theorem ahead?_shape (ahead : mode.ahead? t = some mark) : mark <+: t ∧
    (mark = [Sign.carriageReturn, Sign.lineFeed] ∨ mark.length = 1) := by
  have front : mark.isPrefixOf t := List.find?_some (p := fun (w : Text) => w.isPrefixOf t) ahead
  refine ⟨List.isPrefixOf_iff_prefix.mp front, ?_⟩
  cases t with
  | nil => rw [ahead?_nil] at ahead; contradiction
  | cons c t =>
    rw [ahead?_cons] at ahead
    split at ahead
    · exact .inl (Option.some.inj ahead).symm
    · split at ahead
      · obtain rfl := Option.some.inj ahead
        exact .inr rfl
      · contradiction

/-- A place without a break is passed over. -/
theorem Cut.skip (bare : mode.ahead? (content.drop start) = none) (cut : Cut mode content (start + 1) bs) :
    Cut mode content start bs := by
  have later : ∀ place, start ≤ place → place ≠ start → start + 1 ≤ place := by omega
  cases cut with
  | done none =>
    refine .done fun place least => ?_
    rcases Nat.decEq place start with other | rfl
    · exact none place (later place least other)
    · exact bare
  | next least none ahead rest =>
    refine .next (Nat.le_of_succ_le least) (fun earlier first less => ?_) ahead rest
    rcases Nat.decEq earlier start with other | rfl
    · exact none earlier (later earlier first other) less
    · exact bare

/-- Behind the end of a text there are no breaks. -/
theorem Cut.ended (past : content.length ≤ start) : Cut mode content start [] := by
  refine .done fun place least => ?_
  rw [List.drop_eq_nil_of_le (Nat.le_trans past least), ahead?_nil]

/-- A break right ahead is the first. -/
theorem Cut.taken (ahead : mode.ahead? (content.drop start) = some mark)
    (rest : Cut mode content (start + mark.length) bs) :
    Cut mode content start (⟨start, start + mark.length⟩ :: bs) :=
  .next (Nat.le_refl start) (fun _ first less => absurd first (Nat.not_le_of_lt less)) ahead rest

/-- The breaks found from left to right are those of the text. -/
theorem cut_breaks (mode : LineBreaks) (behind : content.drop offset = t) :
    Cut mode content offset (breaks mode offset t) := by
  have next : ∀ n, content.drop (offset + n) = t.drop n := fun n => by rw [← behind, List.drop_drop]
  fun_induction breaks mode offset t with
  | case1 offset => exact .ended (List.drop_eq_nil_iff.mp behind)
  | case2 offset c single =>
    have ahead : mode.ahead? (content.drop offset) = some [c] := by simp [behind, ahead?_cons, single]
    exact .taken ahead (.ended (List.drop_eq_nil_iff.mp (next 1)))
  | case3 offset c notSingle =>
    have bare : mode.ahead? (content.drop offset) = none := by simp [behind, ahead?_cons, notSingle]
    exact .skip bare (.ended (List.drop_eq_nil_iff.mp (next 1)))
  | case4 offset c d rest pair ih =>
    simp only [Bool.and_eq_true, beq_iff_eq] at pair
    obtain ⟨⟨joins, rfl⟩, rfl⟩ := pair
    have ahead : mode.ahead? (content.drop offset) = some [Sign.carriageReturn, Sign.lineFeed] := by
      simp [behind, ahead?_cons, joins]
    refine .taken ahead (ih (next 2) fun n => ?_)
    rw [Nat.add_assoc, next, Nat.add_comm 2 n]
    rfl
  | case5 offset c d rest notPair single ih =>
    have ahead : mode.ahead? (content.drop offset) = some [c] := by
      rw [behind, ahead?_cons, if_neg (by simpa [and_assoc] using notPair), if_pos single]
    refine .taken ahead (ih (next 1) fun n => ?_)
    rw [Nat.add_assoc, next, Nat.add_comm 1 n]
    rfl
  | case6 offset c d rest notPair notSingle ih =>
    have bare : mode.ahead? (content.drop offset) = none := by
      rw [behind, ahead?_cons, if_neg (by simpa [and_assoc] using notPair), if_neg notSingle]
    refine .skip bare (ih (next 1) fun n => ?_)
    rw [Nat.add_assoc, next, Nat.add_comm 1 n]
    rfl

/-- The first place with a break is only one, so a text has its breaks in one way only. -/
theorem Cut.unique (cut : Cut mode content start bs) (cut' : Cut mode content start bs') : bs = bs' := by
  induction cut generalizing bs' with
  | done none =>
    cases cut' with
    | done => rfl
    | next least _ ahead =>
      rw [none _ least] at ahead
      contradiction
  | @next start place mark bs least none ahead rest ih =>
    cases cut' with
    | done none' =>
      rw [none' _ least] at ahead
      contradiction
    | @next _ place' mark' bs' least' none' ahead' rest' =>
      have same : place = place' := by
        rcases Nat.lt_trichotomy place place' with less | same | less
        · rw [none' _ least less] at ahead
          contradiction
        · exact same
        · rw [none _ least' less] at ahead'
          contradiction
      subst same
      obtain rfl := Option.some.inj (ahead.symm.trans ahead')
      rw [ih rest']

/-- What a break is, by the text at its place. -/
theorem Cut.mem (cut : Cut mode content start bs) (member : b ∈ bs) :
    start ≤ b.start ∧ ∃ mark, mode.ahead? (content.drop b.start) = some mark ∧
      b.stop = b.start + mark.length := by
  induction cut with
  | done => simp at member
  | @next start place mark bs least none ahead rest ih =>
    rcases List.mem_cons.mp member with rfl | later
    · exact ⟨least, mark, ahead, rfl⟩
    · obtain ⟨further, found⟩ := ih later
      exact ⟨by omega, found⟩

/-- What a break spells, and how long it is. -/
theorem Cut.spelled (cut : Cut mode content start bs) : ∀ b ∈ bs,
    content.slice b.start b.stop = [Sign.carriageReturn, Sign.lineFeed] ∨ b.stop = b.start + 1 := by
  induction cut with
  | done => simp
  | @next start place mark bs least none ahead rest ih =>
    refine List.forall_mem_cons.mpr ⟨?_, ih⟩
    obtain ⟨front, pair | single⟩ := ahead?_shape ahead
    · rw [Text.slice, Nat.add_sub_cancel_left, ← List.prefix_iff_eq_take.mp front]
      exact .inl pair
    · rw [single]
      exact .inr rfl

end LineBreaks

/-- Where the line behind some breaks starts. -/
def lineStart (passed : List Break) : Nat := (passed.getLast?.map (·.stop)).getD 0

/-- Where the line before some breaks of a text ends. -/
def lineStop (content : Text) (ahead : List Break) : Nat := (ahead.head?.map (·.start)).getD content.length

theorem lineStart_le {bs : List Break} (ended : ∀ b ∈ bs, b.stop ≤ place) : lineStart bs ≤ place := by
  rw [lineStart]
  cases last : bs.getLast? with
  | none => exact Nat.zero_le place
  | some b => exact ended b (List.mem_of_getLast? last)

theorem slice_append_drop (content : Text) (order : start ≤ stop) :
    content.slice start stop ++ content.drop stop = content.drop start := by
  have split := List.take_append_drop (stop - start) (content.drop start)
  rwa [List.drop_drop, Nat.add_sub_cancel' order] at split

/-- The lines between the breaks, each with the break behind it, make up the text. -/
theorem LineBreaks.Cut.interleaved (cut : mode.Cut content start bs) :
    (List.zipWith (· ++ ·)
      (List.zipWith content.slice (start :: bs.map (·.stop)) (bs.map (·.start) ++ [content.length]))
      (bs.map (fun b => content.slice b.start b.stop) ++ [[]])).flatten = content.drop start := by
  induction cut with
  | @done start none =>
    simp [Text.slice, List.take_of_length_le]
  | @next start place mark bs least none ahead rest ih =>
    simp only [List.map_cons, List.cons_append, List.zipWith_cons_cons, List.flatten_cons, ih,
      List.append_assoc]
    rw [slice_append_drop content (Nat.le_add_right _ _), slice_append_drop content least]

/-- The breaks that end at or before a place. -/
def passed (bs : List Break) (index : Nat) : List Break := bs.filter (·.stop ≤ index)

/-- The breaks that end behind a place. -/
def ahead (bs : List Break) (index : Nat) : List Break := bs.filter (index < ·.stop)

/-- A place parts the breaks into those that end before it and those that end behind it. -/
theorem parted {bs : List Break} (within : ∀ b ∈ bs, b.start < b.stop)
    (ordered : bs.Pairwise fun b b' => b.stop ≤ b'.start) (index : Nat) :
    passed bs index ++ ahead bs index = bs := by
  induction ordered with
  | nil => rfl
  | @cons b bs later ordered ih =>
    have rest := ih fun b' member => within b' (List.mem_cons_of_mem b member)
    rw [passed, ahead] at rest ⊢
    by_cases ended : b.stop ≤ index
    · simp [ended, Nat.not_lt_of_le ended, rest]
    · have behind : ∀ b' ∈ bs, index < b'.stop := fun b' member =>
        Nat.lt_trans (Nat.lt_of_lt_of_le (Nat.lt_of_not_le ended) (later b' member))
          (within b' (List.mem_cons_of_mem b member))
      have none : bs.filter (·.stop ≤ index) = [] :=
        List.filter_eq_nil_iff.mpr fun b' member => by simpa using behind b' member
      rw [none, List.nil_append] at rest
      simp [ended, Nat.lt_of_not_le ended, none, rest]

namespace SourceText

theorem lineStarts_getElem? (s : SourceText) (inside : k ≤ s.breaks.length) :
    s.lineStarts[k]? = some (lineStart (s.breaks.take k)) := by
  cases k with
  | zero => rfl
  | succ k =>
    have found : s.breaks[k]? = some s.breaks[k] := List.getElem?_eq_getElem inside
    simp [lineStarts, lineStart, List.getLast?_take, found]

theorem lineStops_getElem? (s : SourceText) (inside : k ≤ s.breaks.length) :
    s.lineStops[k]? = some (lineStop s.content (s.breaks.drop k)) := by
  rw [lineStops, lineStop, List.head?_drop]
  rcases Nat.eq_or_lt_of_le inside with rfl | less
  · simp
  · rw [List.getElem?_append_left (by simpa using less), List.getElem?_map,
      List.getElem?_eq_getElem less]
    rfl

/-- The line of a row is between the break before it and the one behind it. -/
theorem line?_between (s : SourceText) (inside : k ≤ s.breaks.length) :
    s.line? (s.firstRow + k) =
      some (s.content.slice (lineStart (s.breaks.take k)) (lineStop s.content (s.breaks.drop k))) := by
  have index : (s.firstRow + k - s.firstRow).toNat = k := by omega
  rw [line?, index, s.lineStarts_getElem? inside, s.lineStops_getElem? inside]
  rfl

/-- The rows of a text are the lines between its breaks. -/
theorem line?_zip (s : SourceText) (k : Nat) :
    s.line? (s.firstRow + k) = (List.zipWith s.content.slice s.lineStarts s.lineStops)[k]? := by
  have index : (s.firstRow + k - s.firstRow).toNat = k := by omega
  rw [line?, index, List.getElem?_zipWith]
  cases s.lineStarts[k]? with
  | none => rfl
  | some start => cases s.lineStops[k]? <;> rfl

theorem line?_beyond (s : SourceText) (beyond : s.breaks.length < k) : s.line? (s.firstRow + k) = none := by
  rw [s.line?_zip, List.getElem?_eq_none_iff, List.length_zipWith, lineStarts, List.length_cons,
    List.length_map]
  omega

theorem passed_append_ahead (s : SourceText) (index : Nat) :
    passed s.breaks index ++ ahead s.breaks index = s.breaks :=
  parted (fun b member => (breaks_within s.lineBreaks 0 s.content b member).2.1)
    (breaks_ordered s.lineBreaks 0 s.content) index

theorem take_passed (s : SourceText) (index : Nat) :
    s.breaks.take (passed s.breaks index).length = passed s.breaks index := by
  have split := congrArg (List.take (passed s.breaks index).length) (s.passed_append_ahead index)
  rw [List.take_left] at split
  exact split.symm

theorem drop_passed (s : SourceText) (index : Nat) :
    s.breaks.drop (passed s.breaks index).length = ahead s.breaks index := by
  have split := congrArg (List.drop (passed s.breaks index).length) (s.passed_append_ahead index)
  rw [List.drop_left] at split
  exact split.symm

theorem passed_length_le (s : SourceText) (index : Nat) :
    (passed s.breaks index).length ≤ s.breaks.length :=
  List.length_filter_le _ _

theorem lineIndex_eq (s : SourceText) (index : Nat) :
    s.lineIndex index = (passed s.breaks index).length := by
  have count : s.lineStarts.countP (fun (start : Nat) => (start : Int) ≤ (index : Int)) =
      (passed s.breaks index).length + 1 := by
    rw [lineStarts, List.countP_cons_of_pos (by simp), List.countP_map, List.countP_eq_length_filter,
      passed]
    simp [Function.comp_def]
  rw [lineIndex, count]
  omega

theorem rowColumn_eq (s : SourceText) (index : Nat) : s.rowColumn index =
    (s.firstRow + (passed s.breaks index).length, (index : Int) - lineStart (passed s.breaks index)) := by
  have start := s.lineStarts_getElem? (s.passed_length_le index)
  rw [s.take_passed index] at start
  rw [rowColumn, lineIndex_eq, columnOrigin, if_neg (by omega), Int.toNat_natCast,
    List.getD_eq_getElem?_getD, start, Int.add_comm]
  rfl

/-- The line around a place. -/
theorem line?_around (s : SourceText) (index : Nat) :
    s.line? (s.firstRow + (passed s.breaks index).length) =
      some (s.content.slice (lineStart (passed s.breaks index))
        (lineStop s.content (ahead s.breaks index))) := by
  rw [s.line?_between (s.passed_length_le index), s.take_passed index, s.drop_passed index]

/-- The location of a place by the breaks before it and behind it. -/
theorem locate_eq (s : SourceText) (index : Nat) : s.locate index =
    ⟨s.firstRow + (passed s.breaks index).length, (index : Int) - lineStart (passed s.breaks index),
      s.content.slice (lineStart (passed s.breaks index)) (lineStop s.content (ahead s.breaks index))⟩ := by
  simp only [locate, s.rowColumn_eq index, s.line?_around index, Option.getD_some]

/-- The row of a place and then its column grow from one place to the next. -/
theorem rowColumn_grows (s : SourceText) {i j : Nat} (less : i < j) :
    Prod.Lex (· < ·) (· < ·) (s.rowColumn i) (s.rowColumn j) := by
  have sub : passed s.breaks i = passed (passed s.breaks j) i := by
    rw [passed, passed, passed, List.filter_filter]
    refine List.filter_congr fun b _ => ?_
    have both : b.stop ≤ i → b.stop ≤ j := fun ended => Nat.le_trans ended (Nat.le_of_lt less)
    simpa using both
  have more : (passed s.breaks i).length ≤ (passed s.breaks j).length := by
    rw [sub]
    exact List.length_filter_le _ _
  rw [s.rowColumn_eq i, s.rowColumn_eq j]
  rcases Nat.lt_or_eq_of_le more with fewer | same
  · exact .left _ _ (by omega)
  · have equal : passed s.breaks i = passed s.breaks j := by
      rw [← s.take_passed i, same, s.take_passed j]
    rw [equal]
    exact .right _ (by omega)

/-- The line around a place starts before it ends, and ends in the text. -/
theorem line_bounds (s : SourceText) (index : Nat) :
    lineStart (passed s.breaks index) ≤ lineStop s.content (ahead s.breaks index) ∧
      lineStop s.content (ahead s.breaks index) ≤ s.content.length := by
  have within := breaks_within s.lineBreaks 0 s.content
  have ordered := breaks_ordered s.lineBreaks 0 s.content
  rw [← breaks, ← s.passed_append_ahead index, List.pairwise_append] at ordered
  rw [← breaks] at within
  have follows := ordered.2.2
  cases rest : ahead s.breaks index with
  | nil =>
    have ended : ∀ b ∈ passed s.breaks index, b.stop ≤ s.content.length := fun b member => by
      simpa using (within b (List.mem_filter.mp member).1).2.2
    exact ⟨lineStart_le ended, Nat.le_refl _⟩
  | cons b' bs =>
    have head : b' ∈ ahead s.breaks index := by rw [rest]; exact .head bs
    have inside := within b' (List.mem_filter.mp head).1
    exact ⟨lineStart_le fun b member => follows b member b' head, show b'.start ≤ _ by omega⟩

/-- Where one of the breaks of a text is a pair, and a place is between its two characters. -/
def InsidePair (content : Text) (bs : List Break) (index : Nat) : Prop :=
  ∃ b ∈ bs, content.slice b.start b.stop = [Sign.carriageReturn, Sign.lineFeed] ∧ index = b.start + 1

theorem pair_stop (s : SourceText) (member : b ∈ s.breaks)
    (pair : s.content.slice b.start b.stop = [Sign.carriageReturn, Sign.lineFeed]) :
    b.stop = b.start + 2 := by
  have within := breaks_within s.lineBreaks 0 s.content b member
  have length := congrArg List.length pair
  rw [Text.slice, List.length_take, List.length_drop] at length
  simp only [List.length_cons, List.length_nil] at length
  omega

/-- A place is in its line or right behind it, or one further, between the two characters of a pair. -/
theorem column_within (s : SourceText) (inside : index ≤ s.content.length) :
    lineStart (passed s.breaks index) ≤ index ∧
    (index = lineStop s.content (ahead s.breaks index) + 1 ∧ InsidePair s.content s.breaks index ∨
      index ≤ lineStop s.content (ahead s.breaks index) ∧ ¬ InsidePair s.content s.breaks index) := by
  constructor
  · exact lineStart_le fun b member => by simpa using (List.mem_filter.mp member).2
  · have among : InsidePair s.content s.breaks index → ∃ b ∈ ahead s.breaks index, index = b.start + 1 := by
      rintro ⟨b, member, pair, rfl⟩
      have stop := s.pair_stop member pair
      exact ⟨b, List.mem_filter.mpr ⟨member, decide_eq_true (by omega)⟩, rfl⟩
    have split := s.passed_append_ahead index
    have ordered := breaks_ordered s.lineBreaks 0 s.content
    rw [← breaks, ← split, List.pairwise_append] at ordered
    obtain ⟨-, ordered, -⟩ := ordered
    cases rest : ahead s.breaks index with
    | nil =>
      rw [rest] at among
      exact .inr ⟨inside, fun pair => by simpa using among pair⟩
    | cons b bs =>
      rw [rest] at among ordered
      have member : b ∈ s.breaks ∧ index < b.stop := by
        have head : b ∈ ahead s.breaks index := by rw [rest]; exact .head bs
        simpa [ahead] using head
      have stop : lineStop s.content (b :: bs) = b.start := rfl
      rw [stop]
      rcases Nat.lt_or_ge b.start index with behind | before
      · rcases (LineBreaks.cut_breaks s.lineBreaks rfl).spelled b member.1 with pair | single
        · have long := s.pair_stop member.1 pair
          obtain rfl : index = b.start + 1 := by omega
          exact .inl ⟨rfl, b, member.1, pair, rfl⟩
        · omega
      · refine .inr ⟨before, fun pair => ?_⟩
        obtain ⟨b', here, rfl⟩ := among pair
        rcases List.mem_cons.mp here with rfl | later
        · omega
        · have order := (List.pairwise_cons.mp ordered).1 b' later
          omega

/-- Places are located exactly. The breaks of a text are those that its convention has, from left to
right. A place has the row of the breaks that end at or before it and the column from the last of them;
its line is what is between that break and the next. The lines and breaks in turn are the text. No two
places have the same row and column, as those grow from place to place; and a column is past the end of its
line only between the two characters of a pair. -/
theorem located_exactly (s : SourceText) :
    ∃ bs, s.lineBreaks.Cut s.content 0 bs ∧ (∀ bs', s.lineBreaks.Cut s.content 0 bs' → bs' = bs) ∧
    (∀ index ≤ s.content.length, ∃ row column line,
      row = s.firstRow + (passed bs index).length ∧
      column = (index : Int) - lineStart (passed bs index) ∧
      line = s.content.slice (lineStart (passed bs index)) (lineStop s.content (ahead bs index)) ∧
      s.rowColumn index = (row, column) ∧ s.line? row = some line ∧
      s.locate index = ⟨row, column, line⟩ ∧ s.locate? index = some ⟨row, column, line⟩ ∧
      (column = line.length + 1 ∧ InsidePair s.content bs index ∨
        column ≤ line.length ∧ ¬ InsidePair s.content bs index)) ∧
    (∃ lines, lines.length = bs.length + 1 ∧ (∀ k : Nat, s.line? (s.firstRow + k) = lines[k]?) ∧
      (List.zipWith (· ++ ·) lines
        (bs.map (fun b => s.content.slice b.start b.stop) ++ [[]])).flatten = s.content) ∧
    (∀ i j : Nat, i < j → Prod.Lex (· < ·) (· < ·) (s.rowColumn i) (s.rowColumn j)) ∧
    ∀ i j : Nat, s.rowColumn i = s.rowColumn j → i = j := by
  have cut : s.lineBreaks.Cut s.content 0 s.breaks := LineBreaks.cut_breaks s.lineBreaks rfl
  refine ⟨s.breaks, cut, fun _ other => other.unique cut, ?_, ?_, fun _ _ => s.rowColumn_grows, ?_⟩
  · intro index inside
    have place := s.rowColumn_eq index
    have line := s.line?_around index
    have located : s.locate index = ⟨s.firstRow + (passed s.breaks index).length,
        (index : Int) - lineStart (passed s.breaks index),
        s.content.slice (lineStart (passed s.breaks index)) (lineStop s.content (ahead s.breaks index))⟩ := by
      simp only [locate, place, line, Option.getD_some]
    refine ⟨_, _, _, rfl, rfl, rfl, place, line, located, by rw [locate?_eq, located], ?_⟩
    obtain ⟨order, most⟩ := s.line_bounds index
    obtain ⟨least, column⟩ := s.column_within inside
    have length : (s.content.slice (lineStart (passed s.breaks index))
        (lineStop s.content (ahead s.breaks index))).length =
        lineStop s.content (ahead s.breaks index) - lineStart (passed s.breaks index) := by
      rw [Text.slice, List.length_take, List.length_drop]
      omega
    rw [length]
    rcases column with ⟨further, pair⟩ | ⟨within, noPair⟩
    · exact .inl ⟨by omega, pair⟩
    · exact .inr ⟨by omega, noPair⟩
  · refine ⟨_, ?_, s.line?_zip, cut.interleaved⟩
    simp [lineStarts, lineStops]
  · have apart : ∀ {i j : Nat}, i < j → s.rowColumn i ≠ s.rowColumn j := by
      intro i j less same
      have grows := s.rowColumn_grows less
      rw [same, Prod.lex_def] at grows
      omega
    intro i j same
    rcases Nat.lt_trichotomy i j with less | equal | less
    · exact absurd same (apart less)
    · exact equal
    · exact absurd same.symm (apart less)

/-- Two lines with a pair between them. -/
def twoLines : SourceText := ⟨[0x61, Sign.carriageReturn, Sign.lineFeed, 0x62], .normal, 7⟩

theorem located_exactly_pair :
    twoLines.locate (2 : Nat) = ⟨7, 2, [0x61]⟩ ∧
      twoLines.rowColumn (1 : Nat) ≠ twoLines.rowColumn (2 : Nat) := by
  obtain ⟨bs, -, unique, places, -, -, apart⟩ := located_exactly twoLines
  obtain rfl : twoLines.breaks = bs := unique _ (LineBreaks.cut_breaks _ rfl)
  obtain ⟨row, column, line, rfl, rfl, rfl, -, -, located, -⟩ := places 2 (by decide)
  exact ⟨located, fun same => by simpa using apart 1 2 same⟩

end SourceText
end TokenRules.Source
