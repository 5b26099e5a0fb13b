import TokenRules.Source.Location

/-! Locations by look-up: the row is found by halving in the table of line starts, and its line is cut
out between a start and a stop. Every look-up may fail by itself; none does, whatever the offset. -/
namespace TokenRules.Source

/-- The breaks of a text lie in it, one after the other. -/
theorem breaks_within (mode : LineBreaks) (offset : Nat) (t : Text) :
    ∀ b ∈ breaks mode offset t,
      offset ≤ b.start ∧ b.start < b.stop ∧ b.stop ≤ offset + t.length := by
  fun_induction breaks mode offset t with
  | case1 => simp
  | case2 => simp
  | case3 => simp
  | case4 offset c d rest _ ih =>
    simp only [List.length_cons]
    refine List.forall_mem_cons.mpr ⟨by simp only; omega, fun b member => ?_⟩
    have within := ih b member
    omega
  | case5 offset c d rest _ _ ih =>
    simp only [List.length_cons] at ih ⊢
    refine List.forall_mem_cons.mpr ⟨by simp only; omega, fun b member => ?_⟩
    have within := ih b member
    omega
  | case6 offset c d rest _ _ ih =>
    simp only [List.length_cons] at ih ⊢
    intro b member
    have within := ih b member
    omega

theorem breaks_length (mode : LineBreaks) (offset : Nat) (t : Text) :
    (breaks mode offset t).length ≤ t.length := by
  fun_induction breaks mode offset t with
  | case1 | case2 | case3 => simp
  | case4 offset c d rest _ ih | case5 offset c d rest _ _ ih | case6 offset c d rest _ _ ih =>
    simp only [List.length_cons] at ih ⊢
    omega

theorem breaks_ordered (mode : LineBreaks) (offset : Nat) (t : Text) :
    (breaks mode offset t).Pairwise fun b b' => b.stop ≤ b'.start := by
  fun_induction breaks mode offset t with
  | case1 => exact .nil
  | case2 => exact List.pairwise_singleton _ _
  | case3 => exact .nil
  | case4 offset c d rest _ ih =>
    exact .cons (fun b member => (breaks_within mode _ _ b member).1) ih
  | case5 offset c d rest _ _ ih =>
    exact .cons (fun b member => (breaks_within mode _ _ b member).1) ih
  | case6 offset c d rest _ _ ih => exact ih

/-- The item of a list at an index; a negative one counts from the end. -/
def itemAt? (l : List α) (index : Int) : Option α :=
  if 0 ≤ index then l[index.toNat]?
  else if 0 ≤ index + l.length then l[(index + l.length).toNat]?
  else none

theorem itemAt?_ofNat (l : List α) (i : Nat) : itemAt? l i = l[i]? := by
  rw [itemAt?, if_pos (Int.natCast_nonneg i), Int.toNat_natCast]

theorem itemAt?_last (l : List α) (a : α) : itemAt? (l ++ [a]) (-1) = some a := by
  have last : (-1 + ((l ++ [a]).length : Int)).toNat = l.length := by
    rw [List.length_append, List.length_singleton]
    omega
  rw [itemAt?, if_neg (by decide), if_pos (by simp only [List.length_append, List.length_singleton]; omega),
    last, List.getElem?_append_right (Nat.le_refl _), Nat.sub_self]
  rfl

/-- The place after the last entry that is not above `x`, among those of a row from `low` up to `high`,
found by halving. -/
def halve? (row : List Nat) (x : Int) (low high : Nat) : Option Nat :=
  if low < high then
    match row[(low + high) / 2]? with
    | none => none
    | some y =>
      if x < (y : Int) then halve? row x low ((low + high) / 2)
      else halve? row x ((low + high) / 2 + 1) high
  else some low
termination_by high - low

/-- The entries of a row from `low` up to `high`. -/
def segment (row : List Nat) (low high : Nat) : List Nat :=
  (row.take high).drop low

theorem segment_append (row : List Nat) (first : low ≤ middle) (second : middle ≤ high)
    (within : high ≤ row.length) :
    segment row low high = segment row low middle ++ segment row middle high := by
  have front : (row.take high).take middle = row.take middle := by
    rw [List.take_take, Nat.min_eq_left second]
  have long : low ≤ (row.take middle).length := by
    rw [List.length_take]
    omega
  have split := List.take_append_drop middle (row.take high)
  rw [front] at split
  rw [segment, segment, segment, ← List.drop_append_of_le_length long, split]

theorem mem_segment (member : y ∈ segment row low high) :
    ∃ i, ∃ inside : i < row.length, low ≤ i ∧ i < high ∧ row[i] = y := by
  obtain ⟨i, inside, rfl⟩ := List.mem_iff_getElem.mp member
  simp only [segment, List.length_drop, List.length_take] at inside
  exact ⟨low + i, by omega, by omega, by omega, by simp [segment]⟩

theorem segment_length (within : high ≤ row.length) : (segment row low high).length = high - low := by
  rw [segment, List.length_drop, List.length_take, Nat.min_eq_left within]

/-- In a row that rises, halving counts the entries that are not above `x`. -/
theorem halve?_eq {row : List Nat} (rises : row.Pairwise (· ≤ ·)) (x : Int) (ordered : low ≤ high)
    (within : high ≤ row.length) : halve? row x low high =
      some (low + (segment row low high).countP fun (y : Nat) => (y : Int) ≤ x) := by
  have above : ∀ i j (hi : i < row.length) (hj : j < row.length), i ≤ j → row[i] ≤ row[j] := by
    intro i j hi hj le
    rcases Nat.eq_or_lt_of_le le with rfl | less
    · exact Nat.le_refl _
    · exact List.pairwise_iff_getElem.mp rises i j hi hj less
  fun_induction halve? row x low high with
  | case1 low high less missing =>
    rw [List.getElem?_eq_none_iff] at missing
    omega
  | case2 low high less y found below ih =>
    obtain ⟨inside, rfl⟩ := List.getElem?_eq_some_iff.mp found
    -- The row rises: with the middle entry above `x`, so is all behind it.
    have nothing : (segment row ((low + high) / 2) high).countP (fun (y : Nat) => (y : Int) ≤ x) = 0 := by
      refine List.countP_eq_zero.mpr ?_
      intro z member
      obtain ⟨i, inside', least, -, rfl⟩ := mem_segment member
      have order := above _ _ inside inside' least
      simp only [decide_eq_true_eq]
      omega
    rw [ih (by omega) (by omega), segment_append row (by omega : low ≤ (low + high) / 2) (by omega) within,
      List.countP_append, nothing, Nat.add_zero]
  | case3 low high less y found notBelow ih =>
    obtain ⟨inside, rfl⟩ := List.getElem?_eq_some_iff.mp found
    have past : (low + high) / 2 + 1 ≤ row.length := by omega
    have all : (segment row low ((low + high) / 2 + 1)).countP (fun (y : Nat) => (y : Int) ≤ x) =
        (low + high) / 2 + 1 - low := by
      rw [← segment_length past, List.countP_eq_length]
      intro z member
      obtain ⟨i, inside', -, most, rfl⟩ := mem_segment member
      have order := above _ _ inside' inside (by omega)
      simp only [decide_eq_true_eq]
      omega
    rw [ih (by omega) within,
      segment_append row (by omega : low ≤ (low + high) / 2 + 1) (by omega) within,
      List.countP_append, all, ← Nat.add_assoc]
    congr 2
    omega
  | case4 low high notLess =>
    have empty : segment row low high = [] := by
      rw [segment, List.drop_eq_nil_iff, List.length_take]
      omega
    rw [empty]
    rfl

namespace SourceText

/-- Where the lines start, and the end of the text. -/
def bounds (s : SourceText) : List Nat :=
  s.lineStarts ++ [s.content.length]

/-- The table of the starts rises up to the end of the text. -/
theorem bounds_rise (s : SourceText) : s.bounds.Pairwise (· ≤ ·) := by
  have within := breaks_within s.lineBreaks 0 s.content
  rw [bounds, lineStarts, List.cons_append, List.pairwise_cons, List.pairwise_append, List.pairwise_map]
  refine ⟨fun _ _ => Nat.zero_le _, ?_, List.pairwise_singleton _ _, ?_⟩
  · refine (breaks_ordered s.lineBreaks 0 s.content).imp_of_mem ?_
    intro b b' _ member le
    have later := within b' member
    omega
  · intro stop member length same
    obtain ⟨b, among, rfl⟩ := List.mem_map.mp member
    obtain rfl := List.mem_singleton.mp same
    have last := within b among
    omega

theorem bounds_lineStarts (s : SourceText) : s.bounds.length - 1 = s.lineStarts.length ∧
    segment s.bounds 0 s.lineStarts.length = s.lineStarts := by
  refine ⟨?_, by rw [segment, bounds, List.take_left, List.drop_zero]⟩
  rw [bounds, List.length_append, List.length_singleton, Nat.add_sub_cancel]

theorem lineIndex_inside (s : SourceText) (offset : Int) :
    -1 ≤ s.lineIndex offset ∧ s.lineIndex offset < s.lineStarts.length := by
  have most : s.lineStarts.countP (fun (start : Nat) => (start : Int) ≤ offset) ≤ s.lineStarts.length :=
    List.countP_le_length
  rw [lineIndex]
  omega

/-- A text has no more rows than it has characters, but for the first and for the one above it. -/
theorem row_inside (s : SourceText) (offset : Int) :
    s.firstRow - 1 ≤ (s.locate offset).row ∧ (s.locate offset).row ≤ s.firstRow + s.content.length := by
  obtain ⟨least, inside⟩ := s.lineIndex_inside offset
  have most : s.breaks.length ≤ s.content.length := breaks_length s.lineBreaks 0 s.content
  have row : (s.locate offset).row = s.lineIndex offset + s.firstRow := rfl
  rw [lineStarts, List.length_cons, List.length_map] at inside
  omega

/-- A column is counted from the start of its line, or before the first line from the end of the text. -/
theorem itemAt?_columnOrigin (s : SourceText) {index : Int} (least : -1 ≤ index)
    (inside : index < s.lineStarts.length) : itemAt? s.bounds index = some (s.columnOrigin index) := by
  rw [columnOrigin]
  split
  · obtain rfl : index = -1 := by omega
    exact itemAt?_last s.lineStarts s.content.length
  · obtain ⟨i, rfl⟩ := Int.eq_ofNat_of_zero_le (by omega : 0 ≤ index)
    have within : i < s.lineStarts.length := by omega
    rw [itemAt?_ofNat, bounds, List.getElem?_append_left within, Int.toNat_natCast,
      List.getD_eq_getElem?_getD, List.getElem?_eq_getElem within, Option.getD_some]

/-- A row up to the last has a line, between an entry of the bounds and one of the stops. -/
theorem line?_inside (s : SourceText) {row : Int} (inside : row - s.firstRow < s.lineStarts.length) :
    ∃ start stop, itemAt? s.bounds (max 0 (row - s.firstRow)) = some start ∧
      itemAt? s.lineStops (max 0 (row - s.firstRow)) = some stop ∧
      s.line? row = some (s.content.slice start stop) := by
  have nonempty : 0 < s.lineStarts.length := Nat.succ_pos _
  have within : (row - s.firstRow).toNat < s.lineStarts.length := by omega
  have within' : (row - s.firstRow).toNat < s.lineStops.length := by
    simpa [lineStarts, lineStops] using within
  have shown : max 0 (row - s.firstRow) = ((row - s.firstRow).toNat : Int) := by omega
  refine ⟨s.lineStarts[(row - s.firstRow).toNat], s.lineStops[(row - s.firstRow).toNat], ?_, ?_, ?_⟩
  · rw [shown, itemAt?_ofNat, bounds, List.getElem?_append_left within, List.getElem?_eq_getElem within]
  · rw [shown, itemAt?_ofNat, List.getElem?_eq_getElem within']
  · simp only [line?, List.getElem?_eq_getElem within, List.getElem?_eq_getElem within',
      Option.bind_eq_bind, Option.bind_some]

/-- The location of an offset by look-up: the row by halving in the bounds short of the last, the origin
of its columns in the bounds, and its line between a bound and a stop. -/
def locate? (s : SourceText) (offset : Int) : Option Location := do
  let count ← halve? s.bounds offset 0 (s.bounds.length - 1)
  let row : Int := (count : Int) - 1 + s.firstRow
  let origin ← itemAt? s.bounds (count - 1)
  let start ← itemAt? s.bounds (max 0 (row - s.firstRow))
  let stop ← itemAt? s.lineStops (max 0 (row - s.firstRow))
  some { row, column := offset - origin, line := s.content.slice start stop }

/-- Every offset has a location: before the text, in it or after it, no look-up fails. -/
theorem locate?_eq (s : SourceText) (offset : Int) : s.locate? offset = some (s.locate offset) := by
  obtain ⟨length, starts⟩ := s.bounds_lineStarts
  obtain ⟨least, inside⟩ := s.lineIndex_inside offset
  have halved : halve? s.bounds offset 0 (s.bounds.length - 1) =
      some (s.lineStarts.countP fun (start : Nat) => (start : Int) ≤ offset) := by
    rw [halve?_eq s.bounds_rise offset (Nat.zero_le _) (Nat.sub_le _ _), length, starts, Nat.zero_add]
  have index : ((s.lineStarts.countP fun (start : Nat) => (start : Int) ≤ offset : Nat) : Int) - 1 =
      s.lineIndex offset := rfl
  have row : s.lineIndex offset + s.firstRow - s.firstRow < s.lineStarts.length := by omega
  obtain ⟨start, stop, bound, stopped, line⟩ := s.line?_inside row
  simp only [locate?, halved, index, s.itemAt?_columnOrigin least inside, bound, stopped,
    Option.bind_eq_bind, Option.bind_some, locate, rowColumn, line, Option.getD_some]

end SourceText
end TokenRules.Source
