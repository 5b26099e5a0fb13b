import TokenRules.Proofs.Source.Diagnostic
import TokenRules.Proofs.Source.Sections

/-! Other endings for the lines of a text. A text is a first line, what ends it, and a rest, and is located line
by line; so each place keeps its row, column and line, whatever ends the lines. -/
namespace TokenRules

/-- The text with an ending in place of each line feed. -/
def Text.withEndings (t ending : Text) : Text :=
  t.flatMap fun c => if c = Sign.lineFeed then ending else [c]

/-- Where a place of the text is with other endings: behind the same part. -/
def Text.placeWithEndings (t ending : Text) (place : Nat) : Nat :=
  (Text.withEndings (t.take place) ending).length

namespace Text

variable {t ending : Text}

theorem withEndings_append (t u ending : Text) :
    (t ++ u).withEndings ending = t.withEndings ending ++ u.withEndings ending :=
  List.flatMap_append

theorem withEndings_lineFeed (t ending : Text) :
    withEndings (Sign.lineFeed :: t) ending = ending ++ t.withEndings ending := by
  rw [withEndings, List.flatMap_cons, if_pos rfl, withEndings]

theorem withEndings_cons (other : c ≠ Sign.lineFeed) (t ending : Text) :
    withEndings (c :: t) ending = c :: t.withEndings ending := by
  rw [withEndings, List.flatMap_cons, if_neg other, withEndings]
  rfl

theorem withEndings_bare (bare : Sign.lineFeed ∉ t) (ending : Text) : t.withEndings ending = t := by
  induction t with
  | nil => rfl
  | cons c t ih =>
    obtain ⟨other, rest⟩ := List.ne_and_not_mem_of_not_mem_cons bare
    rw [withEndings_cons (Ne.symm other), ih rest]

theorem withEndings_self (t : Text) : t.withEndings [Sign.lineFeed] = t := by
  induction t with
  | nil => rfl
  | cons c t ih =>
    by_cases feed : c = Sign.lineFeed
    · rw [feed, withEndings_lineFeed, ih]
      rfl
    · rw [withEndings_cons feed, ih]

theorem withEndings_line (short : Sign.lineFeed ∉ line) (rest ending : Text) :
    withEndings (line ++ Sign.lineFeed :: rest) ending = line ++ (ending ++ rest.withEndings ending) := by
  rw [withEndings_append, withEndings_bare short, withEndings_lineFeed]

theorem withEndings_ne_nil (nonempty : ending ≠ []) (filled : t ≠ []) : t.withEndings ending ≠ [] := by
  obtain ⟨c, t, rfl⟩ := List.exists_cons_of_ne_nil filled
  by_cases feed : c = Sign.lineFeed
  · rw [feed, withEndings_lineFeed]
    simp [nonempty]
  · rw [withEndings_cons feed]
    simp

theorem placeWithEndings_append (t u ending : Text) :
    placeWithEndings (t ++ u) ending t.length = (t.withEndings ending).length := by
  rw [placeWithEndings, List.take_left]

/-- The place before an end of the text. -/
theorem placeWithEndings_suffix (suffix : u <:+ t) (ending : Text) :
    (t.withEndings ending).length - (withEndings u ending).length =
      t.placeWithEndings ending (t.length - u.length) := by
  obtain ⟨front, rfl⟩ := suffix
  rw [withEndings_append, List.length_append, List.length_append, Nat.add_sub_cancel, Nat.add_sub_cancel,
    placeWithEndings_append]

/-- Carriage returns at the ends of lines make no pairs with what comes after them. -/
theorem withEndings_return_head (t : Text) :
    (t.withEndings [Sign.carriageReturn]).head? ≠ some Sign.lineFeed := by
  cases t with
  | nil => simp [withEndings]
  | cons c t =>
    by_cases feed : c = Sign.lineFeed
    · rw [feed, withEndings_lineFeed, List.singleton_append, List.head?_cons]
      decide
    · rw [withEndings_cons feed]
      simpa using feed

end Text

namespace Source

variable {mode : LineBreaks} {line ending rest : Text}

/-- What ends the first line of a text is its first break. -/
structure FirstLine (mode : LineBreaks) (line ending rest : Text) : Prop where
  bare : ∀ place < line.length, mode.ahead? ((line ++ (ending ++ rest)).drop place) = none
  ends : mode.ahead? (ending ++ rest) = some ending

namespace FirstLine

theorem forward (first : FirstLine mode line ending rest) : 0 < ending.length := by
  rcases (LineBreaks.ahead?_shape first.ends).2 with rfl | single
  · decide
  · omega

theorem breaks (first : FirstLine mode line ending rest) :
    Source.breaks mode 0 (line ++ (ending ++ rest)) = ⟨line.length, line.length + ending.length⟩ ::
      (Source.breaks mode 0 rest).map (.shift (line.length + ending.length)) := by
  have behind : (line ++ (ending ++ rest)).drop (line.length + ending.length) = rest := by
    rw [← List.drop_drop, List.drop_left, List.drop_left]
  have cut : mode.Cut (line ++ (ending ++ rest)) 0 (⟨line.length, line.length + ending.length⟩ ::
      Source.breaks mode (line.length + ending.length) rest) := by
    refine .next (Nat.zero_le _) ?_ ?_ (LineBreaks.cut_breaks mode behind)
    · intro earlier _ less
      exact first.bare earlier less
    · rw [List.drop_left]
      exact first.ends
  rw [← breaks_shift, Nat.add_zero]
  exact (LineBreaks.cut_breaks mode rfl).unique cut

/-- A place in the first line is at its own column. -/
theorem locate_line (first : FirstLine mode line ending rest) (row : Int) {index : Nat}
    (inside : index ≤ line.length) :
    (SourceText.mk (line ++ (ending ++ rest)) mode row).locate index = ⟨row, index, line⟩ := by
  let s : SourceText := ⟨line ++ (ending ++ rest), mode, row⟩
  have found : s.breaks = _ := first.breaks
  have forward := first.forward
  have none : passed s.breaks index = [] := by
    refine List.filter_eq_nil_iff.mpr ?_
    intro b member
    rw [found] at member
    simp only [decide_eq_true_eq]
    rcases List.mem_cons.mp member with rfl | later
    · simp only
      omega
    · obtain ⟨b', -, rfl⟩ := List.mem_map.mp later
      simp only [Break.shift]
      omega
  have all : ahead s.breaks index = s.breaks := by
    have split := s.passed_append_ahead index
    rwa [none, List.nil_append] at split
  have stop : lineStop s.content s.breaks = line.length := by rw [found]; rfl
  have located := s.locate_eq index
  rw [none, all, stop] at located
  refine located.trans ?_
  have whole : s.content.slice 0 line.length = line := List.take_left
  simp [lineStart, whole, s]

/-- A place behind the first line is in the rest, a row further on. -/
theorem locate_rest (first : FirstLine mode line ending rest) (row : Int) (index : Nat) :
    (SourceText.mk (line ++ (ending ++ rest)) mode row).locate
        (line.length + ending.length + index : Nat) = (SourceText.mk rest mode (row + 1)).locate index := by
  have found := first.breaks
  rw [← List.append_assoc] at found ⊢
  rw [← List.length_append] at found ⊢
  have ends : ∃ b ∈ Source.breaks mode 0 ((line ++ ending) ++ rest), b.stop = (line ++ ending).length := by
    rw [found]
    exact ⟨_, .head _, rfl⟩
  have single : (Source.breaks mode 0 (line ++ ending)).length = 1 := by
    have length := congrArg List.length ((breaks_parted ends).1.symm.trans found)
    rw [List.length_append, List.length_cons] at length
    omega
  have parted := SourceText.locate_parted row ends index
  rw [single] at parted
  exact parted.symm

end FirstLine

/-- Any ending makes a line feed's line a first line. -/
theorem firstLine_withEndings (known : ending ∈ LineBreaks.normal.sequences)
    (bare : Sign.carriageReturn ∉ line) (short : Sign.lineFeed ∉ line) (rest : Text) :
    FirstLine .normal line ending (rest.withEndings ending) := by
  constructor
  · intro place less
    have nonempty : line.drop place ≠ [] := mt List.drop_eq_nil_iff.mp (Nat.not_le_of_lt less)
    obtain ⟨c, more, split⟩ := List.exists_cons_of_ne_nil nonempty
    have member : c ∈ line := List.mem_of_mem_drop (split ▸ List.mem_cons_self)
    have other : c ≠ Sign.carriageReturn := fun same => bare (same ▸ member)
    have other' : c ≠ Sign.lineFeed := fun same => short (same ▸ member)
    rw [List.drop_append_of_le_length (Nat.le_of_lt less), split, List.cons_append, LineBreaks.ahead?_cons]
    simp [LineBreaks.breaksAt, other, other']
  · have head := Text.withEndings_return_head rest
    simp only [LineBreaks.sequences, List.mem_cons, List.not_mem_nil, or_false] at known
    rcases known with rfl | rfl | rfl
    · rfl
    · rw [List.singleton_append, LineBreaks.ahead?_cons]
      simp [LineBreaks.breaksAt, head]
    · have other : Sign.lineFeed ≠ Sign.carriageReturn := by decide
      rw [List.singleton_append, LineBreaks.ahead?_cons]
      simp [LineBreaks.breaksAt, other]

theorem firstLine_lineFeed (bare : Sign.carriageReturn ∉ line) (short : Sign.lineFeed ∉ line) (rest : Text) :
    FirstLine .normal line [Sign.lineFeed] rest := by
  have known : [Sign.lineFeed] ∈ LineBreaks.normal.sequences := by decide
  have first := firstLine_withEndings known bare short rest
  rwa [Text.withEndings_self] at first

theorem breaks_withEndings (known : ending ∈ LineBreaks.normal.sequences) {t : Text}
    (bare : Sign.carriageReturn ∉ t) :
    Source.breaks .normal 0 (t.withEndings ending) = [] ↔ Source.breaks .normal 0 t = [] := by
  by_cases feed : Sign.lineFeed ∈ t
  · obtain ⟨line, rest, rfl, short⟩ := List.eq_append_cons_of_mem feed
    have bare : Sign.carriageReturn ∉ line := fun member => bare (List.mem_append_left _ member)
    have replaced := (firstLine_withEndings known bare short rest).breaks
    have original := (firstLine_lineFeed bare short rest).breaks
    rw [List.singleton_append] at original
    rw [Text.withEndings_line short, replaced, original]
    simp
  · rw [Text.withEndings_bare feed]

namespace SourceText

/-- A place in the first line has the same location. -/
theorem locate_withEndings_line (known : ending ∈ LineBreaks.normal.sequences) {before after : Text}
    (bare : Sign.carriageReturn ∉ before ++ after) (short : Sign.lineFeed ∉ before) (row : Int) :
    (SourceText.mk ((before ++ after).withEndings ending) .normal row).locate before.length =
      (SourceText.mk (before ++ after) .normal row).locate before.length := by
  by_cases feed : Sign.lineFeed ∈ after
  · obtain ⟨more, rest, rfl, short'⟩ := List.eq_append_cons_of_mem feed
    rw [← List.append_assoc] at bare ⊢
    have bare' : Sign.carriageReturn ∉ before ++ more := fun member => bare (List.mem_append_left _ member)
    have line : Sign.lineFeed ∉ before ++ more := by
      rw [List.mem_append]
      exact not_or.mpr ⟨short, short'⟩
    have inside : before.length ≤ (before ++ more).length := by
      rw [List.length_append]
      omega
    have replaced := (firstLine_withEndings known bare' line rest).locate_line row inside
    have original := (firstLine_lineFeed bare' line rest).locate_line row inside
    rw [Text.withEndings_line line, replaced]
    exact original.symm
  · have none : Sign.lineFeed ∉ before ++ after := by
      rw [List.mem_append]
      exact not_or.mpr ⟨short, feed⟩
    rw [Text.withEndings_bare none]

/-- The place behind a part of a text has the same location with other endings. -/
theorem locate_withEndings (known : ending ∈ LineBreaks.normal.sequences) {before after : Text}
    (bare : Sign.carriageReturn ∉ before ++ after) (row : Int) :
    (SourceText.mk ((before ++ after).withEndings ending) .normal row).locate
        (before.withEndings ending).length =
      (SourceText.mk (before ++ after) .normal row).locate before.length := by
  by_cases feed : Sign.lineFeed ∈ before
  · obtain ⟨line, (more : Text), rfl, short⟩ := List.eq_append_cons_of_mem feed
    rw [List.append_assoc, List.cons_append] at bare ⊢
    have bare' : Sign.carriageReturn ∉ line := fun member => bare (List.mem_append_left _ member)
    have later : Sign.carriageReturn ∉ more ++ after := fun member =>
      bare (List.mem_append_right _ (List.mem_cons_of_mem _ member))
    have replaced := (firstLine_withEndings known bare' short (more ++ after)).locate_rest row
      (more.withEndings ending).length
    have original := (firstLine_lineFeed bare' short (more ++ after)).locate_rest row more.length
    have rest := locate_withEndings known later (row + 1)
    have place : (line ++ (ending ++ more.withEndings ending)).length =
        line.length + ending.length + (more.withEndings ending).length := by
      rw [List.length_append, List.length_append, Nat.add_assoc]
    have place' : (line ++ Sign.lineFeed :: more).length =
        line.length + [Sign.lineFeed].length + more.length := by
      rw [List.length_append, List.length_cons, List.length_singleton]
      omega
    rw [Text.withEndings_line short, Text.withEndings_line short, place, replaced, rest, place']
    exact original.symm
  · rw [Text.withEndings_bare feed]
    exact locate_withEndings_line known bare feed row
termination_by before.length

/-- With other endings, the diagnostic of a place is the same. -/
theorem diagnostic_withEndings (known : ending ∈ LineBreaks.normal.sequences) {t : Text}
    (bare : Sign.carriageReturn ∉ t) (row : Int) (inside : place ≤ t.length) (description : Text) :
    (SourceText.mk (t.withEndings ending) .normal row).diagnostic (t.placeWithEndings ending place) description =
      (SourceText.mk t .normal row).diagnostic place description := by
  have mark : ∀ k, (SourceText.mk (t.withEndings ending) .normal row).rowMark k =
      (SourceText.mk t .normal row).rowMark k := by
    intro k
    exact ite_congr (propext (breaks_withEndings known bare)) (fun _ => rfl) (fun _ => rfl)
  have located : (SourceText.mk (t.withEndings ending) .normal row).locate (t.placeWithEndings ending place) =
      (SourceText.mk t .normal row).locate place := by
    rw [← List.take_append_drop place t] at bare
    have located := locate_withEndings known bare row
    rwa [List.take_append_drop, List.length_take_of_le inside] at located
  rw [diagnostic_eq, diagnostic_eq, located, mark]

end SourceText
end Source
end TokenRules
