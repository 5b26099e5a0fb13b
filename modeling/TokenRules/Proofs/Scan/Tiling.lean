import TokenRules.Proofs.Pattern.Forward
import TokenRules.Proofs.Scan.Tokens

/-! The tiling of a text by a pattern: matches one after the other, without a gap, up to the end of the
text or to where none moves forward. A text has one tiling, and a scanner finds it. -/
namespace TokenRules

/-- The successive matches of a pattern from a position on, and where they stop: at the end of the
text, or where there is no match or an empty one. -/
inductive Pattern.Tiles (p : Pattern) : Cursor → List Match → Cursor → Prop
  | ended : (c.after = [] ∨ ∀ m, p.matchAt c = some m → m.stop.offset = c.offset) → Tiles p c [] c
  | next : c.after ≠ [] → p.matchAt c = some m → m.stop.offset ≠ c.offset →
      Tiles p m.stop ms stop → Tiles p c (m :: ms) stop

namespace Pattern.Tiles

variable {p : Pattern}

/-- Nothing but the pattern and the text decides. -/
theorem unique (tiles : p.Tiles c ms stop) (others : p.Tiles c ms' stop') :
    ms' = ms ∧ stop' = stop := by
  induction tiles generalizing ms' with
  | ended still =>
    cases others with
    | ended => exact ⟨rfl, rfl⟩
    | next more matched forward _ => exact absurd (still.resolve_left more _ matched) forward
  | next more matched forward _ ih =>
    cases others with
    | ended still => exact absurd (still.resolve_left more _ matched) forward
    | next _ matched' _ rest =>
      obtain rfl := Option.some.inj (matched'.symm.trans matched)
      obtain ⟨rfl, rfl⟩ := ih rest
      exact ⟨rfl, rfl⟩

/-- Each of the matches is the match at some position. -/
theorem matched (tiles : p.Tiles c ms stop) (member : m ∈ ms) : ∃ c', p.matchAt c' = some m := by
  induction tiles with
  | ended => simp at member
  | next _ matched _ _ ih =>
    rcases List.mem_cons.mp member with rfl | later
    · exact ⟨_, matched⟩
    · exact ih later

/-- The texts of the matches are what lies between the two positions. -/
theorem texts (tiles : p.Tiles c ms stop) :
    c.after = ms.flatMap Match.text ++ stop.after ∧
      stop.offset = c.offset + (ms.flatMap Match.text).length := by
  induction tiles with
  | ended => exact ⟨rfl, rfl⟩
  | next _ matched _ _ ih =>
    obtain ⟨-, split, -, offset⟩ := matchAt_forward matched
    obtain ⟨split', offset'⟩ := ih
    rw [List.flatMap_cons, List.append_assoc, ← split', ← split, offset', offset, List.length_append,
      Nat.add_assoc]
    exact ⟨rfl, rfl⟩

/-- Every match starts where the text begins or later, and so does what the matches leave. -/
theorem leads (tiles : p.Tiles c ms stop) : (∀ m ∈ ms, c.LeadsTo m.start) ∧ c.LeadsTo stop := by
  induction tiles with
  | ended => exact ⟨by simp, .refl _⟩
  | next _ matched _ _ ih =>
    obtain ⟨start, -, forward, -⟩ := matchAt_forward matched
    have first : Cursor.LeadsTo _ _ := ⟨_, forward⟩
    refine ⟨List.forall_mem_cons.mpr ⟨start ▸ .refl _, fun m later => ?_⟩, first.trans ih.2⟩
    exact first.trans (ih.1 m later)

/-- Nothing lies ahead of the matches, or no other match that moves forward. -/
theorem stuck (tiles : p.Tiles c ms stop) :
    stop.after = [] ∨ ∀ m, p.matchAt stop = some m → m.stop.offset = stop.offset := by
  induction tiles with
  | ended still => exact still
  | next _ _ _ _ ih => exact ih

/-- Every match takes one character at least. -/
theorem length_le (tiles : p.Tiles c ms stop) : ms.length ≤ (ms.flatMap Match.text).length := by
  induction tiles with
  | ended => exact Nat.le_refl _
  | next _ matched forward _ ih =>
    obtain ⟨-, -, -, offset⟩ := matchAt_forward matched
    rw [List.length_cons, List.flatMap_cons, List.length_append]
    omega

/-- The matches of a whole text. -/
theorem whole (tiles : p.Tiles (.start content) ms stop) :
    ms.flatMap Match.text = content.take stop.offset ∧ stop.offset ≤ content.length ∧
      ms.length ≤ content.length := by
  obtain ⟨split, offset⟩ := tiles.texts
  have split : content = ms.flatMap Match.text ++ stop.after := split
  have offset : stop.offset = (ms.flatMap Match.text).length := offset.trans (Nat.zero_add _)
  have within : (ms.flatMap Match.text).length ≤ content.length := by
    rw [split, List.length_append]
    exact Nat.le_add_right _ _
  have taken : content.take stop.offset = ms.flatMap Match.text := by
    rw [offset]
    exact split ▸ List.take_left
  exact ⟨taken.symm, offset ▸ within, Nat.le_trans tiles.length_le within⟩

end Pattern.Tiles

namespace Scanner

/-- The position is that of the cursor, in a text of the scanner's size. -/
structure Placed (s : Scanner) : Prop where
  position : s.position = s.cursor.offset
  size : s.size = s.cursor.offset + s.cursor.after.length

theorem placed_start (p : Pattern) (content : Text) : (start p content 0).Placed where
  position := rfl
  size := by simp [start, Cursor.start, Cursor.advance]

theorem Placed.hasMore_iff {s : Scanner} (placed : s.Placed) :
    s.hasMore = true ↔ s.cursor.after ≠ [] := by
  rw [hasMore, placed.position, placed.size, ← List.length_pos_iff]
  simp only [decide_eq_true_eq]
  omega

theorem Placed.advance_none {s s' : Scanner} (placed : s.Placed) (ended : s.advance = (none, s')) :
    s' = { s with current := none } ∧
      (s.cursor.after = [] ∨
        ∀ m, s.pattern.matchAt s.cursor = some m → m.stop.offset = s.cursor.offset) := by
  simp only [advance] at ended
  split at ended
  · simp at ended
  · next nothing =>
    refine ⟨(Prod.mk.inj ended).2.symm, ?_⟩
    by_cases more : s.hasMore
    · refine .inr ?_
      intro m matched
      obtain ⟨-, -, -, offset⟩ := Pattern.matchAt_forward matched
      rw [peek, if_pos more, matched, Option.filter_eq_none_iff] at nothing
      have still := nothing m rfl
      rw [placed.position, decide_eq_true_eq] at still
      omega
    · exact .inl (by simpa [placed.hasMore_iff] using more)

theorem Placed.advance_some {s s' : Scanner} (placed : s.Placed) (moved : s.advance = (some m, s')) :
    s.cursor.after ≠ [] ∧ s.pattern.matchAt s.cursor = some m ∧ m.stop.offset ≠ s.cursor.offset ∧
      s' = { s with
        cursor := m.stop, position := m.stop.offset, current := some m.start.offset } ∧
      s'.Placed := by
  simp only [advance] at moved
  split at moved
  · next m' found =>
    obtain ⟨same, rfl⟩ := Prod.mk.inj moved
    obtain rfl := Option.some.inj same
    have forward := (peek_forward found).2
    rw [peek] at found
    split at found
    · next more =>
      have matched := (Option.filter_eq_some_iff.mp found).1
      obtain ⟨-, split, -, offset⟩ := Pattern.matchAt_forward matched
      refine ⟨placed.hasMore_iff.mp more, matched, ?_, rfl, ⟨rfl, ?_⟩⟩
      · rw [placed.position] at forward
        omega
      · rw [placed.size, split, List.length_append, offset, Nat.add_assoc]
    · contradiction
  · simp at moved

/-- A scanner finds the tiling of what is ahead. -/
theorem Placed.tokens {s : Scanner} (placed : s.Placed) :
    s.pattern.Tiles s.cursor s.tokens.1 s.tokens.2.cursor ∧ s.tokens.2.Placed ∧
      s.tokens.2.current = none ∧ s.tokens.2.size = s.size := by
  fun_induction Scanner.tokens s with
  | case1 s s' ended =>
    obtain ⟨rfl, stopped⟩ := placed.advance_none ended
    exact ⟨.ended stopped, ⟨placed.position, placed.size⟩, rfl, rfl⟩
  | case2 s m s' moved ih =>
    obtain ⟨more, matched, forward, rfl, placed'⟩ := placed.advance_some moved
    obtain ⟨tiles, last, idle, size⟩ := ih placed'
    exact ⟨.next more matched forward tiles, last, idle, size⟩

/-- A scanner that has come to its end is blocked short of the end of the text. -/
theorem Placed.isBlocked_iff {s : Scanner} (placed : s.Placed) (idle : s.current = none) :
    s.isBlocked = true ↔ s.cursor.offset < s.size := by
  rw [isBlocked, idle, hasMore, placed.position]
  simp

end Scanner

end TokenRules
