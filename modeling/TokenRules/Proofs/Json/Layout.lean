import TokenRules.Proofs.Json.Chunks
import TokenRules.Proofs.Json.Decoding

/-! Layout. Blanks may be put behind any token, and a parse gives what it gave before: they make one token
with the blanks around them, go on with no other, and only push what stands behind them. -/
namespace TokenRules.Json

open Pattern

variable {finish : Builder → Except (Raised Flaw) ρ} {s t : Text}

/-- The verdict on a text is that on its first token, or that on the rest of the text. -/
theorem judge_token (found : lexeme? (w ++ t) = some (i, w)) (b : Builder) (offset : Nat) :
    judge finish b offset (w ++ t) =
      ((applyEvent b (readEvent offset i w)).mapError (·, offset)).bind fun b =>
        judge finish b (offset + w.length) t := by
  simp only [judge, tile_some found, consume, List.flatMap_cons, List.length_append, ← Nat.add_assoc]
  cases applyEvent b (readEvent offset i w) <;> rfl

/-- Blanks that no blank goes on with. -/
theorem judge_gap (blank : ∀ c ∈ s, Text.isBlank c) (ends : Ahead (Text.isBlank · = false) t)
    (b : Builder) (offset : Nat) :
    judge finish b offset (s ++ t) = judge finish b (offset + s.length) t := by
  cases s with
  | nil => rfl
  | cons x s =>
    have found : lexeme? ((x :: s) ++ t) = some (11, x :: s) :=
      lexeme?_eq_some.mpr ⟨_, rfl, several_append (List.cons_ne_nil x s) blank ends⟩
    rw [judge_token found]
    rfl

/-- Blanks in front of a text only push it, also if they make one token with blanks that it begins with. -/
theorem judge_blanks (blank : ∀ c ∈ s, Text.isBlank c) (b : Builder) (offset : Nat) (t : Text) :
    judge finish b offset (s ++ t) = judge finish b (offset + s.length) t := by
  obtain ⟨gap, rest, rfl, more, ends⟩ : ∃ gap rest, t = gap ++ rest ∧ (∀ c ∈ gap, Text.isBlank c) ∧
      Ahead (Text.isBlank · = false) rest := by
    have split : t.takeWhile Text.isBlank ++ t.dropWhile Text.isBlank = t :=
      List.takeWhile_append_dropWhile
    refine ⟨_, _, split.symm, List.all_eq_true.mp List.all_takeWhile, ?_⟩
    exact many_ahead (w := t.takeWhile Text.isBlank) (by rw [split, many])
  have both : ∀ c ∈ s ++ gap, Text.isBlank c := by
    intro c member
    exact (List.mem_append.mp member).elim (blank c) (more c)
  rw [← List.append_assoc, judge_gap both ends, judge_gap more ends, List.length_append, Nat.add_assoc]

/-- Blanks go on with no token but blanks. -/
theorem lexeme?_spaced (found : lexeme? (w ++ t) = some (i, w)) (solid : i ≠ 11)
    (blank : ∀ c ∈ s, Text.isBlank c) : lexeme? (w ++ (s ++ t)) = some (i, w) := by
  cases s with
  | nil => exact found
  | cons x s =>
    exact lexeme?_solid found solid (.inr (.cons (endsNumber_of_blank (blank x List.mem_cons_self))))

/-- The tokens up to a place, and what is behind it. With blanks in between the verdict is that on the
tokens, or that on what is behind the blanks. -/
theorem judge_spaced (finish : Builder → Except (Raised Flaw) ρ) (tokens : (tile t).1 = before ++ after) :
    ∃ u, t = before.flatMap Prod.snd ++ u ∧ ∀ s, (∀ c ∈ s, Text.isBlank c) → ∀ b offset,
      judge finish b offset (before.flatMap Prod.snd ++ (s ++ u)) =
        (consume b offset before).bind fun b =>
          judge finish b (offset + (before.flatMap Prod.snd).length + s.length) u := by
  induction before generalizing t with
  | nil => exact ⟨t, rfl, fun s blank b offset => judge_blanks blank b offset t⟩
  | cons token before ih =>
    obtain ⟨i, w⟩ := token
    obtain ⟨v, rfl, found, rest⟩ := tile_cons tokens
    obtain ⟨u, rfl, spaced⟩ := ih (congrArg Prod.fst rest)
    refine ⟨u, by simp, fun s blank b offset => ?_⟩
    have next : ∀ b, judge finish b (offset + w.length) (before.flatMap Prod.snd ++ (s ++ u)) =
        (consume b (offset + w.length) before).bind fun b =>
          judge finish b (offset + ((i, w) :: before |>.flatMap Prod.snd).length + s.length) u := by
      intro b
      rw [spaced s blank, List.flatMap_cons, List.length_append, ← Nat.add_assoc]
    rw [List.flatMap_cons, List.append_assoc]
    by_cases space : i = 11
    · subst space
      rw [judge_blanks (several_eq_some (lexeme?_front found rfl)).2, next]
      rfl
    · have found' : lexeme? (w ++ (before.flatMap Prod.snd ++ (s ++ u))) = some (i, w) := by
        cases before with
        | nil => exact lexeme?_spaced (t := u) found space blank
        | cons token before =>
          exact lexeme?_solid found space (.inl (sameStart_tile (congrArg Prod.fst rest) (s ++ u)))
      rw [judge_token found', consume]
      cases applyEvent b (readEvent offset i w) with
      | error raised => rfl
      | ok b => exact next b

/-- Tokens that are tokens of some text. -/
def Genuine (tokens : List (Nat × Text)) : Prop :=
  ∀ token ∈ tokens, ∃ t, lexeme? t = some token

theorem genuine_tile (t : Text) : Genuine (tile t).1 := by
  fun_induction tile t with
  | case1 => simp [Genuine]
  | case2 t i w found ih => exact List.forall_mem_cons.mpr ⟨⟨t, found⟩, ih⟩

theorem Genuine.starts (genuine : Genuine tokens) (member : p ∈ starts offset tokens) :
    offset ≤ p ∧ p < offset + (tokens.flatMap Prod.snd).length := by
  induction tokens generalizing offset with
  | nil => contradiction
  | cons token rest ih =>
    obtain ⟨i, w⟩ := token
    obtain ⟨⟨t, found⟩, others⟩ := List.forall_mem_cons.mp genuine
    obtain ⟨-, x, u, rfl, -⟩ := lexeme?_spec found
    have forward : 0 < (x :: u).length := Nat.succ_pos _
    simp only [List.flatMap_cons, List.length_append]
    rcases List.mem_cons.mp member with rfl | later
    · omega
    · have within := ih others later
      omega

/-- A token that is refused is blamed itself, or a place in it. -/
theorem applyEvent_place (found : lexeme? t = some (i, w))
    (refused : applyEvent b (readEvent offset i w) = .error (.trouble trouble)) :
    (offset : Int) ≤ trouble.position?.getD offset ∧
      trouble.position?.getD offset < (offset + w.length : Nat) := by
  obtain ⟨-, x, u, rfl, -⟩ := lexeme?_spec found
  have forward : 0 < (x :: u).length := Nat.succ_pos _
  have itself : (offset : Int) ≤ offset ∧ (offset : Int) < (offset + (x :: u).length : Nat) := by omega
  cases applyEvent_trouble refused with
  | @escape bad string failed =>
    obtain rfl := string
    obtain ⟨index, position, positive, inside, -⟩ :=
      StringLiteral.dequote_error (lexeme?_front found rfl) failed
    change (offset : Int) ≤ bad.position ∧ bad.position < (offset + (x :: u).length : Nat)
    omega
  | sign => exact itself
  | value => exact itself

/-- What tokens are refused for has its place among them. -/
theorem Genuine.consume_place {place : Nat} (genuine : Genuine tokens)
    (refused : consume b offset tokens = .error (.trouble trouble, place)) :
    (offset : Int) ≤ trouble.position?.getD place ∧
      trouble.position?.getD place < (offset + (tokens.flatMap Prod.snd).length : Nat) := by
  induction tokens generalizing b offset with
  | nil => contradiction
  | cons token rest ih =>
    obtain ⟨i, w⟩ := token
    obtain ⟨⟨t, found⟩, others⟩ := List.forall_mem_cons.mp genuine
    simp only [List.flatMap_cons, List.length_append]
    rw [consume] at refused
    split at refused
    · have within := ih others refused
      omega
    · next raised here =>
      obtain ⟨rfl, rfl⟩ := Prod.mk.inj (Except.error.inj refused)
      have within := applyEvent_place found here
      omega

/-- Verdicts on two texts, of which the second has the places of the first moved: the same value, the same
defect, or troubles with one description. -/
inductive Moved (move : Int → Int) :
    Except (Raised Flaw × Nat) ρ → Except (Raised Flaw × Nat) ρ → Prop
  | value : Moved move (.ok v) (.ok v)
  | defect {place place' : Nat} : Moved move (.error (.defect d, place)) (.error (.defect d, place'))
  | trouble {first second : Trouble} {place place' : Nat} : second.message = first.message →
      second.position?.getD (place' : Int) = move (first.position?.getD (place : Int)) →
      Moved move (.error (.trouble first, place)) (.error (.trouble second, place'))

variable {move : Int → Int}

/-- A bracket that stays open is blamed where it has been moved. -/
theorem ending_moved (b : Builder) {place place' : Nat} (ends : move place = place') :
    Moved move ((ending b).mapError (·, place)) ((ending (b.relocate move)).mapError (·, place')) := by
  rw [ending, ending, Builder.finish, Builder.finish, Builder.active_relocate]
  cases b.active with
  | bare => exact .defect
  | root f =>
    simp only [Frame.relocate, Frame.finish, RootFrame.finish]
    cases f.value with
    | some v => exact .value
    | none => exact .trouble rfl ends.symm
  | array f => exact .trouble rfl rfl
  | object f => exact .trouble rfl rfl

theorem Builder.relocate_id (b : Builder) : b.relocate id = b := by
  have frames : Frame.relocate id = id := by
    funext f
    cases f <;> rfl
  rw [relocate, frames, List.map_id]

/-- A text further on has the same verdict, its places moved, if its builder stays as it is. -/
theorem judge_moved (still : b.relocate move = b) {k offset : Nat}
    (moves : ∀ p : Int, offset ≤ p → move p = k + p) (t : Text) :
    Moved move (judge ending b offset t) (judge ending b (k + offset) t) := by
  have places : ∀ p ∈ starts offset (tile t).1, id (k + p : Int) = move p := by
    intro p member
    exact (moves p (Int.ofNat_le.mpr ((genuine_tile t).starts member).1)).symm
  have consumed := consume_relocated ((b.relocate_id).trans still.symm) places
  rw [judge, judge]
  rcases map_alike consumed with ⟨⟨raised, place⟩, second, first⟩ | ⟨last', last, second, first, alike⟩
  · rw [first, second]
    cases raised with
    | defect d => exact .defect
    | trouble trouble =>
      have within := (genuine_tile t).consume_place first
      refine .trouble (trouble.shift_message k) ?_
      rw [moves _ within.1]
      exact trouble.shift_position k place
  · rw [first, second]
    obtain rfl : last' = last.relocate move := last'.relocate_id.symm.trans alike
    have further : ∀ n : Nat, move (offset + n : Nat) = (k + offset + n : Nat) := by
      intro n
      rw [moves _ (by omega)]
      omega
    simp only [Except.bind]
    split
    · exact ending_moved last (further _)
    · exact .trouble rfl (further _).symm

/-- Where a place is after `k` characters have been put in at `place`. -/
def pushed (place k : Nat) (p : Int) : Int :=
  if p < place then p else p + k

/-- What is raised in front of a place stays, and what is raised behind it is pushed with the tokens there. -/
theorem judge_pushed {place : Nat} (genuine : Genuine before)
    (length : (before.flatMap Prod.snd).length = place) (k : Nat) (u : Text) : Moved (pushed place k)
      ((consume .empty 0 before).bind fun b => judge ending b place u)
      ((consume .empty 0 before).bind fun b => judge ending b (k + place) u) := by
  cases consumed : consume .empty 0 before with
  | error blamed =>
    obtain ⟨raised, blame⟩ := blamed
    cases raised with
    | defect d => exact .defect
    | trouble trouble =>
      have within := (genuine.consume_place consumed).2
      rw [Nat.zero_add, length] at within
      exact .trouble rfl (if_pos within).symm
  | ok left =>
    have still : left.relocate (pushed place k) = left := by
      have places : ∀ p ∈ starts 0 before, id ((0 : Nat) + p : Int) = pushed place k p := by
        intro p member
        have within := (genuine.starts member).2
        rw [Nat.zero_add, length] at within
        rw [pushed, if_pos (Int.ofNat_lt.mpr within)]
        exact Int.zero_add _
      have empty : Builder.empty.relocate id = Builder.empty.relocate (pushed place k) := rfl
      have same := consume_relocated empty places
      rw [Nat.add_zero, consumed] at same
      exact (Except.ok.inj same).symm.trans left.relocate_id
    refine judge_moved still (fun p behind => ?_) u
    rw [pushed, if_neg (Int.not_lt.mpr behind), Int.add_comm]

theorem judge_layout {place : Nat} (ends : AtToken t place) (blank : ∀ c ∈ s, Text.isBlank c) :
    Moved (pushed place s.length) (judge ending .empty 0 t)
      (judge ending .empty 0 (t.take place ++ s ++ t.drop place)) := by
  obtain ⟨before, ⟨after, tokens⟩, rfl⟩ := ends.tokens
  have genuine : Genuine before := by
    intro token member
    exact genuine_tile t token (by rw [← tokens]; exact List.mem_append_left after member)
  obtain ⟨u, rfl, spaced⟩ := judge_spaced ending tokens.symm
  have unspaced := spaced [] (by simp) .empty 0
  rw [List.nil_append, Nat.zero_add, List.length_nil, Nat.add_zero] at unspaced
  rw [List.take_left, List.drop_left, List.append_assoc, unspaced, spaced s blank, Nat.zero_add,
    Nat.add_comm _ s.length]
  exact judge_pushed genuine rfl s.length u

/-- Blanks make no difference between tokens: the value is the same, or the defect, or the description of the
failure. The position of the failure is the same, or as much further on as there are blanks, if it is not
in front of them. -/
theorem parse_layout {place : Nat} (ends : AtToken t place) (blank : ∀ c ∈ s, Text.isBlank c) :
    (∃ v, parse t = .ok v ∧ parse (t.take place ++ s ++ t.drop place) = .ok v) ∨
    (∃ d, parse t = .error (.defect d) ∧
      parse (t.take place ++ s ++ t.drop place) = .error (.defect d)) ∨
    ∃ f g, parse t = .error (.failure f) ∧
      parse (t.take place ++ s ++ t.drop place) = .error (.failure g) ∧
      g.report.description = f.report.description ∧
      g.report.position =
        if f.report.position < place then f.report.position else f.report.position + s.length := by
  have moved := judge_layout ends blank
  rw [parse, parse, parseLast_outcome, parseLast_outcome]
  generalize judge ending .empty 0 t = plain,
    judge ending .empty 0 (t.take place ++ s ++ t.drop place) = spaced at moved
  cases moved with
  | value => exact .inl ⟨_, rfl, rfl⟩
  | defect => exact .inr (.inl ⟨_, rfl, rfl⟩)
  | @trouble first second blame blame' same places =>
    obtain ⟨f, stopped, -, description, position⟩ :=
      Engine.stopAt_trouble engine_lineBreaks t first blame
    obtain ⟨g, stopped', -, description', position'⟩ :=
      Engine.stopAt_trouble engine_lineBreaks (t.take place ++ s ++ t.drop place) second blame'
    refine .inr (.inr ⟨f, g, congrArg Except.error stopped, congrArg Except.error stopped', ?_, ?_⟩)
    · rw [description, description', same]
    · rw [position', places, position, pushed]

/-- A tab and a space between a number and a point, which no token begins with. -/
theorem parse_layout_point : AtToken [0x5B, 0x31, 0x2E] 2 ∧
    ∃ f g, parse [0x5B, 0x31, 0x2E] = .error (.failure f) ∧
      parse [0x5B, 0x31, 0x09, 0x20, 0x2E] = .error (.failure g) ∧
      g.report.description = f.report.description ∧ f.report.position = 2 ∧ g.report.position = 4 := by
  have ends : AtToken [0x5B, 0x31, 0x2E] 2 := .inr (by decide +kernel)
  have blank : ∀ c ∈ [0x09, 0x20], Text.isBlank c := by decide
  have failed : (failure? [0x5B, 0x31, 0x2E]).map (·.report.position) = some 2 := by decide +kernel
  obtain ⟨f, found, position⟩ := Option.map_eq_some_iff.mp failed
  have parsed := failure?_eq_some.mp found
  refine ⟨ends, ?_⟩
  rcases parse_layout ends blank with ⟨v, valued, -⟩ | ⟨d, defect, -⟩ | ⟨f', g, parsed', spaced, same, place⟩
  · cases parsed.symm.trans valued
  · cases parsed.symm.trans defect
  · obtain rfl : f = f' := Stop.failure.inj (Except.error.inj (parsed.symm.trans parsed'))
    rw [position] at place
    exact ⟨f, g, parsed, spaced, same, position, place⟩

end TokenRules.Json
