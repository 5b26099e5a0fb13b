import TokenRules.Proofs.Json.Relocation
import TokenRules.Proofs.Json.Seam
import TokenRules.Proofs.Scan.Verdict

/-! Parsing in chunks. A text is cut at ends of its tokens, and the chunks are fed to one builder. Each chunk
has the tokens that it has in the whole text, at offsets of its own, and the builder depends on offsets only
in what it says about brackets that stay open. -/
namespace TokenRules.Json

/-- Applies tokens from an offset on to a builder. What is raised comes with the offset of its token. -/
def consume (b : Builder) (offset : Nat) : List (Nat × Text) → Except (Raised Flaw × Nat) Builder
  | [] => .ok b
  | (i, w) :: rest =>
    match applyEvent b (readEvent offset i w) with
    | .ok b => consume b (offset + w.length) rest
    | .error raised => .error (raised, offset)

theorem consume_append (b : Builder) (offset : Nat) (before after : List (Nat × Text)) :
    consume b offset (before ++ after) = (consume b offset before).bind fun b =>
      consume b (offset + (before.flatMap Prod.snd).length) after := by
  induction before generalizing b offset with
  | nil => rfl
  | cons token before ih =>
    obtain ⟨i, w⟩ := token
    simp only [List.cons_append, consume, List.flatMap_cons, List.length_append, ← Nat.add_assoc]
    cases applyEvent b (readEvent offset i w) with
    | error raised => rfl
    | ok b => exact ih b _

/-- The places where tokens from an offset on start. -/
def starts (offset : Nat) : List (Nat × Text) → List Nat
  | [] => []
  | (_, w) :: rest => offset :: starts (offset + w.length) rest

/-- Builders that two moves make alike take the same tokens at different offsets, if the moves also bring
the tokens to the same places. -/
theorem consume_relocated {f g : Int → Int} (same : b.relocate f = b'.relocate g) {k : Nat}
    (places : ∀ p ∈ starts offset tokens, f (k + p) = g p) :
    (consume b (k + offset) tokens).map (Builder.relocate f) =
      ((consume b' offset tokens).mapError fun blamed => (blamed.1.shift k, k + blamed.2)).map
        (Builder.relocate g) := by
  induction tokens generalizing b b' offset with
  | nil => exact congrArg Except.ok same
  | cons token rest ih =>
    obtain ⟨i, w⟩ := token
    obtain ⟨here, later⟩ := List.forall_mem_cons.mp places
    have first := applyEvent_relocated same here i w
    simp only [consume]
    rcases map_alike first with ⟨raised, left, right⟩ | ⟨next, next', left, right, alike⟩
    · rw [left, right]
      rfl
    · rw [left, right, Nat.add_assoc]
      exact ih alike later

/-- Builders that differ in places only take the same tokens at different offsets. -/
theorem consume_unplaced (same : b.unplaced = b'.unplaced) (k offset : Nat)
    (tokens : List (Nat × Text)) : (consume b (k + offset) tokens).map Builder.unplaced =
      ((consume b' offset tokens).mapError fun blamed => (blamed.1.shift k, k + blamed.2)).map
        Builder.unplaced :=
  consume_relocated same fun _ _ => rfl

theorem carryOut_tile (b : Builder) (c : Cursor) :
    engine.carryOut b (matchesFrom c (tile c.after).1) = consume b c.offset (tile c.after).1 := by
  generalize ahead : c.after = t
  fun_induction tile t generalizing b c with
  | case1 t stuck => rfl
  | case2 t i w found ih =>
    obtain ⟨⟨rest, split⟩, -⟩ := lexeme?_spec found
    rw [← ahead] at found
    obtain ⟨after, offset⟩ := Cursor.advance_append (ahead.trans split.symm)
    have next := fun b => ih b (c.advance w.length) (by rw [after, ← split, List.drop_left])
    rw [offset] at next
    simp only [matchesFrom, Engine.carryOut, consume, apply_token found]
    cases applyEvent b (readEvent c.offset i w) with
    | error raised => rfl
    | ok b => exact next b

/-- The verdict on a text from an offset on. -/
def judge (finish : Builder → Except (Raised Flaw) ρ) (b : Builder) (offset : Nat) (t : Text) :
    Except (Raised Flaw × Nat) ρ :=
  (consume b offset (tile t).1).bind fun b =>
    if (tile t).2.isEmpty then (finish b).mapError (·, offset + t.length)
    else .error
      (.trouble (.blocked (offset + ((tile t).1.flatMap Prod.snd).length : Nat)), offset + t.length)

theorem matches_texts (c : Cursor) :
    (matchesFrom c (tile c.after).1).flatMap Match.text = (tile c.after).1.flatMap Prod.snd := by
  generalize ahead : c.after = t
  fun_induction tile t generalizing c with
  | case1 t stuck => rfl
  | case2 t i w found ih =>
    have next := ih (c.advance w.length) (by rw [Cursor.advance_after, ahead])
    rw [matchesFrom, List.flatMap_cons, List.flatMap_cons, next, token_text (ahead ▸ found)]

theorem verdict_eq (finish : Builder → Except (Raised Flaw) ρ) (b : Builder) (t : Text) :
    engine.verdict t b finish = judge finish b 0 t := by
  obtain ⟨tiles, -⟩ := engine.tokens_tiles t
  obtain ⟨split, offset⟩ := tiles.texts
  have texts : (engine.tokens t).1.flatMap Match.text = (tile t).1.flatMap Prod.snd := by
    rw [engine_tokens]
    exact matches_texts (.start t)
  rw [texts] at split offset
  have rest : (engine.tokens t).2.cursor.after = (tile t).2 :=
    List.append_cancel_left (split.symm.trans (tile_text t).symm)
  have carried : engine.carryOut b (engine.tokens t).1 = consume b 0 (tile t).1 := by
    rw [engine_tokens]
    exact carryOut_tile b (.start t)
  rw [Engine.verdict, judge, carried, rest, offset, Nat.zero_add]
  cases consume b 0 (tile t).1 <;> rfl

/-- The end of a value, as a parse asks for it. -/
def ending (b : Builder) : Except (Raised Flaw) Value := b.finish.mapError Refusal.raised

theorem parseLast_outcome (b : Builder) (t : Text) :
    (parseLast b t).outcome = (judge ending b 0 t).mapError (engine.stopAt t) := by
  rw [parseLast, Engine.parse_verdict]
  exact congrArg _ (verdict_eq ending b t)

/-- The descriptions of brackets that stay open. -/
def unmatched : List Text :=
  [Sign.leftBracket, Sign.leftBrace].map fun bracket =>
    Text.ofString "Unmatched `" ++ [bracket] ++ [0x60]

/-- A verdict on a text, and one on what lies `k` characters further on: the same value, the same defect, or
troubles with one description and, unless it is of an open bracket, at one place. -/
inductive Agree (k : Nat) : Except (Raised Flaw × Nat) ρ → Except (Raised Flaw × Nat) ρ → Prop
  | value : Agree k (.ok v) (.ok v)
  | defect {place place' : Nat} : Agree k (.error (.defect d, place)) (.error (.defect d, place'))
  | trouble {whole part : Trouble} {place place' : Nat} : whole.message = part.message →
      (whole.message ∉ unmatched →
        whole.position?.getD (place : Int) = k + part.position?.getD (place' : Int)) →
      Agree k (.error (.trouble whole, place)) (.error (.trouble part, place'))

theorem Agree.shift (k : Nat) (raised : Raised Flaw) (place : Nat) :
    Agree (ρ := ρ) k (.error (raised.shift k, k + place)) (.error (raised, place)) := by
  cases raised with
  | defect d => exact .defect
  | trouble t => exact .trouble (t.shift_message k) fun _ => t.shift_position k place

theorem Agree.unmatched {bracket : CodePoint} (known : bracket ∈ [Sign.leftBracket, Sign.leftBrace])
    (k : Nat) (start start' : Int) (place place' : Nat) :
    Agree (ρ := ρ) k (.error ((Refusal.unmatched start bracket).raised, place))
      (.error ((Refusal.unmatched start' bracket).raised, place')) :=
  .trouble rfl fun fresh => absurd (List.mem_map.mpr ⟨bracket, known, rfl⟩) fresh

/-- Frames that differ only in places end alike, but for the place of a bracket that is still open. -/
theorem Frame.finish_agree {f g : Frame}
    (same : f.relocate (fun _ => 0) = g.relocate (fun _ => 0)) (k place : Nat) :
    Agree k (f.finish.mapError fun why => (why.raised, k + place))
      (g.finish.mapError fun why => (why.raised, place)) := by
  cases f with
  | bare =>
    cases g with
    | bare => exact .shift k (.foreign .endless) place
    | _ => contradiction
  | root f =>
    cases g with
    | root g =>
      obtain rfl := Frame.root.inj same
      simp only [Frame.finish, RootFrame.finish]
      cases f.value with
      | some v => exact .value
      | none => exact .shift k Refusal.unexpectedEnd.raised place
    | _ => contradiction
  | array f =>
    cases g with
    | array g => exact .unmatched (by simp) k _ _ _ _
    | _ => contradiction
  | object f =>
    cases g with
    | object g => exact .unmatched (by simp) k _ _ _ _
    | _ => contradiction

theorem ending_agree (same : b.unplaced = b'.unplaced) (k place : Nat) :
    Agree k ((ending b).mapError (·, k + place)) ((ending b').mapError (·, place)) := by
  have active : b.active.relocate (fun _ => 0) = b'.active.relocate (fun _ => 0) := by
    rw [← Builder.active_relocate, ← Builder.active_relocate]
    exact congrArg Builder.active same
  have combined : ∀ (b : Builder) (place : Nat), (ending b).mapError (·, place) =
      b.active.finish.mapError fun why => (why.raised, place) := by
    intro b place
    rw [ending, Builder.finish]
    cases b.active.finish <;> rfl
  rw [combined, combined]
  exact Frame.finish_agree active k place

/-- The last chunk has the verdict of the rest of the text. -/
theorem judge_agree (same : b.unplaced = b'.unplaced) (k : Nat) (t : Text) :
    Agree k (judge ending b k t) (judge ending b' 0 t) := by
  have consumed := consume_unplaced same k 0 (tile t).1
  rw [Nat.add_zero] at consumed
  rw [judge, judge]
  rcases map_alike consumed with ⟨blamed, whole, part⟩ | ⟨last, last', whole, part, alike⟩
  · rw [whole, part]
    exact .shift k blamed.1 blamed.2
  · rw [whole, part]
    simp only [Except.bind, Nat.zero_add]
    split
    · exact ending_agree alike k t.length
    · exact .shift k (.trouble (.blocked ((tile t).1.flatMap Prod.snd).length)) t.length

/-- A chunk with the tokens that it has in the whole text: the verdict on the text is that on the rest, from
where the chunk has led, or what was raised in the chunk. -/
theorem judge_append (alone : tile chunk = (before, []))
    (whole : (tile (chunk ++ t)) = (before ++ (tile t).1, (tile t).2)) (b : Builder) (k : Nat) :
    judge ending b k (chunk ++ t) =
      (consume b k before).bind fun b => judge ending b (k + chunk.length) t := by
  have texts : before.flatMap Prod.snd = chunk := by
    have texts := tile_text chunk
    rwa [alone, List.append_nil] at texts
  rw [judge, whole, consume_append, texts]
  cases consume b k before with
  | error blamed => rfl
  | ok last =>
    simp only [Except.bind, judge, List.flatMap_append, List.length_append, texts, Nat.add_assoc]

/-- Feeds the chunks of a text that starts at an offset to a builder, one after the other, and ends its value
with the last. What stops a chunk comes with the offset of the chunk. -/
def parseChunks (b : Builder) (offset : Nat) : List Text → Text → Except (Nat × Stop Flaw) Value
  | [], last => (parseLast b last).outcome.mapError (offset, ·)
  | chunk :: chunks, last =>
    match (parseInto b chunk).outcome with
    | .ok b => parseChunks b (offset + chunk.length) chunks last
    | .error stopped => .error (offset, stopped)

/-- The start of a text, or the end of a token in it. -/
def AtToken (t : Text) (place : Nat) : Prop :=
  place = 0 ∨ ∃ m ∈ (engine.tokens t).1, m.stop.offset = place

/-- A text in chunks, each of which but the last ends with a token of the text. -/
structure Cut (t : Text) (chunks : List Text) (last : Text) : Prop where
  whole : chunks.flatten ++ last = t
  ends : ∀ front, front <+: chunks → AtToken t front.flatten.length

theorem matches_stop {c : Cursor} (member : m ∈ matchesFrom c (tile c.after).1) :
    ∃ before, before <+: (tile c.after).1 ∧
      m.stop.offset = c.offset + (before.flatMap Prod.snd).length := by
  generalize ahead : c.after = t at member ⊢
  fun_induction tile t generalizing c with
  | case1 t stuck => simp [matchesFrom] at member
  | case2 t i w found ih =>
    obtain ⟨⟨rest, split⟩, -⟩ := lexeme?_spec found
    obtain ⟨-, offset⟩ := Cursor.advance_append (ahead.trans split.symm)
    rcases List.mem_cons.mp member with rfl | later
    · exact ⟨[(i, w)], List.prefix_append [(i, w)] _, by simpa using offset⟩
    · obtain ⟨before, first, stop⟩ := ih (by rw [Cursor.advance_after, ahead]) later
      refine ⟨(i, w) :: before, List.cons_prefix_cons.mpr ⟨rfl, first⟩, ?_⟩
      rw [stop, offset, List.flatMap_cons, List.length_append, Nat.add_assoc]

theorem AtToken.tokens {place : Nat} (ends : AtToken t place) :
    ∃ before, before <+: (tile t).1 ∧ (before.flatMap Prod.snd).length = place := by
  rcases ends with rfl | ⟨m, member, rfl⟩
  · exact ⟨[], List.nil_prefix, rfl⟩
  · rw [engine_tokens] at member
    obtain ⟨before, first, stop⟩ := matches_stop (c := .start t) member
    exact ⟨before, first, (stop.trans (Nat.zero_add _)).symm⟩

/-- A text in chunks, each of which but the last is a number of its tokens. -/
inductive Chunked : Text → List Text → Text → Prop
  | uncut : Chunked t [] t
  | more : tile chunk = (before, []) → tile (chunk ++ t) = (before ++ (tile t).1, (tile t).2) →
      Chunked t chunks last → Chunked (chunk ++ t) (chunk :: chunks) last

theorem chunked_of_cut (whole : chunks.flatten ++ last = t)
    (ends : ∀ front, front <+: chunks →
      ∃ before, before <+: (tile t).1 ∧ (before.flatMap Prod.snd).length = front.flatten.length) :
    Chunked t chunks last := by
  induction chunks generalizing t with
  | nil =>
    obtain rfl := whole
    exact .uncut
  | cons chunk chunks ih =>
    obtain ⟨before, ⟨after, tokens⟩, length⟩ := ends [chunk] (List.prefix_append [chunk] chunks)
    obtain ⟨u, split, behind, same⟩ := tile_replaced tokens.symm
    rw [List.flatten_cons, List.append_assoc] at whole
    rw [List.flatten_singleton] at length
    obtain ⟨texts, rest⟩ := List.append_inj (whole.trans split) length.symm
    have alone := same [] (.inr (by simp [Pattern.Ahead]))
    rw [List.append_nil, ← texts, tile_nil, List.append_nil] at alone
    rw [split, ← texts]
    refine .more alone ?_ (ih rest fun front first => ?_)
    · rw [texts, ← split, behind, tokens]
    · have longer : chunk :: front <+: chunk :: chunks := List.cons_prefix_cons.mpr ⟨rfl, first⟩
      obtain ⟨before', first', length'⟩ := ends (chunk :: front) longer
      rw [behind]
      rw [← tokens] at first'
      rw [List.flatten_cons, List.length_append] at length'
      rcases List.prefix_or_prefix_of_prefix first' (List.prefix_append before after) with
        ⟨others, rfl⟩ | ⟨others, rfl⟩
      -- The places are in order, so a front that is not behind the chunk is empty.
      · rw [List.flatMap_append, List.length_append] at length
        exact ⟨[], List.nil_prefix, by simp only [List.flatMap_nil, List.length_nil]; omega⟩
      · rw [List.flatMap_append, List.length_append] at length'
        exact ⟨others, (List.prefix_append_right_inj before).mp first', by omega⟩

/-- Some chunk ends the run, and with it the verdict on the text. -/
theorem Chunked.agree (chunked : Chunked t chunks last) (same : b.unplaced = b'.unplaced) (k : Nat) :
    ∃ offset chunk verdict, Agree offset (judge ending b k t) verdict ∧ parseChunks b' k chunks last =
      verdict.mapError fun blamed => (offset, engine.stopAt chunk blamed) := by
  induction chunked generalizing b b' k with
  | @uncut t =>
    refine ⟨k, t, judge ending b' 0 t, judge_agree same k t, ?_⟩
    rw [parseChunks, parseLast_outcome]
    cases judge ending b' 0 t <;> rfl
  | @more chunk before t chunks last alone whole chunked ih =>
    have consumed := consume_unplaced same k 0 before
    rw [judge_append alone whole, parseChunks, parseInto, Engine.parse_verdict, verdict_eq, judge, alone]
    rw [Nat.add_zero] at consumed
    rcases map_alike consumed with ⟨blamed, wholly, part⟩ | ⟨left, left', wholly, part, alike⟩
    · rw [wholly, part]
      exact ⟨k, chunk, .error blamed, .shift k blamed.1 blamed.2, rfl⟩
    · rw [wholly, part]
      exact ih alike (k + chunk.length)

/-- Parsing a text in chunks that end with tokens gives what parsing the whole gives: the same value, the same
defect, or a failure with the same description. But for brackets that stay open, the failure's place and
the offset of the failing chunk together make its place in the whole text. -/
theorem parse_chunks (cut : Cut t chunks last) :
    (∃ v, parse t = .ok v ∧ parseChunks .empty 0 chunks last = .ok v) ∨
    (∃ d offset, parse t = .error (.defect d) ∧
      parseChunks .empty 0 chunks last = .error (offset, .defect d)) ∨
    ∃ f g offset, parse t = .error (.failure f) ∧
      parseChunks .empty 0 chunks last = .error (offset, .failure g) ∧
      g.report.description = f.report.description ∧
      (f.report.description ∉ unmatched → g.report.position + offset = f.report.position) := by
  have chunked := chunked_of_cut cut.whole fun front first => (cut.ends front first).tokens
  obtain ⟨offset, chunk, part, agree, parsed⟩ := chunked.agree (b := .empty) rfl 0
  rw [parse, parseLast_outcome, parsed]
  generalize judge ending .empty 0 t = whole at agree
  cases agree with
  | value => exact .inl ⟨_, rfl, rfl⟩
  | defect => exact .inr (.inl ⟨_, _, rfl, rfl⟩)
  | @trouble t' part place place' same places =>
    obtain ⟨f, stopped, -, description, position⟩ :=
      Engine.stopAt_trouble engine_lineBreaks t t' place
    obtain ⟨g, stopped', -, description', position'⟩ :=
      Engine.stopAt_trouble engine_lineBreaks chunk part place'
    refine .inr (.inr ⟨f, g, offset, congrArg Except.error stopped, ?_, ?_, fun fresh => ?_⟩)
    · exact congrArg (fun stop => Except.error (offset, stop)) stopped'
    · rw [description, description', same]
    · rw [description] at fresh
      rw [position, position', places fresh, Int.add_comm]

/-- Two numbers without a comma, in three chunks: the last chunk fails where the whole text does. -/
theorem parse_chunks_numbers : Cut [0x5B, 0x31, 0x20, 0x32, 0x5D] [[0x5B], [0x31, 0x20]] [0x32, 0x5D] ∧
    ∃ f g offset, parse [0x5B, 0x31, 0x20, 0x32, 0x5D] = .error (.failure f) ∧
      parseChunks .empty 0 [[0x5B], [0x31, 0x20]] [0x32, 0x5D] = .error (offset, .failure g) ∧
      g.report.description = f.report.description ∧ g.report.position + offset = f.report.position ∧
      f.report.position = 3 := by
  have bracket : AtToken [0x5B, 0x31, 0x20, 0x32, 0x5D] 1 := .inr (by decide +kernel)
  have number : AtToken [0x5B, 0x31, 0x20, 0x32, 0x5D] 3 := .inr (by decide +kernel)
  have cut : Cut [0x5B, 0x31, 0x20, 0x32, 0x5D] [[0x5B], [0x31, 0x20]] [0x32, 0x5D] := by
    refine ⟨rfl, fun front first => ?_⟩
    rcases List.prefix_cons_iff.mp first with rfl | ⟨front, rfl, second⟩
    · exact .inl rfl
    · rcases List.prefix_cons_iff.mp second with rfl | ⟨front, rfl, third⟩
      · exact bracket
      · obtain rfl := List.prefix_nil.mp third
        exact number
  have failed : (failure? [0x5B, 0x31, 0x20, 0x32, 0x5D]).map
      (fun f => (f.report.position, unmatched.contains f.report.description)) = some (3, false) := by
    decide +kernel
  obtain ⟨f, found, same⟩ := Option.map_eq_some_iff.mp failed
  obtain ⟨place, fresh⟩ := Prod.mk.inj same
  have parsed := failure?_eq_some.mp found
  refine ⟨cut, ?_⟩
  rcases parse_chunks cut with ⟨v, valued, -⟩ | ⟨d, offset, defect, -⟩ |
    ⟨f', g, offset, parsed', chunked, same, places⟩
  · cases parsed.symm.trans valued
  · cases parsed.symm.trans defect
  · obtain rfl : f = f' := Stop.failure.inj (Except.error.inj (parsed.symm.trans parsed'))
    exact ⟨f, g, offset, parsed, chunked, same, places (by simpa using fresh), place⟩

end TokenRules.Json
