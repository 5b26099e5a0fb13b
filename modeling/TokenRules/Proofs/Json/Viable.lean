import TokenRules.Proofs.Json.Outcome
import TokenRules.Proofs.Json.Partial
import TokenRules.Proofs.Json.Seam

/-! Errors are found as early as they can be. Whatever the builder has taken can be completed to a text that
has a value, and once it refuses a token no text that goes on from there has one. -/
namespace TokenRules.Json

open Pattern

/-- The words of the events that complete a text. None of them goes on with what stands in front of it. -/
def Event.word? : Event → Option Text
  | .value .null => some (Text.ofString "null")
  | .value (.string []) => some [Sign.quotation, Sign.quotation]
  | .colon => some [Sign.colon]
  | .closeArray => some [Sign.rightBracket]
  | .closeObject => some [Sign.rightBrace]
  | _ => none

theorem word_token (word : Event.word? e = some w) (offset : Nat) :
    ∃ i, i ≠ 3 ∧ Dialect.lenient.Token offset i w e := by
  unfold Event.word? at word
  split at word
  · obtain rfl := Option.some.inj word
    exact ⟨0, by decide, .null⟩
  · obtain rfl := Option.some.inj word
    have nothing : ∀ part ∈ ([] : List StringPart), part.WellFormed .lenient := by simp
    exact ⟨4, by decide, .string (.spelled nothing)⟩
  · obtain rfl := Option.some.inj word
    exact ⟨10, by decide, .colon⟩
  · obtain rfl := Option.some.inj word
    exact ⟨7, by decide, .closeArray⟩
  · obtain rfl := Option.some.inj word
    exact ⟨8, by decide, .closeObject⟩
  · contradiction

theorem word_ends (word : Event.word? e = some w) :
    ∃ x u, w = x :: u ∧ EndsNumber x ∧ Text.isBlank x = false := by
  unfold Event.word? at word
  split at word
  case h_6 => contradiction
  all_goals
    obtain rfl := Option.some.inj word
    exact ⟨_, _, rfl, by decide, by decide⟩

/-- The text of words is cut into them. -/
theorem words_lexes (words : ∀ e ∈ es, (Event.word? e).isSome) (offset : Nat) :
    ∃ s, Dialect.lenient.Lexes offset s es ∧
      Ahead (fun x => EndsNumber x ∧ Text.isBlank x = false) s := by
  induction es generalizing offset with
  | nil => exact ⟨[], .nil, by simp [Ahead]⟩
  | cons e es ih =>
    obtain ⟨word, others⟩ := List.forall_mem_cons.mp words
    obtain ⟨w, word⟩ := Option.isSome_iff_exists.mp word
    obtain ⟨i, noNumber, token⟩ := word_token word offset
    obtain ⟨s, lexes, -⟩ := ih others (offset + w.length)
    have found := token.found (t := s) Dialect.lenient_narrow fun number => absurd number noNumber
    obtain ⟨x, u, rfl, ends⟩ := word_ends word
    exact ⟨_, .token found token lexes, .cons ends⟩

namespace Frame

/-- What a frame holds can be completed to a collection. A name or a comma at the end needs more than the
bracket. -/
theorem Filled.completion {f : Frame} (filled : f.Filled inside) (opening : f.opening? = some e) :
    ∃ es, (∀ e ∈ es, (Event.word? e).isSome) ∧ ∃ v, Derives (e :: (inside ++ es)) v := by
  have null : Derives [.value .null] .null := .scalar trivial
  cases filled with
  | unset | set _ => contradiction
  | arrayOpened =>
    obtain rfl := Option.some.inj opening
    exact ⟨[.closeArray], by simp [Event.word?], _, .emptyArray⟩
  | arrayComma elements =>
    obtain rfl := Option.some.inj opening
    refine ⟨[.value .null, .closeArray], by simp [Event.word?], ?_⟩
    simpa using Exists.intro _ (Derives.array (.more elements null))
  | arrayValue elements =>
    obtain rfl := Option.some.inj opening
    exact ⟨[.closeArray], by simp [Event.word?], _, .array elements⟩
  | objectOpened =>
    obtain rfl := Option.some.inj opening
    exact ⟨[.closeObject], by simp [Event.word?], _, .emptyObject⟩
  | objectComma members =>
    obtain rfl := Option.some.inj opening
    refine ⟨[.value (.string []), .colon, .value .null, .closeObject], by simp [Event.word?], ?_⟩
    simpa using Exists.intro _ (Derives.object (.more (k := []) members null))
  | objectName leading =>
    obtain rfl := Option.some.inj opening
    refine ⟨[.colon, .value .null, .closeObject], by simp [Event.word?], ?_⟩
    simpa using Exists.intro _ (Derives.object (leading.member null))
  | objectColon leading =>
    obtain rfl := Option.some.inj opening
    refine ⟨[.value .null, .closeObject], by simp [Event.word?], ?_⟩
    simpa using Exists.intro _ (Derives.object (leading.member null))
  | objectValue members =>
    obtain rfl := Option.some.inj opening
    exact ⟨[.closeObject], by simp [Event.word?], _, .object members⟩

/-- Frames tell values apart only by their kind. -/
theorem add_accepted_kind (same : v.kind? = v'.kind?) (f : Frame) :
    (add v f).refusal = none ↔ (add v' f).refusal = none := by
  cases f with
  | bare => simp [add]
  | root f => cases set : f.value <;> simp [add, RootFrame.add, set]
  | array f => cases state : f.state <;> simp [add, ArrayFrame.add, state]
  | object f =>
    cases state : f.state with
    | name | value => simp [add, ObjectFrame.add, state]
    | colon => cases name : f.name <;> simp [add, ObjectFrame.add, state, name]
    | initial | comma =>
      cases name : f.name <;> cases v <;> cases v' <;>
        simp_all [add, ObjectFrame.add, Value.kind?]

end Frame

namespace Builder

/-- Whatever a builder has taken can be completed to a whole value. -/
theorem Reaches.completion (reached : Reaches b es) :
    ∃ es' v, (∀ e ∈ es', (Event.word? e).isSome) ∧ Derives (es ++ es') v := by
  cases reached with
  | outermost filled =>
    cases filled with
    | unset => exact ⟨[.value .null], .null, by simp [Event.word?], .scalar trivial⟩
    | set derives => exact ⟨[], _, by simp, by simpa using derives⟩
  | @nested b es e f inside reached around opening filled =>
    obtain ⟨es', words, v, enclosed⟩ := filled.completion opening
    obtain ⟨tree, whole, -⟩ := reached.completed_add around enclosed
    refine ⟨es' ++ (openLevels es).map Level.closing, tree, ?_, by simpa using whole⟩
    intro e member
    rcases List.mem_append.mp member with inner | outer
    · exact words e inner
    · obtain ⟨level, -, rfl⟩ := List.mem_map.mp outer
      cases level <;> rfl

end Builder

/-- The tokens that the builder has taken, and what stands in their place, can be completed to a text that
has a value. -/
theorem viable (tokens : (tile t).1 = before ++ after) (read : events 0 before = .ok es)
    (ran : Builder.empty.run es = .ok b) : ∃ s v, parse (before.flatMap Prod.snd ++ s) = .ok v := by
  have reached : Builder.Reaches b ([] ++ es) :=
    (Builder.Reaches.outermost .unset).run (events_scalar read) ran
  obtain ⟨es', tree, words, derives⟩ := reached.completion
  obtain ⟨s, lexes, ends⟩ := words_lexes words (0 + (before.flatMap Prod.snd).length)
  obtain ⟨u, -, -, replaced⟩ := tile_replaced tokens
  have cut := replaced s (.inr ends)
  refine ⟨s, tree.merged, parse_ok_iff.mpr ⟨?_, es ++ es', ?_, Builder.build_of_derives derives⟩⟩
  · rw [cut]
    exact (lexes.tile Dialect.lenient_narrow).1
  · rw [cut]
    exact events_append.mpr ⟨es, es', read, lexes.events Dialect.lenient_narrow fun _ fits => fits, rfl⟩

/-- Two tokens of one rule that can both be read stand for the same event, or for values of one kind. -/
theorem readEvent_kind (read : readEvent offset i w = .ok (some e))
    (read' : readEvent offset i w' = .ok e') : e' = some e ∨
      ∃ v v', e = .value v ∧ e' = some (.value v') ∧ v.kind? = v'.kind? := by
  cases readEvent_readAs read with
  | number number =>
    cases readEvent_readAs read' with
    | number number' =>
      exact .inr ⟨_, _, rfl, rfl, (readNumber_kind number).trans (readNumber_kind number').symm⟩
  | string =>
    cases readEvent_readAs read' with
    | string => exact .inr ⟨_, _, rfl, rfl, rfl⟩
  | _ => exact .inl (Except.ok.inj (read'.symm.trans read))

theorem refused_kind {b : Builder} (read : readEvent offset i w = .ok (some e))
    (read' : readEvent offset i w' = .ok e') (refused : (b.apply e).refusal ≠ none) :
    ∃ e'', e' = some e'' ∧ (b.apply e'').refusal ≠ none := by
  rcases readEvent_kind read read' with rfl | ⟨v, v', rfl, rfl, same⟩
  · exact ⟨e, rfl, refused⟩
  · exact ⟨_, rfl, mt (Frame.add_accepted_kind same b.active).mpr refused⟩

/-- Once a token is refused, no text that goes on from its end has a value. The token may grow, if it is a
number, but it is refused for its kind. -/
theorem refused_stays (tokens : (tile t).1 = before ++ (i, w) :: after)
    (read : events 0 before = .ok es) (ran : Builder.empty.run es = .ok b)
    (token : readEvent (before.flatMap Prod.snd).length i w = .ok (some e))
    (refused : (b.apply e).refusal ≠ none) (s : Text) :
    parse (before.flatMap Prod.snd ++ (w ++ s)) ≠ .ok v := by
  intro parsed
  obtain ⟨whole, all, allRead, built⟩ := parse_ok_iff.mp parsed
  obtain ⟨u, -, behind, replaced⟩ := tile_replaced tokens
  obtain ⟨_, rfl, found, -⟩ := tile_cons (congrArg Prod.fst behind)
  obtain ⟨-, x, r, rfl, kind⟩ := lexeme?_spec found
  rw [replaced (x :: r ++ s) (.inl ⟨x, _, _, rfl, rfl, by simp [kind]⟩)] at whole allRead
  obtain ⟨first, second, read', later, rfl⟩ := events_append.mp allRead
  obtain rfl := Except.ok.inj (read'.symm.trans read)
  cases found' : lexeme? (x :: r ++ s) with
  | none =>
    rw [tile_none found'] at whole
    simp at whole
  | some other =>
    obtain ⟨j, w'⟩ := other
    obtain ⟨⟨rest, split⟩, y, r', rfl, kind'⟩ := lexeme?_spec found'
    obtain ⟨rfl, -⟩ := List.cons.inj split
    obtain rfl : i = j := Option.some.inj (kind.symm.trans kind')
    rw [← split] at found' later
    rw [tile_some found', Nat.zero_add] at later
    -- The token that stands there now begins as the refused one does, so that it has the same rule.
    obtain ⟨e', es', token', -, rfl⟩ := events_cons.mp later
    obtain ⟨e'', rfl, refused'⟩ := refused_kind token token' refused
    obtain ⟨why, refusal⟩ := Option.ne_none_iff_exists'.mp refused'
    rw [Builder.build, Builder.run_append_ok ran] at built
    simp [Builder.run, Reply.toExcept, refusal] at built

/-- The tokens whose actions have succeeded, with their events, and the place that they lead to. -/
theorem taken_tokens {c : Cursor} {b b' : Builder}
    (split : matchesFrom c (tile c.after).1 = before ++ after)
    (applied : engine.applyAll b before = .ok b') : ∃ taken es, ∃ c' : Cursor,
      (tile c.after).1 = taken ++ (tile c'.after).1 ∧ c.after = taken.flatMap Prod.snd ++ c'.after ∧
      c'.offset = c.offset + (taken.flatMap Prod.snd).length ∧
      after = matchesFrom c' (tile c'.after).1 ∧
      events c.offset taken = .ok es ∧ b.run es = .ok b' := by
  induction before generalizing c b with
  | nil =>
    obtain rfl := Except.ok.inj applied
    exact ⟨[], [], c, rfl, rfl, rfl, split.symm, rfl, rfl⟩
  | cons m before ih =>
    obtain ⟨i, w, found, rfl, tokens, rest⟩ := matches_cons split
    obtain ⟨⟨u, ahead⟩, -⟩ := lexeme?_spec found
    obtain ⟨behind, offset⟩ := Cursor.advance_append ahead.symm
    simp only [Engine.applyAll, apply_token found] at applied
    cases read : readEvent c.offset i w with
    | error raised => simp [read, applyEvent] at applied
    | ok e =>
      rw [read, applyEvent_eq] at applied
      split at applied
      · next next accepted =>
        obtain ⟨taken, es, c', tokens', ahead', offset', after', events', ran⟩ := ih rest.symm applied
        rw [offset] at events' offset'
        refine ⟨(i, w) :: taken, e.toList ++ es, c', by rw [tokens, tokens']; rfl, ?_, ?_, after', ?_, ?_⟩
        · rw [← ahead, List.flatMap_cons, List.append_assoc, ← ahead', behind]
        · rw [offset', List.flatMap_cons, List.length_append, Nat.add_assoc]
        · exact events_cons.mpr ⟨e, es, read, events', rfl⟩
        · rw [Builder.run_append_ok (mapError_eq_ok.mp accepted), ran]
      · contradiction

/-- A violation is a refusal of the token's event. -/
theorem applyEvent_violation {b : Builder}
    (failed : applyEvent b (readEvent offset i w) = .error (.violation message)) :
    ∃ e why, readEvent offset i w = .ok (some e) ∧ (b.apply e).refusal = some why := by
  cases applyEvent_trouble failed with
  | sign read refusal _ => exact ⟨_, _, read, refusal⟩
  | value read refusal _ _ => exact ⟨_, _, read, refusal⟩

/-- A token of a text that the builder refuses, after it has taken those before. -/
def Refused (t : Text) (m : Match) (message : Text) : Prop :=
  ∃ before after b, (engine.tokens t).1 = before ++ m :: after ∧
    engine.applyAll .empty before = .ok b ∧ engine.apply m b = .error (.violation message)

/-- The text up to a refused token can be completed, and the text up to its end cannot. -/
theorem refused_earliest (refused : Refused t m message) :
    (∃ s v, parse (t.take m.start.offset ++ s) = .ok v) ∧
      ∀ s v, parse (t.take m.stop.offset ++ s) ≠ .ok v := by
  obtain ⟨before, after, b, tokens, applied, failed⟩ := refused
  have split := engine_tokens t ▸ tokens
  obtain ⟨taken, es, c, tiled, ahead, offset, rest, read, ran⟩ := taken_tokens split applied
  obtain ⟨i, w, found, rfl, next, -⟩ := matches_cons rest.symm
  obtain ⟨⟨u, behind⟩, -⟩ := lexeme?_spec found
  have ahead : t = taken.flatMap Prod.snd ++ c.after := ahead
  have offset : c.offset = (taken.flatMap Prod.snd).length := offset.trans (Nat.zero_add _)
  have upTo : t.take c.offset = taken.flatMap Prod.snd := by
    rw [offset, ahead, List.take_left]
  have upToEnd : t.take (c.advance w.length).offset = taken.flatMap Prod.snd ++ w := by
    rw [(Cursor.advance_append behind.symm).2, offset, ahead, ← behind, List.take_length_add_append,
      List.take_left]
  refine ⟨?_, fun s v => ?_⟩
  · rw [upTo]
    exact viable tiled read ran
  · rw [apply_token found] at failed
    obtain ⟨e, why, token, refusal⟩ := applyEvent_violation failed
    rw [upToEnd, List.append_assoc]
    exact refused_stays (tiled.trans (congrArg _ next)) read ran (offset ▸ token) (by simp [refusal]) s

/-- The descriptions of a text that stops too early. -/
def earlyEnds : List Text :=
  [Text.ofString "Unexpected end", Text.ofString "Unmatched `[`", Text.ofString "Unmatched `\x7b`"]

theorem not_earlyEnd {message : Text} (front : Text) (begins : message.take 13 = front)
    (apart : front ∉ earlyEnds.map (·.take 13)) : message ∉ earlyEnds := by
  intro member
  exact apart (begins ▸ List.mem_map_of_mem member)

/-- What is wrong with a token is told from an early end by its first thirteen characters. -/
theorem action_message {b : Builder}
    (failed : applyEvent b (readEvent offset i w) = .error (.trouble trouble)) :
    trouble.message ∉ earlyEnds := by
  cases applyEvent_trouble failed with
  | escape => exact not_earlyEnd (Text.ofString "Unexpected es") rfl (by decide)
  | sign => exact not_earlyEnd (Text.ofString "Unexpected ch") rfl (by decide)
  | @value _ kind =>
    refine not_earlyEnd ((Text.ofString "Unexpected " ++ kind.name).take 13) ?_ ?_
    · cases kind <;> rfl
    · cases kind <;> decide

/-- A text whose tokens the builder takes can be completed. -/
theorem whole_viable (whole : (engine.tokens t).2.isBlocked = false)
    (applied : engine.applyAll .empty (engine.tokens t).1 = .ok b) : ∃ s v, parse (t ++ s) = .ok v := by
  have blocked : (engine.tokens t).2.isBlocked = !(tile t).2.isEmpty := (scanning_start t).tokens.2
  rw [engine_tokens] at applied
  obtain ⟨es, read, ran⟩ := (applyAll_ok (.start t)).mp applied
  have completed := viable (List.append_nil _).symm read ran
  have text : (tile t).1.flatMap Prod.snd = t := by
    have text := tile_text t
    have rest : (tile t).2 = [] := by simpa [whole] using blocked
    rwa [rest, List.append_nil] at text
  have completed : ∃ s v, parse ((tile t).1.flatMap Prod.snd ++ s) = .ok v := completed
  rwa [text] at completed

/-- A parse fails as early as it can. If a token is refused, what stands before it can be completed to a text
that has a value, and what ends with it cannot. A text of which it is said that it ends too early can be
completed. -/
theorem parse_fails_early (parsed : parse t = .error (.failure f)) :
    (∀ message, f.cause = some (.violation message) →
      (∃ m, Refused t m message ∧ f.report.position = m.start.offset) ∨
        f.report.description = Text.ofString "Unexpected end") ∧
    (∀ m message, Refused t m message →
      (∃ s v, parse (t.take m.start.offset ++ s) = .ok v) ∧
        ∀ s v, parse (t.take m.stop.offset ++ s) ≠ .ok v) ∧
    (f.report.description ∈ earlyEnds → ∃ s v, parse (t ++ s) = .ok v) := by
  obtain ⟨tiles', -, -, blocked⟩ := engine.tokens_tiles t
  obtain ⟨raised, blame, raises⟩ : ∃ raised blame, engine.Raises t .empty finishValue raised blame :=
    Engine.raises_of_parse parsed
  cases raised with
  | defect d =>
    have ended := parsed.symm.trans raises.passed
    simp at ended
  | trouble trouble =>
    obtain ⟨place, -, -, reported⟩ := raises.reported engine_lineBreaks
    obtain rfl := Stop.failure.inj (Except.error.inj (parsed.symm.trans reported))
    refine ⟨fun message cause => ?_, fun m message => refused_earliest, fun early => ?_⟩
    · obtain rfl : trouble = .violation message := Option.some.inj cause
      cases raises with
      | @action before m after b _ reached tiles applied refused =>
        obtain ⟨tokens, -⟩ := tiles.unique tiles'
        exact .inl ⟨m, ⟨before, after, b, tokens, applied, refused⟩, rfl⟩
      | finish tiles applied whole failed =>
        obtain ⟨rfl, -⟩ := tiles.unique tiles'
        rcases finish_raised applied failed with ⟨unended, -⟩ | ⟨start, bracket, unended, -⟩
        · obtain rfl := Trouble.violation.inj (Raised.trouble.inj unended)
          exact .inr rfl
        · simp [Refusal.raised, Raised.positioned] at unended
    · cases raises with
      | @action before m after b _ reached tiles applied refused =>
        obtain ⟨tokens, -⟩ := tiles.unique tiles'
        obtain ⟨c, i, w, found, rfl⟩ := token_found tokens
        rw [apply_token found] at refused
        exact absurd early (action_message refused)
      | blocked =>
        have apart : Text.ofString "Unrecognized token" ∉ earlyEnds := by decide
        exact absurd early apart
      | finish tiles applied whole failed =>
        obtain ⟨rfl, rfl⟩ := tiles.unique tiles'
        refine whole_viable ?_ applied
        rw [← Bool.not_eq_true, blocked, whole]
        exact Nat.lt_irrefl _

/-- The words in which a token or the end is refused, where a refusal is the cause of a failure. -/
def violation? (f : ParseFailure) : Option Text :=
  match f.cause with
  | some (.violation message) => some message
  | _ => none

theorem violation?_eq_some : violation? f = some message ↔ f.cause = some (.violation message) := by
  unfold violation?
  split <;> simp_all

/-- An array in an object. It can go on behind the comma, but not behind a brace in place of an element. -/
theorem parse_fails_early_nested :
    let t := Text.ofString "\x7b\"a\":[1,"
    (∃ f, parse (t ++ [Sign.rightBrace]) = .error (.failure f) ∧ f.report.position = 8 ∧
      (∃ s v, parse (t ++ s) = .ok v) ∧ ∀ s v, parse (t ++ [Sign.rightBrace] ++ s) ≠ .ok v) ∧
    ∃ f, parse t = .error (.failure f) ∧ f.report.description = Text.ofString "Unmatched `[`" ∧
      ∃ s v, parse (t ++ s) = .ok v := by
  intro t
  have refused : (failure? (t ++ [Sign.rightBrace])).map
      (fun f => (violation? f, f.report.position, f.report.description)) =
        some (some (Text.ofString "Unexpected character: `\x7d`"), 8,
          Text.ofString "Unexpected character: `\x7d`") := by
    decide +kernel
  have ended : (failure? t).map (·.report.description) = some (Text.ofString "Unmatched `[`") := by
    decide +kernel
  constructor
  · obtain ⟨f, found, same⟩ := Option.map_eq_some_iff.mp refused
    obtain ⟨violation, same⟩ := Prod.mk.inj same
    obtain ⟨position, description⟩ := Prod.mk.inj same
    have parsed := failure?_eq_some.mp found
    obtain ⟨why, earliest, -⟩ := parse_fails_early parsed
    obtain ⟨m, refused, start⟩ :=
      (why _ (violation?_eq_some.mp violation)).resolve_right (by rw [description]; decide)
    obtain ⟨goesOn, fails⟩ := earliest m _ refused
    have place : m.start.offset = 8 := Int.ofNat.inj (start.symm.trans position)
    refine ⟨f, parsed, position, ?_, fun s v => ?_⟩
    · rwa [place] at goesOn
    · have split := fails ((t ++ [Sign.rightBrace]).drop m.stop.offset ++ s) v
      rwa [← List.append_assoc, List.take_append_drop] at split
  · obtain ⟨f, found, description⟩ := Option.map_eq_some_iff.mp ended
    have parsed := failure?_eq_some.mp found
    exact ⟨f, parsed, description, (parse_fails_early parsed).2.2 (by rw [description]; decide)⟩

end TokenRules.Json
