import TokenRules.Proofs.Json.Outcome
import TokenRules.Proofs.Json.Refused

/-! The stack of frames against the brackets of the text. At every point of a scan the frames above the
outermost one spell out the brackets that are still open, with their kinds and offsets, so that no closing
bracket ever meets an empty stack, and the end of the text is refused for the innermost of them. -/
namespace TokenRules.Json

inductive BracketKind where
  | square | curly
  deriving DecidableEq, Repr

def BracketKind.left : BracketKind → CodePoint
  | .square => Sign.leftBracket
  | .curly => Sign.leftBrace

def BracketKind.right : BracketKind → CodePoint
  | .square => Sign.rightBracket
  | .curly => Sign.rightBrace

/-- A bracket that was opened at `start`. -/
structure OpenBracket where
  kind : BracketKind
  start : Int
  deriving DecidableEq, Repr

/-- Closes the innermost bracket, if it is of the kind. -/
def closeInnermost (kind : BracketKind) : List OpenBracket → List OpenBracket
  | [] => []
  | bracket :: outer => if bracket.kind = kind then outer else bracket :: outer

/-- The open brackets, the innermost first, after a further token. Only a token that is nothing but a
bracket counts, so none inside a string does. -/
def turn (brackets : List OpenBracket) (m : Match) : List OpenBracket :=
  match m.text with
  | [Sign.leftBracket] => ⟨.square, m.start.offset⟩ :: brackets
  | [Sign.leftBrace] => ⟨.curly, m.start.offset⟩ :: brackets
  | [Sign.rightBracket] => closeInnermost .square brackets
  | [Sign.rightBrace] => closeInnermost .curly brackets
  | _ => brackets

/-- The same, after a further event. -/
def Event.turn (brackets : List OpenBracket) : Event → List OpenBracket
  | .openArray start => ⟨.square, start⟩ :: brackets
  | .openObject start => ⟨.curly, start⟩ :: brackets
  | .closeArray => closeInnermost .square brackets
  | .closeObject => closeInnermost .curly brackets
  | .value _ | .colon | .comma => brackets

def BracketKind.closing : BracketKind → Event
  | .square => .closeArray
  | .curly => .closeObject

/-- The brackets that tokens leave open, the innermost first. -/
def unclosed (ms : List Match) : List OpenBracket :=
  ms.foldl turn []

namespace Frame

/-- The bracket that opened a frame. -/
def bracket? : Frame → Option OpenBracket
  | .bare | .root _ => none
  | .array f => some ⟨.square, f.start⟩
  | .object f => some ⟨.curly, f.start⟩

/-- A value came last. -/
def InValue : Frame → Prop
  | .bare | .root _ => False
  | .array f => f.state = .value
  | .object f => f.state = .value

theorem bracket_of_opening {f g : Frame} (same : g.opening? = f.opening?) : g.bracket? = f.bracket? := by
  cases f <;> cases g <;> simp_all [opening?, bracket?]

theorem opening_replaceLast (v : Value) (f : Frame) : (f.replaceLast v).opening? = f.opening? := by
  cases f with
  | object f => simp only [replaceLast, ObjectFrame.replaceLast]; split <;> rfl
  | _ => rfl

theorem InValue.replaceLast {f : Frame} (taken : f.InValue) (v : Value) : (f.replaceLast v).InValue := by
  cases f with
  | bare | root _ => exact taken
  | array f => exact taken
  | object f => simp only [Frame.replaceLast, ObjectFrame.replaceLast]; split <;> exact taken

/-- A bracket is opened where a value is awaited, so the frame around it has one from then on. -/
theorem Awaits.add_inValue {f : Frame} (awaits : f.Awaits) (inner : f.bracket?.isSome) (v : Value) :
    (Frame.add v f).after.InValue := by
  cases f with
  | bare | root _ => contradiction
  | array f =>
    rcases awaits with initial | comma
    · simp [add, ArrayFrame.add, initial, InValue]
    · simp [add, ArrayFrame.add, comma, InValue]
  | object f =>
    obtain ⟨colon, named⟩ := awaits
    obtain ⟨k, named⟩ := Option.isSome_iff_exists.mp named
    simp [add, ObjectFrame.add, colon, named, InValue]

theorem closeArray_accepted {f : Frame} (accepted : f.closeArray.refusal = none) :
    f.closeArray.after = f ∧ ∃ start, f.bracket? = some ⟨.square, start⟩ := by
  cases f with
  | array f =>
    refine ⟨?_, f.start, rfl⟩
    cases state : f.state <;> simp [closeArray, ArrayFrame.close, state]
  | _ => contradiction

theorem closeObject_accepted {f : Frame} (accepted : f.closeObject.refusal = none) :
    f.closeObject.after = f ∧ ∃ start, f.bracket? = some ⟨.curly, start⟩ := by
  cases f with
  | object f =>
    refine ⟨?_, f.start, rfl⟩
    cases state : f.state <;> simp [closeObject, ObjectFrame.close, state]
  | _ => contradiction

theorem finish_of_bracket {f : Frame} (opened : f.bracket? = some bracket) :
    f.finish = .error (.unmatched bracket.start bracket.kind.left) := by
  cases f with
  | bare | root _ => contradiction
  | array f | object f =>
    obtain rfl := Option.some.inj opened
    rfl

end Frame

namespace Builder

/-- The frames above the outermost one are those of the open brackets, in order. All but the active one
have a value, the collection of the next, and so has the outermost frame, if it is not the active one. -/
structure Spells (b : Builder) (brackets : List OpenBracket) : Prop where
  frames : b.inner.map Frame.bracket? = brackets.map some
  below : ∀ f ∈ b.inner.tail, f.InValue
  root : b.inner ≠ [] → b.root.value.isSome

variable {b : Builder} {brackets : List OpenBracket}

theorem spells_empty : empty.Spells [] where
  frames := rfl
  below := by simp [empty]
  root nested := absurd rfl nested

/-- A token that only the active frame deals with. -/
theorem Spells.offer {token : Frame → Reply Frame} (spells : b.Spells brackets)
    (kept : (token b.active).after.opening? = b.active.opening?) :
    (b.offer token).after.Spells brackets := by
  obtain ⟨root, inner⟩ := b
  cases inner with
  | nil =>
    have outermost : (Builder.offer ⟨root, []⟩ token).after.inner = [] := by
      simp only [Builder.offer, Reply.within_after, setActive]
      split <;> simp_all
    refine ⟨?_, ?_, ?_⟩
    · rw [outermost]
      exact spells.frames
    · simp [outermost]
    · exact fun nested => absurd outermost nested
  | cons f outer =>
    have same : (token f).after.bracket? = f.bracket? := Frame.bracket_of_opening kept
    have frames := spells.frames
    rw [List.map_cons, ← same] at frames
    exact ⟨frames, spells.below, fun _ => spells.root (by simp)⟩

/-- A bracket that opens a frame. -/
theorem Spells.push {f : Frame} (spells : b.Spells brackets) (accepted : (b.push f).refusal = none)
    (opened : f.bracket? = some bracket) : (b.push f).after.Spells (bracket :: brackets) := by
  obtain ⟨awaits, after⟩ := push_accepted accepted
  have around := spells.offer (Frame.opening_add f.blank b.active)
  rw [after]
  refine ⟨?_, ?_, ?_⟩
  · simpa [enclose, opened] using around.frames
  · obtain ⟨root, inner⟩ := b
    cases inner with
    | nil =>
      have unset : root.value = none := awaits
      simp [enclose, Builder.offer, active, setActive, Frame.add, RootFrame.add, unset]
    | cons g outer =>
      obtain ⟨x, spelled⟩ : ∃ x, g.bracket? = some x := by
        cases brackets with
        | nil => simpa using spells.frames
        | cons x _ => exact ⟨x, (List.cons.inj spells.frames).1⟩
      have awaits : g.Awaits := awaits
      have taken := awaits.add_inValue (by simp [spelled]) f.blank
      simpa [enclose, Builder.offer, active, setActive] using ⟨taken, spells.below⟩
  · intro
    obtain ⟨root, inner⟩ := b
    cases inner with
    | nil =>
      have unset : root.value = none := awaits
      simp [enclose, Builder.offer, active, setActive, Frame.add, RootFrame.add, unset]
    | cons g outer => exact spells.root (by simp)

theorem Spells.pop (spells : b.Spells brackets) (opened : b.active.bracket? = some bracket) :
    ∃ outer, brackets = bracket :: outer ∧ b.pop.Spells outer := by
  obtain ⟨root, inner⟩ := b
  cases inner with
  | nil => contradiction
  | cons f around =>
    cases brackets with
    | nil => simpa using spells.frames
    | cons x outer =>
      obtain ⟨same, frames⟩ := List.cons.inj spells.frames
      obtain rfl := Option.some.inj (same.symm.trans opened)
      refine ⟨outer, rfl, ?_⟩
      have set := spells.root (by simp)
      have below : ∀ g ∈ around, g.InValue := spells.below
      simp only [Builder.pop]
      cases held : f.held? with
      | none =>
        exact ⟨frames, fun g member => below g (List.mem_of_mem_tail member), fun _ => set⟩
      | some v =>
        cases around with
        | nil => exact ⟨frames, by simp [setActive, active, Frame.replaceLast], by
            simp [setActive, active, Frame.replaceLast]⟩
        | cons g rest =>
          have kept := Frame.bracket_of_opening (Frame.opening_replaceLast v g)
          refine ⟨?_, fun h member => below h (List.mem_cons_of_mem _ member), fun _ => set⟩
          simpa only [setActive, active, List.map_cons, kept] using frames

theorem Spells.close {token : Frame → Reply Frame} (spells : b.Spells brackets)
    (closes : (token b.active).after = b.active ∧ ∃ start, b.active.bracket? = some ⟨kind, start⟩) :
    ∃ start outer, brackets = ⟨kind, start⟩ :: outer ∧ (b.offer token).after.pop.Spells outer := by
  obtain ⟨same, start, opened⟩ := closes
  have unchanged : (b.offer token).after = b := by
    rw [Builder.offer, Reply.within_after, same, setActive_active]
  obtain ⟨outer, rfl, popped⟩ := spells.pop opened
  rw [unchanged]
  exact ⟨start, outer, rfl, popped⟩

/-- A bracket that may close is of the kind of the innermost one. -/
theorem Spells.closing (kind : BracketKind) (spells : b.Spells brackets)
    (accepted : (b.apply kind.closing).refusal = none) :
    ∃ start outer, brackets = ⟨kind, start⟩ :: outer ∧ (b.apply kind.closing).after.Spells outer := by
  cases kind with
  | square =>
    obtain ⟨taken, after⟩ := followedBy_pop_accepted accepted
    obtain ⟨start, outer, same, closed⟩ := spells.close (Frame.closeArray_accepted taken)
    exact ⟨start, outer, same, after ▸ closed⟩
  | curly =>
    obtain ⟨taken, after⟩ := followedBy_pop_accepted accepted
    obtain ⟨start, outer, same, closed⟩ := spells.close (Frame.closeObject_accepted taken)
    exact ⟨start, outer, same, after ▸ closed⟩

/-- Each event opens a bracket, closes the innermost one, or leaves them as they are. -/
theorem Spells.step (spells : b.Spells brackets) (accepted : (b.apply e).refusal = none) :
    (b.apply e).after.Spells (e.turn brackets) := by
  cases e with
  | value v => exact spells.offer (Frame.opening_add v _)
  | colon => exact spells.offer (Frame.opening_colon _)
  | comma => exact spells.offer (Frame.opening_comma _)
  | openArray start => exact spells.push accepted rfl
  | openObject start => exact spells.push accepted rfl
  | closeArray =>
    obtain ⟨start, outer, rfl, closed⟩ := spells.closing .square accepted
    exact closed
  | closeObject =>
    obtain ⟨start, outer, rfl, closed⟩ := spells.closing .curly accepted
    exact closed

/-- The innermost open bracket is to blame for an end that comes too early, and nothing else is. -/
theorem Spells.finish_iff (spells : b.Spells brackets) : b.finish = .error (.unmatched start sign) ↔
    ∃ kind outer, brackets = ⟨kind, start⟩ :: outer ∧ sign = kind.left := by
  obtain ⟨root, inner⟩ := b
  cases inner with
  | nil =>
    obtain rfl : brackets = [] := by simpa using spells.frames.symm
    cases set : root.value <;> simp [Builder.finish, active, Frame.finish, RootFrame.finish, set]
  | cons f around =>
    cases brackets with
    | nil => simpa using spells.frames
    | cons x outer =>
      have blamed : Builder.finish ⟨root, f :: around⟩ = .error (.unmatched x.start x.kind.left) :=
        Frame.finish_of_bracket (List.cons.inj spells.frames).1
      rw [blamed]
      constructor
      · intro same
        obtain ⟨rfl, rfl⟩ := Refusal.unmatched.inj (Except.error.inj same)
        exact ⟨x.kind, outer, rfl, rfl⟩
      · rintro ⟨kind, _, same, rfl⟩
        rw [(List.cons.inj same).1]

end Builder

/-- Brackets are told from other tokens by their first character. -/
theorem turn_other {brackets : List OpenBracket} (found : lexeme? t = some (i, w)) (text : m.text = w)
    (other : i ∉ [5, 6, 7, 8]) : turn brackets m = brackets := by
  obtain ⟨-, x, u, rfl, kind⟩ := lexeme?_spec found
  have apart : ∀ sign ∈ [Sign.leftBracket, Sign.leftBrace, Sign.rightBracket, Sign.rightBrace],
      x ≠ sign := by
    rintro sign member rfl
    have signs : ∀ sign ∈ [Sign.leftBracket, Sign.leftBrace, Sign.rightBracket, Sign.rightBrace],
        ∀ i, ruleAt? sign = some i → i ∈ [5, 6, 7, 8] := by
      decide
    exact other (signs x member i kind)
  rw [turn, text]
  split
  all_goals simp_all

/-- What a token does to the open brackets is what its event does. -/
theorem turn_event {brackets : List OpenBracket} (found : lexeme? t = some (i, w)) (text : m.text = w)
    (read : readEvent m.start.offset i w = .ok e) :
    turn brackets m = e.elim brackets (Event.turn brackets) := by
  cases readEvent_readAs read with
  | number | string | blank => exact turn_other found text (by simp)
  | _ =>
    obtain rfl := Pattern.word_eq_some (lexeme?_front found rfl)
    rw [turn, text]
    rfl

/-- One token that is taken. A closing bracket is of the kind of the innermost one. -/
theorem Builder.Spells.token {b b' : Builder} {c : Cursor} {brackets : List OpenBracket}
    (spells : b.Spells brackets) (found : lexeme? c.after = some (i, w))
    (applied : engine.apply ⟨c, c.advance w.length, some (Engine.groupName i)⟩ b = .ok b') :
    b'.Spells (turn brackets ⟨c, c.advance w.length, some (Engine.groupName i)⟩) ∧
    ∀ kind : BracketKind, w = [kind.right] → ∃ start outer, brackets = ⟨kind, start⟩ :: outer := by
  have text := token_text found (some (Engine.groupName i))
  rw [apply_token found] at applied
  cases read : readEvent c.offset i w with
  | error raised => simp [read, applyEvent] at applied
  | ok event =>
    rw [read] at applied
    rw [turn_event found text read]
    refine ⟨?_, ?_⟩
    · cases event with
      | none =>
        obtain rfl := Except.ok.inj applied
        exact spells
      | some e =>
        obtain ⟨accepted, rfl⟩ := Reply.toExcept_eq_ok.mp (mapError_eq_ok.mp applied)
        exact spells.step accepted
    · rintro kind rfl
      obtain ⟨-, x, u, same, rule⟩ := lexeme?_spec found
      obtain ⟨rfl, -⟩ := List.cons.inj same
      obtain rfl : event = some kind.closing := by
        cases kind with
        | square =>
          obtain rfl : i = 7 := (Option.some.inj rule).symm
          exact (Except.ok.inj read).symm
        | curly =>
          obtain rfl : i = 8 := (Option.some.inj rule).symm
          exact (Except.ok.inj read).symm
      obtain ⟨start, outer, same, -⟩ := spells.closing kind (deliver_ok applied)
      exact ⟨start, outer, same⟩

/-- Any number of tokens that are taken. -/
theorem Builder.Spells.tokens {b b' : Builder} {c : Cursor} {brackets : List OpenBracket}
    (spells : b.Spells brackets) (split : matchesFrom c (tile c.after).1 = before ++ after)
    (applied : engine.applyAll b before = .ok b') :
    b'.Spells (before.foldl turn brackets) ∧
      ∃ c' : Cursor, after = matchesFrom c' (tile c'.after).1 := by
  induction before generalizing b c brackets with
  | nil =>
    obtain rfl := Except.ok.inj applied
    exact ⟨spells, c, split.symm⟩
  | cons m before ih =>
    obtain ⟨i, w, found, rfl, -, rest⟩ := matches_cons split
    simp only [Engine.applyAll] at applied
    split at applied
    · next next taken => exact ih (spells.token found taken).1 rest.symm applied
    · contradiction

/-- At every point of a scan, after any number of tokens that the builder took, its frames spell out the
brackets that these leave open. A closing bracket is taken only if the innermost of them is of its kind, so
the outermost frame is never dropped. The end is refused for the innermost of them, if there is one. -/
theorem frames_spell_brackets {t : Text} {before after : List Match} {b : Builder}
    (tokens : (engine.tokens t).1 = before ++ after) (applied : engine.applyAll .empty before = .ok b) :
    b.Spells (unclosed before) ∧
    (∀ m rest b', after = m :: rest → engine.apply m b = .ok b' →
      ∀ kind : BracketKind, m.text = [kind.right] →
        b.inner ≠ [] ∧ ∃ start outer, unclosed before = ⟨kind, start⟩ :: outer) ∧
    (∀ start sign, b.finish = .error (.unmatched start sign) ↔
      ∃ kind outer, unclosed before = ⟨kind, start⟩ :: outer ∧ sign = kind.left) ∧
    (after = [] → before.flatMap Match.text = t →
      ∀ kind start outer, unclosed before = ⟨kind, start⟩ :: outer →
        ∃ f, parse t = .error (.failure f) ∧ f.report.position = start ∧
          f.report.description = Text.ofString "Unmatched `" ++ [kind.left] ++ [0x60]) := by
  have split := engine_tokens t ▸ tokens
  obtain ⟨spells, c, ahead⟩ := Builder.spells_empty.tokens (c := .start t) split applied
  refine ⟨spells, ?_, fun start sign => spells.finish_iff, ?_⟩
  · rintro m rest b' rfl taken kind text
    obtain ⟨i, w, found, rfl, -⟩ := matches_cons ahead.symm
    rw [token_text found] at text
    obtain ⟨start, outer, innermost⟩ := (spells.token found taken).2 kind text
    refine ⟨?_, start, outer, innermost⟩
    intro outermost
    have frames := spells.frames
    rw [outermost, show before.foldl turn [] = _ from innermost] at frames
    contradiction
  · rintro rfl whole kind start outer innermost
    have refused : finishValue b = .error (Refusal.unmatched start kind.left).raised :=
      mapError_eq_error.mpr ⟨_, spells.finish_iff.mpr ⟨kind, outer, innermost, rfl⟩, rfl⟩
    obtain ⟨tiles, -⟩ := engine.tokens_tiles t
    rw [tokens, List.append_nil] at tiles
    obtain ⟨texts, within, -⟩ := tiles.whole
    have ended : (engine.tokens t).2.cursor.offset = t.length := by
      have length := congrArg List.length (whole.symm.trans texts)
      rw [List.length_take] at length
      omega
    have raises : engine.Raises t .empty finishValue _ _ := .finish tiles applied ended refused
    obtain ⟨place, -, -, parsed⟩ := raises.reported engine_lineBreaks
    exact ⟨_, parsed, rfl, rfl⟩

/-- Two brackets that are open, and one in a string. -/
def unfinished : Text :=
  Text.ofString "[" ++ Text.ofString "\x7b" ++ Text.ofString "\"]\"" ++ Text.ofString ":"

theorem tile_unfinished : tile unfinished =
    ([(5, Text.ofString "["), (6, Text.ofString "\x7b"), (4, Text.ofString "\"]\""),
      (10, Text.ofString ":")], []) := by
  have colon : tile (Text.ofString ":" ++ []) = ([(10, Text.ofString ":")], []) := by
    rw [tile_some (i := 10) (by decide), tile_nil]
  rw [List.append_nil] at colon
  rw [unfinished, List.append_assoc, List.append_assoc, tile_some (i := 5) (by decide),
    tile_some (i := 6) (by decide), tile_some (i := 4) (by decide), colon]

theorem frames_spell_brackets_unfinished : ∃ b : Builder,
    engine.applyAll .empty (engine.tokens unfinished).1 = .ok b ∧
    b.Spells [⟨.curly, 1⟩, ⟨.square, 0⟩] ∧
    ∃ f, parse unfinished = .error (.failure f) ∧ f.report.position = 1 ∧
      f.report.description = Text.ofString "Unmatched `\x7b`" := by
  have tokens : (engine.tokens unfinished).1 = matchesFrom (.start unfinished) (tile unfinished).1 :=
    engine_tokens unfinished
  have read : events 0 (tile unfinished).1 =
      .ok [.openArray 0, .openObject 1, .value (.string (Text.ofString "]")), .colon] := by
    have string : readEvent 2 4 (Text.ofString "\"]\"") =
        .ok (some (.value (.string (Text.ofString "]")))) := by
      have spelled : StringLiteral.dequote (Text.ofString "\"]\"") 2 = .ok (Text.ofString "]") :=
        StringLiteral.decode.eq_2 _ _
      rw [readEvent, show StringLiteral.dequote _ ((2 : Nat) : Int) = _ from spelled]
    rw [tile_unfinished]
    exact events_cons.mpr ⟨_, _, rfl, events_cons.mpr ⟨_, _, rfl,
      events_cons.mpr ⟨_, _, string, rfl, rfl⟩, rfl⟩, rfl⟩
  obtain ⟨b, ran⟩ : ∃ b, Builder.empty.run
      [.openArray 0, .openObject 1, .value (.string (Text.ofString "]")), .colon] = .ok b := ⟨_, rfl⟩
  have applied : engine.applyAll .empty (engine.tokens unfinished).1 = .ok b := by
    rw [tokens]
    exact (applyAll_ok (.start unfinished)).mpr ⟨_, read, ran⟩
  have left : unclosed (engine.tokens unfinished).1 = [⟨.curly, 1⟩, ⟨.square, 0⟩] := by
    rw [tokens, tile_unfinished]
    rfl
  have whole : (engine.tokens unfinished).1.flatMap Match.text = unfinished := by
    rw [tokens, tile_unfinished]
    rfl
  obtain ⟨spells, -, -, blamed⟩ := frames_spell_brackets (List.append_nil _).symm applied
  rw [left] at spells blamed
  exact ⟨b, applied, spells, blamed rfl whole .curly 1 _ rfl⟩

end TokenRules.Json
