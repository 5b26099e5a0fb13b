import TokenRules.Proofs.Json.Automaton
import TokenRules.Proofs.Json.Rules
import TokenRules.Proofs.Scan.Tokens

/-! The tokens of a JSON text, read off the text alone, and the events that they stand for. A text has
a value if its tokens reach its end, each can be read, and the events put a value together. -/
namespace TokenRules.Json

theorem lexeme?_shorter (found : lexeme? t = some (i, w)) : (t.drop w.length).length < t.length := by
  obtain ⟨⟨rest, rfl⟩, x, u, rfl, -⟩ := lexeme?_spec found
  rw [List.drop_left, List.length_append, List.length_cons]
  omega

/-- The tokens of a text, each with the number of its rule, and the rest where no rule goes on. -/
def tile (t : Text) : List (Nat × Text) × Text :=
  match _h : lexeme? t with
  | none => ([], t)
  | some (i, w) => ((i, w) :: (tile (t.drop w.length)).1, (tile (t.drop w.length)).2)
termination_by t.length
decreasing_by all_goals exact lexeme?_shorter _h

theorem tile_none (stuck : lexeme? t = none) : tile t = ([], t) := by
  rw [tile]
  split
  · rfl
  · next found => simp [stuck] at found

theorem tile_some (found : lexeme? (w ++ t) = some (i, w)) :
    tile (w ++ t) = ((i, w) :: (tile t).1, (tile t).2) := by
  rw [tile]
  split
  · next stuck => simp [found] at stuck
  · next j v found' =>
    obtain ⟨rfl, rfl⟩ := Prod.mk.inj (Option.some.inj (found'.symm.trans found))
    rw [List.drop_left]

theorem tile_nil : tile [] = ([], []) :=
  tile_none rfl

/-- The first of the tokens of a text, and those after it. -/
theorem tile_cons (tokens : (tile t).1 = (i, w) :: rest) :
    ∃ u, t = w ++ u ∧ lexeme? (w ++ u) = some (i, w) ∧ tile u = (rest, (tile t).2) := by
  cases found : lexeme? t with
  | none => simp [tile_none found] at tokens
  | some token =>
    obtain ⟨j, v⟩ := token
    obtain ⟨⟨u, rfl⟩, -⟩ := lexeme?_spec found
    rw [tile_some found] at tokens ⊢
    obtain ⟨same, rfl⟩ := List.cons.inj tokens
    obtain ⟨rfl, rfl⟩ := Prod.mk.inj same
    exact ⟨u, rfl, found, rfl⟩

/-- The text of its tokens, and the rest where no rule goes on. -/
theorem tile_text (t : Text) : (tile t).1.flatMap Prod.snd ++ (tile t).2 = t := by
  fun_induction tile t with
  | case1 t stuck => rfl
  | case2 t i w found ih =>
    obtain ⟨⟨u, rfl⟩, -⟩ := lexeme?_spec found
    rw [List.drop_left] at ih ⊢
    rw [List.flatMap_cons, List.append_assoc, ih]

/-- Tokens as matches from a position on. -/
def matchesFrom (c : Cursor) : List (Nat × Text) → List Match
  | [] => []
  | (i, w) :: rest =>
    ⟨c, c.advance w.length, some (Engine.groupName i)⟩ :: matchesFrom (c.advance w.length) rest

/-- The same, as matches. -/
theorem matches_cons {c : Cursor} (split : matchesFrom c (tile c.after).1 = m :: rest) :
    ∃ i w, lexeme? c.after = some (i, w) ∧
      m = ⟨c, c.advance w.length, some (Engine.groupName i)⟩ ∧
      (tile c.after).1 = (i, w) :: (tile (c.advance w.length).after).1 ∧
      rest = matchesFrom (c.advance w.length) (tile (c.advance w.length).after).1 := by
  cases tokens : (tile c.after).1 with
  | nil => simp [tokens, matchesFrom] at split
  | cons token list =>
    obtain ⟨i, w⟩ := token
    obtain ⟨u, ahead, found, behind⟩ := tile_cons tokens
    rw [tokens, matchesFrom] at split
    obtain ⟨rfl, rfl⟩ := List.cons.inj split
    have next : (tile (c.advance w.length).after).1 = list := by
      rw [(Cursor.advance_append ahead).1, behind]
    exact ⟨i, w, ahead ▸ found, rfl, by rw [next], by rw [next]⟩

/-- A scanner of the engine that has got to its cursor. -/
structure Scanning (s : Scanner) : Prop where
  pattern : s.pattern = engine.pattern
  position : s.position = s.cursor.offset
  size : s.size = s.cursor.offset + s.cursor.after.length

theorem scanning_start (t : Text) : Scanning (Scanner.start engine.pattern t 0) where
  pattern := rfl
  position := rfl
  size := by simp [Scanner.start, Cursor.start, Cursor.advance]

theorem Scanning.hasMore {s : Scanner} (scanning : Scanning s) :
    s.hasMore = !s.cursor.after.isEmpty := by
  rw [Scanner.hasMore, scanning.position, scanning.size]
  cases s.cursor.after with
  | nil => simp
  | cons x t =>
    simp only [List.length_cons, List.isEmpty_cons, Bool.not_false, decide_eq_true_eq]
    omega

theorem Scanning.advance_none {s : Scanner} (scanning : Scanning s)
    (stuck : lexeme? s.cursor.after = none) : s.advance = (none, { s with current := none }) := by
  have peek : s.peek = none := by
    rw [Scanner.peek, scanning.pattern, engine_matchAt, stuck]
    simp
  rw [Scanner.advance, peek]

theorem Scanning.advance_some {s : Scanner} (scanning : Scanning s)
    (found : lexeme? s.cursor.after = some (i, w)) : ∃ s', Scanning s' ∧
      s'.cursor = s.cursor.advance w.length ∧
      s.advance = (some ⟨s.cursor, s.cursor.advance w.length, some (Engine.groupName i)⟩, s') := by
  obtain ⟨⟨rest, ahead⟩, x, u, rfl, -⟩ := lexeme?_spec found
  obtain ⟨after, offset⟩ := Cursor.advance_append ahead.symm
  have forward : s.position < (s.cursor.advance (x :: u).length).offset := by
    rw [scanning.position, offset, List.length_cons]
    omega
  have more : s.hasMore = true := by
    rw [scanning.hasMore, ← ahead]
    rfl
  have peek : s.peek = some ⟨s.cursor, s.cursor.advance (x :: u).length,
      some (Engine.groupName i)⟩ := by
    rw [Scanner.peek, if_pos more, scanning.pattern, engine_matchAt, found]
    exact Option.filter_some_pos (by simpa using forward)
  have size : s.size = (s.cursor.advance (x :: u).length).offset +
      (s.cursor.advance (x :: u).length).after.length := by
    rw [scanning.size, after, offset, ← ahead, List.length_append]
    omega
  refine ⟨{ s with
    cursor := s.cursor.advance (x :: u).length
    position := (s.cursor.advance (x :: u).length).offset
    current := some s.cursor.offset }, ⟨scanning.pattern, rfl, size⟩, rfl, ?_⟩
  rw [Scanner.advance, peek]

/-- The engine's tokens are those of the text. -/
theorem Scanning.tokens {s : Scanner} (scanning : Scanning s) :
    s.tokens.1 = matchesFrom s.cursor (tile s.cursor.after).1 ∧
      s.tokens.2.isBlocked = !(tile s.cursor.after).2.isEmpty := by
  generalize ahead : s.cursor.after = t
  fun_induction tile t generalizing s with
  | case1 t stuck =>
    rw [← ahead] at stuck
    rw [Scanner.tokens_none (scanning.advance_none stuck)]
    refine ⟨rfl, ?_⟩
    rw [← ahead, ← scanning.hasMore]
    rfl
  | case2 t i w found ih =>
    rw [← ahead] at found
    obtain ⟨s', scanning', cursor, moved⟩ := scanning.advance_some found
    have after : s'.cursor.after = t.drop w.length := by
      rw [cursor, Cursor.advance_after, ahead]
    obtain ⟨matches', blocked⟩ := ih scanning' after
    rw [Scanner.tokens_some moved, matches', cursor]
    exact ⟨rfl, blocked⟩

theorem engine_actionFor (known : lexemes[i]? = some (p, action)) (c stop : Cursor) :
    engine.actionFor ⟨c, stop, some (Engine.groupName i)⟩ = .ok action := by
  have rule : rules[i]? = some ⟨.source (Text.ofString p), some action⟩ := by
    rw [rules, List.getElem?_map, known]
    rfl
  obtain ⟨action', same, bound⟩ := Engine.actionFor_of_build (Engine.eq_ok_of_isSome _ rules_build) rule
    ⟨c, stop, some (Engine.groupName i)⟩ rfl
  obtain rfl := Option.some.inj same
  exact bound

/-- The event that a token at an offset stands for; blanks stand for none. -/
def readEvent (offset i : Nat) (w : Text) : Except (Raised Flaw) (Option Event) :=
  match i with
  | 0 => .ok (some (.value .null))
  | 1 => .ok (some (.value (.bool true)))
  | 2 => .ok (some (.value (.bool false)))
  | 3 => match readNumber w with
    | .ok v => .ok (some (.value v))
    | .error flaw => .error (.foreign flaw)
  | 4 => match StringLiteral.dequote w offset with
    | .ok s => .ok (some (.value (.string s)))
    | .error bad => .error (.positioned bad.position bad.message)
  | 5 => .ok (some (.openArray offset))
  | 6 => .ok (some (.openObject offset))
  | 7 => .ok (some .closeArray)
  | 8 => .ok (some .closeObject)
  | 9 => .ok (some .comma)
  | 10 => .ok (some .colon)
  | _ => .ok none

/-- What a token is read as: a number and a string by their text, all others by their rule alone. -/
inductive ReadAs (offset : Nat) (w : Text) : Nat → Option Event → Prop
  | null : ReadAs offset w 0 (some (.value .null))
  | affirmed : ReadAs offset w 1 (some (.value (.bool true)))
  | denied : ReadAs offset w 2 (some (.value (.bool false)))
  | number : readNumber w = .ok v → ReadAs offset w 3 (some (.value v))
  | string : StringLiteral.dequote w offset = .ok s → ReadAs offset w 4 (some (.value (.string s)))
  | openArray : ReadAs offset w 5 (some (.openArray offset))
  | openObject : ReadAs offset w 6 (some (.openObject offset))
  | closeArray : ReadAs offset w 7 (some .closeArray)
  | closeObject : ReadAs offset w 8 (some .closeObject)
  | comma : ReadAs offset w 9 (some .comma)
  | colon : ReadAs offset w 10 (some .colon)
  | blank : ReadAs offset w (i + 11) none

theorem readEvent_readAs (read : readEvent offset i w = .ok e) : ReadAs offset w i e := by
  match i with
  | 3 =>
    simp only [readEvent] at read
    split at read
    · next v number => exact Except.ok.inj read ▸ .number number
    · contradiction
  | 4 =>
    simp only [readEvent] at read
    split at read
    · next s decoded => exact Except.ok.inj read ▸ .string decoded
    · contradiction
  | 0 | 1 | 2 | 5 | 6 | 7 | 8 | 9 | 10 | i + 11 =>
    obtain rfl := Except.ok.inj read
    constructor

/-- Applies the event of a token to a builder. -/
def applyEvent (b : Builder) : Except (Raised Flaw) (Option Event) → Except (Raised Flaw) Builder
  | .ok (some e) => deliver b e
  | .ok none => .ok b
  | .error raised => .error raised

/-- The actions of the rules read the token and deliver its event. -/
theorem action_eq (known : lexemes[i]? = some (p, action)) (w : Text) (b : Builder) (offset : Nat) :
    action w b offset = applyEvent b (readEvent offset i w) := by
  match i with
  | 3 =>
    obtain ⟨-, rfl⟩ := Prod.mk.inj (Option.some.inj known)
    simp only [actNumber, readEvent]
    cases readNumber w <;> rfl
  | 4 =>
    obtain ⟨-, rfl⟩ := Prod.mk.inj (Option.some.inj known)
    simp only [actString, readEvent]
    cases StringLiteral.dequote w offset <;> rfl
  | 0 | 1 | 2 | 5 | 6 | 7 | 8 | 9 | 10 | 11 =>
    obtain ⟨-, rfl⟩ := Prod.mk.inj (Option.some.inj known)
    rfl
  | i + 12 => contradiction

theorem token_text {c : Cursor} (found : lexeme? c.after = some (i, w)) (group : Option Text) :
    Match.text ⟨c, c.advance w.length, group⟩ = w := by
  obtain ⟨⟨rest, ahead⟩, -⟩ := lexeme?_spec found
  exact Match.text_advance ahead.symm group

theorem apply_token {c : Cursor} (found : lexeme? c.after = some (i, w)) (b : Builder) :
    engine.apply ⟨c, c.advance w.length, some (Engine.groupName i)⟩ b =
      applyEvent b (readEvent c.offset i w) := by
  have inside : i < lexemes.length := lexeme?_inside found
  have known : lexemes[i]? = some (lexemes[i].1, lexemes[i].2) := List.getElem?_eq_getElem inside
  rw [Engine.apply, engine_actionFor known, token_text found]
  exact action_eq known w b c.offset

/-- The events of tokens from an offset on. -/
def events (offset : Nat) : List (Nat × Text) → Except (Raised Flaw) (List Event)
  | [] => .ok []
  | (i, w) :: rest =>
    match readEvent offset i w with
    | .ok e => (events (offset + w.length) rest).map (e.toList ++ ·)
    | .error raised => .error raised

theorem applyEvent_eq (b : Builder) (e : Option Event) :
    applyEvent b (.ok e) = (b.run e.toList).mapError Refusal.raised := by
  cases e with
  | none => rfl
  | some e =>
    simp only [applyEvent, deliver, Option.toList_some, Builder.run]
    cases (b.apply e).toExcept with
    | ok b => rfl
    | error why => rfl

/-- The actions accept the tokens of a text if all can be read and the builder takes their events. -/
theorem applyAll_ok (c : Cursor) {b b' : Builder} :
    engine.applyAll b (matchesFrom c (tile c.after).1) = .ok b' ↔
      ∃ es, events c.offset (tile c.after).1 = .ok es ∧ b.run es = .ok b' := by
  generalize ahead : c.after = t
  fun_induction tile t generalizing c b with
  | case1 t stuck => simp [matchesFrom, Engine.applyAll, events, Builder.run]
  | case2 t i w found ih =>
    obtain ⟨⟨rest, split⟩, -⟩ := lexeme?_spec found
    rw [← ahead] at found
    obtain ⟨after, offset⟩ := Cursor.advance_append (ahead.trans split.symm)
    have next := fun b => @ih (c.advance w.length) b (by rw [after, ← split, List.drop_left])
    rw [offset] at next
    simp only [matchesFrom, Engine.applyAll, events, apply_token found]
    cases readEvent c.offset i w with
    | error raised => simp [applyEvent]
    | ok e =>
      rw [applyEvent_eq]
      generalize events (c.offset + w.length) (tile (t.drop w.length)).1 = later at next ⊢
      cases later with
      | error raised =>
        cases b.run e.toList with
        | error why => simp [Except.map]
        | ok b => simpa [Except.map] using next b
      | ok es =>
        simp only [Except.map, Except.ok.injEq, exists_eq_left', Builder.run_append]
        cases b.run e.toList with
        | error why => simp
        | ok b => simpa using next b

theorem readNumber_kind (read : readNumber t = .ok v) : v.kind? = some .number := by
  unfold readNumber at read
  split at read
  · split at read
    · rw [← Except.ok.inj read]
      rfl
    · contradiction
  · split at read
    · rw [← Except.ok.inj read]
      rfl
    · contradiction

theorem readNumber_scalar (read : readNumber t = .ok v) : v.IsScalar := by
  have number := readNumber_kind read
  cases v with
  | integer i | real x => trivial
  | _ => simp [Value.kind?] at number

theorem readEvent_scalar (read : readEvent offset i w = .ok (some (.value v))) : v.IsScalar := by
  cases readEvent_readAs read with
  | number number => exact readNumber_scalar number
  | null | affirmed | denied | string _ => trivial

theorem events_cons : events offset ((i, w) :: rest) = .ok es ↔ ∃ e es',
    readEvent offset i w = .ok e ∧ events (offset + w.length) rest = .ok es' ∧
      es = e.toList ++ es' := by
  rw [events]
  cases readEvent offset i w with
  | error raised => simp
  | ok e =>
    cases events (offset + w.length) rest with
    | error raised => simp [Except.map]
    | ok es' => simp [Except.map, eq_comm]

theorem events_append : events offset (list ++ list') = .ok es ↔ ∃ first second,
    events offset list = .ok first ∧
      events (offset + (list.flatMap Prod.snd).length) list' = .ok second ∧ es = first ++ second := by
  induction list generalizing offset es with
  | nil => simp [events]
  | cons token list ih =>
    obtain ⟨i, w⟩ := token
    simp only [List.cons_append, events_cons, ih, List.flatMap_cons, List.length_append, Nat.add_assoc]
    constructor
    · rintro ⟨e, _, here, ⟨first, second, later, last, rfl⟩, rfl⟩
      exact ⟨_, second, ⟨e, first, here, later, rfl⟩, last, by simp⟩
    · rintro ⟨_, second, ⟨e, first, here, later, rfl⟩, last, rfl⟩
      exact ⟨e, _, here, ⟨first, second, later, last, rfl⟩, by simp⟩

theorem events_scalar (read : events offset list = .ok es) :
    ∀ v, Event.value v ∈ es → v.IsScalar := by
  induction list generalizing offset es with
  | nil =>
    obtain rfl := Except.ok.inj read
    simp
  | cons token rest ih =>
    obtain ⟨i, w⟩ := token
    obtain ⟨e, es', here, later, rfl⟩ := events_cons.mp read
    intro v member
    rcases List.mem_append.mp member with first | others
    · obtain rfl := Option.mem_toList.mp first
      exact readEvent_scalar here
    · exact ih later v others

/-- A text has a value if its tokens reach its end and the builder takes the events they stand for. -/
theorem parse_ok_iff : parse t = .ok v ↔
    (tile t).2 = [] ∧ ∃ es, events 0 (tile t).1 = .ok es ∧ Builder.build es = .ok v := by
  obtain ⟨tokens, blocked⟩ := (scanning_start t).tokens
  have tokens : (engine.tokens t).1 = matchesFrom (Cursor.start t) (tile t).1 := tokens
  have blocked : (engine.tokens t).2.isBlocked = !(tile t).2.isEmpty := blocked
  have accepted : ∀ b, engine.applyAll .empty (matchesFrom (Cursor.start t) (tile t).1) = .ok b ↔
      ∃ es, events 0 (tile t).1 = .ok es ∧ Builder.empty.run es = .ok b :=
    fun b => applyAll_ok (Cursor.start t)
  rw [parse, parseLast, Engine.parse_ok_iff, tokens, blocked]
  simp only [accepted, mapError_eq_ok]
  constructor
  · rintro ⟨b, ⟨es, read, ran⟩, whole, finished⟩
    refine ⟨by simpa using whole, es, read, ?_⟩
    rw [Builder.build, ran]
    exact finished
  · rintro ⟨whole, es, read, built⟩
    rw [Builder.build] at built
    split at built
    · next b ran => exact ⟨b, ⟨es, read, ran⟩, by simpa using whole, built⟩
    · contradiction

end TokenRules.Json
