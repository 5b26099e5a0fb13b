import TokenRules.Proofs.Json.Parsing
import TokenRules.Proofs.Json.Range
import TokenRules.Proofs.Scan.Report

/-! How a parse can end: in a value, in the report of a trouble, or in the one defect that there is, an
integer with more digits than can be read. No frame, string or bracket ever raises another. -/
namespace TokenRules.Json

theorem engine_lineBreaks : engine.lineBreaks = Source.LineBreaks.normal.name :=
  Engine.build_lineBreaks (Engine.eq_ok_of_isSome _ rules_build)

theorem followedBy_refusal (r : Reply α) (change : α → α) :
    (r.followedBy change).refusal = r.refusal := by
  rw [Reply.followedBy]
  split
  · next accepted => exact accepted.symm
  · rfl

theorem Reply.toExcept_eq_ok {r : Reply α} : r.toExcept = .ok a ↔ r.refusal = none ∧ r.after = a := by
  rw [toExcept]
  split
  · next accepted => simp [accepted]
  · next refused => simp [refused]

theorem Reply.toExcept_eq_error {r : Reply α} : r.toExcept = .error why ↔ r.refusal = some why := by
  rw [toExcept]
  split
  · next accepted => simp [accepted]
  · next refused => simp [refused]

/-- Only a flaw is a defect; every other refusal is a trouble. -/
theorem Refusal.raised_defect {why : Refusal} (raised : why.raised = .defect d) :
    ∃ flaw, why = .flaw flaw := by
  cases why with
  | flaw flaw => exact ⟨flaw, rfl⟩
  | _ => contradiction

/-- A value that is not expected is a flaw if it is none or cannot be shown. -/
theorem unexpected_flaw (flawed : Refusal.unexpected v = .flaw flaw) : v.kind? = none ∨ v.render? = none := by
  unfold Refusal.unexpected at flawed
  split at flawed
  · contradiction
  · next shown => exact .inr shown
  · next kind => exact .inl kind

namespace Frame

/-- A frame refuses a value as an unexpected one. -/
theorem add_refusal {f : Frame} (refused : (Frame.add v f).refusal = some why) :
    .unexpected v = why := by
  cases f with
  | bare => exact Option.some.inj refused
  | root f =>
    simp only [add, RootFrame.add] at refused
    split at refused
    · exact Option.some.inj refused
    · simp at refused
  | array f =>
    cases state : f.state with
    | initial | comma => simp [add, ArrayFrame.add, state] at refused
    | value =>
      simp only [add, ArrayFrame.add, state] at refused
      exact Option.some.inj refused
  | object f =>
    cases state : f.state with
    | initial | comma | colon =>
      simp only [add, ObjectFrame.add, state] at refused
      split at refused
      · simp at refused
      · exact Option.some.inj refused
    | name | value =>
      simp only [add, ObjectFrame.add, state] at refused
      exact Option.some.inj refused

/-- The signs that a frame may refuse, with their tokens. -/
def signs : List ((Frame → Reply Frame) × CodePoint) :=
  [(closeArray, Sign.rightBracket), (closeObject, Sign.rightBrace), (Frame.colon, Sign.colon),
   (Frame.comma, Sign.comma)]

/-- A frame refuses a sign by itself. -/
theorem sign_refusal {f : Frame} (sign : (token, c) ∈ signs)
    (refused : (token f).refusal = some why) : why = .sign c := by
  have refusal : (token f).refusal = none ∨ (token f).refusal = some (.sign c) := by
    simp only [signs, List.mem_cons, Prod.mk.injEq, List.not_mem_nil, or_false] at sign
    rcases sign with ⟨rfl, rfl⟩ | ⟨rfl, rfl⟩ | ⟨rfl, rfl⟩ | ⟨rfl, rfl⟩
    · cases f with
      | array f => cases state : f.state <;> simp [closeArray, ArrayFrame.close, state]
      | _ => exact .inr rfl
    · cases f with
      | object f => cases state : f.state <;> simp [closeObject, ObjectFrame.close, state]
      | _ => exact .inr rfl
    · cases f with
      | object f => cases state : f.state <;> simp [Frame.colon, ObjectFrame.colon, state]
      | _ => exact .inr rfl
    · cases f with
      | array f => cases state : f.state <;> simp [Frame.comma, ArrayFrame.comma, state]
      | object f => cases state : f.state <;> simp [Frame.comma, ObjectFrame.comma, state]
      | _ => exact .inr rfl
  rcases refusal with accepted | same
  · rw [accepted] at refused
    contradiction
  · exact Option.some.inj (refused.symm.trans same)

end Frame

/-- The sign of a token that adds nothing. -/
def Event.sign? : Event → Option CodePoint
  | .closeArray => some Sign.rightBracket
  | .closeObject => some Sign.rightBrace
  | .colon => some Sign.colon
  | .comma => some Sign.comma
  | .value _ | .openArray _ | .openObject _ => none

/-- What a token adds: its value, or the empty collection that a bracket opens. -/
def Event.value? : Event → Option Value
  | .value v => some v
  | .openArray _ => some (.array [])
  | .openObject _ => some (.object [])
  | .closeArray | .closeObject | .colon | .comma => none

namespace Builder

/-- A token is refused as its sign, or as its value, which is not expected. -/
theorem apply_refusal {b : Builder} (refused : (b.apply e).refusal = some why) :
    (∃ c, e.sign? = some c ∧ why = .sign c) ∨ ∃ v, e.value? = some v ∧ why = .unexpected v := by
  cases e with
  | value v => exact .inr ⟨v, rfl, (Frame.add_refusal refused).symm⟩
  | openArray start =>
    rw [apply, push_eq, followedBy_refusal] at refused
    exact .inr ⟨_, rfl, (Frame.add_refusal refused).symm⟩
  | openObject start =>
    rw [apply, push_eq, followedBy_refusal] at refused
    exact .inr ⟨_, rfl, (Frame.add_refusal refused).symm⟩
  | closeArray =>
    rw [apply, followedBy_refusal] at refused
    exact .inl ⟨_, rfl, Frame.sign_refusal (by simp [Frame.signs]) refused⟩
  | closeObject =>
    rw [apply, followedBy_refusal] at refused
    exact .inl ⟨_, rfl, Frame.sign_refusal (by simp [Frame.signs]) refused⟩
  | colon =>
    have sign : (Frame.colon, Sign.colon) ∈ Frame.signs := by simp [Frame.signs]
    exact .inl ⟨_, rfl, Frame.sign_refusal sign refused⟩
  | comma =>
    have sign : (Frame.comma, Sign.comma) ∈ Frame.signs := by simp [Frame.signs]
    exact .inl ⟨_, rfl, Frame.sign_refusal sign refused⟩

theorem apply_flaw {b : Builder} (flawed : (b.apply e).refusal = some (.flaw flaw)) :
    ∃ v, e.value? = some v ∧ (v.kind? = none ∨ v.render? = none) := by
  rcases apply_refusal flawed with ⟨c, -, same⟩ | ⟨v, origin, same⟩
  · contradiction
  · exact ⟨v, origin, unexpected_flaw same.symm⟩

/-- An end that is refused is refused in words. Where no bracket is to blame nothing has been taken. -/
theorem Reaches.finish_error (reached : Reaches b es) (failed : b.finish = .error why) :
    why = .unexpectedEnd ∧ es = [] ∨ ∃ start bracket, why = .unmatched start bracket := by
  cases reached with
  | @outermost f _ content =>
    cases content with
    | unset => exact .inl ⟨(Except.error.inj failed).symm, rfl⟩
    | set derives => simp [Builder.finish, active, Frame.finish, RootFrame.finish] at failed
  | nested _ _ opening content =>
    cases content with
    | unset | set _ => simp [Frame.opening?] at opening
    | _ => exact .inr ⟨_, _, (Except.error.inj failed).symm⟩

/-- The outermost frame is never dropped. -/
theorem inner_of_close {b : Builder} (closing : e = .closeArray ∨ e = .closeObject)
    (accepted : (b.apply e).refusal = none) : b.inner ≠ [] := by
  intro outermost
  have active : b.active = .root b.root := by rw [Builder.active, outermost]
  rcases closing with rfl | rfl
  · rw [apply, followedBy_refusal, Builder.offer, active] at accepted
    contradiction
  · rw [apply, followedBy_refusal, Builder.offer, active] at accepted
    contradiction

end Builder

theorem mem_matches {c : Cursor} (member : m ∈ matchesFrom c (tile c.after).1) :
    ∃ c' i w, lexeme? c'.after = some (i, w) ∧
      m = ⟨c', c'.advance w.length, some (Engine.groupName i)⟩ := by
  generalize ahead : c.after = t at member
  fun_induction tile t generalizing c with
  | case1 t stuck => simp [matchesFrom] at member
  | case2 t i w found ih =>
    rcases List.mem_cons.mp member with rfl | later
    · exact ⟨c, i, w, ahead ▸ found, rfl⟩
    · exact ih (by rw [Cursor.advance_after, ahead]) later

theorem engine_tokens (t : Text) : (engine.tokens t).1 = matchesFrom (.start t) (tile t).1 :=
  (scanning_start t).tokens.1

theorem token_found (tokens : (engine.tokens t).1 = before ++ m :: after) : ∃ c : Cursor, ∃ i w,
    lexeme? c.after = some (i, w) ∧ m = ⟨c, c.advance w.length, some (Engine.groupName i)⟩ := by
  have member : m ∈ matchesFrom (.start t) (tile t).1 := by
    rw [← engine_tokens, tokens]
    simp
  exact mem_matches (c := .start t) member

theorem readEvent_error (failed : readEvent offset i w = .error raised) :
    (i = 3 ∧ ∃ flaw, readNumber w = .error flaw ∧ raised = .foreign flaw) ∨
      i = 4 ∧ ∃ bad, StringLiteral.dequote w offset = .error bad ∧
        raised = .positioned bad.position bad.message := by
  unfold readEvent at failed
  split at failed
  case h_4 =>
    split at failed
    · contradiction
    · next flaw read => exact .inl ⟨rfl, flaw, read, (Except.error.inj failed).symm⟩
  case h_5 =>
    split at failed
    · contradiction
    · next bad stuck => exact .inr ⟨rfl, bad, stuck, (Except.error.inj failed).symm⟩
  all_goals contradiction

/-- What can be wrong with a token: an escape in a string, or a sign or a value that the builder refuses. -/
inductive TokenTrouble (b : Builder) (offset i : Nat) (w : Text) : Trouble → Prop
  | escape : i = 4 → StringLiteral.dequote w offset = .error bad →
      TokenTrouble b offset i w (.positioned bad.position bad.message)
  | sign : readEvent offset i w = .ok (some e) → (b.apply e).refusal = some (.sign c) →
      e.sign? = some c →
      TokenTrouble b offset i w (.violation (Text.ofString "Unexpected character: `" ++ [c] ++ [0x60]))
  | value : readEvent offset i w = .ok (some e) → (b.apply e).refusal = some (.value kind shown) →
      e.value? = some v → v.kind? = some kind → v.render? = some shown → TokenTrouble b offset i w
        (.violation (Text.ofString "Unexpected " ++ kind.name ++ Text.ofString ": " ++ shown))

theorem applyEvent_trouble (failed : applyEvent b (readEvent offset i w) = .error (.trouble trouble)) :
    TokenTrouble b offset i w trouble := by
  cases read : readEvent offset i w with
  | error raised =>
    rw [read] at failed
    obtain rfl := Except.error.inj failed
    rcases readEvent_error read with ⟨-, flaw, -, same⟩ | ⟨string, bad, stuck, same⟩
    · contradiction
    · obtain rfl := Raised.trouble.inj same
      exact .escape string stuck
  | ok event =>
    rw [read] at failed
    cases event with
    | none => contradiction
    | some e =>
      obtain ⟨why, refused, raised⟩ := mapError_eq_error.mp failed
      have refusal := Reply.toExcept_eq_error.mp refused
      rcases Builder.apply_refusal refusal with ⟨c, sign, rfl⟩ | ⟨v, value, rfl⟩
      · obtain rfl := Raised.trouble.inj raised.symm
        exact .sign read refusal sign
      · unfold Refusal.unexpected at raised refusal
        split at raised
        · next kind shown known written =>
          rw [known, written] at refusal
          obtain rfl := Raised.trouble.inj raised.symm
          exact .value read refusal value known written
        · contradiction
        · contradiction

theorem deliver_defect (failed : deliver b e = .error (.defect d)) :
    ∃ v, e.value? = some v ∧ (v.kind? = none ∨ v.render? = none) := by
  obtain ⟨why, refused, raised⟩ := mapError_eq_error.mp failed
  obtain ⟨flaw, rfl⟩ := Refusal.raised_defect raised
  exact Builder.apply_flaw (Reply.toExcept_eq_error.mp refused)

theorem readNumber_digits (read : readNumber w = .ok (.integer i)) :
    (Text.decimal i.natAbs).length ≤ Decimal.maxIntegerDigits := by
  unfold readNumber at read
  split at read
  · split at read
    · simp at read
    · contradiction
  · split at read
    · next i' number =>
      obtain rfl := Value.integer.inj (Except.ok.inj read)
      exact Decimal.readInteger_digits number
    · contradiction

theorem readNumber_shown (read : readNumber w = .ok v) : v.render? ≠ none := by
  intro unshown
  obtain ⟨i, rfl, long⟩ := Value.render?_eq_none unshown
  exact Nat.not_lt.mpr (readNumber_digits read) (Decimal.writeInteger?_eq_none.mp long)

/-- What a token adds can be shown. -/
theorem readEvent_shown (read : readEvent offset i w = .ok (some e)) (value : e.value? = some v) :
    v.kind? ≠ none ∧ v.render? ≠ none := by
  cases readEvent_readAs read with
  | number number =>
    obtain rfl := Option.some.inj value
    rw [readNumber_kind number]
    exact ⟨nofun, readNumber_shown number⟩
  | null | affirmed | denied | string _ | openArray | openObject =>
    obtain rfl := Option.some.inj value
    exact ⟨nofun, nofun⟩
  | closeArray | closeObject | comma | colon => contradiction

/-- Only a number that cannot be read makes a defect of a token. -/
theorem apply_defect {c : Cursor} (found : lexeme? c.after = some (i, w)) :
    engine.apply ⟨c, c.advance w.length, some (Engine.groupName i)⟩ b = .error (.defect d) ↔
      i = 3 ∧ ∃ flaw, readNumber w = .error flaw ∧ d = .foreign flaw := by
  rw [apply_token found]
  constructor
  · intro failed
    cases read : readEvent c.offset i w with
    | error raised =>
      rw [read] at failed
      obtain rfl := Except.error.inj failed
      rcases readEvent_error read with ⟨number, flaw, unread, same⟩ | ⟨-, bad, -, same⟩
      · exact ⟨number, flaw, unread, Raised.defect.inj same⟩
      · simp [Raised.positioned] at same
    | ok event =>
      rw [read] at failed
      cases event with
      | none => simp [applyEvent] at failed
      | some e =>
        obtain ⟨v, value, unshown⟩ := deliver_defect failed
        obtain ⟨kind, shown⟩ := readEvent_shown read value
        exact (unshown.elim kind shown).elim
  · rintro ⟨rfl, flaw, unread, rfl⟩
    simp only [readEvent, unread, applyEvent, Raised.foreign]

/-- The failure in which a parse ends, if it does. -/
def failure? (t : Text) : Option ParseFailure :=
  match parse t with
  | .error (.failure f) => some f
  | _ => none

theorem failure?_eq_some : failure? t = some f ↔ parse t = .error (.failure f) := by
  unfold failure?
  split <;> simp_all

/-- The tokens of the text get to an integer that has too many digits, and the builder takes those before. -/
def Overlong (t : Text) (n : NumberLiteral) : Prop :=
  n.WellFormed .lenient ∧ n.IsInteger ∧ Decimal.maxIntegerDigits < n.whole.length ∧
    ∃ before m after b, (engine.tokens t).1 = before ++ m :: after ∧
      engine.applyAll .empty before = .ok b ∧
      m.lastGroup = some (Engine.groupName 3) ∧ m.text = n.text

/-- The end of a parse of a whole value. -/
def finishValue (b : Builder) : Except (Raised Flaw) Value :=
  b.finish.mapError Refusal.raised

/-- At the end of a text the builder refuses in words. -/
theorem finish_raised (applied : engine.applyAll .empty (engine.tokens t).1 = .ok b)
    (failed : finishValue b = .error raised) :
    raised = .violation (Text.ofString "Unexpected end") ∧ events 0 (tile t).1 = .ok [] ∨
      ∃ start bracket, raised = (Refusal.unmatched start bracket).raised ∧
        b.finish = .error (.unmatched start bracket) := by
  rw [engine_tokens] at applied
  obtain ⟨es, read, ran⟩ := (applyAll_ok (.start t)).mp applied
  have reached : Builder.Reaches b ([] ++ es) :=
    (Builder.Reaches.outermost .unset).run (events_scalar read) ran
  obtain ⟨why, finished, rfl⟩ := mapError_eq_error.mp failed
  rcases reached.finish_error finished with ⟨rfl, rfl⟩ | ⟨start, bracket, rfl⟩
  · exact .inl ⟨rfl, read⟩
  · exact .inr ⟨start, bracket, rfl, finished⟩

theorem finish_defect (applied : engine.applyAll .empty (engine.tokens t).1 = .ok b) :
    finishValue b ≠ .error (.defect d) := by
  intro failed
  rcases finish_raised applied failed with ⟨unended, -⟩ | ⟨start, bracket, unended, -⟩
  · contradiction
  · contradiction

theorem raises_defect_iff : (∃ blame, engine.Raises t .empty finishValue (.defect d) blame) ↔
    ∃ n, Overlong t n ∧ d = .foreign (.literal (.tooManyDigits n.whole.length)) := by
  obtain ⟨tiles', -⟩ := engine.tokens_tiles t
  constructor
  · rintro ⟨blame, raises⟩
    cases raises with
    | @action before m after b _ reached tiles applied refused =>
      obtain ⟨tokens, -⟩ := tiles.unique tiles'
      obtain ⟨c, i, w, found, rfl⟩ := token_found tokens
      obtain ⟨rfl, flaw, unread, rfl⟩ := (apply_defect found).mp refused
      obtain ⟨n, rfl, formed⟩ :=
        number_sound (D := .lenient) (lexeme?_front found rfl) fun c _ digit => digit
      obtain ⟨integer, long, rfl⟩ := (formed.readNumber_error Dialect.lenient_narrow.digit).mp unread
      exact ⟨n, ⟨formed, integer, long, before, _, after, b, tokens, applied, rfl,
        token_text found _⟩, rfl⟩
    | finish tiles applied whole failed =>
      obtain ⟨rfl, -⟩ := tiles.unique tiles'
      exact absurd failed (finish_defect applied)
  · rintro ⟨n, ⟨formed, integer, long, before, m, after, b, tokens, applied, group, text⟩, rfl⟩
    obtain ⟨c, i, w, found, rfl⟩ := token_found tokens
    obtain rfl := Engine.groupName_injective (Option.some.inj group)
    rw [token_text found] at text
    have unread := (formed.readNumber_error Dialect.lenient_narrow.digit).mpr ⟨integer, long, rfl⟩
    rw [tokens] at tiles'
    exact ⟨_, .action tiles' applied ((apply_defect found).mpr ⟨rfl, _, text ▸ unread, rfl⟩)⟩

/-- What the action of a match works out is in range: an integer can be written out, a string has no
characters but its own and code points, and a bracket never closes the outermost frame. -/
structure InRange (m : Match) : Prop where
  integer : ∀ i, readNumber m.text = .ok (.integer i) →
    (Text.decimal i.natAbs).length ≤ Decimal.maxIntegerDigits
  string : ∀ s, StringLiteral.dequote m.text m.start.offset = .ok s → ∀ c ∈ s, c ∈ m.text ∨ c ≤ 0x10FFFF
  bracket : ∀ b b', m.lastGroup = some (Engine.groupName 7) ∨ m.lastGroup = some (Engine.groupName 8) →
    engine.apply m b = .ok b' → b.inner ≠ []

theorem deliver_ok (delivered : deliver b e = .ok b') : (b.apply e).refusal = none :=
  (Reply.toExcept_eq_ok.mp (mapError_eq_ok.mp delivered)).1

theorem inRange_token {c : Cursor} (found : lexeme? c.after = some (i, w)) :
    InRange ⟨c, c.advance w.length, some (Engine.groupName i)⟩ where
  integer _ read := readNumber_digits read
  string s decoded x member := by
    refine (StringLiteral.decode_le decoded x member).imp_left ?_
    intro among
    exact List.mem_of_mem_tail (List.dropLast_subset _ among)
  bracket b b' group applied := by
    rw [apply_token found] at applied
    rcases group with group | group
    · obtain rfl := Engine.groupName_injective (Option.some.inj group)
      exact Builder.inner_of_close (.inl rfl) (deliver_ok applied)
    · obtain rfl := Engine.groupName_injective (Option.some.inj group)
      exact Builder.inner_of_close (.inr rfl) (deliver_ok applied)

/-- A parse ends in a value, in a report whose place can be looked up, or in the defect of an integer with
too many digits, and in this one whenever the text gets to such an integer. -/
theorem parse_outcome (t : Text) :
    ((∃ v, parse t = .ok v) ∨
      (∃ f place, parse t = .error (.failure f) ∧
        (Source.SourceText.mk t .normal 1).locate? f.report.position = some place ∧
        f.report.row = place.row ∧ f.report.column = place.column ∧ f.report.line = place.line) ∨
      ∃ n, Overlong t n ∧
        parse t = .error (.defect (.foreign (.literal (.tooManyDigits n.whole.length))))) ∧
    (∀ n, Overlong t n →
      parse t = .error (.defect (.foreign (.literal (.tooManyDigits n.whole.length))))) ∧
    ∀ m ∈ (engine.tokens t).1, InRange m := by
  refine ⟨?_, ?_, ?_⟩
  · cases parsed : parse t with
    | ok v => exact .inl ⟨v, rfl⟩
    | error stopped =>
      obtain ⟨raised, blame, raises⟩ : ∃ raised blame, engine.Raises t .empty finishValue raised blame :=
        Engine.raises_of_parse parsed
      cases raised with
      | trouble trouble =>
        obtain ⟨place, found, -, reported⟩ := raises.reported engine_lineBreaks
        exact .inr (.inl ⟨_, place, parsed.symm.trans reported, found, rfl, rfl, rfl⟩)
      | defect d =>
        obtain ⟨n, overlong, rfl⟩ := raises_defect_iff.mp ⟨blame, raises⟩
        exact .inr (.inr ⟨n, overlong, parsed.symm.trans raises.passed⟩)
  · intro n overlong
    obtain ⟨blame, raises⟩ := raises_defect_iff.mpr ⟨n, overlong, rfl⟩
    exact raises.passed
  · intro m member
    rw [engine_tokens] at member
    obtain ⟨c, i, w, found, rfl⟩ := mem_matches (c := .start t) member
    exact inRange_token found

/-- A text that is nothing but an integer gets to it. -/
theorem overlong_text {n : NumberLiteral} (formed : n.WellFormed .lenient) (integer : n.IsInteger)
    (long : Decimal.maxIntegerDigits < n.whole.length) : Overlong n.text n := by
  have found : lexeme? (n.text ++ []) = some (3, n.text) := lexeme?_eq_some.mpr
    ⟨_, rfl, formed.taken Dialect.lenient_narrow.digit (by simp [Pattern.Ahead])⟩
  have tokens := engine_tokens (n.text ++ [])
  rw [tile_some found, tile_nil, List.append_nil] at tokens
  rw [List.append_nil] at found
  exact ⟨formed, integer, long, [], _, [], .empty, tokens, rfl, rfl, token_text found _⟩

/-- A row of 4301 ones. -/
theorem parse_outcome_ones : parse (List.replicate 4301 0x31) =
    .error (.defect (.foreign (.literal (.tooManyDigits 4301)))) := by
  have ones : ∀ count, (NumberLiteral.mk false (List.replicate (count + 1) 0x31) none none).WellFormed
      .lenient := fun count => by
    refine ⟨.inr ⟨0x31, List.replicate count 0x31, List.replicate_succ, by decide, by decide, ?_⟩,
      by simp, by simp⟩
    intro d member
    rw [List.eq_of_mem_replicate member]
    exact isDigit_of_ascii (by decide) (by decide)
  have text : NumberLiteral.text ⟨false, List.replicate 4301 0x31, none, none⟩ =
      List.replicate 4301 0x31 := List.append_nil _
  have overlong := overlong_text (ones 4300) ⟨rfl, rfl⟩ (by rw [List.length_replicate]; decide)
  rw [text] at overlong
  have parsed := (parse_outcome _).2.1 _ overlong
  rwa [List.length_replicate] at parsed

end TokenRules.Json
