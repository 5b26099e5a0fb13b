import TokenRules.Proofs.Json.Decoding
import TokenRules.Proofs.Json.OpenBrackets

/-! What a failure blames. Its description names a culprit, and its position is where the culprit stands:
a token that the builder refuses, a bad escape in the string that is being read, a bracket that nothing
closes, a place where no rule matches, or the end of a text that is all blank. -/
namespace TokenRules.Json

open Pattern

/-- What a description says. -/
inductive Complaint where
  | unrecognized
  | sign (c : CodePoint)
  | value (kind : Kind) (shown : Text)
  | escape (shown : Text)
  | unmatched (bracket : CodePoint)
  | ended
  deriving DecidableEq

namespace Complaint

/-- The words of a complaint, up to what it names. -/
def words : Complaint → Text
  | .unrecognized => Text.ofString "Unrecognized token"
  | .sign _ => Text.ofString "Unexpected character: `"
  | .value kind _ => Text.ofString "Unexpected " ++ kind.name ++ Text.ofString ": "
  | .escape _ => Text.ofString "Unexpected escape sequence: '"
  | .unmatched _ => Text.ofString "Unmatched `"
  | .ended => Text.ofString "Unexpected end"

/-- What a complaint names, with the mark that closes it. -/
def named : Complaint → Text
  | .unrecognized | .ended => []
  | .sign c | .unmatched c => [c, 0x60]
  | .value _ shown => shown
  | .escape shown => shown ++ [Sign.apostrophe]

def text (complaint : Complaint) : Text := complaint.words ++ complaint.named

end Complaint

/-- A token of a text, all those before it taken by the builder. -/
def Current (t : Text) (m : Match) : Prop :=
  ∃ before after b, (engine.tokens t).1 = before ++ m :: after ∧ engine.applyAll .empty before = .ok b

/-- What a token adds to the value: an opening bracket adds the empty collection. -/
inductive Denotes (m : Match) : Value → Prop
  | null : m.text = Text.ofString "null" → Denotes m .null
  | affirmed : m.text = Text.ofString "true" → Denotes m (.bool true)
  | denied : m.text = Text.ofString "false" → Denotes m (.bool false)
  | number : m.lastGroup = some (Engine.groupName 3) → readNumber m.text = .ok v → Denotes m v
  | string : m.lastGroup = some (Engine.groupName 4) →
      StringLiteral.dequote m.text m.start.offset = .ok s → Denotes m (.string s)
  | array : m.text = [Sign.leftBracket] → Denotes m (.array [])
  | object : m.text = [Sign.leftBrace] → Denotes m (.object [])

/-- All tokens of a text have been taken, and they reach up to a place. -/
def TakenTo (t : Text) (place : Nat) : Prop :=
  (∃ b, engine.applyAll .empty (engine.tokens t).1 = .ok b) ∧
    (engine.tokens t).1.flatMap Match.text = t.take place

/-- What stands at the place that a complaint is made of. -/
def Complaint.Blames (t : Text) (place : Nat) : Complaint → Prop
  | .unrecognized => place < t.length ∧ TakenTo t place ∧
      ∀ i p, Alone i p → p.matchAt ((Cursor.start t).advance place) = none
  | .sign c => c ∈ [Sign.rightBracket, Sign.rightBrace, Sign.colon, Sign.comma] ∧
      ∃ m, Current t m ∧ m.start.offset = place ∧ m.text = [c]
  | .value kind shown => ∃ m v, Current t m ∧ m.start.offset = place ∧ Denotes m v ∧
      v.kind? = some kind ∧ v.render? = some shown
  | .escape shown => t[place]? = some Sign.backslash ∧ shown <+: t.drop place ∧
      ∃ m, Current t m ∧ m.lastGroup = some (Engine.groupName 4) ∧
        m.start.offset < place ∧ place + 1 < m.stop.offset
  | .unmatched bracket => t[place]? = some bracket ∧ TakenTo t t.length ∧
      ∃ kind outer, bracket = kind.left ∧ unclosed (engine.tokens t).1 = ⟨kind, place⟩ :: outer
  | .ended => place = t.length ∧ ∀ c ∈ t, Text.isBlank c

namespace Complaint

/-- A complaint in the same words that names nothing. -/
def blank : Complaint → Complaint
  | .sign _ => .sign 0
  | .value kind _ => .value kind []
  | .escape _ => .escape []
  | .unmatched _ => .unmatched 0
  | .unrecognized => .unrecognized
  | .ended => .ended

def blanks : List Complaint :=
  [.unrecognized, .sign 0, .value .null [], .value .boolean [], .value .number [], .value .string [],
   .value .array [], .value .object [], .escape [], .unmatched 0, .ended]

theorem blank_mem (complaint : Complaint) : complaint.blank ∈ blanks := by
  cases complaint with
  | value kind shown => cases kind <;> simp [blanks, blank]
  | _ => simp [blanks, blank]

theorem words_blank (complaint : Complaint) : complaint.blank.words = complaint.words := by
  cases complaint <;> rfl

/-- No words go on with others. -/
theorem words_apart : ∀ a ∈ blanks, ∀ b ∈ blanks, a.words <+: b.words → a = b := by
  decide +kernel

theorem blank_of_ahead {a b : Complaint} (ahead : a.words <+: b.words) : a.blank = b.blank :=
  words_apart _ a.blank_mem _ b.blank_mem (by rwa [words_blank, words_blank])

/-- A description says one thing only. -/
theorem text_injective : Function.Injective text := by
  intro a b same
  have form : a.blank = b.blank := by
    have first : a.words <+: b.text := same ▸ List.prefix_append _ _
    rcases Nat.le_total a.words.length b.words.length with short | long
    · exact blank_of_ahead (List.prefix_of_prefix_length_le first (List.prefix_append _ _) short)
    · exact (blank_of_ahead (List.prefix_of_prefix_length_le (List.prefix_append _ _) first long)).symm
  have named : a.named = b.named := by
    have words := congrArg words form
    rw [words_blank, words_blank] at words
    rw [text, text, words] at same
    exact List.append_cancel_left same
  cases a <;> cases b <;> simp_all [blank, Complaint.named]

end Complaint

/-- Where a token of a text stands. -/
theorem token_placed (member : m ∈ (engine.tokens t).1) : t.drop m.start.offset = m.start.after ∧
    m.text <+: m.start.after ∧ m.stop.offset = m.start.offset + m.text.length ∧
    m.stop.offset ≤ t.length := by
  obtain ⟨tiles, -⟩ := engine.tokens_tiles t
  obtain ⟨w, split, -, offset⟩ := (tiles.leads.1 m member).between
  obtain ⟨c, matched⟩ := tiles.matched member
  obtain ⟨rfl, ahead, -, stop⟩ := Pattern.matchAt_forward matched
  have split : t = w ++ m.start.after := split
  have offset : m.start.offset = w.length := offset.trans (Nat.zero_add _)
  refine ⟨?_, ⟨_, ahead.symm⟩, stop, ?_⟩
  · rw [offset, split, List.drop_left]
  · rw [stop, offset, split, ahead]
    simp only [List.length_append]
    omega

theorem getElem?_token (member : m ∈ (engine.tokens t).1) (index : Nat) (inside : index < m.text.length) :
    t[m.start.offset + index]? = m.text[index]? := by
  obtain ⟨behind, ⟨rest, ahead⟩, -⟩ := token_placed member
  rw [← List.getElem?_drop, behind, ← ahead, List.getElem?_append_left inside]

/-- What the event of a token tells about its text. -/
theorem token_event {c : Cursor} (found : lexeme? c.after = some (i, w))
    (read : readEvent c.offset i w = .ok (some e)) :
    (∀ v, e.value? = some v →
      Denotes ⟨c, c.advance w.length, some (Engine.groupName i)⟩ v) ∧
    ∀ x, e.sign? = some x →
      x ∈ [Sign.rightBracket, Sign.rightBrace, Sign.colon, Sign.comma] ∧ w = [x] := by
  have text := token_text found (some (Engine.groupName i))
  have spells : ∀ {v}, fronts[i]? = some (word v) → w = v := fun rule =>
    word_eq_some (lexeme?_front found rule)
  cases readEvent_readAs read with
  | number number =>
    exact ⟨fun _ same => Option.some.inj same ▸ .number rfl (by rwa [text]), nofun⟩
  | string decoded =>
    exact ⟨fun _ same => Option.some.inj same ▸ .string rfl (by rwa [text]), nofun⟩
  | null => exact ⟨fun _ same => Option.some.inj same ▸ .null (text.trans (spells rfl)), nofun⟩
  | affirmed => exact ⟨fun _ same => Option.some.inj same ▸ .affirmed (text.trans (spells rfl)), nofun⟩
  | denied => exact ⟨fun _ same => Option.some.inj same ▸ .denied (text.trans (spells rfl)), nofun⟩
  | openArray => exact ⟨fun _ same => Option.some.inj same ▸ .array (text.trans (spells rfl)), nofun⟩
  | openObject => exact ⟨fun _ same => Option.some.inj same ▸ .object (text.trans (spells rfl)), nofun⟩
  | closeArray | closeObject | comma | colon =>
    exact ⟨nofun, fun _ same => Option.some.inj same ▸ ⟨by decide, spells rfl⟩⟩

/-- A refused token is to blame for its sign or its value, and a string for its first bad escape. -/
theorem token_blames (current : Current t m) (refused : engine.apply m b = .error (.trouble trouble)) :
    ∃ (complaint : Complaint) (place : Nat), trouble.message = complaint.text ∧
      trouble.position?.getD (m.start.offset : Int) = place ∧ place ≤ t.length ∧
      complaint.Blames t place := by
  obtain ⟨before, after, taken, tokens, applied⟩ := current
  have current : Current t m := ⟨before, after, taken, tokens, applied⟩
  have member : m ∈ (engine.tokens t).1 := by simp [tokens]
  obtain ⟨c, i, w, found, rfl⟩ := token_found tokens
  obtain ⟨behind, ahead, stop, within⟩ := token_placed member
  have text := token_text found (some (Engine.groupName i))
  rw [text] at ahead stop
  have ends : c.offset + w.length ≤ t.length := stop ▸ within
  rw [apply_token found] at refused
  cases applyEvent_trouble refused with
  | @escape bad string failed =>
    obtain rfl := string
    obtain ⟨index, position, positive, inside, backslash, shown⟩ :=
      StringLiteral.dequote_error (lexeme?_front found rfl) failed
    have here := getElem?_token member index (by rw [text]; omega)
    rw [text, backslash] at here
    obtain ⟨rest, ahead⟩ := ahead
    have among : bad.shown <+: t.drop (c.offset + index) := by
      rw [← List.drop_drop, behind, ← ahead, List.drop_append_of_le_length (by omega)]
      exact shown.trans (List.prefix_append _ _)
    refine ⟨.escape bad.shown, c.offset + index, List.append_assoc _ _ _, ?_, by omega, here, among,
      _, current, rfl, Nat.lt_add_of_pos_right positive, ?_⟩
    · change bad.position = _
      rw [position, Int.natCast_add]
    · rw [stop]
      change c.offset + index + 1 < c.offset + w.length
      omega
  | @sign e x read _ isSign =>
    obtain ⟨known, rfl⟩ := (token_event found read).2 x isSign
    exact ⟨.sign x, c.offset, rfl, rfl, by omega, known, _, current, rfl, text⟩
  | @value e kind shown v read _ isValue isKind isShown =>
    exact ⟨.value kind shown, c.offset, rfl, rfl, by omega, _, v, current, rfl,
      (token_event found read).1 v isValue, isKind, isShown⟩

/-- Where the scan is blocked no rule matches. -/
theorem blocked_blames {reached : Cursor} (tiles : engine.pattern.Tiles (.start t) ms reached)
    (applied : engine.applyAll .empty ms = .ok b) (short : reached.offset < t.length) :
    Complaint.unrecognized.Blames t reached.offset := by
  obtain ⟨tiles', -⟩ := engine.tokens_tiles t
  obtain ⟨rfl, -⟩ := tiles.unique tiles'
  obtain ⟨w, split, same, offset⟩ := tiles.leads.2.between
  have offset : reached.offset = w.length := offset.trans (Nat.zero_add _)
  have place : reached = (Cursor.start t).advance reached.offset := offset ▸ same
  refine ⟨short, ⟨⟨b, applied⟩, tiles.whole.1⟩, ?_⟩
  rw [← place, ← lexeme?_eq_none, Option.eq_none_iff_forall_ne_some]
  rintro ⟨i, v⟩ found
  have split : t = w ++ reached.after := split
  obtain ⟨⟨rest, ahead⟩, x, u, rfl, -⟩ := lexeme?_spec found
  have stop := (Cursor.advance_append ahead.symm).2
  rcases tiles.stuck with ended | still
  · rw [split, ended, List.append_nil, offset] at short
    exact Nat.lt_irrefl _ short
  · have moved := still _ ((engine_matchAt reached).trans (by rw [found]; rfl))
    rw [stop, List.length_cons] at moved
    omega

/-- A token opens one bracket, closes one, or leaves them as they are. -/
theorem turn_mem {brackets : List OpenBracket} (member : bracket ∈ turn brackets m) :
    bracket ∈ brackets ∨ m.text = [bracket.kind.left] ∧ bracket.start = m.start.offset := by
  have closed : ∀ kind, bracket ∈ closeInnermost kind brackets → bracket ∈ brackets := by
    intro kind left
    cases brackets with
    | nil => exact left
    | cons first outer =>
      rw [closeInnermost] at left
      split at left
      · exact List.mem_cons_of_mem _ left
      · exact left
  unfold turn at member
  split at member
  · next text =>
    rcases List.mem_cons.mp member with rfl | before
    · exact .inr ⟨text, rfl⟩
    · exact .inl before
  · next text =>
    rcases List.mem_cons.mp member with rfl | before
    · exact .inr ⟨text, rfl⟩
    · exact .inl before
  · exact .inl (closed .square member)
  · exact .inl (closed .curly member)
  · exact .inl member

/-- A bracket that is left open is one of the text. -/
theorem unclosed_mem {ms : List Match} {brackets : List OpenBracket}
    (member : bracket ∈ ms.foldl turn brackets) :
    bracket ∈ brackets ∨ ∃ m ∈ ms, m.text = [bracket.kind.left] ∧ bracket.start = m.start.offset := by
  induction ms generalizing brackets with
  | nil => exact .inl member
  | cons m ms ih =>
    rcases ih member with before | ⟨m', later, opened⟩
    · exact (turn_mem before).imp_right fun opened => ⟨m, List.mem_cons_self, opened⟩
    · exact .inr ⟨m', List.mem_cons_of_mem m later, opened⟩

/-- A text without a token that adds something is blank. -/
theorem blank_of_events (whole : (tile t).2 = []) (read : events 0 (tile t).1 = .ok []) :
    ∀ c ∈ t, Text.isBlank c := by
  have plain : ∀ token ∈ (tile t).1, Dialect.lenient.Plain token.1 token.2 := by
    intro token _ c _
    split
    · trivial
    · exact ⟨fun digit => digit, fun blank => blank⟩
  exact (Dialect.Written.of_events Dialect.lenient_narrow (fun _ short => short) whole plain read).blanks

/-- An unfinished value is to blame for a bracket, or for a text without a token. -/
theorem end_blames {reached : Cursor} (tiles : engine.pattern.Tiles (.start t) ms reached)
    (applied : engine.applyAll .empty ms = .ok b) (whole : reached.offset = t.length)
    (failed : finishValue b = .error (.trouble trouble)) :
    ∃ (complaint : Complaint) (place : Nat), trouble.message = complaint.text ∧
      trouble.position?.getD (t.length : Int) = place ∧ place ≤ t.length ∧
      complaint.Blames t place := by
  obtain ⟨tiles', -, -, blocked⟩ := engine.tokens_tiles t
  obtain ⟨rfl, rfl⟩ := tiles.unique tiles'
  rcases finish_raised applied failed with ⟨unended, read⟩ | ⟨start, bracket, unended, finished⟩
  · obtain rfl := Raised.trouble.inj unended
    have ended : (engine.tokens t).2.isBlocked = !(tile t).2.isEmpty := (scanning_start t).tokens.2
    have rest : (tile t).2 = [] := by
      have free : (engine.tokens t).2.isBlocked = false := by
        rw [← Bool.not_eq_true, blocked, whole]
        exact Nat.lt_irrefl _
      simpa [free] using ended
    exact ⟨.ended, t.length, rfl, rfl, Nat.le_refl _, rfl, blank_of_events rest read⟩
  · obtain rfl := Raised.trouble.inj unended
    obtain ⟨spells, -⟩ := Builder.spells_empty.tokens (c := .start t)
      ((engine_tokens t).symm.trans (List.append_nil _).symm) applied
    obtain ⟨kind, outer, left, rfl⟩ := spells.finish_iff.mp finished
    have among : ⟨kind, start⟩ ∈ unclosed (engine.tokens t).1 := by
      rw [unclosed, left]
      exact List.mem_cons_self
    rcases unclosed_mem among with none | ⟨m, member, text, place⟩
    · contradiction
    · obtain rfl : start = m.start.offset := place
      have here := getElem?_token member 0 (by rw [text]; exact Nat.one_pos)
      rw [text] at here
      refine ⟨.unmatched kind.left, m.start.offset, rfl, rfl, ?_, here, ⟨⟨b, applied⟩, ?_⟩, kind, outer,
        rfl, left⟩
      · exact Nat.le_of_lt (List.getElem?_eq_some_iff.mp here).1
      · rw [tiles.whole.1, whole]

/-- Every failure points at the culprit that it names. Its position is in the text, and row, column and line
are those of the position. Its description is one complaint, and what this blames stands at the position. -/
theorem failure_blames (parsed : parse t = .error (.failure f)) :
    ∃ place : Nat, f.report.position = place ∧ place ≤ t.length ∧
      (∃ location, (Source.SourceText.mk t .normal 1).locate? f.report.position = some location ∧
        f.report.row = location.row ∧ f.report.column = location.column ∧
        f.report.line = location.line) ∧
      (∃ complaint : Complaint, f.report.description = complaint.text) ∧
      ∀ complaint : Complaint, f.report.description = complaint.text → complaint.Blames t place := by
  obtain ⟨raised, blame, raises⟩ : ∃ raised blame, engine.Raises t .empty finishValue raised blame :=
    Engine.raises_of_parse parsed
  cases raised with
  | defect d =>
    have ended := parsed.symm.trans raises.passed
    simp at ended
  | trouble trouble =>
    obtain ⟨location, located, -, reported⟩ := raises.reported engine_lineBreaks
    obtain rfl := Stop.failure.inj (Except.error.inj (parsed.symm.trans reported))
    obtain ⟨complaint, place, message, position, inside, blames⟩ : ∃ (complaint : Complaint) (place : Nat),
        trouble.message = complaint.text ∧ trouble.position?.getD (blame : Int) = place ∧
          place ≤ t.length ∧ complaint.Blames t place := by
      obtain ⟨tiles', -⟩ := engine.tokens_tiles t
      cases raises with
      | action tiles applied refused =>
        obtain ⟨tokens, -⟩ := tiles.unique tiles'
        exact token_blames ⟨_, _, _, tokens, applied⟩ refused
      | blocked tiles applied short =>
        exact ⟨.unrecognized, _, rfl, rfl, Nat.le_of_lt short, blocked_blames tiles applied short⟩
      | finish tiles applied whole failed => exact end_blames tiles applied whole failed
    refine ⟨place, position, inside, ⟨location, located, rfl, rfl, rfl⟩, ⟨complaint, message⟩,
      fun other same => ?_⟩
    rwa [← Complaint.text_injective (message.symm.trans same)]

/-- The second of two numbers without a comma is to blame, not the bracket that stays open. -/
theorem failure_blames_number : ∃ f, parse [0x5B, 0x31, 0x20, 0x32] = .error (.failure f) ∧
    f.report.position = 3 ∧
    ∃ m v, Current [0x5B, 0x31, 0x20, 0x32] m ∧ m.start.offset = 3 ∧ Denotes m v ∧
      v.kind? = some .number ∧ v.render? = some [0x32] := by
  have failed : (failure? [0x5B, 0x31, 0x20, 0x32]).map (fun f => (f.report.position, f.report.description)) =
      some (3, (Complaint.value .number [0x32]).text) := by
    decide +kernel
  obtain ⟨f, found, same⟩ := Option.map_eq_some_iff.mp failed
  obtain ⟨position, description⟩ := Prod.mk.inj same
  have parsed := failure?_eq_some.mp found
  obtain ⟨place, same, -, -, -, blames⟩ := failure_blames parsed
  obtain rfl : place = 3 := by
    rw [position] at same
    exact (Int.ofNat.inj same).symm
  exact ⟨f, parsed, position, blames _ description⟩

end TokenRules.Json
