import TokenRules.Proofs.Json.Lexing

/-! Parsing against the grammar of texts. Every text that the grammar spells is cut into the tokens of
its value, whatever white space stands between them, and every text that has a value is spelled by the
tokens that were found in it. -/
namespace TokenRules.Json

open Pattern

namespace Dialect

variable {D : Dialect}

/-- A text from an offset on is cut into tokens of the dialect, with these events. -/
inductive Lexes (D : Dialect) : Nat → Text → List Event → Prop
  | nil : Lexes D offset [] []
  | blank : lexeme? (w ++ t) = some (11, w) → D.Blanks w → Lexes D (offset + w.length) t es →
      Lexes D offset (w ++ t) es
  | token : lexeme? (w ++ t) = some (i, w) → D.Token offset i w e →
      Lexes D (offset + w.length) t es → Lexes D offset (w ++ t) (e :: es)

/-- The engine finds these tokens, and no others. -/
theorem Lexes.tile (narrow : D.Narrow) (lexes : D.Lexes offset t es) :
    (tile t).2 = [] ∧ ∀ token ∈ (tile t).1, D.Plain token.1 token.2 := by
  induction lexes with
  | nil => simp [tile_nil]
  | blank found blanks _ ih =>
    rw [tile_some found]
    refine ⟨ih.1, List.forall_mem_cons.mpr ⟨fun c member => ?_, ih.2⟩⟩
    have blank := blanks c member
    simp [not_digit_of_blank (narrow.blank c blank), blank]
  | token found token _ ih =>
    rw [tile_some found]
    exact ⟨ih.1, List.forall_mem_cons.mpr ⟨token.plain narrow, ih.2⟩⟩

theorem Lexes.events (narrow : D.Narrow) (fits : ∀ n, D.fits n → n ≤ Decimal.maxIntegerDigits)
    (lexes : D.Lexes offset t es) : events offset (Json.tile t).1 = .ok es := by
  induction lexes with
  | nil => simp [tile_nil, Json.events]
  | blank found _ _ ih =>
    rw [tile_some found]
    exact events_cons.mpr ⟨none, _, rfl, ih, rfl⟩
  | token found token _ ih =>
    rw [tile_some found]
    exact events_cons.mpr ⟨some _, _, token.readEvent narrow fits, ih, rfl⟩

/-- White space in front goes into the first token if that is white space. -/
theorem Lexes.pad (narrow : D.Narrow) (blanks : D.Blanks a)
    (lexes : D.Lexes (offset + a.length) t es) : D.Lexes offset (a ++ t) es := by
  cases a with
  | nil => exact lexes
  | cons x a =>
    have alone : ∀ w t, w ≠ [] → D.Blanks w → Ahead (Text.isBlank · = false) t →
        lexeme? (w ++ t) = some (11, w) := fun w t nonempty blanks solid =>
      lexeme?_eq_some.mpr ⟨_, rfl,
        several_append nonempty (fun c member => narrow.blank c (blanks c member)) solid⟩
    cases lexes with
    | nil => exact .blank (alone _ _ (by simp) blanks (by simp [Ahead])) blanks .nil
    | @blank w t _ _ found blanks' rest =>
      have both : D.Blanks (x :: a ++ w) := fun c member =>
        (List.mem_append.mp member).elim (blanks c) (blanks' c)
      rw [← List.append_assoc]
      refine .blank (alone _ _ (by simp) both (several_ahead (lexeme?_front found rfl))) both ?_
      rwa [List.length_append, ← Nat.add_assoc]
    | @token w t i _ _ _ found token rest =>
      obtain ⟨-, y, u, rfl, kind⟩ := lexeme?_spec found
      have solid : Ahead (Text.isBlank · = false) (y :: u ++ t) := by
        intro z here
        obtain rfl : y = z := by simpa using here
        cases blank : Text.isBlank y with
        | false => rfl
        | true =>
          have rule : ruleAt? y = some 11 := if_pos blank
          rw [rule] at kind
          exact absurd (Option.some.inj kind) (Nat.ne_of_gt token.rule_lt)
      exact .blank (alone _ _ (by simp) blanks solid) blanks (.token found token rest)

/-- Wherever the text stands, if what follows does not go on with a number, it is cut into a row of
events of a kind. -/
def Cuts (D : Dialect) (t : Text) (kind : List Event → Prop) : Prop :=
  ∀ offset rest es, Ahead EndsNumber rest → D.Lexes (offset + t.length) rest es →
    ∃ es', kind es' ∧ D.Lexes offset (t ++ rest) (es' ++ es)

namespace Cuts

theorem nil : D.Cuts [] (· = []) :=
  fun _ _ _ _ lexes => ⟨[], rfl, lexes⟩

theorem imp (cuts : D.Cuts t kind) (all : ∀ es, kind es → kind' es) : D.Cuts t kind' := by
  intro offset rest es ends lexes
  obtain ⟨es', holds, lexes⟩ := cuts offset rest es ends lexes
  exact ⟨es', all es' holds, lexes⟩

theorem token (narrow : D.Narrow) (token : ∀ offset, ∃ i, D.Token offset i w (.value v)) :
    D.Cuts w (· = [.value v]) := by
  intro offset rest es ends lexes
  obtain ⟨i, token⟩ := token offset
  exact ⟨_, rfl, .token (token.found narrow fun _ => ends) token lexes⟩

theorem append (first : D.Cuts t kind) (second : D.Cuts u kind') (ends : Ahead EndsNumber u) :
    D.Cuts (t ++ u) (fun es => ∃ a b, kind a ∧ kind' b ∧ es = a ++ b) := by
  intro offset rest es ends' lexes
  rw [List.length_append, ← Nat.add_assoc] at lexes
  obtain ⟨b, holds', lexes⟩ := second _ rest es ends' lexes
  obtain ⟨a, holds, lexes⟩ := first offset _ _ (ends.append ends') lexes
  rw [← List.append_assoc, ← List.append_assoc] at lexes
  exact ⟨a ++ b, ⟨a, b, holds, holds', rfl⟩, lexes⟩

/-- A sign in front. -/
theorem sign {event : Nat → Event} (narrow : D.Narrow)
    (token : ∀ offset, D.Token offset i [c] (event offset)) (noNumber : i ≠ 3)
    (cuts : D.Cuts t kind) :
    D.Cuts (c :: t) (fun es => ∃ start es', kind es' ∧ es = event start :: es') := by
  intro offset rest es ends lexes
  rw [List.length_cons, Nat.add_comm t.length, ← Nat.add_assoc] at lexes
  obtain ⟨es', holds, lexes⟩ := cuts _ rest es ends lexes
  refine ⟨event offset :: es', ⟨offset, es', holds, rfl⟩, ?_⟩
  exact .token (w := [c]) ((token offset).found narrow fun number => absurd number noNumber)
    (token offset) lexes

theorem pad (narrow : D.Narrow) (blanks : D.Blanks a) (cuts : D.Cuts t kind) :
    D.Cuts (a ++ t) kind := by
  intro offset rest es ends lexes
  rw [List.length_append, ← Nat.add_assoc] at lexes
  obtain ⟨es', holds, lexes⟩ := cuts _ rest es ends lexes
  rw [List.append_assoc]
  exact ⟨es', holds, lexes.pad narrow blanks⟩

theorem padded (narrow : D.Narrow) (before : D.Blanks a) (cuts : D.Cuts t kind)
    (after : D.Blanks b) : D.Cuts (a ++ (t ++ b)) kind := by
  have trailing : D.Cuts b (· = []) := by simpa using pad narrow after nil
  have ends : Ahead EndsNumber b := fun x here =>
    endsNumber_of_blank (narrow.blank x (after x (List.mem_of_mem_head? here)))
  refine pad narrow before ((cuts.append trailing ends).imp ?_)
  rintro es ⟨u, _, holds, rfl, rfl⟩
  simpa using holds

end Cuts

theorem Quoted.cuts (narrow : D.Narrow) (spelled : D.Quoted k key) :
    D.Cuts k (· = [.value (.string key)]) :=
  .token narrow fun _ => ⟨4, .string spelled⟩

/-- A name with white space around it, a colon, and what follows. -/
theorem Cuts.member (narrow : D.Narrow) (before : D.Blanks a) (name : D.Quoted k key)
    (after : D.Blanks b) (cuts : D.Cuts t kind) :
    D.Cuts (a ++ (k ++ (b ++ Sign.colon :: t)))
      (fun es => ∃ es', kind es' ∧ es = .value (.string key) :: .colon :: es') := by
  have rest := Cuts.sign narrow (fun _ => .colon) (by decide) cuts
  have padded := (name.cuts narrow).padded narrow before after
  have whole := padded.append rest (.cons (by decide))
  simp only [List.append_assoc] at whole
  refine whole.imp ?_
  rintro _ ⟨_, _, rfl, ⟨_, es', holds, rfl⟩, rfl⟩
  exact ⟨es', holds, rfl⟩

theorem Scalar.cuts (narrow : D.Narrow) (scalar : D.Scalar t v) : D.Cuts t (Derives · v) := by
  have event : D.Cuts t (· = [.value v]) := .token narrow fun offset => by
    cases scalar with
    | null => exact ⟨0, .null⟩
    | affirmed => exact ⟨1, .affirmed⟩
    | denied => exact ⟨2, .denied⟩
    | number formed fits => exact ⟨3, .number formed fits⟩
    | string spelled => exact ⟨4, .string spelled⟩
  refine event.imp ?_
  rintro _ rfl
  refine .scalar ?_
  cases scalar with
  | @number n =>
    rw [NumberLiteral.value]
    split <;> trivial
  | _ => trivial

mutual

/-- The text of a value is cut into events that put it together. -/
theorem Spells.cuts (narrow : D.Narrow) : D.Spells t v → D.Cuts t (Derives · v)
  | .scalar scalar => scalar.cuts narrow
  | .emptyArray blanks => by
    have close := Cuts.sign narrow (fun _ => .closeArray) (by decide) .nil
    refine (Cuts.sign narrow (fun _ => .openArray) (by decide) (close.pad narrow blanks)).imp ?_
    rintro _ ⟨start, _, ⟨_, _, rfl, rfl⟩, rfl⟩
    exact .emptyArray
  | .array elements => by
    have close := Cuts.sign narrow (fun _ => .closeArray) (by decide) .nil
    refine (Cuts.sign narrow (fun _ => .openArray) (by decide)
      ((elements.cuts narrow).append close (.cons (by decide)))).imp ?_
    rintro _ ⟨start, _, ⟨es, _, derives, ⟨_, _, rfl, rfl⟩, rfl⟩, rfl⟩
    exact .array derives
  | .emptyObject blanks => by
    have close := Cuts.sign narrow (fun _ => .closeObject) (by decide) .nil
    refine (Cuts.sign narrow (fun _ => .openObject) (by decide) (close.pad narrow blanks)).imp ?_
    rintro _ ⟨start, _, ⟨_, _, rfl, rfl⟩, rfl⟩
    exact .emptyObject
  | .object members => by
    have close := Cuts.sign narrow (fun _ => .closeObject) (by decide) .nil
    refine (Cuts.sign narrow (fun _ => .openObject) (by decide)
      ((members.cuts narrow).append close (.cons (by decide)))).imp ?_
    rintro _ ⟨start, _, ⟨es, _, derives, ⟨_, _, rfl, rfl⟩, rfl⟩, rfl⟩
    exact .object derives

theorem Padded.cuts (narrow : D.Narrow) : D.Padded t v → D.Cuts t (Derives · v)
  | .padded before spells after => (spells.cuts narrow).padded narrow before after

theorem Elements.cuts (narrow : D.Narrow) : D.Elements t vs → D.Cuts t (Json.Elements · vs)
  | .one padded => (padded.cuts narrow).imp fun _ derives => .one derives
  | .more elements padded => by
    have next := Cuts.sign narrow (fun _ => .comma) (by decide) (padded.cuts narrow)
    refine ((elements.cuts narrow).append next (.cons (by decide))).imp ?_
    rintro _ ⟨es, _, first, ⟨_, es', last, rfl⟩, rfl⟩
    exact .more first last

theorem Members.cuts (narrow : D.Narrow) : D.Members t ms → D.Cuts t (Json.Members · ms)
  | .one before key after padded => by
    refine (Cuts.member narrow before key after (padded.cuts narrow)).imp ?_
    rintro _ ⟨es, derives, rfl⟩
    exact .one derives
  | .more members before key after padded => by
    have next := Cuts.sign narrow (fun _ => .comma) (by decide)
      (Cuts.member narrow before key after (padded.cuts narrow))
    refine ((members.cuts narrow).append next (.cons (by decide))).imp ?_
    rintro _ ⟨es, _, first, ⟨_, _, ⟨es', last, rfl⟩, rfl⟩, rfl⟩
    exact .more first last

end

/-- A text is made of tokens with these events, and white space between them. -/
inductive Written (D : Dialect) : List Event → Text → Prop
  | nil : Written D [] []
  | blank : D.Blanks a → Written D es t → Written D es (a ++ t)
  | token : D.Token offset i w e → Written D es t → Written D (e :: es) (w ++ t)

namespace Written

theorem of_events (narrow : D.Narrow) (fits : ∀ n ≤ Decimal.maxIntegerDigits, D.fits n)
    (whole : (tile t).2 = []) (plain : ∀ token ∈ (tile t).1, D.Plain token.1 token.2)
    (read : events offset (tile t).1 = .ok es) : D.Written es t := by
  fun_induction tile t generalizing offset es with
  | case1 t stuck =>
    obtain rfl := Except.ok.inj read
    obtain rfl : t = [] := whole
    exact .nil
  | case2 t i w found ih =>
    obtain ⟨e, es', here, later, rfl⟩ := events_cons.mp read
    obtain ⟨⟨rest, rfl⟩, -⟩ := lexeme?_spec found
    obtain ⟨plain, others⟩ := List.forall_mem_cons.mp plain
    have written := ih whole others later
    rw [List.drop_left] at written
    cases e with
    | none => exact .blank (blank_sound found here plain) written
    | some e => exact .token (token_sound fits narrow found here plain) written

theorem blanks (written : D.Written [] t) : D.Blanks t := by
  generalize same : ([] : List Event) = es at written
  induction written with
  | nil => simp [Blanks]
  | blank blanks _ ih =>
    exact fun c member => (List.mem_append.mp member).elim (blanks c) (ih same c)
  | token => contradiction

/-- The text before an event, the token of the event and the text after it. -/
theorem split (written : D.Written (es ++ e :: es') t) : ∃ u w v offset i, t = u ++ (w ++ v) ∧
    D.Written es u ∧ D.Token offset i w e ∧ D.Written es' v := by
  generalize same : es ++ e :: es' = all at written
  induction written generalizing es with
  | nil => simp at same
  | @blank a _ _ blanks written ih =>
    obtain ⟨u, w, v, offset, i, rfl, before, token, after⟩ := ih same
    exact ⟨a ++ u, w, v, offset, i, by simp, .blank blanks before, token, after⟩
  | @token _ _ first _ _ t token written ih =>
    cases es with
    | nil =>
      obtain ⟨rfl, rfl⟩ := List.cons.inj same
      exact ⟨[], first, t, _, _, rfl, .nil, token, written⟩
    | cons e' es =>
      obtain ⟨rfl, rest⟩ := List.cons.inj same
      obtain ⟨u, w, v, offset', i', rfl, before, token', after⟩ := ih rest
      exact ⟨first ++ u, w, v, offset', i', by simp, .token token before, token', after⟩

theorem first (written : D.Written (e :: es) t) : ∃ a w v offset i, t = a ++ (w ++ v) ∧
    D.Blanks a ∧ D.Token offset i w e ∧ D.Written es v := by
  have written : D.Written ([] ++ e :: es) t := written
  obtain ⟨u, w, v, offset, i, same, before, token, after⟩ := written.split
  exact ⟨u, w, v, offset, i, same, before.blanks, token, after⟩

end Written

theorem Token.scalar (token : D.Token offset i w (.value v)) : D.Scalar w v := by
  cases token with
  | null => exact .null
  | affirmed => exact .affirmed
  | denied => exact .denied
  | number formed fits => exact .number formed fits
  | string spelled => exact .string spelled

theorem Token.quoted (token : D.Token offset i w (.value (.string s))) : D.Quoted w s := by
  generalize same : Event.value (.string s) = e at token
  cases token with
  | @number n =>
    have text : Value.string s = n.value := Event.value.inj same
    rw [NumberLiteral.value] at text
    split at text <;> contradiction
  | string spelled =>
    obtain rfl := Value.string.inj (Event.value.inj same)
    exact spelled
  | _ => simp at same

theorem Token.sign_eq {e : Event} (token : D.Token offset i w e) : match e with
    | .value _ => True
    | .openArray _ => w = [Sign.leftBracket]
    | .openObject _ => w = [Sign.leftBrace]
    | .closeArray => w = [Sign.rightBracket]
    | .closeObject => w = [Sign.rightBrace]
    | .comma => w = [Sign.comma]
    | .colon => w = [Sign.colon] := by
  cases token with
  | _ => trivial

mutual

/-- What is made of the tokens of a value spells the value. -/
theorem Written.padded : Derives es v → D.Written es t → D.Padded t v
  | .scalar _, written => by
    obtain ⟨a, w, b, _, _, rfl, before, token, after⟩ := written.first
    exact .padded before (.scalar token.scalar) after.blanks
  | .emptyArray, written => by
    obtain ⟨a, w, u, _, _, rfl, before, opening, rest⟩ := written.first
    obtain ⟨b, w', c, _, _, rfl, inner, closing, after⟩ := rest.first
    rw [opening.sign_eq, closing.sign_eq]
    have spells := Padded.padded before (.emptyArray inner) after.blanks
    simpa using spells
  | .array elements, written => by
    obtain ⟨a, w, u, _, _, rfl, before, opening, rest⟩ := written.first
    obtain ⟨t, w', c, _, _, rfl, inner, closing, after⟩ := rest.split
    rw [opening.sign_eq, closing.sign_eq]
    have spells := Padded.padded before (.array (Written.elements elements inner)) after.blanks
    simpa using spells
  | .emptyObject, written => by
    obtain ⟨a, w, u, _, _, rfl, before, opening, rest⟩ := written.first
    obtain ⟨b, w', c, _, _, rfl, inner, closing, after⟩ := rest.first
    rw [opening.sign_eq, closing.sign_eq]
    have spells := Padded.padded before (.emptyObject inner) after.blanks
    simpa using spells
  | .object members, written => by
    obtain ⟨a, w, u, _, _, rfl, before, opening, rest⟩ := written.first
    obtain ⟨t, w', c, _, _, rfl, inner, closing, after⟩ := rest.split
    rw [opening.sign_eq, closing.sign_eq]
    have spells := Padded.padded before (.object (Written.members members inner)) after.blanks
    simpa using spells

theorem Written.elements : Json.Elements es vs → D.Written es t → D.Elements t vs
  | .one derives, written => .one (Written.padded derives written)
  | .more elements derives, written => by
    obtain ⟨u, w, v, _, _, rfl, before, sign, after⟩ := written.split
    rw [sign.sign_eq]
    exact .more (Written.elements elements before) (Written.padded derives after)

theorem Written.members : Json.Members es ms → D.Written es t → D.Members t ms
  | .one derives, written => by
    obtain ⟨a, k, u, _, _, rfl, before, name, rest⟩ := written.first
    obtain ⟨b, w, v, _, _, rfl, after, sign, value⟩ := rest.first
    rw [sign.sign_eq]
    exact .one before name.quoted after (Written.padded derives value)
  | .more members derives, written => by
    obtain ⟨u, w, t, _, _, rfl, earlier, sign, last⟩ := written.split
    obtain ⟨a, k, u', _, _, rfl, before, name, rest⟩ := last.first
    obtain ⟨b, w', v, _, _, rfl, after, sign', value⟩ := rest.first
    rw [sign.sign_eq, sign'.sign_eq]
    exact .more (Written.members members earlier) before name.quoted after
      (Written.padded derives value)

end

/-- A whole text is cut into events that put its value together. -/
theorem Padded.lexes (narrow : D.Narrow) (spelled : D.Padded t tree) :
    ∃ es, Derives es tree ∧ D.Lexes 0 t es := by
  obtain ⟨es, derives, lexes⟩ := spelled.cuts narrow 0 [] [] (by simp [Ahead]) .nil
  exact ⟨es, derives, by simpa using lexes⟩

theorem Padded.parse (narrow : D.Narrow) (fits : ∀ n, D.fits n → n ≤ Decimal.maxIntegerDigits)
    (spelled : D.Padded t tree) : parse t = .ok tree.merged := by
  obtain ⟨es, derives, lexes⟩ := spelled.lexes narrow
  exact parse_ok_iff.mpr
    ⟨(lexes.tile narrow).1, es, lexes.events narrow fits, Builder.build_of_derives derives⟩

/-- A text that has a value, and no token with characters of other dialects, spells the value. -/
theorem padded_of_parse (narrow : D.Narrow) (fits : ∀ n ≤ Decimal.maxIntegerDigits, D.fits n)
    (parsed : Json.parse t = .ok v) (plain : ∀ token ∈ (tile t).1, D.Plain token.1 token.2) :
    ∃ tree, D.Padded t tree ∧ tree.merged = v := by
  obtain ⟨whole, es, read, built⟩ := parse_ok_iff.mp parsed
  obtain ⟨tree, derives, value⟩ := Builder.derives_of_build (events_scalar read) built
  exact ⟨tree, (Written.of_events narrow fits whole plain read).padded derives, value⟩

/-- Whether a match holds no characters but the dialect's: in a string bare characters, elsewhere its
digits and blanks and whatever is neither. -/
def Admits (D : Dialect) (m : Match) : Prop :=
  ∀ c ∈ m.text, if m.lastGroup = some (Engine.groupName 4) then D.bare c
    else (Text.isDigit c → D.digit c) ∧ (Text.isBlank c → D.blank c)

theorem admits_matches (D : Dialect) (c : Cursor) :
    (∀ m ∈ matchesFrom c (tile c.after).1, D.Admits m) ↔
      ∀ token ∈ (tile c.after).1, D.Plain token.1 token.2 := by
  generalize ahead : c.after = t
  fun_induction tile t generalizing c with
  | case1 t stuck => simp [matchesFrom]
  | case2 t i w found ih =>
    obtain ⟨⟨rest, rfl⟩, -⟩ := lexeme?_spec found
    have after : (c.advance w.length).after = (w ++ rest).drop w.length := by
      rw [Cursor.advance_after, ahead]
    have text := token_text (ahead ▸ found) (some (Engine.groupName i))
    have string : Engine.groupName i = Engine.groupName 4 ↔ i = 4 :=
      Engine.groupName_injective.eq_iff
    have first : D.Admits ⟨c, c.advance w.length, some (Engine.groupName i)⟩ ↔ D.Plain i w := by
      simp only [Admits, Plain, text, Option.some.injEq, string]
    simp only [matchesFrom, List.forall_mem_cons, first, ih _ after]

end Dialect

/-- Every text of the grammar has its value: the last one of each name, if a name comes twice. -/
theorem parse_padded (spelled : Dialect.bounded.Padded t tree) :
    parse t = .ok tree.merged ∧ (tree.KeysDistinct → parse t = .ok tree) := by
  have parsed := spelled.parse Dialect.bounded_narrow fun _ fits => fits
  refine ⟨parsed, fun distinct => ?_⟩
  rw [parsed, Value.KeysDistinct.merged_eq tree distinct]

/-- An object that names `a` twice: minus zero, then an array of an escaped surrogate pair. -/
def twiceNamed : Text :=
  [0x7B, 0x22, 0x61, 0x22, 0x3A, 0x2D, 0x30, 0x2C, 0x20, 0x22, 0x61, 0x22, 0x3A, 0x5B, 0x22, 0x5C,
   0x75, 0x44, 0x38, 0x33, 0x64, 0x5C, 0x75, 0x44, 0x45, 0x30, 0x30, 0x22, 0x5D, 0x7D]

theorem parse_padded_twiceNamed : (∃ tree, Dialect.bounded.Padded twiceNamed tree) ∧
    parse twiceNamed = .ok (.object [([0x61], .array [.string [0x1F600]])]) := by
  have nothing : Dialect.bounded.Blanks [] := by simp [Dialect.Blanks]
  have space : Dialect.bounded.Blanks [Sign.space] := by
    simp [Dialect.Blanks, Dialect.bounded, Dialect.standard]
  have bare : ∀ part ∈ [StringPart.bare 0x61], part.WellFormed Dialect.bounded :=
    List.forall_mem_singleton.mpr ⟨⟨by decide, by decide⟩, by decide, by decide⟩
  have units : ∀ part ∈ [StringPart.unit [0x44, 0x38, 0x33, 0x64], .unit [0x44, 0x45, 0x30, 0x30]],
      part.WellFormed Dialect.bounded := by
    simp [StringPart.WellFormed]
    decide
  have zero : NumberLiteral.WellFormed Dialect.bounded ⟨true, [0x30], none, none⟩ :=
    ⟨.inl rfl, by simp, by simp⟩
  have short : 1 ≤ Decimal.maxIntegerDigits := by decide
  have first := Dialect.Padded.padded nothing (.scalar (.number zero fun _ => short)) nothing
  have pair := Dialect.Padded.padded nothing (.scalar (.string (.spelled units))) nothing
  have array := Dialect.Padded.padded nothing (.array (.one pair)) nothing
  have members := Dialect.Members.more (.one nothing (.spelled bare) nothing first) space
    (.spelled bare) nothing array
  have spelled := Dialect.Padded.padded nothing (.object members) nothing
  have whole : Dialect.bounded.Padded twiceNamed _ := spelled
  refine ⟨⟨_, whole⟩, ?_⟩
  have pair : StringPart.characters [.unit [0x44, 0x38, 0x33, 0x64], .unit [0x44, 0x45, 0x30, 0x30]] =
      [0x1F600] := by decide
  rw [(parse_padded whole).1, pair]
  simp [Value.merged, Value.mergedMembers, Value.mergedElements, lastValues, StringPart.characters]

/-- The texts that have a value are those that are spelled with digits and blanks of any script and any
characters in their strings. Such a text is JSON proper exactly if no token of it makes use of that. -/
theorem parse_ok_iff_lenient (t : Text) (v : Value) :
    (parse t = .ok v ↔ ∃ tree, Dialect.lenient.Padded t tree ∧ tree.merged = v) ∧
      (parse t = .ok v → ((∃ tree, Dialect.standard.Padded t tree) ↔
        ∀ m ∈ (engine.tokens t).1, Dialect.standard.Admits m)) := by
  have tokens : (engine.tokens t).1 = matchesFrom (Cursor.start t) (tile t).1 :=
    (scanning_start t).tokens.1
  have admits : (∀ m ∈ matchesFrom (Cursor.start t) (tile t).1, Dialect.standard.Admits m) ↔
      ∀ token ∈ (tile t).1, Dialect.standard.Plain token.1 token.2 :=
    Dialect.admits_matches .standard (Cursor.start t)
  rw [tokens, admits]
  refine ⟨⟨fun parsed => ?_, ?_⟩, fun parsed => ⟨?_, fun plain => ?_⟩⟩
  · refine Dialect.padded_of_parse Dialect.lenient_narrow (fun _ short => short) parsed ?_
    intro token _ c _
    split
    · trivial
    · exact ⟨fun digit => digit, fun blank => blank⟩
  · rintro ⟨tree, spelled, rfl⟩
    exact spelled.parse Dialect.lenient_narrow fun _ fits => fits
  · rintro ⟨tree, spelled⟩
    obtain ⟨es, -, lexes⟩ := spelled.lexes Dialect.standard_narrow
    exact (lexes.tile Dialect.standard_narrow).2
  · obtain ⟨tree, spelled, -⟩ :=
      Dialect.padded_of_parse Dialect.standard_narrow (fun _ _ => trivial) parsed plain
    exact ⟨tree, spelled⟩

/-- A one and a one of another script are read as eleven, which no JSON text spells that way. -/
theorem parse_ok_iff_lenient_eleven : parse [0x31, 0x661] = .ok (.integer 11) ∧
    ¬ ∃ tree, Dialect.standard.Padded [0x31, 0x661] tree := by
  have nothing : Dialect.lenient.Blanks [] := by simp [Dialect.Blanks]
  have eleven : NumberLiteral.WellFormed Dialect.lenient ⟨false, [0x31, 0x661], none, none⟩ :=
    ⟨.inr ⟨0x31, [0x661], rfl, by decide, by decide, by simp [Dialect.lenient]; decide⟩, by simp, by simp⟩
  have short : 2 ≤ Decimal.maxIntegerDigits := by decide
  have spelled := Dialect.Padded.padded nothing (.scalar (.number eleven fun _ => short)) nothing
  obtain ⟨accepts, iff⟩ := parse_ok_iff_lenient [0x31, 0x661] (.integer 11)
  have parsed := accepts.mpr ⟨_, spelled, rfl⟩
  refine ⟨parsed, fun standard => ?_⟩
  obtain ⟨m, member, group, digit⟩ : ∃ m ∈ (engine.tokens [0x31, 0x661]).1,
      m.lastGroup = some (Engine.groupName 3) ∧ 0x661 ∈ m.text := by
    decide +kernel
  have admitted := (iff parsed).mp standard m member 0x661 digit
  have number : some (Engine.groupName 3) ≠ some (Engine.groupName 4) := by decide +kernel
  rw [group, if_neg number] at admitted
  exact absurd (admitted.1 (by decide)).2 (by decide)

end TokenRules.Json
