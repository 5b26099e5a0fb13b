import TokenRules.Proofs.Pattern.Enclosed

/-! What stands within a part. Of the parts that can be applied only a set of characters and a comment hold an
escape after their first token. So where an escape stands in a source that reads, a part starts, or one of
these goes on. -/
namespace TokenRules

theorem Text.isIdentifier_whole (identifier : isIdentifier name) : Sign.backslash ∉ name := by
  cases name with
  | nil => exact List.not_mem_nil
  | cons c name =>
    simp only [isIdentifier, Bool.and_eq_true, List.all_eq_true] at identifier
    rw [List.mem_cons, not_or]
    refine ⟨?_, fun member => absurd (identifier.2 _ member) (by decide +kernel)⟩
    rintro rfl
    exact absurd identifier.1 (by decide)

theorem Decimal.mem_splitSign {c : CodePoint} (member : c ∈ t) (hyphen : c ≠ 0x2D) (plus : c ≠ 0x2B) :
    c ∈ (splitSign t).2 := by
  unfold splitSign
  split
  · exact (List.mem_cons.mp member).resolve_left hyphen
  · exact (List.mem_cons.mp member).resolve_left plus
  · exact member

/-- No number is written with a backslash. -/
theorem Decimal.readInteger_whole (number : readInteger t = .ok n) : Sign.backslash ∉ t := by
  have passed : ∀ p : CodePoint → Bool, p Sign.backslash = false → ∀ s : Text, Sign.backslash ∈ s →
      Sign.backslash ∈ s.dropWhile p := by
    intro p stops s member
    rw [← List.takeWhile_append_dropWhile (p := p) (l := s), List.mem_append] at member
    refine member.resolve_left fun taken => ?_
    simpa [stops] using List.all_eq_true.mp List.all_takeWhile _ taken
  intro member
  have body := mem_splitSign (passed isMargin (by decide) t member) (by decide) (by decide)
  have rest := passed (fun c => Text.isDigit c || c == 0x5F) (by decide +kernel) _ body
  simp only [readInteger] at number
  split at number
  · contradiction
  · split at number
    · contradiction
    · split at number
      · contradiction
      · next margin =>
        simp only [Bool.not_eq_true', Bool.not_eq_false, List.all_eq_true] at margin
        exact absurd (margin _ rest) (by decide)

namespace Pattern
namespace Token

/-- How many of the tokens are escapes. -/
def escapes (ts : List Token) : Nat :=
  ts.countP fun
    | .plain _ => false
    | _ => true

@[simp] theorem escapes_plain (c : CodePoint) (ts : List Token) : escapes (.plain c :: ts) = escapes ts :=
  List.countP_cons_of_neg (by simp)

theorem escapes_escaped (c : CodePoint) (ts : List Token) : escapes (.escaped c :: ts) = escapes ts + 1 :=
  List.countP_cons_of_pos rfl

theorem span_escapes (p : CodePoint → Bool) (n : Nat) (ts : List Token) :
    escapes (span p n ts).2 = escapes ts := by
  fun_induction span p n ts with
  | case1 n c rest holds cs rest' eq ih =>
    rw [eq] at ih
    rw [escapes_plain]
    exact ih
  | case2 | case3 => rfl

theorem nameUntil_escapes (h : nameUntil terminator ts = .ok (name, rest)) :
    escapes rest = escapes ts ∨ Sign.backslash ∈ name := by
  fun_induction nameUntil terminator ts generalizing name rest with
  | case1 | case2 => contradiction
  | case3 c rest' closes =>
    obtain ⟨rfl, rfl⟩ := Prod.mk.inj (Except.ok.inj h)
    exact .inl (escapes_plain c rest').symm
  | case4 c ts open' ih =>
    obtain ⟨_, read, same⟩ := map_eq_ok.mp h
    obtain ⟨rfl, rfl⟩ := Prod.mk.inj same
    rw [escapes_plain]
    exact (ih read).imp_right (List.mem_cons_of_mem _)
  | case5 c ts ih =>
    obtain ⟨_, read, same⟩ := map_eq_ok.mp h
    obtain ⟨rfl, rfl⟩ := Prod.mk.inj same
    exact .inr List.mem_cons_self

end Token

namespace Repetition

theorem upper_escapes (low : Text) (ts : List Token) : Token.escapes (upper low ts).2 = Token.escapes ts := by
  unfold upper
  split
  · rw [Token.escapes_plain]
    exact Token.span_escapes _ _ _
  · rfl

theorem read_escapes (h : read ts = .ok (some (repetition, rest))) :
    Token.escapes rest = Token.escapes ts := by
  have high := upper_escapes (Token.spanAll Text.isAsciiDigit ts).1 (Token.spanAll Text.isAsciiDigit ts).2
  rw [upper_of_read h, Token.escapes_plain] at high
  exact high.trans (Token.span_escapes _ _ _)

end Repetition

/-- A part that may hold an escape after the token it starts with. -/
def Part.MayHold (first : Token) : Part → Prop
  | .nothing => True
  | .chars _ => first = .plain Sign.leftBracket
  | .condition name | .namedReference name => Sign.backslash ∈ name
  | _ => False

namespace Escape

theorem hexadecimal_escapes (h : hexadecimal count ts = .ok (atom, rest)) :
    Token.escapes rest = Token.escapes ts := by
  have kept := Token.span_escapes Text.isHexDigit count ts
  simp only [hexadecimal] at h
  split at h
  · obtain ⟨-, rfl⟩ := Prod.mk.inj (Except.ok.inj h)
    exact kept
  · contradiction

variable [CharacterNames]

/-- The name of a character has no backslash in it. -/
theorem byName_escapes (h : byName ts = .ok (atom, rest)) : Token.escapes rest = Token.escapes ts := by
  obtain ⟨name, c, within, rfl, read, known, rfl⟩ := byName_ok h
  rw [Token.escapes_plain]
  refine (Token.nameUntil_escapes read).resolve_right fun backslash => ?_
  exact absurd ((CharacterNames.spelled known).2 _ backslash) (by decide)

theorem common_escapes (h : common c ts = .ok (atom, rest)) : Token.escapes rest = Token.escapes ts := by
  simp only [common] at h
  grind [→ hexadecimal_escapes, → byName_escapes]

end Escape

namespace Reader

open Token

theorem flagLetters_escapes (ts : List Token) : escapes (flagLetters ts).2 = escapes ts := by
  fun_induction flagLetters ts with
  | case1 c rest flag known flags rest' read ih =>
    rw [read] at ih
    rw [escapes_plain]
    exact ih
  | case2 | case3 => rfl

theorem flagGroup_escapes (h : flagGroup ts = .ok (p, rest)) : escapes rest = escapes ts := by
  have letters := flagLetters_escapes
  simp only [flagGroup, removedFlags] at h
  grind [escapes_plain]

/-- A part takes no escapes from behind its first token, unless it is one that may hold them. -/
def LeavesEscapes (first : Token) (ts : List Token) (parsed : Parsed) : Prop :=
  ∀ p rest, parsed = .ok (p, rest) → escapes rest = escapes ts ∨ p.MayHold first

theorem named_leaves (first : Token) (ts : List Token) : LeavesEscapes first ts (named ts) := by
  intro p rest h
  simp only [named, Except.map] at h
  grind [escapes_plain, → nameUntil_escapes, → Text.isIdentifier_whole, Part.MayHold]

theorem extension_leaves (first : Token) (ts : List Token) : LeavesEscapes first ts (extension ts) := by
  intro p rest h
  have names := fun ts => named_leaves first ts p rest
  simp only [extension, Except.map] at h
  grind [escapes_plain, → nameUntil_escapes, → flagGroup_escapes, Part.MayHold]

variable [CharacterNames]

theorem item_leaves (f : Flags) (c : CodePoint) (ts : List Token) :
    LeavesEscapes (.plain c) ts (item f c ts) := by
  intro p rest h
  have groups := fun ts => extension_leaves (.plain c) ts p rest
  simp only [item, loop, bracket, brace, group, Part.atom, Except.map] at h
  grind [escapes_plain, → Repetition.read_escapes, Part.MayHold]

theorem escape_escapes (h : escape f c ts = .ok (p, rest)) : escapes rest = escapes ts := by
  have digits := span_escapes Escape.isOctalDigit 2 ts
  simp only [escape, reference, Part.atom, Except.map] at h
  grind [escapes_plain, → Escape.octal_rest, → Escape.common_escapes]

theorem part_leaves (f : Flags) (t : Token) (ts : List Token) : LeavesEscapes t ts (part f t ts) := by
  intro p rest h
  cases t with
  | dangling => contradiction
  | escaped c => exact .inl (escape_escapes h)
  | plain c =>
    have items := item_leaves f c ts p rest
    simp only [part, plain] at h
    grind [Part.MayHold]

/-- A name that a part gives to a group is an identifier. -/
def NamesWell (parsed : Parsed) : Prop :=
  ∀ name rest, parsed = .ok (.capture (some name), rest) → Text.isIdentifier name

omit [CharacterNames] in
theorem flagGroup_names (ts : List Token) : NamesWell (flagGroup ts) := by
  intro name rest h
  simp only [flagGroup] at h
  grind

omit [CharacterNames] in
theorem extension_names (ts : List Token) : NamesWell (extension ts) := by
  intro name rest h
  have flags := fun ts => flagGroup_names ts name rest
  simp only [extension, named, Except.map] at h
  grind

theorem item_names (f : Flags) (c : CodePoint) (ts : List Token) : NamesWell (item f c ts) := by
  intro name rest h
  have groups := fun ts => extension_names ts name rest
  simp only [item, loop, bracket, brace, group, Part.atom, Except.map] at h
  grind

theorem part_names (f : Flags) (t : Token) (ts : List Token) : NamesWell (part f t ts) := by
  intro name rest h
  cases t with
  | dangling => contradiction
  | plain c =>
    have items := item_names f c ts name rest
    simp only [part, plain] at h
    grind
  | escaped c =>
    simp only [part, escape, reference, Part.atom, Except.map] at h
    grind

end Reader

/-- The groups of a reading have identifiers for names. -/
def Reading.WellNamed (r : Reading) : Prop :=
  ∀ entry ∈ r.groups.names, Text.isIdentifier entry.1

namespace Reading.WellNamed

theorem start (f : Flags) : (Reading.start f).WellNamed := by
  simp [WellNamed, Reading.start]

theorem apply [CharacterNames] {p : Part} {r r' : Reading} (named : r.WellNamed)
    (next : Reader.part f t ts = .ok (p, rest)) (applied : p.apply r = .ok r') : r'.WellNamed := by
  intro entry member
  rcases (Part.apply_nests applied).2.captured entry member with old | rfl
  · exact named entry old
  · exact Reader.part_names f t ts entry.1 rest next

theorem lookup {r : Reading} (named : r.WellNamed) (found : r.groups.names.lookup name = some index) :
    Sign.backslash ∉ name := by
  obtain ⟨before, after, names, -⟩ := List.lookup_eq_some_iff.mp found
  have member : (name, index) ∈ r.groups.names := names ▸ List.mem_append_right before List.mem_cons_self
  exact Text.isIdentifier_whole (named _ member)

/-- A name with a backslash stands for no group. -/
theorem conditionIndex {r : Reading} (named : r.WellNamed)
    (found : Part.conditionIndex? name r = some index) : Sign.backslash ∉ name := by
  simp only [Part.conditionIndex?] at found
  split at found
  · exact named.lookup found
  · split at found
    · next number => exact Decimal.readInteger_whole number
    · contradiction

/-- Of the parts that may hold an escape no other can be applied than a comment and a set in brackets. -/
theorem holds {p : Part} {r r' : Reading} (named : r.WellNamed) (may : p.MayHold first)
    (applied : p.apply r = .ok r') :
    p = .nothing ∨ (∃ set, p = .chars set) ∧ first = .plain Sign.leftBracket := by
  cases p with
  | nothing => exact .inl rfl
  | chars set => exact .inr ⟨⟨set, rfl⟩, may⟩
  | condition name =>
    simp only [Part.apply] at applied
    split at applied
    · next found => exact absurd may (named.conditionIndex found)
    · contradiction
  | namedReference name =>
    simp only [Part.apply] at applied
    split at applied
    · next found => exact absurd may (named.lookup found)
    · contradiction
  | _ => exact may.elim

end Reading.WellNamed

namespace Step

/-- A step over a comment, or over a set in brackets. -/
def Covers (step : Step) : Prop :=
  step.part = .nothing ∨
    (∃ set, step.part = .chars set) ∧ step.tokens.head? = some (.plain Sign.leftBracket)

/-- These tokens start within the step, after its first token. -/
def Holds (step : Step) (ts : List Token) : Prop :=
  ts <:+ step.tokens.tail ∧ step.rest.length < ts.length

end Step

/-- Where an escape stands a step starts, unless it stands in a comment or in brackets. -/
theorem Reads.inside [CharacterNames] (reads : Reads ts r ps final) (named : r.WellNamed)
    (suffix : .escaped c :: more <:+ ts) : ∃ step ∈ Reader.steps ts r,
      step.tokens = .escaped c :: more ∨ step.Covers ∧ step.Holds (.escaped c :: more) := by
  induction reads with
  | finish => simp at suffix
  | @part t ts p rest r _ _ _ next applied _ ih =>
    rw [Reader.steps_cons next applied]
    rcases List.suffix_cons_iff.mp suffix with same | within
    · exact ⟨_, List.mem_cons_self, .inl same.symm⟩
    have left : rest <:+ ts := List.suffix_of_suffix_length_le (Reader.part_append next).1.suffix
      (List.suffix_cons t ts) (Reader.part_length next)
    rcases Nat.lt_or_ge rest.length (Token.escaped c :: more).length with taken | later
    · refine ⟨_, List.mem_cons_self, .inr ⟨?_, within, taken⟩⟩
      have behind : rest <:+ more := by
        refine List.suffix_of_suffix_length_le left ((List.suffix_cons _ _).trans within) ?_
        exact Nat.le_of_lt_succ taken
      have fewer : Token.escapes rest < Token.escapes ts := calc
        Token.escapes rest ≤ Token.escapes more := behind.sublist.countP_le
        _ < Token.escapes (.escaped c :: more) := by rw [Token.escapes_escaped]; exact Nat.lt_succ_self _
        _ ≤ Token.escapes ts := within.sublist.countP_le
      have may := (Reader.part_leaves r.flags t ts p rest next).resolve_left (Nat.ne_of_lt fewer)
      exact (named.holds may applied).imp_right (And.imp_right (congrArg some))
    · obtain ⟨step, member, found⟩ :=
        ih (named.apply next applied) (List.suffix_of_suffix_length_le within left later)
      exact ⟨step, List.mem_cons_of_mem _ member, found⟩

end Pattern
end TokenRules
