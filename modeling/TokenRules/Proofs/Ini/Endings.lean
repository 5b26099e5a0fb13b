import TokenRules.Proofs.Ini.Reading
import TokenRules.Proofs.Source.Endings

/-! INI files with other line endings. No token but one of blanks takes the end of a line, and blanks say
nothing. So the items stay the same whatever ends the lines, and a failure moves with its item. -/
namespace TokenRules.Ini

open Pattern
open Source (LineBreaks)

variable {t ending : Text} {set : CodePoint → Bool}

/-- A front that is taken within a line: it is the same whatever ends the line. -/
structure WithinLine (ending : Text) (front : Text → Option Text) : Prop where
  fronts : Fronts front
  short : ∀ t w, front t = some w → Sign.lineFeed ∉ w
  same : ∀ t, front (t.withEndings ending) = front t

theorem outside_line (inside : ∀ c, set c → inLine c) (ended : Ahead (inLine · = false) t) :
    Ahead (set · = false) t := by
  refine ended.imp fun c outside => Bool.eq_false_iff.mpr ?_
  intro taken
  rw [inside c taken] at outside
  contradiction

theorem lineFeed_outside (inside : ∀ c, set c → inLine c) : set Sign.lineFeed = false :=
  outside_line (t := [Sign.lineFeed]) inside (.cons (by decide)) _ rfl

theorem WithinLine.followed (first : WithinLine ending f) (second : WithinLine ending g) :
    WithinLine ending (Pattern.followed f g) where
  fronts := first.fronts.followed second.fronts
  short := by
    intro t w found
    obtain ⟨u, v, start, rest, rfl⟩ := followed_eq_some.mp found
    rw [List.mem_append]
    exact not_or.mpr ⟨first.short _ _ start, second.short _ _ rest⟩
  same := by
    intro t
    rw [Pattern.followed, Pattern.followed, first.same]
    cases start : f t with
    | none => rfl
    | some u =>
      obtain ⟨v, rfl⟩ := first.fronts t u start
      rw [Option.bind_some, Option.bind_some, Text.withEndings_append,
        Text.withEndings_bare (first.short _ _ start), List.drop_left, List.drop_left, second.same]

/-- A front that takes the same with other endings, but for these. -/
def Carries (ending : Text) (front : Text → Option Text) : Prop :=
  ∀ t, front (t.withEndings ending) = (front t).map (·.withEndings ending)

theorem WithinLine.carries (within : WithinLine ending front) : Carries ending front := by
  intro t
  rw [within.same]
  cases found : front t with
  | none => rfl
  | some w => rw [Option.map_some, Text.withEndings_bare (within.short t w found)]

theorem firstFront_carries (carry : ∀ front ∈ list, Carries ending front) (k : Nat) (t : Text) :
    Json.firstFront k list (t.withEndings ending) =
      (Json.firstFront k list t).map fun token => (token.1, token.2.withEndings ending) := by
  induction list generalizing k with
  | nil => rfl
  | cons front rest ih =>
    obtain ⟨first, others⟩ := List.forall_mem_cons.mp carry
    rw [Json.firstFront, Json.firstFront, first t, ih others]
    cases front t <;> rfl

theorem inLine_of_solid (solid : Text.isBlank c = false) : inLine c := by
  rw [inLine, Bool.and_eq_true, bne_iff_ne, bne_iff_ne]
  constructor
  · rintro rfl
    exact absurd solid (by decide)
  · rintro rfl
    exact absurd solid (by decide)

/-- The items lie in the text, and what they leave is an end of it. -/
theorem items_inside (offset : Nat) (t : Text) :
    (∀ entry ∈ (items offset t).1, entry.1 ≤ offset + t.length) ∧ (items offset t).2 <:+ t := by
  fun_induction items offset t with
  | case1 offset t stuck => exact ⟨by simp, List.suffix_rfl⟩
  | case2 offset t i w found rest ih =>
    obtain ⟨places, left⟩ := ih
    constructor
    · intro entry member
      rcases List.mem_cons.mp member with rfl | later
      · exact Nat.le_add_right _ _
      · have place := places entry later
        have length := (lexeme?_spec found).1.length_le
        rw [List.length_drop] at place
        omega
    · exact left.trans (List.drop_suffix w.length t)

theorem said_withEndings (its : List (Nat × Item)) (ending : Text) :
    (its.map (Prod.map (t.placeWithEndings ending) id)).map Prod.snd = its.map Prod.snd := by
  rw [List.map_map]
  rfl

theorem parse_report (failed : parse t = .error (.failure f)) :
    f.report = Engine.reportAt ⟨t, .normal, 1⟩ f.report.position f.report.description := by
  rw [parse_eq] at failed
  obtain ⟨blamed, -, stopped⟩ := mapError_eq_error.mp failed
  exact Engine.stopAt_failure engine_lineBreaks stopped

section

variable (known : ending ∈ [[Sign.lineFeed], [Sign.carriageReturn], [Sign.carriageReturn, Sign.lineFeed]])

include known

theorem WithinLine.one (inside : ∀ c, set c → inLine c) : WithinLine ending (Pattern.one set) where
  fronts := (starts_one set).fronts
  short := by
    intro t w found
    obtain ⟨x, rest, -, taken, rfl⟩ := one_eq_some.mp found
    rw [List.mem_singleton]
    rintro rfl
    exact Bool.false_ne_true ((lineFeed_outside inside).symm.trans taken)
  same := by
    intro t
    cases t with
    | nil => rfl
    | cons c t =>
      by_cases feed : c = Sign.lineFeed
      · rw [feed, Text.withEndings_lineFeed, one_none (outside_line inside (ending_ahead known _)),
          one_none (.cons (lineFeed_outside inside))]
      · rw [Text.withEndings_cons feed]
        rfl

theorem WithinLine.many (inside : ∀ c, set c → inLine c) : WithinLine ending (Pattern.many set) where
  fronts := fronts_many set
  short := by
    intro t w found member
    have taken := many_eq_some found _ member
    exact Bool.false_ne_true ((lineFeed_outside inside).symm.trans taken)
  same := by
    intro t
    induction t with
    | nil => rfl
    | cons c t ih =>
      by_cases feed : c = Sign.lineFeed
      · have nothing : ∀ u, Ahead (inLine · = false) u → Pattern.many set u = some [] := fun u ended =>
          many_append (u := []) (by simp) (outside_line inside ended)
        rw [feed, Text.withEndings_lineFeed, nothing _ (ending_ahead known _),
          nothing _ (.cons (by decide))]
      · rw [Text.withEndings_cons feed]
        have rest : (Text.withEndings t ending).takeWhile set = t.takeWhile set := Option.some.inj ih
        simp only [Pattern.many, List.takeWhile_cons, rest]

theorem comment_within : WithinLine ending comment := by
  refine (WithinLine.one known ?_).followed (.many known fun c inside => inside)
  intro c opens
  have member : c ∈ [Sign.semicolon, Sign.number] := by simpa [opensComment] using opens
  have inside : ∀ c ∈ [Sign.semicolon, Sign.number], inLine c := by decide
  exact inside c member

theorem header_within : WithinLine ending header := by
  have sign : ∀ b, inLine b → ∀ c, (c == b) → inLine c := by
    intro b inside c same
    rwa [eq_of_beq same]
  refine (WithinLine.one known (sign _ (by decide))).followed
    ((WithinLine.many known ?_).followed (.one known (sign _ (by decide))))
  intro c inside
  exact (Bool.and_eq_true_iff.mp inside).2

theorem assignment_within : WithinLine ending assignment := by
  refine (WithinLine.one known ?_).followed ((WithinLine.many known ?_).followed
    ((WithinLine.one known ?_).followed (.many known fun c inside => inside)))
  · intro c opens
    simp only [opensKey, Bool.not_eq_true', Bool.or_eq_false_iff] at opens
    exact inLine_of_solid opens.1.1.2
  · intro c inside
    exact (Bool.and_eq_true_iff.mp inside).2
  · intro c same
    rw [eq_of_beq same]
    decide

/-- Blanks go on over the ends of lines. -/
theorem takeWhile_withEndings (t : Text) : (t.withEndings ending).takeWhile Text.isBlank =
    Text.withEndings (t.takeWhile Text.isBlank) ending := by
  induction t with
  | nil => rfl
  | cons c t ih =>
    by_cases feed : c = Sign.lineFeed
    · have here : Text.isBlank Sign.lineFeed := by decide
      rw [feed, Text.withEndings_lineFeed, List.takeWhile_append_of_pos (ending_outside known).2.1, ih,
        List.takeWhile_cons, if_pos here, Text.withEndings_lineFeed]
    · rw [Text.withEndings_cons feed, List.takeWhile_cons, List.takeWhile_cons, ih]
      split
      · exact (Text.withEndings_cons feed _ _).symm
      · rfl

theorem blanks_carry : Carries ending (several Text.isBlank) := by
  intro t
  rw [several_eq, several_eq, takeWhile_withEndings known]
  by_cases none : t.takeWhile Text.isBlank = []
  · rw [none]
    rfl
  · rw [if_neg none, if_neg (Text.withEndings_ne_nil (ending_outside known).1 none)]
    rfl

theorem fronts_carry : ∀ front ∈ fronts, Carries ending front := by
  simp only [fronts, List.forall_mem_cons, List.not_mem_nil, false_imp_iff, implies_true, and_true]
  exact ⟨(comment_within known).carries, blanks_carry known, (header_within known).carries,
    (assignment_within known).carries⟩

/-- The token at the start of the text is the same, but for the endings in it. -/
theorem lexeme?_withEndings (t : Text) : lexeme? (t.withEndings ending) =
    (lexeme? t).map fun token => (token.1, token.2.withEndings ending) :=
  firstFront_carries (fronts_carry known) 0 t

theorem item_withEndings (found : lexeme? t = some (i, w)) : item i (w.withEndings ending) = item i w := by
  obtain ⟨front, rule, taken⟩ := lexeme?_eq_some.mp found
  have within : WithinLine ending front → item i (w.withEndings ending) = item i w := by
    intro within
    rw [Text.withEndings_bare (within.short t w taken)]
  match i, rule with
  | 0, _ => rfl
  | 1, _ => rfl
  | 2, rule =>
    obtain rfl := Option.some.inj rule
    exact within (header_within known)
  | 3, rule =>
    obtain rfl := Option.some.inj rule
    exact within (assignment_within known)

/-- With other endings the items are the same, each behind the same part of the text. -/
theorem items_behind (before t : Text) :
    items (before.withEndings ending).length (t.withEndings ending) =
      ((items before.length t).1.map (Prod.map (Text.placeWithEndings (before ++ t) ending) id),
        (items before.length t).2.withEndings ending) := by
  -- What has been read is kept in `before`; the induction is on what is ahead.
  induction size : t.length using Nat.strongRecOn generalizing before t with
  | ind n ih =>
    have read := lexeme?_withEndings known t
    cases found : lexeme? t with
    | none =>
      rw [found] at read
      rw [items_none found, items_none read]
      rfl
    | some token =>
      obtain ⟨i, w⟩ := token
      obtain ⟨⟨u, rfl⟩, x, v, rfl, -⟩ := lexeme?_spec found
      have less : u.length < n := by
        rw [← size, List.length_append, List.length_cons]
        omega
      have rest := ih u.length less (before ++ x :: v) u rfl
      rw [Text.withEndings_append, List.length_append, List.length_append, List.append_assoc] at rest
      rw [found, Text.withEndings_append] at read
      rw [items_some found, Text.withEndings_append, items_some read, rest, item_withEndings known found,
        List.map_cons, Prod.map, Text.placeWithEndings_append]
      rfl

theorem items_withEndings (t : Text) :
    items 0 (t.withEndings ending) =
      ((items 0 t).1.map (Prod.map (t.placeWithEndings ending) id), (items 0 t).2.withEndings ending) :=
  items_behind known [] t

end

theorem known_ending (known : ending ∈ LineBreaks.normal.sequences) :
    ending ∈ [[Sign.lineFeed], [Sign.carriageReturn], [Sign.carriageReturn, Sign.lineFeed]] := by
  have all : ∀ w ∈ LineBreaks.normal.sequences,
      w ∈ [[Sign.lineFeed], [Sign.carriageReturn], [Sign.carriageReturn, Sign.lineFeed]] := by decide
  exact all ending known

/-- Two parses that fail in the same way, behind the same part of the text, report it alike. -/
theorem reports_alike (known : ending ∈ LineBreaks.normal.sequences) (bare : Sign.carriageReturn ∉ t)
    (inside : place ≤ t.length) (original : Fails t place description)
    (replaced : Fails (t.withEndings ending) (t.placeWithEndings ending place) description) :
    ∃ f g, parse t = .error (.failure f) ∧ parse (t.withEndings ending) = .error (.failure g) ∧
      f.report.position = place ∧
      g.report = { f.report with position := t.placeWithEndings ending place } := by
  obtain ⟨f, failed, position, said⟩ := original
  obtain ⟨g, failed', position', said'⟩ := replaced
  refine ⟨f, g, failed, failed', position, ?_⟩
  rw [parse_report failed', parse_report failed, position, said, position', said', Engine.reportAt,
    Source.SourceText.diagnostic_withEndings known bare 1 inside]
  rfl

/-- A parse does not depend on what ends the lines. A text without carriage returns gives the same document if
each of its line feeds is replaced by another ending; or else both texts fail, behind the same part, and their
reports differ in the position only. -/
theorem parse_withEndings {t ending : Text} (known : ending ∈ LineBreaks.normal.sequences)
    (bare : Sign.carriageReturn ∉ t) :
    (∃ doc, parse t = .ok doc ∧ parse (t.withEndings ending) = .ok doc) ∨
    ∃ f g, ∃ place ≤ t.length, parse t = .error (.failure f) ∧
      parse (t.withEndings ending) = .error (.failure g) ∧ f.report.position = place ∧
      g.report = { f.report with position := t.placeWithEndings ending place } := by
  have read := items_withEndings (known_ending known) t
  have said : (items 0 (t.withEndings ending)).1.map Prod.snd = (items 0 t).1.map Prod.snd := by
    rw [read]
    exact said_withEndings _ ending
  obtain ⟨places, suffix⟩ := items_inside 0 t
  by_cases conforms : Conforms ((items 0 t).1.map Prod.snd)
  · have conforms' : Conforms ((items 0 (t.withEndings ending)).1.map Prod.snd) := said.symm ▸ conforms
    by_cases whole : (items 0 t).2 = []
    · left
      have whole' : (items 0 (t.withEndings ending)).2 = [] := by
        rw [read, whole]
        rfl
      have parsed := parse_conforming conforms' whole'
      rw [said] at parsed
      exact ⟨_, parse_conforming conforms whole, parsed⟩
    · right
      have stuck : (items 0 (t.withEndings ending)).2 ≠ [] := by
        rw [read]
        exact Text.withEndings_ne_nil (ending_outside (known_ending known)).1 whole
      have replaced := fails_blocked conforms' stuck
      rw [read, Text.placeWithEndings_suffix suffix] at replaced
      have original := fails_blocked conforms whole
      obtain ⟨f, g, reports⟩ := reports_alike known bare (Nat.sub_le _ _) original replaced
      exact ⟨f, g, _, Nat.sub_le _ _, reports⟩
  · right
    obtain ⟨before, place, x, after, its, conforms, offends⟩ := exists_offending conforms
    have inside : place ≤ t.length := by
      have member : (place, x) ∈ (items 0 t).1 := by
        rw [its]
        exact List.mem_append_right _ (.head _)
      exact Nat.zero_add t.length ▸ places (place, x) member
    have original := fails_offending its conforms offends
    have its' := congrArg Prod.fst read
    rw [its, List.map_append, List.map_cons] at its'
    rw [← said_withEndings before ending] at conforms offends
    have replaced := fails_offending its' conforms offends
    obtain ⟨f, g, reports⟩ := reports_alike known bare inside original replaced
    exact ⟨f, g, place, inside, reports⟩

/-- No rule goes on at the equals sign of the second line. -/
theorem parse_withEndings_equal :
    let t : Text := [Sign.lineFeed, Sign.equal]
    let ending : Text := [Sign.carriageReturn, Sign.lineFeed]
    ending ∈ LineBreaks.normal.sequences ∧ Sign.carriageReturn ∉ t ∧
      ∃ f g, parse t = .error (.failure f) ∧
        parse [Sign.carriageReturn, Sign.lineFeed, Sign.equal] = .error (.failure g) ∧
        f.report.position = 1 ∧ f.report.row = 2 ∧ g.report = { f.report with position := 2 } := by
  intro t ending
  have known : ending ∈ LineBreaks.normal.sequences := by decide
  have bare : Sign.carriageReturn ∉ t := by decide
  have blank : lexeme? ([Sign.lineFeed] ++ [Sign.equal]) = some (1, [Sign.lineFeed]) := by decide
  have stuck : lexeme? [Sign.equal] = none := by decide
  have read : items 0 t = ([(0, .skipped)], [Sign.equal]) := by
    rw [show t = [Sign.lineFeed] ++ [Sign.equal] from rfl, items_some blank, items_none stuck]
    rfl
  have conforms : Conforms ((items 0 t).1.map Prod.snd) := by
    rw [read]
    exact ⟨by decide, by decide⟩
  have failed := fails_blocked conforms (by rw [read]; decide)
  rw [read] at failed
  obtain ⟨f', failed', position', said⟩ := failed
  refine ⟨known, bare, ?_⟩
  rcases parse_withEndings known bare with
    ⟨doc, parsed, -⟩ | ⟨f, g, place, -, failed, replaced, position, moved⟩
  · rw [parsed] at failed'
    contradiction
  · rw [failed] at failed'
    obtain rfl := Stop.failure.inj (Except.error.inj failed')
    obtain rfl : place = 1 := by
      rw [position] at position'
      exact Int.ofNat.inj position'
    have row : f.report.row = 2 := by
      rw [parse_report failed, position, said]
      decide
    exact ⟨f, g, failed, replaced, position, row, moved⟩

end TokenRules.Ini
