import TokenRules.Proofs.Scan.Course
import TokenRules.Proofs.Source.Diagnostic

/-! Reports of troubles. Whatever is raised in a parse is raised by the action of a token, by a scan
that is blocked, or by the end of the parse. A trouble becomes the report of its own place, or else of the
token's start or the end of the text; every place has a location. A defect passes through. -/
namespace TokenRules

theorem Source.LineBreaks.ofName?_name (mode : LineBreaks) : ofName? mode.name = some mode := by
  cases mode <;> decide

namespace Engine

variable {σ ε ρ : Type} {e : Engine σ ε}

/-- What is raised in a parse, and the offset to blame for it if it knows no place by itself. -/
inductive Raises (e : Engine σ ε) (content : Text) (context : σ) (finish : σ → Except (Raised ε) ρ) :
    Raised ε → Nat → Prop
  | action {reached : Cursor} : e.pattern.Tiles (.start content) (before ++ m :: after) reached →
      e.applyAll context before = .ok left → e.apply m left = .error raised →
      Raises e content context finish raised m.start.offset
  | blocked {reached : Cursor} : e.pattern.Tiles (.start content) ms reached →
      e.applyAll context ms = .ok last → reached.offset < content.length →
      Raises e content context finish (.trouble (.blocked reached.offset)) content.length
  | finish {reached : Cursor} : e.pattern.Tiles (.start content) ms reached →
      e.applyAll context ms = .ok last → reached.offset = content.length → finish last = .error raised →
      Raises e content context finish raised content.length

/-- What has been raised stops the parse, and the scanner is left at what is to blame. -/
theorem Raises.parse {content : Text} {finish : σ → Except (Raised ε) ρ}
    (raises : e.Raises content context finish raised blame) :
    ∃ s : Scanner, s.current.getD content.length = blame ∧
      (e.parse content context finish).outcome = .error (e.stop content s raised) := by
  obtain ⟨tiles', position, idle, blocked⟩ := e.tokens_tiles content
  cases raises with
  | action tiles applied refused =>
    obtain ⟨tokens, -⟩ := tiles.unique tiles'
    obtain ⟨s, current, parsed⟩ := parse_raised tokens applied refused finish
    exact ⟨s, by rw [current, Option.getD_some], by rw [parsed]⟩
  | blocked tiles applied short =>
    obtain ⟨rfl, rfl⟩ := tiles.unique tiles'
    refine ⟨_, by rw [idle, Option.getD_none], ?_⟩
    rw [parse_ended applied, if_pos (blocked.mpr short), position]
    rfl
  | finish tiles applied whole failed =>
    obtain ⟨rfl, rfl⟩ := tiles.unique tiles'
    refine ⟨_, by rw [idle, Option.getD_none], ?_⟩
    rw [parse_ended applied, if_neg (by rw [blocked]; omega), failed]
    rfl

/-- Nothing else stops a parse. -/
theorem raises_of_parse {content : Text} {finish : σ → Except (Raised ε) ρ}
    (parsed : (e.parse content context finish).outcome = .error stopped) :
    ∃ raised blame, e.Raises content context finish raised blame := by
  obtain ⟨tiles, -, -, blocked⟩ := e.tokens_tiles content
  cases applied : e.applyAll context (e.tokens content).1 with
  | error raised =>
    obtain ⟨before, m, after, left, tokens, applied, refused⟩ := applyAll_error applied
    rw [tokens] at tiles
    exact ⟨raised, _, .action tiles applied refused⟩
  | ok last =>
    by_cases short : (e.tokens content).2.cursor.offset < content.length
    · exact ⟨_, _, .blocked tiles applied short⟩
    · rw [parse_ended applied, if_neg (by rw [blocked]; exact short)] at parsed
      obtain ⟨raised, failed, -⟩ := mapError_eq_error.mp parsed
      have whole := Nat.le_antisymm tiles.whole.2.1 (Nat.le_of_not_lt short)
      exact ⟨raised, _, .finish tiles applied whole failed⟩

/-- A trouble becomes the report of its own place, or else of the place to blame, which can be looked up. -/
theorem Raises.reported {content : Text} {finish : σ → Except (Raised ε) ρ}
    (known : e.lineBreaks = Source.LineBreaks.name mode)
    (raises : e.Raises content context finish (.trouble t) blame) :
    let position := t.position?.getD (blame : Int)
    let source : Source.SourceText := ⟨content, mode, 1⟩
    ∃ place, source.locate? position = some place ∧ place = Source.locate content position mode ∧
      (e.parse content context finish).outcome = .error (.failure {
        report := {
          message := (source.diagnostic position t.message).1
          description := t.message
          position
          row := place.row
          column := place.column
          line := place.line }
        cause := some t }) := by
  obtain ⟨s, rfl, parsed⟩ := raises.parse
  refine ⟨_, Source.SourceText.locate?_eq _ _, rfl, ?_⟩
  rw [parsed, stop, known, Source.LineBreaks.ofName?_name]
  rfl

/-- The message of a report is the diagnostic of its place. In a text that has an index for each of its
characters no row is too long for it. -/
theorem report_diagnosed (short : content.length < Source.SourceText.rowBound) (mode : Source.LineBreaks)
    (s : Scanner) (t : Trouble) :
    let r := report mode content s t
    (Source.SourceText.mk content mode 1).diagnostic? r.position t.message =
      some (r.message, ⟨r.row, r.column, r.line⟩) := by
  intro r
  refine Source.SourceText.diagnostic?_eq_some _ _ _ (.inr ?_)
  have inside := Source.SourceText.row_inside ⟨content, mode, 1⟩ r.position
  dsimp only at inside
  have few : (Text.decimal ((Source.SourceText.mk content mode 1).locate r.position).row.natAbs).length ≤ 20 := by
    refine (Text.decimal_length_le_iff (by decide)).mpr ?_
    have small : Source.SourceText.rowBound + 1 < Nat.pow 10 20 := by decide
    omega
  exact Nat.le_trans few (by decide)

theorem Raises.passed {content : Text} {finish : σ → Except (Raised ε) ρ}
    (raises : e.Raises content context finish (.defect d) blame) :
    (e.parse content context finish).outcome = .error (.defect d) := by
  obtain ⟨s, -, parsed⟩ := raises.parse
  exact parsed

theorem stops_iff_raises {content : Text} {finish : σ → Except (Raised ε) ρ} :
    (∃ stopped, (e.parse content context finish).outcome = .error stopped) ↔
      ∃ raised blame, e.Raises content context finish raised blame := by
  constructor
  · rintro ⟨stopped, parsed⟩
    exact raises_of_parse parsed
  · rintro ⟨raised, blame, raises⟩
    obtain ⟨s, -, parsed⟩ := raises.parse
    exact ⟨_, parsed⟩

/-- With line breaks of a known kind, a trouble ends the parse in its report, and a defect in itself. Each
report has its own trouble for a cause, and a location that can be looked up, wherever the place is. -/
theorem parse_reports (e : Engine σ ε) (mode : Source.LineBreaks) (known : e.lineBreaks = mode.name)
    (content : Text) (context : σ) (finish : σ → Except (Raised ε) ρ) :
    (∀ t blame, e.Raises content context finish (.trouble t) blame →
      let position := t.position?.getD (blame : Int)
      let source : Source.SourceText := ⟨content, mode, 1⟩
      ∃ place, source.locate? position = some place ∧ place = Source.locate content position mode ∧
        (e.parse content context finish).outcome = .error (.failure {
          report := {
            message := (source.diagnostic position t.message).1
            description := t.message
            position
            row := place.row
            column := place.column
            line := place.line }
          cause := some t })) ∧
    (∀ d blame, e.Raises content context finish (.defect d) blame →
      (e.parse content context finish).outcome = .error (.defect d)) ∧
    ((∃ stopped, (e.parse content context finish).outcome = .error stopped) ↔
      ∃ raised blame, e.Raises content context finish raised blame) :=
  ⟨fun _ _ raises => raises.reported known, fun _ _ raises => raises.passed, stops_iff_raises⟩

/-- The action of the only rule blames a place before the text. -/
def blaming : Engine Nat Empty where
  alternatives := [Text.ofString "(?P<rule_0>a)"]
  pattern := (Pattern.compile (Text.ofString "(?P<rule_0>a)") {}).toOption.get (by decide +kernel)
  actions := [(groupName 0, fun _ _ offset => .error (.positioned (offset - 3) [0x62]))]
  lineBreaks := Source.LineBreaks.unix.name

/-- The place is in the row above the first, counted from the end of the text. -/
theorem parse_reports_before : blaming.lineBreaks = Source.LineBreaks.unix.name ∧
    (blaming.parse [0x61] 7 .ok : Run Nat Empty Nat).outcome = .error (.failure
      ⟨⟨[0x62, 0x0A, 0x61, 0x0A, 0x5E], [0x62], -3, 0, -4, [0x61]⟩, some (.positioned (-3) [0x62])⟩) := by
  have found : (blaming.pattern.matchAt (.start [0x61])).map (fun m => (m.stop.offset, m.lastGroup)) =
      some (1, some (groupName 0)) := by
    decide +kernel
  obtain ⟨m, matched, spans⟩ := Option.map_eq_some_iff.mp found
  obtain ⟨stop, group⟩ := Prod.mk.inj spans
  obtain ⟨start, split, -, offset⟩ := Pattern.matchAt_forward matched
  have whole : m.stop.after = [] := by
    have length := congrArg List.length split
    rw [List.length_append] at length
    have one : (Cursor.start [0x61]).after.length = 1 := rfl
    have zero : (Cursor.start [0x61]).offset = 0 := rfl
    exact List.eq_nil_of_length_eq_zero (by omega)
  have tiles : blaming.pattern.Tiles (.start [0x61]) ([] ++ [m]) m.stop :=
    .next (by simp [Cursor.start]) matched (by rw [stop]; decide) (.ended (.inl whole))
  have refused : blaming.apply m 7 = .error (.positioned (-3) [0x62]) := by
    simp [apply, actionFor, blaming, group, start, Cursor.start]
  have raises : blaming.Raises [0x61] 7 (.ok : Nat → Except (Raised Empty) Nat) _ _ :=
    .action tiles rfl refused
  obtain ⟨place, -, rfl, parsed⟩ := (parse_reports blaming .unix rfl [0x61] 7 .ok).1 _ _ raises
  refine ⟨rfl, ?_⟩
  rw [parsed]
  rfl

end Engine
end TokenRules
