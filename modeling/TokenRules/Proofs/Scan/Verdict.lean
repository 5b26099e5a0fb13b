import TokenRules.Proofs.Scan.Report

/-! The verdict on a text: its result, or what is raised first and the place to blame for it. It is found by
applying the actions to the tokens in order, without a scanner. A parse gives the verdict, reported. -/
namespace TokenRules.Engine

variable {σ ε ρ : Type} {e : Engine σ ε}

/-- Applies the actions of matches in order. What is raised comes with the start of its match. -/
def carryOut (e : Engine σ ε) (context : σ) : List Match → Except (Raised ε × Nat) σ
  | [] => .ok context
  | m :: rest =>
    match e.apply m context with
    | .ok context => carryOut e context rest
    | .error raised => .error (raised, m.start.offset)

def verdict (e : Engine σ ε) (content : Text) (context : σ) (finish : σ → Except (Raised ε) ρ) :
    Except (Raised ε × Nat) ρ :=
  match e.carryOut context (e.tokens content).1 with
  | .error blamed => .error blamed
  | .ok last =>
    if (e.tokens content).2.cursor.after.isEmpty then (finish last).mapError (·, content.length)
    else .error (.trouble (.blocked (e.tokens content).2.cursor.offset), content.length)

/-- The stop that comes of what is raised, and of the place to blame for it. -/
def stopAt (e : Engine σ ε) (content : Text) (blamed : Raised ε × Nat) : Stop ε :=
  e.stop content { Scanner.start e.pattern content 0 with current := some blamed.2 } blamed.1

theorem stop_eq_stopAt {s : Scanner} (blame : s.current.getD content.length = place)
    (raised : Raised ε) : e.stop content s raised = e.stopAt content (raised, place) := by
  cases raised with
  | defect d => rfl
  | trouble t => simp only [stopAt, stop, report, blame, Option.getD_some]

theorem stopAt_trouble (known : e.lineBreaks = Source.LineBreaks.name mode) (content : Text) (t : Trouble)
    (place : Nat) : ∃ f, e.stopAt content (.trouble t, place) = .failure f ∧ f.cause = some t ∧
      f.report.description = t.message ∧ f.report.position = t.position?.getD place := by
  rw [stopAt, stop, known, Source.LineBreaks.ofName?_name]
  exact ⟨_, rfl, rfl, rfl, rfl⟩

/-- The report of a place by its diagnostic. -/
def reportAt (source : Source.SourceText) (position : Int) (description : Text) : Report :=
  let (message, place) := source.diagnostic position description
  { message, description, position, row := place.row, column := place.column, line := place.line }

theorem stopAt_failure (known : e.lineBreaks = Source.LineBreaks.name mode)
    (stopped : e.stopAt content blamed = .failure f) :
    f.report = reportAt ⟨content, mode, 1⟩ f.report.position f.report.description := by
  obtain ⟨raised, place⟩ := blamed
  cases raised with
  | defect d => contradiction
  | trouble t =>
    rw [stopAt, stop, known, Source.LineBreaks.ofName?_name] at stopped
    obtain rfl := Stop.failure.inj stopped
    rfl

theorem carryOut_ok (applied : e.carryOut context ms = .ok last) : e.applyAll context ms = .ok last := by
  induction ms generalizing context with
  | nil => exact congrArg Except.ok (Except.ok.inj applied)
  | cons m rest ih =>
    simp only [carryOut] at applied
    split at applied
    · next next accepted =>
      simp only [applyAll, accepted]
      exact ih applied
    · contradiction

theorem carryOut_error (failed : e.carryOut context ms = .error (raised, place)) :
    ∃ before m after left, ms = before ++ m :: after ∧ e.applyAll context before = .ok left ∧
      e.apply m left = .error raised ∧ place = m.start.offset := by
  induction ms generalizing context with
  | nil => contradiction
  | cons m rest ih =>
    simp only [carryOut] at failed
    split at failed
    · next next accepted =>
      obtain ⟨before, m', after, left, rfl, applied, refused, same⟩ := ih failed
      refine ⟨m :: before, m', after, left, rfl, ?_, refused, same⟩
      simp only [applyAll, accepted]
      exact applied
    · next raised' refused =>
      obtain ⟨rfl, rfl⟩ := Prod.mk.inj (Except.error.inj failed)
      exact ⟨[], m, rest, context, rfl, rfl, refused, rfl⟩

/-- The tokens stop short of the end of the text exactly if something lies ahead of them. -/
theorem isBlocked_eq (e : Engine σ ε) (content : Text) :
    (e.tokens content).2.isBlocked = !(e.tokens content).2.cursor.after.isEmpty := by
  obtain ⟨tiles, -, -, blocked⟩ := e.tokens_tiles content
  obtain ⟨split, offset⟩ := tiles.texts
  have length : content.length = (e.tokens content).2.cursor.offset +
      (e.tokens content).2.cursor.after.length := by
    have split := congrArg List.length split
    rw [List.length_append] at split
    rw [offset]
    exact split.trans (congrArg (· + _) (Nat.zero_add _).symm)
  rw [length] at blocked
  rw [Bool.eq_iff_iff, blocked]
  cases (e.tokens content).2.cursor.after with
  | nil => simp
  | cons x t => simp

/-- A parse gives the verdict, reported. -/
theorem parse_verdict (e : Engine σ ε) (content : Text) (context : σ)
    (finish : σ → Except (Raised ε) ρ) : (e.parse content context finish).outcome =
      (e.verdict content context finish).mapError (e.stopAt content) := by
  obtain ⟨-, position, idle, -⟩ := e.tokens_tiles content
  rw [verdict]
  cases applied : e.carryOut context (e.tokens content).1 with
  | error blamed =>
    obtain ⟨raised, place⟩ := blamed
    obtain ⟨before, m, after, left, tokens, reached, refused, rfl⟩ := carryOut_error applied
    obtain ⟨s, current, parsed⟩ := parse_raised tokens reached refused finish
    have blame : s.current.getD content.length = m.start.offset := by rw [current, Option.getD_some]
    rw [parsed, stop_eq_stopAt blame]
    rfl
  | ok last =>
    have blame : (e.tokens content).2.current.getD content.length = content.length := by
      rw [idle, Option.getD_none]
    have stopped : e.stop content (e.tokens content).2 = fun raised =>
        e.stopAt content (raised, content.length) := funext (stop_eq_stopAt blame)
    rw [parse_ended (carryOut_ok applied), isBlocked_eq, position, stopped]
    cases (e.tokens content).2.cursor.after with
    | cons x t => rfl
    | nil =>
      simp only [List.isEmpty_nil, Bool.not_true, Bool.false_eq_true, if_false, if_true]
      cases finish last <;> rfl

end TokenRules.Engine
