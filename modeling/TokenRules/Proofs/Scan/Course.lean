import TokenRules.Proofs.Scan.Tiling

/-! The course of a parse: the left fold of the actions over the tiling of the text. Each token's action
is called once, with the context that the one before returned, until one raises; then the parse is
blocked, or its end is called. The calls are observed by an engine whose actions write them down. -/
namespace TokenRules.Engine

variable {σ ε ρ : Type} {e : Engine σ ε}

/-- What the actions raise is raised by the action of one match, after those before it succeeded. -/
theorem applyAll_error (failed : e.applyAll context ms = .error raised) :
    ∃ before m after left, ms = before ++ m :: after ∧ e.applyAll context before = .ok left ∧
      e.apply m left = .error raised := by
  induction ms generalizing context with
  | nil => simp [applyAll] at failed
  | cons m rest ih =>
    simp only [applyAll] at failed
    split at failed
    · next next accepted =>
      obtain ⟨before, m', after, left, rfl, applied, refused⟩ := ih failed
      refine ⟨m :: before, m', after, left, rfl, ?_, refused⟩
      simp only [applyAll, accepted]
      exact applied
    · next raised' refused =>
      obtain rfl := Except.error.inj failed
      exact ⟨[], m, rest, context, rfl, rfl, refused⟩

theorem scan_ended {s : Scanner} (ended : s.advance = (none, s')) :
    e.scan s context = (s', context, none) := by
  rw [scan]
  split
  · next found => rw [(Prod.mk.inj (found.symm.trans ended)).2]
  · next found => simp [ended] at found

theorem scan_moved {s : Scanner} (moved : s.advance = (some m, s')) :
    e.scan s context = match e.apply m context with
      | .ok context => e.scan s' context
      | .error raised => (s', context, some raised) := by
  rw [scan]
  split
  · next found => simp [moved] at found
  · next found =>
    obtain ⟨same, rfl⟩ := Prod.mk.inj (found.symm.trans moved)
    cases Option.some.inj same
    rfl

/-- A scan stops at the match whose action raises, and leaves the context as it was before. -/
theorem scan_raised {s : Scanner} (tokens : s.tokens.1 = before ++ m :: after)
    (applied : e.applyAll context before = .ok left) (refused : e.apply m left = .error raised) :
    ∃ s', e.scan s context = (s', left, some raised) ∧ s'.current = some m.start.offset := by
  induction before generalizing s context with
  | nil =>
    obtain rfl := Except.ok.inj applied
    cases step : s.advance with
    | mk found s' =>
      cases found with
      | none => simp [Scanner.tokens_none step] at tokens
      | some m' =>
        rw [Scanner.tokens_some step] at tokens
        obtain ⟨rfl, -⟩ := List.cons.inj tokens
        refine ⟨s', by rw [scan_moved step, refused], ?_⟩
        simp only [Scanner.advance] at step
        split at step
        · obtain ⟨same, rfl⟩ := Prod.mk.inj step
          rw [Option.some.inj same]
        · simp at step
  | cons m' before ih =>
    cases step : s.advance with
    | mk found s' =>
      cases found with
      | none => simp [Scanner.tokens_none step] at tokens
      | some m'' =>
        rw [Scanner.tokens_some step] at tokens
        obtain ⟨rfl, rest⟩ := List.cons.inj tokens
        have moved : e.scan s context = _ := scan_moved step
        simp only [applyAll] at applied
        cases accepted : e.apply m'' context with
        | error raised' => simp [accepted] at applied
        | ok next =>
          simp only [accepted] at applied moved
          rw [moved]
          exact ih rest applied

/-- A parse in which the action of a match raises. -/
theorem parse_raised {content : Text} (tokens : (e.tokens content).1 = before ++ m :: after)
    (applied : e.applyAll context before = .ok left) (refused : e.apply m left = .error raised)
    (finish : σ → Except (Raised ε) ρ) :
    ∃ s, s.current = some m.start.offset ∧
      e.parse content context finish = ⟨left, .error (e.stop content s raised)⟩ := by
  obtain ⟨s, scanned, current⟩ := scan_raised tokens applied refused
  exact ⟨s, current, by rw [parse, scanned]; rfl⟩

/-- A parse in which all actions succeed. -/
theorem parse_ended {content : Text} (applied : e.applyAll context (e.tokens content).1 = .ok last)
    (finish : σ → Except (Raised ε) ρ) :
    e.parse content context finish = ⟨last,
      (if (e.tokens content).2.isBlocked then .error (.trouble (.blocked (e.tokens content).2.position))
        else finish last).mapError (e.stop content (e.tokens content).2)⟩ := by
  rw [parse, scan_ok applied]
  rfl

/-- The engine's tokens are the tiling of the text. -/
theorem tokens_tiles (e : Engine σ ε) (content : Text) :
    e.pattern.Tiles (.start content) (e.tokens content).1 (e.tokens content).2.cursor ∧
      (e.tokens content).2.position = (e.tokens content).2.cursor.offset ∧
      (e.tokens content).2.current = none ∧
      ((e.tokens content).2.isBlocked = true ↔
        (e.tokens content).2.cursor.offset < content.length) := by
  obtain ⟨tiles, placed, idle, size⟩ := (Scanner.placed_start e.pattern content).tokens
  have blocked := placed.isBlocked_iff idle
  rw [size] at blocked
  exact ⟨tiles, placed.position, idle, blocked⟩

/-- A call that a parse makes: of the action of a token, or of its end. -/
inductive Call (σ : Type) where
  | action (group : Option Text) (text : Text) (context : σ) (offset : Nat)
  | finish (context : σ)

/-- The calls made so far, and the context that they led to, or what the last of them raised. -/
structure Course (σ ε : Type) where
  calls : List (Call σ)
  result : Except (Raised ε) σ

/-- Calls the action of one more match with the context so far. Once something has been raised, nothing
more is called. -/
def follow (e : Engine σ ε) (course : Course σ ε) (m : Match) : Course σ ε :=
  match course.result, e.actionFor m with
  | .error _, _ => course
  | .ok _, .error raised => { course with result := .error raised }
  | .ok context, .ok action =>
    { calls := course.calls ++ [.action m.lastGroup m.text context m.start.offset]
      result := action m.text context m.start.offset }

/-- The actions of matches, folded over a context. -/
def course (e : Engine σ ε) (context : σ) (ms : List Match) : Course σ ε :=
  ms.foldl e.follow ⟨[], .ok context⟩

theorem foldl_follow_error (e : Engine σ ε) (calls : List (Call σ)) (raised : Raised ε)
    (ms : List Match) : ms.foldl e.follow ⟨calls, .error raised⟩ = ⟨calls, .error raised⟩ := by
  induction ms with
  | nil => rfl
  | cons m rest ih => exact ih

/-- An action that writes its calls down. What it raises takes the log along. -/
def logAction (group : Text) (action : Action σ ε) :
    Action (σ × List (Call σ)) (Raised ε × List (Call σ)) := fun text (context, log) offset =>
  let log := log ++ [.action (some group) text context offset]
  match action text context offset with
  | .ok context => .ok (context, log)
  | .error raised => .error (.foreign (raised, log))

/-- The end of a parse, with its call written down. -/
def logFinish (finish : σ → Except (Raised ε) ρ) :
    σ × List (Call σ) → Except (Raised (Raised ε × List (Call σ))) (ρ × List (Call σ)) :=
  fun (context, log) =>
    let log := log ++ [.finish context]
    match finish context with
    | .ok result => .ok (result, log)
    | .error raised => .error (.foreign (raised, log))

/-- The engine under observation. -/
def logged (e : Engine σ ε) : Engine (σ × List (Call σ)) (Raised ε × List (Call σ)) where
  alternatives := e.alternatives
  pattern := e.pattern
  actions := e.actions.map fun entry => (entry.1, logAction entry.1 entry.2)
  lineBreaks := e.lineBreaks

/-- The calls of a parse under observation: with its result, with what was raised, or else as the last
call left them. -/
def callsOf (run : Run (σ × List (Call σ)) (Raised ε × List (Call σ)) (ρ × List (Call σ))) :
    List (Call σ) :=
  match run.outcome with
  | .ok (_, log) => log
  | .error (.defect (.foreign (_, log))) => log
  | .error _ => run.context.2

theorem logged_lookup (e : Engine σ ε) (group : Text) :
    e.logged.actions.lookup group = (e.actions.lookup group).map (logAction group) := by
  simp only [logged]
  induction e.actions with
  | nil => rfl
  | cons entry rest ih =>
    obtain ⟨name, action⟩ := entry
    simp only [List.map_cons, List.lookup_cons]
    split
    · next same =>
      rw [beq_iff_eq.mp same]
      rfl
    · exact ih

/-- A match that no action belongs to has none under observation either. -/
theorem logged_actionFor (e : Engine σ ε) (m : Match) :
    (∃ group action, m.lastGroup = some group ∧ e.actionFor m = .ok action ∧
      e.logged.actionFor m = .ok (logAction group action)) ∨
    (e.actionFor m = .error (.defect (.unbound m.lastGroup)) ∧
      e.logged.actionFor m = .error (.defect (.unbound m.lastGroup))) := by
  cases group : m.lastGroup with
  | none => exact .inr ⟨by simp [actionFor, group], by simp [actionFor, group]⟩
  | some name =>
    have bound := logged_lookup e name
    cases found : e.actions.lookup name with
    | none => exact .inr ⟨by simp [actionFor, group, found], by simp [actionFor, group, bound, found]⟩
    | some action =>
      exact .inl ⟨name, action, rfl, by simp [actionFor, group, found],
        by simp [actionFor, group, bound, found]⟩

/-- A successful action adds one call to the log, as it does to the course. -/
theorem logged_accepts (accepted : e.apply m context = .ok next) (calls : List (Call σ)) :
    ∃ log, e.follow ⟨calls, .ok context⟩ m = ⟨log, .ok next⟩ ∧
      e.logged.apply m (context, calls) = .ok (next, log) := by
  rcases e.logged_actionFor m with ⟨group, action, named, bound, bound'⟩ | ⟨unbound, -⟩
  · simp only [apply, bound] at accepted
    refine ⟨calls ++ [.action m.lastGroup m.text context m.start.offset], ?_, ?_⟩
    · simp only [follow, bound, accepted]
    · simp only [apply, bound', logAction, accepted, named]
  · simp [apply, unbound] at accepted

/-- What an action raises takes its log along; only a missing action adds no call. -/
theorem logged_refuses (refused : e.apply m context = .error raised) (calls : List (Call σ)) :
    ∃ log why, e.follow ⟨calls, .ok context⟩ m = ⟨log, .error raised⟩ ∧
      e.logged.apply m (context, calls) = .error why ∧
      (why = .foreign (raised, log) ∨ why = .defect (.unbound m.lastGroup) ∧ log = calls) := by
  rcases e.logged_actionFor m with ⟨group, action, named, bound, bound'⟩ | ⟨unbound, unbound'⟩
  · simp only [apply, bound] at refused
    refine ⟨calls ++ [.action m.lastGroup m.text context m.start.offset], _, ?_, ?_, .inl rfl⟩
    · simp only [follow, bound, refused]
    · simp only [apply, bound', logAction, refused, named]
  · simp only [apply, unbound, Except.error.injEq] at refused
    refine ⟨calls, .defect (.unbound m.lastGroup), ?_, ?_, .inr ⟨rfl, rfl⟩⟩
    · simp only [follow, unbound, refused]
    · simp only [apply, unbound']

theorem logged_applyAll (applied : e.applyAll context ms = .ok last) (calls : List (Call σ)) :
    ∃ log, ms.foldl e.follow ⟨calls, .ok context⟩ = ⟨log, .ok last⟩ ∧
      e.logged.applyAll (context, calls) ms = .ok (last, log) := by
  induction ms generalizing context calls with
  | nil =>
    obtain rfl := Except.ok.inj applied
    exact ⟨calls, rfl, rfl⟩
  | cons m rest ih =>
    simp only [applyAll] at applied
    split at applied
    · next next accepted =>
      obtain ⟨log, followed, observed⟩ := logged_accepts accepted calls
      obtain ⟨log', followed', observed'⟩ := ih applied log
      refine ⟨log', ?_, ?_⟩
      · rw [List.foldl_cons, followed, followed']
      · simp only [applyAll, observed, observed']
    · contradiction

/-- The calls of a parse in which the action of a match raises are those of the course up to there. -/
theorem log_raised {content : Text} (tokens : (e.tokens content).1 = before ++ m :: after)
    (applied : e.applyAll context before = .ok left) (refused : e.apply m left = .error raised)
    (finish : σ → Except (Raised ε) ρ) :
    e.course context (e.tokens content).1 =
      ⟨callsOf (e.logged.parse content (context, []) (logFinish finish)), .error raised⟩ := by
  obtain ⟨calls, followed, observed⟩ := logged_applyAll applied []
  obtain ⟨log, why, followed', refused', reason⟩ := logged_refuses refused calls
  obtain ⟨s, -, parsed⟩ := parse_raised (e := e.logged) tokens observed refused' (logFinish finish)
  rw [course, tokens, List.foldl_append, followed, List.foldl_cons, followed', foldl_follow_error, parsed]
  rcases reason with rfl | ⟨rfl, rfl⟩
  · rfl
  · rfl

/-- The calls of a parse in which all actions succeed: those of the course, and its end if the tokens
reach the end of the text. -/
theorem log_ended {content : Text} (applied : e.applyAll context (e.tokens content).1 = .ok last)
    (finish : σ → Except (Raised ε) ρ) : ∃ calls,
    e.course context (e.tokens content).1 = ⟨calls, .ok last⟩ ∧
      callsOf (e.logged.parse content (context, []) (logFinish finish)) =
        if (e.tokens content).2.isBlocked then calls else calls ++ [.finish last] := by
  obtain ⟨calls, followed, observed⟩ := logged_applyAll applied []
  refine ⟨calls, followed, ?_⟩
  rw [parse_ended (e := e.logged) observed]
  change callsOf ⟨_, Except.mapError _ (if (e.tokens content).2.isBlocked then _ else _)⟩ = _
  split
  · simp only [callsOf, mapError_error, stop]
    cases Source.LineBreaks.ofName? e.logged.lineBreaks <;> rfl
  · simp only [logFinish]
    cases finish last <;> rfl

/-- A parse is the left fold of the actions over the one tiling of the text. If nothing is raised on the
way, it is blocked where the tiling stops short of the end of the text, or else calls its end. -/
theorem parse_follows_tiling (e : Engine σ ε) (content : Text) (context : σ)
    (finish : σ → Except (Raised ε) ρ) : ∃ ms stop,
    (∀ ms' stop', e.pattern.Tiles (.start content) ms' stop' ↔ ms' = ms ∧ stop' = stop) ∧
    ms.flatMap Match.text = content.take stop.offset ∧ stop.offset ≤ content.length ∧
    ms.length ≤ content.length ∧
    let course := e.course context ms
    let outcome := (e.parse content context finish).outcome
    let log := callsOf (e.logged.parse content (context, []) (logFinish finish))
    match course.result with
    | .error raised =>
      log = course.calls ∧ ∃ s, outcome = .error (e.stop content s raised)
    | .ok last =>
      if stop.offset < content.length then
        log = course.calls ∧
          ∃ s, outcome = .error (e.stop content s (.trouble (.blocked stop.offset)))
      else
        log = course.calls ++ [.finish last] ∧
          ∃ s, outcome = (finish last).mapError (e.stop content s) := by
  obtain ⟨tiles, position, -, blocked⟩ := e.tokens_tiles content
  obtain ⟨texts, within, bound⟩ := tiles.whole
  refine ⟨_, _, fun ms' stop' => ⟨fun others => tiles.unique others, ?_⟩, texts, within, bound, ?_⟩
  · rintro ⟨rfl, rfl⟩
    exact tiles
  · cases applied : e.applyAll context (e.tokens content).1 with
    | error raised =>
      obtain ⟨before, m, after, left, tokens, applied, refused⟩ := applyAll_error applied
      obtain ⟨s, -, parsed⟩ := parse_raised tokens applied refused finish
      simp only [log_raised tokens applied refused finish, parsed]
      exact ⟨trivial, s, rfl⟩
    | ok last =>
      obtain ⟨calls, followed, logged⟩ := log_ended applied finish
      simp only [followed, logged, parse_ended applied finish, ← blocked]
      split
      · exact ⟨rfl, _, by rw [position]; rfl⟩
      · exact ⟨rfl, _, rfl⟩

end TokenRules.Engine
