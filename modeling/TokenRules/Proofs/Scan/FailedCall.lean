import TokenRules.Proofs.Scan.Declared

/-! Calls on a definition that fail. A call that fails leaves the definition as it was, so the calls after it
are answered as if it had not been made. There is one exception: what is no action, given where one is
awaited, takes the pattern back that awaits it. -/
namespace TokenRules.Definition

variable {σ ε : Type}

/-- What a call gives back. At a place that no pattern has nothing can be called. -/
inductive Answer (σ ε : Type) where
  | done
  | listed (rules : List (RulePattern × Action σ ε))
  | built (engine : Engine σ ε)
  | failed (fault : DefinitionFault)
  | absent

def Answer.ofResult (given : α → Answer σ ε) : Except DefinitionFault α → Answer σ ε
  | .ok a => given a
  | .error fault => .failed fault

section

variable [CharacterNames]

/-- The engine is there, or it cannot be built, or it is built from the rules and kept. -/
theorem engine_cases (d : Definition σ ε) :
    (∃ fault, engine d = (.error fault, d)) ∨
      (∃ e, d.built = some e ∧ engine d = (.ok e, d)) ∨
        d.built = none ∧ d.awaiting = false ∧ ∃ e,
          Engine.build (d.entries.map fun entry => ⟨entry.1, some entry.2⟩) d.lineBreaks = .ok e ∧
          engine d = (.ok e, { d with built := some e }) := by
  unfold engine
  split
  · next there => exact .inr (.inl ⟨_, there, rfl⟩)
  · next absent =>
    rcases rules_cases d with ⟨-, refused⟩ | ⟨free, listed⟩
    · rw [refused]
      exact .inl ⟨_, rfl⟩
    · rw [listed]
      dsimp only
      split
      · exact .inl ⟨_, rfl⟩
      · next compiled => exact .inr (.inr ⟨absent, free, _, compiled, rfl⟩)

namespace History

def answer (h : History σ ε) : Request σ ε → Answer σ ε
  | .on pattern => .ofResult (fun _ => .done) (Definition.on pattern h.definition).1
  | .bind place action =>
    match h.declared[place]? with
    | none => .absent
    | some ⟨pending, _⟩ => .ofResult (fun _ => .done) (Definition.bind pending action h.definition).1
  | .ignore pattern => .ofResult (fun _ => .done) (Definition.ignore pattern h.definition).1
  | .rules => .ofResult .listed (Definition.rules h.definition).1
  | .engine => .ofResult .built (Definition.engine h.definition).1

/-- The answers to calls that are made one after the other, also after those that fail. -/
def answers (h : History σ ε) : List (Request σ ε) → List (Answer σ ε)
  | [] => []
  | request :: rest => h.answer request :: (h.step request).answers rest

theorem answers_append (h : History σ ε) (first second : List (Request σ ε)) :
    h.answers (first ++ second) = h.answers first ++ (h.run first).answers second := by
  induction first generalizing h with
  | nil => rfl
  | cons request first ih => exact congrArg (List.cons _) (ih (h.step request))

theorem run_append (h : History σ ε) (first second : List (Request σ ε)) :
    h.run (first ++ second) = (h.run first).run second :=
  List.foldl_append

/-- A failing call does nothing, or it withholds the action that is awaited. -/
theorem step_failed {h : History σ ε} (failed : h.answer request = .failed fault) :
    h.step request = h ∨ ∃ place, request = .bind place none ∧ fault = .noAction ∧
      h.definition.awaiting = true ∧
      h.step request = ⟨{ h.definition with awaiting := false }, h.declared⟩ := by
  cases request with
  | on pattern =>
    rcases on_cases pattern h.definition with ⟨fault', refused⟩ | ⟨-, taken⟩
    · exact .inl (by rw [step, refused])
    · rw [answer, taken] at failed
      contradiction
  | ignore pattern =>
    rcases ignore_cases pattern h.definition with ⟨fault', refused⟩ | ⟨-, taken⟩
    · exact .inl (by rw [step, refused])
    · rw [answer, taken] at failed
      contradiction
  | rules => exact .inl h.step_rules
  | engine =>
    rcases engine_cases h.definition with ⟨fault', refused⟩ | ⟨e, -, there⟩ | ⟨-, -, e, -, built⟩
    · exact .inl (by rw [step, refused])
    · exact .inl (by rw [step, there])
    · rw [answer, built] at failed
      contradiction
  | bind place action =>
    cases found : h.declared[place]? with
    | none => exact .inl (h.step_idle place action (.inr found))
    | some declaration =>
      simp only [answer, found] at failed
      rcases bind_cases declaration.pending action h.definition with
        ⟨idle, -⟩ | ⟨awaited, rfl, withheld⟩ | ⟨given, -, -, bound⟩
      · exact .inl (h.step_idle place action (.inl idle))
      · rw [withheld] at failed
        obtain rfl : DefinitionFault.noAction = fault := Answer.failed.inj failed
        exact .inr ⟨place, rfl, rfl, awaited, step_withheld awaited found⟩
      · rw [bound] at failed
        contradiction

/-- While an action is awaited, a call leaves the definition alone, unless it is at the place of a
pattern. -/
theorem step_awaiting {h : History σ ε} (awaited : h.definition.awaiting = true)
    (stays : (h.step request).definition.awaiting = true) : h.step request = h := by
  cases request with
  | on pattern =>
    rcases h.step_on pattern with same | ⟨free, -⟩
    · exact same
    · simp [awaited] at free
  | ignore pattern =>
    rcases h.step_ignore pattern with same | ⟨free, -⟩
    · exact same
    · simp [awaited] at free
  | rules => exact h.step_rules
  | engine =>
    rcases engine_cases h.definition with ⟨fault', refused⟩ | ⟨e, -, there⟩ | ⟨-, free, -⟩
    · rw [step, refused]
    · rw [step, there]
    · simp [awaited] at free
  | bind place action =>
    cases found : h.declared[place]? with
    | none => exact h.step_idle place action (.inr found)
    | some declaration =>
      cases action with
      | none => simp [step_withheld awaited found] at stays
      | some given => simp [step_given_free awaited found] at stays

/-- If no action is awaited, only the next pattern makes one awaited. -/
theorem step_opens {h : History σ ε} (free : h.definition.awaiting = false)
    (opens : (h.step request).definition.awaiting = true) : ∃ pattern, request = .on pattern ∧
      h.answer request = .done ∧
      (h.step request).definition = { h.definition with awaiting := true } := by
  cases request with
  | on pattern =>
    rcases on_cases pattern h.definition with ⟨fault, refused⟩ | ⟨-, taken⟩
    · simp [step, refused, free] at opens
    · exact ⟨pattern, rfl, by rw [answer, taken]; rfl, by rw [step, taken]⟩
  | ignore pattern =>
    rcases h.step_ignore pattern with same | ⟨-, passed⟩
    · simp [same, free] at opens
    · simp [passed, free] at opens
  | rules => simp [h.step_rules, free] at opens
  | engine =>
    obtain ⟨built, same⟩ := h.step_engine
    simp [same, free] at opens
  | bind place action => simp [h.step_idle place action (.inl free), free] at opens

/-- Where an action is awaited, either it has been all along, or a pattern was taken for it, and the
definition is as it was before that but for the awaiting. -/
theorem opened_of_awaiting {h : History σ ε} (awaited : (h.run requests).definition.awaiting = true) :
    h.run requests = h ∨ ∃ earlier pattern later, requests = earlier ++ .on pattern :: later ∧
      (h.run earlier).answer (.on pattern) = .done ∧
      { (h.run requests).definition with awaiting := false } = (h.run earlier).definition := by
  induction requests generalizing h with
  | nil => exact .inl rfl
  | cons request rest ih =>
    rcases ih (h := h.step request) awaited with same | ⟨earlier, pattern, later, rfl, taken, same⟩
    · have same : h.run (request :: rest) = h.step request := same
      rw [same] at awaited ⊢
      cases before : h.definition.awaiting with
      | true => exact .inl (step_awaiting before awaited)
      | false =>
        obtain ⟨pattern, rfl, taken, opened⟩ := step_opens before awaited
        refine .inr ⟨[], pattern, rest, rfl, taken, ?_⟩
        rw [opened, ← before]
        rfl
    · exact .inr ⟨request :: earlier, pattern, later, rfl, taken, same⟩

end History

/-- A failing call leaves everything as it was: the calls after it are answered as if it had not been made,
and lead to the same. Only what is no action, given where one is awaited, leaves the definition as it was
before the pattern was given that awaits it. -/
theorem failed_call (lineBreaks : Text) (before : List (Request σ ε)) (request : Request σ ε)
    (fault : DefinitionFault)
    (failed : ((History.start lineBreaks).run before).answer request = .failed fault) :
    (∀ after, (History.start lineBreaks).answers (before ++ request :: after) =
          (History.start lineBreaks).answers before ++
            .failed fault :: ((History.start lineBreaks).run before).answers after ∧
        (History.start lineBreaks).answers (before ++ after) =
          (History.start lineBreaks).answers before ++
            ((History.start lineBreaks).run before).answers after ∧
        (History.start lineBreaks).run (before ++ request :: after) =
          (History.start lineBreaks).run (before ++ after)) ∨
      (∃ place, request = .bind place none) ∧ fault = .noAction ∧
        ∃ earlier pattern later, before = earlier ++ .on pattern :: later ∧
          ((History.start lineBreaks).run earlier).answer (.on pattern) = .done ∧
          ((History.start lineBreaks).run (before ++ [request])).definition =
            ((History.start lineBreaks).run earlier).definition := by
  rcases History.step_failed failed with same | ⟨place, rfl, rfl, awaited, withheld⟩
  · refine .inl fun after => ⟨?_, History.answers_append _ _ _, ?_⟩
    · rw [History.answers_append, History.answers, failed, same]
    · rw [History.run_append, History.run_append]
      exact congrArg (History.run · after) same
  · rcases History.opened_of_awaiting awaited with nothing | ⟨earlier, pattern, later, rfl, taken, same⟩
    · rw [nothing] at awaited
      contradiction
    refine .inr ⟨⟨place, rfl⟩, rfl, earlier, pattern, later, rfl, taken, ?_⟩
    rw [History.run_append, ← same]
    exact congrArg History.definition withheld

end

/-- One letter, as a pattern that awaits its action. -/
def letter : Request Nat Empty := .on (.source [0x61])

theorem letter_taken : (History.start []).step letter =
    ⟨{ (Definition.empty [] : Definition Nat Empty) with awaiting := true }, [⟨⟨.source [0x61]⟩, none⟩]⟩ ∧
    (History.start []).answer letter = .done := by
  have source : (RulePattern.source [0x61]).alternative = .ok [0x61] := by cbv
  constructor
  · simp [letter, History.step, History.start, empty, on, source]
  · simp [letter, History.answer, History.start, empty, on, source, Answer.ofResult]

/-- A second pattern comes too soon, and the first still gets its action. What is no action takes the first
pattern back. -/
theorem failed_call_letter :
    (History.start []).answers [letter, .on (.source [0x62]), .bind 0 (some skip), .rules] =
      [.done, .failed .previousForgotten, .done, .listed [(.source [0x61], skip)]] ∧
    ((History.start []).run [letter, .bind 0 none]).definition = .empty [] := by
  obtain ⟨taken, done⟩ := letter_taken
  have opened : (History.start []).run [letter] = _ := taken
  constructor
  · have failed : ((History.start []).run [letter]).answer (.on (.source [0x62])) =
        .failed .previousForgotten := by
      rw [opened]
      rfl
    rcases failed_call [] [letter] _ _ failed with same | ⟨⟨place, bound⟩, -⟩
    · refine (same [.bind 0 (some skip), .rules]).1.trans ?_
      have first : (History.start []).answers [letter] = [.done] := congrArg (fun answer => [answer]) done
      rw [opened, first]
      rfl
    · contradiction
  · have failed : ((History.start []).run [letter]).answer (.bind 0 none) = .failed .noAction := by
      rw [opened]
      rfl
    rcases failed_call [] [letter] _ _ failed with same | ⟨-, -, earlier, pattern, later, split, -, back⟩
    · have stays := congrArg (·.definition.awaiting) (same []).2.2
      rw [List.append_nil, History.run_append, opened] at stays
      contradiction
    · obtain ⟨rfl, -⟩ : earlier = [] ∧ True := by
        cases earlier with
        | nil => exact ⟨rfl, trivial⟩
        | cons _ earlier => simp at split
      exact back

end TokenRules.Definition
