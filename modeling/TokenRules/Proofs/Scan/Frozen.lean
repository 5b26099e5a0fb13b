import TokenRules.Proofs.Scan.Alternation
import TokenRules.Proofs.Scan.FailedCall

/-! A definition whose engine is built. No action is awaited then, so the places of earlier patterns are of no
use any more, and no pattern is taken. One call has built the engine, from the rules that are listed ever
after. -/
namespace TokenRules.Definition

variable {σ ε ρ : Type}

theorem on_built {d : Definition σ ε} (free : d.awaiting = false) (built : d.built = some e)
    (pattern : RulePattern) : on pattern d = (.error .tooLate, d) := by
  simp [on, free, built]

theorem ignore_built {d : Definition σ ε} (free : d.awaiting = false) (built : d.built = some e)
    (pattern : RulePattern) : ignore pattern d = (.error .tooLate, d) := by
  rw [ignore, rule, on_built free built]

theorem rules_free {d : Definition σ ε} (free : d.awaiting = false) : rules d = (.ok d.entries, d) := by
  simp [rules, free]

section

variable [CharacterNames]

theorem engine_built {d : Definition σ ε} (built : d.built = some e) : engine d = (.ok e, d) := by
  rw [engine, built]

/-- A parse leaves the definition as a call of the engine does. -/
theorem parse_eq (content : Text) (context : σ) (finish : σ → Except (Raised ε) ρ) (d : Definition σ ε) :
    parse content context finish d =
      ((engine d).1.map (·.parse content context finish), (engine d).2) := by
  rw [parse]
  split
  · next called => rw [called]; rfl
  · next called => rw [called]; rfl

/-- What a call gives back once the engine is built. -/
def Answer.onceBuilt (listed : List (RulePattern × Action σ ε)) (e : Engine σ ε) (places : Nat) :
    Request σ ε → Answer σ ε
  | .on _ | .ignore _ => .failed .tooLate
  | .bind place _ => if place < places then .failed .notAwaited else .absent
  | .rules => .listed listed
  | .engine => .built e

namespace History

/-- The engine is there, with the rules, and no action is awaited. -/
structure Frozen (h : History σ ε) (listed : List (RulePattern × Action σ ε)) (e : Engine σ ε) :
    Prop where
  built : h.definition.built = some e
  free : h.definition.awaiting = false
  entries : h.definition.entries = listed

theorem Frozen.step {h : History σ ε} (frozen : h.Frozen listed e) (request : Request σ ε) :
    h.step request = h := by
  cases request with
  | on pattern => rw [History.step, on_built frozen.free frozen.built]
  | ignore pattern => rw [History.step, ignore_built frozen.free frozen.built]
  | rules => exact h.step_rules
  | engine => rw [History.step, engine_built frozen.built]
  | bind place action => exact h.step_idle place action (.inl frozen.free)

theorem Frozen.answer {h : History σ ε} (frozen : h.Frozen listed e) (request : Request σ ε) :
    h.answer request = .onceBuilt listed e h.declared.length request := by
  cases request with
  | on pattern => rw [History.answer, on_built frozen.free frozen.built]; rfl
  | ignore pattern => rw [History.answer, ignore_built frozen.free frozen.built]; rfl
  | rules => rw [History.answer, rules_free frozen.free, frozen.entries]; rfl
  | engine => rw [History.answer, engine_built frozen.built]; rfl
  | bind place action =>
    rw [History.answer, Answer.onceBuilt]
    by_cases inside : place < h.declared.length
    · rw [if_pos inside, List.getElem?_eq_getElem inside]
      simp [Definition.bind, frozen.free, Answer.ofResult]
    · rw [if_neg inside, List.getElem?_eq_none (Nat.le_of_not_lt inside)]

theorem Frozen.run {h : History σ ε} (frozen : h.Frozen listed e) (requests : List (Request σ ε)) :
    h.run requests = h := by
  induction requests with
  | nil => rfl
  | cons request rest ih =>
    have same : h.run (request :: rest) = (h.step request).run rest := rfl
    rw [same, frozen.step, ih]

theorem Frozen.answers {h : History σ ε} (frozen : h.Frozen listed e) (requests : List (Request σ ε)) :
    h.answers requests = requests.map (.onceBuilt listed e h.declared.length) := by
  induction requests with
  | nil => rfl
  | cons request rest ih =>
    rw [History.answers, frozen.step, frozen.answer, ih, List.map_cons]

/-- The engine is built here: it is not there yet, and comes from the rules that are listed. -/
structure Builds (h : History σ ε) (listed : List (RulePattern × Action σ ε)) (e : Engine σ ε) :
    Prop where
  absent : h.definition.built = none
  rules : h.answer .rules = .listed listed
  compiled : Engine.build (listed.map fun entry => ⟨entry.1, some entry.2⟩)
    h.definition.lineBreaks = .ok e

/-- Only the call of the engine builds one, and only where no action is awaited. -/
theorem step_builds {h : History σ ε} (absent : h.definition.built = none)
    (built : (h.step request).definition.built = some e) :
    request = .engine ∧ ∃ listed, h.Builds listed e ∧ (h.step request).Frozen listed e := by
  cases request with
  | on pattern =>
    rcases h.step_on pattern with same | ⟨-, opened⟩
    · simp [same, absent] at built
    · simp [opened, absent] at built
  | ignore pattern =>
    rcases h.step_ignore pattern with same | ⟨-, passed⟩
    · simp [same, absent] at built
    · simp [passed, absent] at built
  | rules => simp [h.step_rules, absent] at built
  | bind place action =>
    cases awaited : h.definition.awaiting with
    | false => simp [h.step_idle place action (.inl awaited), absent] at built
    | true =>
      cases found : h.declared[place]? with
      | none => simp [h.step_idle place action (.inr found), absent] at built
      | some declaration =>
        cases action with
        | none => simp [step_withheld awaited found, absent] at built
        | some given => simp [step_given awaited found, absent] at built
  | engine =>
    rcases engine_cases h.definition with
      ⟨fault, refused⟩ | ⟨e', there, -⟩ | ⟨-, free, e', compiled, kept⟩
    · simp [History.step, refused, absent] at built
    · simp [absent] at there
    · have opened : h.step .engine = ⟨{ h.definition with built := some e' }, h.declared⟩ := by
        rw [History.step, kept]
      rw [opened] at built ⊢
      obtain rfl := Option.some.inj built
      have listed : h.answer .rules = .listed h.definition.entries := by
        rw [History.answer, rules_free free]
        rfl
      exact ⟨rfl, h.definition.entries, ⟨absent, listed, compiled⟩, ⟨rfl, free, rfl⟩⟩

/-- Where the engine is there, one of the calls has built it, and nothing has changed since. -/
theorem run_builds {h : History σ ε} (absent : h.definition.built = none)
    (built : (h.run requests).definition.built = some e) :
    ∃ earlier later listed, requests = earlier ++ .engine :: later ∧
      (h.run earlier).Builds listed e ∧ (h.run requests).Frozen listed e := by
  induction requests generalizing h with
  | nil => simp [run, absent] at built
  | cons request rest ih =>
    have onward : h.run (request :: rest) = (h.step request).run rest := rfl
    rw [onward] at built ⊢
    cases stepped : (h.step request).definition.built with
    | none =>
      obtain ⟨earlier, later, listed, rfl, builds, frozen⟩ := ih stepped built
      exact ⟨request :: earlier, later, listed, rfl, builds, frozen⟩
    | some e' =>
      obtain ⟨rfl, listed, builds, frozen⟩ := step_builds absent stepped
      rw [frozen.run] at built ⊢
      obtain rfl : e' = e := Option.some.inj (stepped.symm.trans built)
      exact ⟨[], rest, listed, rfl, builds, frozen⟩

/-- A call of the engine that gives it back leaves it there. -/
theorem step_engine_built {h : History σ ε} (given : h.answer .engine = .built e) :
    (h.step .engine).definition.built = some e := by
  rcases engine_cases h.definition with
    ⟨fault, refused⟩ | ⟨e', there, called⟩ | ⟨-, -, e', -, called⟩
  · rw [answer, refused] at given
    contradiction
  · rw [answer, called] at given
    obtain rfl : e' = e := Answer.built.inj given
    rw [step, called]
    exact there
  · rw [answer, called] at given
    obtain rfl : e' = e := Answer.built.inj given
    rw [step, called]

end History

/-- If a call of the engine gives it back, it or an earlier one has built it, from the rules that were listed
there. After that no call changes anything. The same engine is given and the same rules are listed, no pattern is
taken, no action is taken at any place, and each parse is one with this engine. -/
theorem engine_frozen (lineBreaks : Text) (before : List (Request σ ε)) (e : Engine σ ε)
    (built : ((History.start lineBreaks).run before).answer .engine = .built e) :
    let h := (History.start lineBreaks).run (before ++ [.engine])
    ∃ earlier later listed, before ++ [.engine] = earlier ++ .engine :: later ∧
      ((History.start lineBreaks).run earlier).Builds listed e ∧ h.definition.built = some e ∧
      ∀ after, h.run after = h ∧
        h.answers after = after.map (.onceBuilt listed e h.declared.length) ∧
        ∀ content context (finish : σ → Except (Raised ε) ρ),
          parse content context finish (h.run after).definition =
            (.ok (e.parse content context finish), h.definition) := by
  intro h
  have there : h.definition.built = some e := by
    have last : h = ((History.start lineBreaks).run before).step .engine := History.run_append _ _ _
    rw [last]
    exact History.step_engine_built built
  obtain ⟨earlier, later, listed, split, builds, frozen⟩ :=
    History.run_builds (h := History.start lineBreaks) rfl there
  refine ⟨earlier, later, listed, split, builds, there, fun after => ?_⟩
  refine ⟨frozen.run after, frozen.answers after, fun content context finish => ?_⟩
  rw [frozen.run, parse_eq, engine_built there]
  rfl

end

/-- The letter has its action. -/
theorem letter_given : (History.start []).run [letter, .bind 0 (some skip)] =
    ⟨{ (Definition.empty [] : Definition Nat Empty) with entries := [(.source [0x61], skip)] },
      [⟨⟨.source [0x61]⟩, some skip⟩]⟩ := by
  have opened : (History.start []).run [letter, .bind 0 (some skip)] =
      ((History.start []).step letter).step (.bind 0 (some skip)) := rfl
  rw [opened, letter_taken.1]
  rfl

/-- The engine of one letter is built. Its place is of no use then, and no second letter is taken. -/
theorem engine_frozen_letter : ∃ e,
    ((History.start []).run [letter, .bind 0 (some skip)]).answer .engine = .built e ∧
    ((History.start []).run [letter, .bind 0 (some skip), .engine]).answers
        [.bind 0 (some skip), .on (.source [0x62]), .rules, .engine] =
      [.failed .notAwaited, .failed .tooLate, .listed [(.source [0x61], skip)], .built e] := by
  have compiled := Engine.eq_ok_of_isSome
    (Engine.build [⟨.source [0x61], some (skip : Action Nat Empty)⟩] []) (by decide +kernel)
  generalize (Engine.build [⟨.source [0x61], some (skip : Action Nat Empty)⟩] []).toOption.get _ = e
    at compiled
  have built : ((History.start []).run [letter, .bind 0 (some skip)]).answer .engine = .built e := by
    rw [letter_given]
    simp [History.answer, engine, rules, empty, compiled, Answer.ofResult]
  obtain ⟨earlier, later, listed, split, builds, -, ever⟩ := engine_frozen (ρ := Nat) [] _ e built
  have before : earlier = [letter, .bind 0 (some skip)] := by
    rcases earlier with _ | ⟨first, _ | ⟨second, _ | ⟨third, earlier⟩⟩⟩
    · simp [letter] at split
    · simp at split
    · simp only [List.cons_append, List.nil_append, List.cons.injEq] at split
      rw [← split.1, ← split.2.1]
    · simp at split
  rw [before, letter_given] at builds
  obtain rfl : [(.source [0x61], skip)] = listed := Answer.listed.inj builds.rules
  have one : ((History.start []).run [letter, .bind 0 (some skip), .engine]).declared.length = 1 := by
    have last : (History.start []).run [letter, .bind 0 (some skip), .engine] =
        ((History.start []).run [letter, .bind 0 (some skip)]).step .engine := rfl
    obtain ⟨_, kept⟩ := History.step_engine ((History.start []).run [letter, .bind 0 (some skip)])
    rw [last, kept, letter_given]
    rfl
  refine ⟨e, built, (ever _).2.1.trans ?_⟩
  rw [List.cons_append, List.cons_append, List.nil_append, one]
  rfl

end TokenRules.Definition
