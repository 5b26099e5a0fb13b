import TokenRules.Proofs.Pattern.Forward
import TokenRules.Proofs.Scan.FirstRule
import TokenRules.Proofs.Scan.Report

/-! Consistency of an engine: every match belongs to a rule, and the rule's action is found for it. The
rules are put together as text, so this takes that each of them closes the groups that it opens, and no
others. -/
namespace TokenRules

namespace RulePattern
open Pattern

variable [CharacterNames]

/-- The alternative of a rule, if it has one, closes the groups that it opens, and no others. -/
def IsEnclosed (rule : RulePattern) : Prop :=
  rule.alternative.toOption.all fun alt => encloses (Token.ofText alt) {} []

instance (rule : RulePattern) : Decidable rule.IsEnclosed :=
  inferInstanceAs (Decidable (_ = true))

theorem isEnclosed_iff {rule : RulePattern} (accepted : rule.alternative = .ok alt) :
    rule.IsEnclosed ↔ encloses (Token.ofText alt) {} [] = true := by
  simp [IsEnclosed, accepted, Except.toOption]

/-- An alternative that compiles by itself is enclosed. -/
theorem isEnclosed_of_compile {rule : RulePattern}
    (compiles : (rule.alternative.toOption.bind fun alt => (Pattern.compile alt {}).toOption).isSome) :
    rule.IsEnclosed := by
  obtain ⟨p, compiled⟩ := Option.isSome_iff_exists.mp compiles
  obtain ⟨alt, accepted, compiled⟩ := Option.bind_eq_some_iff.mp compiled
  obtain ⟨last, read, -⟩ := compile_eq_ok.mp (Engine.toOption_eq_some.mp compiled)
  exact (isEnclosed_iff (Engine.toOption_eq_some.mp accepted)).mpr (reads_parts read).encloses

end RulePattern

namespace Engine
open Pattern

variable {σ ε ρ : Type} {e : Engine σ ε}

theorem contained_of_encloses [CharacterNames]
    (enclosed : encloses (Token.ofText alternative) {} [] = true) (k : Nat) :
    Contained (fun _ _ => True) (groupName k) alternative := by
  have whole := whole_of_encloses enclosed
  refine .of_body (groupName_plain k) whole fun {s more final} between counted h => ?_
  have flags : (entered s (groupName k)).flags = {} := between.flags
  have host : Above (.capture (s.groups.count + 1)) (s.level :: s.outer) []
      (entered s (groupName k)).level (entered s (groupName k)).outer :=
    .host rfl (congrArg Flags.verbose flags)
  obtain ⟨s', outer, opener, gained, counted, h⟩ :=
    read_enclosed (flags ▸ enclosed) host (List.cons_ne_nil _ _) counted h
  exact ⟨s', ⟨outer, opener, gained.toGrown, counted⟩, trivial, h⟩

/-- The group that matches closes last. -/
theorem Grouped.matched (grouped : Grouped holds table k nodes)
    (found : nodes.findSome? (·.run ⟨c, [], none⟩ some) = some s) :
    ∃ i < nodes.length, ∃ index, entryOf? table index = some (groupName (k + i), index) ∧
      s.lastGroup = some index := by
  induction grouped with
  | nil => simp at found
  | @cons k nodes index body _ entry rest ih =>
    rw [List.findSome?_cons] at found
    cases first : (Node.group index body).run ⟨c, [], none⟩ some with
    | some s' =>
      rw [first] at found
      obtain rfl := Option.some.inj found
      obtain ⟨inner, -, left⟩ := body.run_forward _ _ _ first
      exact ⟨0, by simp, index, entry, by rw [← Option.some.inj left]; rfl⟩
    | none =>
      rw [first] at found
      obtain ⟨i, inside, index', entry', last⟩ := ih found
      exact ⟨i + 1, by simpa using inside, index', by rwa [Nat.add_right_comm] at entry', last⟩

/-- What stops a parse as a match without an action has been raised as one. -/
theorem stop_unbound {s : Scanner} {raised : Raised ε}
    (stopped : e.stop content s raised = .defect (.unbound group)) :
    raised = .defect (.unbound group) := by
  cases raised with
  | defect d => exact congrArg _ (Stop.defect.inj stopped)
  | trouble t =>
    simp only [stop] at stopped
    split at stopped <;> simp at stopped

theorem actionFor_of_enclosed [CharacterNames] {rules : List (Rule σ ε)}
    (built : Engine.build rules breaks = .ok e)
    (enclosed : ∀ rule ∈ rules, rule.pattern.IsEnclosed) (matched : e.pattern.matchAt c = some m) :
    ∃ i rule action, rules[i]? = some rule ∧ rule.action = some action ∧
      m.lastGroup = some (groupName i) ∧ e.actionFor m = .ok action := by
  have all : AllContained (fun _ _ _ => True) 0 rules := fun i rule alternative known accepted =>
    contained_of_encloses ((RulePattern.isEnclosed_iff accepted).mp
      (enclosed rule (List.mem_of_getElem? known))) _
  obtain ⟨nodes, grouped, length, run⟩ := build_grouped built all
  obtain ⟨s, ran, rfl⟩ := Option.map_eq_some_iff.mp matched
  rw [run] at ran
  obtain ⟨i, inside, index, entry, last⟩ := grouped.matched ran
  rw [Nat.zero_add] at entry
  obtain ⟨rule, known⟩ : ∃ rule, rules[i]? = some rule :=
    ⟨_, List.getElem?_eq_getElem (length ▸ inside)⟩
  have named : s.lastGroup.bind e.pattern.groupName? = some (groupName i) := by
    rw [last]
    exact congrArg (Option.map _) entry
  obtain ⟨action, given, bound⟩ := actionFor_of_build built known ⟨c, s.cursor, _⟩ named
  exact ⟨i, rule, action, known, given, named, bound⟩

/-- If all matches have actions, only an action or the end of the parse can report that one has none. -/
theorem unbound_raised
    (bound : ∀ c m, e.pattern.matchAt c = some m → ∃ action, e.actionFor m = .ok action)
    {content : Text} {finish : σ → Except (Raised ε) ρ}
    (parsed : (e.parse content context finish).outcome = .error (.defect (.unbound group))) :
    (∃ m ∈ (e.tokens content).1, ∃ action left, e.actionFor m = .ok action ∧
      action m.text left m.start.offset = .error (.defect (.unbound group))) ∨
    ∃ last, finish last = .error (.defect (.unbound group)) := by
  obtain ⟨raised, blame, raises⟩ := raises_of_parse parsed
  obtain ⟨s, -, stopped⟩ := raises.parse
  obtain rfl := stop_unbound (Except.error.inj (stopped.symm.trans parsed))
  cases raises with
  | @action before m after left _ reached tiles applied refused =>
    obtain ⟨tokens, -⟩ := tiles.unique (e.tokens_tiles content).1
    have member : m ∈ before ++ m :: after := by simp
    obtain ⟨c, matched⟩ := tiles.matched member
    obtain ⟨action, found⟩ := bound c m matched
    simp only [apply, found] at refused
    exact .inl ⟨m, tokens ▸ member, action, left, found, refused⟩
  | finish tiles applied whole failed => exact .inr ⟨_, failed⟩

/-- An engine of enclosed rules is consistent. Every match is that of a rule, by the group that closes last,
and has the action of the rule. So no parse stops for the lack of an action, unless one of the actions or
the end of the parse itself reports such a lack. -/
theorem build_consistent [CharacterNames] {rules : List (Rule σ ε)}
    (built : Engine.build rules breaks = .ok e) (enclosed : ∀ rule ∈ rules, rule.pattern.IsEnclosed) :
    (∀ c m, e.pattern.matchAt c = some m → ∃ i rule action, rules[i]? = some rule ∧
      rule.action = some action ∧ m.lastGroup = some (groupName i) ∧ e.actionFor m = .ok action) ∧
    ∀ content context (finish : σ → Except (Raised ε) ρ) group,
      (e.parse content context finish).outcome = .error (.defect (.unbound group)) →
      (∃ m ∈ (e.tokens content).1, ∃ action left, e.actionFor m = .ok action ∧
        action m.text left m.start.offset = .error (.defect (.unbound group))) ∨
      ∃ last, finish last = .error (.defect (.unbound group)) := by
  refine ⟨fun c m => actionFor_of_enclosed built enclosed, fun content context finish group => ?_⟩
  refine unbound_raised fun c m matched => ?_
  obtain ⟨_, _, action, -, -, -, found⟩ := actionFor_of_enclosed built enclosed matched
  exact ⟨action, found⟩

/-- A class that holds parentheses, and a group with a name in a group without one. -/
def nestedGroups : List (Rule Nat Empty) :=
  [⟨.source (Text.ofString "[)(]"), some fun _ n _ => .ok n⟩,
    ⟨.source (Text.ofString "(?x) ((?P<letter>a)|b) # )"), some fun _ n _ => .ok (n + 1)⟩]

theorem build_consistent_nested : ∃ e m, Engine.build nestedGroups (Text.ofString "normal") = .ok e ∧
    e.pattern.matchAt (.start (Text.ofString "a)")) = some m ∧
    (∃ action, e.actionFor m = .ok action ∧ action (Text.ofString "a") 0 0 = .ok 1) ∧
    ∀ group, (e.parse (Text.ofString "a)") 0 .ok : Run Nat Empty Nat).outcome ≠
      .error (.defect (.unbound group)) := by
  have built := eq_ok_of_isSome (Engine.build nestedGroups (Text.ofString "normal")) (by decide +kernel)
  generalize (Engine.build nestedGroups (Text.ofString "normal")).toOption.get _ = e at built
  have compiles : ∀ rule ∈ nestedGroups, (rule.pattern.alternative.toOption.bind fun alt =>
      (Pattern.compile alt {}).toOption).isSome := by
    decide +kernel
  have group : ((Engine.build nestedGroups (Text.ofString "normal")).toOption.bind fun e =>
      (e.pattern.matchAt (.start (Text.ofString "a)"))).map (·.lastGroup)) = some (some (groupName 1)) := by
    decide +kernel
  rw [built] at group
  obtain ⟨m, matched, named⟩ := Option.map_eq_some_iff.mp group
  obtain ⟨bound, unbound⟩ := build_consistent (ρ := Nat) built fun rule member =>
    RulePattern.isEnclosed_of_compile (compiles rule member)
  refine ⟨e, m, built, matched, ?_, fun group stopped => ?_⟩
  · obtain ⟨i, rule, action, known, given, named', found⟩ := bound _ m matched
    obtain rfl := groupName_injective (Option.some.inj (named'.symm.trans named))
    obtain rfl := Option.some.inj known
    obtain rfl := Option.some.inj given
    exact ⟨_, found, rfl⟩
  · rcases unbound _ _ _ _ stopped with ⟨m, member, action, left, found, failed⟩ | ⟨last, failed⟩
    · obtain ⟨c, matched⟩ := (e.tokens_tiles _).1.matched member
      obtain ⟨i, rule, action', known, given, -, found'⟩ := bound c m matched
      obtain rfl := Except.ok.inj (found.symm.trans found')
      match i with
      | 0 | 1 =>
        obtain rfl := Option.some.inj known
        obtain rfl := Option.some.inj given
        contradiction
      | i + 2 => simp [nestedGroups] at known
    · contradiction

/-- The group of this rule is closed by the rule itself. So the group that closes last has no name. -/
example : (Engine.build (ε := Empty) [⟨.source (Text.ofString "a)(b"), some fun _ n _ => .ok (n + 1)⟩]
    (Text.ofString "normal")).toOption.map (fun e =>
      match (e.parse (Text.ofString "ab") 0 .ok : Run Nat Empty Nat).outcome with
      | .error (.defect d) => d.message?
      | _ => none) =
    some (some (Text.ofString "Rule None matched but has no action bound to it.")) := by
  decide +kernel

end Engine
end TokenRules
