import TokenRules.Proofs.Scan.Buildable
import TokenRules.Proofs.Scan.FirstRule

/-! Which lists of rules an engine refuses. A reference by number is always refused, and so is what only looks
like one, in brackets or in a comment. Flags that are not taken off the start of a pattern make the
alternation unreadable. Nothing else is refused of rules whose patterns compile by themselves, unless a
condition goes by the number of a group in a look-behind, where the groups of other rules count as well. -/
namespace TokenRules.Engine

open Pattern

section

variable [CharacterNames]

/-- Rules that compile are refused for a reference by number, or because the alternation cannot be read. -/
theorem build_fault {rules : List (Rule σ ε)} (nonempty : rules ≠ [])
    (acts : ∀ rule ∈ rules, rule.action.isSome)
    (compile : ∀ rule ∈ rules, ∃ f p, rule.pattern.Compiles f p) (breaks : Text) :
    (Engine.build rules breaks = .error .numberedReference ↔
        ∃ rule ∈ rules, RulePattern.hasNumberedReference rule.pattern.given) ∧
      ∀ fault, Engine.build rules breaks = .error fault →
        fault = .numberedReference ∨ ∃ cause, fault = .badPattern cause := by
  rcases entries_verdict acts compile 0 with ⟨numbered, refused⟩ | ⟨none, found, accepted⟩
  · have failed : Engine.build rules breaks = .error .numberedReference := by rw [Engine.build, refused]
    refine ⟨⟨fun _ => numbered, fun _ => failed⟩, fun fault built => .inl ?_⟩
    exact (Except.error.inj (failed.symm.trans built)).symm
  · have unread : ∀ fault, Engine.build rules breaks = .error fault → ∃ cause, fault = .badPattern cause := by
      intro fault built
      obtain ⟨rule, rules, rfl⟩ := List.exists_cons_of_ne_nil nonempty
      obtain ⟨_, _, _, -, -, -, rfl⟩ := entries_cons accepted
      simp only [Engine.build, accepted] at built
      split at built
      · exact ⟨_, (Except.error.inj built).symm⟩
      · contradiction
    refine ⟨⟨fun built => ?_, ?_⟩, fun fault built => .inr (unread fault built)⟩
    · obtain ⟨cause, same⟩ := unread _ built
      contradiction
    · rintro ⟨rule, member, numbered⟩
      simp [none rule member] at numbered

/-- An engine is refused for a reference by number just if a rule has one, or has in brackets or in a comment
what would be one elsewhere. Of other rules one is built just if none sets flags late, as far as no condition
counts groups in a look-behind. -/
theorem build_verdict {rules : List (Rule σ ε)} (nonempty : rules ≠ []) (given : Nat → Flags)
    (own : Nat → Pattern) (acts : ∀ rule ∈ rules, rule.action.isSome)
    (compiles : ∀ i (rule : Rule σ ε), rules[i]? = some rule → rule.pattern.Compiles (given i) (own i))
    (apart : NamesApart own 0 rules.length) (breaks : Text) :
    (Engine.build rules breaks = .error .numberedReference ↔ ∃ i, ∃ rule : Rule σ ε, rules[i]? = some rule ∧
        (rule.pattern.RefersByNumber (given i) ∨ rule.pattern.HidesReference (given i))) ∧
      (∀ fault, Engine.build rules breaks = .error fault →
        fault = .numberedReference ∨ ∃ cause, fault = .badPattern cause) ∧
      ((∀ i (rule : Rule σ ε), rules[i]? = some rule → ¬ rule.pattern.CountsBehind (given i)) →
        ((∃ e, Engine.build rules breaks = .ok e) ↔ ∀ i (rule : Rule σ ε), rules[i]? = some rule →
          ¬ rule.pattern.RefersByNumber (given i) ∧ ¬ rule.pattern.HidesReference (given i) ∧
            ¬ rule.pattern.SetsFlagsLate (given i))) := by
  have compile : ∀ rule ∈ rules, ∃ f p, rule.pattern.Compiles f p := by
    intro rule member
    obtain ⟨i, known⟩ := List.mem_iff_getElem?.mp member
    exact ⟨_, _, compiles i rule known⟩
  obtain ⟨numbered, faults⟩ := build_fault nonempty acts compile breaks
  refine ⟨?_, faults, fun ahead => ?_⟩
  · rw [numbered]
    constructor
    · rintro ⟨rule, member, refers⟩
      obtain ⟨i, known⟩ := List.mem_iff_getElem?.mp member
      exact ⟨i, rule, known, (compiles i rule known).numbered_iff.mp refers⟩
    · rintro ⟨i, rule, known, refers⟩
      exact ⟨rule, List.mem_of_getElem? known, (compiles i rule known).numbered_iff.mpr refers⟩
  · have distinct : (namesFrom own 0 rules.length).Nodup := by
      refine apart.nodup fun i _ inside => ?_
      rw [Nat.zero_add] at inside
      exact names_nodup (compiles i _ (List.getElem?_eq_getElem inside))
    have all : AllCompile given own 0 rules := by
      intro i rule known
      rw [Nat.zero_add]
      exact ⟨compiles i rule known, ahead i rule known⟩
    rw [build_ok_iff nonempty acts all distinct]
    constructor
    · rintro ⟨unnumbered, early⟩ i rule known
      have neither := (not_congr (compiles i rule known).numbered_iff).mp (by
        simp [unnumbered rule (List.mem_of_getElem? known)])
      exact ⟨fun refers => neither (.inl refers), fun hides => neither (.inr hides), early i rule known⟩
    · intro accepted
      refine ⟨fun rule member => ?_, fun i rule known => (accepted i rule known).2.2⟩
      obtain ⟨i, known⟩ := List.mem_iff_getElem?.mp member
      obtain ⟨unreferred, exposed, -⟩ := accepted i rule known
      refine eq_false_of_ne_true fun refers => ?_
      exact ((compiles i rule known).numbered_iff.mp refers).elim unreferred exposed

end

/-- A letter and the same letter again, with flags in front of them. -/
def flagged : Pattern :=
  (Pattern.compile (Text.ofString "(?i)(?P<q>[ab])(?P=q)") {}).toOption.get (by decide +kernel)

def flaggedOrFolded : List (Rule Nat Empty) :=
  [⟨.source (Text.ofString "(?i)(?P<q>[ab])(?P=q)"), some fun _ n _ => .ok n⟩,
    ⟨.compiled folded, some fun _ n _ => .ok (n + 1)⟩]

theorem flaggedOrFolded_compiles {i : Nat} {rule : Rule Nat Empty} (known : flaggedOrFolded[i]? = some rule) :
    rule.pattern.Compiles (if i = 0 then {} else { ignoreCase := true }) (if i = 0 then flagged else folded) ∧
      ¬ rule.pattern.CountsBehind (if i = 0 then {} else { ignoreCase := true }) := by
  match i with
  | 0 =>
    obtain rfl := Option.some.inj known
    exact ⟨.source (eq_ok_of_isSome _ _), by decide +kernel⟩
  | 1 =>
    obtain rfl := Option.some.inj known
    have source : folded.source = Text.ofString "B|c" := by decide +kernel
    refine ⟨.compiled ?_, by decide +kernel⟩
    rw [source]
    exact eq_ok_of_isSome _ _
  | i + 2 => simp [flaggedOrFolded] at known

theorem build_verdict_flagged :
    (∃ e, Engine.build flaggedOrFolded (Text.ofString "normal") = .ok e) ∧
      ∀ i (rule : Rule Nat Empty), flaggedOrFolded[i]? = some rule →
        ¬ rule.pattern.RefersByNumber (if i = 0 then {} else { ignoreCase := true }) ∧
          ¬ rule.pattern.SetsFlagsLate (if i = 0 then {} else { ignoreCase := true }) := by
  have names : flagged.names.map (·.1) = [Text.ofString "q"] ∧ folded.names = [] := by decide +kernel
  have apart : NamesApart (fun i => if i = 0 then flagged else folded) 0 flaggedOrFolded.length := by
    refine ⟨fun i j _ before _ => ?_, fun i _ _ index => ?_⟩
    · have later : j ≠ 0 := by omega
      simp [later, names.2]
    · by_cases first : i = 0
      · subst first
        rw [if_pos rfl, names.1, List.mem_singleton]
        intro same
        have initial : (groupName index).head? = some 0x72 := rfl
        rw [same] at initial
        exact absurd initial (by decide)
      · simp [first, names.2]
  obtain ⟨-, -, verdict⟩ := build_verdict (by simp [flaggedOrFolded])
    (fun i => if i = 0 then {} else { ignoreCase := true }) (fun i => if i = 0 then flagged else folded)
    (by simp [flaggedOrFolded]) (fun i rule known => (flaggedOrFolded_compiles known).1) apart
    (Text.ofString "normal")
  have built := eq_ok_of_isSome (Engine.build flaggedOrFolded (Text.ofString "normal")) (by decide +kernel)
  have accepted := (verdict fun i rule known => (flaggedOrFolded_compiles known).2).mp ⟨_, built⟩
  exact ⟨⟨_, built⟩, fun i rule known => ⟨(accepted i rule known).1, (accepted i rule known).2.2⟩⟩

/-- In brackets, and in a comment, no reference is meant, but it is refused. -/
example : (Pattern.compile (Text.ofString "[\\1]") {}).toOption.isSome ∧
    (Pattern.compile (Text.ofString "(?#\\1)a") {}).toOption.isSome ∧
    RulePattern.hasNumberedReference (Text.ofString "[\\1]") ∧
    RulePattern.hasNumberedReference (Text.ofString "(?#\\1)a") := by
  decide +kernel

/-- Behind a comment flags are not taken off, and cannot be set in the group of the rule. -/
example : (Pattern.compile (Text.ofString "(?#c)(?i)a") {}).toOption.isSome ∧
    (Pattern.compile (inGroup (groupName 0) (Text.ofString "(?#c)(?i)a")) {}).toOption.isNone := by
  decide +kernel

/-- In a look-behind a condition may go by a group that has closed, which the group of the rule has not. -/
example : (Pattern.compile (Text.ofString "(a)(?<=(?(1)a|b))") {}).toOption.isSome ∧
    (Pattern.compile (inGroup (groupName 0) (Text.ofString "(a)(?<=(?(1)a|b))")) {}).toOption.isNone := by
  decide +kernel

end TokenRules.Engine
