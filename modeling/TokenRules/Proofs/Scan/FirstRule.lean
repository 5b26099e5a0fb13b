import TokenRules.Proofs.Scan.Alternation
import TokenRules.Source.LineBreak

/-! The rule that is declared first wins: an engine matches wherever the pattern of one of its rules
does by itself, and the match is that of the first such rule. Only a condition that goes by the number of
a group is different in an engine, where the group has another number. -/
namespace TokenRules.Engine
open Pattern

section

variable [CharacterNames]

/-- The pattern of an engine has a group for each rule, with the rule's own pattern in it. -/
theorem build_hosted {rules : List (Rule σ ε)} (built : Engine.build rules breaks = .ok e)
    (all : Own given own 0 rules) :
    ∃ nodes, Hosted own e.pattern.names 0 nodes ∧ nodes.length = rules.length ∧
      ∀ c, e.pattern.node.run ⟨c, [], none⟩ some = nodes.findSome? (·.run ⟨c, [], none⟩ some) :=
  build_grouped built all.contained

/-- An engine matches where one of its rules does. -/
theorem build_isSome_iff {rules : List (Rule σ ε)} (built : Engine.build rules breaks = .ok e)
    (all : Own given own 0 rules) (c : Cursor) :
    (e.pattern.matchAt c).isSome ↔ ∃ i < rules.length, ((own i).matchAt c).isSome := by
  obtain ⟨nodes, hosted, length, run⟩ := build_hosted built all
  rw [Pattern.matchAt, Option.isSome_map, run, hosted.isSome_iff, length]
  simp only [Nat.zero_add]

/-- The match of a rule, if no rule before it matches, in the group of the rule. -/
theorem build_first {rules : List (Rule σ ε)} (built : Engine.build rules breaks = .ok e)
    (all : Own given own 0 rules) (known : rules[i]? = some rule) (matched : (own i).matchAt c = some m)
    (earlier : ∀ j < i, (own j).matchAt c = none) :
    ∃ m', e.pattern.matchAt c = some m' ∧ m'.start = m.start ∧ m'.stop = m.stop ∧
      m'.lastGroup = some (groupName i) ∧
      ∃ action, rule.action = some action ∧ e.actionFor m' = .ok action := by
  obtain ⟨nodes, hosted, length, run⟩ := build_hosted built all
  obtain ⟨s, own', rfl⟩ := Option.map_eq_some_iff.mp matched
  have inside : i < nodes.length := by
    rw [length]
    exact (List.getElem?_eq_some_iff.mp known).1
  obtain ⟨index, entry, first⟩ := hosted.first (k := 0) c inside
    (by rwa [Nat.zero_add]) (by simpa only [Nat.zero_add] using earlier)
  rw [Nat.zero_add] at entry
  have named' : ((s.shift index).leave index c).lastGroup.bind e.pattern.groupName? =
      some (groupName i) := by
    change (entryOf? e.pattern.names index).map (·.1) = _
    rw [entry]
    rfl
  have match' : e.pattern.matchAt c = some ⟨c, s.cursor, some (groupName i)⟩ := by
    rw [Pattern.matchAt, run, first, Option.map_some, named']
    rfl
  exact ⟨_, match', rfl, rfl, rfl, actionFor_of_build built known _ rfl⟩

/-- Each match of an engine is that of a rule. -/
theorem build_matched {rules : List (Rule σ ε)} (built : Engine.build rules breaks = .ok e)
    (all : Own given own 0 rules) (found : e.pattern.matchAt c = some m) :
    ∃ i rule m', rules[i]? = some rule ∧ (own i).matchAt c = some m' ∧ m.start = m'.start ∧
      m.stop = m'.stop ∧ ∃ action, rule.action = some action ∧ e.actionFor m = .ok action := by
  obtain ⟨i, inside, matched⟩ := (build_isSome_iff built all c).mp (by rw [found]; rfl)
  induction i using Nat.strongRecOn with
  | ind i ih =>
    by_cases first : ∃ j < i, ((own j).matchAt c).isSome
    · obtain ⟨j, before, matched⟩ := first
      exact ih j before (Nat.lt_trans before inside) matched
    · obtain ⟨m', matched⟩ := Option.isSome_iff_exists.mp matched
      have known := List.getElem?_eq_getElem inside
      obtain ⟨m'', found', start, stop, -, bound⟩ := build_first built all known matched fun j before => by
        rw [← Option.not_isSome_iff_eq_none]
        exact fun other => first ⟨j, before, other⟩
      obtain rfl := Option.some.inj (found.symm.trans found')
      exact ⟨i, rules[i], m', known, matched, start, stop, bound⟩

/-- The first rule whose pattern matches by itself gives the match: its span, its name and its
action. -/
theorem firstRule_wins {rules : List (Rule σ ε)} (built : Engine.build rules breaks = .ok e)
    (given : Nat → Flags) (own : Nat → Pattern)
    (compiles : ∀ i (rule : Rule σ ε), rules[i]? = some rule → rule.pattern.Compiles (given i) (own i))
    (named : ∀ i (rule : Rule σ ε), rules[i]? = some rule → rule.pattern.NamesConditions (given i))
    (c : Cursor) :
    ((e.pattern.matchAt c).isSome ↔ ∃ i < rules.length, ((own i).matchAt c).isSome) ∧
      ∀ i rule m, rules[i]? = some rule → (own i).matchAt c = some m →
        (∀ j < i, (own j).matchAt c = none) →
        ∃ m', e.pattern.matchAt c = some m' ∧ m'.start = m.start ∧ m'.stop = m.stop ∧
          m'.lastGroup = some (groupName i) ∧
          ∃ action, rule.action = some action ∧ e.actionFor m' = .ok action := by
  have all : Own given own 0 rules :=
    ⟨by simpa only [Nat.zero_add] using compiles, by simpa only [Nat.zero_add] using named⟩
  exact ⟨build_isSome_iff built all c, fun i rule m => build_first built all⟩

end

/-- A letter and the same letter again. -/
def doubled : Pattern :=
  (Pattern.compile (Text.ofString "(?P<q>[ab])(?P=q)") {}).toOption.get (by decide +kernel)

/-- One of two letters, capital or not. -/
def folded : Pattern :=
  (Pattern.compile (Text.ofString "B|c") { ignoreCase := true }).toOption.get (by decide +kernel)

def doubledOrFolded : List (Rule Nat Empty) :=
  [⟨.source (Text.ofString "(?P<q>[ab])(?P=q)"), some fun _ n _ => .ok n⟩,
    ⟨.compiled folded, some fun _ n _ => .ok (n + 1)⟩]

theorem doubledOrFolded_compiles {i : Nat} {rule : Rule Nat Empty}
    (known : doubledOrFolded[i]? = some rule) :
    rule.pattern.Compiles (if i = 0 then {} else { ignoreCase := true })
        (if i = 0 then doubled else folded) ∧
      rule.pattern.NamesConditions (if i = 0 then {} else { ignoreCase := true }) := by
  match i with
  | 0 =>
    obtain rfl := Option.some.inj known
    exact ⟨.source (eq_ok_of_isSome _ _), by decide +kernel⟩
  | 1 =>
    obtain rfl := Option.some.inj known
    have source : folded.source = Text.ofString "B|c" := by decide +kernel
    refine ⟨.compiled ?_, by decide +kernel⟩
    rw [source]
    exact eq_ok_of_isSome _ _
  | i + 2 => simp [doubledOrFolded] at known

theorem firstRule_wins_folded :
    ∃ e m, Engine.build doubledOrFolded (Text.ofString "normal") = .ok e ∧
      e.pattern.matchAt (.start (Text.ofString "bc")) = some m ∧
      m.stop.offset = 1 ∧ m.lastGroup = some (groupName 1) := by
  have built := eq_ok_of_isSome (Engine.build doubledOrFolded (Text.ofString "normal")) (by decide +kernel)
  have none : (doubled.matchAt (.start (Text.ofString "bc"))).isNone := by decide +kernel
  have alone : (folded.matchAt (.start (Text.ofString "bc"))).map (·.stop.offset) = some 1 := by
    decide +kernel
  obtain ⟨m, matched, offset⟩ := Option.map_eq_some_iff.mp alone
  have wins := firstRule_wins built (fun i => if i = 0 then {} else { ignoreCase := true })
    (fun i => if i = 0 then doubled else folded) (fun _ _ known => (doubledOrFolded_compiles known).1)
    (fun _ _ known => (doubledOrFolded_compiles known).2) (.start (Text.ofString "bc"))
  obtain ⟨m', matched', -, stop, name, -⟩ := wins.2 1 _ m rfl matched fun j before => by
    obtain rfl : j = 0 := by omega
    simpa using none
  exact ⟨_, m', built, matched', by rw [stop, offset], name⟩

/-- In an engine the condition asks for the group of its own rule, which has not closed yet. -/
example : (Engine.build (ε := Empty) [⟨.source (Text.ofString "(a)?(?(1)b|c)"), some fun _ n _ => .ok (n + 1)⟩]
    (Text.ofString "normal")).toOption.map (fun e => (e.pattern.matchAt (.start (Text.ofString "ab"))).isSome) =
    some false ∧
    (Pattern.compile (Text.ofString "(a)?(?(1)b|c)") {}).toOption.map
      (fun p => (p.matchAt (.start (Text.ofString "ab"))).isSome) = some true := by
  decide +kernel

end TokenRules.Engine
