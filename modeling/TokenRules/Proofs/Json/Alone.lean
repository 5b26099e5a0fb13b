import TokenRules.Proofs.Json.Rules

/-! The patterns of the JSON rules, each compiled by itself. Each takes the front of its rule, at any
place, and none takes an empty text. -/
namespace TokenRules.Json

open Pattern

/-- A rule's own pattern. -/
def Alone (i : Nat) (p : Pattern) : Prop :=
  ∃ lexeme, lexemes[i]? = some lexeme ∧ Pattern.compile (Text.ofString lexeme.1) {} = .ok p

theorem compiled_bodies : lexemes.map (fun lexeme =>
      (Pattern.compile (Text.ofString lexeme.1) {}).toOption.map (·.node)) = bodies.map some := by
  decide +kernel

theorem Alone.node (alone : Alone i p) : bodies[i]? = some p.node := by
  obtain ⟨lexeme, known, compiled⟩ := alone
  have same := congrArg (·[i]?) compiled_bodies
  simp only [List.getElem?_map, known, Option.map_some, compiled, Except.toOption] at same
  simpa using same.symm

theorem alone_exists (rule : i < 12) : ∃ p, Alone i p := by
  have inside : i < lexemes.length := rule
  have body : bodies[i]? = some bodies[i] := List.getElem?_eq_getElem rule
  have same := congrArg (·[i]?) compiled_bodies
  simp only [List.getElem?_map, List.getElem?_eq_getElem inside, body, Option.map_some,
    Option.some.injEq, Option.map_eq_some_iff] at same
  obtain ⟨p, compiled, -⟩ := same
  exact ⟨p, _, List.getElem?_eq_getElem inside, Engine.toOption_eq_some.mp compiled⟩

/-- A rule's own pattern takes the front of the rule. -/
theorem Alone.matchAt (alone : Alone i p) : ∃ front, fronts[i]? = some front ∧
    ∀ c, p.matchAt c = (front c.after).map fun w => ⟨c, c.advance w.length, none⟩ := by
  have body := alone.node
  have inside : i < fronts.length := (List.getElem?_eq_some_iff.mp body).1
  have front : fronts[i]? = some fronts[i] := List.getElem?_eq_getElem inside
  have pair : (bodies.zip fronts)[i]? = some (p.node, fronts[i]) :=
    List.getElem?_zip_eq_some.mpr ⟨body, front⟩
  refine ⟨fronts[i], front, fun c => ?_⟩
  have takes : Takes p.node fronts[i] := takes_fronts _ (List.mem_of_getElem? pair)
  rw [Pattern.matchAt, takes ⟨c, [], none⟩ some fun _ => rfl]
  cases fronts[i] c.after with
  | none => rfl
  | some w => rfl

/-- Where a rule's own pattern matches, the token of the rule stands. -/
theorem Alone.lexeme (alone : Alone i p) (c : Cursor) :
    p.matchAt c = some m ↔ ∃ w, lexeme? c.after = some (i, w) ∧ m = ⟨c, c.advance w.length, none⟩ := by
  obtain ⟨front, rule, takes⟩ := alone.matchAt
  rw [takes, Option.map_eq_some_iff]
  constructor
  · rintro ⟨w, taken, rfl⟩
    exact ⟨w, lexeme?_eq_some.mpr ⟨front, rule, taken⟩, rfl⟩
  · rintro ⟨w, found, rfl⟩
    exact ⟨w, lexeme?_front found rule, rfl⟩

/-- No token stands where no rule's own pattern matches. -/
theorem lexeme?_eq_none (c : Cursor) :
    lexeme? c.after = none ↔ ∀ i p, Alone i p → p.matchAt c = none := by
  constructor
  · intro stuck i p alone
    rw [Option.eq_none_iff_forall_ne_some]
    intro m matched
    obtain ⟨w, found, -⟩ := (alone.lexeme c).mp matched
    rw [stuck] at found
    contradiction
  · intro none
    rw [Option.eq_none_iff_forall_ne_some]
    rintro ⟨i, w⟩ found
    obtain ⟨p, alone⟩ := alone_exists (lexeme?_inside found)
    have matched := (alone.lexeme c).mpr ⟨w, found, rfl⟩
    rw [none i p alone] at matched
    contradiction

end TokenRules.Json
