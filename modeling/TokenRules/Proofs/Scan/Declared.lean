import TokenRules.Scan.Definition

/-! Histories of a definition: any calls in any order, where the place for an action stays at hand after its
pattern. An account of the patterns that were taken is kept beside the definition. The rules are those of the
account exactly if no place was used in another one's turn, and no action withheld in its own. -/
namespace TokenRules.Definition

variable {σ ε : Type}

theorem on_cases (pattern : RulePattern) (d : Definition σ ε) :
    (∃ fault, on pattern d = (.error fault, d)) ∨
      d.awaiting = false ∧ on pattern d = (.ok ⟨pattern⟩, { d with awaiting := true }) := by
  unfold on
  split
  · exact .inl ⟨_, rfl⟩
  · next free =>
    split
    · exact .inl ⟨_, rfl⟩
    · split
      · exact .inl ⟨_, rfl⟩
      · exact .inr ⟨by simpa using free, rfl⟩

theorem bind_cases (pending : Pending) (action : Option (Action σ ε)) (d : Definition σ ε) :
    d.awaiting = false ∧ bind pending action d = (.error .notAwaited, d) ∨
    d.awaiting = true ∧ action = none ∧
      bind pending action d = (.error .noAction, { d with awaiting := false }) ∨
    ∃ given, d.awaiting = true ∧ action = some given ∧ bind pending action d =
      (.ok (), { d with awaiting := false, entries := d.entries ++ [(pending.pattern, given)] }) := by
  unfold bind
  cases awaited : d.awaiting with
  | false => exact .inl ⟨rfl, rfl⟩
  | true =>
    cases action with
    | none => exact .inr (.inl ⟨rfl, rfl, rfl⟩)
    | some given => exact .inr (.inr ⟨given, rfl, rfl, rfl⟩)

/-- The action of a pattern that is passed over. -/
def skip : Action σ ε := fun _ context _ => .ok context

theorem ignore_cases (pattern : RulePattern) (d : Definition σ ε) :
    (∃ fault, ignore pattern d = (.error fault, d)) ∨
      d.awaiting = false ∧ ignore pattern d =
        (.ok (), { d with entries := d.entries ++ [(pattern, skip)] }) := by
  unfold ignore rule
  rcases on_cases pattern d with ⟨fault, refused⟩ | ⟨free, taken⟩
  · rw [refused]
    exact .inl ⟨fault, rfl⟩
  · rw [taken]
    refine .inr ⟨free, ?_⟩
    obtain ⟨entries, awaiting, built, lineBreaks⟩ := d
    obtain rfl : awaiting = false := free
    rfl

theorem rules_cases (d : Definition σ ε) :
    d.awaiting = true ∧ rules d = (.error .finalForgotten, d) ∨
      d.awaiting = false ∧ rules d = (.ok d.entries, d) := by
  unfold rules
  cases d.awaiting with
  | false => exact .inr ⟨rfl, rfl⟩
  | true => exact .inl ⟨rfl, rfl⟩

section

variable [CharacterNames]

/-- Building the engine changes nothing else. -/
theorem engine_keeps (d : Definition σ ε) : ∃ built, (engine d).2 = { d with built } := by
  unfold engine
  split
  · exact ⟨d.built, rfl⟩
  · rcases rules_cases d with ⟨-, refused⟩ | ⟨-, listed⟩
    · rw [refused]
      exact ⟨d.built, rfl⟩
    · rw [listed]
      dsimp only
      split
      · exact ⟨d.built, rfl⟩
      · exact ⟨_, rfl⟩

/-- A call on a definition. Something may be given, as an action, at the place of any pattern that was taken
before. -/
inductive Request (σ ε : Type) where
  | on (pattern : RulePattern)
  | bind (declaration : Nat) (action : Option (Action σ ε))
  | ignore (pattern : RulePattern)
  | rules
  | engine

/-- A pattern that was taken, and the action that was given at its own place. -/
structure Declaration (σ ε : Type) where
  pending : Pending
  action : Option (Action σ ε)

/-- A rule is a declaration that has its action. -/
def Declaration.ofRule (rule : RulePattern × Action σ ε) : Declaration σ ε :=
  ⟨⟨rule.1⟩, some rule.2⟩

/-- A definition after some calls, with the patterns it has taken, in the order of their calls. -/
structure History (σ ε : Type) where
  definition : Definition σ ε
  declared : List (Declaration σ ε)

namespace History

def start (lineBreaks : Text) : History σ ε :=
  ⟨.empty lineBreaks, []⟩

/-- One more call. Only what succeeds goes into the account, and an action only at its own place. -/
def step (h : History σ ε) : Request σ ε → History σ ε
  | .on pattern =>
    match Definition.on pattern h.definition with
    | (.ok pending, d) => ⟨d, h.declared ++ [⟨pending, none⟩]⟩
    | (.error _, d) => ⟨d, h.declared⟩
  | .bind declaration action =>
    match h.declared[declaration]? with
    | none => h
    | some ⟨pending, _⟩ =>
      match Definition.bind pending action h.definition with
      | (.ok (), d) => ⟨d, h.declared.set declaration ⟨pending, action⟩⟩
      | (.error _, d) => ⟨d, h.declared⟩
  | .ignore pattern =>
    match Definition.ignore pattern h.definition with
    | (.ok (), d) => ⟨d, h.declared ++ [⟨⟨pattern⟩, some skip⟩]⟩
    | (.error _, d) => ⟨d, h.declared⟩
  | .rules => { h with definition := (Definition.rules h.definition).2 }
  | .engine => { h with definition := (Definition.engine h.definition).2 }

def run (h : History σ ε) (requests : List (Request σ ε)) : History σ ε :=
  requests.foldl step h

theorem step_on (h : History σ ε) (pattern : RulePattern) : h.step (.on pattern) = h ∨
    h.definition.awaiting = false ∧ h.step (.on pattern) =
      ⟨{ h.definition with awaiting := true }, h.declared ++ [⟨⟨pattern⟩, none⟩]⟩ := by
  rcases on_cases pattern h.definition with ⟨fault, refused⟩ | ⟨free, taken⟩
  · exact .inl (by rw [step, refused])
  · exact .inr ⟨free, by rw [step, taken]⟩

theorem step_ignore (h : History σ ε) (pattern : RulePattern) : h.step (.ignore pattern) = h ∨
    h.definition.awaiting = false ∧ h.step (.ignore pattern) =
      ⟨{ h.definition with entries := h.definition.entries ++ [(pattern, skip)] },
        h.declared ++ [.ofRule (pattern, skip)]⟩ := by
  rcases ignore_cases pattern h.definition with ⟨fault, refused⟩ | ⟨free, taken⟩
  · exact .inl (by rw [step, refused])
  · exact .inr ⟨free, by rw [step, taken]; rfl⟩

theorem step_rules (h : History σ ε) : h.step .rules = h := by
  rcases rules_cases h.definition with ⟨-, refused⟩ | ⟨-, listed⟩
  · rw [step, refused]
  · rw [step, listed]

theorem step_engine (h : History σ ε) :
    ∃ built, h.step .engine = ⟨{ h.definition with built }, h.declared⟩ := by
  obtain ⟨built, kept⟩ := engine_keeps h.definition
  exact ⟨built, by rw [step, kept]⟩

/-- Nothing happens at a place when no action is awaited. -/
theorem step_idle (h : History σ ε) (place : Nat) (action : Option (Action σ ε))
    (idle : h.definition.awaiting = false ∨ h.declared[place]? = none) :
    h.step (.bind place action) = h := by
  rw [step]
  cases found : h.declared[place]? with
  | none => rfl
  | some declaration =>
    have free : h.definition.awaiting = false := by simpa [found] using idle
    simp [Definition.bind, free]

/-- What is given at any place counts as the action that is awaited. -/
theorem step_given {h : History σ ε} (awaited : h.definition.awaiting = true)
    (found : h.declared[place]? = some declaration) (given : Action σ ε) :
    h.step (.bind place (some given)) =
      ⟨{ h.definition with
          awaiting := false
          entries := h.definition.entries ++ [(declaration.pending.pattern, given)] },
        h.declared.set place ⟨declaration.pending, some given⟩⟩ := by
  simp [step, found, Definition.bind, awaited]

/-- What is no action is no longer awaited either. -/
theorem step_withheld {h : History σ ε} (awaited : h.definition.awaiting = true)
    (found : h.declared[place]? = some declaration) :
    h.step (.bind place none) = ⟨{ h.definition with awaiting := false }, h.declared⟩ := by
  simp [step, found, Definition.bind, awaited]

end History

/-- While an action is awaited, only the place of the latest pattern is used, and an action is given
there. -/
def Request.InTurn (h : History σ ε) : Request σ ε → Prop
  | .bind place action => h.definition.awaiting = true → place < h.declared.length →
      place + 1 = h.declared.length ∧ action.isSome = true
  | .on _ | .ignore _ | .rules | .engine => True

namespace History

/-- Each call of a sequence is in turn where it is made. -/
def InTurn (h : History σ ε) : List (Request σ ε) → Prop
  | [] => True
  | request :: rest => request.InTurn h ∧ (h.step request).InTurn rest

/-- The account is that of the rules, with one more pattern at its end if an action is awaited. -/
inductive Settled (h : History σ ε) : Prop
  | free : h.definition.awaiting = false → h.declared = h.definition.entries.map .ofRule → Settled h
  | awaiting (pending : Pending) : h.definition.awaiting = true →
      h.declared = h.definition.entries.map .ofRule ++ [⟨pending, none⟩] → Settled h

/-- How many patterns of the account have no action. -/
def lacking (h : History σ ε) : Nat :=
  h.declared.countP (·.action.isNone)

theorem Settled.step {h : History σ ε} (settled : h.Settled) (inTurn : request.InTurn h) :
    (h.step request).Settled := by
  cases request with
  | on pattern =>
    rcases h.step_on pattern with same | ⟨free, opened⟩
    · rwa [same]
    · rw [opened]
      cases settled with
      | free _ declared => exact .awaiting ⟨pattern⟩ rfl (by rw [declared])
      | awaiting _ awaited => simp [free] at awaited
  | ignore pattern =>
    rcases h.step_ignore pattern with same | ⟨free, passed⟩
    · rwa [same]
    · rw [passed]
      cases settled with
      | free _ declared => exact .free free (by simp [declared])
      | awaiting _ awaited => simp [free] at awaited
  | rules => rwa [h.step_rules]
  | engine =>
    obtain ⟨built, same⟩ := h.step_engine
    rw [same]
    cases settled with
    | free free declared => exact .free free declared
    | awaiting pending awaited declared => exact .awaiting pending awaited declared
  | bind place action =>
    cases settled with
    | free free declared =>
      rw [h.step_idle place action (.inl free)]
      exact .free free declared
    | awaiting pending awaited declared =>
      by_cases inside : place < h.declared.length
      · obtain ⟨last, isAction⟩ := inTurn awaited inside
        obtain ⟨given, rfl⟩ := Option.isSome_iff_exists.mp isAction
        obtain rfl : place = (h.definition.entries.map Declaration.ofRule).length := by
          rw [declared, List.length_append] at last
          exact Nat.succ.inj last
        have found : h.declared[(h.definition.entries.map Declaration.ofRule).length]? =
            some ⟨pending, none⟩ := by
          rw [declared, List.getElem?_concat_length]
        rw [step_given awaited found]
        exact .free rfl (by simp [declared, Declaration.ofRule])
      · rw [h.step_idle place action (.inr (List.getElem?_eq_none (Nat.le_of_not_lt inside)))]
        exact .awaiting pending awaited declared

/-- More patterns are without an action than are awaited. -/
def Lacks (h : History σ ε) : Prop :=
  h.definition.awaiting.toNat < h.lacking

theorem step_given_free {h : History σ ε} (awaited : h.definition.awaiting = true)
    (found : h.declared[place]? = some declaration) (given : Action σ ε) :
    (h.step (.bind place (some given))).definition.awaiting = false := by
  rw [step_given awaited found]

/-- What is given at a place takes away one pattern without an action at most. -/
theorem lacking_given {h : History σ ε} (awaited : h.definition.awaiting = true)
    (found : h.declared[place]? = some declaration) (given : Action σ ε) :
    h.lacking = (h.step (.bind place (some given))).lacking + declaration.action.isNone.toNat := by
  obtain ⟨inside, here⟩ := List.getElem?_eq_some_iff.mp found
  rw [step_given awaited found, lacking, lacking, List.countP_set inside, here]
  cases none : declaration.action.isNone with
  | false => simp
  | true =>
    have counted : 0 < h.declared.countP (·.action.isNone) :=
      List.countP_pos_iff.mpr ⟨declaration, List.mem_of_getElem? found, none⟩
    simp only [Option.isNone_some, Bool.false_eq_true, if_false, if_true, Bool.toNat_true]
    omega

/-- Once an action has gone astray, some pattern will always lack one: each call that succeeds gives an
action to one pattern at most. -/
theorem Lacks.step {h : History σ ε} (lacks : h.Lacks) (request : Request σ ε) :
    (h.step request).Lacks := by
  cases request with
  | on pattern =>
    rcases h.step_on pattern with same | ⟨free, opened⟩
    · rwa [same]
    · rw [opened]
      rw [Lacks, free] at lacks
      simpa [Lacks, lacking] using lacks
  | ignore pattern =>
    rcases h.step_ignore pattern with same | ⟨free, passed⟩
    · rwa [same]
    · rw [passed]
      simpa [Lacks, lacking, Declaration.ofRule] using lacks
  | rules => rwa [h.step_rules]
  | engine =>
    obtain ⟨built, same⟩ := h.step_engine
    rw [same]
    exact lacks
  | bind place action =>
    cases awaited : h.definition.awaiting with
    | false => rwa [h.step_idle place action (.inl awaited)]
    | true =>
      cases found : h.declared[place]? with
      | none => rwa [h.step_idle place action (.inr found)]
      | some declaration =>
        rw [Lacks, awaited] at lacks
        cases action with
        | none =>
          rw [step_withheld awaited found]
          exact Nat.lt_of_succ_lt lacks
        | some given =>
          have counted := lacking_given awaited found given
          have one := declaration.action.isNone.toNat_le
          rw [Bool.toNat_true] at lacks
          rw [Lacks, step_given_free awaited found, Bool.toNat_false]
          omega

/-- A call out of turn leaves the latest pattern without its action. -/
theorem Settled.step_lacks {h : History σ ε} (settled : h.Settled) (outOfTurn : ¬ request.InTurn h) :
    (h.step request).Lacks := by
  cases request with
  | on _ | ignore _ | rules | engine => exact absurd trivial outOfTurn
  | bind place action =>
    simp only [Request.InTurn, Classical.not_imp] at outOfTurn
    obtain ⟨awaited, inside, wrong⟩ := outOfTurn
    cases settled with
    | free free => simp [free] at awaited
    | awaiting pending _ declared =>
      have found : h.declared[place]? = some h.declared[place] := List.getElem?_eq_getElem inside
      have one : h.lacking = 1 := by
        simp [lacking, declared, Declaration.ofRule, List.countP_eq_zero]
      cases action with
      | none =>
        rw [step_withheld awaited found]
        exact Nat.lt_of_lt_of_eq Nat.zero_lt_one one.symm
      | some given =>
        -- An earlier place: its pattern has had its action already.
        have earlier : place < (h.definition.entries.map Declaration.ofRule).length := by
          rw [declared, List.length_append] at inside wrong
          simp only [List.length_singleton, Option.isSome_some, and_true] at inside wrong
          omega
        have filled : h.declared[place].action.isNone = false := by
          have same : h.declared[place] = (h.definition.entries.map Declaration.ofRule)[place] := by
            simp only [declared, List.getElem_append_left earlier]
          rw [same, List.getElem_map]
          rfl
        have counted := lacking_given awaited found given
        rw [filled, one, Bool.toNat_false] at counted
        rw [Lacks, step_given_free awaited found, Bool.toNat_false]
        omega

theorem run_settled {h : History σ ε} (settled : h.Settled) (inTurn : h.InTurn requests) :
    (h.run requests).Settled := by
  induction requests generalizing h with
  | nil => exact settled
  | cons request rest ih => exact ih (settled.step inTurn.1) inTurn.2

theorem run_lacks {h : History σ ε} (lacks : h.Lacks) (requests : List (Request σ ε)) :
    (h.run requests).Lacks := by
  induction requests generalizing h with
  | nil => exact lacks
  | cons request rest ih => exact ih (lacks.step request)

/-- The first call out of turn is never made good. -/
theorem Settled.run_lacks {h : History σ ε} (settled : h.Settled) (outOfTurn : ¬ h.InTurn requests) :
    (h.run requests).Lacks := by
  induction requests generalizing h with
  | nil => exact absurd trivial outOfTurn
  | cons request rest ih =>
    by_cases inTurn : request.InTurn h
    · exact ih (settled.step inTurn) fun later => outOfTurn ⟨inTurn, later⟩
    · exact History.run_lacks (settled.step_lacks inTurn) rest

end History

/-- Whenever the rules are listed, they are the patterns that were taken, in the order of their calls, each
once and with the action given at its own place, if and only if every call was in turn. -/
theorem rules_declared_iff (lineBreaks : Text) (requests : List (Request σ ε)) (list)
    (listed : (rules ((History.start lineBreaks).run requests).definition).1 = .ok list) :
    ((History.start lineBreaks).run requests).declared = list.map .ofRule ↔
      (History.start lineBreaks : History σ ε).InTurn requests := by
  have start : (History.start lineBreaks : History σ ε).Settled := .free rfl rfl
  rcases rules_cases ((History.start lineBreaks).run requests).definition with
    ⟨-, refused⟩ | ⟨free, entries⟩
  · simp [refused] at listed
  · obtain rfl := Except.ok.inj ((congrArg Prod.fst entries).symm.trans listed)
    constructor
    · intro declared
      refine Classical.byContradiction fun outOfTurn => ?_
      have lacks := start.run_lacks outOfTurn
      rw [History.Lacks, free, History.lacking, declared] at lacks
      simp [Declaration.ofRule] at lacks
    · intro inTurn
      cases History.run_settled start inTurn with
      | free _ declared => exact declared
      | awaiting _ awaited => simp [free] at awaited

end

/-- The action of the first pattern is given once more, in the turn of the second. -/
def strayed : List (Request Nat Empty) :=
  [.on (.source [0x61]), .bind 0 (some skip), .on (.source [0x62]), .bind 0 (some skip)]

/-- The first pattern is listed twice, and the second is lost. -/
theorem rules_declared_iff_strayed :
    let h := (History.start [] : History Nat Empty).run strayed
    (rules h.definition).1 = .ok [(.source [0x61], skip), (.source [0x61], skip)] ∧
      h.declared = [⟨⟨.source [0x61]⟩, some skip⟩, ⟨⟨.source [0x62]⟩, none⟩] ∧
      ¬ (History.start [] : History Nat Empty).InTurn strayed := by
  have first : (RulePattern.source [0x61]).alternative = .ok [0x61] := by cbv
  have second : (RulePattern.source [0x62]).alternative = .ok [0x62] := by cbv
  have listed : (rules ((History.start [] : History Nat Empty).run strayed).definition).1 =
      .ok [(.source [0x61], skip), (.source [0x61], skip)] := by
    simp [strayed, History.run, History.start, empty, History.step, on, bind, rules,
      first, second]
  have declared : ((History.start [] : History Nat Empty).run strayed).declared =
      [⟨⟨.source [0x61]⟩, some skip⟩, ⟨⟨.source [0x62]⟩, none⟩] := by
    simp [strayed, History.run, History.start, empty, History.step, on, bind, first,
      second]
  refine ⟨listed, declared, fun inTurn => ?_⟩
  have same := (rules_declared_iff [] strayed _ listed).mpr inTurn
  rw [declared] at same
  simp [Declaration.ofRule] at same

end TokenRules.Definition
