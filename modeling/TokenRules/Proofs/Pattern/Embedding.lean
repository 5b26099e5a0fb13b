import TokenRules.Proofs.Pattern.Recast
import TokenRules.Proofs.Pattern.Splice

/-! A source that reads by itself also reads in the midst of a larger one, if it refers to no group by a
number, sets no flags of the whole pattern and gives no group a name that is taken. What the end of the
larger source could refuse is refused at the end of the source itself. -/
namespace TokenRules.Pattern

/-- A name that a part gives is new among the groups before it, and no flags are those of the whole. -/
def Part.Fresh (before : Groups) : Part → Prop
  | .capture (some name) => before.names.lookup name = none
  | .flags _ => False
  | _ => True

/-- The end holds nothing against `s` that it does not hold against `r`. -/
structure Sound (d : Nat) (r s : Reading) : Prop where
  deferred : r.deferred = false → s.deferred = false
  expected : s.expected ≤ r.expected + d
  untemplated : ∀ f ∈ (s.level :: s.outer).map (·.flags), f.template = false

theorem Groups.Moved.names_lookup_none (moved : Moved d before g h) (own : g.names.lookup name = none)
    (new : before.names.lookup name = none) : h.names.lookup name = none := by
  rw [moved.names, List.lookup_append, new, Option.or_none]
  rw [List.lookup_eq_none_iff] at own ⊢
  exact List.forall_mem_map.mpr own

namespace Follows

variable {d : Nat} {before : Groups} {base : Level} {context : List Level}
  {r s r' : Reading}

/-- Where a group may be referred to alone, it may be in the midst of a larger source. -/
theorem limit_shift (follows : Follows d before base context r s) (index : Nat) :
    s.level.limit.all (index + d < ·) = r.level.limit.all (index < ·) := by
  rw [follows.stacked.moved.limit]
  cases r.level.limit with
  | none => rfl
  | some limit => simp

theorem refers (follows : Follows d before base context r s) (sound : Sound d r s)
    (applied : r.refer index = .ok r') : ∃ s', s.refer (index + d) = .ok s' ∧ Sound d r' s' := by
  simp only [Reading.refer, follows.groups.isClosed, follows.limit_shift] at applied ⊢
  split at applied
  · next closed =>
    obtain rfl := Except.ok.inj applied
    exact ⟨_, if_pos closed, sound.deferred, sound.expected, sound.untemplated⟩
  · contradiction

theorem conditions (follows : Follows d before base context r s) (sound : Sound d r s)
    (applied : r.condition index = .ok r') : ∃ s', s.condition (index + d) = .ok s' ∧ Sound d r' s' := by
  have limit : (s.level.limit.all fun limit => s.groups.isClosed (index + d) && index + d < limit) =
      r.level.limit.all fun limit => r.groups.isClosed index && index < limit := by
    rw [follows.groups.isClosed, follows.stacked.moved.limit]
    cases r.level.limit with
    | none => rfl
    | some limit => simp
  simp only [Reading.condition, limit] at applied ⊢
  split at applied
  · next closed =>
    obtain rfl := Except.ok.inj applied
    refine ⟨_, if_pos closed, sound.deferred, ?_, ?_⟩
    · have expected := sound.expected
      change max s.expected (index + d) ≤ max r.expected index + d
      omega
    · exact List.forall_mem_cons.mpr ⟨(List.forall_mem_cons.mp sound.untemplated).1, sound.untemplated⟩
  · contradiction

theorem captures (follows : Follows d before base context r s) (sound : Sound d r s)
    (fresh : (Part.capture name).Fresh before) (applied : r.capture name = .ok r') :
    ∃ s', s.capture name = .ok s' ∧ Sound d r' s' := by
  have nested : ∀ f ∈ s.flags :: (s.level :: s.outer).map (·.flags), f.template = false :=
    List.forall_mem_cons.mpr ⟨(List.forall_mem_cons.mp sound.untemplated).1, sound.untemplated⟩
  simp only [Reading.capture] at applied ⊢
  cases name with
  | none =>
    obtain rfl := Except.ok.inj applied
    exact ⟨_, rfl, sound.deferred, sound.expected, nested⟩
  | some name =>
    dsimp only at applied ⊢
    split at applied
    · contradiction
    · next new =>
      obtain rfl := Except.ok.inj applied
      have own : r.groups.names.lookup name = none := by
        rwa [Option.isSome_iff_ne_none, Decidable.not_not] at new
      rw [follows.groups.names_lookup_none own fresh]
      exact ⟨_, rfl, sound.deferred, sound.expected, nested⟩

theorem loops {repetition : Repetition} {manner : Manner} (follows : Follows d before base context r s)
    (sound : Sound d r s) (applied : r.loop (repetition.looped manner) = .ok r') :
    ∃ s', s.loop (repetition.looped manner) = .ok s' ∧ Sound d r' s' := by
  simp only [Reading.loop] at applied
  split at applied
  · next node items same =>
    have items' : s.level.items = ⟨node.shift d, .other⟩ :: items.map (Item.shift d) := by
      rw [follows.stacked.moved.items, same]
      rfl
    have plain : s.level.flags.template = false := (List.forall_mem_cons.mp sound.untemplated).1
    have possible : s.loop (repetition.looped manner) = .ok { s with
        level := { s.level with
          items := ⟨repetition.looped manner (node.shift d), .loop⟩ :: items.map (Item.shift d) } } := by
      simp only [Reading.loop, items', Reading.flags, plain, Bool.false_eq_true, if_false]
    refine ⟨_, possible, ?_⟩
    obtain rfl := Except.ok.inj applied
    split
    · exact ⟨fun settled => Bool.noConfusion settled, sound.expected, sound.untemplated⟩
    · exact ⟨sound.deferred, sound.expected, sound.untemplated⟩
  · contradiction

theorem alternates (follows : Follows d before base context r s) (sound : Sound d r s)
    (unconditional : ∀ index, base.opener ≠ .condition index) (applied : r.alternate = .ok r') :
    ∃ s', s.alternate = .ok s' ∧ Sound d r' s' := by
  have possible : s.alternate = .ok { s with level := s.level.alternate } := by
    have stacked := follows.stacked
    cases r with | mk level outer groupsR expectedR deferredR =>
    cases s with | mk level' outer' groupsS expectedS deferredS =>
    simp only [Reading.alternate] at applied ⊢
    cases stacked with
    | outermost moved opener flags =>
      split
      · next index held others same alternatives =>
        exact absurd (opener.symm.trans same) (unconditional index)
      · rfl
    | inner moved opener outer =>
      rw [opener, moved.alternatives]
      cases same : level.opener with
      | condition index =>
        cases held : level.alternatives with
        | nil => rfl
        | cons node nodes => simp [same, held] at applied
      | _ => rfl
  refine ⟨_, possible, ?_⟩
  simp only [Reading.alternate] at applied
  split at applied
  · contradiction
  · obtain rfl := Except.ok.inj applied
    exact ⟨sound.deferred, sound.expected, sound.untemplated⟩

theorem leaves (follows : Follows d before base context r s) (sound : Sound d r s)
    (left : r.leave? = some r') : ∃ s', s.leave? = some s' ∧ Sound d r' s' := by
  obtain ⟨stacked, groups⟩ := follows
  obtain ⟨deferred, expected, untemplated⟩ := sound
  cases r with | mk level outer groupsR expectedR deferredR =>
  cases s with | mk level' outer' groupsS expectedS deferredS =>
  dsimp only at stacked groups deferred expected untemplated
  cases stacked with
  | outermost => simp [Reading.leave?] at left
  | inner moved opener inside =>
    next l ls m ms =>
    have width : level'.node.width groupsS.width = level.node.width groupsR.width := by
      rw [moved.node, Node.width_shift groups.width]
    have around := (List.forall_mem_cons.mp untemplated).2
    simp only [Reading.leave?] at left ⊢
    cases same : level.opener with
    | look behind negated =>
      cases behind with
      | false =>
        simp only [opener, same, Opener.shift, Option.some.injEq] at left ⊢
        subst left
        exact ⟨_, rfl, deferred, expected, around⟩
      | true =>
        simp only [opener, same, Opener.shift, width] at left ⊢
        split at left
        · next distance fixed =>
          obtain rfl := Option.some.inj left
          exact ⟨_, rfl, deferred, expected, around⟩
        · next fixed =>
          obtain rfl := Option.some.inj left
          exact ⟨_, rfl, fun settled => Bool.noConfusion settled, expected, around⟩
    | plain | scope | atomic | condition index | capture index =>
      simp only [opener, same, Opener.shift, Option.some.injEq] at left ⊢
      subst left
      exact ⟨_, rfl, deferred, expected, around⟩

/-- What a part does alone it can do in the midst of a larger source. -/
theorem applies {p : Part} (follows : Follows d before base context r s) (sound : Sound d r s)
    (portable : p.isPortable) (fresh : p.Fresh before)
    (unconditional : ∀ index, base.opener ≠ .condition index) (applied : p.apply r = .ok r') :
    ∃ s', p.apply s = .ok s' ∧ Sound d r' s' := by
  -- A part that opens a group turns on no template flag, so none is on in the levels then open.
  have nested : ∀ f : Flags, f.template = false →
      ∀ f' ∈ f :: (s.level :: s.outer).map (·.flags), f'.template = false :=
    fun f plain => List.forall_mem_cons.mpr ⟨plain, sound.untemplated⟩
  have plain : s.flags.template = false := (List.forall_mem_cons.mp sound.untemplated).1
  cases p with
  | nothing =>
    obtain rfl := Except.ok.inj applied
    exact ⟨s, rfl, sound⟩
  | chars set | anchor place =>
    obtain rfl := Except.ok.inj applied
    exact ⟨_, rfl, sound.deferred, sound.expected, sound.untemplated⟩
  | plainGroup | atomicGroup | look behind negated =>
    obtain rfl := Except.ok.inj applied
    exact ⟨_, rfl, sound.deferred, sound.expected, nested _ plain⟩
  | scope added removed =>
    obtain rfl := Except.ok.inj applied
    exact ⟨_, rfl, sound.deferred, sound.expected, nested _ plain⟩
  | loop repetition manner => exact follows.loops sound applied
  | alternative => exact follows.alternates sound unconditional applied
  | capture name => exact follows.captures sound fresh applied
  | condition name =>
    simp only [Part.apply] at applied ⊢
    split at applied
    · next index own =>
      rw [follows.conditionIndex portable own]
      exact follows.conditions sound applied
    · contradiction
  | numberedReference index => contradiction
  | namedReference name =>
    simp only [Part.apply] at applied ⊢
    split at applied
    · next index own =>
      rw [follows.groups.names_lookup own]
      exact follows.refers sound applied
    · contradiction
  | flags added => exact fresh.elim
  | close =>
    simp only [Part.apply] at applied ⊢
    split at applied
    · next left =>
      obtain ⟨s', left', sound'⟩ := follows.leaves sound left
      rw [left']
      exact ⟨s', rfl, Except.ok.inj applied ▸ sound'⟩
    · contradiction

end Follows

/-- A part that can be read in the midst of a larger source where it can be read alone. A condition that
goes by a number may be on another group there, which makes no difference outside of a look-behind. -/
structure Step.Placeable (before : Groups) (step : Step) : Prop where
  fresh : step.part.Fresh before
  unnumbered : ∀ index, step.part ≠ .numberedReference index
  counted : ∀ name, step.part = .condition name → Text.isIdentifier name = false →
    step.reading.level.limit = none

/-- The reading `s` goes through a source in the midst of a larger one as `r` does through it alone, but
for the numbers of its conditions, and nothing stands against its end. -/
def Accompanies (d : Nat) (before : Groups) (base : Level) (context : List Level) (r s : Reading) : Prop :=
  ∃ t, Follows d before base context r t ∧ Sound d r t ∧ Recast s t

namespace Accompanies

variable {d : Nat} {before : Groups} {base : Level} {context : List Level} {r s r' : Reading}

theorem flags (accompanies : Accompanies d before base context r s) : s.flags.core = r.flags.core := by
  obtain ⟨t, follows, -, recast⟩ := accompanies
  rw [recast.flags, follows.flags]

theorem condition (accompanies : Accompanies d before base context r s)
    (counted : Text.isIdentifier name = false → r.level.limit = none)
    (applied : (Part.condition name).apply r = .ok r') :
    ∃ s', (Part.condition name).apply s = .ok s' ∧ Accompanies d before base context r' s' := by
  obtain ⟨t, follows, sound, recast⟩ := accompanies
  simp only [Part.apply] at applied ⊢
  split at applied
  · next index own =>
    obtain ⟨t', applied', sound'⟩ := follows.conditions sound applied
    have follows' := follows.condition applied applied'
    have joined : ∀ i ≤ index + d, (s.level.limit.all fun limit => s.groups.isClosed i && i < limit) →
        ∃ s', s.condition i = .ok s' ∧ Accompanies d before base context r' s' := fun i fewer possible =>
      ⟨_, if_pos possible, t', follows', sound', recast.condition fewer (if_pos possible) applied'⟩
    cases named : Text.isIdentifier name with
    | true =>
      have index' : Part.conditionIndex? name s = some (index + d) := by
        have known := follows.conditionIndex named own
        simpa only [Part.conditionIndex?, recast.groups] using known
      have possible : s.level.limit.all fun limit =>
          s.groups.isClosed (index + d) && index + d < limit := by
        rw [recast.limit, recast.groups]
        simp only [Reading.condition] at applied'
        split at applied'
        · assumption
        · contradiction
      rw [index']
      exact joined _ (Nat.le_refl _) possible
    | false =>
      have index' : Part.conditionIndex? name s = some index := by
        simpa only [Part.conditionIndex?, named, Bool.false_eq_true, if_false] using own
      have free : s.level.limit = none := by
        rw [recast.limit, follows.stacked.moved.limit, counted named]
        rfl
      rw [index']
      exact joined _ (Nat.le_add_right _ _) (by rw [free]; rfl)
  · contradiction

/-- What a part does alone it can do in the midst of a larger source. -/
theorem apply {p : Part} (accompanies : Accompanies d before base context r s)
    (placeable : Step.Placeable before ⟨r, p, ts, rest⟩) (inside : context ≠ [])
    (unconditional : ∀ index, base.opener ≠ .condition index) (applied : p.apply r = .ok r') :
    ∃ s', p.apply s = .ok s' ∧ Accompanies d before base context r' s' := by
  by_cases condition : ∃ name, p = .condition name
  · obtain ⟨name, rfl⟩ := condition
    exact accompanies.condition (placeable.counted name rfl) applied
  · have other : ∀ name, p ≠ .condition name := fun name same => condition ⟨name, same⟩
    have portable : p.isPortable := by
      cases p with
      | condition name => exact absurd rfl (other name)
      | numberedReference index => exact absurd rfl (placeable.unnumbered index)
      | _ => rfl
    obtain ⟨t, follows, sound, recast⟩ := accompanies
    obtain ⟨t', applied', sound'⟩ := follows.applies sound portable placeable.fresh unconditional applied
    obtain ⟨s', applied'', recast'⟩ := recast.apply other applied'
    exact ⟨s', applied'', t', follows.apply portable inside applied applied', sound', recast'⟩

/-- A source that has been read alone has been read in the midst of a larger one. -/
theorem finished (accompanies : Accompanies d before base context r s) (finished : Reader.finish r = .ok r) :
    ∃ t, Follows d before base context r t ∧ Sound d r t ∧ Recast s t ∧
      t.outer = context ∧ t.level.opener = base.opener ∧ s.flags = base.flags := by
  obtain ⟨t, follows, sound, recast⟩ := accompanies
  obtain ⟨outer, opener, flags⟩ := (Reader.finish_outer finished ▸ follows.stacked).base_of_nil
  exact ⟨t, follows, sound, recast, outer, opener, recast.flags.trans flags⟩

end Accompanies

/-- A source that reads alone reads in the midst of a larger one, and leaves there what it leaves alone,
but for the numbers of its conditions. -/
theorem Reads.embeds [CharacterNames] {d : Nat} {before : Groups} {base : Level} {context : List Level}
    {r s : Reading}
    (reads : Reads ts r ps last) (placeable : ∀ step ∈ Reader.steps ts r, step.Placeable before)
    (unconditional : ∀ index, base.opener ≠ .condition index) (inside : context ≠ [])
    (accompanies : Accompanies d before base context r s) (more : List Token) :
    ∃ s' t, Follows d before base context last t ∧ Sound d last t ∧ Recast s' t ∧
      t.outer = context ∧ t.level.opener = base.opener ∧
      Reader.read (ts ++ guarded base.flags.verbose more) s =
        Reader.read (.plain Sign.rightParen :: more) s' := by
  induction reads generalizing s with
  | @finish r finished =>
    obtain ⟨t, follows, sound, recast, outer, opener, flags⟩ := accompanies.finished finished
    refine ⟨s, t, follows, sound, recast, outer, opener, ?_⟩
    rw [← flags]
    exact read_guarded s more
  | @part r t ts p rest r' ps last next applied more' ih =>
    rw [Reader.steps_cons next applied] at placeable
    obtain ⟨first, others⟩ := List.forall_mem_cons.mp placeable
    obtain ⟨s₁, applied', accompanies'⟩ := accompanies.apply first inside unconditional applied
    rw [List.cons_append, Reader.read_cons, Reader.part_congr accompanies.flags]
    rcases (Reader.part_append next).2 _ (stops_guarded base.flags.verbose more) with same | comment
    · simp only [same, Except.bind, applied']
      exact ih others accompanies'
    · -- The comment goes up to the line feed that stands there for this.
      obtain ⟨rfl, rfl, verbose, same⟩ := comment
      obtain rfl := Except.ok.inj applied
      obtain rfl := Except.ok.inj applied'
      cases more' with
      | finish finished =>
        have guard : s.flags.verbose = true := by
          have core := congrArg Flags.verbose accompanies.flags
          exact core.trans verbose
        obtain ⟨t, follows, sound, recast, outer, opener, flags⟩ := accompanies.finished finished
        refine ⟨s, t, follows, sound, recast, outer, opener, ?_⟩
        rw [same, ← flags, guard]
        rfl

end TokenRules.Pattern
