import TokenRules.Proofs.Pattern.Reads
import TokenRules.Proofs.Pattern.Renumber

/-! Readings up to the numbers of their conditions. Which group a condition asks for changes neither the
width of a node nor how nodes are joined. So it has no part in what can be read after the condition,
beyond how many groups are expected. -/
namespace TokenRules.Pattern

namespace Node

/-- The node without the numbers of its conditions. -/
def erase : Node → Node
  | .empty => .empty
  | .chars set => .chars set
  | .anchor condition => .anchor condition
  | .seq a b => .seq a.erase b.erase
  | .alt a b => .alt a.erase b.erase
  | .loop appetite least most body => .loop appetite least most body.erase
  | .scope body => .scope body.erase
  | .group index body => .group index body.erase
  | .backref index folding => .backref index folding
  | .look direction negated body => .look direction negated body.erase
  | .atomic body => .atomic body.erase
  | .conditional _ held unheld => .conditional 0 held.erase unheld.erase

theorem structural_erase : Structural erase where
  empty := rfl
  chars _ := rfl
  seq _ _ := rfl
  alt _ _ := rfl
  parts node := by
    induction node with
    | seq a b iha ihb => simp only [erase, parts, List.map_append, iha, ihb]
    | _ => rfl
  charSet? node := by cases node <;> rfl
  isLeaf node := by cases node <;> rfl
  leaf node other leaf := by cases node <;> cases other <;> simp_all [erase, isLeaf]

theorem width_erase (groups : Nat → Width) (node : Node) :
    node.erase.width groups = node.width groups := by
  induction node with
  | seq a b iha ihb | alt a b iha ihb => simp only [erase, width, iha, ihb]
  | conditional index held unheld iha ihb => simp only [erase, width, iha, ihb]
  | loop appetite least most body ih => simp only [erase, width, ih]
  | scope body ih | group index body ih | atomic body ih => exact ih
  | empty | chars | anchor | look | backref => rfl

end Node

def Opener.erase : Opener → Opener
  | .condition _ => .condition 0
  | opener => opener

def Item.erase (item : Item) : Item :=
  { item with node := item.node.erase }

namespace Level

def erase (l : Level) : Level where
  opener := l.opener.erase
  flags := l.flags
  limit := l.limit
  alternatives := l.alternatives.map Node.erase
  items := l.items.map Item.erase

theorem sequence_erase (l : Level) : l.erase.sequence = l.sequence.erase := by
  rw [sequence, sequence, ← Node.structural_erase.ofSequence]
  simp [erase, Item.erase, Function.comp_def]

theorem node_erase (l : Level) : l.erase.node = l.node.erase := by
  rw [node, node, ← Node.structural_erase.ofAlternatives, sequence_erase]
  simp [erase]

theorem branches_erase (l : Level) :
    l.erase.branches = (l.branches.1.erase, l.branches.2.erase) := by
  rw [branches, branches, sequence_erase]
  cases same : l.alternatives <;> simp [erase, same, Node.erase]

theorem alternate_erase (l : Level) : l.alternate.erase = l.erase.alternate := by
  rw [alternate, alternate, sequence_erase]
  rfl

end Level

namespace Reading

/-- The reading without the numbers of its conditions. -/
def erase (r : Reading) : Reading where
  level := r.level.erase
  outer := r.outer.map Level.erase
  groups := r.groups
  expected := 0
  deferred := r.deferred

theorem enter_erase (r : Reading) (opener : Opener) (flags : Flags) :
    (r.enter opener flags).erase = r.erase.enter opener.erase flags := by
  cases opener <;> rfl

theorem alternate_erase (r : Reading) : r.alternate.map erase = r.erase.alternate := by
  have next : erase { r with level := r.level.alternate } =
      { r.erase with level := r.erase.level.alternate } := by
    simp only [erase, Level.alternate_erase]
  have opener : r.erase.level.opener = r.level.opener.erase := rfl
  have alternatives : r.erase.level.alternatives = r.level.alternatives.map Node.erase := rfl
  rw [alternate, alternate, ← next, opener, alternatives]
  cases r.level.opener <;> cases r.level.alternatives <;> rfl

theorem capture_erase (r : Reading) (name : Option Text) :
    (r.capture name).map erase = r.erase.capture name := by
  cases name with
  | none => rfl
  | some name =>
    have groups : r.erase.groups = r.groups := rfl
    simp only [capture, groups]
    cases r.groups.names.lookup name <;> rfl

theorem refer_erase (r : Reading) (index : Nat) : (r.refer index).map erase = r.erase.refer index := by
  have groups : r.erase.groups = r.groups := rfl
  have limit : r.erase.level.limit = r.level.limit := rfl
  rw [refer, refer, groups, limit]
  split <;> rfl

theorem loop_erase (r : Reading) (repetition : Repetition) (manner : Manner) :
    (r.loop (repetition.looped manner)).map erase = r.erase.loop (repetition.looped manner) := by
  obtain ⟨⟨opener, ⟨_, _, _, _, _, _, template⟩, limit, alternatives, items⟩, outer, groups, expected,
    deferred⟩ := r
  cases items with
  | nil => rfl
  | cons item items =>
    obtain ⟨node, kind⟩ := item
    cases kind with
    | anchor | loop => rfl
    | other => cases template <;> cases manner <;> rfl

/-- Leaving a group needs none of the numbers. -/
theorem leave_erase (r : Reading) : r.leave?.map erase = r.erase.leave? := by
  obtain ⟨level, outer, groups, expected, deferred⟩ := r
  cases outer with
  | nil => rfl
  | cons around outer =>
    have node := level.node_erase
    have branches := level.branches_erase
    have width : level.erase.node.width groups.width = level.node.width groups.width := by
      rw [node, Node.width_erase]
    have opener : level.erase.opener = level.opener.erase := rfl
    simp only [leave?, erase, List.map_cons, opener, width]
    cases level.opener with
    | look behind negated =>
      cases behind with
      | false => simp only [Opener.erase, node]; rfl
      | true =>
        simp only [Opener.erase, node]
        cases (level.node.width groups.width).fixed? <;> rfl
    | condition index => simp only [Opener.erase, branches]; rfl
    | plain | scope | atomic | capture index => simp only [Opener.erase, node]; rfl

theorem leave_expected {r : Reading} (left : r.leave? = some r') : r'.expected = r.expected := by
  simp only [leave?] at left
  split at left
  · contradiction
  · split at left
    case h_7 =>
      split at left
      all_goals exact Option.some.inj left ▸ rfl
    all_goals exact Option.some.inj left ▸ rfl

theorem setFlags_erase (r : Reading) (added : Flags) :
    (r.setFlags added).map erase = r.erase.setFlags added := by
  have opening : (r.erase.outer.isEmpty && r.erase.level.isFresh) =
      (r.outer.isEmpty && r.level.isFresh) := by
    simp [erase, Level.erase, Level.isFresh]
  rw [setFlags, setFlags, opening]
  split <;> rfl

end Reading

namespace Part

/-- A part that is no condition does the same to a reading without the numbers of its conditions. -/
theorem apply_erase {p : Part} (unconditional : ∀ name, p ≠ .condition name) (r : Reading) :
    (p.apply r).map Reading.erase = p.apply r.erase := by
  cases p with
  | nothing | chars set | anchor place => rfl
  | loop repetition manner => exact r.loop_erase repetition manner
  | alternative => exact r.alternate_erase
  | plainGroup | atomicGroup | look behind negated | scope added removed =>
    exact congrArg Except.ok (r.enter_erase _ _)
  | capture name => exact r.capture_erase name
  | condition name => exact absurd rfl (unconditional name)
  | numberedReference index => exact r.refer_erase index
  | namedReference name =>
    have groups : r.erase.groups = r.groups := rfl
    simp only [apply, groups]
    cases r.groups.names.lookup name with
    | none => rfl
    | some index => exact r.refer_erase index
  | flags added => exact r.setFlags_erase added
  | close =>
    have left := r.leave_erase
    simp only [apply]
    rw [← left]
    cases r.leave? <;> rfl

/-- Only a condition expects a group. -/
theorem apply_expected {p : Part} (unconditional : ∀ name, p ≠ .condition name)
    (applied : p.apply r = .ok r') : r'.expected = r.expected := by
  have refers : ∀ {index}, r.refer index = .ok r' → r'.expected = r.expected := by
    intro index applied
    simp only [Reading.refer] at applied
    split at applied
    · exact Except.ok.inj applied ▸ rfl
    · contradiction
  cases p with
  | nothing | chars set | anchor place | plainGroup | atomicGroup | look behind negated
  | scope added removed => exact Except.ok.inj applied ▸ rfl
  | loop repetition manner =>
    simp only [apply, Reading.loop] at applied
    split at applied
    · split at applied <;> exact Except.ok.inj applied ▸ rfl
    · contradiction
  | alternative =>
    simp only [apply, Reading.alternate] at applied
    split at applied
    · contradiction
    · exact Except.ok.inj applied ▸ rfl
  | capture name =>
    simp only [apply, Reading.capture] at applied
    split at applied
    · exact Except.ok.inj applied ▸ rfl
    · split at applied
      · contradiction
      · exact Except.ok.inj applied ▸ rfl
  | condition name => exact absurd rfl (unconditional name)
  | numberedReference index => exact refers applied
  | namedReference name =>
    simp only [apply] at applied
    split at applied
    · exact refers applied
    · contradiction
  | flags added =>
    simp only [apply, Reading.setFlags] at applied
    split at applied
    · exact Except.ok.inj applied ▸ rfl
    · contradiction
  | close =>
    simp only [apply] at applied
    split at applied
    · next left =>
      rw [Except.ok.inj applied] at left
      exact Reading.leave_expected left
    · contradiction

end Part

/-- The reading `s` is `t` with other numbers in its conditions, and expects no more groups. -/
structure Recast (s t : Reading) : Prop where
  erased : s.erase = t.erase
  expected : s.expected ≤ t.expected

namespace Recast

theorem refl (s : Reading) : Recast s s := ⟨rfl, Nat.le_refl _⟩

theorem groups (recast : Recast s t) : s.groups = t.groups :=
  show s.erase.groups = t.erase.groups by rw [recast.erased]

theorem deferred (recast : Recast s t) : s.deferred = t.deferred :=
  show s.erase.deferred = t.erase.deferred by rw [recast.erased]

theorem flags (recast : Recast s t) : s.flags = t.flags :=
  show s.erase.flags = t.erase.flags by rw [recast.erased]

theorem limit (recast : Recast s t) : s.level.limit = t.level.limit :=
  show s.erase.level.limit = t.erase.level.limit by rw [recast.erased]

/-- A part that is no condition can be read in the one as in the other. -/
theorem apply {p : Part} (recast : Recast s t) (unconditional : ∀ name, p ≠ .condition name)
    (applied : p.apply t = .ok t') : ∃ s', p.apply s = .ok s' ∧ Recast s' t' := by
  have same := Part.apply_erase unconditional s
  rw [recast.erased, ← Part.apply_erase unconditional t, applied] at same
  cases applied' : p.apply s with
  | error fault =>
    rw [applied'] at same
    contradiction
  | ok s' =>
    rw [applied'] at same
    refine ⟨s', rfl, Except.ok.inj same, ?_⟩
    rw [Part.apply_expected unconditional applied, Part.apply_expected unconditional applied']
    exact recast.expected

/-- A group that is left in the one is left in the other. -/
theorem leave (recast : Recast s t) (left : t.leave? = some t') :
    ∃ s', s.leave? = some s' ∧ Recast s' t' := by
  have applied : Part.close.apply t = .ok t' := by simp only [Part.apply, left]
  obtain ⟨s', applied', recast'⟩ := recast.apply (fun _ => Part.noConfusion) applied
  simp only [Part.apply] at applied'
  split at applied'
  · next left' => exact ⟨s', Except.ok.inj applied' ▸ left', recast'⟩
  · contradiction

/-- Conditions on any two groups leave the same, as far as both can be read. -/
theorem condition (recast : Recast s t) (fewer : i ≤ j) (applied : s.condition i = .ok s')
    (applied' : t.condition j = .ok t') : Recast s' t' := by
  simp only [Reading.condition] at applied applied'
  split at applied
  · split at applied'
    · obtain rfl := Except.ok.inj applied
      obtain rfl := Except.ok.inj applied'
      have entered : ∀ (r : Reading) (index expected : Nat),
          (Reading.enter { r with expected } (.condition index) r.flags).erase =
            r.erase.enter (.condition 0) r.erase.flags := fun _ _ _ => rfl
      refine ⟨?_, ?_⟩
      · rw [entered, entered, recast.erased]
      · have expected := recast.expected
        change max s.expected i ≤ max t.expected j
        omega
    · contradiction
  · contradiction

end Recast
end TokenRules.Pattern
