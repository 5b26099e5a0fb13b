import TokenRules.Proofs.Pattern.Reads
import TokenRules.Proofs.Pattern.Renumber

/-! A source read in the midst of a larger one. Its groups come after those that opened earlier, so
they are renumbered. What is read of the source follows what is read of it alone, as long as it refers
to no group by a number and sets no flags of the whole pattern. -/
namespace TokenRules.Pattern

namespace Flags

/-- The flags that a part of a source can depend on. -/
def core (f : Flags) : Flags :=
  { f with unicode := false, template := false }

theorem within_core {f g : Flags} (same : f.core = g.core) (added removed : Flags) :
    (f.within added removed).core = (g.within added removed).core := by
  simp only [core, mk.injEq] at same
  simp [core, within, same]

end Flags

theorem Reader.part_core [CharacterNames] (f : Flags) (t : Token) (ts : List Token) :
    part f.core t ts = part f t ts := by
  cases t <;> rfl

theorem Reader.part_congr [CharacterNames] {f g : Flags} (same : f.core = g.core) (t : Token)
    (ts : List Token) :
    part f t ts = part g t ts := by
  rw [← part_core f, same, part_core]

def Opener.shift (d : Nat) : Opener → Opener
  | .capture index => .capture (index + d)
  | .condition index => .condition (index + d)
  | opener => opener

def Item.shift (d : Nat) (item : Item) : Item :=
  { item with node := item.node.shift d }

/-- A level whose groups are renumbered. -/
structure Level.Moved (d : Nat) (l m : Level) : Prop where
  flags : m.flags.core = l.flags.core
  limit : m.limit = l.limit.map (· + d)
  alternatives : m.alternatives = l.alternatives.map (Node.shift d)
  items : m.items = l.items.map (Item.shift d)

namespace Level.Moved

theorem add (moved : Moved d l m) (node : Node) (kind : ItemKind) :
    Moved d (l.add ⟨node, kind⟩) (m.add ⟨node.shift d, kind⟩) :=
  ⟨moved.flags, moved.limit, moved.alternatives, by simp [Level.add, moved.items, Item.shift]⟩

theorem sequence (moved : Moved d l m) : m.sequence = l.sequence.shift d := by
  rw [Level.sequence, Level.sequence, ← (Node.structural_shift d).ofSequence, moved.items]
  simp [Item.shift, Function.comp_def]

theorem alternate (moved : Moved d l m) : Moved d l.alternate m.alternate :=
  ⟨moved.flags, moved.limit, by simp [Level.alternate, moved.sequence, moved.alternatives], rfl⟩

theorem node (moved : Moved d l m) : m.node = l.node.shift d := by
  rw [Level.node, Level.node, ← (Node.structural_shift d).ofAlternatives, moved.sequence, moved.alternatives]
  simp

theorem branches (moved : Moved d l m) :
    m.branches = (l.branches.1.shift d, l.branches.2.shift d) := by
  simp only [Level.branches, moved.alternatives, moved.sequence]
  cases l.alternatives <;> rfl

theorem opened (opener opener' : Opener) {f g : Flags} (flags : g.core = f.core)
    (limit : k' = k.map (· + d)) : Moved d (.opened opener f k) (.opened opener' g k') :=
  ⟨flags, limit, rfl, rfl⟩

end Level.Moved

/-- The groups of a source after the groups that opened before it, the last of which is still open. -/
structure Groups.Moved (d : Nat) (before g h : Groups) : Prop where
  count : h.count = g.count + d
  names : h.names = g.names.map (fun (name, index) => (name, index + d)) ++ before.names
  widths : h.widths = g.widths.map (fun (index, width) => (index + d, width)) ++ before.widths
  earlier : ∀ entry ∈ before.widths, entry.1 < d

namespace Groups.Moved

theorem widths_lookup (moved : Moved d before g h) (index : Nat) :
    h.widths.lookup (index + d) = g.widths.lookup index := by
  have old : before.widths.lookup (index + d) = none := by
    rw [List.lookup_eq_none_iff]
    intro entry member
    have := moved.earlier entry member
    simp only [bne_iff_ne, ne_eq]
    omega
  rw [moved.widths, List.lookup_append, old, Option.or_none]
  induction g.widths with
  | nil => rfl
  | cons entry entries ih =>
    obtain ⟨i, width⟩ := entry
    simp only [List.map_cons, List.lookup_cons, beq_shift, ih]

theorem width (moved : Moved d before g h) (index : Nat) :
    h.width (index + d) = g.width index := by
  rw [Groups.width, Groups.width, moved.widths_lookup]

theorem isClosed (moved : Moved d before g h) (index : Nat) :
    h.isClosed (index + d) = g.isClosed index := by
  rw [Groups.isClosed, Groups.isClosed, moved.widths_lookup]

/-- A name of the source's own goes before an earlier one. -/
theorem names_lookup (moved : Moved d before g h) (own : g.names.lookup name = some index) :
    h.names.lookup name = some (index + d) := by
  have found : (g.names.map fun (name, index) => (name, index + d)).lookup name =
      some (index + d) := by
    revert own
    induction g.names with
    | nil => simp
    | cons entry entries ih =>
      obtain ⟨other, i⟩ := entry
      simp only [List.map_cons, List.lookup_cons]
      cases name == other
      · exact ih
      · rintro ⟨⟩
        rfl
  rw [moved.names, List.lookup_append, found, Option.some_or]

end Groups.Moved
/-- The open groups of a source, inside those that were open already. Its outermost level is one of
theirs. -/
inductive Stacked (d : Nat) (base : Level) (context : List Level) :
    Level → List Level → Level → List Level → Prop
  | outermost (moved : l.Moved d m) (opener : m.opener = base.opener) (flags : m.flags = base.flags) :
    Stacked d base context l [] m context
  | inner (moved : l.Moved d m) (opener : m.opener = l.opener.shift d)
    (outer : Stacked d base context l' ls m' ms) : Stacked d base context l (l' :: ls) m (m' :: ms)

namespace Stacked

theorem moved (stacked : Stacked d base context l ls m ms) : l.Moved d m := by
  cases stacked <;> assumption

/-- What a level holds may change, but not how it was opened. -/
theorem update (stacked : Stacked d base context l ls m ms) (moved : l'.Moved d m')
    (opener : l'.opener = l.opener) (opener' : m'.opener = m.opener) (flags : m'.flags = m.flags) :
    Stacked d base context l' ls m' ms := by
  cases stacked with
  | outermost _ same same' => exact .outermost moved (opener'.trans same) (flags.trans same')
  | inner _ same outer => exact .inner moved (by rw [opener', same, opener]) outer

theorem nested (stacked : Stacked d base context l ls m ms) (inside : context ≠ []) : ms ≠ [] := by
  cases stacked with
  | outermost => exact inside
  | inner => simp

theorem base_of_nil (stacked : Stacked d base context l [] m ms) :
    ms = context ∧ m.opener = base.opener ∧ m.flags = base.flags := by
  cases stacked with
  | outermost _ opener flags => exact ⟨rfl, opener, flags⟩

end Stacked

/-- The reading `s` goes through a source in the midst of a larger one as `r` does through it alone. -/
structure Follows (d : Nat) (before : Groups) (base : Level) (context : List Level)
    (r s : Reading) : Prop where
  stacked : Stacked d base context r.level r.outer s.level s.outer
  groups : Groups.Moved d before r.groups s.groups

/-- Whether a part refers to no group by its number. -/
def Part.isPortable : Part → Bool
  | .condition name => Text.isIdentifier name
  | .numberedReference _ => false
  | _ => true

namespace Follows

variable {d : Nat} {before : Groups} {base : Level} {context : List Level}
  {r s r' s' : Reading}

theorem flags (follows : Follows d before base context r s) : s.flags.core = r.flags.core :=
  follows.stacked.moved.flags

theorem add (follows : Follows d before base context r s) (node : Node) (kind : ItemKind) :
    Follows d before base context (r.add node kind) (s.add (node.shift d) kind) :=
  ⟨follows.stacked.update (follows.stacked.moved.add node kind) rfl rfl rfl, follows.groups⟩

/-- A deferred fault concerns neither levels nor groups. -/
theorem defer (follows : Follows d before base context r s) :
    Follows d before base context r.defer s.defer :=
  ⟨follows.stacked, follows.groups⟩

theorem enter (follows : Follows d before base context r s) (opener : Opener) {f g : Flags}
    (flags : g.core = f.core) :
    Follows d before base context (r.enter opener f) (s.enter (opener.shift d) g) := by
  refine ⟨.inner (.opened _ _ flags ?_) rfl follows.stacked, follows.groups⟩
  have limit := follows.stacked.moved.limit
  have count := follows.groups.count
  cases opener with
  | look behind negated =>
    cases behind with
    | false => exact limit
    | true =>
      simp only [Opener.shift, limit, count]
      cases r.level.limit
      · simp only [Option.map_none, Option.none_or, Option.map_some, Option.some.injEq]
        omega
      · rfl
  | _ => exact limit

theorem capture (follows : Follows d before base context r s) (alone : r.capture name = .ok r')
    (spliced : s.capture name = .ok s') : Follows d before base context r' s' := by
  have numbered : ∀ names names',
      names' = names.map (fun (name, index) => (name, index + d)) ++ before.names →
      Follows d before base context
        ({ r with groups := { r.groups with count := r.groups.count + 1, names } }.enter
          (.capture (r.groups.count + 1)) r.flags)
        ({ s with groups := { s.groups with count := s.groups.count + 1, names := names' } }.enter
          (.capture (s.groups.count + 1)) s.flags) := by
    intro names names' same
    have moved : Groups.Moved d before { r.groups with count := r.groups.count + 1, names }
        { s.groups with count := s.groups.count + 1, names := names' } :=
      ⟨by simp only [follows.groups.count]; omega, same, follows.groups.widths, follows.groups.earlier⟩
    have index : Opener.capture (s.groups.count + 1) = (Opener.capture (r.groups.count + 1)).shift d := by
      simp only [Opener.shift, follows.groups.count, Opener.capture.injEq]
      omega
    rw [index]
    exact Follows.enter (r := { r with groups := { r.groups with count := r.groups.count + 1, names } })
      (s := { s with groups := { s.groups with count := s.groups.count + 1, names := names' } })
      ⟨follows.stacked, moved⟩ _ follows.flags
  simp only [Reading.capture] at alone spliced
  cases name with
  | none =>
    exact Except.ok.inj alone ▸ Except.ok.inj spliced ▸ numbered _ _ follows.groups.names
  | some name =>
    simp only at alone spliced
    split at alone
    · simp at alone
    · split at spliced
      · simp at spliced
      · refine Except.ok.inj alone ▸ Except.ok.inj spliced ▸ numbered _ _ ?_
        simp only [follows.groups.names, follows.groups.count, List.map_cons, List.cons_append,
          List.cons.injEq, Prod.mk.injEq, true_and, and_true]
        omega

theorem looped_shift (repetition : Repetition) (manner : Manner) (d : Nat) (node : Node) :
    (repetition.looped manner node).shift d = repetition.looped manner (node.shift d) := by
  cases manner <;> rfl

theorem loop {repetition : Repetition} {manner : Manner}
    (follows : Follows d before base context r s)
    (alone : r.loop (repetition.looped manner) = .ok r')
    (spliced : s.loop (repetition.looped manner) = .ok s') :
    Follows d before base context r' s' := by
  simp only [Reading.loop] at alone
  split at alone
  · next node items same =>
    have moved := follows.stacked.moved
    have same' : s.level.items = ⟨node.shift d, .other⟩ :: items.map (Item.shift d) := by
      rw [moved.items, same]
      rfl
    simp only [Reading.loop, same'] at spliced
    have looped : Follows d before base context
        { r with level := { r.level with items := ⟨repetition.looped manner node, .loop⟩ :: items } }
        { s with level := { s.level with items :=
          ⟨repetition.looped manner (node.shift d), .loop⟩ :: items.map (Item.shift d) } } :=
      ⟨follows.stacked.update ⟨moved.flags, moved.limit, moved.alternatives,
        by simp [Item.shift, looped_shift]⟩ rfl rfl rfl, follows.groups⟩
    obtain rfl := Except.ok.inj alone
    obtain rfl := Except.ok.inj spliced
    split <;> split <;> exact ⟨looped.stacked, looped.groups⟩
  · simp at alone

theorem alternate (follows : Follows d before base context r s) (alone : r.alternate = .ok r')
    (spliced : s.alternate = .ok s') : Follows d before base context r' s' := by
  simp only [Reading.alternate] at alone spliced
  split at alone
  · simp at alone
  · split at spliced
    · simp at spliced
    · obtain rfl := Except.ok.inj alone
      obtain rfl := Except.ok.inj spliced
      exact ⟨follows.stacked.update follows.stacked.moved.alternate rfl rfl rfl, follows.groups⟩

theorem folding {f g : Flags} (same : f.core = g.core) : Folding.ofFlags f = Folding.ofFlags g := by
  have core (f : Flags) : Folding.ofFlags f = Folding.ofFlags f.core := rfl
  rw [core f, same, ← core]

theorem refer (follows : Follows d before base context r s) (alone : r.refer index = .ok r')
    (spliced : s.refer (index + d) = .ok s') : Follows d before base context r' s' := by
  simp only [Reading.refer] at alone spliced
  split at alone
  · split at spliced
    · obtain rfl := Except.ok.inj alone
      obtain rfl := Except.ok.inj spliced
      rw [folding follows.flags]
      exact follows.add (.backref index (Folding.ofFlags r.flags)) .other
    · simp at spliced
  · simp at alone

theorem condition (follows : Follows d before base context r s) (alone : r.condition index = .ok r')
    (spliced : s.condition (index + d) = .ok s') : Follows d before base context r' s' := by
  simp only [Reading.condition] at alone spliced
  split at alone
  · split at spliced
    · obtain rfl := Except.ok.inj alone
      obtain rfl := Except.ok.inj spliced
      exact Follows.enter (r := { r with expected := max r.expected index })
        (s := { s with expected := max s.expected (index + d) })
        ⟨follows.stacked, follows.groups⟩ (.condition index) follows.flags
    · simp at spliced
  · simp at alone

/-- Leaving a group leaves its node in the level around it, and its width if it captures. -/
theorem leave (follows : Follows d before base context r s) (alone : r.leave? = some r')
    (spliced : s.leave? = some s') : Follows d before base context r' s' := by
  obtain ⟨stacked, groups⟩ := follows
  cases r with | mk level outer groupsR expected deferred =>
  cases s with | mk level' outer' groupsS expected' deferred' =>
  dsimp only at stacked groups
  cases stacked with
  | outermost => simp [Reading.leave?] at alone
  | inner moved opener inside =>
    next l ls m ms =>
    have width : level'.node.width groupsS.width = level.node.width groupsR.width := by
      rw [moved.node, Node.width_shift groups.width]
    have node := moved.node
    simp only [Reading.leave?] at alone spliced
    have back : ∀ expected expected' deferred deferred', Follows d before base context
        ⟨l, ls, groupsR, expected, deferred⟩ ⟨m, ms, groupsS, expected', deferred'⟩ :=
      fun _ _ _ _ => ⟨inside, groups⟩
    -- Both readings go back to the level around, and what the opener makes of the node is added there.
    cases same : level.opener with
    | plain =>
      simp only [opener, same, Opener.shift, node, Option.some.injEq] at alone spliced
      exact alone ▸ spliced ▸ (back ..).add level.node .other
    | scope =>
      simp only [opener, same, Opener.shift, node, Option.some.injEq] at alone spliced
      exact alone ▸ spliced ▸ (back ..).add (.scope level.node) .other
    | atomic =>
      simp only [opener, same, Opener.shift, node, Option.some.injEq] at alone spliced
      exact alone ▸ spliced ▸ (back ..).add (.atomic level.node) .other
    | condition index =>
      simp only [opener, same, Opener.shift, moved.branches, Option.some.injEq] at alone spliced
      exact alone ▸ spliced ▸ (back ..).add
        (.conditional index level.branches.1 level.branches.2) .other
    | capture index =>
      simp only [opener, same, Opener.shift, node, Option.some.injEq] at alone spliced
      have wider : Groups.Moved d before
          { groupsR with widths := (index, level.node.width groupsR.width) :: groupsR.widths }
          { groupsS with widths := (index + d, level'.node.width groupsS.width) :: groupsS.widths } :=
        ⟨groups.count, groups.names, by simp [width, groups.widths], groups.earlier⟩
      rw [node] at wider
      exact alone ▸ spliced ▸ (Follows.mk inside wider).add (.group index level.node) .other
    | look behind negated =>
      cases behind with
      | false =>
        simp only [opener, same, Opener.shift, node, Option.some.injEq] at alone spliced
        exact alone ▸ spliced ▸ (back ..).add (.look .ahead negated level.node) .other
      | true =>
        simp only [opener, same, Opener.shift, width] at alone spliced
        rw [node] at spliced
        have looking : ∀ distance, Follows d before base context
            ((Reading.mk l ls groupsR expected deferred).add
              (.look (.behind distance) negated level.node) .other)
            ((Reading.mk m ms groupsS expected' deferred').add
              (.look (.behind distance) negated (level.node.shift d)) .other) :=
          fun distance => (back ..).add (.look (.behind distance) negated level.node) .other
        split at alone
        · next distance fixed =>
          simp only [fixed, Option.some.injEq] at alone spliced
          exact alone ▸ spliced ▸ looking distance
        · next fixed =>
          simp only [fixed, Option.some.injEq] at alone spliced
          exact alone ▸ spliced ▸ (looking 0).defer

theorem conditionIndex (follows : Follows d before base context r s) (named : Text.isIdentifier name)
    (own : Part.conditionIndex? name r = some index) :
    Part.conditionIndex? name s = some (index + d) := by
  simp only [Part.conditionIndex?, named, if_true] at own ⊢
  exact follows.groups.names_lookup own

/-- What one part does alone it does in the midst of a larger source too. -/
theorem apply {p : Part} (follows : Follows d before base context r s) (portable : p.isPortable)
    (inside : context ≠ []) (alone : p.apply r = .ok r') (spliced : p.apply s = .ok s') :
    Follows d before base context r' s' := by
  have flags := follows.flags
  cases p with
  | nothing => exact Except.ok.inj alone ▸ Except.ok.inj spliced ▸ follows
  | chars set => exact Except.ok.inj alone ▸ Except.ok.inj spliced ▸ follows.add (.chars set) .other
  | anchor place =>
    exact Except.ok.inj alone ▸ Except.ok.inj spliced ▸ follows.add (.anchor place) .anchor
  | loop repetition manner => exact follows.loop alone spliced
  | alternative => exact follows.alternate alone spliced
  | plainGroup => exact Except.ok.inj alone ▸ Except.ok.inj spliced ▸ follows.enter .plain flags
  | atomicGroup => exact Except.ok.inj alone ▸ Except.ok.inj spliced ▸ follows.enter .atomic flags
  | look behind negated =>
    exact Except.ok.inj alone ▸ Except.ok.inj spliced ▸ follows.enter (.look behind negated) flags
  | scope added removed =>
    exact Except.ok.inj alone ▸ Except.ok.inj spliced ▸
      follows.enter .scope (Flags.within_core flags added removed)
  | capture name => exact follows.capture alone spliced
  | condition name =>
    simp only [Part.apply] at alone spliced
    split at alone
    · next index own =>
      rw [follows.conditionIndex portable own] at spliced
      exact follows.condition alone spliced
    · simp at alone
  | numberedReference index => simp [Part.isPortable] at portable
  | namedReference name =>
    simp only [Part.apply] at alone spliced
    split at alone
    · next index own =>
      rw [follows.groups.names_lookup own] at spliced
      exact follows.refer alone spliced
    · simp at alone
  | flags added =>
    -- Flags of the whole pattern are refused inside a group.
    have nested := follows.stacked.nested inside
    simp [Part.apply, Reading.setFlags, nested] at spliced
  | close =>
    simp only [Part.apply] at alone spliced
    split at alone
    · split at spliced
      · next left _ _ left' =>
        exact follows.leave (Except.ok.inj alone ▸ left) (Except.ok.inj spliced ▸ left')
      · simp at spliced
    · simp at alone

end Follows
theorem Follows.verbose (follows : Follows d before base context r s) :
    s.flags.verbose = r.flags.verbose := by
  change s.flags.core.verbose = r.flags.core.verbose
  rw [follows.flags]

/-- What stands between a source and the parenthesis that closes the group around it. -/
def guarded (verbose : Bool) (more : List Token) : List Token :=
  if verbose then .plain Sign.lineFeed :: .plain Sign.rightParen :: more
  else .plain Sign.rightParen :: more

theorem stops_guarded (verbose : Bool) (more : List Token) : Stops (guarded verbose more) := by
  cases verbose
  · exact ⟨_, .inl rfl⟩
  · exact ⟨_, .inr rfl⟩

variable [CharacterNames]

/-- A line feed before the closing parenthesis is skipped. -/
theorem read_guarded (s : Reading) (more : List Token) :
    Reader.read (guarded s.flags.verbose more) s = Reader.read (.plain Sign.rightParen :: more) s := by
  cases verbose : s.flags.verbose with
  | false => rfl
  | true =>
    have skipped : Reader.part s.flags (.plain Sign.lineFeed) (.plain Sign.rightParen :: more) =
        .ok (.nothing, .plain Sign.rightParen :: more) := by
      simp only [Reader.part, Reader.plain, verbose]
      rfl
    simp only [guarded, if_true, Reader.read_cons _ (.plain Sign.rightParen :: more), skipped, Except.bind,
      Part.apply]

/-- A source that reads alone reads the same in the midst of a larger one, if that reads at all. -/
theorem Reads.splice (reads : Reads ts r ps last) (portable : ∀ p ∈ ps, p.isPortable)
    (inside : context ≠ []) (follows : Follows d before base context r s)
    (whole : Reader.read (ts ++ guarded base.flags.verbose more) s = .ok final) :
    ∃ s', Follows d before base context last s' ∧
      s'.outer = context ∧ s'.level.opener = base.opener ∧
      Reader.read (.plain Sign.rightParen :: more) s' = .ok final := by
  induction reads generalizing s with
  | @finish r finished =>
    obtain ⟨outer, opener, flags⟩ := (Reader.finish_outer finished ▸ follows.stacked).base_of_nil
    rw [← flags] at whole
    exact ⟨s, follows, outer, opener, read_guarded s more ▸ whole⟩
  | @part r t ts p rest r' ps last next applied more' ih =>
    obtain ⟨p', rest', s', next', applied', whole'⟩ := Reader.read_cons_ok whole
    rw [Reader.part_congr follows.flags] at next'
    rcases (Reader.part_append next).2 _ (stops_guarded base.flags.verbose more) with same | comment
    · obtain ⟨rfl, rfl⟩ := Prod.mk.inj (Except.ok.inj (next'.symm.trans same))
      exact ih (fun p member => portable p (List.mem_cons_of_mem _ member))
        (follows.apply (portable _ List.mem_cons_self) inside applied applied') whole'
    · -- The comment goes up to the line feed that stands there for this.
      obtain ⟨rfl, rfl, verbose, same⟩ := comment
      obtain ⟨rfl, rfl⟩ := Prod.mk.inj (Except.ok.inj (next'.symm.trans same))
      obtain rfl := Except.ok.inj applied
      obtain rfl := Except.ok.inj applied'
      cases more' with
      | finish finished =>
        obtain ⟨outer, opener, flags⟩ := (Reader.finish_outer finished ▸ follows.stacked).base_of_nil
        have guard : base.flags.verbose = true := by
          rw [← flags]
          exact follows.verbose.trans verbose
        rw [guard] at whole'
        exact ⟨s, follows, outer, opener, whole'⟩

/-- A closing parenthesis leaves a group. -/
theorem Reader.read_close (h : read (.plain Sign.rightParen :: more) s = .ok final) :
    ∃ s', s.leave? = some s' ∧ read more s' = .ok final := by
  obtain ⟨p, rest, s', next, applied, h⟩ := read_cons_ok h
  have closes : part s.flags (.plain Sign.rightParen) more = .ok (.close, more) := rfl
  obtain ⟨rfl, rfl⟩ := Prod.mk.inj (Except.ok.inj (closes.symm.trans next))
  simp only [Part.apply] at applied
  split at applied
  · next left => exact ⟨_, left, Except.ok.inj applied ▸ h⟩
  · simp at applied

end TokenRules.Pattern
