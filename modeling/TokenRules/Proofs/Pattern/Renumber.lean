import TokenRules.Pattern.Matching

/-! Renumbered groups. A node whose groups and references all move up by the same number matches in
the same ways, in the same order, and leaves the same captures under the moved numbers. -/
namespace TokenRules.Pattern

/-- The node with every group number moved up. -/
def Node.shift (d : Nat) : Node → Node
  | .empty => .empty
  | .chars set => .chars set
  | .anchor condition => .anchor condition
  | .seq a b => .seq (a.shift d) (b.shift d)
  | .alt a b => .alt (a.shift d) (b.shift d)
  | .loop appetite least most body => .loop appetite least most (body.shift d)
  | .scope body => .scope (body.shift d)
  | .group index body => .group (index + d) (body.shift d)
  | .backref index folding => .backref (index + d) folding
  | .look direction negated body => .look direction negated (body.shift d)
  | .atomic body => .atomic (body.shift d)
  | .conditional index held unheld => .conditional (index + d) (held.shift d) (unheld.shift d)

theorem beq_shift (i j d : Nat) : (i + d == j + d) = (i == j) := by
  rw [Bool.eq_iff_iff]
  simp

namespace State

/-- The state with every group number moved up. -/
def shift (d : Nat) (s : State) : State where
  cursor := s.cursor
  captures := s.captures.map fun (i, capture) => (i + d, capture)
  lastGroup := s.lastGroup.map (· + d)

theorem enter_shift (d index : Nat) (s : State) :
    (s.shift d).enter (index + d) = (s.enter index).shift d := by
  simp only [enter, shift, List.filter_map, State.mk.injEq, true_and, and_true]
  congr 1
  apply List.filter_congr
  rintro ⟨i, capture⟩ -
  simp only [Function.comp_apply, bne, beq_shift]
  rfl

theorem leave_shift (d index : Nat) (start : Cursor) (s : State) :
    (s.shift d).leave (index + d) start = (s.leave index start).shift d := by
  simp only [leave, shift, List.map_cons, List.filter_map, Option.map_some, State.mk.injEq,
    true_and, and_true, List.cons.injEq]
  congr 1
  apply List.filter_congr
  rintro ⟨i, capture⟩ -
  simp [bne, beq_shift]

theorem lookup_shift (d index : Nat) (captures : List (Nat × Capture)) :
    (captures.map fun (i, capture) => (i + d, capture)).lookup (index + d) =
      captures.lookup index := by
  induction captures with
  | nil => rfl
  | cons entry captures ih =>
    obtain ⟨i, capture⟩ := entry
    simp only [List.map_cons, List.lookup_cons, beq_shift, ih]

theorem capture?_shift (d index : Nat) (s : State) :
    (s.shift d).capture? (index + d) = s.capture? index := by
  simp only [capture?, shift, lookup_shift]

theorem holds_shift (d index : Nat) (s : State) :
    (s.shift d).holds (index + d) = s.holds index := by
  simp only [holds, shift, lookup_shift]

theorem consume?_shift (d : Nat) (folding : Folding) (t : Text) (s : State) :
    (s.shift d).consume? folding t = (s.consume? folding t).map (shift d) := by
  induction t generalizing s with
  | nil => rfl
  | cons x rest ih =>
    simp only [consume?]
    cases next : s.cursor.next? with
    | none => simp [shift, next]
    | some step =>
      obtain ⟨y, cursor⟩ := step
      have moved : (s.shift d).cursor.next? = some (y, cursor) := next
      simp only [moved]
      split
      · exact ih { s with cursor }
      · rfl

end State

/-- The matchers agree on states that differ in the numbers of groups only. What the rest of the
match makes of the final states is left open. -/
def Shifts (d : Nat) (M N : Matcher) : Prop :=
  ∀ (g : State → State) (k l : State → Option State), (∀ s, l (s.shift d) = (k s).map g) →
    ∀ s, N (s.shift d) l = (M s k).map g

theorem Shifts.times {M N : Matcher} (shifts : Shifts d M N) (n : Nat) :
    Shifts d (times M n) (times N n) := by
  induction n with
  | zero => exact fun g k l same s => same s
  | succ n ih =>
    intro g k l same s
    exact shifts g _ _ (ih g k l same) s

theorem Shifts.rounds {M N : Matcher} (shifts : Shifts d M N) (appetite : Appetite)
    (bound : Option Nat) : Shifts d (fun s => rounds appetite M bound s)
      (fun s => rounds appetite N bound s) := by
  intro g k l same s
  -- A round that moves forward leaves less of the text.
  induction size : s.left using Nat.strongRecOn generalizing s bound with
  | ind size ih =>
    subst size
    have again : ∀ s', (if (s'.shift d).left < s.left then
          Pattern.rounds appetite N (bound.map (· - 1)) (s'.shift d) l else l (s'.shift d)) =
        (if s'.left < s.left then Pattern.rounds appetite M (bound.map (· - 1)) s' k
          else k s').map g := by
      intro s'
      change (if s'.left < s.left then _ else _) = _
      split
      · exact ih _ ‹_› _ s' rfl
      · exact same s'
    have round := shifts g
      (fun s' => if s'.left < s.left then Pattern.rounds appetite M (bound.map (· - 1)) s' k else k s')
      (fun s' => if s'.left < s.left then Pattern.rounds appetite N (bound.map (· - 1)) s' l else l s')
      again s
    by_cases spent : bound = some 0
    · subst spent
      simpa only [rounds_zero] using same s
    · cases appetite with
      | greedy =>
        simp only [rounds_greedy _ spent, Option.map_or, ← round, ← same s]
        rfl
      | lazy =>
        simp only [rounds_lazy _ spent, Option.map_or, ← round, ← same s]
        rfl

/-- A look-around goes on from where it stands if its body's answer is the one asked for. -/
theorem answer_shift {g : State → State} {k l : State → Option State} (negated : Bool)
    (same : ∀ s, l (s.shift d) = (k s).map g) (s : State) (found : Option State) :
    (match found.map (State.shift d) with
      | some s' => if negated then none else l { s' with cursor := s.cursor }
      | none => if negated then l (s.shift d) else none) =
    (match found with
      | some s' => if negated then none else k { s' with cursor := s.cursor }
      | none => if negated then k s else none).map g := by
  cases found with
  | none => cases negated <;> first | rfl | exact same s
  | some s' => cases negated <;> first | rfl | exact same { s' with cursor := s.cursor }

theorem Shifts.look {body : Node} (shifts : Shifts d body.run (body.shift d).run)
    (direction : Direction) (negated : Bool) :
    Shifts d (Node.look direction negated body).run ((Node.look direction negated body).shift d).run := by
  intro g k l same s
  have inner : ∀ cursor, (body.shift d).run { s.shift d with cursor } some =
      (body.run { s with cursor } some).map (State.shift d) :=
    fun cursor => shifts (State.shift d) some some (fun _ => rfl) { s with cursor }
  have verdict := answer_shift negated same s
  cases direction with
  | ahead =>
    have here : (s.shift d).cursor = s.cursor := rfl
    simp only [Node.shift, Node.run, Option.bind_some, here, inner s.cursor]
    exact verdict _
  | behind distance =>
    simp only [Node.shift, Node.run]
    cases back : s.cursor.back? distance with
    | none =>
      have moved : (s.shift d).cursor.back? distance = none := back
      simp only [moved]
      exact verdict none
    | some cursor =>
      have moved : (s.shift d).cursor.back? distance = some cursor := back
      simp only [moved, Option.bind_some, inner cursor]
      exact verdict _

/-- Renumbering changes no match. -/
theorem Node.run_shift (d : Nat) (node : Node) : Shifts d node.run (node.shift d).run := by
  induction node with
  | empty => exact fun g k l same s => same s
  | chars set =>
    intro g k l same s
    simp only [shift, run]
    cases next : s.cursor.next? with
    | none => simp [State.shift, next]
    | some step =>
      obtain ⟨c, cursor⟩ := step
      have moved : (s.shift d).cursor.next? = some (c, cursor) := next
      simp only [moved]
      split
      · exact same { s with cursor }
      · rfl
  | anchor condition =>
    intro g k l same s
    have cursor : (s.shift d).cursor = s.cursor := rfl
    simp only [shift, run, cursor]
    split
    · exact same s
    · rfl
  | seq a b iha ihb =>
    intro g k l same s
    exact iha g _ _ (ihb g k l same) s
  | alt a b iha ihb =>
    intro g k l same s
    simp only [shift, run, iha g k l same s, ihb g k l same s]
    cases a.run s k <;> rfl
  | loop appetite least most body ih =>
    intro g k l same s
    exact ih.times least g _ _ (ih.rounds appetite _ g k l same) s
  | scope body ih => exact ih
  | group index body ih =>
    intro g k l same s
    simp only [shift, run, State.enter_shift]
    refine ih g _ _ (fun s' => ?_) _
    rw [← same, ← State.leave_shift]
    rfl
  | backref index folding =>
    intro g k l same s
    -- The text of the group is the same under its new number, and it is passed in the same way.
    have consumed : ((s.shift d).capture? (index + d)).bind
        (fun t => (s.shift d).consume? folding t) =
        ((s.capture? index).bind fun t => s.consume? folding t).map (State.shift d) := by
      rw [State.capture?_shift]
      cases s.capture? index with
      | none => rfl
      | some t => exact State.consume?_shift d folding t s
    simp only [shift, run, consumed]
    cases (s.capture? index).bind fun t => s.consume? folding t with
    | none => rfl
    | some s' => exact same s'
  | look direction negated body ih => exact ih.look direction negated
  | atomic body ih =>
    intro g k l same s
    simp only [shift, run, ih (State.shift d) some some (fun _ => rfl) s]
    cases body.run s some with
    | none => rfl
    | some s' => exact same s'
  | conditional index held unheld ihHeld ihUnheld =>
    intro g k l same s
    simp only [shift, run, State.holds_shift]
    split
    · exact ihHeld g k l same s
    · exact ihUnheld g k l same s

namespace Node

theorem shift_injective (d : Nat) : Function.Injective (shift d) := by
  intro a
  induction a with
  | empty | chars | anchor => intro b same; cases b <;> simp_all [shift]
  | seq a a' iha ihb =>
    intro b same
    cases b <;> simp only [shift, reduceCtorEq, seq.injEq] at same
    rw [iha same.1, ihb same.2]
  | alt a a' iha ihb =>
    intro b same
    cases b <;> simp only [shift, reduceCtorEq, alt.injEq] at same
    rw [iha same.1, ihb same.2]
  | conditional index held unheld iha ihb =>
    intro b same
    cases b <;> simp only [shift, reduceCtorEq, conditional.injEq, Nat.add_right_cancel_iff] at same
    rw [same.1, iha same.2.1, ihb same.2.2]
  | backref => intro b same; cases b <;> simp_all [shift]
  | loop appetite least most body ih =>
    intro b same
    cases b <;> simp only [shift, reduceCtorEq, loop.injEq] at same
    rw [same.1, same.2.1, same.2.2.1, ih same.2.2.2]
  | scope body ih | atomic body ih =>
    intro b same
    cases b <;> simp only [shift, reduceCtorEq, scope.injEq, atomic.injEq] at same
    rw [ih same]
  | group index body ih =>
    intro b same
    cases b <;> simp only [shift, reduceCtorEq, group.injEq, Nat.add_right_cancel_iff] at same
    rw [same.1, ih same.2]
  | look direction negated body ih =>
    intro b same
    cases b <;> simp only [shift, reduceCtorEq, look.injEq] at same
    rw [same.1, same.2.1, ih same.2.2]

/-- A map of nodes that changes neither sequences nor sets, and confuses no leaf with another node. -/
structure Structural (f : Node → Node) : Prop where
  empty : f .empty = .empty
  chars : ∀ set, f (.chars set) = .chars set
  seq : ∀ a b, f (.seq a b) = .seq (f a) (f b)
  alt : ∀ a b, f (.alt a b) = .alt (f a) (f b)
  parts : ∀ node, (f node).parts = node.parts.map f
  charSet? : ∀ node, Node.charSet? [f node] = Node.charSet? [node]
  isLeaf : ∀ node, (f node).isLeaf = node.isLeaf
  leaf : ∀ node other, node.isLeaf → (f other = f node ↔ other = node)

namespace Structural

variable {f : Node → Node} (structural : Structural f)
include structural

theorem ofSequence (nodes : List Node) : Node.ofSequence (nodes.map f) = f (Node.ofSequence nodes) := by
  induction nodes with
  | nil => exact structural.empty.symm
  | cons node rest ih =>
    cases rest with
    | nil => rfl
    | cons next rest => simp only [List.map_cons, Node.ofSequence, structural.seq] at ih ⊢; rw [ih]

theorem commonStart (nodes : List Node) (others : List (List Node)) :
    Node.commonStart (nodes.map f) (others.map (List.map f)) = Node.commonStart nodes others := by
  induction nodes generalizing others with
  | nil => rfl
  | cons node nodes ih =>
    have heads : node.isLeaf → (others.map (List.map f)).all (·.head? == some (f node)) =
        others.all (·.head? == some node) := by
      intro leaf
      rw [List.all_map]
      congr 1
      funext nodes
      cases nodes with
      | nil => rfl
      | cons other _ =>
        rw [Bool.eq_iff_iff]
        simp [structural.leaf node other leaf]
    have tails : (others.map (List.map f)).map List.tail = (others.map List.tail).map (List.map f) := by
      simp only [List.map_map, Function.comp_def, List.map_tail]
    simp only [List.map_cons, Node.commonStart, structural.isLeaf]
    cases leaf : node.isLeaf with
    | false => rfl
    | true => rw [heads leaf, tails, ih]

theorem charSets (nodes : List Node) : Node.charSet? (nodes.map f) = Node.charSet? nodes := by
  match nodes with
  | [] => rfl
  | [node] => exact structural.charSet? node
  | _ :: _ :: _ => simp [Node.charSet?]

theorem alternatives (nodes : List Node) :
    ofChoices.alternatives (nodes.map f) = f (ofChoices.alternatives nodes) := by
  induction nodes with
  | nil => exact structural.empty.symm
  | cons node rest ih =>
    cases rest with
    | nil => rfl
    | cons next rest =>
      simp only [List.map_cons, ofChoices.alternatives, structural.alt] at ih ⊢
      rw [ih]

theorem ofChoices (choices : List (List Node)) :
    Node.ofChoices (choices.map (List.map f)) = f (Node.ofChoices choices) := by
  have sets : (choices.map (List.map f)).mapM Node.charSet? = choices.mapM Node.charSet? := by
    rw [List.mapM_map]
    simp only [Function.comp_def, structural.charSets]
  have sequences : (choices.map (List.map f)).map Node.ofSequence =
      (choices.map Node.ofSequence).map f := by
    simp only [List.map_map, Function.comp_def, structural.ofSequence]
  rw [Node.ofChoices, Node.ofChoices, sets, sequences, structural.alternatives]
  cases (choices.mapM Node.charSet?).bind CharSet.union? with
  | some set => exact (structural.chars set).symm
  | none => rfl

theorem ofAlternatives (nodes : List Node) :
    Node.ofAlternatives (nodes.map f) = f (Node.ofAlternatives nodes) := by
  have parted : (nodes.map f).map Node.parts = (nodes.map Node.parts).map (List.map f) := by
    simp only [List.map_map, Function.comp_def, structural.parts]
  simp only [Node.ofAlternatives, parted]
  match nodes.map Node.parts with
  | [] => exact structural.empty.symm
  | [only] => exact structural.ofSequence only
  | first :: second :: others =>
    have shared := structural.commonStart first (second :: others)
    simp only [List.map_cons] at shared
    simp only [List.map_cons, shared]
    rw [← structural.ofSequence]
    simp [← structural.ofChoices, List.map_take, List.map_drop, Function.comp_def]

end Structural

theorem structural_shift (d : Nat) : Structural (shift d) where
  empty := rfl
  chars _ := rfl
  seq _ _ := rfl
  alt _ _ := rfl
  parts node := by
    induction node with
    | seq a b iha ihb => simp only [shift, parts, List.map_append, iha, ihb]
    | _ => rfl
  charSet? node := by cases node <;> rfl
  isLeaf node := by cases node <;> rfl
  leaf _ _ _ := (shift_injective d).eq_iff

/-- References keep their widths if the groups they refer to do. -/
theorem width_shift {g h : Nat → Width} (same : ∀ i, h (i + d) = g i) (node : Node) :
    (node.shift d).width h = node.width g := by
  induction node with
  | backref index folding => exact same index
  | seq a b iha ihb | alt a b iha ihb => simp only [shift, width, iha, ihb]
  | conditional index held unheld iha ihb => simp only [shift, width, iha, ihb]
  | loop appetite least most body ih => simp only [shift, width, ih]
  | scope body ih | group index body ih | atomic body ih => exact ih
  | empty | chars | anchor | look => rfl

end Node
end TokenRules.Pattern
