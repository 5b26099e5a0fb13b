import TokenRules.Pattern.Node

/-! Backtracking match of a node at a position of a text. The text before the position stays in
view, for anchors and look-behind. A node is matched by offering each way to match it, best first,
to the rest of the match; the first way that the rest accepts wins. -/
namespace TokenRules

/-- A position in a text. -/
structure Cursor where
  before : List CodePoint
  after : List CodePoint
  offset : Nat
  left : Nat
  offset_eq : offset = before.length
  left_eq : left = after.length

namespace Cursor

def start (t : Text) : Cursor :=
  ⟨[], t, 0, t.length, rfl, rfl⟩

def next? (c : Cursor) : Option (CodePoint × Cursor) :=
  match h : c.after with
  | [] => none
  | x :: rest =>
    some (x, ⟨x :: c.before, rest, c.offset + 1, c.left - 1,
      by simp [c.offset_eq], by simp [c.left_eq, h]⟩)

/-- The position `n` characters earlier. -/
def back? : Nat → Cursor → Option Cursor
  | 0, c => some c
  | n + 1, c =>
    match h : c.before with
    | [] => none
    | x :: rest =>
      back? n ⟨rest, x :: c.after, c.offset - 1, c.left + 1,
        by simp [c.offset_eq, h], by simp [c.left_eq]⟩

/-- The position `n` characters later, or the end. -/
def advance : Nat → Cursor → Cursor
  | 0, c => c
  | n + 1, c =>
    match c.next? with
    | none => c
    | some (_, c') => advance n c'

end Cursor

namespace Pattern

namespace Anchor

def isWordBefore (ascii : Bool) (c : Cursor) : Bool :=
  c.before.head?.any (CharClass.word.contains ascii)

def isWordAfter (ascii : Bool) (c : Cursor) : Bool :=
  c.after.head?.any (CharClass.word.contains ascii)

/-- An empty text has neither word edges nor places without one. -/
def holds (c : Cursor) : Anchor → Bool
  | .textStart | .opening => c.before.isEmpty
  | .lineStart => c.before.head?.all (· == 0x0A)
  | .textEnd => c.after.isEmpty
  | .closingEnd => c.after.isEmpty || c.after == [0x0A]
  | .lineEnd => c.after.head?.all (· == 0x0A)
  | .wordEdge ascii =>
    !(c.before.isEmpty && c.after.isEmpty) && isWordBefore ascii c != isWordAfter ascii c
  | .noWordEdge ascii =>
    !(c.before.isEmpty && c.after.isEmpty) && isWordBefore ascii c == isWordAfter ascii c

end Anchor

/-- Where the last match of a group starts and stops. -/
structure Capture where
  start : Cursor
  stop : Cursor

def Capture.text (c : Capture) : Text :=
  c.start.after.take (c.stop.offset - c.start.offset)

/-- Where a match has got to, what its groups hold, and which group closed last. -/
structure State where
  cursor : Cursor
  captures : List (Nat × Capture)
  lastGroup : Option Nat

namespace State

def left (s : State) : Nat := s.cursor.left

/-- Enters a group again. Its former match is forgotten, unless it stops here or later. -/
def enter (index : Nat) (s : State) : State :=
  { s with captures := s.captures.filter fun (i, capture) =>
      i != index || s.cursor.offset ≤ capture.stop.offset }

/-- Leaves a group that was entered at a position. -/
def leave (index : Nat) (start : Cursor) (s : State) : State where
  cursor := s.cursor
  captures := (index, ⟨start, s.cursor⟩) :: s.captures.filter (·.1 != index)
  lastGroup := some index

def capture? (s : State) (index : Nat) : Option Text :=
  (s.captures.lookup index).map (·.text)

/-- Whether a group has matched so far. -/
def holds (s : State) (index : Nat) : Bool :=
  (s.captures.lookup index).isSome

/-- Moves past a text, compared under a folding. -/
def consume? (folding : Folding) : Text → State → Option State
  | [], s => some s
  | x :: rest, s =>
    match s.cursor.next? with
    | some (y, cursor) =>
      if folding.apply x == folding.apply y then consume? folding rest { s with cursor } else none
    | none => none

end State

/-- A way to match: offers the states it can end in to the rest of the match, best first. -/
abbrev Matcher := State → (State → Option State) → Option State

/-- Exactly `n` rounds. -/
def times (body : Matcher) : Nat → Matcher
  | 0, s, k => k s
  | n + 1, s, k => body s fun s' => times body n s' k

/-- Any number of rounds, up to a bound. A round that does not move forward is the last. -/
def rounds (appetite : Appetite) (body : Matcher) (bound : Option Nat) (s : State)
    (k : State → Option State) : Option State :=
  if bound == some 0 then k s
  else
    match appetite with
    | .greedy =>
      match body s fun s' =>
        if s'.left < s.left then rounds .greedy body (bound.map (· - 1)) s' k else k s' with
      | some r => some r
      | none => k s
    | .lazy =>
      match k s with
      | some r => some r
      | none =>
        body s fun s' =>
          if s'.left < s.left then rounds .lazy body (bound.map (· - 1)) s' k else k s'
termination_by s.left

theorem rounds_zero (appetite : Appetite) (body : Matcher) (s : State) (k : State → Option State) :
    rounds appetite body (some 0) s k = k s := by
  rw [rounds.eq_def]
  rfl

theorem rounds_greedy (body : Matcher) (more : bound ≠ some 0) (s : State)
    (k : State → Option State) :
    rounds .greedy body bound s k =
      (body s fun s' =>
        if s'.left < s.left then rounds .greedy body (bound.map (· - 1)) s' k else k s').or
      (k s) := by
  rw [rounds.eq_def, if_neg (by simpa using more)]
  dsimp only
  split <;> simp_all

theorem rounds_lazy (body : Matcher) (more : bound ≠ some 0) (s : State)
    (k : State → Option State) :
    rounds .lazy body bound s k = (k s).or
      (body s fun s' =>
        if s'.left < s.left then rounds .lazy body (bound.map (· - 1)) s' k else k s') := by
  rw [rounds.eq_def, if_neg (by simpa using more)]
  dsimp only
  split <;> simp_all

namespace Node

def run : Node → Matcher
  | .empty, s, k => k s
  | .chars set, s, k =>
    match s.cursor.next? with
    | some (c, cursor) => if set.contains c then k { s with cursor } else none
    | none => none
  | .anchor condition, s, k => if condition.holds s.cursor then k s else none
  | .seq a b, s, k => a.run s fun s' => b.run s' k
  | .alt a b, s, k =>
    match a.run s k with
    | some r => some r
    | none => b.run s k
  | .loop appetite least most body, s, k =>
    times body.run least s fun s' => rounds appetite body.run (most.map (· - least)) s' k
  | .scope body, s, k => body.run s k
  | .group index body, s, k => body.run (s.enter index) fun s' => k (s'.leave index s.cursor)
  | .backref index folding, s, k =>
    match (s.capture? index).bind fun t => s.consume? folding t with
    | some s' => k s'
    | none => none
  | .look direction negated body, s, k =>
    let origin := match direction with
      | .ahead => some s.cursor
      | .behind distance => s.cursor.back? distance
    match origin.bind fun cursor => body.run { s with cursor } some with
    | some s' => if negated then none else k { s' with cursor := s.cursor }
    | none => if negated then k s else none
  | .atomic body, s, k =>
    match body.run s some with
    | some s' => k s'
    | none => none
  | .conditional index held unheld, s, k =>
    if s.holds index then held.run s k else unheld.run s k

end Node
end Pattern
end TokenRules
