import TokenRules.Pattern.Bracket
import TokenRules.Pattern.Node
import TokenRules.Pattern.Repetition

/-! What has been read of a pattern: the open groups, innermost first, each with its finished
alternatives and the items of the present one, and what is known of the capturing groups. -/
namespace TokenRules.Pattern

/-- What a loop may be made of: not of an anchor, and not of a loop. -/
inductive ItemKind where
  | anchor | loop | other
  deriving DecidableEq, Repr

structure Item where
  node : Node
  kind : ItemKind
  deriving DecidableEq, Repr

inductive Opener where
  | plain
  | scope
  | capture (index : Nat)
  | look (behind negated : Bool)
  | atomic
  | condition (index : Nat)
  deriving DecidableEq, Repr

/-- One open group. Inside a look-behind, only groups with an index below `limit` may be referred
to. -/
structure Level where
  opener : Opener
  flags : Flags
  limit : Option Nat
  alternatives : List Node
  items : List Item
  deriving DecidableEq, Repr

namespace Level

def opened (opener : Opener) (flags : Flags) (limit : Option Nat) : Level :=
  ⟨opener, flags, limit, [], []⟩

def add (l : Level) (item : Item) : Level :=
  { l with items := item :: l.items }

/-- The present alternative. -/
def sequence (l : Level) : Node :=
  Node.ofSequence (l.items.reverse.map (·.node))

/-- Ends the present alternative. -/
def alternate (l : Level) : Level :=
  { l with alternatives := l.sequence :: l.alternatives, items := [] }

def node (l : Level) : Node :=
  Node.ofAlternatives (l.sequence :: l.alternatives).reverse

/-- The two branches of a condition; the second may be left out. -/
def branches (l : Level) : Node × Node :=
  match l.alternatives with
  | [] => (l.sequence, .empty)
  | held :: _ => (held, l.sequence)

/-- Whether nothing has been read here yet. -/
def isFresh (l : Level) : Bool :=
  l.alternatives.isEmpty && l.items.isEmpty

end Level

/-- The capturing groups: how many were opened, the names of some, the widths of those closed. -/
structure Groups where
  count : Nat
  names : List (Text × Nat)
  widths : List (Nat × Width)
  deriving DecidableEq, Repr

namespace Groups

def width (g : Groups) (index : Nat) : Width :=
  (g.widths.lookup index).getD (.exactly 0)

def isClosed (g : Groups) (index : Nat) : Bool :=
  (g.widths.lookup index).isSome

end Groups

/-- The state of a reader. Conditions may name groups up to `expected`, which need not be open yet.
A fault of syntax that is `deferred` is reported only if the rest has none. -/
structure Reading where
  level : Level
  outer : List Level
  groups : Groups
  expected : Nat
  deferred : Bool
  deriving DecidableEq, Repr

namespace Reading

def start (flags : Flags) : Reading where
  level := .opened .plain flags none
  outer := []
  groups := ⟨0, [], []⟩
  expected := 0
  deferred := false

def flags (r : Reading) : Flags := r.level.flags

def add (r : Reading) (node : Node) (kind : ItemKind) : Reading :=
  { r with level := r.level.add ⟨node, kind⟩ }

/-- Begins another alternative; a condition has two at most. -/
def alternate (r : Reading) : Except Fault Reading :=
  match r.level.opener, r.level.alternatives with
  | .condition _, _ :: _ => .error .badSyntax
  | _, _ => .ok { r with level := r.level.alternate }

/-- Enters a group; the limit of a look-behind holds for all groups inside it. -/
def enter (r : Reading) (opener : Opener) (flags : Flags) : Reading :=
  let limit := match opener with
    | .look true _ => r.level.limit.or (some (r.groups.count + 1))
    | _ => r.level.limit
  { r with level := .opened opener flags limit, outer := r.level :: r.outer }

/-- Opens a capturing group; its name must be new. -/
def capture (r : Reading) (name : Option Text) : Except Fault Reading :=
  let index := r.groups.count + 1
  let numbered (names : List (Text × Nat)) : Reading :=
    { r with groups := { r.groups with count := index, names } }.enter (.capture index) r.flags
  match name with
  | none => .ok (numbered r.groups.names)
  | some name =>
    if (r.groups.names.lookup name).isSome then .error .badSyntax
    else .ok (numbered ((name, index) :: r.groups.names))

/-- Refers back to a group, which must be closed and within the limit of a look-behind. -/
def refer (r : Reading) (index : Nat) : Except Fault Reading :=
  if r.groups.isClosed index && r.level.limit.all (index < ·) then
    .ok (r.add (.backref index (Folding.ofFlags r.flags)) .other)
  else .error .badSyntax

/-- Enters a condition on a group, which in a look-behind must be closed and within its limit. -/
def condition (r : Reading) (index : Nat) : Except Fault Reading :=
  if r.level.limit.all fun limit => r.groups.isClosed index && index < limit then
    .ok ({ r with expected := max r.expected index }.enter (.condition index) r.flags)
  else .error .badSyntax

/-- Keeps a fault for the end. -/
def defer (r : Reading) : Reading :=
  { r with deferred := true }

/-- Makes a loop of the last item. -/
def loop (r : Reading) (looped : Node → Node) : Except Fault Reading :=
  match r.level.items with
  | ⟨node, .other⟩ :: items =>
    let r := { r with level := { r.level with items := ⟨looped node, .loop⟩ :: items } }
    .ok (if r.flags.template then r.defer else r)
  | _ => .error .badSyntax

/-- Leaves the innermost group, if one is open. A look-behind needs a fixed width. -/
def leave? (r : Reading) : Option Reading :=
  match r.outer with
  | [] => none
  | level :: outer =>
    let node := r.level.node
    let width := node.width r.groups.width
    let back : Reading := { r with level, outer }
    match r.level.opener with
    | .plain => some (back.add node .other)
    | .scope => some (back.add (.scope node) .other)
    | .capture index =>
      let groups := { r.groups with widths := (index, width) :: r.groups.widths }
      some ({ back with groups }.add (.group index node) .other)
    | .atomic => some (back.add (.atomic node) .other)
    | .condition index =>
      let (held, unheld) := r.level.branches
      some (back.add (.conditional index held unheld) .other)
    | .look false negated => some (back.add (.look .ahead negated node) .other)
    | .look true negated =>
      let looking (distance : Nat) : Reading :=
        back.add (.look (.behind distance) negated node) .other
      match width.fixed? with
      | some distance => some (looking distance)
      | none => some (looking 0).defer

/-- Turns flags on for the whole pattern, which is possible only before anything else is read. -/
def setFlags (r : Reading) (added : Flags) : Except Fault Reading :=
  if r.outer.isEmpty && r.level.isFresh then
    .ok { r with level := { r.level with flags := r.flags.union added } }
  else .error .badSyntax

/-- The fault of flags that exclude each other. -/
def conflict? (r : Reading) : Option Fault :=
  if r.flags.ascii && r.flags.unicode then some .flagsIncompatible else none

end Reading
end TokenRules.Pattern
