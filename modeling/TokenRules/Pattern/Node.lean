import TokenRules.Pattern.CharSet

/-! Patterns as trees. A flag in effect where a part was read is already part of its node, so a node
means the same wherever it stands. -/
namespace TokenRules.Pattern

/-- A condition on a position. The opening is the text's start as a caret means it; the closing end
is also before a line feed that ends the text. -/
inductive Anchor where
  | textStart
  | opening
  | lineStart
  | textEnd
  | closingEnd
  | lineEnd
  | wordEdge (ascii : Bool)
  | noWordEdge (ascii : Bool)
  deriving DecidableEq, Repr

/-- Whether a loop tries another round before or after what follows it. -/
inductive Appetite where
  | greedy | lazy
  deriving DecidableEq, Repr

/-- Which way a look-around looks; a look-behind starts a fixed distance back. -/
inductive Direction where
  | ahead
  | behind (distance : Nat)
  deriving DecidableEq, Repr

/-- A scope is a part read under flags of its own. An atomic part is matched in its first way only.
A conditional goes by whether a group has matched so far. -/
inductive Node where
  | empty
  | chars (set : CharSet)
  | anchor (condition : Anchor)
  | seq (first second : Node)
  | alt (first second : Node)
  | loop (appetite : Appetite) (least : Nat) (most : Option Nat) (body : Node)
  | scope (body : Node)
  | group (index : Nat) (body : Node)
  | backref (index : Nat) (folding : Folding)
  | look (direction : Direction) (negated : Bool) (body : Node)
  | atomic (body : Node)
  | conditional (index : Nat) (held unheld : Node)
  deriving DecidableEq, Repr

/-- How many characters a node can match; `none` stands for no bound. -/
structure Width where
  least : Nat
  most : Option Nat
  deriving DecidableEq, Repr

namespace Width

def exactly (n : Nat) : Width := ⟨n, some n⟩

def add (v w : Width) : Width where
  least := v.least + w.least
  most := do some ((← v.most) + (← w.most))

def either (v w : Width) : Width where
  least := min v.least w.least
  most := do some (max (← v.most) (← w.most))

def times (least : Nat) (most : Option Nat) (w : Width) : Width where
  least := w.least * least
  most := if w.most == some 0 || most == some 0 then some 0 else do some ((← w.most) * (← most))

/-- From here on a width is too much for a look-behind. -/
def bound : Nat := 0x100000000

/-- The one width of a look-behind's body, if it has one. -/
def fixed? (w : Width) : Option Nat :=
  if w.most == some w.least && w.least < bound then some w.least else none

end Width

namespace Node

/-- The nodes in order. -/
def ofSequence : List Node → Node
  | [] => .empty
  | [node] => node
  | node :: nodes => .seq node (ofSequence nodes)

/-- The parts of a sequence, in order. -/
def parts : Node → List Node
  | .empty => []
  | .seq a b => a.parts ++ b.parts
  | node => [node]

/-- Whether a node has no nodes in it, and matches in one way at most. -/
def isLeaf : Node → Bool
  | .chars _ | .anchor _ | .backref _ _ => true
  | _ => false

/-- How many leaves a sequence and all the others begin with. -/
def commonStart : List Node → List (List Node) → Nat
  | [], _ => 0
  | node :: nodes, others =>
    if node.isLeaf && others.all (·.head? == some node) then
      commonStart nodes (others.map List.tail) + 1
    else 0

/-- The set of a sequence that is a set of characters and nothing else. -/
def charSet? : List Node → Option CharSet
  | [.chars set] => some set
  | _ => none

/-- Sequences that are each one set of characters are joined in one set; all others stay
alternatives, the first to be tried first. -/
def ofChoices (choices : List (List Node)) : Node :=
  match (choices.mapM charSet?).bind CharSet.union? with
  | some set => .chars set
  | none => alternatives (choices.map ofSequence)
where
  alternatives : List Node → Node
    | [] => .empty
    | [node] => node
    | node :: nodes => .alt node (alternatives nodes)

/-- The nodes as alternatives. What all of them begin with stands once, in front of the choice. -/
def ofAlternatives (nodes : List Node) : Node :=
  match nodes.map parts with
  | [] => .empty
  | [only] => ofSequence only
  | first :: others =>
    let shared := commonStart first others
    ofSequence (first.take shared ++ [ofChoices ((first :: others).map (·.drop shared))])

/-- The width of a node, given those of the groups it refers back to. -/
def width (groups : Nat → Width) : Node → Width
  | .empty | .anchor _ | .look _ _ _ => .exactly 0
  | .chars _ => .exactly 1
  | .seq a b => (a.width groups).add (b.width groups)
  | .alt a b => (a.width groups).either (b.width groups)
  | .loop _ least most body => (body.width groups).times least most
  | .scope body | .group _ body | .atomic body => body.width groups
  | .backref index _ => groups index
  | .conditional _ held unheld => (held.width groups).either (unheld.width groups)

end Node
end TokenRules.Pattern
