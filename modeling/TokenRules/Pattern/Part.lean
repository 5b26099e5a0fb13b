import TokenRules.Decimal.Literal
import TokenRules.Pattern.Reading
import TokenRules.Text.Identifier

/-! The parts of a source, and what each does to what has been read so far. A part is the same
wherever it stands: the groups that a name or a number stands for are looked up only when it is
applied. -/
namespace TokenRules.Pattern

/-- How a loop goes about its rounds. -/
inductive Manner where
  | greedy | lazy | possessive
  deriving DecidableEq, Repr

namespace Repetition

def greedy (n : Repetition) (body : Node) : Node :=
  .loop .greedy n.least n.most body

def lazy (n : Repetition) (body : Node) : Node :=
  .loop .lazy n.least n.most body

/-- A loop that takes each of its rounds in the first way and gives none back. -/
def possessive (n : Repetition) (body : Node) : Node :=
  .atomic (n.greedy (.atomic body))

def looped (n : Repetition) (manner : Manner) (body : Node) : Node :=
  match manner with
  | .greedy => n.greedy body
  | .lazy => n.lazy body
  | .possessive => n.possessive body

end Repetition

/-- A comment and a skipped blank are `nothing`. -/
inductive Part where
  | nothing
  | chars (set : CharSet)
  | anchor (place : Anchor)
  | loop (repetition : Repetition) (manner : Manner)
  | alternative
  | plainGroup
  | atomicGroup
  | look (behind negated : Bool)
  | scope (added removed : Flags)
  | capture (name : Option Text)
  | condition (name : Text)
  | numberedReference (index : Nat)
  | namedReference (name : Text)
  | flags (added : Flags)
  | close
  deriving DecidableEq, Repr

namespace Part

def atom (f : Flags) (atom : Atom) : Part :=
  .chars (atom.charSet f)

/-- The group that a condition names, or numbers from one. -/
def conditionIndex? (name : Text) (r : Reading) : Option Nat :=
  if Text.isIdentifier name then r.groups.names.lookup name
  else
    match Decimal.readInteger name with
    | .ok index => if 0 < index then some index.toNat else none
    | .error _ => none

/-- What has been read after a part. A closing parenthesis too many is reported after a conflict of
the pattern's flags. -/
def apply (r : Reading) : Part → Except Fault Reading
  | .nothing => .ok r
  | .chars set => .ok (r.add (.chars set) .other)
  | .anchor place => .ok (r.add (.anchor place) .anchor)
  | .loop repetition manner => r.loop (repetition.looped manner)
  | .alternative => r.alternate
  | .plainGroup => .ok (r.enter .plain r.flags)
  | .atomicGroup => .ok (r.enter .atomic r.flags)
  | .look behind negated => .ok (r.enter (.look behind negated) r.flags)
  | .scope added removed => .ok (r.enter .scope (r.flags.within added removed))
  | .capture name => r.capture name
  | .condition name =>
    match conditionIndex? name r with
    | some index => r.condition index
    | none => .error .badSyntax
  | .numberedReference index => r.refer index
  | .namedReference name =>
    match r.groups.names.lookup name with
    | some index => r.refer index
    | none => .error .badSyntax
  | .flags added => r.setFlags added
  | .close =>
    match r.leave? with
    | some r => .ok r
    | none => .error (r.conflict?.getD .badSyntax)

end Part
end TokenRules.Pattern
