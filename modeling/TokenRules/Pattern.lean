import TokenRules.Pattern.Matching
import TokenRules.Pattern.Reader

/-! Compiled patterns, and what they match at a position of a text. -/
namespace TokenRules

/-- A pattern with its source, the flags of the whole pattern, and the names of its groups. -/
structure Pattern where
  source : Text
  flags : Pattern.Flags
  node : Pattern.Node
  names : List (Text × Nat)
  deriving DecidableEq, Repr

/-- A match: where it starts and stops, and the name of the group that closed last, if it has
one. -/
structure Match where
  start : Cursor
  stop : Cursor
  lastGroup : Option Text

namespace Match

def text (m : Match) : Text :=
  m.start.after.take (m.stop.offset - m.start.offset)

end Match

namespace Pattern

def groupName? (p : Pattern) (index : Nat) : Option Text :=
  (p.names.find? (·.2 == index)).map (·.1)

def matchAt (p : Pattern) (start : Cursor) : Option Match :=
  (p.node.run ⟨start, [], none⟩ some).map fun s =>
    { start, stop := s.cursor, lastGroup := s.lastGroup.bind p.groupName? }

variable [CharacterNames]

def compile (source : Text) (flags : Flags) : Except Fault Pattern :=
  (Reader.read (Token.ofText source) (Reading.start flags)).map fun r =>
    { source, flags := r.flags, node := r.level.node, names := r.groups.names }

/-- A source compiles if it can be read. -/
theorem compile_eq_ok {source : Text} {flags : Flags} : compile source flags = .ok p ↔
    ∃ last, Reader.read (Token.ofText source) (Reading.start flags) = .ok last ∧
      ⟨source, last.flags, last.level.node, last.groups.names⟩ = p :=
  map_eq_ok

end Pattern
end TokenRules
