import TokenRules.Pattern

/-! The sequence of matches of a pattern in a text, each anchored where the one before it stopped. A
match that does not move forward counts as none. A scanner may be asked for matches through several
iterations; they share its position. -/
namespace TokenRules

/-- `position` is how far scanning has got, and `current` where the match being worked on starts. A
scanner that starts before its text has a negative position until its first match. -/
structure Scanner where
  pattern : Pattern
  cursor : Cursor
  size : Nat
  position : Int
  current : Option Nat

namespace Scanner

def start (pattern : Pattern) (text : Text) (position : Int) : Scanner where
  pattern := pattern
  cursor := (Cursor.start text).advance position.toNat
  size := text.length
  position := position
  current := none

def hasMore (s : Scanner) : Bool :=
  s.position < s.size

/-- Meaningful once an iteration has ended: it ended short of the end of the text. -/
def isBlocked (s : Scanner) : Bool :=
  s.current.isNone && s.hasMore

/-- The match at the present position, if it moves forward. -/
def peek (s : Scanner) : Option Match :=
  if s.hasMore then
    (s.pattern.matchAt s.cursor).filter fun m => s.position < m.stop.offset
  else none

/-- The next match, and the scanner after it. -/
def advance (s : Scanner) : Option Match × Scanner :=
  match s.peek with
  | some m =>
    (some m, { s with
      cursor := m.stop, position := m.stop.offset, current := some m.start.offset })
  | none => (none, { s with current := none })

/-- How much of the text lies ahead. -/
def remaining (s : Scanner) : Nat :=
  (s.size - s.position).toNat

theorem peek_forward {s : Scanner} {m : Match} (h : s.peek = some m) : s.position < s.size ∧ s.position < m.stop.offset := by
  simp only [peek, hasMore, decide_eq_true_eq] at h
  split at h
  · simp only [Option.filter_eq_some_iff, decide_eq_true_eq] at h
    exact ⟨by assumption, h.2⟩
  · simp at h

theorem advance_remaining {s s' : Scanner} {m : Match} (h : s.advance = (some m, s')) : s'.remaining < s.remaining := by
  simp only [advance] at h
  split at h
  · next found =>
    have forward := peek_forward found
    simp only [Prod.mk.injEq, Option.some.injEq] at h
    obtain ⟨rfl, rfl⟩ := h
    simp only [remaining]
    omega
  · simp at h

end Scanner

/-- One pass over a scanner's matches. Once it is exhausted it stays so. -/
inductive Iteration where
  | live | exhausted
  deriving DecidableEq, Repr

/-- The next match of an iteration; an exhausted one leaves the scanner alone. -/
def Iteration.next (i : Iteration) (s : Scanner) : Option Match × Iteration × Scanner :=
  match i with
  | .exhausted => (none, .exhausted, s)
  | .live =>
    match s.advance with
    | (some m, s) => (some m, .live, s)
    | (none, s) => (none, .exhausted, s)

end TokenRules
