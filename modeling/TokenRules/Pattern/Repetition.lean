import TokenRules.Pattern.Token
import TokenRules.Text.Digit

/-! How often a loop goes round: counts in braces. Braces that hold no count are plain text. -/
namespace TokenRules.Pattern

structure Repetition where
  least : Nat
  most : Option Nat
  deriving DecidableEq, Repr

namespace Repetition

/-- Counts must stay below this. -/
def countBound : Nat := 4294967295

/-- A count, if it is not left out. It is read as any integer, so it may not have too many digits. -/
def count? (t : Text) : Except Fault (Option Nat) :=
  if t.isEmpty then .ok none
  else
    match Decimal.readInteger t with
    | .error e => .error (.unreadableCount e)
    | .ok n => if countBound ≤ n.toNat then .error .repetitionTooLarge else .ok (some n.toNat)

/-- The repetition from `low` to `high`, either of which may be left out. -/
def ofCounts (low high : Text) : Except Fault Repetition := do
  let least := (← count? low).getD 0
  let most ← count? high
  if most.any (· < least) then .error .badSyntax else .ok ⟨least, most⟩

/-- The upper count, from just after the lower one, and what follows it. Without a comma the two are
the same. -/
def upper (low : Text) : List Token → Text × List Token
  | .plain Sign.comma :: rest => Token.spanAll Text.isAsciiDigit rest
  | ts => (low, ts)

/-- What the counts amount to if the closing brace comes next; otherwise the braces hold none. -/
def closed (low high : Text) : List Token → Except Fault (Option (Repetition × List Token))
  | .plain Sign.rightBrace :: rest =>
    if Token.breaksOff rest then .error .badSyntax
    else (ofCounts low high).map fun repetition => some (repetition, rest)
  | _ => .ok none

/-- Reads from just after the opening brace; `none` if the braces hold no count. -/
def read (ts : List Token) : Except Fault (Option (Repetition × List Token)) :=
  if ts.head? == some (.plain Sign.rightBrace) then .ok none
  else
    let (low, afterLow) := Token.spanAll Text.isAsciiDigit ts
    let (high, afterHigh) := upper low afterLow
    closed low high afterHigh

theorem upper_length (low : Text) (ts : List Token) : (upper low ts).2.length ≤ ts.length := by
  unfold upper
  split
  · next rest =>
    have := Token.span_length Text.isAsciiDigit rest.length rest
    simp only [Token.spanAll, List.length_cons]
    omega
  · exact Nat.le_refl _

/-- The closing brace stands right after the counts. -/
theorem upper_of_read (h : read ts = .ok (some (repetition, rest))) :
    (upper (Token.spanAll Text.isAsciiDigit ts).1 (Token.spanAll Text.isAsciiDigit ts).2).2 =
      .plain Sign.rightBrace :: rest := by
  simp only [read] at h
  split at h
  · simp at h
  · unfold closed at h
    split at h
    · next eq =>
      split at h
      · simp at h
      · simp only [Except.map] at h
        split at h
        · simp at h
        · simp only [Except.ok.injEq, Option.some.injEq, Prod.mk.injEq] at h
          rw [eq, h.2]
    · simp at h

theorem read_length (h : read ts = .ok (some (repetition, rest))) : rest.length ≤ ts.length := by
  have low := Token.span_length Text.isAsciiDigit ts.length ts
  have high := upper_length (Token.spanAll Text.isAsciiDigit ts).1 (Token.spanAll Text.isAsciiDigit ts).2
  rw [upper_of_read h, List.length_cons] at high
  simp only [Token.spanAll] at high
  omega

end Repetition
end TokenRules.Pattern
