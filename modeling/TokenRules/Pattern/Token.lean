import TokenRules.Decimal.Literal
import TokenRules.Text.Sign

/-! The signs of a pattern's source: a backslash and the character after it are one token. -/
namespace TokenRules

/-- What a map gives was made of a success. -/
theorem map_eq_ok {x : Except ε α} {f : α → β} : x.map f = .ok b ↔ ∃ a, x = .ok a ∧ f a = b := by
  cases x with
  | ok => simp [Except.map]
  | error => simp [Except.map]

namespace Pattern

/-- Why a source is no pattern. -/
inductive Fault where
  | badSyntax
  | unreadableCount (error : Decimal.LiteralError)
  | repetitionTooLarge
  | flagsIncompatible
  deriving DecidableEq, Repr

/-- The text of a fault, for those that always have the same. -/
def Fault.message? : Fault → Option Text
  | .badSyntax => none
  | .unreadableCount error => some error.message
  | .repetitionTooLarge => some (Text.ofString "the repetition number is too large")
  | .flagsIncompatible => some (Text.ofString "ASCII and UNICODE flags are incompatible")

/-- A token; `dangling` is a backslash with nothing after it. -/
inductive Token where
  | plain (c : CodePoint)
  | escaped (c : CodePoint)
  | dangling
  deriving DecidableEq, Repr

namespace Token

def ofText : Text → List Token
  | [] => []
  | Sign.backslash :: [] => [.dangling]
  | Sign.backslash :: c :: rest => .escaped c :: ofText rest
  | c :: rest => .plain c :: ofText rest

/-- Up to `n` plain tokens that satisfy `p`, and what follows them. -/
def span (p : CodePoint → Bool) : Nat → List Token → Text × List Token
  | n + 1, .plain c :: rest =>
    if p c then let (cs, rest) := span p n rest; (c :: cs, rest) else ([], .plain c :: rest)
  | _, ts => ([], ts)

/-- All plain tokens at the start that satisfy `p`, and what follows them. -/
def spanAll (p : CodePoint → Bool) (ts : List Token) : Text × List Token :=
  span p ts.length ts

/-- Whether the source breaks off in an escape right here. -/
def breaksOff : List Token → Bool
  | .dangling :: _ => true
  | _ => false

/-- The text up to a plain terminator, and what follows the terminator. -/
def nameUntil (terminator : CodePoint) : List Token → Except Fault (Text × List Token)
  | [] | .dangling :: _ => .error .badSyntax
  | .plain c :: rest =>
    if c == terminator then .ok ([], rest)
    else (nameUntil terminator rest).map fun (cs, rest) => (c :: cs, rest)
  | .escaped c :: rest =>
    (nameUntil terminator rest).map fun (cs, rest) => (Sign.backslash :: c :: cs, rest)

/-- What follows a comment in parentheses. -/
def afterComment : List Token → Except Fault (List Token)
  | [] | .dangling :: _ => .error .badSyntax
  | .plain Sign.rightParen :: rest => .ok rest
  | _ :: rest => afterComment rest

/-- What follows a comment that runs to the end of the line. -/
def afterLine : List Token → List Token
  | [] => []
  | .plain Sign.lineFeed :: rest => rest
  | .dangling :: rest => .dangling :: rest
  | _ :: rest => afterLine rest

theorem span_length (p : CodePoint → Bool) (n : Nat) (ts : List Token) :
    (span p n ts).2.length ≤ ts.length := by
  fun_induction span p n ts with
  | case1 n c rest _ cs rest' eq ih => simp [eq] at ih; simp; omega
  | case2 | case3 => simp

theorem nameUntil_length (h : nameUntil terminator ts = .ok (name, rest)) :
    rest.length < ts.length := by
  fun_induction nameUntil terminator ts generalizing name with
  | case1 | case2 => contradiction
  | case3 c ts closes =>
    obtain ⟨-, rfl⟩ := Prod.mk.inj (Except.ok.inj h)
    exact Nat.lt_succ_self _
  | case4 c ts _ ih | case5 c ts ih =>
    obtain ⟨⟨cs, rest'⟩, read, same⟩ := map_eq_ok.mp h
    obtain ⟨-, rfl⟩ := Prod.mk.inj same
    exact Nat.lt_succ_of_lt (ih read)

theorem afterComment_length (h : afterComment ts = .ok rest) : rest.length < ts.length := by
  fun_induction afterComment ts with
  | case1 | case2 => simp at h
  | case3 rest' => simp at h; simp [h]
  | case4 t ts _ _ ih => have := ih h; simp; omega

theorem afterLine_length (ts : List Token) : (afterLine ts).length ≤ ts.length := by
  fun_induction afterLine ts with
  | case1 | case3 => simp
  | case2 => simp only [List.length_cons]; omega
  | case4 t ts _ _ ih => simp only [List.length_cons]; omega

end Token
end Pattern
end TokenRules
