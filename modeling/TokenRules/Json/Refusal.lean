import TokenRules.Decimal.Literal
import TokenRules.Json.Value
import TokenRules.Scan.Trouble

/-! Refusals: why a machine that puts a value together does not take a token. Its reply to a token
holds the machine afterwards, whether the token was taken or not. -/
namespace TokenRules.Json

/-- What is wrong apart from the text: something that is no value, a frame that has no end, a number
that cannot be read, or one that cannot be shown. -/
inductive Flaw where
  | notAValue
  | endless
  | literal (error : Decimal.LiteralError)
  | unwritable
  deriving DecidableEq, Repr

def Flaw.message? : Flaw → Option Text
  | .notAValue => some (Text.ofString "Not a JSON value: ()")
  | .endless => none
  | .literal error => some error.message
  | .unwritable => some Decimal.unwritableMessage

/-- Why a frame refuses a token or the end of the text. -/
inductive Refusal where
  | sign (c : CodePoint)
  | value (kind : Kind) (shown : Text)
  | unexpectedEnd
  | unmatched (start : Int) (bracket : CodePoint)
  | flaw (error : Flaw)
  deriving DecidableEq, Repr

namespace Refusal

/-- A value at a place where none may stand. -/
def unexpected (v : Value) : Refusal :=
  match v.kind?, v.render? with
  | some kind, some shown => .value kind shown
  | some _, none => .flaw .unwritable
  | none, _ => .flaw .notAValue

def raised : Refusal → Raised Flaw
  | .sign c => .violation (Text.ofString "Unexpected character: `" ++ [c] ++ [0x60])
  | .value kind shown =>
    .violation (Text.ofString "Unexpected " ++ kind.name ++ Text.ofString ": " ++ shown)
  | .unexpectedEnd => .violation (Text.ofString "Unexpected end")
  | .unmatched start bracket =>
    .positioned start (Text.ofString "Unmatched `" ++ [bracket] ++ [0x60])
  | .flaw error => .foreign error

end Refusal

/-- What a machine answers to a token: the machine after it, and why it refused, if it did. -/
structure Reply (α : Type) where
  after : α
  refusal : Option Refusal

namespace Reply

def accepted (after : α) : Reply α := ⟨after, none⟩

def refused (after : α) (why : Refusal) : Reply α := ⟨after, some why⟩

/-- The reply of a machine that holds the one that answered. -/
def within (r : Reply α) (hold : α → β) : Reply β := ⟨hold r.after, r.refusal⟩

/-- A further change of the machine, made only if the token was taken. -/
def followedBy (r : Reply α) (change : α → α) : Reply α :=
  match r.refusal with
  | none => accepted (change r.after)
  | some _ => r

/-- The machine after a token that was taken. -/
def toExcept (r : Reply α) : Except Refusal α :=
  match r.refusal with
  | none => .ok r.after
  | some why => .error why

end Reply
end TokenRules.Json
