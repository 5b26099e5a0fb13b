import TokenRules.Decimal.Literal
import TokenRules.Decimal.Style
import TokenRules.Json.StringLiteral

/-! JSON values. The members of an object stay in the order in which their keys first came. -/
namespace TokenRules.Json

/-- `foreign` stands for what is no JSON value but may be offered as one. -/
inductive Value where
  | null
  | bool (b : Bool)
  | integer (i : Int)
  | real (x : Binary64)
  | string (t : Text)
  | array (elements : List Value)
  | object (members : List (Text × Value))
  | foreign
  deriving Repr, Inhabited

inductive Kind where
  | null | boolean | number | string | array | object
  deriving DecidableEq, Repr

def Kind.name : Kind → Text
  | .null => Text.ofString "null"
  | .boolean => Text.ofString "boolean"
  | .number => Text.ofString "number"
  | .string => Text.ofString "string"
  | .array => Text.ofString "array"
  | .object => Text.ofString "object"

/-- Real numbers from 10^-4 up to 10^16 are written out; a whole one keeps a zero after the point.
Other exponents have a sign and two digits at least. -/
def realStyle : Decimal.Style where
  leastPositional := -4
  positionalBound := 16
  exponentMark := Text.ofString "e"
  exponentPlus := Text.ofString "+"
  exponentDigits := 2
  wholeSuffix := Text.ofString ".0"
  infinity := Text.ofString "inf"
  notANumber := Text.ofString "nan"

namespace Value

def kind? : Value → Option Kind
  | .null => some .null
  | .bool _ => some .boolean
  | .integer _ | .real _ => some .number
  | .string _ => some .string
  | .array _ => some .array
  | .object _ => some .object
  | .foreign => none

/-- A value as messages show it; of a collection they show only whether it is empty. An integer may have too
many digits to be shown. -/
def render? : Value → Option Text
  | .null => some (Text.ofString "null")
  | .bool true => some (Text.ofString "true")
  | .bool false => some (Text.ofString "false")
  | .integer i => Decimal.writeInteger? i
  | .real x => some (realStyle.write x)
  | .string t => some (StringLiteral.enquote t)
  | .array [] => some (Text.ofString "[]")
  | .array _ => some (Text.ofString "[...]")
  | .object [] => some [Sign.leftBrace, Sign.rightBrace]
  | .object _ => some ([Sign.leftBrace] ++ Text.ofString "..." ++ [Sign.rightBrace])
  | .foreign => some (Text.ofString "()")

theorem render?_eq_none (unshown : render? v = none) :
    ∃ i, v = .integer i ∧ Decimal.writeInteger? i = none := by
  unfold render? at unshown
  split at unshown
  case h_4 i => exact ⟨i, rfl, unshown⟩
  all_goals contradiction

end Value

/-- Assigns a value to a key: in the key's place if it has one, or else at the end. -/
def assign (key : Text) (value : α) : List (Text × α) → List (Text × α)
  | [] => [(key, value)]
  | (k, v) :: rest => if k == key then (k, value) :: rest else (k, v) :: assign key value rest

end TokenRules.Json
