import TokenRules.Json.Builder
import TokenRules.Scan.Engine

/-! The token rules of JSON, whose actions feed a builder. The words come first. Digits and blanks
of any script are taken, and a string may hold raw control characters. -/
namespace TokenRules.Json

/-- A number without a point or an exponent is an integer. -/
def readNumber (t : Text) : Except Flaw Value :=
  if t.any fun c => c == Sign.stop || c == 0x65 || c == 0x45 then
    match Decimal.readReal? t with
    | some x => .ok (.real x)
    | none => .error (.literal (.malformed t))
  else
    match Decimal.readInteger t with
    | .ok i => .ok (.integer i)
    | .error e => .error (.literal e)

/-- Applies an event to a builder; a refusal is raised. -/
def deliver (b : Builder) (event : Event) : Except (Raised Flaw) Builder :=
  (b.apply event).toExcept.mapError Refusal.raised

abbrev TokenAction := Action Builder Flaw

def actWord (v : Value) : TokenAction := fun _ b _ => deliver b (.value v)

def actNumber : TokenAction := fun t b _ =>
  match readNumber t with
  | .ok v => deliver b (.value v)
  | .error flaw => .error (.foreign flaw)

def actString : TokenAction := fun t b offset =>
  match StringLiteral.dequote t offset with
  | .ok s => deliver b (.value (.string s))
  | .error bad => .error (.positioned bad.position bad.message)

def actOpenArray : TokenAction := fun _ b offset => deliver b (.openArray offset)

def actOpenObject : TokenAction := fun _ b offset => deliver b (.openObject offset)

def actSign (event : Event) : TokenAction := fun _ b _ => deliver b event

def actSkip : TokenAction := fun _ b _ => .ok b

/-- The rules by their patterns, in order of priority. -/
def lexemes : List (String × TokenAction) :=
  [("null", actWord .null),
   ("true", actWord (.bool true)),
   ("false", actWord (.bool false)),
   ("-?(?:0|[1-9]\\d*)(?:\\.\\d+)?(?:[eE][-+]?\\d+)?", actNumber),
   ("\"[^\"\\\\]*(?:\\\\.[^\"\\\\]*)*\"", actString),
   ("\\[", actOpenArray),
   ("\\\x7b", actOpenObject),
   ("\\]", actSign .closeArray),
   ("\\\x7d", actSign .closeObject),
   (",", actSign .comma),
   (":", actSign .colon),
   ("\\s+", actSkip)]

def rules : List (Rule Builder Flaw) :=
  lexemes.map fun lexeme => ⟨.source (Text.ofString lexeme.1), some lexeme.2⟩

theorem rules_build :
    (Engine.build rules Source.LineBreaks.normal.name).toOption.isSome = true := by
  decide +kernel

def engine : Engine Builder Flaw :=
  (Engine.build rules Source.LineBreaks.normal.name).toOption.get rules_build

/-- Parses a text into a given builder. -/
def parseInto (b : Builder) (t : Text) : Run Builder Flaw Builder :=
  engine.parse t b .ok

/-- Parses a text that ends the value of a given builder. -/
def parseLast (b : Builder) (t : Text) : Run Builder Flaw Value :=
  engine.parse t b fun b => b.finish.mapError Refusal.raised

def parse (t : Text) : Except (Stop Flaw) Value :=
  (parseLast .empty t).outcome

end TokenRules.Json
