import TokenRules.Scan.Engine

/-! Rules gathered one at a time, in order of priority, until an engine is built from them. A pattern
comes first and its action follows; no other pattern may come between. -/
namespace TokenRules

/-- Why a call on a definition fails. -/
inductive DefinitionFault where
  | previousForgotten
  | finalForgotten
  | tooLate
  | notAwaited
  | noAction
  | build (fault : BuildFault)
  deriving DecidableEq, Repr

def DefinitionFault.message? : DefinitionFault → Option Text
  | .previousForgotten =>
    some (Text.ofString "You forgot to provide the action for the previous pattern!")
  | .finalForgotten =>
    some (Text.ofString "You forgot to provide the action for the final pattern!")
  | .tooLate =>
    some (Text.ofString "The engine is already built; it is too late to add rules.")
  | .notAwaited | .noAction => none
  | .build fault => fault.message?

/-- `awaiting` tells whether a pattern has been given whose action has not. -/
structure Definition (σ ε : Type) where
  entries : List (RulePattern × Action σ ε)
  awaiting : Bool
  built : Option (Engine σ ε)
  lineBreaks : Text

/-- The place of the action for a pattern that has been given. -/
structure Pending where
  pattern : RulePattern

namespace Definition

variable {σ ε ρ : Type}

def empty (lineBreaks : Text) : Definition σ ε :=
  ⟨[], false, none, lineBreaks⟩

/-- A call's result, and the definition after it, also if the call fails. -/
abbrev Call (σ ε α : Type) := Definition σ ε → Except DefinitionFault α × Definition σ ε

/-- Gives the next pattern. -/
def on (pattern : RulePattern) : Call σ ε Pending := fun d =>
  if d.awaiting then (.error .previousForgotten, d)
  else if d.built.isSome then (.error .tooLate, d)
  else
    match pattern.alternative with
    | .error fault => (.error (.build fault), d)
    | .ok _ => (.ok ⟨pattern⟩, { d with awaiting := true })

/-- Gives the action of a pattern; one must be awaited. What is no action leaves the pattern without
one, and none is awaited any more. -/
def bind (pending : Pending) (action : Option (Action σ ε)) : Call σ ε Unit := fun d =>
  if !d.awaiting then (.error .notAwaited, d)
  else
    match action with
    | none => (.error .noAction, { d with awaiting := false })
    | some action =>
      (.ok (), { d with awaiting := false, entries := d.entries ++ [(pending.pattern, action)] })

/-- Gives a pattern and its action. -/
def rule (pattern : RulePattern) (action : Option (Action σ ε)) : Call σ ε Unit := fun d =>
  match on pattern d with
  | (.ok pending, d) => bind pending action d
  | (.error fault, d) => (.error fault, d)

/-- Passes over what a pattern matches. -/
def ignore (pattern : RulePattern) : Call σ ε Unit :=
  rule pattern (some fun _ context _ => .ok context)

def rules : Call σ ε (List (RulePattern × Action σ ε)) := fun d =>
  if d.awaiting then (.error .finalForgotten, d) else (.ok d.entries, d)

/-- The engine, which is built once. -/
def engine [CharacterNames] : Call σ ε (Engine σ ε) := fun d =>
  match d.built with
  | some engine => (.ok engine, d)
  | none =>
    match rules d with
    | (.error fault, d) => (.error fault, d)
    | (.ok entries, d) =>
      match Engine.build (entries.map fun entry => ⟨entry.1, some entry.2⟩) d.lineBreaks with
      | .error fault => (.error (.build fault), d)
      | .ok engine => (.ok engine, { d with built := some engine })

/-- Builds the engine if need be, and parses with it. -/
def parse [CharacterNames] (content : Text) (context : σ) (finish : σ → Except (Raised ε) ρ) :
    Call σ ε (Run σ ε ρ) := fun d =>
  match engine d with
  | (.error fault, d) => (.error fault, d)
  | (.ok engine, d) => (.ok (engine.parse content context finish), d)

end Definition
end TokenRules
