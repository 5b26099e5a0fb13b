import TokenRules.Text.Quoted

/-! What can go wrong in a parse. A trouble is the text's fault and gets reported with its place in
the text; a defect is not, and passes through as it is. -/
namespace TokenRules

/-- A located report: a description, and its place by offset, row, column and line. -/
structure Report where
  message : Text
  description : Text
  position : Int
  row : Int
  column : Int
  line : Text
  deriving DecidableEq, Repr

/-- What an action or the end of a parse can find wrong with a text. Some troubles know their place.
The report of a parse within the parse is a trouble without a place of its own. -/
inductive Trouble where
  | general (message : Text)
  | positioned (position : Int) (message : Text)
  | blocked (position : Int)
  | violation (message : Text)
  | failure (report : Report) (cause : Option Trouble)
  deriving Repr

namespace Trouble

def message : Trouble → Text
  | .general message | .positioned _ message | .violation message => message
  | .blocked _ => Text.ofString "Unrecognized token"
  | .failure report _ => report.message

/-- The place that a trouble knows by itself. -/
def position? : Trouble → Option Int
  | .positioned position _ | .blocked position => some position
  | .general _ | .violation _ | .failure _ _ => none

end Trouble

/-- The final report of a failed parse, with what caused it. -/
structure ParseFailure where
  report : Report
  cause : Option Trouble
  deriving Repr

def ParseFailure.toTrouble (f : ParseFailure) : Trouble :=
  .failure f.report f.cause

/-- What the text is not to blame for: a match without an action, line breaks of an unknown kind, or
something foreign that an action raised. -/
inductive Defect (ε : Type) where
  | unbound (group : Option Text)
  | unknownLineBreaks (name : Text)
  | foreign (error : ε)
  deriving DecidableEq, Repr

/-- The text of the defects that are not foreign. -/
def Defect.message? : Defect ε → Option Text
  | .unbound group =>
    let shown := (group.map Text.quoted).getD (Text.ofString "None")
    some (Text.ofString "Rule " ++ shown ++ Text.ofString " matched but has no action bound to it.")
  | .unknownLineBreaks name => some name
  | .foreign _ => none

/-- What an action raises. -/
inductive Raised (ε : Type) where
  | trouble (trouble : Trouble)
  | defect (defect : Defect ε)
  deriving Repr

namespace Raised

def violation (message : Text) : Raised ε := .trouble (.violation message)

def positioned (position : Int) (message : Text) : Raised ε := .trouble (.positioned position message)

def foreign (error : ε) : Raised ε := .defect (.foreign error)

end Raised

/-- What ends a parse without a result. -/
inductive Stop (ε : Type) where
  | failure (failure : ParseFailure)
  | defect (defect : Defect ε)
  deriving Repr

/-- A stopped parse as seen by an action that ran it. -/
def Stop.toRaised : Stop ε → Raised ε
  | .failure f => .trouble f.toTrouble
  | .defect d => .defect d

end TokenRules
