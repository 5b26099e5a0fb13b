import TokenRules.Scan.RuleSource
import TokenRules.Scan.Scanner
import TokenRules.Scan.Trouble
import TokenRules.Source.Location

/-! Token engines: a list of rules, each a pattern with an action. The patterns become one
alternation, each in a group of its own, so the first rule that can match at a position wins. The
actions of the matches in a text are applied in order to a context. -/
namespace TokenRules

/-- Takes a match's text, the context and the match's offset, and gives the next context. -/
abbrev Action (σ ε : Type) := Text → σ → Nat → Except (Raised ε) σ

/-- A pattern with its action; a rule without one is refused. -/
structure Rule (σ ε : Type) where
  pattern : RulePattern
  action : Option (Action σ ε)

/-- An immutable table of actions by group, with the pattern that finds the tokens. `lineBreaks`
names how the lines of a text are counted, which matters only once a place has to be reported. -/
structure Engine (σ ε : Type) where
  alternatives : List Text
  pattern : Pattern
  actions : List (Text × Action σ ε)
  lineBreaks : Text

/-- The outcome of a parse, and the context as the last action that succeeded left it. -/
structure Run (σ ε ρ : Type) where
  context : σ
  outcome : Except (Stop ε) ρ

namespace Engine

variable {σ ε ρ : Type}

def groupName (index : Nat) : Text :=
  Text.ofString "rule_" ++ Text.decimal index

/-- A source in the group of its rule. -/
def inGroup (name source : Text) : Text :=
  Text.ofString "(?P<" ++ name ++ [Sign.greater] ++ source ++ [Sign.rightParen]

def alternation (alternatives : List Text) : Text :=
  [Sign.bar].intercalate alternatives

/-- The alternatives and the actions of rules numbered from `index`. -/
def entries (index : Nat) : List (Rule σ ε) →
    Except BuildFault (List (Text × Text × Action σ ε))
  | [] => .ok []
  | rule :: rules =>
    match rule.action with
    | none => .error .noAction
    | some action =>
      match rule.pattern.alternative with
      | .error fault => .error fault
      | .ok source =>
        let name := groupName index
        (entries (index + 1) rules).map ((inGroup name source, name, action) :: ·)

def build [CharacterNames] (rules : List (Rule σ ε)) (lineBreaks : Text) :
    Except BuildFault (Engine σ ε) :=
  match entries 0 rules with
  | .error fault => .error fault
  | .ok [] => .error .noRules
  | .ok found =>
    let alternatives := found.map (·.1)
    match Pattern.compile (alternation alternatives) {} with
    | .error fault => .error (.badPattern fault)
    | .ok pattern => .ok { alternatives, pattern, actions := found.map (·.2), lineBreaks }

/-- The engine without the actions of some rules. -/
def unbind (e : Engine σ ε) (rules : List Nat) : Engine σ ε :=
  { e with actions := e.actions.filter fun entry => !(rules.map groupName).contains entry.1 }

/-- The action of the rule that a match belongs to, by the group that closed last. -/
def actionFor (e : Engine σ ε) (m : Match) : Except (Raised ε) (Action σ ε) :=
  match m.lastGroup.bind fun name => e.actions.lookup name with
  | some action => .ok action
  | none => .error (.defect (.unbound m.lastGroup))

/-- Applies the action of a match to a context. -/
def apply (e : Engine σ ε) (m : Match) (context : σ) : Except (Raised ε) σ :=
  match e.actionFor m with
  | .ok action => action m.text context m.start.offset
  | .error raised => .error raised

/-- Applies the actions of all matches that a scanner has still to find. -/
def scan (e : Engine σ ε) (s : Scanner) (context : σ) : Scanner × σ × Option (Raised ε) :=
  match _h : s.advance with
  | (none, s) => (s, context, none)
  | (some m, s) =>
    match e.apply m context with
    | .ok context => scan e s context
    | .error raised => (s, context, some raised)
termination_by s.remaining
decreasing_by exact Scanner.advance_remaining _h

/-- The report of a trouble. Its place is the trouble's own, or else the match being worked on, or
else the end of the text. Its row is counted from one, so that it is never too long to be written. -/
def report (mode : Source.LineBreaks) (content : Text) (s : Scanner) (t : Trouble) : Report :=
  let position := t.position?.getD ((s.current.getD content.length : Nat) : Int)
  let (message, place) :=
    (Source.SourceText.mk content mode 1).diagnostic position t.message
  { message, description := t.message, position
    row := place.row, column := place.column, line := place.line }

/-- What comes out of a parse in which something was raised. -/
def stop (e : Engine σ ε) (content : Text) (s : Scanner) : Raised ε → Stop ε
  | .defect d => .defect d
  | .trouble t =>
    match Source.LineBreaks.ofName? e.lineBreaks with
    | none => .defect (.unknownLineBreaks e.lineBreaks)
    | some mode => .failure { report := report mode content s t, cause := some t }

/-- Scans a whole text. At its end `finish` turns the context into the result. -/
def parse (e : Engine σ ε) (content : Text) (context : σ)
    (finish : σ → Except (Raised ε) ρ) : Run σ ε ρ :=
  let (s, context, raised) := e.scan (Scanner.start e.pattern content 0) context
  let result : Except (Raised ε) ρ := match raised with
    | some raised => .error raised
    | none =>
      if s.isBlocked then .error (.trouble (.blocked s.position)) else finish context
  { context, outcome := result.mapError (e.stop content s) }

end Engine
end TokenRules
