import TokenRules.Ini.Document
import TokenRules.Scan.Engine

/-! The token rules of INI files. A header opens a section, and the assignments after it go there. -/
namespace TokenRules.Ini

/-- A document under construction, and the section that assignments go to. -/
structure Reader where
  document : Document
  current : Text

namespace Reader

def openSection (r : Reader) (name : Text) (offset : Int) : Except Refusal Reader :=
  (r.document.openSection name offset).map fun document => { document, current := name }

def assign (r : Reader) (key value : Text) : Except Refusal Reader :=
  (r.document.assign r.current key value).map fun document => { r with document }

/-- A reader whose default section is open. -/
def start : Reader := ⟨⟨[(defaultSection, [])]⟩, defaultSection⟩

end Reader

abbrev TokenAction := Action Reader Empty

def actSkip : TokenAction := fun _ r _ => .ok r

/-- The name of a header is what its brackets enclose, without the blanks around it. -/
def headerName (t : Text) : Text :=
  Text.strip t.tail.dropLast

/-- The key and the value at either side of the first equals sign, without the blanks around. -/
def splitAssignment (t : Text) : Text × Text :=
  let isKey (c : CodePoint) : Bool := c != Sign.equal
  (Text.strip (t.takeWhile isKey), Text.strip (t.dropWhile isKey).tail)

def actHeader : TokenAction := fun t r offset =>
  (r.openSection (headerName t) offset).mapError Refusal.raised

def actAssignment : TokenAction := fun t r _ =>
  let (key, value) := splitAssignment t
  (r.assign key value).mapError Refusal.raised

/-- The rules by their patterns: comments, blanks, headers, assignments. -/
def lexemes : List (String × TokenAction) :=
  [("[;#][^\\r\\n]*", actSkip),
   ("\\s+", actSkip),
   ("\\[[^\\]\\r\\n]*\\]", actHeader),
   ("[^=\\s\\[;#][^=\\r\\n]*=[^\\r\\n]*", actAssignment)]

def rules : List (Rule Reader Empty) :=
  lexemes.map fun lexeme => ⟨.source (Text.ofString lexeme.1), some lexeme.2⟩

theorem rules_build :
    (Engine.build rules Source.LineBreaks.normal.name).toOption.isSome = true := by
  decide +kernel

def engine : Engine Reader Empty :=
  (Engine.build rules Source.LineBreaks.normal.name).toOption.get rules_build

def parse (t : Text) : Except (Stop Empty) (List (Text × Settings)) :=
  (engine.parse t Reader.start fun r => .ok r.document.result).outcome

end TokenRules.Ini
