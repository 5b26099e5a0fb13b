import TokenRules.Scan.Trouble
import TokenRules.Text.Blank
import TokenRules.Text.Sign

/-! Documents of named sections, each with named settings, all in the order of their appearance. No
name comes twice. -/
namespace TokenRules.Ini

abbrev Settings := List (Text × Text)

structure Document where
  sections : List (Text × Settings)
  deriving DecidableEq, Repr

/-- The name of the section for what stands before the first header. -/
def defaultSection : Text := []

/-- Why a document refuses a section or a setting. -/
inductive Refusal where
  | duplicateSection (name : Text) (offset : Int)
  | duplicateKey (key : Text)
  deriving DecidableEq, Repr

def Refusal.raised : Refusal → Raised ε
  | .duplicateSection name offset =>
    .positioned offset (Text.ofString "Duplicate section " ++ Text.quoted name)
  | .duplicateKey key => .violation (Text.ofString "Duplicate key " ++ Text.quoted key)

namespace Document

def empty : Document := ⟨[]⟩

/-- Adds a section without settings; `offset` is where its header stands. -/
def openSection (d : Document) (name : Text) (offset : Int) : Except Refusal Document :=
  if (d.sections.lookup name).isSome then .error (.duplicateSection name offset)
  else .ok ⟨d.sections ++ [(name, [])]⟩

/-- Adds a setting to a section. -/
def assign (d : Document) (name key value : Text) : Except Refusal Document :=
  if (((d.sections.lookup name).getD []).lookup key).isSome then .error (.duplicateKey key)
  else .ok ⟨d.sections.map fun entry =>
    if entry.1 == name then (entry.1, entry.2 ++ [(key, value)]) else entry⟩

/-- The sections that count: the default one only if it has settings. -/
def result (d : Document) : List (Text × Settings) :=
  d.sections.filter fun entry => !entry.2.isEmpty || entry.1 != defaultSection

end Document
end TokenRules.Ini
