import TokenRules.Text.Basic

/-! The flags of a pattern: which letters name them, and how a group changes those in effect. -/
namespace TokenRules.Pattern

inductive Flag where
  | ignoreCase | multiline | dotAll | verbose | ascii | unicode | template
  deriving DecidableEq, Repr

def Flag.ofLetter? : CodePoint → Option Flag
  | 0x69 => some .ignoreCase
  | 0x6D => some .multiline
  | 0x73 => some .dotAll
  | 0x78 => some .verbose
  | 0x61 => some .ascii
  | 0x75 => some .unicode
  | 0x74 => some .template
  | _ => none

/-- A set of flags. -/
structure Flags where
  ignoreCase : Bool := false
  multiline : Bool := false
  dotAll : Bool := false
  verbose : Bool := false
  ascii : Bool := false
  unicode : Bool := false
  template : Bool := false
  deriving DecidableEq, Repr

namespace Flags

def insert (f : Flags) : Flag → Flags
  | .ignoreCase => { f with ignoreCase := true }
  | .multiline => { f with multiline := true }
  | .dotAll => { f with dotAll := true }
  | .verbose => { f with verbose := true }
  | .ascii => { f with ascii := true }
  | .unicode => { f with unicode := true }
  | .template => { f with template := true }

def ofLetters (letters : Text) : Flags :=
  (letters.filterMap Flag.ofLetter?).foldl insert {}

def union (f g : Flags) : Flags where
  ignoreCase := f.ignoreCase || g.ignoreCase
  multiline := f.multiline || g.multiline
  dotAll := f.dotAll || g.dotAll
  verbose := f.verbose || g.verbose
  ascii := f.ascii || g.ascii
  unicode := f.unicode || g.unicode
  template := f.template || g.template

/-- Whether the two sets share a flag. -/
def meets (f g : Flags) : Bool :=
  (f.ignoreCase && g.ignoreCase) || (f.multiline && g.multiline) || (f.dotAll && g.dotAll)
    || (f.verbose && g.verbose) || (f.ascii && g.ascii) || (f.unicode && g.unicode)
    || (f.template && g.template)

/-- The flags inside a group that adds some and removes others. A group that chooses between the
ASCII and the Unicode classes overrides the choice around it. -/
def within (f added removed : Flags) : Flags :=
  let chooses := added.ascii || added.unicode
  { ignoreCase := (f.ignoreCase || added.ignoreCase) && !removed.ignoreCase
    multiline := (f.multiline || added.multiline) && !removed.multiline
    dotAll := (f.dotAll || added.dotAll) && !removed.dotAll
    verbose := (f.verbose || added.verbose) && !removed.verbose
    ascii := if chooses then added.ascii else f.ascii
    unicode := if chooses then added.unicode else f.unicode
    template := f.template }

/-- The letters of the flags that a group can turn on. -/
def scopedLetters (f : Flags) : Text :=
  (if f.ignoreCase then [0x69] else []) ++ (if f.multiline then [0x6D] else [])
    ++ (if f.dotAll then [0x73] else []) ++ (if f.verbose then [0x78] else [])
    ++ (if f.ascii then [0x61] else [])

end Flags
end TokenRules.Pattern
