import TokenRules.Json.Refusal

/-! Frames: the levels of nesting of a value that is being put together. Each is a small machine
that knows which tokens may come next, and refuses all others without changing. -/
namespace TokenRules.Json

/-- The outermost level takes one value. -/
structure RootFrame where
  value : Option Value

inductive ArrayState where
  | initial | value | comma
  deriving DecidableEq, Repr

/-- An array opened at `start`; its elements are held last first. -/
structure ArrayFrame where
  start : Int
  state : ArrayState
  elements : List Value

inductive ObjectState where
  | initial | name | colon | value | comma
  deriving DecidableEq, Repr

/-- An object opened at `start`. `name` is the key whose value is still to come, and `latest` the
key that was assigned last. -/
structure ObjectFrame where
  start : Int
  state : ObjectState
  name : Option Text
  latest : Option Text
  members : List (Text × Value)

/-- A level of nesting; `bare` stands for one that takes nothing. -/
inductive Frame where
  | bare
  | root (frame : RootFrame)
  | array (frame : ArrayFrame)
  | object (frame : ObjectFrame)

namespace RootFrame

def empty : RootFrame := ⟨none⟩

def add (f : RootFrame) (v : Value) : Reply RootFrame :=
  if f.value.isSome then .refused f (.unexpected v) else .accepted ⟨some v⟩

def held (f : RootFrame) : Value := f.value.getD .null

def finish (f : RootFrame) : Except Refusal Value :=
  match f.value with
  | some v => .ok v
  | none => .error .unexpectedEnd

end RootFrame

namespace ArrayFrame

def opened (start : Int) : ArrayFrame := ⟨start, .initial, []⟩

def held (f : ArrayFrame) : Value := .array f.elements.reverse

def add (f : ArrayFrame) (v : Value) : Reply ArrayFrame :=
  match f.state with
  | .initial | .comma => .accepted { f with elements := v :: f.elements, state := .value }
  | .value => .refused f (.unexpected v)

def comma (f : ArrayFrame) : Reply ArrayFrame :=
  match f.state with
  | .value => .accepted { f with state := .comma }
  | .initial | .comma => .refused f (.sign Sign.comma)

def close (f : ArrayFrame) : Reply ArrayFrame :=
  match f.state with
  | .initial | .value => .accepted f
  | .comma => .refused f (.sign Sign.rightBracket)

/-- Replaces the element added last. -/
def replaceLast (f : ArrayFrame) (v : Value) : ArrayFrame :=
  { f with elements := v :: f.elements.tail }

end ArrayFrame

namespace ObjectFrame

def opened (start : Int) : ObjectFrame := ⟨start, .initial, none, none, []⟩

def held (f : ObjectFrame) : Value := .object f.members

/-- Takes a name, which must be a string, or the value of the name before it. -/
def add (f : ObjectFrame) (v : Value) : Reply ObjectFrame :=
  match f.state with
  | .initial | .comma =>
    match v, f.name with
    | .string name, none => .accepted { f with name := some name, state := .name }
    | _, _ => .refused f (.unexpected v)
  | .colon =>
    match f.name with
    | some name =>
      .accepted { f with
        members := assign name v f.members, latest := some name, name := none, state := .value }
    | none => .refused f (.unexpected v)
  | .name | .value => .refused f (.unexpected v)

def colon (f : ObjectFrame) : Reply ObjectFrame :=
  match f.state with
  | .name => .accepted { f with state := .colon }
  | _ => .refused f (.sign Sign.colon)

def comma (f : ObjectFrame) : Reply ObjectFrame :=
  match f.state with
  | .value => .accepted { f with state := .comma }
  | _ => .refused f (.sign Sign.comma)

def close (f : ObjectFrame) : Reply ObjectFrame :=
  match f.state with
  | .initial | .value => .accepted f
  | _ => .refused f (.sign Sign.rightBrace)

/-- Replaces the value assigned last. -/
def replaceLast (f : ObjectFrame) (v : Value) : ObjectFrame :=
  match f.latest with
  | some name => { f with members := assign name v f.members }
  | none => f

end ObjectFrame

namespace Frame

def add (v : Value) : Frame → Reply Frame
  | .bare => .refused .bare (.unexpected v)
  | .root f => (f.add v).within .root
  | .array f => (f.add v).within .array
  | .object f => (f.add v).within .object

def colon : Frame → Reply Frame
  | .object f => f.colon.within .object
  | f => .refused f (.sign Sign.colon)

def comma : Frame → Reply Frame
  | .array f => f.comma.within .array
  | .object f => f.comma.within .object
  | f => .refused f (.sign Sign.comma)

def closeArray : Frame → Reply Frame
  | .array f => f.close.within .array
  | f => .refused f (.sign Sign.rightBracket)

def closeObject : Frame → Reply Frame
  | .object f => f.close.within .object
  | f => .refused f (.sign Sign.rightBrace)

/-- The end of the text: only the outermost level can be complete. -/
def finish : Frame → Except Refusal Value
  | .bare => .error (.flaw .endless)
  | .root f => f.finish
  | .array f => .error (.unmatched f.start Sign.leftBracket)
  | .object f => .error (.unmatched f.start Sign.leftBrace)

/-- What a frame holds so far; nothing for a bare one. -/
def held? : Frame → Option Value
  | .bare => none
  | .root f => some f.held
  | .array f => some f.held
  | .object f => some f.held

/-- Replaces what was added last. -/
def replaceLast (v : Value) : Frame → Frame
  | .bare => .bare
  | .root _ => .root ⟨some v⟩
  | .array f => .array (f.replaceLast v)
  | .object f => .object (f.replaceLast v)

end Frame
end TokenRules.Json
