import TokenRules.Json.Frame

/-! Putting a value together from the tokens of its text. A builder holds the outermost frame and
those of the open brackets. An opened collection is added to the frame around it at once, empty, and
gets its content when it closes; until then the partial value is read off all frames together. -/
namespace TokenRules.Json

/-- The frames of the open brackets, the innermost first, above the outermost frame. -/
structure Builder where
  root : RootFrame
  inner : List Frame

/-- What a token of a JSON text does to a builder. -/
inductive Event where
  | value (v : Value)
  | openArray (start : Int)
  | openObject (start : Int)
  | closeArray
  | closeObject
  | colon
  | comma

namespace Builder

def empty : Builder := ⟨.empty, []⟩

def depth (b : Builder) : Nat := b.inner.length

/-- The frame that the next token goes to. -/
def active (b : Builder) : Frame :=
  match b.inner with
  | [] => .root b.root
  | frame :: _ => frame

/-- Puts a changed frame in the place of the active one. -/
def setActive (b : Builder) (frame : Frame) : Builder :=
  match b.inner, frame with
  | [], .root f => { b with root := f }
  | [], _ => b
  | _ :: outer, frame => { b with inner := frame :: outer }

/-- Offers a token to the active frame. -/
def offer (b : Builder) (token : Frame → Reply Frame) : Reply Builder :=
  (token b.active).within b.setActive

/-- Adds an empty collection to the active frame, and makes its frame the active one. -/
def push (b : Builder) (opened : Frame) : Reply Builder :=
  let start := match opened with
    | .object _ => Value.object []
    | _ => Value.array []
  (b.offer (Frame.add start)).followedBy fun b => { b with inner := opened :: b.inner }

/-- Drops the active frame, and gives its content to the frame around it. -/
def pop (b : Builder) : Builder :=
  match b.inner with
  | [] => b
  | frame :: outer =>
    let around : Builder := { b with inner := outer }
    match frame.held? with
    | some v => around.setActive (around.active.replaceLast v)
    | none => around

def apply (b : Builder) : Event → Reply Builder
  | .value v => b.offer (Frame.add v)
  | .openArray start => b.push (.array (.opened start))
  | .openObject start => b.push (.object (.opened start))
  | .closeArray => (b.offer Frame.closeArray).followedBy pop
  | .closeObject => (b.offer Frame.closeObject).followedBy pop
  | .colon => b.offer Frame.colon
  | .comma => b.offer Frame.comma

/-- The end of the text. -/
def finish (b : Builder) : Except Refusal Value :=
  b.active.finish

/-- The value as it stands, each open collection in its place; nothing before the first token. -/
def partialValue? (b : Builder) : Option Value :=
  let filled := b.inner.foldl (fun held frame =>
    ((match held with
      | none => frame
      | some v => frame.replaceLast v).held?).or held) none
  match filled with
  | some v => some v
  | none => b.root.value

end Builder
end TokenRules.Json
