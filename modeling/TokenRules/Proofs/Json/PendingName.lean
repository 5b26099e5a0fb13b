import TokenRules.Proofs.Json.Automaton

/-! The name in the frame of an object. The frame holds one from the name on until its value comes, and at no
other time. So the state, and whether a name is a string, decide alone what is refused, and each value goes to
the name that was taken last. -/
namespace TokenRules.Json

namespace Frame

/-- What may be asked of a frame. -/
inductive Operation where
  | add (v : Value)
  | colon
  | comma
  | closeArray
  | closeObject
  | finish

/-- The reply to an operation. To ask for the end does not change a frame. -/
def perform (f : Frame) : Operation → Reply Frame
  | .add v => f.add v
  | .colon => f.colon
  | .comma => f.comma
  | .closeArray => f.closeArray
  | .closeObject => f.closeObject
  | .finish =>
    match f.finish with
    | .ok _ => .accepted f
    | .error why => .refused f why

/-- Performs operations one after the other, going on after those that are refused. -/
def performAll (f : Frame) (ops : List Operation) : Frame :=
  ops.foldl (fun f op => (f.perform op).after) f

end Frame

/-- What is refused in a state, whatever else a frame holds. A name must be a string. -/
def ObjectState.Refuses (state : ObjectState) : Frame.Operation → Prop
  | .add v => state = .name ∨ state = .value ∨
      (state = .initial ∨ state = .comma) ∧ ∀ k, v ≠ .string k
  | .colon => state ≠ .name
  | .comma => state ≠ .value
  | .closeObject => state ≠ .initial ∧ state ≠ .value
  | .closeArray | .finish => True

namespace ObjectFrame
open TokenRules.Json.Frame (Operation)

/-- The reply of an object's frame. It closes no array, and the text must not end in it. -/
def perform (f : ObjectFrame) : Operation → Reply ObjectFrame
  | .add v => f.add v
  | .colon => f.colon
  | .comma => f.comma
  | .closeArray => .refused f (.sign Sign.rightBracket)
  | .closeObject => f.close
  | .finish => .refused f (.unmatched f.start Sign.leftBrace)

def performAll (f : ObjectFrame) (ops : List Operation) : ObjectFrame :=
  ops.foldl (fun f op => (f.perform op).after) f

theorem perform_object (f : ObjectFrame) (op : Operation) :
    (Frame.object f).perform op = (f.perform op).within .object := by
  cases op <;> rfl

theorem performAll_object (f : ObjectFrame) (ops : List Operation) :
    (Frame.object f).performAll ops = .object (f.performAll ops) := by
  induction ops generalizing f with
  | nil => rfl
  | cons op ops ih =>
    rw [Frame.performAll, List.foldl_cons, perform_object]
    exact ih (f.perform op).after

/-- The name that an operation gives, if it leads into the state behind a name. -/
def taken? (f : ObjectFrame) (op : Operation) : Option Text :=
  match op with
  | .add (.string k) => if f.state ≠ .name ∧ (f.perform op).after.state = .name then some k else none
  | _ => none

/-- The last name that any of the operations takes. -/
def lastTaken? (f : ObjectFrame) : List Operation → Option Text
  | [] => none
  | op :: ops => ((f.perform op).after.lastTaken? ops).or (f.taken? op)

/-- From a name on until its value comes, the frame holds that name, which is the last one taken; otherwise it
holds none. -/
def InStep (f : ObjectFrame) (last : Option Text) : Prop :=
  match f.state with
  | .name | .colon => f.name.isSome ∧ f.name = last
  | .initial | .value | .comma => f.name = none

/-- All that an operation can do to a frame that is in step. -/
inductive Effect (f : ObjectFrame) : Operation → Reply ObjectFrame → Prop
  | refused (why : Refusal) : f.state.Refuses op → Effect f op (.refused f why)
  | named (k : Text) : f.state = .initial ∨ f.state = .comma →
      Effect f (.add (.string k)) (.accepted { f with name := some k, state := .name })
  | separated : f.state = .name → Effect f .colon (.accepted { f with state := .colon })
  | assigned (k : Text) (v : Value) : f.state = .colon → f.name = some k →
      Effect f (.add v) (.accepted { f with
        members := assign k v f.members, latest := some k, name := none, state := .value })
  | continued : f.state = .value → Effect f .comma (.accepted { f with state := .comma })
  | closed : f.state = .initial ∨ f.state = .value → Effect f .closeObject (.accepted f)

theorem InStep.waiting {f : ObjectFrame} (inStep : f.InStep last)
    (after : f.state = .name ∨ f.state = .colon) : ∃ k, f.name = some k ∧ last = some k := by
  unfold InStep at inStep
  rcases after with state | state
  all_goals
    rw [state] at inStep
    obtain ⟨k, named⟩ := Option.isSome_iff_exists.mp inStep.1
    exact ⟨k, named, inStep.2.symm.trans named⟩

theorem InStep.unnamed {f : ObjectFrame} (inStep : f.InStep last) (name : f.state ≠ .name)
    (colon : f.state ≠ .colon) : f.name = none := by
  unfold InStep at inStep
  cases state : f.state with
  | name => exact absurd state name
  | colon => exact absurd state colon
  | initial | value | comma => rwa [state] at inStep

theorem InStep.named_iff {f : ObjectFrame} (inStep : f.InStep last) :
    f.name.isSome ↔ f.state = .name ∨ f.state = .colon := by
  constructor
  · intro named
    by_cases after : f.state = .name ∨ f.state = .colon
    · exact after
    · rw [not_or] at after
      simp [inStep.unnamed after.1 after.2] at named
  · intro after
    obtain ⟨k, named, -⟩ := inStep.waiting after
    simp [named]

/-- Between two members only a string is a name. -/
theorem add_effect {f : ObjectFrame} (between : f.state = .initial ∨ f.state = .comma)
    (unnamed : f.name = none) (v : Value) : Effect f (.add v) (f.add v) := by
  by_cases string : ∃ k, v = .string k
  · obtain ⟨k, rfl⟩ := string
    have taken : f.add (.string k) = .accepted { f with name := some k, state := .name } := by
      rcases between with state | state <;> simp [add, state, unnamed]
    rw [taken]
    exact .named k between
  · have refused : f.add v = .refused f (.unexpected v) := by
      rcases between with state | state <;> cases v <;> simp_all [add]
    rw [refused]
    exact .refused _ (.inr (.inr ⟨between, not_exists.mp string⟩))

theorem InStep.effect {f : ObjectFrame} (inStep : f.InStep last) (op : Operation) :
    Effect f op (f.perform op) := by
  cases op with
  | add v =>
    cases state : f.state with
    | initial => exact add_effect (.inl state) (inStep.unnamed (by simp [state]) (by simp [state])) v
    | comma => exact add_effect (.inr state) (inStep.unnamed (by simp [state]) (by simp [state])) v
    | colon =>
      obtain ⟨k, named, -⟩ := inStep.waiting (.inr state)
      simp only [perform, add, state, named]
      exact .assigned k v state named
    | name =>
      simp only [perform, add, state]
      exact .refused _ (.inl state)
    | value =>
      simp only [perform, add, state]
      exact .refused _ (.inr (.inl state))
  | colon =>
    cases state : f.state with
    | name =>
      simp only [perform, colon, state]
      exact .separated state
    | initial | colon | value | comma =>
      simp only [perform, colon, state]
      exact .refused _ (by simp [ObjectState.Refuses, state])
  | comma =>
    cases state : f.state with
    | value =>
      simp only [perform, comma, state]
      exact .continued state
    | initial | name | colon | comma =>
      simp only [perform, comma, state]
      exact .refused _ (by simp [ObjectState.Refuses, state])
  | closeArray => exact .refused _ trivial
  | closeObject =>
    cases state : f.state with
    | initial =>
      simp only [perform, close, state]
      exact .closed (.inl state)
    | value =>
      simp only [perform, close, state]
      exact .closed (.inr state)
    | name | colon | comma =>
      simp only [perform, close, state]
      exact .refused _ (by simp [ObjectState.Refuses, state])
  | finish => exact .refused _ trivial

/-- The state and the value decide alone what is refused. -/
theorem InStep.refused_iff {f : ObjectFrame} (inStep : f.InStep last) (op : Operation) :
    (f.perform op).refusal.isSome ↔ f.state.Refuses op := by
  have effect := inStep.effect op
  generalize f.perform op = reply at effect
  cases effect with
  | refused why refuses => simp [refuses]
  | named k between => rcases between with state | state <;> simp [ObjectState.Refuses, state]
  | separated state | assigned _ _ state _ | continued state => simp [ObjectState.Refuses, state]
  | closed state => rcases state with state | state <;> simp [ObjectState.Refuses, state]

/-- Only a string leads into the state behind a name, and it is the name then. -/
theorem InStep.taken_iff {f : ObjectFrame} (inStep : f.InStep last) (op : Operation) :
    (f.taken? op).isSome ↔ f.state ≠ .name ∧ (f.perform op).after.state = .name := by
  constructor
  · intro taken
    unfold taken? at taken
    split at taken
    · split at taken
      · next leads => exact leads
      · contradiction
    · contradiction
  · rintro ⟨outside, inside⟩
    have effect := inStep.effect op
    generalize replied : f.perform op = reply at effect
    rw [replied] at inside
    cases effect with
    | named k between => simp [taken?, outside, replied]
    | refused _ _ | closed _ => exact absurd inside outside
    | separated _ | assigned _ _ _ _ | continued _ => contradiction

/-- An operation that does not change the state takes no name. -/
theorem InStep.taken_eq_none {f : ObjectFrame} (inStep : f.InStep last)
    (same : (f.perform op).after.state = f.state) : f.taken? op = none := by
  rw [← Option.not_isSome_iff_eq_none, inStep.taken_iff, same]
  rintro ⟨outside, inside⟩
  exact outside inside

theorem InStep.perform {f : ObjectFrame} (inStep : f.InStep last) (op : Operation) :
    (f.perform op).after.InStep ((f.taken? op).or last) := by
  have effect := inStep.effect op
  generalize replied : f.perform op = reply at effect
  cases effect with
  | refused why refuses =>
    rw [inStep.taken_eq_none (by rw [replied]; rfl)]
    exact inStep
  | named k between =>
    have taken : f.taken? (.add (.string k)) = some k := by
      rw [taken?, if_pos]
      rw [replied]
      rcases between with state | state <;> simp [state]
    rw [taken]
    exact ⟨rfl, rfl⟩
  | separated state =>
    obtain ⟨k, named, rfl⟩ := inStep.waiting (.inl state)
    exact ⟨by simp [named], named⟩
  | assigned k v state named => rfl
  | continued state => exact inStep.unnamed (by simp [state]) (by simp [state])
  | closed state =>
    rw [inStep.taken_eq_none (by rw [replied]; rfl)]
    exact inStep

/-- The last name of all that were taken, before or by the operations. -/
theorem InStep.performAll {f : ObjectFrame} (inStep : f.InStep last) (ops : List Operation) :
    (f.performAll ops).InStep ((f.lastTaken? ops).or last) := by
  induction ops generalizing f last with
  | nil => exact inStep
  | cons op ops ih =>
    rw [lastTaken?, Option.or_assoc]
    exact ih (inStep.perform op)

/-- A member is assigned, under the name that was taken last, by an operation that leads from the state behind
a colon to the one behind a value, and by no other. -/
theorem InStep.members {f : ObjectFrame} (inStep : f.InStep last) (op : Operation) :
    (f.state = .colon ∧ (f.perform op).after.state = .value ∧ ∃ k v, last = some k ∧ op = .add v ∧
        (f.perform op).after.members = assign k v f.members) ∨
      ¬ (f.state = .colon ∧ (f.perform op).after.state = .value) ∧
        (f.perform op).after.members = f.members := by
  have effect := inStep.effect op
  generalize f.perform op = reply at effect
  cases effect with
  | assigned k v state named =>
    obtain ⟨k', named', rfl⟩ := inStep.waiting (.inr state)
    obtain rfl := Option.some.inj (named.symm.trans named')
    exact .inl ⟨state, rfl, k, v, rfl, rfl, rfl⟩
  | refused why refuses => exact .inr ⟨by rintro ⟨colon, value⟩; simp [colon] at value, rfl⟩
  | named _ _ | separated _ | continued _ => exact .inr ⟨by simp, rfl⟩
  | closed state => exact .inr ⟨by rcases state with state | state <;> simp [state], rfl⟩

/-- After any operations on a new frame, also refused ones, it holds a name exactly in the two states between a
name and its value, and that is the last name taken. The state and the value decide alone whether the next
operation is refused. It takes a name if it leads into the state behind one. It assigns a member, under the name
that was taken last, if it leads from the state behind a colon to the one behind a value; otherwise it leaves
the members as they are. -/
theorem name_follows_state (start : Int) (ops : List Operation) :
    let f := (opened start).performAll ops
    (Frame.object (opened start)).performAll ops = .object f ∧
    (f.name.isSome ↔ f.state = .name ∨ f.state = .colon) ∧
    (f.name.isSome → f.name = (opened start).lastTaken? ops) ∧
    ∀ op, (Frame.object f).perform op = (f.perform op).within .object ∧
      ((f.perform op).refusal.isSome ↔ f.state.Refuses op) ∧
      ((f.taken? op).isSome ↔ f.state ≠ .name ∧ (f.perform op).after.state = .name) ∧
      ((f.state = .colon ∧ (f.perform op).after.state = .value ∧
          ∃ k v, (opened start).lastTaken? ops = some k ∧ op = .add v ∧
            (f.perform op).after.members = assign k v f.members) ∨
        ¬ (f.state = .colon ∧ (f.perform op).after.state = .value) ∧
          (f.perform op).after.members = f.members) := by
  intro f
  have new : (opened start).InStep none := rfl
  have inStep : f.InStep ((opened start).lastTaken? ops) := by
    simpa using new.performAll ops
  refine ⟨performAll_object _ ops, inStep.named_iff, fun named => ?_, fun op => ?_⟩
  · obtain ⟨k, held, last⟩ := inStep.waiting (inStep.named_iff.mp named)
    exact held.trans last.symm
  · exact ⟨perform_object f op, inStep.refused_iff op, inStep.taken_iff op, inStep.members op⟩

/-- A name comes again. A value before the colon is refused, a second colon and the end behind it, a name that is
no string, and a closing brace behind the name. -/
example :
    let f := (opened 0).performAll
      [.add (.string [0x61]), .add .null, .colon, .colon, .finish, .add (.bool true), .comma, .add .null,
        .add (.string [0x61]), .closeObject, .colon]
    f.state = .colon ∧ f.name = some [0x61] ∧ f.members = [([0x61], .bool true)] ∧
      (f.perform (.add .null)).after.members = [([0x61], .null)] :=
  ⟨rfl, rfl, rfl, rfl⟩

end ObjectFrame
end TokenRules.Json
