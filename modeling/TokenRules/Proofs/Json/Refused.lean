import TokenRules.Proofs.Json.Automaton

/-! Refusals leave no trace. A machine that refuses a token is the machine it was, on every level, so the
operations that fail can be left out of any sequence. -/
namespace TokenRules.Json

/-- The machine that answers is the one before, unless the token was taken. -/
def Reply.Keeps (r : Reply α) (before : α) : Prop :=
  ∀ why, r.refusal = some why → r.after = before

namespace Reply

theorem keeps_accepted (a before : α) : (accepted a).Keeps before := by
  intro why refused
  contradiction

theorem keeps_refused (a : α) (why : Refusal) : (refused a why).Keeps a := fun _ _ => rfl

theorem Keeps.within {r : Reply α} (keeps : r.Keeps a) (hold : α → β) : (r.within hold).Keeps (hold a) :=
  fun why refused => congrArg hold (keeps why refused)

/-- What would have followed is not done. -/
theorem Keeps.followedBy {r : Reply α} (keeps : r.Keeps a) (change : α → α) :
    (r.followedBy change).Keeps a := by
  rw [Reply.followedBy]
  split
  · exact keeps_accepted _ _
  · exact keeps

end Reply

open Reply

theorem RootFrame.add_keeps (f : RootFrame) (v : Value) : (f.add v).Keeps f := by
  rw [add]
  split
  · exact keeps_refused _ _
  · exact keeps_accepted _ _

namespace ArrayFrame

theorem add_keeps (f : ArrayFrame) (v : Value) : (f.add v).Keeps f := by
  rw [add]
  split
  · exact keeps_accepted _ _
  · exact keeps_accepted _ _
  · exact keeps_refused _ _

theorem comma_keeps (f : ArrayFrame) : f.comma.Keeps f := by
  rw [comma]
  split
  · exact keeps_accepted _ _
  · exact keeps_refused _ _
  · exact keeps_refused _ _

theorem close_keeps (f : ArrayFrame) : f.close.Keeps f := by
  rw [close]
  split
  · exact keeps_accepted _ _
  · exact keeps_accepted _ _
  · exact keeps_refused _ _

end ArrayFrame

namespace ObjectFrame

/-- The name, the state and the members move together or not at all. -/
theorem add_keeps (f : ObjectFrame) (v : Value) : (f.add v).Keeps f := by
  unfold add
  split
  case h_3 =>
    split
    · exact keeps_accepted _ _
    · exact keeps_refused _ _
  case h_1 | h_2 =>
    split
    · exact keeps_accepted _ _
    · exact keeps_refused _ _
  case h_4 | h_5 => exact keeps_refused _ _

theorem colon_keeps (f : ObjectFrame) : f.colon.Keeps f := by
  rw [colon]
  split
  · exact keeps_accepted _ _
  · exact keeps_refused _ _

theorem comma_keeps (f : ObjectFrame) : f.comma.Keeps f := by
  rw [comma]
  split
  · exact keeps_accepted _ _
  · exact keeps_refused _ _

theorem close_keeps (f : ObjectFrame) : f.close.Keeps f := by
  unfold close
  split
  · exact keeps_accepted _ _
  · exact keeps_accepted _ _
  · exact keeps_refused _ _

end ObjectFrame

namespace Frame

theorem add_keeps (v : Value) (f : Frame) : (add v f).Keeps f := by
  cases f with
  | bare => exact keeps_refused _ _
  | root f => exact (f.add_keeps v).within Frame.root
  | array f => exact (f.add_keeps v).within Frame.array
  | object f => exact (f.add_keeps v).within Frame.object

theorem colon_keeps (f : Frame) : f.colon.Keeps f := by
  cases f with
  | bare | root _ | array _ => exact keeps_refused _ _
  | object f => exact f.colon_keeps.within Frame.object

theorem comma_keeps (f : Frame) : f.comma.Keeps f := by
  cases f with
  | bare | root _ => exact keeps_refused _ _
  | array f => exact f.comma_keeps.within Frame.array
  | object f => exact f.comma_keeps.within Frame.object

theorem closeArray_keeps (f : Frame) : f.closeArray.Keeps f := by
  cases f with
  | bare | root _ | object _ => exact keeps_refused _ _
  | array f => exact f.close_keeps.within Frame.array

theorem closeObject_keeps (f : Frame) : f.closeObject.Keeps f := by
  cases f with
  | bare | root _ | array _ => exact keeps_refused _ _
  | object f => exact f.close_keeps.within Frame.object

end Frame

namespace Builder

theorem setActive_active (b : Builder) : b.setActive b.active = b := by
  obtain ⟨root, inner⟩ := b
  cases inner with
  | nil => rfl
  | cons frame outer => rfl

theorem offer_keeps {token : Frame → Reply Frame} (keeps : ∀ f, (token f).Keeps f) (b : Builder) :
    (b.offer token).Keeps b := by
  have held := (keeps b.active).within b.setActive
  rwa [setActive_active] at held

/-- A bracket is registered with the frame around it before its own frame is pushed, so a refused one
leaves neither. -/
theorem push_keeps (b : Builder) (opened : Frame) : (b.push opened).Keeps b := by
  rw [push_eq]
  exact (offer_keeps (Frame.add_keeps _) b).followedBy _

theorem apply_keeps (b : Builder) (e : Event) : (b.apply e).Keeps b := by
  cases e with
  | value v => exact offer_keeps (Frame.add_keeps v) b
  | openArray start => exact push_keeps b _
  | openObject start => exact push_keeps b _
  | closeArray => exact (offer_keeps Frame.closeArray_keeps b).followedBy pop
  | closeObject => exact (offer_keeps Frame.closeObject_keeps b).followedBy pop
  | colon => exact offer_keeps Frame.colon_keeps b
  | comma => exact offer_keeps Frame.comma_keeps b

end Builder

/-- What may be asked of a builder: to take a token, or to end. -/
inductive Operation where
  | take (e : Event)
  | finish

/-- What an operation gives back: the builder itself, the value at the end, or why it failed. -/
inductive Answer where
  | itself
  | result (v : Value)
  | refused (why : Refusal)

def Answer.isRefused : Answer → Bool
  | .refused _ => true
  | .itself | .result _ => false

namespace Builder

/-- The answer to an operation, and the builder after it, also if it fails. -/
def perform (b : Builder) : Operation → Answer × Builder
  | .take e =>
    match (b.apply e).refusal with
    | none => (.itself, (b.apply e).after)
    | some why => (.refused why, (b.apply e).after)
  | .finish =>
    match b.finish with
    | .ok v => (.result v, b)
    | .error why => (.refused why, b)

/-- Performs operations one after the other, going on after those that fail. -/
def performAll (b : Builder) : List Operation → Builder
  | [] => b
  | op :: ops => performAll (b.perform op).2 ops

/-- Operations with the answers that they get. -/
def transcript (b : Builder) : List Operation → List (Operation × Answer)
  | [] => []
  | op :: ops => (op, (b.perform op).1) :: transcript (b.perform op).2 ops

theorem perform_refused {b : Builder} (refused : (b.perform op).1 = .refused why) :
    (b.perform op).2 = b := by
  cases op with
  | take e =>
    simp only [perform] at refused ⊢
    split at refused
    · contradiction
    · next why' failed => exact b.apply_keeps e why' failed
  | finish =>
    simp only [perform]
    split
    · rfl
    · rfl

end Builder

/-- Entries of a transcript of which some that failed are left out. -/
inductive Thinned : List (Operation × Answer) → List (Operation × Answer) → Prop
  | nil : Thinned [] []
  | keep : Thinned entries kept → Thinned (entry :: entries) (entry :: kept)
  | drop : Thinned entries kept → Thinned ((op, .refused why) :: entries) kept

theorem thinned_filter (entries : List (Operation × Answer)) :
    Thinned entries (entries.filter fun entry => !entry.2.isRefused) := by
  induction entries with
  | nil => exact .nil
  | cons entry entries ih =>
    obtain ⟨op, answer⟩ := entry
    cases answer with
    | itself => exact .keep ih
    | result v => exact .keep ih
    | refused why => exact .drop ih

namespace Builder

/-- The two runs are at the same builder between any two operations that are kept. -/
theorem thinned_run (b : Builder) (ops : List Operation) (thinned : Thinned (b.transcript ops) kept) :
    b.transcript (kept.map Prod.fst) = kept ∧ b.performAll (kept.map Prod.fst) = b.performAll ops := by
  induction ops generalizing b kept with
  | nil =>
    cases thinned
    exact ⟨rfl, rfl⟩
  | cons op ops ih =>
    generalize answered : b.transcript (op :: ops) = entries at thinned
    cases thinned with
    | nil => contradiction
    | keep thinned =>
      obtain ⟨rfl, rfl⟩ := List.cons.inj answered
      obtain ⟨same, final⟩ := ih _ thinned
      exact ⟨congrArg (List.cons _) same, final⟩
    | drop thinned =>
      obtain ⟨entry, rfl⟩ := List.cons.inj answered
      have unchanged := perform_refused (Prod.mk.inj entry).2
      rw [unchanged] at thinned
      rw [performAll, unchanged]
      exact ih b thinned

/-- A failed operation leaves the builder as it was, whatever failed, and to leave out operations that fail
changes neither what the others answer nor the builder in the end. -/
theorem failed_operations (b : Builder) (ops : List Operation) :
    (∀ op why, (b.perform op).1 = .refused why → (b.perform op).2 = b) ∧
    (∀ kept, Thinned (b.transcript ops) kept →
      b.transcript (kept.map Prod.fst) = kept ∧
        b.performAll (kept.map Prod.fst) = b.performAll ops) ∧
    Thinned (b.transcript ops) ((b.transcript ops).filter fun entry => !entry.2.isRefused) :=
  ⟨fun _ _ => perform_refused, fun _ => b.thinned_run ops, thinned_filter _⟩

/-- An array of one element: a value that is none, a brace and an end come too early, and are refused. -/
def interrupted : List Operation :=
  [.take (.openArray 0), .take (.value .null), .take (.value .foreign), .take .closeObject, .finish,
    .take .closeArray]

theorem failed_operations_interrupted :
    Thinned (empty.transcript interrupted)
      [(.take (.openArray 0), .itself), (.take (.value .null), .itself), (.take .closeArray, .itself)] ∧
    empty.transcript [.take (.openArray 0), .take (.value .null), .take .closeArray] =
      [(.take (.openArray 0), .itself), (.take (.value .null), .itself), (.take .closeArray, .itself)] ∧
    empty.performAll [.take (.openArray 0), .take (.value .null), .take .closeArray] =
      empty.performAll interrupted := by
  have answers : empty.transcript interrupted =
      [(.take (.openArray 0), .itself),
        (.take (.value .null), .itself),
        (.take (.value .foreign), .refused (.flaw .notAValue)),
        (.take .closeObject, .refused (.sign Sign.rightBrace)),
        (.finish, .refused (.unmatched 0 Sign.leftBracket)),
        (.take .closeArray, .itself)] := rfl
  have thinned : Thinned (empty.transcript interrupted)
      [(.take (.openArray 0), .itself), (.take (.value .null), .itself),
        (.take .closeArray, .itself)] := by
    rw [answers]
    exact .keep (.keep (.drop (.drop (.drop (.keep .nil)))))
  exact ⟨thinned, (failed_operations empty interrupted).2.1 _ thinned⟩

end Builder
end TokenRules.Json
