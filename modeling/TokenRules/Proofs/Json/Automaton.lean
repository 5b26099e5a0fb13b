import TokenRules.Proofs.Json.Derivation

/-! The automaton of frames against the grammar of values. Every accepted row of events leaves a
stack that spells out what was read: each frame holds what the events since its bracket denote, and
the frame around it awaited a value when the bracket came. -/
namespace TokenRules.Json

namespace Reply

@[simp] theorem accepted_refusal (a : α) : (accepted a).refusal = none := rfl

@[simp] theorem accepted_after (a : α) : (accepted a).after = a := rfl

@[simp] theorem refused_refusal (a : α) (why : Refusal) : (refused a why).refusal = some why := rfl

@[simp] theorem refused_after (a : α) (why : Refusal) : (refused a why).after = a := rfl

@[simp] theorem within_refusal (r : Reply α) (hold : α → β) : (r.within hold).refusal = r.refusal :=
  rfl

@[simp] theorem within_after (r : Reply α) (hold : α → β) : (r.within hold).after = hold r.after :=
  rfl

end Reply

namespace Builder

/-- Applies events in order, up to the first that is refused. -/
def run (b : Builder) : List Event → Except Refusal Builder
  | [] => .ok b
  | e :: es =>
    match (b.apply e).toExcept with
    | .ok b => run b es
    | .error why => .error why

/-- The value that a whole row of events puts together. -/
def build (events : List Event) : Except Refusal Value :=
  match run .empty events with
  | .ok b => b.finish
  | .error why => .error why

theorem run_append (b : Builder) (es es' : List Event) :
    b.run (es ++ es') = match b.run es with
      | .ok b => b.run es'
      | .error why => .error why := by
  induction es generalizing b with
  | nil => rfl
  | cons e es ih =>
    simp only [List.cons_append, run]
    cases (b.apply e).toExcept with
    | error why => rfl
    | ok b => exact ih b

theorem run_append_ok {b b' : Builder} (h : b.run es = .ok b') (es' : List Event) :
    b.run (es ++ es') = b'.run es' := by
  rw [run_append, h]

theorem run_cons_ok {b : Builder} (accepted : (b.apply e).refusal = none) (es : List Event) :
    b.run (e :: es) = (b.apply e).after.run es := by
  rw [run, Reply.toExcept, accepted]

theorem run_single_ok {b : Builder} (accepted : (b.apply e).refusal = none) :
    b.run [e] = .ok (b.apply e).after :=
  run_cons_ok accepted []

end Builder

namespace Frame

/-- Any value may come next. -/
def Awaits : Frame → Prop
  | .bare => False
  | .root f => f.value = none
  | .array f => f.state = .initial ∨ f.state = .comma
  | .object f => f.state = .colon ∧ f.name.isSome

/-- The event that opens a frame like this one; the outermost is never opened. -/
def opening? : Frame → Option Event
  | .bare | .root _ => none
  | .array f => some (.openArray f.start)
  | .object f => some (.openObject f.start)

/-- The empty collection that stands in the frame around it until this one closes. -/
def blank : Frame → Value
  | .object _ => .object []
  | _ => .array []

theorem Awaits.add_accepted {f : Frame} (awaits : f.Awaits) (v : Value) :
    (Frame.add v f).refusal = none := by
  cases f with
  | bare => exact awaits.elim
  | root f =>
    have unset : f.value = none := awaits
    simp [add, RootFrame.add, unset]
  | array f =>
    rcases awaits with initial | comma
    · simp [add, ArrayFrame.add, initial]
    · simp [add, ArrayFrame.add, comma]
  | object f =>
    obtain ⟨colon, named⟩ := awaits
    obtain ⟨k, named⟩ := Option.isSome_iff_exists.mp named
    simp [add, ObjectFrame.add, colon, named]

/-- Whatever a value replaced, only the value counts. -/
theorem Awaits.replaceLast_add {f : Frame} (awaits : f.Awaits) (v w : Value) :
    (Frame.add w f).after.replaceLast v = (Frame.add v f).after := by
  cases f with
  | bare => exact awaits.elim
  | root f =>
    have unset : f.value = none := awaits
    simp [add, RootFrame.add, unset, replaceLast]
  | array f =>
    rcases awaits with initial | comma
    · simp [add, ArrayFrame.add, initial, replaceLast,
        ArrayFrame.replaceLast]
    · simp [add, ArrayFrame.add, comma, replaceLast,
        ArrayFrame.replaceLast]
  | object f =>
    obtain ⟨colon, named⟩ := awaits
    obtain ⟨k, named⟩ := Option.isSome_iff_exists.mp named
    simp [add, ObjectFrame.add, colon, named, replaceLast,
      ObjectFrame.replaceLast, assign_assign]

/-- A collection is accepted only where any value is. -/
theorem awaits_of_add_blank {f opened : Frame} (accepted : (Frame.add opened.blank f).refusal = none) :
    f.Awaits := by
  cases f with
  | bare => cases opened <;> simp [add] at accepted
  | root f =>
    simp only [add, RootFrame.add, Reply.within] at accepted
    split at accepted
    · simp [Reply.refused] at accepted
    · simpa [Awaits] using ‹¬f.value.isSome = true›
  | array f =>
    cases state : f.state with
    | initial => exact .inl state
    | comma => exact .inr state
    | value => simp [add, ArrayFrame.add, state] at accepted
  | object f =>
    cases state : f.state with
    | colon =>
      cases name : f.name with
      | some k => exact ⟨state, by simp [name]⟩
      | none => simp [add, ObjectFrame.add, state, name] at accepted
    | initial | comma | name | value =>
      cases opened <;>
        simp [add, ObjectFrame.add, state, blank] at accepted

/-- What stands before a name: nothing yet, or members and a comma. -/
inductive Leading : List Event → List (Text × Value) → Prop
  | opened : Leading [] []
  | comma : Members es ms → Leading (es ++ [.comma]) ms

/-- The frame holds what the events since its bracket denote, and its state tells where they stop. -/
inductive Filled : Frame → List Event → Prop
  | unset : Filled (.root ⟨none⟩) []
  | set : Derives es v → Filled (.root ⟨some v.merged⟩) es
  | arrayOpened : Filled (.array ⟨start, .initial, []⟩) []
  | arrayComma : Elements es vs →
      Filled (.array ⟨start, .comma, (Value.mergedElements vs).reverse⟩) (es ++ [.comma])
  | arrayValue : Elements es vs →
      Filled (.array ⟨start, .value, (Value.mergedElements vs).reverse⟩) es
  | objectOpened : Filled (.object ⟨start, .initial, none, latest, []⟩) []
  | objectComma : Members es ms →
      Filled (.object ⟨start, .comma, none, latest, lastValues (Value.mergedMembers ms)⟩)
        (es ++ [.comma])
  | objectName : Leading es ms →
      Filled (.object ⟨start, .name, some k, latest, lastValues (Value.mergedMembers ms)⟩)
        (es ++ [.value (.string k)])
  | objectColon : Leading es ms →
      Filled (.object ⟨start, .colon, some k, latest, lastValues (Value.mergedMembers ms)⟩)
        (es ++ [.value (.string k), .colon])
  | objectValue : Members es ms →
      Filled (.object ⟨start, .value, none, latest, lastValues (Value.mergedMembers ms)⟩) es

theorem Leading.member (leading : Leading es ms) (derives : Derives es' v) :
    Members (es ++ [.value (.string k), .colon] ++ es') (ms ++ [(k, v)]) := by
  cases leading with
  | opened => simpa using Members.one derives
  | comma members => simpa using Members.more members derives

/-- A whole value where one is awaited. -/
theorem Filled.add_derived {f : Frame} (filled : Filled f es) (awaits : f.Awaits)
    (derives : Derives es' v) : Filled (Frame.add v.merged f).after (es ++ es') := by
  cases filled with
  | unset => exact .set derives
  | arrayOpened => exact .arrayValue (.one derives)
  | @arrayComma es vs start elements =>
    have more : Filled (.array ⟨start, .value, _⟩) _ := .arrayValue (.more elements derives)
    rw [Value.mergedElements_append, List.reverse_append] at more
    rw [List.append_assoc]
    exact more
  | @objectColon es ms start k latest leading =>
    have more : Filled (.object ⟨start, .value, none, some k, _⟩) _ :=
      .objectValue (leading.member (k := k) derives)
    rw [Value.mergedMembers_append] at more
    simp only [Value.mergedMembers, lastValues_append] at more
    exact more
  | set derived => simp [Awaits] at awaits
  | arrayValue _ | objectOpened | objectComma _ | objectName _ | objectValue _ =>
    simp [Awaits] at awaits

theorem add_name {f : ObjectFrame} (unnamed : f.name = none)
    (between : f.state = .initial ∨ f.state = .comma)
    (accepted : (Frame.add v (.object f)).refusal = none) :
    ∃ k, v = .string k ∧
      (Frame.add v (.object f)).after = .object { f with name := some k, state := .name } := by
  cases v with
  | string k =>
    rcases between with initial | comma
    · exact ⟨k, rfl, by simp [add, ObjectFrame.add, initial, unnamed]⟩
    · exact ⟨k, rfl, by simp [add, ObjectFrame.add, comma, unnamed]⟩
  | _ => rcases between with state | state <;> simp [add, ObjectFrame.add, state] at accepted

theorem Filled.add_scalar {f : Frame} (filled : Filled f es) (scalar : v.IsScalar)
    (accepted : (Frame.add v f).refusal = none) :
    Filled (Frame.add v f).after (es ++ [.value v]) := by
  have derives := Derives.scalar scalar
  by_cases awaits : f.Awaits
  · simpa only [scalar.merged_eq] using filled.add_derived awaits derives
  · cases filled with
    | unset | arrayOpened | arrayComma _ | objectColon _ => simp [Awaits] at awaits
    | set _ | arrayValue _ | objectName _ | objectValue _ =>
      simp [add, RootFrame.add, ArrayFrame.add, ObjectFrame.add] at accepted
    | @objectOpened start latest =>
      obtain ⟨k, rfl, after⟩ := add_name rfl (.inl rfl) accepted
      have named : Filled (.object ⟨start, .name, some k, latest, _⟩) _ := .objectName .opened
      rw [after]
      simpa [Value.mergedMembers] using named
    | @objectComma es ms start latest members =>
      obtain ⟨k, rfl, after⟩ := add_name rfl (.inr rfl) accepted
      rw [after]
      exact .objectName (.comma members)

theorem Filled.colon {f : Frame} (filled : Filled f es) (accepted : f.colon.refusal = none) :
    Filled f.colon.after (es ++ [.colon]) := by
  cases filled with
  | objectName leading =>
    rw [List.append_assoc]
    exact .objectColon leading
  | unset | set _ | arrayOpened | arrayComma _ | arrayValue _ | objectOpened | objectComma _
  | objectColon _ | objectValue _ => simp [Frame.colon, ObjectFrame.colon] at accepted

theorem Filled.comma {f : Frame} (filled : Filled f es) (accepted : f.comma.refusal = none) :
    Filled f.comma.after (es ++ [.comma]) := by
  cases filled with
  | arrayValue elements => exact .arrayComma elements
  | objectValue members => exact .objectComma members
  | unset | set _ | arrayOpened | arrayComma _ | objectOpened | objectComma _ | objectName _
  | objectColon _ => simp [Frame.comma, ArrayFrame.comma, ObjectFrame.comma] at accepted

/-- What a bracket closes is a value, and the frame holds what it denotes. -/
theorem Filled.closeArray {f : Frame} (filled : Filled f es)
    (accepted : f.closeArray.refusal = none) :
    f.closeArray.after = f ∧ ∃ e v, f.opening? = some e ∧
      Derives (e :: (es ++ [.closeArray])) v ∧ f.held? = some v.merged := by
  cases filled with
  | @arrayOpened start =>
    exact ⟨rfl, .openArray start, .array [], rfl, .emptyArray, rfl⟩
  | @arrayValue es vs start elements =>
    refine ⟨rfl, .openArray start, .array vs, rfl, .array elements, ?_⟩
    simp [held?, ArrayFrame.held, Value.merged]
  | unset | set _ | arrayComma _ | objectOpened | objectComma _ | objectName _ | objectColon _
  | objectValue _ => simp [Frame.closeArray, ArrayFrame.close] at accepted

theorem Filled.closeObject {f : Frame} (filled : Filled f es)
    (accepted : f.closeObject.refusal = none) :
    f.closeObject.after = f ∧ ∃ e v, f.opening? = some e ∧
      Derives (e :: (es ++ [.closeObject])) v ∧ f.held? = some v.merged := by
  cases filled with
  | @objectOpened start latest =>
    exact ⟨rfl, .openObject start, .object [], rfl, .emptyObject, by
      simp [held?, ObjectFrame.held, Value.merged, Value.mergedMembers]⟩
  | @objectValue es ms start latest members =>
    refine ⟨rfl, .openObject start, .object ms, rfl, .object members, ?_⟩
    simp [held?, ObjectFrame.held, Value.merged]
  | unset | set _ | arrayOpened | arrayComma _ | arrayValue _ | objectComma _ | objectName _
  | objectColon _ => simp [Frame.closeObject, ObjectFrame.close] at accepted

theorem Filled.root_of_unopened {f : Frame} (filled : Filled f es) (unopened : f.opening? = none) :
    ∃ f', f = .root f' := by
  cases filled with
  | unset | set _ => exact ⟨_, rfl⟩
  | _ => simp [opening?] at unopened

theorem opening_add (v : Value) (f : Frame) : (Frame.add v f).after.opening? = f.opening? := by
  cases f with
  | bare | root => rfl
  | array f => cases state : f.state <;> simp [add, ArrayFrame.add, state, opening?]
  | object f =>
    rw [add]
    fun_cases ObjectFrame.add f v
    all_goals simp [opening?]

theorem opening_colon (f : Frame) : f.colon.after.opening? = f.opening? := by
  cases f with
  | object f => simp only [Frame.colon, ObjectFrame.colon]; split <;> simp [opening?]
  | _ => rfl

theorem opening_comma (f : Frame) : f.comma.after.opening? = f.opening? := by
  cases f with
  | array f => simp only [Frame.comma, ArrayFrame.comma]; split <;> simp [opening?]
  | object f => simp only [Frame.comma, ObjectFrame.comma]; split <;> simp [opening?]
  | _ => rfl

end Frame

namespace Builder

/-- The builder after a bracket, whose frame then went on to become `f`. -/
def enclose (b : Builder) (f : Frame) : Builder :=
  let around := (b.offer (Frame.add f.blank)).after
  { around with inner := f :: around.inner }

/-- The events lead to the builder: the frames, from the outermost on, were opened one in the other
where a value was awaited, and each is filled by the events since. -/
inductive Reaches : Builder → List Event → Prop
  | outermost : Frame.Filled (.root f) es → Reaches ⟨f, []⟩ es
  | nested : Reaches b es → b.active.Awaits → f.opening? = some e → f.Filled es' →
      Reaches (b.enclose f) (es ++ e :: es')

@[simp] theorem active_enclose (b : Builder) (f : Frame) : (b.enclose f).active = f := rfl

theorem enclose_setActive (b : Builder) {f g : Frame} (same : g.blank = f.blank) :
    (b.enclose f).setActive g = b.enclose g := by
  simp only [enclose, setActive, same]

theorem blank_of_opening {f g : Frame} (same : g.opening? = f.opening?) : g.blank = f.blank := by
  cases f <;> cases g <;> simp_all [Frame.opening?, Frame.blank]

/-- A token that only the active frame deals with. -/
theorem Reaches.offer {token : Frame → Reply Frame} (reached : Reaches b es)
    (kept : (token b.active).after.opening? = b.active.opening?)
    (filled : ∀ es, b.active.Filled es → (token b.active).after.Filled (es ++ added)) :
    Reaches (b.offer token).after (es ++ added) := by
  cases reached with
  | @outermost f _ content =>
    have content := filled es content
    generalize result : (token (Builder.active ⟨f, []⟩)).after = g at kept content
    obtain ⟨f', rfl⟩ := content.root_of_unopened kept
    simpa [Builder.offer, result, setActive] using Reaches.outermost content
  | @nested b es e f es' reached awaits opening content =>
    simp only [active_enclose] at kept filled
    rw [List.append_assoc, List.cons_append]
    simp only [Builder.offer, Reply.within_after, active_enclose]
    rw [enclose_setActive b (blank_of_opening kept)]
    exact .nested reached awaits (kept.trans opening) (filled _ content)

/-- A whole value where one is awaited. -/
theorem Reaches.add_derived (reached : Reaches b es) (awaits : b.active.Awaits)
    (derives : Derives es' v) : Reaches (b.offer (Frame.add v.merged)).after (es ++ es') :=
  reached.offer (Frame.opening_add _ _) fun _ content => content.add_derived awaits derives

/-- What stood in for a collection makes way for it. -/
theorem pop_enclose (b : Builder) {f : Frame} (awaits : b.active.Awaits) (held : f.held? = some v) :
    (b.enclose f).pop = (b.offer (Frame.add v)).after := by
  obtain ⟨root, inner⟩ := b
  cases inner with
  | nil =>
    have unset : root.value = none := awaits
    simp [enclose, pop, held, Builder.offer, setActive, active, Frame.add, RootFrame.add, unset,
      Frame.replaceLast]
  | cons g outer =>
    have replaced := Frame.Awaits.replaceLast_add awaits v f.blank
    simp only [active] at replaced
    simp [enclose, pop, held, Builder.offer, setActive, active, replaced]

theorem push_eq (b : Builder) (f : Frame) :
    b.push f = (b.offer (Frame.add f.blank)).followedBy
      fun around => { around with inner := f :: around.inner } := by
  cases f <;> rfl

theorem push_accepted {b : Builder} {f : Frame} (accepted : (b.push f).refusal = none) :
    b.active.Awaits ∧ (b.push f).after = b.enclose f := by
  rw [push_eq, Reply.followedBy] at accepted
  split at accepted
  · next taken =>
    refine ⟨Frame.awaits_of_add_blank taken, ?_⟩
    rw [push_eq, Reply.followedBy, taken]
    rfl
  · next why refused => simp [refused] at accepted

theorem followedBy_pop_accepted {r : Reply Builder} (accepted : (r.followedBy pop).refusal = none) :
    r.refusal = none ∧ (r.followedBy pop).after = r.after.pop := by
  rw [Reply.followedBy] at accepted ⊢
  split at accepted
  · next taken => exact ⟨taken, rfl⟩
  · next why refused => simp [refused] at accepted

/-- A bracket that closes the active frame makes a value of it, where one was awaited. -/
theorem Reaches.close {token : Frame → Reply Frame} (reached : Reaches b es)
    (closes : ∀ es, b.active.Filled es → (token b.active).after = b.active ∧
      ∃ e v, b.active.opening? = some e ∧ Derives (e :: (es ++ [last])) v ∧
        b.active.held? = some v.merged) :
    Reaches (b.offer token).after.pop (es ++ [last]) := by
  cases reached with
  | outermost content =>
    obtain ⟨_, e, _, unopened, _⟩ := closes _ content
    simp [active, Frame.opening?] at unopened
  | @nested b es e f es' reached awaits opening content =>
    simp only [active_enclose] at closes
    obtain ⟨unchanged, e', v, opening', derives, held⟩ := closes _ content
    obtain rfl : e = e' := by simpa [opening] using opening'
    have kept : (b.enclose f).setActive f = b.enclose f := enclose_setActive b rfl
    simp only [Builder.offer, Reply.within_after, active_enclose, unchanged, kept]
    rw [pop_enclose b awaits held, List.append_assoc]
    exact reached.add_derived awaits derives

theorem Reaches.step (reached : Reaches b es) (scalar : ∀ v, e = .value v → v.IsScalar)
    (accepted : (b.apply e).refusal = none) : Reaches (b.apply e).after (es ++ [e]) := by
  cases e with
  | value v =>
    exact reached.offer (Frame.opening_add v _) fun _ content =>
      content.add_scalar (scalar v rfl) accepted
  | openArray start =>
    obtain ⟨awaits, after⟩ := push_accepted accepted
    rw [apply, after]
    exact .nested reached awaits rfl .arrayOpened
  | openObject start =>
    obtain ⟨awaits, after⟩ := push_accepted accepted
    rw [apply, after]
    exact .nested reached awaits rfl .objectOpened
  | closeArray =>
    obtain ⟨taken, after⟩ := followedBy_pop_accepted accepted
    rw [apply, after]
    exact reached.close fun _ content => content.closeArray taken
  | closeObject =>
    obtain ⟨taken, after⟩ := followedBy_pop_accepted accepted
    rw [apply, after]
    exact reached.close fun _ content => content.closeObject taken
  | colon =>
    exact reached.offer (Frame.opening_colon _) fun _ content => content.colon accepted
  | comma =>
    exact reached.offer (Frame.opening_comma _) fun _ content => content.comma accepted

theorem Reaches.run {b b' : Builder} (reached : Reaches b es)
    (scalars : ∀ v, Event.value v ∈ es' → v.IsScalar) (ran : b.run es' = .ok b') :
    Reaches b' (es ++ es') := by
  induction es' generalizing b es with
  | nil =>
    obtain rfl := Except.ok.inj ran
    simpa using reached
  | cons e rest ih =>
    cases refusal : (b.apply e).refusal with
    | some why => simp [Builder.run, Reply.toExcept, refusal] at ran
    | none =>
      rw [run_cons_ok refusal] at ran
      have next := reached.step (fun v same => scalars v (by simp [same])) refusal
      have final := ih next (fun v member => scalars v (List.mem_cons_of_mem _ member)) ran
      simpa using final

/-- Only the outermost frame can end, and only once it holds a value. -/
theorem Reaches.finish (reached : Reaches b es) (finished : b.finish = .ok v) :
    ∃ tree, Derives es tree ∧ tree.merged = v := by
  cases reached with
  | @outermost f _ content =>
    cases content with
    | unset => simp [Builder.finish, active, Frame.finish, RootFrame.finish] at finished
    | set derives => exact ⟨_, derives, Except.ok.inj finished⟩
  | nested _ _ opening content =>
    cases content with
    | unset | set _ => simp [Frame.opening?] at opening
    | _ => simp [Builder.finish, Frame.finish] at finished

theorem push_of_awaits {b : Builder} (awaits : b.active.Awaits) (f : Frame) :
    (b.push f).refusal = none ∧ (b.push f).after = b.enclose f := by
  have taken : (b.offer (Frame.add f.blank)).refusal = none := awaits.add_accepted _
  rw [push_eq, Reply.followedBy, taken]
  exact ⟨rfl, rfl⟩

/-- A bracket that opens `f`, events that turn `f` into `g`, and a bracket that closes `g`. -/
theorem run_enclosed {b : Builder} (f g : Frame) (awaits : b.active.Awaits)
    (opens : b.apply first = b.push f) (content : (b.enclose f).run es = .ok (b.enclose g))
    (closes : (b.enclose g).apply last = Reply.accepted (b.enclose g).pop)
    (held : g.held? = some v) :
    b.run (first :: (es ++ [last])) = .ok (b.offer (Frame.add v)).after := by
  obtain ⟨accepted, after⟩ := push_of_awaits awaits f
  have accepted : (b.apply first).refusal = none := opens ▸ accepted
  have closed : ((b.enclose g).apply last).refusal = none := closes ▸ rfl
  rw [run_cons_ok accepted, opens, after, run_append_ok content, run_single_ok closed, closes,
    Reply.accepted_after, pop_enclose b awaits held]

theorem awaits_colon {f : RootFrame} :
    (active ⟨f, .object ⟨start, .colon, some k, latest, members⟩ :: outer⟩).Awaits :=
  ⟨rfl, rfl⟩

end Builder

open Builder in
mutual

/-- Where a value is awaited, the events of one add it. -/
theorem Derives.run_eq : Derives es v → ∀ {b : Builder}, b.active.Awaits →
    b.run es = .ok (b.offer (Frame.add v.merged)).after
  | .scalar scalar, b, awaits => by
    rw [scalar.merged_eq]
    exact run_single_ok (e := .value _) (awaits.add_accepted _)
  | @Derives.emptyArray start, b, awaits =>
    run_enclosed (.array (.opened start)) (.array (.opened start)) awaits rfl
      (rfl : Builder.run _ [] = _) rfl rfl
  | @Derives.array es vs start elements, b, awaits =>
    run_enclosed (.array (.opened start)) (.array ⟨start, .value, _⟩) awaits rfl elements.run_eq
      rfl (by simp [Frame.held?, ArrayFrame.held, Value.merged])
  | @Derives.emptyObject start, b, awaits =>
    run_enclosed (.object (.opened start)) (.object (.opened start)) awaits rfl
      (rfl : Builder.run _ [] = _) rfl (by
        simp [Frame.held?, ObjectFrame.held, ObjectFrame.opened, Value.merged,
          Value.mergedMembers])
  | @Derives.object es ms start members, b, awaits => by
    obtain ⟨latest, ran⟩ := members.run_eq (b.offer (Frame.add (.object []))).after.root start
      (b.offer (Frame.add (.object []))).after.inner
    exact run_enclosed (.object (.opened start)) (.object ⟨start, .value, none, latest, _⟩) awaits
      rfl ran rfl (by simp [Frame.held?, ObjectFrame.held, Value.merged])

/-- In an array that has just been opened. -/
theorem Elements.run_eq : Elements es vs → ∀ {root : RootFrame} {start : Int} {outer : List Frame},
    Builder.run ⟨root, .array (.opened start) :: outer⟩ es =
      .ok ⟨root, .array ⟨start, .value, (Value.mergedElements vs).reverse⟩ :: outer⟩
  | .one derives, _, _, _ => derives.run_eq (.inl rfl)
  | .more elements derives, _, _, _ => by
    rw [run_append_ok elements.run_eq, run_cons_ok rfl]
    rw [Value.mergedElements_append, List.reverse_append]
    exact derives.run_eq (.inr rfl)

/-- In an object that has just been opened. -/
theorem Members.run_eq : Members es ms → ∀ (root : RootFrame) (start : Int) (outer : List Frame),
    ∃ latest, Builder.run ⟨root, .object (.opened start) :: outer⟩ es =
      .ok ⟨root, .object ⟨start, .value, none, latest, lastValues (Value.mergedMembers ms)⟩ ::
        outer⟩
  | .one (k := k) (v := v) derives, root, start, outer => by
    have one : lastValues [(k, v.merged)] = assign k v.merged [] := by
      simpa using lastValues_append [] k v.merged
    refine ⟨some k, ?_⟩
    rw [run_cons_ok rfl, run_cons_ok rfl]
    simp only [Value.mergedMembers, one]
    exact derives.run_eq awaits_colon
  | .more (k := k) (v := v) members derives, root, start, outer => by
    obtain ⟨latest, ran⟩ := members.run_eq root start outer
    refine ⟨some k, ?_⟩
    rw [run_append_ok ran, run_cons_ok rfl, run_cons_ok rfl, run_cons_ok rfl]
    simp only [Value.mergedMembers_append, Value.mergedMembers, lastValues_append]
    exact derives.run_eq awaits_colon

end

namespace Builder

theorem build_of_derives (derives : Derives events tree) : build events = .ok tree.merged := by
  have ran := derives.run_eq (b := .empty) rfl
  rw [build, ran]
  rfl

theorem derives_of_build (scalars : ∀ v, Event.value v ∈ events → v.IsScalar)
    (built : build events = .ok v) : ∃ tree, Derives events tree ∧ tree.merged = v := by
  unfold build at built
  split at built
  · next b ran =>
    have reached : Reaches b ([] ++ events) := (Reaches.outermost .unset).run scalars ran
    exact reached.finish built
  · contradiction

/-- The builder takes the events of one value and no others. -/
theorem build_ok_iff_derives (scalars : ∀ v, Event.value v ∈ events → v.IsScalar) :
    (∀ v, build events = .ok v ↔ ∃ tree, Derives events tree ∧ tree.merged = v) ∧
    ((¬ ∃ tree, Derives events tree) ↔ ∃ why, build events = .error why) := by
  refine ⟨fun v => ⟨derives_of_build scalars, ?_⟩, ?_, ?_⟩
  · rintro ⟨tree, derives, rfl⟩
    exact build_of_derives derives
  · intro underivable
    cases built : build events with
    | error why => exact ⟨why, rfl⟩
    | ok v =>
      obtain ⟨tree, derives, _⟩ := derives_of_build scalars built
      exact absurd ⟨tree, derives⟩ underivable
  · rintro ⟨why, failed⟩ ⟨tree, derives⟩
    rw [build_of_derives derives] at failed
    contradiction

/-- An object that names `a` twice, with an empty array under `b` in between. -/
def repeatedName : List Event :=
  [.openObject 0, .value (.string [0x61]), .colon, .value .null, .comma,
    .value (.string [0x62]), .colon, .openArray 9, .closeArray, .comma,
    .value (.string [0x61]), .colon, .value (.bool true), .closeObject]

theorem build_repeatedName :
    (∀ v, Event.value v ∈ repeatedName → v.IsScalar) ∧
      build repeatedName = .ok (.object [([0x61], .bool true), ([0x62], .array [])]) := by
  have scalars : ∀ v, Event.value v ∈ repeatedName → v.IsScalar := by
    simp [repeatedName, Value.IsScalar]
  have first : Members [.value (.string [0x61]), .colon, .value .null] [([0x61], .null)] :=
    .one (.scalar trivial)
  have second := Members.more (k := [0x62]) first (@Derives.emptyArray 9)
  have third := Members.more (k := [0x61]) second (.scalar (v := .bool true) trivial)
  refine ⟨scalars, ((build_ok_iff_derives scalars).1 _).mpr ⟨_, .object third, ?_⟩⟩
  simp [Value.merged, Value.mergedMembers, Value.mergedElements, lastValues]

end Builder
end TokenRules.Json
