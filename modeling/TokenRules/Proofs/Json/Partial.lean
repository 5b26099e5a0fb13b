import TokenRules.Proofs.Json.Automaton

/-! The value of a text that is still being read. It is the value of the text with its open brackets
closed, but for a comma or a name at its end. What the events add goes to one place in it, that of the
innermost open bracket; the way there leads through the last element of each array and the latest member
of each object around it. -/
namespace TokenRules.Json

/-- An open bracket. In an object, `latest` is the name whose colon came last. -/
inductive Level where
  | array
  | object (latest : Option Text)

def Level.closing : Level → Event
  | .array => .closeArray
  | .object _ => .closeObject

/-- The open brackets after some events, the innermost first, and the string that came last. -/
structure Nesting where
  levels : List Level
  said : Option Text

namespace Nesting

def outermost : Nesting := ⟨[], none⟩

def after (n : Nesting) : Event → Nesting
  | .value (.string s) => { n with said := some s }
  | .value _ | .comma => n
  | .openArray _ => { n with levels := .array :: n.levels }
  | .openObject _ => { n with levels := .object none :: n.levels }
  | .closeArray | .closeObject => { n with levels := n.levels.tail }
  | .colon =>
    match n.levels with
    | .object _ :: outer => { n with levels := .object n.said :: outer }
    | _ => n

theorem after_name {n : Nesting} (inside : n.levels = .object latest :: outer) (k : Text) :
    ((n.after (.value (.string k))).after .colon).levels = .object (some k) :: outer := by
  simp [after, inside]

end Nesting

/-- The brackets that some events leave open, the innermost first. -/
def openLevels (es : List Event) : List Level :=
  (es.foldl Nesting.after .outermost).levels

/-- Events, last first, without what dangles at their end: a comma, or in an object a name that has no
value yet, with its colon and the comma before it. -/
def settled (levels : List Level) : List Event → List Event
  | .comma :: es => es
  | .colon :: _ :: .comma :: es => es
  | .colon :: _ :: es => es
  | .value v :: .comma :: es =>
    match levels with
    | .object _ :: _ => es
    | _ => .value v :: .comma :: es
  | .value _ :: .openObject start :: es => .openObject start :: es
  | es => es

/-- The events without what dangles, and with every open bracket closed. -/
def completed (es : List Event) : List Event :=
  (settled (openLevels es) es.reverse).reverse ++ (openLevels es).map Level.closing

/-- What an event adds: a value, or an empty collection that is still to be filled. -/
def Event.added? : Event → Option Value
  | .value v => some v
  | .openArray _ => some (.array [])
  | .openObject _ => some (.object [])
  | .closeArray | .closeObject | .colon | .comma => none

/-- The collection that is being filled, with a value added: to an array as its last element, to an object
under the name whose colon came just before. Otherwise the value is a name, and adds nothing yet. -/
def addition (es : List Event) (v : Value) (c : Value) : Value :=
  match openLevels es, es.getLast?, c with
  | .array :: _, _, .array vs => .array (vs ++ [v])
  | .object (some k) :: _, some .colon, .object ms => .object (assign k v ms)
  | _, _, c => c

/-- The way to the collection that is being filled, through those around it. -/
def place (es : List Event) : List Level :=
  (openLevels es).tail.reverse

/-- What came last in a collection: the last element, or the member of the latest name. -/
def Level.last? : Level → Value → Option Value
  | .array, .array vs => vs.getLast?
  | .object (some k), .object ms => ms.lookup k
  | _, _ => none

/-- Changes what came last in a collection, and nothing else. -/
def Level.change (f : Value → Value) : Level → Value → Value
  | .array, .array vs => .array (vs.dropLast ++ (vs.getLast?.map f).toList)
  | .object (some k), .object ms =>
    match ms.lookup k with
    | some v => .object (assign k (f v) ms)
    | none => .object ms
  | _, v => v

namespace Value

/-- What stands at a place, to which the levels lead from the outermost on. -/
def at? (v : Value) (path : List Level) : Option Value :=
  path.foldlM (fun v level => level.last? v) v

/-- Changes what stands at a place, and nothing else. -/
def modify (f : Value → Value) (path : List Level) (v : Value) : Value :=
  path.foldr (fun level change => level.change change) f v

theorem at?_append (v : Value) (p q : List Level) : v.at? (p ++ q) = (v.at? p).bind (·.at? q) := by
  rw [at?, List.foldlM_append]
  rfl

theorem modify_append (f : Value → Value) (p q : List Level) :
    modify f (p ++ q) = modify (modify f q) p := by
  funext v
  rw [modify, List.foldr_append]
  rfl

end Value

theorem lookup_assign (k : Text) (v : α) (ms : List (Text × α)) : (assign k v ms).lookup k = some v := by
  induction ms with
  | nil => simp [assign]
  | cons m ms ih =>
    obtain ⟨l, w⟩ := m
    by_cases same : l = k
    · simp [assign, same]
    · have differs : (k == l) = false := by simpa using Ne.symm same
      simp [assign, same, List.lookup_cons, differs, ih]

theorem assign_lookup (found : List.lookup k ms = some v) : assign k v ms = ms := by
  induction ms with
  | nil => simp at found
  | cons m ms ih =>
    obtain ⟨l, w⟩ := m
    by_cases same : l = k
    · subst same
      simp at found
      simp [assign, found]
    · have differs : (k == l) = false := by simpa using Ne.symm same
      simp [List.lookup_cons, differs] at found
      simp [assign, same, ih found]

namespace Level

theorem change_congr {level : Level} (found : level.last? v = some c) (same : f c = g c) :
    level.change f v = level.change g v := by
  cases level with
  | array =>
    cases v with
    | array vs =>
      have found : vs.getLast? = some c := found
      simp [change, found, same]
    | _ => rfl
  | object latest =>
    cases latest with
    | none => rfl
    | some k =>
      cases v with
      | object ms =>
        have found : ms.lookup k = some c := found
        simp [change, found, same]
      | _ => rfl

theorem change_self {level : Level} (found : level.last? v = some c) (same : f c = c) :
    level.change f v = v := by
  cases level with
  | array =>
    cases v with
    | array vs =>
      have found : vs.getLast? = some c := found
      obtain ⟨front, rfl⟩ := List.getLast?_eq_some_iff.mp found
      simp [change, same]
    | _ => rfl
  | object latest =>
    cases latest with
    | none => rfl
    | some k =>
      cases v with
      | object ms =>
        have found : ms.lookup k = some c := found
        simp [change, found, same, assign_lookup found]
      | _ => rfl

end Level

namespace Value

theorem modify_congr (found : at? v path = some c) (same : f c = g c) :
    v.modify f path = v.modify g path := by
  induction path generalizing v with
  | nil =>
    obtain rfl : v = c := Option.some.inj found
    exact same
  | cons level path ih =>
    obtain ⟨w, first, rest⟩ := Option.bind_eq_some_iff.mp found
    exact Level.change_congr first (ih rest)

theorem modify_self (found : at? v path = some c) (same : f c = c) : v.modify f path = v := by
  induction path generalizing v with
  | nil =>
    obtain rfl : v = c := Option.some.inj found
    exact same
  | cons level path ih =>
    obtain ⟨w, first, rest⟩ := Option.bind_eq_some_iff.mp found
    exact Level.change_self first (ih rest)

end Value

/-! A whole value leaves the open brackets as they are. Members, in an object, have said some name. -/

mutual

theorem Derives.levels : Derives es v → ∀ n : Nesting, (es.foldl Nesting.after n).levels = n.levels
  | @Derives.scalar v scalar, n => by
    cases v with
    | array => exact scalar.elim
    | object => exact scalar.elim
    | foreign => exact scalar.elim
    | _ => rfl
  | .emptyArray, n => rfl
  | .array elements, n => by
    rw [List.foldl_cons, List.foldl_append]
    exact congrArg List.tail (elements.levels _)
  | .emptyObject, n => rfl
  | .object members, n => by
    obtain ⟨latest, inside⟩ := members.levels (n.after (.openObject _)) rfl
    rw [List.foldl_cons, List.foldl_append]
    exact congrArg List.tail inside

theorem Elements.levels : Elements es vs → ∀ n : Nesting, (es.foldl Nesting.after n).levels = n.levels
  | .one derives, n => derives.levels n
  | .more elements derives, n => by
    rw [List.foldl_append, List.foldl_cons, derives.levels]
    exact elements.levels n

theorem Members.levels : Members es ms → ∀ n : Nesting, n.levels = .object latest :: outer →
    ∃ latest, (es.foldl Nesting.after n).levels = .object latest :: outer
  | .one (k := k) derives, n, inside => by
    refine ⟨some k, ?_⟩
    rw [List.foldl_cons, List.foldl_cons, derives.levels]
    exact Nesting.after_name inside k
  | .more (k := k) members derives, n, inside => by
    obtain ⟨_, inside⟩ := members.levels n inside
    refine ⟨some k, ?_⟩
    rw [List.foldl_append, List.foldl_cons, List.foldl_cons, List.foldl_cons, derives.levels]
    exact Nesting.after_name inside k

end

/-- Nothing dangles after a whole value that is no name. -/
theorem Derives.settled (derives : Derives es v) (before : List Event) (opened : List Level)
    (value : ∀ v, settled opened (.value v :: before.reverse) = .value v :: before.reverse) :
    Json.settled opened (before ++ es).reverse = (before ++ es).reverse := by
  cases derives with
  | scalar => simpa using value _
  | emptyArray | emptyObject => simp [Json.settled]
  | array | object => simp [Json.settled]

theorem Elements.settled (elements : Elements es vs) (before : List Event) (start : Int)
    (outer : List Level) : Json.settled (.array :: outer) (before ++ .openArray start :: es).reverse =
      (before ++ .openArray start :: es).reverse := by
  cases elements with
  | one derives =>
    have last := derives.settled (before ++ [.openArray start]) (.array :: outer)
      fun v => by simp [Json.settled]
    simpa using last
  | @more es' _ _ _ _ derives =>
    have last := derives.settled (before ++ .openArray start :: (es' ++ [.comma])) (.array :: outer)
      fun v => by simp [Json.settled]
    simpa using last

theorem Members.settled (members : Members es ms) (before : List Event) (opened : List Level) :
    Json.settled opened (before ++ es).reverse = (before ++ es).reverse := by
  cases members with
  | @one _ _ k derives =>
    have last := derives.settled (before ++ [.value (.string k), .colon]) opened
      fun v => by simp [Json.settled]
    simpa using last
  | @more es' _ _ _ k _ derives =>
    have last := derives.settled (before ++ (es' ++ [.comma, .value (.string k), .colon])) opened
      fun v => by simp [Json.settled]
    simpa using last

namespace Frame

theorem Leading.levels (leading : Leading es ms) (n : Nesting)
    (inside : n.levels = .object latest :: outer) :
    ∃ latest, (es.foldl Nesting.after n).levels = .object latest :: outer := by
  cases leading with
  | opened => exact ⟨_, inside⟩
  | comma members =>
    obtain ⟨latest, inside⟩ := members.levels n inside
    refine ⟨latest, ?_⟩
    rw [List.foldl_append]
    exact inside

/-- The level of a frame: in an object whose value is awaited, the latest name is that of the value. -/
def At : Frame → Level → Prop
  | .array _, .array => True
  | .object f, .object latest => f.state = .colon → latest = f.name
  | _, _ => False

/-- The events since the bracket of a frame leave its level open. -/
theorem Filled.level {f : Frame} (filled : Filled f es) (opening : f.opening? = some e) (n : Nesting) :
    ∃ level, ((e :: es).foldl Nesting.after n).levels = level :: n.levels ∧ f.At level := by
  cases filled with
  | unset | set _ => simp [opening?] at opening
  | arrayOpened =>
    obtain rfl := Option.some.inj opening
    exact ⟨.array, rfl, trivial⟩
  | arrayComma elements =>
    obtain rfl := Option.some.inj opening
    refine ⟨.array, ?_, trivial⟩
    rw [List.foldl_cons, List.foldl_append]
    exact elements.levels _
  | arrayValue elements =>
    obtain rfl := Option.some.inj opening
    exact ⟨.array, elements.levels _, trivial⟩
  | objectOpened =>
    obtain rfl := Option.some.inj opening
    exact ⟨.object none, rfl, by simp [At]⟩
  | objectComma members =>
    obtain rfl := Option.some.inj opening
    obtain ⟨latest, inside⟩ := members.levels (n.after (.openObject _)) rfl
    refine ⟨.object latest, ?_, by simp [At]⟩
    rw [List.foldl_cons, List.foldl_append]
    exact inside
  | objectName leading =>
    obtain rfl := Option.some.inj opening
    obtain ⟨latest, inside⟩ := leading.levels (n.after (.openObject _)) rfl
    refine ⟨.object latest, ?_, by simp [At]⟩
    rw [List.foldl_cons, List.foldl_append]
    exact inside
  | @objectColon _ _ _ k _ leading =>
    obtain rfl := Option.some.inj opening
    obtain ⟨latest, inside⟩ := leading.levels (n.after (.openObject _)) rfl
    refine ⟨.object (some k), ?_, fun _ => rfl⟩
    rw [List.foldl_cons, List.foldl_append]
    exact Nesting.after_name inside k
  | objectValue members =>
    obtain rfl := Option.some.inj opening
    obtain ⟨latest, inside⟩ := members.levels (n.after (.openObject _)) rfl
    exact ⟨.object latest, inside, by simp [At]⟩

theorem Awaits.held {f : Frame} (awaits : f.Awaits) (v : Value) :
    ∃ c, (Frame.add v f).after.held? = some c := by
  cases f with
  | bare => exact awaits.elim
  | root f => exact ⟨_, rfl⟩
  | array f => exact ⟨_, rfl⟩
  | object f => exact ⟨_, rfl⟩

/-- An array that awaits an element takes it as its last, an object under the name that is pending. -/
theorem Awaits.takes {f : Frame} (awaits : f.Awaits) (level : f.At l) :
    (∃ g, f = .array g ∧ l = .array ∧ ∀ v, (Frame.add v f).after =
      .array { g with elements := v :: g.elements, state := .value }) ∨
    ∃ g k, f = .object g ∧ l = .object (some k) ∧ g.state = .colon ∧ g.name = some k ∧
      ∀ v, (Frame.add v f).after = .object { g with
        members := assign k v g.members, latest := some k, name := none, state := .value } := by
  cases f with
  | bare | root f => exact level.elim
  | array f =>
    cases l with
    | object latest => exact level.elim
    | array =>
      refine .inl ⟨f, rfl, rfl, ?_⟩
      intro v
      rcases awaits with state | state <;> simp [add, ArrayFrame.add, state]
  | object f =>
    cases l with
    | array => exact level.elim
    | object latest =>
      obtain ⟨colon, named⟩ := awaits
      obtain ⟨k, named⟩ := Option.isSome_iff_exists.mp named
      obtain rfl : latest = some k := (level colon).trans named
      exact .inr ⟨f, k, rfl, rfl, colon, named, fun v => by simp [add, ObjectFrame.add, colon, named]⟩

/-- What is added to a collection that awaits it comes last in it, and all else stays. -/
theorem Awaits.last {f : Frame} (awaits : f.Awaits) (level : f.At l) (v w : Value)
    (held : (Frame.add v f).after.held? = some c) (held' : (Frame.add w f).after.held? = some c') :
    l.last? c = some v ∧ l.change (fun _ => w) c = c' := by
  rcases awaits.takes level with ⟨g, rfl, rfl, takes⟩ | ⟨g, k, rfl, rfl, -, -, takes⟩
  · rw [takes] at held held'
    obtain rfl := Option.some.inj held
    obtain rfl := Option.some.inj held'
    simp [Level.last?, Level.change, ArrayFrame.held]
  · rw [takes] at held held'
    obtain rfl := Option.some.inj held
    obtain rfl := Option.some.inj held'
    simp [Level.last?, Level.change, ObjectFrame.held, lookup_assign, assign_assign]

theorem Filled.nested {f : Frame} (filled : Filled f es') (opening : f.opening? = some e)
    (es : List Event) : ∃ level, openLevels (es ++ e :: es') = level :: openLevels es ∧ f.At level := by
  rw [Json.openLevels, List.foldl_append]
  exact filled.level opening _

/-- A bracket may close the frame. -/
def Closable : Frame → Prop
  | .array f => f.state = .initial ∨ f.state = .value
  | .object f => f.state = .initial ∨ f.state = .value
  | _ => False

theorem Awaits.closable {f : Frame} (awaits : f.Awaits) (level : f.At l) (v : Value) :
    (Frame.add v f).after.Closable ∧ (Frame.add v f).after.At l := by
  rcases awaits.takes level with ⟨g, rfl, rfl, takes⟩ | ⟨g, k, rfl, rfl, -, -, takes⟩
  · rw [takes]
    exact ⟨.inr rfl, trivial⟩
  · rw [takes]
    exact ⟨.inr rfl, by simp [At]⟩

/-- Without a name that dangles, an object may be closed, and holds the same members. -/
theorem Leading.settled (leading : Leading es ms) (start : Int) (latest : Option Text) :
    ∃ f : ObjectFrame, ∃ es' : List Event, Filled (.object f) es' ∧ Closable (.object f) ∧
      f.start = start ∧ f.members = lastValues (Value.mergedMembers ms) ∧ f.state ≠ .colon ∧
      ∀ (before : List Event) (k : Text) (outer : List Level),
        let whole := (before ++ Event.openObject start :: es').reverse
        let name := [Event.value (.string k)]
        Json.settled (.object latest :: outer)
            (before ++ Event.openObject start :: (es ++ name)).reverse = whole ∧
          Json.settled (.object latest :: outer)
            (before ++ Event.openObject start :: (es ++ (name ++ [Event.colon]))).reverse = whole := by
  cases leading with
  | opened =>
    refine ⟨.opened start, [], .objectOpened, .inl rfl, rfl, ?_, by simp [ObjectFrame.opened], ?_⟩
    · simp [ObjectFrame.opened, Value.mergedMembers]
    · simp [Json.settled]
  | @comma es' _ members =>
    refine ⟨⟨start, .value, none, none, _⟩, es', .objectValue members, .inr rfl, rfl, rfl, by simp, ?_⟩
    simp [Json.settled]

/-- Without what dangles, the bracket of a frame may be closed, and its content is the same. -/
theorem Filled.settled {f : Frame} (filled : Filled f inside) (opening : f.opening? = some e)
    (level : f.At l) (before : List Event) (outer : List Level) :
    ∃ g : Frame, ∃ inside' : List Event, Filled g inside' ∧
      g.Closable ∧ g.opening? = some e ∧ g.At l ∧ g.held? = f.held? ∧
      Json.settled (l :: outer) (before ++ e :: inside).reverse = (before ++ e :: inside').reverse := by
  cases filled with
  | unset | set _ => simp [opening?] at opening
  | arrayOpened =>
    obtain rfl := Option.some.inj opening
    exact ⟨_, _, .arrayOpened, .inl rfl, rfl, level, rfl, by simp [Json.settled]⟩
  | arrayComma elements =>
    obtain rfl := Option.some.inj opening
    cases l with
    | object latest => exact level.elim
    | array => exact ⟨_, _, .arrayValue elements, .inr rfl, rfl, level, rfl, by simp [Json.settled]⟩
  | arrayValue elements =>
    obtain rfl := Option.some.inj opening
    cases l with
    | object latest => exact level.elim
    | array => exact ⟨_, _, .arrayValue elements, .inr rfl, rfl, level, rfl, elements.settled ..⟩
  | objectOpened =>
    obtain rfl := Option.some.inj opening
    exact ⟨_, _, .objectOpened, .inl rfl, rfl, level, rfl, by simp [Json.settled]⟩
  | @objectComma _ _ start latest members =>
    obtain rfl := Option.some.inj opening
    cases l with
    | array => exact level.elim
    | object _ =>
      exact ⟨.object ⟨start, .value, none, latest, _⟩, _, .objectValue members, .inr rfl, rfl,
        by simp [At], rfl, by simp [Json.settled]⟩
  | @objectName _ _ start k latest leading =>
    obtain rfl := Option.some.inj opening
    cases l with
    | array => exact level.elim
    | object latest' =>
      obtain ⟨f, es', filled, closable, rfl, content, still, settled⟩ := leading.settled start latest'
      exact ⟨_, _, filled, closable, rfl, fun colon => absurd colon still,
        congrArg (some ∘ Value.object) content, (settled before k outer).1⟩
  | @objectColon _ _ start k latest leading =>
    obtain rfl := Option.some.inj opening
    cases l with
    | array => exact level.elim
    | object latest' =>
      obtain ⟨f, es', filled, closable, rfl, content, still, settled⟩ := leading.settled start latest'
      exact ⟨_, _, filled, closable, rfl, fun colon => absurd colon still,
        congrArg (some ∘ Value.object) content, (settled before k outer).2⟩
  | @objectValue _ _ start _ members =>
    obtain rfl := Option.some.inj opening
    have settled := members.settled (before ++ [.openObject start]) (l :: outer)
    refine ⟨_, _, .objectValue members, .inr rfl, rfl, level, rfl, ?_⟩
    simpa using settled

theorem Filled.enclosed {f : Frame} (filled : Filled f es) (closable : f.Closable)
    (opening : f.opening? = some e) (level : f.At l) :
    ∃ v, Derives (e :: (es ++ [l.closing])) v ∧ f.held? = some v.merged := by
  cases f with
  | bare | root f => simp [opening?] at opening
  | array f =>
    cases l with
    | object latest => exact level.elim
    | array =>
      have accepted : (Frame.closeArray (.array f)).refusal = none := by
        rcases closable with state | state <;> simp [Frame.closeArray, ArrayFrame.close, state]
      obtain ⟨-, e', v, opening', derives, held⟩ := filled.closeArray accepted
      obtain rfl : e = e' := Option.some.inj (opening.symm.trans opening')
      exact ⟨v, derives, held⟩
  | object f =>
    cases l with
    | array => exact level.elim
    | object latest =>
      have accepted : (Frame.closeObject (.object f)).refusal = none := by
        rcases closable with state | state <;> simp [Frame.closeObject, ObjectFrame.close, state]
      obtain ⟨-, e', v, opening', derives, held⟩ := filled.closeObject accepted
      obtain rfl : e = e' := Option.some.inj (opening.symm.trans opening')
      exact ⟨v, derives, held⟩

end Frame

namespace Builder

/-- A bracket that is open counts as the collection it holds. -/
theorem partialValue?_enclose (b : Builder) {f : Frame} (awaits : b.active.Awaits)
    (held : f.held? = some v) :
    (b.enclose f).partialValue? = (b.offer (Frame.add v)).after.partialValue? := by
  obtain ⟨root, inner⟩ := b
  cases inner with
  | nil =>
    have unset : root.value = none := awaits
    simp [enclose, Builder.offer, setActive, active, Frame.add, RootFrame.add, unset, partialValue?, held]
  | cons g outer =>
    have replaced := Frame.Awaits.replaceLast_add awaits v f.blank
    obtain ⟨c, holds⟩ := Frame.Awaits.held awaits v
    simp only [active] at replaced holds
    simp [enclose, Builder.offer, setActive, active, partialValue?, held, replaced, holds]

theorem offer_enclose (b : Builder) {f : Frame} {token : Frame → Reply Frame}
    (kept : (token f).after.opening? = f.opening?) :
    ((b.enclose f).offer token).after = b.enclose (token f).after :=
  enclose_setActive b (blank_of_opening kept)

theorem setActive_depth (b : Builder) (f : Frame) : (b.setActive f).depth = b.depth := by
  obtain ⟨root, inner⟩ := b
  cases inner with
  | nil => cases f <;> rfl
  | cons g outer => rfl

theorem Reaches.depth (reached : Reaches b es) : (openLevels es).length = b.depth := by
  induction reached with
  | outermost filled =>
    cases filled with
    | unset => rfl
    | set derives => exact congrArg List.length (derives.levels .outermost)
  | @nested b es e f inside reached around opening filled ih =>
    obtain ⟨level, levels, -⟩ := filled.nested opening es
    rw [levels, List.length_cons, ih, ← setActive_depth b (Frame.add f.blank b.active).after]
    rfl

/-- What is added stands at the place to which the open brackets lead, and all else is the same. -/
theorem Reaches.add_place (reached : Reaches b es) (awaits : b.active.Awaits) (v : Value) :
    ∃ whole, (b.offer (Frame.add v)).after.partialValue? = some whole ∧
      whole.at? (openLevels es).reverse = some v ∧
      ∀ w, (b.offer (Frame.add w)).after.partialValue? =
        some (whole.modify (fun _ => w) (openLevels es).reverse) := by
  induction reached generalizing v with
  | outermost filled =>
    cases filled with
    | set _ => simp [Frame.Awaits, active] at awaits
    | unset => exact ⟨v, rfl, rfl, fun w => rfl⟩
  | @nested b es e f inside reached around opening filled ih =>
    rw [active_enclose] at awaits
    obtain ⟨c, held⟩ := awaits.held v
    obtain ⟨whole, added, found, changed⟩ := ih around c
    obtain ⟨level, levels, here⟩ := filled.nested opening es
    refine ⟨whole, ?_, ?_, ?_⟩
    · rw [offer_enclose b (Frame.opening_add _ f), partialValue?_enclose b around held, added]
    · have last : c.at? [level] = some v :=
        (bind_pure (level.last? c)).trans (awaits.last here v v held held).1
      rw [levels, List.reverse_cons, Value.at?_append, found, Option.bind_some, last]
    · intro w
      obtain ⟨c', held'⟩ := awaits.held w
      have change := (awaits.last here v w held held').2
      rw [offer_enclose b (Frame.opening_add _ f), partialValue?_enclose b around held', changed, levels,
        List.reverse_cons, Value.modify_append]
      exact congrArg some (Value.modify_congr found change.symm)

/-- A whole value where one is awaited, and a bracket for each that is open, make a whole value. -/
theorem Reaches.completed_add (reached : Reaches b es) (awaits : b.active.Awaits)
    (derives : Derives es' v) :
    ∃ tree, Derives (es ++ (es' ++ (openLevels es).map Level.closing)) tree ∧
      (b.offer (Frame.add v.merged)).after.partialValue? = some tree.merged := by
  induction reached generalizing es' v with
  | outermost filled =>
    cases filled with
    | set _ => simp [Frame.Awaits, active] at awaits
    | unset => exact ⟨v, by simpa [openLevels, Nesting.outermost] using derives, rfl⟩
  | @nested b es e f inside reached around opening filled ih =>
    rw [active_enclose] at awaits
    obtain ⟨level, levels, here⟩ := filled.nested opening es
    obtain ⟨closable, here⟩ := awaits.closable here v.merged
    have opening' : (Frame.add v.merged f).after.opening? = some e :=
      (Frame.opening_add _ _).trans opening
    obtain ⟨u, enclosed, held⟩ := (filled.add_derived awaits derives).enclosed closable opening' here
    obtain ⟨tree, whole, value⟩ := ih around enclosed
    refine ⟨tree, by simpa [levels] using whole, ?_⟩
    rw [offer_enclose b (Frame.opening_add _ f), partialValue?_enclose b around held, value]

/-- The events that led to a builder, completed, put together the value that it shows. -/
theorem Reaches.completed (reached : Reaches b es) (some' : es ≠ []) :
    ∃ tree, Derives (completed es) tree ∧ b.partialValue? = some tree.merged := by
  cases reached with
  | outermost filled =>
    cases filled with
    | unset => exact absurd rfl some'
    | @set _ v derives =>
      have levels : openLevels es = [] := derives.levels .outermost
      have settled := derives.settled [] [] fun v => rfl
      refine ⟨v, ?_, rfl⟩
      rw [Json.completed, levels, ← List.nil_append es, settled]
      simpa using derives
  | @nested b es e f inside reached around opening filled =>
    obtain ⟨level, levels, here⟩ := filled.nested opening es
    obtain ⟨g, inside', filled', closable, opening', here', same, settled⟩ :=
      filled.settled opening here es (openLevels es)
    obtain ⟨v, enclosed, held⟩ := filled'.enclosed closable opening' here'
    obtain ⟨tree, whole, value⟩ := reached.completed_add around enclosed
    refine ⟨tree, ?_, ?_⟩
    · rw [Json.completed, levels, settled]
      simpa using whole
    · rw [partialValue?_enclose b around (same.symm.trans held), value]

end Builder

namespace Frame

/-- A frame that takes a value holds the addition. -/
theorem Filled.addition {f : Frame} (filled : Filled f inside) (opening : f.opening? = some e)
    (levels : openLevels (before ++ e :: inside) = l :: outer) (here : f.At l)
    (accepted : (Frame.add v f).refusal = none) (held : f.held? = some c) :
    (Frame.add v f).after.held? = some (Json.addition (before ++ e :: inside) v c) := by
  have last : ∀ (es : List Event) (x : Event), (before ++ e :: (es ++ [x])).getLast? = some x := by
    intro es x
    rw [← List.cons_append, ← List.append_assoc, List.getLast?_concat]
  unfold Json.addition
  rw [levels]
  cases filled with
  | unset | set _ => simp [opening?] at opening
  | arrayValue _ | objectName _ | objectValue _ =>
    simp [add, ArrayFrame.add, ObjectFrame.add] at accepted
  | arrayOpened | arrayComma _ =>
    obtain rfl := Option.some.inj held
    cases l with
    | object latest => exact here.elim
    | array => simp [add, ArrayFrame.add, held?, ArrayFrame.held]
  | @objectOpened start latest =>
    obtain rfl := Option.some.inj held
    obtain rfl := Option.some.inj opening
    cases l with
    | array => exact here.elim
    | object latest' =>
      obtain ⟨k, rfl, after⟩ := add_name rfl (.inl rfl) accepted
      rw [after]
      simp [held?, ObjectFrame.held]
  | @objectComma es ms start latest members =>
    obtain rfl := Option.some.inj held
    cases l with
    | array => exact here.elim
    | object latest' =>
      obtain ⟨k, rfl, after⟩ := add_name rfl (.inr rfl) accepted
      rw [after, last]
      simp [held?, ObjectFrame.held]
  | @objectColon es ms start k latest leading =>
    obtain rfl := Option.some.inj held
    cases l with
    | array => exact here.elim
    | object latest' =>
      obtain rfl : latest' = some k := here rfl
      have colon := last (es ++ [.value (.string k)]) .colon
      rw [List.append_assoc, List.singleton_append] at colon
      rw [colon]
      simp [add, ObjectFrame.add, held?, ObjectFrame.held]

theorem held_of_opening {f : Frame} (opening : f.opening? = some e) : ∃ c, f.held? = some c := by
  cases f with
  | bare | root f => simp [opening?] at opening
  | array f => exact ⟨_, rfl⟩
  | object f => exact ⟨_, rfl⟩

theorem held_colon (f : Frame) : f.colon.after.held? = f.held? := by
  cases f with
  | object f =>
    cases state : f.state <;> simp [Frame.colon, ObjectFrame.colon, state, held?, ObjectFrame.held]
  | _ => rfl

theorem held_comma (f : Frame) : f.comma.after.held? = f.held? := by
  cases f with
  | array f =>
    cases state : f.state <;> simp [Frame.comma, ArrayFrame.comma, state, held?, ArrayFrame.held]
  | object f =>
    cases state : f.state <;> simp [Frame.comma, ObjectFrame.comma, state, held?, ObjectFrame.held]
  | _ => rfl

end Frame

namespace Builder

/-- The content of the innermost bracket stands at its place, and whatever takes its place changes nothing
else. -/
theorem Reaches.filling (reached : Reaches b es) (around : b.active.Awaits)
    (opening : f.opening? = some e) (filled : Frame.Filled f inside) (held : f.held? = some c) :
    ∃ whole, (b.enclose f).partialValue? = some whole ∧
      whole.at? (place (es ++ e :: inside)) = some c ∧
      ∀ g c', Frame.held? g = some c' → (b.enclose g).partialValue? =
        some (whole.modify (fun _ => c') (place (es ++ e :: inside))) := by
  obtain ⟨whole, shown, found, changed⟩ := reached.add_place around c
  obtain ⟨level, levels, -⟩ := filled.nested opening es
  rw [place, levels, List.tail_cons]
  refine ⟨whole, by rw [partialValue?_enclose b around held, shown], found, ?_⟩
  intro g c' held'
  rw [partialValue?_enclose b around held', changed]

/-- What is added to the innermost bracket is added at its place. -/
theorem Reaches.adding (reached : Reaches b es) (around : b.active.Awaits)
    (opening : f.opening? = some e) (filled : Frame.Filled f inside) (v : Value) :
    ∃ whole grown, (b.enclose f).partialValue? = some whole ∧
      whole.at? (place (es ++ e :: inside)) = f.held? ∧
      (Frame.add v f).after.held? = some grown ∧
      ((b.enclose f).offer (Frame.add v)).after.partialValue? =
        some (whole.modify (fun _ => grown) (place (es ++ e :: inside))) := by
  obtain ⟨c, held⟩ := Frame.held_of_opening opening
  obtain ⟨whole, shown, found, changed⟩ := reached.filling around opening filled held
  obtain ⟨grown, held'⟩ := Frame.held_of_opening ((Frame.opening_add v f).trans opening)
  refine ⟨whole, grown, shown, found.trans held.symm, held', ?_⟩
  rw [offer_enclose b (Frame.opening_add v f), changed _ _ held']

/-- The value shown after a further event. -/
def shownAfter (b : Builder) (es : List Event) (e : Event) : Option Value :=
  match e.added?, b.partialValue? with
  | none, shown => shown
  | some v, none => some v
  | some v, some whole => some (whole.modify (addition es v) (place es))

theorem Reaches.shown_after (reached : Reaches b es) (accepted : (b.apply e).refusal = none) :
    (b.apply e).after.partialValue? = b.shownAfter es e := by
  cases reached with
  | @outermost f _ filled =>
    cases filled with
    | unset =>
      cases e with
      | value v => rfl
      | openArray start => rfl
      | openObject start => rfl
      | closeArray | closeObject | colon | comma => contradiction
    | set derives =>
      cases e with
      | value v => simp [apply, Builder.offer, active, Frame.add, RootFrame.add] at accepted
      | openArray start | openObject start =>
        have awaits := (push_accepted accepted).1
        simp [active, Frame.Awaits] at awaits
      | closeArray | closeObject | colon | comma => contradiction
  | @nested b es opened f inside reached around opening filled =>
    obtain ⟨c, held⟩ := Frame.held_of_opening opening
    obtain ⟨whole, shown, found, changed⟩ := reached.filling around opening filled held
    obtain ⟨level, levels, here⟩ := filled.nested opening es
    have added : ∀ v, (Frame.add v f).refusal = none →
        ((b.enclose f).offer (Frame.add v)).after.partialValue? =
          some (whole.modify (addition (es ++ opened :: inside) v) (place (es ++ opened :: inside))) := by
      intro v taken
      have grown := filled.addition opening levels here taken held
      rw [offer_enclose b (Frame.opening_add v f), changed _ _ grown]
      exact congrArg some (Value.modify_congr found rfl)
    have kept : ∀ g, Frame.held? g = some c → (b.enclose g).partialValue? = some whole := by
      intro g held'
      rw [changed g c held', Value.modify_self found rfl]
    -- The frame around shows the value of the open one before it takes it.
    have popped : (b.offer (Frame.add c)).after.partialValue? = (b.enclose f).partialValue? :=
      (partialValue?_enclose b around held).symm
    cases e with
    | value v =>
      rw [shownAfter, shown]
      exact added v accepted
    | openArray start =>
      obtain ⟨awaits, after⟩ := push_accepted accepted
      rw [apply, after, partialValue?_enclose _ awaits rfl, shownAfter, shown]
      exact added _ (awaits.add_accepted _)
    | openObject start =>
      obtain ⟨awaits, after⟩ := push_accepted accepted
      rw [apply, after, partialValue?_enclose _ awaits rfl, shownAfter, shown]
      exact added _ (awaits.add_accepted _)
    | closeArray =>
      obtain ⟨taken, after⟩ := followedBy_pop_accepted accepted
      have same := (filled.closeArray taken).1
      rw [apply, after, offer_enclose b (congrArg _ same), same, pop_enclose b around held, popped]
      rfl
    | closeObject =>
      obtain ⟨taken, after⟩ := followedBy_pop_accepted accepted
      have same := (filled.closeObject taken).1
      rw [apply, after, offer_enclose b (congrArg _ same), same, pop_enclose b around held, popped]
      rfl
    | colon =>
      rw [apply, offer_enclose b (Frame.opening_colon f), kept _ ((Frame.held_colon f).trans held)]
      exact shown.symm
    | comma =>
      rw [apply, offer_enclose b (Frame.opening_comma f), kept _ ((Frame.held_comma f).trans held)]
      exact shown.symm

end Builder
end TokenRules.Json
