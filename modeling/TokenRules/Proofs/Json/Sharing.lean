import TokenRules.Proofs.Json.Partial

/-! Collections that are shared. An opened collection is put in the one around it while it is still empty,
and is filled in place; closing its bracket moves nothing. Collections are cells of a store here, and what
stands in them are scalars and references. The root of the store always reads as the value that is shown. -/
namespace TokenRules.Json

/-- What stands in a collection: a scalar, or a collection by its cell. -/
inductive Item where
  | scalar (v : Value)
  | collection (cell : Nat)

inductive Cell where
  | array (items : List Item)
  | object (members : List (Text × Item))

/-- Adds an item where the frame that fills the cell adds a value. -/
def Cell.add (item : Item) : Frame → Cell → Cell
  | .array _, .array items => .array (items ++ [item])
  | .object ⟨_, .colon, some k, _, _⟩, .object members => .object (assign k item members)
  | _, cell => cell

/-- A builder whose collections are in a store, with the cells of its open brackets, the innermost first. -/
structure Shared where
  builder : Builder
  root : Option Item
  opened : List Nat
  cells : List Cell

namespace Shared

def empty : Shared := ⟨.empty, none, [], []⟩

/-- Puts an item in the collection that is being filled. -/
def register (s : Shared) (item : Item) : Shared :=
  match s.opened with
  | [] => { s with root := some item }
  | c :: _ => { s with cells := s.cells.modify c (Cell.add item s.builder.active) }

/-- Puts an empty collection in the one that is being filled, to be filled next. -/
def create (s : Shared) (cell : Cell) : Shared :=
  let c := s.cells.length
  { ({ s with cells := s.cells ++ [cell] } : Shared).register (.collection c) with opened := c :: s.opened }

def fill (s : Shared) : Event → Shared
  | .value v => s.register (.scalar v)
  | .openArray _ => s.create (.array [])
  | .openObject _ => s.create (.object [])
  | .closeArray | .closeObject => { s with opened := s.opened.tail }
  | .colon | .comma => s

def apply (s : Shared) (e : Event) : Except Refusal Shared :=
  (s.builder.apply e).toExcept.map fun b => { s.fill e with builder := b }

def run (s : Shared) : List Event → Except Refusal Shared
  | [] => .ok s
  | e :: es =>
    match s.apply e with
    | .ok s => run s es
    | .error why => .error why

end Shared

section

variable (cells : List Cell) (avoid : List Nat)

mutual

/-- An item reads as a value, through none of the cells to be avoided. -/
inductive Reads : Item → Value → Prop
  | scalar : Reads (.scalar v) v
  | collection : cells[c]? = some cell → c ∉ avoid → CellReads cell v → Reads (.collection c) v

inductive CellReads : Cell → Value → Prop
  | array : ItemsRead items vs → CellReads (.array items) (.array vs)
  | object : MembersRead members ms → CellReads (.object members) (.object ms)

inductive ItemsRead : List Item → List Value → Prop
  | nil : ItemsRead [] []
  | cons : Reads item v → ItemsRead items vs → ItemsRead (item :: items) (v :: vs)

inductive MembersRead : List (Text × Item) → List (Text × Value) → Prop
  | nil : MembersRead [] []
  | cons : Reads item v → MembersRead members ms → MembersRead ((k, item) :: members) ((k, v) :: ms)

end

end

mutual

/-- An item reads as one value at most. -/
theorem Reads.unique : Reads cells avoid item v → Reads cells avoid item w → v = w
  | .scalar, .scalar => rfl
  | .collection found _ reads, .collection found' _ reads' => by
    obtain rfl := Option.some.inj (found.symm.trans found')
    exact CellReads.unique reads reads'

theorem CellReads.unique : CellReads cells avoid cell v → CellReads cells avoid cell w → v = w
  | .array items, .array items' => congrArg Value.array (ItemsRead.unique items items')
  | .object members, .object members' => congrArg Value.object (MembersRead.unique members members')

theorem ItemsRead.unique : ItemsRead cells avoid items vs → ItemsRead cells avoid items ws → vs = ws
  | .nil, .nil => rfl
  | .cons reads items, .cons reads' items' => by
    rw [Reads.unique reads reads', ItemsRead.unique items items']

theorem MembersRead.unique : MembersRead cells avoid members ms → MembersRead cells avoid members ns →
    ms = ns
  | .nil, .nil => rfl
  | .cons reads members, .cons reads' members' => by
    rw [Reads.unique reads reads', MembersRead.unique members members']

end

/-- What is not to be avoided in one store is the same in another. -/
def Agrees (cells : List Cell) (avoid : List Nat) (cells' : List Cell) (avoid' : List Nat) : Prop :=
  ∀ c cell, cells[c]? = some cell → c ∉ avoid → cells'[c]? = some cell ∧ c ∉ avoid'

mutual

theorem Reads.transfer (agrees : Agrees cells avoid cells' avoid') :
    Reads cells avoid item v → Reads cells' avoid' item v
  | .scalar => .scalar
  | .collection found outside reads =>
    have ⟨found', outside'⟩ := agrees _ _ found outside
    .collection found' outside' (CellReads.transfer agrees reads)

theorem CellReads.transfer (agrees : Agrees cells avoid cells' avoid') :
    CellReads cells avoid cell v → CellReads cells' avoid' cell v
  | .array items => .array (ItemsRead.transfer agrees items)
  | .object members => .object (MembersRead.transfer agrees members)

theorem ItemsRead.transfer (agrees : Agrees cells avoid cells' avoid') :
    ItemsRead cells avoid items vs → ItemsRead cells' avoid' items vs
  | .nil => .nil
  | .cons reads items => .cons (Reads.transfer agrees reads) (ItemsRead.transfer agrees items)

theorem MembersRead.transfer (agrees : Agrees cells avoid cells' avoid') :
    MembersRead cells avoid members ms → MembersRead cells' avoid' members ms
  | .nil => .nil
  | .cons reads members => .cons (Reads.transfer agrees reads) (MembersRead.transfer agrees members)

end

theorem ItemsRead.append (front : ItemsRead cells avoid items vs) (last : Reads cells avoid item v) :
    ItemsRead cells avoid (items ++ [item]) (vs ++ [v]) :=
  match front with
  | .nil => .cons last .nil
  | .cons reads items => .cons reads (items.append last)

theorem MembersRead.assign (read : MembersRead cells avoid members ms) (k : Text)
    (reads : Reads cells avoid item v) :
    MembersRead cells avoid (assign k item members) (Json.assign k v ms) := by
  induction members generalizing ms with
  | nil =>
    cases read
    exact .cons reads .nil
  | cons member members ih =>
    obtain ⟨l, other⟩ := member
    cases read with
    | cons here members =>
      by_cases same : l = k
      · simpa [Json.assign, same] using MembersRead.cons reads members
      · simpa [Json.assign, same] using MembersRead.cons here (ih members)

/-- From the root of a store, which reads as `whole`, a path leads through the cells `through` to an item.
What the item reads as is left open; all else that is read avoids some cells. -/
inductive Leads (cells : List Cell) (avoid : List Nat) (root : Item) (whole : Value) :
    List Nat → List Level → Item → Value → Prop
  | start : Leads cells avoid root whole [] [] root whole
  | array : Leads cells avoid root whole through levels (.collection c) (.array (vs ++ [v])) →
      cells[c]? = some (.array (items ++ [item])) → c ∉ through → ItemsRead cells avoid items vs →
      Leads cells avoid root whole (c :: through) (.array :: levels) item v
  | object : Leads cells avoid root whole through levels (.collection c) (.object (assign k v ms)) →
      cells[c]? = some (.object (assign k item members)) → c ∉ through →
      MembersRead cells avoid members ms →
      Leads cells avoid root whole (c :: through) (.object (some k) :: levels) item v

/-- What stands in a cell at the end of a level. -/
def follow (cells : List Cell) (level : Level) : Item → Option Item
  | .scalar _ => none
  | .collection c =>
    match level, cells[c]? with
    | .array, some (.array items) => items.getLast?
    | .object (some k), some (.object members) => members.lookup k
    | _, _ => none

namespace Leads

theorem found (leads : Leads cells avoid root whole through levels item v) :
    whole.at? levels.reverse = some v := by
  induction leads with
  | start => rfl
  | array _ _ _ _ ih =>
    rw [List.reverse_cons, Value.at?_append, ih]
    simp [Value.at?, Level.last?]
  | object _ _ _ _ ih =>
    rw [List.reverse_cons, Value.at?_append, ih]
    simp [Value.at?, Level.last?, lookup_assign]

theorem followed (leads : Leads cells avoid root whole through levels item v) :
    levels.reverse.foldlM (fun item level => follow cells level item) root = some item := by
  induction leads with
  | start => rfl
  | array _ here _ _ ih =>
    rw [List.reverse_cons, List.foldlM_append, ih]
    simp [follow, here]
  | object _ here _ _ ih =>
    rw [List.reverse_cons, List.foldlM_append, ih]
    simp [follow, here, lookup_assign]

/-- When the item comes to read as another value, the root reads as the whole with it in its place. -/
theorem replace (leads : Leads cells avoid root whole through levels item v) (w : Value) :
    Leads cells avoid root (whole.modify (fun _ => w) levels.reverse) through levels item w := by
  induction leads generalizing w with
  | start => exact .start
  | @array _ levels _ vs v _ _ before here outside read ih =>
    have change : Value.modify (fun _ => w) [.array] (.array (vs ++ [v])) = .array (vs ++ [w]) := by
      simp [Value.modify, Level.change]
    rw [List.reverse_cons, Value.modify_append,
      Value.modify_congr (g := fun _ => .array (vs ++ [w])) before.found change]
    exact .array (ih _) here outside read
  | @object _ levels _ k v ms _ _ before here outside read ih =>
    have change : Value.modify (fun _ => w) [.object (some k)] (.object (assign k v ms)) =
        .object (assign k w ms) := by
      simp [Value.modify, Level.change, lookup_assign, assign_assign]
    rw [List.reverse_cons, Value.modify_append,
      Value.modify_congr (g := fun _ => .object (assign k w ms)) before.found change]
    exact .object (ih _) here outside read

theorem transfer (agrees : Agrees cells avoid cells' avoid')
    (leads : Leads cells avoid root whole through levels item v)
    (kept : ∀ d ∈ through, cells'[d]? = cells[d]?) :
    Leads cells' avoid' root whole through levels item v := by
  induction leads with
  | start => exact .start
  | array _ here outside read ih =>
    obtain ⟨same, others⟩ := List.forall_mem_cons.mp kept
    exact .array (ih others) (same.trans here) outside (read.transfer agrees)
  | object _ here outside read ih =>
    obtain ⟨same, others⟩ := List.forall_mem_cons.mp kept
    exact .object (ih others) (same.trans here) outside (read.transfer agrees)

theorem inside (leads : Leads cells avoid root whole through levels item v) :
    ∀ d ∈ through, d < cells.length := by
  induction leads with
  | start => simp
  | array _ here _ _ ih =>
    exact List.forall_mem_cons.mpr ⟨(List.getElem?_eq_some_iff.mp here).1, ih⟩
  | object _ here _ _ ih =>
    exact List.forall_mem_cons.mpr ⟨(List.getElem?_eq_some_iff.mp here).1, ih⟩

/-- The root reads as the whole if the item reads as what is at its place. -/
theorem reads (leads : Leads cells avoid root whole through levels item v)
    (last : Reads cells [] item v) : Reads cells [] root whole := by
  have agrees : Agrees cells avoid cells [] := fun c cell found _ => ⟨found, by simp⟩
  induction leads with
  | start => exact last
  | array _ here _ read ih =>
    exact ih (.collection here (by simp) (.array ((read.transfer agrees).append last)))
  | object _ here _ read ih =>
    exact ih (.collection here (by simp) (.object ((read.transfer agrees).assign _ last)))

end Leads

/-- An item added to a cell where a frame adds a value: the cell reads as the frame's content again. -/
theorem CellReads.add {f : Frame} (read : CellReads cells avoid cell c) (held : f.held? = some c)
    (accepted : (Frame.add v f).refusal = none) (reads : Reads cells avoid item v)
    (opening : f.opening? = some e) :
    ∃ c', (Frame.add v f).after.held? = some c' ∧ CellReads cells avoid (cell.add item f) c' := by
  cases f with
  | bare | root f => simp [Frame.opening?] at opening
  | array f =>
    obtain rfl := Option.some.inj held
    cases read with
    | array items =>
      cases state : f.state with
      | initial | comma =>
        refine ⟨.array (f.elements.reverse ++ [v]), ?_, .array (items.append reads)⟩
        simp [Frame.add, ArrayFrame.add, state, Frame.held?, ArrayFrame.held]
      | value => simp [Frame.add, ArrayFrame.add, state] at accepted
  | object f =>
    obtain ⟨start, state, name, latest, ms⟩ := f
    obtain rfl := Option.some.inj held
    cases read with
    | object members =>
      cases state with
      | initial | comma =>
        cases name with
        | some k => simp [Frame.add, ObjectFrame.add] at accepted
        | none =>
          obtain ⟨k, rfl, after⟩ := Frame.add_name rfl (by simp) accepted
          exact ⟨.object ms, by rw [after]; rfl, .object members⟩
      | colon =>
        cases name with
        | none => simp [Frame.add, ObjectFrame.add] at accepted
        | some k => exact ⟨.object (assign k v ms), rfl, .object (members.assign k reads)⟩
      | name | value => simp [Frame.add, ObjectFrame.add] at accepted

/-- Once an item is in the cell of a frame that awaited it, the path leads on to the item. -/
theorem Leads.into {f : Frame}
    (leads : Leads cells avoid root whole through levels (.collection c) content')
    (awaits : f.Awaits) (here : f.At l) (outside : c ∉ through)
    (read : CellReads cells avoid cell content) (held : f.held? = some content)
    (held' : (Frame.add v f).after.held? = some content')
    (found : cells[c]? = some (cell.add item f)) :
    Leads cells avoid root whole (c :: through) (l :: levels) item v := by
  rcases awaits.takes here with ⟨g, rfl, rfl, takes⟩ | ⟨g, k, rfl, rfl, colon, named, takes⟩
  · rw [takes] at held'
    obtain rfl := Option.some.inj held
    obtain rfl := Option.some.inj held'
    cases read with
    | array items =>
      rw [ArrayFrame.held, List.reverse_cons] at leads
      exact .array leads found outside items
  · obtain ⟨start, state, name, latest, ms⟩ := g
    obtain rfl := colon
    obtain rfl := named
    rw [takes] at held'
    obtain rfl := Option.some.inj held
    obtain rfl := Option.some.inj held'
    cases read with
    | object members => exact .object leads found outside members

/-- The root of a store reads as a value, and its open cells are those to which the open levels lead. -/
inductive Shows (s : Shared) : List Level → Option Value → Prop
  | nothing : s.root = none → s.opened = [] → Shows s [] none
  | complete : s.root = some item → s.opened = [] → Reads s.cells [] item v → Shows s [] (some v)
  | filling : s.root = some root → s.opened = c :: through →
      Leads s.cells (c :: through) root whole through levels (.collection c) v → c ∉ through →
      s.cells[c]? = some cell → CellReads s.cells (c :: through) cell v →
      Shows s (level :: levels) (some whole)

theorem Agrees.modify (agrees : Agrees cells avoid cells' avoid') (among : c ∈ avoid)
    (change : Cell → Cell) : Agrees cells avoid (cells'.modify c change) avoid' := by
  intro d cell found outside
  have apart : c ≠ d := fun same => outside (same ▸ among)
  obtain ⟨found', outside'⟩ := agrees d cell found outside
  exact ⟨by rw [List.getElem?_modify_ne change cells' apart, found'], outside'⟩

/-- A store with one cell changed and a new one at its end. -/
theorem modify_concat {cells : List Cell} (fresh : Cell) (change : Cell → Cell)
    (found : cells[c]? = some cell) :
    ((cells ++ [fresh]).modify c change)[c]? = some (change cell) ∧
      ((cells ++ [fresh]).modify c change)[cells.length]? = some fresh ∧
      ∀ d, d < cells.length → d ≠ c → ((cells ++ [fresh]).modify c change)[d]? = cells[d]? := by
  obtain ⟨inside, -⟩ := List.getElem?_eq_some_iff.mp found
  refine ⟨?_, ?_, ?_⟩
  · rw [List.getElem?_modify_eq, List.getElem?_append_left inside, found]
    rfl
  · rw [List.getElem?_modify_ne _ _ (Nat.ne_of_lt inside), List.getElem?_append_right (Nat.le_refl _),
      Nat.sub_self]
    rfl
  · intro d inside' apart
    rw [List.getElem?_modify_ne _ _ apart.symm, List.getElem?_append_left inside']

theorem Agrees.create (cells : List Cell) (avoid : List Nat) (cell : Cell) :
    Agrees cells avoid (cells ++ [cell]) (cells.length :: avoid) := by
  intro d cell' found outside
  obtain ⟨inside, -⟩ := List.getElem?_eq_some_iff.mp found
  refine ⟨by rw [List.getElem?_append_left inside, found], ?_⟩
  intro member
  rcases List.mem_cons.mp member with rfl | member
  · exact Nat.lt_irrefl _ inside
  · exact outside member

namespace Shows

theorem of_eq {s s' : Shared} (shows' : Shows s levels v) (root : s'.root = s.root)
    (opened : s'.opened = s.opened) (cells : s'.cells = s.cells) : Shows s' levels v := by
  obtain ⟨b, _, _, _⟩ := s
  obtain ⟨b', _, _, _⟩ := s'
  obtain rfl := root
  obtain rfl := opened
  obtain rfl := cells
  cases shows' with
  | nothing unset closed => exact .nothing unset closed
  | complete rooted closed reads => exact .complete rooted closed reads
  | filling rooted opened leads outside found read =>
    exact .filling rooted opened leads outside found read

variable {s : Shared} {f : Frame}

/-- The innermost collection takes a scalar, or a name. -/
theorem register (shows' : Shows s (level :: levels) (some whole)) (active : s.builder.active = f)
    (opening : f.opening? = some e) (place : whole.at? levels.reverse = f.held?)
    (accepted : (Frame.add v f).refusal = none) (held : (Frame.add v f).after.held? = some content) :
    Shows (s.register (.scalar v)) (level' :: levels)
      (some (whole.modify (fun _ => content) levels.reverse)) := by
  cases shows' with
  | @filling root c through _ _ _ cell _ rooted opened leads outside found read =>
    have agrees : Agrees s.cells (c :: through) (s.cells.modify c (Cell.add (.scalar v) f)) (c :: through) :=
      Agrees.modify (fun _ _ found outside => ⟨found, outside⟩) List.mem_cons_self _
    have holds : f.held? = some _ := place.symm.trans leads.found
    obtain ⟨content', held', read'⟩ := read.add holds accepted .scalar opening
    obtain rfl := Option.some.inj (held'.symm.trans held)
    rw [Shared.register, opened, active]
    refine .filling rooted rfl ((leads.transfer agrees fun d among => ?_).replace _) outside ?_
      (read'.transfer agrees)
    · exact List.getElem?_modify_ne _ _ fun same => outside (same ▸ among)
    · rw [List.getElem?_modify_eq, found]
      rfl

/-- The innermost collection takes an empty one, which becomes the innermost. -/
theorem create (shows' : Shows s (level :: levels) (some whole)) (active : s.builder.active = f)
    (place : whole.at? levels.reverse = f.held?)
    (awaits : f.Awaits) (here : f.At level) (held : (Frame.add v f).after.held? = some content)
    (blank : ∀ cells avoid, CellReads cells avoid cell v) :
    Shows (s.create cell) (level' :: level :: levels)
      (some (whole.modify (fun _ => content) levels.reverse)) := by
  cases shows' with
  | @filling root c through _ _ _ cell' _ rooted opened leads outside found read =>
    have inside : ∀ d ∈ c :: through, d < s.cells.length :=
      List.forall_mem_cons.mpr ⟨(List.getElem?_eq_some_iff.mp found).1, leads.inside⟩
    have fresh : s.cells.length ∉ c :: through := fun among => Nat.lt_irrefl _ (inside _ among)
    have agrees := (Agrees.create s.cells (c :: through) cell).modify List.mem_cons_self
      (Cell.add (.collection s.cells.length) f)
    obtain ⟨grown, added, kept⟩ :=
      modify_concat cell (Cell.add (.collection s.cells.length) f) found
    have leads' := (leads.transfer agrees fun d among =>
      kept d (leads.inside d among) fun same => outside (same ▸ among)).replace content
    have holds := place.symm.trans leads.found
    rw [Shared.create, Shared.register, opened, active]
    exact .filling rooted rfl (leads'.into awaits here outside (read.transfer agrees) holds held grown)
      fresh added (blank _ _)

/-- The first collection. -/
theorem create_first (shows' : Shows s [] none) (blank : ∀ cells avoid, CellReads cells avoid cell v) :
    Shows (s.create cell) [level] (some v) := by
  cases shows' with
  | nothing unset closed =>
    have added : (s.cells ++ [cell])[s.cells.length]? = some cell := by
      rw [List.getElem?_append_right (Nat.le_refl _), Nat.sub_self]
      rfl
    rw [Shared.create, Shared.register, closed]
    exact .filling rfl rfl .start (by simp) added (blank _ _)

/-- A bracket that closes leaves all in place. -/
theorem close (shows' : Shows s (level :: levels) (some whole)) :
    Shows { s with opened := s.opened.tail } levels (some whole) := by
  cases shows' with
  | @filling root c through _ _ _ cell _ rooted opened leads outside found read =>
    have agrees : Agrees s.cells (c :: through) s.cells through :=
      fun d _ found outside => ⟨found, fun among => outside (List.mem_cons_of_mem _ among)⟩
    have reads := Reads.collection found outside (read.transfer agrees)
    have opened' : s.opened.tail = through := congrArg List.tail opened
    cases leads with
    | start => exact .complete rooted opened' reads
    | array before here outside' items =>
      have before := before.transfer agrees fun _ _ => rfl
      exact .filling rooted opened' before outside' here (.array ((items.transfer agrees).append reads))
    | object before here outside' members =>
      have before := before.transfer agrees fun _ _ => rfl
      exact .filling rooted opened' before outside' here
        (.object ((members.transfer agrees).assign _ reads))

theorem relevel (shows' : Shows s (level :: levels) v) (level' : Level) : Shows s (level' :: levels) v := by
  cases shows' with
  | filling rooted opened leads outside found read =>
    exact .filling rooted opened leads outside found read

end Shows

theorem openLevels_concat (es : List Event) (e : Event) :
    openLevels (es ++ [e]) = ((es.foldl Nesting.after .outermost).after e).levels := by
  rw [openLevels, List.foldl_append]
  rfl

theorem openLevels_value (es : List Event) (v : Value) : openLevels (es ++ [.value v]) = openLevels es := by
  rw [openLevels_concat]
  cases v <;> rfl

theorem openLevels_colon (levels : openLevels es = level :: outer) :
    ∃ level', openLevels (es ++ [.colon]) = level' :: outer := by
  rw [openLevels] at levels
  rw [openLevels_concat]
  cases level with
  | array => exact ⟨.array, by simp [Nesting.after, levels]⟩
  | object latest =>
    exact ⟨.object (es.foldl Nesting.after .outermost).said, by simp [Nesting.after, levels]⟩

/-- The first event is a scalar, or opens the outermost bracket. -/
theorem Shows.first {s : Shared} (shows' : Shows s [] none)
    (accepted : (Builder.empty.apply e).refusal = none) :
    Shows (s.fill e) (openLevels [e]) (Builder.empty.apply e).after.partialValue? := by
  cases e with
  | value v =>
    rw [← List.nil_append [Event.value v], openLevels_value]
    cases shows' with
    | nothing unset closed =>
      have root : (s.register (.scalar v)).root = some (.scalar v) := by rw [Shared.register, closed]
      have opened : (s.register (.scalar v)).opened = [] := by rw [Shared.register, closed]
      exact .complete root opened .scalar
  | openArray start => exact shows'.create_first fun _ _ => .array .nil
  | openObject start => exact shows'.create_first fun _ _ => .object .nil
  | closeArray | closeObject | colon | comma => contradiction

section

variable {s : Shared} {b : Builder} {f : Frame}
  (reached : Builder.Reaches b es) (around : b.active.Awaits) (opens : f.opening? = some opening)
  (filled : f.Filled inside) (building : s.builder = b.enclose f)
  (shows' : Shows s (openLevels (es ++ opening :: inside)) (b.enclose f).partialValue?)

include reached around opens filled building shows'

/-- The innermost bracket takes a scalar in the store as it does in the value that is shown. -/
theorem Shows.take (accepted : (Frame.add v f).refusal = none) :
    Shows (s.register (.scalar v)) (openLevels (es ++ opening :: inside))
      ((b.enclose f).offer (Frame.add v)).after.partialValue? := by
  obtain ⟨whole, grown, shown, found, held, added⟩ := reached.adding around opens filled v
  obtain ⟨level, levels, -⟩ := filled.nested opens es
  rw [place, levels, List.tail_cons] at found added
  rw [levels, shown] at shows'
  rw [levels, added]
  exact shows'.register (building ▸ rfl) opens found accepted held

/-- A bracket that opens in the innermost one: its cell stands where its empty collection is shown. -/
theorem Shows.push {g : Frame} (accepted : ((b.enclose f).push g).refusal = none)
    (empty : g.held? = some g.blank) (blank : ∀ cells avoid, CellReads cells avoid cell g.blank)
    (level : Level) : Shows (s.create cell) (level :: openLevels (es ++ opening :: inside))
      ((b.enclose f).push g).after.partialValue? := by
  obtain ⟨awaits, pushed⟩ := Builder.push_accepted accepted
  obtain ⟨whole, grown, shown, found, held, added⟩ := reached.adding around opens filled g.blank
  obtain ⟨outer, levels, here⟩ := filled.nested opens es
  rw [place, levels, List.tail_cons] at found added
  rw [levels, shown] at shows'
  rw [levels, pushed, Builder.partialValue?_enclose _ awaits empty, added]
  exact shows'.create (building ▸ rfl) found awaits here held blank

/-- What an event inside a bracket does to the store is what it does to the value that is shown. -/
theorem Shows.step_nested (accepted : ((b.enclose f).apply e).refusal = none) :
    Shows (s.fill e) (openLevels (es ++ opening :: inside ++ [e]))
      ((b.enclose f).apply e).after.partialValue? := by
  have after := (reached.nested around opens filled).shown_after accepted
  obtain ⟨level, levels, -⟩ := filled.nested opens es
  obtain ⟨whole, -, shown, -⟩ := reached.adding around opens filled .null
  cases e with
  | value v =>
    rw [openLevels_value]
    exact shows'.take reached around opens filled building accepted
  | openArray start =>
    rw [openLevels_concat]
    exact shows'.push reached around opens filled building accepted rfl (fun _ _ => .array .nil) _
  | openObject start =>
    rw [openLevels_concat]
    exact shows'.push reached around opens filled building accepted rfl (fun _ _ => .object .nil) _
  | closeArray | closeObject =>
    rw [after, openLevels_concat]
    rw [levels, shown] at shows'
    change Shows _ (openLevels _).tail (b.enclose f).partialValue?
    rw [levels, shown]
    exact shows'.close
  | colon =>
    obtain ⟨level', levels'⟩ := openLevels_colon levels
    rw [levels] at shows'
    rw [after, levels']
    exact shows'.relevel level'
  | comma =>
    rw [after, openLevels_concat]
    exact shows'

end

/-- What an event does to the store is what it does to the value that is shown. -/
theorem Shows.step {s : Shared} (reached : Builder.Reaches b es) (building : s.builder = b)
    (shows' : Shows s (openLevels es) b.partialValue?) (accepted : (b.apply e).refusal = none) :
    Shows (s.fill e) (openLevels (es ++ [e])) (b.apply e).after.partialValue? := by
  cases reached with
  | @outermost f _ filled =>
    cases filled with
    | unset => exact shows'.first accepted
    | set derives =>
      -- A value that is set takes no more, so that only a bracket or a sign is left, and none fits.
      cases e with
      | value v => simp [Builder.apply, Builder.offer, Builder.active, Frame.add, RootFrame.add] at accepted
      | openArray start | openObject start =>
        have awaits := (Builder.push_accepted accepted).1
        simp [Builder.active, Frame.Awaits] at awaits
      | closeArray | closeObject | colon | comma => contradiction
  | nested reached around opens filled =>
    exact shows'.step_nested reached around opens filled building accepted

theorem Shows.run {s : Shared} (reached : Builder.Reaches s.builder es)
    (shows' : Shows s (openLevels es) s.builder.partialValue?)
    (scalars : ∀ v, Event.value v ∈ es' → v.IsScalar) (ran : s.builder.run es' = .ok b) :
    ∃ s', s.run es' = .ok s' ∧ s'.builder = b ∧ Shows s' (openLevels (es ++ es')) b.partialValue? := by
  induction es' generalizing s es with
  | nil =>
    obtain rfl := Except.ok.inj ran
    exact ⟨s, rfl, rfl, by simpa using shows'⟩
  | cons e rest ih =>
    cases refusal : (s.builder.apply e).refusal with
    | some why => simp [Builder.run, Reply.toExcept, refusal] at ran
    | none =>
      have applied : s.apply e = .ok { s.fill e with builder := (s.builder.apply e).after } := by
        rw [Shared.apply, Reply.toExcept, refusal]
        rfl
      rw [Builder.run_cons_ok refusal] at ran
      have reached' := reached.step (fun v same => scalars v (by simp [same])) refusal
      -- What is shown is read off the root and the cells; the builder beside them may be another.
      have shown : Shows { s.fill e with builder := (s.builder.apply e).after }
          (openLevels (es ++ [e])) (s.builder.apply e).after.partialValue? :=
        (shows'.step reached rfl refusal).of_eq rfl rfl rfl
      obtain ⟨s', ran', built, shows''⟩ := ih reached' shown
        (fun v member => scalars v (List.mem_cons_of_mem _ member)) ran
      exact ⟨s', by rw [Shared.run, applied]; exact ran', built, by simpa using shows''⟩

namespace Shared

/-- The root of the store reads as a value. -/
def Displays (s : Shared) (v : Value) : Prop :=
  ∃ root, s.root = some root ∧ Reads s.cells [] root v

/-- A path leads from the root of the store to a cell. -/
def Finds (s : Shared) (path : List Level) (c : Nat) : Prop :=
  ∃ root, s.root = some root ∧
    path.foldlM (fun item level => follow s.cells level item) root = some (.collection c)

end Shared

theorem Shows.displays {s : Shared} (shows' : Shows s levels shown) (v : Value) :
    shown = some v ↔ s.Displays v := by
  cases shows' with
  | nothing unset closed =>
    constructor
    · intro same
      contradiction
    · rintro ⟨root, rooted, -⟩
      rw [unset] at rooted
      contradiction
  | complete rooted closed reads =>
    constructor
    · intro same
      obtain rfl := Option.some.inj same
      exact ⟨_, rooted, reads⟩
    · rintro ⟨root, rooted', reads'⟩
      obtain rfl := Option.some.inj (rooted.symm.trans rooted')
      rw [reads.unique reads']
  | @filling root c through _ _ _ cell _ rooted opened leads outside found read =>
    have agrees : Agrees s.cells (c :: through) s.cells [] := fun d _ found _ => ⟨found, by simp⟩
    have reads := leads.reads (.collection found (by simp) (read.transfer agrees))
    constructor
    · intro same
      obtain rfl := Option.some.inj same
      exact ⟨_, rooted, reads⟩
    · rintro ⟨root', rooted', reads'⟩
      obtain rfl := Option.some.inj (rooted.symm.trans rooted')
      rw [reads.unique reads']

/-- The path to the place that is being filled leads to the innermost open cell. -/
theorem Shows.finds {s : Shared} (shows' : Shows s (level :: levels) shown) :
    ∃ c, s.opened.head? = some c ∧ s.Finds levels.reverse c := by
  cases shows' with
  | filling rooted opened leads outside found read =>
    exact ⟨_, by rw [opened]; rfl, _, rooted, leads.followed⟩

namespace Builder

/-- The value shown after events is that of the events completed, and there is one as soon as there are
events. The collection being filled stands at its place in it, and a further event changes what stands there
and nothing else. A store in which collections are filled in place shows the same value, and the path to the
place leads to the innermost open cell. -/
theorem partial_completed (scalars : ∀ v, Event.value v ∈ es → v.IsScalar)
    (ran : Builder.empty.run es = .ok b) :
    (b.partialValue? = none ↔ es = []) ∧
    (∀ whole, b.partialValue? = some whole → build (completed es) = .ok whole) ∧
    ((openLevels es).length = b.depth ∧ (b.depth ≠ 0 → ∃ whole content, b.partialValue? = some whole ∧
      b.active.held? = some content ∧ whole.at? (place es) = some content)) ∧
    (∀ e, (b.apply e).refusal = none → (b.apply e).after.partialValue? = b.shownAfter es e) ∧
    ∃ s, Shared.empty.run es = .ok s ∧ s.builder = b ∧
      (∀ whole, b.partialValue? = some whole ↔ s.Displays whole) ∧
      (b.depth ≠ 0 → ∃ c, s.opened.head? = some c ∧ s.Finds (place es) c) := by
  have reached : Reaches b ([] ++ es) := (Reaches.outermost .unset).run scalars ran
  rw [List.nil_append] at reached
  have depth := reached.depth
  have some' : es ≠ [] → ∃ tree, Derives (completed es) tree ∧ b.partialValue? = some tree.merged :=
    reached.completed
  refine ⟨?_, ?_, ⟨depth, ?_⟩, fun e accepted => reached.shown_after accepted, ?_⟩
  · constructor
    · intro nothing
      by_cases empty : es = []
      · exact empty
      · obtain ⟨tree, -, shown⟩ := some' empty
        rw [shown] at nothing
        contradiction
    · rintro rfl
      obtain rfl := Except.ok.inj ran
      rfl
  · intro whole shown
    by_cases empty : es = []
    · subst empty
      obtain rfl := Except.ok.inj ran
      contradiction
    · obtain ⟨tree, derives, shown'⟩ := some' empty
      obtain rfl := Option.some.inj (shown'.symm.trans shown)
      exact build_of_derives derives
  · intro deep
    cases reached with
    | outermost => exact absurd rfl deep
    | nested reached around opening filled =>
      obtain ⟨content, held⟩ := Frame.held_of_opening opening
      obtain ⟨whole, shown, found, -⟩ := reached.filling around opening filled held
      exact ⟨whole, content, shown, held, found⟩
  · have empty : Shows Shared.empty (openLevels []) Shared.empty.builder.partialValue? := .nothing rfl rfl
    obtain ⟨s, ran', built, shows'⟩ := empty.run (.outermost .unset) scalars ran
    rw [List.nil_append] at shows'
    refine ⟨s, ran', built, shows'.displays, ?_⟩
    intro deep
    cases levels : openLevels es with
    | nil =>
      rw [levels] at depth
      exact absurd depth.symm deep
    | cons level outer =>
      rw [levels] at shows'
      rw [place, levels]
      exact shows'.finds

/-- An object that names `a` again, with an array under it that awaits a second element. -/
def reassigned : List Event :=
  [.openObject 0, .value (.string [0x61]), .colon, .value .null, .comma, .value (.string [0x62]), .colon,
    .value (.bool true), .comma, .value (.string [0x61]), .colon, .openArray 9, .value (.bool false), .comma]

theorem partial_reassigned :
    ∃ b, (∀ v, Event.value v ∈ reassigned → v.IsScalar) ∧ Builder.empty.run reassigned = .ok b ∧
      b.partialValue? = some (.object [([0x61], .array [.bool false]), ([0x62], .bool true)]) ∧
      build (completed reassigned) =
        .ok (.object [([0x61], .array [.bool false]), ([0x62], .bool true)]) := by
  have scalars : ∀ v, Event.value v ∈ reassigned → v.IsScalar := by
    simp [reassigned, Value.IsScalar]
  exact ⟨_, scalars, rfl, rfl, (partial_completed scalars rfl).2.1 _ rfl⟩

end Builder
end TokenRules.Json
