import TokenRules.Proofs.Ini.Items

/-! What the items of an INI file amount to: the default section and one for each header, each with the
assignments up to the next. A parse gives these if no two sections have one name, and no two settings of a
section one key; or else it stops at the first item that would break this. -/
namespace TokenRules.Ini

/-- The assignments up to the first header. -/
def settings : List Item → Settings
  | [] => []
  | .skipped :: rest => settings rest
  | .header _ :: _ => []
  | .assignment key value :: rest => (key, value) :: settings rest

/-- A section for each header, with the assignments up to the next. -/
def sections : List Item → List (Text × Settings)
  | [] => []
  | .skipped :: rest => sections rest
  | .header name :: rest => (name, settings rest) :: sections rest
  | .assignment _ _ :: rest => sections rest

/-- The sections of items, and before them the default section if there is something in it. -/
def document (said : List Item) : List (Text × Settings) :=
  (if (settings said).isEmpty then [] else [(defaultSection, settings said)]) ++ sections said

/-- No two sections have one name, and no two settings of a section have one key. -/
structure Distinct (all : List (Text × Settings)) : Prop where
  names : (all.map Prod.fst).Nodup
  keys : ∀ entry ∈ all, (entry.2.map Prod.fst).Nodup

/-- Items that a reader takes: the headers name sections that differ from each other and from the default
section, whose name is empty, and no key comes twice in one section. -/
def Conforms (said : List Item) : Prop :=
  Distinct ((defaultSection, settings said) :: sections said)

/-- What is wrong with an item that a reader does not take. -/
def Item.complaint : Item → Text
  | .skipped => []
  | .header name => Text.ofString "Duplicate section " ++ Text.quoted name
  | .assignment key _ => Text.ofString "Duplicate key " ++ Text.quoted key

theorem lookup_isSome_iff_mem {list : List (Text × α)} :
    (list.lookup key).isSome ↔ key ∈ list.map Prod.fst := by
  rw [List.lookup_isSome_iff, List.mem_map]
  constructor
  · rintro ⟨entry, member, same⟩
    exact ⟨entry, member, (eq_of_beq same).symm⟩
  · rintro ⟨entry, member, rfl⟩
    exact ⟨entry, member, beq_self_eq_true _⟩

/-- The sections after some more items, if all but one are closed now. -/
def filled (closed : List (Text × Settings)) (name : Text) (values : Settings) (said : List Item) :
    List (Text × Settings) :=
  closed ++ (name, values ++ settings said) :: sections said

theorem filled_nil (closed : List (Text × Settings)) (name : Text) (values : Settings) :
    filled closed name values [] = closed ++ [(name, values)] := by
  rw [filled, settings, sections, List.append_nil]

theorem filled_header (closed : List (Text × Settings)) (name : Text) (values : Settings) (name' : Text)
    (rest : List Item) : filled closed name values (.header name' :: rest) =
      filled (closed ++ [(name, values)]) name' [] rest := by
  simp [filled, settings, sections]

theorem filled_assignment (closed : List (Text × Settings)) (name : Text) (values : Settings)
    (key value : Text) (rest : List Item) : filled closed name values (.assignment key value :: rest) =
      filled closed name (values ++ [(key, value)]) rest := by
  simp [filled, settings, sections]

/-- What is to come can only add names and keys. -/
theorem Distinct.of_filled (distinct : Distinct (filled closed name values said)) :
    Distinct (closed ++ [(name, values)]) := by
  obtain ⟨names, keys⟩ := distinct
  constructor
  · rw [filled, List.map_append, List.map_cons, List.append_cons, List.nodup_append] at names
    simpa using names.1
  · intro entry member
    rcases List.mem_append.mp member with earlier | last
    · exact keys entry (List.mem_append_left _ earlier)
    · obtain rfl := List.mem_singleton.mp last
      have whole := keys (name, values ++ settings said) (by simp [filled])
      rw [List.map_append, List.nodup_append] at whole
      exact whole.1

theorem nodup_keys_concat {list : List (Text × α)} : ((list ++ [(key, value)]).map Prod.fst).Nodup ↔
    (list.map Prod.fst).Nodup ∧ key ∉ list.map Prod.fst := by
  rw [List.map_append, List.nodup_append]
  constructor
  · rintro ⟨first, -, apart⟩
    exact ⟨first, fun member => apart key member key (by simp) rfl⟩
  · rintro ⟨first, fresh⟩
    refine ⟨first, by simp, ?_⟩
    intro other member b last same
    obtain rfl : b = key := by simpa using last
    exact fresh (same ▸ member)

theorem distinct_concat : Distinct (closed ++ [(name, values)]) ↔
    Distinct closed ∧ name ∉ closed.map Prod.fst ∧ (values.map Prod.fst).Nodup := by
  constructor
  · rintro ⟨names, keys⟩
    obtain ⟨names, fresh⟩ := nodup_keys_concat.mp names
    exact ⟨⟨names, fun entry member => keys entry (List.mem_append_left _ member)⟩, fresh,
      keys (name, values) (by simp)⟩
  · rintro ⟨⟨names, keys⟩, fresh, last⟩
    refine ⟨nodup_keys_concat.mpr ⟨names, fresh⟩, fun entry member => ?_⟩
    rcases List.mem_append.mp member with earlier | new
    · exact keys entry earlier
    · obtain rfl := List.mem_singleton.mp new
      exact last

/-- A reader whose last section is open. -/
def Reader.reading (closed : List (Text × Settings)) (name : Text) (values : Settings) : Reader :=
  ⟨⟨closed ++ [(name, values)]⟩, name⟩

theorem take_header (closed : List (Text × Settings)) (name : Text) (values : Settings)
    (place : Nat) (name' : Text) : (Reader.reading closed name values).take place (.header name') =
      if name' ∈ (closed ++ [(name, values)]).map Prod.fst then .error (.duplicateSection name' place)
      else .ok (.reading (closed ++ [(name, values)]) name' []) := by
  simp only [Reader.take, Reader.openSection, Reader.reading, Document.openSection,
    lookup_isSome_iff_mem]
  split <;> rfl

theorem take_assignment (fresh : name ∉ closed.map Prod.fst) (values : Settings) (place : Nat)
    (key value : Text) :
    (Reader.reading closed name values).take place (.assignment key value) =
      if key ∈ values.map Prod.fst then .error (.duplicateKey key)
      else .ok (.reading closed name (values ++ [(key, value)])) := by
  have missing : closed.lookup name = none := by
    rwa [← lookup_isSome_iff_mem, Option.not_isSome_iff_eq_none] at fresh
  have last : (closed ++ [(name, values)]).lookup name = some values := by
    simp [List.lookup_append, missing]
  have others : closed.map (fun entry =>
      if entry.1 == name then (entry.1, entry.2 ++ [(key, value)]) else entry) = closed := by
    refine List.map_congr_left (g := id) (fun entry member => if_neg ?_) |>.trans (List.map_id closed)
    intro same
    exact fresh (List.mem_map.mpr ⟨entry, member, eq_of_beq same⟩)
  simp only [Reader.take, Reader.assign, Reader.reading, Document.assign, last, Option.getD_some,
    lookup_isSome_iff_mem, List.map_append]
  split
  · rfl
  · simp only [Except.map, List.map_cons, List.map_nil, beq_self_eq_true, if_true]
    exact congrArg (fun front => Except.ok (Reader.mk ⟨front ++ _⟩ name)) others

/-- Items that keep the sections distinct are taken. -/
theorem takeAll_ok {its : List (Nat × Item)}
    (distinct : Distinct (filled closed name values (its.map Prod.snd))) :
    ∃ last, (Reader.reading closed name values).takeAll its = .ok last ∧
      last.document.sections = filled closed name values (its.map Prod.snd) := by
  induction its generalizing closed name values with
  | nil => exact ⟨_, rfl, (filled_nil closed name values).symm⟩
  | cons entry rest ih =>
    obtain ⟨place, x⟩ := entry
    rw [List.map_cons] at distinct ⊢
    cases x with
    | skipped => exact ih distinct
    | header name' =>
      rw [filled_header] at distinct ⊢
      obtain ⟨-, fresh, -⟩ := distinct_concat.mp distinct.of_filled
      rw [Reader.takeAll, take_header, if_neg fresh]
      exact ih distinct
    | assignment key value =>
      rw [filled_assignment] at distinct ⊢
      obtain ⟨-, fresh, keys⟩ := distinct_concat.mp distinct.of_filled
      rw [Reader.takeAll, take_assignment fresh, if_neg (nodup_keys_concat.mp keys).2]
      exact ih distinct

/-- Items that are taken keep the sections distinct. -/
theorem distinct_of_takeAll {its : List (Nat × Item)} (distinct : Distinct (closed ++ [(name, values)]))
    (taken : (Reader.reading closed name values).takeAll its = .ok last) :
    Distinct (filled closed name values (its.map Prod.snd)) := by
  induction its generalizing closed name values with
  | nil => rwa [List.map_nil, filled_nil]
  | cons entry rest ih =>
    obtain ⟨place, x⟩ := entry
    rw [List.map_cons]
    obtain ⟨others, fresh, keys⟩ := distinct_concat.mp distinct
    cases x with
    | skipped => exact ih distinct taken
    | header name' =>
      rw [Reader.takeAll, take_header] at taken
      rw [filled_header]
      by_cases repeated : name' ∈ (closed ++ [(name, values)]).map Prod.fst
      · rw [if_pos repeated] at taken
        contradiction
      · rw [if_neg repeated] at taken
        exact ih (distinct_concat.mpr ⟨distinct, repeated, by simp⟩) taken
    | assignment key value =>
      rw [Reader.takeAll, take_assignment fresh] at taken
      rw [filled_assignment]
      by_cases repeated : key ∈ values.map Prod.fst
      · rw [if_pos repeated] at taken
        contradiction
      · rw [if_neg repeated] at taken
        exact ih (distinct_concat.mpr ⟨others, fresh, nodup_keys_concat.mpr ⟨keys, repeated⟩⟩) taken

/-- A new reader takes the items that conform, and no others. -/
theorem takeAll_start {its : List (Nat × Item)} :
    (∃ last, Reader.start.takeAll its = .ok last) ↔ Conforms (its.map Prod.snd) := by
  have empty : Distinct ([] ++ [(defaultSection, [])]) :=
    distinct_concat.mpr ⟨⟨by simp, by simp⟩, by simp⟩
  constructor
  · rintro ⟨last, taken⟩
    exact distinct_of_takeAll empty taken
  · intro conforms
    have distinct : Distinct (filled [] defaultSection [] (its.map Prod.snd)) := conforms
    obtain ⟨last, taken, -⟩ := takeAll_ok distinct
    exact ⟨last, taken⟩

/-- The default section does not count if it is empty; all others have names. -/
theorem result_eq (conforms : Conforms said) :
    Document.result ⟨(defaultSection, settings said) :: sections said⟩ = document said := by
  have named : (sections said).filter (fun entry => !entry.2.isEmpty || entry.1 != defaultSection) =
      sections said := by
    refine List.filter_eq_self.mpr fun entry member => ?_
    have fresh := (List.nodup_cons.mp conforms.names).1
    have other : entry.1 ≠ defaultSection := by
      intro same
      exact fresh (List.mem_map.mpr ⟨entry, member, same⟩)
    simp [other]
  rw [Document.result, List.filter_cons, named, document]
  cases settings said with
  | nil => rfl
  | cons first rest => rfl

theorem takeAll_result {its : List (Nat × Item)} (taken : Reader.start.takeAll its = .ok last) :
    last.document.result = document (its.map Prod.snd) := by
  have conforms := takeAll_start.mp ⟨last, taken⟩
  have distinct : Distinct (filled [] defaultSection [] (its.map Prod.snd)) := conforms
  obtain ⟨last', taken', sections⟩ := takeAll_ok distinct
  obtain rfl := Except.ok.inj (taken'.symm.trans taken)
  rw [← result_eq conforms]
  exact congrArg (fun all => Document.result ⟨all⟩) sections

/-- A refusal is about the item, at the place of the item. -/
theorem take_refused {r : Reader} {place : Nat} (refused : r.take place x = .error why) :
    ∃ t, why.raised = (.trouble t : Raised ε) ∧ t.message = x.complaint ∧
      t.position?.getD (place : Int) = place := by
  cases x with
  | skipped => contradiction
  | header name =>
    simp only [Reader.take, Reader.openSection, Document.openSection] at refused
    split at refused
    · obtain rfl := Except.error.inj refused
      exact ⟨_, rfl, rfl, rfl⟩
    · contradiction
  | assignment key value =>
    simp only [Reader.take, Reader.assign, Document.assign] at refused
    split at refused
    · obtain rfl := Except.error.inj refused
      exact ⟨_, rfl, rfl, rfl⟩
    · contradiction

/-- The parse of a text ends in a failure with a description, at a place. -/
def Fails (t : Text) (place : Nat) (description : Text) : Prop :=
  ∃ f, parse t = .error (.failure f) ∧ f.report.position = place ∧ f.report.description = description

theorem fails_of_trouble (t' : Trouble) (blame : Nat)
    (judged : judge t = .error (.trouble t', blame))
    (place : t'.position?.getD (blame : Int) = (position : Nat)) : Fails t position t'.message := by
  obtain ⟨f, stopped, -, description, found⟩ := Engine.stopAt_trouble engine_lineBreaks t t' blame
  refine ⟨f, ?_, found.trans place, description⟩
  rw [parse_eq, judged]
  exact congrArg Except.error stopped

theorem parse_conforming (conforms : Conforms ((items 0 t).1.map Prod.snd)) (whole : (items 0 t).2 = []) :
    parse t = .ok (document ((items 0 t).1.map Prod.snd)) := by
  obtain ⟨last, taken⟩ := takeAll_start.mpr conforms
  rw [parse_eq, judge, taken, ← takeAll_result taken, whole]
  rfl

theorem fails_blocked (conforms : Conforms ((items 0 t).1.map Prod.snd)) (stuck : (items 0 t).2 ≠ []) :
    Fails t (t.length - (items 0 t).2.length) (Text.ofString "Unrecognized token") := by
  obtain ⟨last, taken⟩ := takeAll_start.mpr conforms
  refine fails_of_trouble (.blocked _) t.length ?_ rfl
  rw [judge, taken]
  exact if_neg (by simpa using stuck)

/-- What a reader answers to an item after those before it is what it answers to all of them. -/
theorem takeAll_step {before : List (Nat × Item)} (taken : Reader.start.takeAll before = .ok reached)
    (place : Nat) (x : Item) (after : List (Nat × Item)) :
    Reader.start.takeAll (before ++ (place, x) :: after) = match reached.take place x with
      | .ok next => next.takeAll after
      | .error why => .error (why, place) := by
  rw [Reader.takeAll_append, taken]
  rfl

theorem fails_offending (split : (items 0 t).1 = before ++ (place, x) :: after)
    (conforms : Conforms (before.map Prod.snd)) (offends : ¬ Conforms (before.map Prod.snd ++ [x])) :
    Fails t place x.complaint := by
  obtain ⟨reached, taken⟩ := takeAll_start.mpr conforms
  cases answer : reached.take place x with
  | ok next =>
    have accepted : Reader.start.takeAll (before ++ [(place, x)]) = .ok next := by
      rw [takeAll_step taken, answer]
      rfl
    exact absurd (takeAll_start.mp ⟨next, accepted⟩) (by simpa using offends)
  | error why =>
    obtain ⟨t', raised, message, position⟩ := take_refused (ε := Empty) answer
    rw [← message]
    refine fails_of_trouble t' place ?_ position
    rw [judge, split, takeAll_step taken, answer]
    exact congrArg (fun raised => Except.error (raised, place)) raised

/-- If items do not conform, one of them is the first that does not conform to those before it. -/
theorem exists_offending {its : List (Nat × Item)} (offends : ¬ Conforms (its.map Prod.snd)) :
    ∃ before place x after, its = before ++ (place, x) :: after ∧ Conforms (before.map Prod.snd) ∧
      ¬ Conforms (before.map Prod.snd ++ [x]) := by
  cases all : Reader.start.takeAll its with
  | ok last => exact absurd (takeAll_start.mp ⟨last, all⟩) offends
  | error blamed =>
    obtain ⟨why, place⟩ := blamed
    obtain ⟨before, x, after, reached, rfl, taken, answer⟩ := Reader.takeAll_error all
    refine ⟨before, place, x, after, rfl, takeAll_start.mp ⟨reached, taken⟩, ?_⟩
    intro conforms
    have conforms : Conforms ((before ++ [(place, x)]).map Prod.snd) := by simpa using conforms
    obtain ⟨next, accepted⟩ := takeAll_start.mpr conforms
    rw [takeAll_step taken, answer] at accepted
    contradiction

theorem parse_ok_iff : parse t = .ok doc ↔ (items 0 t).2 = [] ∧
    Conforms ((items 0 t).1.map Prod.snd) ∧ doc = document ((items 0 t).1.map Prod.snd) := by
  constructor
  · intro parsed
    have failed : ∀ {place description}, ¬ Fails t place description := by
      rintro place description ⟨f, stopped, -⟩
      rw [parsed] at stopped
      contradiction
    have conforms : Conforms ((items 0 t).1.map Prod.snd) := by
      refine Classical.byContradiction fun offends => ?_
      obtain ⟨before, place, x, after, split, conforms, offends⟩ := exists_offending offends
      exact failed (fails_offending split conforms offends)
    have whole : (items 0 t).2 = [] :=
      Classical.byContradiction fun stuck => failed (fails_blocked conforms stuck)
    exact ⟨whole, conforms, Except.ok.inj (parsed.symm.trans (parse_conforming conforms whole))⟩
  · rintro ⟨whole, conforms, rfl⟩
    exact parse_conforming conforms whole

/-- A parse agrees with the reading of the items. It gives the document if they conform and reach the end of
the text. If not, it fails at the first item that does not conform to those before it, or else where no
rule goes on. There is no other way to end. -/
theorem parse_reads (t : Text) :
    (∀ doc, parse t = .ok doc ↔ (items 0 t).2 = [] ∧ Conforms ((items 0 t).1.map Prod.snd) ∧
      doc = document ((items 0 t).1.map Prod.snd)) ∧
    (¬ Conforms ((items 0 t).1.map Prod.snd) → ∃ before place x after,
      (items 0 t).1 = before ++ (place, x) :: after ∧ Conforms (before.map Prod.snd) ∧
        ¬ Conforms (before.map Prod.snd ++ [x]) ∧ Fails t place x.complaint) ∧
    (Conforms ((items 0 t).1.map Prod.snd) → (items 0 t).2 ≠ [] →
      Fails t (t.length - (items 0 t).2.length) (Text.ofString "Unrecognized token")) := by
  refine ⟨fun doc => parse_ok_iff, ?_, fails_blocked⟩
  intro offends
  obtain ⟨before, place, x, after, split, conforms, first⟩ := exists_offending offends
  exact ⟨before, place, x, after, split, conforms, first, fails_offending split conforms first⟩

end TokenRules.Ini
