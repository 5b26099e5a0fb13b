import TokenRules.Proofs.Ini.Reading

/-! Writing INI files. A document is written in lines, one for each header and each setting. Whatever stands
around a line, its token is the whole line, so that reading gives the document back. -/
namespace TokenRules.Ini

open Pattern

/-- A text without blanks around it, on one line. -/
structure Trimmed (t : Text) : Prop where
  stripped : Text.strip t = t
  inLine : ∀ c ∈ t, inLine c

/-- A key that does not look like anything else. -/
structure Key (key : Text) : Prop extends Trimmed key where
  nonempty : key ≠ []
  solid : ∀ c ∈ key, c ≠ Sign.equal
  opening : ∀ c ∈ key.head?, c ≠ Sign.leftBracket ∧ opensComment c = false

instance (t : Text) : Decidable (Trimmed t) :=
  decidable_of_iff (Text.strip t = t ∧ ∀ c ∈ t, inLine c) ⟨fun h => ⟨h.1, h.2⟩, fun h => ⟨h.1, h.2⟩⟩

instance (key : Text) : Decidable (Key key) :=
  decidable_of_iff (Trimmed key ∧ key ≠ [] ∧ (∀ c ∈ key, c ≠ Sign.equal) ∧
      ∀ c ∈ key.head?, c ≠ Sign.leftBracket ∧ opensComment c = false)
    ⟨fun h => ⟨h.1, h.2.1, h.2.2.1, h.2.2.2⟩, fun h => ⟨h.1, h.2, h.3, h.4⟩⟩

/-- A document that can be written: the default section is the first if it is there, and is not empty. -/
structure Writable (doc : List (Text × Settings)) : Prop where
  distinct : Distinct doc
  first : ∀ entry ∈ doc.tail, entry.1 ≠ defaultSection
  counts : ∀ entry ∈ doc, entry.1 = defaultSection → entry.2 ≠ []
  names : ∀ entry ∈ doc, Trimmed entry.1 ∧ ∀ c ∈ entry.1, c ≠ Sign.rightBracket
  settings : ∀ entry ∈ doc, ∀ setting ∈ entry.2, Key setting.1 ∧ Trimmed setting.2

def headerLine (name : Text) : Text := Sign.leftBracket :: name ++ [Sign.rightBracket]

def settingLine (setting : Text × Text) : Text := setting.1 ++ Sign.equal :: setting.2

/-- The lines of a section; the default one has no header. -/
def sectionLines (entry : Text × Settings) : List Text :=
  (if entry.1 = defaultSection then [] else [headerLine entry.1]) ++ entry.2.map settingLine

/-- A text in lines, each ended by a line feed, a carriage return or both. The last may have no end. -/
inductive Lines : List Text → Text → Prop
  | nil : Lines [] []
  | last : Lines [line] line
  | line : ending ∈ [[Sign.lineFeed], [Sign.carriageReturn], [Sign.carriageReturn, Sign.lineFeed]] →
      Lines lines t → Lines (line :: lines) (line ++ (ending ++ t))

/-- A line is one token that says something, whatever the line ends with. -/
structure Speaks (line : Text) (x : Item) : Prop where
  solid : ∃ x w, line = x :: w ∧ Text.isBlank x = false
  heard : x ≠ .skipped
  token : ∀ t, Ahead (inLine · = false) t → ∃ i, lexeme? (line ++ t) = some (i, line) ∧ item i line = x

theorem strip_length (t : Text) : (Text.strip t).length ≤ (t.dropWhile Text.isBlank).length := by
  rw [Text.strip, List.length_reverse]
  exact Nat.le_trans (List.dropWhile_sublist _).length_le (Nat.le_of_eq List.length_reverse)

/-- No blank begins a text that has none around it. -/
theorem Trimmed.solid (trimmed : Trimmed t) : Ahead (Text.isBlank · = false) t := by
  intro x here
  cases t with
  | nil => simp at here
  | cons y t =>
    obtain rfl : y = x := by simpa using here
    refine Bool.eq_false_iff.mpr fun blank => ?_
    have shorter := strip_length (y :: t)
    rw [trimmed.stripped, List.dropWhile_cons, if_pos blank, List.length_cons] at shorter
    have rest := (List.dropWhile_sublist (l := t) Text.isBlank).length_le
    omega

theorem speaks_header (trimmed : Trimmed name) (closed : ∀ c ∈ name, c ≠ Sign.rightBracket) :
    Speaks (headerLine name) (.header name) where
  solid := ⟨Sign.leftBracket, name ++ [Sign.rightBracket], rfl, by decide⟩
  heard := nofun
  token t _ := by
    have inside : ∀ c ∈ name, inHeader c := by
      intro c member
      simp [inHeader, closed c member, trimmed.inLine c member]
    have named : followed (many inHeader) (one (· == Sign.rightBracket)) (name ++ Sign.rightBracket :: t) =
        some (name ++ [Sign.rightBracket]) :=
      followed_append (many_append inside (.cons (by decide))) (one_cons (by decide) t)
    have taken : header (headerLine name ++ t) = some (headerLine name) := by
      have opening : one (· == Sign.leftBracket) ([Sign.leftBracket] ++ (name ++ Sign.rightBracket :: t)) =
          some [Sign.leftBracket] := rfl
      simpa [header, headerLine] using followed_append opening named
    refine ⟨2, lexeme?_eq_some.mpr ⟨header, rfl, taken⟩, ?_⟩
    simp [item, headerName, headerLine, trimmed.stripped]

/-- The first equals sign is the one behind the key. -/
theorem splitAssignment_line (solid : ∀ c ∈ key, c ≠ Sign.equal) (value : Text) :
    splitAssignment (key ++ Sign.equal :: value) = (Text.strip key, Text.strip value) := by
  have isKey : ∀ c ∈ key, (c != Sign.equal) = true := by simpa using solid
  simp [splitAssignment, List.takeWhile_append_of_pos isKey, List.dropWhile_append_of_pos isKey]

theorem Key.opens (key : Key (c :: w)) : opensKey c := by
  have blank := key.toTrimmed.solid c rfl
  obtain ⟨bracket, comment⟩ := key.opening c rfl
  have equal := key.solid c (by simp)
  simp [opensKey, blank, bracket, comment, equal]

theorem speaks_setting (key : Key name) (trimmed : Trimmed value) :
    Speaks (settingLine (name, value)) (.assignment name value) where
  solid := by
    obtain ⟨x, w, rfl⟩ := List.exists_cons_of_ne_nil key.nonempty
    exact ⟨x, w ++ Sign.equal :: value, rfl, key.toTrimmed.solid x rfl⟩
  heard := nofun
  token t ends := by
    have inside : ∀ c ∈ name, inKey c := by
      intro c member
      simp [inKey, key.solid c member, key.inLine c member]
    obtain ⟨x, w, rfl⟩ := List.exists_cons_of_ne_nil key.nonempty
    have assigned : followed (one (· == Sign.equal)) (many inLine) (Sign.equal :: (value ++ t)) =
        some (Sign.equal :: value) :=
      followed_append (u := [Sign.equal]) (one_cons (by decide) _) (many_append trimmed.inLine ends)
    have keyed : followed (many inKey) (followed (one (· == Sign.equal)) (many inLine))
        (w ++ Sign.equal :: (value ++ t)) = some (w ++ Sign.equal :: value) :=
      followed_append (many_append (List.forall_mem_cons.mp inside).2 (.cons (by decide))) assigned
    have taken : assignment (settingLine (x :: w, value) ++ t) = some (settingLine (x :: w, value)) := by
      have opening := followed_append (u := [x]) (one_cons key.opens _) keyed
      simpa [assignment, settingLine] using opening
    have split : splitAssignment (settingLine (x :: w, value)) = (x :: w, value) := by
      rw [settingLine, splitAssignment_line key.solid, key.stripped, trimmed.stripped]
    exact ⟨3, lexeme?_eq_some.mpr ⟨assignment, rfl, taken⟩, by simp only [item, split]⟩

/-- What items say, but for comments and blanks. -/
def spoken (said : List Item) : List Item := said.filter (· != .skipped)

theorem settings_spoken (said : List Item) : settings (spoken said) = settings said := by
  fun_induction settings said <;> simp_all [spoken, settings]

theorem sections_spoken (said : List Item) : sections (spoken said) = sections said := by
  fun_induction sections said with
  | case3 name rest ih => simpa [spoken, sections] using ⟨settings_spoken rest, ih⟩
  | case1 | case2 | case4 => simp_all [spoken, sections]

theorem spoken_cons (heard : x ≠ .skipped) (said : List Item) : spoken (x :: said) = x :: spoken said :=
  List.filter_cons_of_pos (by simpa using heard)

/-- An end of a line is one token of blanks, if no blank follows, and no part of the line. -/
theorem ending_token
    (known : ending ∈ [[Sign.lineFeed], [Sign.carriageReturn], [Sign.carriageReturn, Sign.lineFeed]])
    (solid : Ahead (Text.isBlank · = false) t) :
    lexeme? (ending ++ t) = some (1, ending) ∧ Ahead (inLine · = false) (ending ++ t) := by
  obtain ⟨nonempty, blanks, -⟩ := ending_outside known
  exact ⟨lexeme?_eq_some.mpr ⟨_, rfl, several_append nonempty blanks solid⟩, ending_ahead known t⟩

/-- A line that says something, and the items after it. -/
theorem items_line (speaks : Speaks line x) (ends : Ahead (inLine · = false) t) (offset : Nat) :
    items offset (line ++ t) = ((offset, x) :: (items (offset + line.length) t).1,
      (items (offset + line.length) t).2) := by
  obtain ⟨i, found, rfl⟩ := speaks.token t ends
  exact items_some found offset

theorem Lines.solid (written : Lines lines t)
    (speaks : ∀ line ∈ lines, ∃ x, Speaks line x) : Ahead (Text.isBlank · = false) t := by
  cases written with
  | nil => simp [Ahead]
  | last =>
    obtain ⟨_, speaks⟩ := speaks _ List.mem_cons_self
    obtain ⟨x, w, rfl, solid⟩ := speaks.solid
    exact .cons solid
  | line =>
    obtain ⟨_, speaks⟩ := speaks _ List.mem_cons_self
    obtain ⟨x, w, rfl, solid⟩ := speaks.solid
    exact .cons solid

/-- The items of lines are what the lines say. -/
theorem items_lines {pairs : List (Text × Item)} (written : Lines lines t)
    (same : pairs.map Prod.fst = lines) (speaks : ∀ pair ∈ pairs, Speaks pair.1 pair.2) (offset : Nat) :
    (items offset t).2 = [] ∧ spoken ((items offset t).1.map Prod.snd) = pairs.map Prod.snd := by
  have nothing : ∀ offset, items offset [] = ([], []) := fun offset => items_none rfl offset
  induction written generalizing pairs offset with
  | nil =>
    obtain rfl := List.map_eq_nil_iff.mp same
    rw [nothing]
    exact ⟨rfl, rfl⟩
  | last =>
    obtain ⟨⟨line, x⟩, rest, rfl, rfl, none⟩ := List.map_eq_cons_iff.mp same
    obtain rfl := List.map_eq_nil_iff.mp none
    have speaks : Speaks line x := speaks (line, x) List.mem_cons_self
    have read := items_line speaks (t := []) (by simp [Ahead]) offset
    rw [List.append_nil, nothing] at read
    rw [read]
    exact ⟨rfl, spoken_cons speaks.heard []⟩
  | @line ending lines t _ known written ih =>
    obtain ⟨⟨line, x⟩, rest, rfl, rfl, others⟩ := List.map_eq_cons_iff.mp same
    obtain ⟨first, later⟩ := List.forall_mem_cons.mp speaks
    have solid : Ahead (Text.isBlank · = false) t := by
      refine written.solid fun line member => ?_
      rw [← others] at member
      obtain ⟨pair, known, rfl⟩ := List.mem_map.mp member
      exact ⟨pair.2, later pair known⟩
    obtain ⟨token, ends⟩ := ending_token known solid
    obtain ⟨whole, said⟩ := ih others later (offset + line.length + ending.length)
    have first : Speaks line x := first
    rw [items_line first ends, items_some token]
    refine ⟨whole, ?_⟩
    rw [List.map_cons, List.map_cons, List.map_cons, ← said, spoken_cons first.heard]
    rfl

/-- What the lines of a section say. -/
def sectionItems (entry : Text × Settings) : List Item :=
  (if entry.1 = defaultSection then [] else [.header entry.1]) ++
    entry.2.map fun setting => .assignment setting.1 setting.2

theorem read_assignments (values : Settings) (rest : List Item) :
    settings (values.map (fun setting => .assignment setting.1 setting.2) ++ rest) =
        values ++ settings rest ∧
      sections (values.map (fun setting => .assignment setting.1 setting.2) ++ rest) = sections rest := by
  induction values with
  | nil => exact ⟨rfl, rfl⟩
  | cons first values ih => exact ⟨congrArg (first :: ·) ih.1, ih.2⟩

theorem read_named (named : ∀ entry ∈ doc, entry.1 ≠ defaultSection) :
    settings (doc.flatMap sectionItems) = [] ∧ sections (doc.flatMap sectionItems) = doc := by
  induction doc with
  | nil => exact ⟨rfl, rfl⟩
  | cons entry rest ih =>
    obtain ⟨here, later⟩ := List.forall_mem_cons.mp named
    obtain ⟨none, others⟩ := ih later
    obtain ⟨values, behind⟩ := read_assignments entry.2 (rest.flatMap sectionItems)
    rw [List.flatMap_cons, sectionItems, if_neg here, List.append_assoc, List.cons_append, List.nil_append,
      settings, sections, values, behind, none, others, List.append_nil]
    exact ⟨rfl, rfl⟩

/-- What the lines of a document say is the document. -/
theorem read_writable (writable : Writable doc) :
    Conforms (doc.flatMap sectionItems) ∧ document (doc.flatMap sectionItems) = doc := by
  by_cases named : ∀ entry ∈ doc, entry.1 ≠ defaultSection
  · obtain ⟨none, all⟩ := read_named named
    rw [Conforms, document, none, all]
    refine ⟨⟨List.nodup_cons.mpr ⟨?_, writable.distinct.names⟩, ?_⟩, rfl⟩
    · intro member
      obtain ⟨entry, known, same⟩ := List.mem_map.mp member
      exact named entry known same
    · exact List.forall_mem_cons.mpr ⟨by simp, writable.distinct.keys⟩
  · cases doc with
    | nil => simp at named
    | cons entry rest =>
      obtain ⟨name, values⟩ := entry
      obtain rfl : name = defaultSection := by
        refine Classical.byContradiction fun other => named ?_
        exact List.forall_mem_cons.mpr ⟨other, writable.first⟩
      obtain ⟨none, all⟩ := read_named writable.first
      obtain ⟨first, behind⟩ := read_assignments values (rest.flatMap sectionItems)
      rw [List.tail_cons] at none all
      rw [none, List.append_nil] at first
      rw [all] at behind
      have said : ((defaultSection, values) :: rest).flatMap sectionItems =
          values.map (fun setting => .assignment setting.1 setting.2) ++ rest.flatMap sectionItems := rfl
      have filled : values.isEmpty = false := by
        simpa using writable.counts (defaultSection, values) List.mem_cons_self rfl
      rw [Conforms, document, said, first, behind, filled]
      exact ⟨writable.distinct, rfl⟩

/-- The lines of a section, each with what it says. -/
def sectionPairs (entry : Text × Settings) : List (Text × Item) :=
  (if entry.1 = defaultSection then [] else [(headerLine entry.1, .header entry.1)]) ++
    entry.2.map fun setting => (settingLine setting, .assignment setting.1 setting.2)

theorem sectionPairs_lines (entry : Text × Settings) :
    (sectionPairs entry).map Prod.fst = sectionLines entry := by
  simp only [sectionPairs, sectionLines, List.map_append, List.map_map]
  split <;> rfl

theorem sectionPairs_items (entry : Text × Settings) :
    (sectionPairs entry).map Prod.snd = sectionItems entry := by
  simp only [sectionPairs, sectionItems, List.map_append, List.map_map]
  split <;> rfl

theorem sectionPairs_speak (writable : Writable doc) :
    ∀ pair ∈ doc.flatMap sectionPairs, Speaks pair.1 pair.2 := by
  intro pair member
  obtain ⟨entry, known, member⟩ := List.mem_flatMap.mp member
  rcases List.mem_append.mp member with header | assigned
  · split at header
    · simp at header
    · obtain rfl := List.mem_singleton.mp header
      obtain ⟨trimmed, closed⟩ := writable.names entry known
      exact speaks_header trimmed closed
  · obtain ⟨setting, inside, rfl⟩ := List.mem_map.mp assigned
    obtain ⟨key, value⟩ := writable.settings entry known setting inside
    exact speaks_setting key value

/-- Reading a document that has been written gives the document back. -/
theorem parse_written (writable : Writable doc) (written : Lines (doc.flatMap sectionLines) t) :
    parse t = .ok doc := by
  have lines : (doc.flatMap sectionPairs).map Prod.fst = doc.flatMap sectionLines := by
    rw [List.map_flatMap, funext sectionPairs_lines]
  obtain ⟨whole, read⟩ := items_lines written lines (sectionPairs_speak writable) 0
  rw [List.map_flatMap, funext sectionPairs_items] at read
  obtain ⟨conforms, same⟩ := read_writable writable
  have alike : settings ((items 0 t).1.map Prod.snd) = settings (doc.flatMap sectionItems) ∧
      sections ((items 0 t).1.map Prod.snd) = sections (doc.flatMap sectionItems) := by
    rw [← read, settings_spoken, sections_spoken]
    exact ⟨rfl, rfl⟩
  have conforms' : Conforms ((items 0 t).1.map Prod.snd) := by
    rwa [Conforms, alike.1, alike.2]
  rw [parse_conforming conforms' whole, document, alike.1, alike.2]
  exact congrArg Except.ok same

/-- A value full of signs, a section without settings, and a setting without a value. -/
def signs : List (Text × Settings) :=
  [([], [([0x6B], [0x5B, 0x3B, 0x3D])]), ([0x61, 0x20, 0x62], []), ([0x63], [([0x64], [])])]

/-- The lines are `k=[;=`, `[a b]`, `[c]` and `d=`, each with another end. -/
theorem parse_written_signs : Writable signs ∧
    Lines (signs.flatMap sectionLines) [0x6B, 0x3D, 0x5B, 0x3B, 0x3D, 0x0A, 0x5B, 0x61, 0x20, 0x62, 0x5D,
      0x0D, 0x0A, 0x5B, 0x63, 0x5D, 0x0D, 0x64, 0x3D] ∧
    parse [0x6B, 0x3D, 0x5B, 0x3B, 0x3D, 0x0A, 0x5B, 0x61, 0x20, 0x62, 0x5D, 0x0D, 0x0A, 0x5B, 0x63, 0x5D,
      0x0D, 0x64, 0x3D] = .ok signs := by
  have writable : Writable signs :=
    ⟨⟨by decide, by decide⟩, by decide, by decide, by decide, by decide⟩
  have fourth : Lines [[0x64, 0x3D]] [0x64, 0x3D] := .last
  have third : Lines [[0x5B, 0x63, 0x5D], _] ([0x5B, 0x63, 0x5D] ++ ([0x0D] ++ _)) :=
    .line (by decide) fourth
  have second : Lines ([0x5B, 0x61, 0x20, 0x62, 0x5D] :: _)
      ([0x5B, 0x61, 0x20, 0x62, 0x5D] ++ ([0x0D, 0x0A] ++ _)) := .line (by decide) third
  have first : Lines ([0x6B, 0x3D, 0x5B, 0x3B, 0x3D] :: _)
      ([0x6B, 0x3D, 0x5B, 0x3B, 0x3D] ++ ([0x0A] ++ _)) := .line (by decide) second
  exact ⟨writable, first, parse_written writable first⟩

end TokenRules.Ini
