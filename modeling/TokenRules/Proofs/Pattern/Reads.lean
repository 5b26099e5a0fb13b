import TokenRules.Proofs.Pattern.Locality

/-! A successful reading, part by part. What each part preserves holds of the whole: the source has no
escape that breaks off, and groups are numbered from one in the order in which they open. -/
namespace TokenRules.Pattern

namespace Reader

/-- At its end a source leaves no group open, and nothing that was put off stands against it. -/
theorem finish_ok_iff : finish r = .ok final ↔ final = r ∧ r.outer = [] ∧ r.conflict? = none ∧
    r.expected ≤ r.groups.count ∧ r.deferred = false := by
  simp only [finish]
  cases r.outer with
  | cons level outer => simp
  | nil =>
    cases r.conflict? with
    | some fault => simp
    | none =>
      by_cases enough : r.groups.count < r.expected
      · simp [enough, Nat.not_le.mpr enough]
      · cases r.deferred with
        | true => simp [enough]
        | false => simp [enough, Nat.not_lt.mp enough, eq_comm]

theorem finish_eq (h : finish r = .ok final) : final = r :=
  (finish_ok_iff.mp h).1

theorem finish_outer (h : finish r = .ok final) : r.outer = [] :=
  (finish_ok_iff.mp h).2.1

end Reader

section

variable [CharacterNames]

namespace Reader

/-- The parts of a source, up to the first that cannot be read. -/
def parts (ts : List Token) (r : Reading) : List Part :=
  match ts with
  | [] => []
  | t :: ts =>
    match _h : part r.flags t ts with
    | .error _ => []
    | .ok (p, rest) =>
      match p.apply r with
      | .error _ => [p]
      | .ok r => p :: parts rest r
termination_by ts.length
decreasing_by
  have := part_length _h
  simp; omega

end Reader

/-- A part of a source, with what has been read before it, the tokens from its first on, and those after its
last. -/
structure Step where
  reading : Reading
  part : Part
  tokens : List Token
  rest : List Token

namespace Reader

/-- The parts of a source with the places where they start, up to the first that cannot be read. -/
def steps (ts : List Token) (r : Reading) : List Step :=
  match ts with
  | [] => []
  | t :: ts =>
    match _h : part r.flags t ts with
    | .error _ => []
    | .ok (p, rest) =>
      match p.apply r with
      | .error _ => [⟨r, p, t :: ts, rest⟩]
      | .ok r' => ⟨r, p, t :: ts, rest⟩ :: steps rest r'
termination_by ts.length
decreasing_by
  have := part_length _h
  simp; omega

end Reader

/-- Reading the tokens to the end as these parts. -/
inductive Reads : List Token → Reading → List Part → Reading → Prop
  | finish (finished : Reader.finish r = .ok r) : Reads [] r [] r
  | part (next : Reader.part r.flags t ts = .ok (p, rest)) (applied : p.apply r = .ok r')
      (more : Reads rest r' ps final) : Reads (t :: ts) r (p :: ps) final

namespace Reader

theorem read_cons (t : Token) (ts : List Token) (r : Reading) :
    read (t :: ts) r =
      (part r.flags t ts).bind fun (p, rest) => (p.apply r).bind fun r => read rest r := by
  rw [read]
  split
  · next failed => simp only [failed, Except.bind]
  · next next' =>
    simp only [next', Except.bind]
    split <;> simp_all

/-- A reading that succeeds reads a part, applies it and goes on. -/
theorem read_cons_ok (h : read (t :: ts) r = .ok final) :
    ∃ p rest r', part r.flags t ts = .ok (p, rest) ∧ p.apply r = .ok r' ∧
      read rest r' = .ok final := by
  rw [read_cons] at h
  cases next : part r.flags t ts with
  | error e => simp [next, Except.bind] at h
  | ok found =>
    obtain ⟨p, rest⟩ := found
    simp only [next, Except.bind] at h
    cases applied : p.apply r with
    | error e => simp [applied] at h
    | ok r' => exact ⟨p, rest, r', rfl, applied, by simpa only [applied] using h⟩

theorem parts_cons (next : part r.flags t ts = .ok (p, rest)) (applied : p.apply r = .ok r') :
    parts (t :: ts) r = p :: parts rest r' := by
  rw [parts]
  split <;> simp_all

end Reader

theorem reads_parts (h : Reader.read ts r = .ok final) : Reads ts r (Reader.parts ts r) final := by
  induction size : ts.length using Nat.strongRecOn generalizing ts r with
  | ind size ih =>
    subst size
    cases ts with
    | nil =>
      rw [Reader.read] at h
      obtain rfl := Reader.finish_eq h
      rw [Reader.parts]
      exact .finish h
    | cons t ts =>
      obtain ⟨p, rest, r', next, applied, more⟩ := Reader.read_cons_ok h
      rw [Reader.parts_cons next applied]
      exact .part next applied (ih _ (Nat.lt_succ_of_le (Reader.part_length next)) more rfl)

namespace Reader

theorem steps_cons (next : part r.flags t ts = .ok (p, rest)) (applied : p.apply r = .ok r') :
    steps (t :: ts) r = ⟨r, p, t :: ts, rest⟩ :: steps rest r' := by
  rw [steps]
  split <;> simp_all

theorem parts_eq (ts : List Token) (r : Reading) : parts ts r = (steps ts r).map (·.part) := by
  induction ts, r using steps.induct with
  | case1 r => rw [parts, steps, List.map_nil]
  | case2 r t ts fault refused =>
    rw [parts, steps]
    split <;> simp_all
  | case3 r t ts p rest next fault refused =>
    rw [parts, steps]
    split <;> simp_all
  | case4 r t ts p rest next r' applied ih =>
    rw [parts_cons next applied, steps_cons next applied, List.map_cons, ih]

end Reader

theorem Reads.steps (reads : Reads ts r ps final) : (Reader.steps ts r).map (·.part) = ps := by
  induction reads with
  | finish => rw [Reader.steps, List.map_nil]
  | part next applied more ih => rw [Reader.steps_cons next applied, List.map_cons, ih]

theorem Reads.parts_eq (reads : Reads ts r ps final) : Reader.parts ts r = ps := by
  rw [Reader.parts_eq, reads.steps]

theorem Reads.finished (reads : Reads ts r ps last) : Reader.finish last = .ok last := by
  induction reads with
  | finish finished => exact finished
  | part _ _ _ ih => exact ih

/-- Each step of a reading is a part that is read where the step starts. -/
theorem Reads.step {step : Step} (reads : Reads ts r ps final) (member : step ∈ Reader.steps ts r) :
    step.tokens <:+ ts ∧ ∃ t us, step.tokens = t :: us ∧
      Reader.part step.reading.flags t us = .ok (step.part, step.rest) := by
  induction reads with
  | finish =>
    rw [Reader.steps] at member
    contradiction
  | part next applied more ih =>
    rw [Reader.steps_cons next applied] at member
    rcases List.mem_cons.mp member with rfl | later
    · exact ⟨List.suffix_refl _, _, _, rfl, next⟩
    · obtain ⟨suffix, found⟩ := ih later
      exact ⟨suffix.trans (Reader.part_append next).1.suffix, found⟩

/-- No escape breaks off in a source that reads. -/
theorem Reads.whole (reads : Reads ts r ps final) : Token.dangling ∉ ts := by
  induction reads with
  | finish => simp
  | part next applied more ih =>
    obtain ⟨⟨consumed, split, whole⟩, -⟩ := Reader.part_append next
    rw [split, List.mem_append, not_or]
    exact ⟨whole, ih⟩

/-- Somewhere in the tokens a group is referred to by its number. -/
def Numbered (ts : List Token) : Prop :=
  ∃ c rest f index rest', Token.escaped c :: rest <:+ ts ∧ Text.isAsciiDigit c ∧ c ≠ 0x30 ∧
    Reader.reference f c rest = .ok (.numberedReference index, rest')

namespace Reader

/-- Only a backslash and a digit refer to a group by its number. -/
def Unnumbered (parsed : Parsed) : Prop :=
  ∀ index rest, parsed ≠ .ok (.numberedReference index, rest)

omit [CharacterNames] in
theorem flagGroup_unnumbered (ts : List Token) : Unnumbered (flagGroup ts) := by
  intro index rest h
  simp only [flagGroup] at h
  grind

omit [CharacterNames] in
theorem extension_unnumbered (ts : List Token) : Unnumbered (extension ts) := by
  intro index rest h
  have flags := fun ts => flagGroup_unnumbered ts index rest
  simp only [extension, named, Except.map] at h
  grind

theorem item_unnumbered (f : Flags) (c : CodePoint) (ts : List Token) :
    Unnumbered (item f c ts) := by
  intro index rest h
  have groups := fun ts => extension_unnumbered ts index rest
  simp only [item, loop, bracket, brace, group, Part.atom, Except.map] at h
  grind

theorem part_numbered (h : part f t ts = .ok (.numberedReference index, rest)) :
    Numbered (t :: ts) := by
  cases t with
  | dangling => simp [part] at h
  | plain c =>
    have items := item_unnumbered f c ts index rest
    simp only [part, plain] at h
    grind
  | escaped c =>
    refine ⟨c, ts, f, index, rest, List.suffix_refl _, ?_⟩
    simp only [part, escape, Part.atom, Except.map] at h
    grind

end Reader

theorem Reads.numbered (reads : Reads ts r ps final) (member : .numberedReference index ∈ ps) :
    Numbered ts := by
  induction reads with
  | finish => simp at member
  | part next applied more ih =>
    rcases List.mem_cons.mp member with rfl | later
    · exact Reader.part_numbered next
    · obtain ⟨c, rest, f, i, rest', suffix, found⟩ := ih later
      exact ⟨c, rest, f, i, rest', suffix.trans (Reader.part_append next).1.suffix, found⟩

end

/-- Groups are numbered from one in the order in which they open. -/
structure Counted (r : Reading) : Prop where
  names : ∀ entry ∈ r.groups.names, 0 < entry.2 ∧ entry.2 ≤ r.groups.count
  widths : ∀ entry ∈ r.groups.widths, entry.1 ≤ r.groups.count
  openers : ∀ opener ∈ (r.level :: r.outer).map (·.opener), ∀ index,
    opener = .capture index → index ≤ r.groups.count

namespace Counted

theorem start (flags : Flags) : Counted (.start flags) where
  names := by simp [Reading.start]
  widths := by simp [Reading.start]
  openers := by simp [Reading.start, Level.opened]

/-- Only the groups and the openers count. -/
theorem congr (counted : Counted r) (groups : r'.groups = r.groups)
    (openers : (r'.level :: r'.outer).map (·.opener) = (r.level :: r.outer).map (·.opener)) :
    Counted r' where
  names := by rw [groups]; exact counted.names
  widths := by rw [groups]; exact counted.widths
  openers := by rw [groups, openers]; exact counted.openers

theorem enter (counted : Counted r) (flags : Flags)
    (bounded : ∀ index, opener = .capture index → index ≤ r.groups.count) :
    Counted (r.enter opener flags) where
  names := counted.names
  widths := counted.widths
  openers := by
    simp only [Reading.enter, Level.opened, List.map_cons, List.mem_cons]
    rintro opener' (rfl | member)
    · exact bounded
    · exact counted.openers opener' (by simpa using member)

theorem capture (counted : Counted r) (h : r.capture name = .ok r') : Counted r' := by
  have more : ∀ names, (∀ entry ∈ names, 0 < entry.2 ∧ entry.2 ≤ r.groups.count + 1) →
      Counted ({ r with groups := { r.groups with count := r.groups.count + 1, names } }.enter
        (.capture (r.groups.count + 1)) r.flags) := by
    intro names bounded
    refine Counted.enter ⟨bounded, fun entry member => ?_, fun opener member index same => ?_⟩ _ ?_
    · exact Nat.le_succ_of_le (counted.widths entry member)
    · exact Nat.le_succ_of_le (counted.openers opener member index same)
    · rintro index same
      cases same
      exact Nat.le_refl _
  have old : ∀ entry ∈ r.groups.names, 0 < entry.2 ∧ entry.2 ≤ r.groups.count + 1 :=
    fun entry member =>
      ⟨(counted.names entry member).1, Nat.le_succ_of_le (counted.names entry member).2⟩
  simp only [Reading.capture] at h
  split at h
  · obtain rfl := Except.ok.inj h
    exact more _ old
  · split at h
    · simp at h
    · obtain rfl := Except.ok.inj h
      refine more _ fun entry member => ?_
      rcases List.mem_cons.mp member with rfl | member
      · exact ⟨Nat.succ_pos _, Nat.le_refl _⟩
      · exact old entry member

theorem leave (counted : Counted r) (h : r.leave? = some r') : Counted r' := by
  simp only [Reading.leave?] at h
  split at h
  · simp at h
  · next level outer same =>
    have back : ∀ groups, groups.count = r.groups.count → groups.names = r.groups.names →
        (∀ entry ∈ groups.widths, entry.1 ≤ r.groups.count) →
        Counted { r with level, outer, groups } := by
      intro groups count names widths
      refine ⟨by simpa only [count, names] using counted.names, by simpa only [count] using widths, ?_⟩
      intro opener member
      rw [count]
      exact counted.openers opener (by rw [List.map_cons, same]; exact List.mem_cons_of_mem _ member)
    have same := back r.groups rfl rfl counted.widths
    cases opener : r.level.opener with
    | capture index =>
      simp only [opener, Option.some.injEq] at h
      subst h
      refine (back ⟨_, _, (index, r.level.node.width r.groups.width) :: r.groups.widths⟩ rfl rfl
        fun entry member => ?_).congr rfl rfl
      rcases List.mem_cons.mp member with rfl | member
      · exact counted.openers _ (List.mem_cons_self) index opener
      · exact counted.widths entry member
    | look behind negated =>
      cases behind with
      | false =>
        simp only [opener, Option.some.injEq] at h
        exact h ▸ same.congr rfl rfl
      | true =>
        simp only [opener] at h
        split at h
        all_goals exact Option.some.inj h ▸ same.congr rfl rfl
    | plain | scope | atomic | condition index =>
      simp only [opener, Option.some.injEq] at h
      exact h ▸ same.congr rfl rfl

theorem apply {p : Part} (counted : Counted r) (h : p.apply r = .ok r') : Counted r' := by
  have opened : ∀ {opener}, (∀ index, opener ≠ .capture index) → ∀ flags,
      Counted (r.enter opener flags) :=
    fun plain flags => counted.enter flags fun index same => absurd same (plain index)
  have condition : ∀ {index}, r.condition index = .ok r' → Counted r' := by
    intro index h
    simp only [Reading.condition] at h
    split at h
    · have kept : Counted { r with expected := max r.expected index } := counted.congr rfl rfl
      exact Except.ok.inj h ▸ kept.enter _ (by simp)
    · simp at h
  have refer : ∀ {index}, r.refer index = .ok r' → Counted r' := by
    intro index h
    simp only [Reading.refer] at h
    split at h
    · exact Except.ok.inj h ▸ counted.congr rfl rfl
    · simp at h
  cases p with
  | nothing => exact Except.ok.inj h ▸ counted
  | chars set | anchor place => exact Except.ok.inj h ▸ counted.congr rfl rfl
  | loop repetition manner =>
    simp only [Part.apply, Reading.loop] at h
    split at h
    · split at h
      all_goals exact Except.ok.inj h ▸ counted.congr rfl rfl
    · simp at h
  | alternative =>
    simp only [Part.apply, Reading.alternate] at h
    split at h
    · simp at h
    · exact Except.ok.inj h ▸ counted.congr rfl rfl
  | plainGroup | atomicGroup | look behind negated | scope added removed =>
    exact Except.ok.inj h ▸ opened (by simp) _
  | capture name => exact counted.capture h
  | condition name =>
    simp only [Part.apply] at h
    split at h
    · exact condition h
    · simp at h
  | numberedReference index => exact refer h
  | namedReference name =>
    simp only [Part.apply] at h
    split at h
    · exact refer h
    · simp at h
  | flags added =>
    simp only [Part.apply, Reading.setFlags] at h
    split at h
    · exact Except.ok.inj h ▸ counted.congr rfl rfl
    · simp at h
  | close =>
    simp only [Part.apply] at h
    split at h
    · next left => exact counted.leave (Except.ok.inj h ▸ left)
    · simp at h

end Counted

theorem Reads.counted [CharacterNames] (reads : Reads ts r ps final) (counted : Counted r) :
    Counted final := by
  induction reads with
  | finish => exact counted
  | part next applied more ih => exact ih (counted.apply applied)

end TokenRules.Pattern
