import TokenRules.Proofs.Pattern.Splice

/-! The start of a source, where flags can be set for the whole pattern. Once a part has been read that
means anything the flags of the pattern stay, and in the midst of a larger source none can be set. -/
namespace TokenRules.Pattern

namespace Reading

/-- Nothing has been read yet that means anything. -/
def isOpening (r : Reading) : Bool :=
  r.outer.isEmpty && r.level.isFresh

/-- The flags of the whole pattern. -/
def baseFlags (r : Reading) : Flags :=
  ((r.level :: r.outer).getLast (by simp)).flags

theorem baseFlags_of_nil {r : Reading} (outer : r.outer = []) : r.baseFlags = r.flags := by
  cases r
  cases outer
  rfl

/-- The reading with other flags in effect. -/
def withFlags (r : Reading) (flags : Flags) : Reading :=
  { r with level := { r.level with flags } }

theorem baseFlags_withFlags {r : Reading} (outer : r.outer = []) (flags : Flags) :
    (r.withFlags flags).baseFlags = flags :=
  baseFlags_of_nil outer

/-- Whether a reading has come past the start, without a change of the pattern's flags. -/
structure Passed (r r' : Reading) : Prop where
  passed : r'.isOpening = false
  flags : r'.baseFlags = r.baseFlags

theorem Passed.of_level {r r' : Reading} (outer : r'.outer = r.outer)
    (flags : r'.level.flags = r.level.flags) (used : r'.level.isFresh = false) : Passed r r' where
  passed := by simp [isOpening, used]
  flags := by
    cases r with | mk level levels =>
    cases r' with | mk level' levels' =>
    obtain rfl := outer
    cases levels' with
    | nil => exact flags
    | cons => rfl

theorem Passed.of_outer {r r' : Reading} (outer : r'.outer = r.level :: r.outer) : Passed r r' where
  passed := by simp [isOpening, outer]
  flags := by
    simp only [baseFlags, outer]
    rw [List.getLast_cons]

theorem passed_refer {r : Reading} (h : r.refer index = .ok r') : Passed r r' := by
  simp only [refer] at h
  split at h
  · obtain rfl := Except.ok.inj h
    exact .of_level rfl rfl (by simp [add, Level.add, Level.isFresh])
  · simp at h

/-- Leaving a group adds an item to the level around it. -/
theorem leave_level {r : Reading} (h : r.leave? = some r') :
    ∃ item, r.outer = { r'.level with items := r'.level.items.tail } :: r'.outer ∧
      r'.level.items.head? = some item := by
  simp only [leave?] at h
  split at h
  · simp at h
  · next level outer same =>
    rw [same]
    split at h
    case h_7 =>
      split at h
      all_goals
        obtain rfl := Option.some.inj h
        exact ⟨_, rfl, rfl⟩
    all_goals
      obtain rfl := Option.some.inj h
      exact ⟨_, rfl, rfl⟩

theorem passed_leave {r : Reading} (h : r.leave? = some r') : Passed r r' := by
  obtain ⟨item, outer, head⟩ := leave_level h
  refine ⟨?_, ?_⟩
  · cases items : r'.level.items with
    | nil => simp [items] at head
    | cons => simp [isOpening, Level.isFresh, items]
  · cases r with | mk level levels =>
    cases r' with | mk level' levels' =>
    obtain rfl := outer
    cases levels' <;> rfl

end Reading

namespace Part

theorem apply_flags {r : Reading} (opening : r.isOpening) (added : Flags) :
    (flags added).apply r = .ok (r.withFlags (r.flags.union added)) :=
  if_pos opening

/-- What a part does to the flags of the whole pattern. -/
theorem apply_passed {p : Part} (h : p.apply r = .ok r') :
    p = .nothing ∧ r' = r ∨
      (∃ added, p = .flags added ∧ r.isOpening ∧
        r' = r.withFlags (r.flags.union added)) ∨
      r.Passed r' := by
  cases p with
  | nothing => exact .inl ⟨rfl, (Except.ok.inj h).symm⟩
  | flags added =>
    simp only [apply, Reading.setFlags] at h
    split at h
    · next opening => exact .inr (.inl ⟨added, rfl, opening, (Except.ok.inj h).symm⟩)
    · simp at h
  | chars set | anchor place =>
    obtain rfl := Except.ok.inj h
    exact .inr (.inr (.of_level rfl rfl (by simp [Reading.add, Level.add, Level.isFresh])))
  | loop repetition manner =>
    simp only [apply, Reading.loop] at h
    split at h
    · obtain rfl := Except.ok.inj h
      refine .inr (.inr (.of_level ?_ ?_ ?_)) <;> split <;> simp [Reading.defer, Level.isFresh]
    · simp at h
  | alternative =>
    simp only [apply, Reading.alternate] at h
    split at h
    · simp at h
    · obtain rfl := Except.ok.inj h
      exact .inr (.inr (.of_level rfl rfl (by simp [Level.alternate, Level.isFresh])))
  | plainGroup | atomicGroup | look behind negated | scope added removed =>
    obtain rfl := Except.ok.inj h
    exact .inr (.inr (.of_outer rfl))
  | capture name =>
    simp only [apply, Reading.capture] at h
    split at h
    · obtain rfl := Except.ok.inj h
      exact .inr (.inr (.of_outer rfl))
    · split at h
      · simp at h
      · obtain rfl := Except.ok.inj h
        exact .inr (.inr (.of_outer rfl))
  | condition name =>
    simp only [apply, Reading.condition] at h
    split at h
    · split at h
      · obtain rfl := Except.ok.inj h
        exact .inr (.inr (.of_outer rfl))
      · simp at h
    · simp at h
  | numberedReference index => exact .inr (.inr (Reading.passed_refer h))
  | namedReference name =>
    simp only [apply] at h
    split at h
    · exact .inr (.inr (Reading.passed_refer h))
    · simp at h
  | close =>
    simp only [apply] at h
    split at h
    · next left => exact .inr (.inr (Reading.passed_leave (Except.ok.inj h ▸ left)))
    · simp at h

/-- Flags are set only at the start, and leave a reading there. -/
theorem unset_of_passed {p : Part} (applied : p.apply r = .ok r') (passed : r'.isOpening = false)
    (added : Flags) : p ≠ .flags added := by
  rintro rfl
  simp only [apply, Reading.setFlags] at applied
  split at applied
  · next opening =>
    obtain rfl := Except.ok.inj applied
    exact Bool.false_ne_true (passed.symm.trans opening)
  · contradiction

end Part

variable [CharacterNames]

/-- Flags of the whole pattern are never taken back. -/
theorem Reads.verbose (reads : Reads ts r ps final) (verbose : r.baseFlags.verbose) :
    final.flags.verbose := by
  induction reads with
  | finish finished =>
    rwa [Reading.baseFlags_of_nil (Reader.finish_outer finished)] at verbose
  | part next applied more ih =>
    apply ih
    rcases Part.apply_passed applied with ⟨-, rfl⟩ | ⟨added, -, opening, rfl⟩ | passed
    · exact verbose
    · simp only [Reading.isOpening, Bool.and_eq_true, List.isEmpty_iff] at opening
      rw [Reading.baseFlags_of_nil opening.1] at verbose
      rw [Reading.baseFlags_withFlags opening.1]
      exact Bool.or_eq_true_iff.mpr (.inl verbose)
    · rwa [passed.flags]

/-- Past the start no part sets flags of the whole pattern. -/
theorem Reads.unset_of_passed (reads : Reads ts r ps final) (passed : r.isOpening = false) :
    ∀ added, .flags added ∉ ps := by
  induction reads with
  | finish => simp
  | @part r t ts p rest r' ps final next applied more ih =>
    have later : r'.isOpening = false := by
      rcases Part.apply_passed applied with ⟨-, rfl⟩ | ⟨-, -, opening, -⟩ | later
      · exact passed
      · simp [passed] at opening
      · exact later.passed
    intro added
    rw [List.mem_cons, not_or]
    exact ⟨Ne.symm (Part.unset_of_passed applied later added), ih later added⟩

/-- The flags of the pattern stay if no part sets any. -/
theorem Reads.flags_of_unset (reads : Reads ts r ps final) (unset : ∀ added, .flags added ∉ ps) :
    final.flags = r.baseFlags := by
  induction reads with
  | finish finished => rw [Reading.baseFlags_of_nil (Reader.finish_outer finished)]
  | part next applied more ih =>
    have rest := ih fun added member => unset added (List.mem_cons_of_mem _ member)
    rcases Part.apply_passed applied with ⟨-, rfl⟩ | ⟨added, rfl, -⟩ | later
    · exact rest
    · exact absurd List.mem_cons_self (unset added)
    · rw [rest, later.flags]

namespace Reader

/-- A skipped part and flags start with a parenthesis, or they are skipped for being verbose. -/
theorem item_paren (skipped : p = .nothing ∨ ∃ added, p = .flags added)
    (h : item f c ts = .ok (p, rest)) : c = Sign.leftParen := by
  have loops : ∀ repetition, loop repetition ts ≠ .ok (p, rest) := by
    intro repetition h
    simp only [loop] at h
    grind
  have braces : brace f ts ≠ .ok (p, rest) := by
    intro h
    simp only [brace, loop, Part.atom] at h
    grind
  simp only [item, bracket, Except.map, Part.atom] at h
  grind

theorem part_paren (f : Flags) (ts : List Token) :
    part f (.plain Sign.leftParen) ts = group ts := by
  cases verbose : f.verbose <;> simp only [part, plain, verbose] <;> rfl

/-- A part that is passed over reads the same under flags that skip at least as much. -/
theorem part_opening (skipped : p = .nothing ∨ ∃ added, p = .flags added)
    (h : part f t ts = .ok (p, rest)) (verbose : f.verbose → g.verbose) :
    part g t ts = .ok (p, rest) := by
  by_cases paren : t = .plain Sign.leftParen
  · subst paren
    rwa [part_paren] at h ⊢
  · cases t with
    | dangling => simp [part] at h
    | escaped c =>
      simp only [part, escape, reference, Except.map, Part.atom] at h
      grind
    | plain c =>
      have noItem : item f c ts ≠ .ok (p, rest) := fun read => paren (by rw [item_paren skipped read])
      simp only [part, plain] at h ⊢
      grind

end Reader

/-- If a source reads in the midst of a larger one, no part of it sets flags of the whole pattern. -/
theorem Reads.unset_of_splice (reads : Reads ts r ps final) (opening : r.isOpening)
    (nested : s.outer ≠ []) (verbose : r.flags.verbose → s.flags.verbose)
    (spliced : Reader.read (ts ++ guarded lined more) s = .ok final') : ∀ added, .flags added ∉ ps := by
  induction reads with
  | finish => simp
  | part next applied later ih =>
    obtain ⟨p', rest', s', next', applied', spliced'⟩ := Reader.read_cons_ok spliced
    have append := (Reader.part_append next).2 _ (stops_guarded lined more)
    rcases Part.apply_passed applied with ⟨rfl, rfl⟩ | ⟨set, rfl, -, rfl⟩ | passed
    · intro added
      rw [List.mem_cons, not_or]
      refine ⟨by simp, ?_⟩
      rcases append with same | ⟨-, rfl, -, -⟩
      · have same := Reader.part_opening (.inl rfl) same verbose
        obtain ⟨rfl, rfl⟩ := Prod.mk.inj (Except.ok.inj (same.symm.trans next'))
        obtain rfl := Except.ok.inj applied'
        exact ih opening verbose spliced' added
      · cases later with
        | finish => simp
    · rcases append with same | ⟨skipped, -⟩
      · have same := Reader.part_opening (.inr ⟨set, rfl⟩) same verbose
        obtain ⟨rfl, rfl⟩ := Prod.mk.inj (Except.ok.inj (same.symm.trans next'))
        simp [Part.apply, Reading.setFlags, nested] at applied'
      · simp at skipped
    · have unset := later.unset_of_passed passed.passed
      intro added
      rw [List.mem_cons, not_or]
      exact ⟨Ne.symm (Part.unset_of_passed applied passed.passed added), unset added⟩

end TokenRules.Pattern
