import TokenRules.Proofs.Pattern.Inside
import TokenRules.Proofs.Scan.LeadingFlags

/-! A rule's source, with what it takes to be an alternative. The flags at its start are read alone as they
are scoped in the alternative. A source is refused if a part refers to a group by its number, or if brackets
or a comment hold what would be such a reference. -/
namespace TokenRules.RulePattern

open Pattern

theorem hasNumberedReference_cons (plain : c ≠ Sign.backslash) (source : Text) :
    hasNumberedReference (c :: source) = hasNumberedReference source := by
  rw [hasNumberedReference]
  rintro d rest rfl
  exact absurd rfl plain

/-- Flags refer to no group. -/
theorem hasNumberedReference_strip (letters source : Text) :
    hasNumberedReference (stripFlags letters source).2 = hasNumberedReference source := by
  fun_induction stripFlags letters source with
  | case1 => rfl
  | case2 letters source more rest leading ih =>
    obtain ⟨rfl, -, flag⟩ := leadingFlags_eq leading
    have passed : ∀ letters : Text, (∀ c ∈ letters, isFlagLetter c) → ∀ source,
        hasNumberedReference (letters ++ source) = hasNumberedReference source := by
      intro letters flag source
      induction letters with
      | nil => rfl
      | cons c letters ih =>
        obtain ⟨first, others⟩ := List.forall_mem_cons.mp flag
        have plain : c ≠ Sign.backslash := by
          rintro rfl
          exact absurd first (by decide)
        rw [List.cons_append, hasNumberedReference_cons plain, ih others]
    rw [ih, hasNumberedReference_cons (by decide), hasNumberedReference_cons (by decide), passed more flag,
      hasNumberedReference_cons (by decide)]

/-- The letters of the flags that an alternative turns on. -/
def scopedFlags : RulePattern → Text
  | .compiled pattern => pattern.flags.scopedLetters
  | _ => []

theorem scopedFlags_letters (rule : RulePattern) :
    ∀ c ∈ rule.scopedFlags, isFlagLetter c ∧ (Flag.ofLetter? c).isSome := by
  have letters : ∀ f : Flags, ∀ c ∈ f.scopedLetters, isFlagLetter c ∧ (Flag.ofLetter? c).isSome := by
    rintro ⟨i, m, s, x, a, u, t⟩
    revert i m s x a u t
    decide
  cases rule with
  | compiled pattern => exact letters pattern.flags
  | source | bytes | foreign => simp [scopedFlags]

theorem alternative_eq {rule : RulePattern} (h : rule.alternative = .ok alt) :
    hasNumberedReference (stripFlags rule.scopedFlags rule.given).2 = false ∧
      alt = underFlags (stripFlags rule.scopedFlags rule.given).1
        (stripFlags rule.scopedFlags rule.given).2 := by
  cases rule with
  | source text | compiled pattern =>
    simp only [RulePattern.alternative] at h
    split at h
    · simp at h
    · next accepted => exact ⟨eq_false_of_ne_true accepted, (Except.ok.inj h).symm⟩
  | bytes | foreign => simp [RulePattern.alternative] at h

variable [CharacterNames]

/-- A rule's pattern compiled by itself, under flags of its own. -/
inductive Compiles : RulePattern → Flags → Pattern → Prop
  | source (compiled : Pattern.compile text {} = .ok p) : Compiles (.source text) {} p
  | compiled (compiled : Pattern.compile p.source f = .ok p) : Compiles (.compiled p) f p

/-- Whether a part, if it is a condition, goes by the name of a group and not by its number. -/
def namesCondition : Part → Bool
  | .condition name => Text.isIdentifier name
  | _ => true

/-- No condition in a rule's pattern goes by the number of a group. -/
def NamesConditions (rule : RulePattern) (f : Flags) : Prop :=
  (Reader.parts (Token.ofText rule.given) (.start f)).all namesCondition

instance (rule : RulePattern) (f : Flags) : Decidable (rule.NamesConditions f) :=
  inferInstanceAs (Decidable (_ = true))

/-- A part of a rule's pattern refers to a group by its number. -/
def RefersByNumber (rule : RulePattern) (f : Flags) : Prop :=
  ∃ index, .numberedReference index ∈ Reader.parts (Token.ofText rule.given) (.start f)

/-- In brackets or in a comment of a rule's pattern stands what would be a reference by number if a part
started there. -/
def HidesReference (rule : RulePattern) (f : Flags) : Prop :=
  ∃ step ∈ Reader.steps (Token.ofText rule.given) (.start f), step.Covers ∧
    ∃ ts, step.Holds ts ∧ StartsReference ts

/-- A rule's pattern sets flags that are not among those at its start, or that no group can turn on. -/
def SetsFlagsLate (rule : RulePattern) (f : Flags) : Prop :=
  ∃ added, .flags added ∈ (Reader.parts (Token.ofText rule.given) (.start f)).dropWhile isScopable

/-- In a look-behind of a rule's pattern a condition goes by the number of a group. -/
def CountsBehind (rule : RulePattern) (f : Flags) : Prop :=
  ∃ step ∈ Reader.steps (Token.ofText rule.given) (.start f),
    namesCondition step.part = false ∧ step.reading.level.limit ≠ none

instance (rule : RulePattern) (f : Flags) : Decidable (rule.CountsBehind f) :=
  inferInstanceAs (Decidable (∃ step ∈ _, _ ∧ _))

theorem Compiles.reads {rule : RulePattern} (compiles : rule.Compiles f p) :
    ∃ last, Reads (Token.ofText rule.given) (.start f)
        (Reader.parts (Token.ofText rule.given) (.start f)) last ∧
      p.node = last.level.node ∧ p.names = last.groups.names ∧ p.flags = last.flags := by
  have opened : ∀ {text p}, Pattern.compile text f = .ok p → ∃ last,
      Reads (Token.ofText text) (.start f) (Reader.parts (Token.ofText text) (.start f)) last ∧
        p.node = last.level.node ∧ p.names = last.groups.names ∧ p.flags = last.flags := by
    intro text p compiled
    obtain ⟨last, read, rfl⟩ := compile_eq_ok.mp compiled
    exact ⟨last, reads_parts read, rfl, rfl, rfl⟩
  cases compiles with
  | source compiled => exact opened compiled
  | compiled compiled => exact opened compiled

/-- Besides its references, the search finds in a pattern what stands in brackets and in comments. -/
theorem Compiles.numbered_iff {rule : RulePattern} (compiles : rule.Compiles f p) :
    hasNumberedReference rule.given ↔ rule.RefersByNumber f ∨ rule.HidesReference f := by
  obtain ⟨last, reads, -⟩ := compiles.reads
  rw [hasNumberedReference_iff]
  constructor
  · intro numbered
    obtain ⟨ts, suffix, starts⟩ := numbered_iff_suffix.mp numbered
    obtain ⟨c, rest, _, _, _, rfl, -⟩ := id starts
    obtain ⟨step, member, read | ⟨covers, holds⟩⟩ := reads.inside (.start f) suffix
    · obtain ⟨-, t, us, tokens, next⟩ := reads.step member
      obtain ⟨rfl, rfl⟩ := List.cons.inj (tokens.symm.trans read)
      obtain ⟨index, after, next'⟩ := part_of_startsReference starts step.reading.flags
      obtain ⟨same, -⟩ := Prod.mk.inj (Except.ok.inj (next.symm.trans next'))
      refine .inl ⟨index, ?_⟩
      rw [Reader.parts_eq, ← same]
      exact List.mem_map_of_mem member
    · exact .inr ⟨step, member, covers, _, holds, starts⟩
  · rintro (⟨index, member⟩ | ⟨step, member, -, ts, ⟨suffix, -⟩, starts⟩)
    · exact reads.numbered member
    · exact numbered_iff_suffix.mpr
        ⟨ts, suffix.trans ((List.tail_suffix _).trans (reads.step member).1), starts⟩

/-- A rule that compiles by itself is refused only for a reference by number. -/
theorem Compiles.alternative {rule : RulePattern} (compiles : rule.Compiles f p) : rule.alternative =
    if hasNumberedReference rule.given then .error .numberedReference
    else .ok (underFlags (stripFlags rule.scopedFlags rule.given).1
      (stripFlags rule.scopedFlags rule.given).2) := by
  rw [← hasNumberedReference_strip rule.scopedFlags]
  cases compiles <;> rfl

/-- A rule's source without the flags at its start, read alone, and the letters of those flags. -/
structure Stripped (rule : RulePattern) (f : Flags) (p : Pattern) (front rest : Text)
    (r last : Reading) : Prop where
  reads : Reads (Token.ofText rest) r (Reader.parts (Token.ofText rest) r) last
  first : ∀ part ∈ (Reader.parts (Token.ofText rest) r).head?, isScopable part = false
  taken : ∃ taken, Reader.steps (Token.ofText rule.given) (.start f) =
    taken ++ Reader.steps (Token.ofText rest) r ∧ ∀ step ∈ taken, isScopable step.part
  start : ∃ added, r = (Reading.start f).withFlags (f.union added) ∧
    Flags.ofLetters front = (Flags.ofLetters rule.scopedFlags).union added
  letters : ∀ c ∈ front, isFlagLetter c ∧ (Flag.ofLetter? c).isSome
  node : p.node = last.level.node
  names : p.names = last.groups.names
  flags : p.flags = last.flags

theorem Compiles.stripped {rule : RulePattern} (compiles : rule.Compiles f p) :
    ∃ r last, Stripped rule f p (stripFlags rule.scopedFlags rule.given).1
      (stripFlags rule.scopedFlags rule.given).2 r last := by
  obtain ⟨last, reads, node, names, flags⟩ := compiles.reads
  obtain ⟨added, ps, reads', taken, first, letters, flag⟩ := reads_strip rule.scopedFlags reads rfl
  obtain rfl := reads'.parts_eq
  exact ⟨_, last, reads', first, taken, ⟨added, rfl, letters⟩,
    fun c member => (flag c member).elim (scopedFlags_letters rule c) id, node, names, flags⟩

namespace Stripped

/-- The parts of a source are the flags at its start and those of the rest. -/
theorem parts (stripped : Stripped rule f p front rest r last) : ∃ flags,
    Reader.parts (Token.ofText rule.given) (.start f) = flags ++ Reader.parts (Token.ofText rest) r ∧
      ∀ part ∈ flags, isScopable part := by
  obtain ⟨taken, steps, scopable⟩ := stripped.taken
  refine ⟨taken.map (·.part), ?_, List.forall_mem_map.mpr scopable⟩
  rw [Reader.parts_eq, Reader.parts_eq, steps, List.map_append]

/-- The flags that are set late are those that the rest sets. -/
theorem late_iff (stripped : Stripped rule f p front rest r last) :
    rule.SetsFlagsLate f ↔ ∃ added, .flags added ∈ Reader.parts (Token.ofText rest) r := by
  obtain ⟨flags, parts, scopable⟩ := stripped.parts
  have first := stripped.first
  rw [SetsFlagsLate, parts, List.dropWhile_append_of_pos scopable]
  cases same : Reader.parts (Token.ofText rest) r with
  | nil => rfl
  | cons part parts =>
    have other : isScopable part = false := first part (by rw [same, List.head?_cons]; rfl)
    rw [List.dropWhile_cons_of_neg (by simp [other])]

theorem flagLetters (stripped : Stripped rule f p front rest r last) : ∀ c ∈ front, isFlagLetter c :=
  fun c member => (stripped.letters c member).1

theorem counted (stripped : Stripped rule f p front rest r last) : Counted last := by
  obtain ⟨added, rfl, -⟩ := stripped.start
  exact stripped.reads.counted ((Counted.start f).congr rfl rfl)

/-- The flags in front are those of the pattern, if it was compiled before, and those taken off. -/
theorem front_core (stripped : Stripped rule f p front rest r last) (compiles : rule.Compiles f p) :
    ∃ added, r.flags = f.union added ∧ r.baseFlags = f.union added ∧
      (f = {} ∧ Flags.ofLetters front = added ∨ Flags.ofLetters front = last.flags.core.union added) := by
  obtain ⟨added, rfl, letters⟩ := stripped.start
  refine ⟨added, rfl, Reading.baseFlags_withFlags rfl _, ?_⟩
  cases compiles with
  | source => exact .inl ⟨rfl, letters⟩
  | compiled =>
    refine .inr ?_
    rw [letters, ← stripped.flags]
    exact congrArg (Flags.union · added) (Flags.ofLetters_scopedLetters p.flags)

/-- In the alternative no part of the rest sets flags of the whole pattern. -/
theorem unset {s : Reading} (stripped : Stripped rule f p front rest r last) (compiles : rule.Compiles f p)
    (scope : s.flags.core = (Flags.ofLetters front).core) (nested : s.outer ≠ [])
    (spliced : Reader.read (Token.ofText rest ++ guarded lined more) s = .ok final) :
    ∀ added, .flags added ∉ Reader.parts (Token.ofText rest) r := by
  obtain ⟨added, own, base, front⟩ := stripped.front_core compiles
  refine stripped.reads.unset_of_splice ?_ nested (fun verbose => ?_) spliced
  · obtain ⟨added, rfl, -⟩ := stripped.start
    rfl
  · change s.flags.core.verbose = true
    rw [own] at verbose
    rw [scope]
    rcases front with ⟨rfl, same⟩ | same
    · rwa [same]
    · have kept := stripped.reads.verbose (by rwa [base])
      rw [same]
      exact Bool.or_eq_true_iff.mpr (.inl kept)

/-- The flags scoped in the alternative are those of the pattern itself, as far as they matter. -/
theorem core (stripped : Stripped rule f p front rest r last) (compiles : rule.Compiles f p)
    (unset : ∀ added, .flags added ∉ Reader.parts (Token.ofText rest) r) :
    (Flags.ofLetters front).core = r.flags.core := by
  obtain ⟨added, own, base, front⟩ := stripped.front_core compiles
  rcases front with ⟨rfl, same⟩ | same
  · rw [own, same]
    rfl
  · have stays := stripped.reads.flags_of_unset unset
    rw [same, stays, base, own]
    simp only [Flags.core, Flags.union, Bool.or_assoc, Bool.or_self]

/-- The flags in front go together as those of the pattern do. -/
theorem compatible (stripped : Stripped rule f p front rest r last) (compiles : rule.Compiles f p)
    (unset : ∀ added, .flags added ∉ Reader.parts (Token.ofText rest) r) :
    ((Flags.ofLetters front).ascii && (Flags.ofLetters front).unicode) = false := by
  obtain ⟨added, -, base, front⟩ := stripped.front_core compiles
  have stays := (stripped.reads.flags_of_unset unset).trans base
  obtain ⟨-, -, conflict, -⟩ := Reader.finish_ok_iff.mp stripped.reads.finished
  have whole : (last.flags.ascii && last.flags.unicode) = false := by
    simpa [Reading.conflict?] using conflict
  rcases front with ⟨rfl, same⟩ | same
  · rw [stays] at whole
    rw [same]
    exact whole
  · rw [same, stays]
    rw [stays] at whole
    simp only [Flags.union, Flags.core] at whole ⊢
    grind

end Stripped

end TokenRules.RulePattern
