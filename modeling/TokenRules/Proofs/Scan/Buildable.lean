import TokenRules.Proofs.Pattern.Embedding
import TokenRules.Proofs.Scan.Alternation

/-! Rules that an engine can be built of. A pattern that compiles by itself can be an alternative beside any
others, in any order, if it refers to no group by a number, sets flags only where they are taken off, and no
two groups get one name. A pattern that sets flags elsewhere cannot. -/
namespace TokenRules

open Pattern

theorem lookup_none {names : List (Text × Nat)} (absent : name ∉ names.map (·.1)) :
    names.lookup name = none := by
  rw [List.lookup_eq_none_iff]
  intro entry member
  rw [bne_iff_ne]
  rintro rfl
  exact absent (List.mem_map_of_mem member)

namespace Pattern

/-- A closing parenthesis leaves the group that is open. -/
theorem read_leave [CharacterNames] {s : Reading} (left : s.leave? = some s') (more : List Token) :
    Reader.read (.plain Sign.rightParen :: more) s = Reader.read more s' := by
  have closes : Reader.part s.flags (.plain Sign.rightParen) more = .ok (.close, more) := rfl
  rw [Reader.read_cons, closes]
  simp only [Except.bind, Part.apply, left]

/-- Nothing that has been read stands against the end of a source. -/
structure Clear (s : Reading) : Prop where
  deferred : s.deferred = false
  expected : s.expected ≤ s.groups.count

/-- A group that has just been opened, in which an alternative can be read. -/
structure Room (s : Reading) : Prop where
  fresh : s.level = .opened s.level.opener s.flags none
  nested : s.outer ≠ []
  unconditional : ∀ index, s.level.opener ≠ .condition index
  untemplated : ∀ f ∈ (s.level :: s.outer).map (·.flags), f.template = false
  earlier : ∀ entry ∈ s.groups.widths, entry.1 < s.groups.count
  clear : Clear s

theorem Room.scope {s : Reading} (room : Room s) (added removed : Flags) :
    Room (s.enter .scope (s.flags.within added removed)) := by
  have limit : s.level.limit = none := by
    rw [room.fresh]
    rfl
  refine ⟨?_, List.cons_ne_nil _ _, fun _ => Opener.noConfusion, ?_, room.earlier, room.clear.deferred,
    room.clear.expected⟩
  · simp [Reading.enter, Reading.flags, Level.opened, limit]
  · exact List.forall_mem_cons.mpr ⟨(List.forall_mem_cons.mp room.untemplated).1, room.untemplated⟩

end Pattern

namespace RulePattern

variable [CharacterNames]

/-- A rule's pattern that can be an alternative beside any others. -/
structure Fits (rule : RulePattern) (f : Flags) (p : Pattern) : Prop where
  compiles : rule.Compiles f p
  accepted : hasNumberedReference rule.given = false
  early : ¬ rule.SetsFlagsLate f
  ahead : ¬ rule.CountsBehind f

namespace Fits

variable {rule : RulePattern} {f : Flags} {p : Pattern} {front rest : Text} {r last : Reading}

theorem unset (fits : rule.Fits f p) (stripped : Stripped rule f p front rest r last) :
    ∀ added, .flags added ∉ Reader.parts (Token.ofText rest) r :=
  fun added member => fits.early (stripped.late_iff.mpr ⟨added, member⟩)

/-- The parts of the rest can be read among other rules, if the names in it are new. -/
theorem placeable (fits : rule.Fits f p) (stripped : Stripped rule f p front rest r last) {before : Groups}
    (distinct : ∀ name ∈ p.names.map (·.1), name ∉ before.names.map (·.1)) :
    ∀ step ∈ Reader.steps (Token.ofText rest) r, step.Placeable before := by
  intro step member
  obtain ⟨taken, steps, -⟩ := stripped.taken
  have part : step.part ∈ Reader.parts (Token.ofText rest) r := by
    rw [Reader.parts_eq]
    exact List.mem_map_of_mem member
  refine ⟨?_, fun index same => ?_, fun name same counted => ?_⟩
  · cases same : step.part with
    | flags added => exact absurd (same ▸ part) (fits.unset stripped added)
    | capture name =>
      cases name with
      | none => trivial
      | some name =>
        obtain ⟨index, given⟩ := stripped.reads.named (same ▸ part)
        rw [← stripped.names] at given
        exact lookup_none (distinct name (List.mem_map_of_mem given))
    | _ => trivial
  · obtain ⟨flags, parts, -⟩ := stripped.parts
    refine Bool.false_ne_true (fits.accepted.symm.trans (fits.compiles.numbered_iff.mpr (.inl ⟨index, ?_⟩)))
    rw [parts, ← same]
    exact List.mem_append_right flags part
  · refine Decidable.byContradiction fun limited => fits.ahead ⟨step, ?_, ?_, limited⟩
    · rw [steps]
      exact List.mem_append_right taken member
    · rw [same]
      exact counted

/-- In the group of its rule the rest of a source can be read. -/
theorem embeds {s : Reading} (fits : rule.Fits f p) (stripped : Stripped rule f p front rest r last)
    (room : Room s) (scope : s.flags.core = (Flags.ofLetters front).core)
    (distinct : ∀ name ∈ p.names.map (·.1), name ∉ s.groups.names.map (·.1)) (more : List Token) :
    ∃ s' t, Follows s.groups.count s.groups s.level s.outer last t ∧ Recast s' t ∧ Clear t ∧
      t.outer = s.outer ∧ t.level.opener = s.level.opener ∧
      Reader.read (Token.ofText rest ++ guarded s.flags.verbose more) s =
        Reader.read (.plain Sign.rightParen :: more) s' := by
  have core := scope.trans (stripped.core fits.compiles (fits.unset stripped))
  obtain ⟨added, rfl, -⟩ := stripped.start
  have follows : Follows s.groups.count s.groups s.level s.outer
      ((Reading.start f).withFlags (f.union added)) s := by
    refine ⟨.outermost ⟨core, ?_, ?_, ?_⟩ rfl rfl, (Nat.zero_add _).symm, rfl, rfl, room.earlier⟩
    all_goals
      rw [room.fresh]
      rfl
  have sound : Sound s.groups.count ((Reading.start f).withFlags (f.union added)) s :=
    ⟨fun _ => room.clear.deferred, Nat.le_trans room.clear.expected (Nat.le_add_left _ _), room.untemplated⟩
  obtain ⟨s', t, follows', sound', recast, outer, opener, read⟩ := stripped.reads.embeds
    (fits.placeable stripped distinct) room.unconditional room.nested ⟨s, follows, sound, .refl s⟩ more
  obtain ⟨-, -, -, enough, settled⟩ := Reader.finish_ok_iff.mp stripped.reads.finished
  refine ⟨s', t, follows', recast, ⟨sound'.deferred settled, ?_⟩, outer, opener, read⟩
  have expected := sound'.expected
  rw [follows'.groups.count]
  omega

/-- In the group of its rule an alternative reads as the pattern that the rule has by itself, but for the
numbers of its conditions. -/
theorem hosts {s : Reading} (fits : rule.Fits f p) (stripped : Stripped rule f p front rest r last)
    (room : Room s) (bare : s.flags = {})
    (distinct : ∀ name ∈ p.names.map (·.1), name ∉ s.groups.names.map (·.1)) (more : List Token) :
    ∃ s' t, Hosts p s t ∧ Recast s' t ∧ Clear t ∧
      Reader.read (Token.ofText (underFlags front rest) ++ .plain Sign.rightParen :: more) s =
        Reader.read (.plain Sign.rightParen :: more) s' := by
  rw [ofText_underFlags stripped.flagLetters stripped.reads.whole]
  by_cases none : front = []
  · subst none
    have scope : s.flags.core = (Flags.ofLetters []).core := by
      rw [bare]
      rfl
    obtain ⟨s', t, follows, recast, clear, outer, opener, read⟩ :=
      fits.embeds stripped room scope distinct more
    refine ⟨s', t, .of_follows follows stripped.counted stripped.names rfl outer opener ?_ room.earlier,
      recast, clear, ?_⟩
    · rw [follows.stacked.moved.node, stripped.node]
    · rwa [bare] at read
  · have given : front.isEmpty = false := by simpa using none
    simp only [given, Bool.false_eq_true, if_false, List.cons_append, List.append_assoc]
    have inner : (s.flags.within (.ofLetters front) {}).core = (Flags.ofLetters front).core := by
      rw [bare, scoped_core]
    have verbose : (s.flags.within (.ofLetters front) {}).verbose = front.contains 0x78 := by
      rw [bare, scoped_verbose]
    have compatible := stripped.compatible fits.compiles (fits.unset stripped)
    rw [read_scope none stripped.letters compatible, guarded_append, List.nil_append, ← verbose]
    obtain ⟨s₁, t₁, follows, recast, clear, outer, opener, read⟩ :=
      fits.embeds stripped (room.scope _ _) inner distinct (.plain Sign.rightParen :: more)
    obtain ⟨left, hosts⟩ := stripped.unscope (s := s) follows outer opener room.fresh room.earlier
    obtain ⟨s', left', recast'⟩ := recast.leave left
    refine ⟨s', _, hosts, recast', ⟨clear.deferred, clear.expected⟩, ?_⟩
    rw [← read_leave left']
    exact read

end Fits

end RulePattern

namespace Engine

theorem isIdentifier_groupName (index : Nat) : Text.isIdentifier (groupName index) = true := by
  have letters : ∀ c ∈ Text.ofString "ule_", Text.isIdentifierContinue c = true := by decide
  have digits : ∀ c ∈ Text.decimal index, Text.isIdentifierContinue c = true := by
    intro c member
    have digit := Text.decimal_digits index c member
    rw [Text.isAsciiDigit] at digit
    refine Bool.or_eq_true_iff.mpr (.inr (List.any_eq_true.mpr ⟨(0x30, 0x39), ?_, digit⟩))
    rw [Text.identifierContinueExtras]
    exact List.mem_cons_self
  have first : Text.isIdentifierStart 0x72 = true := by decide
  have name : groupName index = 0x72 :: (Text.ofString "ule_" ++ Text.decimal index) := rfl
  rw [name, Text.isIdentifier, first, Bool.true_and, List.all_append, Bool.and_eq_true]
  exact ⟨List.all_eq_true.mpr letters, List.all_eq_true.mpr digits⟩

theorem capture_new {s : Reading} (new : s.groups.names.lookup name = none) :
    s.capture (some name) = .ok (entered s name) := by
  simp only [Reading.capture, new]
  rfl

/-- What the group of a rule with pattern `p` adds to a reading between two alternatives. -/
structure Added (name : Text) (p : Pattern) (s s' : Reading) : Prop where
  between : Between s'
  clear : Clear s'
  names : s'.groups.names.map (·.1) = p.names.map (·.1) ++ name :: s.groups.names.map (·.1)

theorem Between.room {s : Reading} (between : Between s) (clear : Clear s) (name : Text) :
    Room (entered s name) := by
  have flags : s.level.flags = {} := between.flags
  refine ⟨?_, List.cons_ne_nil _ _, fun _ => Opener.noConfusion, ?_,
    fun entry member => Nat.lt_succ_of_le (between.counted.widths entry member), clear.deferred,
    Nat.le_succ_of_le clear.expected⟩
  · simp [entered, Reading.enter, Reading.flags, Level.opened, between.limit]
  · simp [entered, Reading.enter, Reading.flags, Level.opened, between.outer, flags]

/-- Between two alternatives no condition is open. -/
theorem Between.recast {s t : Reading} (between : Between t) (recast : Recast s t) : Between s := by
  have outer : s.outer = [] := by
    have same := congrArg Reading.outer recast.erased
    simpa [Reading.erase, between.outer] using same
  have opener : s.level.opener = .plain := by
    have same := congrArg (·.level.opener) recast.erased
    simp only [Reading.erase, Level.erase, between.opener] at same
    cases opener : s.level.opener <;> simp [opener, Opener.erase] at same ⊢
  refine ⟨outer, opener, recast.flags.trans between.flags, recast.limit.trans between.limit, ?_⟩
  refine between.counted.congr recast.groups ?_
  rw [outer, between.outer, List.map_singleton, List.map_singleton, opener, between.opener]

theorem Added.recast (added : Added name p s t) (recast : Recast s' t) : Added name p s s' where
  between := added.between.recast recast
  clear := by
    refine ⟨recast.deferred.trans added.clear.deferred, ?_⟩
    rw [recast.groups]
    exact Nat.le_trans recast.expected added.clear.expected
  names := by rw [recast.groups, added.names]

theorem Added.alternate (added : Added name p s s') :
    Between { s' with level := s'.level.alternate } ∧ Clear { s' with level := s'.level.alternate } :=
  ⟨⟨added.between.outer, added.between.opener, added.between.flags, added.between.limit,
    added.between.counted.congr rfl rfl⟩, added.clear.deferred, added.clear.expected⟩

/-- The names of the groups in an alternation of `n` rules numbered from `k` on. -/
def namesFrom (own : Nat → Pattern) (k : Nat) : Nat → List Text
  | 0 => []
  | n + 1 => groupName k :: ((own k).names.map (·.1) ++ namesFrom own (k + 1) n)

theorem mem_namesFrom {name : Text} : name ∈ namesFrom own k n ↔
    ∃ i, k ≤ i ∧ i < k + n ∧ (name = groupName i ∨ name ∈ (own i).names.map (·.1)) := by
  induction n generalizing k with
  | zero =>
    refine ⟨fun member => absurd member List.not_mem_nil, ?_⟩
    rintro ⟨i, low, high, -⟩
    omega
  | succ n ih =>
    rw [namesFrom, List.mem_cons, List.mem_append, ih, ← or_assoc]
    constructor
    · rintro (own | ⟨i, low, high, own⟩)
      · exact ⟨k, Nat.le_refl k, by omega, own⟩
      · exact ⟨i, by omega, by omega, own⟩
    · rintro ⟨i, low, high, own⟩
      by_cases first : i = k
      · subst first
        exact .inl own
      · exact .inr ⟨i, by omega, by omega, own⟩

/-- No two of the rules from `k` on name a group alike, and none names one as the group of a rule is named. -/
structure NamesApart (own : Nat → Pattern) (k n : Nat) : Prop where
  apart : ∀ i j, k ≤ i → i < j → j < k + n → ∀ name ∈ (own i).names.map (·.1), name ∉ (own j).names.map (·.1)
  unnumbered : ∀ i, k ≤ i → i < k + n → ∀ index, groupName index ∉ (own i).names.map (·.1)

theorem NamesApart.nodup (apart : NamesApart own k n)
    (each : ∀ i, k ≤ i → i < k + n → ((own i).names.map (·.1)).Nodup) : (namesFrom own k n).Nodup := by
  induction n generalizing k with
  | zero => exact List.nodup_nil
  | succ n ih =>
    have others : NamesApart own (k + 1) n :=
      ⟨fun i j low before high => apart.apart i j (by omega) before (by omega),
        fun i low high => apart.unnumbered i (by omega) (by omega)⟩
    rw [namesFrom, List.nodup_cons, List.nodup_append, List.mem_append, mem_namesFrom]
    refine ⟨?_, each k (Nat.le_refl k) (by omega),
      ih others fun i low high => each i (by omega) (by omega), ?_⟩
    · rintro (own | ⟨i, low, high, same | own⟩)
      · exact apart.unnumbered k (Nat.le_refl k) (by omega) k own
      · have := groupName_injective same
        omega
      · exact apart.unnumbered i (by omega) (by omega) k own
    · rintro name own _ member rfl
      obtain ⟨i, low, high, rfl | own'⟩ := mem_namesFrom.mp member
      · exact apart.unnumbered k (Nat.le_refl k) (by omega) i own
      · exact apart.apart k i (Nat.le_refl k) low (by omega) name own own'

theorem namesFrom_nodup (nameless : ∀ i, (own i).names = []) (k n : Nat) : (namesFrom own k n).Nodup :=
  NamesApart.nodup ⟨fun i _ _ _ _ => by simp [nameless i], fun i _ _ _ => by simp [nameless i]⟩
    fun i _ _ => by simp [nameless i]

/-- The names of one rule are taken when those of the rules after it are given. -/
theorem distinct_added (distinct : (namesFrom own k (n + 1) ++ taken).Nodup) :
    (namesFrom own (k + 1) n ++ ((own k).names.map (·.1) ++ groupName k :: taken)).Nodup := by
  have moved : (namesFrom own (k + 1) n ++ ((own k).names.map (·.1) ++ groupName k :: taken)).Perm
      (namesFrom own k (n + 1) ++ taken) := by
    rw [← List.append_assoc]
    exact List.perm_middle.trans ((List.perm_append_comm.append_right taken).cons _)
  exact moved.nodup_iff.mpr distinct

variable [CharacterNames] {σ ε : Type}

/-- A group with a new name can be opened. -/
theorem read_named {s : Reading} {name : Text} (absent : Sign.greater ∉ name)
    (identifier : Text.isIdentifier name) (new : s.groups.names.lookup name = none)
    (rest : List Token) : Reader.read (.plain Sign.leftParen :: .plain Sign.question :: .plain 0x50 ::
      .plain Sign.less :: (name.map .plain ++ .plain Sign.greater :: rest)) s =
        Reader.read rest (entered s name) := by
  have opening : Reader.part s.flags (.plain Sign.leftParen) (.plain Sign.question :: .plain 0x50 ::
      .plain Sign.less :: (name.map .plain ++ .plain Sign.greater :: rest)) =
        .ok (.capture (some name), rest) := by
    rw [Reader.part_paren]
    change Reader.named (.plain Sign.less :: (name.map .plain ++ .plain Sign.greater :: rest)) = _
    simp only [Reader.named, nameUntil_plain absent, identifier, if_true]
  rw [Reader.read_cons, opening]
  simp only [Except.bind, Part.apply, capture_new new]

/-- A pattern gives no two of its groups one name. -/
theorem names_nodup {rule : RulePattern} (compiles : rule.Compiles f p) : (p.names.map (·.1)).Nodup := by
  obtain ⟨last, reads, -, names, -⟩ := compiles.reads
  rw [names]
  exact reads.gained.distinct List.nodup_nil

/-- A rule's alternative can be read in its group, if the names in it are new. -/
theorem read_fits {s : Reading} {rule : RulePattern} (fits : rule.Fits f p)
    (accepted : rule.alternative = .ok alt) (between : Between s) (clear : Clear s) (k : Nat)
    (distinct : (p.names.map (·.1) ++ groupName k :: s.groups.names.map (·.1)).Nodup) (more : List Token) :
    ∃ s', Added (groupName k) p s s' ∧
      Reader.read (Token.ofText (inGroup (groupName k) alt) ++ more) s = Reader.read more s' := by
  obtain ⟨-, others, apart⟩ := List.nodup_append.mp distinct
  have new := lookup_none (List.nodup_cons.mp others).1
  obtain ⟨-, rfl⟩ := RulePattern.alternative_eq accepted
  obtain ⟨r, last, stripped⟩ := fits.compiles.stripped
  have bare : (entered s (groupName k)).flags = {} := between.flags
  obtain ⟨s₁, t, hosts, recast, clear', read⟩ := fits.hosts stripped (between.room clear (groupName k)) bare
    (fun name own taken => apart name own name taken rfl) more
  have within := within_of_hosts hosts (between.counted.capture (capture_new new))
  obtain ⟨s', left, recast'⟩ := recast.leave within.leave
  have added : Added (groupName k) p s (closed s t) := by
    refine ⟨(within.joined between).between, ⟨clear'.deferred, clear'.expected⟩, ?_⟩
    change t.groups.names.map (·.1) = _
    rw [hosts.names, List.map_append, List.map_map]
    rfl
  refine ⟨s', added.recast recast', ?_⟩
  rw [ofText_inGroup (groupName_plain k).1 stripped.alternative_whole]
  simp only [List.cons_append, List.append_assoc, List.nil_append]
  rw [read_named (groupName_plain k).2 (isIdentifier_groupName k) new, read, read_leave left]

/-- A rule that sets flags late cannot be read in its group. -/
theorem early_of_read {s : Reading} {rule : RulePattern} (compiles : rule.Compiles f p)
    (accepted : rule.alternative = .ok alt) (between : Between s) (k : Nat)
    (read : Reader.read (Token.ofText (inGroup (groupName k) alt) ++ more) s = .ok final) :
    ¬ rule.SetsFlagsLate f := by
  obtain ⟨-, rfl⟩ := RulePattern.alternative_eq accepted
  obtain ⟨r, last, stripped⟩ := compiles.stripped
  rw [ofText_inGroup (groupName_plain k).1 stripped.alternative_whole] at read
  simp only [List.cons_append, List.append_assoc, List.nil_append] at read
  obtain ⟨s', captured, read⟩ := read_opening (groupName_plain k).2 read
  obtain rfl := capture_entered captured
  rw [stripped.late_iff]
  rintro ⟨added, member⟩
  have bare : (entered s (groupName k)).flags = {} := between.flags
  exact stripped.unset_of_read compiles bare (List.cons_ne_nil _ _) read added member

/-- Each of the rules from `k` on compiles under the flags `given`, and counts no groups in a look-behind. -/
def AllCompile (given : Nat → Flags) (own : Nat → Pattern) (k : Nat) (rules : List (Rule σ ε)) : Prop :=
  ∀ i (rule : Rule σ ε), rules[i]? = some rule →
    rule.pattern.Compiles (given (k + i)) (own (k + i)) ∧ ¬ rule.pattern.CountsBehind (given (k + i))

theorem AllCompile.tail {rules : List (Rule σ ε)} (all : AllCompile given own k (rule :: rules)) :
    AllCompile given own (k + 1) rules :=
  (forall_cons (P := fun i (rule : Rule σ ε) =>
    rule.pattern.Compiles (given i) (own i) ∧ ¬ rule.pattern.CountsBehind (given i))).mp all |>.2

/-- The group of the first rule can be read, whatever comes after it, unless the rule sets flags late. -/
theorem read_first {rules : List (Rule σ ε)} {s : Reading} (all : AllCompile given own k (rule :: rules))
    (built : entries k (rule :: rules) = .ok found) (between : Between s) (clear : Clear s)
    (distinct : (namesFrom own k (rules.length + 1) ++ s.groups.names.map (·.1)).Nodup) :
    ∃ first found', found.map (·.1) = first :: found'.map (·.1) ∧ entries (k + 1) rules = .ok found' ∧
      Token.dangling ∉ Token.ofText first ∧
      (rule.pattern.SetsFlagsLate (given k) ∧
          (∀ more final, Reader.read (Token.ofText first ++ more) s ≠ .ok final) ∨
        ¬ rule.pattern.SetsFlagsLate (given k) ∧ ∀ more, ∃ s', Added (groupName k) (own k) s s' ∧
          Reader.read (Token.ofText first ++ more) s = Reader.read more s') := by
  obtain ⟨compiles, ahead⟩ := all 0 rule rfl
  obtain ⟨action, alternative, found', -, accepted, rest, rfl⟩ := entries_cons built
  refine ⟨inGroup (groupName k) alternative, found', rfl, rest, ?_, ?_⟩
  · obtain ⟨-, rfl⟩ := RulePattern.alternative_eq accepted
    obtain ⟨r, last, stripped⟩ := compiles.stripped
    have whole := stripped.alternative_whole
    rw [ofText_inGroup (groupName_plain k).1 whole]
    simp [whole]
  · by_cases late : rule.pattern.SetsFlagsLate (given k)
    · exact .inl ⟨late, fun more final read => early_of_read compiles accepted between k read late⟩
    · obtain ⟨unnumbered, -⟩ := RulePattern.alternative_eq accepted
      rw [RulePattern.hasNumberedReference_strip] at unnumbered
      exact .inr ⟨late, read_fits ⟨compiles, unnumbered, late, ahead⟩ accepted between clear k
        (List.nodup_append.mp (distinct_added distinct)).2.1⟩

/-- An alternation of rules can be read if none of them sets flags late. -/
theorem reads_alternation_iff {rules : List (Rule σ ε)} {s : Reading}
    (all : AllCompile given own k (rule :: rules)) (built : entries k (rule :: rules) = .ok found)
    (between : Between s) (clear : Clear s)
    (distinct : (namesFrom own k (rules.length + 1) ++ s.groups.names.map (·.1)).Nodup) :
    (∃ final, Reader.read (Token.ofText (alternation (found.map (·.1)))) s = .ok final) ↔
      ∀ i (other : Rule σ ε), (rule :: rules)[i]? = some other →
        ¬ other.pattern.SetsFlagsLate (given (k + i)) := by
  induction rules generalizing rule k s found with
  | nil =>
    obtain ⟨first, found', texts, rest, -, verdict⟩ := read_first all built between clear distinct
    obtain rfl := Except.ok.inj rest
    rw [texts, List.map_nil, alternation_single, ← List.append_nil (Token.ofText first),
      forall_cons (P := fun i other => ¬ other.pattern.SetsFlagsLate (given i))]
    rcases verdict with ⟨late, refused⟩ | ⟨early, read⟩
    · refine ⟨?_, fun all => absurd late all.1⟩
      rintro ⟨final, read⟩
      exact absurd read (refused [] final)
    · obtain ⟨s', added, read⟩ := read []
      have conflict : s'.conflict? = none := by
        rw [Reading.conflict?, Reading.flags, added.between.flags]
        rfl
      have finished := Reader.finish_ok_iff.mpr
        ⟨rfl, added.between.outer, conflict, added.clear.expected, added.clear.deferred⟩
      refine ⟨fun _ => ⟨early, by simp⟩, fun _ => ⟨s', ?_⟩⟩
      rw [read, Reader.read, finished]
  | cons next rules ih =>
    obtain ⟨first, found', texts, rest, whole, verdict⟩ := read_first all built between clear distinct
    obtain ⟨_, _, _, -, -, -, same⟩ := entries_cons rest
    rw [texts, same, List.map_cons, alternation_cons, Token.ofText_append whole,
      Token.ofText_cons _ (by decide), ← List.map_cons, ← same,
      forall_cons (P := fun i other => ¬ other.pattern.SetsFlagsLate (given i))]
    rcases verdict with ⟨late, refused⟩ | ⟨early, read⟩
    · refine ⟨?_, fun all => absurd late all.1⟩
      rintro ⟨final, read⟩
      exact absurd read (refused _ final)
    · obtain ⟨s', added, read⟩ := read (.plain Sign.bar :: Token.ofText (alternation (found'.map (·.1))))
      have distinct := distinct_added distinct
      rw [← added.names] at distinct
      rw [read, read_bar added.between,
        ih all.tail rest added.alternate.1 added.alternate.2 distinct]
      exact (and_iff_right early).symm

/-- The alternatives of rules that compile are made, unless one is refused for a reference by number. -/
theorem entries_verdict {rules : List (Rule σ ε)} (acts : ∀ rule ∈ rules, rule.action.isSome)
    (compile : ∀ rule ∈ rules, ∃ f p, rule.pattern.Compiles f p) (k : Nat) :
    (∃ rule ∈ rules, RulePattern.hasNumberedReference rule.pattern.given) ∧
        entries k rules = .error .numberedReference ∨
      (∀ rule ∈ rules, RulePattern.hasNumberedReference rule.pattern.given = false) ∧
        ∃ found, entries k rules = .ok found := by
  induction rules generalizing k with
  | nil => exact .inr ⟨by simp, [], rfl⟩
  | cons rule rules ih =>
    obtain ⟨act, acts⟩ := List.forall_mem_cons.mp acts
    obtain ⟨⟨f, p, compiles⟩, compile⟩ := List.forall_mem_cons.mp compile
    obtain ⟨action, given⟩ := Option.isSome_iff_exists.mp act
    rw [entries, given, compiles.alternative]
    cases numbered : RulePattern.hasNumberedReference rule.pattern.given with
    | true => exact .inl ⟨⟨rule, List.mem_cons_self, numbered⟩, rfl⟩
    | false =>
      rcases ih acts compile (k + 1) with ⟨⟨other, member, refers⟩, refused⟩ | ⟨none, found, accepted⟩
      · refine .inl ⟨⟨other, List.mem_cons_of_mem _ member, refers⟩, ?_⟩
        simp [refused, Except.map]
      · refine .inr ⟨List.forall_mem_cons.mpr ⟨numbered, none⟩, ?_⟩
        simp [accepted, Except.map]

/-- An engine is built of the alternatives if they can be read as one pattern. -/
theorem build_ok_of_entries {rules : List (Rule σ ε)} (nonempty : rules ≠ [])
    (built : entries 0 rules = .ok found) (breaks : Text) : (∃ e, Engine.build rules breaks = .ok e) ↔
      ∃ final, Reader.read (Token.ofText (alternation (found.map (·.1)))) (.start {}) = .ok final := by
  obtain ⟨rule, rules, rfl⟩ := List.exists_cons_of_ne_nil nonempty
  obtain ⟨_, _, _, -, -, -, same⟩ := entries_cons built
  rw [Engine.build, built]
  subst same
  simp only [Pattern.compile]
  generalize Reader.read _ _ = read
  cases read <;> simp [Except.map]

/-- An engine can be built of rules that compile, if no two groups have one name, just if none of them is
refused for a reference by number and none sets flags late. -/
theorem build_ok_iff {rules : List (Rule σ ε)} (nonempty : rules ≠ [])
    (acts : ∀ rule ∈ rules, rule.action.isSome) (all : AllCompile given own 0 rules)
    (distinct : (namesFrom own 0 rules.length).Nodup) (breaks : Text) :
    (∃ e, Engine.build rules breaks = .ok e) ↔
      (∀ rule ∈ rules, RulePattern.hasNumberedReference rule.pattern.given = false) ∧
        ∀ i (rule : Rule σ ε), rules[i]? = some rule → ¬ rule.pattern.SetsFlagsLate (given i) := by
  have compile : ∀ rule ∈ rules, ∃ f p, rule.pattern.Compiles f p := by
    intro rule member
    obtain ⟨i, known⟩ := List.mem_iff_getElem?.mp member
    exact ⟨_, _, (all i rule known).1⟩
  rcases entries_verdict acts compile 0 with ⟨⟨rule, member, refers⟩, refused⟩ | ⟨none, found, built⟩
  · have failed : ∀ e, Engine.build rules breaks ≠ .ok e := by
      intro e built
      simp [Engine.build, refused] at built
    refine ⟨?_, fun all => ?_⟩
    · rintro ⟨e, built⟩
      exact absurd built (failed e)
    · simp [all.1 rule member] at refers
  · rw [build_ok_of_entries nonempty built]
    obtain ⟨rule, rules, rfl⟩ := List.exists_cons_of_ne_nil nonempty
    have between : Between (.start {}) := ⟨rfl, rfl, rfl, rfl, .start {}⟩
    have verdict := reads_alternation_iff all built between ⟨rfl, Nat.le_refl _⟩
      (by simpa [Reading.start] using distinct)
    simp only [Nat.zero_add] at verdict
    rw [verdict]
    exact (and_iff_right none).symm

end Engine

/-- A part that does the same among the alternatives of an engine. -/
def Pattern.Part.isModular : Part → Bool
  | .flags _ => false
  | part => part.isPortable

variable [CharacterNames]

/-- A source that compiles by itself to `p`, needs nothing of what stands around it, and is its own
alternative. -/
structure Modular (text : Text) (p : Pattern) : Prop where
  compiled : Pattern.compile text {} = .ok p
  parts : (Reader.parts (Token.ofText text) (.start {})).all Part.isModular
  alternative : (RulePattern.source text).alternative = .ok text

namespace Modular

theorem compiles (modular : Modular text p) : (RulePattern.source text).Compiles {} p :=
  .source modular.compiled

theorem named (modular : Modular text p) : (RulePattern.source text).NamesConditions {} := by
  refine List.all_eq_true.mpr fun part member => ?_
  have allowed := List.all_eq_true.mp modular.parts part member
  cases part with
  | condition name => exact allowed
  | _ => rfl

theorem fits (modular : Modular text p) : (RulePattern.source text).Fits {} p where
  compiles := modular.compiles
  accepted := by
    obtain ⟨accepted, -⟩ := RulePattern.alternative_eq modular.alternative
    rwa [RulePattern.hasNumberedReference_strip] at accepted
  early := by
    rintro ⟨added, member⟩
    have allowed := List.all_eq_true.mp modular.parts _ ((List.dropWhile_suffix _).subset member)
    contradiction
  ahead := by
    rintro ⟨step, member, counts, -⟩
    have named := List.all_eq_true.mp modular.named step.part (by
      change step.part ∈ Reader.parts (Token.ofText text) (.start {})
      rw [Reader.parts_eq]
      exact List.mem_map_of_mem member)
    exact Bool.false_ne_true (counts.symm.trans named)

end Modular

namespace Engine

variable {σ ε : Type}

/-- Each of the rules from `k` on has an action, and its pattern is a modular source. -/
def AllModular (own : Nat → Pattern) (k : Nat) (rules : List (Rule σ ε)) : Prop :=
  ∀ i (rule : Rule σ ε), rules[i]? = some rule → rule.action.isSome ∧
    ∃ text, rule.pattern = .source text ∧ Modular text (own (k + i))

/-- An engine can be built of modular sources with actions, if no two groups have one name. -/
theorem build_of_modular {rules : List (Rule σ ε)} (nonempty : rules ≠ []) (all : AllModular own 0 rules)
    (distinct : (namesFrom own 0 rules.length).Nodup) (breaks : Text) :
    ∃ e, Engine.build rules breaks = .ok e := by
  have fits : ∀ i (rule : Rule σ ε), rules[i]? = some rule → rule.pattern.Fits {} (own (0 + i)) := by
    intro i rule known
    obtain ⟨-, text, source, modular⟩ := all i rule known
    exact source ▸ modular.fits
  have compile : AllCompile (fun _ => {}) own 0 rules :=
    fun i rule known => ⟨(fits i rule known).compiles, (fits i rule known).ahead⟩
  refine (build_ok_iff nonempty (fun rule member => ?_) compile distinct breaks).mpr
    ⟨fun rule member => ?_, fun i rule known => ?_⟩
  · obtain ⟨i, known⟩ := List.mem_iff_getElem?.mp member
    exact (all i rule known).1
  · obtain ⟨i, known⟩ := List.mem_iff_getElem?.mp member
    exact (fits i rule known).accepted
  · exact (fits i rule known).early

end Engine
end TokenRules
