import TokenRules.Proofs.Scan.RuleSource

/-! The alternative made of a rule's source, read in the group of the rule. It is read as the source is read
alone, in the scope of its flags if it has any. -/
namespace TokenRules.RulePattern

open Pattern

theorem ofText_underFlags (flag : ∀ c ∈ front, isFlagLetter c)
    (whole : Token.dangling ∉ Token.ofText rest) :
    Token.ofText (underFlags front rest) =
      if front.isEmpty then Token.ofText rest
      else .plain Sign.leftParen :: .plain Sign.question :: (front.map .plain ++ .plain Sign.colon ::
        (Token.ofText rest ++ guarded (front.contains 0x78) [])) := by
  by_cases none : front = []
  · subst none
    rfl
  · have given : front.isEmpty = false := by simpa using none
    simp only [underFlags, given, Bool.false_eq_true, if_false, List.append_assoc, List.cons_append,
      List.nil_append]
    rw [Token.ofText_cons _ (by decide), Token.ofText_cons _ (by decide),
      ofText_letters flag _ (by decide), Token.ofText_append whole]
    cases front.contains 0x78 <;> rfl

/-- What reading a rule's alternative in the group of the rule makes of a reading. -/
structure Hosts (p : Pattern) (s s' : Reading) : Prop where
  outer : s'.outer = s.outer
  opener : s'.level.opener = s.level.opener
  run : s'.level.node.run = (p.node.shift s.groups.count).run
  names : s'.groups.names =
    p.names.map (fun (name, index) => (name, index + s.groups.count)) ++ s.groups.names
  own : ∀ entry ∈ p.names, 0 < entry.2 ∧ entry.2 + s.groups.count ≤ s'.groups.count
  count : s.groups.count ≤ s'.groups.count
  widths : ∀ entry ∈ s'.groups.widths, entry.1 ≤ s'.groups.count

/-- The groups of a pattern after those that were there before. -/
theorem Hosts.of_follows {s s' t last : Reading}
    (follows : Follows s.groups.count s.groups base context last s')
    (counted : Counted last) (names : p.names = last.groups.names) (groups : t.groups = s'.groups)
    (outer : t.outer = s.outer) (opener : t.level.opener = s.level.opener)
    (run : t.level.node.run = (p.node.shift s.groups.count).run)
    (earlier : ∀ entry ∈ s.groups.widths, entry.1 < s.groups.count) : Hosts p s t where
  outer := outer
  opener := opener
  run := run
  names := by rw [groups, follows.groups.names, names]
  own := by
    intro entry member
    rw [names] at member
    have bounded := counted.names entry member
    rw [groups, follows.groups.count]
    exact ⟨bounded.1, Nat.add_le_add_right bounded.2 _⟩
  count := by
    rw [groups, follows.groups.count]
    exact Nat.le_add_left _ _
  widths := by
    intro entry member
    rw [groups, follows.groups.widths, List.mem_append, List.mem_map] at member
    rw [groups, follows.groups.count]
    rcases member with ⟨own, member, rfl⟩ | member
    · exact Nat.add_le_add_right (counted.widths own member) _
    · have := earlier entry member
      omega

/-- The reading after a scope has closed that was opened in `s`, with what `s'` read in it. -/
def unscoped (s s' : Reading) : Reading :=
  Reading.add ⟨s.level, s.outer, s'.groups, s'.expected, s'.deferred⟩ (.scope s'.level.node) .other

theorem scoped_core (letters : Text) :
    (Flags.within {} (.ofLetters letters) {}).core = (Flags.ofLetters letters).core := by
  cases ascii : (Flags.ofLetters letters).ascii <;> simp [Flags.within, Flags.core, ascii]

/-- The line feed stands in an alternative where it is verbose. -/
theorem scoped_verbose (letters : Text) :
    (Flags.within {} (.ofLetters letters) {}).verbose = letters.contains 0x78 := by
  change (Flags.within {} (.ofLetters letters) {}).core.verbose = _
  rw [scoped_core, Flags.ofLetters_eq]
  rfl

theorem guarded_append (lined : Bool) (ts more : List Token) :
    guarded lined ts ++ more = guarded lined (ts ++ more) := by
  cases lined <;> rfl

variable [CharacterNames]

/-- A rule's source, stripped of the flags at its start, whose parts do the same among other rules. -/
structure Body (rule : RulePattern) (f : Flags) (p : Pattern) (front rest : Text)
    (r last : Reading) : Prop extends Stripped rule f p front rest r last where
  portable : ∀ part ∈ Reader.parts (Token.ofText rest) r, part.isPortable

theorem Compiles.body {rule : RulePattern} (compiles : rule.Compiles f p) (named : rule.NamesConditions f)
    (alternative : rule.alternative = .ok alt) :
    ∃ front rest r last, alt = underFlags front rest ∧ Body rule f p front rest r last := by
  obtain ⟨accepted, same⟩ := alternative_eq alternative
  obtain ⟨r, last, stripped⟩ := compiles.stripped
  obtain ⟨flags, parts, -⟩ := stripped.parts
  refine ⟨_, _, r, last, same, stripped, fun part member => ?_⟩
  cases part with
  | condition name =>
    refine List.all_eq_true.mp named (.condition name) ?_
    rw [parts]
    exact List.mem_append_right flags member
  | numberedReference index => exact absurd (stripped.reads.numbered member) (unnumbered_of_accepted accepted)
  | _ => rfl

/-- A rule's source reads in its alternative as it does alone. -/
theorem Body.splice {s : Reading} (body : Body rule f p front rest r last)
    (compiles : rule.Compiles f p) (unset : ∀ added, .flags added ∉ Reader.parts (Token.ofText rest) r)
    (scope : s.flags.core = (Flags.ofLetters front).core)
    (fresh : s.level = .opened s.level.opener s.flags none) (nested : s.outer ≠ [])
    (earlier : ∀ entry ∈ s.groups.widths, entry.1 < s.groups.count)
    (spliced : Reader.read (Token.ofText rest ++ guarded s.flags.verbose more) s = .ok final) :
    ∃ s', Follows s.groups.count s.groups s.level s.outer last s' ∧
      s'.outer = s.outer ∧ s'.level.opener = s.level.opener ∧
      Reader.read (.plain Sign.rightParen :: more) s' = .ok final := by
  have core := scope.trans (body.core compiles unset)
  have reads := body.reads
  have portable := body.portable
  obtain ⟨added, rfl, -⟩ := body.start
  refine reads.splice portable nested ⟨.outermost ⟨core, ?_, ?_, ?_⟩ rfl rfl, ?_⟩ spliced
  · rw [fresh]; rfl
  · rw [fresh]; rfl
  · rw [fresh]; rfl
  · exact ⟨(Nat.zero_add _).symm, rfl, rfl, earlier⟩

theorem Stripped.alternative_whole (stripped : Stripped rule f p front rest r last) :
    Token.dangling ∉ Token.ofText (underFlags front rest) := by
  have whole := stripped.reads.whole
  rw [ofText_underFlags stripped.flagLetters whole]
  split
  · exact whole
  · cases front.contains 0x78 <;> simp [guarded, whole]

/-- The scope is the only item of its group. -/
theorem Stripped.unscope {s s' : Reading} (stripped : Stripped rule f p front rest r last)
    (follows : Follows s.groups.count s.groups base context last s') (outer : s'.outer = s.level :: s.outer)
    (opener : s'.level.opener = .scope) (fresh : s.level = .opened s.level.opener s.flags none)
    (earlier : ∀ entry ∈ s.groups.widths, entry.1 < s.groups.count) :
    s'.leave? = some (unscoped s s') ∧ Hosts p s (unscoped s s') := by
  refine ⟨?_, .of_follows follows stripped.counted stripped.names rfl rfl rfl ?_ earlier⟩
  · simp only [Reading.leave?, outer, opener]
    rfl
  · have node : (s.level.add ⟨.scope s'.level.node, .other⟩).node = .scope s'.level.node := by
      rw [fresh]
      rfl
    change (s.level.add ⟨.scope s'.level.node, .other⟩).node.run = _
    rw [node, follows.stacked.moved.node, stripped.node]
    rfl

/-- If an alternative reads, its source is read next, in the scope of its flags if it has any. -/
theorem Stripped.opened {s : Reading} (stripped : Stripped rule f p front rest r last) (bare : s.flags = {})
    (spliced : Reader.read (Token.ofText (underFlags front rest) ++ .plain Sign.rightParen :: more) s =
      .ok final) :
    front = [] ∧ Reader.read (Token.ofText rest ++ guarded s.flags.verbose more) s = .ok final ∨
      Reader.read (Token.ofText rest ++ guarded (s.flags.within (.ofLetters front) {}).verbose
        (.plain Sign.rightParen :: more)) (s.enter .scope (s.flags.within (.ofLetters front) {})) =
          .ok final := by
  rw [ofText_underFlags stripped.flagLetters stripped.reads.whole] at spliced
  by_cases none : front = []
  · subst none
    rw [bare]
    exact .inl ⟨rfl, spliced⟩
  · have given : front.isEmpty = false := by simpa using none
    simp only [given, Bool.false_eq_true, if_false, List.cons_append, List.append_assoc] at spliced
    obtain ⟨part, rest', s₁, next, applied, spliced⟩ := Reader.read_cons_ok spliced
    obtain ⟨rfl, rfl⟩ := Prod.mk.inj ((part_letters none stripped.flagLetters next).2 rfl)
    obtain rfl := Except.ok.inj applied
    have verbose : (s.flags.within (.ofLetters front) {}).verbose = front.contains 0x78 := by
      rw [bare, scoped_verbose]
    rw [verbose]
    rw [guarded_append, List.nil_append] at spliced
    exact .inr spliced

/-- Flags that are set late cannot be set in an alternative. -/
theorem Stripped.unset_of_read {s : Reading} (stripped : Stripped rule f p front rest r last)
    (compiles : rule.Compiles f p) (bare : s.flags = {}) (nested : s.outer ≠ [])
    (spliced : Reader.read (Token.ofText (underFlags front rest) ++ .plain Sign.rightParen :: more) s =
      .ok final) : ∀ added, .flags added ∉ Reader.parts (Token.ofText rest) r := by
  rcases stripped.opened bare spliced with ⟨rfl, inside⟩ | inside
  · refine stripped.unset compiles ?_ nested inside
    rw [bare]
    rfl
  · refine stripped.unset compiles ?_ (List.cons_ne_nil _ _) inside
    change (s.flags.within (.ofLetters front) {}).core = _
    rw [bare, scoped_core]

/-- In the group of its rule an alternative reads as the pattern that the rule has by itself. -/
theorem Body.hosts {s : Reading} (body : Body rule f p front rest r last)
    (compiles : rule.Compiles f p) (bare : s.flags = {})
    (fresh : s.level = .opened s.level.opener s.flags none)
    (nested : s.outer ≠ []) (earlier : ∀ entry ∈ s.groups.widths, entry.1 < s.groups.count)
    (spliced : Reader.read (Token.ofText (underFlags front rest) ++ .plain Sign.rightParen :: more) s =
      .ok final) :
    ∃ s', Hosts p s s' ∧ Reader.read (.plain Sign.rightParen :: more) s' = .ok final := by
  have unset := body.unset_of_read compiles bare nested spliced
  rcases body.opened bare spliced with ⟨rfl, inside⟩ | inside
  · have scope : s.flags.core = (Flags.ofLetters []).core := by
      rw [bare]
      rfl
    obtain ⟨s', follows, outer, opener, read⟩ :=
      body.splice compiles unset scope fresh nested earlier inside
    refine ⟨s', .of_follows follows body.counted body.names rfl outer opener ?_ earlier, read⟩
    rw [follows.stacked.moved.node, body.node]
  · have scope : (s.flags.within (.ofLetters front) {}).core = (Flags.ofLetters front).core := by
      rw [bare, scoped_core]
    have limit : s.level.limit = none := by
      rw [fresh]
      rfl
    obtain ⟨s₂, follows, outer, opener, read⟩ := body.splice (s := s.enter .scope _) compiles unset scope
      (by simp [Reading.enter, Reading.flags, Level.opened, limit]) (List.cons_ne_nil _ _) earlier inside
    obtain ⟨s₃, left, read⟩ := Reader.read_close read
    obtain ⟨left', hosts⟩ := body.unscope (s := s) follows outer opener fresh earlier
    obtain rfl := Option.some.inj (left'.symm.trans left)
    exact ⟨_, hosts, read⟩

end TokenRules.RulePattern
