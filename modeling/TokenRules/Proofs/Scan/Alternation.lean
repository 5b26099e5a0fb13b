import TokenRules.Proofs.Pattern.Enclosed
import TokenRules.Proofs.Scan.Alternative
import TokenRules.Scan.Engine

/-! The alternation of an engine: a group for each rule, if each alternative stays in its group. A pattern
that compiles by itself does, and is there what it is alone, renumbered. The first group that matches gives
the match its span and its name. -/
namespace TokenRules

theorem Text.decimal_injective : Function.Injective Text.decimal := by
  intro m n same
  have digits : Nat.toDigits 10 m = Nat.toDigits 10 n :=
    (List.map_inj_right fun _ _ => Char.toNat_inj.mp).mp same
  rw [← Nat.ofDigitChars_ten_toDigits (n := m), digits, Nat.ofDigitChars_ten_toDigits]

theorem Text.decimal_digits (n : Nat) : ∀ c ∈ Text.decimal n, Text.isAsciiDigit c := by
  intro c member
  obtain ⟨digit, digits, rfl⟩ := List.mem_map.mp member
  have digit' := Nat.isDigit_of_mem_toDigits (b := 10) (by decide) (by decide) digits
  simp only [Char.isDigit, Bool.and_eq_true, decide_eq_true_eq] at digit'
  exact RulePattern.digit_range.mpr
    ⟨UInt32.le_iff_toNat_le.mp digit'.1, UInt32.le_iff_toNat_le.mp digit'.2⟩

namespace Engine
open Pattern

theorem groupName_injective : Function.Injective groupName := by
  intro i j same
  exact Text.decimal_injective (List.append_cancel_left same)

/-- The name of a group is plain text. -/
theorem groupName_plain (index : Nat) :
    Sign.backslash ∉ groupName index ∧ Sign.greater ∉ groupName index := by
  have digits : ∀ c, Text.isAsciiDigit c = false → c ∉ Text.decimal index := by
    intro c other member
    simp [Text.decimal_digits index c member] at other
  simp only [groupName, List.mem_append, not_or]
  exact ⟨⟨by decide, digits _ (by decide)⟩, ⟨by decide, digits _ (by decide)⟩⟩

theorem entries_cons {rule : Rule σ ε} (h : entries k (rule :: rules) = .ok found) :
    ∃ action alternative found', rule.action = some action ∧
      rule.pattern.alternative = .ok alternative ∧ entries (k + 1) rules = .ok found' ∧
      found = (inGroup (groupName k) alternative, groupName k, action) :: found' := by
  simp only [entries] at h
  split at h
  · simp at h
  · next action given =>
    split at h
    · simp at h
    · next alternative accepted =>
      obtain ⟨found', rest, rfl⟩ := map_eq_ok.mp h
      exact ⟨action, alternative, found', given, accepted, rest, rfl⟩

/-- The action of a rule stands under the name of its group. -/
theorem entries_lookup {rule : Rule σ ε} (h : entries k rules = .ok found) (given : rules[i]? = some rule) :
    ∃ action, rule.action = some action ∧ (found.map (·.2)).lookup (groupName (k + i)) = some action := by
  induction rules generalizing k i found with
  | nil => simp at given
  | cons first rules ih =>
    obtain ⟨action, alternative, found', act, -, rest, rfl⟩ := entries_cons h
    cases i with
    | zero =>
      obtain rfl := Option.some.inj given
      exact ⟨action, act, by simp⟩
    | succ i =>
      obtain ⟨action', act', found⟩ := ih rest given
      have other : (groupName (k + (i + 1)) == groupName k) = false := by
        rw [beq_eq_false_iff_ne]
        intro same
        have := groupName_injective same
        omega
      refine ⟨action', act', ?_⟩
      rw [List.map_cons, List.lookup_cons, other, ← found, Nat.add_right_comm, Nat.add_assoc]

theorem alternation_single (only : Text) : alternation [only] = only := by
  simp [alternation, List.intercalate]

theorem alternation_cons (first second : Text) (others : List Text) :
    alternation (first :: second :: others) = first ++ Sign.bar :: alternation (second :: others) := by
  simp [alternation, List.intercalate, List.intersperse]

/-- What holds of rules by their numbers holds of the first and of the others. -/
theorem forall_cons {P : Nat → Rule σ ε → Prop} {rules : List (Rule σ ε)} :
    (∀ i other, (rule :: rules)[i]? = some other → P (k + i) other) ↔
      P k rule ∧ ∀ i other, rules[i]? = some other → P (k + 1 + i) other := by
  constructor
  · intro all
    refine ⟨all 0 rule rfl, fun i other known => ?_⟩
    rw [Nat.add_right_comm]
    exact all (i + 1) other known
  · rintro ⟨first, others⟩ i other known
    cases i with
    | zero => exact Option.some.inj known ▸ first
    | succ i =>
      rw [← Nat.add_assoc, Nat.add_right_comm]
      exact others i other known

theorem nameUntil_plain {name : Text} (absent : terminator ∉ name) (rest : List Token) :
    Token.nameUntil terminator (name.map .plain ++ .plain terminator :: rest) = .ok (name, rest) := by
  induction name with
  | nil => simp [Token.nameUntil]
  | cons c name ih =>
    simp only [List.mem_cons, not_or] at absent
    have other : (c == terminator) = false := by simpa using Ne.symm absent.1
    simp [Token.nameUntil, other, ih absent.2, Except.map]

/-- A group with a name opens by a new name. -/
theorem read_opening [CharacterNames] {name : Text} (absent : Sign.greater ∉ name)
    (h : Reader.read (.plain Sign.leftParen :: .plain Sign.question :: .plain 0x50 :: .plain Sign.less ::
      (name.map .plain ++ .plain Sign.greater :: rest)) s = .ok final) :
    ∃ s', s.capture (some name) = .ok s' ∧ Reader.read rest s' = .ok final := by
  obtain ⟨part, rest', s', next, applied, h⟩ := Reader.read_cons_ok h
  rw [Reader.part_paren] at next
  change Reader.named (.plain Sign.less :: (name.map .plain ++ .plain Sign.greater :: rest)) = _ at next
  simp only [Reader.named, nameUntil_plain absent] at next
  split at next
  · obtain ⟨rfl, rfl⟩ := Prod.mk.inj (Except.ok.inj next)
    exact ⟨s', applied, h⟩
  · simp at next

/-- A reading between two alternatives of an alternation. -/
structure Between (s : Reading) : Prop where
  outer : s.outer = []
  opener : s.level.opener = .plain
  flags : s.level.flags = {}
  limit : s.level.limit = none
  counted : Counted s

/-- The index of a name in a list of names, the latest first. -/
def entryOf? (names : List (Text × Nat)) (index : Nat) : Option (Text × Nat) :=
  names.find? (·.2 == index)

theorem entryOf?_append (later earlier : List (Text × Nat)) (above : ∀ entry ∈ later, index < entry.2) :
    entryOf? (later ++ earlier) index = entryOf? earlier index := by
  have none : later.find? (·.2 == index) = none := by
    rw [List.find?_eq_none]
    intro entry member
    have := above entry member
    simp only [beq_iff_eq]
    omega
  rw [entryOf?, List.find?_append, none, Option.none_or, entryOf?]

/-- What the group of a rule makes of a reading between two alternatives. -/
structure Joined (name : Text) (s s' : Reading) (body : Node) : Prop where
  between : Between s'
  level : s'.level = s.level.add ⟨.group (s.groups.count + 1) body, .other⟩
  count : s.groups.count < s'.groups.count
  entry : entryOf? s'.groups.names (s.groups.count + 1) = some (name, s.groups.count + 1)
  entries : ∀ index ≤ s.groups.count, entryOf? s'.groups.names index = entryOf? s.groups.names index

theorem ofText_inGroup {name alternative : Text} (plain : Sign.backslash ∉ name)
    (whole : Token.dangling ∉ Token.ofText alternative) :
    Token.ofText (inGroup name alternative) =
      .plain Sign.leftParen :: .plain Sign.question :: .plain 0x50 :: .plain Sign.less ::
        (name.map .plain ++ .plain Sign.greater ::
          (Token.ofText alternative ++ [.plain Sign.rightParen])) := by
  have opening : Text.ofString "(?P<" = [Sign.leftParen, Sign.question, 0x50, Sign.less] := by decide
  simp only [inGroup, opening, List.append_assoc, List.cons_append, List.nil_append]
  rw [Token.ofText_cons _ (by decide), Token.ofText_cons _ (by decide), Token.ofText_cons _ (by decide),
    Token.ofText_cons _ (by decide), Token.ofText_plain_append plain, Token.ofText_cons _ (by decide),
    Token.ofText_append whole]
  rfl

/-- The groups of a reading with one more, which has a name. -/
def withGroup (g : Groups) (name : Text) : Groups :=
  { g with count := g.count + 1, names := (name, g.count + 1) :: g.names }

/-- The reading in a group with a name, which has just been opened. -/
def entered (s : Reading) (name : Text) : Reading :=
  { s with groups := withGroup s.groups name }.enter (.capture (s.groups.count + 1)) s.flags

/-- The reading after a group has closed that was opened in `s`, with what `s'` read in it. -/
def closed (s s' : Reading) : Reading :=
  { s with
    groups := { s'.groups with
      widths := (s.groups.count + 1, s'.level.node.width s'.groups.width) :: s'.groups.widths }
    expected := s'.expected
    deferred := s'.deferred }.add (.group (s.groups.count + 1) s'.level.node) .other

theorem capture_entered (captured : s.capture (some name) = .ok s') : s' = entered s name := by
  simp only [Reading.capture] at captured
  split at captured
  · simp at captured
  · exact (Except.ok.inj captured).symm

/-- The reading `s'` is in the same group as `s`, and groups have opened and closed in between. -/
structure Within (s s' : Reading) : Prop where
  outer : s'.outer = s.outer
  opener : s'.level.opener = s.level.opener
  grown : s.groups.Grown s'.groups
  counted : Counted s'

theorem Within.leave (within : Within (entered s name) s') : s'.leave? = some (closed s s') := by
  have outer : s'.outer = s.level :: s.outer := within.outer
  have opener : s'.level.opener = .capture (s.groups.count + 1) := within.opener
  simp only [Reading.leave?, outer, opener]
  rfl

/-- The names that were read in a group stand behind its own. -/
theorem Within.joined (within : Within (entered s name) s') (between : Between s) :
    Joined name s (closed s s') s'.level.node := by
  obtain ⟨later, names, above⟩ := within.grown.names
  change s'.groups.names = later ++ (name, s.groups.count + 1) :: s.groups.names at names
  change ∀ entry ∈ later, s.groups.count + 1 < entry.2 at above
  refine ⟨⟨between.outer, between.opener, between.flags, between.limit,
    within.counted.leave within.leave⟩, rfl, within.grown.count, ?_, ?_⟩
  · change entryOf? s'.groups.names _ = _
    rw [names, entryOf?_append _ _ above]
    simp [entryOf?]
  · intro index old
    change entryOf? s'.groups.names index = _
    have own : (s.groups.count + 1 == index) = false := by
      rw [beq_eq_false_iff_ne]
      omega
    rw [names, entryOf?_append _ _ fun entry member =>
      Nat.lt_trans (Nat.lt_succ_of_le old) (above entry member)]
    simp only [entryOf?, List.find?_cons, own]

theorem within_of_hosts {s s' : Reading} (hosts : RulePattern.Hosts p s s') (counted : Counted s) :
    Within s s' := by
  have own : ∀ known ∈ p.names, s.groups.count < known.2 + s.groups.count ∧
      known.2 + s.groups.count ≤ s'.groups.count := by
    intro known member
    have bounded := hosts.own known member
    exact ⟨Nat.lt_add_of_pos_left bounded.1, bounded.2⟩
  have grown : s.groups.Grown s'.groups :=
    ⟨hosts.count, _, hosts.names, List.forall_mem_map.mpr fun known member => (own known member).1⟩
  refine ⟨hosts.outer, hosts.opener, grown, ?_, hosts.widths, ?_⟩
  · intro entry member
    rw [hosts.names, List.mem_append] at member
    rcases member with new | old
    · obtain ⟨known, member, rfl⟩ := List.mem_map.mp new
      exact ⟨Nat.zero_lt_of_lt (own known member).1, (own known member).2⟩
    · exact ⟨(counted.names entry old).1, Nat.le_trans (counted.names entry old).2 hosts.count⟩
  · rw [List.map_cons, hosts.opener, hosts.outer]
    exact fun opener member index same =>
      Nat.le_trans (counted.openers opener member index same) hosts.count

theorem Joined.node (joined : Joined name s s' body) (items : s.level.items = []) :
    s'.level.alternate.alternatives = .group (s.groups.count + 1) body :: s.level.alternatives := by
  rw [joined.level]
  simp [Level.alternate, Level.sequence, Level.add, items, Node.ofSequence]

/-- Groups with the names of rules, numbered from `k` on, and what holds of each. -/
inductive Grouped (holds : Nat → Nat → Node → Prop) (names : List (Text × Nat)) :
    Nat → List Node → Prop
  | nil : Grouped holds names k []
  | cons (index : Nat) (body : Node) (own : holds k index body)
    (entry : entryOf? names index = some (groupName k, index)) (rest : Grouped holds names (k + 1) nodes) :
    Grouped holds names k (.group index body :: nodes)

/-- The rules' patterns in groups of their own, numbered from `k` on. -/
abbrev Hosted (own : Nat → Pattern) : List (Text × Nat) → Nat → List Node → Prop :=
  Grouped fun k index body => body.run = ((own k).node.shift index).run

theorem alternatives_run (nodes : List Node) (nonempty : nodes ≠ []) (s : State)
    (k : State → Option State) :
    (Node.ofChoices.alternatives nodes).run s k = nodes.findSome? (·.run s k) := by
  induction nodes with
  | nil => exact absurd rfl nonempty
  | cons node nodes ih =>
    cases nodes with
    | nil =>
      simp only [Node.ofChoices.alternatives, List.findSome?_cons, List.findSome?_nil]
      cases node.run s k <;> rfl
    | cons next nodes =>
      have step : Node.ofChoices.alternatives (node :: next :: nodes) =
          .alt node (Node.ofChoices.alternatives (next :: nodes)) := rfl
      rw [step, List.findSome?_cons, ← ih (List.cons_ne_nil _ _), Node.run]
      cases node.run s k <;> rfl

/-- Groups share no common start, and none is a set of characters. -/
theorem Grouped.ofAlternatives (grouped : Grouped holds table k nodes) (nonempty : nodes ≠ []) :
    Node.ofAlternatives nodes = Node.ofChoices.alternatives nodes := by
  have parts : nodes.map Node.parts = nodes.map ([·]) := by
    clear nonempty
    induction grouped with
    | nil => rfl
    | cons _ _ _ _ _ ih =>
      simp only [List.map_cons, ih]
      rfl
  have sequences : (nodes.map ([·])).map Node.ofSequence = nodes := by
    simp [Function.comp_def, Node.ofSequence]
  cases grouped with
  | nil => exact absurd rfl nonempty
  | cons index body own entry rest =>
    cases rest with
    | nil => rfl
    | cons index' body' own' entry' rest =>
      rw [Node.ofAlternatives, parts]
      change Node.ofChoices (((_ :: _ :: _).map ([·])).map (List.drop 0)) = _
      have whole : ∀ nodes : List Node, (nodes.map ([·])).map (List.drop 0) = nodes.map ([·]) := by
        intro nodes
        simp
      have noSet : Node.charSet? [.group index body] = none := rfl
      rw [whole, Node.ofChoices, sequences]
      simp [noSet]

/-- The group of a rule matches as the rule's pattern does by itself. -/
theorem group_run {body node : Node} (run : body.run = (node.shift index).run) (c : Cursor) :
    (Node.group index body).run ⟨c, [], none⟩ some =
      (node.run ⟨c, [], none⟩ some).map fun s => (s.shift index).leave index c := by
  have entered : State.enter index ⟨c, [], none⟩ = State.shift index ⟨c, [], none⟩ := rfl
  rw [Node.run, entered, run]
  exact Node.run_shift index node (fun s => (s.shift index).leave index c) some _ (fun _ => rfl) _

/-- One of the groups matches if one of the patterns does. -/
theorem Hosted.isSome_iff (hosted : Hosted own table k nodes) (c : Cursor) :
    (nodes.findSome? (·.run ⟨c, [], none⟩ some)).isSome ↔
      ∃ i < nodes.length, ((own (k + i)).matchAt c).isSome := by
  induction hosted with
  | nil => simp
  | @cons k nodes index body run entry rest ih =>
    have first : ((Node.group index body).run ⟨c, [], none⟩ some).isSome = ((own k).matchAt c).isSome := by
      rw [group_run run, Pattern.matchAt, Option.isSome_map, Option.isSome_map]
    rw [List.findSome?_cons]
    cases found : (Node.group index body).run ⟨c, [], none⟩ some with
    | some s =>
      rw [found] at first
      exact ⟨fun _ => ⟨0, by simp, first.symm⟩, fun _ => rfl⟩
    | none =>
      rw [found] at first
      simp only [ih]
      constructor
      · rintro ⟨i, inside, matched⟩
        exact ⟨i + 1, by simpa using inside, by rwa [Nat.add_right_comm] at matched⟩
      · rintro ⟨i, inside, matched⟩
        cases i with
        | zero => simp [← first] at matched
        | succ i => exact ⟨i, by simpa using inside, by rwa [Nat.add_right_comm]⟩

/-- The first of the patterns that matches gives the match, in the group of its rule. -/
theorem Hosted.first (hosted : Hosted own table k nodes) (c : Cursor) (inside : i < nodes.length)
    (matched : (own (k + i)).node.run ⟨c, [], none⟩ some = some s)
    (earlier : ∀ j < i, (own (k + j)).matchAt c = none) :
    ∃ index, entryOf? table index = some (groupName (k + i), index) ∧
      nodes.findSome? (·.run ⟨c, [], none⟩ some) = some ((s.shift index).leave index c) := by
  induction hosted generalizing i with
  | nil => simp at inside
  | @cons k nodes index body run entry rest ih =>
    cases i with
    | zero =>
      refine ⟨index, entry, ?_⟩
      rw [List.findSome?_cons, group_run run, show own k = own (k + 0) from rfl, matched]
      rfl
    | succ i =>
      have none : (own k).node.run ⟨c, [], none⟩ some = none :=
        Option.map_eq_none_iff.mp (earlier 0 (Nat.succ_pos i))
      rw [List.findSome?_cons, group_run run, none]
      simp only [Option.map_none]
      rw [← Nat.add_assoc, Nat.add_right_comm] at matched ⊢
      refine ih (by simpa using inside) matched fun j before => ?_
      rw [Nat.add_right_comm]
      exact earlier (j + 1) (Nat.succ_lt_succ before)

theorem toOption_eq_some {x : Except ε α} : x.toOption = some a ↔ x = .ok a := by
  cases x <;> simp [Except.toOption]

theorem eq_ok_of_isSome (x : Except ε α) (accepted : x.toOption.isSome) :
    x = .ok (x.toOption.get accepted) :=
  toOption_eq_some.mp (Option.some_get accepted).symm

variable [CharacterNames]

/-- An alternative whose group is closed by its own parenthesis, and what holds then of the group. -/
structure Contained (holds : Nat → Node → Prop) (name alternative : Text) : Prop where
  whole : Token.dangling ∉ Token.ofText (inGroup name alternative)
  read : ∀ {s more final}, Between s →
    Reader.read (Token.ofText (inGroup name alternative) ++ more) s = .ok final →
    ∃ s' body, Joined name s s' body ∧ holds (s.groups.count + 1) body ∧
      Reader.read more s' = .ok final

/-- A group contains an alternative if reading the alternative comes back to the group. -/
theorem Contained.of_body {name alternative : Text}
    (plain : Sign.backslash ∉ name ∧ Sign.greater ∉ name)
    (whole : Token.dangling ∉ Token.ofText alternative)
    (body : ∀ {s more final}, Between s → Counted (entered s name) →
      Reader.read (Token.ofText alternative ++ .plain Sign.rightParen :: more) (entered s name) =
        .ok final →
      ∃ s', Within (entered s name) s' ∧ holds (s.groups.count + 1) s'.level.node ∧
        Reader.read (.plain Sign.rightParen :: more) s' = .ok final) :
    Contained holds name alternative := by
  refine ⟨?_, fun {s more final} between h => ?_⟩
  · rw [ofText_inGroup plain.1 whole]
    simp [whole]
  · rw [ofText_inGroup plain.1 whole] at h
    simp only [List.cons_append, List.append_assoc, List.nil_append] at h
    obtain ⟨s₁, captured, h⟩ := read_opening plain.2 h
    have counted := between.counted.capture captured
    obtain rfl := capture_entered captured
    obtain ⟨s₂, within, own, h⟩ := body between counted h
    obtain ⟨s₃, left, h⟩ := Reader.read_close h
    obtain rfl := Option.some.inj (within.leave.symm.trans left)
    exact ⟨_, _, within.joined between, own, h⟩

/-- A rule's pattern, read in its group, is what it is by itself under other numbers. -/
theorem contained_of_compiles {rule : RulePattern} (compiles : rule.Compiles f p)
    (named : rule.NamesConditions f) (alternative : rule.alternative = .ok alt) (k : Nat) :
    Contained (fun index body => body.run = (p.node.shift index).run) (groupName k) alt := by
  obtain ⟨front, rest, r, last, rfl, body⟩ := compiles.body named alternative
  refine .of_body (groupName_plain k) body.alternative_whole fun {s more final} between counted h => ?_
  have bare : (entered s (groupName k)).flags = {} := between.flags
  have fresh : (entered s (groupName k)).level =
      .opened (entered s (groupName k)).level.opener (entered s (groupName k)).flags none := by
    simp only [entered, Reading.enter, Reading.flags, Level.opened, between.limit]
  obtain ⟨s', hosts, h⟩ := body.hosts compiles bare fresh (List.cons_ne_nil _ _)
    (fun entry member => Nat.lt_succ_of_le (between.counted.widths entry member)) h
  exact ⟨s', within_of_hosts hosts counted, hosts.run, h⟩

theorem read_bar (between : Between s) (more : List Token) :
    Reader.read (.plain Sign.bar :: more) s = Reader.read more { s with level := s.level.alternate } := by
  have bar : Reader.part s.flags (.plain Sign.bar) more = .ok (.alternative, more) := rfl
  rw [Reader.read_cons, bar]
  simp only [Except.bind, Part.apply, Reading.alternate, between.opener]

/-- The rules from `k` on have the patterns `own`, compiled under the flags `given`. -/
structure Own (given : Nat → Flags) (own : Nat → Pattern) (k : Nat) (rules : List (Rule σ ε)) : Prop where
  compiles : ∀ i (rule : Rule σ ε), rules[i]? = some rule →
    rule.pattern.Compiles (given (k + i)) (own (k + i))
  named : ∀ i (rule : Rule σ ε), rules[i]? = some rule → rule.pattern.NamesConditions (given (k + i))

/-- Each of the rules from `k` on has an alternative that its group contains. -/
def AllContained (holds : Nat → Nat → Node → Prop) (k : Nat) (rules : List (Rule σ ε)) : Prop :=
  ∀ i (rule : Rule σ ε) alternative, rules[i]? = some rule →
    rule.pattern.alternative = .ok alternative →
    Contained (holds (k + i)) (groupName (k + i)) alternative

theorem AllContained.tail {rule : Rule σ ε} (all : AllContained holds k (rule :: rules)) :
    AllContained holds (k + 1) rules := by
  intro i rule alternative found accepted
  rw [Nat.add_right_comm]
  exact all (i + 1) rule alternative found accepted

theorem Own.contained {rules : List (Rule σ ε)} (all : Own given own k rules) :
    AllContained (fun k index body => body.run = ((own k).node.shift index).run) k rules :=
  fun i rule _ found accepted =>
    contained_of_compiles (all.compiles i rule found) (all.named i rule found) accepted _

/-- Reading an alternation makes a group of each alternative, in order. -/
theorem read_alternation {rule : Rule σ ε} (all : AllContained holds k (rule :: rules))
    (built : entries k (rule :: rules) = .ok found) (between : Between s) (items : s.level.items = [])
    (h : Reader.read (Token.ofText (alternation (found.map (·.1)))) s = .ok final) :
    ∃ nodes, Grouped holds final.groups.names k nodes ∧ nodes.length = rules.length + 1 ∧
      final.level.node = Node.ofAlternatives (s.level.alternatives.reverse ++ nodes) ∧
      ∀ index ≤ s.groups.count, entryOf? final.groups.names index = entryOf? s.groups.names index := by
  induction rules generalizing rule k s found with
  | nil =>
    obtain ⟨action, alternative, found', -, accepted, rest, rfl⟩ := entries_cons built
    obtain rfl := Except.ok.inj rest
    have h : Reader.read (Token.ofText (inGroup (groupName k) alternative) ++ []) s = .ok final := by
      rwa [List.map_cons, List.map_nil, alternation_single, ← List.append_nil (Token.ofText _)] at h
    obtain ⟨s', body, joined, own, h⟩ := (all 0 rule alternative rfl accepted).read between h
    rw [Reader.read] at h
    obtain rfl := Reader.finish_eq h
    refine ⟨[.group (s.groups.count + 1) body], .cons _ body own joined.entry .nil, rfl, ?_,
      joined.entries⟩
    have node : final.level.node = Node.ofAlternatives final.level.alternate.alternatives.reverse := rfl
    rw [node, joined.node items, List.reverse_cons]
  | cons next rules ih =>
    obtain ⟨action, alternative, found', -, accepted, rest, rfl⟩ := entries_cons built
    obtain ⟨_, _, found'', -, -, -, same⟩ := entries_cons rest
    have contained : Contained (holds k) (groupName k) alternative := all 0 rule alternative rfl accepted
    have h : Reader.read (Token.ofText (inGroup (groupName k) alternative) ++ .plain Sign.bar ::
        Token.ofText (alternation (found'.map (·.1)))) s = .ok final := by
      rw [same] at h ⊢
      rwa [List.map_cons, List.map_cons, alternation_cons, Token.ofText_append contained.whole,
        Token.ofText_cons _ (by decide)] at h
    obtain ⟨s', body, joined, own, h⟩ := contained.read between h
    have between' : Between { s' with level := s'.level.alternate } :=
      ⟨joined.between.outer, joined.between.opener, joined.between.flags, joined.between.limit,
        joined.between.counted.congr rfl rfl⟩
    obtain ⟨nodes, grouped, length, node, entries⟩ :=
      ih all.tail rest between' rfl (read_bar joined.between _ ▸ h)
    -- The alternatives behind it name only groups that they open themselves.
    have earlier : ∀ index ≤ s'.groups.count,
        entryOf? final.groups.names index = entryOf? s'.groups.names index := entries
    refine ⟨.group (s.groups.count + 1) body :: nodes, .cons _ body own ?_ grouped, by simp [length],
      ?_, ?_⟩
    · rw [earlier _ joined.count]
      exact joined.entry
    · rw [node]
      change Node.ofAlternatives (s'.level.alternate.alternatives.reverse ++ nodes) = _
      rw [joined.node items]
      simp
    · intro index old
      rw [earlier index (Nat.le_trans old (Nat.le_of_lt joined.count)), joined.entries index old]

theorem build_ok {rules : List (Rule σ ε)} (built : Engine.build rules breaks = .ok e) :
    ∃ found, entries 0 rules = .ok found ∧ rules ≠ [] ∧ e.actions = found.map (·.2) ∧
      Pattern.compile (alternation (found.map (·.1))) {} = .ok e.pattern := by
  simp only [build] at built
  split at built
  · simp at built
  · simp at built
  · next found nonempty given =>
    split at built
    · simp at built
    · next pattern compiled =>
      obtain rfl := Except.ok.inj built
      refine ⟨found, given, ?_, rfl, compiled⟩
      rintro rfl
      exact nonempty (Except.ok.inj given).symm

/-- A match in the group of a rule gets the action of the rule. -/
theorem actionFor_of_build {rules : List (Rule σ ε)} {rule : Rule σ ε}
    (built : Engine.build rules breaks = .ok e) (known : rules[i]? = some rule) (m : Match)
    (group : m.lastGroup = some (groupName i)) :
    ∃ action, rule.action = some action ∧ e.actionFor m = .ok action := by
  obtain ⟨found, entries, -, actions, -⟩ := build_ok built
  obtain ⟨action, act, bound⟩ := entries_lookup entries known
  rw [Nat.zero_add] at bound
  refine ⟨action, act, ?_⟩
  simp only [actionFor, group, Option.bind_some, actions, bound]

/-- The pattern of an engine has a group for each rule, and the first group that matches gives the
match. -/
theorem build_grouped {rules : List (Rule σ ε)} (built : Engine.build rules breaks = .ok e)
    (all : AllContained holds 0 rules) :
    ∃ nodes, Grouped holds e.pattern.names 0 nodes ∧ nodes.length = rules.length ∧
      ∀ c, e.pattern.node.run ⟨c, [], none⟩ some = nodes.findSome? (·.run ⟨c, [], none⟩ some) := by
  obtain ⟨found, entries, nonempty, -, compiled⟩ := build_ok built
  obtain ⟨rule, rules, rfl⟩ := List.exists_cons_of_ne_nil nonempty
  obtain ⟨final, read, compiled⟩ := compile_eq_ok.mp compiled
  have between : Between (.start {}) := ⟨rfl, rfl, rfl, rfl, .start {}⟩
  obtain ⟨nodes, grouped, length, node, -⟩ := read_alternation all entries between rfl read
  have nonempty : nodes ≠ [] := by
    rintro rfl
    simp at length
  refine ⟨nodes, by rw [← compiled]; exact grouped, by simpa using length, fun c => ?_⟩
  have chain : e.pattern.node = Node.ofChoices.alternatives nodes := by
    rw [← compiled, ← grouped.ofAlternatives nonempty]
    simpa [Reading.start, Level.opened] using node
  rw [chain, alternatives_run nodes nonempty]

theorem build_lineBreaks {rules : List (Rule σ ε)} (built : Engine.build rules breaks = .ok e) :
    e.lineBreaks = breaks := by
  simp only [build] at built
  split at built
  · simp at built
  · simp at built
  · split at built
    · simp at built
    · exact Except.ok.inj built ▸ rfl

end Engine
end TokenRules
