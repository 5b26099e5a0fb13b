import TokenRules.Ini.Grammar
import TokenRules.Proofs.Json.Rules

/-! The tokens of INI files, found without going back, and that the pattern of the engine finds them. The
first character tells the rules apart. -/
namespace TokenRules.Ini

open Pattern
open Json (firstFront firstFront_some firstFront_eq_some groups groups_matchAt)

/-- Comments, headers and assignments end with the line at the latest. -/
def inLine (c : CodePoint) : Bool := c != Sign.carriageReturn && c != Sign.lineFeed

/-- What ends a line is blank and no part of the line. -/
theorem ending_outside
    (known : ending ∈ [[Sign.lineFeed], [Sign.carriageReturn], [Sign.carriageReturn, Sign.lineFeed]]) :
    ending ≠ [] ∧ (∀ c ∈ ending, Text.isBlank c) ∧ ∀ c ∈ ending, inLine c = false := by
  revert ending
  decide

theorem ending_ahead
    (known : ending ∈ [[Sign.lineFeed], [Sign.carriageReturn], [Sign.carriageReturn, Sign.lineFeed]])
    (t : Text) : Ahead (inLine · = false) (ending ++ t) := by
  obtain ⟨nonempty, -, outside⟩ := ending_outside known
  obtain ⟨x, w, rfl⟩ := List.exists_cons_of_ne_nil nonempty
  exact .cons (outside x List.mem_cons_self)

def opensComment (c : CodePoint) : Bool := c == Sign.semicolon || c == Sign.number

def inHeader (c : CodePoint) : Bool := c != Sign.rightBracket && inLine c

def opensKey (c : CodePoint) : Bool :=
  !(c == Sign.equal || Text.isBlank c || c == Sign.leftBracket || opensComment c)

def inKey (c : CodePoint) : Bool := c != Sign.equal && inLine c

def comment : Text → Option Text :=
  followed (one opensComment) (many inLine)

def header : Text → Option Text :=
  followed (one (· == Sign.leftBracket)) (followed (many inHeader) (one (· == Sign.rightBracket)))

/-- A key and an equals sign, and the value up to the end of the line. -/
def assignment : Text → Option Text :=
  followed (one opensKey) (followed (many inKey) (followed (one (· == Sign.equal)) (many inLine)))

/-- The fronts that the rules take, in order of priority. -/
def fronts : List (Text → Option Text) :=
  [comment, several Text.isBlank, header, assignment]

/-- The token at the start of a text: the number of its rule, and its text. -/
def lexeme? : Text → Option (Nat × Text) :=
  firstFront 0 fronts

/-- The rule that a token must belong to by its first character. -/
def ruleAt? (c : CodePoint) : Option Nat :=
  if opensComment c then some 0
  else if Text.isBlank c then some 1
  else if c == Sign.leftBracket then some 2
  else if c == Sign.equal then none
  else some 3

theorem starts_fronts (rule : fronts[i]? = some front) : Starts (ruleAt? · = some i) front := by
  obtain ⟨inside, rfl⟩ := List.getElem?_eq_some_iff.mp rule
  have cases : i = 0 ∨ i = 1 ∨ i = 2 ∨ i = 3 := by
    simp only [fronts, List.length_cons, List.length_nil] at inside
    omega
  rcases cases with rfl | rfl | rfl | rfl
  · exact ((starts_one _).imp fun x opens => if_pos opens).followed (fronts_many _)
  · refine (starts_several _).imp fun x blank => ?_
    have other : opensComment x = false := by
      have solid : ∀ c ∈ [Sign.semicolon, Sign.number], Text.isBlank c = false := by decide
      refine Bool.eq_false_iff.mpr fun opens => ?_
      have member : x ∈ [Sign.semicolon, Sign.number] := by simpa [opensComment] using opens
      simp [solid x member] at blank
    simp [ruleAt?, blank, other]
  · refine ((starts_one _).imp fun x bracket => ?_).followed
      ((fronts_many _).followed (starts_one _).fronts)
    obtain rfl : x = Sign.leftBracket := by simpa using bracket
    rfl
  · refine ((starts_one _).imp fun x opens => ?_).followed
      ((fronts_many _).followed ((starts_one _).fronts.followed (fronts_many _)))
    simp only [opensKey, Bool.not_eq_true', Bool.or_eq_false_iff] at opens
    obtain ⟨⟨⟨equal, blank⟩, bracket⟩, comment⟩ := opens
    simp [ruleAt?, equal, blank, bracket, comment]

theorem lexeme?_eq_some : lexeme? t = some (i, w) ↔
    ∃ front, fronts[i]? = some front ∧ front t = some w :=
  firstFront_eq_some fun _ _ => starts_fronts

theorem lexeme?_spec (found : lexeme? t = some (i, w)) :
    w <+: t ∧ ∃ x u, w = x :: u ∧ ruleAt? x = some i := by
  obtain ⟨front, rule, taken⟩ := lexeme?_eq_some.mp found
  exact starts_fronts rule t w taken

namespace Body

def char (c : CodePoint) : Node := .chars (.char .exact c)

def many (set : CharSet) : Node := .loop .greedy 0 none (.chars set)

def marks : CharSet := ⟨[.single Sign.semicolon, .single Sign.number], false, .exact⟩

def blank : CharSet := ⟨[.charClass .blank false false], false, .exact⟩

def line : CharSet := ⟨[.single Sign.carriageReturn, .single Sign.lineFeed], true, .exact⟩

def name : CharSet :=
  ⟨[.single Sign.rightBracket, .single Sign.carriageReturn, .single Sign.lineFeed], true, .exact⟩

def keyStart : CharSet :=
  ⟨[.single Sign.equal, .charClass .blank false false, .single Sign.leftBracket, .single Sign.semicolon,
    .single Sign.number], true, .exact⟩

def key : CharSet :=
  ⟨[.single Sign.equal, .single Sign.carriageReturn, .single Sign.lineFeed], true, .exact⟩

end Body

/-- The patterns of the rules as they were read, in order. -/
def bodies : List Node :=
  [.seq (.chars Body.marks) (Body.many Body.line),
   .loop .greedy 1 none (.chars Body.blank),
   .seq (Body.char Sign.leftBracket) (.seq (Body.many Body.name) (Body.char Sign.rightBracket)),
   .seq (.chars Body.keyStart)
    (.seq (Body.many Body.key) (.seq (Body.char Sign.equal) (Body.many Body.line)))]

theorem sets_contain : Body.marks.contains = opensComment ∧ Body.blank.contains = Text.isBlank ∧
    Body.line.contains = inLine ∧ Body.name.contains = inHeader ∧
    Body.keyStart.contains = opensKey ∧ Body.key.contains = inKey := by
  refine ⟨?_, ?_, ?_, ?_, ?_, ?_⟩
  all_goals
    funext c
    simp [Body.marks, Body.blank, Body.line, Body.name, Body.keyStart, Body.key, CharSet.contains,
      CharSet.covers, Folding.apply, Member.covers, CharClass.contains, opensComment, inLine, inHeader,
      opensKey, inKey, bne, Bool.or_assoc]

theorem takes_comment : Takes (.seq (.chars Body.marks) (Body.many Body.line)) comment := by
  obtain ⟨marks, -, line, -⟩ := sets_contain
  rw [comment, ← marks, ← line]
  exact (takesOnly_chars _).seq_takes (takes_many _)

theorem takes_header : Takes
    (.seq (Body.char Sign.leftBracket) (.seq (Body.many Body.name) (Body.char Sign.rightBracket)))
    header := by
  obtain ⟨-, -, -, name, -⟩ := sets_contain
  rw [header, ← name]
  refine (takesOnly_char _).seq_takes (Takes.many_seq _ (takesOnly_char _).takes fun x t inside => ?_)
  rw [name] at inside
  exact one_none (.cons (by simpa using (Bool.and_eq_true_iff.mp inside).1))

theorem takes_assignment : Takes (.seq (.chars Body.keyStart)
    (.seq (Body.many Body.key) (.seq (Body.char Sign.equal) (Body.many Body.line)))) assignment := by
  obtain ⟨-, -, line, -, keyStart, key⟩ := sets_contain
  rw [assignment, ← line, ← keyStart, ← key]
  have value := (takesOnly_char Sign.equal).seq_takes (takes_many Body.line)
  refine (takesOnly_chars _).seq_takes (Takes.many_seq _ value fun x t inside => ?_)
  rw [key] at inside
  exact followed_none (one_none (.cons (by simpa using (Bool.and_eq_true_iff.mp inside).1))) _

theorem takes_blanks : Takes (.loop .greedy 1 none (.chars Body.blank)) (several Text.isBlank) := by
  rw [← sets_contain.2.1]
  exact takes_several _

theorem takes_fronts : ∀ p ∈ bodies.zip fronts, Takes p.1 p.2 := by
  intro p member
  simp only [bodies, fronts, List.zip_cons_cons, List.zip_nil_left, List.mem_cons, List.not_mem_nil,
    or_false] at member
  rcases member with rfl | rfl | rfl | rfl
  · exact takes_comment
  · exact takes_blanks
  · exact takes_header
  · exact takes_assignment

theorem engine_node : engine.pattern.node = Node.ofChoices.alternatives (groups 0 bodies) := by
  decide +kernel

theorem engine_names : ∀ i < 4, engine.pattern.groupName? (i + 1) = some (Engine.groupName i) := by
  decide +kernel

/-- The engine's pattern finds the token at the start of the text ahead. -/
theorem engine_matchAt (c : Cursor) : engine.pattern.matchAt c =
    (lexeme? c.after).map fun token =>
      ⟨c, c.advance token.2.length, some (Engine.groupName token.1)⟩ :=
  groups_matchAt engine_node engine_names takes_fronts rfl c

end TokenRules.Ini
