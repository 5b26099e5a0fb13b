import TokenRules.Pattern

/-! The source of a rule's pattern as one alternative among many. Flags of the whole pattern become
flags of a group around it. Groups are renumbered by what stands before them, so a reference to a
group by number is refused. -/
namespace TokenRules

/-- What may be given as a rule's pattern. Patterns over bytes and things that are no patterns are
refused. -/
inductive RulePattern where
  | source (text : Text)
  | compiled (pattern : Pattern)
  | bytes
  | foreign
  deriving DecidableEq, Repr

/-- Why a table of rules does not build. -/
inductive BuildFault where
  | noAction
  | notAPattern
  | notText
  | numberedReference
  | noRules
  | badPattern (fault : Pattern.Fault)
  deriving DecidableEq, Repr

/-- The text of a fault, for those that have one. -/
def BuildFault.message? : BuildFault → Option Text
  | .noAction | .notAPattern => none
  | .notText => some (Text.ofString "Only text patterns are supported.")
  | .numberedReference =>
    some (Text.ofString "Use a named backreference, like (?P=name), in a token rule.")
  | .noRules => some (Text.ofString "A token engine needs at least one rule.")
  | .badPattern fault => fault.message?

namespace RulePattern

/-- The source as it was given. -/
def given : RulePattern → Text
  | .source text => text
  | .compiled pattern => pattern.source
  | .bytes | .foreign => []

/-- The letters `a`, `i`, `L`, `m`, `s`, `u` and `x`. -/
def isFlagLetter (c : CodePoint) : Bool :=
  [0x61, 0x69, 0x4C, 0x6D, 0x73, 0x75, 0x78].contains c

/-- The letters of a group of flags at the start, and what follows it. -/
def leadingFlags? : Text → Option (Text × Text)
  | Sign.leftParen :: Sign.question :: rest =>
    match rest.takeWhile isFlagLetter, rest.dropWhile isFlagLetter with
    | c :: letters, Sign.rightParen :: rest => some (c :: letters, rest)
    | _, _ => none
  | _ => none

theorem leadingFlags_length (h : leadingFlags? t = some (letters, rest)) :
    rest.length < t.length := by
  simp only [leadingFlags?] at h
  split at h
  · next body =>
    have : (body.dropWhile isFlagLetter).length ≤ body.length :=
      (List.dropWhile_suffix _).length_le
    split at h
    · next eq =>
      simp only [Option.some.injEq, Prod.mk.injEq] at h
      obtain ⟨-, rfl⟩ := h
      simp [eq] at this
      simp; omega
    · simp at h
  · simp at h

/-- Takes all groups of flags off the start, adding to `letters` those it has not. -/
def stripFlags (letters source : Text) : Text × Text :=
  match _h : leadingFlags? source with
  | none => (letters, source)
  | some (more, rest) => stripFlags (letters ++ more.filter (!letters.contains ·)) rest
termination_by source.length
decreasing_by exact leadingFlags_length _h

/-- Whether a digit after a backslash refers to a group: not if it starts an octal number. -/
def refersToGroup (c : CodePoint) (rest : Text) : Bool :=
  match rest with
  | d :: e :: _ =>
    (0x31 ≤ c && c ≤ 0x37 && !(Pattern.Escape.isOctalDigit d && Pattern.Escape.isOctalDigit e))
      || c == 0x38 || c == 0x39
  | _ => 0x31 ≤ c && c ≤ 0x39

/-- Whether a source refers to a group by number. -/
def hasNumberedReference : Text → Bool
  | [] => false
  | Sign.backslash :: c :: rest => refersToGroup c rest || hasNumberedReference rest
  | _ :: rest => hasNumberedReference rest

/-- A source under flags. The line feed keeps a comment at its end from swallowing the closing
parenthesis. -/
def underFlags (letters source : Text) : Text :=
  if letters.isEmpty then source
  else
    [Sign.leftParen, Sign.question] ++ letters ++ [Sign.colon] ++ source
      ++ (if letters.contains 0x78 then [Sign.lineFeed] else []) ++ [Sign.rightParen]

/-- The source as an alternative, its flags scoped to it. -/
def alternative (p : RulePattern) : Except BuildFault Text :=
  let scope (letters source : Text) : Except BuildFault Text :=
    let (letters, source) := stripFlags letters source
    if hasNumberedReference source then .error .numberedReference
    else .ok (underFlags letters source)
  match p with
  | .source text => scope [] text
  | .compiled pattern => scope pattern.flags.scopedLetters pattern.source
  | .bytes => .error .notText
  | .foreign => .error .notAPattern

end RulePattern
end TokenRules
