import TokenRules.Pattern.Part

/-! Reading a pattern from its source, one part at a time. Which part comes next depends on the
tokens and on the flags in effect; the part then changes what has been read. -/
namespace TokenRules.Pattern.Reader

/-- A part and the tokens after it. -/
abbrev Parsed := Except Fault (Part × List Token)

/-- After a part, the rest of the source is no longer than before. -/
def Shortens (ts : List Token) (p : Parsed) : Prop :=
  ∀ part rest, p = .ok (part, rest) → rest.length ≤ ts.length

/-- The flag letters at the start. -/
def flagLetters : List Token → List Flag × List Token
  | .plain c :: rest =>
    match Flag.ofLetter? c with
    | some flag => let (flags, rest) := flagLetters rest; (flag :: flags, rest)
    | none => ([], .plain c :: rest)
  | ts => ([], ts)

theorem flagLetters_length (ts : List Token) : (flagLetters ts).2.length ≤ ts.length := by
  fun_induction flagLetters ts <;> simp_all; omega

def flagSet (flags : List Flag) : Flags :=
  flags.foldl Flags.insert {}

/-- The flags that a group removes, up to its colon. A choice of classes cannot be removed. -/
def removedFlags (ts : List Token) : Except Fault (Flags × List Token) :=
  match flagLetters ts with
  | (flag :: flags, .plain Sign.colon :: rest) =>
    let removed := flagSet (flag :: flags)
    if removed.ascii || removed.unicode || removed.template then .error .badSyntax
    else .ok (removed, rest)
  | _ => .error .badSyntax

/-- A group that starts with flags: either for the whole pattern or for what it encloses. -/
def flagGroup (ts : List Token) : Parsed :=
  let (letters, rest) := flagLetters ts
  let added := flagSet letters
  if added.ascii && added.unicode then .error .badSyntax
  else
    match letters, rest with
    | _ :: _, .plain Sign.rightParen :: rest => .ok (.flags added, rest)
    | _ :: _, .plain Sign.colon :: rest =>
      if added.template then .error .badSyntax else .ok (.scope added {}, rest)
    | _, .plain Sign.hyphen :: rest =>
      match removedFlags rest with
      | .error e => .error e
      | .ok (removed, rest) =>
        if added.template || added.meets removed then .error .badSyntax
        else .ok (.scope added removed, rest)
    | _, _ => .error .badSyntax

/-- A group or a reference with a name. -/
def named (ts : List Token) : Parsed :=
  match ts with
  | .plain Sign.less :: rest =>
    match Token.nameUntil Sign.greater rest with
    | .error e => .error e
    | .ok (name, rest) =>
      if Text.isIdentifier name then .ok (.capture (some name), rest) else .error .badSyntax
  | .plain Sign.equal :: rest =>
    (Token.nameUntil Sign.rightParen rest).map fun (name, rest) => (.namedReference name, rest)
  | _ => .error .badSyntax

/-- What follows an opening parenthesis and a question mark. -/
def extension (ts : List Token) : Parsed :=
  match ts with
  | .plain Sign.colon :: rest => .ok (.plainGroup, rest)
  | .plain Sign.number :: rest => (Token.afterComment rest).map fun rest => (.nothing, rest)
  | .plain Sign.equal :: rest => .ok (.look false false, rest)
  | .plain Sign.exclamation :: rest => .ok (.look false true, rest)
  | .plain Sign.less :: .plain Sign.equal :: rest => .ok (.look true false, rest)
  | .plain Sign.less :: .plain Sign.exclamation :: rest => .ok (.look true true, rest)
  | .plain Sign.greater :: rest => .ok (.atomicGroup, rest)
  | .plain Sign.leftParen :: rest =>
    (Token.nameUntil Sign.rightParen rest).map fun (name, rest) => (.condition name, rest)
  | .plain 0x50 :: rest => named rest
  | ts => flagGroup ts

/-- What follows an opening parenthesis. -/
def group (ts : List Token) : Parsed :=
  match ts with
  | .plain Sign.question :: rest => extension rest
  | _ => .ok (.capture none, ts)

/-- A loop over the last item; a question mark after it makes it lazy, a plus possessive. -/
def loop (repetition : Repetition) (ts : List Token) : Parsed :=
  match ts with
  | .plain Sign.question :: rest => .ok (.loop repetition .lazy, rest)
  | .plain Sign.plus :: rest => .ok (.loop repetition .possessive, rest)
  | _ => .ok (.loop repetition .greedy, ts)

/-- An opening brace: a loop if a count follows, or else plain text. -/
def brace (f : Flags) (ts : List Token) : Parsed :=
  match Repetition.read ts with
  | .error e => .error e
  | .ok none => .ok (.atom f (.char Sign.leftBrace), ts)
  | .ok (some (repetition, rest)) => loop repetition rest

/-- A backslash and a digit other than zero: an octal number of three digits, or the number of a
group, of at most two digits. -/
def reference (f : Flags) (c : CodePoint) (ts : List Token) : Parsed :=
  let value (d : CodePoint) : Nat := d - 0x30
  match ts with
  | .plain d :: rest =>
    if !Text.isAsciiDigit d then .ok (.numberedReference (value c), ts)
    else
      match rest with
      | .plain e :: rest' =>
        if [c, d, e].all Escape.isOctalDigit then
          (Escape.octal [c, d, e] rest').map fun (atom, rest) => (.atom f atom, rest)
        else .ok (.numberedReference (value c * 10 + value d), rest)
      | _ => .ok (.numberedReference (value c * 10 + value d), rest)
  | _ => .ok (.numberedReference (value c), ts)

/-- The anchors that a backslash and a letter name. -/
def anchor? (f : Flags) : CodePoint → Option Anchor
  | 0x41 => some .textStart
  | 0x5A => some .textEnd
  | 0x62 => some (.wordEdge f.ascii)
  | 0x42 => some (.noWordEdge f.ascii)
  | _ => none

/-- The blanks that a verbose pattern skips. -/
def isSkipped (c : CodePoint) : Bool :=
  Text.isAsciiBlank c

/-- The signs that loop the item before them. -/
def loopSign? : CodePoint → Option Repetition
  | Sign.question => some ⟨0, some 1⟩
  | Sign.asterisk => some ⟨0, none⟩
  | Sign.plus => some ⟨1, none⟩
  | _ => none

/-- The signs that stand for an anchor. -/
def anchorSign? (f : Flags) : CodePoint → Option Anchor
  | Sign.caret => some (if f.multiline then .lineStart else .opening)
  | Sign.dollar => some (if f.multiline then .lineEnd else .closingEnd)
  | _ => none

/-- What stands after the last token: no group may be open. -/
def finish (r : Reading) : Except Fault Reading :=
  if !r.outer.isEmpty then .error .badSyntax
  else
    match r.conflict? with
    | some fault => .error fault
    | none =>
      if r.groups.count < r.expected then .error .badSyntax
      else
        if r.deferred then .error .badSyntax else .ok r

theorem flagGroup_length : Shortens ts (flagGroup ts) := by
  intro part rest h
  have letters := flagLetters_length ts
  have removed (ts' : List Token) := flagLetters_length ts'
  simp only [flagGroup, removedFlags] at h
  grind

theorem named_length : Shortens ts (named ts) := by
  intro part rest h
  simp only [named, Except.map] at h
  grind [→ Token.nameUntil_length]

theorem extension_length : Shortens ts (extension ts) := by
  intro part rest h
  have names (ts' : List Token) : Shortens ts' (named ts') := named_length
  have flags (ts' : List Token) : Shortens ts' (flagGroup ts') := flagGroup_length
  simp only [Shortens] at names flags
  simp only [extension, Except.map] at h
  grind [→ Token.afterComment_length, → Token.nameUntil_length]

theorem group_length : Shortens ts (group ts) := by
  intro part rest h
  have inner (ts' : List Token) : Shortens ts' (extension ts') := extension_length
  simp only [Shortens] at inner
  simp only [group] at h
  grind

theorem loop_length : Shortens ts (loop repetition ts) := by
  intro part rest h
  simp only [loop] at h
  grind

theorem brace_length : Shortens ts (brace f ts) := by
  intro part rest h
  have inner (ts' : List Token) (n : Repetition) : Shortens ts' (loop n ts') := loop_length
  simp only [Shortens] at inner
  simp only [brace] at h
  grind [→ Repetition.read_length]

theorem reference_length : Shortens ts (reference f c ts) := by
  intro part rest h
  simp only [reference, Except.map] at h
  grind [→ Escape.octal_rest]

variable [CharacterNames]

def bracket (f : Flags) (ts : List Token) : Parsed :=
  (Bracket.read f ts).map fun (set, rest) => (.chars set, rest)

def escape (f : Flags) (c : CodePoint) (ts : List Token) : Parsed :=
  match anchor? f c with
  | some condition => .ok (.anchor condition, ts)
  | none =>
    if c == 0x30 then
      let (digits, rest) := Token.span Escape.isOctalDigit 2 ts
      .ok (.atom f (.char (Escape.octalNumber digits)), rest)
    else if Text.isAsciiDigit c then reference f c ts
    else (Escape.common c ts).map fun (atom, rest) => (.atom f atom, rest)

/-- Reads an item, or a loop over the last one. -/
def item (f : Flags) (c : CodePoint) (ts : List Token) : Parsed :=
  match loopSign? c, anchorSign? f c with
  | some repetition, _ => loop repetition ts
  | _, some condition => .ok (.anchor condition, ts)
  | none, none =>
    if c == Sign.leftBracket then bracket f ts
    else if c == Sign.leftBrace then brace f ts
    else if c == Sign.leftParen then group ts
    else if c == Sign.stop then .ok (.chars (CharSet.dot f), ts)
    else .ok (.atom f (.char c), ts)

/-- Reads one part that starts with a plain character. -/
def plain (f : Flags) (c : CodePoint) (ts : List Token) : Parsed :=
  if c == Sign.bar then .ok (.alternative, ts)
  else if c == Sign.rightParen then .ok (.close, ts)
  else if f.verbose && isSkipped c then .ok (.nothing, ts)
  else if f.verbose && c == Sign.number then .ok (.nothing, Token.afterLine ts)
  else item f c ts

/-- Reads the part that starts with a token. -/
def part (f : Flags) : Token → List Token → Parsed
  | .dangling, _ => .error .badSyntax
  | .escaped c, ts => escape f c ts
  | .plain c, ts => plain f c ts

theorem bracket_length : Shortens ts (bracket f ts) := by
  intro part rest h
  simp only [bracket, Except.map] at h
  grind [→ Bracket.read_length]

theorem escape_length : Shortens ts (escape f c ts) := by
  intro part rest h
  have inner : Shortens ts (reference f c ts) := reference_length
  have octal := Token.span_length Escape.isOctalDigit 2 ts
  simp only [Shortens] at inner
  simp only [escape, Except.map] at h
  grind [→ Escape.common_length]

theorem item_length : Shortens ts (item f c ts) := by
  intro part rest h
  have brackets : Shortens ts (bracket f ts) := bracket_length
  have loops (n : Repetition) : Shortens ts (loop n ts) := loop_length
  have braces : Shortens ts (brace f ts) := brace_length
  have groups : Shortens ts (group ts) := group_length
  simp only [Shortens] at brackets loops braces groups
  simp only [item] at h
  grind

theorem plain_length : Shortens ts (plain f c ts) := by
  intro part rest h
  have line := Token.afterLine_length ts
  have items : Shortens ts (item f c ts) := item_length
  simp only [Shortens] at items
  simp only [plain] at h
  grind

theorem part_length (h : part f t ts = .ok (p, rest)) : rest.length ≤ ts.length := by
  cases t with
  | dangling => simp [part] at h
  | escaped c => exact escape_length _ _ h
  | plain c => exact plain_length _ _ h

/-- Reads the tokens to the end. -/
def read : List Token → Reading → Except Fault Reading
  | [], r => finish r
  | t :: ts, r =>
    match _h : part r.flags t ts with
    | .error e => .error e
    | .ok (p, rest) =>
      match p.apply r with
      | .error e => .error e
      | .ok r => read rest r
termination_by ts => ts.length
decreasing_by
  have := part_length _h
  simp; omega

end TokenRules.Pattern.Reader
