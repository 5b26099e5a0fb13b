import TokenRules.Proofs.Pattern.Fronts
import TokenRules.Text.Blank
import TokenRules.Text.Digit
import TokenRules.Text.Sign

/-! The tokens of JSON texts, found without going back. Each rule takes a front of the text, and the first
character tells the rules apart. -/
namespace TokenRules.Json

open Pattern

/-- Zero alone, or a digit from one to nine and all digits after it. -/
def wholePart : Text → Option Text :=
  either (one (· == 0x30)) (followed (one fun c => 0x31 ≤ c && c ≤ 0x39) (many Text.isDigit))

def fractionPart : Text → Option Text :=
  followed (one (· == Sign.stop)) (several Text.isDigit)

def exponentPart : Text → Option Text :=
  followed (one fun c => c == 0x65 || c == 0x45)
    (followed (perhaps (one fun c => c == Sign.hyphen || c == Sign.plus)) (several Text.isDigit))

def number : Text → Option Text :=
  followed (perhaps (one (· == Sign.hyphen)))
    (followed wholePart (followed (perhaps fractionPart) (perhaps exponentPart)))

/-- What follows an opening quotation mark, up to the mark that closes it. A backslash takes the
character after it along, unless that is a line feed. -/
def quotedPart : Text → Option Text
  | [] => none
  | Sign.quotation :: _ => some [Sign.quotation]
  | Sign.backslash :: c :: t =>
    if c == Sign.lineFeed then none else (quotedPart t).map ([Sign.backslash, c] ++ ·)
  | [Sign.backslash] => none
  | c :: t => (quotedPart t).map (c :: ·)

/-- A character that is no backslash at the end and none in front of another character is none at all. -/
theorem not_backslash (single : c = Sign.backslash → t = [] → False)
    (noEscape : ∀ d u, c = Sign.backslash → t = d :: u → False) : c ≠ Sign.backslash := by
  rintro rfl
  cases t with
  | nil => exact single rfl rfl
  | cons d t => exact noEscape d t rfl rfl

theorem quotedPart_bare (noMark : c ≠ Sign.quotation) (noBackslash : c ≠ Sign.backslash) (t : Text) :
    quotedPart (c :: t) = (quotedPart t).map (c :: ·) :=
  quotedPart.eq_5 c t noMark (fun _ _ same _ => noBackslash same) fun same _ => noBackslash same

def quoted : Text → Option Text :=
  followed (one (· == Sign.quotation)) quotedPart

/-- The fronts that the rules take, in order of priority. -/
def fronts : List (Text → Option Text) :=
  [word (Text.ofString "null"), word (Text.ofString "true"), word (Text.ofString "false"),
   number, quoted, word [Sign.leftBracket], word [Sign.leftBrace], word [Sign.rightBracket],
   word [Sign.rightBrace], word [Sign.comma], word [Sign.colon], several Text.isBlank]

/-- The rule that a token must belong to by its first character. -/
def ruleAt? (c : CodePoint) : Option Nat :=
  if Text.isBlank c then some 11
  else if c == Sign.hyphen || Text.isAsciiDigit c then some 3
  else if c == 0x6E then some 0
  else if c == 0x74 then some 1
  else if c == 0x66 then some 2
  else if c == Sign.quotation then some 4
  else if c == Sign.leftBracket then some 5
  else if c == Sign.leftBrace then some 6
  else if c == Sign.rightBracket then some 7
  else if c == Sign.rightBrace then some 8
  else if c == Sign.comma then some 9
  else if c == Sign.colon then some 10
  else none

theorem ruleAt?_digit (digit : Text.isAsciiDigit c) : ruleAt? c = some 3 := by
  have digits : ∀ c < 0x3A, 0x30 ≤ c → ruleAt? c = some 3 := by
    decide
  simp only [Text.isAsciiDigit, Bool.and_eq_true, decide_eq_true_eq] at digit
  exact digits c (Nat.lt_succ_of_le digit.2) digit.1

theorem fronts_quotedPart : Fronts quotedPart := by
  intro t w found
  fun_induction quotedPart t generalizing w with
  | case1 => simp at found
  | case2 t =>
    obtain rfl := Option.some.inj found
    exact ⟨t, rfl⟩
  | case3 c t feed => simp at found
  | case4 c t plain ih =>
    obtain ⟨v, rest, rfl⟩ := Option.map_eq_some_iff.mp found
    exact (List.prefix_append_right_inj [Sign.backslash, c]).mpr (ih v rest)
  | case5 => simp at found
  | case6 c t noMark noEscape single ih =>
    obtain ⟨v, rest, rfl⟩ := Option.map_eq_some_iff.mp found
    exact (List.prefix_append_right_inj [c]).mpr (ih v rest)

theorem starts_wholePart : Starts (Text.isAsciiDigit ·) wholePart := by
  refine ((starts_one _).imp fun x zero => ?_).either
    (((starts_one _).imp fun x nonzero => ?_).followed (fronts_many _))
  · obtain rfl : x = 0x30 := by simpa using zero
    rfl
  · simp only [Bool.and_eq_true, decide_eq_true_eq] at nonzero
    simp only [Text.isAsciiDigit, Bool.and_eq_true, decide_eq_true_eq]
    exact ⟨Nat.le_of_succ_le nonzero.1, nonzero.2⟩

theorem starts_number : Starts (ruleAt? · = some 3) number := by
  have fraction : Fronts fractionPart := (starts_one _).fronts.followed (starts_several _).fronts
  have exponent : Fronts exponentPart :=
    (starts_one _).fronts.followed ((starts_one _).fronts.perhaps.followed (starts_several _).fronts)
  have unsigned := starts_wholePart.followed (fraction.perhaps.followed exponent.perhaps)
  refine ((starts_one _).imp fun x hyphen => ?_).perhaps_followed
    (unsigned.imp fun x digit => ruleAt?_digit digit)
  obtain rfl : x = Sign.hyphen := by simpa using hyphen
  rfl

theorem starts_quoted : Starts (ruleAt? · = some 4) quoted := by
  refine ((starts_one _).imp fun x mark => ?_).followed fronts_quotedPart
  obtain rfl : x = Sign.quotation := by simpa using mark
  rfl

/-- The front of a rule. The rules for numbers, strings and blanks have one of their own; all others take
one word, and its first character is theirs. -/
inductive RuleFront : Nat → (Text → Option Text) → Prop
  | number : RuleFront 3 number
  | quoted : RuleFront 4 quoted
  | blanks : RuleFront 11 (several Text.isBlank)
  | word {c : CodePoint} {w : Text} : ruleAt? c = some i → RuleFront i (word (c :: w))

theorem ruleFront (rule : fronts[i]? = some front) : RuleFront i front := by
  obtain ⟨inside, rfl⟩ := List.getElem?_eq_some_iff.mp rule
  change i < 12 at inside
  obtain rfl | rfl | rfl | word : i = 3 ∨ i = 4 ∨ i = 11 ∨
      i = 0 ∨ i = 1 ∨ i = 2 ∨ i = 5 ∨ i = 6 ∨ i = 7 ∨ i = 8 ∨ i = 9 ∨ i = 10 := by
    omega
  · exact .number
  · exact .quoted
  · exact .blanks
  · rcases word with rfl | rfl | rfl | rfl | rfl | rfl | rfl | rfl | rfl
    all_goals exact .word rfl

/-- What a rule takes starts with a character that no other rule can start with. -/
theorem starts_fronts (rule : fronts[i]? = some front) : Starts (ruleAt? · = some i) front := by
  cases ruleFront rule with
  | number => exact starts_number
  | quoted => exact starts_quoted
  | blanks => exact (starts_several _).imp fun x blank => if_pos blank
  | word here => exact (starts_word _ _).imp fun x same => same ▸ here

/-- The number of the first rule that takes a front of the text, counted from `index`, and the front. -/
def firstFront (index : Nat) : List (Text → Option Text) → Text → Option (Nat × Text)
  | [], _ => none
  | front :: rest, t => ((front t).map (index, ·)).or (firstFront (index + 1) rest t)

/-- The token at the start of a text: the number of its rule, and its text. -/
def lexeme? : Text → Option (Nat × Text) :=
  firstFront 0 fronts

theorem firstFront_some (found : firstFront k list t = some (j, w)) :
    ∃ i front, j = k + i ∧ list[i]? = some front ∧ front t = some w := by
  induction list generalizing k with
  | nil => simp [firstFront] at found
  | cons front rest ih =>
    rcases Option.or_eq_some_iff.mp found with first | ⟨-, later⟩
    · obtain ⟨v, taken, same⟩ := Option.map_eq_some_iff.mp first
      obtain ⟨rfl, rfl⟩ := Prod.mk.inj same
      exact ⟨0, front, rfl, rfl, taken⟩
    · obtain ⟨i, front, rfl, rule, taken⟩ := ih later
      exact ⟨i + 1, front, by omega, rule, taken⟩

theorem firstFront_none {i : Nat} {front : Text → Option Text} (nothing : firstFront k list t = none)
    (rule : list[i]? = some front) : front t = none := by
  induction list generalizing k i with
  | nil => simp at rule
  | cons first rest ih =>
    obtain ⟨here, later⟩ := Option.or_eq_none_iff.mp nothing
    cases i with
    | zero =>
      obtain rfl := Option.some.inj rule
      exact Option.map_eq_none_iff.mp here
    | succ i => exact ih later rule

/-- If the first character tells the fronts apart, no two take something from the same text. -/
theorem firstFront_eq_some {kind : CodePoint → Option Nat}
    (starts : ∀ i front, list[i]? = some front → Starts (kind · = some i) front) :
    firstFront 0 list t = some (i, w) ↔ ∃ front, list[i]? = some front ∧ front t = some w := by
  constructor
  · intro found
    obtain ⟨i, front, rfl, rule, taken⟩ := firstFront_some found
    exact ⟨front, by simpa using rule, taken⟩
  · rintro ⟨front, rule, taken⟩
    obtain ⟨⟨_, ahead⟩, x, u, rfl, here⟩ := starts i front rule t w taken
    cases found : firstFront 0 list t with
    | none =>
      rw [firstFront_none found rule] at taken
      contradiction
    | some token =>
      obtain ⟨j, v⟩ := token
      obtain ⟨j, other, rfl, rule', taken'⟩ := firstFront_some found
      obtain ⟨⟨_, ahead'⟩, x', u', rfl, here'⟩ := starts j other rule' t v taken'
      obtain rfl : x = x' := by simpa using congrArg List.head? (ahead.trans ahead'.symm)
      obtain rfl : i = j := Option.some.inj (here.symm.trans here')
      obtain rfl : front = other := Option.some.inj (rule.symm.trans rule')
      rw [taken] at taken'
      simp [Option.some.inj taken']

/-- No two rules can take something from the same text. -/
theorem lexeme?_eq_some : lexeme? t = some (i, w) ↔
    ∃ front, fronts[i]? = some front ∧ front t = some w :=
  firstFront_eq_some fun _ _ => starts_fronts

/-- The token of a rule is what the rule takes. -/
theorem lexeme?_front (found : lexeme? t = some (i, w)) (rule : fronts[i]? = some front) :
    front t = some w := by
  obtain ⟨front', rule', taken⟩ := lexeme?_eq_some.mp found
  obtain rfl := Option.some.inj (rule.symm.trans rule')
  exact taken

theorem lexeme?_inside (found : lexeme? t = some (i, w)) : i < 12 := by
  obtain ⟨front, rule, -⟩ := lexeme?_eq_some.mp found
  exact (List.getElem?_eq_some_iff.mp rule).1

theorem lexeme?_spec (found : lexeme? t = some (i, w)) :
    w <+: t ∧ ∃ x u, w = x :: u ∧ ruleAt? x = some i := by
  obtain ⟨front, rule, taken⟩ := lexeme?_eq_some.mp found
  exact starts_fronts rule t w taken

end TokenRules.Json
