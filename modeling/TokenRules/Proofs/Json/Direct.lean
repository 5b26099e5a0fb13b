import TokenRules.Proofs.Json.Lexer

/-! A lexer of JSON texts written out by hand. The first character tells the rule of a token, and what
follows is read one character after the other, without ever going back. It finds what the rules find. -/
namespace TokenRules.Json

open Pattern

namespace Direct

/-- A front with all digits behind it; nothing if no digit stands there. -/
def beforeDigits (front t : Text) : Text :=
  match t.takeWhile Text.isDigit with
  | [] => []
  | digits => front ++ digits

/-- A fraction, if a point is followed by a digit. -/
def fraction : Text → Text
  | Sign.stop :: t => beforeDigits [Sign.stop] t
  | _ => []

def isMark (c : CodePoint) : Bool := c == 0x65 || c == 0x45

def isSign (c : CodePoint) : Bool := c == Sign.hyphen || c == Sign.plus

/-- An exponent, if its mark and perhaps a sign are followed by a digit. -/
def exponent : Text → Text
  | [] | [_] => []
  | mark :: c :: t =>
    if isMark mark then
      if isSign c then beforeDigits [mark, c] t else beforeDigits [mark] (c :: t)
    else []

/-- What follows the whole part of a number. -/
def afterWhole (t : Text) : Text :=
  fraction t ++ exponent (t.drop (fraction t).length)

/-- Zero alone, or a digit from one to nine and all digits after it, and then the rest of the number. -/
def unsigned : Text → Option Text
  | [] => none
  | x :: t =>
    if x == 0x30 then some (x :: afterWhole t)
    else if 0x31 ≤ x && x ≤ 0x39 then
      some (x :: (t.takeWhile Text.isDigit ++ afterWhole (t.dropWhile Text.isDigit)))
    else none

def number : Text → Option Text
  | Sign.hyphen :: t => (unsigned t).map (Sign.hyphen :: ·)
  | t => unsigned t

/-- Whether the last character is a backslash that does not belong to the backslash before it. -/
def unpaired (t : Text) : Bool :=
  (t.reverse.takeWhile (· == Sign.backslash)).length % 2 == 1

/-- Where the first mark stands that no unpaired backslash precedes. -/
def closing? (t : Text) : Option Nat :=
  (List.range t.length).find? fun i => t[i]? == some Sign.quotation && !unpaired (t.take i)

/-- Whether an unpaired backslash precedes a line feed in front of a place. -/
def broken (t : Text) (i : Nat) : Bool :=
  (List.range i).any fun j => t[j]? == some Sign.lineFeed && unpaired (t.take j)

/-- The text behind the opening mark of a string, with the mark that closes it. -/
def quotation (t : Text) : Option Text :=
  (closing? t).bind fun i => if broken t i then none else some (t.take (i + 1))

def string : Text → Option Text
  | Sign.quotation :: t => (quotation t).map (Sign.quotation :: ·)
  | _ => none

/-- What a rule takes of a text that begins with a character of the rule. -/
def read (rule : Nat) (t : Text) : Option Text :=
  match rule with
  | 0 => word (Text.ofString "null") t
  | 1 => word (Text.ofString "true") t
  | 2 => word (Text.ofString "false") t
  | 3 => number t
  | 4 => string t
  | 11 => some (t.takeWhile Text.isBlank)
  | _ => some (t.take 1)

/-- The token at the start of a text: the number of its rule, and its text. -/
def token? (t : Text) : Option (Nat × Text) :=
  (t.head?.bind ruleAt?).bind fun rule => (read rule t).map (rule, ·)

theorem beforeDigits_eq (front t : Text) :
    beforeDigits front t = ((several Text.isDigit t).map (front ++ ·)).getD [] := by
  rw [beforeDigits, several_eq]
  split
  · next none => rw [if_pos none]; rfl
  · next digits some => rw [if_neg some]; rfl

theorem followed_one (set : CodePoint → Bool) (front : Text → Option Text) (x : CodePoint) (t : Text) :
    followed (one set) front (x :: t) = if set x then (front t).map (x :: ·) else none := by
  by_cases inside : set x
  · simp [followed, one, inside]
  · simp [followed, one, inside]

theorem followed_perhaps_one (set : CodePoint → Bool) (front : Text → Option Text) (x : CodePoint)
    (t : Text) : followed (perhaps (one set)) front (x :: t) =
      if set x then (front t).map (x :: ·) else front (x :: t) := by
  by_cases inside : set x
  · simp [followed, perhaps, one, inside]
  · simp [followed, perhaps, one, inside]

theorem fraction_eq (t : Text) : perhaps fractionPart t = some (fraction t) := by
  cases t with
  | nil => rfl
  | cons x t =>
    rw [perhaps, fractionPart, followed_one]
    by_cases point : x = Sign.stop
    · subst point
      rw [if_pos (by rfl), fraction, beforeDigits_eq]
      rfl
    · rw [if_neg (by simpa using point), fraction]
      · rfl
      · rintro u same
        exact absurd (List.cons.inj same).1 point

theorem exponent_eq (t : Text) : perhaps exponentPart t = some (exponent t) := by
  match t with
  | [] => rfl
  | [x] =>
    rw [perhaps, exponentPart, followed_one]
    split <;> rfl
  | x :: c :: t =>
    rw [perhaps, exponentPart, followed_one, followed_perhaps_one, exponent]
    change some ((if isMark x then
      (if isSign c then _ else _ : Option Text).map (x :: ·) else none).getD []) = _
    split
    · split
      · rw [beforeDigits_eq, Option.map_map]
        rfl
      · rw [beforeDigits_eq]
        rfl
    · rfl

theorem afterWhole_eq (t : Text) :
    followed (perhaps fractionPart) (perhaps exponentPart) t = some (afterWhole t) := by
  rw [followed, fraction_eq, Option.bind_some, exponent_eq]
  rfl

theorem unsigned_eq (t : Text) :
    followed wholePart (followed (perhaps fractionPart) (perhaps exponentPart)) t = unsigned t := by
  cases t with
  | nil => rfl
  | cons x t =>
    rw [followed, wholePart, either, followed_one, unsigned]
    by_cases zero : x == 0x30
    · simp only [one, zero, if_true, Option.some_or, Option.bind_some, afterWhole_eq]
      rfl
    · simp only [one, zero, Bool.false_eq_true, if_false, Option.none_or]
      split
      · have behind : t.drop (t.takeWhile Text.isDigit).length = t.dropWhile Text.isDigit :=
          calc t.drop (t.takeWhile Text.isDigit).length
            _ = (t.takeWhile Text.isDigit ++ t.dropWhile Text.isDigit).drop
                (t.takeWhile Text.isDigit).length := by rw [List.takeWhile_append_dropWhile]
            _ = t.dropWhile Text.isDigit := List.drop_left
        simp [many, afterWhole_eq, behind]
      · rfl

theorem number_eq (t : Text) : Json.number t = number t := by
  cases t with
  | nil => rfl
  | cons x t =>
    rw [Json.number, followed_perhaps_one]
    by_cases hyphen : x = Sign.hyphen
    · subst hyphen
      rw [if_pos (by rfl), number, unsigned_eq]
    · rw [if_neg (by simpa using hyphen), number, unsigned_eq]
      rintro u same
      exact absurd (List.cons.inj same).1 hyphen

/-- A backslash and the character after it change nothing for what follows them. -/
theorem unpaired_escape (c : CodePoint) (u : Text) :
    unpaired (Sign.backslash :: c :: u) = unpaired u := by
  have ending : (Sign.backslash :: c :: u).reverse = u.reverse ++ [c, Sign.backslash] := by simp
  rw [unpaired, unpaired, ending, List.takeWhile_append]
  split
  · next all =>
    by_cases backslash : c = Sign.backslash
    · subst backslash
      simp [all]
    · simp [all, backslash]
  · rfl

theorem unpaired_cons (plain : c ≠ Sign.backslash) (u : Text) : unpaired (c :: u) = unpaired u := by
  rw [unpaired, unpaired, List.reverse_cons, List.takeWhile_append]
  split
  · next all => simp [all, plain]
  · rfl

theorem unpaired_nil : unpaired [] = false := rfl

theorem unpaired_lone : unpaired [Sign.backslash] = true := rfl

theorem closing_cons (noMark : c ≠ Sign.quotation) (plain : c ≠ Sign.backslash) (t : Text) :
    closing? (c :: t) = (closing? t).map (· + 1) := by
  have first : (c == Sign.quotation) = false := by simpa using noMark
  have later (i : Nat) : ((c :: t)[i + 1]? == some Sign.quotation && !unpaired ((c :: t).take (i + 1))) =
      (t[i]? == some Sign.quotation && !unpaired (t.take i)) := by
    rw [List.getElem?_cons_succ, List.take_succ_cons, unpaired_cons plain]
  rw [closing?, List.length_cons, List.range_succ_eq_map, List.find?_cons, List.getElem?_cons_zero,
    Option.some_beq_some, first, Bool.false_and, List.find?_map]
  simp only [Function.comp_def, Nat.succ_eq_add_one, later, closing?]

theorem closing_escape (c : CodePoint) (t : Text) :
    closing? (Sign.backslash :: c :: t) = (closing? t).map (· + 2) := by
  have first : (Sign.backslash == Sign.quotation) = false := rfl
  rw [closing?, List.length_cons, List.length_cons, List.range_succ_eq_map, List.range_succ_eq_map,
    List.map_cons, List.find?_cons, List.find?_cons]
  simp [closing?, first, unpaired_lone, unpaired_escape, Function.comp_def]

theorem broken_cons (plain : c ≠ Sign.backslash) (t : Text) (i : Nat) :
    broken (c :: t) (i + 1) = broken t i := by
  rw [broken, List.range_succ_eq_map]
  simp [broken, unpaired_nil, unpaired_cons plain, Function.comp_def]

theorem broken_escape (c : CodePoint) (t : Text) (i : Nat) :
    broken (Sign.backslash :: c :: t) (i + 2) = (c == Sign.lineFeed || broken t i) := by
  rw [broken, List.range_succ_eq_map, List.range_succ_eq_map]
  simp [broken, unpaired_nil, unpaired_lone, unpaired_escape, Function.comp_def]

theorem quotation_cons (noMark : c ≠ Sign.quotation) (plain : c ≠ Sign.backslash) (t : Text) :
    quotation (c :: t) = (quotation t).map (c :: ·) := by
  rw [quotation, quotation, closing_cons noMark plain]
  cases closing? t with
  | none => rfl
  | some i =>
    simp only [Option.map_some, Option.bind_some, broken_cons plain, List.take_succ_cons]
    split <;> rfl

theorem quotation_escape (noFeed : c ≠ Sign.lineFeed) (t : Text) :
    quotation (Sign.backslash :: c :: t) = (quotation t).map ([Sign.backslash, c] ++ ·) := by
  have kept : (c == Sign.lineFeed) = false := by simpa using noFeed
  rw [quotation, quotation, closing_escape]
  cases closing? t with
  | none => rfl
  | some i =>
    simp only [Option.map_some, Option.bind_some, broken_escape, kept, Bool.false_or,
      List.take_succ_cons]
    split <;> rfl

theorem quotation_feed (t : Text) : quotation (Sign.backslash :: Sign.lineFeed :: t) = none := by
  rw [quotation, closing_escape]
  cases closing? t <;> simp [broken_escape]

theorem quotation_mark (t : Text) : quotation (Sign.quotation :: t) = some [Sign.quotation] := by
  have first : closing? (Sign.quotation :: t) = some 0 := by
    rw [closing?, List.length_cons, List.range_succ_eq_map, List.find?_cons_of_pos]
    rfl
  rw [quotation, first]
  rfl

theorem quotation_eq (t : Text) : quotedPart t = quotation t := by
  fun_induction quotedPart t with
  | case1 => rfl
  | case2 t => exact (quotation_mark t).symm
  | case3 c t feed =>
    obtain rfl : c = Sign.lineFeed := by simpa using feed
    exact (quotation_feed t).symm
  | case4 c t noFeed ih =>
    rw [ih]
    exact (quotation_escape (by simpa using noFeed) t).symm
  | case5 => rfl
  | case6 c t noMark noEscape single ih =>
    rw [ih, quotation_cons noMark (not_backslash single noEscape)]

theorem string_eq (t : Text) : quoted t = string t := by
  cases t with
  | nil => rfl
  | cons x t =>
    rw [quoted, followed_one, quotation_eq]
    by_cases mark : x = Sign.quotation
    · subst mark
      rfl
    · rw [if_neg (by simpa using mark), string]
      rintro u same
      exact absurd (List.cons.inj same).1 mark

theorem blanks_eq (blank : Text.isBlank x) (t : Text) :
    several Text.isBlank (x :: t) = some ((x :: t).takeWhile Text.isBlank) := by
  rw [several_eq, if_neg]
  simp [blank]

theorem sign_eq (c : CodePoint) (t : Text) : word [c] (c :: t) = some ((c :: t).take 1) := by
  simp [word]

/-- The rules that take a single sign, with the sign. -/
def signs : List (Nat × CodePoint) :=
  [(5, Sign.leftBracket), (6, Sign.leftBrace), (7, Sign.rightBracket), (8, Sign.rightBrace),
   (9, Sign.comma), (10, Sign.colon)]

theorem some_of_ite {p : Prop} [Decidable p] {other : Option α}
    (found : (if p then some a else other) = some b) : p ∧ a = b ∨ other = some b := by
  by_cases here : p
  · rw [if_pos here] at found
    exact .inl ⟨here, Option.some.inj found⟩
  · rw [if_neg here] at found
    exact .inr found

theorem ruleAt?_cases (begins : ruleAt? x = some i) :
    i = 11 ∧ Text.isBlank x ∨ i = 3 ∨ i = 4 ∨ i < 3 ∨ (i, x) ∈ signs := by
  unfold ruleAt? at begins
  obtain ⟨blank, rfl⟩ | begins := some_of_ite begins
  · exact .inl ⟨rfl, blank⟩
  obtain ⟨-, rfl⟩ | begins := some_of_ite begins
  · exact .inr (.inl rfl)
  refine .inr (.inr ?_)
  iterate 10
    obtain ⟨sign, rfl⟩ | begins := some_of_ite begins
    · obtain rfl := eq_of_beq sign
      decide
  contradiction

/-- What is read at a character that a rule begins with is what the rule takes. -/
theorem read_eq (begins : ruleAt? x = some i) (t : Text) :
    ∃ front, fronts[i]? = some front ∧ front (x :: t) = read i (x :: t) := by
  rcases ruleAt?_cases begins with ⟨rfl, blank⟩ | rfl | rfl | early | sign
  · exact ⟨_, rfl, blanks_eq blank t⟩
  · exact ⟨_, rfl, number_eq _⟩
  · exact ⟨_, rfl, string_eq _⟩
  · match i, early with
    | 0, _ | 1, _ | 2, _ => exact ⟨_, rfl, rfl⟩
  · simp only [signs, List.mem_cons, Prod.mk.injEq, List.not_mem_nil, or_false] at sign
    rcases sign with ⟨rfl, rfl⟩ | ⟨rfl, rfl⟩ | ⟨rfl, rfl⟩ | ⟨rfl, rfl⟩ | ⟨rfl, rfl⟩ | ⟨rfl, rfl⟩
    all_goals exact ⟨_, rfl, sign_eq _ t⟩

theorem token?_eq_some : token? t = some (i, w) ↔
    ∃ x u, t = x :: u ∧ ruleAt? x = some i ∧ read i t = some w := by
  cases t with
  | nil => simp [token?]
  | cons x t =>
    simp only [token?, List.head?_cons, Option.bind_some, Option.bind_eq_some_iff,
      Option.map_eq_some_iff, Prod.mk.injEq]
    constructor
    · rintro ⟨i, begins, w, found, rfl, rfl⟩
      exact ⟨x, t, rfl, begins, found⟩
    · rintro ⟨_, _, same, begins, found⟩
      obtain ⟨rfl, rfl⟩ := List.cons.inj same
      exact ⟨i, begins, w, found, rfl, rfl⟩

/-- The rules find what is read by hand. -/
theorem lexeme?_eq (t : Text) : lexeme? t = token? t := by
  ext ⟨i, w⟩
  constructor
  · intro found
    obtain ⟨⟨rest, ahead⟩, x, u, shape, begins⟩ := lexeme?_spec found
    rw [shape, List.cons_append] at ahead
    obtain ⟨front, rule, same⟩ := read_eq begins (u ++ rest)
    refine token?_eq_some.mpr ⟨x, u ++ rest, ahead.symm, begins, ?_⟩
    rw [← ahead, ← same, ahead, lexeme?_front found rule]
  · intro found
    obtain ⟨x, u, rfl, begins, read⟩ := token?_eq_some.mp found
    obtain ⟨front, rule, same⟩ := read_eq begins u
    exact lexeme?_eq_some.mpr ⟨front, rule, same.trans read⟩

end Direct

end TokenRules.Json
