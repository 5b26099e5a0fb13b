import TokenRules.Json.Grammar
import TokenRules.Proofs.Json.Lexer
import TokenRules.Proofs.Json.Syntax

/-! Number tokens against the grammar of numbers: the number rule takes exactly the literals that the
grammar spells, and reading one gives the number that it denotes. -/
namespace TokenRules.Json

open Pattern

variable {D : Dialect}

/-- A character that cannot go on with a number. -/
def EndsNumber (c : CodePoint) : Prop :=
  Text.isDigit c = false ∧ c ≠ Sign.stop ∧ c ≠ 0x65 ∧ c ≠ 0x45

instance (c : CodePoint) : Decidable (EndsNumber c) :=
  inferInstanceAs (Decidable (_ ∧ _ ∧ _ ∧ _))

theorem isDigit_of_ascii {c : CodePoint} (least : 0x30 ≤ c) (greatest : c ≤ 0x39) :
    Text.isDigit c := by
  have all : ∀ c < 0x3A, 0x30 ≤ c → Text.isDigit c := by decide
  exact all c (Nat.lt_succ_of_le greatest) least

namespace NumberLiteral

variable {n : NumberLiteral}

theorem WellFormed.whole_digits (formed : n.WellFormed D) (digits : ∀ c, D.digit c → Text.isDigit c) :
    n.whole ≠ [] ∧ ∀ c ∈ n.whole, Text.isDigit c := by
  rcases formed.whole with zero | ⟨c, rest, same, least, greatest, others⟩
  · rw [zero]
    exact ⟨by simp, by decide⟩
  · rw [same]
    refine ⟨by simp, List.forall_mem_cons.mpr ⟨isDigit_of_ascii (Nat.le_of_succ_le least) greatest, ?_⟩⟩
    exact fun d member => digits d (others d member)

theorem sign_taken (n : NumberLiteral) {t : Text} (digit : Ahead (Text.isDigit ·) t) :
    perhaps (one (· == Sign.hyphen)) (n.sign ++ t) = some n.sign := by
  have outside : Ahead (fun c => (c == Sign.hyphen) = false) t :=
    digit.imp fun x digit => by
      rw [beq_eq_false_iff_ne]
      rintro rfl
      contradiction
  cases negative : n.negative with
  | false => simp [perhaps, sign, negative, one_none outside]
  | true => simp [perhaps, sign, negative, one]

theorem WellFormed.whole_taken (formed : n.WellFormed D) (digits : ∀ c, D.digit c → Text.isDigit c)
    (closed : Ahead (Text.isDigit · = false) t) : wholePart (n.whole ++ t) = some n.whole := by
  rcases formed.whole with zero | ⟨c, rest, same, least, greatest, others⟩
  · rw [zero]
    rfl
  · have nonzero : (decide (0x31 ≤ c) && decide (c ≤ 0x39)) = true := by simp [least, greatest]
    have noZero : one (· == 0x30) (c :: (rest ++ t)) = none := by
      have : c ≠ 0x30 := by
        rintro rfl
        contradiction
      simp [one, this]
    rw [same, wholePart, either, List.cons_append, noZero, Option.none_or]
    exact followed_append (u := [c]) (one_cons nonzero _)
      (many_append (fun d member => digits d (others d member)) closed)

theorem WellFormed.fraction_taken (formed : n.WellFormed D)
    (digits : ∀ c, D.digit c → Text.isDigit c)
    (closed : Ahead (fun c => Text.isDigit c = false ∧ c ≠ Sign.stop) t) :
    perhaps fractionPart (n.fractionText ++ t) = some n.fractionText := by
  cases fraction : n.fraction with
  | none =>
    have nothing : fractionPart t = none :=
      followed_none (one_none (closed.imp fun x h => by simpa using h.2)) _
    simp [fractionText, fraction, perhaps, nothing]
  | some f =>
    obtain ⟨nonempty, all⟩ := formed.fraction f fraction
    have taken : fractionPart ([Sign.stop] ++ (f ++ t)) = some ([Sign.stop] ++ f) :=
      followed_append (one_cons (by simp) _)
        (several_append nonempty (fun c member => digits c (all c member)) (closed.imp fun x h => h.1))
    have text : n.fractionText = [Sign.stop] ++ f := by simp [fractionText, fraction]
    rw [text, perhaps, List.append_assoc, taken]
    rfl

theorem WellFormed.exponent_taken (formed : n.WellFormed D)
    (digits : ∀ c, D.digit c → Text.isDigit c) (closed : Ahead EndsNumber t) :
    perhaps exponentPart (n.exponentText ++ t) = some n.exponentText := by
  cases exponent : n.exponent with
  | none =>
    have nothing : exponentPart t = none :=
      followed_none (one_none (closed.imp fun x ends => by simpa using ends.2.2)) _
    simp [exponentText, exponent, perhaps, nothing]
  | some e =>
    obtain ⟨mark, sign, nonempty, all⟩ := formed.exponent e exponent
    have digits' : several Text.isDigit (e.digits ++ t) = some e.digits :=
      several_append nonempty (fun c member => digits c (all c member)) (closed.imp fun x ends => ends.1)
    have signed : perhaps (one fun c => c == Sign.hyphen || c == Sign.plus)
        (e.sign.toList ++ (e.digits ++ t)) = some e.sign.toList := by
      cases here : e.sign with
      | none =>
        obtain ⟨x, ds, same⟩ := List.exists_cons_of_ne_nil nonempty
        have digit : Text.isDigit x := digits x (all x (by simp [same]))
        have outside : (x == Sign.hyphen || x == Sign.plus) = false := by
          rw [Bool.or_eq_false_iff, beq_eq_false_iff_ne, beq_eq_false_iff_ne]
          constructor
          · rintro rfl
            contradiction
          · rintro rfl
            contradiction
        simp [perhaps, same, one, outside]
      | some s => rcases sign s here with rfl | rfl <;> rfl
    have taken : exponentPart ([e.mark] ++ (e.sign.toList ++ (e.digits ++ t))) =
        some ([e.mark] ++ (e.sign.toList ++ e.digits)) :=
      followed_append (one_cons (by simpa using mark) _) (followed_append signed digits')
    have text : n.exponentText = [e.mark] ++ (e.sign.toList ++ e.digits) := by
      simp [exponentText, exponent, Exponent.text]
    rw [text, perhaps, List.append_assoc, List.append_assoc, taken]
    rfl

theorem WellFormed.ahead_exponent (formed : n.WellFormed D) (closed : Ahead EndsNumber t) :
    Ahead (fun c => Text.isDigit c = false ∧ c ≠ Sign.stop) (n.exponentText ++ t) := by
  refine Ahead.append ?_ (closed.imp fun x ends => ⟨ends.1, ends.2.1⟩)
  cases exponent : n.exponent with
  | none => simp [exponentText, exponent, Ahead]
  | some e =>
    intro x here
    obtain rfl : e.mark = x := by simpa [exponentText, exponent, Exponent.text] using here
    rcases (formed.exponent e exponent).mark with mark | mark
    · rw [mark]
      decide
    · rw [mark]
      decide

theorem WellFormed.ahead_fraction (formed : n.WellFormed D) (closed : Ahead EndsNumber t) :
    Ahead (Text.isDigit · = false) (n.fractionText ++ (n.exponentText ++ t)) := by
  refine Ahead.append ?_ ((formed.ahead_exponent closed).imp fun x ends => ends.1)
  cases fraction : n.fraction with
  | none => simp [fractionText, fraction, Ahead]
  | some f =>
    intro x here
    obtain rfl : Sign.stop = x := by simpa [fractionText, fraction] using here
    rfl

/-- The number rule takes the whole of a literal, up to a character that cannot go on with it. -/
theorem WellFormed.taken (formed : n.WellFormed D) (digits : ∀ c, D.digit c → Text.isDigit c)
    (closed : Ahead EndsNumber t) : number (n.text ++ t) = some n.text := by
  have digit : Ahead (Text.isDigit ·) (n.whole ++ (n.fractionText ++ (n.exponentText ++ t))) := by
    obtain ⟨nonempty, all⟩ := formed.whole_digits digits
    obtain ⟨x, u, same⟩ := List.exists_cons_of_ne_nil nonempty
    intro y here
    obtain rfl : x = y := by simpa [same] using here
    exact all x (by simp [same])
  simp only [text, List.append_assoc]
  exact followed_append (n.sign_taken digit)
    (followed_append (formed.whole_taken digits (formed.ahead_fraction closed))
      (followed_append (formed.fraction_taken digits (formed.ahead_exponent closed))
        (formed.exponent_taken digits closed)))

end NumberLiteral

theorem fractionPart_sound (found : perhaps fractionPart t = some w)
    (digits : ∀ c ∈ w, Text.isDigit c → D.digit c) : ∃ fraction : Option Text,
      w = fraction.elim [] (Sign.stop :: ·) ∧ ∀ f ∈ fraction, f ≠ [] ∧ ∀ c ∈ f, D.digit c := by
  rcases perhaps_eq_some.mp found with taken | ⟨-, rfl⟩
  · obtain ⟨u, f, point, rest, rfl⟩ := followed_eq_some.mp taken
    obtain ⟨x, -, -, stop, rfl⟩ := one_eq_some.mp point
    obtain rfl : x = Sign.stop := by simpa using stop
    obtain ⟨nonempty, all⟩ := several_eq_some rest
    refine ⟨some f, rfl, fun g same => ?_⟩
    obtain rfl := Option.some.inj same
    exact ⟨nonempty, fun c member => digits c (List.mem_append_right _ member) (all c member)⟩
  · exact ⟨none, rfl, by simp⟩

theorem exponentPart_sound (found : perhaps exponentPart t = some w)
    (digits : ∀ c ∈ w, Text.isDigit c → D.digit c) : ∃ exponent : Option Exponent,
      w = exponent.elim [] Exponent.text ∧ ∀ e ∈ exponent, e.WellFormed D := by
  rcases perhaps_eq_some.mp found with taken | ⟨-, rfl⟩
  · obtain ⟨u, v, marked, rest, rfl⟩ := followed_eq_some.mp taken
    obtain ⟨x, -, -, mark, rfl⟩ := one_eq_some.mp marked
    obtain ⟨u, ds, signed, last, rfl⟩ := followed_eq_some.mp rest
    obtain ⟨nonempty, all⟩ := several_eq_some last
    have plain : ∀ c ∈ ds, D.digit c := fun c member =>
      digits c (List.mem_append_right _ (List.mem_append_right _ member)) (all c member)
    have sign : ∃ s : Option CodePoint, u = s.toList ∧ ∀ c ∈ s, c = Sign.hyphen ∨ c = Sign.plus := by
      rcases perhaps_eq_some.mp signed with taken | ⟨-, rfl⟩
      · obtain ⟨c, -, -, sign, rfl⟩ := one_eq_some.mp taken
        exact ⟨some c, rfl, by simpa using sign⟩
      · exact ⟨none, rfl, by simp⟩
    obtain ⟨s, rfl, signs⟩ := sign
    refine ⟨some ⟨x, s, ds⟩, rfl, fun e same => ?_⟩
    obtain rfl := Option.some.inj same
    exact ⟨by simpa using mark, signs, nonempty, plain⟩
  · exact ⟨none, rfl, by simp⟩

theorem wholePart_sound (found : wholePart t = some w)
    (digits : ∀ c ∈ w, Text.isDigit c → D.digit c) : w = [0x30] ∨
      ∃ c rest, w = c :: rest ∧ 0x31 ≤ c ∧ c ≤ 0x39 ∧ ∀ d ∈ rest, D.digit d := by
  rcases Option.or_eq_some_iff.mp found with zero | ⟨-, taken⟩
  · obtain ⟨x, -, -, same, rfl⟩ := one_eq_some.mp zero
    exact .inl (by simpa using same)
  · obtain ⟨u, rest, first, others, rfl⟩ := followed_eq_some.mp taken
    obtain ⟨x, -, -, nonzero, rfl⟩ := one_eq_some.mp first
    simp only [Bool.and_eq_true, decide_eq_true_eq] at nonzero
    refine .inr ⟨x, rest, rfl, nonzero.1, nonzero.2, fun d member => ?_⟩
    exact digits d (List.mem_append_right _ member) (many_eq_some others d member)

/-- What the number rule takes is a literal, of any dialect that has its digits. -/
theorem number_sound (found : number t = some w) (digits : ∀ c ∈ w, Text.isDigit c → D.digit c) :
    ∃ n : NumberLiteral, w = n.text ∧ n.WellFormed D := by
  obtain ⟨u, v, sign, unsigned, rfl⟩ := followed_eq_some.mp found
  obtain ⟨whole, v, first, rest, rfl⟩ := followed_eq_some.mp unsigned
  obtain ⟨f, e, second, last, rfl⟩ := followed_eq_some.mp rest
  have sign : ∃ negative : Bool, u = if negative then [Sign.hyphen] else [] := by
    rcases perhaps_eq_some.mp sign with taken | ⟨-, rfl⟩
    · obtain ⟨x, -, -, hyphen, rfl⟩ := one_eq_some.mp taken
      exact ⟨true, by simpa using hyphen⟩
    · exact ⟨false, rfl⟩
  obtain ⟨negative, rfl⟩ := sign
  have whole' := wholePart_sound first fun c member => digits c (by simp [member])
  obtain ⟨fraction, rfl, formed⟩ := fractionPart_sound second fun c member => digits c (by simp [member])
  obtain ⟨exponent, rfl, formed'⟩ := exponentPart_sound last fun c member => digits c (by simp [member])
  exact ⟨⟨negative, whole, fraction, exponent⟩, rfl, whole', formed, formed'⟩

theorem digitsOf_length (all : ∀ c ∈ t, Text.isDigit c) : (digitsOf t).length = t.length := by
  induction t with
  | nil => rfl
  | cons c t ih =>
    obtain ⟨first, others⟩ := List.forall_mem_cons.mp all
    obtain ⟨d, value⟩ := Option.isSome_iff_exists.mp first
    have rest := ih others
    simp only [digitsOf, List.filterMap_cons, value, List.length_cons] at rest ⊢
    rw [rest]

theorem digitsOf_some (nonempty : t ≠ []) (all : ∀ c ∈ t, Text.isDigit c) :
    (digitsOf t).isEmpty = false := by
  have count := digitsOf_length all
  cases same : digitsOf t with
  | nil =>
    rw [same] at count
    exact absurd (List.eq_nil_of_length_eq_zero count.symm) nonempty
  | cons d ds => rfl

theorem digitsOf_append (t u : Text) : digitsOf (t ++ u) = digitsOf t ++ digitsOf u :=
  List.filterMap_append

theorem wellGrouped_digits (nonempty : t ≠ []) (all : ∀ c ∈ t, c ≠ 0x5F) :
    Decimal.wellGrouped t = true := by
  fun_induction Decimal.wellGrouped t with
  | case1 => contradiction
  | case2 c => simpa using all
  | case3 c d rest ih =>
    obtain ⟨first, others⟩ := List.forall_mem_cons.mp all
    obtain ⟨second, -⟩ := List.forall_mem_cons.mp others
    simp [first, second] at ih ⊢
    exact ih (by simpa [second] using others)

theorem spanDigits_append (all : ∀ c ∈ u, Text.isDigit c) (closed : Ahead (Text.isDigit · = false) t) :
    Decimal.spanDigits (u ++ t) = (digitsOf u, t) := by
  have taken : (u ++ t).takeWhile Text.isDigit = u := Option.some.inj (many_append all closed)
  have left : (u ++ t).dropWhile Text.isDigit = t := by
    have whole := List.takeWhile_append_dropWhile (p := Text.isDigit) (l := u ++ t)
    rw [taken] at whole
    exact List.append_cancel_left whole
  rw [Decimal.spanDigits, taken, left]
  rfl

theorem splitSign_digit (digit : Text.isDigit c) (t : Text) :
    Decimal.splitSign (c :: t) = (false, c :: t) := by
  unfold Decimal.splitSign
  split
  · next same =>
    obtain rfl := (List.cons.inj same).1
    contradiction
  · next same =>
    obtain rfl := (List.cons.inj same).1
    contradiction
  · rfl

theorem dropMargin (least : 0x21 ≤ c) (greatest : c ≤ 0x39) (t : Text) :
    (c :: t).dropWhile Decimal.isMargin = c :: t := by
  have all : ∀ c < 0x3A, 0x21 ≤ c → Decimal.isMargin c = false := by decide
  exact List.dropWhile_cons_of_neg (by rw [all c (Nat.lt_succ_of_le greatest) least]; decide)

namespace NumberLiteral

variable {n : NumberLiteral}

theorem WellFormed.whole_head (formed : n.WellFormed D) :
    ∃ c rest, n.whole = c :: rest ∧ 0x30 ≤ c ∧ c ≤ 0x39 := by
  rcases formed.whole with zero | ⟨c, rest, same, least, greatest, -⟩
  · exact ⟨_, [], zero, Nat.le_refl _, by decide⟩
  · exact ⟨c, rest, same, Nat.le_of_succ_le least, greatest⟩

theorem WellFormed.split_sign (formed : n.WellFormed D) (t : Text) :
    Decimal.splitSign (n.sign ++ (n.whole ++ t)) = (n.negative, n.whole ++ t) := by
  obtain ⟨c, rest, same, least, greatest⟩ := formed.whole_head
  cases negative : n.negative with
  | false =>
    rw [sign, negative, same]
    exact splitSign_digit (isDigit_of_ascii least greatest) _
  | true =>
    rw [sign, negative]
    rfl

theorem WellFormed.readInteger (formed : n.WellFormed D)
    (digits : ∀ c, D.digit c → Text.isDigit c) : Decimal.readInteger (n.sign ++ n.whole) =
      if Decimal.maxIntegerDigits < n.whole.length then .error (.tooManyDigits n.whole.length)
      else .ok (signed n.negative (Decimal.digitsValue (digitsOf n.whole))) := by
  obtain ⟨nonempty, all⟩ := formed.whole_digits digits
  have margin : (n.sign ++ n.whole).dropWhile Decimal.isMargin = n.sign ++ n.whole := by
    obtain ⟨c, rest, same, least, greatest⟩ := formed.whole_head
    cases negative : n.negative with
    | false =>
      rw [sign, negative, same]
      exact dropMargin (Nat.le_trans (by decide) least) greatest rest
    | true =>
      rw [sign, negative]
      exact dropMargin (c := Sign.hyphen) (by decide) (by decide) n.whole
  have split : Decimal.splitSign (n.sign ++ n.whole) = (n.negative, n.whole) := by
    simpa using formed.split_sign []
  have isBody : ∀ c ∈ n.whole, (Text.isDigit c || c == 0x5F) = true := fun c member => by
    simp [all c member]
  have body : n.whole.takeWhile (fun c => Text.isDigit c || c == 0x5F) = n.whole := by
    rw [← List.append_nil n.whole, List.takeWhile_append_of_pos (by simpa using isBody)]
    simp
  have rest : n.whole.dropWhile (fun c => Text.isDigit c || c == 0x5F) = [] := by
    rw [← List.append_nil n.whole, List.dropWhile_append_of_pos (by simpa using isBody)]
    simp
  have grouped : Decimal.wellGrouped n.whole = true :=
    wellGrouped_digits nonempty fun c member => by
      rintro rfl
      exact absurd (all _ member) (by decide)
  have count : (n.whole.filterMap Text.digitValue?).length = n.whole.length := digitsOf_length all
  simp only [Decimal.readInteger, margin, split, body, rest, grouped, count, if_false,
    List.all_nil, Bool.not_true, Bool.false_eq_true]
  rfl

theorem WellFormed.readFraction (formed : n.WellFormed D)
    (digits : ∀ c, D.digit c → Text.isDigit c) :
    Decimal.readFraction? (n.fractionText ++ n.exponentText) =
      some (digitsOf (n.fraction.getD []), n.exponentText) := by
  have ahead := formed.ahead_exponent (t := []) (by simp [Ahead])
  rw [List.append_nil] at ahead
  cases fraction : n.fraction with
  | none =>
    have text : n.fractionText = [] := by simp [fractionText, fraction]
    rw [text, List.nil_append]
    unfold Decimal.readFraction?
    split
    · next rest here => exact absurd rfl (ahead Sign.stop (by simp [here])).2
    · rfl
  | some f =>
    obtain ⟨nonempty, all⟩ := formed.fraction f fraction
    have span := spanDigits_append (fun c member => digits c (all c member))
      (ahead.imp fun x h => h.1)
    have text : n.fractionText = Sign.stop :: f := by simp [fractionText, fraction]
    have valued := digitsOf_some nonempty fun c member => digits c (all c member)
    rw [text, List.cons_append]
    simp only [Decimal.readFraction?, span, valued, Option.getD_some]
    rfl

theorem WellFormed.readExponent (formed : n.WellFormed D)
    (digits : ∀ c, D.digit c → Text.isDigit c) :
    Decimal.readExponent? n.exponentText = some (n.exponent.elim 0 Exponent.value, []) := by
  cases exponent : n.exponent with
  | none =>
    rw [exponentText, exponent]
    rfl
  | some e =>
    obtain ⟨mark, sign, nonempty, all⟩ := formed.exponent e exponent
    have span := spanDigits_append (t := []) (fun c member => digits c (all c member))
      (by simp [Ahead])
    rw [List.append_nil] at span
    have text : n.exponentText = e.mark :: (e.sign.toList ++ e.digits) := by
      simp [exponentText, exponent, Exponent.text]
    have marked : (e.mark == 0x65 || e.mark == 0x45) = true := by simpa using mark
    have valued := digitsOf_some nonempty fun c member => digits c (all c member)
    have split : Decimal.splitSign (e.sign.toList ++ e.digits) =
        (e.sign == some Sign.hyphen, e.digits) := by
      cases here : e.sign with
      | none =>
        obtain ⟨x, ds, same⟩ := List.exists_cons_of_ne_nil nonempty
        rw [same]
        exact splitSign_digit (digits x (all x (by simp [same]))) ds
      | some s => rcases sign s here with rfl | rfl <;> rfl
    simp only [text, Decimal.readExponent?, marked, split, span, valued, if_true]
    rfl

theorem digitsValue_zeros (digits : List Nat) :
    Decimal.digitsValue (digits.dropWhile (· == 0)) = Decimal.digitsValue digits := by
  induction digits with
  | nil => rfl
  | cons d ds ih =>
    by_cases zero : d = 0
    · subst zero
      exact ih
    · rw [List.dropWhile_cons_of_neg (by simpa using zero)]

theorem WellFormed.readReal (formed : n.WellFormed D) (digits : ∀ c, D.digit c → Text.isDigit c) :
    Decimal.readReal? n.text = some (Binary64.ofDecimal n.negative (Decimal.digitsValue n.digits)
      (n.digits.dropWhile (· == 0)).length n.scale) := by
  obtain ⟨nonempty, all⟩ := formed.whole_digits digits
  have ahead := formed.ahead_fraction (t := []) (by simp [Ahead])
  rw [List.append_nil] at ahead
  have span := spanDigits_append all ahead
  have valued := digitsOf_some nonempty all
  have places : (digitsOf (n.fraction.getD [])).length = (n.fraction.getD []).length := by
    cases fraction : n.fraction with
    | none => rfl
    | some f =>
      exact digitsOf_length fun c member => digits c ((formed.fraction f fraction).2 c member)
  simp only [Decimal.readReal?, text, formed.split_sign, span, formed.readFraction digits,
    formed.readExponent digits, valued, Option.bind_eq_bind, Option.bind_some, digitsValue_zeros,
    places, NumberLiteral.digits, digitsOf_append, scale]
  rfl

theorem WellFormed.any_mark (formed : n.WellFormed D)
    (digits : ∀ c, D.digit c → Text.isDigit c) :
    (n.text.any fun c => c == Sign.stop || c == 0x65 || c == 0x45) =
      (n.fraction.isSome || n.exponent.isSome) := by
  have sign : (n.sign.any fun c => c == Sign.stop || c == 0x65 || c == 0x45) = false := by
    rw [NumberLiteral.sign]
    cases n.negative <;> rfl
  have whole : (n.whole.any fun c => c == Sign.stop || c == 0x65 || c == 0x45) = false := by
    rw [List.any_eq_false]
    intro c member mark
    have digit := (formed.whole_digits digits).2 c member
    simp only [Bool.or_eq_true, beq_iff_eq] at mark
    rcases mark with (rfl | rfl) | rfl <;> contradiction
  rw [text, List.any_append, List.any_append, List.any_append, sign, whole, Bool.false_or,
    Bool.false_or]
  cases fraction : n.fraction with
  | some f => simp [fractionText, fraction]
  | none =>
    cases exponent : n.exponent with
    | none => simp [fractionText, exponentText, fraction, exponent]
    | some e =>
      rcases (formed.exponent e exponent).mark with mark | mark
      · simp [fractionText, exponentText, fraction, exponent, Exponent.text, mark]
      · simp [fractionText, exponentText, fraction, exponent, Exponent.text, mark]

/-- Reading a literal gives the number that it denotes, unless it is an integer with too many
digits. -/
theorem WellFormed.readNumber_ok (formed : n.WellFormed D)
    (digits : ∀ c, D.digit c → Text.isDigit c) : readNumber n.text = .ok v ↔
      (n.IsInteger → n.whole.length ≤ Decimal.maxIntegerDigits) ∧ v = n.value := by
  rw [readNumber, formed.any_mark digits]
  cases fraction : n.fraction with
  | some f =>
    have real : ¬ n.IsInteger := fun integer => by simp [integer.1] at fraction
    simp [formed.readReal digits, value, fraction, real, eq_comm]
  | none =>
    cases exponent : n.exponent with
    | some e =>
      have real : ¬ n.IsInteger := fun integer => by simp [integer.2] at exponent
      simp [formed.readReal digits, value, fraction, exponent, real, eq_comm]
    | none =>
      have integer : n.IsInteger := ⟨fraction, exponent⟩
      have bare : n.text = n.sign ++ n.whole := by
        simp [text, fractionText, exponentText, fraction, exponent]
      rw [bare, formed.readInteger digits]
      by_cases long : Decimal.maxIntegerDigits < n.whole.length
      · have short : ¬ n.whole.length ≤ Decimal.maxIntegerDigits := Nat.not_le.mpr long
        simp [long, integer, short]
      · have short : n.whole.length ≤ Decimal.maxIntegerDigits := Nat.not_lt.mp long
        simp [long, integer, short, value, fraction, exponent, NumberLiteral.digits, eq_comm]

theorem WellFormed.readNumber_error (formed : n.WellFormed D)
    (digits : ∀ c, D.digit c → Text.isDigit c) : readNumber n.text = .error flaw ↔
      n.IsInteger ∧ Decimal.maxIntegerDigits < n.whole.length ∧
        flaw = .literal (.tooManyDigits n.whole.length) := by
  by_cases overlong : n.IsInteger ∧ Decimal.maxIntegerDigits < n.whole.length
  · obtain ⟨integer, long⟩ := overlong
    have bare : n.text = n.sign ++ n.whole := by
      simp [text, fractionText, exponentText, integer.1, integer.2]
    have unmarked := formed.any_mark digits
    rw [integer.1, integer.2] at unmarked
    rw [readNumber, unmarked, bare, formed.readInteger digits, if_pos long]
    simp [integer, long, eq_comm]
  · have read : readNumber n.text = .ok n.value := (formed.readNumber_ok digits).mpr
      ⟨fun integer => Nat.not_lt.mp fun long => overlong ⟨integer, long⟩, rfl⟩
    rw [read]
    constructor
    · intro failed
      contradiction
    · rintro ⟨integer, long, -⟩
      exact absurd ⟨integer, long⟩ overlong

end NumberLiteral
end TokenRules.Json
