import TokenRules.Proofs.Json.Lexing

/-! Tokens at a seam. The tokens in front of a place stay the same when another text is put behind it, if
this begins with the same token character, or with one that no number and no blank goes on with. One
character decides: a point or an exponent mark begins no token, so none follows a number. -/
namespace TokenRules.Json

open Pattern

/-- The text of a string ends where its mark stands, whatever follows. -/
theorem quotedPart_append (found : quotedPart t = some w) (s : Text) : quotedPart (w ++ s) = some w := by
  fun_induction quotedPart t generalizing w with
  | case1 | case3 | case5 => simp at found
  | case2 t =>
    obtain rfl := Option.some.inj found
    rfl
  | case4 c t plain ih =>
    obtain ⟨v, rest, rfl⟩ := Option.map_eq_some_iff.mp found
    rw [List.append_assoc, List.cons_append, List.cons_append, List.nil_append, quotedPart, if_neg plain,
      ih rest]
    rfl
  | case6 c t noMark noEscape single ih =>
    obtain ⟨v, rest, rfl⟩ := Option.map_eq_some_iff.mp found
    rw [List.cons_append, quotedPart_bare noMark (not_backslash single noEscape), ih rest]
    rfl

theorem quoted_append (found : quoted t = some w) (s : Text) : quoted (w ++ s) = some w := by
  obtain ⟨mark, v, first, rest, rfl⟩ := followed_eq_some.mp found
  obtain ⟨x, u, -, isMark, rfl⟩ := one_eq_some.mp first
  rw [List.append_assoc]
  exact followed_append (one_eq_some.mpr ⟨x, _, rfl, isMark, rfl⟩) (quotedPart_append rest s)

/-- No digit goes on with a number, unless the number is a zero alone. -/
theorem number_ends (found : number (w ++ t) = some w) :
    Ahead (Text.isDigit · = false) t ∨ w = [0x30] ∨ w = [Sign.hyphen, 0x30] := by
  obtain ⟨sign, v, signed, unsigned, rfl⟩ := followed_eq_some.mp found
  rw [List.append_assoc, List.drop_left] at unsigned
  obtain ⟨whole, v, first, rest, rfl⟩ := followed_eq_some.mp unsigned
  rw [List.append_assoc, List.drop_left] at rest
  obtain ⟨f, e, second, last, rfl⟩ := followed_eq_some.mp rest
  rw [List.append_assoc, List.drop_left] at last
  have several : ∀ w, several Text.isDigit (w ++ t) = some w → Ahead (Text.isDigit · = false) t :=
    fun _ => several_ahead
  rcases perhaps_eq_some.mp last with exponent | ⟨-, rfl⟩
  · exact .inl (followed_ahead (fun _ => followed_ahead several) exponent)
  rcases perhaps_eq_some.mp second with fraction | ⟨-, rfl⟩
  · rw [List.append_nil] at fraction
    exact .inl (followed_ahead several fraction)
  rcases Option.or_eq_some_iff.mp first with zero | ⟨-, digits⟩
  · obtain ⟨x, _, -, same, rfl⟩ := one_eq_some.mp zero
    obtain rfl : x = 0x30 := by simpa using same
    rcases perhaps_eq_some.mp signed with hyphen | ⟨-, rfl⟩
    · obtain ⟨y, _, -, same, rfl⟩ := one_eq_some.mp hyphen
      obtain rfl : y = Sign.hyphen := by simpa using same
      exact .inr (.inr rfl)
    · exact .inr (.inl rfl)
  · rw [List.append_nil, List.append_nil] at digits
    exact .inl (followed_ahead (fun _ => many_ahead) digits)

/-- A zero alone needs only that no fraction and no exponent follows. -/
theorem number_zero (closed : Ahead (fun c => c ≠ Sign.stop ∧ c ≠ 0x65 ∧ c ≠ 0x45) s)
    (zero : w = [0x30] ∨ w = [Sign.hyphen, 0x30]) : number (w ++ s) = some w := by
  have fraction : fractionPart s = none :=
    followed_none (one_none (closed.imp fun x ends => by simpa using ends.1)) _
  have exponent : exponentPart s = none :=
    followed_none (one_none (closed.imp fun x ends => by simpa using ends.2)) _
  have unsigned : followed wholePart (followed (perhaps fractionPart) (perhaps exponentPart))
      ([0x30] ++ s) = some [0x30] :=
    followed_append (v := []) rfl (followed_append (u := []) (v := [])
      (by simp [perhaps, fraction]) (by simp [perhaps, exponent]))
  have signed : ∀ negative, number ((NumberLiteral.mk negative [] none none).sign ++ ([0x30] ++ s)) =
      some ((NumberLiteral.mk negative [] none none).sign ++ [0x30]) := fun negative =>
    followed_append (NumberLiteral.sign_taken _ (.cons (by decide))) unsigned
  rcases zero with rfl | rfl
  · exact signed false
  · exact signed true

/-- A text begins as another does, with the first character of a token. -/
def SameStart (s t : Text) : Prop :=
  ∃ x s' t', s = x :: s' ∧ t = x :: t' ∧ (ruleAt? x).isSome

/-- A text may stand in the place of another behind a token: they begin with the same character, that of a
token, or it begins with a character that goes on with no number and no blank. -/
def Replaces (s t : Text) : Prop :=
  SameStart s t ∨ Ahead (fun x => EndsNumber x ∧ Text.isBlank x = false) s

theorem number_replaced (found : number (w ++ t) = some w)
    (replaces : SameStart s t ∨ Ahead EndsNumber s) : number (w ++ s) = some w := by
  obtain ⟨n, rfl, formed⟩ := number_sound (D := .lenient) found fun c _ digit => digit
  rcases replaces with ⟨x, s, t, rfl, rfl, kind⟩ | ends
  · have marks : ∀ mark ∈ [Sign.stop, 0x65, 0x45], x ≠ mark := by
      rintro mark member rfl
      have none : ∀ mark ∈ [Sign.stop, 0x65, 0x45], ruleAt? mark = none := by decide
      rw [none x member] at kind
      contradiction
    have marks : x ≠ Sign.stop ∧ x ≠ 0x65 ∧ x ≠ 0x45 := by simpa using marks
    rcases number_ends found with noDigit | zero
    · exact formed.taken Dialect.lenient_narrow.digit (.cons ⟨noDigit x rfl, marks⟩)
    · exact number_zero (.cons marks) zero
  · exact formed.taken Dialect.lenient_narrow.digit ends

theorem blanks_replaced (found : several Text.isBlank (w ++ t) = some w) (replaces : Replaces s t) :
    several Text.isBlank (w ++ s) = some w := by
  obtain ⟨nonempty, all⟩ := several_eq_some found
  refine several_append nonempty all ?_
  rcases replaces with ⟨x, s, t, rfl, rfl, -⟩ | ends
  · exact .cons (several_ahead found x rfl)
  · exact ends.imp fun x h => h.2

/-- A token that is not blank is found in front of any text that does not go on with a number. -/
theorem lexeme?_solid (found : lexeme? (w ++ t) = some (i, w)) (solid : i ≠ 11)
    (replaces : SameStart s t ∨ Ahead EndsNumber s) : lexeme? (w ++ s) = some (i, w) := by
  obtain ⟨front, rule, taken⟩ := lexeme?_eq_some.mp found
  refine lexeme?_eq_some.mpr ⟨front, rule, ?_⟩
  cases ruleFront rule with
  | number => exact number_replaced taken replaces
  | quoted => exact quoted_append taken s
  | blanks => contradiction
  | word =>
    obtain rfl := word_eq_some taken
    exact if_pos (List.prefix_append _ s)

/-- A token is found in front of the other text as well. -/
theorem lexeme?_replaced (found : lexeme? (w ++ t) = some (i, w)) (replaces : Replaces s t) :
    lexeme? (w ++ s) = some (i, w) := by
  by_cases blank : i = 11
  · subst blank
    exact lexeme?_eq_some.mpr ⟨_, rfl, blanks_replaced (lexeme?_front found rfl) replaces⟩
  · exact lexeme?_solid found blank (replaces.imp_right fun ends => ends.imp fun x h => h.1)

/-- Whatever stands behind tokens, the text starts as the first of them does. -/
theorem sameStart_tile (tokens : (tile ((token :: before).flatMap Prod.snd ++ u)).1 = token :: rest)
    (s : Text) :
    SameStart ((token :: before).flatMap Prod.snd ++ s) ((token :: before).flatMap Prod.snd ++ u) := by
  obtain ⟨i, w⟩ := token
  obtain ⟨_, -, found, -⟩ := tile_cons tokens
  obtain ⟨-, x, w, rfl, kind⟩ := lexeme?_spec found
  exact ⟨x, _, _, rfl, rfl, by simp [kind]⟩

/-- The tokens up to a place, and what is behind it. Another text that may stand there leaves them as they
are, and adds its own. -/
theorem tile_replaced (tokens : (tile t).1 = before ++ after) :
    ∃ u, t = before.flatMap Prod.snd ++ u ∧ tile u = (after, (tile t).2) ∧ ∀ s, Replaces s u →
      tile (before.flatMap Prod.snd ++ s) = (before ++ (tile s).1, (tile s).2) := by
  induction before generalizing t with
  | nil => exact ⟨t, rfl, Prod.ext tokens rfl, fun s _ => rfl⟩
  | cons token before ih =>
    obtain ⟨i, w⟩ := token
    obtain ⟨v, rfl, found, rest⟩ := tile_cons tokens
    obtain ⟨u, rfl, behind, same⟩ := ih (congrArg Prod.fst rest)
    refine ⟨u, by simp, by rw [behind, rest], fun s replaces => ?_⟩
    have next : Replaces (before.flatMap Prod.snd ++ s) (before.flatMap Prod.snd ++ u) := by
      cases before with
      | nil => exact replaces
      | cons token before => exact .inl (sameStart_tile (congrArg Prod.fst rest) s)
    rw [List.flatMap_cons, List.append_assoc, tile_some (lexeme?_replaced found next), same s replaces]
    rfl

end TokenRules.Json
