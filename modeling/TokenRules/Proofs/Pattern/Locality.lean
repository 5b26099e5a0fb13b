import TokenRules.Pattern.Reader

/-! How much of the source a part depends on. What is read of a part stays the same when the source
is continued by a closing parenthesis or a line feed, whatever comes after that. Only a comment that
runs to the end of the source goes on into what is added. -/
namespace TokenRules.Pattern

/-- The tokens that were read before the rest; none of them breaks off. -/
def Taken (ts rest : List Token) : Prop :=
  ∃ consumed, ts = consumed ++ rest ∧ Token.dangling ∉ consumed

/-- What may come after a source: nothing in it goes on with what came before. -/
def Stops (tail : List Token) : Prop :=
  ∃ more, tail = .plain Sign.rightParen :: more ∨ tail = .plain Sign.lineFeed :: more

/-- A reader takes tokens from the front, and the same ones if the source goes on. -/
def Local (f : List Token → Except Fault (α × List Token)) : Prop :=
  ∀ ⦃ts a rest⦄, f ts = .ok (a, rest) →
    Taken ts rest ∧ ∀ tail, Stops tail → f (ts ++ tail) = .ok (a, rest ++ tail)

/-- A sign that does not come next does not come next after the source goes on either. -/
theorem Stops.unsigned (stops : Stops tail) (paren : c ≠ Sign.rightParen) (line : c ≠ Sign.lineFeed)
    (other : ∀ rest, ts ≠ .plain c :: rest) : ∀ rest, ts ++ tail ≠ .plain c :: rest := by
  intro rest same
  cases ts with
  | nil => obtain ⟨more, rfl | rfl⟩ := stops <;> simp_all
  | cons t ts => exact other ts (by rw [(List.cons.inj same).1])

namespace Taken

theorem refl (ts : List Token) : Taken ts ts :=
  ⟨[], rfl, by simp⟩

theorem plain (taken : Taken ts rest) (c : CodePoint) : Taken (.plain c :: ts) rest := by
  obtain ⟨consumed, rfl, whole⟩ := taken
  exact ⟨.plain c :: consumed, rfl, by simpa using whole⟩

theorem escaped (taken : Taken ts rest) (c : CodePoint) : Taken (.escaped c :: ts) rest := by
  obtain ⟨consumed, rfl, whole⟩ := taken
  exact ⟨.escaped c :: consumed, rfl, by simpa using whole⟩

theorem trans (first : Taken ts us) (second : Taken us rest) : Taken ts rest := by
  obtain ⟨consumed, rfl, whole⟩ := first
  obtain ⟨consumed', rfl, whole'⟩ := second
  exact ⟨consumed ++ consumed', by simp, by simp [whole, whole']⟩

theorem suffix (taken : Taken ts rest) : rest <:+ ts := by
  obtain ⟨consumed, rfl, -⟩ := taken
  exact ⟨consumed, rfl⟩

end Taken

namespace Local

theorem map {f : List Token → Except Fault (α × List Token)} (reads : Local f) (g : α → β) :
    Local fun ts => (f ts).map fun (a, rest) => (g a, rest) := by
  intro ts b rest h
  obtain ⟨⟨a, rest'⟩, read, same⟩ := map_eq_ok.mp h
  obtain ⟨rfl, rfl⟩ := Prod.mk.inj same
  obtain ⟨taken, append⟩ := reads read
  exact ⟨taken, fun tail stops => map_eq_ok.mpr ⟨_, append tail stops, rfl⟩⟩

theorem here (a : α) : Local fun ts => .ok (a, ts) := by
  intro ts a' rest h
  obtain ⟨rfl, rfl⟩ := Prod.mk.inj (Except.ok.inj h)
  exact ⟨.refl _, fun _ _ => rfl⟩

theorem ite {f g : List Token → Except Fault (α × List Token)} {c : Prop} [Decidable c]
    (reads : Local f) (reads' : Local g) : Local fun ts => if c then f ts else g ts := by
  by_cases holds : c
  · simpa only [holds, if_true] using reads
  · simpa only [holds, if_false] using reads'

end Local

namespace Token

theorem span_append {p : CodePoint → Bool} (paren : p Sign.rightParen = false)
    (line : p Sign.lineFeed = false) (n : Nat) (ts : List Token) (stops : Stops tail) :
    span p n (ts ++ tail) = ((span p n ts).1, (span p n ts).2 ++ tail) := by
  fun_induction span p n ts with
  | case1 n c rest holds cs rest' eq ih =>
    simp only [eq] at ih
    simp only [List.cons_append, span, holds, if_true, ih]
  | case2 n c rest fails => simp [span, fails]
  | case3 n ts other =>
    obtain ⟨more, rfl | rfl⟩ := stops
    all_goals
      match n, ts, other with
      | 0, _, _ => rfl
      | n + 1, [], _ => simp [span, paren, line]
      | n + 1, .plain c :: ts, other => exact (other n c ts rfl rfl).elim
      | n + 1, .escaped c :: ts, _ => rfl
      | n + 1, .dangling :: ts, _ => rfl

theorem span_taken (p : CodePoint → Bool) (n : Nat) (ts : List Token) :
    Taken ts (span p n ts).2 := by
  fun_induction span p n ts with
  | case1 n c rest holds cs rest' eq ih =>
    rw [eq] at ih
    exact ih.plain c
  | case2 | case3 => exact .refl _

theorem span_of_length_le (p : CodePoint → Bool) {n : Nat} {ts : List Token}
    (long : ts.length ≤ n) : span p n ts = span p ts.length ts := by
  induction ts generalizing n with
  | nil => cases n <;> rfl
  | cons t ts ih =>
    obtain ⟨n, rfl⟩ : ∃ m, n = m + 1 := ⟨n - 1, by simp only [List.length_cons] at long; omega⟩
    have shorter : ts.length ≤ n := by simpa using long
    cases t <;> simp only [span, List.length_cons, ih shorter]

theorem spanAll_append {p : CodePoint → Bool} (paren : p Sign.rightParen = false)
    (line : p Sign.lineFeed = false) (ts : List Token) (stops : Stops tail) :
    spanAll p (ts ++ tail) = ((spanAll p ts).1, (spanAll p ts).2 ++ tail) := by
  rw [spanAll, span_append paren line _ ts stops, span_of_length_le p (by simp), spanAll]

theorem nameUntil_local (terminator : CodePoint) : Local (nameUntil terminator) := by
  intro ts name rest h
  fun_induction nameUntil terminator ts generalizing name with
  | case1 | case2 => contradiction
  | case3 c ts closes =>
    obtain ⟨rfl, rfl⟩ := Prod.mk.inj (Except.ok.inj h)
    exact ⟨(Taken.refl _).plain c, fun tail _ => by simp [nameUntil, closes]⟩
  | case4 c ts more ih =>
    obtain ⟨_, read, same⟩ := map_eq_ok.mp h
    obtain ⟨rfl, rfl⟩ := Prod.mk.inj same
    obtain ⟨taken, append⟩ := ih read
    refine ⟨taken.plain c, fun tail stops => ?_⟩
    rw [List.cons_append, nameUntil, if_neg more]
    exact map_eq_ok.mpr ⟨_, append tail stops, rfl⟩
  | case5 c ts ih =>
    obtain ⟨_, read, same⟩ := map_eq_ok.mp h
    obtain ⟨rfl, rfl⟩ := Prod.mk.inj same
    obtain ⟨taken, append⟩ := ih read
    exact ⟨taken.escaped c, fun tail stops => map_eq_ok.mpr ⟨_, append tail stops, rfl⟩⟩

theorem afterComment_local (h : afterComment ts = .ok rest) :
    Taken ts rest ∧ ∀ tail, afterComment (ts ++ tail) = .ok (rest ++ tail) := by
  induction ts with
  | nil => simp [afterComment] at h
  | cons t ts ih =>
    cases t with
    | dangling => simp [afterComment] at h
    | escaped c =>
      obtain ⟨taken, append⟩ := ih (by simpa [afterComment] using h)
      exact ⟨taken.escaped c, fun tail => by simpa [afterComment] using append tail⟩
    | plain c =>
      by_cases closes : c = Sign.rightParen
      · subst closes
        obtain rfl := Except.ok.inj h
        exact ⟨(Taken.refl _).plain _, fun tail => rfl⟩
      · obtain ⟨taken, append⟩ := ih (by simpa [afterComment, closes] using h)
        exact ⟨taken.plain c, fun tail => by simpa [afterComment, closes] using append tail⟩

/-- A comment without a line feed goes on into what follows the source. -/
theorem afterLine_append (ts tail : List Token) :
    Taken ts (afterLine ts) ∧
    (afterLine (ts ++ tail) = afterLine ts ++ tail ∨
      afterLine ts = [] ∧ afterLine (ts ++ tail) = afterLine tail) := by
  induction ts with
  | nil => exact ⟨.refl _, .inr ⟨rfl, rfl⟩⟩
  | cons t ts ih =>
    obtain ⟨taken, append⟩ := ih
    cases t with
    | dangling => exact ⟨.refl _, .inl rfl⟩
    | escaped c => exact ⟨taken.escaped c, by simpa [afterLine] using append⟩
    | plain c =>
      by_cases ends : c = Sign.lineFeed
      · subst ends
        exact ⟨(Taken.refl _).plain _, .inl rfl⟩
      · exact ⟨by simpa [afterLine, ends] using taken.plain c, by simpa [afterLine, ends] using append⟩

end Token
namespace Escape

theorem hexadecimal_local (count : Nat) : Local (hexadecimal count) := by
  intro ts atom rest h
  simp only [hexadecimal] at h
  split at h
  · next fits =>
    simp only [Except.ok.injEq, Prod.mk.injEq] at h
    obtain ⟨rfl, rfl⟩ := h
    refine ⟨Token.span_taken _ _ _, fun tail stops => ?_⟩
    simp only [hexadecimal, Token.span_append (p := Text.isHexDigit) (by decide) (by decide) _ _ stops,
      fits, if_true]
  · simp at h

theorem octal_local (digits : Text) : Local (octal digits) := by
  intro ts atom rest h
  simp only [octal] at h
  split at h
  · next fits =>
    simp only [Except.ok.injEq, Prod.mk.injEq] at h
    obtain ⟨rfl, rfl⟩ := h
    exact ⟨.refl _, fun tail _ => by simp [octal, fits]⟩
  · simp at h

variable [CharacterNames]

theorem byName_local : Local byName := by
  intro ts atom rest h
  obtain ⟨name, c, within, rfl, read, known, rfl⟩ := byName_ok h
  obtain ⟨taken, append⟩ := Token.nameUntil_local _ read
  refine ⟨taken.plain _, fun tail stops => ?_⟩
  simp only [byName, List.cons_append, append tail stops, known]

theorem common_local (c : CodePoint) : Local (common c) := by
  unfold common
  split
  · exact .here _
  · exact .here _
  · exact hexadecimal_local _
  · exact .ite byName_local (.ite (fun _ _ _ h => nomatch h) (.here _))

end Escape

namespace Bracket

variable [CharacterNames]

theorem atom_local (t : Token) : Local (atom t) := by
  intro ts a rest h
  cases t with
  | dangling => simp [atom] at h
  | plain c =>
    simp only [atom, Except.ok.injEq, Prod.mk.injEq] at h
    obtain ⟨rfl, rfl⟩ := h
    exact ⟨.refl _, fun _ _ => rfl⟩
  | escaped c =>
    simp only [atom] at h ⊢
    split at h
    · simp only [Except.ok.injEq, Prod.mk.injEq] at h
      obtain ⟨rfl, rfl⟩ := h
      exact ⟨.refl _, fun _ _ => by simp [*]⟩
    · split at h
      · next digit =>
        obtain ⟨taken, append⟩ := Escape.octal_local _ h
        refine ⟨(Token.span_taken _ _ _).trans taken, fun tail stops => ?_⟩
        have spanned := Token.span_append (p := Escape.isOctalDigit) (by decide) (by decide) 2 ts stops
        simp only [append tail stops, *, if_true, if_false, Bool.false_eq_true]
      · obtain ⟨taken, append⟩ := Escape.common_local _ h
        exact ⟨taken, fun tail stops => by simp [append tail stops, *]⟩

theorem first_taken (h : atom t ts = .ok (a, rest)) : Taken (t :: ts) rest := by
  obtain ⟨taken, -⟩ := atom_local t h
  cases t with
  | dangling => simp [atom] at h
  | plain c => exact taken.plain c
  | escaped c => exact taken.escaped c

theorem members_local (ascii : Bool) (found : List Member) : Local (members ascii found) := by
  intro ts ms rest h
  fun_induction members ascii found ts with
  | case1 | case3 | case5 | case6 | case8 | case9 => simp at h
  | case2 found t ts closes =>
    simp only [Except.ok.injEq, Prod.mk.injEq] at h
    obtain ⟨rfl, rfl⟩ := h
    obtain rfl : t = .plain Sign.rightBracket := by simp_all
    refine ⟨(Taken.refl _).plain _, fun tail _ => ?_⟩
    rw [List.cons_append, members, if_pos closes]
  | case4 found t ts inside first rest' read =>
    simp only [Except.ok.injEq, Prod.mk.injEq] at h
    obtain ⟨rfl, rfl⟩ := h
    refine ⟨(first_taken read).trans (((Taken.refl _).plain _).plain _), fun tail stops => ?_⟩
    have read := (atom_local t read).2 tail stops
    rw [List.cons_append, members, if_neg inside]
    grind
  | case7 found t ts inside u us other rest' low high read read' order _ _ ih =>
    obtain ⟨taken, append⟩ := ih h
    refine ⟨(first_taken read).trans (((first_taken read').trans taken).plain _), fun tail stops => ?_⟩
    have append := append tail stops
    have read := (atom_local t read).2 tail stops
    have read' := (atom_local u read').2 tail stops
    rw [List.cons_append, members, if_neg inside]
    grind
  | case10 found t ts inside first rest' noEnd noRange noHyphen read ih =>
    obtain ⟨taken, append⟩ := ih h
    refine ⟨(first_taken read).trans taken, fun tail stops => ?_⟩
    have append := append tail stops
    have read := (atom_local t read).2 tail stops
    cases rest' with
    | nil => simp [members] at h
    | cons u us =>
      have hyphen : u ≠ .plain Sign.hyphen := by
        rintro rfl
        cases us with
        | nil => exact noHyphen rfl
        | cons v vs => exact noRange v vs rfl
      rw [List.cons_append, members, if_neg inside]
      split <;> simp_all

theorem read_local (f : Flags) : Local (read f) := by
  have listed (negated : Bool) : Local fun ts => (members f.ascii [] ts).map
      fun (found, rest) => ((⟨found.eraseDups, negated, Folding.ofFlags f⟩ : CharSet), rest) :=
    (members_local f.ascii []).map fun found =>
      (⟨found.eraseDups, negated, Folding.ofFlags f⟩ : CharSet)
  intro ts set rest h
  have plainly : ∀ {ts : List Token}, (∀ rest, ts ≠ .plain Sign.caret :: rest) →
      read f ts = (members f.ascii [] ts).map fun (found, rest) =>
        ((⟨found.eraseDups, false, Folding.ofFlags f⟩ : CharSet), rest) := by
    intro ts other
    unfold read
    split
    · next negated body eq =>
      split at eq
      · next rest => exact absurd rfl (other rest)
      · obtain ⟨rfl, rfl⟩ := Prod.mk.inj eq
        cases members f.ascii [] _ <;> rfl
  by_cases caret : ∃ body, ts = .plain Sign.caret :: body
  · obtain ⟨body, rfl⟩ := caret
    have negated : ∀ body, read f (.plain Sign.caret :: body) = (members f.ascii [] body).map
        fun (found, rest) => ((⟨found.eraseDups, true, Folding.ofFlags f⟩ : CharSet), rest) := by
      intro body
      simp only [read]
      cases members f.ascii [] body <;> rfl
    rw [negated] at h
    obtain ⟨taken, append⟩ := listed true h
    refine ⟨taken.plain _, fun tail stops => ?_⟩
    rw [List.cons_append, negated]
    exact append tail stops
  · have other : ∀ rest, ts ≠ .plain Sign.caret :: rest := fun rest same => caret ⟨rest, same⟩
    cases ts with
    | nil => simp [read, members] at h
    | cons t ts =>
      rw [plainly other] at h
      obtain ⟨taken, append⟩ := listed false h
      refine ⟨taken, fun tail stops => ?_⟩
      rw [plainly fun rest same => other ts (by rw [(List.cons.inj same).1])]
      exact append tail stops

end Bracket

namespace Repetition

theorem breaksOff_append (ts : List Token) (stops : Stops tail) :
    Token.breaksOff (ts ++ tail) = Token.breaksOff ts := by
  cases ts with
  | nil => obtain ⟨more, rfl | rfl⟩ := stops <;> rfl
  | cons t ts => cases t <;> rfl

theorem upper_append (low : Text) (ts : List Token) (stops : Stops tail) :
    upper low (ts ++ tail) = ((upper low ts).1, (upper low ts).2 ++ tail) := by
  by_cases comma : ∃ rest, ts = .plain Sign.comma :: rest
  · obtain ⟨rest, rfl⟩ := comma
    exact Token.spanAll_append (by decide) (by decide) rest stops
  · cases ts with
    | nil => obtain ⟨more, rfl | rfl⟩ := stops <;> rfl
    | cons t ts =>
      have other : t ≠ .plain Sign.comma := fun same => comma ⟨ts, by rw [same]⟩
      simp only [List.cons_append, upper]
      split <;> simp_all

theorem upper_taken (low : Text) (ts : List Token) : Taken ts (upper low ts).2 := by
  unfold upper
  split
  · exact (Token.span_taken _ _ _).plain _
  · exact .refl _

theorem closed_append (low high : Text) (ts : List Token) (stops : Stops tail) :
    closed low high (ts ++ tail) =
      (closed low high ts).map (Option.map fun (n, rest) => (n, rest ++ tail)) := by
  by_cases brace : ∃ rest, ts = .plain Sign.rightBrace :: rest
  · obtain ⟨rest, rfl⟩ := brace
    simp only [List.cons_append, closed, breaksOff_append rest stops]
    split
    · rfl
    · cases ofCounts low high <;> rfl
  · cases ts with
    | nil => obtain ⟨more, rfl | rfl⟩ := stops <;> rfl
    | cons t ts =>
      have other : t ≠ .plain Sign.rightBrace := fun same => brace ⟨ts, by rw [same]⟩
      simp only [List.cons_append, closed]
      split <;> simp_all [Except.map]

theorem read_append (ts : List Token) (stops : Stops tail) :
    read (ts ++ tail) = (read ts).map (Option.map fun (n, rest) => (n, rest ++ tail)) := by
  have low := Token.spanAll_append (p := Text.isAsciiDigit) (by decide) (by decide) ts stops
  have start : ((ts ++ tail).head? == some (.plain Sign.rightBrace)) =
      (ts.head? == some (.plain Sign.rightBrace)) := by
    cases ts with
    | nil => obtain ⟨more, rfl | rfl⟩ := stops <;> rfl
    | cons t ts => rfl
  simp only [read, start, low, upper_append _ _ stops, closed_append _ _ _ stops]
  split <;> rfl

theorem read_taken (h : read ts = .ok (some (n, rest))) : Taken ts rest := by
  have high := upper_taken (Token.spanAll Text.isAsciiDigit ts).1 (Token.spanAll Text.isAsciiDigit ts).2
  rw [upper_of_read h] at high
  exact ((Token.span_taken _ _ _).trans high).trans ((Taken.refl _).plain _)

end Repetition

namespace Reader

theorem flagLetters_append (ts : List Token) (stops : Stops tail) :
    flagLetters (ts ++ tail) = ((flagLetters ts).1, (flagLetters ts).2 ++ tail) := by
  fun_induction flagLetters ts with
  | case1 c rest flag found flags rest' eq ih =>
    simp only [eq] at ih
    simp only [List.cons_append, flagLetters, found, ih]
  | case2 c rest other => simp [flagLetters, other]
  | case3 ts other =>
    cases ts with
    | nil => obtain ⟨more, rfl | rfl⟩ := stops <;> rfl
    | cons t ts =>
      cases t with
      | plain c => exact (other c ts rfl).elim
      | escaped c => rfl
      | dangling => rfl

theorem flagLetters_taken (ts : List Token) : Taken ts (flagLetters ts).2 := by
  fun_induction flagLetters ts with
  | case1 c rest flag found flags rest' eq ih =>
    rw [eq] at ih
    exact ih.plain c
  | case2 | case3 => exact .refl _

theorem removedFlags_local : Local removedFlags := by
  intro ts removed rest h
  have taken := flagLetters_taken ts
  have append : ∀ {tail}, Stops tail → _ := fun stops => flagLetters_append ts stops
  simp only [removedFlags] at h ⊢
  split at h
  · next flag flags rest' eq =>
    simp only [eq] at taken append
    split at h
    · simp at h
    · next allowed =>
      simp only [Except.ok.injEq, Prod.mk.injEq] at h
      obtain ⟨rfl, rfl⟩ := h
      exact ⟨taken.trans ((Taken.refl _).plain _), fun tail stops => by simp [append stops, allowed]⟩
  · simp at h

theorem flagGroup_local : Local flagGroup := by
  intro ts part rest h
  have taken := flagLetters_taken ts
  have append : ∀ {tail}, Stops tail → _ := fun stops => flagLetters_append ts stops
  simp only [flagGroup] at h ⊢
  generalize flagLetters ts = read at h taken append
  obtain ⟨letters, after⟩ := read
  simp only at taken append h
  split at h
  · simp at h
  · next compatible =>
    split at h
    · simp only [Except.ok.injEq, Prod.mk.injEq] at h
      obtain ⟨rfl, rfl⟩ := h
      refine ⟨taken.trans ((Taken.refl _).plain _), fun tail stops => ?_⟩
      simp [append stops, compatible]
    · split at h
      · simp at h
      · next allowed =>
        simp only [Except.ok.injEq, Prod.mk.injEq] at h
        obtain ⟨rfl, rfl⟩ := h
        refine ⟨taken.trans ((Taken.refl _).plain _), fun tail stops => ?_⟩
        simp [append stops, compatible, allowed]
    · split at h
      · simp at h
      · next removed rest'' eq =>
        obtain ⟨taken', append'⟩ := removedFlags_local eq
        split at h
        · simp at h
        · next allowed =>
          simp only [Except.ok.injEq, Prod.mk.injEq] at h
          obtain ⟨rfl, rfl⟩ := h
          refine ⟨taken.trans (taken'.plain _), fun tail stops => ?_⟩
          simp [append stops, append' tail stops, compatible, allowed]
    · simp at h

theorem named_local : Local named := by
  intro ts part rest h
  simp only [named] at h
  split at h
  · next body =>
    split at h
    · simp at h
    · next name rest' eq =>
      obtain ⟨taken, append⟩ := Token.nameUntil_local _ eq
      split at h
      · next fits =>
        simp only [Except.ok.injEq, Prod.mk.injEq] at h
        obtain ⟨rfl, rfl⟩ := h
        refine ⟨taken.plain _, fun tail stops => ?_⟩
        simp [named, append tail stops, fits]
      · simp at h
  · next body =>
    obtain ⟨taken, append⟩ := (Token.nameUntil_local Sign.rightParen).map Part.namedReference h
    exact ⟨taken.plain _, append⟩
  · simp at h

/-- A group of flags starts with a letter of one or with a hyphen. -/
theorem flagGroup_head (h : flagGroup ts = .ok r) :
    ∃ c rest, ts = .plain c :: rest ∧ ((Flag.ofLetter? c).isSome ∨ c = Sign.hyphen) := by
  match ts with
  | [] | .escaped _ :: _ | .dangling :: _ => simp [flagGroup, flagLetters] at h
  | .plain c :: rest =>
    refine ⟨c, rest, rfl, ?_⟩
    cases letter : Flag.ofLetter? c with
    | some flag => exact .inl rfl
    | none =>
      refine .inr ?_
      simp only [flagGroup, flagLetters, letter] at h
      split at h
      · simp at h
      · split at h <;> simp_all

/-- The signs after which a group does not start with flags. -/
def extensionSigns : Text :=
  [Sign.colon, Sign.number, Sign.equal, Sign.exclamation, Sign.less, Sign.greater, Sign.leftParen, 0x50]

theorem extension_flagGroup (other : c ∉ extensionSigns) :
    extension (.plain c :: rest) = flagGroup (.plain c :: rest) := by
  simp only [extensionSigns, List.mem_cons, List.not_mem_nil, or_false, not_or] at other
  unfold extension
  split <;> simp_all

theorem extension_local : Local extension := by
  intro ts part rest h
  unfold extension at h
  split at h
  case h_2 =>
    obtain ⟨_, read, same⟩ := map_eq_ok.mp h
    obtain ⟨rfl, rfl⟩ := Prod.mk.inj same
    obtain ⟨taken, append⟩ := Token.afterComment_local read
    exact ⟨taken.plain _, fun tail _ => map_eq_ok.mpr ⟨_, append tail, rfl⟩⟩
  case h_8 =>
    obtain ⟨taken, append⟩ := (Token.nameUntil_local Sign.rightParen).map Part.condition h
    exact ⟨taken.plain _, append⟩
  case h_9 =>
    obtain ⟨taken, append⟩ := named_local h
    exact ⟨taken.plain _, append⟩
  case h_10 =>
    obtain ⟨c, body, rfl, letter⟩ := flagGroup_head h
    obtain ⟨taken, append⟩ := flagGroup_local h
    refine ⟨taken, fun tail stops => ?_⟩
    have other : c ∉ extensionSigns := by
      intro sign
      have : ∀ d ∈ extensionSigns, Flag.ofLetter? d = none ∧ d ≠ Sign.hyphen := by decide
      simp [this c sign] at letter
    rw [List.cons_append, extension_flagGroup other]
    exact append tail stops
  case h_5 | h_6 =>
    obtain ⟨rfl, rfl⟩ := Prod.mk.inj (Except.ok.inj h)
    exact ⟨((Taken.refl _).plain _).plain _, fun _ _ => rfl⟩
  all_goals
    obtain ⟨rfl, rfl⟩ := Prod.mk.inj (Except.ok.inj h)
    exact ⟨(Taken.refl _).plain _, fun _ _ => rfl⟩

theorem group_local : Local group := by
  intro ts part rest h
  have plainly : ∀ {ts : List Token}, (∀ rest, ts ≠ .plain Sign.question :: rest) →
      group ts = .ok (.capture none, ts) := by
    intro ts other
    unfold group
    split
    · exact absurd rfl (other _)
    · rfl
  by_cases question : ∃ body, ts = .plain Sign.question :: body
  · obtain ⟨body, rfl⟩ := question
    obtain ⟨taken, append⟩ := extension_local h
    exact ⟨taken.plain _, append⟩
  · have other : ∀ body, ts ≠ .plain Sign.question :: body := fun body same => question ⟨body, same⟩
    rw [plainly other] at h
    obtain ⟨rfl, rfl⟩ := Prod.mk.inj (Except.ok.inj h)
    exact ⟨.refl _, fun tail stops => plainly (stops.unsigned (by decide) (by decide) other)⟩

theorem loop_local (repetition : Repetition) : Local (loop repetition) := by
  intro ts part rest h
  have plainly : ∀ {ts : List Token}, (∀ rest, ts ≠ .plain Sign.question :: rest) →
      (∀ rest, ts ≠ .plain Sign.plus :: rest) →
      loop repetition ts = .ok (.loop repetition .greedy, ts) := by
    intro ts noQuestion noPlus
    unfold loop
    split
    · exact absurd rfl (noQuestion _)
    · exact absurd rfl (noPlus _)
    · rfl
  by_cases question : ∃ body, ts = .plain Sign.question :: body
  · obtain ⟨body, rfl⟩ := question
    obtain ⟨rfl, rfl⟩ := Prod.mk.inj (Except.ok.inj h)
    exact ⟨(Taken.refl _).plain _, fun _ _ => rfl⟩
  · by_cases plus : ∃ body, ts = .plain Sign.plus :: body
    · obtain ⟨body, rfl⟩ := plus
      obtain ⟨rfl, rfl⟩ := Prod.mk.inj (Except.ok.inj h)
      exact ⟨(Taken.refl _).plain _, fun _ _ => rfl⟩
    · have noQuestion : ∀ body, ts ≠ .plain Sign.question :: body :=
        fun body same => question ⟨body, same⟩
      have noPlus : ∀ body, ts ≠ .plain Sign.plus :: body := fun body same => plus ⟨body, same⟩
      rw [plainly noQuestion noPlus] at h
      obtain ⟨rfl, rfl⟩ := Prod.mk.inj (Except.ok.inj h)
      exact ⟨.refl _, fun tail stops => plainly (stops.unsigned (by decide) (by decide) noQuestion)
        (stops.unsigned (by decide) (by decide) noPlus)⟩

theorem brace_local (f : Flags) : Local (brace f) := by
  intro ts part rest h
  simp only [brace] at h
  split at h
  · simp at h
  · next none =>
    obtain ⟨rfl, rfl⟩ := Prod.mk.inj (Except.ok.inj h)
    refine ⟨.refl _, fun tail stops => ?_⟩
    simp [brace, Repetition.read_append _ stops, none, Except.map]
  · next repetition rest' some =>
    obtain ⟨taken, append⟩ := loop_local repetition h
    refine ⟨(Repetition.read_taken some).trans taken, fun tail stops => ?_⟩
    simp [brace, Repetition.read_append _ stops, some, Except.map, append tail stops]

theorem reference_local (f : Flags) (c : CodePoint) : Local (reference f c) := by
  intro ts part rest h
  cases ts with
  | nil =>
    obtain ⟨rfl, rfl⟩ := Prod.mk.inj (Except.ok.inj h)
    refine ⟨.refl _, fun tail stops => ?_⟩
    obtain ⟨more, rfl | rfl⟩ := stops <;> rfl
  | cons t ts =>
    cases t with
    | escaped d | dangling =>
      obtain ⟨rfl, rfl⟩ := Prod.mk.inj (Except.ok.inj h)
      exact ⟨.refl _, fun _ _ => rfl⟩
    | plain d =>
      simp only [reference, List.cons_append] at h ⊢
      split at h
      · next noDigit =>
        obtain ⟨rfl, rfl⟩ := Prod.mk.inj (Except.ok.inj h)
        exact ⟨.refl _, fun _ _ => if_pos noDigit⟩
      · next digit =>
        simp only [digit, if_false, Bool.false_eq_true]
        cases ts with
        | nil =>
          obtain ⟨rfl, rfl⟩ := Prod.mk.inj (Except.ok.inj h)
          refine ⟨(Taken.refl _).plain d, fun tail stops => ?_⟩
          -- Neither sign that may follow the source is an octal digit.
          obtain ⟨more, rfl | rfl⟩ := stops
          · simp [show Escape.isOctalDigit Sign.rightParen = false by decide]
          · simp [show Escape.isOctalDigit Sign.lineFeed = false by decide]
        | cons u us =>
          cases u with
          | escaped e | dangling =>
            obtain ⟨rfl, rfl⟩ := Prod.mk.inj (Except.ok.inj h)
            exact ⟨(Taken.refl _).plain d, fun _ _ => rfl⟩
          | plain e =>
            simp only [List.cons_append] at h ⊢
            split at h
            · next octal =>
              obtain ⟨taken, append⟩ := (Escape.octal_local [c, d, e]).map (Part.atom f) h
              exact ⟨(taken.plain e).plain d, fun tail stops => by
                rw [if_pos octal]
                exact append tail stops⟩
            · next decimal =>
              obtain ⟨rfl, rfl⟩ := Prod.mk.inj (Except.ok.inj h)
              exact ⟨(Taken.refl _).plain d, fun _ _ => if_neg decimal⟩

variable [CharacterNames]

theorem bracket_local (f : Flags) : Local (bracket f) :=
  (Bracket.read_local f).map Part.chars

theorem escape_local (f : Flags) (c : CodePoint) : Local (escape f c) := by
  have zero : Local fun ts => .ok (Part.atom f (.char (Escape.octalNumber
      (Token.span Escape.isOctalDigit 2 ts).1)), (Token.span Escape.isOctalDigit 2 ts).2) := by
    intro ts part rest h
    obtain ⟨rfl, rfl⟩ := Prod.mk.inj (Except.ok.inj h)
    refine ⟨Token.span_taken _ _ _, fun tail stops => ?_⟩
    simp only [Token.span_append (p := Escape.isOctalDigit) (by decide) (by decide) 2 ts stops]
  unfold escape
  split
  · exact .here _
  · exact .ite zero (.ite (reference_local f c) ((Escape.common_local c).map (Part.atom f)))

theorem item_local (f : Flags) (c : CodePoint) : Local (item f c) := by
  unfold item
  split
  · exact loop_local _
  · exact .here _
  · exact .ite (bracket_local f) (.ite (brace_local f) (.ite group_local (.ite (.here _) (.here _))))

theorem plain_comment (comment : (f.verbose && c == Sign.number) = true) (ts : List Token) :
    plain f c ts = .ok (.nothing, Token.afterLine ts) := by
  simp only [Bool.and_eq_true, beq_iff_eq] at comment
  obtain ⟨verbose, rfl⟩ := comment
  simp only [plain, verbose]
  rfl

theorem plain_local (comment : (f.verbose && c == Sign.number) = false) : Local (plain f c) := by
  unfold plain
  simp only [comment, Bool.false_eq_true, if_false]
  exact .ite (.here _) (.ite (.here _) (.ite (.here _) (item_local f c)))

/-- A part reads the same before any continuation, but a comment to the end of the source goes on. -/
theorem part_append (h : part f t ts = .ok (p, rest)) :
    Taken (t :: ts) rest ∧ ∀ tail, Stops tail →
      part f t (ts ++ tail) = .ok (p, rest ++ tail) ∨
        p = .nothing ∧ rest = [] ∧ f.verbose ∧
          part f t (ts ++ tail) = .ok (.nothing, Token.afterLine tail) := by
  cases t with
  | dangling => simp [part] at h
  | escaped c =>
    obtain ⟨taken, append⟩ := escape_local f c h
    exact ⟨taken.escaped c, fun tail stops => .inl (append tail stops)⟩
  | plain c =>
    simp only [part] at h ⊢
    cases comment : f.verbose && c == Sign.number with
    | false =>
      obtain ⟨taken, append⟩ := plain_local comment h
      exact ⟨taken.plain c, fun tail stops => .inl (append tail stops)⟩
    | true =>
      rw [plain_comment comment] at h
      obtain ⟨rfl, rfl⟩ := Prod.mk.inj (Except.ok.inj h)
      have append := Token.afterLine_append ts
      refine ⟨(append []).1.plain c, fun tail _ => ?_⟩
      rw [plain_comment comment]
      rcases (append tail).2 with inside | ⟨ended, after⟩
      · exact .inl (by rw [inside])
      · exact .inr ⟨rfl, ended, by simp_all, by rw [after]⟩

end Reader
end TokenRules.Pattern
