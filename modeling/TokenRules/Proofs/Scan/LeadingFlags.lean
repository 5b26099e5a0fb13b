import TokenRules.Proofs.Scan.Reference

/-! The flags at the start of a source, as the reader takes them and as they are taken off. All that a group
can turn on are taken off, up to the first part that is something else, and no others. -/
namespace TokenRules

namespace Pattern.Flags

theorem union_assoc (f g h : Flags) : (f.union g).union h = f.union (g.union h) := by
  simp only [union, Bool.or_assoc]

theorem insert_eq (f : Flags) (flag : Flag) : f.insert flag = f.union (insert {} flag) := by
  cases flag <;> simp [insert, union]

theorem foldl_insert (flags : List Flag) (f : Flags) :
    flags.foldl insert f = f.union (flags.foldl insert {}) := by
  induction flags generalizing f with
  | nil => simp [union]
  | cons flag flags ih =>
    rw [List.foldl_cons, List.foldl_cons, ih, ih (insert {} flag), insert_eq, union_assoc]

/-- A flag is in a set if its letter is among the letters. -/
theorem ofLetters_eq (letters : Text) : ofLetters letters =
    { ignoreCase := letters.contains 0x69, multiline := letters.contains 0x6D,
      dotAll := letters.contains 0x73, verbose := letters.contains 0x78,
      ascii := letters.contains 0x61, unicode := letters.contains 0x75,
      template := letters.contains 0x74 } := by
  induction letters with
  | nil => rfl
  | cons c letters ih =>
    have step : ofLetters (c :: letters) =
        (((Flag.ofLetter? c).map (insert {})).getD {}).union (ofLetters letters) := by
      cases found : Flag.ofLetter? c with
      | none => simp [ofLetters, found, union]
      | some flag =>
        simp only [ofLetters, List.filterMap_cons, found, List.foldl_cons]
        exact foldl_insert _ _
    rw [step, ih]
    unfold Flag.ofLetter?
    split <;> simp_all [insert, union, eq_comm]

/-- Letters that are there already add no flag. -/
theorem ofLetters_filter (letters more : Text) :
    ofLetters (letters ++ more.filter (!letters.contains ·)) =
      (ofLetters letters).union (ofLetters more) := by
  have known : ∀ c, (letters ++ more.filter (!letters.contains ·)).contains c =
      (letters.contains c || more.contains c) := by
    intro c
    rw [Bool.eq_iff_iff]
    by_cases old : c ∈ letters <;> simp [old]
  simp only [ofLetters_eq, known, union]

theorem ofLetters_scopedLetters (f : Flags) : ofLetters f.scopedLetters = f.core := by
  obtain ⟨i, m, s, x, a, u, t⟩ := f
  revert i m s x a u t
  decide

end Pattern.Flags
namespace RulePattern
open Pattern

theorem leadingFlags_eq {source : Text} (h : leadingFlags? source = some (letters, rest)) :
    source = Sign.leftParen :: Sign.question :: (letters ++ Sign.rightParen :: rest) ∧
      letters ≠ [] ∧ ∀ c ∈ letters, isFlagLetter c := by
  simp only [leadingFlags?] at h
  split at h
  · next body =>
    split at h
    · next c letters' rest' first after =>
      obtain ⟨rfl, rfl⟩ := Prod.mk.inj (Option.some.inj h)
      refine ⟨?_, by simp, ?_⟩
      · rw [← first, ← after, List.takeWhile_append_dropWhile]
      · rw [← first]
        exact fun c member => List.all_eq_true.mp List.all_takeWhile c member
    · simp at h
  · simp at h

/-- Only one of the letters is no flag. The reader stops there. -/
theorem flagLetters_stops {letters : Text} (flag : ∀ c ∈ letters, isFlagLetter c)
    (ends : Flag.ofLetter? c = none) (rest : List Token) :
    Reader.flagLetters (letters.map .plain ++ .plain c :: rest) =
        (letters.filterMap Flag.ofLetter?, .plain c :: rest) ∨
      ∃ rest', (Reader.flagLetters (letters.map .plain ++ .plain c :: rest)).2 =
        .plain 0x4C :: rest' := by
  induction letters with
  | nil => exact .inl (by simp [Reader.flagLetters, ends])
  | cons l letters ih =>
    have ih := ih fun c member => flag c (List.mem_cons_of_mem _ member)
    simp only [List.map_cons, List.cons_append, Reader.flagLetters, List.filterMap_cons]
    cases known : Flag.ofLetter? l with
    | some found =>
      rcases ih with same | ⟨rest', stuck⟩
      · exact .inl (by simp only [same])
      · exact .inr ⟨rest', stuck⟩
    | none =>
      have foreign : ∀ l, isFlagLetter l → Flag.ofLetter? l = none → l = 0x4C := by
        intro l flag
        have : ∀ l ∈ [0x61, 0x69, 0x4C, 0x6D, 0x73, 0x75, 0x78], Flag.ofLetter? l = none → l = 0x4C := by
          decide
        exact this l (by simpa [isFlagLetter] using flag)
      obtain rfl := foreign l (flag l List.mem_cons_self) known
      exact .inr ⟨_, rfl⟩

theorem flagLetters_known {letters : Text} (known : ∀ c ∈ letters, (Flag.ofLetter? c).isSome)
    (ends : Flag.ofLetter? c = none) (rest : List Token) :
    Reader.flagLetters (letters.map .plain ++ .plain c :: rest) =
      (letters.filterMap Flag.ofLetter?, .plain c :: rest) := by
  induction letters with
  | nil => simp [Reader.flagLetters, ends]
  | cons l letters ih =>
    obtain ⟨first, others⟩ := List.forall_mem_cons.mp known
    obtain ⟨flag, named⟩ := Option.isSome_iff_exists.mp first
    simp only [List.map_cons, List.cons_append, Reader.flagLetters, named, List.filterMap_cons, ih others]

/-- If a group that starts with flag letters reads, all of them are flags. -/
theorem flagLetters_of_flagGroup {letters : Text} (flag : ∀ c ∈ letters, isFlagLetter c)
    (ends : Flag.ofLetter? c = none)
    (h : Reader.flagGroup (letters.map .plain ++ .plain c :: rest) = .ok parsed) :
    Reader.flagLetters (letters.map .plain ++ .plain c :: rest) =
      (letters.filterMap Flag.ofLetter?, .plain c :: rest) := by
  rcases flagLetters_stops flag ends rest with same | ⟨rest', stuck⟩
  · exact same
  · simp only [Reader.flagGroup] at h
    generalize Reader.flagLetters (letters.map .plain ++ .plain c :: rest) = read at h stuck
    obtain ⟨found, after⟩ := read
    obtain rfl := stuck
    split at h
    · simp at h
    · split at h <;> simp_all

/-- The flag letters that are read are those that name flags. -/
theorem flagLetters_split (ts : List Token) : ∃ letters : Text,
    ts = letters.map .plain ++ (Reader.flagLetters ts).2 ∧
    (Reader.flagLetters ts).1 = letters.filterMap Flag.ofLetter? ∧
    ∀ c ∈ letters, (Flag.ofLetter? c).isSome := by
  fun_induction Reader.flagLetters ts with
  | case1 c rest flag known flags rest' read ih =>
    obtain ⟨letters, split, names, all⟩ := ih
    rw [read] at split names
    refine ⟨c :: letters, by rw [split]; rfl, ?_, List.forall_mem_cons.mpr ⟨by rw [known]; rfl, all⟩⟩
    rw [List.filterMap_cons, known]
    exact congrArg _ names
  | case2 | case3 => exact ⟨[], rfl, rfl, by simp⟩

theorem isFlagLetter_of_known (known : (Flag.ofLetter? c).isSome) (other : c ≠ 0x74) : isFlagLetter c := by
  unfold Flag.ofLetter? at known
  split at known <;> simp_all [isFlagLetter]

/-- The letters of scoped flags, or of those at the start of a source. -/
theorem ofText_letters {letters : Text} (flag : ∀ c ∈ letters, isFlagLetter c) (c : CodePoint)
    (plain : c ≠ Sign.backslash) (t : Text) :
    Token.ofText (letters ++ c :: t) = letters.map .plain ++ .plain c :: Token.ofText t := by
  have whole : Sign.backslash ∉ letters := fun member => absurd (flag _ member) (by decide)
  rw [Token.ofText_plain_append whole, Token.ofText_cons c plain]

/-- Whether a part sets flags that a group can turn on. -/
def isScopable : Part → Bool
  | .flags added => !added.template
  | _ => false

theorem scopable_of_flagLetters {letters : Text} (flag : ∀ c ∈ letters, isFlagLetter c) :
    isScopable (.flags (.ofLetters letters)) := by
  have absent : 0x74 ∉ letters := fun member => by simpa [isFlagLetter] using flag _ member
  simpa [isScopable, Flags.ofLetters_eq] using absent

variable [CharacterNames]

/-- A group of flags. Its letters are read as flags, for the whole pattern or for what it encloses. -/
theorem part_letters {letters : Text} (nonempty : letters ≠ [])
    (flag : ∀ c ∈ letters, isFlagLetter c)
    (h : Reader.part f (.plain Sign.leftParen)
      (.plain Sign.question :: (letters.map .plain ++ .plain c :: rest)) = .ok parsed) :
    (c = Sign.rightParen → parsed = (.flags (.ofLetters letters), rest)) ∧
      (c = Sign.colon → parsed = (.scope (.ofLetters letters) {}, rest)) := by
  have group : Reader.flagGroup (letters.map .plain ++ .plain c :: rest) = .ok parsed := by
    rw [Reader.part_paren] at h
    obtain ⟨l, letters, rfl⟩ := List.exists_cons_of_ne_nil nonempty
    have sign : l ∉ Reader.extensionSigns := by
      have : ∀ d ∈ Reader.extensionSigns, isFlagLetter d = false := by decide
      intro member
      simp [this l member] at flag
    exact (Reader.extension_flagGroup sign).symm.trans h
  have set : Reader.flagSet (letters.filterMap Flag.ofLetter?) = .ofLetters letters := rfl
  refine ⟨?_, ?_⟩
  all_goals
    rintro rfl
    simp only [Reader.flagGroup, flagLetters_of_flagGroup flag (by decide) group, set] at group
    obtain ⟨first, more, found⟩ : ∃ first more, letters.filterMap Flag.ofLetter? = first :: more :=
      List.exists_cons_of_ne_nil fun nothing => by simp [nothing] at group
    simp only [found] at group
    split at group
    case isTrue => contradiction
  · exact (Except.ok.inj group).symm
  · split at group
    · contradiction
    · exact (Except.ok.inj group).symm

/-- Letters of flags that go together turn them on for what their group encloses. -/
theorem read_scope {letters : Text} (nonempty : letters ≠ [])
    (known : ∀ c ∈ letters, isFlagLetter c ∧ (Flag.ofLetter? c).isSome)
    (compatible : ((Flags.ofLetters letters).ascii && (Flags.ofLetters letters).unicode) = false)
    (s : Reading) (rest : List Token) :
    Reader.read (.plain Sign.leftParen :: .plain Sign.question ::
        (letters.map .plain ++ .plain Sign.colon :: rest)) s =
      Reader.read rest (s.enter .scope (s.flags.within (.ofLetters letters) {})) := by
  obtain ⟨l, letters, rfl⟩ := List.exists_cons_of_ne_nil nonempty
  obtain ⟨⟨letter, flag⟩, -⟩ := List.forall_mem_cons.mp known
  obtain ⟨flag, named⟩ := Option.isSome_iff_exists.mp flag
  have sign : l ∉ Reader.extensionSigns := by
    have : ∀ d ∈ Reader.extensionSigns, isFlagLetter d = false := by decide
    intro member
    simp [this l member] at letter
  have template : (Flags.ofLetters (l :: letters)).template = false := by
    have absent : 0x74 ∉ l :: letters := fun member => by simpa [isFlagLetter] using (known _ member).1
    simpa only [Flags.ofLetters_eq, List.contains_eq_mem, decide_eq_false_iff_not] using absent
  have opening : Reader.part s.flags (.plain Sign.leftParen) (.plain Sign.question ::
      ((l :: letters).map .plain ++ .plain Sign.colon :: rest)) =
        .ok (.scope (.ofLetters (l :: letters)) {}, rest) := by
    rw [Reader.part_paren]
    refine (Reader.extension_flagGroup sign).trans ?_
    change Reader.flagGroup ((l :: letters).map .plain ++ .plain Sign.colon :: rest) = _
    have set : Reader.flagSet ((l :: letters).filterMap Flag.ofLetter?) = .ofLetters (l :: letters) := rfl
    have read := flagLetters_known (c := Sign.colon) (fun c member => (known c member).2) (by decide) rest
    simp only [Reader.flagGroup, read, set, compatible, template, Bool.false_eq_true, if_false]
    rw [List.filterMap_cons, named]
    rfl
  rw [Reader.read_cons, opening]
  rfl

/-- Only a group of letters sets flags. -/
theorem flagGroup_of_flags (h : Reader.part f t ts = .ok (.flags added, rest)) :
    ∃ body, t = .plain Sign.leftParen ∧ ts = .plain Sign.question :: body ∧
      Reader.flagGroup body = .ok (.flags added, rest) := by
  obtain rfl : t = .plain Sign.leftParen := by
    cases t with
    | dangling => simp [Reader.part] at h
    | escaped c =>
      simp only [Reader.part, Reader.escape, Reader.reference, Except.map, Part.atom] at h
      grind
    | plain c =>
      have items := fun read : Reader.item f c ts = .ok (.flags added, rest) =>
        Reader.item_paren (.inr ⟨added, rfl⟩) read
      simp only [Reader.part, Reader.plain] at h
      grind
  rw [Reader.part_paren] at h
  unfold Reader.group at h
  split at h
  · next body =>
    refine ⟨body, rfl, rfl, ?_⟩
    simp only [Reader.extension, Reader.named, Except.map] at h
    grind
  · simp at h

/-- A part that sets flags is a group of letters, each of which names a flag. -/
theorem letters_of_flags (h : Reader.part f t ts = .ok (.flags added, rest)) :
    ∃ letters : Text, letters ≠ [] ∧ (∀ c ∈ letters, (Flag.ofLetter? c).isSome) ∧
      added = .ofLetters letters ∧ t = .plain Sign.leftParen ∧
      ts = .plain Sign.question :: (letters.map .plain ++ .plain Sign.rightParen :: rest) := by
  obtain ⟨body, rfl, rfl, group⟩ := flagGroup_of_flags h
  obtain ⟨letters, split, names, all⟩ := flagLetters_split body
  simp only [Reader.flagGroup] at group
  split at group
  · contradiction
  · split at group
    · next first more rest' found after =>
      obtain ⟨⟨⟩, rfl⟩ := Prod.mk.inj (Except.ok.inj group)
      have given : letters ≠ [] := by
        rintro rfl
        rw [found] at names
        contradiction
      refine ⟨letters, given, all, ?_, rfl, by rw [← after, ← split]⟩
      rw [names]
      rfl
    all_goals grind

/-- Flags that a source sets first are taken off it, as far as a group can turn them on. -/
theorem leading_of_flags {source : Text} (same : Token.ofText source = t :: ts)
    (h : Reader.part f t ts = .ok (.flags added, rest)) (plain : added.template = false) :
    leadingFlags? source ≠ none := by
  obtain ⟨letters, given, known, rfl, rfl, rfl⟩ := letters_of_flags h
  have text : Token.ofText source =
      (Sign.leftParen :: Sign.question :: (letters ++ [Sign.rightParen])).map .plain ++ rest := by
    rw [same]
    simp
  obtain ⟨after, rfl, -⟩ := Token.ofText_eq_append text
  have flag : ∀ c ∈ letters, isFlagLetter c := by
    intro c member
    refine isFlagLetter_of_known (known c member) ?_
    rintro rfl
    rw [Flags.ofLetters_eq] at plain
    exact absurd member (by simpa using plain)
  obtain ⟨l, letters, rfl⟩ := List.exists_cons_of_ne_nil given
  have ends : isFlagLetter Sign.rightParen = false := by decide
  have front : ((l :: letters) ++ Sign.rightParen :: after).takeWhile isFlagLetter = l :: letters := by
    rw [List.takeWhile_append_of_pos flag, List.takeWhile_cons_of_neg (by simp [ends]), List.append_nil]
  have rest : ((l :: letters) ++ Sign.rightParen :: after).dropWhile isFlagLetter =
      Sign.rightParen :: after := by
    rw [List.dropWhile_append_of_pos flag, List.dropWhile_cons_of_neg (by simp [ends])]
  simp only [List.cons_append] at front rest
  simp [leadingFlags?, front, rest]

/-- If a group of letters sets flags, each of the letters names a flag. -/
theorem known_of_flags {letters : Text} (h : Reader.part f (.plain Sign.leftParen)
      (.plain Sign.question :: (letters.map .plain ++ .plain Sign.rightParen :: rest)) =
        .ok (.flags added, rest)) : ∀ c ∈ letters, (Flag.ofLetter? c).isSome := by
  obtain ⟨letters', -, known, -, -, same⟩ := letters_of_flags h
  have same := List.append_cancel_right (List.cons.inj same).2
  obtain rfl : letters = letters' := (List.map_inj_right fun _ _ => Token.plain.inj).mp same
  exact known

/-- A source with no flags to be taken off it does not start with any that could be. -/
theorem unscopable_of_none {source : Text} (same : Token.ofText source = t :: ts)
    (h : Reader.part f t ts = .ok (p, rest)) (none : leadingFlags? source = none) : isScopable p = false := by
  refine eq_false_of_ne_true fun scopable => ?_
  unfold isScopable at scopable
  split at scopable
  · exact leading_of_flags same h (by simpa using scopable) none
  · contradiction

/-- The flags at the start of a source set the flags of the pattern, and nothing else. They are taken off up
to the first part that is something else. -/
theorem reads_strip (letters : Text) {source : Text}
    (reads : Reads (Token.ofText source) r ps final) (opening : r.isOpening) :
    ∃ added ps', Reads (Token.ofText (stripFlags letters source).2)
        (r.withFlags (r.flags.union added)) ps' final ∧
      (∃ taken, Reader.steps (Token.ofText source) r = taken ++ Reader.steps
          (Token.ofText (stripFlags letters source).2) (r.withFlags (r.flags.union added)) ∧
        ∀ step ∈ taken, isScopable step.part) ∧
      (∀ part ∈ ps'.head?, isScopable part = false) ∧
      Flags.ofLetters (stripFlags letters source).1 = (Flags.ofLetters letters).union added ∧
      ∀ c ∈ (stripFlags letters source).1, c ∈ letters ∨ isFlagLetter c ∧ (Flag.ofLetter? c).isSome := by
  fun_induction stripFlags letters source generalizing r ps with
  | case1 letters source none =>
    have same : r.withFlags (r.flags.union {}) = r := by simp [Flags.union, Reading.withFlags, Reading.flags]
    refine ⟨{}, ps, by rwa [same], ⟨[], by rw [same]; rfl, by simp⟩, ?_, by simp [Flags.union],
      fun _ member => .inl member⟩
    generalize tokens : Token.ofText source = ts at reads
    cases reads with
    | finish => simp
    | part next =>
      simp only [List.head?_cons, Option.mem_some_iff, forall_eq']
      exact unscopable_of_none tokens next none
  | case2 letters source more rest leading ih =>
    obtain ⟨rfl, nonempty, flag⟩ := leadingFlags_eq leading
    rw [Token.ofText_cons _ (by decide), Token.ofText_cons _ (by decide),
      ofText_letters flag _ (by decide)] at reads ⊢
    cases reads with
    | part next applied later =>
      obtain ⟨rfl, rfl⟩ := Prod.mk.inj ((part_letters nonempty flag next).1 rfl)
      obtain rfl := (Part.apply_flags opening _).symm.trans applied |> Except.ok.inj
      obtain ⟨added, ps', reads', ⟨taken, steps, scopable⟩, first, letters', flag'⟩ := ih later opening
      have known := known_of_flags next
      refine ⟨(Flags.ofLetters more).union added, ps', ?_, ?_, first, ?_, ?_⟩
      · rwa [← Flags.union_assoc]
      · rw [Reader.steps_cons next applied, steps, ← Flags.union_assoc]
        exact ⟨_ :: taken, rfl, List.forall_mem_cons.mpr ⟨scopable_of_flagLetters flag, scopable⟩⟩
      · rw [letters', Flags.ofLetters_filter, Flags.union_assoc]
      · intro c member
        rcases flag' c member with old | new
        · simp only [List.mem_append, List.mem_filter] at old
          exact old.imp_right fun new => ⟨flag c new.1, known c new.1⟩
        · exact .inr new

end RulePattern
end TokenRules
