import TokenRules.Json.Grammar
import TokenRules.Proofs.Json.Lexer
import TokenRules.Proofs.Pattern.Greedy
import TokenRules.Proofs.Scan.Alternation

/-! The pattern of the JSON engine: each rule, as it was read, takes its front of the text, so the whole
pattern finds the tokens. -/
namespace TokenRules.Json

open Pattern

namespace Body

def char (c : CodePoint) : Node := .chars (.char .exact c)

def set (members : List Member) : Node := .chars ⟨members, false, .exact⟩

def word (w : Text) : Node := Node.ofSequence (w.map char)

def digit : Node := set [.charClass .digit false false]

def option (node : Node) : Node := .loop .greedy 0 (some 1) node

def many (node : Node) : Node := .loop .greedy 0 none node

def several (node : Node) : Node := .loop .greedy 1 none node

def wholePart : Node := .alt (char 0x30) (.seq (set [.range 0x31 0x39]) (many digit))

def fractionPart : Node := .seq (char Sign.stop) (several digit)

def exponentPart : Node :=
  .seq (set [.single 0x65, .single 0x45])
    (.seq (option (set [.single Sign.hyphen, .single Sign.plus])) (several digit))

def number : Node :=
  .seq (option (char Sign.hyphen))
    (.seq wholePart (.seq (option fractionPart) (option exponentPart)))

/-- Neither a quotation mark nor a backslash. -/
def bare : CharSet := ⟨[.single Sign.quotation, .single Sign.backslash], true, .exact⟩

def escaped : Node := .seq (char Sign.backslash) (.seq (.chars (.dot {})) (many (.chars bare)))

def escapes : Node := .seq (many escaped) (char Sign.quotation)

def quotedPart : Node := .seq (many (.chars bare)) escapes

def quoted : Node := .seq (char Sign.quotation) quotedPart

end Body

/-- The patterns of the rules as they were read, in order. -/
def bodies : List Node :=
  [Body.word (Text.ofString "null"), Body.word (Text.ofString "true"),
   Body.word (Text.ofString "false"), Body.number, Body.quoted, Body.word [Sign.leftBracket],
   Body.word [Sign.leftBrace], Body.word [Sign.rightBracket], Body.word [Sign.rightBrace],
   Body.word [Sign.comma], Body.word [Sign.colon],
   Body.several (Body.set [.charClass .blank false false])]

theorem takesOnly_set {members : List Member} (same : (CharSet.mk members false .exact).contains = p) :
    TakesOnly (Body.set members) (one p) := by
  rw [← same]
  exact takesOnly_chars _

theorem digit_contains :
    (CharSet.mk [.charClass .digit false false] false .exact).contains = Text.isDigit := by
  funext c
  simp [CharSet.contains, CharSet.covers, Folding.apply, Member.covers, CharClass.contains]

theorem blank_contains :
    (CharSet.mk [.charClass .blank false false] false .exact).contains = Text.isBlank := by
  funext c
  simp [CharSet.contains, CharSet.covers, Folding.apply, Member.covers, CharClass.contains]

theorem pair_contains (a b : CodePoint) :
    (CharSet.mk [.single a, .single b] false .exact).contains = fun c => c == a || c == b := by
  funext c
  simp [CharSet.contains, CharSet.covers, Folding.apply, Member.covers]

theorem nonzero_contains :
    (CharSet.mk [.range 0x31 0x39] false .exact).contains = fun c => 0x31 ≤ c && c ≤ 0x39 := by
  funext c
  simp [CharSet.contains, CharSet.covers, Folding.apply, Member.covers, Member.between]

theorem takes_digits : Takes (Body.many Body.digit) (many Text.isDigit) := by
  rw [← digit_contains]
  exact takes_many _

theorem takes_someDigits : Takes (Body.several Body.digit) (several Text.isDigit) := by
  rw [← digit_contains]
  exact takes_several _

theorem takes_wholePart : Takes Body.wholePart wholePart :=
  (takesOnly_char 0x30).takes.alt ((takesOnly_set nonzero_contains).seq_takes takes_digits)

theorem takes_fractionPart : Takes Body.fractionPart fractionPart :=
  (takesOnly_char Sign.stop).seq_takes takes_someDigits

theorem takes_exponentPart : Takes Body.exponentPart exponentPart := by
  refine (takesOnly_set (pair_contains _ _)).seq_takes ?_
  have signed := Takes.option_seq ⟨[.single Sign.hyphen, .single Sign.plus], false, .exact⟩
    takes_someDigits fun x t inside => ?_
  · rw [pair_contains] at signed
    exact signed
  · rw [pair_contains] at inside
    rcases (by simpa using inside : x = Sign.hyphen ∨ x = Sign.plus) with rfl | rfl <;> rfl

theorem takes_number : Takes Body.number number := by
  have unsigned : Takes (.seq Body.wholePart
      (.seq (Body.option Body.fractionPart) (Body.option Body.exponentPart)))
      (followed wholePart (followed (perhaps fractionPart) (perhaps exponentPart))) :=
    takes_wholePart.seq
      (takes_fractionPart.option.seq takes_exponentPart.option fun _ => rfl) fun _ => rfl
  have signed := Takes.option_seq (.char .exact Sign.hyphen) unsigned fun x t inside => ?_
  · rw [char_contains] at signed
    exact signed
  · rw [char_contains] at inside
    obtain rfl : x = Sign.hyphen := by simpa using inside
    rfl

theorem bare_contains (c : CodePoint) :
    Body.bare.contains c = (c != Sign.quotation && c != Sign.backslash) := by
  simp [Body.bare, CharSet.contains, CharSet.covers, Folding.apply, Member.covers, bne]

theorem dot_contains : (CharSet.dot {}).contains = (· != Sign.lineFeed) := by
  funext c
  simp [CharSet.dot, CharSet.contains, CharSet.covers, Folding.apply, Member.covers, bne]

/-- One escape and the bare characters after it. -/
theorem run_escaped (s : State) (k : State → Option State) : Body.escaped.run s k =
    (followed (one (· == Sign.backslash)) (one (· != Sign.lineFeed)) s.cursor.after).bind fun w =>
      (Body.many (.chars Body.bare)).run (s.past w) k := by
  have start : TakesOnly (.seq (Body.char Sign.backslash) (.chars (.dot {})))
      (followed (one (· == Sign.backslash)) (one (· != Sign.lineFeed))) := by
    rw [← dot_contains]
    exact (takesOnly_char _).seq (takesOnly_chars _)
  exact start s fun s' => (Body.many (.chars Body.bare)).run s' k

theorem run_closing (s : State) (k : State → Option State) :
    (Body.char Sign.quotation).run s k =
      (one (· == Sign.quotation) s.cursor.after).bind fun w => k (s.past w) :=
  takesOnly_char Sign.quotation s k

theorem escapes_of_bare {s : State} (after : s.cursor.after = x :: t) (bare : Body.bare.contains x)
    (k : State → Option State) : Body.escapes.run s k = none := by
  rw [bare_contains] at bare
  obtain ⟨noQuote, noSlash⟩ : x ≠ Sign.quotation ∧ x ≠ Sign.backslash := by simpa using bare
  have closing : (Body.char Sign.quotation).run s k = none := by
    rw [run_closing, after]
    simp [one, noQuote]
  change rounds .greedy Body.escaped.run none s ((Body.char Sign.quotation).run · k) = none
  rw [rounds_greedy _ (by simp), run_escaped, after, closing]
  simp [followed, one, noSlash]

theorem run_quotedPart (s : State) (k : State → Option State) : Body.quotedPart.run s k =
    Body.escapes.run (s.past (s.cursor.after.takeWhile Body.bare.contains)) k :=
  run_many_only Body.bare (fun _ _ _ after bare => escapes_of_bare after bare k) s

/-- An escape and what is quoted after it, or the closing mark. -/
theorem run_escapes (s : State) (k : State → Option State) : Body.escapes.run s k =
    ((followed (one (· == Sign.backslash)) (one (· != Sign.lineFeed)) s.cursor.after).bind fun w =>
      Body.quotedPart.run (s.past w) k).or ((Body.char Sign.quotation).run s k) := by
  have step : Body.escapes.run s k = (Body.escaped.run s fun s' =>
      if s'.left < s.left then Body.escapes.run s' k
      else (Body.char Sign.quotation).run s' k).or ((Body.char Sign.quotation).run s k) :=
    rounds_greedy _ (by simp) s _
  rw [step, run_escaped]
  congr 1
  cases found : followed (one (· == Sign.backslash)) (one (· != Sign.lineFeed)) s.cursor.after with
  | none => rfl
  | some w =>
    have shorter : ∀ v, ((s.past w).past v).left < s.left := by
      intro v
      cases after : s.cursor.after with
      | nil => simp [after, followed, one] at found
      | cons x t =>
        obtain ⟨u, rfl⟩ : ∃ u, x :: u = w := by
          rw [after, followed, one] at found
          split at found
          · obtain ⟨u, _, rfl⟩ := Option.map_eq_some_iff.mp found
            exact ⟨u, rfl⟩
          · simp at found
        rw [State.past_past]
        exact State.past_left after x (u ++ v)
    have other : ∀ (s' : State) x rest, s'.cursor.after = x :: rest → Body.bare.contains x →
        (if s'.left < s.left then Body.escapes.run s' k
          else (Body.char Sign.quotation).run s' k) = none := by
      intro s' x rest after bare
      have escapes := escapes_of_bare after bare k
      rw [bare_contains] at bare
      split
      · exact escapes
      · rw [run_closing, after]
        simp_all [one]
    rw [Option.bind_some, Option.bind_some, run_quotedPart]
    exact (run_many_only Body.bare other (s.past w)).trans (if_pos (shorter _))

/-- What stands at the mark or the escape, or else at a bare character. -/
theorem quotedPart_step {s : State} (ahead : s.cursor.after = x :: t)
    (k : State → Option State) : Body.quotedPart.run s k =
      if Body.bare.contains x then Body.quotedPart.run (s.past [x]) k else Body.escapes.run s k := by
  have after : (s.past [x]).cursor.after = t := by
    rw [State.past_after, ahead]
    rfl
  rw [run_quotedPart, run_quotedPart, ahead, after, List.takeWhile_cons]
  split
  · rw [State.past_past]
    rfl
  · rfl

/-- At a backslash only an escape can go on. -/
theorem quotedPart_escape {s : State} (ahead : s.cursor.after = Sign.backslash :: t)
    (k : State → Option State) : Body.quotedPart.run s k =
      (followed (one (· == Sign.backslash)) (one (· != Sign.lineFeed)) s.cursor.after).bind fun w =>
        Body.quotedPart.run (s.past w) k := by
  have noMark : one (· == Sign.quotation) (Sign.backslash :: t) = none := rfl
  rw [quotedPart_step ahead, run_escapes, run_closing, ahead, noMark, Option.bind_none,
    Option.or_none]
  rfl

theorem takesOnly_quotedPart : TakesOnly Body.quotedPart quotedPart := by
  intro s k
  generalize ahead : s.cursor.after = t
  fun_induction quotedPart t generalizing s with
  | case1 =>
    rw [run_quotedPart, run_escapes, run_closing, State.past_after, ahead]
    rfl
  | case2 t =>
    rw [quotedPart_step ahead, run_escapes, run_closing, ahead]
    rfl
  | case3 c t feed =>
    obtain rfl : c = Sign.lineFeed := by simpa using feed
    rw [quotedPart_escape ahead, ahead]
    rfl
  | case4 c t plain ih =>
    have after : (s.past [Sign.backslash, c]).cursor.after = t := by
      rw [State.past_after, ahead]
      rfl
    have taken : followed (one (· == Sign.backslash)) (one (· != Sign.lineFeed))
        (Sign.backslash :: c :: t) = some [Sign.backslash, c] := by
      simpa [followed, one] using plain
    rw [quotedPart_escape ahead, ahead, taken, Option.bind_some, ih _ after, Option.bind_map]
    simp only [Function.comp_def, State.past_past]
  | case5 =>
    rw [quotedPart_escape ahead, ahead]
    rfl
  | case6 c t noMark noEscape single ih =>
    have after : (s.past [c]).cursor.after = t := by
      rw [State.past_after, ahead]
      rfl
    have noSlash : c ≠ Sign.backslash := not_backslash single noEscape
    have bare : Body.bare.contains c := by
      rw [bare_contains]
      simpa using ⟨noMark, noSlash⟩
    rw [quotedPart_step ahead, if_pos bare, ih _ after, Option.bind_map]
    simp only [Function.comp_def, State.past_past, List.singleton_append]

theorem takes_quoted : Takes Body.quoted quoted :=
  ((takesOnly_char _).seq takesOnly_quotedPart).takes

theorem takes_blanks : Takes (Body.several (Body.set [.charClass .blank false false]))
    (several Text.isBlank) := by
  rw [← blank_contains]
  exact takes_several _

theorem takes_fronts : ∀ p ∈ bodies.zip fronts, Takes p.1 p.2 := by
  have words : ∀ c w, Takes (Body.word (c :: w)) (word (c :: w)) :=
    fun c w => (takesOnly_word c w).takes
  intro p member
  simp only [bodies, fronts, List.zip_cons_cons, List.zip_nil_left, List.mem_cons, List.not_mem_nil,
    or_false] at member
  rcases member with
    rfl | rfl | rfl | rfl | rfl | rfl | rfl | rfl | rfl | rfl | rfl | rfl
  case inr.inr.inr.inl => exact takes_number
  case inr.inr.inr.inr.inl => exact takes_quoted
  case inr.inr.inr.inr.inr.inr.inr.inr.inr.inr.inr => exact takes_blanks
  all_goals exact words _ _

/-- The bodies as groups, numbered as in the whole pattern. -/
def groups (index : Nat) : List Node → List Node
  | [] => []
  | body :: rest => .group (index + 1) body :: groups (index + 1) rest

theorem engine_node : engine.pattern.node = Node.ofChoices.alternatives (groups 0 bodies) := by
  decide +kernel

theorem engine_names : ∀ i < 12,
    engine.pattern.groupName? (i + 1) = some (Engine.groupName i) := by
  decide +kernel

/-- The first group that matches is that of the first rule that takes something. -/
theorem groups_run (takes : ∀ p ∈ nodes.zip list, Takes p.1 p.2) (same : nodes.length = list.length)
    (k : Nat) (c : Cursor) :
    ((groups k nodes).findSome? (·.run ⟨c, [], none⟩ some)).map (fun s => (s.cursor, s.lastGroup)) =
      (firstFront k list c.after).map fun token =>
        (c.advance token.2.length, some (token.1 + 1)) := by
  induction nodes generalizing list k with
  | nil =>
    cases list with
    | nil => rfl
    | cons front rest => simp at same
  | cons body nodes ih =>
    cases list with
    | nil => simp at same
    | cons front rest =>
      have first : Takes body front := takes (body, front) (by simp)
      have later := ih (fun p member => takes p (List.mem_cons_of_mem _ member))
        (by simpa using same) (k + 1)
      rw [groups, List.findSome?_cons, Node.run, first _ _ (fun _ => rfl), firstFront]
      have here : (State.enter (k + 1) ⟨c, [], none⟩).cursor = c := rfl
      rw [here]
      cases front c.after with
      | none => simpa using later
      | some w => rfl

/-- A pattern of such groups finds the first front of the text ahead. -/
theorem groups_matchAt {p : Pattern} (node : p.node = Node.ofChoices.alternatives (groups 0 (body :: nodes)))
    (names : ∀ i < (body :: nodes).length, p.groupName? (i + 1) = some (Engine.groupName i))
    (takes : ∀ pair ∈ (body :: nodes).zip list, Takes pair.1 pair.2)
    (same : (body :: nodes).length = list.length) (c : Cursor) : p.matchAt c =
      (firstFront 0 list c.after).map fun token =>
        ⟨c, c.advance token.2.length, some (Engine.groupName token.1)⟩ := by
  have run := groups_run takes same 0 c
  rw [Pattern.matchAt, node, Engine.alternatives_run _ (by simp [groups])]
  cases found : firstFront 0 list c.after with
  | none =>
    rw [found, Option.map_none, Option.map_eq_none_iff] at run
    rw [run]
    rfl
  | some token =>
    obtain ⟨i, w⟩ := token
    obtain ⟨i, front, rfl, rule, -⟩ := firstFront_some found
    have inside : i < list.length := (List.getElem?_eq_some_iff.mp rule).1
    rw [found, Option.map_some, Nat.zero_add] at run
    obtain ⟨s, ran, same'⟩ := Option.map_eq_some_iff.mp run
    obtain ⟨stop, group⟩ := Prod.mk.inj same'
    rw [ran, Nat.zero_add]
    simp only [Option.map_some, stop, group, Option.bind_some, names i (same ▸ inside)]

/-- The engine's pattern finds the token at the start of the text ahead. -/
theorem engine_matchAt (c : Cursor) : engine.pattern.matchAt c =
    (lexeme? c.after).map fun token =>
      ⟨c, c.advance token.2.length, some (Engine.groupName token.1)⟩ :=
  groups_matchAt engine_node engine_names takes_fronts rfl c

end TokenRules.Json
