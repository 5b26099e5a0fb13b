import TokenRules.Proofs.Scan.Course

/-! Engines that match alike: at every place of a text they find the same span, and for it the same action,
though perhaps in a group of another name. They find the same tokens in a text, and parse it alike. -/
namespace TokenRules

/-- The scanner with another pattern. -/
def Scanner.using (s : Scanner) (p : Pattern) : Scanner :=
  { s with pattern := p }

namespace Engine

variable {σ ε ρ : Type} {e e' : Engine σ ε}

/-- What a parse depends on in a match: its span, and its action. -/
structure SameToken (e e' : Engine σ ε) (m m' : Match) : Prop where
  start : m'.start = m.start
  stop : m'.stop = m.stop
  action : e'.actionFor m' = e.actionFor m

/-- At every place both find the same token, or both find none. -/
structure Alike (e e' : Engine σ ε) : Prop where
  lineBreaks : e'.lineBreaks = e.lineBreaks
  matched : ∀ c, Option.Rel (SameToken e e') (e.pattern.matchAt c) (e'.pattern.matchAt c)

theorem SameToken.apply (same : SameToken e e' m m') (context : σ) :
    e'.apply m' context = e.apply m context := by
  simp only [Engine.apply, same.action, Match.text, same.start, same.stop]

theorem Alike.peek (alike : Alike e e') {s : Scanner} (pattern : s.pattern = e.pattern) :
    Option.Rel (SameToken e e') s.peek (s.using e'.pattern).peek := by
  have peeked : (s.using e'.pattern).peek = if s.hasMore then
      (e'.pattern.matchAt s.cursor).filter fun m => s.position < m.stop.offset else none := rfl
  have matched := alike.matched s.cursor
  rw [peeked, Scanner.peek, pattern]
  generalize e.pattern.matchAt s.cursor = found, e'.pattern.matchAt s.cursor = found' at matched
  split
  · cases matched with
    | none => exact .none
    | some same =>
      rw [Option.filter_some, Option.filter_some, same.stop]
      split
      · exact .some same
      · exact .none
  · exact .none

theorem Alike.advance_none (alike : Alike e e') {s s' : Scanner} (pattern : s.pattern = e.pattern)
    (ended : s.advance = (none, s')) :
    (s.using e'.pattern).advance = (none, s'.using e'.pattern) := by
  have peeked := alike.peek pattern
  simp only [Scanner.advance] at ended ⊢
  generalize s.peek = found, (s.using e'.pattern).peek = found' at peeked ended
  cases peeked with
  | none => exact (Prod.mk.inj ended).2 ▸ rfl
  | some same => simp at ended

theorem Alike.advance_some (alike : Alike e e') {s s' : Scanner} (pattern : s.pattern = e.pattern)
    (moved : s.advance = (some m, s')) : s'.pattern = e.pattern ∧
      ∃ m', (s.using e'.pattern).advance = (some m', s'.using e'.pattern) ∧ SameToken e e' m m' := by
  have peeked := alike.peek pattern
  simp only [Scanner.advance] at moved ⊢
  generalize s.peek = found, (s.using e'.pattern).peek = found' at peeked moved
  cases peeked with
  | none => simp at moved
  | @some _ m' same =>
    obtain ⟨found, rfl⟩ := Prod.mk.inj moved
    obtain rfl := Option.some.inj found
    refine ⟨pattern, m', ?_, same⟩
    simp only [same.start, same.stop]
    rfl

/-- The two find the same tokens, and come to the same place. -/
theorem Alike.tokens (alike : Alike e e') {s : Scanner} (pattern : s.pattern = e.pattern) :
    (s.using e'.pattern).tokens.1.map (fun m => (m.start, m.stop, e'.actionFor m)) =
        s.tokens.1.map (fun m => (m.start, m.stop, e.actionFor m)) ∧
      (s.using e'.pattern).tokens.2 = s.tokens.2.using e'.pattern := by
  fun_induction Scanner.tokens s with
  | case1 s s' ended =>
    rw [Scanner.tokens_none (alike.advance_none pattern ended)]
    exact ⟨rfl, rfl⟩
  | case2 s m s' moved ih =>
    obtain ⟨pattern', m', moved', same⟩ := alike.advance_some pattern moved
    obtain ⟨later, last⟩ := ih pattern'
    rw [Scanner.tokens_some moved', List.map_cons, List.map_cons, later, same.start, same.stop, same.action]
    exact ⟨rfl, last⟩

/-- The two scan in lockstep, with the same contexts. -/
theorem Alike.scan (alike : Alike e e') {s : Scanner} (pattern : s.pattern = e.pattern) (context : σ) :
    e'.scan (s.using e'.pattern) context =
      ((e.scan s context).1.using e'.pattern, (e.scan s context).2) := by
  fun_induction Engine.scan e s context with
  | case1 s context s' ended => exact scan_ended (alike.advance_none pattern ended)
  | case2 s context m s' moved next accepted ih =>
    obtain ⟨pattern', m', moved', same⟩ := alike.advance_some pattern moved
    rw [scan_moved moved', same.apply, accepted]
    exact ih pattern'
  | case3 s context m s' moved raised refused =>
    obtain ⟨-, m', moved', same⟩ := alike.advance_some pattern moved
    rw [scan_moved moved', same.apply, refused]

/-- Engines that match alike parse alike: the same outcome, and the same context in the end. -/
theorem Alike.parse (alike : Alike e e') (content : Text) (context : σ)
    (finish : σ → Except (Raised ε) ρ) :
    e'.parse content context finish = e.parse content context finish := by
  have scanned := alike.scan (s := Scanner.start e.pattern content 0) rfl context
  have stopped : ∀ s : Scanner, e'.stop content (s.using e'.pattern) = e.stop content s := by
    intro s
    funext raised
    cases raised with
    | defect d => rfl
    | trouble t =>
      simp only [stop, alike.lineBreaks]
      rfl
  have start : Scanner.start e'.pattern content 0 = (Scanner.start e.pattern content 0).using e'.pattern :=
    rfl
  rw [Engine.parse, Engine.parse, start, scanned]
  generalize e.scan (Scanner.start e.pattern content 0) context = out
  obtain ⟨s, last, raised⟩ := out
  simp only [stopped]
  rfl

end Engine
end TokenRules
