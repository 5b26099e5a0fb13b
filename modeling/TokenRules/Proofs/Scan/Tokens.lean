import TokenRules.Scan.Engine

/-! The tokens of a text: the matches one after the other, which no action can change. A parse applies
the actions to them in order. -/
namespace TokenRules

/-- All matches that a scanner has still to find, and the scanner after the last of them. -/
def Scanner.tokens (s : Scanner) : List Match × Scanner :=
  match _h : s.advance with
  | (none, s) => ([], s)
  | (some m, s) => (m :: (tokens s).1, (tokens s).2)
termination_by s.remaining
decreasing_by all_goals exact Scanner.advance_remaining _h

theorem Scanner.tokens_none {s : Scanner} (ended : s.advance = (none, s')) : s.tokens = ([], s') := by
  rw [tokens]
  split
  · next found => rw [(Prod.mk.inj (found.symm.trans ended)).2]
  · next found => simp [ended] at found

theorem Scanner.tokens_some {s : Scanner} (moved : s.advance = (some m, s')) :
    s.tokens = (m :: s'.tokens.1, s'.tokens.2) := by
  rw [tokens]
  split
  · next found => simp [moved] at found
  · next found =>
    obtain ⟨same, rfl⟩ := Prod.mk.inj (found.symm.trans moved)
    rw [Option.some.inj same]

@[simp] theorem mapError_ok (f : ε → ε') (a : α) : (Except.ok a : Except ε α).mapError f = .ok a :=
  rfl

@[simp] theorem mapError_error (f : ε → ε') (raised : ε) :
    (Except.error raised : Except ε α).mapError f = .error (f raised) :=
  rfl

theorem mapError_eq_ok {x : Except ε α} {f : ε → ε'} : x.mapError f = .ok a ↔ x = .ok a := by
  cases x with
  | ok => simp
  | error => simp

theorem mapError_eq_error {x : Except ε α} {f : ε → ε'} :
    x.mapError f = .error b ↔ ∃ a, x = .error a ∧ f a = b := by
  cases x with
  | ok => simp
  | error => simp

namespace Engine

variable {σ ε ρ : Type} {e : Engine σ ε}

/-- Applies the actions of matches in order, up to the first that raises. -/
def applyAll (e : Engine σ ε) (context : σ) : List Match → Except (Raised ε) σ
  | [] => .ok context
  | m :: rest =>
    match e.apply m context with
    | .ok context => applyAll e context rest
    | .error raised => .error raised

def tokens (e : Engine σ ε) (content : Text) : List Match × Scanner :=
  (Scanner.start e.pattern content 0).tokens

theorem scan_ok {s : Scanner} (applied : e.applyAll context s.tokens.1 = .ok context') :
    e.scan s context = (s.tokens.2, context', none) := by
  fun_induction scan e s context with
  | case1 s context s' ended =>
    rw [Scanner.tokens_none ended] at applied ⊢
    rw [← Except.ok.inj applied]
  | case2 s context m s' moved next accepted ih =>
    rw [Scanner.tokens_some moved] at applied ⊢
    simp only [applyAll, accepted] at applied
    exact ih applied
  | case3 s context m s' moved raised refused =>
    rw [Scanner.tokens_some moved] at applied
    simp [applyAll, refused] at applied

theorem scan_error {s : Scanner} (failed : e.applyAll context s.tokens.1 = .error raised) :
    (e.scan s context).2.2 = some raised := by
  fun_induction scan e s context with
  | case1 s context s' ended =>
    rw [Scanner.tokens_none ended] at failed
    simp [applyAll] at failed
  | case2 s context m s' moved next accepted ih =>
    rw [Scanner.tokens_some moved] at failed
    simp only [applyAll, accepted] at failed
    exact ih failed
  | case3 s context m s' moved raised' refused =>
    rw [Scanner.tokens_some moved] at failed
    simp only [applyAll, refused] at failed
    rw [Except.error.inj failed]

/-- A parse has a result if the tokens reach the end of the text and no action and no end of the parse
raises. -/
theorem parse_ok_iff {content : Text} {finish : σ → Except (Raised ε) ρ} :
    (e.parse content context finish).outcome = .ok r ↔
      ∃ context', e.applyAll context (e.tokens content).1 = .ok context' ∧
        (e.tokens content).2.isBlocked = false ∧ finish context' = .ok r := by
  rw [parse]
  simp only [mapError_eq_ok]
  cases applied : e.applyAll context (e.tokens content).1 with
  | error raised =>
    have failed := scan_error applied
    generalize e.scan _ context = out at failed ⊢
    obtain ⟨s, left, reason⟩ := out
    obtain rfl : reason = some raised := failed
    simp
  | ok context' =>
    rw [scan_ok applied]
    simp only [tokens]
    cases (Scanner.start e.pattern content 0).tokens.2.isBlocked with
    | true => simp
    | false => simp

end Engine
end TokenRules
