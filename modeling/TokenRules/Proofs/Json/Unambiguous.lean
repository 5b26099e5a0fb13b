import TokenRules.Proofs.Json.Alone
import TokenRules.Proofs.Json.Direct
import TokenRules.Proofs.Json.Outcome
import TokenRules.Proofs.Scan.Alike
import TokenRules.Proofs.Scan.Buildable
import TokenRules.Proofs.Scan.FirstRule

/-! The rules of JSON tell their tokens apart: no two of them match at one place. So the order in which they
are declared makes no difference, and the lexer written out by hand finds what any engine of them finds. -/
namespace TokenRules.Json

open Pattern

/-- Each pattern compiles by itself, needs nothing of what stands around it, and names no group. -/
theorem lexemes_modular (known : lexeme ∈ lexemes) :
    ∃ p, Modular (Text.ofString lexeme.1) p ∧ p.names = [] := by
  have checked : (lexemes.map (·.1)).all fun pattern =>
      (Pattern.compile (Text.ofString pattern) {}).toOption.any (·.names.isEmpty) &&
      (Reader.parts (Token.ofText (Text.ofString pattern)) (.start {})).all Part.isModular &&
      (RulePattern.source (Text.ofString pattern)).alternative.toOption == some (Text.ofString pattern) := by
    decide +kernel
  have checked := List.all_eq_true.mp checked lexeme.1 (List.mem_map_of_mem known)
  simp only [Bool.and_eq_true, Option.any_eq_true, beq_iff_eq, Engine.toOption_eq_some,
    List.isEmpty_iff] at checked
  obtain ⟨⟨⟨p, compiled, nameless⟩, parts⟩, alternative⟩ := checked
  exact ⟨p, ⟨compiled, parts, alternative⟩, nameless⟩

/-- A rule of JSON by its number, with its pattern compiled by itself. -/
structure Declared (i : Nat) (rule : Rule Builder Flaw) (p : Pattern) : Prop where
  alone : Alone i p
  action : ∃ act, rule.action = some act ∧
    ∀ c stop, engine.actionFor ⟨c, stop, some (Engine.groupName i)⟩ = .ok act
  source : ∃ text, rule.pattern = .source text ∧ Modular text p
  nameless : p.names = []

theorem declared (known : rules[i]? = some rule) : ∃ p, Declared i rule p := by
  rw [rules, List.getElem?_map] at known
  obtain ⟨lexeme, found, rfl⟩ := Option.map_eq_some_iff.mp known
  obtain ⟨p, modular, nameless⟩ := lexemes_modular (List.mem_of_getElem? found)
  exact ⟨p, ⟨lexeme, found, modular.compiled⟩, ⟨_, rfl, engine_actionFor found⟩, ⟨_, rfl, modular⟩, nameless⟩

/-- A rule has one pattern, though it may have several numbers. -/
theorem Declared.unique (declared : Declared i rule p) (declared' : Declared i' rule p') : p' = p := by
  obtain ⟨text, source, modular⟩ := declared.source
  obtain ⟨text', source', modular'⟩ := declared'.source
  obtain rfl := RulePattern.source.inj (source.symm.trans source')
  exact (Except.ok.inj (modular.compiled.symm.trans modular'.compiled)).symm

/-- Rules of JSON in some order, with their patterns by their places in it. -/
def AllDeclared (own : Nat → Pattern) (order : List (Rule Builder Flaw)) : Prop :=
  ∀ j rule, order[j]? = some rule → ∃ i, Declared i rule (own j)

theorem allDeclared_exists {order : List (Rule Builder Flaw)} (among : ∀ rule ∈ order, rule ∈ rules) :
    ∃ own : Nat → Pattern, (∀ j, (own j).names = []) ∧ AllDeclared own order := by
  have each : ∀ j : Nat, ∃ p : Pattern, p.names = [] ∧
      ∀ rule, order[j]? = some rule → ∃ i, Declared i rule p := by
    intro j
    cases found : order[j]? with
    | none => exact ⟨⟨[], {}, .empty, []⟩, rfl, by simp⟩
    | some rule =>
      obtain ⟨i, known⟩ := List.mem_iff_getElem?.mp (among rule (List.mem_of_getElem? found))
      obtain ⟨p, declared⟩ := declared known
      exact ⟨p, declared.nameless, fun _ same => ⟨i, Option.some.inj same ▸ declared⟩⟩
  obtain ⟨own, chosen⟩ := Classical.axiomOfChoice each
  exact ⟨own, fun j => (chosen j).1, fun j => (chosen j).2⟩

namespace AllDeclared

variable {own : Nat → Pattern} {order : List (Rule Builder Flaw)} {e : Engine Builder Flaw}

theorem modular (all : AllDeclared own order) : Engine.AllModular own 0 order := by
  intro j rule known
  obtain ⟨i, declared⟩ := all j rule known
  obtain ⟨act, given, -⟩ := declared.action
  rw [Nat.zero_add]
  exact ⟨by rw [given]; rfl, declared.source⟩

theorem compiled (all : AllDeclared own order) : Engine.Own (fun _ => {}) own 0 order := by
  constructor
  · intro j rule known
    obtain ⟨-, text, source, modular⟩ := all.modular j rule known
    rw [source]
    exact modular.compiles
  · intro j rule known
    obtain ⟨-, text, source, modular⟩ := all.modular j rule known
    rw [source]
    exact modular.named

/-- A match is that of a rule, and so of the one token that stands at the place. -/
theorem token (all : AllDeclared own order)
    (built : Engine.build order Source.LineBreaks.normal.name = .ok e)
    (matched : e.pattern.matchAt c = some m) : ∃ i w act, lexeme? c.after = some (i, w) ∧
      m.start = c ∧ m.stop = c.advance w.length ∧ e.actionFor m = .ok act ∧
      ∀ stop, engine.actionFor ⟨c, stop, some (Engine.groupName i)⟩ = .ok act := by
  obtain ⟨j, rule, m', known, alone, start, stop, act, given, bound⟩ :=
    Engine.build_matched built all.compiled matched
  obtain ⟨i, declared⟩ := all j rule known
  obtain ⟨w, found, rfl⟩ := (declared.alone.lexeme c).mp alone
  obtain ⟨act', given', bound'⟩ := declared.action
  obtain rfl := Option.some.inj (given.symm.trans given')
  exact ⟨i, w, act, found, start, stop, bound, bound' c⟩

/-- Where a token stands there is a match, as the rule of the token is among the others. -/
theorem matched (all : AllDeclared own order) (every : ∀ rule ∈ rules, rule ∈ order)
    (built : Engine.build order Source.LineBreaks.normal.name = .ok e)
    (found : lexeme? c.after = some (i, w)) : (e.pattern.matchAt c).isSome := by
  have inside : i < rules.length := lexeme?_inside found
  have known : rules[i]? = some rules[i] := List.getElem?_eq_getElem inside
  obtain ⟨j, known'⟩ := List.mem_iff_getElem?.mp (every _ (List.mem_of_getElem? known))
  obtain ⟨p, declared⟩ := declared known
  obtain ⟨i', declared'⟩ := all j _ known'
  refine (Engine.build_isSome_iff built all.compiled c).mpr
    ⟨j, (List.getElem?_eq_some_iff.mp known').1, ?_⟩
  rw [declared.unique declared', (declared.alone.lexeme c).mpr ⟨w, found, rfl⟩]
  rfl

/-- An engine of the same rules in another order finds the same tokens. -/
theorem alike (all : AllDeclared own order) (every : ∀ rule ∈ rules, rule ∈ order)
    (built : Engine.build order Source.LineBreaks.normal.name = .ok e) : engine.Alike e := by
  refine ⟨(Engine.build_lineBreaks built).trans engine_lineBreaks.symm, fun c => ?_⟩
  rw [engine_matchAt]
  cases here : e.pattern.matchAt c with
  | none =>
    cases found : lexeme? c.after with
    | none => exact .none
    | some token => simpa [here] using all.matched every built found
  | some m =>
    obtain ⟨i, w, act, found, start, stop, bound, bound'⟩ := all.token built here
    rw [found]
    exact .some ⟨start, stop, bound.trans (bound' _).symm⟩

end AllDeclared

/-- A token of JSON is not empty. -/
theorem Alone.nonempty (alone : Alone i p) (matched : p.matchAt c = some m) :
    m.start.offset < m.stop.offset := by
  obtain ⟨w, found, rfl⟩ := (alone.lexeme c).mp matched
  obtain ⟨⟨rest, ahead⟩, x, u, rfl, -⟩ := lexeme?_spec found
  change c.offset < (c.advance (x :: u).length).offset
  rw [(Cursor.advance_append ahead.symm).2, List.length_cons]
  omega

/-- The lexer of JSON is unambiguous: at most one of its rules matches at a place, it takes a character at
least, and the match of the engine is the token that is read by hand. So an engine of the same rules in any
order finds the same tokens, with the same actions, and parses alike. -/
theorem lexer_unambiguous :
    (∀ i < rules.length, ∃ p, Alone i p) ∧
    (∀ c i j p q m n, Alone i p → Alone j q → p.matchAt c = some m → q.matchAt c = some n →
      i = j ∧ m.start.offset < m.stop.offset) ∧
    (∀ c, engine.pattern.matchAt c = (Direct.token? c.after).map fun token =>
      ⟨c, c.advance token.2.length, some (Engine.groupName token.1)⟩) ∧
    ∀ order, order.Perm rules → ∃ e, Engine.build order Source.LineBreaks.normal.name = .ok e ∧
      (∀ t, (e.tokens t).1.map (fun m => (m.start, m.stop, e.actionFor m)) =
          (engine.tokens t).1.map (fun m => (m.start, m.stop, engine.actionFor m)) ∧
        (e.tokens t).2.cursor = (engine.tokens t).2.cursor) ∧
      ∀ {ρ : Type} t b (finish : Builder → Except (Raised Flaw) ρ),
        e.parse t b finish = engine.parse t b finish := by
  refine ⟨fun i => alone_exists, fun c i j p q m n alone alone' matched matched' => ?_, fun c => ?_,
    fun order perm => ?_⟩
  · obtain ⟨w, found, -⟩ := (alone.lexeme c).mp matched
    obtain ⟨w', found', -⟩ := (alone'.lexeme c).mp matched'
    exact ⟨(Prod.mk.inj (Option.some.inj (found.symm.trans found'))).1, alone.nonempty matched⟩
  · rw [engine_matchAt, Direct.lexeme?_eq]
  · obtain ⟨own, nameless, all⟩ := allDeclared_exists fun rule => perm.mem_iff.mp
    have nonempty : order ≠ [] := by
      rintro rfl
      have same := perm.length_eq
      contradiction
    obtain ⟨e, built⟩ := Engine.build_of_modular nonempty all.modular (Engine.namesFrom_nodup nameless 0 _) _
    have alike := all.alike (fun rule => perm.mem_iff.mpr) built
    refine ⟨e, built, fun t => ?_, fun t b finish => alike.parse t b finish⟩
    have start : Scanner.start e.pattern t 0 = (Scanner.start engine.pattern t 0).using e.pattern := rfl
    obtain ⟨same, last⟩ := alike.tokens (s := Scanner.start engine.pattern t 0) rfl
    rw [← start] at same last
    refine ⟨same, ?_⟩
    rw [Engine.tokens, last]
    rfl

/-- A number with a digit after its zero, which begins another number, also if the rules are reversed. -/
theorem lexer_unambiguous_reversed :
    (∃ p m, Alone 3 p ∧ p.matchAt (.start [0x2D, 0x30, 0x31]) = some m ∧ m.start.offset < m.stop.offset) ∧
    rules.reverse.Perm rules ∧ ∃ e, Engine.build rules.reverse Source.LineBreaks.normal.name = .ok e ∧
      (e.tokens [0x2D, 0x30, 0x31]).1.map (fun m => (m.start.offset, m.stop.offset)) = [(0, 2), (2, 3)] ∧
      (e.parse [0x2D, 0x30, 0x31] .empty finishValue).outcome = parse [0x2D, 0x30, 0x31] := by
  obtain ⟨alone, apart, -, order⟩ := lexer_unambiguous
  obtain ⟨p, number⟩ := alone 3 (by decide)
  have token : lexeme? [0x2D, 0x30, 0x31] = some (3, [0x2D, 0x30]) := by decide +kernel
  have matched := (number.lexeme (.start [0x2D, 0x30, 0x31])).mpr ⟨_, token, rfl⟩
  obtain ⟨e, built, tokens, parses⟩ := order _ (List.reverse_perm rules)
  refine ⟨⟨p, _, number, matched, (apart _ _ _ _ _ _ _ number number matched matched).2⟩,
    List.reverse_perm rules, e, built, ?_, ?_⟩
  · have spans := congrArg (List.map fun (span : Cursor × Cursor × _) => (span.1.offset, span.2.1.offset))
      (tokens [0x2D, 0x30, 0x31]).1
    rw [List.map_map, List.map_map] at spans
    have each : (engine.tokens [0x2D, 0x30, 0x31]).1.map (fun m => (m.start.offset, m.stop.offset)) =
        [(0, 2), (2, 3)] := by
      decide +kernel
    exact spans.trans each
  · rw [parses]
    rfl

end TokenRules.Json
