import TokenRules.Proofs.Ini.Lexer
import TokenRules.Proofs.Scan.Verdict

/-! The items of an INI file: what its tokens say, read off the text alone. A reader takes them one after the
other, and the engine makes it do so. -/
namespace TokenRules.Ini

/-- What a token says; comments and blanks say nothing. -/
inductive Item where
  | skipped
  | header (name : Text)
  | assignment (key value : Text)
  deriving DecidableEq, Repr

/-- What a token of a rule says. -/
def item (rule : Nat) (w : Text) : Item :=
  match rule with
  | 2 => .header (headerName w)
  | 3 => .assignment (splitAssignment w).1 (splitAssignment w).2
  | _ => .skipped

/-- What the tokens of a text from an offset on say, each with its offset, and the rest of the text where no
rule goes on. -/
def items (offset : Nat) (t : Text) : List (Nat × Item) × Text :=
  match _h : lexeme? t with
  | none => ([], t)
  | some (i, w) =>
    let rest := items (offset + w.length) (t.drop w.length)
    ((offset, item i w) :: rest.1, rest.2)
termination_by t.length
decreasing_by
  obtain ⟨⟨rest, rfl⟩, x, u, rfl, -⟩ := lexeme?_spec _h
  rw [List.drop_left, List.length_append, List.length_cons]
  omega

theorem items_none (stuck : lexeme? t = none) (offset : Nat) : items offset t = ([], t) := by
  rw [items]
  split
  · rfl
  · next found => simp [stuck] at found

theorem items_some (found : lexeme? (w ++ t) = some (i, w)) (offset : Nat) :
    items offset (w ++ t) =
      ((offset, item i w) :: (items (offset + w.length) t).1, (items (offset + w.length) t).2) := by
  rw [items]
  split
  · next stuck => simp [found] at stuck
  · next j v found' =>
    obtain ⟨rfl, rfl⟩ := Prod.mk.inj (Option.some.inj (found'.symm.trans found))
    rw [List.drop_left]

namespace Reader

def take (r : Reader) (place : Nat) : Item → Except Refusal Reader
  | .skipped => .ok r
  | .header name => r.openSection name place
  | .assignment key value => r.assign key value

/-- Takes items one after the other. A refusal comes with the place of its item. -/
def takeAll (r : Reader) : List (Nat × Item) → Except (Refusal × Nat) Reader
  | [] => .ok r
  | (place, item) :: rest =>
    match r.take place item with
    | .ok r => takeAll r rest
    | .error why => .error (why, place)

theorem takeAll_append (r : Reader) (before after : List (Nat × Item)) :
    r.takeAll (before ++ after) = (r.takeAll before).bind fun r => r.takeAll after := by
  induction before generalizing r with
  | nil => rfl
  | cons entry before ih =>
    obtain ⟨place, item⟩ := entry
    simp only [List.cons_append, takeAll]
    cases r.take place item with
    | error why => rfl
    | ok r => exact ih r

/-- What is refused is the first item that the reader does not take in the state that it has got to. -/
theorem takeAll_error {r : Reader} (refused : r.takeAll its = .error (why, place)) :
    ∃ before x after reached, its = before ++ (place, x) :: after ∧ r.takeAll before = .ok reached ∧
      reached.take place x = .error why := by
  induction its generalizing r with
  | nil => contradiction
  | cons entry rest ih =>
    obtain ⟨place', x⟩ := entry
    cases answer : r.take place' x with
    | ok next =>
      simp only [takeAll, answer] at refused
      obtain ⟨before, x', after, reached, rfl, taken, step⟩ := ih refused
      refine ⟨(place', x) :: before, x', after, reached, rfl, ?_, step⟩
      simp only [takeAll, answer]
      exact taken
    | error why' =>
      simp only [takeAll, answer] at refused
      obtain ⟨rfl, rfl⟩ := Prod.mk.inj (Except.error.inj refused)
      exact ⟨[], x, rest, r, rfl, rfl, answer⟩

end Reader

theorem engine_lineBreaks : engine.lineBreaks = Source.LineBreaks.normal.name :=
  Engine.build_lineBreaks (Engine.eq_ok_of_isSome _ rules_build)

/-- The actions of the rules make a reader take what the token says. -/
theorem action_eq (known : lexemes[i]? = some (p, action)) (w : Text) (r : Reader) (offset : Nat) :
    action w r offset = (r.take offset (item i w)).mapError Refusal.raised := by
  have inside : i < 4 := (List.getElem?_eq_some_iff.mp known).1
  have cases : i = 0 ∨ i = 1 ∨ i = 2 ∨ i = 3 := by omega
  rcases cases with rfl | rfl | rfl | rfl
  all_goals
    obtain ⟨-, rfl⟩ := Prod.mk.inj (Option.some.inj known)
    rfl

theorem apply_token {c : Cursor} (found : lexeme? c.after = some (i, w)) (r : Reader) :
    engine.apply ⟨c, c.advance w.length, some (Engine.groupName i)⟩ r =
      (r.take c.offset (item i w)).mapError Refusal.raised := by
  obtain ⟨front, rule, -⟩ := lexeme?_eq_some.mp found
  have inside : i < lexemes.length := (List.getElem?_eq_some_iff.mp rule).1
  have known : rules[i]? = some ⟨.source (Text.ofString lexemes[i].1), some lexemes[i].2⟩ := by
    rw [rules, List.getElem?_map, List.getElem?_eq_getElem inside]
    rfl
  obtain ⟨action, same, bound⟩ := Engine.actionFor_of_build (Engine.eq_ok_of_isSome _ rules_build) known
    ⟨c, c.advance w.length, some (Engine.groupName i)⟩ rfl
  obtain rfl := Option.some.inj same
  obtain ⟨⟨rest, ahead⟩, -⟩ := lexeme?_spec found
  have bound : engine.actionFor ⟨c, c.advance w.length, some (Engine.groupName i)⟩ = _ := bound
  rw [Engine.apply, bound]
  simp only [Match.text_advance ahead.symm]
  exact action_eq (List.getElem?_eq_getElem inside) w r c.offset

/-- The tokens of the engine say the items, and end where these do. -/
theorem carryOut_tiles (tiles : engine.pattern.Tiles c ms stop) (r : Reader) :
    engine.carryOut r ms = (r.takeAll (items c.offset c.after).1).mapError (fun blamed =>
        (blamed.1.raised, blamed.2)) ∧
      stop.after = (items c.offset c.after).2 := by
  induction tiles generalizing r with
  | @ended c still =>
    have stuck : lexeme? c.after = none := by
      cases found : lexeme? c.after with
      | none => rfl
      | some token =>
        obtain ⟨i, w⟩ := token
        obtain ⟨⟨rest, ahead⟩, x, u, rfl, -⟩ := lexeme?_spec found
        obtain ⟨-, offset⟩ := Cursor.advance_append ahead.symm
        rcases still with nothing | still
        · rw [nothing] at ahead
          contradiction
        · have same := still _ (by rw [engine_matchAt, found]; rfl)
          rw [offset, List.length_cons] at same
          omega
    rw [items_none stuck]
    exact ⟨rfl, rfl⟩
  | @next c m ms stop more matched forward rest ih =>
    rw [engine_matchAt] at matched
    obtain ⟨⟨i, w⟩, found, rfl⟩ := Option.map_eq_some_iff.mp matched
    obtain ⟨⟨u, ahead⟩, -⟩ := lexeme?_spec found
    obtain ⟨after, offset⟩ := Cursor.advance_append ahead.symm
    have next := fun r => ih r
    simp only [after, offset] at next
    rw [Engine.carryOut, apply_token found, ← ahead, items_some (ahead ▸ found), Reader.takeAll]
    refine ⟨?_, (next r).2⟩
    cases r.take c.offset (item i w) with
    | error why => rfl
    | ok r => exact (next r).1

/-- What becomes of a new reader that takes the items of a text: the first refusal, or the place where no rule
goes on, or the document. -/
def judge (t : Text) : Except (Raised Empty × Nat) (List (Text × Settings)) :=
  match Reader.start.takeAll (items 0 t).1 with
  | .error (why, place) => .error (why.raised, place)
  | .ok r =>
    if (items 0 t).2.isEmpty then .ok r.document.result
    else .error (.trouble (.blocked (t.length - (items 0 t).2.length : Nat)), t.length)

theorem parse_eq (t : Text) : parse t = (judge t).mapError (engine.stopAt t) := by
  obtain ⟨tiles, -⟩ := engine.tokens_tiles t
  have carried : engine.carryOut Reader.start (engine.tokens t).1 =
      (Reader.start.takeAll (items 0 t).1).mapError fun blamed => (blamed.1.raised, blamed.2) :=
    (carryOut_tiles tiles Reader.start).1
  have rest : (engine.tokens t).2.cursor.after = (items 0 t).2 :=
    (carryOut_tiles tiles Reader.start).2
  have place : (engine.tokens t).2.cursor.offset = t.length - (items 0 t).2.length := by
    obtain ⟨taken, inside, -⟩ := tiles.whole
    obtain ⟨split, -⟩ := tiles.texts
    have split : t = (engine.tokens t).1.flatMap Match.text ++ (items 0 t).2 := rest ▸ split
    have length := congrArg List.length split
    rw [List.length_append, taken, List.length_take, Nat.min_eq_left inside] at length
    omega
  have verdict : engine.verdict t Reader.start (fun r => .ok r.document.result) = judge t := by
    rw [Engine.verdict, judge, carried, rest, place]
    cases Reader.start.takeAll (items 0 t).1 <;> rfl
  rw [parse, Engine.parse_verdict, verdict]

end TokenRules.Ini
