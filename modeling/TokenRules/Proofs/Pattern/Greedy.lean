import TokenRules.Pattern
import TokenRules.Proofs.Pattern.Fronts

/-! Patterns whose match is the first that a reader of the text would take: words, greedy loops over a
set of characters, options. Such a pattern takes the front of the text that a plain function finds, as
long as whatever follows it accepts. -/
namespace TokenRules

namespace Cursor

theorem next?_cons {c : Cursor} (h : c.after = x :: rest) : c.next? = some (x, c.advance 1) := by
  have found : ∃ c', c.next? = some (x, c') := by
    unfold next?
    split
    · simp_all
    · simp_all
  obtain ⟨c', found⟩ := found
  rw [found, advance, found]
  rfl

theorem next?_nil {c : Cursor} (h : c.after = []) : c.next? = none := by
  unfold next?
  split <;> simp_all

theorem advance_nil {c : Cursor} (h : c.after = []) (n : Nat) : c.advance n = c := by
  cases n with
  | zero => rfl
  | succ n => rw [advance, next?_nil h]

theorem advance_one {c : Cursor} (h : c.after = x :: rest) :
    (c.advance 1).after = rest ∧ (c.advance 1).offset = c.offset + 1 := by
  have found := next?_cons h
  generalize c.advance 1 = c' at found
  unfold next? at found
  split at found
  · simp at found
  · next y rest' split' =>
    obtain ⟨rfl, rfl⟩ := Prod.mk.inj (Option.some.inj found)
    exact ⟨(List.cons.inj (split'.symm.trans h)).2, rfl⟩

theorem advance_succ (c : Cursor) (n : Nat) : c.advance (n + 1) = (c.advance 1).advance n := by
  cases h : c.after with
  | nil => rw [advance_nil h, advance_nil h, advance_nil h]
  | cons x rest => rw [advance, next?_cons h]

theorem advance_add (c : Cursor) (m n : Nat) : c.advance (m + n) = (c.advance m).advance n := by
  induction m generalizing c with
  | zero =>
    rw [Nat.zero_add]
    rfl
  | succ m ih => rw [Nat.add_right_comm, advance_succ, ih, ← advance_succ]

theorem advance_after (c : Cursor) (n : Nat) : (c.advance n).after = c.after.drop n := by
  induction n generalizing c with
  | zero => rfl
  | succ n ih =>
    rw [advance_succ, ih]
    cases h : c.after with
    | nil => simp [advance_nil h, h]
    | cons x rest => rw [(advance_one h).1, List.drop_succ_cons]

/-- Past the front of the text that is still ahead. -/
theorem advance_append {c : Cursor} (h : c.after = w ++ rest) :
    (c.advance w.length).after = rest ∧ (c.advance w.length).offset = c.offset + w.length := by
  induction w generalizing c with
  | nil => exact ⟨h, rfl⟩
  | cons x w ih =>
    obtain ⟨after, offset⟩ := advance_one h
    obtain ⟨after', offset'⟩ := ih after
    rw [List.length_cons, advance_succ]
    exact ⟨after', by rw [offset', offset, Nat.add_right_comm, Nat.add_assoc]⟩

end Cursor

theorem Match.text_advance {c : Cursor} (h : c.after = w ++ rest) (group : Option Text) :
    Match.text ⟨c, c.advance w.length, group⟩ = w := by
  rw [Match.text, (Cursor.advance_append h).2, Nat.add_sub_cancel_left]
  exact h ▸ List.take_left

namespace Pattern

namespace State

/-- The state after some more text. -/
def past (s : State) (w : Text) : State :=
  { s with cursor := s.cursor.advance w.length }

theorem past_past (s : State) (v w : Text) : (s.past v).past w = s.past (v ++ w) := by
  simp only [past, List.length_append, Cursor.advance_add]

theorem past_after (s : State) (w : Text) :
    (s.past w).cursor.after = s.cursor.after.drop w.length :=
  s.cursor.advance_after w.length

theorem past_left {s : State} (h : s.cursor.after = x :: rest) (y : CodePoint) (w : Text) :
    (s.past (y :: w)).left < s.left := by
  rw [left, left, Cursor.left_eq, Cursor.left_eq, past_after, h, List.length_drop, List.length_cons,
    List.length_cons]
  omega

end State

theorem run_chars (set : CharSet) (s : State) (k : State → Option State) :
    (Node.chars set).run s k = match s.cursor.next? with
      | some (x, cursor) => if set.contains x then k { s with cursor } else none
      | none => none :=
  rfl

theorem run_seq (a b : Node) (s : State) (k : State → Option State) :
    (Node.seq a b).run s k = a.run s fun s' => b.run s' k :=
  rfl

theorem run_alt (a b : Node) (s : State) (k : State → Option State) :
    (Node.alt a b).run s k = match a.run s k with
      | some r => some r
      | none => b.run s k :=
  rfl

/-- A loop that need not go round goes round as often as it may. -/
theorem run_loop (appetite : Appetite) (most : Option Nat) (body : Node) (s : State)
    (k : State → Option State) :
    (Node.loop appetite 0 most body).run s k =
      rounds appetite body.run (most.map (· - 0)) s k :=
  rfl

/-- What a front of the text a node takes, if what follows accepts whatever comes: a function of the
text. -/
def Takes (node : Node) (front : Text → Option Text) : Prop :=
  ∀ (s : State) (k : State → Option State), (∀ s', (k s').isSome) →
    node.run s k = (front s.cursor.after).bind fun w => k (s.past w)

/-- A node that takes one front of the text at most, whatever follows. -/
def TakesOnly (node : Node) (front : Text → Option Text) : Prop :=
  ∀ (s : State) (k : State → Option State),
    node.run s k = (front s.cursor.after).bind fun w => k (s.past w)

theorem TakesOnly.takes {node : Node} (only : TakesOnly node front) : Takes node front :=
  fun s k _ => only s k

theorem takesOnly_chars (set : CharSet) : TakesOnly (.chars set) (one set.contains) := by
  intro s k
  rw [run_chars]
  cases h : s.cursor.after with
  | nil => simp [Cursor.next?_nil h, one]
  | cons x rest =>
    simp only [Cursor.next?_cons h, one]
    split <;> rfl

/-- Two fronts, one after another, are passed one after another. -/
theorem followed_past (f g : Text → Option Text) (s : State) (k : State → Option State) :
    (followed f g s.cursor.after).bind (fun w => k (s.past w)) =
      (f s.cursor.after).bind fun v =>
        (g (s.past v).cursor.after).bind fun w => k ((s.past v).past w) := by
  rw [followed]
  cases f s.cursor.after with
  | none => rfl
  | some v =>
    simp only [Option.bind_some, State.past_after, State.past_past]
    cases g (s.cursor.after.drop v.length) <;> rfl

theorem TakesOnly.seq (first : TakesOnly a f) (second : TakesOnly b g) :
    TakesOnly (.seq a b) (followed f g) := by
  intro s k
  rw [run_seq, first, followed_past]
  simp only [second _ k]

theorem TakesOnly.seq_takes (first : TakesOnly a f) (second : Takes b g) :
    Takes (.seq a b) (followed f g) := by
  intro s k total
  rw [run_seq, first, followed_past]
  simp only [second _ k total]

/-- After the first part the second takes something in any case. -/
theorem Takes.seq (first : Takes a f) (second : Takes b g) (always : ∀ t, (g t).isSome) :
    Takes (.seq a b) (followed f g) := by
  intro s k total
  have rest : ∀ s', (b.run s' k).isSome := by
    intro s'
    obtain ⟨w, found⟩ := Option.isSome_iff_exists.mp (always s'.cursor.after)
    rw [second s' k total, found]
    exact total _
  rw [run_seq, first _ _ rest, followed_past]
  simp only [second _ k total]

theorem Takes.alt (first : Takes a f) (second : Takes b g) : Takes (.alt a b) (either f g) := by
  intro s k total
  rw [run_alt, first s k total, second s k total, either]
  cases f s.cursor.after with
  | none => rfl
  | some v =>
    obtain ⟨r, found⟩ := Option.isSome_iff_exists.mp (total (s.past v))
    simp [found]

theorem run_option (body : Node) (s : State) (k : State → Option State) :
    (Node.loop .greedy 0 (some 1) body).run s k = (body.run s k).or (k s) := by
  have once : ∀ s' : State, (if s'.left < s.left then
      rounds .greedy body.run ((some 1).map (· - 1)) s' k else k s') = k s' := by
    intro s'
    split
    · exact rounds_zero _ _ _ _
    · rfl
  rw [run_loop]
  change rounds .greedy body.run (some 1) s k = _
  rw [rounds_greedy _ (by simp)]
  simp only [once]

theorem Takes.option (takes : Takes body front) :
    Takes (.loop .greedy 0 (some 1) body) (perhaps front) := by
  intro s k total
  rw [run_option, takes s k total, perhaps]
  cases front s.cursor.after with
  | none => rfl
  | some w =>
    obtain ⟨r, found⟩ := Option.isSome_iff_exists.mp (total (s.past w))
    simp [found]

/-- A character that is there must be taken if the second part cannot start with it. -/
theorem Takes.option_seq (set : CharSet) (second : Takes b g)
    (other : ∀ x t, set.contains x → g (x :: t) = none) :
    Takes (.seq (.loop .greedy 0 (some 1) (.chars set)) b) (followed (perhaps (one set.contains)) g) := by
  intro s k total
  rw [run_seq, run_option, takesOnly_chars, followed, perhaps, second s k total]
  cases here : one set.contains s.cursor.after with
  | none =>
    simp only [Option.bind_none, Option.none_or, Option.getD_none, Option.bind_some, List.length_nil,
      List.drop_zero, List.nil_append]
    cases g s.cursor.after <;> rfl
  | some v =>
    have none : g s.cursor.after = none := by
      cases h : s.cursor.after with
      | nil => simp [one, h] at here
      | cons x rest =>
        simp only [one, h] at here
        split at here
        · exact other x rest ‹_›
        · simp at here
    simp only [none, Option.bind_some, Option.bind_none, Option.or_none, Option.getD_some,
      second (s.past v) k total, State.past_after, State.past_past]
    cases g (s.cursor.after.drop v.length) <;> rfl

/-- One more round of a loop over a set. -/
theorem run_many (set : CharSet) (s : State) (k : State → Option State) :
    (Node.loop .greedy 0 none (.chars set)).run s k =
      ((one set.contains s.cursor.after).bind fun w =>
        (Node.loop .greedy 0 none (.chars set)).run (s.past w) k).or (k s) := by
  rw [run_loop]
  change rounds .greedy _ none s k = _
  rw [rounds_greedy _ (by simp), takesOnly_chars]
  congr 1
  cases h : s.cursor.after with
  | nil => rfl
  | cons x rest =>
    simp only [one]
    split
    · exact if_pos (State.past_left h x [])
    · rfl

theorem takes_many (set : CharSet) :
    Takes (.loop .greedy 0 none (.chars set)) (many set.contains) := by
  intro s k total
  induction h : s.cursor.after generalizing s with
  | nil =>
    rw [run_many, h]
    rfl
  | cons x rest ih =>
    have after : (s.past [x]).cursor.after = rest := by
      rw [State.past_after, h]
      rfl
    rw [run_many, h]
    simp only [one, many, List.takeWhile_cons]
    cases set.contains x with
    | false => rfl
    | true =>
      have more := ih (s.past [x]) after
      obtain ⟨r, found⟩ := Option.isSome_iff_exists.mp (total ((s.past [x]).past (rest.takeWhile set.contains)))
      simp only [many, Option.bind_some, found] at more
      simp only [if_true, Option.bind_some, more, Option.some_or]
      rw [← found, State.past_past]
      rfl

/-- What follows a loop over a set cannot start with a character of the set: the loop takes all it can. -/
theorem run_many_only (set : CharSet) {k : State → Option State}
    (other : ∀ s x rest, s.cursor.after = x :: rest → set.contains x → k s = none) (s : State) :
    (Node.loop .greedy 0 none (.chars set)).run s k = k (s.past (s.cursor.after.takeWhile set.contains)) := by
  induction h : s.cursor.after generalizing s with
  | nil =>
    rw [run_many, h]
    rfl
  | cons x rest ih =>
    have after : (s.past [x]).cursor.after = rest := by
      rw [State.past_after, h]
      rfl
    rw [run_many, h]
    simp only [one, List.takeWhile_cons]
    cases inside : set.contains x with
    | false => rfl
    | true =>
      simp only [if_true, Option.bind_some, ih _ after, other s x rest h inside, Option.or_none,
        State.past_past]
      rfl

/-- A loop over a set, and what cannot start with a character of the set. -/
theorem Takes.many_seq (set : CharSet) (second : Takes b g)
    (other : ∀ x t, set.contains x → g (x :: t) = none) :
    Takes (.seq (.loop .greedy 0 none (.chars set)) b) (followed (many set.contains) g) := by
  intro s k total
  have stops : ∀ s' x rest, s'.cursor.after = x :: rest → set.contains x → b.run s' k = none := by
    intro s' x rest ahead inside
    rw [second s' k total, ahead, other x rest inside]
    rfl
  rw [run_seq, run_many_only set stops s, followed_past, many, Option.bind_some, second _ k total]

theorem takes_several (set : CharSet) :
    Takes (.loop .greedy 1 none (.chars set)) (several set.contains) := by
  intro s k total
  have same : (Node.loop .greedy 1 none (.chars set)).run s k =
      (Node.seq (.chars set) (.loop .greedy 0 none (.chars set))).run s k := rfl
  rw [same]
  exact (takesOnly_chars set).seq_takes (takes_many set) s k total

theorem char_contains (c : CodePoint) : (CharSet.char .exact c).contains = (· == c) := by
  funext x
  simp [CharSet.contains, CharSet.covers, CharSet.char, Folding.apply, Member.covers]

theorem takesOnly_char (c : CodePoint) : TakesOnly (.chars (.char .exact c)) (one (· == c)) := by
  rw [← char_contains]
  exact takesOnly_chars _

theorem takesOnly_word (c : CodePoint) (w : Text) :
    TakesOnly (Node.ofSequence ((c :: w).map fun c => .chars (.char .exact c))) (word (c :: w)) := by
  induction w generalizing c with
  | nil =>
    have front : word [c] = one (· == c) := by
      funext t
      cases t with
      | nil => rfl
      | cons x t =>
        by_cases same : c = x
        · simp [word, one, same]
        · simp [word, one, same, Ne.symm same]
    rw [front]
    exact takesOnly_char c
  | cons d w ih =>
    rw [word_cons]
    exact (takesOnly_char c).seq (ih d)

end Pattern
end TokenRules
