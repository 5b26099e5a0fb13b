import TokenRules.Proofs.Pattern.Greedy

/-! Matches go forward. Whatever a pattern looks at before or behind, its match stops where it starts
or later in the same text, and the text of the match is what lies between. -/
namespace TokenRules

namespace Cursor

/-- The same position of a text, or a later one. -/
def LeadsTo (c c' : Cursor) : Prop := ∃ n, c' = c.advance n

theorem LeadsTo.refl (c : Cursor) : c.LeadsTo c := ⟨0, rfl⟩

theorem LeadsTo.trans {c c' c'' : Cursor} (first : c.LeadsTo c') (second : c'.LeadsTo c'') :
    c.LeadsTo c'' := by
  obtain ⟨m, rfl⟩ := first
  obtain ⟨n, rfl⟩ := second
  exact ⟨m + n, (c.advance_add m n).symm⟩

theorem leadsTo_next {c c' : Cursor} (found : c.next? = some (x, c')) : c.LeadsTo c' :=
  ⟨1, by rw [advance, found]; rfl⟩

/-- What lies between a position and a later one. -/
theorem LeadsTo.between {c c' : Cursor} (leads : c.LeadsTo c') :
    ∃ w, c.after = w ++ c'.after ∧ c' = c.advance w.length ∧ c'.offset = c.offset + w.length := by
  obtain ⟨n, rfl⟩ := leads
  have split : c.after = c.after.take n ++ (c.advance n).after := by
    rw [advance_after, List.take_append_drop]
  have same : c.advance n = c.advance (c.after.take n).length := by
    rcases Nat.le_total n c.after.length with inside | beyond
    · rw [List.length_take_of_le inside]
    · have ended : (c.advance c.after.length).after = [] := by rw [advance_after, List.drop_length]
      rw [List.take_of_length_le beyond, ← Nat.add_sub_cancel' beyond, advance_add,
        advance_nil ended]
  exact ⟨_, split, same, same ▸ (advance_append split).2⟩

end Cursor

namespace Pattern

theorem State.consume?_leads {s s' : State} (consumed : s.consume? folding t = some s') :
    s.cursor.LeadsTo s'.cursor := by
  induction t generalizing s with
  | nil =>
    obtain rfl := Option.some.inj consumed
    exact .refl _
  | cons x rest ih =>
    simp only [consume?] at consumed
    split at consumed
    · next y cursor found =>
      split at consumed
      · exact (Cursor.leadsTo_next found).trans (ih consumed)
      · contradiction
    · contradiction

/-- Only later states are offered to the rest of the match. -/
def Forward (M : Matcher) : Prop :=
  ∀ s k r, M s k = some r → ∃ s', s.cursor.LeadsTo s'.cursor ∧ k s' = some r

/-- The rest of a match may itself be a matcher. -/
theorem Forward.andThen {M N : Matcher} (first : Forward M) (second : Forward N) :
    Forward fun s k => M s fun s' => N s' k := by
  intro s k r matched
  obtain ⟨s', leads, rest⟩ := first s _ r matched
  obtain ⟨s'', leads', accepted⟩ := second s' k r rest
  exact ⟨s'', leads.trans leads', accepted⟩

theorem Forward.times {M : Matcher} (forward : Forward M) (n : Nat) : Forward (times M n) := by
  induction n with
  | zero => exact fun s k r matched => ⟨s, .refl _, matched⟩
  | succ n ih => exact forward.andThen ih

theorem Forward.rounds {M : Matcher} (forward : Forward M) (appetite : Appetite)
    (bound : Option Nat) : Forward fun s => rounds appetite M bound s := by
  intro s k r matched
  -- A round that moves forward leaves less of the text.
  induction size : s.left using Nat.strongRecOn generalizing s bound with
  | ind size ih =>
    subst size
    have round : (M s fun s' =>
          if s'.left < s.left then Pattern.rounds appetite M (bound.map (· - 1)) s' k
          else k s') = some r → ∃ s', s.cursor.LeadsTo s'.cursor ∧ k s' = some r := by
      intro entered
      obtain ⟨s', leads, rest⟩ := forward s _ r entered
      split at rest
      · obtain ⟨s'', leads', accepted⟩ := ih _ ‹_› _ s' rest rfl
        exact ⟨s'', leads.trans leads', accepted⟩
      · exact ⟨s', leads, rest⟩
    have stop : k s = some r → ∃ s', s.cursor.LeadsTo s'.cursor ∧ k s' = some r :=
      fun accepted => ⟨s, .refl _, accepted⟩
    by_cases spent : bound = some 0
    · subst spent
      exact stop (by simpa only [rounds_zero] using matched)
    · cases appetite with
      | greedy =>
        simp only [rounds_greedy _ spent, Option.or_eq_some_iff] at matched
        exact matched.elim round fun others => stop others.2
      | lazy =>
        simp only [rounds_lazy _ spent, Option.or_eq_some_iff] at matched
        exact matched.elim stop fun others => round others.2

theorem Node.run_forward (node : Node) : Forward node.run := by
  induction node with
  | empty => exact fun s k r matched => ⟨s, .refl _, matched⟩
  | chars set =>
    intro s k r matched
    simp only [run] at matched
    split at matched
    · next c cursor found =>
      split at matched
      · exact ⟨_, Cursor.leadsTo_next found, matched⟩
      · contradiction
    · contradiction
  | anchor condition =>
    intro s k r matched
    simp only [run] at matched
    split at matched
    · exact ⟨s, .refl _, matched⟩
    · contradiction
  | seq a b iha ihb => exact iha.andThen ihb
  | alt a b iha ihb =>
    intro s k r matched
    simp only [run] at matched
    split at matched
    · next found first =>
      obtain rfl := Option.some.inj matched
      exact iha s k _ first
    · exact ihb s k r matched
  | loop appetite least most body ih => exact (ih.times least).andThen (ih.rounds appetite _)
  | scope body ih => exact ih
  | group index body ih =>
    intro s k r matched
    obtain ⟨s', leads, accepted⟩ := ih (s.enter index) _ r matched
    exact ⟨s'.leave index s.cursor, leads, accepted⟩
  | backref index folding =>
    intro s k r matched
    simp only [run] at matched
    split at matched
    · next s' found =>
      obtain ⟨t, -, consumed⟩ := Option.bind_eq_some_iff.mp found
      exact ⟨s', State.consume?_leads consumed, matched⟩
    · contradiction
  | look direction negated body =>
    -- A look-around goes on from where it stands, whatever its body passes.
    intro s k r matched
    simp only [run] at matched
    split at matched
    · next s' _ =>
      split at matched
      · contradiction
      · exact ⟨{ s' with cursor := s.cursor }, .refl _, matched⟩
    · split at matched
      · exact ⟨s, .refl _, matched⟩
      · contradiction
  | atomic body ih =>
    intro s k r matched
    simp only [run] at matched
    split at matched
    · next s' found =>
      obtain ⟨s'', leads, same⟩ := ih s some s' found
      obtain rfl := Option.some.inj same
      exact ⟨s'', leads, matched⟩
    · contradiction
  | conditional index held unheld ihHeld ihUnheld =>
    intro s k r matched
    simp only [run] at matched
    split at matched
    · exact ihHeld s k r matched
    · exact ihUnheld s k r matched

/-- A match starts where it is asked for, and stops past its text. -/
theorem matchAt_forward {p : Pattern} (matched : p.matchAt c = some m) :
    m.start = c ∧ c.after = m.text ++ m.stop.after ∧ m.stop = c.advance m.text.length ∧
      m.stop.offset = c.offset + m.text.length := by
  obtain ⟨s, ran, rfl⟩ := Option.map_eq_some_iff.mp matched
  obtain ⟨s', leads, same⟩ := p.node.run_forward _ _ _ ran
  obtain rfl := Option.some.inj same
  obtain ⟨w, split, stop, offset⟩ := leads.between
  have text : Match.text ⟨c, s'.cursor, s'.lastGroup.bind p.groupName?⟩ = w := by
    rw [Match.text, offset, Nat.add_sub_cancel_left, split, List.take_left]
  rw [text]
  exact ⟨rfl, split, stop, offset⟩

end Pattern
end TokenRules
