import TokenRules.Proofs.Pattern.Opening

/-! The parentheses of a source. Which groups are open can be told from the parts that are read and the
flags in effect, without what the groups hold. A source that closes all groups it opens, and no others,
leaves those alone that are open around it. -/
namespace TokenRules.Pattern

/-- The groups of a reading, and some that opened later. -/
structure Groups.Grown (g h : Groups) : Prop where
  count : g.count ≤ h.count
  names : ∃ later, h.names = later ++ g.names ∧ ∀ entry ∈ later, g.count < entry.2

/-- None of the groups that opened later has a name that another has. -/
structure Groups.Gained (g h : Groups) : Prop extends Groups.Grown g h where
  distinct : (g.names.map (·.1)).Nodup → (h.names.map (·.1)).Nodup

namespace Groups.Gained

theorem of_eq (count : h.count = g.count) (names : h.names = g.names) : Gained g h :=
  ⟨⟨Nat.le_of_eq count.symm, [], names, by simp⟩, fun distinct => names ▸ distinct⟩

theorem refl (g : Groups) : Gained g g :=
  of_eq rfl rfl

theorem trans (first : Gained g h) (second : Gained h k) : Gained g k := by
  obtain ⟨later, names, above⟩ := first.names
  obtain ⟨later', names', above'⟩ := second.names
  refine ⟨⟨Nat.le_trans first.count second.count, later' ++ later, ?_, fun entry member => ?_⟩,
    second.distinct ∘ first.distinct⟩
  · rw [names', names, List.append_assoc]
  · rcases List.mem_append.mp member with new | old
    · exact Nat.lt_of_le_of_lt first.count (above' entry new)
    · exact above entry old

end Groups.Gained

/-- A part gives a group a name only by opening it. -/
structure Part.Gains (p : Part) (g h : Groups) : Prop extends Groups.Gained g h where
  captured : ∀ entry ∈ h.names, entry ∈ g.names ∨ p = .capture (some entry.1)

namespace Part.Gains

theorem of_eq (count : h.count = g.count) (names : h.names = g.names) : Gains p g h :=
  ⟨.of_eq count names, fun _ member => .inl (names ▸ member)⟩

theorem refl (g : Groups) : Gains p g g :=
  of_eq rfl rfl

end Part.Gains

/-- Leaving a group gives no group another number or name. -/
theorem Reading.leave_groups {r : Reading} (left : r.leave? = some r') :
    r'.groups.count = r.groups.count ∧ r'.groups.names = r.groups.names := by
  simp only [leave?] at left
  split at left
  · simp at left
  · split at left
    case h_7 =>
      split at left
      all_goals exact Option.some.inj left ▸ ⟨rfl, rfl⟩
    all_goals exact Option.some.inj left ▸ ⟨rfl, rfl⟩

namespace Part

/-- The flags in effect after a part, and those of the groups around it, innermost first. A closing
parenthesis needs a group that is open. -/
def nest? (f : Flags) (outer : List Flags) : Part → Option (Flags × List Flags)
  | .plainGroup | .atomicGroup | .look _ _ | .capture _ | .condition _ => some (f, f :: outer)
  | .scope added removed => some (f.within added removed, f :: outer)
  | .flags added => some (f.union added, outer)
  | .close =>
    match outer with
    | [] => none
    | g :: outer => some (g, outer)
  | .nothing | .chars _ | .anchor _ | .loop _ _ | .alternative | .numberedReference _
  | .namedReference _ => some (f, outer)

/-- What a part does to the open groups. It opens one, or closes one, or sets the flags of the whole
pattern, or stays in the group it is in. -/
inductive Nests (p : Part) (r r' : Reading) : Prop
  | opened (outer : r'.outer = r.level :: r.outer)
    (nested : ∀ fs, p.nest? r.flags fs = some (r'.flags, r.flags :: fs))
  | closed (same : p = .close) (outer : r.outer = l :: r'.outer) (opener : r'.level.opener = l.opener)
    (flags : r'.flags = l.flags)
  | set (same : p = .flags added) (outer : r.outer = []) (outer' : r'.outer = [])
    (flags : r'.flags = r.flags.union added)
  | stayed (outer : r'.outer = r.outer) (opener : r'.level.opener = r.level.opener)
    (flags : r'.flags = r.flags) (nested : ∀ fs, p.nest? r.flags fs = some (r.flags, fs))

theorem nests_capture {r : Reading} (applied : r.capture name = .ok r') :
    (capture name).Nests r r' ∧ (capture name).Gains r.groups r'.groups := by
  simp only [Reading.capture] at applied
  split at applied
  · obtain rfl := Except.ok.inj applied
    exact ⟨.opened rfl fun _ => rfl, ⟨⟨Nat.le_succ _, [], rfl, by simp⟩, id⟩, fun _ => .inl⟩
  · next name =>
    split at applied
    · simp at applied
    · next new =>
      obtain rfl := Except.ok.inj applied
      refine ⟨.opened rfl fun _ => rfl,
        ⟨⟨Nat.le_succ _, [(name, r.groups.count + 1)], rfl, by simp⟩, fun distinct => ?_⟩,
        fun entry member => ?_⟩
      · refine List.nodup_cons.mpr ⟨fun member => ?_, distinct⟩
        obtain ⟨entry, known, rfl⟩ := List.mem_map.mp member
        rw [Option.isSome_iff_ne_none, Decidable.not_not, List.lookup_eq_none_iff] at new
        simpa using new entry known
      · rcases List.mem_cons.mp member with rfl | old
        · exact .inr rfl
        · exact .inl old

theorem nests_refer {r : Reading} {p : Part} (stays : ∀ fs, p.nest? r.flags fs = some (r.flags, fs))
    (applied : r.refer index = .ok r') : p.Nests r r' ∧ p.Gains r.groups r'.groups := by
  simp only [Reading.refer] at applied
  split at applied
  · obtain rfl := Except.ok.inj applied
    exact ⟨.stayed rfl rfl rfl stays, .refl _⟩
  · simp at applied

theorem apply_nests {p : Part} (applied : p.apply r = .ok r') :
    p.Nests r r' ∧ p.Gains r.groups r'.groups := by
  cases p with
  | nothing | chars set | anchor place =>
    obtain rfl := Except.ok.inj applied
    exact ⟨.stayed rfl rfl rfl fun _ => rfl, .refl _⟩
  | loop repetition manner =>
    simp only [apply, Reading.loop] at applied
    split at applied
    · obtain rfl := Except.ok.inj applied
      split <;> exact ⟨.stayed rfl rfl rfl fun _ => rfl, .refl _⟩
    · simp at applied
  | alternative =>
    simp only [apply, Reading.alternate] at applied
    split at applied
    · simp at applied
    · obtain rfl := Except.ok.inj applied
      exact ⟨.stayed rfl rfl rfl fun _ => rfl, .refl _⟩
  | plainGroup | atomicGroup | look behind negated | scope added removed =>
    obtain rfl := Except.ok.inj applied
    exact ⟨.opened rfl fun _ => rfl, .refl _⟩
  | capture name => exact nests_capture applied
  | condition name =>
    simp only [apply, Reading.condition] at applied
    split at applied
    · split at applied
      · obtain rfl := Except.ok.inj applied
        exact ⟨.opened rfl fun _ => rfl, .refl _⟩
      · simp at applied
    · simp at applied
  | numberedReference index => exact nests_refer (fun _ => rfl) applied
  | namedReference name =>
    simp only [apply] at applied
    split at applied
    · exact nests_refer (fun _ => rfl) applied
    · simp at applied
  | flags added =>
    simp only [apply, Reading.setFlags] at applied
    split at applied
    · next opening =>
      obtain rfl := Except.ok.inj applied
      simp only [Bool.and_eq_true, List.isEmpty_iff] at opening
      exact ⟨.set rfl opening.1 opening.1 rfl, .refl _⟩
    · simp at applied
  | close =>
    simp only [apply] at applied
    split at applied
    · next left =>
      obtain rfl := Except.ok.inj applied
      obtain ⟨item, outer, -⟩ := Reading.leave_level left
      obtain ⟨count, names⟩ := Reading.leave_groups left
      exact ⟨.closed rfl outer rfl rfl, .of_eq count names⟩
    · simp at applied

/-- The flags alone tell what becomes of the open groups. -/
theorem Nests.flags {p : Part} (nests : p.Nests r r') :
    p.nest? r.flags (r.outer.map (·.flags)) = some (r'.flags, r'.outer.map (·.flags)) := by
  cases nests with
  | opened outer nested => rw [nested, outer]; rfl
  | closed same outer opener flags => rw [same, outer, flags]; rfl
  | set same outer outer' flags => rw [same, outer, outer', flags]; rfl
  | stayed outer opener flags nested => rw [nested, outer, flags]

end Part

/-- The open groups of a source in the midst of a larger one: those that it has opened, inside others with
these flags, down to the group that hosts it, which skips no comments. -/
inductive Above (opener : Opener) (context : List Level) : List Flags → Level → List Level → Prop
  | host (same : l.opener = opener) (bare : l.flags.verbose = false) : Above opener context [] l context
  | inner (outer : Above opener context fs l' ls) : Above opener context (l'.flags :: fs) l (l' :: ls)

namespace Above

/-- What a level holds may change, but not how it was opened. -/
theorem update (above : Above opener context fs l ls) (same : l'.opener = l.opener)
    (flags : l'.flags = l.flags) : Above opener context fs l' ls := by
  cases above with
  | host host bare => exact .host (same.trans host) (flags ▸ bare)
  | inner outer => exact .inner outer

theorem nested (above : Above opener context fs l ls) (inside : context ≠ []) : ls ≠ [] := by
  cases above with
  | host => exact inside
  | inner => simp

/-- A part that closes no group but those of the source leaves the host open. -/
theorem apply {p : Part} {r r' : Reading} (above : Above opener context fs r.level r.outer)
    (inside : context ≠ []) (nested : p.nest? r.flags fs = some (f, fs')) (nests : p.Nests r r') :
    r'.flags = f ∧ Above opener context fs' r'.level r'.outer := by
  cases nests with
  | opened outer nested' =>
    obtain ⟨rfl, rfl⟩ := Prod.mk.inj (Option.some.inj ((nested' fs).symm.trans nested))
    exact ⟨rfl, outer ▸ .inner above⟩
  | @closed l same outer opener flags =>
    subst same
    cases fs with
    | nil => simp [Part.nest?] at nested
    | cons g fs =>
      obtain ⟨rfl, rfl⟩ := Prod.mk.inj (Option.some.inj nested)
      rw [outer] at above
      cases above with
      | inner around => exact ⟨flags, around.update opener flags⟩
  | set same outer => exact absurd outer (above.nested inside)
  | stayed outer opener flags nested' =>
    obtain ⟨rfl, rfl⟩ := Prod.mk.inj (Option.some.inj ((nested' fs).symm.trans nested))
    exact ⟨flags, outer ▸ above.update opener flags⟩

end Above

variable [CharacterNames]

/-- Whether the groups that are open, and all that open in a source, are closed in it, and no others. -/
def encloses (ts : List Token) (f : Flags) (outer : List Flags) : Bool :=
  match ts with
  | [] => outer.isEmpty
  | t :: ts =>
    match _h : Reader.part f t ts with
    | .error _ => false
    | .ok (p, rest) =>
      match p.nest? f outer with
      | none => false
      | some (f, outer) => encloses rest f outer
termination_by ts.length
decreasing_by
  have := Reader.part_length _h
  simp; omega

theorem encloses_cons {p : Part} (next : Reader.part f t ts = .ok (p, rest))
    (nested : p.nest? f outer = some (f', outer')) :
    encloses (t :: ts) f outer = encloses rest f' outer' := by
  rw [encloses]
  split
  · simp_all
  · simp_all

/-- A source that reads alone is enclosed. -/
theorem Reads.encloses (reads : Reads ts r ps final) :
    encloses ts r.flags (r.outer.map (·.flags)) = true := by
  induction reads with
  | finish finished => simp [Pattern.encloses, Reader.finish_outer finished]
  | part next applied more ih =>
    rwa [encloses_cons next (Part.apply_nests applied).1.flags]

theorem Reads.gained (reads : Reads ts r ps final) : r.groups.Gained final.groups := by
  induction reads with
  | finish => exact .refl _
  | part _ applied _ ih => exact (Part.apply_nests applied).2.toGained.trans ih

/-- A name that a part gives is one of those of the whole source. -/
theorem Reads.named (reads : Reads ts r ps final) (member : .capture (some name) ∈ ps) :
    ∃ index, (name, index) ∈ final.groups.names := by
  induction reads with
  | finish => contradiction
  | part next applied more ih =>
    rcases List.mem_cons.mp member with rfl | later
    · obtain ⟨names, same, -⟩ := more.gained.names
      simp only [Part.apply, Reading.capture] at applied
      split at applied
      · contradiction
      · obtain rfl := Except.ok.inj applied
        exact ⟨_, same ▸ List.mem_append_right names List.mem_cons_self⟩
    · exact ih later

/-- No escape breaks off in an enclosed source. -/
theorem whole_of_encloses (enclosed : encloses ts f outer = true) : Token.dangling ∉ ts := by
  fun_induction encloses ts f outer with
  | case1 => simp
  | case2 | case3 => simp at enclosed
  | case4 f outer t ts p rest next f' outer' nested ih =>
    obtain ⟨⟨consumed, split, whole⟩, -⟩ := Reader.part_append next
    rw [split, List.mem_append, not_or]
    exact ⟨whole, ih enclosed⟩

/-- An enclosed source reads up to the parenthesis that follows it, which then closes the group that hosts
the source. -/
theorem read_enclosed {s : Reading} (enclosed : encloses ts s.flags fs = true)
    (above : Above opener context fs s.level s.outer) (inside : context ≠ []) (counted : Counted s)
    (h : Reader.read (ts ++ .plain Sign.rightParen :: more) s = .ok final) :
    ∃ s', s'.outer = context ∧ s'.level.opener = opener ∧ s.groups.Gained s'.groups ∧ Counted s' ∧
      Reader.read (.plain Sign.rightParen :: more) s' = .ok final := by
  generalize flags : s.flags = f at enclosed
  fun_induction encloses ts f fs generalizing s with
  | case1 f fs =>
    obtain rfl := List.isEmpty_iff.mp enclosed
    generalize around : s.outer = ls at above
    cases above with
    | host same bare => exact ⟨s, around, same, .refl _, counted, h⟩
  | case2 | case3 => simp at enclosed
  | case4 f fs t ts p rest next f' fs' nested ih =>
    subst flags
    obtain ⟨p', rest', s', next', applied, h'⟩ := Reader.read_cons_ok h
    obtain ⟨nests, gains⟩ := Part.apply_nests applied
    rcases (Reader.part_append next).2 _ ⟨more, .inl rfl⟩ with same | comment
    · obtain ⟨rfl, rfl⟩ := Prod.mk.inj (Except.ok.inj (next'.symm.trans same))
      obtain ⟨flags, above⟩ := above.apply inside nested nests
      obtain ⟨s'', outer, opener, gained', counted, h⟩ :=
        ih above (counted.apply applied) h' flags enclosed
      exact ⟨s'', outer, opener, gains.toGained.trans gained', counted, h⟩
    · -- Only a source that skips comments could swallow the parenthesis.
      obtain ⟨rfl, rfl, verbose, -⟩ := comment
      obtain ⟨rfl, rfl⟩ := Prod.mk.inj (Option.some.inj nested)
      simp only [encloses, List.isEmpty_iff] at enclosed
      subst enclosed
      generalize s.outer = ls at above
      cases above with
      | host same bare => exact absurd verbose (by simp [Reading.flags, bare])

end TokenRules.Pattern
