import TokenRules.Json.Builder

/-! The grammar of values over the events of a builder, and what a derivation denotes. A derivation
keeps the members of an object as they were written; the denoted value has one member for each key,
in the place of the key's first occurrence and with the value of its last. -/
namespace TokenRules.Json

/-- The members that a row of assignments leaves. -/
def lastValues : List (Text × α) → List (Text × α)
  | [] => []
  | (k, v) :: rest =>
    (k, (rest.reverse.lookup k).getD v) :: lastValues (rest.filter (·.1 != k))
termination_by members => members.length
decreasing_by
  have := List.length_filter_le (·.1 != k) rest
  simp only [List.unattach_filter, List.unattach_attach, List.length_cons]
  omega

@[simp] theorem lastValues_nil : lastValues ([] : List (Text × α)) = [] := by
  rw [lastValues]

namespace Value

/-- Neither an array nor an object, but a value. -/
def IsScalar : Value → Prop
  | .null | .bool _ | .integer _ | .real _ | .string _ => True
  | .array _ | .object _ | .foreign => False

mutual

/-- The value that a written value denotes. -/
def merged : Value → Value
  | .array vs => .array (mergedElements vs)
  | .object ms => .object (lastValues (mergedMembers ms))
  | v => v

def mergedElements : List Value → List Value
  | [] => []
  | v :: vs => v.merged :: mergedElements vs

def mergedMembers : List (Text × Value) → List (Text × Value)
  | [] => []
  | (k, v) :: ms => (k, v.merged) :: mergedMembers ms

end

theorem IsScalar.merged_eq {v : Value} (scalar : v.IsScalar) : v.merged = v := by
  cases v with
  | array vs => exact scalar.elim
  | object ms => exact scalar.elim
  | _ => rfl

theorem mergedElements_append (vs ws : List Value) :
    mergedElements (vs ++ ws) = mergedElements vs ++ mergedElements ws := by
  induction vs with
  | nil => rfl
  | cons v vs ih => simp only [List.cons_append, mergedElements, ih]

theorem mergedMembers_append (ms ns : List (Text × Value)) :
    mergedMembers (ms ++ ns) = mergedMembers ms ++ mergedMembers ns := by
  induction ms with
  | nil => rfl
  | cons m ms ih => simp only [List.cons_append, mergedMembers, ih]

end Value

mutual

/-- The events that spell one value. -/
inductive Derives : List Event → Value → Prop
  | scalar : v.IsScalar → Derives [.value v] v
  | emptyArray : Derives [.openArray start, .closeArray] (.array [])
  | array : Elements es vs → Derives (.openArray start :: (es ++ [.closeArray])) (.array vs)
  | emptyObject : Derives [.openObject start, .closeObject] (.object [])
  | object : Members es ms → Derives (.openObject start :: (es ++ [.closeObject])) (.object ms)

/-- The events of the elements of an array, of which there is one at least. -/
inductive Elements : List Event → List Value → Prop
  | one : Derives es v → Elements es [v]
  | more : Elements es vs → Derives es' v → Elements (es ++ .comma :: es') (vs ++ [v])

/-- The events of the members of an object, of which there is one at least. -/
inductive Members : List Event → List (Text × Value) → Prop
  | one : Derives es v → Members (.value (.string k) :: .colon :: es) [(k, v)]
  | more : Members es ms → Derives es' v →
      Members (es ++ .comma :: .value (.string k) :: .colon :: es') (ms ++ [(k, v)])

end

theorem assign_assign (k : Text) (v w : α) (ms : List (Text × α)) :
    assign k v (assign k w ms) = assign k v ms := by
  induction ms with
  | nil => simp [assign]
  | cons m ms ih =>
    obtain ⟨l, u⟩ := m
    by_cases same : l == k
    · simp [assign, same]
    · simp [assign, same, ih]

/-- A further assignment goes to its key's place among those that the row leaves. -/
theorem lastValues_append (ms : List (Text × α)) (k : Text) (v : α) :
    lastValues (ms ++ [(k, v)]) = assign k v (lastValues ms) := by
  fun_induction lastValues ms with
  | case1 => simp [lastValues, assign]
  | case2 l u rest ih =>
    rw [List.cons_append, lastValues]
    by_cases same : l = k
    · subst same
      simp [assign, List.filter_append]
    · have apart : (k != l) = true := by simpa using Ne.symm same
      have lookup : (rest ++ [(k, v)]).reverse.lookup l = rest.reverse.lookup l := by
        have differs : (l == k) = false := by simpa using same
        simp [List.lookup_cons, differs]
      simp only [List.unattach_filter, List.unattach_attach] at ih
      simp only [lookup, List.filter_append, List.filter_cons, List.filter_nil, apart, if_true, ih]
      simp [assign, same]

/-- Where no key comes twice, every member stays as it is. -/
theorem lastValues_of_nodup (ms : List (Text × α)) (distinct : (ms.map (·.1)).Nodup) :
    lastValues ms = ms := by
  induction ms with
  | nil => exact lastValues_nil
  | cons m rest ih =>
    obtain ⟨k, v⟩ := m
    simp only [List.map_cons, List.nodup_cons, List.mem_map, not_exists, not_and] at distinct
    obtain ⟨fresh, distinct⟩ := distinct
    have kept : rest.filter (·.1 != k) = rest :=
      List.filter_eq_self.mpr fun m member => by simpa using fresh m member
    have absent : rest.reverse.lookup k = none :=
      List.lookup_eq_none_iff.mpr fun m member => by
        simpa using Ne.symm (fresh m (List.mem_reverse.mp member))
    rw [lastValues, kept, absent, ih distinct]
    rfl

namespace Value

mutual

/-- No object in a value names a key twice. -/
def KeysDistinct : Value → Prop
  | .array vs => ElementsDistinct vs
  | .object ms => (ms.map (·.1)).Nodup ∧ MembersDistinct ms
  | _ => True

def ElementsDistinct : List Value → Prop
  | [] => True
  | v :: vs => v.KeysDistinct ∧ ElementsDistinct vs

def MembersDistinct : List (Text × Value) → Prop
  | [] => True
  | (_, v) :: ms => v.KeysDistinct ∧ MembersDistinct ms

end

mutual

/-- Then the value denotes itself. -/
theorem KeysDistinct.merged_eq : ∀ v : Value, v.KeysDistinct → v.merged = v
  | .array vs, distinct => by rw [merged, ElementsDistinct.merged_eq vs distinct]
  | .object ms, ⟨keys, distinct⟩ => by
    rw [merged, MembersDistinct.merged_eq ms distinct, lastValues_of_nodup ms keys]
  | .null, _ | .bool _, _ | .integer _, _ | .real _, _ | .string _, _ | .foreign, _ => rfl

theorem ElementsDistinct.merged_eq : ∀ vs, ElementsDistinct vs → mergedElements vs = vs
  | [], _ => rfl
  | v :: vs, ⟨first, rest⟩ => by
    rw [mergedElements, KeysDistinct.merged_eq v first, ElementsDistinct.merged_eq vs rest]

theorem MembersDistinct.merged_eq : ∀ ms, MembersDistinct ms → mergedMembers ms = ms
  | [], _ => rfl
  | (k, v) :: ms, ⟨first, rest⟩ => by
    rw [mergedMembers, KeysDistinct.merged_eq v first, MembersDistinct.merged_eq ms rest]

end

end Value
end TokenRules.Json
