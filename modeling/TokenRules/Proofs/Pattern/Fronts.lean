import TokenRules.Text.Basic

/-! Fronts of a text that a reader finds without going back, as plain functions: one character or as many
as there are of a set, one front after another, a front or nothing. What they find is a front of the
text, and they find what is put in front of a text that does not go on with it. -/
namespace TokenRules.Pattern

/-- One character of a set. -/
def one (set : CodePoint → Bool) : Text → Option Text
  | x :: _ => if set x then some [x] else none
  | [] => none

/-- As many characters of a set as there are. -/
def many (set : CodePoint → Bool) (t : Text) : Option Text :=
  some (t.takeWhile set)

/-- One front, and another after it. -/
def followed (first second : Text → Option Text) (t : Text) : Option Text :=
  (first t).bind fun v => (second (t.drop v.length)).map (v ++ ·)

/-- A front, or nothing. -/
def perhaps (front : Text → Option Text) (t : Text) : Option Text :=
  some ((front t).getD [])

def either (first second : Text → Option Text) (t : Text) : Option Text :=
  (first t).or (second t)

/-- At least one character of a set, and all that follow. -/
def several (set : CodePoint → Bool) : Text → Option Text :=
  followed (one set) (many set)

/-- A given word. -/
def word (w t : Text) : Option Text :=
  if w <+: t then some w else none

theorem word_eq_some (found : word v t = some w) : w = v := by
  rw [word] at found
  split at found
  · exact (Option.some.inj found).symm
  · contradiction

theorem word_cons (c : CodePoint) (w : Text) :
    word (c :: w) = followed (one (· == c)) (word w) := by
  funext t
  cases t with
  | nil => rfl
  | cons x t =>
    by_cases same : x = c
    · subst same
      by_cases next : w <+: t
      · simp [word, followed, one, next]
      · simp [word, followed, one, next]
    · have apart : ¬ c = x := fun eq => same eq.symm
      simp [word, followed, one, same, apart]

/-- The next character, if there is one, is of a kind. -/
def Ahead (kind : CodePoint → Prop) (t : Text) : Prop :=
  ∀ x ∈ t.head?, kind x

theorem Ahead.cons {kind : CodePoint → Prop} (here : kind c) : Ahead kind (c :: t) := by
  intro x same
  rwa [← Option.some.inj same]

theorem Ahead.append {kind : CodePoint → Prop} (first : Ahead kind t) (second : Ahead kind u) :
    Ahead kind (t ++ u) := by
  cases t with
  | nil => exact second
  | cons x t => exact first

theorem Ahead.imp {p q : CodePoint → Prop} (ahead : Ahead p t) (all : ∀ x, p x → q x) : Ahead q t :=
  fun x here => all x (ahead x here)

theorem one_cons {set : CodePoint → Bool} (inside : set x) (t : Text) :
    one set (x :: t) = some [x] :=
  if_pos inside

theorem one_none {set : CodePoint → Bool} (outside : Ahead (set · = false) t) : one set t = none := by
  cases t with
  | nil => rfl
  | cons x t => simp [one, outside x rfl]

theorem followed_none {f : Text → Option Text} (nothing : f t = none) (g : Text → Option Text) :
    followed f g t = none := by
  rw [followed, nothing]
  rfl

theorem followed_append {f g : Text → Option Text} (first : f (u ++ t) = some u)
    (second : g t = some v) : followed f g (u ++ t) = some (u ++ v) := by
  rw [followed, first, Option.bind_some, List.drop_left, second]
  rfl

theorem many_append {set : CodePoint → Bool} (all : ∀ c ∈ u, set c)
    (outside : Ahead (set · = false) t) : many set (u ++ t) = some u := by
  have stops : t.takeWhile set = [] := by
    cases t with
    | nil => rfl
    | cons x t => simp [outside x rfl]
  rw [many, List.takeWhile_append_of_pos all, stops, List.append_nil]

theorem several_append {set : CodePoint → Bool} (nonempty : u ≠ []) (all : ∀ c ∈ u, set c)
    (outside : Ahead (set · = false) t) : several set (u ++ t) = some u := by
  obtain ⟨x, u, rfl⟩ := List.exists_cons_of_ne_nil nonempty
  obtain ⟨first, others⟩ := List.forall_mem_cons.mp all
  exact followed_append (u := [x]) (one_cons first _) (many_append others outside)

theorem several_eq (set : CodePoint → Bool) (t : Text) :
    several set t = if t.takeWhile set = [] then none else some (t.takeWhile set) := by
  cases t with
  | nil => rfl
  | cons x t =>
    by_cases inside : set x
    · simp [several, followed, one, many, inside]
    · simp [several, followed, one, inside]

/-- What a function finds is a front of the text. -/
def Fronts (front : Text → Option Text) : Prop :=
  ∀ t w, front t = some w → w <+: t

/-- What a function finds is a front of the text, and its first character is of a kind. -/
def Starts (kind : CodePoint → Prop) (front : Text → Option Text) : Prop :=
  ∀ t w, front t = some w → w <+: t ∧ ∃ x u, w = x :: u ∧ kind x

theorem Starts.fronts {kind : CodePoint → Prop} (starts : Starts kind front) : Fronts front :=
  fun t w found => (starts t w found).1

theorem Starts.imp {p q : CodePoint → Prop} (starts : Starts p front) (all : ∀ x, p x → q x) :
    Starts q front := by
  intro t w found
  obtain ⟨ahead, x, u, same, kind⟩ := starts t w found
  exact ⟨ahead, x, u, same, all x kind⟩

theorem fronts_many (set : CodePoint → Bool) : Fronts (many set) := by
  intro t w found
  obtain rfl := Option.some.inj found
  exact List.takeWhile_prefix set

theorem followed_eq_some : followed f g t = some w ↔
    ∃ u v, f t = some u ∧ g (t.drop u.length) = some v ∧ u ++ v = w := by
  simp only [followed, Option.bind_eq_some_iff, Option.map_eq_some_iff]
  constructor
  · rintro ⟨u, first, v, second, same⟩
    exact ⟨u, v, first, second, same⟩
  · rintro ⟨u, v, first, second, same⟩
    exact ⟨u, first, v, second, same⟩

theorem perhaps_eq_some : perhaps front t = some w ↔
    front t = some w ∨ front t = none ∧ w = [] := by
  rw [perhaps]
  cases front t with
  | none => simp [eq_comm]
  | some v => simp

theorem one_eq_some {set : CodePoint → Bool} : one set t = some w ↔
    ∃ x rest, t = x :: rest ∧ set x ∧ w = [x] := by
  cases t with
  | nil => simp [one]
  | cons x rest =>
    by_cases inside : set x
    · simp [one, inside, eq_comm (a := w)]
    · simp [one, inside]

theorem many_eq_some {set : CodePoint → Bool} (found : many set t = some w) : ∀ c ∈ w, set c := by
  obtain rfl := Option.some.inj found
  exact List.all_eq_true.mp List.all_takeWhile

theorem several_eq_some {set : CodePoint → Bool} (found : several set t = some w) :
    w ≠ [] ∧ ∀ c ∈ w, set c := by
  obtain ⟨u, v, first, others, rfl⟩ := followed_eq_some.mp found
  obtain ⟨x, rest, -, inside, rfl⟩ := one_eq_some.mp first
  exact ⟨by simp, List.forall_mem_cons.mpr ⟨inside, many_eq_some others⟩⟩

/-- Nothing more could have been taken. -/
theorem many_ahead {set : CodePoint → Bool} (found : many set (w ++ t) = some w) :
    Ahead (set · = false) t := by
  have all := many_eq_some found
  rw [many, List.takeWhile_append_of_pos all] at found
  have stops : t.takeWhile set = [] := List.append_right_eq_self.mp (Option.some.inj found)
  intro x here
  cases t with
  | nil => simp at here
  | cons y t =>
    obtain rfl : y = x := by simpa using here
    rw [List.takeWhile_cons] at stops
    split at stops
    · contradiction
    · simpa using ‹¬ set y = true›

/-- What the last front leaves. -/
theorem followed_ahead {kind : CodePoint → Prop} (last : ∀ w, g (w ++ t) = some w → Ahead kind t)
    (found : followed f g (w ++ t) = some w) : Ahead kind t := by
  obtain ⟨u, v, -, rest, rfl⟩ := followed_eq_some.mp found
  rw [List.append_assoc, List.drop_left] at rest
  exact last v rest

theorem several_ahead {set : CodePoint → Bool} (found : several set (w ++ t) = some w) :
    Ahead (set · = false) t :=
  followed_ahead (fun _ => many_ahead) found

theorem Fronts.followed (first : Fronts f) (second : Fronts g) : Fronts (followed f g) := by
  intro t w found
  obtain ⟨u, v, start, rest, rfl⟩ := followed_eq_some.mp found
  obtain ⟨t', rfl⟩ := first _ _ start
  rw [List.drop_left] at rest
  exact (List.prefix_append_right_inj u).mpr (second _ _ rest)

theorem Fronts.perhaps (fronts : Fronts front) : Fronts (perhaps front) := by
  intro t w found
  obtain rfl := Option.some.inj found
  cases taken : front t with
  | none => exact List.nil_prefix
  | some w => exact fronts t w taken

theorem starts_one (set : CodePoint → Bool) : Starts (set ·) (one set) := by
  intro t w found
  cases t with
  | nil => simp [one] at found
  | cons x t =>
    simp only [one] at found
    split at found
    · obtain rfl := Option.some.inj found
      exact ⟨⟨t, rfl⟩, x, [], rfl, ‹_›⟩
    · simp at found

theorem Starts.followed {kind : CodePoint → Prop} (first : Starts kind f) (second : Fronts g) :
    Starts kind (followed f g) := by
  intro t w found
  have ahead := first.fronts.followed second t w found
  obtain ⟨u, v, start, -, rfl⟩ := followed_eq_some.mp found
  obtain ⟨-, x, u, rfl, kind⟩ := first _ _ start
  exact ⟨ahead, x, u ++ v, rfl, kind⟩

theorem Starts.perhaps_followed {kind : CodePoint → Prop} (first : Starts kind f)
    (second : Starts kind g) : Starts kind (Pattern.followed (perhaps f) g) := by
  intro t w found
  have ahead := first.fronts.perhaps.followed second.fronts t w found
  refine ⟨ahead, ?_⟩
  obtain ⟨u, v, start, rest, rfl⟩ := followed_eq_some.mp found
  obtain rfl := Option.some.inj start
  cases taken : f t with
  | none =>
    obtain ⟨-, x, v, rfl, kind⟩ := second _ _ rest
    exact ⟨x, v, by simp, kind⟩
  | some u =>
    obtain ⟨-, x, u, rfl, kind⟩ := first _ _ taken
    exact ⟨x, u ++ v, rfl, kind⟩

theorem Starts.either {kind : CodePoint → Prop} (first : Starts kind f) (second : Starts kind g) :
    Starts kind (either f g) := by
  intro t w found
  rcases Option.or_eq_some_iff.mp found with found | ⟨-, found⟩
  · exact first t w found
  · exact second t w found

theorem starts_several (set : CodePoint → Bool) : Starts (set ·) (several set) :=
  (starts_one set).followed (fronts_many set)

theorem starts_word (c : CodePoint) (w : Text) : Starts (· = c) (word (c :: w)) := by
  intro t v found
  simp only [word] at found
  split at found
  · obtain rfl := Option.some.inj found
    exact ⟨‹_›, c, w, rfl, rfl⟩
  · simp at found

end TokenRules.Pattern
