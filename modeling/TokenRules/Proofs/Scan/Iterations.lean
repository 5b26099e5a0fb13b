import TokenRules.Proofs.Scan.Tiling

/-! Several iterations over one scanner. Each goes on from wherever any of them left off, so the matches that
they find, taken together in the order of the requests, tile the text from where the scanner was started up
to its position. -/
namespace TokenRules

theorem Cursor.start_advance (inside : n ≤ t.length) :
    ((start t).advance n).offset = n ∧ ((start t).advance n).after = t.drop n := by
  have split : (start t).after = t.take n ++ t.drop n := (List.take_append_drop n t).symm
  obtain ⟨after, offset⟩ := advance_append split
  rw [List.length_take_of_le inside] at after offset
  exact ⟨offset.trans (Nat.zero_add n), after⟩

namespace Scanner

/-- One more iteration, or the next match of one of those begun, told by their numbers. -/
inductive Request where
  | begin
  | next (number : Nat)
  deriving DecidableEq, Repr

/-- A scanner with all iterations over it in the order in which they were begun, and all matches that they have
found in the order in which they were found. -/
structure Shared where
  scanner : Scanner
  iterations : List Iteration
  found : List Match

namespace Shared

def start (p : Pattern) (text : Text) (place : Nat) : Shared :=
  ⟨.start p text place, [], []⟩

/-- There is no match of an iteration that has not been begun. -/
def step (s : Shared) : Request → Shared
  | .begin => { s with iterations := s.iterations ++ [.live] }
  | .next number =>
    match s.iterations[number]? with
    | none => s
    | some iteration =>
      let (found, iteration, scanner) := iteration.next s.scanner
      { scanner
        iterations := s.iterations.set number iteration
        found := s.found ++ found.toList }

def run (s : Shared) (requests : List Request) : Shared :=
  requests.foldl step s

/-- What the next match of a live iteration does to what is shared. -/
inductive Turn (s : Shared) (number : Nat) : Shared → Prop
  | found {next : Scanner} : s.scanner.advance = (some m, next) →
      Turn s number ⟨next, s.iterations, s.found ++ [m]⟩
  | ended {next : Scanner} : s.scanner.advance = (none, next) →
      Turn s number ⟨next, s.iterations.set number .exhausted, s.found⟩

theorem set_unchanged {l : List α} (there : l[number]? = some a) : l.set number a = l := by
  obtain ⟨inside, rfl⟩ := List.getElem?_eq_some_iff.mp there
  exact List.set_getElem_self inside

theorem step_exhausted {s : Shared} (exhausted : s.iterations[number]? = some .exhausted) :
    s.step (.next number) = s := by
  simp only [step, exhausted, Iteration.next, set_unchanged exhausted, Option.toList_none, List.append_nil]

theorem step_live {s : Shared} (live : s.iterations[number]? = some .live) :
    Turn s number (s.step (.next number)) := by
  cases advanced : s.scanner.advance with
  | mk found next =>
    cases found with
    | none =>
      simp only [step, live, Iteration.next, advanced, Option.toList_none, List.append_nil]
      exact .ended advanced
    | some m =>
      simp only [step, live, Iteration.next, advanced, set_unchanged live, Option.toList_some]
      exact .found advanced

/-- Matches that are not empty take one character each at least. -/
theorem length_le_texts {ms : List Match} (nonempty : ∀ m ∈ ms, m.text ≠ []) :
    ms.length ≤ (ms.flatMap Match.text).length := by
  induction ms with
  | nil => exact Nat.le_refl _
  | cons m ms ih =>
    obtain ⟨first, others⟩ := List.forall_mem_cons.mp nonempty
    have one := List.length_pos_iff.mpr first
    have rest := ih others
    rw [List.length_cons, List.flatMap_cons, List.length_append]
    omega

/-- The matches found are the text from where the scanner was started up to where it is now. -/
structure Tiles (p : Pattern) (text : Text) (begun : Nat) (s : Shared) (place : Nat) : Prop where
  pattern : s.scanner.pattern = p
  placed : s.scanner.Placed
  cursor : s.scanner.cursor = (Cursor.start text).advance place
  most : place ≤ text.length
  length : place = begun + (s.found.flatMap Match.text).length
  texts : text.drop begun = s.found.flatMap Match.text ++ text.drop place
  nonempty : ∀ m ∈ s.found, m.text ≠ []

namespace Tiles

variable {p : Pattern} {text : Text} {begun place : Nat} {s : Shared}

theorem offset (tiles : Tiles p text begun s place) : s.scanner.cursor.offset = place := by
  rw [tiles.cursor]
  exact (Cursor.start_advance tiles.most).1

theorem after (tiles : Tiles p text begun s place) : s.scanner.cursor.after = text.drop place := by
  rw [tiles.cursor]
  exact (Cursor.start_advance tiles.most).2

theorem position (tiles : Tiles p text begun s place) : s.scanner.position = place := by
  rw [tiles.placed.position, tiles.offset]

theorem size (tiles : Tiles p text begun s place) : s.scanner.size = text.length := by
  rw [tiles.placed.size, tiles.offset, tiles.after, List.length_drop]
  exact Nat.add_sub_of_le tiles.most

theorem slice (tiles : Tiles p text begun s place) :
    s.found.flatMap Match.text = text.slice begun place := by
  have size : place - begun = (s.found.flatMap Match.text).length := by
    rw [tiles.length, Nat.add_sub_cancel_left]
  rw [Text.slice, tiles.texts, size, List.take_left]

theorem fewer (tiles : Tiles p text begun s place) : s.found.length ≤ place - begun := by
  rw [tiles.length, Nat.add_sub_cancel_left]
  exact length_le_texts tiles.nonempty

theorem start (p : Pattern) (inside : begun ≤ text.length) :
    Tiles p text begun (.start p text begun) begun where
  pattern := rfl
  placed := by
    obtain ⟨offset, after⟩ := Cursor.start_advance inside
    constructor
    · exact congrArg Int.ofNat offset.symm
    · change text.length = _
      rw [Shared.start, Scanner.start, Int.toNat_natCast, offset, after, List.length_drop,
        Nat.add_sub_of_le inside]
  cursor := rfl
  most := inside
  length := rfl
  texts := rfl
  nonempty := nofun

/-- Beginning an iteration moves nothing. -/
theorem begin (tiles : Tiles p text begun s place) : Tiles p text begun (s.step .begin) place :=
  ⟨tiles.pattern, tiles.placed, tiles.cursor, tiles.most, tiles.length, tiles.texts, tiles.nonempty⟩

/-- A match starts at the place and is not empty, and the scanner goes on behind it. -/
theorem found (tiles : Tiles p text begun s place) {next : Scanner}
    (advanced : s.scanner.advance = (some m, next)) (iterations : List Iteration) :
    p.matchAt ((Cursor.start text).advance place) = some m ∧ m.start.offset = place ∧
      next.current = some m.start.offset ∧ next.position = m.stop.offset ∧
      Tiles p text begun ⟨next, iterations, s.found ++ [m]⟩ m.stop.offset := by
  obtain ⟨-, matched, forward, rfl, placed⟩ := tiles.placed.advance_some advanced
  obtain ⟨start, split, stop, offset⟩ := Pattern.matchAt_forward matched
  rw [tiles.offset] at forward offset
  rw [tiles.after] at split
  have nonempty : m.text ≠ [] := by
    intro empty
    rw [empty] at offset
    exact forward offset
  have ahead : m.stop.after = text.drop m.stop.offset := by
    rw [offset, ← List.drop_drop, split, List.drop_left]
  have within : m.stop.offset ≤ text.length := by
    have length := congrArg List.length split
    rw [List.length_drop, List.length_append] at length
    have most := tiles.most
    omega
  refine ⟨?_, ?_, rfl, rfl, ?_⟩
  · rw [← tiles.cursor, ← tiles.pattern]
    exact matched
  · rw [start, tiles.offset]
  · constructor
    · exact tiles.pattern
    · exact placed
    · rw [offset, Cursor.advance_add, ← tiles.cursor]
      exact stop
    · exact within
    · rw [List.flatMap_append, List.length_append, ← Nat.add_assoc, ← tiles.length, List.flatMap_singleton,
        offset]
    · rw [tiles.texts, split, ahead, List.flatMap_append, List.flatMap_singleton, List.append_assoc]
    · intro m' member
      rcases List.mem_append.mp member with earlier | last
      · exact tiles.nonempty m' earlier
      · obtain rfl := List.mem_singleton.mp last
        exact nonempty

/-- At the end of an iteration there is no other match at the place than an empty one, and the scanner stays
there. -/
theorem ended (tiles : Tiles p text begun s place) {next : Scanner}
    (advanced : s.scanner.advance = (none, next)) (iterations : List Iteration) :
    (∀ m, p.matchAt ((Cursor.start text).advance place) = some m → m.text = []) ∧
      next.current = none ∧ (next.isBlocked = true ↔ place < text.length) ∧
      Tiles p text begun ⟨next, iterations, s.found⟩ place := by
  obtain ⟨rfl, stopped⟩ := tiles.placed.advance_none advanced
  have tiles' : Tiles p text begun ⟨{ s.scanner with current := none }, iterations, s.found⟩ place :=
    ⟨tiles.pattern, ⟨tiles.placed.position, tiles.placed.size⟩, tiles.cursor, tiles.most, tiles.length,
      tiles.texts, tiles.nonempty⟩
  refine ⟨?_, rfl, ?_, tiles'⟩
  · intro m matched
    obtain ⟨-, split, -, offset⟩ := Pattern.matchAt_forward matched
    rw [← tiles.cursor] at split offset
    rcases stopped with nothing | still
    · rw [nothing] at split
      exact (List.append_eq_nil_iff.mp split.symm).1
    · rw [tiles.pattern, tiles.cursor] at still
      have same := still m matched
      rw [← tiles.cursor, offset] at same
      exact List.eq_nil_of_length_eq_zero (by omega)
  · rw [tiles'.placed.isBlocked_iff rfl, tiles'.offset, tiles'.size]

/-- A request leaves the scanner at its place or further on. -/
theorem step (tiles : Tiles p text begun s place) (request : Request) :
    ∃ place', place ≤ place' ∧ Tiles p text begun (s.step request) place' := by
  cases request with
  | begin => exact ⟨place, Nat.le_refl place, tiles.begin⟩
  | next number =>
    cases known : s.iterations[number]? with
    | none =>
      refine ⟨place, Nat.le_refl place, ?_⟩
      simp only [Shared.step, known]
      exact tiles
    | some iteration =>
      cases iteration with
      | exhausted =>
        rw [step_exhausted known]
        exact ⟨place, Nat.le_refl place, tiles⟩
      | live =>
        have turn := step_live known
        generalize s.step (.next number) = s' at turn ⊢
        cases turn with
        | ended advanced => exact ⟨place, Nat.le_refl place, (tiles.ended advanced _).2.2.2⟩
        | @found m _ advanced =>
          obtain ⟨matched, start, -, -, tiles'⟩ := tiles.found advanced s.iterations
          obtain ⟨-, -, -, offset⟩ := Pattern.matchAt_forward matched
          rw [(Cursor.start_advance tiles.most).1] at offset
          exact ⟨m.stop.offset, by omega, tiles'⟩

theorem run (tiles : Tiles p text begun s place) (requests : List Request) :
    ∃ place', place ≤ place' ∧ Tiles p text begun (s.run requests) place' := by
  induction requests generalizing s place with
  | nil => exact ⟨place, Nat.le_refl place, tiles⟩
  | cons request requests ih =>
    obtain ⟨place', further, tiles'⟩ := tiles.step request
    obtain ⟨place'', further', tiles''⟩ := ih tiles'
    exact ⟨place'', Nat.le_trans further further', tiles''⟩

end Tiles

/-- Iterations over one scanner tile the text together, however they take turns. -/
theorem iterations_tile (p : Pattern) (text : Text) {begun : Nat} (inside : begun ≤ text.length)
    (requests : List Request) :
    let s := (start p text begun).run requests
    ∃ place : Nat, s.scanner.position = place ∧ begun ≤ place ∧ place ≤ text.length ∧
      s.found.flatMap Match.text = text.slice begun place ∧
      s.found.length ≤ text.length - begun ∧
      (∀ request, s.scanner.position ≤ (s.step request).scanner.position) ∧
      (∀ number, s.iterations[number]? = some .exhausted → s.step (.next number) = s) ∧
      ∀ number, s.iterations[number]? = some .live →
        let s' := s.step (.next number)
        (∃ m, s'.found = s.found ++ [m] ∧ s'.iterations = s.iterations ∧
          p.matchAt ((Cursor.start text).advance place) = some m ∧
          m.start.offset = place ∧ m.text ≠ [] ∧
          s'.scanner.position = m.stop.offset ∧ s'.scanner.current = some m.start.offset) ∨
        (s'.found = s.found ∧ s'.iterations = s.iterations.set number .exhausted ∧
          s'.scanner.position = place ∧ s'.scanner.current = none ∧
          (s'.scanner.isBlocked = true ↔ place < text.length) ∧
          ∀ m, p.matchAt ((Cursor.start text).advance place) = some m → m.text = []) := by
  intro s
  obtain ⟨place, further, tiles⟩ := (Tiles.start p inside).run requests
  have fewer := tiles.fewer
  refine ⟨place, tiles.position, further, tiles.most, tiles.slice, ?_, ?_, ?_, ?_⟩
  · exact Nat.le_trans fewer (Nat.sub_le_sub_right tiles.most begun)
  · intro request
    obtain ⟨place', further', tiles'⟩ := tiles.step request
    rw [tiles.position, tiles'.position]
    exact Int.ofNat_le.mpr further'
  · intro number exhausted
    exact step_exhausted exhausted
  · intro number live
    have turn := step_live live
    generalize s.step (.next number) = s' at turn ⊢
    cases turn with
    | @found m _ advanced =>
      obtain ⟨matched, start, current, position, tiles'⟩ := tiles.found advanced s.iterations
      exact .inl ⟨m, rfl, rfl, matched, start, tiles'.nonempty m (by simp), position, current⟩
    | ended advanced =>
      obtain ⟨empty, current, blocked, tiles'⟩ := tiles.ended advanced (s.iterations.set number .exhausted)
      exact .inr ⟨rfl, rfl, tiles'.position, current, blocked, empty⟩

/-- Runs of one letter, and another that does not begin a word. -/
def letters : Pattern :=
  (Pattern.compile (Text.ofString "a+|\\Bb") {}).toOption.get (by decide +kernel)

/-- Of two iterations over `xaab;` the second finds the two letters and the first the third. -/
theorem iterations_tile_turns :
    let text := [0x78, 0x61, 0x61, 0x62, 0x3B]
    let s := (start letters text 1).run [.begin, .begin, .next 1, .next 0]
    1 ≤ text.length ∧ s.found.flatMap Match.text = [0x61, 0x61, 0x62] ∧
      (s.step (.next 1)).scanner.isBlocked = true := by
  intro text s
  have inside : 1 ≤ text.length := by decide
  obtain ⟨place, position, -, -, texts, -, -, -, turns⟩ :=
    iterations_tile letters text inside [.begin, .begin, .next 1, .next 0]
  have reached : s.scanner.position = 4 := by decide +kernel
  obtain rfl : place = 4 := Int.ofNat.inj (position.symm.trans reached)
  refine ⟨inside, texts, ?_⟩
  rcases turns 1 (by decide +kernel) with ⟨m, found, -⟩ | ⟨-, -, -, -, blocked, -⟩
  · have same : (s.step (.next 1)).found.length = s.found.length := by decide +kernel
    rw [found, List.length_append] at same
    exact absurd same (Nat.succ_ne_self _)
  · exact blocked.mpr (by decide)

end Shared
end Scanner
end TokenRules
