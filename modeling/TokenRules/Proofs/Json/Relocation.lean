import TokenRules.Proofs.Json.Outcome

/-! Builders at other places. A builder keeps the places of the open brackets only to report them when they
stay unmatched. Moving these places, by any function, commutes with every token, so a builder elsewhere takes
and refuses the same tokens; and a token elsewhere is read as the same event. -/
namespace TokenRules

/-- What is raised, seen from `k` characters further on: a trouble that knows its place is there. -/
def Trouble.shift (k : Nat) : Trouble → Trouble
  | .positioned position message => .positioned (k + position) message
  | .blocked position => .blocked (k + position)
  | t => t

def Raised.shift (k : Nat) : Raised ε → Raised ε
  | .trouble t => .trouble (t.shift k)
  | .defect d => .defect d

theorem Trouble.shift_message (k : Nat) (t : Trouble) : (t.shift k).message = t.message := by
  cases t <;> rfl

theorem Trouble.shift_position (k place : Nat) (t : Trouble) :
    (t.shift k).position?.getD (k + place : Nat) = k + t.position?.getD place := by
  cases t <;> rfl

namespace Json

/-- The frame with its bracket at another place. -/
def Frame.relocate (move : Int → Int) : Frame → Frame
  | .bare => .bare
  | .root f => .root f
  | .array f => .array { f with start := move f.start }
  | .object f => .object { f with start := move f.start }

def Builder.relocate (move : Int → Int) (b : Builder) : Builder :=
  { b with inner := b.inner.map (Frame.relocate move) }

def Event.relocate (move : Int → Int) : Event → Event
  | .openArray start => .openArray (move start)
  | .openObject start => .openObject (move start)
  | e => e

variable {move : Int → Int}

/-- A change of a machine that makes no difference to its answers to a token. -/
def Respects (change : Frame → Frame) (token : Frame → Reply Frame) : Prop :=
  ∀ f, token (change f) = (token f).within change

namespace Frame

theorem add_relocate (v : Value) : Respects (relocate move) (Frame.add v) := by
  intro f
  cases f with
  | bare => rfl
  | root f =>
    simp only [relocate, Frame.add, RootFrame.add]
    split <;> rfl
  | array f =>
    simp only [relocate, Frame.add, ArrayFrame.add]
    split <;> rfl
  | object f =>
    simp only [relocate, Frame.add, ObjectFrame.add]
    split
    · split <;> rfl
    · split <;> rfl
    · split <;> rfl
    all_goals rfl

theorem colon_relocate : Respects (relocate move) Frame.colon := by
  intro f
  cases f with
  | object f =>
    simp only [relocate, Frame.colon, ObjectFrame.colon]
    split <;> rfl
  | bare | root _ | array _ => rfl

theorem comma_relocate : Respects (relocate move) Frame.comma := by
  intro f
  cases f with
  | array f =>
    simp only [relocate, Frame.comma, ArrayFrame.comma]
    split <;> rfl
  | object f =>
    simp only [relocate, Frame.comma, ObjectFrame.comma]
    split <;> rfl
  | bare | root _ => rfl

theorem closeArray_relocate : Respects (relocate move) Frame.closeArray := by
  intro f
  cases f with
  | array f =>
    simp only [relocate, Frame.closeArray, ArrayFrame.close]
    split <;> rfl
  | bare | root _ | object _ => rfl

theorem closeObject_relocate : Respects (relocate move) Frame.closeObject := by
  intro f
  cases f with
  | object f =>
    simp only [relocate, Frame.closeObject, ObjectFrame.close]
    split <;> rfl
  | bare | root _ | array _ => rfl

theorem held?_relocate (f : Frame) : (f.relocate move).held? = f.held? := by
  cases f <;> rfl

theorem replaceLast_relocate (v : Value) (f : Frame) :
    (f.relocate move).replaceLast v = (f.replaceLast v).relocate move := by
  cases f with
  | object f =>
    obtain ⟨start, state, name, latest, members⟩ := f
    cases latest <;> rfl
  | bare | root _ | array _ => rfl

end Frame

theorem Reply.followedBy_within {r : Reply α} {hold : α → β} {change : α → α} {change' : β → β}
    (same : ∀ a, change' (hold a) = hold (change a)) :
    (r.within hold).followedBy change' = (r.followedBy change).within hold := by
  obtain ⟨after, refusal⟩ := r
  cases refusal with
  | none => exact congrArg accepted (same after)
  | some why => rfl

namespace Builder

theorem active_relocate (b : Builder) : (b.relocate move).active = b.active.relocate move := by
  obtain ⟨root, inner⟩ := b
  cases inner <;> rfl

theorem setActive_relocate (b : Builder) (f : Frame) :
    (b.relocate move).setActive (f.relocate move) = (b.setActive f).relocate move := by
  obtain ⟨root, inner⟩ := b
  cases inner with
  | nil => cases f <;> rfl
  | cons frame outer => cases f <;> rfl

theorem offer_relocate {token : Frame → Reply Frame} (respects : Respects (Frame.relocate move) token)
    (b : Builder) : (b.relocate move).offer token = (b.offer token).within (relocate move) := by
  rw [offer, active_relocate, respects]
  exact congrArg (Reply.mk · _) (setActive_relocate b _)

theorem pop_relocate (b : Builder) : (b.relocate move).pop = b.pop.relocate move := by
  obtain ⟨root, inner⟩ := b
  cases inner with
  | nil => rfl
  | cons frame outer =>
    have around : (Builder.mk root (outer.map (Frame.relocate move))).active =
        (Builder.mk root outer).active.relocate move := active_relocate ⟨root, outer⟩
    simp only [relocate, List.map_cons, pop, Frame.held?_relocate, around]
    cases frame.held? with
    | none => rfl
    | some v =>
      simp only [Frame.replaceLast_relocate]
      exact setActive_relocate ⟨root, outer⟩ _

theorem apply_relocate (b : Builder) (e : Event) :
    (b.relocate move).apply (e.relocate move) = (b.apply e).within (relocate move) := by
  cases e with
  | value v => exact offer_relocate (Frame.add_relocate v) b
  | openArray start | openObject start =>
    simp only [Event.relocate, apply, push, offer_relocate (Frame.add_relocate _)]
    exact Reply.followedBy_within fun b => rfl
  | closeArray =>
    simp only [Event.relocate, apply, offer_relocate Frame.closeArray_relocate]
    exact Reply.followedBy_within pop_relocate
  | closeObject =>
    simp only [Event.relocate, apply, offer_relocate Frame.closeObject_relocate]
    exact Reply.followedBy_within pop_relocate
  | colon => exact offer_relocate Frame.colon_relocate b
  | comma => exact offer_relocate Frame.comma_relocate b

end Builder

/-- Outcomes that two maps make alike, the errors of one of them changed, are both errors or both results. -/
theorem map_alike {x : Except ε α} {y : Except ε' β} {f : α → γ} {g : β → γ} {change : ε' → ε}
    (same : x.map f = (y.mapError change).map g) :
    (∃ e, x = .error (change e) ∧ y = .error e) ∨ ∃ a b, x = .ok a ∧ y = .ok b ∧ f a = g b := by
  cases x with
  | error e =>
    cases y with
    | error e' => exact .inl ⟨e', congrArg Except.error (Except.error.inj same), rfl⟩
    | ok b => contradiction
  | ok a =>
    cases y with
    | error e' => contradiction
    | ok b => exact .inr ⟨a, b, rfl, rfl, Except.ok.inj same⟩

/-- No token is refused for a place, so a builder elsewhere raises the same. -/
theorem deliver_relocate (b : Builder) (e : Event) :
    deliver (b.relocate move) (e.relocate move) = (deliver b e).map (Builder.relocate move) := by
  simp only [deliver, Builder.apply_relocate, Reply.toExcept, Reply.within]
  cases (b.apply e).refusal <;> rfl

/-- A bad escape is blamed on its backslash, wherever the literal stands. -/
theorem StringLiteral.decode_shift (k position : Int) (t : Text) :
    decode (k + position) t = (decode position t).mapError fun e => ⟨k + e.position, e.shown⟩ := by
  fun_induction decode position t with
  | case1 => simp [decode]
  | case2 => simp [decode]
  | case3 position c rest d length here t decoded ih | case4 position c rest d length here e decoded ih =>
    rw [decode_escape, here]
    simp only [Int.add_assoc] at ih decoded ⊢
    rw [ih, decoded]
    rfl
  | case5 position c rest length here =>
    rw [decode_escape, here]
    rfl
  | case6 position c d rest plain t decoded ih | case7 position c d rest plain e decoded ih =>
    rw [decode_bare plain, Int.add_assoc, ih, decoded]
    rfl

theorem StringLiteral.dequote_shift (k start : Int) (w : Text) :
    dequote w (k + start) = (dequote w start).mapError fun e => ⟨k + e.position, e.shown⟩ := by
  rw [dequote, Int.add_assoc, decode_shift, dequote]

/-- A token further on stands for the same event, with its bracket at another place. -/
theorem readEvent_shift (k offset i : Nat) (w : Text) : readEvent (k + offset) i w =
    ((readEvent offset i w).map (Option.map (Event.relocate (k + ·)))).mapError (Raised.shift k) := by
  unfold readEvent
  split
  case h_4 => cases readNumber w <;> rfl
  case h_5 =>
    have shifted : StringLiteral.dequote w (k + offset : Nat) =
        (StringLiteral.dequote w offset).mapError fun e => ⟨k + e.position, e.shown⟩ :=
      StringLiteral.dequote_shift k offset w
    rw [shifted]
    cases StringLiteral.dequote w offset <;> rfl
  all_goals rfl

/-- The builder without the places of its brackets. -/
def Builder.unplaced (b : Builder) : Builder := b.relocate fun _ => 0

variable {f g : Int → Int}

/-- Builders that two moves make alike answer alike to events that they make alike. -/
theorem deliver_relocated (same : b.relocate f = b'.relocate g) (event : e.relocate f = e'.relocate g) :
    (deliver b e).map (Builder.relocate f) = (deliver b' e').map (Builder.relocate g) := by
  rw [← deliver_relocate, ← deliver_relocate, same, event]

/-- The only place that the event of a token has is that of the token. -/
theorem readEvent_relocate (read : readEvent offset i w = .ok (some e)) {k : Nat}
    (place : f (k + offset) = g offset) : (e.relocate (k + ·)).relocate f = e.relocate g := by
  cases readEvent_readAs read with
  | openArray => exact congrArg Event.openArray place
  | openObject => exact congrArg Event.openObject place
  | _ => rfl

/-- What a builder raises on a token has no place of its own. -/
theorem deliver_shift (k : Nat) (b : Builder) (e : Event) :
    (deliver b e).mapError (Raised.shift k) = deliver b e := by
  cases delivered : deliver b e with
  | ok b => rfl
  | error raised =>
    obtain ⟨why, refused, rfl⟩ := mapError_eq_error.mp delivered
    rcases Builder.apply_refusal (Reply.toExcept_eq_error.mp refused) with ⟨c, -, rfl⟩ | ⟨v, -, rfl⟩
    · rfl
    · unfold Refusal.unexpected
      split <;> rfl

theorem applyEvent_relocated (same : b.relocate f = b'.relocate g) {k offset : Nat}
    (place : f (k + offset) = g offset) (i : Nat) (w : Text) :
    (applyEvent b (readEvent (k + offset) i w)).map (Builder.relocate f) =
      ((applyEvent b' (readEvent offset i w)).mapError (Raised.shift k)).map (Builder.relocate g) := by
  rw [readEvent_shift]
  cases read : readEvent offset i w with
  | error raised => rfl
  | ok e =>
    cases e with
    | none => exact congrArg Except.ok same
    | some e =>
      simp only [Except.map, mapError_ok, Option.map_some, applyEvent]
      have shifted := deliver_shift k b' e
      have delivered := deliver_relocated same (readEvent_relocate read place)
      rw [← shifted] at delivered
      exact delivered

end Json
end TokenRules
