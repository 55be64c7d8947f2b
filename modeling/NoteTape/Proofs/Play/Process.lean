import NoteTape.Proofs.Play.Alike

/-!
# Two sources

A play sees one source, and `Origin.run` decides which.  But a function that is given a source may call
others without one, and what is called without a source draws from the ambient one.  In this module
both sources are there: a *process* is a computation in a room where the ambient source and the
caller's lie side by side, and a play becomes a process when it is known in whose `Hand` its source is,
`Hand.play`.

A process may use both hands.  When it comes to a play in one hand after all, it is what `Origin.run`
makes of this play, `Origin.call_play`, and when the hand is the caller's it is `Isolated`: the ambient
source is left as it was, and it is not looked at.
-/

namespace NoteTape

variable {α β : Type}

/-- What a process can reach: the ambient source, that of the caller, and the notices so far. -/
structure Room where
  ambient : Source
  own : Source
  notices : Array Notice

/-- A computation that may draw from either source, give notices and fail. -/
abbrev Process := ExceptT Fault (StateM Room)

/-- The outcome of a process in a room, and the room afterwards. -/
def Process.outcome (p : Process α) (room : Room) : Except Fault α × Room :=
  StateT.run (ExceptT.run p) room

/-- Who holds the source that a function draws from. -/
inductive Hand where
  | ambient
  | own
  deriving DecidableEq, Repr

namespace Hand

/-- The source in a hand. -/
def source (hand : Hand) (room : Room) : Source :=
  match hand with
  | ambient => room.ambient
  | own => room.own

/-- The room after a play with the source in a hand. -/
def after (hand : Hand) (room : Room) (desk : Desk) : Room :=
  match hand with
  | ambient => ⟨desk.source, room.own, desk.notices⟩
  | own => ⟨room.ambient, desk.source, desk.notices⟩

/-- A play whose source is in a hand. -/
def play (hand : Hand) (p : Play α) : Process α :=
  ExceptT.mk fun room =>
    let (r, desk) := p.outcome ⟨hand.source room, room.notices⟩
    (r, hand.after room desk)

end Hand

namespace Process

/-- The outcome of a process as a value: a process that goes on after a fault. -/
def attempt (p : Process α) : Process (Except Fault α) :=
  ExceptT.mk fun room =>
    let (r, room) := p.outcome room
    (.ok r, room)

theorem ext {p q : Process α} (h : ∀ room, p.outcome room = q.outcome room) : p = q := funext h

theorem outcome_bind (p : Process α) (f : α → Process β) (room : Room) :
    (p >>= f).outcome room =
      match p.outcome room with
      | (.ok a, after) => (f a).outcome after
      | (.error fault, after) => (.error fault, after) := by
  change ExceptT.bindCont f (p.outcome room).1 (p.outcome room).2 = _
  rcases p.outcome room with ⟨_ | a, after⟩
  · rfl
  · rfl

theorem lift_ok (a : α) : (liftM (.ok a : Except Fault α) : Process α) = pure a := rfl

theorem lift_error_bind (fault : Fault) (f : α → Process β) :
    (liftM (.error fault : Except Fault α) : Process α) >>= f =
      liftM (.error fault : Except Fault β) := rfl

theorem outcome_play (hand : Hand) (p : Play α) (room : Room) :
    (hand.play p).outcome room =
      ((p.outcome ⟨hand.source room, room.notices⟩).1,
        hand.after room (p.outcome ⟨hand.source room, room.notices⟩).2) := rfl

end Process

/-! ## Plays in a hand -/

namespace Hand

variable (hand : Hand)

theorem desk_after (room : Room) (desk : Desk) :
    (⟨hand.source (hand.after room desk), (hand.after room desk).notices⟩ : Desk) = desk := by
  cases hand with
  | ambient => rfl
  | own => rfl

theorem after_after (room : Room) (desk desk' : Desk) :
    hand.after (hand.after room desk) desk' = hand.after room desk' := by
  cases hand with
  | ambient => rfl
  | own => rfl

theorem after_self (room : Room) : hand.after room ⟨hand.source room, room.notices⟩ = room := by
  cases hand with
  | ambient => rfl
  | own => rfl

/-- An answer that is there already needs no source. -/
theorem play_lift (answer : Except Fault α) : hand.play (liftM answer) = liftM answer :=
  Process.ext fun room => by
    rw [Process.outcome_play, Play.outcome_lift, after_self]
    rfl

theorem play_pure (a : α) : hand.play (pure a) = pure a := hand.play_lift (.ok a)

theorem play_throw (fault : Fault) : hand.play (throw fault : Play α) = throw fault :=
  hand.play_lift (.error fault)

/-- **What a play hands on is its own source.** -/
theorem play_bind (p : Play α) (f : α → Play β) :
    hand.play (p >>= f) = hand.play p >>= fun a => hand.play (f a) := by
  refine Process.ext fun room => ?_
  rw [Process.outcome_bind, Process.outcome_play, Process.outcome_play, Play.outcome_bind]
  rcases p.outcome ⟨hand.source room, room.notices⟩ with ⟨fault | a, desk⟩
  · rfl
  · simp only
    rw [Process.outcome_play, desk_after, after_after]

theorem play_mapM {γ : Type} (f : γ → Play α) (items : List γ) :
    hand.play (items.mapM f) = items.mapM fun item => hand.play (f item) := by
  induction items with
  | nil => exact hand.play_pure []
  | cons item items ih =>
    rw [List.mapM_cons, List.mapM_cons]
    simp only [play_bind, play_pure, ih]

theorem play_ite (c : Prop) [Decidable c] (p q : Play α) :
    hand.play (if c then p else q) = if c then hand.play p else hand.play q :=
  apply_ite hand.play c p q

/-- Behind a play only what it can return counts. -/
theorem play_bind_congr {p : Play α} {good : α → Prop} (hp : Play.Returns p good)
    {f g : α → Process β} (h : ∀ a, good a → f a = g a) :
    hand.play p >>= f = hand.play p >>= g := by
  refine Process.ext fun room => ?_
  rw [Process.outcome_bind, Process.outcome_bind, Process.outcome_play]
  rcases hdesk : p.outcome ⟨hand.source room, room.notices⟩ with ⟨fault | a, desk⟩
  · rfl
  · simp only
    rw [h a (hp.of_ok hdesk)]

end Hand

/-! ## Origins -/

namespace Origin

/-- The hand that holds the source of an origin. -/
def hand : Origin → Hand
  | .ambient => .ambient
  | seeded _ => .own
  | own _ => .own

/-- The outcome of a process whose draws come from an origin, the state in which it leaves the
source of this origin, and the desk of the ambient source afterwards. -/
def call (origin : Origin) (process : Hand → Process α) (desk : Desk) :
    (Except Fault α × Source) × Desk :=
  let (r, room) := (process origin.hand).outcome
    ⟨desk.source, origin.source desk.source, desk.notices⟩
  ((r, origin.hand.source room), ⟨room.ambient, room.notices⟩)

/-- A play in the hand of its origin is run as ever. -/
theorem call_play (origin : Origin) (p : Play α) (desk : Desk) :
    origin.call (fun hand => hand.play p) desk = origin.run p desk := by
  cases origin with
  | ambient => rfl
  | seeded seed => rfl
  | own source => rfl

/-- A seed, or a source of the caller's, is not the ambient source. -/
theorem choose_ne_ambient {seed : Option Int} {own : Option Source}
    (h : seed.isSome ∨ own.isSome) : choose seed own ≠ .ambient := by
  cases seed with
  | some seed => exact Origin.noConfusion
  | none =>
    obtain ⟨source, rfl⟩ := Option.isSome_iff_exists.mp (h.resolve_left Bool.false_ne_true)
    exact Origin.noConfusion

/-- A process that leaves the ambient source as it was, and answers without it: neither the answer
nor what is left of the source of its origin depends on the ambient source. -/
structure Isolated (origin : Origin) (process : Hand → Process α) : Prop where
  source_eq : ∀ desk, (origin.call process desk).2.source = desk.source
  answer_eq : ∀ desk other, (origin.call process desk).1 = (origin.call process other).1

/-- **A play in the hand of the caller is isolated.** -/
theorem isolated_play {p : Play α} (halike : Play.Alike p p) {origin : Origin}
    (horigin : origin ≠ .ambient) : origin.Isolated fun hand => hand.play p := by
  have hsources (desk other : Desk) : origin.source desk.source = origin.source other.source := by
    cases origin with
    | ambient => exact absurd rfl horigin
    | seeded seed => rfl
    | own source => rfl
  constructor
  · intro desk
    rw [call_play]
    cases origin with
    | ambient => exact absurd rfl horigin
    | seeded seed => rfl
    | own source => rfl
  · intro desk other
    rw [call_play, call_play]
    obtain ⟨hanswer, hsource⟩ := halike ⟨origin.source desk.source, desk.notices⟩
      ⟨origin.source other.source, other.notices⟩ (hsources desk other)
    exact Prod.ext hanswer hsource

end Origin
end NoteTape
