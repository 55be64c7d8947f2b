import NoteTape.Pitch.Chord

/-!
# The chords in use

A chord type of the table is found by its name.  Its intervals begin on the root and make a stack:
they rise, and they stay within an octave.  From there on only the stack counts, wherever it is
built, `IsStack.shifted`.
-/

namespace NoteTape

/-- Tones that rise and stay within an octave. -/
structure IsStack (tones : List Int) : Prop where
  rising : tones.Pairwise (· < ·)
  within : ∀ low ∈ tones, ∀ high ∈ tones, high < low + octaveSize

/-- A stack can be built on every tone. -/
theorem IsStack.shifted {tones : List Int} (h : IsStack tones) (low : Int) :
    IsStack (tones.map (low + ·)) := by
  constructor
  · rw [List.pairwise_map]
    exact h.rising.imp fun hlt => Int.add_lt_add_left hlt low
  · rw [List.forall_mem_map]
    intro a ha
    rw [List.forall_mem_map]
    intro b hb
    have hlt := h.within a ha b hb
    omega

namespace ChordType

variable {name : String} {type : ChordType}

/-- A chord type in use is one of the table. -/
theorem mem_all_of_named (h : named name = .ok type) : type ∈ all := by
  unfold named at h
  split at h
  · next found hfound =>
    obtain rfl := Except.ok.inj h
    exact List.mem_of_find?_eq_some hfound
  · exact nomatch h

/-- Every chord type in use is found by its name. -/
theorem named_name (h : type ∈ all) : named type.name = .ok type := by
  have hall : ∀ type ∈ all, all.find? (·.name == type.name) = some type := by decide +kernel
  rw [named, hall type h]

theorem head?_intervals (h : type ∈ all) : type.intervals.head? = some 0 := by
  have hall : ∀ type ∈ all, type.intervals.head? = some 0 := by decide
  exact hall type h

theorem two_lt_length_intervals (h : type ∈ all) : 2 < type.intervals.length := by
  have hall : ∀ type ∈ all, 2 < type.intervals.length := by decide
  exact hall type h

theorem interval_mem (h : type ∈ all) : ∀ interval ∈ type.intervals, 0 ≤ interval ∧ interval < 12 := by
  have hall : ∀ type ∈ all, ∀ interval ∈ type.intervals, 0 ≤ interval ∧ interval < 12 := by decide
  exact hall type h

/-- **The intervals of a chord are a stack.** -/
theorem isStack_intervals (h : type ∈ all) : IsStack type.intervals := by
  have hall : ∀ type ∈ all, type.intervals.Pairwise (· < ·) ∧
      ∀ low ∈ type.intervals, ∀ high ∈ type.intervals, high < low + octaveSize := by
    decide
  obtain ⟨hrising, hwithin⟩ := hall type h
  exact ⟨hrising, hwithin⟩

end ChordType
end NoteTape
