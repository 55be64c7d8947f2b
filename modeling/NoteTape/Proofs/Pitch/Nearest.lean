import NoteTape.Pitch.Snap

/-!
# The nearest pitch

Snapping searches outward from a pitch, semitone by semitone and upward first, and gives up half an
octave away.  It never has to give up.  The pitches of one class are an octave apart, so one of them
is at most half an octave away, `exists_offset`.

What the search returns is described without the search, `IsNearest`: a good pitch that no other
good pitch is preferred to, where the nearer of two is preferred and the upper of two equally near
ones.  There is only one, `IsNearest.unique`.  That the search finds it is one invariant: no good
pitch is nearer than the offset it has come to, `searchOutward_isNearest`.  Idempotence and
invariance under octaves follow from the description alone.
-/

namespace NoteTape
namespace Tape

variable {good : Int → Prop} {classes pitches : List Int} {pitch q r : Int}

/-! ## The nearest of the good pitches -/

/-- A good pitch that is nearer than all others, or as near and above them. -/
structure IsNearest (good : Int → Prop) (pitch q : Int) : Prop where
  isGood : good q
  preferred : ∀ r, good r →
    distance q pitch < distance r pitch ∨ distance q pitch = distance r pitch ∧ r ≤ q

namespace IsNearest

/-- **There is one nearest pitch.** -/
theorem unique (hq : IsNearest good pitch q) (hr : IsNearest good pitch r) : q = r := by
  have hqr := hq.preferred r hr.isGood
  have hrq := hr.preferred q hq.isGood
  omega

/-- A good pitch is nearest to itself. -/
theorem of_good (h : good pitch) : IsNearest good pitch pitch := by
  refine ⟨h, fun r _ => ?_⟩
  rw [distance, distance]
  omega

/-- No good pitch is nearer. -/
theorem distance_le (h : IsNearest good pitch q) (hr : good r) :
    distance q pitch ≤ distance r pitch := by
  have hpreferred := h.preferred r hr
  omega

/-- Pitches can be moved together when this keeps them good or not good. -/
theorem add (h : IsNearest good pitch q) {interval : Int}
    (hgood : ∀ r, good (r + interval) ↔ good r) :
    IsNearest good (pitch + interval) (q + interval) := by
  refine ⟨(hgood q).mpr h.isGood, fun r hr => ?_⟩
  have hmoved : good (r - interval) := by
    rwa [← hgood, Int.sub_add_cancel]
  have hpreferred := h.preferred (r - interval) hmoved
  simp only [distance] at hpreferred ⊢
  omega

end IsNearest

/-! ## Pitch classes -/

/-- The pitch has the class of one of some integers. -/
def SharesClass (pitches : List Int) (q : Int) : Prop := ∃ p ∈ pitches, q % 12 = p % 12

theorem isAllowed_iff : isAllowed classes q = true ↔ q % 12 ∈ classes := by
  rw [isAllowed, List.contains_iff_mem, Int.fmod_eq_emod_of_nonneg _ (by decide)]

theorem isAllowed_classesOf_iff :
    isAllowed (classesOf pitches) q = true ↔ SharesClass pitches q := by
  rw [isAllowed_iff, classesOf, List.mem_map, SharesClass]
  simp only [Int.fmod_eq_emod_of_nonneg _ (show (0 : Int) ≤ 12 by decide), eq_comm]

/-- A pitch keeps its class from octave to octave. -/
theorem sharesClass_add_octaves (pitches : List Int) (q k : Int) :
    SharesClass pitches (q + 12 * k) ↔ SharesClass pitches q := by
  rw [SharesClass, SharesClass, Int.add_mul_emod_self_left]

/-- **A class is met within half an octave,** going up or going down. -/
theorem exists_offset (hne : pitches ≠ []) (pitch : Int) :
    ∃ offset ∈ List.range 7,
      SharesClass pitches (pitch + offset) ∨ SharesClass pitches (pitch - offset) := by
  obtain ⟨p, hp⟩ := List.exists_mem_of_ne_nil pitches hne
  -- the way up to the class, and the way down is the rest of an octave
  have hup : (pitch + (p - pitch) % 12) % 12 = p % 12 := by omega
  have hdown : (pitch - (12 - (p - pitch) % 12)) % 12 = p % 12 := by omega
  by_cases h : (p - pitch) % 12 ≤ 6
  · refine ⟨((p - pitch) % 12).toNat, List.mem_range.mpr (by omega), .inl ⟨p, hp, ?_⟩⟩
    rw [Int.toNat_of_nonneg (by omega), hup]
  · refine ⟨(12 - (p - pitch) % 12).toNat, List.mem_range.mpr (by omega), .inr ⟨p, hp, ?_⟩⟩
    rw [Int.toNat_of_nonneg (by omega), hdown]

/-! ## The search -/

/-- The two pitches at a distance. -/
theorem eq_of_distance_eq {offset : Nat} (h : distance r pitch = offset) :
    r = pitch + offset ∨ r = pitch - offset := by
  rw [distance] at h
  omega

/-- **The search finds the nearest pitch.**  It goes on with an offset when no allowed pitch is
nearer than that, and it ends with one that it meets. -/
theorem searchOutward_isNearest (count start : Nat)
    (hstart : ∀ r, isAllowed classes r = true → start ≤ distance r pitch)
    (hmet : ∃ offset ∈ List.range' start count,
      isAllowed classes (pitch + offset) = true ∨ isAllowed classes (pitch - offset) = true) :
    IsNearest (isAllowed classes · = true) pitch
      (searchOutward classes pitch (List.range' start count)) := by
  induction count generalizing start with
  | zero =>
    obtain ⟨offset, hoffset, -⟩ := hmet
    exact absurd hoffset List.not_mem_nil
  | succ count ih =>
    rw [List.range'_succ, searchOutward]
    by_cases hup : isAllowed classes (pitch + start) = true
    · rw [if_pos hup]
      refine ⟨hup, fun r hr => ?_⟩
      have hle := hstart r hr
      rw [distance] at hle ⊢
      rw [distance]
      omega
    · rw [if_neg hup]
      by_cases hdown : isAllowed classes (pitch - start) = true
      · rw [if_pos hdown]
        refine ⟨hdown, fun r hr => ?_⟩
        have hle := hstart r hr
        have hne : r ≠ pitch + start := by
          rintro rfl
          exact hup hr
        rw [distance] at hle ⊢
        rw [distance]
        omega
      · rw [if_neg hdown]
        refine ih (start + 1) (fun r hr => ?_) ?_
        · have hle := hstart r hr
          refine Nat.lt_of_le_of_ne hle fun heq => ?_
          rcases eq_of_distance_eq heq.symm with rfl | rfl
          · exact hup hr
          · exact hdown hr
        · obtain ⟨offset, hoffset, hallowed⟩ := hmet
          rw [List.range'_succ] at hoffset
          rcases List.mem_cons.mp hoffset with rfl | hoffset
          · rcases hallowed with hallowed | hallowed
            · exact absurd hallowed hup
            · exact absurd hallowed hdown
          · exact ⟨offset, hoffset, hallowed⟩

/-- What is found among the classes of some integers. -/
theorem nearestPitch_isNearest (hne : pitches ≠ []) (pitch : Int) :
    IsNearest (SharesClass pitches) pitch (nearestPitch (classesOf pitches) pitch) := by
  have hfound : IsNearest (isAllowed (classesOf pitches) · = true) pitch
      (nearestPitch (classesOf pitches) pitch) := by
    rw [nearestPitch, List.range_eq_range']
    refine searchOutward_isNearest 7 0 (fun _ _ => Nat.zero_le _) ?_
    simpa only [isAllowed_classesOf_iff, ← List.range_eq_range'] using exists_offset hne pitch
  simpa only [isAllowed_classesOf_iff] using hfound

theorem snapPitch_eq_ok (hne : pitches ≠ []) (pitch : Int) :
    snapPitch pitch pitches = .ok (nearestPitch (classesOf pitches) pitch) := by
  rw [snapPitch, if_neg (by rwa [List.isEmpty_iff])]

/-- What is nearest is what snapping gives. -/
theorem IsNearest.snapPitch_eq (h : IsNearest (SharesClass pitches) pitch q) :
    snapPitch pitch pitches = .ok q := by
  have hne : pitches ≠ [] := by
    obtain ⟨p, hp, -⟩ := h.isGood
    exact List.ne_nil_of_mem hp
  rw [snapPitch_eq_ok hne, (nearestPitch_isNearest hne pitch).unique h]

/-- **Snapping gives the nearest pitch** of the classes of any integers, the upper one of two.  It
is at most half an octave away and so it is met by the search.  It is snapped to itself, and octaves
below and above it is the same. -/
theorem snapPitch_nearest (hne : pitches ≠ []) (pitch : Int) :
    ∃ q, snapPitch pitch pitches = .ok q ∧ IsNearest (SharesClass pitches) pitch q ∧
      (∀ r, IsNearest (SharesClass pitches) pitch r → r = q) ∧ distance q pitch ≤ 6 ∧
      (∃ offset ∈ List.range 7, isAllowed (classesOf pitches) (pitch + offset) = true ∨
        isAllowed (classesOf pitches) (pitch - offset) = true) ∧
      snapPitch q pitches = .ok q ∧
      ∀ k, snapPitch (pitch + 12 * k) pitches = .ok (q + 12 * k) := by
  have hnearest := nearestPitch_isNearest hne pitch
  have hmet := exists_offset hne pitch
  refine ⟨nearestPitch (classesOf pitches) pitch, snapPitch_eq_ok hne pitch, hnearest,
    fun r hr => hr.unique hnearest, ?_, ?_, ?_, fun k => ?_⟩
  · obtain ⟨offset, hoffset, hup | hdown⟩ := hmet
    · have hle := hnearest.distance_le hup
      rw [List.mem_range] at hoffset
      simp only [distance] at hle ⊢
      omega
    · have hle := hnearest.distance_le hdown
      rw [List.mem_range] at hoffset
      simp only [distance] at hle ⊢
      omega
  · simpa only [isAllowed_classesOf_iff] using hmet
  · exact (IsNearest.of_good hnearest.isGood).snapPitch_eq
  · exact (hnearest.add fun r => sharesClass_add_octaves pitches r k).snapPitch_eq

/-- Two classes on both sides of a pitch, written with a negative integer and with one above an
octave. -/
theorem snapPitch_nearest_tie :
    ([-1, 37] : List Int) ≠ [] ∧ snapPitch 60 [-1, 37] = .ok 61 ∧
      IsNearest (SharesClass [-1, 37]) 60 61 ∧ SharesClass [-1, 37] 59 ∧
      ∀ k, snapPitch (60 + 12 * k) [-1, 37] = .ok (61 + 12 * k) := by
  have hne : ([-1, 37] : List Int) ≠ [] := by decide
  obtain ⟨q, hq, hnearest, -, -, -, -, hoctaves⟩ := snapPitch_nearest hne 60
  have hvalue : snapPitch 60 [-1, 37] = .ok 61 := rfl
  obtain rfl := Except.ok.inj (hq.symm.trans hvalue)
  exact ⟨hne, hvalue, hnearest, ⟨-1, by decide, by decide⟩, hoctaves⟩

end Tape
end NoteTape
