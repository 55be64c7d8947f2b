import NoteTape.Proofs.Pitch.Nearest
import NoteTape.Proofs.Tape.Pass

/-!
# Intervals above a base note

Notes are snapped to some intervals above a base note in a different way than to pitch classes.
There is no search: all candidates within eleven octaves of the base note are listed and the one
that is preferred to the others is kept, `nearestCandidate_isNearest`.  The candidates have the
pitch classes of the intervals, but there are finitely many of them, and a note can be out of their
reach.

A note is `InReach` when it is within eleven octaves of every interval.  Then the nearest pitch of
the classes is a candidate: from a pitch further out, the one an octave closer to the base note
would be preferred, `mem_candidates_of_isNearest`.  So listing and searching come to the same,
`snapAbove_eq_snapPitch`, and only the pitch classes of the intervals count.
-/

namespace NoteTape
namespace Tape

open Text (words)

variable {base pitch q first : Int} {intervals more rest : List Int}

/-! ## The nearest of a list -/

theorem nearer_isNearest (pitch a b : Int) :
    IsNearest (fun r => r = a ∨ r = b) pitch (nearer pitch a b) := by
  rw [nearer]
  split
  next hb =>
    refine ⟨.inr rfl, ?_⟩
    rintro r (rfl | rfl)
    · omega
    · omega
  next ha =>
    refine ⟨.inl rfl, ?_⟩
    rintro r (rfl | rfl)
    · omega
    · omega

/-- **The candidate that is kept is preferred to all others.**  What has been kept so far stands for
all that came before. -/
theorem nearestCandidate_isNearest (pitch first : Int) (rest : List Int) :
    IsNearest (· ∈ first :: rest) pitch (nearestCandidate pitch first rest) := by
  induction rest generalizing first with
  | nil =>
    refine ⟨List.mem_singleton_self first, fun r hr => ?_⟩
    obtain rfl := List.mem_singleton.mp hr
    exact .inr ⟨rfl, Int.le_refl _⟩
  | cons second rest ih =>
    have hkept := nearer_isNearest pitch first second
    have hfound : IsNearest (· ∈ nearer pitch first second :: rest) pitch
        (nearestCandidate pitch first (second :: rest)) :=
      ih (nearer pitch first second)
    have hover := hfound.preferred _ (List.mem_cons_self ..)
    constructor
    · rcases List.mem_cons.mp hfound.isGood with heq | hmem
      · rw [heq]
        rcases hkept.isGood with hfirst | hsecond
        · rw [hfirst]
          exact List.mem_cons_self ..
        · rw [hsecond]
          exact List.mem_cons_of_mem _ (List.mem_cons_self ..)
      · exact List.mem_cons_of_mem _ (List.mem_cons_of_mem _ hmem)
    · intro r hr
      simp only [List.mem_cons] at hr
      rcases hr with hfirst | hsecond | hmem
      · have hbehind := hkept.preferred r (.inl hfirst)
        omega
      · have hbehind := hkept.preferred r (.inr hsecond)
        omega
      · exact hfound.preferred r (List.mem_cons_of_mem _ hmem)

/-! ## The candidates -/

theorem mem_octaves_iff {k : Int} : k ∈ octaves ↔ -11 ≤ k ∧ k ≤ 11 := by
  simp only [octaves, List.mem_map, List.mem_range]
  constructor
  · rintro ⟨i, hi, rfl⟩
    omega
  · intro hk
    exact ⟨(k + 11).toNat, by omega, by omega⟩

/-- The candidates are those octaves of the intervals that are looked at. -/
theorem mem_candidates_iff :
    q ∈ candidates base intervals ↔
      ∃ i ∈ intervals, ∃ k, (-11 ≤ k ∧ k ≤ 11) ∧ q = base + i + 12 * k := by
  simp only [candidates, List.mem_flatMap, List.mem_map, mem_octaves_iff, eq_comm]

theorem candidates_ne_nil (hne : intervals ≠ []) : candidates base intervals ≠ [] := by
  obtain ⟨i, hi⟩ := List.exists_mem_of_ne_nil intervals hne
  exact List.ne_nil_of_mem (mem_candidates_iff.mpr ⟨i, hi, 0, by omega, rfl⟩)

/-- The classes of the intervals above the base note. -/
def classesAbove (base : Int) (intervals : List Int) : List Int :=
  classesOf (intervals.map (base + ·))

theorem classesAbove_ne_nil (hne : intervals ≠ []) : classesAbove base intervals ≠ [] := by
  rw [classesAbove, classesOf]
  simpa using hne

theorem sharesClass_classesAbove_iff :
    SharesClass (classesAbove base intervals) q ↔ ∃ i ∈ intervals, q % 12 = (base + i) % 12 := by
  simp only [SharesClass, classesAbove, classesOf, List.map_map, List.mem_map,
    exists_exists_and_eq_and, Function.comp_apply,
    Int.fmod_eq_emod_of_nonneg _ (show (0 : Int) ≤ 12 by decide), Int.emod_emod]

/-- Every candidate has the class of its interval. -/
theorem sharesClass_of_mem_candidates (h : q ∈ candidates base intervals) :
    SharesClass (classesAbove base intervals) q := by
  obtain ⟨i, hi, k, -, rfl⟩ := mem_candidates_iff.mp h
  exact sharesClass_classesAbove_iff.mpr ⟨i, hi, by omega⟩

/-! ## Notes within reach -/

/-- The pitch is within eleven octaves of each interval above the base note. -/
def InReach (base : Int) (intervals : List Int) (pitch : Int) : Prop :=
  ∀ i ∈ intervals, distance pitch (base + i) ≤ 132

/-- **The nearest pitch is among the candidates** for a note within their reach. -/
theorem mem_candidates_of_isNearest (hreach : InReach base intervals pitch)
    (h : IsNearest (SharesClass (classesAbove base intervals)) pitch q) :
    q ∈ candidates base intervals := by
  obtain ⟨i, hi, hclass⟩ := sharesClass_classesAbove_iff.mp h.isGood
  have hpitch := hreach i hi
  -- an octave up or down from it there is a good pitch as well
  have hdown := h.preferred (q + 12 * -1) ((sharesClass_add_octaves _ q _).mpr h.isGood)
  have hup := h.preferred (q + 12 * 1) ((sharesClass_add_octaves _ q _).mpr h.isGood)
  refine mem_candidates_iff.mpr ⟨i, hi, (q - (base + i)) / 12, ?_, by omega⟩
  simp only [distance] at hpitch hdown hup
  omega

/-- So what is nearest among the candidates is what is nearest among all pitches of the classes. -/
theorem nearestCandidate_eq (hreach : InReach base intervals pitch)
    (hcandidates : candidates base intervals = first :: rest)
    (h : IsNearest (SharesClass (classesAbove base intervals)) pitch q) :
    nearestCandidate pitch first rest = q := by
  have hfound := nearestCandidate_isNearest pitch first rest
  rw [← hcandidates] at hfound
  refine hfound.unique ⟨mem_candidates_of_isNearest hreach h, fun r hr => ?_⟩
  exact h.preferred r (sharesClass_of_mem_candidates hr)

/-! ## Snapping -/

/-- The pitch that a note is moved to, among the candidates. -/
def snapAbove (base : Int) (intervals : List Int) (pitch : Int) : Except Fault Int :=
  match candidates base intervals with
  | [] => .error .noIntervals
  | first :: rest => .ok (nearestCandidate pitch first rest)

theorem snapToIntervals_eq (hne : intervals ≠ []) (base : Int) (pattern : String) :
    snapToIntervals pattern base intervals = mapIntegers (snapAbove base intervals) pattern := by
  have hcandidates : candidates base intervals ≠ [] := candidates_ne_nil hne
  unfold snapToIntervals snapAbove
  cases h : candidates base intervals with
  | nil => exact absurd h hcandidates
  | cons first rest => rfl

/-- A note within reach is moved to the nearest pitch of the classes. -/
theorem snapAbove_eq_ok (hreach : InReach base intervals pitch)
    (h : IsNearest (SharesClass (classesAbove base intervals)) pitch q) :
    snapAbove base intervals pitch = .ok q := by
  have hmem := mem_candidates_of_isNearest hreach h
  unfold snapAbove
  cases hcandidates : candidates base intervals with
  | nil =>
    rw [hcandidates] at hmem
    exact absurd hmem List.not_mem_nil
  | cons first rest => exact congrArg _ (nearestCandidate_eq hreach hcandidates h)

/-- Octaves of the intervals have their classes. -/
theorem sharesClass_append_octaves (hmore : ∀ j ∈ more, ∃ i ∈ intervals, ∃ k, j = i + 12 * k) :
    SharesClass (classesAbove base (intervals ++ more)) =
      SharesClass (classesAbove base intervals) := by
  funext q
  rw [eq_iff_iff, sharesClass_classesAbove_iff, sharesClass_classesAbove_iff]
  constructor
  · rintro ⟨i, hi, hclass⟩
    rcases List.mem_append.mp hi with hi | hi
    · exact ⟨i, hi, hclass⟩
    · obtain ⟨j, hj, k, rfl⟩ := hmore i hi
      exact ⟨j, hj, by omega⟩
  · rintro ⟨i, hi, hclass⟩
    exact ⟨i, List.mem_append_left _ hi, hclass⟩

/-! ## Patterns -/

/-- The integers on the tape of a pattern, as it is compiled at a desk, are within reach. -/
def TapeInReach (base : Int) (intervals : List Int) (pattern : String) (desk : Desk) : Prop :=
  ∀ tape after, (Pattern.compile .standard pattern).outcome desk = (.ok tape, after) →
    ∀ element ∈ words tape, ∀ n, integer? element = some n → InReach base intervals n

/-- **Listing and searching agree.**  A pattern is snapped to some intervals above a base note by
moving each of its notes to the candidate that is preferred.  For a note within eleven octaves of
every interval this is the nearest pitch of their classes, as the search finds it.  So a pattern of
such notes is snapped like this, whatever else there is on its tape, draws and faults included, and
intervals that repeat others octaves away change nothing. -/
theorem snapAbove_eq_snapPitch (hne : intervals ≠ []) (base : Int) :
    (∀ pattern, snapToIntervals pattern base intervals =
      mapIntegers (snapAbove base intervals) pattern) ∧
    (∀ pitch, InReach base intervals pitch → ∃ q,
      snapAbove base intervals pitch = .ok q ∧
      snapPitch pitch (classesAbove base intervals) = .ok q ∧
      IsNearest (SharesClass (classesAbove base intervals)) pitch q) ∧
    (∀ pattern desk, TapeInReach base intervals pattern desk →
      (snapToIntervals pattern base intervals).outcome desk =
        (mapIntegers (snapPitch · (classesAbove base intervals)) pattern).outcome desk) ∧
    ∀ more, (∀ j ∈ more, ∃ i ∈ intervals, ∃ k, j = i + 12 * k) →
      (∀ pitch, InReach base (intervals ++ more) pitch →
        snapAbove base (intervals ++ more) pitch = snapAbove base intervals pitch) ∧
      ∀ pattern desk, TapeInReach base (intervals ++ more) pattern desk →
        (snapToIntervals pattern base (intervals ++ more)).outcome desk =
          (snapToIntervals pattern base intervals).outcome desk := by
  have hclasses : classesAbove base intervals ≠ [] := classesAbove_ne_nil hne
  have hnearest (pitch : Int) := nearestPitch_isNearest hclasses pitch
  have hsnap : ∀ pitch, InReach base intervals pitch →
      snapAbove base intervals pitch = snapPitch pitch (classesAbove base intervals) := by
    intro pitch hreach
    rw [snapAbove_eq_ok hreach (hnearest pitch), snapPitch_eq_ok hclasses]
  refine ⟨snapToIntervals_eq hne base, fun pitch hreach => ?_, fun pattern desk hreach => ?_,
    fun more hmore => ?_⟩
  · exact ⟨_, snapAbove_eq_ok hreach (hnearest pitch), snapPitch_eq_ok hclasses pitch,
      hnearest pitch⟩
  · rw [snapToIntervals_eq hne]
    refine outcome_mapIntegers_congr fun tape after hcompile element helement n hn => ?_
    exact hsnap n (hreach tape after hcompile element helement n hn)
  · have hadded : ∀ pitch, InReach base (intervals ++ more) pitch →
        snapAbove base (intervals ++ more) pitch = snapAbove base intervals pitch := by
      intro pitch hreach
      have hfewer : InReach base intervals pitch :=
        fun i hi => hreach i (List.mem_append_left _ hi)
      rw [snapAbove_eq_ok hfewer (hnearest pitch)]
      refine snapAbove_eq_ok hreach ?_
      rw [sharesClass_append_octaves hmore]
      exact hnearest pitch
    refine ⟨hadded, fun pattern desk hreach => ?_⟩
    rw [snapToIntervals_eq (List.append_ne_nil_of_left_ne_nil hne more), snapToIntervals_eq hne]
    refine outcome_mapIntegers_congr fun tape after hcompile element helement n hn => ?_
    exact hadded n (hreach tape after hcompile element helement n hn)

/-- Notes half an octave from the base note and its octaves, one of them near the lowest candidate.
The interval an octave below has the same class. -/
theorem snapAbove_eq_snapPitch_tritone :
    ([0] : List Int) ≠ [] ∧ InReach 60 [0] (-66) ∧ snapAbove 60 [0] (-66) = .ok (-60) ∧
      snapPitch (-66) (classesAbove 60 [0]) = .ok (-60) ∧
      ((snapToIntervals "-66 - 66" 60 [0, -12]).outcome ⟨.script ⟨#[], 0⟩, #[]⟩).1 =
        .ok "-60 - 72" := by
  have hne : ([0] : List Int) ≠ [] := by decide
  have hreach : InReach 60 [0] (-66) := by
    rw [InReach]
    decide
  obtain ⟨-, hpitch, hpattern, hmore⟩ := snapAbove_eq_snapPitch hne 60
  obtain ⟨q, hq, hsnapped, -⟩ := hpitch (-66) hreach
  have hvalue : snapPitch (-66) (classesAbove 60 [0]) = .ok (-60) := rfl
  obtain rfl := Except.ok.inj (hsnapped.symm.trans hvalue)
  have hcompile : (Pattern.compile .standard "-66 - 66").outcome ⟨.script ⟨#[], 0⟩, #[]⟩ =
      (.ok "-66 - 66", ⟨.script ⟨#[], 0⟩, #[]⟩) := by
    decide +kernel
  have htape : ∀ intervals : List Int, (∀ i ∈ intervals, -12 ≤ i ∧ i ≤ 0) →
      TapeInReach 60 intervals "-66 - 66" ⟨.script ⟨#[], 0⟩, #[]⟩ := by
    intro intervals hintervals tape after hafter element helement n hn i hi
    obtain rfl := Except.ok.inj (congrArg Prod.fst (hcompile.symm.trans hafter))
    have hnotes : n = -66 ∨ n = 66 := by
      have hall : ∀ e ∈ words "-66 - 66", integer? e ∈ [none, some (-66), some 66] := by
        decide +kernel
      simpa [hn] using hall element helement
    have hwithin := hintervals i hi
    rw [distance]
    omega
  refine ⟨hne, hreach, hq, hvalue, ?_⟩
  have hoctave : ∀ j ∈ ([-12] : List Int), ∃ i ∈ ([0] : List Int), ∃ k, j = i + 12 * k := by
    intro j hj
    obtain rfl := List.mem_singleton.mp hj
    exact ⟨0, List.mem_singleton_self 0, -1, rfl⟩
  have hadded := (hmore [-12] hoctave).2 "-66 - 66" ⟨.script ⟨#[], 0⟩, #[]⟩
    (htape ([0] ++ [-12]) (by decide))
  rw [show ([0, -12] : List Int) = [0] ++ [-12] from rfl, hadded,
    hpattern "-66 - 66" _ (htape [0] (by decide))]
  decide +kernel

end Tape
end NoteTape
