import NoteTape.Melody.Generator
import NoteTape.Proofs.Pattern.Tape
import NoteTape.Proofs.Pitch.Scale

/-!
# The range of a melody

The degrees of a melody lie in the two octaves from the tonic up.  Its line has such degrees from
the beginning, and each pass keeps them there:

* `returns_degrees`: a contour is a line of two octaves, `IsBounded`, whatever its shape;
* `returns_leap`: a degree that leaps is moved back into two octaves;
* `IsBounded.keepInRange`: a range around the average reaches down to the average or below and up
  to it or above, and the average is in two octaves itself;
* `returns_holdBack`: a degree that repeats another is one of the line;
* `returns_consonate`: a chord tone of the first octave is put into the octave of its degree.

Every pass keeps the number of degrees as well.  Put together, the line of a melody is a line of
two octaves, `Melody.returns_line`, whatever its settings and whatever is drawn.
-/

namespace NoteTape

open Play (Returns Settles Traced)

namespace Contour

/-- A degree of the two octaves from the tonic up. -/
def InTwoOctaves (size : Nat) (degree : Int) : Prop := 1 ≤ degree ∧ degree ≤ size * 2

/-- A line of so many degrees, all of them in two octaves. -/
structure IsBounded (size length : Nat) (line : List Int) : Prop where
  length_eq : line.length = length
  bounded : ∀ degree ∈ line, InTwoOctaves size degree

variable {size length : Nat} {line : List Int}

/-! ## Shapes -/

theorem withinTwoOctaves_mem (hsize : 0 < size) (degree : Int) :
    InTwoOctaves size (withinTwoOctaves size degree) := by
  unfold InTwoOctaves withinTwoOctaves
  omega

theorem rise_mem (hsize : 0 < size) (count : Nat) :
    ∀ degree ∈ rise size count, InTwoOctaves size degree := by
  intro degree hdegree
  obtain ⟨i, hi, rfl⟩ := List.mem_map.mp hdegree
  have hlt : i * size / count < size :=
    Nat.div_lt_of_lt_mul (Nat.mul_lt_mul_of_pos_right (List.mem_range.mp hi) hsize)
  unfold InTwoOctaves
  generalize i * size / count = step at hlt ⊢
  omega

theorem fall_mem (hsize : 0 < size) (count : Nat) :
    ∀ degree ∈ fall size count, InTwoOctaves size degree := by
  intro degree hdegree
  obtain ⟨i, hi, rfl⟩ := List.mem_map.mp hdegree
  have hlt : i * size / count < size :=
    Nat.div_lt_of_lt_mul (Nat.mul_lt_mul_of_pos_right (List.mem_range.mp hi) hsize)
  unfold InTwoOctaves
  generalize i * size / count = step at hlt ⊢
  omega

theorem length_rise (size count : Nat) : (rise size count).length = count := by
  rw [rise, List.length_map, List.length_range]

theorem length_fall (size count : Nat) : (fall size count).length = count := by
  rw [fall, List.length_map, List.length_range]

theorem inTwoOctaves_one (hsize : 0 < size) : InTwoOctaves size 1 := by
  unfold InTwoOctaves
  omega

/-- **A contour is a line of two octaves.** -/
theorem returns_degrees (contour : Contour) (hsize : 0 < size) (hlength : 0 < length) :
    Returns (contour.degrees length size) (IsBounded size length) := by
  have hhalf : length / 2 + (length - length / 2) = length := by omega
  cases contour with
  | ascending => exact .pure ⟨length_rise size length, rise_mem hsize length⟩
  | descending => exact .pure ⟨length_fall size length, fall_mem hsize length⟩
  | arch =>
    refine .pure ⟨?_, List.forall_mem_append.mpr ⟨rise_mem hsize _, fall_mem hsize _⟩⟩
    rw [List.length_append, length_rise, length_fall, hhalf]
  | valley =>
    refine .pure ⟨?_, List.forall_mem_append.mpr ⟨fall_mem hsize _, rise_mem hsize _⟩⟩
    rw [List.length_append, length_rise, length_fall, hhalf]
  | walk =>
    have hwalk : Returns (Play.trace (fun previous _ => walkStep size previous) 1
        (List.range (length - 1))) (Traced (fun _ _ degree => InTwoOctaves size degree) 1
          (List.range (length - 1))) :=
      .traced (fun previous _ _ => (Settles.any _).bind fun step _ =>
        .pure (withinTwoOctaves_mem hsize _)) 1
    refine hwalk.mono (fun line hline => ⟨?_, ?_⟩) fun _ h => h
    · rw [hline.length_eq, List.length_range]
      omega
    · exact hline.all (inTwoOctaves_one hsize) fun _ _ _ _ _ hdegree => hdegree

/-! ## Leaps -/

theorem IsBounded.exists_cons (h : IsBounded size length line) (hlength : 0 < length) :
    ∃ first rest, line = first :: rest :=
  List.exists_cons_of_length_pos (h.length_eq ▸ hlength)

/-- A line whose degrees are those of another or are in two octaves. -/
theorem IsBounded.traced {next : Int → Int → Int → Prop} {first : Int} {rest results : List Int}
    (h : IsBounded size length (first :: rest)) {start : Int} (hstart : InTwoOctaves size start)
    (hnext : ∀ previous item result, InTwoOctaves size previous → InTwoOctaves size item →
      next previous item result → InTwoOctaves size result)
    (hresults : Traced next start rest results) : IsBounded size length results := by
  refine ⟨hresults.length_eq.trans h.length_eq, hresults.all hstart ?_⟩
  intro previous hprevious item hitem result hresult
  exact hnext previous item result hprevious (h.bounded item (List.mem_cons_of_mem _ hitem)) hresult

/-- **Leaps stay in two octaves.** -/
theorem returns_leap (hsize : 0 < size) (hlength : 0 < length) (probability : Quantity)
    (h : IsBounded size length line) :
    Returns (leap size probability line) (IsBounded size length) := by
  have hstep (previous degree : Int) : Returns (leapStep size probability previous degree)
      fun result => InTwoOctaves size result ∨ result = degree := by
    refine (Settles.any _).bind fun happened _ => ?_
    split
    · exact (Settles.any _).bind fun width _ => (Settles.any _).bind fun direction _ =>
        .pure (.inl (withinTwoOctaves_mem hsize _))
    · exact .pure (.inr rfl)
  obtain ⟨first, rest, rfl⟩ := h.exists_cons hlength
  refine (Settles.traced (fun previous degree _ => hstep previous degree) 1).mono
    (fun results hresults => ?_) fun _ hfault => hfault
  refine h.traced (inTwoOctaves_one hsize) (fun _ degree result _ hdegree hresult => ?_) hresults
  rcases hresult with hresult | rfl
  · exact hresult
  · exact hdegree

/-! ## The range around the average -/

theorem foldl_add_mem {low high : Int} (h : ∀ degree ∈ line, low ≤ degree ∧ degree ≤ high)
    (sum : Int) :
    sum + line.length * low ≤ line.foldl (· + ·) sum ∧
      line.foldl (· + ·) sum ≤ sum + line.length * high := by
  induction line generalizing sum with
  | nil => simp
  | cons degree line ih =>
    obtain ⟨hdegree, hline⟩ := List.forall_mem_cons.mp h
    have hsum := ih hline (sum + degree)
    rw [List.foldl_cons, List.length_cons]
    push_cast
    rw [Int.add_mul, Int.add_mul]
    omega

/-- The average lies between the least and the greatest degree. -/
theorem average_mem {low high : Int} (hne : line ≠ [])
    (h : ∀ degree ∈ line, low ≤ degree ∧ degree ≤ high) :
    low ≤ average line ∧ average line ≤ high := by
  have hpos : (0 : Int) < line.length := Int.natCast_pos.mpr (List.length_pos_iff.mpr hne)
  have hsum := foldl_add_mem h 0
  rw [average, Int.fdiv_eq_ediv_of_nonneg _ (Int.le_of_lt hpos)]
  constructor
  · rw [Int.le_ediv_iff_mul_le hpos, Int.mul_comm]
    omega
  · refine Int.ediv_le_of_le_mul hpos ?_
    rw [Int.mul_comm]
    omega

/-- **A range around the average stays in two octaves.** -/
theorem IsBounded.keepInRange {low high : Int} (hlow : low ≤ 0) (hhigh : 0 ≤ high)
    (hlength : 0 < length) (h : IsBounded size length line) :
    IsBounded size length (keepInRange low high line) := by
  have hne : line ≠ [] := List.length_pos_iff.mp (by rw [h.length_eq]; exact hlength)
  have haverage := average_mem hne h.bounded
  refine ⟨by rw [Contour.keepInRange, List.length_map, h.length_eq], fun degree hdegree => ?_⟩
  obtain ⟨before, hbefore, rfl⟩ := List.mem_map.mp hdegree
  have hbounded := h.bounded before hbefore
  unfold InTwoOctaves at hbounded ⊢
  omega

/-! ## Repetition -/

/-- **Degrees that are held back stay in two octaves.** -/
theorem returns_holdBack (probability : Quantity) (h : IsBounded size length line) :
    Returns (holdBack probability line) (IsBounded size length) := by
  have hstep (previous degree : Int) : Returns (holdStep probability previous degree)
      fun result => result = previous ∨ result = degree := by
    refine (Settles.any _).bind fun happened _ => ?_
    split
    · exact .pure (.inl rfl)
    · exact .pure (.inr rfl)
  cases line with
  | nil => exact .pure h
  | cons first rest =>
    refine (Settles.traced (fun previous degree _ => hstep previous degree) first).mono
      (fun results hresults => ?_) fun _ hfault => hfault
    refine h.traced (h.bounded first (List.mem_cons_self ..))
      (fun previous degree result hprevious hdegree hresult => ?_) hresults
    rcases hresult with rfl | rfl
    · exact hprevious
    · exact hdegree

/-! ## Consonance -/

theorem nearestTone_mem (step first : Int) (rest : List Int) :
    nearestTone step first rest ∈ first :: rest := by
  unfold nearestTone
  induction rest generalizing first with
  | nil => exact List.mem_singleton_self first
  | cons tone rest ih =>
    rw [List.foldl_cons]
    rcases List.mem_cons.mp (ih (if (step - tone).natAbs < (step - first).natAbs then tone else first))
      with heq | hmem
    · rw [heq]
      split
      · exact List.mem_cons_of_mem _ (List.mem_cons_self ..)
      · exact List.mem_cons_self ..
    · exact List.mem_cons_of_mem _ (List.mem_cons_of_mem _ hmem)

/-- A chord tone of the first octave, put into the octave of a degree. -/
theorem toChordTone_mem {first : Int} {rest : List Int} (hsize : 0 < size)
    (hchord : ∀ tone ∈ first :: rest, 1 ≤ tone ∧ tone ≤ size) {degree : Int}
    (h : InTwoOctaves size degree) : InTwoOctaves size (toChordTone size first rest degree) := by
  have htone := hchord _ (nearestTone_mem (Int.fmod (degree - 1) size + 1) first rest)
  obtain ⟨hlow, hhigh⟩ := h
  have hpos : (0 : Int) < size := Int.natCast_pos.mpr hsize
  unfold InTwoOctaves toChordTone
  rw [Int.fdiv_eq_ediv_of_nonneg _ (Int.natCast_nonneg _)]
  have hoctave : 0 ≤ (degree - 1) / (size : Int) := Int.ediv_nonneg (by omega) (by omega)
  have hoctave' : (degree - 1) / (size : Int) < 2 := Int.ediv_lt_of_lt_mul hpos (by omega)
  rcases (by omega : (degree - 1) / (size : Int) = 0 ∨ (degree - 1) / (size : Int) = 1) with heq | heq
  · rw [heq]
    omega
  · rw [heq]
    omega

/-- **Chord tones stay in two octaves.** -/
theorem returns_consonate {first : Int} {rest : List Int} (hsize : 0 < size)
    (hchord : ∀ tone ∈ first :: rest, 1 ≤ tone ∧ tone ≤ size) (probability : Quantity)
    (h : IsBounded size length line) :
    Returns (consonate size probability first rest line) (IsBounded size length) := by
  have hstep : ∀ degree ∈ line, Returns (do
      if ← Play.happens probability then return toChordTone size first rest degree
      else return degree) (InTwoOctaves size) := by
    intro degree hdegree
    refine (Settles.any _).bind fun happened _ => ?_
    split
    · exact .pure (toChordTone_mem hsize hchord (h.bounded degree hdegree))
    · exact .pure (h.bounded degree hdegree)
  refine (Settles.mapM hstep).mono (fun results hresults => ?_) fun _ _ => trivial
  exact ⟨hresults.length_eq.symm.trans h.length_eq,
    Play.forall_of_forall₂ hresults fun _ _ _ hresult => hresult⟩

end Contour

namespace Melody

open Contour (IsBounded)

/-- **The line of a melody is a line of two octaves.** -/
theorem returns_line {spec : MelodySpec} {contour : Contour} {size : Nat} {first : Int}
    {rest : List Int} (hsize : 0 < size) (hlength : 1 ≤ spec.length)
    (hchord : ∀ tone ∈ first :: rest, 1 ≤ tone ∧ tone ≤ size) (hlow : spec.low ≤ 0)
    (hhigh : 0 ≤ spec.high) :
    Returns (line spec contour size first rest) (IsBounded size spec.length.toNat) := by
  have hpos : 0 < spec.length.toNat := by omega
  exact (Contour.returns_degrees contour hsize hpos).bind fun degrees hdegrees =>
    (Settles.any _).bind fun leaps _ =>
      (Contour.returns_leap hsize hpos leaps hdegrees).bind fun leapt hleapt =>
        (Settles.any _).bind fun repetition _ =>
          (Contour.returns_holdBack repetition (hleapt.keepInRange hlow hhigh hpos)).bind
            fun held hheld => (Settles.any _).bind fun consonance _ =>
              Contour.returns_consonate hsize hchord consonance hheld

end Melody
end NoteTape
