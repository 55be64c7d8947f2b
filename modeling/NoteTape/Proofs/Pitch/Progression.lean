import NoteTape.Pitch.Progression
import NoteTape.Proofs.Pitch.Chord
import NoteTape.Proofs.Pitch.Snap
import NoteTape.Proofs.Rhythm.Place

/-!
# Notes over a progression

Two divisions are at work when a tape is put over a progression.  A pitch is divided into its octave
and its class, and the class is moved up to the next one that is permitted, around the octave if need
be, `IsMoved`.  So the note can fall, but it stays in its octave, and it stays itself exactly when its
class is permitted.

The tape is divided among the chords.  Each chord gets as many elements as the quotient of the two
lengths rounded up, the last ones fewer or none.  Taken together this is one chord for each element:
the tape is paired with a list in which every chord is repeated as often as it has a share,
`constrain_eq`.  A place has the chord at its quotient by the share, and the list is long enough for
every place, `IsMovedTape`.

A note that is moved to one with too many digits has no result, `constrain_nines`.  The quotient is a
floating-point number, which is why the lengths are bounded: with an element more than a mantissa can
count the last one is lost, `exists_constrain_rests`, and over enough chords the quotient vanishes and
everything is, `constrain_vanishing`.  No memory holds sequences of these lengths.
-/

namespace NoteTape
namespace Progression

open Binary64 (rounded)
open Text (unwords words)

variable {root pitch q r : Int} {intervals : List Int}

/-! ## The next permitted class -/

/-- The pitch has the class of one of the intervals above a root. -/
def IsPermitted (root : Int) (intervals : List Int) (pitch : Int) : Prop :=
  ∃ interval ∈ intervals, pitch % 12 = (root + interval) % 12

/-- A pitch is moved within its octave to the permitted class that is reached first going up from it,
around the octave if need be. -/
structure IsMoved (root : Int) (intervals : List Int) (pitch q : Int) : Prop where
  octave_eq : q / 12 = pitch / 12
  isPermitted : IsPermitted root intervals q
  first : ∀ r, IsPermitted root intervals r → (q - pitch) % 12 ≤ (r - pitch) % 12

theorem IsMoved.unique (h : IsMoved root intervals pitch q) (h' : IsMoved root intervals pitch r) :
    q = r := by
  have hle := h.first r h'.isPermitted
  have hge := h'.first q h.isPermitted
  have hoctave := h.octave_eq
  have hoctave' := h'.octave_eq
  omega

/-- **A pitch stays itself exactly when its class is permitted.** -/
theorem IsMoved.eq_iff (h : IsMoved root intervals pitch q) :
    q = pitch ↔ IsPermitted root intervals pitch := by
  constructor
  · rintro rfl
    exact h.isPermitted
  · intro hpitch
    have hfirst := h.first pitch hpitch
    have hoctave := h.octave_eq
    omega

theorem nextInterval_cons (place first second : Int) (rest : List Int) :
    nextInterval place first (second :: rest) =
      nextInterval place
        (if (second - place) % 12 < (first - place) % 12 then second else first) rest := by
  rw [nextInterval, List.foldl_cons]
  simp only [Int.fmod_eq_emod_of_nonneg _ (show (0 : Int) ≤ 12 by decide), nextInterval]

/-- The interval that is found is the first of all, counted upward from the place. -/
theorem nextInterval_first (place first : Int) (rest : List Int) :
    nextInterval place first rest ∈ first :: rest ∧
      ∀ interval ∈ first :: rest,
        (nextInterval place first rest - place) % 12 ≤ (interval - place) % 12 := by
  induction rest generalizing first with
  | nil =>
    refine ⟨List.mem_singleton_self first, fun interval hinterval => ?_⟩
    rw [List.mem_singleton.mp hinterval]
    exact Int.le_refl _
  | cons second rest ih =>
    simp only [nextInterval_cons, List.mem_cons, forall_eq_or_imp] at ih ⊢
    split
    next hlt =>
      obtain ⟨hmem, hle, hrest⟩ := ih second
      exact ⟨.inr hmem, by omega, hle, hrest⟩
    next hge =>
      obtain ⟨hmem, hle, hrest⟩ := ih first
      exact ⟨hmem.imp id .inr, hle, by omega, hrest⟩

/-- **A pitch is moved as described,** whatever the order of the intervals is. -/
theorem moved_isMoved (hne : intervals ≠ []) (root pitch : Int) :
    IsMoved root intervals pitch (moved root intervals pitch) := by
  obtain ⟨first, rest, rfl⟩ := List.exists_cons_of_ne_nil hne
  rw [moved]
  simp only [Int.fmod_eq_emod_of_nonneg _ (show (0 : Int) ≤ 12 by decide),
    Int.fdiv_eq_ediv_of_nonneg _ (show (0 : Int) ≤ 12 by decide)]
  obtain ⟨hmem, hfirst⟩ := nextInterval_first ((pitch % 12 - root) % 12) first rest
  generalize nextInterval ((pitch % 12 - root) % 12) first rest = next at hmem hfirst
  refine ⟨by omega, ⟨next, hmem, by omega⟩, ?_⟩
  rintro r ⟨interval, hinterval, hclass⟩
  have hle := hfirst interval hinterval
  omega

/-! ## One element -/

variable {element result : String}

theorem movedElement_eq (root : Int) (intervals : List Int) :
    movedElement root intervals = Tape.onInteger fun pitch => .ok (moved root intervals pitch) := by
  funext element
  rw [movedElement]
  cases h : integer? element with
  | none => rw [Tape.onInteger_of_none _ h]
  | some pitch => rw [Tape.onInteger_of_integer? _ h, Play.ok_bind]

theorem isWord_of_movedElement (helement : Text.IsWord element)
    (h : movedElement root intervals element = .ok result) : Text.IsWord result := by
  rw [movedElement_eq] at h
  rcases Tape.onInteger_ok_eq_ok_iff.mp h with ⟨-, rfl⟩ | ⟨pitch, -, hwritten⟩
  · exact helement
  · exact (isElement_of_decimal hwritten).isWord

/-- **What has been moved stays.** -/
theorem movedElement_again (hne : intervals ≠ [])
    (h : movedElement root intervals element = .ok result) :
    movedElement root intervals result = .ok result := by
  rw [movedElement_eq] at h ⊢
  rcases Tape.onInteger_ok_eq_ok_iff.mp h with ⟨hnone, rfl⟩ | ⟨pitch, -, hwritten⟩
  · exact Tape.onInteger_of_none _ hnone
  · have hmoved := moved_isMoved hne root pitch
    rw [Tape.onInteger_of_integer? _ (integer?_of_decimal hwritten), Play.ok_bind,
      (moved_isMoved hne root _).eq_iff.mpr hmoved.isPermitted, hwritten]

/-! ## Chords -/

/-- A chord: the pitch class of its root and its type. -/
abbrev Chord := Int × ChordType

variable {chord : Chord} {chords : List Chord} {symbols : List String} {tension : Quantity}

/-- The chord that a symbol is read as. -/
def reading (symbol : String) : Except Fault Chord := do
  let (root, type) ← ChordType.ofSymbol symbol
  let root ← NoteName.pitchClass root
  let type ← ChordType.named type
  return (root, type)

/-- The intervals that a chord permits. -/
def Chord.permitted (chord : Chord) (tension : Quantity) : List Int :=
  Progression.permitted chord.2 tension

theorem Chord.permitted_ne_nil {symbol : String} (h : reading symbol = .ok chord)
    (tension : Quantity) : chord.permitted tension ≠ [] := by
  have hall : ∀ type ∈ ChordType.all, type.intervals ≠ [] := by decide
  obtain ⟨⟨name, suffix⟩, -, h⟩ := Play.exists_of_bind_eq_ok h
  obtain ⟨root, -, h⟩ := Play.exists_of_bind_eq_ok h
  obtain ⟨type, htype, h⟩ := Play.exists_of_bind_eq_ok h
  obtain rfl := Except.ok.inj h
  have hmem := ChordType.mem_all_of_named htype
  rw [Chord.permitted, Progression.permitted]
  split
  · exact List.append_ne_nil_of_left_ne_nil (hall type hmem) _
  · exact hall type hmem

/-- An element moved over its chord. -/
def overOne (tension : Quantity) (pair : String × Chord) : Except Fault String :=
  movedElement pair.2.1 (pair.2.permitted tension) pair.1

theorem overChord_eq {symbol : String} (h : reading symbol = .ok chord) (tension : Quantity)
    (elements : List String) :
    overChord tension symbol elements =
      elements.mapM fun element => overOne tension (element, chord) := by
  obtain ⟨⟨name, suffix⟩, hsymbol, h⟩ := Play.exists_of_bind_eq_ok h
  obtain ⟨root, hroot, h⟩ := Play.exists_of_bind_eq_ok h
  obtain ⟨type, htype, h⟩ := Play.exists_of_bind_eq_ok h
  obtain rfl := Except.ok.inj h
  rw [overChord]
  cases elements with
  | nil => rfl
  | cons element elements =>
    rw [hsymbol, Play.ok_bind]
    dsimp only
    rw [hroot, Play.ok_bind, htype]
    rfl

/-! ## Parts -/

variable {elements results : List String} {share place : Nat}

theorem part_zero {α : Type} (items : List α) (share : Nat) :
    part items share 0 = items.take share := by
  rw [part, Nat.zero_mul, List.drop_zero]

theorem part_succ {α : Type} (items : List α) (share place : Nat) :
    part items share (place + 1) = part (items.drop share) share place := by
  rw [part, part, List.drop_drop, Nat.succ_mul, Nat.add_comm]

theorem zip_replicate_append {α β : Type} (items : List α) (count : Nat) (b : β) (others : List β) :
    items.zip (List.replicate count b ++ others) =
      (items.take count).map (·, b) ++ (items.drop count).zip others := by
  induction count generalizing items with
  | zero => rfl
  | succ count ih =>
    cases items with
    | nil => rfl
    | cons item items =>
      rw [List.replicate_succ, List.cons_append, List.zip_cons_cons, ih]
      rfl

/-- Every chord as often as it has elements. -/
def shared (share : Nat) (chords : List Chord) : List Chord := chords.flatMap (List.replicate share)

theorem getElem?_shared (hshare : 0 < share) (chords : List Chord) (place : Nat) :
    (shared share chords)[place]? = chords[place / share]? :=
  Rhythm.getElem?_flatMap_replicate hshare chords place

theorem length_shared (share : Nat) (chords : List Chord) :
    (shared share chords).length = chords.length * share := by
  simp [shared, List.length_flatMap]

/-- **The parts together are the elements, each with its chord.**  Elements behind the last part are
lost. -/
theorem mapM_overChord (tension : Quantity) (share : Nat)
    (hchords : symbols.mapM reading = .ok chords) (elements : List String) :
    (do
      let parts ← symbols.zipIdx.mapM fun (symbol, place) =>
        overChord tension symbol (part elements share place)
      return parts.flatten) =
      (elements.zip (shared share chords)).mapM (overOne tension) := by
  induction symbols generalizing chords elements with
  | nil =>
    obtain rfl : chords = [] := (Except.ok.inj hchords).symm
    rw [shared, List.flatMap_nil, List.zip_nil_right]
    rfl
  | cons symbol symbols ih =>
    rw [List.mapM_cons] at hchords
    obtain ⟨chord, hchord, hchords⟩ := Play.exists_of_bind_eq_ok hchords
    obtain ⟨others, hothers, hchords⟩ := Play.exists_of_bind_eq_ok hchords
    obtain rfl := Except.ok.inj hchords
    have hrest := ih hothers (elements.drop share)
    rw [shared, List.flatMap_cons, ← shared, zip_replicate_append, List.mapM_append, List.mapM_map,
      ← hrest, List.zipIdx_cons', List.mapM_cons, List.mapM_map]
    simp only [Function.comp_def, Prod.map, part_zero, part_succ, overChord_eq hchord, bind_assoc,
      pure_bind, id]
    rfl

/-! ## The share of a chord -/

variable {count length : Nat} {tape progression : String}

/-- The quotient of the lengths is rounded up to the same integer with and without rounding it
before, as long as the number of elements is a mantissa and the quotient does not vanish. -/
theorem ceil_rounded (hcount : 0 < count) (hfew : count ≤ 2 ^ 1074) (hlength : length < 2 ^ 53) :
    ⌈rounded (length / count)⌉₊ = ⌈(length / count : ℚ)⌉₊ := by
  rcases Nat.lt_or_ge length count with hlt | hge
  · rcases Nat.eq_zero_or_pos length with rfl | hpos
    · rw [Nat.cast_zero, zero_div, Binary64.rounded_zero]
    · have hsize : (0 : ℚ) < count := Nat.cast_pos.mpr hcount
      have hquotient : (0 : ℚ) < length / count := div_pos (Nat.cast_pos.mpr hpos) hsize
      have hone : (length / count : ℚ) ≤ (1 : Nat) := by
        rw [Nat.cast_one, div_le_one hsize]
        exact_mod_cast hlt.le
      have hleast : (2 : ℚ) ^ Binary64.leastExponent ≤ length / count := by
        calc (2 : ℚ) ^ Binary64.leastExponent = (((2 ^ 1074 : Nat)) : ℚ)⁻¹ := by
              rw [Binary64.leastExponent, zpow_neg, Nat.cast_pow]
              rfl
          _ ≤ (count : ℚ)⁻¹ := inv_anti₀ hsize (Nat.cast_le.mpr hfew)
          _ ≤ length / count := by
              rw [inv_eq_one_div, div_le_div_iff_of_pos_right hsize]
              exact_mod_cast hpos
      have hceil : ∀ x : ℚ, 0 < x → x ≤ (1 : Nat) → ⌈x⌉₊ = 1 := fun x hx hle =>
        le_antisymm (Nat.ceil_le.mpr hle) (Nat.ceil_pos.mpr hx)
      rw [hceil _ (Binary64.rounded_pos hleast)
        (Binary64.rounded_le_natCast (by norm_num) hquotient.le hone), hceil _ hquotient hone]
  · exact Rhythm.ceil_rounded hcount hge hlength

theorem le_mul_ceil (hcount : 0 < count) (length : Nat) :
    length ≤ count * ⌈(length / count : ℚ)⌉₊ := by
  have hceil := Nat.le_ceil (length / count : ℚ)
  rw [div_le_iff₀ (Nat.cast_pos.mpr hcount), mul_comm] at hceil
  exact_mod_cast hceil

/-- **A tape is moved over a progression element by element.** -/
theorem constrain_eq (tape : String) (hchords : (words progression).mapM reading = .ok chords)
    (hne : chords ≠ []) (hlength : (words tape).length < 2 ^ 100) (tension : Quantity) :
    constrain tape progression tension = do
      let texts ← ((words tape).zip
        (shared ⌈rounded ((words tape).length / chords.length : ℚ)⌉₊ chords)).mapM
          (overOne tension.clamp)
      return unwords texts := by
  have hcount : 0 < chords.length := List.length_pos_iff.mpr hne
  have hsame : (words progression).length = chords.length :=
    (Play.forall₂_of_mapM_eq_ok hchords).length_eq
  have hsymbols : (words progression).isEmpty = false := by
    rw [List.isEmpty_eq_false_iff, ← List.length_pos_iff]
    omega
  have hquotient := Rhythm.ceil_quotient hcount (words tape).length
  rw [if_pos (Rhythm.quotient_lt_overflow hcount hlength)] at hquotient
  have hparts := mapM_overChord tension.clamp
    ⌈rounded ((words tape).length / chords.length : ℚ)⌉₊ hchords (words tape)
  rw [constrain]
  simp only [hsymbols, hsame]
  cases helements : words tape with
  | nil => rfl
  | cons element elements =>
    have hnonempty : (words tape).isEmpty = false := by rw [helements]; rfl
    rw [← helements, ← hparts]
    simp only [hnonempty, Bool.false_eq_true, if_false, ← bind_assoc]
    rw [hquotient, Play.ok_bind, Int.toNat_natCast]
    simp only [bind_assoc, pure_bind]

/-! ## Tapes over a progression -/

/-- One tape was made of another by moving its notes over chords, with the same number of elements
to each chord.  What is not an integer stays. -/
structure IsMovedTape (chords : List Chord) (tension : Quantity) (share : Nat)
    (elements results : List String) : Prop where
  length_eq : results.length = elements.length
  others : ∀ (place : Nat) (element : String), elements[place]? = some element →
    integer? element = none → results[place]? = some element
  notes : ∀ (place : Nat) (element : String) (pitch : Int), elements[place]? = some element →
    integer? element = some pitch →
      ∃ chord q text, chords[place / share]? = some chord ∧
        IsMoved chord.1 (chord.permitted tension) pitch q ∧
        (q = pitch ↔ IsPermitted chord.1 (chord.permitted tension) pitch) ∧
        decimal q = .ok text ∧ results[place]? = some text

/-- All that the notes of a tape are moved to can be written. -/
def CanMove (chords : List Chord) (tension : Quantity) (share : Nat) (elements : List String) :
    Prop :=
  ∀ (place : Nat) (element : String) (pitch : Int) (chord : Chord) (q : Int),
    elements[place]? = some element → integer? element = some pitch →
      chords[place / share]? = some chord → IsMoved chord.1 (chord.permitted tension) pitch q →
        q.natAbs < decimalBound

/-- Every place of a tape that fits has a chord. -/
theorem exists_chord (hfits : elements.length ≤ chords.length * share)
    (helement : elements[place]? = some element) :
    ∃ chord, chords[place / share]? = some chord ∧
      (elements.zip (shared share chords))[place]? = some (element, chord) := by
  obtain ⟨hplace, -⟩ := List.getElem?_eq_some_iff.mp helement
  have hshare : 0 < share := by
    by_contra hzero
    obtain rfl : share = 0 := by omega
    omega
  have hchord : place / share < chords.length :=
    (Nat.div_lt_iff_lt_mul hshare).mpr (hplace.trans_le hfits)
  refine ⟨chords[place / share], List.getElem?_eq_getElem hchord, ?_⟩
  rw [List.getElem?_zip_eq_some, getElem?_shared hshare]
  exact ⟨helement, List.getElem?_eq_getElem hchord⟩

/-- The pairs of a tape with its chords, place by place. -/
theorem exists_place {pair : String × Chord}
    (h : pair ∈ elements.zip (shared share chords)) :
    ∃ place : Nat, elements[place]? = some pair.1 ∧ chords[place / share]? = some pair.2 := by
  obtain ⟨place, hplace⟩ := List.mem_iff_getElem?.mp h
  obtain ⟨helement, hchord⟩ := List.getElem?_zip_eq_some.mp hplace
  have hshare : 0 < share := by
    by_contra hzero
    obtain rfl : share = 0 := by omega
    simp [shared] at hchord
  rw [getElem?_shared hshare] at hchord
  exact ⟨place, helement, hchord⟩

/-- No chord permits nothing. -/
def HasTones (tension : Quantity) (chords : List Chord) : Prop :=
  ∀ chord ∈ chords, chord.permitted tension ≠ []

theorem hasTones_of_reading (hchords : symbols.mapM reading = .ok chords) (tension : Quantity) :
    HasTones tension chords :=
  Play.forall_of_forall₂ (Play.forall₂_of_mapM_eq_ok hchords) fun _ _ _ hchord =>
    Chord.permitted_ne_nil hchord tension

theorem HasTones.shared (h : HasTones tension chords) (share : Nat) :
    HasTones tension (shared share chords) := by
  intro chord hchord
  obtain ⟨_, hmem, hcopy⟩ := List.mem_flatMap.mp hchord
  exact List.eq_of_mem_replicate hcopy ▸ h _ hmem

/-- **What is written over the chords** is described place by place. -/
theorem isMovedTape_of_mapM (htones : HasTones tension chords)
    (hfits : elements.length ≤ chords.length * share)
    (h : (elements.zip (shared share chords)).mapM (overOne tension) = .ok results) :
    IsMovedTape chords tension share elements results := by
  have hpairs := Play.forall₂_of_mapM_eq_ok h
  constructor
  · rw [← hpairs.length_eq, List.length_zip, length_shared]
    exact Nat.min_eq_left hfits
  · intro place element helement hnone
    obtain ⟨chord, -, hpair⟩ := exists_chord hfits helement
    obtain ⟨result, hresult, hone⟩ := Play.exists_getElem?_of_forall₂ hpairs hpair
    rw [overOne, movedElement_eq, Tape.onInteger_of_none _ hnone] at hone
    rw [hresult, Except.ok.inj hone]
  · intro place element pitch helement hpitch
    obtain ⟨chord, hchord, hpair⟩ := exists_chord hfits helement
    obtain ⟨result, hresult, hone⟩ := Play.exists_getElem?_of_forall₂ hpairs hpair
    rw [overOne, movedElement_eq, Tape.onInteger_of_integer? _ hpitch, Play.ok_bind] at hone
    have hmoved := moved_isMoved (htones chord (List.mem_of_getElem? hchord)) chord.1 pitch
    exact ⟨chord, _, result, hchord, hmoved, hmoved.eq_iff, hone, hresult⟩

theorem canMove_iff (htones : HasTones tension chords)
    (hfits : elements.length ≤ chords.length * share) :
    CanMove chords tension share elements ↔
      ∃ results, (elements.zip (shared share chords)).mapM (overOne tension) = .ok results := by
  simp only [Play.exists_mapM_eq_ok_iff, overOne, movedElement_eq, Tape.exists_onInteger_iff]
  constructor
  · intro hcan pair hpair pitch hpitch
    obtain ⟨place, helement, hchord⟩ := exists_place hpair
    exact hcan place pair.1 pitch pair.2 _ helement hpitch hchord
      (moved_isMoved (htones pair.2 (List.mem_of_getElem? hchord)) pair.2.1 pitch)
  · intro hall place element pitch chord q helement hpitch hchord hq
    obtain ⟨chord', hchord', hpair⟩ := exists_chord hfits helement
    obtain rfl := Option.some.inj (hchord'.symm.trans hchord)
    rw [hq.unique (moved_isMoved (htones chord' (List.mem_of_getElem? hchord)) chord'.1 pitch)]
    exact hall _ (List.mem_of_getElem? hpair) pitch hpitch

theorem mapM_overOne_eq_error {fault : Fault} {pairs : List (String × Chord)}
    (h : pairs.mapM (overOne tension) = .error fault) : fault = .integerTooLong := by
  obtain ⟨_, pair, _, -, -, hfault⟩ := Play.exists_of_mapM_eq_error h
  rw [overOne, movedElement_eq] at hfault
  exact Tape.onInteger_ok_eq_error hfault

/-- What is written over the chords is left alone by them. -/
theorem mapM_overOne_again (htones : HasTones tension chords)
    (hlength : elements.length ≤ chords.length)
    (h : (elements.zip chords).mapM (overOne tension) = .ok results) :
    (results.zip chords).mapM (overOne tension) = .ok results := by
  induction elements generalizing chords results with
  | nil =>
    obtain rfl : results = [] := (Except.ok.inj h).symm
    rfl
  | cons element elements ih =>
    cases chords with
    | nil => exact absurd hlength (by simp)
    | cons chord chords =>
      obtain ⟨htone, htones⟩ := List.forall_mem_cons.mp htones
      rw [List.zip_cons_cons, List.mapM_cons] at h
      obtain ⟨result, hresult, h⟩ := Play.exists_of_bind_eq_ok h
      obtain ⟨rest, hrest, h⟩ := Play.exists_of_bind_eq_ok h
      obtain rfl := Except.ok.inj h
      have hagain : overOne tension (result, chord) = .ok result := movedElement_again htone hresult
      rw [List.zip_cons_cons, List.mapM_cons, hagain, Play.ok_bind,
        ih htones (Nat.le_of_succ_le_succ hlength) hrest]
      rfl

theorem isWord_of_mapM_overOne {pairs : List (String × Chord)}
    (hpairs : ∀ pair ∈ pairs, Text.IsWord pair.1) (h : pairs.mapM (overOne tension) = .ok results) :
    ∀ result ∈ results, Text.IsWord result :=
  Play.forall_of_forall₂ (Play.forall₂_of_mapM_eq_ok h) fun pair hpair _ hresult =>
    isWord_of_movedElement (hpairs pair hpair) hresult

/-- **Every note is moved to the next tone of its chord, and no element is lost.**  A tape is moved
over the chords of a progression, to each of them as many elements as the quotient of the lengths
rounded up.  The result has as many elements, what is not an integer stays, and every integer is moved
within its octave to the permitted class that is reached first going up from it on the chord at the
quotient of its place.  Moving it again changes nothing.  Only when a note is moved to one that has
too many digits there is no result. -/
theorem constrain_isMovedTape (tape : String)
    (hchords : (words progression).mapM reading = .ok chords) (hne : chords ≠ [])
    (hfew : chords.length ≤ 2 ^ 1074) (hlength : (words tape).length < 2 ^ 53)
    (tension : Quantity) :
    (CanMove chords tension.clamp ⌈((words tape).length / chords.length : ℚ)⌉₊ (words tape) →
      ∃ result, constrain tape progression tension = .ok result ∧
        IsMovedTape chords tension.clamp ⌈((words tape).length / chords.length : ℚ)⌉₊ (words tape)
          (words result) ∧
        constrain result progression tension = .ok result) ∧
    (¬ CanMove chords tension.clamp ⌈((words tape).length / chords.length : ℚ)⌉₊ (words tape) →
      constrain tape progression tension = .error .integerTooLong) := by
  have hcount : 0 < chords.length := List.length_pos_iff.mpr hne
  have hfits := le_mul_ceil hcount (words tape).length
  have htones := hasTones_of_reading hchords tension.clamp
  have hsize : (words tape).length < 2 ^ 100 := hlength.trans (by norm_num)
  have heq := constrain_eq tape hchords hne hsize tension
  have hceil := ceil_rounded hcount hfew hlength
  rw [hceil] at heq
  generalize hshare : ⌈((words tape).length / chords.length : ℚ)⌉₊ = share at *
  rw [canMove_iff htones hfits]
  constructor
  · rintro ⟨results, hresults⟩
    have hmoved := isMovedTape_of_mapM htones hfits hresults
    have hwords : words (unwords results) = results := by
      refine Text.words_unwords (isWord_of_mapM_overOne (fun pair hpair => ?_) hresults)
      exact Text.isWord_of_mem_words (List.of_mem_zip hpair).1
    have hresultsFit := mapM_overOne_again (htones.shared share)
      (by rw [length_shared]; exact hfits) hresults
    have hagain := constrain_eq (unwords results) hchords hne
      (by rw [hwords, hmoved.length_eq]; exact hsize) tension
    rw [hwords, hmoved.length_eq, hceil, hresultsFit] at hagain
    rw [hresults] at heq
    exact ⟨unwords results, heq, by rwa [hwords], hagain⟩
  · intro hcannot
    cases hresults : ((words tape).zip (shared share chords)).mapM (overOne tension.clamp) with
    | ok results => exact absurd ⟨results, hresults⟩ hcannot
    | error fault =>
      rw [hresults, mapM_overOne_eq_error hresults] at heq
      exact heq

/-- Three elements to the first chord and two to the second.  The note below zero falls to the lower
end of its octave, and so does the last one. -/
theorem constrain_isMovedTape_octave :
    (words "C Am").mapM reading = .ok [(0, ⟨"major", [0, 4, 7]⟩), (9, ⟨"minor", [0, 3, 7]⟩)] ∧
      constrain "62 - x -1 70" "C Am" 3 = .ok "64 - x -12 60" ∧
      IsMovedTape [(0, ⟨"major", [0, 4, 7]⟩), (9, ⟨"minor", [0, 3, 7]⟩)] (Quantity.clamp 3) 3
        ["62", "-", "x", "-1", "70"] ["64", "-", "x", "-12", "60"] ∧
      constrain "64 - x -12 60" "C Am" 3 = .ok "64 - x -12 60" := by
  have hchords : (words "C Am").mapM reading =
      .ok [(0, ⟨"major", [0, 4, 7]⟩), (9, ⟨"minor", [0, 3, 7]⟩)] := by
    decide +kernel
  have hvalue : constrain "62 - x -1 70" "C Am" 3 = .ok "64 - x -12 60" := by decide +kernel
  have hwords : words "62 - x -1 70" = ["62", "-", "x", "-1", "70"] := by decide +kernel
  have hmovedWords : words "64 - x -12 60" = ["64", "-", "x", "-12", "60"] := by decide +kernel
  have hfew : 2 ≤ 2 ^ 1074 := le_self_pow₀ one_le_two (show 1074 ≠ 0 by decide)
  have hthree : ⌈(5 / 2 : ℚ)⌉₊ = 3 := by
    rw [Nat.ceil_eq_iff (by decide)]
    norm_num
  obtain ⟨hcan, hcannot⟩ := constrain_isMovedTape "62 - x -1 70" hchords (by decide) hfew
    (by rw [hwords]; decide) 3
  rw [hwords] at hcan hcannot
  simp only [List.length_cons, List.length_nil, Nat.reduceAdd, Nat.cast_ofNat, hthree] at hcan hcannot
  by_cases h : CanMove [(0, ⟨"major", [0, 4, 7]⟩), (9, ⟨"minor", [0, 3, 7]⟩)] (Quantity.clamp 3) 3
      ["62", "-", "x", "-1", "70"]
  · obtain ⟨result, hresult, hmoved, hagain⟩ := hcan h
    obtain rfl := Except.ok.inj (hresult.symm.trans hvalue)
    rw [hmovedWords] at hmoved
    exact ⟨hchords, hresult, hmoved, hagain⟩
  · exact nomatch (hcannot h).symm.trans hvalue

/-! ## Limits -/

theorem shared_zero (chords : List Chord) : shared 0 chords = [] :=
  List.eq_nil_of_length_eq_zero (by rw [length_shared, Nat.mul_zero])

theorem shared_singleton (share : Nat) (chord : Chord) :
    shared share [chord] = List.replicate share chord := by
  rw [shared, List.flatMap_singleton]

theorem mapM_replicate {α β : Type} {f : α → Except Fault β} {a : α} {b : β} (h : f a = .ok b)
    (count : Nat) : (List.replicate count a).mapM f = .ok (List.replicate count b) := by
  induction count with
  | zero => rfl
  | succ count ih =>
    rw [List.replicate_succ, List.mapM_cons, h, ih]
    rfl

theorem words_replicate {word : String} (h : Text.IsWord word) (count : Nat) :
    words (unwords (List.replicate count word)) = List.replicate count word :=
  Text.words_unwords fun _ hcopy => List.eq_of_mem_replicate hcopy ▸ h

/-- One chord has all elements that the number of elements counts, once it is rounded. -/
theorem constrain_singleton (tape : String) (h : (words progression).mapM reading = .ok [chord])
    (hlength : (words tape).length < 2 ^ 100) (tension : Quantity) :
    constrain tape progression tension = do
      let texts ← ((words tape).zip
        (List.replicate ⌈rounded ((words tape).length : ℚ)⌉₊ chord)).mapM (overOne tension.clamp)
      return unwords texts := by
  have heq := constrain_eq tape h (List.cons_ne_nil _ _) hlength tension
  rwa [List.length_singleton, Nat.cast_one, div_one, shared_singleton] at heq

theorem reading_major : reading "C" = .ok (0, ⟨"major", [0, 4, 7]⟩) := by decide +kernel

theorem isWord_rest : Text.IsWord "-" := IsElement.isWord (.inl rfl)

/-- **A note can miss its next tone:** from the greatest integer that can be written it is one with a
digit more. -/
theorem constrain_nines : constrain Tape.nines "C" 3 = .error .integerTooLong := by
  have hchord : (words "C").mapM reading = .ok [(0, ⟨"major", [0, 4, 7]⟩)] := by decide +kernel
  have hpermitted : Chord.permitted (0, ⟨"major", [0, 4, 7]⟩) (Quantity.clamp 3) = [0, 4, 7] := by
    decide +kernel
  have hwords := Tape.isTape_nines.2
  obtain ⟨last, hread, hbound, hclass⟩ := Tape.exists_nines
  have hup : IsMoved 0 [0, 4, 7] last (last + 1) := by
    refine ⟨by omega, ⟨4, by decide, by omega⟩, ?_⟩
    rintro r ⟨interval, hinterval, hr⟩
    simp only [List.mem_cons, List.not_mem_nil, or_false] at hinterval
    omega
  have hlong : ¬ ((last : Int) + 1).natAbs < decimalBound := by
    rw [← hbound]
    omega
  have hone : overOne (Quantity.clamp 3) (Tape.nines, (0, ⟨"major", [0, 4, 7]⟩)) =
      .error .integerTooLong := by
    rw [overOne, movedElement_eq, Tape.onInteger_of_integer? _ hread, Play.ok_bind, hpermitted,
      ← hup.unique (moved_isMoved (by decide) 0 _), decimal_of_not_lt hlong]
  rw [constrain_singleton _ hchord (by rw [hwords]; norm_num), hwords, List.length_singleton,
    Binary64.rounded_natCast (by norm_num), Nat.ceil_natCast, List.replicate_one,
    List.zip_cons_cons, List.mapM_cons, hone]
  rfl

/-- With one element more than a mantissa can count the last one is lost. -/
theorem exists_constrain_rests :
    ∃ result, constrain (unwords (List.replicate (2 ^ 53 + 1) "-")) "C" 3 = .ok result ∧
      (words result).length = 2 ^ 53 := by
  have hchord : (words "C").mapM reading = .ok [(0, ⟨"major", [0, 4, 7]⟩)] := by decide +kernel
  have hwords := words_replicate isWord_rest (2 ^ 53 + 1)
  have hstay : overOne (Quantity.clamp 3) ("-", (0, ⟨"major", [0, 4, 7]⟩)) = .ok "-" := rfl
  have heq := constrain_singleton (unwords (List.replicate (2 ^ 53 + 1) "-")) hchord
    (by rw [hwords, List.length_replicate]; norm_num) 3
  rw [hwords, List.length_replicate, Binary64.rounded_two_pow_add_one, Nat.ceil_natCast,
    List.zip_replicate, mapM_replicate hstay, Nat.min_eq_right (Nat.le_succ _)] at heq
  exact ⟨_, heq, by rw [words_replicate isWord_rest, List.length_replicate]⟩

/-- Over so many chords that the quotient vanishes everything is lost. -/
theorem constrain_vanishing :
    constrain "-" (unwords (List.replicate (2 ^ 1076) "C")) 3 = .ok "" := by
  have hsymbol : Text.IsWord "C" :=
    Text.isWord_of_mem_words (show "C" ∈ words "C" by decide +kernel)
  have hsymbols := words_replicate hsymbol (2 ^ 1076)
  have hchords : (words (unwords (List.replicate (2 ^ 1076) "C"))).mapM reading =
      .ok (List.replicate (2 ^ 1076) (0, ⟨"major", [0, 4, 7]⟩)) := by
    rw [hsymbols]
    exact mapM_replicate reading_major _
  have hne : List.replicate (2 ^ 1076) ((0, ⟨"major", [0, 4, 7]⟩) : Chord) ≠ [] := by
    rw [← List.length_pos_iff, List.length_replicate]
    exact pow_pos two_pos _
  have hvanishes : rounded ((1 : Nat) / (2 ^ 1076 : Nat) : ℚ) = 0 := by
    refine Binary64.rounded_eq_zero (by positivity) ?_
    rw [Nat.cast_one, one_div, Nat.cast_pow, Nat.cast_ofNat, ← zpow_natCast, ← zpow_neg]
    exact zpow_lt_zpow_right₀ one_lt_two (by decide)
  have hwords : words "-" = ["-"] := Text.words_of_isWord isWord_rest
  rw [constrain_eq _ hchords hne (by rw [hwords]; norm_num), hwords, List.length_singleton,
    List.length_replicate, hvanishes, Nat.ceil_zero, shared_zero, List.zip_nil_right]
  rfl

end Progression
end NoteTape
