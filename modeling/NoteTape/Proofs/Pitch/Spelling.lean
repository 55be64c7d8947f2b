import NoteTape.Proofs.Pitch.NoteName

/-!
# Notes and numbers, there and back

The MIDI number of a note is put together from its octave and its pitch class, and division by the
size of an octave takes it apart again, also below zero.  What is printed for a number is the name
of the class and behind it the octave in decimal.  That can be read in one way only: the names are
spellings, no digit and no minus sign belongs to one, and an octave is read back from its decimal.

So every number that can be written is the number of its note, `exists_ofMidi`, and the note of the
number of a note is the sharp spelling of it, `ofMidi_midiNumber`.  Tapes are taken there and back
element by element, `exists_mapM_ofMidiElement`; what comes back of an integer is its canonical
form.

What is read and written has a bounded number of digits, an octave as well as a number.  An octave
has no more digits than its number, `octave_lt`, so nothing is lost on the way out.
-/

namespace NoteTape
namespace NoteName

open Text (unwords words)

variable {name word note : String} {octave pc midi : Int}

/-! ## Octave and class -/

/-- A number is put together from its octave and its class. -/
theorem midiNumber_eq (midi : Int) : midiNumber (midi / 12 - 1) (midi % 12) = midi := by
  rw [midiNumber, octaveSize]
  omega

theorem midiNumber_ediv (hlow : 0 ≤ pc) (hhigh : pc < 12) (octave : Int) :
    Int.fdiv (midiNumber octave pc) octaveSize - 1 = octave := by
  rw [midiNumber, octaveSize, Int.fdiv_eq_ediv_of_nonneg _ (by decide)]
  omega

theorem midiNumber_emod (hlow : 0 ≤ pc) (hhigh : pc < 12) (octave : Int) :
    Int.fmod (midiNumber octave pc) octaveSize = pc := by
  rw [midiNumber, octaveSize, Int.fmod_eq_emod_of_nonneg _ (by decide)]
  omega

/-- The octave of a number has no more digits than the number. -/
theorem octave_lt (h : midi.natAbs < decimalBound) : (midi / 12 - 1).natAbs < decimalBound := by
  have hlarge := two_pow_lt_decimalBound
  generalize decimalBound = bound at h hlarge ⊢
  omega

/-! ## Names -/

/-- The name of a class without a flat sign. -/
def sharp (pc : Int) : String := sharps.getD pc.toNat ""

/-- **Every class has one sharp spelling,** and that is in the table. -/
theorem sharp_mem (hlow : 0 ≤ pc) (hhigh : pc < 12) :
    sharp pc ∈ sharps ∧ table.lookup (sharp pc) = some pc := by
  have hall : ∀ i < 12, sharp (Int.ofNat i) ∈ sharps ∧
      table.lookup (sharp (Int.ofNat i)) = some (Int.ofNat i) := by
    decide
  have hclass := hall pc.toNat (by omega)
  rwa [Int.ofNat_eq_natCast, Int.toNat_of_nonneg hlow] at hclass

/-- The names in the table are spellings, and they name the classes of an octave. -/
theorem of_lookup (h : table.lookup name = some pc) :
    name.toList ∈ spellings ∧ 0 ≤ pc ∧ pc < 12 := by
  have hall : ∀ entry ∈ table, entry.1.toList ∈ spellings ∧ 0 ≤ entry.2 ∧ entry.2 < 12 := by
    decide +kernel
  obtain ⟨before, after, htable, -⟩ := List.lookup_eq_some_iff.mp h
  exact hall (name, pc) (by rw [htable]; exact List.mem_append_right _ (List.mem_cons_self ..))

theorem pitchClass_eq_ok_iff : pitchClass name = .ok pc ↔ table.lookup name = some pc := by
  unfold pitchClass
  cases table.lookup name with
  | none => simp
  | some found => simp

/-! ## Octaves in decimal -/

/-- The decimal of an octave is a sign that may be there and ASCII digits. -/
theorem exists_toString_eq (h : octave.natAbs < decimalBound) :
    ∃ negative digits, (toString octave).toList = minus negative ++ digits ∧ digits ≠ [] ∧
      digits.length ≤ digitLimit ∧ (∀ d ∈ digits, Text.isAsciiDigit d = true) ∧
      octave = Binary64.signed negative (Text.natural digits) := by
  rw [Int.toString_eq_repr, Int.repr_eq_if]
  split
  · next hnonneg =>
    have hlt : octave.toNat < decimalBound := Nat.lt_of_le_of_lt (by omega) h
    obtain ⟨hne, hlength, hdigits⟩ := digits_repr hlt
    refine ⟨false, octave.toNat.repr.toList, rfl, hne, hlength, hdigits, ?_⟩
    rw [natural_repr hlt, Binary64.signed, if_neg Bool.false_ne_true, Int.toNat_of_nonneg hnonneg]
  · next hnegative =>
    have hlt : (-octave).toNat < decimalBound := Nat.lt_of_le_of_lt (by omega) h
    obtain ⟨hne, hlength, hdigits⟩ := digits_repr hlt
    refine ⟨true, (-octave).toNat.repr.toList, ?_, hne, hlength, hdigits, ?_⟩
    · rw [String.toList_append]
      rfl
    · rw [natural_repr hlt, Binary64.signed, if_pos rfl]
      omega

/-- **A spelling with the decimal of an octave behind it is a note.** -/
theorem notates_append (hname : name.toList ∈ spellings) (h : octave.natAbs < decimalBound) :
    Notates (name ++ toString octave) name octave := by
  obtain ⟨negative, digits, htext, hne, hlength, hdigits, hvalue⟩ := exists_toString_eq h
  refine ⟨negative, digits, ⟨?_, hname, hne, ?_⟩, hlength, hvalue⟩
  · rw [String.toList_append, htext]
  · intro d hd
    exact isDigit_of_isAsciiDigit (hdigits d hd)

/-- A spelling with the decimal of an octave behind it is one word. -/
theorem isWord_append (hname : name.toList ∈ spellings) (h : octave.natAbs < decimalBound) :
    Text.IsWord (name ++ toString octave) := by
  have hdecimal : Text.IsWord (toString octave) := (isElement_of_decimal (decimal_of_lt h)).isWord
  have hletters : ∀ letters ∈ spellings, letters.all (fun c => !Text.isBlank c) = true := by decide
  constructor
  · intro hempty
    exact hdecimal.1 (String.append_eq_empty_iff.mp hempty).2
  · intro c hc
    rw [String.toList_append, List.mem_append] at hc
    rcases hc with hc | hc
    · rw [← Bool.not_eq_true']
      exact List.all_eq_true.mp (hletters name.toList hname) c hc
    · exact hdecimal.2 c hc

/-! ## There and back -/

/-- The note of a number is the sharp spelling of its class and its octave. -/
theorem ofMidi_midiNumber (hlow : 0 ≤ pc) (hhigh : pc < 12) (h : octave.natAbs < decimalBound) :
    ofMidi (midiNumber octave pc) = .ok (sharp pc ++ toString octave) := by
  rw [ofMidi, midiNumber_ediv hlow hhigh, midiNumber_emod hlow hhigh, decimal_of_lt h]
  rfl

/-- **A number that can be written is the number of its note.** -/
theorem exists_ofMidi (h : midi.natAbs < decimalBound) :
    ∃ note, ofMidi midi = .ok note ∧ Text.IsWord note ∧ HasNumber note (toString midi) ∧
      toMidi note = .ok midi := by
  have hlow : 0 ≤ midi % 12 := Int.emod_nonneg midi (by decide)
  have hhigh : midi % 12 < 12 := Int.emod_lt_of_pos midi (by decide)
  have hoctave := octave_lt h
  obtain ⟨-, hsharp⟩ := sharp_mem hlow hhigh
  obtain ⟨hspelling, -⟩ := of_lookup hsharp
  have hnotates := notates_append hspelling hoctave
  refine ⟨sharp (midi % 12) ++ toString (midi / 12 - 1), ?_, isWord_append hspelling hoctave,
    ?_, ?_⟩
  · rw [← ofMidi_midiNumber hlow hhigh hoctave, midiNumber_eq]
  · refine ⟨_, _, _, hnotates, hsharp, ?_⟩
    rw [midiNumber_eq, decimal_of_lt h]
  · rw [toMidi_of_lookup hnotates hsharp, midiNumber_eq]

/-! ## Tapes -/

/-- A rest stays a rest, and an integer comes back in canonical form. -/
theorem exists_ofMidiElement (h : word = "-" ∨ (integer? word).isSome = true) :
    ∃ note, ofMidiElement word = .ok note ∧ Text.IsWord note ∧
      toMidiElement note = .ok (canonical word) := by
  rcases h with rfl | h
  · have hrest : Text.IsWord "-" := IsElement.isWord (.inl rfl)
    exact ⟨"-", rfl, hrest, rfl⟩
  · obtain ⟨midi, hmidi⟩ := Option.isSome_iff_exists.mp h
    obtain ⟨note, hnote, hword, hnumber, -⟩ := exists_ofMidi (natAbs_lt_of_integer? hmidi)
    refine ⟨note, ?_, hword, ?_⟩
    · rw [ofMidiElement, hmidi]
      exact hnote
    · rw [canonical_of_integer? hmidi, toMidiElement_of_hasNumber hnumber]

/-- The elements of a tape, there and back. -/
theorem exists_mapM_ofMidiElement {elements : List String}
    (h : ∀ word ∈ elements, word = "-" ∨ (integer? word).isSome = true) :
    ∃ notes, elements.mapM ofMidiElement = .ok notes ∧ (∀ note ∈ notes, Text.IsWord note) ∧
      notes.mapM toMidiElement = .ok (elements.map canonical) := by
  induction elements with
  | nil => exact ⟨[], rfl, List.forall_mem_nil _, rfl⟩
  | cons word elements ih =>
    obtain ⟨hword, helements⟩ := List.forall_mem_cons.mp h
    obtain ⟨note, hnote, hisWord, hback⟩ := exists_ofMidiElement hword
    obtain ⟨notes, hnotes, hareWords, hbacks⟩ := ih helements
    refine ⟨note :: notes, ?_, List.forall_mem_cons.mpr ⟨hisWord, hareWords⟩, ?_⟩
    · rw [List.mapM_cons, hnote, hnotes]
      rfl
    · rw [List.mapM_cons, hback, hbacks]
      rfl

/-- **Note names and numbers are inverse to each other.**  A number that can be written is the
number of its note, a note goes to the sharp spelling of its class in the same octave, and a tape of
rests and integers comes back with its integers in canonical form. -/
theorem ofMidi_inverse :
    (∀ midi : Int, midi.natAbs < decimalBound →
      ∃ note, ofMidi midi = .ok note ∧ toMidi note = .ok midi) ∧
    (∀ name pc, pitchClass name = .ok pc → ∀ octave : Int, octave.natAbs < decimalBound →
      ∃ spelling ∈ sharps, pitchClass spelling = .ok pc ∧
        ∃ midi, toMidi (name ++ toString octave) = .ok midi ∧
          ofMidi midi = .ok (spelling ++ toString octave)) ∧
    (∀ tape, (∀ word ∈ words tape, word = "-" ∨ (integer? word).isSome = true) →
      ∃ notes, ofMidiTape tape = .ok notes ∧
        toMidiTape notes = .ok (unwords ((words tape).map canonical))) := by
  refine ⟨?_, ?_, ?_⟩
  · intro midi hmidi
    obtain ⟨note, hnote, -, -, hback⟩ := exists_ofMidi hmidi
    exact ⟨note, hnote, hback⟩
  · intro name pc hname octave hoctave
    rw [pitchClass_eq_ok_iff] at hname
    obtain ⟨hspelling, hlow, hhigh⟩ := of_lookup hname
    obtain ⟨hmem, hsharp⟩ := sharp_mem hlow hhigh
    refine ⟨sharp pc, hmem, pitchClass_eq_ok_iff.mpr hsharp, midiNumber octave pc, ?_, ?_⟩
    · exact toMidi_of_lookup (notates_append hspelling hoctave) hname
    · exact ofMidi_midiNumber hlow hhigh hoctave
  · intro tape htape
    obtain ⟨notes, hnotes, hareWords, hback⟩ := exists_mapM_ofMidiElement htape
    refine ⟨unwords notes, ?_, ?_⟩
    · rw [ofMidiTape, hnotes]
      rfl
    · rw [toMidiTape, Text.words_unwords hareWords, hback]
      rfl

/-- Below zero: the last note of an octave, a flat in the octave under it, and a tape of signs and
leading zeros. -/
theorem ofMidi_inverse_below_zero :
    ofMidi (-1) = .ok "B-2" ∧ toMidi "B-2" = .ok (-1) ∧
      toMidi "Db-3" = .ok (-23) ∧ ofMidi (-23) = .ok "C#-3" ∧
      ofMidiTape "+05 - -007" = .ok "F-1 - F-2" ∧ toMidiTape "F-1 - F-2" = .ok "5 - -7" := by
  obtain ⟨hnumbers, hnotes, htapes⟩ := ofMidi_inverse
  have hbound {n : Int} (h : n.natAbs < 2 ^ 67) : n.natAbs < decimalBound := lt_decimalBound h
  obtain ⟨note, hnote, hback⟩ := hnumbers (-1) (hbound (by decide))
  have hlast : ofMidi (-1) = .ok "B-2" := by decide +kernel
  obtain rfl := Except.ok.inj (hnote.symm.trans hlast)
  obtain ⟨_, -, -, midi, hmidi, -⟩ :=
    hnotes "Db" 1 (by decide) (-3) (hbound (by decide))
  have hflat : toMidi "Db-3" = .ok (-23) := by decide +kernel
  obtain rfl : midi = -23 := Except.ok.inj (hmidi.symm.trans hflat)
  have hsharp : ofMidi (-23) = .ok "C#-3" := by decide +kernel
  obtain ⟨notes, htape, hnumerals⟩ := htapes "+05 - -007" (by decide +kernel)
  have hwritten : ofMidiTape "+05 - -007" = .ok "F-1 - F-2" := by decide +kernel
  obtain rfl := Except.ok.inj (htape.symm.trans hwritten)
  have hcanonical : unwords ((words "+05 - -007").map canonical) = "5 - -7" := by decide +kernel
  rw [hcanonical] at hnumerals
  exact ⟨hlast, hback, hflat, hsharp, hwritten, hnumerals⟩

end NoteName
end NoteTape
