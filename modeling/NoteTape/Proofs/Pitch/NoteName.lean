import Mathlib.Tactic.IntervalCases
import NoteTape.Pitch.NoteName
import NoteTape.Proofs.Pattern.Grammar
import NoteTape.Proofs.Pattern.Tape

/-!
# Notes of a tape as numbers

A note is written as a spelling with an octave behind it, `Notates`.  There are more spellings than
names in use: each of the seven letters can be sharp or flat, and four of the twenty-one spellings
are in no table, `unlisted`.

An element of a tape that is no note stays as it is, whatever it is, and so does a note whose
number has too many digits, `Converts`.  A note with an unlisted name is not such an element.  Its
shape is right, so it is looked up, and the fault of a missing name is not one that is recovered
from: the whole tape fails, `toMidiTape_converts`.
-/

namespace NoteTape
namespace NoteName

open Text (isDigit unwords words)

/-! ## Spellings -/

/-- The letters of note names. -/
def noteLetters : List Char := ['A', 'B', 'C', 'D', 'E', 'F', 'G']

/-- Each letter alone, with a sharp and with a flat sign. -/
def spellings : List (List Char) :=
  noteLetters.flatMap fun letter => [[letter], [letter, '#'], [letter, 'b']]

/-- The spellings that are no names in use. -/
def unlisted : List String := ["B#", "Cb", "E#", "Fb"]

theorem isNoteLetter_iff {c : Char} : isNoteLetter c = true ↔ c ∈ noteLetters := by
  constructor
  · intro h
    simp only [isNoteLetter, Bool.and_eq_true, decide_eq_true_eq] at h
    obtain ⟨hlow, hhigh⟩ := h
    rw [← Char.ofNat_toNat c]
    generalize c.toNat = code at hlow hhigh
    interval_cases code <;> decide
  · have hall : noteLetters.all isNoteLetter = true := by decide
    exact List.all_eq_true.mp hall c

theorem mem_spellings_iff {letters : List Char} :
    letters ∈ spellings ↔ ∃ letter, isNoteLetter letter = true ∧
      (letters = [letter] ∨ letters = [letter, '#'] ∨ letters = [letter, 'b']) := by
  simp only [spellings, List.mem_flatMap, isNoteLetter_iff, List.mem_cons, List.not_mem_nil,
    or_false]

/-- **A spelling is in the table, unless it is unlisted.** -/
theorem lookup_eq_none_iff {letters : List Char} (h : letters ∈ spellings) :
    table.lookup (String.ofList letters) = none ↔ String.ofList letters ∈ unlisted := by
  have hall : ∀ letters ∈ spellings,
      (table.lookup (String.ofList letters) = none ↔ String.ofList letters ∈ unlisted) := by
    decide +kernel
  exact hall letters h

theorem letters?_eq_some {cs letters rest : List Char} (h : letters? cs = some (letters, rest)) :
    letters ∈ spellings ∧ cs = letters ++ rest := by
  rw [mem_spellings_iff]
  unfold letters? at h
  split at h
  · next letter tail =>
    obtain ⟨hletter, h⟩ := Option.ite_none_right_eq_some.mp h
    obtain ⟨rfl, rfl⟩ := Prod.mk.inj (Option.some.inj h)
    exact ⟨⟨letter, hletter, .inr (.inl rfl)⟩, rfl⟩
  · next letter tail =>
    obtain ⟨hletter, h⟩ := Option.ite_none_right_eq_some.mp h
    obtain ⟨rfl, rfl⟩ := Prod.mk.inj (Option.some.inj h)
    exact ⟨⟨letter, hletter, .inr (.inr rfl)⟩, rfl⟩
  · next letter tail _ _ =>
    obtain ⟨hletter, h⟩ := Option.ite_none_right_eq_some.mp h
    obtain ⟨rfl, rfl⟩ := Prod.mk.inj (Option.some.inj h)
    exact ⟨⟨letter, hletter, .inl rfl⟩, rfl⟩
  · exact nomatch h

/-- A sign that follows belongs to the spelling; so a spelling is found when none follows. -/
theorem letters?_append {letters rest : List Char} (h : letters ∈ spellings)
    (hrest : ∀ c ∈ rest.head?, c ≠ '#' ∧ c ≠ 'b') :
    letters? (letters ++ rest) = some (letters, rest) := by
  obtain ⟨letter, hletter, rfl | rfl | rfl⟩ := mem_spellings_iff.mp h
  · cases rest with
    | nil => simp [letters?, hletter]
    | cons c rest =>
      obtain ⟨hsharp, hflat⟩ := hrest c rfl
      simp [letters?, hletter, hsharp, hflat]
  · simp [letters?, hletter]
  · simp [letters?, hletter]

/-! ## Notes -/

/-- The text of a minus sign that may be there. -/
def minus (negative : Bool) : List Char := if negative then ['-'] else []

/-- A spelling, possibly a minus sign, and digits of any script. -/
structure Shaped (cs letters : List Char) (negative : Bool) (digits : List Char) : Prop where
  cs_eq : cs = letters ++ (minus negative ++ digits)
  mem_spellings : letters ∈ spellings
  digits_ne_nil : digits ≠ []
  isDigit : ∀ d ∈ digits, isDigit d = true

theorem guard_digits_eq_some_iff {digits : List Char} {α : Type} {a b : α} :
    (if digits.isEmpty || !digits.all isDigit then none else some a) = some b ↔
      a = b ∧ digits ≠ [] ∧ ∀ d ∈ digits, isDigit d = true := by
  simp [and_comm]

/-- What is read behind the letters: a sign that may be there, and digits to the end. -/
theorem shape?_of_letters? {cs letters found rest digits : List Char} {negative : Bool}
    (h : letters? cs = some (letters, rest)) :
    shape? cs = some (found, negative, digits) ↔
      letters = found ∧ rest = minus negative ++ digits ∧ digits ≠ [] ∧
        ∀ d ∈ digits, isDigit d = true := by
  unfold shape?
  rw [h]
  dsimp only
  split
  · next tail =>
    rw [guard_digits_eq_some_iff]
    constructor
    · rintro ⟨heq, hne, hdigits⟩
      obtain ⟨rfl, rfl, rfl⟩ : letters = found ∧ true = negative ∧ tail = digits := by
        simpa using heq
      exact ⟨rfl, rfl, hne, hdigits⟩
    · rintro ⟨rfl, hrest, hne, hdigits⟩
      cases negative with
      | true =>
        obtain ⟨-, rfl⟩ := List.cons.inj hrest
        exact ⟨rfl, hne, hdigits⟩
      | false =>
        -- without a sign the digits would begin with one
        have hmem : '-' ∈ digits := by
          rw [show digits = '-' :: tail from hrest.symm]
          exact List.mem_cons_self ..
        exact absurd (hdigits '-' hmem) (by decide)
  · next hminus =>
    rw [guard_digits_eq_some_iff]
    constructor
    · rintro ⟨heq, hne, hdigits⟩
      obtain ⟨rfl, rfl, rfl⟩ : letters = found ∧ false = negative ∧ rest = digits := by
        simpa using heq
      exact ⟨rfl, rfl, hne, hdigits⟩
    · rintro ⟨rfl, hrest, hne, hdigits⟩
      cases negative with
      | true => exact absurd hrest (hminus digits)
      | false =>
        obtain rfl : rest = digits := hrest
        exact ⟨rfl, hne, hdigits⟩

theorem mem_minus_append {negative : Bool} {digits : List Char}
    (hdigits : ∀ d ∈ digits, isDigit d = true) {c : Char} (hc : c ∈ minus negative ++ digits) :
    c = '-' ∨ isDigit c = true := by
  rcases List.mem_append.mp hc with hc | hc
  · cases negative with
    | true => exact .inl (List.mem_singleton.mp hc)
    | false => exact absurd hc List.not_mem_nil
  · exact .inr (hdigits c hc)

/-- **A text has the shape of a note** exactly when it is a spelling, a sign and digits. -/
theorem shape?_eq_some_iff {cs letters digits : List Char} {negative : Bool} :
    shape? cs = some (letters, negative, digits) ↔ Shaped cs letters negative digits := by
  constructor
  · intro h
    cases hletters : letters? cs with
    | none =>
      rw [shape?, hletters] at h
      exact nomatch h
    | some found =>
      obtain ⟨hmem, hcs⟩ := letters?_eq_some hletters
      obtain ⟨rfl, hrest, hne, hdigits⟩ := (shape?_of_letters? hletters).mp h
      exact ⟨by rw [hcs, hrest], hmem, hne, hdigits⟩
  · rintro ⟨rfl, hmem, hne, hdigits⟩
    have hrest : ∀ c ∈ (minus negative ++ digits).head?, c ≠ '#' ∧ c ≠ 'b' := by
      intro c hc
      rcases mem_minus_append hdigits (List.mem_of_mem_head? hc) with rfl | hdigit
      · decide
      · constructor
        · rintro rfl
          exact absurd hdigit (by decide)
        · rintro rfl
          exact absurd hdigit (by decide)
    exact (shape?_of_letters? (letters?_append hmem hrest)).mpr ⟨rfl, rfl, hne, hdigits⟩

/-- A word that writes a note: a spelling and an octave, which is a number of at most `digitLimit`
digits. -/
def Notates (word name : String) (octave : Int) : Prop :=
  ∃ negative digits, Shaped word.toList name.toList negative digits ∧ digits.length ≤ digitLimit ∧
    octave = Binary64.signed negative (Text.natural digits)

variable {word name number result : String} {octave : Int}

/-- **What is read is what is written,** or the text is not recognised. -/
theorem read_eq_ok_iff : read word = .ok (name, octave) ↔ Notates word name octave := by
  constructor
  · intro h
    unfold read at h
    split at h
    · exact nomatch h
    · next letters negative digits hshape =>
      have hshaped := shape?_eq_some_iff.mp hshape
      rcases Nat.lt_or_ge digitLimit digits.length with hlong | hshort
      · rw [naturalOfChars_of_lt hshaped.isDigit hlong] at h
        exact nomatch h
      · rw [Token.naturalOfChars_eq hshaped.isDigit hshort] at h
        obtain ⟨rfl, rfl⟩ := Prod.mk.inj (Except.ok.inj h)
        refine ⟨negative, digits, ?_, hshort, rfl⟩
        rwa [String.toList_ofList]
  · rintro ⟨negative, digits, hshaped, hshort, rfl⟩
    unfold read
    rw [shape?_eq_some_iff.mpr hshaped]
    dsimp only
    rw [Token.naturalOfChars_eq hshaped.isDigit hshort, String.ofList_toList]
    rfl

theorem Notates.lookup_eq_none_iff (h : Notates word name octave) :
    table.lookup name = none ↔ name ∈ unlisted := by
  obtain ⟨_, _, hshaped, -⟩ := h
  rw [← String.ofList_toList (s := name)]
  exact NoteName.lookup_eq_none_iff hshaped.mem_spellings

/-- A word that is not read is refused as a value. -/
theorem kind_of_read {fault : Fault} (h : read word = .error fault) : fault.kind = .value := by
  unfold read at h
  split at h
  · obtain rfl := Except.error.inj h
    rfl
  · next letters negative digits hshape =>
    unfold naturalOfChars naturalOfDigitRun at h
    split at h
    · obtain rfl := Except.error.inj h
      rfl
    · exact nomatch h

/-! ## Numbers of notes -/

theorem toMidi_of_lookup (h : Notates word name octave) {pc : Int}
    (hlookup : table.lookup name = some pc) : toMidi word = .ok (midiNumber octave pc) := by
  rw [toMidi, read_eq_ok_iff.mpr h, Play.ok_bind]
  dsimp only
  rw [hlookup]
  rfl

/-- An unlisted name is missed after the octave has been read. -/
theorem toMidi_of_unlisted (h : Notates word name octave) (hname : name ∈ unlisted) :
    toMidi word = .error (.missingNoteName name) := by
  rw [toMidi, read_eq_ok_iff.mpr h, Play.ok_bind]
  dsimp only
  rw [h.lookup_eq_none_iff.mpr hname]
  rfl

/-- **A note with a name in use has a number,** and nothing else has one. -/
theorem toMidi_eq_ok_iff {midi : Int} :
    toMidi word = .ok midi ↔ ∃ name octave pc, Notates word name octave ∧
      table.lookup name = some pc ∧ midi = midiNumber octave pc := by
  constructor
  · intro h
    obtain ⟨⟨name, octave⟩, hread, h⟩ := Play.exists_of_bind_eq_ok h
    dsimp only at h
    split at h
    · next pc hlookup =>
      exact ⟨name, octave, pc, read_eq_ok_iff.mp hread, hlookup, (Except.ok.inj h).symm⟩
    · exact nomatch h
  · rintro ⟨name, octave, pc, hnotates, hlookup, rfl⟩
    exact toMidi_of_lookup hnotates hlookup

/-- A word without a number is refused as a value, or its name is missed. -/
theorem toMidi_eq_error {fault : Fault} (h : toMidi word = .error fault) :
    fault.kind = .value ∨ ∃ name octave, Notates word name octave ∧ name ∈ unlisted ∧
      fault = .missingNoteName name := by
  cases hread : read word with
  | error early =>
    rw [toMidi, hread, Play.error_bind] at h
    rw [← Except.error.inj h]
    exact .inl (kind_of_read hread)
  | ok note =>
    obtain ⟨name, octave⟩ := note
    have hnotates := read_eq_ok_iff.mp hread
    cases hlookup : table.lookup name with
    | none =>
      have hname := hnotates.lookup_eq_none_iff.mp hlookup
      rw [toMidi_of_unlisted hnotates hname] at h
      exact .inr ⟨name, octave, hnotates, hname, (Except.error.inj h).symm⟩
    | some pc =>
      rw [toMidi_of_lookup hnotates hlookup] at h
      exact nomatch h

/-! ## Elements -/

/-- The word is a note with a name in use, and this is its number in decimal. -/
def HasNumber (word number : String) : Prop :=
  ∃ name octave pc, Notates word name octave ∧ table.lookup name = some pc ∧
    decimal (midiNumber octave pc) = .ok number

/-- The word is a note with an unlisted name. -/
def IsUnlisted (word : String) : Prop :=
  ∃ name octave, Notates word name octave ∧ name ∈ unlisted

/-- What an element of a tape becomes: its number, or itself when it has none. -/
inductive Converts (word : String) : String → Prop
  | number {number : String} (h : HasNumber word number) : Converts word number
  | other (h : ∀ number, ¬ HasNumber word number) : Converts word word

theorem toMidi_bind_decimal_eq_ok_iff :
    toMidi word >>= decimal = .ok number ↔ HasNumber word number := by
  constructor
  · intro h
    obtain ⟨midi, hmidi, hnumber⟩ := Play.exists_of_bind_eq_ok h
    obtain ⟨name, octave, pc, hnotates, hlookup, rfl⟩ := toMidi_eq_ok_iff.mp hmidi
    exact ⟨name, octave, pc, hnotates, hlookup, hnumber⟩
  · rintro ⟨name, octave, pc, hnotates, hlookup, hnumber⟩
    rw [toMidi_of_lookup hnotates hlookup, Play.ok_bind, hnumber]

/-- Without an unlisted name, a failure is the input's fault. -/
theorem isInput_of_toMidi (hlisted : ¬ IsUnlisted word) {fault : Fault}
    (h : toMidi word >>= decimal = .error fault) : fault.isInput = true := by
  cases hmidi : toMidi word with
  | error early =>
    rw [hmidi, Play.error_bind] at h
    rw [← Except.error.inj h]
    rcases toMidi_eq_error hmidi with hkind | ⟨name, octave, hnotates, hname, -⟩
    · rw [Fault.isInput, hkind]
    · exact absurd ⟨name, octave, hnotates, hname⟩ hlisted
  | ok midi =>
    rw [hmidi, Play.ok_bind] at h
    rw [decimal_eq_error h]
    rfl

/-- A rest is no note, so it needs no case of its own. -/
theorem toMidiElement_eq (word : String) :
    toMidiElement word =
      match toMidi word >>= decimal with
      | .ok number => .ok number
      | .error fault => if fault.isInput then .ok word else .error fault := by
  unfold toMidiElement
  split
  · next hrest =>
    obtain rfl := hrest
    rfl
  · rfl

theorem toMidiElement_of_hasNumber (h : HasNumber word number) :
    toMidiElement word = .ok number := by
  rw [toMidiElement_eq, toMidi_bind_decimal_eq_ok_iff.mpr h]

/-- An unlisted name is not recovered from. -/
theorem toMidiElement_of_unlisted (h : Notates word name octave) (hname : name ∈ unlisted) :
    toMidiElement word = .error (.missingNoteName name) := by
  rw [toMidiElement_eq, toMidi_of_unlisted h hname]
  rfl

/-- Whatever else there is stays as it is. -/
theorem toMidiElement_of_other (hnone : ∀ number, ¬ HasNumber word number)
    (hlisted : ¬ IsUnlisted word) : toMidiElement word = .ok word := by
  rw [toMidiElement_eq]
  cases hnumber : toMidi word >>= decimal with
  | ok number => exact absurd (toMidi_bind_decimal_eq_ok_iff.mp hnumber) (hnone number)
  | error fault => exact if_pos (isInput_of_toMidi hlisted hnumber)

theorem exists_converts (word : String) : ∃ result, Converts word result := by
  by_cases h : ∃ number, HasNumber word number
  · obtain ⟨number, hnumber⟩ := h
    exact ⟨number, .number hnumber⟩
  · exact ⟨word, .other (not_exists.mp h)⟩

theorem Converts.toMidiElement_eq (h : Converts word result) (hlisted : ¬ IsUnlisted word) :
    toMidiElement word = .ok result := by
  cases h with
  | number h => exact toMidiElement_of_hasNumber h
  | other h => exact toMidiElement_of_other h hlisted

/-- **An element is converted or stays as it is,** unless it has an unlisted name. -/
theorem toMidiElement_eq_ok_iff :
    toMidiElement word = .ok result ↔ Converts word result ∧ ¬ IsUnlisted word := by
  constructor
  · intro h
    have hlisted : ¬ IsUnlisted word := by
      rintro ⟨name, octave, hnotates, hname⟩
      rw [toMidiElement_of_unlisted hnotates hname] at h
      exact nomatch h
    obtain ⟨converted, hconverted⟩ := exists_converts word
    obtain rfl := Except.ok.inj ((hconverted.toMidiElement_eq hlisted).symm.trans h)
    exact ⟨hconverted, hlisted⟩
  · rintro ⟨hconverts, hlisted⟩
    exact hconverts.toMidiElement_eq hlisted

theorem exists_toMidiElement_iff :
    (∃ result, toMidiElement word = .ok result) ↔ ¬ IsUnlisted word := by
  constructor
  · rintro ⟨result, h⟩
    exact (toMidiElement_eq_ok_iff.mp h).2
  · intro hlisted
    obtain ⟨result, hresult⟩ := exists_converts word
    exact ⟨result, hresult.toMidiElement_eq hlisted⟩

/-- An element becomes one element. -/
theorem Converts.isWord (h : Converts word result) (hword : Text.IsWord word) :
    Text.IsWord result := by
  cases h with
  | number h =>
    obtain ⟨_, _, _, -, -, hnumber⟩ := h
    exact (isElement_of_decimal hnumber).isWord
  | other => exact hword

/-! ## Tapes -/

variable {text tape : String} {fault : Fault}

theorem exists_toMidiTape_iff :
    (∃ tape, toMidiTape text = .ok tape) ↔ ∀ word ∈ words text, ¬ IsUnlisted word := by
  simp only [← exists_toMidiElement_iff]
  rw [← Play.exists_mapM_eq_ok_iff]
  constructor
  · rintro ⟨tape, htape⟩
    obtain ⟨results, hresults, -⟩ := Play.exists_of_bind_eq_ok htape
    exact ⟨results, hresults⟩
  · rintro ⟨results, hresults⟩
    refine ⟨unwords results, ?_⟩
    rw [toMidiTape, hresults]
    rfl

/-- The elements of the result are what the elements of the text became. -/
theorem converts_words (h : toMidiTape text = .ok tape) :
    tape = unwords (words tape) ∧ List.Forall₂ Converts (words text) (words tape) := by
  obtain ⟨results, hresults, hwritten⟩ := Play.exists_of_bind_eq_ok h
  obtain rfl := Except.ok.inj hwritten
  have hpairs : List.Forall₂ Converts (words text) results :=
    (Play.forall₂_of_mapM_eq_ok hresults).imp fun word result hresult =>
      (toMidiElement_eq_ok_iff.mp hresult).1
  have hwords : words (unwords results) = results :=
    Text.words_unwords <| Play.forall_of_forall₂ hpairs fun word hword result hresult =>
      hresult.isWord (Text.isWord_of_mem_words hword)
  rw [hwords]
  exact ⟨rfl, hpairs⟩

/-- The fault is that of the first note with an unlisted name. -/
theorem exists_unlisted_of_error (h : toMidiTape text = .error fault) :
    ∃ before word after name octave, words text = before ++ word :: after ∧
      (∀ other ∈ before, ¬ IsUnlisted other) ∧ Notates word name octave ∧ name ∈ unlisted ∧
      fault = .missingNoteName name := by
  have hmap : (words text).mapM toMidiElement = .error fault := by
    cases hresults : (words text).mapM toMidiElement with
    | ok results =>
      rw [toMidiTape, hresults] at h
      exact nomatch h
    | error early =>
      rw [toMidiTape, hresults] at h
      exact congrArg Except.error (Except.error.inj h)
  obtain ⟨before, word, after, hsplit, hbefore, hword⟩ := Play.exists_of_mapM_eq_error hmap
  have hunlisted : IsUnlisted word := by
    by_contra hlisted
    obtain ⟨result, hresult⟩ := exists_toMidiElement_iff.mpr hlisted
    rw [hword] at hresult
    exact nomatch hresult
  obtain ⟨name, octave, hnotates, hname⟩ := hunlisted
  have hfault := hword.symm.trans (toMidiElement_of_unlisted hnotates hname)
  exact ⟨before, word, after, name, octave, hsplit,
    fun other hother => exists_toMidiElement_iff.mp (hbefore other hother), hnotates, hname,
    Except.error.inj hfault⟩

/-- **A tape of notes is converted element by element,** unless there is a note with an unlisted
name on it.  The first of these is a fault of another sort than those of the input. -/
theorem toMidiTape_converts (text : String) :
    ((∃ tape, toMidiTape text = .ok tape) ↔ ∀ word ∈ words text, ¬ IsUnlisted word) ∧
    (∀ tape, toMidiTape text = .ok tape →
      tape = unwords (words tape) ∧ List.Forall₂ Converts (words text) (words tape)) ∧
    (∀ fault, toMidiTape text = .error fault → fault.isInput = false ∧
      ∃ before word after name octave, words text = before ++ word :: after ∧
        (∀ other ∈ before, ¬ IsUnlisted other) ∧ Notates word name octave ∧ name ∈ unlisted ∧
        fault = .missingNoteName name) := by
  refine ⟨exists_toMidiTape_iff, fun tape => converts_words, fun fault hfault => ?_⟩
  obtain ⟨before, word, after, name, octave, hsplit, hbefore, hnotates, hname, rfl⟩ :=
    exists_unlisted_of_error hfault
  exact ⟨rfl, before, word, after, name, octave, hsplit, hbefore, hnotates, hname, rfl⟩

/-- C flat is a spelling without a number, and a note before it does not help. -/
theorem toMidiTape_converts_flat : ¬ ∃ tape, toMidiTape "60 Cb4" = .ok tape := by
  have hnotates : Notates "Cb4" "Cb" 4 := read_eq_ok_iff.mp (by decide +kernel)
  rw [(toMidiTape_converts "60 Cb4").1]
  intro hlisted
  exact hlisted "Cb4" (by decide +kernel) ⟨"Cb", 4, hnotates, by decide⟩

end NoteName
end NoteTape
