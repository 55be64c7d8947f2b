import NoteTape.Melody.Development
import NoteTape.Proofs.Tape.Pass
import NoteTape.Proofs.Tape.Symmetry

/-!
# The notes of a tape

What counts for arithmetic on a tape are its notes: the integers in order, with nothing at the rests.
Notes are written as a tape, `score`, unless one of them has too many digits, `exists_score_iff`, and
the notes of that tape are the same ones, `notesOf_of_score`.  On the way from a tape to its notes and
back only the forms of its integers are lost, `score_notesOf`.

So a pass over a pattern is a function of notes in writing, `answers_mapIntegers_ok`.  An operation
that follows begins with these notes, `Answers.bind_score`, and laws about several operations one after
the other are laws about functions of notes.
-/

namespace NoteTape
namespace Tape

open Melody (Notes notesOf)
open Play (Answers)
open Text (unwords words)

variable {voice : List (Option Int)} {elements texts : List String} {pattern tape text : String}
  {g : Int → Int}

/-! ## Notes in writing -/

/-- A place of a line as an element. -/
def noteElement : Option Int → Except Fault String
  | none => .ok "-"
  | some q => decimal q

theorem noteElement_some (q : Int) : noteElement (some q) = decimal q := by
  rw [noteElement]

theorem isElement_of_noteElement {note : Option Int} {text : String} (h : noteElement note = .ok text) :
    IsElement text := by
  cases note with
  | none => exact .inl (Except.ok.inj h).symm
  | some q =>
    rw [noteElement_some] at h
    exact isElement_of_decimal h

theorem integer?_of_noteElement {note : Option Int} {text : String} (h : noteElement note = .ok text) :
    integer? text = note := by
  cases note with
  | none =>
    obtain rfl := Except.ok.inj h
    rfl
  | some q =>
    rw [noteElement_some] at h
    exact integer?_of_decimal h

/-- A line can be written when its notes can. -/
theorem exists_mapM_noteElement_iff :
    (∃ texts, voice.mapM noteElement = .ok texts) ↔ ∀ q, some q ∈ voice → q.natAbs < decimalBound := by
  rw [Play.exists_mapM_eq_ok_iff]
  constructor
  · intro h q hq
    by_contra hlong
    obtain ⟨text, htext⟩ := h _ hq
    rw [noteElement_some, decimal_of_not_lt hlong] at htext
    exact nomatch htext
  · intro h note hnote
    cases note with
    | none => exact ⟨"-", rfl⟩
    | some q =>
      rw [noteElement_some]
      exact exists_decimal (h q hnote)

theorem mapM_noteElement_eq_error {fault : Fault} (h : voice.mapM noteElement = .error fault) :
    fault = .integerTooLong := by
  obtain ⟨_, note, _, -, -, hfault⟩ := Play.exists_of_mapM_eq_error h
  cases note with
  | none => exact nomatch hfault
  | some q =>
    rw [noteElement_some] at hfault
    exact decimal_eq_error hfault

theorem isElement_of_mapM_noteElement (h : voice.mapM noteElement = .ok texts) :
    ∀ text ∈ texts, IsElement text :=
  Play.forall_of_forall₂ (Play.forall₂_of_mapM_eq_ok h) fun _ _ _ => isElement_of_noteElement

/-- A line that was written is read again. -/
theorem map_integer?_of_mapM_noteElement (h : voice.mapM noteElement = .ok texts) :
    texts.map integer? = voice := by
  have hpairs := Play.forall₂_of_mapM_eq_ok h
  clear h
  induction hpairs with
  | nil => rfl
  | cons htext _ ih => rw [List.map_cons, integer?_of_noteElement htext, ih]

/-! ## Notes as a tape -/

/-- Some notes as a tape. -/
def score (notes : Notes) : Except Fault String := do
  return unwords (← notes.mapM noteElement)

/-- No note has too many digits. -/
def IsShort (notes : Notes) : Prop := ∀ n, some n ∈ notes → n.natAbs < decimalBound

variable {notes : Notes}

theorem isShort_of_lt (h : ∀ note ∈ notes, ∀ n ∈ note, n.natAbs < 2 ^ 67) : IsShort notes :=
  fun n hn => lt_decimalBound (h (some n) hn n rfl)

theorem exists_of_score (h : score notes = .ok text) :
    ∃ texts, notes.mapM noteElement = .ok texts ∧ text = unwords texts := by
  obtain ⟨texts, htexts, h⟩ := Play.exists_of_bind_eq_ok h
  exact ⟨texts, htexts, (Except.ok.inj h).symm⟩

/-- **Notes are written unless one of them is too long.** -/
theorem exists_score_iff : (∃ text, score notes = .ok text) ↔ IsShort notes := by
  rw [IsShort, ← exists_mapM_noteElement_iff]
  constructor
  · rintro ⟨text, h⟩
    obtain ⟨texts, htexts, -⟩ := exists_of_score h
    exact ⟨texts, htexts⟩
  · rintro ⟨texts, htexts⟩
    exact ⟨unwords texts, by rw [score, htexts]; rfl⟩

/-- **Notes that were written are those of the tape.** -/
theorem notesOf_of_score (h : score notes = .ok text) : IsTape text ∧ notesOf text = notes := by
  obtain ⟨texts, htexts, rfl⟩ := exists_of_score h
  have helements := isElement_of_mapM_noteElement htexts
  refine ⟨⟨texts, helements, rfl⟩, ?_⟩
  rw [notesOf, Text.words_unwords fun text htext => (helements text htext).isWord,
    map_integer?_of_mapM_noteElement htexts]

theorem noteElement_integer? {element : String} (h : IsElement element) :
    noteElement (integer? element) = .ok (canonical element) := by
  cases hread : integer? element with
  | none => rw [(integer?_eq_none_iff h).mp hread]; rfl
  | some n =>
    rw [noteElement_some, decimal_of_lt (natAbs_lt_of_integer? hread), canonical_of_integer? hread]

theorem mapM_noteElement_integer? (h : ∀ e ∈ elements, IsElement e) :
    (elements.map integer?).mapM noteElement = .ok (elements.map canonical) := by
  rw [List.mapM_map]
  exact (Play.mapM_congr fun e he => noteElement_integer? (h e he)).trans List.mapM_pure

/-- **From the notes of a tape the tape is written again,** with its integers in canonical form. -/
theorem score_notesOf (h : IsTape tape) :
    score (notesOf tape) = .ok (unwords ((words tape).map canonical)) := by
  rw [score, notesOf, mapM_noteElement_integer? fun _ => h.isElement_of_mem_words]
  rfl

/-! ## Passes as functions of notes -/

theorem onInteger_ok {element : String} (g : Int → Int) (h : IsElement element) :
    onInteger (fun n => .ok (g n)) element = noteElement ((integer? element).map g) := by
  cases hread : integer? element with
  | none =>
    rw [onInteger_of_none _ hread, (integer?_eq_none_iff h).mp hread]
    rfl
  | some n => rw [onInteger_of_integer? _ hread, Play.ok_bind, Option.map_some, noteElement_some]

theorem onIntegers_ok (g : Int → Int) (h : ∀ e ∈ elements, IsElement e) :
    onIntegers (fun n => .ok (g n)) elements =
      ((elements.map integer?).map (Option.map g)).mapM noteElement := by
  rw [onIntegers, List.map_map, List.mapM_map]
  exact Play.mapM_congr fun e he => onInteger_ok g (h e he)

/-- **A pass writes what its function makes of the notes.** -/
theorem answers_mapIntegers_ok (g : Int → Int)
    (hcompile : Answers (Pattern.compile .standard pattern) (.ok tape)) (htape : IsTape tape) :
    Answers (mapIntegers (fun n => .ok (g n)) pattern)
      (score ((notesOf tape).map (Option.map g))) := by
  have hanswers := answers_mapIntegers (fun n => .ok (g n)) hcompile
  rwa [onIntegers_ok g fun _ => htape.isElement_of_mem_words] at hanswers

/-! ## One operation after the other -/

variable {p q : Play String} {notes notes' : Notes} {answer : Except Fault String}

/-- **What follows begins with the notes that were written.** -/
theorem Answers.bind_score {next : String → Play String} (hp : Answers p (score notes))
    (hshort : IsShort notes)
    (hnext : ∀ text, IsTape text → notesOf text = notes → Answers (next text) answer) :
    Answers (p >>= next) answer := by
  obtain ⟨text, htext⟩ := exists_score_iff.mpr hshort
  obtain ⟨htape, hnotes⟩ := notesOf_of_score htext
  rw [htext] at hp
  exact hp.bind_ok (hnext text htape hnotes)

/-- Two plays that write the same notes give the same text. -/
theorem Coincide.of_score (hp : Answers p (score notes)) (hq : Answers q (score notes))
    (hshort : IsShort notes) : Coincide p q := by
  obtain ⟨text, htext⟩ := exists_score_iff.mpr hshort
  rw [htext] at hp hq
  exact ⟨text, hp, hq⟩

end Tape
end NoteTape
