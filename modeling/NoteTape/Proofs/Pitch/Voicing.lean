import NoteTape.Pitch.Voicing
import NoteTape.Proofs.Pitch.Chord
import NoteTape.Proofs.Pitch.Spelling

/-!
# Voicings on a root

A voicing moves single tones of a close chord by an octave, `Shifts`.  A chord of the table is a
stack, so the second tone from the top is the lowest one when it has been dropped, and sorting puts
it there, `Shifts.layOut_eq`.

The root is read with the digit four behind it.  So a name in use stands in octave four, but it is
not the only text that can be read: a minus sign and digits may follow the name, and the four is the
last digit of the octave that they write, `Rooted`.  A name that is in no table is missed, as it is
in a note.  What is meant, a chord in octave four on a name in use or else a refusal, is
`Promised`.  It is kept exactly for a name in use, and for a root that is refused without being
missed, `chordTape_promised_iff`.
-/

namespace NoteTape

open NoteName (Notates Shaped midiNumber minus spellings table toMidi unlisted)
open Text (isDigit unwords)

/-! ## Octave shifts -/

namespace Voicing

/-- The tones of a close chord and those of a voicing of it. -/
inductive Shifts : Voicing → List Int → List Int → Prop
  | close (tones : List Int) : Shifts close tones tones
  | spread (low high : Int) (middle : List Int) :
      Shifts spread (low :: (middle ++ [high])) ((low - 12) :: (middle ++ [high + 12]))
  | three {tones : List Int} (h : tones.length ≤ 3) : Shifts dropTwo tones tones
  | four {lower : List Int} (second high : Int) (h : 2 ≤ lower.length) :
      Shifts dropTwo (lower ++ [second, high]) ((second - 12) :: (lower ++ [high]))

theorem spreadOut_append (low high : Int) (middle : List Int) :
    spreadOut (low :: (middle ++ [high])) = (low - 12) :: (middle ++ [high + 12]) := by
  cases middle with
  | nil => rfl
  | cons second rest =>
    rw [List.cons_append, spreadOut, ← List.cons_append, List.dropLast_concat, List.getLast?_concat]
    rfl

/-- Tones are sorted in one way. -/
theorem mergeSort_eq_of_perm {tones sorted : List Int} (hperm : tones.Perm sorted)
    (hsorted : sorted.Pairwise (· ≤ ·)) :
    tones.mergeSort (fun a b => decide (a ≤ b)) = sorted := by
  have hmerged : (tones.mergeSort fun a b => decide (a ≤ b)).Pairwise
      fun a b => decide (a ≤ b) = true := by
    refine List.pairwise_mergeSort (fun a b c hab hbc => ?_) (fun a b => ?_) _
    · rw [decide_eq_true_eq] at hab hbc ⊢
      exact Int.le_trans hab hbc
    · rw [Bool.or_eq_true, decide_eq_true_eq, decide_eq_true_eq]
      exact Int.le_total a b
  simp only [decide_eq_true_eq] at hmerged
  exact List.Perm.eq_of_pairwise (fun a b _ _ hab hba => Int.le_antisymm hab hba) hmerged hsorted
    ((List.mergeSort_perm _ _).trans hperm)

/-- The tone that is dropped falls below the others of the stack. -/
theorem mergeSort_dropped {lower : List Int} {second high : Int}
    (h : IsStack (lower ++ [second, high])) :
    ((lower ++ [high]) ++ [second - 12]).mergeSort (fun a b => decide (a ≤ b)) =
      (second - 12) :: (lower ++ [high]) := by
  have hsublist : (lower ++ [high]).Sublist (lower ++ [second, high]) :=
    (List.Sublist.cons second (List.Sublist.refl [high])).append_left lower
  refine mergeSort_eq_of_perm (List.perm_append_singleton _ _) (List.pairwise_cons.mpr ⟨?_, ?_⟩)
  · intro tone htone
    -- no tone of the stack is an octave above another
    have hlt := h.within tone (hsublist.subset htone) second (by simp)
    rw [octaveSize] at hlt
    omega
  · exact (h.rising.sublist hsublist).imp Int.le_of_lt

theorem dropSecond_append {lower : List Int} {second high : Int} (hlength : 2 ≤ lower.length)
    (h : IsStack (lower ++ [second, high])) :
    dropSecond (lower ++ [second, high]) = (second - 12) :: (lower ++ [high]) := by
  have hplace : (lower ++ [second, high]).length - 2 = lower.length := by
    rw [List.length_append]
    rfl
  have hlong : ¬ (lower ++ [second, high]).length ≤ 3 := by
    rw [List.length_append, List.length_cons, List.length_singleton]
    omega
  have hsecond : (lower ++ [second, high]).getD lower.length 0 = second := by
    rw [List.getD_append_right _ _ _ _ (Nat.le_refl _), Nat.sub_self]
    rfl
  have hothers : (lower ++ [second, high]).eraseIdx lower.length = lower ++ [high] := by
    rw [List.eraseIdx_append_of_length_le (Nat.le_refl _), Nat.sub_self]
    rfl
  rw [dropSecond, if_neg hlong]
  dsimp only
  rw [hplace, hsecond, hothers]
  exact mergeSort_dropped h

variable {voicing : Voicing} {tones voiced : List Int}

/-- **A stack is laid out by the octave shifts of its voicing.** -/
theorem Shifts.layOut_eq (h : Shifts voicing tones voiced) (hstack : IsStack tones) :
    voicing.layOut tones = voiced := by
  cases h with
  | close => rfl
  | spread low high middle => exact spreadOut_append low high middle
  | three hlength => exact if_pos hlength
  | four second high hlength => exact dropSecond_append hlength hstack

/-- Two tones have a lowest and a highest one, and four have a second from the top. -/
theorem exists_shifts (voicing : Voicing) (h : 2 ≤ tones.length) :
    ∃ voiced, Shifts voicing tones voiced := by
  obtain rfl | ⟨init, high, rfl⟩ := List.eq_nil_or_concat' tones
  · exact absurd h (by decide)
  · rw [List.length_append, List.length_singleton] at h
    cases voicing with
    | close => exact ⟨_, .close _⟩
    | spread =>
      cases init with
      | nil => exact absurd h (by decide)
      | cons low middle => exact ⟨_, .spread low high middle⟩
    | dropTwo =>
      rcases Nat.lt_or_ge init.length 3 with hshort | hlong
      · exact ⟨_, .three (by rw [List.length_append, List.length_singleton]; omega)⟩
      · obtain rfl | ⟨lower, second, rfl⟩ := List.eq_nil_or_concat' init
        · exact absurd hlong (by decide)
        · rw [List.length_append, List.length_singleton] at hlong
          rw [List.append_assoc]
          exact ⟨_, .four second high (by omega)⟩

/-- **A stack has one voicing,** and it is the one that is laid out. -/
theorem shifts_iff (hstack : IsStack tones) (h : 2 ≤ tones.length) :
    Shifts voicing tones voiced ↔ voiced = voicing.layOut tones := by
  constructor
  · intro hshifts
    exact (hshifts.layOut_eq hstack).symm
  · rintro rfl
    obtain ⟨voiced, hshifts⟩ := exists_shifts voicing h
    rwa [hshifts.layOut_eq hstack]

/-- No tone is moved by more than an octave. -/
theorem Shifts.exists_near (h : Shifts voicing tones voiced) {tone : Int} (htone : tone ∈ voiced) :
    ∃ near ∈ tones, near - 12 ≤ tone ∧ tone ≤ near + 12 := by
  cases h with
  | close => exact ⟨tone, htone, by omega⟩
  | spread low high middle =>
    rcases List.mem_cons.mp htone with rfl | htone
    · exact ⟨low, List.mem_cons_self .., by omega⟩
    · rcases List.mem_append.mp htone with htone | htone
      · exact ⟨tone, List.mem_cons_of_mem _ (List.mem_append_left _ htone), by omega⟩
      · obtain rfl := List.mem_singleton.mp htone
        exact ⟨high, by simp, by omega⟩
  | three => exact ⟨tone, htone, by omega⟩
  | @four lower second high =>
    rcases List.mem_cons.mp htone with rfl | htone
    · exact ⟨second, by simp, by omega⟩
    · refine ⟨tone, ?_, by omega⟩
      rw [List.mem_append, List.mem_singleton] at htone
      rw [List.mem_append, List.mem_cons, List.mem_singleton]
      exact htone.imp_right .inr

end Voicing

/-! ## Roots -/

namespace NoteName

variable {root name name' : String} {octave octave' pc : Int} {cs letters digits : List Char}
  {negative : Bool}

/-- A root that can be read: a spelling, possibly a minus sign, and digits, which may be missing.
With a four behind them the digits write the octave. -/
def Rooted (root name : String) (octave : Int) : Prop :=
  ∃ negative digits, root.toList = name.toList ++ (minus negative ++ digits) ∧
    name.toList ∈ spellings ∧ (∀ d ∈ digits, isDigit d = true) ∧ digits.length < digitLimit ∧
    octave = Binary64.signed negative (10 * Text.natural digits + 4)

theorem natural_concat_four (digits : List Char) :
    Text.natural (digits ++ ['4']) = 10 * Text.natural digits + 4 :=
  natural_concat (by decide) digits

/-- The four behind a note is the last of its digits. -/
theorem shaped_concat_four_iff :
    Shaped (cs ++ ['4']) letters negative digits ↔ ∃ front, digits = front ++ ['4'] ∧
      cs = letters ++ (minus negative ++ front) ∧ letters ∈ spellings ∧
      ∀ d ∈ front, isDigit d = true := by
  constructor
  · rintro ⟨hcs, hmem, hne, hdigits⟩
    -- a note has a digit, so its last character is one
    obtain rfl | ⟨front, last, rfl⟩ := List.eq_nil_or_concat' digits
    · exact absurd rfl hne
    · rw [← List.append_assoc, ← List.append_assoc] at hcs
      obtain ⟨hfront, hlast⟩ := List.append_inj' hcs rfl
      obtain rfl := List.singleton_inj.mp hlast
      rw [List.append_assoc] at hfront
      exact ⟨front, rfl, hfront, hmem, fun d hd => hdigits d (List.mem_append_left _ hd)⟩
  · rintro ⟨front, rfl, rfl, hmem, hfront⟩
    refine ⟨?_, hmem, List.concat_ne_nil _ _, ?_⟩
    · rw [List.append_assoc, List.append_assoc]
    · rw [List.forall_mem_append]
      exact ⟨hfront, List.forall_mem_singleton.mpr (by decide)⟩

/-- **A root is read** as the note that it is with a four behind it. -/
theorem notates_append_four_iff : Notates (root ++ "4") name octave ↔ Rooted root name octave := by
  have htext : (root ++ "4").toList = root.toList ++ ['4'] := String.toList_append
  constructor
  · rintro ⟨negative, digits, hshaped, hlength, rfl⟩
    rw [htext, shaped_concat_four_iff] at hshaped
    obtain ⟨front, rfl, hroot, hmem, hfront⟩ := hshaped
    rw [List.length_append, List.length_singleton] at hlength
    rw [natural_concat_four]
    exact ⟨negative, front, hroot, hmem, hfront, hlength, rfl⟩
  · rintro ⟨negative, front, hroot, hmem, hfront, hlength, rfl⟩
    refine ⟨negative, front ++ ['4'], ?_, ?_, ?_⟩
    · rw [htext, shaped_concat_four_iff]
      exact ⟨front, rfl, hroot, hmem, hfront⟩
    · rw [List.length_append, List.length_singleton]
      exact hlength
    · rw [natural_concat_four]

theorem Rooted.unique (h : Rooted root name octave) (h' : Rooted root name' octave') :
    name = name' ∧ octave = octave' := by
  have hread := read_eq_ok_iff.mpr (notates_append_four_iff.mpr h)
  rw [read_eq_ok_iff.mpr (notates_append_four_iff.mpr h')] at hread
  obtain ⟨rfl, rfl⟩ := Prod.mk.inj (Except.ok.inj hread)
  exact ⟨rfl, rfl⟩

/-- **A name in use is a root in octave four.** -/
theorem rooted_of_lookup (h : table.lookup root = some pc) : Rooted root root 4 := by
  refine ⟨false, [], ?_, (of_lookup h).1, ?_, by decide, rfl⟩
  · exact (List.append_nil _).symm
  · intro d hd
    exact absurd hd List.not_mem_nil

theorem midiNumber_four (pc : Int) : midiNumber 4 pc = 60 + pc := rfl

end NoteName

/-! ## Chords on a root -/

namespace Voicing

open NoteName (Rooted rooted_of_lookup notates_append_four_iff)

variable {type : ChordType} {voicing : Voicing} {root style tape : String} {fault : Fault}

/-- The tape of a chord on a root: its tones in the octave of the root, each of them short enough to
be written. -/
def Sounds (root : String) (type : ChordType) (style tape : String) : Prop :=
  ∃ voicing name octave pc tones, named style = .ok voicing ∧ Rooted root name octave ∧
    table.lookup name = some pc ∧
    Shifts voicing (type.intervals.map (midiNumber octave pc + ·)) tones ∧
    (∀ tone ∈ tones, tone.natAbs < decimalBound) ∧ tape = unwords (tones.map toString)

/-- The fault of a root with an unlisted name. -/
def Misses (root style : String) (fault : Fault) : Prop :=
  ∃ voicing name octave, named style = .ok voicing ∧ Rooted root name octave ∧ name ∈ unlisted ∧
    fault = .missingNoteName name

/-- What is meant by a chord on a root: a voicing in octave four when the root is a name in use, or
else a refusal as a value. -/
def Promised (root : String) (type : ChordType) (style : String) : Except Fault String → Prop :=
  Play.Verdict
    (fun tape => ∃ voicing pc tones, named style = .ok voicing ∧ table.lookup root = some pc ∧
      Shifts voicing (type.intervals.map (60 + pc + ·)) tones ∧ tape = unwords (tones.map toString))
    fun fault => fault.kind = .value

theorem kind_of_named (h : named style = .error fault) : fault.kind = .value := by
  unfold named at h
  split at h
  · exact nomatch h
  · exact nomatch h
  · exact nomatch h
  · obtain rfl := Except.error.inj h
    rfl

theorem chordTape_eq (hstyle : named style = .ok voicing) (htype : type ∈ ChordType.all) :
    chordTape root type.name style = toMidi (root ++ "4") >>= fun low => do
      return unwords (← (voicing.layOut (type.intervals.map (low + ·))).mapM decimal) := by
  rw [chordTape, hstyle, Play.ok_bind, ChordType.named_name htype]
  rfl

theorem shifts_intervals_iff (htype : type ∈ ChordType.all) {low : Int} {tones : List Int} :
    Shifts voicing (type.intervals.map (low + ·)) tones ↔
      tones = voicing.layOut (type.intervals.map (low + ·)) := by
  refine shifts_iff ((ChordType.isStack_intervals htype).shifted low) ?_
  rw [List.length_map]
  exact (ChordType.two_lt_length_intervals htype).le

/-- **What is written is the voicing on the root.** -/
theorem chordTape_eq_ok_iff (htype : type ∈ ChordType.all) :
    chordTape root type.name style = .ok tape ↔ Sounds root type style tape := by
  constructor
  · intro h
    cases hstyle : named style with
    | error fault =>
      rw [chordTape, hstyle] at h
      exact nomatch h
    | ok voicing =>
      rw [chordTape_eq hstyle htype] at h
      obtain ⟨low, hlow, h⟩ := Play.exists_of_bind_eq_ok h
      obtain ⟨texts, htexts, h⟩ := Play.exists_of_bind_eq_ok h
      obtain rfl := Except.ok.inj h
      obtain ⟨name, octave, pc, hnotates, hlookup, rfl⟩ := NoteName.toMidi_eq_ok_iff.mp hlow
      obtain ⟨hsmall, rfl⟩ := mapM_decimal_eq_ok_iff.mp htexts
      exact ⟨voicing, name, octave, pc, _, hstyle, notates_append_four_iff.mp hnotates, hlookup,
        (shifts_intervals_iff htype).mpr rfl, hsmall, rfl⟩
  · rintro ⟨voicing, name, octave, pc, tones, hstyle, hroot, hlookup, hshifts, hsmall, rfl⟩
    obtain rfl := (shifts_intervals_iff htype).mp hshifts
    have hlow := NoteName.toMidi_of_lookup (notates_append_four_iff.mpr hroot) hlookup
    rw [chordTape_eq hstyle htype, hlow, Play.ok_bind, mapM_decimal_eq_ok_iff.mpr ⟨hsmall, rfl⟩]
    rfl

theorem chordTape_of_misses (htype : type ∈ ChordType.all) (h : Misses root style fault) :
    chordTape root type.name style = .error fault := by
  obtain ⟨voicing, name, octave, hstyle, hroot, hname, rfl⟩ := h
  rw [chordTape_eq hstyle htype,
    NoteName.toMidi_of_unlisted (notates_append_four_iff.mpr hroot) hname, Play.error_bind]

/-- A chord that is not written is refused as a value, or the name of its root is missed. -/
theorem chordTape_eq_error (htype : type ∈ ChordType.all)
    (h : chordTape root type.name style = .error fault) :
    fault.kind = .value ∨ Misses root style fault := by
  cases hstyle : named style with
  | error early =>
    rw [chordTape, hstyle] at h
    obtain rfl := Except.error.inj h
    exact .inl (kind_of_named hstyle)
  | ok voicing =>
    rw [chordTape_eq hstyle htype] at h
    cases hlow : toMidi (root ++ "4") with
    | error early =>
      rw [hlow] at h
      obtain rfl := Except.error.inj h
      refine (NoteName.toMidi_eq_error hlow).imp_right ?_
      rintro ⟨name, octave, hnotates, hname, rfl⟩
      exact ⟨voicing, name, octave, hstyle, notates_append_four_iff.mp hnotates, hname, rfl⟩
    | ok low =>
      rw [hlow, Play.ok_bind] at h
      cases htexts : (voicing.layOut (type.intervals.map (low + ·))).mapM decimal with
      | error early =>
        rw [htexts] at h
        obtain rfl := Except.error.inj h
        rw [mapM_decimal_eq_error htexts]
        exact .inl rfl
      | ok texts =>
        rw [htexts] at h
        exact nomatch h

/-- **A name in use has a chord in every voicing.** -/
theorem exists_sounds (htype : type ∈ ChordType.all) (hstyle : named style = .ok voicing) {pc : Int}
    (hroot : table.lookup root = some pc) : ∃ tape, Sounds root type style tape := by
  obtain ⟨tones, hshifts⟩ : ∃ tones,
      Shifts voicing (type.intervals.map (midiNumber 4 pc + ·)) tones :=
    ⟨_, (shifts_intervals_iff htype).mpr rfl⟩
  refine ⟨_, voicing, root, 4, pc, tones, hstyle, rooted_of_lookup hroot, hroot, hshifts, ?_, rfl⟩
  intro tone htone
  obtain ⟨near, hnear, hlow, hhigh⟩ := hshifts.exists_near htone
  obtain ⟨interval, hinterval, rfl⟩ := List.mem_map.mp hnear
  obtain ⟨-, hpc⟩ := NoteName.of_lookup hroot
  have hinterval := ChordType.interval_mem htype interval hinterval
  rw [NoteName.midiNumber_four] at hlow hhigh
  exact lt_decimalBound (by omega)

/-- **What is meant is given** for a name in use, and when neither a chord nor a missed name is. -/
theorem promised_iff (htype : type ∈ ChordType.all) :
    Promised root type style (chordTape root type.name style) ↔
      (∃ pc, table.lookup root = some pc) ∨
        (∀ tape, ¬ Sounds root type style tape) ∧ ∀ fault, ¬ Misses root style fault := by
  constructor
  · intro h
    by_cases hroot : ∃ pc, table.lookup root = some pc
    · exact .inl hroot
    · refine .inr ⟨fun tape htape => ?_, fun fault hfault => ?_⟩
      · rw [(chordTape_eq_ok_iff htype).mpr htape] at h
        obtain ⟨_, pc, _, _, hlookup, -⟩ := h
        exact hroot ⟨pc, hlookup⟩
      · rw [chordTape_of_misses htype hfault] at h
        obtain ⟨_, name, _, _, _, _, rfl⟩ := hfault
        exact nomatch (show FaultKind.missing = .value from h)
  · intro h
    cases hanswer : chordTape root type.name style with
    | ok tape =>
      have hsounds := (chordTape_eq_ok_iff htype).mp hanswer
      rcases h with ⟨pc, hlookup⟩ | ⟨hsilent, -⟩
      · -- a name in use is read as itself, and in octave four
        obtain ⟨voicing, _, _, pc', tones, hstyle, hroot, hlookup', hshifts, -, rfl⟩ := hsounds
        obtain ⟨rfl, rfl⟩ := hroot.unique (rooted_of_lookup hlookup)
        exact ⟨voicing, pc', tones, hstyle, hlookup', hshifts, rfl⟩
      · exact absurd hsounds (hsilent tape)
    | error fault =>
      rcases chordTape_eq_error htype hanswer with hkind | hmisses
      · exact hkind
      · rcases h with ⟨pc, hlookup⟩ | ⟨-, hnone⟩
        · obtain ⟨_, _, _, _, hroot, hname, -⟩ := hmisses
          obtain ⟨rfl, -⟩ := hroot.unique (rooted_of_lookup hlookup)
          have hmissing := (notates_append_four_iff.mpr hroot).lookup_eq_none_iff.mpr hname
          exact nomatch hmissing.symm.trans hlookup
        · exact absurd hmisses (hnone fault)

/-- **A chord is written in the octave of its root,** for every root that can be read, and with no
other fault than a refused value and a missed name.  On a name in use it is always written.  What is
meant, octave four on a name in use or a refusal, is given except for the other roots that are
read. -/
theorem chordTape_promised_iff {type : ChordType} (htype : type ∈ ChordType.all)
    (root style : String) :
    (∀ tape, chordTape root type.name style = .ok tape ↔ Sounds root type style tape) ∧
    (∀ fault, Misses root style fault → chordTape root type.name style = .error fault) ∧
    (∀ fault, chordTape root type.name style = .error fault →
      fault.kind = .value ∨ Misses root style fault) ∧
    (∀ voicing pc, named style = .ok voicing → table.lookup root = some pc →
      ∃ tape, chordTape root type.name style = .ok tape) ∧
    (Promised root type style (chordTape root type.name style) ↔
      (∃ pc, table.lookup root = some pc) ∨
        (∀ tape, ¬ Sounds root type style tape) ∧ ∀ fault, ¬ Misses root style fault) := by
  refine ⟨fun tape => chordTape_eq_ok_iff htype, fun fault => chordTape_of_misses htype,
    fun fault => chordTape_eq_error htype, fun voicing pc hstyle hroot => ?_, promised_iff htype⟩
  obtain ⟨tape, htape⟩ := exists_sounds htype hstyle hroot
  exact ⟨tape, (chordTape_eq_ok_iff htype).mpr htape⟩

/-- C flat is missed, and a digit behind the C is read as one of the octave. -/
theorem chordTape_promised_iff_flat :
    ⟨"major", [0, 4, 7]⟩ ∈ ChordType.all ∧
    ¬ Promised "Cb" ⟨"major", [0, 4, 7]⟩ "close" (chordTape "Cb" "major" "close") ∧
    chordTape "C1" "major" "close" = .ok "180 184 187" ∧
    ¬ Promised "C1" ⟨"major", [0, 4, 7]⟩ "close" (chordTape "C1" "major" "close") := by
  have htype : (⟨"major", [0, 4, 7]⟩ : ChordType) ∈ ChordType.all := List.mem_cons_self ..
  have hwritten : chordTape "C1" "major" "close" = .ok "180 184 187" := by decide +kernel
  have hflat : Rooted "Cb" "Cb" 4 :=
    notates_append_four_iff.mp (NoteName.read_eq_ok_iff.mp (by decide +kernel))
  obtain ⟨-, -, -, -, hpromised⟩ := chordTape_promised_iff htype "Cb" "close"
  obtain ⟨hsounds, -, -, -, hpromised'⟩ := chordTape_promised_iff htype "C1" "close"
  refine ⟨htype, ?_, hwritten, ?_⟩
  · rw [hpromised]
    rintro (⟨pc, hlookup⟩ | ⟨-, hnone⟩)
    · exact nomatch (show table.lookup "Cb" = none by decide).symm.trans hlookup
    · exact hnone _ ⟨.close, "Cb", 4, rfl, hflat, by decide, rfl⟩
  · rw [hpromised']
    rintro (⟨pc, hlookup⟩ | ⟨hsilent, -⟩)
    · exact nomatch (show table.lookup "C1" = none by decide).symm.trans hlookup
    · exact hsilent _ ((hsounds _).mp hwritten)

end Voicing
end NoteTape
