import NoteTape.Proofs.Melody.Moves
import NoteTape.Proofs.Number.Comparison
import NoteTape.Proofs.Pitch.Chord
import NoteTape.Proofs.Rhythm.Bjorklund
import NoteTape.Proofs.Rhythm.Resample

/-!
# Bass lines

Over each chord of a progression a bass line has as many notes as there are to a chord.  They begin on
the root and end on a chord tone, whatever the style is, `IsBassLine`.  In between a walk may leave the
chord, by one or two semitones at a time, and as one passing note may follow another it may go on to
leave it.  The other two styles draw nothing: they repeat the root, or take the chord tones in turn.

The draws of a walk look at the note before, so its notes are a trace, and the invariant is that of a
single step, `returns_bassStep`.  With a complexity of zero passing notes and rests have the probability
zero, and then all notes are chord tones and all of them sound, `settles_bassNotes_never` and
`settles_withRests_never`.

The main result is `generateBass_isBassLine`.
-/

namespace NoteTape

open Play (Returns Settles Traced)
open Text (unwords words)

namespace Melody

variable {spec : BassSpec} {style : BassStyle} {tones : ChordTones} {symbol : String} {octave : Int}
  {count place : Nat} {previous note : Int} {ratio : Quantity}

theorem tenths_of_clamp {setting : Quantity} (h : setting.clamp = 0) : tenths setting = .ok .never := by
  rw [tenths, h]
  decide

/-! ## Chords -/

/-- The tones of the chord that a symbol names, the root in an octave. -/
def IsChordOf (symbol : String) (octave : Int) (tones : ChordTones) : Prop :=
  ∃ root type pc chord, ChordType.ofSymbol symbol = .ok (root, type) ∧
    NoteName.pitchClass root = .ok pc ∧ ChordType.named type = .ok chord ∧
    tones.root = NoteName.midiNumber octave pc ∧
    tones.all = chord.intervals.map (NoteName.midiNumber octave pc + ·)

/-- **The first tone of a chord is its root.** -/
theorem isChordOf_of_chordTones (h : chordTones symbol octave = .ok tones) :
    IsChordOf symbol octave tones := by
  obtain ⟨all, hall, h⟩ := Play.exists_of_bind_eq_ok h
  obtain ⟨⟨root, type⟩, hsymbol, hall⟩ := Play.exists_of_bind_eq_ok hall
  obtain ⟨pc, hroot, hall⟩ := Play.exists_of_bind_eq_ok hall
  obtain ⟨chord, htype, hall⟩ := Play.exists_of_bind_eq_ok hall
  obtain rfl := Except.ok.inj hall
  have hfirst := ChordType.head?_intervals (ChordType.mem_all_of_named htype)
  obtain ⟨others, hintervals⟩ := List.head?_eq_some_iff.mp hfirst
  refine ⟨root, type, pc, chord, hsymbol, hroot, htype, ?_⟩
  rw [hintervals, List.map_cons] at h ⊢
  obtain rfl := Except.ok.inj h
  exact ⟨Int.add_zero _, rfl⟩

theorem ChordTones.root_mem (tones : ChordTones) : tones.root ∈ tones.all := List.mem_cons_self ..

theorem ChordTones.landing_mem (tones : ChordTones) : tones.landing ∈ tones.all := by
  have hlt : min (tones.all.length - 1) 2 < tones.all.length := by
    have hpos : 0 < tones.all.length := List.length_pos_of_mem tones.root_mem
    omega
  rw [ChordTones.landing, List.getD_eq_getElem _ _ hlt]
  exact List.getElem_mem hlt

/-! ## Walks over a chord -/

/-- A note that is one or two semitones from the one before. -/
def IsPassing (previous note : Int) : Prop :=
  (note - previous).natAbs = 1 ∨ (note - previous).natAbs = 2

theorem isPassing_of_mem {step : Int} (h : step ∈ passingSteps) (previous : Int) :
    IsPassing previous (previous + step) := by
  have hsize : ∀ step ∈ passingSteps, step.natAbs = 1 ∨ step.natAbs = 2 := by decide
  have hdifference : previous + step - previous = step := by omega
  rw [IsPassing, hdifference]
  exact hsize step h

/-- A note that may follow another one at a place of a walk: a chord tone, or before the last place a
passing note. -/
def Follows (tones : ChordTones) (count : Nat) (previous : Int) (place : Nat) (note : Int) : Prop :=
  note ∈ tones.all ∨ place + 1 ≠ count ∧ IsPassing previous note

theorem settles_draw {steady : Source → Prop} (tones : ChordTones)
    (h : ∀ n s, steady s → steady (s.index n).2) {bad : Fault → Prop} :
    Settles steady tones.draw (· ∈ tones.all) bad :=
  Play.settles_pick tones.all _ h

/-- The last note of a walk is a chord tone. -/
theorem settles_bassStep_last {steady : Source → Prop} (huniform : ∀ s, steady s → steady s.uniform.2)
    (hindex : ∀ n s, steady s → steady (s.index n).2) (hlast : place + 1 = count) {bad : Fault → Prop} :
    Settles steady (bassStep tones count ratio previous place) (· ∈ tones.all) bad := by
  rw [bassStep, if_pos hlast]
  refine (Play.settles_happens _ huniform).bind fun landed _ => ?_
  cases landed with
  | true => exact .pure tones.landing_mem
  | false => exact settles_draw tones hindex

/-- **One step of a walk.** -/
theorem returns_bassStep (tones : ChordTones) (count : Nat) (ratio : Quantity) (previous : Int)
    (place : Nat) :
    Returns (bassStep tones count ratio previous place) (Follows tones count previous place) := by
  by_cases hlast : place + 1 = count
  · exact (settles_bassStep_last (fun _ _ => trivial) (fun _ _ _ => trivial) hlast).mono
      (fun _ hnote => .inl hnote) fun _ h => h
  · rw [bassStep, if_neg hlast]
    refine (Play.settles_happens ratio fun _ _ => trivial).bind fun passed _ => ?_
    cases passed with
    | true =>
      exact (Play.settles_pick passingSteps _ fun _ _ _ => trivial).bind fun step hstep =>
        .pure (.inr ⟨hlast, isPassing_of_mem hstep previous⟩)
    | false =>
      exact (settles_draw tones fun _ _ _ => trivial).mono (fun _ hnote => .inl hnote) fun _ h => h

/-- Without passing notes every step leads to a chord tone. -/
theorem settles_bassStep_never (tones : ChordTones) (count : Nat) (previous : Int) (place : Nat)
    {bad : Fault → Prop} :
    Settles Source.Fair (bassStep tones count .never previous place) (· ∈ tones.all) bad := by
  by_cases hlast : place + 1 = count
  · exact settles_bassStep_last (fun _ h => h.uniform) (fun n _ h => h.index n) hlast
  · rw [bassStep, if_neg hlast]
    refine Play.settles_happens_never.bind fun passed hnot => ?_
    rw [hnot, if_neg Bool.false_ne_true]
    exact settles_draw tones fun n _ h => h.index n

/-! ## Lines -/

/-- The notes over one chord: they begin on the root and end on a chord tone, and each of the others is
a chord tone or, in a walk, a passing note.  The other two styles fix every note. -/
structure IsBassLine (style : BassStyle) (tones : ChordTones) (count : Nat) (notes : List Int) :
    Prop where
  length_eq : notes.length = count
  first : notes.head? = some tones.root
  last : ∀ note, notes.getLast? = some note → note ∈ tones.all
  steps : ∀ (place : Nat) (previous note : Int), notes[place]? = some previous →
    notes[place + 1]? = some note → note ∈ tones.all ∨ style = .walking ∧ IsPassing previous note
  repeated : style = .repeated → ∀ note ∈ notes, note = tones.root
  arpeggiated : style = .arpeggiated → ∀ place < count,
    notes[place]? = tones.all[place % tones.all.length]?

/-- **What the steps of a walk lead to** is a line over its chord. -/
theorem isBassLine_of_traced {line : List Int} (hcount : 0 < count)
    (h : Traced (Follows tones count) tones.root (List.range' 1 (count - 1)) line) :
    IsBassLine .walking tones count line := by
  have hlength : line.length = count := by
    rw [h.length_eq, List.length_range']
    omega
  have hplace (place : Nat) (hlt : place + 1 < count) :
      (List.range' 1 (count - 1))[place]? = some (1 + place) := by
    rw [List.getElem?_range' (by omega), Nat.one_mul]
  refine ⟨hlength, h.head?_eq, fun note hnote => ?_, fun place previous note hprevious hnote => ?_,
    nofun, nofun⟩
  · rw [List.getLast?_eq_getElem?, hlength] at hnote
    obtain ⟨before, rfl⟩ : ∃ before, count = before + 1 := ⟨count - 1, by omega⟩
    cases before with
    | zero =>
      rw [← List.head?_eq_getElem?, h.head?_eq] at hnote
      exact Option.some.inj hnote ▸ tones.root_mem
    | succ before =>
      obtain ⟨previous, note', -, hnote', hfollows⟩ :=
        h.exists_getElem? (hplace before (by omega))
      obtain rfl := Option.some.inj (hnote.symm.trans hnote')
      exact hfollows.resolve_right fun hpassing => hpassing.1 (by omega)
  · have hlt : place + 1 < count := by
      rw [← hlength]
      exact (List.getElem?_eq_some_iff.mp hnote).1
    obtain ⟨previous', note', hprevious', hnote', hfollows⟩ := h.exists_getElem? (hplace place hlt)
    obtain rfl := Option.some.inj (hprevious.symm.trans hprevious')
    obtain rfl := Option.some.inj (hnote.symm.trans hnote')
    exact hfollows.imp_right fun hpassing => ⟨rfl, hpassing.2⟩

theorem isBassLine_repeated (hcount : 0 < count) (tones : ChordTones) :
    IsBassLine .repeated tones count (List.replicate count tones.root) := by
  have hroot {note : Int} (hnote : note ∈ List.replicate count tones.root) : note = tones.root :=
    List.eq_of_mem_replicate hnote
  refine ⟨List.length_replicate, ?_, fun note hnote => ?_, fun place previous note _ hnote => ?_,
    fun _ note hnote => hroot hnote, nofun⟩
  · rw [List.head?_replicate, if_neg hcount.ne']
  · exact hroot (List.mem_of_getLast? hnote) ▸ tones.root_mem
  · exact .inl (hroot (List.mem_of_getElem? hnote) ▸ tones.root_mem)

theorem isBassLine_arpeggiated (hcount : 0 < count) (tones : ChordTones) :
    IsBassLine .arpeggiated tones count (Rhythm.cycleItems tones.all count) := by
  have hcycled : Rhythm.Cycled tones.all count (Rhythm.cycleItems tones.all count) :=
    Rhythm.cycled_cycleItems (List.cons_ne_nil _ _) count
  refine ⟨hcycled.length_eq, ?_, fun note hnote => ?_, fun place previous note _ hnote => ?_, nofun,
    fun _ place hplace => hcycled.getElem?_eq place hplace⟩
  · rw [List.head?_eq_getElem?, hcycled.getElem?_eq 0 hcount, Nat.zero_mod]
    rfl
  · exact Rhythm.mem_of_mem_cycleItems (List.mem_of_getLast? hnote)
  · exact .inl (Rhythm.mem_of_mem_cycleItems (List.mem_of_getElem? hnote))

/-- **The notes over a chord are a line over it,** whatever the draws are. -/
theorem returns_bassNotes (style : BassStyle) (tones : ChordTones) {count : Int} (hcount : 1 ≤ count)
    (ratio : Quantity) :
    Returns (bassNotes style tones count ratio) (IsBassLine style tones count.toNat) := by
  have hpos : 0 < count.toNat := by omega
  cases style with
  | walking =>
    exact (Settles.traced (fun previous place _ => returns_bassStep tones _ ratio previous place)
      tones.root).mono (fun line hline => isBassLine_of_traced hpos hline) fun _ h => h
  | arpeggiated => exact .pure (isBassLine_arpeggiated hpos tones)
  | repeated =>
    refine (Play.returns_lift _).bind fun n hn => .pure ?_
    obtain rfl : n = count.toNat := by
      rw [Rhythm.repetitions] at hn
      split at hn
      · exact (Except.ok.inj hn).symm
      · cases hn
    exact isBassLine_repeated hpos tones

/-- **Without passing notes all notes are chord tones.** -/
theorem settles_bassNotes_never (style : BassStyle) (tones : ChordTones) (count : Int) :
    Settles Source.Fair (bassNotes style tones count .never) (fun line => ∀ note ∈ line, note ∈ tones.all)
      fun _ => True := by
  cases style with
  | walking =>
    refine (Settles.traced (fun previous place _ => settles_bassStep_never tones count.toNat previous place)
      tones.root).mono (fun line hline => ?_) fun _ h => h
    exact hline.all tones.root_mem fun _ _ _ _ _ hnote => hnote
  | arpeggiated => exact .pure fun note hnote => Rhythm.mem_of_mem_cycleItems hnote
  | repeated =>
    refine (Settles.lift (Play.Verdict.of_true _)).bind fun n _ => .pure fun note hnote => ?_
    exact List.eq_of_mem_replicate hnote ▸ tones.root_mem

/-! ## Progressions -/

/-- Draw the lines over the chords of a progression. -/
def bassLines (spec : BassSpec) (style : BassStyle) (ratio : Quantity) : Play (List (List Int)) :=
  (words spec.progression).mapM fun symbol => do
    let tones ← chordTones symbol spec.octave
    bassNotes style tones spec.notesPerChord ratio

/-- What holds of the notes over each chord holds of the lines over a progression. -/
theorem settles_bassLines {steady : Source → Prop} {good : ChordTones → List Int → Prop}
    {style : BassStyle} {ratio : Quantity}
    (h : ∀ tones, Settles steady (bassNotes style tones spec.notesPerChord ratio) (good tones)
      fun _ => True) :
    Settles steady (bassLines spec style ratio)
      (List.Forall₂ (fun symbol line => ∃ tones, chordTones symbol spec.octave = .ok tones ∧
        good tones line) (words spec.progression)) fun _ => True := by
  have hsymbol : ∀ symbol ∈ words spec.progression, Settles steady (do
      let tones ← chordTones symbol spec.octave
      bassNotes style tones spec.notesPerChord ratio)
      (fun line => ∃ tones, chordTones symbol spec.octave = .ok tones ∧ good tones line)
      fun _ => True := by
    intro symbol _
    cases htones : chordTones symbol spec.octave with
    | error fault => exact .lift trivial
    | ok tones => exact (h tones).mono (fun line hline => ⟨tones, rfl, hline⟩) fun _ h => h
  exact (Settles.mapM hsymbol).mono (fun _ hlines => hlines) fun _ _ => trivial

/-- Notes that all sound. -/
theorem settles_withRests_never {α : Type} (write : α → Except Fault String) (notes : List α) :
    Settles Source.Fair (withRests write .never notes)
      (List.Forall₂ (fun note element => write note = .ok element) notes) fun _ => True := by
  have hnote : ∀ note ∈ notes, Settles Source.Fair (do
      let text ← write note
      if ← Play.happens .never then return "-" else return text)
      (fun element => write note = .ok element) fun _ => True := by
    intro note _
    cases hwrite : write note with
    | error fault => exact .lift trivial
    | ok text =>
      rw [Play.liftM_ok, pure_bind]
      refine Play.settles_happens_never.bind fun dropped hnot => ?_
      rw [hnot, if_neg Bool.false_ne_true]
      exact .pure rfl
  exact (Settles.mapM hnote).mono (fun _ helements => helements) fun _ _ => trivial

/-- **The parts of a bass line that has returned.**  Its notes are drawn at the desk where it starts,
and its rests behind them. -/
theorem exists_of_outcome_generateBass {start last : Desk} {tape : String}
    (h : (generateBass spec).outcome start = (.ok tape, last)) :
    1 ≤ spec.notesPerChord ∧ ∃ style ratio lines after chance elements,
      BassStyle.named spec.style = .ok style ∧ tenths spec.complexity = .ok ratio ∧
      (bassLines spec style ratio).outcome start = (.ok lines, after) ∧
      hundredths spec.complexity 3 = .ok chance ∧
      (withRests decimal chance lines.flatten).outcome after = (.ok elements, last) ∧
      tape = unwords elements := by
  obtain ⟨style, hstyle, h⟩ := Play.exists_of_outcome_lift_bind h
  split at h
  · exact nomatch (Prod.mk.inj h).1
  next hcount =>
    obtain ⟨ratio, hratio, h⟩ := Play.exists_of_outcome_lift_bind h
    obtain ⟨lines, after, hlines, h⟩ := Play.exists_of_outcome_bind h
    obtain ⟨chance, hchance, h⟩ := Play.exists_of_outcome_lift_bind h
    obtain ⟨elements, last', helements, h⟩ := Play.exists_of_outcome_bind h
    obtain ⟨htape, rfl⟩ := Prod.mk.inj h
    exact ⟨Int.not_lt.mp hcount, style, ratio, lines, after, chance, elements, hstyle, hratio, hlines,
      hchance, helements, (Except.ok.inj htape).symm⟩

/-- No complexity, and draws from the unit interval. -/
structure IsCalm (spec : BassSpec) (source : Source) : Prop where
  complexity : spec.complexity.isAtMost 0 = true
  fair : source.Fair

/-- **The lines over a progression,** chord by chord, and those without complexity. -/
theorem forall₂_of_outcome_bassLines {start after : Desk} {style : BassStyle} {ratio : Quantity}
    {lines : List (List Int)} (hcount : 1 ≤ spec.notesPerChord)
    (hratio : tenths spec.complexity = .ok ratio)
    (h : (bassLines spec style ratio).outcome start = (.ok lines, after)) :
    List.Forall₂ (fun symbol line => ∃ tones, IsChordOf symbol spec.octave tones ∧
        IsBassLine style tones spec.notesPerChord.toNat line ∧
        (IsCalm spec start.source → ∀ note ∈ line, note ∈ tones.all)) (words spec.progression) lines ∧
      (IsCalm spec start.source → after.source.Fair) := by
  have hshape (tones : ChordTones) := returns_bassNotes style tones hcount ratio
  by_cases hcalm : IsCalm spec start.source
  · obtain rfl : ratio = .never := Except.ok.inj <| hratio.symm.trans <|
      tenths_of_clamp (Quantity.clamp_of_isAtMost_zero hcalm.complexity)
    have hall (tones : ChordTones) :=
      (settles_bassNotes_never style tones spec.notesPerChord).and (hshape tones)
    have hnotes := settles_bassLines hall
    have hsteady := (hnotes start hcalm.fair).1
    rw [h] at hsteady
    refine ⟨(hnotes.of_steady hcalm.fair h).imp ?_, fun _ => hsteady⟩
    rintro symbol line ⟨tones, htones, hchord, hline⟩
    exact ⟨tones, isChordOf_of_chordTones htones, hline, fun _ => hchord⟩
  · refine ⟨((settles_bassLines hshape).of_ok h).imp ?_, fun h => absurd h hcalm⟩
    rintro symbol line ⟨tones, htones, hline⟩
    exact ⟨tones, isChordOf_of_chordTones htones, hline, fun h => absurd h hcalm⟩

/-- **A bass line keeps to its chords.**  When it returns, there is a style, and from the source that it
starts with a line is drawn over each chord of the progression.  A line has the asked number of notes.
It begins on the root of its chord and ends on a chord tone, and the notes in between are chord tones or,
in a walk, passing notes.  The other styles repeat the root or take the chord tones in turn.  The tape has
an element for each note of the lines in order, which is a rest or the note in writing.  Without
complexity all notes are chord tones and none is a rest. -/
theorem generateBass_isBassLine {origin : Origin} {desk : Desk} {tape : String}
    (h : (origin.run (generateBass spec) desk).1.1 = .ok tape) :
    1 ≤ spec.notesPerChord ∧ ∃ style ratio lines after,
      BassStyle.named spec.style = .ok style ∧ tenths spec.complexity = .ok ratio ∧
      (bassLines spec style ratio).outcome ⟨origin.source desk.source, desk.notices⟩ =
        (.ok lines, after) ∧
      List.Forall₂ (fun symbol line => ∃ tones, IsChordOf symbol spec.octave tones ∧
        IsBassLine style tones spec.notesPerChord.toNat line ∧
        (IsCalm spec (origin.source desk.source) → ∀ note ∈ line, note ∈ tones.all))
        (words spec.progression) lines ∧
      List.Forall₂ (fun note element => decimal note = .ok element ∨
        element = "-" ∧ ¬ IsCalm spec (origin.source desk.source)) lines.flatten (words tape) := by
  obtain ⟨hcount, style, ratio, lines, after, chance, elements, hstyle, hratio, hlines, hchance,
    helements, rfl⟩ := exists_of_outcome_generateBass (Prod.ext h rfl)
  obtain ⟨hchords, hsteady⟩ := forall₂_of_outcome_bassLines hcount hratio hlines
  have hrests := (returns_withRests decimal chance lines.flatten).of_ok helements
  have hwords : words (unwords elements) = elements := by
    refine Text.words_unwords <| Play.forall_of_forall₂ hrests ?_
    rintro note _ element ⟨text, htext, rfl | rfl⟩
    · exact (IsElement.isWord (.inl rfl))
    · exact (isElement_of_decimal htext).isWord
  refine ⟨hcount, style, ratio, lines, after, hstyle, hratio, hlines, hchords, ?_⟩
  rw [hwords]
  by_cases hcalm : IsCalm spec (origin.source desk.source)
  · obtain rfl : chance = .never := Except.ok.inj <| hchance.symm.trans <|
      hundredths_of_clamp (Quantity.clamp_of_isAtMost_zero hcalm.complexity) (by decide)
    have hnotes := (settles_withRests_never decimal lines.flatten).of_steady (hsteady hcalm) helements
    exact hnotes.imp fun note element hnote => .inl hnote
  · refine hrests.imp ?_
    rintro note element ⟨text, htext, hrest | rfl⟩
    · exact .inr ⟨hrest, hcalm⟩
    · exact .inl htext

/-- Five notes to each of two chords, passing most of the time. -/
def walkOver : BassSpec where
  progression := "Am G7"
  octave := 2
  notesPerChord := 5
  complexity := 8
  style := "walking"

/-- Over the second chord a passing note follows another one.  There are rests in the places of chord
tones and of a passing note. -/
theorem generateBass_isBassLine_walk :
    (fiveDraws.run (generateBass walkOver) ⟨.script ⟨#[], 0⟩, #[]⟩).1.1 =
        .ok "45 46 - 47 - 43 43 - 46 -" ∧
      (∃ tones, IsChordOf "Am" 2 tones ∧ IsBassLine .walking tones 5 [45, 46, 48, 47, 45]) ∧
      (∃ tones, IsChordOf "G7" 2 tones ∧ IsBassLine .walking tones 5 [43, 43, 44, 46, 50]) ∧
      List.Forall₂ (fun note element => decimal note = .ok element ∨ element = "-")
        [45, 46, 48, 47, 45, 43, 43, 44, 46, 50]
        ["45", "46", "-", "47", "-", "43", "43", "-", "46", "-"] := by
  have htape : (fiveDraws.run (generateBass walkOver) ⟨.script ⟨#[], 0⟩, #[]⟩).1.1 =
      .ok "45 46 - 47 - 43 43 - 46 -" := by
    decide +kernel
  have hwords : words "45 46 - 47 - 43 43 - 46 -" =
      ["45", "46", "-", "47", "-", "43", "43", "-", "46", "-"] := by
    decide +kernel
  have hsymbols : words walkOver.progression = ["Am", "G7"] := by decide +kernel
  have hdrawn : ((do bassLines walkOver .walking (← liftM (tenths walkOver.complexity)) :
      Play (List (List Int))).outcome ⟨fiveDraws.source (.script ⟨#[], 0⟩), #[]⟩).1 =
        .ok [[45, 46, 48, 47, 45], [43, 43, 44, 46, 50]] := by
    decide +kernel
  obtain ⟨-, style, ratio, lines, after, hstyle, hratio, hlines, hchords, hnotes⟩ :=
    generateBass_isBassLine htape
  obtain rfl : style = .walking := (Except.ok.inj hstyle).symm
  rw [hratio, Play.liftM_ok, pure_bind] at hdrawn
  obtain rfl := Except.ok.inj ((congrArg Prod.fst hlines).symm.trans hdrawn)
  rw [hsymbols] at hchords
  rw [hwords] at hnotes
  obtain ⟨⟨tones, hchord, hline, -⟩, hrest⟩ := List.forall₂_cons.mp hchords
  obtain ⟨⟨tones', hchord', hline', -⟩, -⟩ := List.forall₂_cons.mp hrest
  exact ⟨htape, ⟨tones, hchord, hline⟩, ⟨tones', hchord', hline'⟩,
    hnotes.imp fun note element hnote => hnote.imp_right And.left⟩

end Melody
end NoteTape
