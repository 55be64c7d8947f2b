import NoteTape.Proofs.Console.Performance
import NoteTape.Proofs.Melody.Moves
import NoteTape.Proofs.Pattern.Process
import NoteTape.Proofs.Pitch.Placement

/-!
# Whose source a call draws from

A melody places its degrees through tapes: the degrees are written as a tape, which becomes a tape of
semitones and then one of notes, and each of these steps compiles the tape it is given.  It does so
without naming a source, so these compilations hold the ambient one, whatever source the melody was
given.  `Process.placed` says so, and the functions that place degrees are told with it, each in the
hand of its caller except for these two steps.

The tapes on the way hold numerals and nothing else, and compiling numerals draws nothing.  So the two
steps come to no more than an answer, `Process.placed_eq`, and every function is the play that runs,
with all its draws in the hand of the caller.  A caller who gives a seed or a source has the ambient
source back as it was, and gets what was asked for regardless of it: `Invocation.isolated`.
-/

namespace NoteTape

open Play (Alike)

namespace Process

variable (hand : Hand)

/-! ## Degrees through tapes -/

/-- Degrees as notes.  The tape of the degrees and that of their semitones are compiled on the way, and
neither compilation is given a source. -/
def placed (scale root : String) (octave : Int) (degrees : List Int) : Process (List String) := do
  let texts ← liftM (degrees.mapM decimal)
  let semitones ← Hand.ambient.play (Tape.degreesToSemitones (Text.unwords texts) scale)
  let notes ← Hand.ambient.play (Tape.semitonesToMidi semitones root octave)
  return Text.words notes

/-- **Placing degrees draws nothing.** -/
theorem placed_eq {name : String} {scale : Scale} (hscale : Scale.named name = .ok scale)
    (root : String) (octave : Int) (degrees : List Int) :
    placed name root octave degrees = liftM (Melody.place scale root octave degrees) := by
  have hpasses := congrArg Hand.ambient.play (Melody.passes_eq_place hscale root octave degrees)
  simp only [Hand.play_bind, Hand.play_lift] at hpasses
  have hplaced : placed name root octave degrees =
      liftM (do return Text.unwords (← Melody.place scale root octave degrees) :
        Except Fault String) >>= fun notes => pure (Text.words notes) := by
    rw [← hpasses, placed, bind_assoc]
    simp only [bind_assoc]
  rw [hplaced]
  cases hplace : Melody.place scale root octave degrees with
  | error fault => rfl
  | ok notes =>
    obtain ⟨pc, -, hnotes⟩ := Melody.forall₂_of_place hplace
    have hwords : ∀ note ∈ notes, IsElement note :=
      Play.forall_of_forall₂ hnotes fun _ _ _ hnote => isElement_of_decimal hnote
    have hsplit : Text.words (Text.unwords notes) = notes :=
      Text.words_unwords fun note hnote => (hwords note hnote).isWord
    change (pure (Text.words (Text.unwords notes)) : Process (List String)) = pure notes
    rw [hsplit]

/-- A scale without a name is a fault, once the degrees are written. -/
theorem placed_of_error {name : String} {fault : Fault} (hscale : Scale.named name = .error fault)
    (root : String) (octave : Int) {degrees : List Int} {texts : List String}
    (htexts : degrees.mapM decimal = .ok texts) :
    placed name root octave degrees = liftM (.error fault : Except Fault (List String)) := by
  rw [placed, htexts]
  change Hand.ambient.play (Tape.degreesToSemitones (Text.unwords texts) name) >>= _ = _
  rw [Tape.degreesToSemitones, hscale]
  rfl

/-! ## Melodies -/

/-- The elements of a melody. -/
def elements (spec : MelodySpec) : Process (List String) := do
  if spec.length < 1 then throw (.lengthBelowOne spec.length)
  let contour ← Contour.named spec.contour
  match spec.chordTones with
  | [] => throw .noChordNotes
  | first :: rest =>
      let scale ← Scale.named spec.scale
      let degrees ← hand.play (Melody.line spec contour scale.size first rest)
      let notes ← placed spec.scale spec.root spec.octave degrees
      hand.play (Melody.thinned spec.rests spec.syncopation notes)

/-- Generate a melody. -/
def generate (spec : MelodySpec) : Process String := do
  return Text.unwords (← elements hand spec)

/-- Generate a melody and give it swing. -/
def generateSwung (spec : MelodySpec) (amount : Quantity) : Process String := do
  return Rhythm.swing (← generate hand spec) amount

theorem elements_eq (spec : MelodySpec) : elements hand spec = hand.play (Melody.elements spec) := by
  unfold elements Melody.elements
  cases spec.chordTones with
  | nil => simp only [Hand.play_ite, Hand.play_bind, Hand.play_lift, Hand.play_throw]
  | cons first rest =>
    simp only [Hand.play_ite, Hand.play_bind, Hand.play_lift, Hand.play_throw]
    cases hscale : Scale.named spec.scale with
    | error fault => simp only [lift_error_bind]
    | ok scale => simp only [lift_ok, pure_bind, placed_eq hscale]

/-- **A melody draws from the source it is given.** -/
theorem generate_eq (spec : MelodySpec) : generate hand spec = hand.play (Melody.generate spec) := by
  rw [generate, Melody.generate, elements_eq, Hand.play_bind]
  simp only [Hand.play_pure]

theorem generateSwung_eq (spec : MelodySpec) (amount : Quantity) :
    generateSwung hand spec amount = hand.play (Melody.generateSwung spec amount) := by
  rw [generateSwung, Melody.generateSwung, generate_eq, Hand.play_bind]
  simp only [Hand.play_pure]

/-- Generate a walk. -/
def generateWalk (spec : Melody.WalkSpec) : Process String := do
  if spec.length < 1 then throw (.lengthBelowOne spec.length)
  let ratio ← Melody.tenths spec.complexity
  let degrees ← hand.play (Melody.walkDegrees ratio spec.length.toNat)
  let notes ← placed spec.scale spec.root spec.octave degrees
  let chance ← Melody.hundredths spec.complexity 3
  return Text.unwords (← hand.play (Melody.withRests .ok chance notes))

/-- **A walk draws from the source it is given.** -/
theorem generateWalk_eq (spec : Melody.WalkSpec) :
    generateWalk hand spec = hand.play (Melody.generateWalk spec) := by
  unfold generateWalk Melody.generateWalk
  simp only [Hand.play_ite, Hand.play_bind, Hand.play_lift, Hand.play_throw, Hand.play_pure]
  -- the degrees are written before the scale is looked up, but they always can be
  have hplaced (ratio : Quantity) (next : List String → Process String) :
      (hand.play (Melody.walkDegrees ratio spec.length.toNat) >>= fun degrees =>
          placed spec.scale spec.root spec.octave degrees >>= next) =
        hand.play (Melody.walkDegrees ratio spec.length.toNat) >>= fun degrees =>
          liftM (Scale.named spec.scale) >>= fun scale =>
            liftM (Melody.place scale spec.root spec.octave degrees) >>= next := by
    refine hand.play_bind_congr (Melody.returns_walkDegrees ratio _) fun degrees hdegrees => ?_
    have hsmall : ∀ degree ∈ degrees, degree.natAbs ≤ 24 := by
      intro degree hdegree
      obtain ⟨hlow, hhigh⟩ := hdegrees.bounded degree hdegree
      unfold Melody.greatestDegree at hhigh
      omega
    obtain ⟨texts, htexts⟩ := Melody.exists_mapM_decimal hsmall
    cases hscale : Scale.named spec.scale with
    | error fault => rw [placed_of_error hscale _ _ htexts, lift_error_bind, lift_error_bind]
    | ok scale => rw [placed_eq hscale, lift_ok, pure_bind]
  simp only [hplaced]

/-! ## Commands -/

/-- The tape of a command. -/
def tape : Command → Process String
  | .kick numerals => do
      let (complexity, length) ← numerals.read
      hand.play (kickTape complexity length)
  | .bass numerals => do
      let (complexity, length) ← numerals.read
      generate hand (Command.bassSpec complexity length)
  | .melody scale root numerals => do
      let (complexity, length) ← numerals.read
      generate hand (Command.melodySpec scale root complexity length)
  | .swing root numerals => do
      let (complexity, length) ← numerals.read
      generateSwung hand (Command.swingSpec root complexity length) Command.swingAmount
  | .assign _ text => compile hand .standard text

/-- The target and the tape of a line, if it is a command. -/
def performLine (line : String) : Process (Option (String × String)) := do
  match Command.read? line with
  | none => return none
  | some command => return some (command.target, ← tape hand command)

theorem tape_eq (command : Command) : tape hand command = hand.play command.tape := by
  cases command with
  | kick numerals =>
    rw [tape, Command.tape, Hand.play_bind, Hand.play_lift]
  | bass numerals =>
    rw [tape, Command.tape, Hand.play_bind, Hand.play_lift]
    simp only [generate_eq]
  | melody scale root numerals =>
    rw [tape, Command.tape, Hand.play_bind, Hand.play_lift]
    simp only [generate_eq]
  | swing root numerals =>
    rw [tape, Command.tape, Hand.play_bind, Hand.play_lift]
    simp only [generateSwung_eq]
  | assign target text => exact compile_eq hand .standard text

/-- **A command draws from the source of the console.** -/
theorem performLine_eq (line : String) :
    performLine hand line = hand.play (Command.performLine line) := by
  unfold performLine Command.performLine
  cases Command.read? line with
  | none => exact (hand.play_pure none).symm
  | some command =>
    simp only [Command.perform, bind_assoc, pure_bind, Hand.play_bind, Hand.play_pure, tape_eq]

end Process

/-! ## Invocations -/

/-- A call of a function that takes a source, with its other arguments. -/
inductive Invocation : Type → Type where
  | generate (spec : MelodySpec) : Invocation String
  | generateSwung (spec : MelodySpec) (amount : Quantity) : Invocation String
  | develop (tape : String) (spec : Melody.DevelopmentSpec) : Invocation String
  | generateWalk (spec : Melody.WalkSpec) : Invocation String
  | generateBass (spec : Melody.BassSpec) : Invocation String
  | drawWeighted (options : List (String × Quantity)) (count : Int) : Invocation String
  | compile (options : Option Context.Options) (pattern : String) : Invocation String
  | compileTo (options : Option Context.Options) (pattern : String) (length : Int) : Invocation String
  | expand (options : Option Context.Options) (tokens : List Token) : Invocation (List String)
  | kickTape (complexity length : Int) : Invocation String
  | performLine (line : String) : Invocation (Option (String × String))

namespace Invocation

variable {α : Type}

/-- What is run for a call. -/
def play : Invocation α → Play α
  | generate spec => Melody.generate spec
  | generateSwung spec amount => Melody.generateSwung spec amount
  | develop tape spec => Melody.developTape tape spec
  | generateWalk spec => Melody.generateWalk spec
  | generateBass spec => Melody.generateBass spec
  | drawWeighted options count => Tape.drawWeighted options count
  | compile options pattern => do
      let context ← Context.ofOptions options
      Pattern.compile context pattern
  | compileTo options pattern length => do
      let context ← Context.ofOptions options
      Pattern.compileTo context pattern length
  | expand options tokens => do
      let context ← Context.ofOptions options
      NoteTape.expand context tokens
  | kickTape complexity length => NoteTape.kickTape complexity length
  | performLine line => Command.performLine line

/-- A call as a process, which says in whose hand each draw is taken. -/
def process (hand : Hand) : Invocation α → Process α
  | generate spec => Process.generate hand spec
  | generateSwung spec amount => Process.generateSwung hand spec amount
  | develop tape spec => hand.play (Melody.developTape tape spec)
  | generateWalk spec => Process.generateWalk hand spec
  | generateBass spec => hand.play (Melody.generateBass spec)
  | drawWeighted options count => hand.play (Tape.drawWeighted options count)
  | compile options pattern => do
      let context ← Context.ofOptions options
      Process.compile hand context pattern
  | compileTo options pattern length => do
      let context ← Context.ofOptions options
      Process.compileTo hand context pattern length
  | expand options tokens => do
      let context ← Context.ofOptions options
      hand.play (NoteTape.expand context tokens)
  | kickTape complexity length => hand.play (NoteTape.kickTape complexity length)
  | performLine line => Process.performLine hand line

theorem process_eq (hand : Hand) (call : Invocation α) :
    call.process hand = hand.play call.play := by
  cases call with
  | generate spec => exact Process.generate_eq hand spec
  | generateSwung spec amount => exact Process.generateSwung_eq hand spec amount
  | develop tape spec => rfl
  | generateWalk spec => exact Process.generateWalk_eq hand spec
  | generateBass spec => rfl
  | drawWeighted options count => rfl
  | compile options pattern =>
    rw [process, play, Hand.play_bind, Hand.play_lift]
    exact bind_congr fun context => Process.compile_eq hand context pattern
  | compileTo options pattern length =>
    rw [process, play, Hand.play_bind, Hand.play_lift]
    exact bind_congr fun context => Process.compileTo_eq hand context pattern length
  | expand options tokens =>
    rw [process, play, Hand.play_bind, Hand.play_lift]
  | kickTape complexity length => rfl
  | performLine line => exact Process.performLine_eq hand line

/-- The answer to a call depends on nothing at the desk but the source. -/
theorem alike_play (call : Invocation α) : Alike call.play call.play := by
  cases call with
  | generate spec => exact Melody.alike_generate spec
  | generateSwung spec amount => exact Melody.alike_generateSwung spec amount
  | develop tape spec => exact Melody.alike_developTape tape spec
  | generateWalk spec => exact Melody.alike_generateWalk spec
  | generateBass spec => exact Melody.alike_generateBass spec
  | drawWeighted options count => exact Tape.alike_drawWeighted options count
  | compile options pattern =>
    exact .bind (.lift _) fun context => Pattern.alike_compile context pattern
  | compileTo options pattern length =>
    exact .bind (.lift _) fun context =>
      .bind (Pattern.alike_compile context pattern) fun _ => .lift _
  | expand options tokens =>
    exact .bind (.lift _) fun context => Expansion.alike_run context tokens [] []
  | kickTape complexity length => exact NoteTape.alike_kickTape complexity length
  | performLine line => exact Command.alike_performLine line

/-- **A call with a seed or with a source of its own is isolated from the ambient source**, and its
answer is that of the play that is run for it. -/
theorem isolated (call : Invocation α) {seed : Option Int} {own : Option Source}
    (hgiven : seed.isSome ∨ own.isSome) :
    (Origin.choose seed own).Isolated call.process ∧
      ∀ desk, (Origin.choose seed own).call call.process desk =
        (Origin.choose seed own).run call.play desk := by
  have hprocess : (fun hand => call.process hand) = fun hand => hand.play call.play :=
    funext fun hand => process_eq hand call
  rw [hprocess]
  exact ⟨Origin.isolated_play (alike_play call) (Origin.choose_ne_ambient hgiven),
    fun desk => Origin.call_play _ call.play desk⟩

/-- A walk in an unknown key, refused after its moves are drawn: the ambient source has not moved. -/
theorem isolated_generateWalk :
    let call := generateWalk ⟨"minor", "H", 4, 3, .whole 5⟩
    ((some 7).isSome ∨ (none : Option Source).isSome) ∧
      (Origin.choose (some 7) none).Isolated call.process ∧
      ∀ desk, (Origin.choose (some 7) none).call call.process desk =
        (Origin.choose (some 7) none).run call.play desk :=
  ⟨.inl rfl, isolated _ (.inl rfl)⟩

end Invocation
end NoteTape
