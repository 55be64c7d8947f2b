import NoteTape.Melody.Generator
import NoteTape.Proofs.Tape.Pass

/-!
# Placing degrees is two passes over tapes

The degrees of a melody are a tape, and its notes are that tape taken through two passes, from
degrees to semitones and from semitones to MIDI numbers.  Each pass compiles its tape first.  But
these are passes over decimals, and such a pass is a function of the integers alone.  So
`Melody.place` computes the two passes without the tapes between them, `Melody.passes_eq_place`.
-/

namespace NoteTape

namespace Melody

/-- **The passes come to `place`.**  To map the tape of the degrees to semitones, and that to MIDI
numbers, is a play without a draw and without a notice, and it gives the notes of `place` or its
fault. -/
theorem passes_eq_place {name : String} {scale : Scale} (hscale : Scale.named name = .ok scale)
    (root : String) (octave : Int) (degrees : List Int) :
    (do let texts ← liftM (degrees.mapM decimal)
        let semitones ← Tape.degreesToSemitones (Text.unwords texts) name
        Tape.semitonesToMidi semitones root octave : Play String) =
      liftM (do return Text.unwords (← place scale root octave degrees) : Except Fault String) := by
  unfold place
  dsimp only
  cases hdegrees : degrees.mapM decimal with
  | error fault => rw [Play.error_bind, Play.error_bind]; rfl
  | ok texts =>
    rw [Play.liftM_ok, pure_bind, Tape.degreesToSemitones, hscale, Play.liftM_ok, pure_bind,
      Tape.mapIntegers_ok_unwords _ hdegrees, Play.ok_bind]
    cases hsemitones : (degrees.map scale.semitone).mapM decimal with
    | error fault => rw [Play.error_bind, Play.error_bind, Play.error_bind]; rfl
    | ok texts' =>
      rw [Play.ok_bind, Play.ok_bind]
      change Tape.semitonesToMidi (Text.unwords texts') root octave = _
      rw [Tape.semitonesToMidi]
      cases NoteName.pitchClass root with
      | error fault => rw [Play.error_bind, Play.error_bind]; rfl
      | ok pc =>
        rw [Play.liftM_ok, pure_bind, Tape.mapIntegers_ok_unwords _ hsemitones, Play.ok_bind]

end Melody
end NoteTape
