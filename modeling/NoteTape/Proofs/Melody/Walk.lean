import NoteTape.Melody.Development
import NoteTape.Melody.Walk
import NoteTape.Proofs.Melody.Contour
import NoteTape.Tape.Arrangement

/-!
# Walks, bass lines and developments

The smaller generators look at the source of their draws only, and not at the notices that were given
before: `alike_generateWalk`, `alike_generateBass`, `alike_developTape` and, for elements that are drawn
by their weights, `Tape.alike_drawWeighted`.
-/

namespace NoteTape

open Play (Alike)

theorem alike_weightedPick {α : Type} (options : List (α × Quantity)) :
    Alike (weightedPick options) (weightedPick options) := by
  unfold weightedPick
  split
  · exact .lift (.error .noOptions)
  · refine (Alike.lift _).bind fun total => ?_
    split
    · exact .lift (.error .totalWeight)
    · exact (Alike.ofDraw _).bind fun u => .lift _

/-- **Drawing elements by their weights looks at no notices.** -/
theorem Tape.alike_drawWeighted (options : List (String × Quantity)) (count : Int) :
    Alike (drawWeighted options count) (drawWeighted options count) := by
  have helements : Alike ((List.range count.toNat).mapM fun _ => weightedPick options)
      ((List.range count.toNat).mapM fun _ => weightedPick options) :=
    .mapM fun _ _ => alike_weightedPick options
  unfold drawWeighted
  split
  · exact .lift (.error (.negativeCount count))
  · exact helements.bind fun elements => .pure _

namespace Melody

/-! ## Walks -/

theorem alike_walkDegrees (ratio : Quantity) (length : Nat) :
    Alike (walkDegrees ratio length) (walkDegrees ratio length) := by
  refine .trace (fun previous _ => (Alike.happens ratio).bind fun happened => ?_) 1 _
  split
  · exact (Alike.pick _ _).bind fun move => .pure _
  · exact (Alike.pick _ _).bind fun move => .pure _

theorem alike_withRests {α : Type} (write : α → Except Fault String) (chance : Quantity)
    (notes : List α) : Alike (withRests write chance notes) (withRests write chance notes) := by
  refine .mapM fun note _ => (Alike.lift _).bind fun text => (Alike.happens chance).bind
    fun happened => ?_
  split
  · exact .pure "-"
  · exact .pure text

/-- **A walk looks at no notices.** -/
theorem alike_generateWalk (spec : WalkSpec) : Alike (generateWalk spec) (generateWalk spec) := by
  unfold generateWalk
  split
  · exact .lift (.error (.lengthBelowOne spec.length))
  · exact (Alike.lift _).bind fun ratio => (alike_walkDegrees ratio _).bind fun degrees =>
      (Alike.lift _).bind fun scale => (Alike.lift _).bind fun notes =>
        (Alike.lift _).bind fun chance => (alike_withRests _ chance notes).bind fun _ => .pure _

/-! ## Bass lines -/

theorem alike_draw (tones : ChordTones) : Alike tones.draw tones.draw := .pick _ _

theorem alike_bassNotes (style : BassStyle) (tones : ChordTones) (count : Int) (ratio : Quantity) :
    Alike (bassNotes style tones count ratio) (bassNotes style tones count ratio) := by
  cases style with
  | repeated => exact (Alike.lift _).bind fun n => .pure _
  | arpeggiated => exact .pure _
  | walking =>
    refine .trace (fun previous place => ?_) tones.root _
    unfold bassStep
    split
    · refine (Alike.happens _).bind fun happened => ?_
      split
      · exact .pure tones.landing
      · exact alike_draw tones
    · refine (Alike.happens ratio).bind fun happened => ?_
      split
      · exact (Alike.pick _ _).bind fun step => .pure _
      · exact alike_draw tones

/-- **A bass line looks at no notices.** -/
theorem alike_generateBass (spec : BassSpec) : Alike (generateBass spec) (generateBass spec) := by
  refine (Alike.lift _).bind fun style => ?_
  split
  · exact .lift (.error (.notesPerChordBelowOne spec.notesPerChord))
  · refine (Alike.lift _).bind fun ratio => Alike.bind (.mapM fun symbol _ => ?_) fun parts => ?_
    · exact (Alike.lift _).bind fun tones => alike_bassNotes style tones _ ratio
    · exact (Alike.lift _).bind fun chance => (alike_withRests _ chance _).bind fun _ => .pure _

/-! ## Developments -/

theorem alike_diminish (notes : Notes) (probability : Quantity) :
    Alike (diminish notes probability) (diminish notes probability) := by
  refine Alike.bind (.mapM fun note _ => (Alike.happens probability).bind fun happened => ?_)
    fun kept => .pure _
  split
  · exact .pure [note]
  · exact .pure []

theorem alike_fragment (notes : Notes) (size : Nat) :
    Alike (fragment notes size) (fragment notes size) := by
  refine Alike.bind (.mapM fun block _ => (Alike.integer 1 2).bind fun times => .pure _)
    fun parts => ?_
  dsimp only
  split
  · exact Alike.bind (Alike.notify _ _ _).self fun _ => .pure _
  · exact .pure _

theorem alike_develop (notes : Notes) (place : Int) (count : Nat) :
    Alike (develop notes place count) (develop notes place count) := by
  unfold develop
  split
  · exact .pure []
  · exact Alike.bind (.mapM fun _ _ => .pick _ _) fun steps => .pure _

/-- **A development looks at no notices.** -/
theorem alike_developTape (text : String) (spec : DevelopmentSpec) :
    Alike (developTape text spec) (developTape text spec) := by
  refine (Alike.lift _).bind fun technique => Alike.bind ?_ fun notes =>
    Alike.bind (.mapM fun note _ => .lift _) fun texts => .pure _
  cases technique with
  | inversion => exact .pure _
  | retrograde => exact .pure _
  | augmentation => exact (Alike.lift _).bind fun factor => .pure _
  | diminution => exact (Alike.lift _).bind fun probability => alike_diminish _ probability
  | sequence => exact .pure _
  | fragmentation => exact (Alike.lift _).bind fun size => alike_fragment _ size
  | development => exact (Alike.lift _).bind fun count => alike_develop _ _ count

end Melody
end NoteTape
