import Mathlib.Data.List.Chain
import NoteTape.Proofs.Melody.Walk

/-!
# A walk and its moves

The steps of a walk draw their moves one after the other, and no draw looks at the degree that has been
reached.  So all moves can be drawn first, `walkMoves`, and the degrees are their running values,
`walkDegrees_eq`: whatever holds of the degrees of all lists of moves holds of every walk.

A move never leads further out of the range than folding leads back, so one fold is enough,
`isWalk_degreesOf`.  The notes are written for the degrees one by one, and a rest takes the place of a
note without moving the others, `generateWalk_isWalk`.
-/

namespace NoteTape

open Play (Returns Settles)
open Text (unwords words)

/-! ## Traces whose draws do not look back -/

namespace Play

variable {α β γ : Type}

/-- **When the draws do not look at the values, the values are the running values of the draws.** -/
theorem trace_eq_scanl (next : γ → β → γ) (draw : α → Play β) (first : γ) (items : List α) :
    trace (fun previous item => do return next previous (← draw item)) first items =
      do return (← items.mapM draw).scanl next first := by
  -- behind the values that are done stand the running values from the last of them
  have hfrom (done : List γ) (previous : γ) :
      traceFrom (fun previous item => do return next previous (← draw item)) (previous :: done)
          previous items =
        do return done.reverse ++ (← items.mapM draw).scanl next previous := by
    induction items generalizing done previous with
    | nil => rw [traceFrom, List.reverse_cons, List.mapM_nil, pure_bind, List.scanl_nil]
    | cons item items ih =>
      simp only [traceFrom, bind_assoc, pure_bind, ih, List.mapM_cons, List.scanl_cons,
        List.reverse_cons, List.append_assoc, List.singleton_append]
  exact hfrom [] first

end Play

namespace Melody

variable {ratio : Quantity} {moves degrees : List Int} {spec : WalkSpec}

/-! ## Moves -/

theorem complexMoves_ne_nil : complexMoves ≠ [] := List.cons_ne_nil _ _

theorem commonMoves_ne_nil : commonMoves ≠ [] := List.cons_ne_nil _ _

/-- Draw a move. -/
def walkMove (ratio : Quantity) : Play Int := do
  if ← Play.happens ratio then Play.pick complexMoves complexMoves_ne_nil
  else Play.pick commonMoves commonMoves_ne_nil

/-- Draw a number of moves. -/
def walkMoves (ratio : Quantity) (count : Nat) : Play (List Int) :=
  (List.range count).mapM fun _ => walkMove ratio

/-- The degrees that moves lead to from the first one. -/
def degreesOf (moves : List Int) : List Int :=
  moves.scanl (fun degree move => folded (degree + move)) 1

theorem walkDegree_eq (ratio : Quantity) (previous : Int) :
    walkDegree ratio previous = do return folded (previous + (← walkMove ratio)) := by
  rw [walkDegree, walkMove, bind_assoc]
  refine congrArg _ (funext fun happened => ?_)
  cases happened with
  | false => rfl
  | true => rfl

/-- **The degrees of a walk are those of its moves.** -/
theorem walkDegrees_eq (ratio : Quantity) (length : Nat) :
    walkDegrees ratio length = do return degreesOf (← walkMoves ratio (length - 1)) := by
  have hstep : (fun previous (_ : Nat) => walkDegree ratio previous) =
      fun previous _ => do return folded (previous + (← walkMove ratio)) :=
    funext fun previous => funext fun _ => walkDegree_eq ratio previous
  rw [walkDegrees, hstep]
  exact Play.trace_eq_scanl (fun degree move => folded (degree + move)) (fun _ => walkMove ratio) 1 _

/-- A move of a walk. -/
def IsMove (move : Int) : Prop := move ∈ complexMoves ++ commonMoves

/-- **Moves are always drawn,** from every source. -/
theorem settles_walkMove (ratio : Quantity) :
    Settles (fun _ => True) (walkMove ratio) IsMove fun _ => False := by
  refine (Play.settles_happens ratio fun _ _ => trivial).bind fun happened _ => ?_
  cases happened with
  | false =>
    exact (Play.settles_pick commonMoves commonMoves_ne_nil fun _ _ _ => trivial).mono
      (fun _ hmove => List.mem_append_right _ hmove) fun _ h => h
  | true =>
    exact (Play.settles_pick complexMoves complexMoves_ne_nil fun _ _ _ => trivial).mono
      (fun _ hmove => List.mem_append_left _ hmove) fun _ h => h

theorem settles_walkMoves (ratio : Quantity) (count : Nat) :
    Settles (fun _ => True) (walkMoves ratio count)
      (fun moves => moves.length = count ∧ ∀ move ∈ moves, IsMove move) fun _ => False := by
  refine (Settles.mapM fun _ _ => settles_walkMove ratio).mono (fun moves hmoves => ?_)
    fun _ ⟨_, _, hfalse⟩ => hfalse
  exact ⟨hmoves.length_eq.symm.trans List.length_range,
    Play.forall_of_forall₂ hmoves fun _ _ _ hmove => hmove⟩

/-- **A walk always has degrees,** those of the moves that were drawn. -/
theorem exists_outcome_walkDegrees (ratio : Quantity) (length : Nat) (desk : Desk) :
    ∃ moves after, (walkMoves ratio (length - 1)).outcome desk = (.ok moves, after) ∧
      (walkDegrees ratio length).outcome desk = (.ok (degreesOf moves), after) ∧
      moves.length = length - 1 ∧ ∀ move ∈ moves, IsMove move := by
  obtain ⟨moves, after, hmoves, hgood, -⟩ :=
    (settles_walkMoves ratio (length - 1)).exists_ok desk trivial
  refine ⟨moves, after, hmoves, ?_, hgood⟩
  rw [walkDegrees_eq, Play.outcome_bind_ok hmoves]
  rfl

/-! ## Degrees -/

/-- A walk begins on the first degree and stays in the range, each degree being the one before after a
move and at most one fold. -/
structure IsWalk (degrees : List Int) : Prop where
  head?_eq : degrees.head? = some 1
  steps : degrees.IsChain fun previous next => ∃ move, IsMove move ∧ next = folded (previous + move)
  bounded : ∀ degree ∈ degrees, 1 ≤ degree ∧ degree ≤ greatestDegree

/-- A move leads no further out of the range than folding leads back. -/
theorem folded_mem {previous move : Int} (h : 1 ≤ previous ∧ previous ≤ greatestDegree)
    (hmove : IsMove move) :
    1 ≤ folded (previous + move) ∧ folded (previous + move) ≤ greatestDegree := by
  have hbound : -7 ≤ move ∧ move ≤ 7 := by
    unfold IsMove at hmove
    revert move
    decide
  unfold folded greatestDegree at *
  split
  · omega
  · split
    · omega
    · omega

/-- **One fold leads back into the range,** whatever the moves are. -/
theorem isWalk_degreesOf (h : ∀ move ∈ moves, IsMove move) : IsWalk (degreesOf moves) := by
  have hfrom (first : Int) (hfirst : 1 ≤ first ∧ first ≤ greatestDegree) :
      ∀ degree ∈ moves.scanl (fun degree move => folded (degree + move)) first,
        1 ≤ degree ∧ degree ≤ greatestDegree := by
    induction moves generalizing first with
    | nil => exact List.forall_mem_singleton.mpr hfirst
    | cons move moves ih =>
      obtain ⟨hmove, hmoves⟩ := List.forall_mem_cons.mp h
      rw [List.scanl_cons]
      exact List.forall_mem_cons.mpr ⟨hfirst, ih hmoves _ (folded_mem hfirst hmove)⟩
  refine ⟨List.head?_scanl, List.isChain_iff_getElem.mpr fun place hplace => ?_,
    hfrom 1 (by decide)⟩
  have hmove : place < moves.length := by
    rw [degreesOf, List.length_scanl] at hplace
    omega
  exact ⟨moves[place], h _ (List.getElem_mem hmove), List.getElem_succ_scanl hplace⟩

/-- Whatever degrees a walk has drawn, they are a walk. -/
theorem isWalk_of_outcome {length : Nat} {desk after : Desk}
    (h : (walkDegrees ratio length).outcome desk = (.ok degrees, after)) :
    IsWalk degrees ∧ degrees.length = length - 1 + 1 := by
  obtain ⟨moves, _, -, hdegrees, hlength, hmoves⟩ := exists_outcome_walkDegrees ratio length desk
  obtain rfl := Except.ok.inj (Prod.mk.inj (h.symm.trans hdegrees)).1
  exact ⟨isWalk_degreesOf hmoves, by rw [degreesOf, List.length_scanl, hlength]⟩

theorem returns_walkDegrees (ratio : Quantity) (length : Nat) :
    Returns (walkDegrees ratio length) IsWalk :=
  (Settles.any _).of_returns fun _ _ _ h => (isWalk_of_outcome h).1

/-! ## Notes -/

/-- What is written for a degree of a walk. -/
def noteOf (spec : WalkSpec) (degree : Int) : Except Fault String := do
  decimal (← Tape.midiOf spec.root spec.octave (← Tape.semitoneOf spec.scale degree))

theorem noteOf_eq {scale : Scale} {pc : Int} (hscale : Scale.named spec.scale = .ok scale)
    (hroot : NoteName.pitchClass spec.root = .ok pc) (degree : Int) :
    noteOf spec degree = decimal (NoteName.midiNumber spec.octave pc + scale.semitone degree) := by
  rw [noteOf, Tape.semitoneOf, hscale, Play.ok_bind, pure_bind, Tape.midiOf, hroot, Play.ok_bind,
    pure_bind]

/-- **Rests take the places of notes,** and leave the others where they are. -/
theorem returns_withRests {α : Type} (write : α → Except Fault String) (chance : Quantity)
    (notes : List α) :
    Returns (withRests write chance notes)
      (List.Forall₂ (fun note element => ∃ text, write note = .ok text ∧
        (element = "-" ∨ element = text)) notes) := by
  refine (Settles.mapM fun note _ => (Play.returns_lift (write note)).bind fun text htext =>
    (Settles.any _).bind fun dropped _ => ?_).mono (fun _ helements => helements) fun _ _ => trivial
  split
  · exact .pure ⟨text, htext, .inl rfl⟩
  · exact .pure ⟨text, htext, .inr rfl⟩

/-- **The parts of a walk that has returned.**  Its degrees are drawn at the desk where it starts. -/
theorem exists_of_outcome_generateWalk {start last : Desk} {tape : String}
    (h : (generateWalk spec).outcome start = (.ok tape, last)) :
    1 ≤ spec.length ∧ ∃ ratio degrees after scale pc elements,
      tenths spec.complexity = .ok ratio ∧
      (walkDegrees ratio spec.length.toNat).outcome start = (.ok degrees, after) ∧
      Scale.named spec.scale = .ok scale ∧ NoteName.pitchClass spec.root = .ok pc ∧
      List.Forall₂ (IsNoteOf (NoteName.midiNumber spec.octave pc) scale) degrees elements ∧
      tape = unwords elements := by
  unfold generateWalk at h
  split at h
  · exact nomatch (Prod.mk.inj h).1
  next hlength =>
    obtain ⟨ratio, hratio, h⟩ := Play.exists_of_outcome_lift_bind h
    obtain ⟨degrees, after, hdegrees, h⟩ := Play.exists_of_outcome_bind h
    obtain ⟨scale, hscale, h⟩ := Play.exists_of_outcome_lift_bind h
    obtain ⟨notes, hplace, h⟩ := Play.exists_of_outcome_lift_bind h
    obtain ⟨chance, -, h⟩ := Play.exists_of_outcome_lift_bind h
    obtain ⟨elements, _, helements, h⟩ := Play.exists_of_outcome_bind h
    obtain rfl := Except.ok.inj (Prod.mk.inj h).1
    obtain ⟨pc, hroot, hnotes⟩ := forall₂_of_place hplace
    have hrests := (returns_withRests .ok chance notes).of_ok helements
    refine ⟨Int.not_lt.mp hlength, ratio, degrees, after, scale, pc, elements, hratio, hdegrees, hscale,
      hroot, (Play.forall₂_trans hnotes hrests).imp ?_, rfl⟩
    rintro degree element ⟨note, hnote, text, htext, hrest | rfl⟩
    · exact .inl hrest
    · exact .inr (Except.ok.inj htext ▸ hnote)

/-- **A walk keeps to its degrees.**  When it returns, its tape has as many elements as it is long.  From
the source that it starts with, the degrees are drawn first: they begin on the first degree, and whatever
the draws are, each step ends in the range from one to fifteen after at most one fold.  Place by place
the element is a rest or the note of the degree, in the scale, the key and the octave that were asked
for. -/
theorem generateWalk_isWalk {origin : Origin} {desk : Desk} {tape : String}
    (h : (origin.run (generateWalk spec) desk).1.1 = .ok tape) :
    ∃ ratio degrees after, tenths spec.complexity = .ok ratio ∧
      (walkDegrees ratio spec.length.toNat).outcome ⟨origin.source desk.source, desk.notices⟩ =
        (.ok degrees, after) ∧
      IsWalk degrees ∧ ((words tape).length : Int) = spec.length ∧
      List.Forall₂ (fun degree element => element = "-" ∨ noteOf spec degree = .ok element)
        degrees (words tape) := by
  obtain ⟨hlength, ratio, degrees, after, scale, pc, elements, hratio, hdegrees, hscale, hroot, hnotes,
    rfl⟩ := exists_of_outcome_generateWalk (Prod.ext h rfl)
  have hwords : words (unwords elements) = elements :=
    Text.words_unwords <| Play.forall_of_forall₂ hnotes fun _ _ _ hnote => hnote.isElement.isWord
  obtain ⟨hwalk, hcount⟩ := isWalk_of_outcome hdegrees
  rw [hwords]
  refine ⟨ratio, degrees, after, hratio, hdegrees, hwalk, ?_, hnotes.imp fun degree element hnote => ?_⟩
  · rw [← hnotes.length_eq, hcount]
    omega
  · rwa [noteOf_eq hscale hroot]

/-- Eight notes of D dorian, leaping most of the time. -/
def dorianWalk : WalkSpec where
  scale := "dorian"
  root := "D"
  octave := 3
  length := 8
  complexity := 9

/-- A walk with a fold from above, from seventeen to ten, and rests in the place of its first note and
two others. -/
theorem generateWalk_isWalk_dorian :
    (fiveDraws.run (generateWalk dorianWalk) ⟨.script ⟨#[], 0⟩, #[]⟩).1.1 =
        .ok "- 60 52 - 65 - 65 57" ∧
      IsWalk [1, 7, 2, 7, 10, 11, 10, 5] ∧
      List.Forall₂ (fun degree element => element = "-" ∨ noteOf dorianWalk degree = .ok element)
        [1, 7, 2, 7, 10, 11, 10, 5] ["-", "60", "52", "-", "65", "-", "65", "57"] := by
  have htape : (fiveDraws.run (generateWalk dorianWalk) ⟨.script ⟨#[], 0⟩, #[]⟩).1.1 =
      .ok "- 60 52 - 65 - 65 57" := by
    decide +kernel
  have hwords : words "- 60 52 - 65 - 65 57" = ["-", "60", "52", "-", "65", "-", "65", "57"] := by
    decide +kernel
  have hdrawn : ((do walkDegrees (← liftM (tenths dorianWalk.complexity)) 8 : Play (List Int)).outcome
      ⟨fiveDraws.source (.script ⟨#[], 0⟩), #[]⟩).1 = .ok [1, 7, 2, 7, 10, 11, 10, 5] := by
    decide +kernel
  obtain ⟨ratio, degrees, after, hratio, hdegrees, hwalk, -, hnotes⟩ := generateWalk_isWalk htape
  obtain rfl : degrees = [1, 7, 2, 7, 10, 11, 10, 5] := by
    rw [hratio, Play.liftM_ok, pure_bind] at hdrawn
    exact Except.ok.inj ((congrArg Prod.fst hdegrees).symm.trans hdrawn)
  rw [hwords] at hnotes
  exact ⟨htape, hwalk, hnotes⟩

end Melody
end NoteTape
