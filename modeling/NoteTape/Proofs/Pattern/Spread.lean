import NoteTape.Proofs.Pattern.Failure

/-!
# What becomes of a spread call

A spread call is checked twice.  Before its pattern is compiled, the call must have two arguments,
the second an integer within `stepLimit`, and a level must be left; a call that passes is
`Admitted`.  Afterwards the tape of the pattern must exist and the length must be positive.

A call that is refused by the first checks has not touched the source.  One that is refused later
has: it leaves the source as the compiler of its pattern does, with all the draws taken that the
pattern asks for, although nothing of them is on the tape.  So the sign of the length, which is
checked last, decides nothing about the draws.

* `expandSpread_of_not_admitted`, `source_expandSpread`: what a call does to the source.
* `expandSpread_of_ok`, `expandSpread_of_error`, `expandSpread_of_nonpos`: what it becomes.
* `expandSpread_left_iff`: when it is left as it stands, and what has then been drawn.
-/

namespace NoteTape
namespace Pattern

open Call (spreadText)

/-- A call passes the checks that are made before its pattern is compiled. -/
structure Admitted (inner : Option Compiler) (arguments : List Char) (compile : Compiler)
    (pattern : List Char) (length : Int) : Prop where
  inner_eq : inner = some compile
  cut : ∃ lengthText, Call.twoArguments? arguments = some (pattern, lengthText) ∧
    integerOfChars? (Text.trimEnds Text.isBlank lengthText) = some length
  length_le : length ≤ stepLimit

variable {inner : Option Compiler} {arguments pattern : List Char} {compile : Compiler}
  {length : Int} {desk middle after : Desk}

/-! ## Calls that are not admitted -/

/-- Leaving a call takes a warning and no draw. -/
theorem exists_leave (call : List Char) (reason : String) (desk : Desk) :
    ∃ after, (Call.leave call reason).outcome desk = (.ok call, after) ∧
      after.source = desk.source :=
  ⟨_, rfl, rfl⟩

/-- **A call that is not admitted is left, and nothing has been drawn.** -/
theorem expandSpread_of_not_admitted
    (h : ∀ compile pattern length, ¬ Admitted inner arguments compile pattern length)
    (desk : Desk) :
    ∃ after, (expandSpread inner arguments).outcome desk = (.ok (spreadText arguments), after) ∧
      after.source = desk.source := by
  unfold expandSpread
  simp only
  split
  · exact exists_leave _ _ _
  · next pattern lengthText htwo =>
    split
    · exact exists_leave _ _ _
    · next length hread =>
      unfold expandSpreadTo
      split
      · exact exists_leave _ _ _
      · next hlength =>
        cases inner with
        | none => exact exists_leave _ _ _
        | some compile =>
          exact absurd ⟨rfl, ⟨lengthText, htwo, hread⟩, Int.not_lt.mp hlength⟩
            (h compile pattern length)

/-! ## Calls that are admitted -/

/-- What is done with the tape of an admitted call, or with the fault in its place. -/
def recover (call : List Char) : Except Fault String → Play (List Char)
  | .ok tape => return tape.toList
  | .error fault => if fault.isInput then Call.leave call fault.message else throw fault

/-- The tape of a call: the tape of its pattern, at its length. -/
def callTape (compile : Compiler) (pattern : List Char) (length : Int) : Play String := do
  let tape ← compile pattern
  Call.spreadTape tape length

theorem expandSpread_of_admitted (h : Admitted inner arguments compile pattern length) :
    expandSpread inner arguments =
      Play.attempt (callTape compile pattern length) >>= recover (spreadText arguments) := by
  obtain ⟨rfl, ⟨lengthText, htwo, hread⟩, hlength⟩ := h
  unfold expandSpread
  simp only [htwo, hread]
  rw [expandSpreadTo, if_neg (Int.not_lt.mpr hlength)]
  refine bind_congr fun result => ?_
  cases result with
  | ok tape => rfl
  | error fault => rfl

/-- An admitted call comes to what is made of the outcome of its tape. -/
theorem outcome_expandSpread (h : Admitted inner arguments compile pattern length) (desk : Desk) :
    (expandSpread inner arguments).outcome desk =
      (recover (spreadText arguments) ((callTape compile pattern length).outcome desk).1).outcome
        ((callTape compile pattern length).outcome desk).2 := by
  rw [expandSpread_of_admitted h, Play.outcome_bind_ok (Play.outcome_attempt _ desk)]

theorem source_recover (call : List Char) (result : Except Fault String) (desk : Desk) :
    ((recover call result).outcome desk).2.source = desk.source := by
  cases result with
  | ok tape => rfl
  | error fault =>
    rw [recover]
    split
    · rfl
    · rfl

theorem callTape_of_ok {tape : String} (h : (compile pattern).outcome desk = (.ok tape, after)) :
    (callTape compile pattern length).outcome desk = (Call.spreadTape tape length, after) := by
  rw [callTape, Play.outcome_bind_ok h, Play.outcome_lift]

theorem callTape_of_error {fault : Fault}
    (h : (compile pattern).outcome desk = (.error fault, after)) :
    (callTape compile pattern length).outcome desk = (.error fault, after) := by
  rw [callTape, Play.outcome_bind_error h]

/-- **An admitted call leaves the source as the compiler of its pattern does,** whatever becomes
of it. -/
theorem source_expandSpread (h : Admitted inner arguments compile pattern length) (desk : Desk) :
    ((expandSpread inner arguments).outcome desk).2.source =
      ((compile pattern).outcome desk).2.source := by
  rw [outcome_expandSpread h, source_recover]
  rcases hcompile : (compile pattern).outcome desk with ⟨fault | tape, after⟩
  · rw [callTape_of_error hcompile]
  · rw [callTape_of_ok hcompile]

/-- A call becomes the tape of its pattern at its length. -/
theorem expandSpread_of_ok (h : Admitted inner arguments compile pattern length) {tape : String}
    (htape : (callTape compile pattern length).outcome desk = (.ok tape, after)) :
    (expandSpread inner arguments).outcome desk = (.ok tape.toList, after) := by
  rw [outcome_expandSpread h, htape]
  rfl

/-- A call whose pattern has no tape is left when the fault is one of the input, and passes the
fault on otherwise. -/
theorem expandSpread_of_error (h : Admitted inner arguments compile pattern length) {fault : Fault}
    (hfault : (compile pattern).outcome desk = (.error fault, after)) :
    ((expandSpread inner arguments).outcome desk).1 =
      if fault.isInput then .ok (spreadText arguments) else .error fault := by
  rw [outcome_expandSpread h, callTape_of_error hfault]
  simp only [recover]
  split
  · rfl
  · rfl

/-- A call whose length is not positive is left when its pattern has a tape. -/
theorem expandSpread_of_nonpos (h : Admitted inner arguments compile pattern length)
    {tape : String} (htape : (compile pattern).outcome desk = (.ok tape, after))
    (hlength : length ≤ 0) :
    ((expandSpread inner arguments).outcome desk).1 = .ok (spreadText arguments) := by
  rw [outcome_expandSpread h, callTape_of_ok htape, spreadTape_of_nonpos tape hlength]
  rfl

/-! ## Calls that are left -/

/-- What makes an admitted call stay as it stands: a fault of the input in its pattern, a length
that is not positive, or a tape that happens to be the text of the call. -/
def StaysAt (compile : Compiler) (arguments pattern : List Char) (length : Int) (desk : Desk) :
    Prop :=
  (∃ fault, ((compile pattern).outcome desk).1 = .error fault ∧ fault.isInput = true) ∨
    ∃ tape, ((compile pattern).outcome desk).1 = .ok tape ∧
      (length ≤ 0 ∨ Call.spreadTape tape length = .ok (String.ofList (spreadText arguments)))

theorem expandSpread_eq_call_iff (h : Admitted inner arguments compile pattern length)
    (desk : Desk) :
    ((expandSpread inner arguments).outcome desk).1 = .ok (spreadText arguments) ↔
      StaysAt compile arguments pattern length desk := by
  rcases hcompile : (compile pattern).outcome desk with ⟨fault | tape, after⟩
  · rw [expandSpread_of_error h hcompile]
    simp only [StaysAt, hcompile]
    cases hinput : fault.isInput with
    | true => simp [hinput]
    | false => simp [hinput]
  · have hstays : StaysAt compile arguments pattern length desk ↔ length ≤ 0 ∨
        Call.spreadTape tape length = .ok (String.ofList (spreadText arguments)) := by
      simp [StaysAt, hcompile]
    rw [hstays]
    by_cases hlength : length ≤ 0
    · rw [expandSpread_of_nonpos h hcompile hlength]
      exact ⟨fun _ => .inl hlength, fun _ => rfl⟩
    · obtain ⟨longer, hlonger⟩ := exists_spreadTape tape (Int.not_le.mp hlength) h.length_le
      have htape : (callTape compile pattern length).outcome desk = (.ok longer, after) := by
        rw [callTape_of_ok hcompile, hlonger]
      rw [expandSpread_of_ok h htape, hlonger]
      constructor
      · intro heq
        have hlist : longer.toList = spreadText arguments := Except.ok.inj heq
        rw [← hlist, String.ofList_toList]
        exact .inr rfl
      · rintro (hnonpos | heq)
        · exact absurd hnonpos hlength
        · rw [Except.ok.inj heq, String.toList_ofList]

/-- **When a call is left as it stands, and what has been drawn then.**  It is left when it is not
admitted, and then nothing has been drawn, or when it is admitted and stays; then everything has
been drawn that its pattern draws. -/
theorem expandSpread_left_iff (inner : Option Compiler) (arguments : List Char) (desk : Desk) :
    (((expandSpread inner arguments).outcome desk).1 = .ok (spreadText arguments) ↔
      (∀ compile pattern length, ¬ Admitted inner arguments compile pattern length) ∨
        ∃ compile pattern length, Admitted inner arguments compile pattern length ∧
          StaysAt compile arguments pattern length desk) ∧
      ((∀ compile pattern length, ¬ Admitted inner arguments compile pattern length) →
        ((expandSpread inner arguments).outcome desk).2.source = desk.source) ∧
      ∀ compile pattern length, Admitted inner arguments compile pattern length →
        ((expandSpread inner arguments).outcome desk).2.source =
          ((compile pattern).outcome desk).2.source := by
  refine ⟨⟨fun hleft => ?_, ?_⟩, fun hnone => ?_, fun compile pattern length h =>
    source_expandSpread h desk⟩
  · by_cases hnone : ∀ compile pattern length, ¬ Admitted inner arguments compile pattern length
    · exact .inl hnone
    · simp only [not_forall, not_not] at hnone
      obtain ⟨compile, pattern, length, h⟩ := hnone
      exact .inr ⟨compile, pattern, length, h, (expandSpread_eq_call_iff h desk).mp hleft⟩
  · rintro (hnone | ⟨compile, pattern, length, h, hstays⟩)
    · obtain ⟨after, hleft, -⟩ := expandSpread_of_not_admitted hnone desk
      rw [hleft]
    · exact (expandSpread_eq_call_iff h desk).mpr hstays
  · obtain ⟨after, hleft, hsource⟩ := expandSpread_of_not_admitted hnone desk
    rw [hleft]
    exact hsource

/-- The length zero is refused when the random note has been drawn. -/
theorem expandSpread_left_zero :
    Admitted (innerCompiler .standard) "?, 0".toList (compiler .standard (nestingLimit - 1))
        "?".toList 0 ∧
      StaysAt (compiler .standard (nestingLimit - 1)) "?, 0".toList "?".toList 0
        ⟨.script ⟨#[], 0⟩, #[]⟩ ∧
      ((expandSpread (innerCompiler .standard) "?, 0".toList).outcome
        ⟨.script ⟨#[], 0⟩, #[]⟩).1 = .ok "spread(?, 0)".toList ∧
      ((expandSpread (innerCompiler .standard) "?, 0".toList).outcome
        ⟨.script ⟨#[], 0⟩, #[]⟩).2.source = .script ⟨#[], 1⟩ := by
  have h : Admitted (innerCompiler .standard) "?, 0".toList
      (compiler .standard (nestingLimit - 1)) "?".toList 0 :=
    ⟨rfl, ⟨" 0".toList, by decide +kernel, by decide +kernel⟩, by decide⟩
  have htape : ((compiler .standard (nestingLimit - 1) "?".toList).outcome
      ⟨.script ⟨#[], 0⟩, #[]⟩).1 = .ok "1" := by
    decide +kernel
  have hdrawn : ((compiler .standard (nestingLimit - 1) "?".toList).outcome
      ⟨.script ⟨#[], 0⟩, #[]⟩).2.source = .script ⟨#[], 1⟩ := by
    decide +kernel
  have hstays : StaysAt (compiler .standard (nestingLimit - 1)) "?, 0".toList "?".toList 0
      ⟨.script ⟨#[], 0⟩, #[]⟩ := .inr ⟨"1", htape, .inl (by decide)⟩
  have htext : Call.spreadText "?, 0".toList = "spread(?, 0)".toList := by decide +kernel
  obtain ⟨hleft, -, hsource⟩ := expandSpread_left_iff (innerCompiler .standard) "?, 0".toList
    ⟨.script ⟨#[], 0⟩, #[]⟩
  rw [htext] at hleft
  exact ⟨h, hstays, hleft.mpr (.inr ⟨_, _, _, h, hstays⟩), (hsource _ _ _ h).trans hdrawn⟩

end Pattern
end NoteTape
