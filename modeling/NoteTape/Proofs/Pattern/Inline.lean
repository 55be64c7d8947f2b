import NoteTape.Proofs.Pattern.Nesting
import NoteTape.Proofs.Pattern.Spread

/-!
# A spread call and the function it stands for

`spread(pattern,length)` in a pattern comes to what `compileTo` makes of the pattern and the
length: the same tape from the same draws.  The call takes a longer way.  It is searched for in the
text and cut into its arguments, its pattern is compiled one level deeper, and the tape that comes
out is put back into the text and compiled once more.  Each of these steps has its reason to change
nothing:

* the pass over the Euclidean calls stays inside the pattern, `Call.replaceEuclids_spreadText`;
* a pattern that is well nested, without a comma outside parentheses, is found and cut off as
  written, `Call.pieces_spreadText` and `Call.twoArguments?_append`;
* the length is read back from its digits, `integerOfChars?_of_decimal?`;
* the level makes no difference to a pattern with fewer calls than levels, `alike_compiler_succ`;
* and what comes out is a tape, which compiles to itself, `assemble_of_isTape`.
-/

namespace NoteTape
namespace Pattern

open Play (Alike)
open Call (spreadText WellNested CommasInside Unexpandable replaceEuclids spreadCount levelAfter)

/-! ## The length -/

/-- A numeral opens and closes nothing, and has no comma. -/
theorem isPlain_of_mem_numeral {cs : List Char} (h : IsNumeral cs) {c : Char} (hc : c ∈ cs) :
    Call.IsPlain c := by
  rcases h.mem hc with rfl | rfl | hdigit
  · exact ⟨by decide, by decide, by decide⟩
  · exact ⟨by decide, by decide, by decide⟩
  · exact Call.isPlain_of_class (by decide) (by decide) (by decide) hdigit

theorem levelAfter_numeral {cs : List Char} (h : IsNumeral cs) : levelAfter 0 cs = some 0 :=
  Call.levelAfter_of_isPlain 0 fun _ hc => isPlain_of_mem_numeral h hc

theorem not_mem_numeral {cs : List Char} (h : IsNumeral cs) : 'E' ∉ cs := by
  intro hmem
  rcases h.mem hmem with heq | heq | hdigit
  · exact absurd heq (by decide)
  · exact absurd heq (by decide)
  · exact absurd hdigit (by decide)

theorem trimEnds_of_forall {drop : Char → Bool} {cs : List Char}
    (h : ∀ c ∈ cs, drop c = false) : Text.trimEnds drop cs = cs := by
  have hdrop {cs : List Char} (h : ∀ c ∈ cs, drop c = false) : cs.dropWhile drop = cs := by
    cases cs with
    | nil => rfl
    | cons c cs => rw [List.dropWhile_cons_of_neg (by simp [h c (List.mem_cons_self ..)])]
  rw [Text.trimEnds, hdrop h, Text.trimEnd, hdrop fun c hc => h c (List.mem_reverse.mp hc),
    List.reverse_reverse]

theorem trimEnds_numeral {cs : List Char} (h : IsNumeral cs) :
    Text.trimEnds Text.isBlank cs = cs :=
  trimEnds_of_forall fun _ hc => IsElementChar.isBlank_eq (h.mem hc)

/-! ## The call -/

/-- A call of a pattern and a length that can be read is admitted. -/
theorem admitted_written (compile : Compiler) {pattern digits : List Char} {length : Int}
    (hpattern : levelAfter 0 pattern = some 0) (hread : integerOfChars? digits = some length)
    (hlength : length ≤ stepLimit) :
    Admitted (some compile) (pattern ++ ',' :: digits) compile pattern length := by
  have hnumeral : IsNumeral digits := (isSome_integerOfChars?_iff _).mp (by rw [hread]; rfl)
  refine ⟨rfl, ⟨digits, Call.twoArguments?_append hpattern (levelAfter_numeral hnumeral), ?_⟩,
    hlength⟩
  rw [trimEnds_numeral hnumeral, hread]

/-- The whole text is one call, and one pass over the text is a pass over its pattern. -/
theorem expandCallsWith_call (inner : Option Compiler) {pattern lengthText : List Char}
    (hpattern : WellNested pattern) (hlevel : levelAfter 0 (replaceEuclids pattern) = some 0)
    (hlength : levelAfter 0 lengthText = some 0) (heuclid : 'E' ∉ lengthText) (desk : Desk) :
    ∃ middle, middle.source = desk.source ∧
      (expandCallsWith inner (spreadText (pattern ++ ',' :: lengthText))).outcome desk =
        (expandSpread inner (replaceEuclids pattern ++ ',' :: lengthText)).outcome middle := by
  obtain ⟨middle, hpass, hsource⟩ := (Call.alike_expandEuclids
    (spreadText (pattern ++ ',' :: lengthText))).exists_ok rfl (Play.outcome_pure _ desk)
  refine ⟨middle, hsource, ?_⟩
  rw [expandCallsWith, Play.outcome_bind_ok hpass,
    Call.replaceEuclids_spreadText hpattern heuclid,
    Call.pieces_spreadText hlevel hlength, Call.replaceCalls_singleton]
  rfl

theorem expandCallsWith_spreadText (inner : Option Compiler) {pattern digits : List Char}
    (hpattern : WellNested pattern) (hlevel : levelAfter 0 (replaceEuclids pattern) = some 0)
    (hdigits : IsNumeral digits) (desk : Desk) :
    ∃ middle, middle.source = desk.source ∧
      (expandCallsWith inner (spreadText (pattern ++ ',' :: digits))).outcome desk =
        (expandSpread inner (replaceEuclids pattern ++ ',' :: digits)).outcome middle :=
  expandCallsWith_call inner hpattern hlevel (levelAfter_numeral hdigits) (not_mem_numeral hdigits)
    desk

/-- **A spread call agrees with the function.**  The pattern is well nested, its commas are inside
parentheses, and what one pass over its Euclidean calls makes of it has no more Euclidean calls to
expand and fewer spread calls than there are levels.  Then whenever the pattern has a tape at the
length, the call has the same tape, and leaves the source in the same state. -/
theorem compile_spread_call {context : Context}
    (hpool : ∀ note ∈ context.notes, IsNumeral note.toList) {pattern : String} {length : Int}
    (hpos : 1 ≤ length) (hlength : length ≤ stepLimit) (hnested : WellNested pattern.toList)
    (hcommas : CommasInside pattern.toList) {desk : Desk} {rewritten : List Char}
    (hpass : ((Call.expandEuclids pattern.toList).outcome desk).1 = .ok rewritten)
    (hrhythms : Unexpandable rewritten) (hcalls : spreadCount rewritten < nestingLimit)
    {tape : String} {after : Desk}
    (h : (compileTo context pattern length).outcome desk = (.ok tape, after)) :
    ∃ last, (compile context ("spread(" ++ pattern ++ "," ++ toString length ++ ")")).outcome desk =
        (.ok tape, last) ∧ last.source = after.source := by
  have hrewritten : replaceEuclids pattern.toList = rewritten := by
    have hanswer := (Call.alike_expandEuclids pattern.toList desk desk rfl).1
    rw [hpass] at hanswer
    exact (Except.ok.inj hanswer).symm
  have hread : integerOfChars? (toString length).toList = some length := by
    have hlarge := two_pow_lt_decimalBound
    have hlimit : (stepLimit : Int) = 4096 := rfl
    refine integerOfChars?_of_decimal? (decimal?_of_lt ?_)
    generalize decimalBound = bound at hlarge ⊢
    omega
  have hnumeral : IsNumeral (toString length).toList :=
    (isSome_integerOfChars?_iff _).mp (by rw [hread]; rfl)
  have hlevel : levelAfter 0 rewritten = some 0 := by
    rw [← hrewritten, Call.levelAfter_replaceEuclids]
    exact Call.levelAfter_eq_zero_iff.mpr ⟨hnested, hcommas⟩
  -- the text is one call
  have htext : ("spread(" ++ pattern ++ "," ++ toString length ++ ")").toList =
      spreadText (pattern.toList ++ ',' :: (toString length).toList) := by
    simp [spreadText, Call.spreadHead]
  obtain ⟨middle, hsource, hcall⟩ := expandCallsWith_spreadText (innerCompiler context) hnested
    (hrewritten ▸ hlevel) hnumeral desk
  rw [hrewritten] at hcall
  -- its pattern is compiled one level deeper
  have hlevels : Alike (compiler context (nestingLimit - 1) rewritten)
      (compile context pattern) := by
    have hsame : replaceEuclids pattern.toList = replaceEuclids rewritten := by
      rw [hrewritten, Call.replaceEuclids_of_unexpandable hrhythms]
    refine (alike_compiler_succ context hsame ?_ ?_).symm
    · rwa [hrewritten]
    · rw [hrewritten]
      exact Nat.le_sub_one_of_lt hcalls
  have hfunction : Alike (callTape (compiler context (nestingLimit - 1)) rewritten length)
      (compileTo context pattern length) :=
    hlevels.bind fun tape => .lift (Call.spreadTape tape length)
  obtain ⟨last, hlast, hafter⟩ := hfunction.exists_ok hsource h
  have hexpand := expandSpread_of_ok
    (admitted_written (compiler context (nestingLimit - 1)) hlevel hread hlength) hlast
  -- and what comes out is a tape
  obtain ⟨shorter, _, hshorter, hspread⟩ := Play.exists_of_outcome_bind h
  rw [Play.outcome_lift] at hspread
  have htape : IsTape tape :=
    isTape_spreadTape (isTape_of_compile hpool hshorter) (congrArg Prod.fst hspread)
  refine ⟨last, ?_, hafter⟩
  change (expandCallsWith (innerCompiler context) _ >>= fun text => assemble context text).outcome
    desk = _
  rw [htext, Play.outcome_bind_ok (hcall.trans hexpand), assemble_of_isTape context htape,
    Play.outcome_pure]

/-- A pattern with a random note, a call inside the call, a Euclidean call that is expanded and one
that is left. -/
theorem compile_spread_call_nested :
    (∀ note ∈ ["60", "-62"], IsNumeral note.toList) ∧
      WellNested "? spread(2 ?<5-9>,3) E(1,2) E(9,4)".toList ∧
      CommasInside "? spread(2 ?<5-9>,3) E(1,2) E(9,4)".toList ∧
      Unexpandable "? spread(2 ?<5-9>,3) 1 - E(9,4)".toList ∧
      spreadCount "? spread(2 ?<5-9>,3) 1 - E(9,4)".toList < nestingLimit ∧
      ∃ last,
        (compile ⟨["60", "-62"], 1, 127, [], by decide, by decide⟩
          "spread(? spread(2 ?<5-9>,3) E(1,2) E(9,4),9)").outcome ⟨.script ⟨#[], 0⟩, #[]⟩ =
            (.ok "60 60 2 2 2 2 5 5 1", last) ∧
          last.source = .script ⟨#[], 2⟩ := by
  have hpool : ∀ note ∈ ["60", "-62"], IsNumeral note.toList := by
    intro note hnote
    rw [← isSome_integerOfChars?_iff]
    revert note
    decide +kernel
  obtain ⟨hnested, hcommas⟩ : WellNested "? spread(2 ?<5-9>,3) E(1,2) E(9,4)".toList ∧
      CommasInside "? spread(2 ?<5-9>,3) E(1,2) E(9,4)".toList :=
    Call.levelAfter_eq_zero_iff.mp (by decide +kernel)
  have hrhythms : Unexpandable "? spread(2 ?<5-9>,3) 1 - E(9,4)".toList := by decide +kernel
  have hcalls : spreadCount "? spread(2 ?<5-9>,3) 1 - E(9,4)".toList < nestingLimit := by
    decide +kernel
  have hpass : ((Call.expandEuclids "? spread(2 ?<5-9>,3) E(1,2) E(9,4)".toList).outcome
      ⟨.script ⟨#[], 0⟩, #[]⟩).1 = .ok "? spread(2 ?<5-9>,3) 1 - E(9,4)".toList := by
    decide +kernel
  have hvalue : ((compileTo ⟨["60", "-62"], 1, 127, [], by decide, by decide⟩
      "? spread(2 ?<5-9>,3) E(1,2) E(9,4)" 9).outcome ⟨.script ⟨#[], 0⟩, #[]⟩).1 =
        .ok "60 60 2 2 2 2 5 5 1" := by
    decide +kernel
  have hsource : ((compileTo ⟨["60", "-62"], 1, 127, [], by decide, by decide⟩
      "? spread(2 ?<5-9>,3) E(1,2) E(9,4)" 9).outcome ⟨.script ⟨#[], 0⟩, #[]⟩).2.source =
        .script ⟨#[], 2⟩ := by
    decide +kernel
  obtain ⟨last, hlast, hafter⟩ := compile_spread_call hpool (by decide) (by decide) hnested hcommas
    hpass hrhythms hcalls (Prod.ext hvalue rfl)
  refine ⟨hpool, hnested, hcommas, hrhythms, hcalls, last, ?_, hafter.trans hsource⟩
  have htext : "spread(" ++ "? spread(2 ?<5-9>,3) E(1,2) E(9,4)" ++ "," ++ toString (9 : Int) ++ ")" =
      "spread(? spread(2 ?<5-9>,3) E(1,2) E(9,4),9)" := by
    decide +kernel
  rwa [htext] at hlast

end Pattern
end NoteTape
