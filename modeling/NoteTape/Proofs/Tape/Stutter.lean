import NoteTape.Proofs.Rhythm.Bjorklund
import NoteTape.Proofs.Rhythm.Place
import NoteTape.Proofs.Tape.Symmetry

/-!
# Repeating elements in place

An element is repeated in place in two ways.  Stuttering has a count for each element, and the counts
start over when there are fewer of them, `copied`.  Spreading has the length of the result, finds out
how many copies are enough and cuts what is too much.

When the length is a multiple of that of the tape, the copies are enough and nothing is cut,
`spread_multiple`, so this is stuttering with one count.  A quotient of floating-point numbers decides
how many copies there are, which is why the length must be one that a mantissa can hold.

Stuttering has a limit of its own: no list is repeated `2 ^ 63` times, `answers_stutter_of_le`.
-/

namespace NoteTape

namespace Rhythm

variable {α : Type} {items : List α} {copies : Nat}

theorem length_flatMap_replicate (items : List α) (copies : Nat) :
    (items.flatMap (List.replicate copies)).length = copies * items.length := by
  rw [List.length_flatMap, List.map_congr_left fun item _ => List.length_replicate, List.map_const',
    List.sum_replicate_nat, Nat.mul_comm]

/-- In a result that is a number of copies long the items are taken that many times. -/
theorem exactPlace_multiple {count : Nat} (hcount : 0 < count) (hcopies : 1 ≤ copies) :
    exactPlace count (copies * count) = (· / copies) := by
  have hquotient : (((copies * count : Nat) : ℚ) / count) = copies := by
    rw [Nat.cast_mul, mul_div_cancel_right₀ _ (Nat.cast_ne_zero.mpr hcount.ne')]
  funext place
  rw [exactPlace, hquotient, Nat.ceil_natCast]
  rcases hcopies.eq_or_lt with rfl | hmore
  · rw [Nat.one_mul, if_pos rfl, Nat.div_one]
  · have hlt : count < copies * count := lt_mul_of_one_lt_left hcount hmore
    rw [if_neg hlt.ne', if_pos hlt]

/-- **To a multiple of its length** a sequence is brought by repeating every item. -/
theorem spread_multiple (hne : items ≠ []) (hcopies : 1 ≤ copies)
    (hlength : copies * items.length < 2 ^ 53) :
    spread items (copies * items.length : Nat) = .ok (items.flatMap (List.replicate copies)) := by
  have hcount : 0 < items.length := List.length_pos_iff.mpr hne
  have hle : items.length ≤ copies * items.length := Nat.le_mul_of_pos_left _ hcopies
  rw [spread_eq hne (by omega) (by omega), if_pos (quotient_lt_overflow hcount (by omega)),
    place_eq_exactPlace hcount hle hlength, exactPlace_multiple hcount hcopies,
    ← stretch_eq hcopies, stretch, ← length_flatMap_replicate, List.take_length]

end Rhythm

namespace Tape

open Play (Answers)
open Rhythm (countBound)
open Text (unwords words)

variable {counts : List Int} {elements : List String} {pattern tape : String}

/-! ## Copies -/

/-- The count for the element at a place, the counts over and over. -/
def countAt (counts : List Int) (place : Nat) : Int := counts.getD (place % counts.length) 0

/-- Every element as often as its count says, and not at all when that is negative. -/
def copied (counts : List Int) (elements : List String) : List String :=
  elements.zipIdx.flatMap fun (element, place) =>
    List.replicate (max 0 (countAt counts place)).toNat element

theorem mem_of_mem_copied {element : String} (h : element ∈ copied counts elements) :
    element ∈ elements := by
  obtain ⟨⟨item, place⟩, hitem, hcopy⟩ := List.mem_flatMap.mp h
  rw [List.eq_of_mem_replicate hcopy]
  exact List.fst_mem_of_mem_zipIdx hitem

/-- One count counts for every element. -/
theorem copied_singleton (copies : Nat) (elements : List String) :
    copied [(copies : Int)] elements = elements.flatMap (List.replicate copies) := by
  have hcount (place : Nat) : (max 0 (countAt [(copies : Int)] place)).toNat = copies := by
    rw [countAt, List.length_singleton, Nat.mod_one, List.getD_cons_zero]
    omega
  simp only [copied, hcount]
  rw [← List.flatMap_map Prod.fst, List.zipIdx_map_fst]

/-- The copies of one element, unless there are too many. -/
def copiesAt (counts : List Int) (item : String × Nat) : Except Fault (List String) := do
  return List.replicate (← Rhythm.repetitions (max 0 (countAt counts item.2))) item.1

theorem stuttered_eq (counts : List Int) (elements : List String) :
    stuttered elements counts.toArray =
      elements.zipIdx.mapM (copiesAt counts) >>= fun parts => .ok parts.flatten := by
  have hcount (place : Nat) :
      counts.toArray.getD (place % counts.toArray.size) 0 = countAt counts place := by
    rw [countAt, Array.getD_eq_getD_getElem?, List.getElem?_toArray, List.size_toArray,
      List.getD_eq_getElem?_getD]
  simp only [stuttered, hcount]
  rfl

theorem copiesAt_of_lt {item : String × Nat} (h : countAt counts item.2 < countBound) :
    copiesAt counts item = .ok (List.replicate (max 0 (countAt counts item.2)).toNat item.1) := by
  have hbound : (0 : Int) < countBound := by decide
  rw [copiesAt, Rhythm.repetitions_of_lt (by omega) (by omega)]
  rfl

theorem copiesAt_of_le {item : String × Nat} (h : countBound ≤ countAt counts item.2) :
    copiesAt counts item = .error .countTooLarge := by
  rw [copiesAt, Rhythm.repetitions_of_le (by omega)]
  rfl

/-- **Elements are copied** when no list gets too long. -/
theorem stuttered_of_lt (h : ∀ place < elements.length, countAt counts place < countBound) :
    stuttered elements counts.toArray = .ok (copied counts elements) := by
  have hcopies : ∀ item ∈ elements.zipIdx, copiesAt counts item =
      pure (List.replicate (max 0 (countAt counts item.2)).toNat item.1) :=
    fun item hitem => copiesAt_of_lt (h item.2 (List.mem_zipIdx' hitem).1)
  rw [stuttered_eq, Play.mapM_congr hcopies, List.mapM_pure]
  rfl

/-- One count that is too great is enough. -/
theorem stuttered_of_le (h : ∃ place < elements.length, countBound ≤ countAt counts place) :
    stuttered elements counts.toArray = .error .countTooLarge := by
  obtain ⟨place, hplace, hcount⟩ := h
  rw [stuttered_eq]
  cases hparts : elements.zipIdx.mapM (copiesAt counts) with
  | ok parts =>
    have hmem : (elements[place], place) ∈ elements.zipIdx :=
      List.mk_mem_zipIdx_iff_getElem?.mpr (List.getElem?_eq_getElem hplace)
    obtain ⟨part, hpart⟩ := Play.exists_mapM_eq_ok_iff.mp ⟨parts, hparts⟩ _ hmem
    exact nomatch (copiesAt_of_le hcount).symm.trans hpart
  | error fault =>
    obtain ⟨_, item, _, -, -, hfault⟩ := Play.exists_of_mapM_eq_error hparts
    rcases Int.lt_or_le (countAt counts item.2) countBound with hlt | hle
    · exact nomatch (copiesAt_of_lt hlt).symm.trans hfault
    · rw [copiesAt_of_le hle] at hfault
      rw [← Except.error.inj hfault]
      rfl

/-! ## Patterns -/

theorem answers_stutter (hcompile : Answers (Pattern.compile .standard pattern) (.ok tape))
    (hcounts : counts ≠ []) :
    Answers (stutter pattern counts)
      (stuttered (words tape) counts.toArray >>= fun elements => .ok (unwords elements)) := by
  rw [stutter, if_neg (by rwa [List.isEmpty_iff])]
  exact (Pattern.answers_elements hcompile).bind_ok ((Answers.lift _).bind fun _ => .pure _)

theorem answers_stutter_of_lt (hcompile : Answers (Pattern.compile .standard pattern) (.ok tape))
    (hcounts : counts ≠ []) (h : ∀ place < (words tape).length, countAt counts place < countBound) :
    Answers (stutter pattern counts) (.ok (unwords (copied counts (words tape)))) := by
  have hanswers := answers_stutter hcompile hcounts
  rwa [stuttered_of_lt h] at hanswers

theorem answers_stutter_of_le (hcompile : Answers (Pattern.compile .standard pattern) (.ok tape))
    (hcounts : counts ≠ [])
    (h : ∃ place < (words tape).length, countBound ≤ countAt counts place) :
    Answers (stutter pattern counts) (.error .countTooLarge) := by
  have hanswers := answers_stutter hcompile hcounts
  rwa [stuttered_of_le h] at hanswers

theorem answers_compileTo_multiple {copies : Nat}
    (hcompile : Answers (Pattern.compile .standard pattern) (.ok tape)) (hne : words tape ≠ [])
    (hcopies : 1 ≤ copies) (hlength : copies * (words tape).length < 2 ^ 53) :
    Answers (Pattern.compileTo .standard pattern (copies * (words tape).length : Nat))
      (.ok (unwords ((words tape).flatMap (List.replicate copies)))) := by
  have hspread : Call.spreadTape tape (copies * (words tape).length : Nat) =
      .ok (unwords ((words tape).flatMap (List.replicate copies))) := by
    rw [Call.spreadTape, if_neg fun hand => hne (List.isEmpty_iff.mp hand.2),
      Rhythm.spread_multiple hne hcopies hlength]
    rfl
  refine hcompile.bind_ok ?_
  rw [hspread]
  exact .pure _

/-- **Stuttering is uniform spreading.**  A pattern without question marks has one tape.  When this is
not empty, stuttering with one positive count is spreading to the multiple of its length, as long as a
mantissa can hold this.  For any counts that are not too great the result has the copies of every
element in order, as many as its count says.  With a count of `2 ^ 63` or more for some element there is
no result. -/
theorem stutter_spreads (hdraw : '?' ∉ pattern.toList) :
    ∃ tape, Answers (Pattern.compile .standard pattern) (.ok tape) ∧
      (tape ≠ "" → ∀ copies : Nat, 1 ≤ copies → copies * (words tape).length < 2 ^ 53 →
        Coincide (stutter pattern [(copies : Int)])
          (Pattern.compileTo .standard pattern (copies * (words tape).length : Nat))) ∧
      ∀ counts, counts ≠ [] →
        ((∀ place < (words tape).length, countAt counts place < countBound) →
          ∃ text, Answers (stutter pattern counts) (.ok text) ∧ IsTape text ∧
            words text = copied counts (words tape)) ∧
        ((∃ place < (words tape).length, countBound ≤ countAt counts place) →
          Answers (stutter pattern counts) (.error .countTooLarge)) := by
  obtain ⟨tape, hcompile, htape⟩ := Pattern.yields_compile Pattern.isUndrawn_standard hdraw
  refine ⟨tape, hcompile, fun hnonempty copies hcopies hlength => ?_,
    fun counts hcounts => ⟨fun hlt => ?_, answers_stutter_of_le hcompile hcounts⟩⟩
  · have hne : words tape ≠ [] := fun hnil => hnonempty (htape.words_eq_nil_iff.mp hnil)
    have hcopiesLt : copies < 2 ^ 53 :=
      (Nat.le_mul_of_pos_right _ (List.length_pos_iff.mpr hne)).trans_lt hlength
    refine ⟨_, ?_, answers_compileTo_multiple hcompile hne hcopies hlength⟩
    rw [← copied_singleton]
    refine answers_stutter_of_lt hcompile (List.cons_ne_nil _ _) fun place _ => ?_
    have hbound : countBound = 2 ^ 63 := rfl
    rw [countAt, List.length_singleton, Nat.mod_one, List.getD_cons_zero]
    omega
  · have hmem : ∀ e ∈ copied counts (words tape), e ∈ words tape := fun _ => mem_of_mem_copied
    obtain ⟨htext, hwords⟩ := isTape_unwords htape hmem
    exact ⟨_, answers_stutter_of_lt hcompile hcounts hlt, htext, hwords⟩

/-- Every element of a tape twice, and with counts of which one is negative. -/
theorem stutter_spreads_three :
    '?' ∉ "[ 1 - ] 3".toList ∧
      Coincide (stutter "[ 1 - ] 3" [2]) (Pattern.compileTo .standard "[ 1 - ] 3" 6) ∧
      Answers (stutter "[ 1 - ] 3" [3, -1]) (.ok "1 1 1 3 3 3") ∧
      copied [3, -1] ["1", "-", "3"] = ["1", "1", "1", "3", "3", "3"] ∧
      Answers (stutter "[ 1 - ] 3" [2, 2 ^ 63]) (.error .countTooLarge) := by
  have hdraw : '?' ∉ "[ 1 - ] 3".toList := by decide
  have htape : ((Pattern.compile .standard "[ 1 - ] 3").outcome ⟨.script ⟨#[], 0⟩, #[]⟩).1 =
      .ok "1 - 3" := by
    decide +kernel
  have hvalue : ((stutter "[ 1 - ] 3" [3, -1]).outcome ⟨.script ⟨#[], 0⟩, #[]⟩).1 =
      .ok "1 1 1 3 3 3" := by
    decide +kernel
  have hwords : words "1 - 3" = ["1", "-", "3"] := by decide +kernel
  obtain ⟨tape, hcompile, huniform, hcounts⟩ := stutter_spreads hdraw
  obtain rfl := hcompile.eq_of_outcome htape
  rw [hwords] at huniform hcounts
  obtain ⟨text, htext, -⟩ := (hcounts [3, -1] (by decide)).1 (by decide)
  obtain rfl := htext.eq_of_outcome hvalue
  have htwice := huniform (by decide) 2 (by decide) (by decide)
  exact ⟨hdraw, htwice, htext, by decide, (hcounts [2, 2 ^ 63] (by decide)).2 (by decide)⟩

/-- A list cannot be repeated this often. -/
theorem stutter_count_too_great :
    '?' ∉ "1".toList ∧ Answers (Pattern.compile .standard "1") (.ok "1") ∧
      Answers (stutter "1" [2 ^ 63]) (.error .countTooLarge) ∧
      ¬ ∃ text, Answers (stutter "1" [2 ^ 63]) (.ok text) ∧
        words text = copied [2 ^ 63] (words "1") := by
  have htape : IsTape "1" := by
    refine ⟨["1"], List.forall_mem_singleton.mpr (isElement_of_decimal (n := 1) ?_), rfl⟩
    decide +kernel
  have hcompile := Pattern.answers_compile_of_isTape htape
  have hwords : words "1" = ["1"] := by decide +kernel
  have hanswers : Answers (stutter "1" [2 ^ 63]) (.error .countTooLarge) := by
    refine answers_stutter_of_le hcompile (by decide) ⟨0, ?_, by decide⟩
    rw [hwords]
    decide
  refine ⟨by decide, hcompile, hanswers, ?_⟩
  rintro ⟨text, htext, -⟩
  exact nomatch hanswers.unique htext

end Tape
end NoteTape
