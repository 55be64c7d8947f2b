import NoteTape.Proofs.Tape.Polyrhythm
import NoteTape.Tape.Arrangement

/-!
# Interleaving

Interleaving takes one element of each pattern in turn, round by round, and cycles the shorter
ones.  A round is a hit of every voice, so interleaving is the polyrhythm in which all voices have
as many hits as the longest has elements: then all hits of one number fall on one time, and the
voices are in order.  `merges_rounds` says that the rounds are these turns, and
`polyrhythm_eq_interleave` that the two are one play.

What is interleaved are the elements of a tape or the words of a pattern.  `Taken` says which, for
patterns of the notation, and `interleave_expanded_iff` when this is the same as to interleave their
tapes.
-/

namespace NoteTape
namespace Tape

open Pattern (IsLiteral IsNotation)
open Play (Answers Yields)

variable {patterns : List String} {voices : List (List String)} {tape : String}
  {desk after : Desk}

/-! ## Weaving -/

/-- The number of elements of the longest voice. -/
def longest (voices : List (List String)) : Nat := (voices.map List.length).foldl max 0

/-- A number of rounds through the voices. -/
def weave (voices : List (List String)) (length : Nat) : List String :=
  (List.range length).flatMap (atPlace (voices.map List.toArray))

/-- Interleaved voices: none may be without elements. -/
def woven (voices : List (List String)) : Except Fault String :=
  if voices.isEmpty || voices.any List.isEmpty then .error .interleaveEmpty
  else .ok (Text.unwords (weave voices (longest voices)))

theorem interleave_eq (patterns : List String) :
    interleave patterns =
      patterns.mapM Pattern.elementsOrWords >>= fun voices => liftM (woven voices) := by
  unfold interleave
  refine bind_congr fun voices => ?_
  unfold woven
  split
  · rfl
  · rfl

theorem length_le_longest {elements : List String} (h : elements ∈ voices) :
    elements.length ≤ longest voices := by
  have hmax : (0 :: voices.map List.length).max? = some (longest voices) := List.max?_cons'
  exact (List.max?_eq_some_iff.mp hmax).2 _ (List.mem_cons_of_mem _ (List.mem_map_of_mem h))

theorem exists_length_eq_longest (hne : voices ≠ []) :
    ∃ elements ∈ voices, elements.length = longest voices := by
  have hmax : (0 :: voices.map List.length).max? = some (longest voices) := List.max?_cons'
  rcases List.mem_cons.mp (List.max?_eq_some_iff.mp hmax).1 with hzero | hmem
  · obtain ⟨elements, helements⟩ := List.exists_mem_of_ne_nil voices hne
    have hle := length_le_longest helements
    exact ⟨elements, helements, by omega⟩
  · exact List.mem_map.mp hmem

/-! ## Rounds -/

/-- The turns of a number of voices, round by round. -/
def rounds (size length : Nat) : List Turn :=
  (List.range length).flatMap fun hit => (List.range size).map fun voice => ⟨voice, hit⟩

section

variable {size length : Nat} {turn : Turn}

theorem mem_rounds : turn ∈ rounds size length ↔ turn.voice < size ∧ turn.hit < length := by
  simp only [rounds, List.mem_flatMap, List.mem_map, List.mem_range]
  constructor
  · rintro ⟨hit, hhit, voice, hvoice, rfl⟩
    exact ⟨hvoice, hhit⟩
  · rintro ⟨hvoice, hhit⟩
    exact ⟨turn.hit, hhit, turn.voice, hvoice, rfl⟩

theorem getD_replicate {voice : Nat} (h : voice < size) :
    (List.replicate size (length : Int)).getD voice 0 = length := by
  rw [List.getD_eq_getElem _ _ (by rwa [List.length_replicate]), List.getElem_replicate]

/-- All hits of one number fall on one time. -/
theorem time_eq_of_mem_rounds (h : turn ∈ rounds size length) :
    turn.time (List.replicate size (length : Int)) = turn.hit / length := by
  rw [Turn.time, getD_replicate (mem_rounds.mp h).1, Int.cast_natCast]

theorem pairwise_rounds (size length : Nat) :
    (rounds size length).Pairwise (Turn.Before (List.replicate size (length : Int))) := by
  have hround : (rounds size length).Pairwise fun a b =>
      a.hit < b.hit ∨ a.hit = b.hit ∧ a.voice < b.voice := by
    rw [rounds, List.pairwise_flatMap]
    constructor
    · intro hit _
      rw [List.pairwise_map]
      exact List.pairwise_lt_range.imp fun hlt => .inr ⟨rfl, hlt⟩
    · refine List.pairwise_lt_range.imp fun {hit hit'} hlt turn hturn turn' hturn' => ?_
      obtain ⟨voice, -, rfl⟩ := List.mem_map.mp hturn
      obtain ⟨voice', -, rfl⟩ := List.mem_map.mp hturn'
      exact .inl hlt
  refine hround.imp_of_mem fun {a b} ha hb hab => ?_
  rw [Turn.Before, time_eq_of_mem_rounds ha, time_eq_of_mem_rounds hb]
  have hlength : (0 : ℚ) < length := by
    have hhit := (mem_rounds.mp ha).2
    exact_mod_cast (by omega : 0 < length)
  rcases hab with hlt | ⟨heq, hvoice⟩
  · exact .inl ((div_lt_div_iff_of_pos_right hlength).mpr (by exact_mod_cast hlt))
  · exact .inr ⟨by rw [heq], hvoice⟩

/-- **Rounds are the turns of voices that have as many hits each.** -/
theorem merges_rounds (hvoices : [] ∉ voices) (length : Nat) :
    Merges voices (List.replicate voices.length (length : Int)) (rounds voices.length length) := by
  refine ⟨fun turn => ?_, pairwise_rounds voices.length length⟩
  rw [mem_rounds]
  by_cases hvoice : turn.voice < voices.length
  · have hne : voices.getD turn.voice [] ≠ [] := by
      rw [List.getD_eq_getElem _ _ hvoice]
      exact fun heq => hvoices (heq ▸ List.getElem_mem hvoice)
    rw [getD_replicate hvoice, Nat.cast_lt, and_iff_right hvoice, and_iff_right hne]
  · rw [List.getD_eq_default _ _ (by omega)]
    exact iff_of_false (fun h => hvoice h.1) fun h => h.1 rfl

/-- A round plays one element of each voice. -/
theorem map_element_round (hvoices : [] ∉ voices) (hit : Nat) :
    ((List.range voices.length).map fun voice => Turn.element voices ⟨voice, hit⟩) =
      atPlace (voices.map List.toArray) hit := by
  have hplace : atPlace (voices.map List.toArray) hit =
      voices.map fun elements => elements.getD (hit % elements.length) "" := by
    rw [atPlace, List.filterMap_map, ← List.filterMap_eq_map']
    refine List.filterMap_congr fun elements helements => ?_
    exact Rhythm.cycled?_of_ne_nil (fun heq => hvoices (heq ▸ helements)) hit ""
  rw [hplace]
  refine List.ext_getElem (by simp) fun voice hvoice _ => ?_
  rw [List.length_map, List.length_range] at hvoice
  simp only [List.getElem_map, List.getElem_range, Turn.element, List.getD_eq_getElem _ _ hvoice]

/-- What the rounds play is woven. -/
theorem map_element_rounds (hvoices : [] ∉ voices) (length : Nat) :
    (rounds voices.length length).map (Turn.element voices) = weave voices length := by
  rw [rounds, List.map_flatMap, weave]
  refine List.flatMap_congr fun hit _ => ?_
  rw [List.map_map, ← map_element_round hvoices]
  rfl

end

/-! ## Interleaving as a polyrhythm -/

theorem isEmpty_or_any_isEmpty_iff :
    (voices.isEmpty || voices.any List.isEmpty) = true ↔ voices = [] ∨ [] ∈ voices := by
  rw [Bool.or_eq_true, List.isEmpty_iff, List.any_eq_true]
  simp only [List.isEmpty_iff, exists_eq_right]

theorem woven_of_nil_mem (h : voices = [] ∨ [] ∈ voices) :
    woven voices = .error .interleaveEmpty := by
  rw [woven, if_pos (isEmpty_or_any_isEmpty_iff.mpr h)]

/-- Voices with elements are woven in rounds. -/
theorem woven_of_nil_not_mem (h : ¬ (voices = [] ∨ [] ∈ voices)) :
    woven voices = .ok (Text.unwords
      ((rounds voices.length (longest voices)).map (Turn.element voices))) := by
  rw [woven, if_neg (mt isEmpty_or_any_isEmpty_iff.mp h),
    map_element_rounds (not_or.mp h).2]

/-- **Interleaving is a polyrhythm** in which every voice has as many hits as the longest has
elements.  Both take the same draws, give the same notices and play the same tape. -/
theorem polyrhythm_eq_interleave
    (h : (interleave patterns).outcome desk = (.ok tape, after)) :
    ∃ voices length,
      (patterns.mapM Pattern.elementsOrWords).outcome desk = (.ok voices, after) ∧
      (∃ elements ∈ voices, elements.length = length) ∧
      (∀ elements ∈ voices, elements.length ≤ length) ∧
      (polyrhythm patterns (List.replicate patterns.length (length : Int))).outcome desk =
        (.ok tape, after) := by
  rw [interleave_eq] at h
  obtain ⟨voices, middle, hvoices, hwoven⟩ := Play.exists_of_outcome_bind h
  rw [Play.outcome_lift] at hwoven
  obtain rfl := congrArg Prod.snd hwoven
  by_cases hempty : voices = [] ∨ [] ∈ voices
  · rw [woven_of_nil_mem hempty] at hwoven
    simp at hwoven
  · rw [woven_of_nil_not_mem hempty] at hwoven
    obtain ⟨hne, hnil⟩ := not_or.mp hempty
    obtain ⟨elements, helements, hlength⟩ := exists_length_eq_longest hne
    refine ⟨voices, longest voices, hvoices, ⟨elements, helements, hlength⟩,
      fun _ => length_le_longest, ?_⟩
    have hsize : voices.length = patterns.length := Play.length_of_outcome_mapM hvoices
    have hpos : ∀ cycle ∈ List.replicate patterns.length (longest voices : Int), 0 < cycle := by
      intro cycle hcycle
      have hsome : 0 < elements.length :=
        List.length_pos_iff.mpr fun heq => hnil (heq ▸ helements)
      rw [List.eq_of_mem_replicate hcycle]
      omega
    have hmerges := merges_rounds hnil (longest voices)
    rw [hsize] at hmerges
    rw [outcome_polyrhythm (by rw [List.length_replicate]) hpos hvoices hmerges, ← hsize]
    exact Prod.ext (congrArg Prod.fst hwoven) rfl

/-- Two random notes, in a voice of five elements and in a voice of its own. -/
theorem polyrhythm_eq_interleave_draws :
    (interleave ["1 ? 2 -*2", "?"]).outcome
        ⟨.script ⟨#[.round false 1 2, .round false 3 4], 0⟩, #[]⟩ =
      (.ok "1 96 64 96 2 96 - 96 - 96",
        ⟨.script ⟨#[.round false 1 2, .round false 3 4], 0⟩, #[]⟩) ∧
    (polyrhythm ["1 ? 2 -*2", "?"] [5, 5]).outcome
        ⟨.script ⟨#[.round false 1 2, .round false 3 4], 0⟩, #[]⟩ =
      (.ok "1 96 64 96 2 96 - 96 - 96",
        ⟨.script ⟨#[.round false 1 2, .round false 3 4], 0⟩, #[]⟩) := by
  have h : (interleave ["1 ? 2 -*2", "?"]).outcome
        ⟨.script ⟨#[.round false 1 2, .round false 3 4], 0⟩, #[]⟩ =
      (.ok "1 96 64 96 2 96 - 96 - 96",
        ⟨.script ⟨#[.round false 1 2, .round false 3 4], 0⟩, #[]⟩) := by
    decide +kernel
  refine ⟨h, ?_⟩
  obtain ⟨voices, length, hvoices, ⟨elements, helements, hlength⟩, hmax, hpolyrhythm⟩ :=
    polyrhythm_eq_interleave h
  have hread : (["1 ? 2 -*2", "?"].mapM Pattern.elementsOrWords).outcome
        ⟨.script ⟨#[.round false 1 2, .round false 3 4], 0⟩, #[]⟩ =
      (.ok [["1", "64", "2", "-", "-"], ["96"]],
        ⟨.script ⟨#[.round false 1 2, .round false 3 4], 0⟩, #[]⟩) := by
    decide +kernel
  obtain rfl := Except.ok.inj (congrArg Prod.fst (hvoices.symm.trans hread))
  have hfive : 5 ≤ length := hmax ["1", "64", "2", "-", "-"] (by decide)
  have hlengths : ∀ elements ∈ [["1", "64", "2", "-", "-"], ["96"]], elements.length ≤ 5 := by
    decide
  obtain rfl : length = 5 := by
    have hle := hlengths elements helements
    omega
  exact hpolyrhythm

/-! ## Patterns and their tapes -/

/-- Voices with one answer each are woven at every desk. -/
theorem answers_interleave (h : List.Forall₂ (fun pattern elements =>
    Answers (Pattern.elementsOrWords pattern) (.ok elements)) patterns voices) :
    Answers (interleave patterns) (woven voices) := by
  rw [interleave_eq]
  exact (Answers.mapM h).bind_ok (.lift _)

/-- What is woven is an element of a voice. -/
theorem exists_mem_of_mem_weave {length : Nat} {e : String} (h : e ∈ weave voices length) :
    ∃ elements ∈ voices, e ∈ elements := by
  obtain ⟨place, -, hplace⟩ := List.mem_flatMap.mp h
  obtain ⟨voice, hvoice, hcycled⟩ := List.mem_filterMap.mp hplace
  obtain ⟨elements, helements, rfl⟩ := List.mem_map.mp hvoice
  rw [Rhythm.cycled?, List.getElem?_toArray] at hcycled
  exact ⟨elements, helements, List.mem_of_getElem? hcycled⟩

/-- Every element of every voice is woven. -/
theorem mem_weave {elements : List String} {e : String} (h : elements ∈ voices)
    (he : e ∈ elements) : e ∈ weave voices (longest voices) := by
  obtain ⟨place, hplace, rfl⟩ := List.getElem_of_mem he
  have hlongest := length_le_longest h
  refine List.mem_flatMap.mpr ⟨place, List.mem_range.mpr (by omega), ?_⟩
  refine List.mem_filterMap.mpr ⟨elements.toArray, List.mem_map_of_mem h, ?_⟩
  rw [Rhythm.cycled?, List.size_toArray, Nat.mod_eq_of_lt hplace, List.getElem?_toArray,
    List.getElem?_eq_getElem hplace]

theorem woven_eq_ok_iff :
    woven voices = .ok tape ↔
      ¬ (voices = [] ∨ [] ∈ voices) ∧ tape = Text.unwords (weave voices (longest voices)) := by
  by_cases h : voices = [] ∨ [] ∈ voices
  · rw [woven_of_nil_mem h]
    exact iff_of_false (by simp) fun hno => hno.1 h
  · rw [woven, if_neg (mt isEmpty_or_any_isEmpty_iff.mp h), Except.ok.injEq, and_iff_right h]
    exact eq_comm

/-- Tapes are woven to a tape. -/
theorem isTape_of_woven (h : ∀ elements ∈ voices, ∀ e ∈ elements, IsElement e)
    (hwoven : woven voices = .ok tape) : IsTape tape := by
  refine ⟨_, fun e he => ?_, (woven_eq_ok_iff.mp hwoven).2⟩
  obtain ⟨elements, helements, hmem⟩ := exists_mem_of_mem_weave he
  exact h elements helements e hmem

variable {taken : String → List String} {tapes : String → String}

/-- How patterns are taken that have these tapes: a literal as its tape, any other pattern word by
word. -/
structure Taken (patterns : List String) (taken : String → List String)
    (tapes : String → String) : Prop where
  isTape : ∀ pattern ∈ patterns, IsTape (tapes pattern)
  literal : ∀ pattern ∈ patterns, IsLiteral pattern → taken pattern = Text.words (tapes pattern)
  other : ∀ pattern ∈ patterns, ¬ IsLiteral pattern → taken pattern = Text.words pattern

namespace Taken

variable (h : Taken patterns taken tapes)
include h

theorem eq_words_iff {pattern : String} (hpattern : pattern ∈ patterns) :
    taken pattern = Text.words (tapes pattern) ↔ IsLiteral pattern := by
  refine ⟨fun heq => ?_, h.literal pattern hpattern⟩
  by_contra hother
  rw [h.other pattern hpattern hother] at heq
  exact Pattern.words_ne_of_not_isLiteral hother (h.isTape pattern hpattern) heq

/-- Only a literal can be without elements. -/
theorem exists_of_nil_mem (hnil : [] ∈ patterns.map taken) :
    ∃ pattern ∈ patterns, IsLiteral pattern ∧ tapes pattern = "" := by
  obtain ⟨pattern, hpattern, hempty⟩ := List.mem_map.mp hnil
  by_cases hl : IsLiteral pattern
  · rw [h.literal pattern hpattern hl, (h.isTape pattern hpattern).words_eq_nil_iff] at hempty
    exact ⟨pattern, hpattern, hl, hempty⟩
  · obtain ⟨word, hword, -⟩ := Pattern.exists_mem_words_of_not_isLiteral hl
    rw [h.other pattern hpattern hl] at hempty
    exact absurd hempty (List.ne_nil_of_mem hword)

/-- What a pattern is woven to that is no literal is no tape. -/
theorem not_isTape_of_woven {pattern : String} (hpattern : pattern ∈ patterns)
    (hother : ¬ IsLiteral pattern) (hwoven : woven (patterns.map taken) = .ok tape) :
    ¬ IsTape tape := by
  intro htape
  obtain ⟨word, hword, c, hc, hchar⟩ := Pattern.exists_mem_words_of_not_isLiteral hother
  rw [← h.other pattern hpattern hother] at hword
  have hmem := Text.mem_unwords_of_mem (mem_weave (List.mem_map_of_mem hpattern) hword) hc
  rw [← (woven_eq_ok_iff.mp hwoven).2] at hmem
  exact Pattern.not_mem_of_isTape htape hchar hmem

/-- **Patterns are woven like their tapes** when all are taken as their tapes, or when nothing is
woven because one of those that are taken so is empty. -/
theorem woven_eq_iff :
    woven (patterns.map taken) = woven (patterns.map fun pattern => Text.words (tapes pattern)) ↔
      (∀ pattern ∈ patterns, IsLiteral pattern) ∨
        ∃ pattern ∈ patterns, IsLiteral pattern ∧ tapes pattern = "" := by
  constructor
  · intro heq
    by_contra hno
    obtain ⟨hall, hsome⟩ := not_or.mp hno
    push Not at hall
    obtain ⟨pattern, hpattern, hother⟩ := hall
    have hnil : ¬ (patterns.map taken = [] ∨ [] ∈ patterns.map taken) := by
      rintro (hnone | hnil)
      · exact List.ne_nil_of_mem (List.mem_map_of_mem hpattern) hnone
      · exact hsome (h.exists_of_nil_mem hnil)
    have hwoven := woven_eq_ok_iff.mpr ⟨hnil, rfl⟩
    refine h.not_isTape_of_woven hpattern hother hwoven ?_
    refine isTape_of_woven ?_ (heq.symm.trans hwoven)
    intro elements helements e he
    obtain ⟨other, hmem, rfl⟩ := List.mem_map.mp helements
    exact (h.isTape other hmem).isElement_of_mem_words he
  · rintro (hall | ⟨pattern, hpattern, hl, hempty⟩)
    · rw [List.map_congr_left fun pattern hpattern =>
        h.literal pattern hpattern (hall pattern hpattern)]
    · have hnone : Text.words (tapes pattern) = [] := by
        rw [hempty]
        rfl
      rw [woven_of_nil_mem, woven_of_nil_mem]
      · exact .inr (List.mem_map.mpr ⟨pattern, hpattern, hnone⟩)
      · refine .inr (List.mem_map.mpr ⟨pattern, hpattern, ?_⟩)
        exact (h.literal pattern hpattern hl).trans hnone

end Taken

/-- Patterns of the notation without question marks are taken in one way. -/
theorem exists_taken (hdraw : ∀ pattern ∈ patterns, '?' ∉ pattern.toList)
    (hgrammar : ∀ pattern ∈ patterns, IsNotation pattern) :
    ∃ taken tapes, Taken patterns taken tapes ∧
      (∀ pattern ∈ patterns, Answers (Pattern.compile .standard pattern) (.ok (tapes pattern))) ∧
      ∀ pattern ∈ patterns, Answers (Pattern.elementsOrWords pattern) (.ok (taken pattern)) := by
  classical
  choose! tapes hcompile hisTape using fun pattern hpattern =>
    Pattern.yields_compile Pattern.isUndrawn_standard (hdraw pattern hpattern)
  refine ⟨fun pattern => if IsLiteral pattern then Text.words (tapes pattern)
    else Text.words pattern, tapes, ⟨hisTape, fun _ _ hl => if_pos hl, fun _ _ hl => if_neg hl⟩,
    hcompile, fun pattern hpattern => ?_⟩
  beta_reduce
  split
  · next hl =>
    exact Pattern.answers_elementsOrWords_of_isLiteral (hdraw pattern hpattern)
      (hgrammar pattern hpattern) hl (hcompile pattern hpattern)
  · next hl => exact Pattern.answers_elementsOrWords_of_not_isLiteral (hdraw pattern hpattern) hl

/-- **Interleaving knows the notation of literals only.**  A pattern of the notation is taken as the
elements of its tape when it has no calls and no variables; otherwise it is taken word by word.  So
patterns of the notation are interleaved like their tapes when all of them are literals.  Otherwise
they are not, unless neither is possible because a literal is among them that stands for nothing. -/
theorem interleave_expanded_iff (hdraw : ∀ pattern ∈ patterns, '?' ∉ pattern.toList)
    (hgrammar : ∀ pattern ∈ patterns, IsNotation pattern) :
    ∃ (taken : String → List String) (tapes : String → String),
      (∀ pattern ∈ patterns,
        Answers (Pattern.elementsOrWords pattern) (.ok (taken pattern)) ∧
        Answers (Pattern.compile .standard pattern) (.ok (tapes pattern)) ∧
        Answers (Pattern.elements pattern) (.ok (Text.words (tapes pattern))) ∧
        (taken pattern = Text.words (tapes pattern) ↔ IsLiteral pattern) ∧
        (¬ IsLiteral pattern → taken pattern = Text.words pattern)) ∧
      ∃ answer answer',
        Answers (interleave patterns) answer ∧ Answers (interleave (patterns.map tapes)) answer' ∧
        (answer = answer' ↔ (∀ pattern ∈ patterns, IsLiteral pattern) ∨
          ∃ pattern ∈ patterns, IsLiteral pattern ∧ tapes pattern = "") := by
  obtain ⟨taken, tapes, h, hcompile, htaken⟩ := exists_taken hdraw hgrammar
  refine ⟨taken, tapes, fun pattern hpattern => ⟨htaken pattern hpattern,
    hcompile pattern hpattern, Pattern.answers_elements (hcompile pattern hpattern),
    h.eq_words_iff hpattern, h.other pattern hpattern⟩, _, _, answers_interleave ?_,
    answers_interleave ?_, h.woven_eq_iff⟩
  · exact List.forall₂_map_right_iff.mpr (List.forall₂_same.mpr htaken)
  · rw [List.forall₂_map_left_iff, List.forall₂_map_right_iff, List.forall₂_same]
    intro pattern hpattern
    exact Pattern.answers_elementsOrWords_of_isTape (h.isTape pattern hpattern)

/-- A rhythm is interleaved as the text of its call. -/
theorem interleave_expanded_iff_rhythm :
    (∀ pattern ∈ ["E(3,8)", "5"], '?' ∉ pattern.toList) ∧
      (∀ pattern ∈ ["E(3,8)", "5"], IsNotation pattern) ∧
      Answers (Pattern.compile .standard "E(3,8)") (.ok "1 - 1 - 1 - - -") ∧
      Answers (interleave ["E(3,8)", "5"]) (.ok "E(3,8) 5") ∧
      Answers (interleave ["1 - 1 - 1 - - -", "5"]) (.ok "1 5 - 5 1 5 - 5 1 5 - 5 - 5 - 5") := by
  have hdraw : ∀ pattern ∈ ["E(3,8)", "5"], '?' ∉ pattern.toList := by decide
  have hgrammar : ∀ pattern ∈ ["E(3,8)", "5"], IsNotation pattern := by
    have hrhythm : ((Pattern.prepare .standard "E(3,8)").outcome ⟨.script ⟨#[], 0⟩, #[]⟩).1 =
        .ok "1 - 1 - 1 - - -" := by
      decide +kernel
    have hbeats : ((Token.ofText "1 - 1 - 1 - - -").outcome ⟨.script ⟨#[], 0⟩, #[]⟩).1 =
        .ok [.note "1", .rest 1, .note "1", .rest 1, .note "1", .rest 1, .rest 1, .rest 1] := by
      decide +kernel
    have hnote : ((Pattern.prepare .standard "5").outcome ⟨.script ⟨#[], 0⟩, #[]⟩).1 = .ok "5" := by
      decide +kernel
    have hfive : ((Token.ofText "5").outcome ⟨.script ⟨#[], 0⟩, #[]⟩).1 = .ok [.note "5"] := by
      decide +kernel
    exact List.forall_mem_cons.mpr
      ⟨Pattern.isNotation_of_outcome (by decide) hrhythm hbeats (by decide),
        List.forall_mem_singleton.mpr
          (Pattern.isNotation_of_outcome (by decide) hnote hfive (by decide))⟩
  obtain ⟨taken, tapes, hpatterns, answer, answer', hanswer, hanswer', -⟩ :=
    interleave_expanded_iff hdraw hgrammar
  obtain ⟨-, htape, -⟩ := hpatterns "E(3,8)" (List.mem_cons_self ..)
  obtain ⟨-, htape', -⟩ := hpatterns "5" (List.mem_cons_of_mem _ (List.mem_singleton_self _))
  have hcompile : ((Pattern.compile .standard "E(3,8)").outcome ⟨.script ⟨#[], 0⟩, #[]⟩).1 =
      .ok "1 - 1 - 1 - - -" := by
    decide +kernel
  have hcompile' : ((Pattern.compile .standard "5").outcome ⟨.script ⟨#[], 0⟩, #[]⟩).1 =
      .ok "5" := by
    decide +kernel
  have hverbatim : ((interleave ["E(3,8)", "5"]).outcome ⟨.script ⟨#[], 0⟩, #[]⟩).1 =
      .ok "E(3,8) 5" := by
    decide +kernel
  have hwoven : ((interleave ["1 - 1 - 1 - - -", "5"]).outcome ⟨.script ⟨#[], 0⟩, #[]⟩).1 =
      .ok "1 5 - 5 1 5 - 5 1 5 - 5 - 5 - 5" := by
    decide +kernel
  have hrhythm := htape.eq_of_outcome hcompile
  have hnote := htape'.eq_of_outcome hcompile'
  rw [hrhythm] at htape
  rw [List.map_cons, List.map_cons, List.map_nil, hrhythm, hnote] at hanswer'
  obtain rfl := (hanswer _).1.symm.trans hverbatim
  obtain rfl := (hanswer' _).1.symm.trans hwoven
  exact ⟨hdraw, hgrammar, htape, hanswer, hanswer'⟩

end Tape
end NoteTape
