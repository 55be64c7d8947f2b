import Mathlib.Algebra.BigOperators.Ring.Finset
import Mathlib.Data.List.GetD
import Mathlib.Data.List.Sort
import Mathlib.Data.Rat.Cast.Order
import Mathlib.Tactic.FieldSimp
import NoteTape.Proofs.Pattern.Verbatim
import NoteTape.Tape.Polyrhythm

/-!
# Polyrhythms in exact time

A polyrhythm counts in steps of a grid, so that no time has to be divided.  Here it is put back into
time.  A `Turn` is one hit of one voice, and it has a rational time in the bar: its number among the
hits of the voice, over the hits of the voice per bar.  What a polyrhythm plays are all the turns of
voices that have elements, in the order of their times and, at the same time, in the order of the
voices.

This order is strict, so the list of all turns in it is unique, `Merges.unique`.  The grid only has
to be a common multiple of the counts, which makes steps and times proportional,
`step_onset`.

The turns of one voice come in the order of its hits, `Merges.filter_voice`, so the voice is heard
in the tape from its first element on, over and over.
-/

namespace NoteTape

namespace Rhythm

variable {cycles : List Int}

/-! ## Common multiples -/

/-- One more count makes the least common multiple a multiple of it. -/
theorem commonMultiple_of_pos {result value : Int} (hresult : 0 < result) (hvalue : 0 < value) :
    ∃ multiple, commonMultiple result value = .ok multiple ∧ 0 < multiple ∧
      result ∣ multiple ∧ value ∣ multiple := by
  have hgcd : 0 < (Int.gcd result value : Int) :=
    Int.natCast_pos.mpr (Int.gcd_pos_of_ne_zero_left value hresult.ne')
  have hdvd : (Int.gcd result value : Int) ∣ value := Int.gcd_dvd_right ..
  refine ⟨result * (value / Int.gcd result value), ?_, ?_, dvd_mul_right .., ?_⟩
  · rw [commonMultiple, ← Int.mul_ediv_assoc _ hdvd]
    exact if_neg (Nat.cast_pos.mp hgcd).ne'
  · exact Int.mul_pos hresult (Int.ediv_pos_of_pos_of_dvd hvalue hgcd.le hdvd)
  · rw [← Int.mul_ediv_assoc _ hdvd, Int.mul_ediv_assoc' _ (Int.gcd_dvd_left ..)]
    exact dvd_mul_left ..

/-- The grid of positive counts is a multiple of them all. -/
theorem exists_foldlM_commonMultiple {result : Int} (hresult : 0 < result)
    (hpos : ∀ cycle ∈ cycles, 0 < cycle) :
    ∃ grid, cycles.foldlM commonMultiple result = .ok grid ∧ 0 < grid ∧ result ∣ grid ∧
      ∀ cycle ∈ cycles, cycle ∣ grid := by
  induction cycles generalizing result with
  | nil => exact ⟨result, rfl, hresult, dvd_rfl, by simp⟩
  | cons cycle cycles ih =>
    obtain ⟨hcycle, hcycles⟩ := List.forall_mem_cons.mp hpos
    obtain ⟨multiple, hmultiple, hpositive, hdvd, hcycledvd⟩ := commonMultiple_of_pos hresult hcycle
    obtain ⟨grid, hgrid, hgridpos, hmultipledvd, hall⟩ := ih hpositive hcycles
    refine ⟨grid, ?_, hgridpos, hdvd.trans hmultipledvd,
      List.forall_mem_cons.mpr ⟨hcycledvd.trans hmultipledvd, hall⟩⟩
    rw [List.foldlM_cons, hmultiple]
    exact hgrid

theorem exists_leastCommonMultiple (hpos : ∀ cycle ∈ cycles, 0 < cycle) :
    ∃ grid, leastCommonMultiple cycles = .ok grid ∧ 0 < grid ∧ ∀ cycle ∈ cycles, cycle ∣ grid := by
  obtain ⟨grid, hgrid, hpositive, -, hall⟩ := exists_foldlM_commonMultiple Int.one_pos hpos
  exact ⟨grid, hgrid, hpositive, hall⟩

end Rhythm

namespace Tape

open Play (Answers Yields)

/-! ## Turns -/

/-- A hit of a voice. -/
structure Turn where
  voice : Nat
  hit : Nat
  deriving DecidableEq, Repr

namespace Turn

variable {cycles : List Int} {a b c : Turn}

/-- The time of a turn, in bars. -/
def time (cycles : List Int) (turn : Turn) : ℚ := turn.hit / (cycles.getD turn.voice 0 : Int)

/-- The order of turns: by time, and at one time by voice. -/
def Before (cycles : List Int) (a b : Turn) : Prop :=
  a.time cycles < b.time cycles ∨ a.time cycles = b.time cycles ∧ a.voice < b.voice

instance (cycles : List Int) (a b : Turn) : Decidable (Before cycles a b) :=
  inferInstanceAs (Decidable (a.time cycles < b.time cycles ∨
    a.time cycles = b.time cycles ∧ a.voice < b.voice))

/-- What is heard of a voice at a turn: its elements are cycled. -/
def element (voices : List (List String)) (turn : Turn) : String :=
  (voices.getD turn.voice []).getD (turn.hit % (voices.getD turn.voice []).length) ""

theorem Before.asymm (h : Before cycles a b) : ¬ Before cycles b a := by
  rintro (h' | ⟨htime', hvoice'⟩)
  · rcases h with h | ⟨htime, -⟩
    · exact lt_asymm h h'
    · exact h'.ne htime.symm
  · rcases h with h | ⟨-, hvoice⟩
    · exact h.ne htime'.symm
    · exact Nat.lt_asymm hvoice hvoice'

instance : Std.Irrefl (Before cycles) := ⟨fun _ h => h.asymm h⟩

/-- **Turns can be put in order in one way only.** -/
theorem eq_of_pairwise {turns turns' : List Turn} (h : turns.Pairwise (Before cycles))
    (h' : turns'.Pairwise (Before cycles)) (hmem : ∀ turn, turn ∈ turns ↔ turn ∈ turns') :
    turns = turns' := by
  have hperm : turns.Perm turns' := (List.perm_ext_iff_of_nodup h.nodup h'.nodup).mpr hmem
  exact hperm.eq_of_pairwise (fun a b _ _ hab hba => absurd hba hab.asymm) h h'

theorem eq_of_time_eq (hpos : 0 < cycles.getD a.voice 0) (hvoice : a.voice = b.voice)
    (htime : a.time cycles = b.time cycles) : a = b := by
  have hcycle : ((cycles.getD a.voice 0 : Int) : ℚ) ≠ 0 := by exact_mod_cast hpos.ne'
  rw [time, time, ← hvoice, div_left_inj' hcycle] at htime
  exact congrArg₂ Turn.mk hvoice (by exact_mod_cast htime)

/-- The hits of a voice come one after the other. -/
theorem pairwise_voice {voice : Nat} (hpos : 0 < cycles.getD voice 0) (count : Nat) :
    ((List.range count).map (Turn.mk voice)).Pairwise (Before cycles) := by
  rw [List.pairwise_map]
  refine List.pairwise_lt_range.imp fun {hit hit'} hlt => .inl ?_
  have hcycle : (0 : ℚ) < (cycles.getD voice 0 : Int) := by exact_mod_cast hpos
  exact (div_lt_div_iff_of_pos_right hcycle).mpr (by exact_mod_cast hlt)

end Turn

/-- All the turns of voices that have elements, in order. -/
structure Merges (voices : List (List String)) (cycles : List Int) (turns : List Turn) : Prop where
  mem_iff (turn : Turn) : turn ∈ turns ↔
    voices.getD turn.voice [] ≠ [] ∧ (turn.hit : Int) < cycles.getD turn.voice 0
  pairwise : turns.Pairwise (Turn.Before cycles)

namespace Merges

variable {voices : List (List String)} {cycles : List Int} {turns turns' : List Turn}

theorem nodup (h : Merges voices cycles turns) : turns.Nodup := h.pairwise.nodup

theorem unique (h : Merges voices cycles turns) (h' : Merges voices cycles turns') :
    turns = turns' :=
  Turn.eq_of_pairwise h.pairwise h'.pairwise fun turn =>
    (h.mem_iff turn).trans (h'.mem_iff turn).symm

theorem cycle_pos (h : Merges voices cycles turns) {turn : Turn} (hturn : turn ∈ turns) :
    0 < cycles.getD turn.voice 0 := by
  have hhit := ((h.mem_iff turn).mp hturn).2
  omega

/-- What is heard at a turn is an element of a voice. -/
theorem exists_element_mem (h : Merges voices cycles turns) {turn : Turn} (hturn : turn ∈ turns) :
    ∃ elements ∈ voices, turn.element voices ∈ elements := by
  have hne := ((h.mem_iff turn).mp hturn).1
  have hlt := Nat.mod_lt turn.hit (List.length_pos_iff.mpr hne)
  refine ⟨voices.getD turn.voice [], Rhythm.getD_mem hne, ?_⟩
  rw [Turn.element, List.getD_eq_getElem _ _ hlt]
  exact List.getElem_mem hlt

/-- **The turns of one voice are its hits in order.** -/
theorem filter_voice (h : Merges voices cycles turns) {voice : Nat}
    (hne : voices.getD voice [] ≠ []) :
    turns.filter (fun turn => turn.voice = voice) =
      (List.range (cycles.getD voice 0).toNat).map (Turn.mk voice) := by
  by_cases hpos : 0 < cycles.getD voice 0
  · refine Turn.eq_of_pairwise (h.pairwise.filter _) (Turn.pairwise_voice hpos _) fun turn => ?_
    rw [List.mem_filter, h.mem_iff, decide_eq_true_iff, List.mem_map]
    constructor
    · rintro ⟨⟨-, hhit⟩, rfl⟩
      exact ⟨turn.hit, List.mem_range.mpr (by omega), rfl⟩
    · rintro ⟨hit, hhit, rfl⟩
      have hlt := List.mem_range.mp hhit
      exact ⟨⟨hne, by simp only; omega⟩, rfl⟩
  · have hnone : (cycles.getD voice 0).toNat = 0 := by omega
    rw [hnone, List.range_zero, List.map_nil, List.filter_eq_nil_iff]
    intro turn hturn heq
    obtain rfl := of_decide_eq_true heq
    exact hpos (h.cycle_pos hturn)

/-- **A voice is heard in cyclic order.** -/
theorem map_filter_voice (h : Merges voices cycles turns) (voice : Nat) :
    (turns.filter fun turn => turn.voice = voice).map (Turn.element voices) =
      Rhythm.cycleItems (voices.getD voice []) (cycles.getD voice 0).toNat := by
  by_cases hne : voices.getD voice [] = []
  · have hnone : turns.filter (fun turn => turn.voice = voice) = [] := by
      rw [List.filter_eq_nil_iff]
      intro turn hturn heq
      obtain rfl := of_decide_eq_true heq
      exact ((h.mem_iff turn).mp hturn).1 hne
    rw [hnone, hne, List.map_nil, Rhythm.cycleItems_nil]
  · rw [h.filter_voice hne, List.map_map, Rhythm.cycleItems_eq_map hne ""]
    rfl

end Merges

/-! ## The grid -/

namespace Onset

variable {a b c : Onset}

theorem precedes_iff :
    a.precedes b = true ↔ a.step < b.step ∨ a.step = b.step ∧ a.voice ≤ b.voice := by
  simp [precedes]

theorem precedes_trans (h : a.precedes b = true) (h' : b.precedes c = true) :
    a.precedes c = true := by
  rw [precedes_iff] at h h' ⊢
  omega

theorem precedes_total (a b : Onset) : (a.precedes b || b.precedes a) = true := by
  rw [Bool.or_eq_true, precedes_iff, precedes_iff]
  omega

end Onset

section

variable {voices : List (List String)} {cycles : List Int} {grid : Int} {turns : List Turn}
  {part : (List String × Int) × Nat} {a b turn : Turn}

/-- The onset of a turn on a grid. -/
def Turn.onset (voices : List (List String)) (cycles : List Int) (grid : Int) (turn : Turn) :
    Onset :=
  ⟨turn.hit * (grid / cycles.getD turn.voice 0), turn.voice, turn.element voices⟩

/-- **Steps are proportional to times.** -/
theorem Turn.step_onset (hpos : 0 < cycles.getD turn.voice 0)
    (hdvd : cycles.getD turn.voice 0 ∣ grid) :
    ((turn.onset voices cycles grid).step : ℚ) = turn.time cycles * grid := by
  obtain ⟨stride, rfl⟩ := hdvd
  have hcycle : ((cycles.getD turn.voice 0 : Int) : ℚ) ≠ 0 := by exact_mod_cast hpos.ne'
  rw [onset, time, Int.mul_ediv_cancel_left _ hpos.ne']
  push_cast
  field_simp

/-- How many hits a voice has. -/
def hits (part : List String × Int) : Nat := if part.1 = [] then 0 else part.2.toNat

/-- The turns voice by voice. -/
def grouped (voices : List (List String)) (cycles : List Int) : List Turn :=
  (voices.zip cycles).zipIdx.flatMap fun part => (List.range (hits part.1)).map (Turn.mk part.2)

theorem getD_of_mem_zipIdx (h : part ∈ (voices.zip cycles).zipIdx) :
    voices.getD part.2 [] = part.1.1 ∧ cycles.getD part.2 0 = part.1.2 := by
  obtain ⟨hvoice, hcycle⟩ := List.getElem?_zip_eq_some.mp (List.mem_zipIdx_iff_getElem?.mp h)
  rw [List.getD_eq_getElem?_getD, List.getD_eq_getElem?_getD, hvoice, hcycle]
  exact ⟨rfl, rfl⟩

theorem onsets_eq (grid : Int) (h : part ∈ (voices.zip cycles).zipIdx) :
    onsets grid part.2 part.1.1 part.1.2 =
      ((List.range (hits part.1)).map (Turn.mk part.2)).map (Turn.onset voices cycles grid) := by
  obtain ⟨hvoice, hcycle⟩ := getD_of_mem_zipIdx h
  unfold onsets
  by_cases hne : part.1.1 = []
  · rw [hne, hits, if_pos hne]
    exact List.filterMap_eq_nil_iff.mpr fun hit _ => by rw [Rhythm.cycled?_nil, Option.map_none]
  · rw [hits, if_neg hne, List.map_map, ← List.filterMap_eq_map']
    refine List.filterMap_congr fun hit _ => ?_
    rw [Rhythm.cycled?_of_ne_nil hne hit "", Option.map_some]
    simp only [Function.comp_apply, Turn.onset, Turn.element, hvoice, hcycle]

/-- The onsets of a polyrhythm are those of the turns. -/
theorem flatMap_onsets (grid : Int) :
    ((voices.zip cycles).zipIdx.flatMap fun part => onsets grid part.2 part.1.1 part.1.2) =
      (grouped voices cycles).map (Turn.onset voices cycles grid) := by
  rw [grouped, List.map_flatMap]
  exact List.flatMap_congr fun part hpart => onsets_eq grid hpart

theorem mem_grouped (hlength : voices.length = cycles.length) :
    turn ∈ grouped voices cycles ↔
      voices.getD turn.voice [] ≠ [] ∧ (turn.hit : Int) < cycles.getD turn.voice 0 := by
  rw [grouped, List.mem_flatMap]
  constructor
  · rintro ⟨part, hpart, hturn⟩
    obtain ⟨hvoice, hcycle⟩ := getD_of_mem_zipIdx hpart
    obtain ⟨hit, hhit, rfl⟩ := List.mem_map.mp hturn
    rw [List.mem_range, hits] at hhit
    rw [hvoice, hcycle]
    split at hhit
    · omega
    · next hne => exact ⟨hne, by simp only; omega⟩
  · rintro ⟨hne, hhit⟩
    have hlt : turn.voice < voices.length := Rhythm.lt_length_of_getD_ne hne
    have hlt' : turn.voice < cycles.length := by omega
    rw [List.getD_eq_getElem _ _ hlt] at hne
    rw [List.getD_eq_getElem _ _ hlt'] at hhit
    refine ⟨((voices[turn.voice], cycles[turn.voice]), turn.voice), ?_, ?_⟩
    · rw [List.mem_zipIdx_iff_getElem?, List.getElem?_zip_eq_some]
      exact ⟨List.getElem?_eq_getElem hlt, List.getElem?_eq_getElem hlt'⟩
    · refine List.mem_map.mpr ⟨turn.hit, ?_, rfl⟩
      rw [List.mem_range, hits, if_neg hne]
      simp only
      omega

theorem nodup_grouped (voices : List (List String)) (cycles : List Int) :
    (grouped voices cycles).Nodup := by
  have hplaces : (voices.zip cycles).zipIdx.Pairwise fun part part' => part.2 < part'.2 := by
    rw [← List.pairwise_map, List.zipIdx_map_snd]
    exact List.pairwise_lt_range'
  rw [grouped, List.Nodup, List.pairwise_flatMap]
  constructor
  · intro part _
    rw [List.pairwise_map]
    refine List.pairwise_lt_range.imp fun {hit hit'} hlt heq => ?_
    exact hlt.ne (Turn.mk.inj heq).2
  · refine hplaces.imp fun {part part'} hlt turn hturn turn' hturn' heq => ?_
    obtain ⟨hit, -, rfl⟩ := List.mem_map.mp hturn
    obtain ⟨hit', -, rfl⟩ := List.mem_map.mp hturn'
    exact hlt.ne (Turn.mk.inj heq).1

theorem length_grouped (hpos : ∀ cycle ∈ cycles, 0 < cycle) :
    ((grouped voices cycles).length : Int) =
      ((voices.zip cycles).map fun part => if part.1 = [] then 0 else part.2).sum := by
  have hlengths : (grouped voices cycles).length = ((voices.zip cycles).map hits).sum := by
    have hfirst : ((voices.zip cycles).zipIdx.map Prod.fst).map hits =
        (voices.zip cycles).map hits := by
      rw [List.zipIdx_map_fst]
    rw [grouped, List.length_flatMap, ← hfirst, List.map_map]
    simp only [List.length_map, List.length_range, Function.comp_def]
  rw [hlengths, Nat.cast_list_sum, List.map_map]
  refine congrArg List.sum (List.map_congr_left fun part hpart => ?_)
  have hcycle : 0 < part.2 := hpos part.2 (List.of_mem_zip hpart).2
  rw [Function.comp_apply, hits]
  split
  · rfl
  · exact Int.toNat_of_nonneg hcycle.le

/-- The turns in the order of their onsets. -/
def merged (voices : List (List String)) (cycles : List Int) (grid : Int) : List Turn :=
  (grouped voices cycles).mergeSort fun a b =>
    (a.onset voices cycles grid).precedes (b.onset voices cycles grid)

/-- What the onsets of a polyrhythm play, in their order. -/
theorem map_element_mergeSort (voices : List (List String)) (cycles : List Int) (grid : Int) :
    (((voices.zip cycles).zipIdx.flatMap fun part =>
        onsets grid part.2 part.1.1 part.1.2).mergeSort Onset.precedes).map Onset.element =
      (merged voices cycles grid).map (Turn.element voices) := by
  have hsort : ((grouped voices cycles).map (Turn.onset voices cycles grid)).mergeSort
      Onset.precedes = (merged voices cycles grid).map (Turn.onset voices cycles grid) :=
    (List.map_mergeSort (f := Turn.onset voices cycles grid) fun _ _ _ _ => rfl).symm
  rw [flatMap_onsets, hsort, List.map_map]
  rfl

/-- **The order of onsets is the order of turns.** -/
theorem Turn.before_of_precedes (hgrid : 0 < grid) (ha : 0 < cycles.getD a.voice 0)
    (hb : 0 < cycles.getD b.voice 0) (hadvd : cycles.getD a.voice 0 ∣ grid)
    (hbdvd : cycles.getD b.voice 0 ∣ grid) (hne : a ≠ b)
    (h : (a.onset voices cycles grid).precedes (b.onset voices cycles grid) = true) :
    a.Before cycles b := by
  have hgrid' : (0 : ℚ) < grid := by exact_mod_cast hgrid
  have hastep : ((a.onset voices cycles grid).step : ℚ) = _ := Turn.step_onset ha hadvd
  have hbstep : ((b.onset voices cycles grid).step : ℚ) = _ := Turn.step_onset hb hbdvd
  rcases Onset.precedes_iff.mp h with hlt | ⟨heq, hvoice⟩
  · refine .inl (lt_of_mul_lt_mul_right ?_ hgrid'.le)
    rw [← hastep, ← hbstep]
    exact_mod_cast hlt
  · have htime : a.time cycles = b.time cycles := by
      refine mul_right_cancel₀ hgrid'.ne' ?_
      rw [← hastep, ← hbstep, heq]
    exact .inr ⟨htime, lt_of_le_of_ne hvoice fun hvoice => hne (eq_of_time_eq ha hvoice htime)⟩

/-- **On a grid that is a multiple of all counts, the turns are put in order.** -/
theorem merges_merged (hlength : voices.length = cycles.length) (hgrid : 0 < grid)
    (hdvd : ∀ cycle ∈ cycles, cycle ∣ grid) : Merges voices cycles (merged voices cycles grid) := by
  have hmem (turn : Turn) : turn ∈ merged voices cycles grid ↔
      voices.getD turn.voice [] ≠ [] ∧ (turn.hit : Int) < cycles.getD turn.voice 0 :=
    List.mem_mergeSort.trans (mem_grouped hlength)
  have hcycle {turn : Turn} (hturn : turn ∈ merged voices cycles grid) :
      0 < cycles.getD turn.voice 0 ∧ cycles.getD turn.voice 0 ∣ grid := by
    have hhit := ((hmem turn).mp hturn).2
    have hpos : 0 < cycles.getD turn.voice 0 := by omega
    exact ⟨hpos, hdvd _ (Rhythm.getD_mem hpos.ne')⟩
  have hsorted : (merged voices cycles grid).Pairwise fun a b =>
      (a.onset voices cycles grid).precedes (b.onset voices cycles grid) = true := by
    refine List.pairwise_mergeSort ?_ ?_ _
    · exact fun _ _ _ => Onset.precedes_trans
    · exact fun _ _ => Onset.precedes_total _ _
  have hnodup : (merged voices cycles grid).Nodup :=
    (List.mergeSort_perm _ _).nodup_iff.mpr (nodup_grouped voices cycles)
  refine ⟨hmem, (hsorted.and hnodup).imp_of_mem fun {a b} ha hb hab => ?_⟩
  exact Turn.before_of_precedes hgrid (hcycle ha).1 (hcycle hb).1 (hcycle ha).2 (hcycle hb).2
    hab.2 hab.1

end

/-! ## Polyrhythms -/

section

variable {patterns : List String} {cycles : List Int} {voices : List (List String)}
  {turns : List Turn} {desk after : Desk}

/-- **A polyrhythm plays all turns of its voices in order.** -/
theorem outcome_polyrhythm (hlength : patterns.length = cycles.length)
    (hpos : ∀ cycle ∈ cycles, 0 < cycle)
    (hvoices : (patterns.mapM Pattern.elementsOrWords).outcome desk = (.ok voices, after))
    (h : Merges voices cycles turns) :
    (polyrhythm patterns cycles).outcome desk =
      (.ok (Text.unwords (turns.map (Turn.element voices))), after) := by
  have hpositive : cycles.any (· ≤ 0) = false := by
    rw [List.any_eq_false]
    intro cycle hcycle
    simpa using hpos cycle hcycle
  obtain ⟨grid, hgrid, hgridpos, hdvd⟩ := Rhythm.exists_leastCommonMultiple hpos
  have hvoiceslength := Play.length_of_outcome_mapM hvoices
  obtain rfl := h.unique (merges_merged (hvoiceslength.trans hlength) hgridpos hdvd)
  rw [← map_element_mergeSort]
  unfold polyrhythm
  rw [if_neg (not_not.mpr hlength), hpositive, if_neg Bool.false_ne_true]
  cases patterns with
  | nil =>
    obtain ⟨hnone, rfl⟩ := Prod.mk.inj hvoices
    obtain rfl := Except.ok.inj hnone
    simp only [List.reverse_nil, List.zip_nil_left, List.zipIdx_nil, List.flatMap_nil,
      List.mergeSort_nil, List.map_nil, Text.unwords_nil]
    rfl
  | cons pattern patterns =>
    rw [hgrid]
    exact Play.outcome_bind_ok hvoices

theorem exists_merges (hlength : voices.length = cycles.length)
    (hpos : ∀ cycle ∈ cycles, 0 < cycle) :
    ∃ turns, Merges voices cycles turns ∧ (turns.length : Int) =
      ((voices.zip cycles).map fun part => if part.1 = [] then 0 else part.2).sum := by
  obtain ⟨grid, -, hgrid, hdvd⟩ := Rhythm.exists_leastCommonMultiple hpos
  refine ⟨merged voices cycles grid, merges_merged hlength hgrid hdvd, ?_⟩
  rw [← length_grouped hpos, merged, List.length_mergeSort]

/-- **A polyrhythm is merged in exact time.**  Its tape has one element for each turn of a voice
that has elements: at the hit of a number, the element of the voice with that number, cycled.  The
turns are in the order of their times, which are the hits over the hits per bar, and at one time in
the order of the voices.  So there are as many elements as hits, and each voice is heard in cyclic
order. -/
theorem polyrhythm_merges (hdraw : ∀ pattern ∈ patterns, '?' ∉ pattern.toList)
    (hlength : patterns.length = cycles.length) (hpos : ∀ cycle ∈ cycles, 0 < cycle) :
    ∃ voices turns,
      List.Forall₂ (fun pattern elements =>
        Answers (Pattern.elementsOrWords pattern) (.ok elements)) patterns voices ∧
      Answers (polyrhythm patterns cycles)
        (.ok (Text.unwords (turns.map (Turn.element voices)))) ∧
      Text.words (Text.unwords (turns.map (Turn.element voices))) =
        turns.map (Turn.element voices) ∧
      Merges voices cycles turns ∧ turns.Nodup ∧
      (turns.length : Int) =
        ((voices.zip cycles).map fun part => if part.1 = [] then 0 else part.2).sum ∧
      ∀ voice, (turns.filter fun turn => turn.voice = voice).map (Turn.element voices) =
        Rhythm.cycleItems (voices.getD voice []) (cycles.getD voice 0).toNat := by
  obtain ⟨voices, hanswers, hwords⟩ := Yields.exists_forall₂ fun pattern hpattern =>
    Pattern.yields_elementsOrWords (hdraw pattern hpattern)
  have hvoices : voices.length = cycles.length := hanswers.length_eq.symm.trans hlength
  obtain ⟨turns, h, hcount⟩ := exists_merges hvoices hpos
  refine ⟨voices, turns, hanswers, ?_, ?_, h, h.nodup, hcount, h.map_filter_voice⟩
  · intro desk
    obtain ⟨hanswer, hsource⟩ := Answers.mapM hanswers desk
    rw [outcome_polyrhythm hlength hpos (Prod.ext hanswer rfl) h]
    exact ⟨rfl, hsource⟩
  · have hall : ∀ elements ∈ voices, ∀ e ∈ elements, Text.IsWord e :=
      Play.forall_of_forall₂ hwords fun _ _ _ hgood => hgood
    refine Text.words_unwords fun e he => ?_
    obtain ⟨turn, hturn, rfl⟩ := List.mem_map.mp he
    obtain ⟨elements, helements, hmem⟩ := h.exists_element_mem hturn
    exact hall elements helements _ hmem

/-- Three voices, the second one cycled and the third without elements. -/
theorem polyrhythm_merges_fours_and_threes :
    (∀ pattern ∈ ["[ 1 2 ]*2", "a b", "[ ]"], '?' ∉ pattern.toList) ∧
      ["[ 1 2 ]*2", "a b", "[ ]"].length = ([4, 3, 5] : List Int).length ∧
      (∀ cycle ∈ ([4, 3, 5] : List Int), 0 < cycle) ∧
      Merges [["1", "2", "1", "2"], ["a", "b"], []] [4, 3, 5]
        [⟨0, 0⟩, ⟨1, 0⟩, ⟨0, 1⟩, ⟨1, 1⟩, ⟨0, 2⟩, ⟨1, 2⟩, ⟨0, 3⟩] ∧
      Answers (polyrhythm ["[ 1 2 ]*2", "a b", "[ ]"] [4, 3, 5]) (.ok "1 a 2 b 1 a 2") := by
  have hdraw : ∀ pattern ∈ ["[ 1 2 ]*2", "a b", "[ ]"], '?' ∉ pattern.toList := by decide
  have hlength : ["[ 1 2 ]*2", "a b", "[ ]"].length = ([4, 3, 5] : List Int).length := rfl
  have hpos : ∀ cycle ∈ ([4, 3, 5] : List Int), 0 < cycle := by decide
  obtain ⟨voices, turns, hvoices, htape, -, h, -, hcount, -⟩ :=
    polyrhythm_merges hdraw hlength hpos
  have hread : ((["[ 1 2 ]*2", "a b", "[ ]"].mapM Pattern.elementsOrWords).outcome
      ⟨.script ⟨#[], 0⟩, #[]⟩).1 = .ok [["1", "2", "1", "2"], ["a", "b"], []] := by
    decide +kernel
  obtain rfl := (Answers.mapM hvoices).eq_of_outcome hread
  -- seven turns in order are all of them
  have horder : [Turn.mk 0 0, ⟨1, 0⟩, ⟨0, 1⟩, ⟨1, 1⟩, ⟨0, 2⟩, ⟨1, 2⟩, ⟨0, 3⟩].Pairwise
      (Turn.Before [4, 3, 5]) := by
    decide +kernel
  have hsubset : [Turn.mk 0 0, ⟨1, 0⟩, ⟨0, 1⟩, ⟨1, 1⟩, ⟨0, 2⟩, ⟨1, 2⟩, ⟨0, 3⟩] ⊆ turns := by
    intro turn hturn
    rw [h.mem_iff]
    revert turn
    decide
  have hseven : (turns.length : Int) = 7 := hcount
  have hperm := (List.subperm_of_subset horder.nodup hsubset).perm_of_length_le
    (by exact_mod_cast hseven.le)
  obtain rfl := Turn.eq_of_pairwise h.pairwise horder fun turn => hperm.symm.mem_iff
  exact ⟨hdraw, hlength, hpos, h, htape⟩

end

end Tape
end NoteTape
