import Mathlib.Data.List.Zip
import NoteTape.Proofs.Rhythm.Resample
import NoteTape.Proofs.Tape.Notes

/-!
# Sums and products of tapes

Two tapes are added or multiplied element by element, with the shorter one from its beginning again.
What stands on the tapes are texts, and not all of them are written anew: where a rest meets a note, the
sum is the text of the note as it is.  So the laws of arithmetic are those of an operation on elements.
It is commutative and associative, and it puts an operation on notes in writing, `IsArithmetic`.

For integers sum and product have these laws, and what is left are the rests.  A rest leaves the note
that it meets in a sum, and it takes its place in a product.  Either way it does not matter when it is
met, `Combines.isArithmetic`.

The laws for lists of elements follow place by place, `IsArithmetic.combined_comm` and
`IsArithmetic.combined_assoc`, and so do those for patterns, since what has been combined is a tape
again.
-/

namespace NoteTape
namespace Tape

open Melody (Notes notesOf)
open Play (Answers)
open Text (unwords words)

/-! ## Side by side -/

section SideBySide

variable {α β : Type} {left right : List α} {a b : α}

/-- The items of two lists side by side, those of the shorter one over and over. -/
def sideBySide (left right : List α) : List (α × α) :=
  (Rhythm.cycleItems left (max left.length right.length)).zip
    (Rhythm.cycleItems right (max left.length right.length))

theorem sideBySide_swap (left right : List α) :
    (sideBySide left right).map Prod.swap = sideBySide right left := by
  rw [sideBySide, sideBySide, List.zip_swap, Nat.max_comm]

theorem sideBySide_map (f : α → β) (left right : List α) :
    sideBySide (left.map f) (right.map f) = (sideBySide left right).map (Prod.map f f) := by
  rw [sideBySide, sideBySide, List.length_map, List.length_map, Rhythm.cycleItems_map,
    Rhythm.cycleItems_map, List.zip_map]

theorem sideBySide_of_length_eq (h : left.length = right.length) :
    sideBySide left right = left.zip right := by
  rw [sideBySide, ← h, Nat.max_self, Rhythm.cycleItems_length_self, h, Rhythm.cycleItems_length_self]

theorem length_sideBySide (hleft : left ≠ []) (hright : right ≠ []) :
    (sideBySide left right).length = max left.length right.length := by
  rw [sideBySide, List.length_zip, (Rhythm.cycled_cycleItems hleft _).length_eq,
    (Rhythm.cycled_cycleItems hright _).length_eq, Nat.min_self]

theorem mem_of_mem_sideBySide (h : (a, b) ∈ sideBySide left right) : a ∈ left ∧ b ∈ right := by
  obtain ⟨ha, hb⟩ := List.of_mem_zip h
  exact ⟨Rhythm.mem_of_mem_cycleItems ha, Rhythm.mem_of_mem_cycleItems hb⟩

/-- A list that is not longer and has one item only. -/
theorem sideBySide_of_forall_eq (hne : right ≠ []) (h : ∀ item ∈ right, item = b)
    (hle : right.length ≤ left.length) : sideBySide left right = left.map fun a => (a, b) := by
  have hright : Rhythm.cycleItems right left.length = List.replicate left.length b := by
    refine List.eq_replicate_iff.mpr ⟨(Rhythm.cycled_cycleItems hne _).length_eq, ?_⟩
    exact fun item hitem => h item (Rhythm.mem_of_mem_cycleItems hitem)
  rw [sideBySide, Nat.max_eq_left hle, Rhythm.cycleItems_length_self, hright]
  clear hle hright
  induction left with
  | nil => rfl
  | cons first left ih =>
    rw [List.length_cons, List.replicate_succ, List.zip_cons_cons, ih, List.map_cons]

end SideBySide

/-! ## Operations on elements -/

variable {f : String → String → Except Fault String} {op : Option Int → Option Int → Option Int}
  {a b c : String} {x y : Int}

/-- An operation on elements that puts one on notes in writing. -/
structure IsArithmetic (f : String → String → Except Fault String)
    (op : Option Int → Option Int → Option Int) : Prop where
  comm : ∀ a b, IsElement a → IsElement b → f a b = f b a
  assoc : ∀ a b c ab bc, IsElement a → IsElement b → IsElement c →
    f a b = .ok ab → f b c = .ok bc → f ab c = f a bc
  reads : ∀ a b c, IsElement a → IsElement b → f a b = .ok c →
    IsElement c ∧ integer? c = op (integer? a) (integer? b)
  exists_ok : ∀ a b, IsElement a → IsElement b →
    (∀ n, op (integer? a) (integer? b) = some n → n.natAbs < decimalBound) → ∃ c, f a b = .ok c

theorem eq_rest_or_exists_integer? (h : IsElement a) : a = "-" ∨ ∃ x, integer? a = some x := by
  cases hread : integer? a with
  | none => exact .inl ((integer?_eq_none_iff h).mp hread)
  | some x => exact .inr ⟨x, rfl⟩

theorem ne_rest_of_integer? (h : integer? a = some x) : a ≠ "-" := by
  rintro rfl
  exact nomatch h

theorem integer?_rest : integer? "-" = none := rfl

/-! ## Rests -/

/-- What a rest makes of the element that it meets: it leaves it as it is, or takes its place. -/
inductive RestRule where
  | neutral
  | absorbing

namespace RestRule

def meet : RestRule → String → String
  | neutral, a => a
  | absorbing, _ => "-"

/-- An operation on integers with the rule for rests. -/
def extend : RestRule → (Int → Int → Int) → Option Int → Option Int → Option Int
  | neutral, g => Option.merge g
  | absorbing, g => Option.map₂ g

variable {rule : RestRule}

theorem isElement_meet (ha : IsElement a) : IsElement (rule.meet a) := by
  cases rule with
  | neutral => exact ha
  | absorbing => exact .inl rfl

theorem integer?_meet_left (g : Int → Int → Int) (b : String) :
    integer? (rule.meet b) = rule.extend g none (integer? b) := by
  cases rule with
  | neutral => exact Option.merge_none_left.symm
  | absorbing => rw [meet, extend, integer?_rest, Option.map₂_none_left]

theorem integer?_meet_right (g : Int → Int → Int) (a : String) :
    integer? (rule.meet a) = rule.extend g (integer? a) none := by
  cases rule with
  | neutral => exact Option.merge_none_right.symm
  | absorbing => rw [meet, extend, integer?_rest, Option.map₂_none_right]

theorem extend_some (g : Int → Int → Int) (x y : Int) :
    rule.extend g (some x) (some y) = some (g x y) := by
  cases rule with
  | neutral => rfl
  | absorbing => rfl

end RestRule

/-- An operation on elements that is one of integers, with a rule for rests. -/
structure Combines (rule : RestRule) (g : Int → Int → Int)
    (f : String → String → Except Fault String) : Prop where
  rest_left : ∀ b, f "-" b = .ok (rule.meet b)
  rest_right : ∀ a, f a "-" = .ok (rule.meet a)
  of_integer? : ∀ a b x y, integer? a = some x → integer? b = some y → f a b = decimal (g x y)

namespace Combines

variable {rule : RestRule} {g : Int → Int → Int} {ab bc : String} (h : Combines rule g f)

include h

/-- A rest may be met before or after. -/
theorem meet_left (hbc : f b c = .ok bc) : f (rule.meet b) c = .ok (rule.meet bc) := by
  cases rule with
  | neutral => exact hbc
  | absorbing => exact h.rest_left c

theorem meet_right (hab : f a b = .ok ab) : f a (rule.meet b) = .ok (rule.meet ab) := by
  cases rule with
  | neutral => exact hab
  | absorbing => exact h.rest_right a

theorem meet_middle (a c : String) : f (rule.meet a) c = f a (rule.meet c) := by
  cases rule with
  | neutral => rfl
  | absorbing => exact (h.rest_left c).trans (h.rest_right a).symm

theorem assoc (hassoc : ∀ x y z, g (g x y) z = g x (g y z)) (ha : IsElement a) (hb : IsElement b)
    (hc : IsElement c) (hab : f a b = .ok ab) (hbc : f b c = .ok bc) : f ab c = f a bc := by
  rcases eq_rest_or_exists_integer? ha with rfl | ⟨x, hx⟩
  · obtain rfl := Except.ok.inj ((h.rest_left b).symm.trans hab)
    rw [h.meet_left hbc, h.rest_left]
  rcases eq_rest_or_exists_integer? hb with rfl | ⟨y, hy⟩
  · obtain rfl := Except.ok.inj ((h.rest_right a).symm.trans hab)
    obtain rfl := Except.ok.inj ((h.rest_left c).symm.trans hbc)
    exact h.meet_middle a c
  rcases eq_rest_or_exists_integer? hc with rfl | ⟨z, hz⟩
  · obtain rfl := Except.ok.inj ((h.rest_right b).symm.trans hbc)
    rw [h.meet_right hab, h.rest_right]
  · rw [h.of_integer? a b x y hx hy] at hab
    rw [h.of_integer? b c y z hy hz] at hbc
    rw [h.of_integer? ab c _ z (integer?_of_decimal hab) hz,
      h.of_integer? a bc x _ hx (integer?_of_decimal hbc), hassoc]

/-- **The laws of an operation on integers carry over.** -/
theorem isArithmetic (hcomm : ∀ x y, g x y = g y x) (hassoc : ∀ x y z, g (g x y) z = g x (g y z)) :
    IsArithmetic f (rule.extend g) where
  comm a b ha hb := by
    rcases eq_rest_or_exists_integer? ha with rfl | ⟨x, hx⟩
    · rw [h.rest_left, h.rest_right]
    rcases eq_rest_or_exists_integer? hb with rfl | ⟨y, hy⟩
    · rw [h.rest_left, h.rest_right]
    · rw [h.of_integer? a b x y hx hy, h.of_integer? b a y x hy hx, hcomm]
  assoc _ _ _ _ _ := h.assoc hassoc
  reads a b c ha hb hread := by
    rcases eq_rest_or_exists_integer? ha with rfl | ⟨x, hx⟩
    · obtain rfl := Except.ok.inj ((h.rest_left b).symm.trans hread)
      exact ⟨RestRule.isElement_meet hb, RestRule.integer?_meet_left g b⟩
    rcases eq_rest_or_exists_integer? hb with rfl | ⟨y, hy⟩
    · obtain rfl := Except.ok.inj ((h.rest_right a).symm.trans hread)
      exact ⟨RestRule.isElement_meet ha, RestRule.integer?_meet_right g a⟩
    · rw [h.of_integer? a b x y hx hy] at hread
      exact ⟨isElement_of_decimal hread, by
        rw [integer?_of_decimal hread, hx, hy, RestRule.extend_some]⟩
  exists_ok a b ha hb hshort := by
    rcases eq_rest_or_exists_integer? ha with rfl | ⟨x, hx⟩
    · exact ⟨_, h.rest_left b⟩
    rcases eq_rest_or_exists_integer? hb with rfl | ⟨y, hy⟩
    · exact ⟨_, h.rest_right a⟩
    · rw [h.of_integer? a b x y hx hy]
      exact exists_decimal (hshort _ (by rw [hx, hy, RestRule.extend_some]))

end Combines

/-! ## Sums and products of elements -/

theorem addPair_rest (a : String) : addPair a "-" = .ok a := by
  rw [addPair]
  split
  next h => rw [h]
  next => rfl

theorem multiplyPair_rest (a : String) : multiplyPair a "-" = .ok "-" := by
  rw [multiplyPair, if_pos (.inr rfl)]

/-- **Adding elements is adding notes,** where a rest leaves the other note as it is. -/
theorem combines_addPair : Combines .neutral (· + ·) addPair where
  rest_left _ := rfl
  rest_right := addPair_rest
  of_integer? a b x y ha hb := by
    rw [addPair, if_neg (ne_rest_of_integer? ha), if_neg (ne_rest_of_integer? hb), onIntegerPair, ha,
      hb]

/-- **Multiplying elements is multiplying notes,** where a rest stays a rest. -/
theorem combines_multiplyPair : Combines .absorbing (· * ·) multiplyPair where
  rest_left _ := rfl
  rest_right := multiplyPair_rest
  of_integer? a b x y ha hb := by
    rw [multiplyPair, if_neg (not_or.mpr ⟨ne_rest_of_integer? ha, ne_rest_of_integer? hb⟩),
      onIntegerPair, ha, hb]

theorem isArithmetic_addPair : IsArithmetic addPair (Option.merge (· + ·)) :=
  combines_addPair.isArithmetic Int.add_comm Int.add_assoc

theorem isArithmetic_multiplyPair : IsArithmetic multiplyPair (Option.map₂ (· * ·)) :=
  combines_multiplyPair.isArithmetic Int.mul_comm Int.mul_assoc

/-! ## Lists of elements -/

variable {left middle right lower upper results : List String}

/-- The elements of two lists combined place by place. -/
def combined (f : String → String → Except Fault String) (left right : List String) :
    Except Fault (List String) :=
  (sideBySide left right).mapM fun pair => f pair.1 pair.2

/-- The notes of two lists combined place by place. -/
def combinedNotes (op : Option Int → Option Int → Option Int) (left right : Notes) : Notes :=
  (sideBySide left right).map fun pair => op pair.1 pair.2

theorem ne_nil_of_combined (hleft : left ≠ []) (hright : right ≠ [])
    (h : combined f left right = .ok results) : results ≠ [] := by
  rw [← List.length_pos_iff] at hleft hright ⊢
  have hlength := (Play.forall₂_of_mapM_eq_ok h).length_eq
  rw [length_sideBySide (List.length_pos_iff.mp hleft) (List.length_pos_iff.mp hright)] at hlength
  omega

/-- **With a list of rests that is not longer** everything is combined with rests. -/
theorem combined_rests (g : String → String) (hf : ∀ a, f a "-" = .ok (g a)) (hright : right ≠ [])
    (hrests : ∀ e ∈ right, e = "-") (hle : right.length ≤ left.length) :
    combined f left right = .ok (left.map g) := by
  rw [combined, sideBySide_of_forall_eq hright hrests hle, List.mapM_map]
  exact (Play.mapM_congr fun a _ => hf a).trans List.mapM_pure

namespace IsArithmetic

variable (h : IsArithmetic f op)

include h

/-- **The order of two lists does not matter,** whatever their lengths. -/
theorem combined_comm (hleft : ∀ e ∈ left, IsElement e) (hright : ∀ e ∈ right, IsElement e) :
    combined f left right = combined f right left := by
  rw [combined, combined, ← sideBySide_swap left right, List.mapM_map]
  refine Play.mapM_congr fun pair hpair => ?_
  obtain ⟨ha, hb⟩ := mem_of_mem_sideBySide hpair
  exact h.comm _ _ (hleft _ ha) (hright _ hb)

/-- What has been combined is made of elements again, and its notes are the combined notes. -/
theorem of_combined (hleft : ∀ e ∈ left, IsElement e) (hright : ∀ e ∈ right, IsElement e)
    (hresults : combined f left right = .ok results) :
    (∀ e ∈ results, IsElement e) ∧
      results.map integer? = combinedNotes op (left.map integer?) (right.map integer?) := by
  have hpairs := Play.forall₂_of_mapM_eq_ok hresults
  rw [combinedNotes, sideBySide_map, List.map_map]
  have helements : ∀ pair ∈ sideBySide left right, IsElement pair.1 ∧ IsElement pair.2 := by
    intro pair hpair
    obtain ⟨ha, hb⟩ := mem_of_mem_sideBySide hpair
    exact ⟨hleft _ ha, hright _ hb⟩
  clear hresults
  generalize sideBySide left right = pairs at hpairs helements ⊢
  induction hpairs with
  | nil => exact ⟨fun _ he => absurd he List.not_mem_nil, rfl⟩
  | cons hfirst _ ih =>
    obtain ⟨⟨ha, hb⟩, helements⟩ := List.forall_mem_cons.mp helements
    obtain ⟨hresult, hnote⟩ := h.reads _ _ _ ha hb hfirst
    obtain ⟨hresults, hnotes⟩ := ih helements
    exact ⟨List.forall_mem_cons.mpr ⟨hresult, hresults⟩, congrArg₂ List.cons hnote hnotes⟩

/-- Lists are combined as long as the results can be written. -/
theorem exists_combined (hleft : ∀ e ∈ left, IsElement e) (hright : ∀ e ∈ right, IsElement e)
    (hshort : IsShort (combinedNotes op (left.map integer?) (right.map integer?))) :
    ∃ results, combined f left right = .ok results := by
  rw [combinedNotes, sideBySide_map, List.map_map] at hshort
  refine Play.exists_mapM_eq_ok_iff.mpr fun pair hpair => ?_
  obtain ⟨ha, hb⟩ := mem_of_mem_sideBySide hpair
  refine h.exists_ok _ _ (hleft _ ha) (hright _ hb) fun n hn => hshort n ?_
  exact List.mem_map.mpr ⟨pair, hpair, hn⟩

/-- **How three lists of one length are bracketed does not matter.** -/
theorem combined_assoc (hleft : ∀ e ∈ left, IsElement e) (hmiddle : ∀ e ∈ middle, IsElement e)
    (hright : ∀ e ∈ right, IsElement e) (hlm : left.length = middle.length)
    (hmr : middle.length = right.length) (hlower : combined f left middle = .ok lower)
    (hupper : combined f middle right = .ok upper) :
    combined f lower right = combined f left upper := by
  have hlowerPairs := Play.forall₂_of_mapM_eq_ok hlower
  have hupperPairs := Play.forall₂_of_mapM_eq_ok hupper
  have hlowerLength := hlowerPairs.length_eq
  have hupperLength := hupperPairs.length_eq
  rw [sideBySide_of_length_eq hlm] at hlowerPairs hlowerLength
  rw [sideBySide_of_length_eq hmr] at hupperPairs hupperLength
  rw [List.length_zip] at hlowerLength hupperLength
  rw [combined, combined, sideBySide_of_length_eq (by omega), sideBySide_of_length_eq (by omega)]
  clear hlower hupper hlowerLength hupperLength
  -- the five lists are taken apart together
  induction left generalizing middle right lower upper with
  | nil =>
    cases hlowerPairs
    rfl
  | cons a left ih =>
    obtain ⟨b, middle, rfl⟩ := List.exists_cons_of_length_eq_add_one hlm.symm
    obtain ⟨c, right, rfl⟩ := List.exists_cons_of_length_eq_add_one hmr.symm
    cases hlowerPairs with
    | cons hab hlowerPairs =>
      cases hupperPairs with
      | cons hbc hupperPairs =>
        obtain ⟨ha, hleft⟩ := List.forall_mem_cons.mp hleft
        obtain ⟨hb, hmiddle⟩ := List.forall_mem_cons.mp hmiddle
        obtain ⟨hc, hright⟩ := List.forall_mem_cons.mp hright
        have hrest := ih hleft hmiddle hright (Nat.succ.inj hlm) (Nat.succ.inj hmr) hlowerPairs
          hupperPairs
        rw [List.zip_cons_cons, List.zip_cons_cons, List.mapM_cons, List.mapM_cons, hrest,
          h.assoc a b c _ _ ha hb hc hab hbc]

end IsArithmetic

/-! ## Patterns -/

variable {p q r ptape qtape rtape : String}

theorem answers_combine (f : String → String → Except Fault String)
    (hp : Answers (Pattern.compile .standard p) (.ok ptape))
    (hq : Answers (Pattern.compile .standard q) (.ok qtape))
    (hpne : words ptape ≠ []) (hqne : words qtape ≠ []) :
    Answers (combine f p q) (do return unwords (← combined f (words ptape) (words qtape))) := by
  refine (Pattern.answers_elements hp).bind_ok ((Pattern.answers_elements hq).bind_ok ?_)
  have hne : ¬ ((words ptape).isEmpty || (words qtape).isEmpty) = true := by
    rw [Bool.or_eq_true, List.isEmpty_iff, List.isEmpty_iff, not_or]
    exact ⟨hpne, hqne⟩
  rw [if_neg hne]
  have hmapM := Play.liftM_mapM (fun pair : String × String => f pair.1 pair.2)
    (sideBySide (words ptape) (words qtape))
  refine Answers.bind ?_ fun elements => .pure _
  rw [combined]
  exact hmapM ▸ Answers.lift _

namespace IsArithmetic

variable (h : IsArithmetic f op)
  (hp : Answers (Pattern.compile .standard p) (.ok ptape)) (hptape : IsTape ptape)
  (hq : Answers (Pattern.compile .standard q) (.ok qtape)) (hqtape : IsTape qtape)
  (hr : Answers (Pattern.compile .standard r) (.ok rtape)) (hrtape : IsTape rtape)
  (hpne : words ptape ≠ []) (hqne : words qtape ≠ []) (hrne : words rtape ≠ [])

include h hp hptape hq hqtape hpne hqne

/-- **Patterns are combined as their tapes are.** -/
theorem exists_answers (hshort : IsShort (combinedNotes op (notesOf ptape) (notesOf qtape))) :
    ∃ text, Answers (combine f p q) (.ok text) ∧ IsTape text ∧
      combined f (words ptape) (words qtape) = .ok (words text) ∧
      notesOf text = combinedNotes op (notesOf ptape) (notesOf qtape) := by
  have hpelements : ∀ e ∈ words ptape, IsElement e := fun _ => hptape.isElement_of_mem_words
  have hqelements : ∀ e ∈ words qtape, IsElement e := fun _ => hqtape.isElement_of_mem_words
  obtain ⟨results, hresults⟩ := h.exists_combined hpelements hqelements hshort
  obtain ⟨helements, hnotes⟩ := h.of_combined hpelements hqelements hresults
  have hanswers := answers_combine f hp hq hpne hqne
  have hwords : words (unwords results) = results :=
    Text.words_unwords fun e he => (helements e he).isWord
  rw [hresults] at hanswers
  refine ⟨unwords results, hanswers, ⟨results, helements, rfl⟩, ?_, ?_⟩
  · rw [hresults, hwords]
  · rw [notesOf, hwords, hnotes]
    rfl

theorem exists_answers_comm :
    ∃ answer, Answers (combine f p q) answer ∧ Answers (combine f q p) answer ∧
      (IsShort (combinedNotes op (notesOf ptape) (notesOf qtape)) → ∃ text, answer = .ok text ∧
        notesOf text = combinedNotes op (notesOf ptape) (notesOf qtape)) := by
  have hboth := answers_combine f hp hq hpne hqne
  have hswapped := answers_combine f hq hp hqne hpne
  rw [h.combined_comm (fun _ => hqtape.isElement_of_mem_words)
    fun _ => hptape.isElement_of_mem_words] at hswapped
  refine ⟨_, hboth, hswapped, fun hshort => ?_⟩
  obtain ⟨text, htext, -, -, hnotes⟩ := h.exists_answers hp hptape hq hqtape hpne hqne hshort
  exact ⟨text, hboth.unique htext, hnotes⟩

include hr hrtape hrne

/-- The result of the first combination is the tape that the second one begins with. -/
theorem coincide_assoc (hpq : (words ptape).length = (words qtape).length)
    (hqr : (words qtape).length = (words rtape).length)
    (hlower : IsShort (combinedNotes op (notesOf ptape) (notesOf qtape)))
    (hupper : IsShort (combinedNotes op (notesOf qtape) (notesOf rtape)))
    (hshort : IsShort (combinedNotes op (combinedNotes op (notesOf ptape) (notesOf qtape))
      (notesOf rtape))) :
    Coincide (do combine f (← combine f p q) r) (do combine f p (← combine f q r)) := by
  obtain ⟨lower, hloweranswers, hlowertape, hlowerwords, hlowernotes⟩ :=
    h.exists_answers hp hptape hq hqtape hpne hqne hlower
  obtain ⟨upper, hupperanswers, huppertape, hupperwords, -⟩ :=
    h.exists_answers hq hqtape hr hrtape hqne hrne hupper
  have hlowerne := ne_nil_of_combined hpne hqne hlowerwords
  have hupperne := ne_nil_of_combined hqne hrne hupperwords
  rw [← hlowernotes] at hshort
  obtain ⟨text, htext, htape, hwords, -⟩ :=
    h.exists_answers (Pattern.answers_compile_of_isTape hlowertape) hlowertape hr hrtape hlowerne hrne
      hshort
  have hother := answers_combine f hp (Pattern.answers_compile_of_isTape huppertape) hpne hupperne
  rw [← h.combined_assoc (fun _ => hptape.isElement_of_mem_words)
    (fun _ => hqtape.isElement_of_mem_words) (fun _ => hrtape.isElement_of_mem_words) hpq hqr
    hlowerwords hupperwords, hwords] at hother
  have hunwords : unwords (words text) = text := htape.unwords_words
  refine ⟨text, hloweranswers.bind_ok htext, hupperanswers.bind_ok ?_⟩
  rw [← hunwords]
  exact hother

end IsArithmetic

/-- The notes of a sum; a rest adds nothing. -/
def sumNotes (left right : Notes) : Notes := combinedNotes (Option.merge (· + ·)) left right

/-- The notes of a product, with a rest where one of them has one. -/
def productNotes (left right : Notes) : Notes := combinedNotes (Option.map₂ (· * ·)) left right

/-- **The laws of arithmetic on tapes.**  Three patterns without question marks have one tape each, and
these shall not be empty.  Sums and products do not depend on the order of two patterns, whatever the
lengths of their tapes are, not even when they fail; their notes are those of the two tapes added and
multiplied.  For tapes of one length they do not depend on the bracketing either, as long as all notes
can be written.  A tape of rests that is not longer adds nothing, and multiplied with it every element
is a rest. -/
theorem add_multiply_laws (hp : '?' ∉ p.toList) (hq : '?' ∉ q.toList) (hr : '?' ∉ r.toList) :
    ∃ ptape qtape rtape, Answers (Pattern.compile .standard p) (.ok ptape) ∧
      Answers (Pattern.compile .standard q) (.ok qtape) ∧
      Answers (Pattern.compile .standard r) (.ok rtape) ∧
      (ptape ≠ "" → qtape ≠ "" → rtape ≠ "" →
        (∃ answer, Answers (add p q) answer ∧ Answers (add q p) answer ∧
          (IsShort (sumNotes (notesOf ptape) (notesOf qtape)) →
            ∃ text, answer = .ok text ∧ notesOf text = sumNotes (notesOf ptape) (notesOf qtape))) ∧
        (∃ answer, Answers (multiply p q) answer ∧ Answers (multiply q p) answer ∧
          (IsShort (productNotes (notesOf ptape) (notesOf qtape)) →
            ∃ text, answer = .ok text ∧
              notesOf text = productNotes (notesOf ptape) (notesOf qtape))) ∧
        ((words ptape).length = (words qtape).length → (words qtape).length = (words rtape).length →
          (IsShort (sumNotes (notesOf ptape) (notesOf qtape)) →
            IsShort (sumNotes (notesOf qtape) (notesOf rtape)) →
            IsShort (sumNotes (sumNotes (notesOf ptape) (notesOf qtape)) (notesOf rtape)) →
            Coincide (do add (← add p q) r) (do add p (← add q r))) ∧
          (IsShort (productNotes (notesOf ptape) (notesOf qtape)) →
            IsShort (productNotes (notesOf qtape) (notesOf rtape)) →
            IsShort (productNotes (productNotes (notesOf ptape) (notesOf qtape)) (notesOf rtape)) →
            Coincide (do multiply (← multiply p q) r) (do multiply p (← multiply q r)))) ∧
        ((∀ e ∈ words qtape, e = "-") → (words qtape).length ≤ (words ptape).length →
          Answers (add p q) (.ok ptape) ∧
          Answers (multiply p q) (.ok (unwords (List.replicate (words ptape).length "-"))))) := by
  obtain ⟨ptape, hpcompile, hptape⟩ := Pattern.yields_compile Pattern.isUndrawn_standard hp
  obtain ⟨qtape, hqcompile, hqtape⟩ := Pattern.yields_compile Pattern.isUndrawn_standard hq
  obtain ⟨rtape, hrcompile, hrtape⟩ := Pattern.yields_compile Pattern.isUndrawn_standard hr
  refine ⟨ptape, qtape, rtape, hpcompile, hqcompile, hrcompile,
    fun hpnonempty hqnonempty hrnonempty => ?_⟩
  have hpne : words ptape ≠ [] := fun hnil => hpnonempty (hptape.words_eq_nil_iff.mp hnil)
  have hqne : words qtape ≠ [] := fun hnil => hqnonempty (hqtape.words_eq_nil_iff.mp hnil)
  have hrne : words rtape ≠ [] := fun hnil => hrnonempty (hrtape.words_eq_nil_iff.mp hnil)
  refine ⟨?_, ?_, fun hpq hqr => ⟨?_, ?_⟩, fun hrests hle => ⟨?_, ?_⟩⟩
  · exact isArithmetic_addPair.exists_answers_comm hpcompile hptape hqcompile hqtape hpne hqne
  · exact isArithmetic_multiplyPair.exists_answers_comm hpcompile hptape hqcompile hqtape hpne hqne
  · exact isArithmetic_addPair.coincide_assoc hpcompile hptape hqcompile hqtape hrcompile hrtape hpne
      hqne hrne hpq hqr
  · exact isArithmetic_multiplyPair.coincide_assoc hpcompile hptape hqcompile hqtape hrcompile hrtape
      hpne hqne hrne hpq hqr
  · have hanswers := answers_combine addPair hpcompile hqcompile hpne hqne
    rw [combined_rests id addPair_rest hqne hrests hle, List.map_id] at hanswers
    rw [← hptape.unwords_words]
    exact hanswers
  · have hanswers := answers_combine multiplyPair hpcompile hqcompile hpne hqne
    rw [combined_rests (fun _ => "-") multiplyPair_rest hqne hrests hle, List.map_const'] at hanswers
    exact hanswers

/-- Three tapes on which a signed integer, one with zeros in front and rests meet, and a single rest. -/
theorem add_multiply_laws_mixed :
    '?' ∉ "+5 - 007".toList ∧ '?' ∉ "[ - 2 ] -3".toList ∧ '?' ∉ "4 - -".toList ∧
      (Answers (add "+5 - 007" "[ - 2 ] -3") (.ok "+5 2 4") ∧
        Answers (add "[ - 2 ] -3" "+5 - 007") (.ok "+5 2 4")) ∧
      Coincide (do add (← add "+5 - 007" "[ - 2 ] -3") "4 - -")
        (do add "+5 - 007" (← add "[ - 2 ] -3" "4 - -")) ∧
      Coincide (do multiply (← multiply "+5 - 007" "[ - 2 ] -3") "4 - -")
        (do multiply "+5 - 007" (← multiply "[ - 2 ] -3" "4 - -")) ∧
      Answers (add "+5 - 007" "-") (.ok "+5 - 007") ∧
      Answers (multiply "+5 - 007" "-") (.ok "- - -") := by
  have hp : '?' ∉ "+5 - 007".toList := by decide
  have hq : '?' ∉ "[ - 2 ] -3".toList := by decide
  have hr : '?' ∉ "4 - -".toList := by decide
  have hpvalue : ((Pattern.compile .standard "+5 - 007").outcome ⟨.script ⟨#[], 0⟩, #[]⟩).1 =
      .ok "+5 - 007" := by decide +kernel
  have hqvalue : ((Pattern.compile .standard "[ - 2 ] -3").outcome ⟨.script ⟨#[], 0⟩, #[]⟩).1 =
      .ok "- 2 -3" := by decide +kernel
  have hrvalue : ((Pattern.compile .standard "4 - -").outcome ⟨.script ⟨#[], 0⟩, #[]⟩).1 =
      .ok "4 - -" := by decide +kernel
  have hrestvalue : ((Pattern.compile .standard "-").outcome ⟨.script ⟨#[], 0⟩, #[]⟩).1 =
      .ok "-" := by decide +kernel
  have hsum : ((add "+5 - 007" "[ - 2 ] -3").outcome ⟨.script ⟨#[], 0⟩, #[]⟩).1 = .ok "+5 2 4" := by
    decide +kernel
  obtain ⟨ptape, qtape, rtape, hptape, hqtape, hrtape, hlaws⟩ := add_multiply_laws hp hq hr
  obtain rfl := hptape.eq_of_outcome hpvalue
  obtain rfl := hqtape.eq_of_outcome hqvalue
  obtain rfl := hrtape.eq_of_outcome hrvalue
  obtain ⟨⟨answer, hpq, hqp, htext⟩, -, hassoc, -⟩ := hlaws (by decide) (by decide) (by decide)
  obtain ⟨text, rfl, -⟩ := htext (isShort_of_lt (by decide +kernel))
  obtain rfl := hpq.eq_of_outcome hsum
  obtain ⟨hadd, hmultiply⟩ := hassoc (by decide +kernel) (by decide +kernel)
  obtain ⟨ptape, rest, rtape, hptape, hrest, hrtape, hrestlaws⟩ :=
    add_multiply_laws hp (show '?' ∉ "-".toList by decide) hr
  obtain rfl := hptape.eq_of_outcome hpvalue
  obtain rfl := hrest.eq_of_outcome hrestvalue
  obtain rfl := hrtape.eq_of_outcome hrvalue
  obtain ⟨-, -, -, hrests⟩ := hrestlaws (by decide) (by decide) (by decide)
  have hneutral := hrests (by decide +kernel) (by decide +kernel)
  refine ⟨hp, hq, hr, ⟨hpq, hqp⟩, ?_, ?_, hneutral.1, hneutral.2⟩
  · exact hadd (isShort_of_lt (by decide +kernel)) (isShort_of_lt (by decide +kernel))
      (isShort_of_lt (by decide +kernel))
  · exact hmultiply (isShort_of_lt (by decide +kernel)) (isShort_of_lt (by decide +kernel))
      (isShort_of_lt (by decide +kernel))

end Tape
end NoteTape
