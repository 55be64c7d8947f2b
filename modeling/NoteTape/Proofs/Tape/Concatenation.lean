import NoteTape.Proofs.Pattern.Undrawn
import NoteTape.Proofs.Pattern.Seam
import NoteTape.Tape.Arrangement

/-!
# Concatenation

Patterns are put one after the other by their tapes, with a space between neighbours.  The elements
of the result are those of the tapes in order, whatever the tapes are: `words_unwords_flatMap`.  As
a text it is a tape only when no space is left over.  Patterns of blanks are left out, but this is
seen on the pattern, and a pattern may stand for nothing in many other ways.  Its tape is empty
then, and the space next to it remains.

An empty tape adds to the length of the text its space only.  So the text is the tape of its
elements when it has one tape at most, or no empty one, `unwords_filter_ne_empty_iff`.
-/

namespace NoteTape

open Play (Answers)

namespace Text

variable {texts : List String}

/-! ## Spaces left over -/

/-- How long a text is: one space less than texts. -/
theorem length_unwords (hne : texts ≠ []) :
    (unwords texts).length + 1 = (texts.map String.length).sum + texts.length := by
  induction texts with
  | nil => exact absurd rfl hne
  | cons text texts ih =>
    cases texts with
    | nil => simp
    | cons text' texts =>
      have hrest := ih (List.cons_ne_nil text' texts)
      have hspace : " ".length = 1 := rfl
      rw [unwords_cons_cons, String.length_append, String.length_append, List.map_cons,
        List.sum_cons, List.length_cons]
      omega

theorem sum_length_filter_ne_empty (texts : List String) :
    ((texts.filter (· ≠ "")).map String.length).sum = (texts.map String.length).sum := by
  induction texts with
  | nil => rfl
  | cons text texts ih =>
    by_cases hempty : text = ""
    · rw [List.filter_cons_of_neg (by simp [hempty]), ih, hempty, List.map_cons, List.sum_cons,
        String.length_empty, Nat.zero_add]
    · rw [List.filter_cons_of_pos (by simp [hempty]), List.map_cons, List.map_cons, List.sum_cons,
        List.sum_cons, ih]

/-- **Empty texts leave spaces over,** unless there is one text only. -/
theorem unwords_filter_ne_empty_iff :
    unwords (texts.filter (· ≠ "")) = unwords texts ↔
      texts.length ≤ 1 ∨ ∀ text ∈ texts, text ≠ "" := by
  constructor
  · intro heq
    by_contra hno
    obtain ⟨hlong, hsome⟩ := not_or.mp hno
    push Not at hsome
    obtain ⟨text, htext, hempty⟩ := hsome
    have hfewer : (texts.filter (· ≠ "")).length < texts.length :=
      List.length_filter_lt_length_iff_exists.mpr ⟨text, htext, by simp [hempty]⟩
    have hall := length_unwords (List.ne_nil_of_mem htext)
    have hsum := sum_length_filter_ne_empty texts
    by_cases hnone : texts.filter (· ≠ "") = []
    · rw [hnone, unwords_nil] at heq
      rw [hnone, List.map_nil, List.sum_nil] at hsum
      rw [← heq, String.length_empty] at hall
      omega
    · have hkept := length_unwords hnone
      rw [heq] at hkept
      omega
  · rintro (hshort | hall)
    · rcases texts with _ | ⟨text, _ | ⟨text', texts⟩⟩
      · rfl
      · by_cases hempty : text = ""
        · rw [List.filter_cons_of_neg (by simp [hempty]), hempty]
          rfl
        · rw [List.filter_cons_of_pos (by simp [hempty])]
          rfl
      · simp at hshort
    · rw [List.filter_eq_self.mpr fun text htext => decide_eq_true (hall text htext)]

/-- Texts written from words may be written one after the other, when none is empty. -/
theorem unwords_flatMap {α : Type} {items : List α} {f : α → List String}
    (h : ∀ item ∈ items, f item ≠ []) :
    unwords (items.flatMap f) = unwords (items.map fun item => unwords (f item)) := by
  induction items with
  | nil => rfl
  | cons item items ih =>
    obtain ⟨hitem, hitems⟩ := List.forall_mem_cons.mp h
    cases items with
    | nil => simp
    | cons item' items =>
      have hne : (item' :: items).flatMap f ≠ [] := by
        rw [List.flatMap_cons]
        exact List.append_ne_nil_of_left_ne_nil (hitems item' (List.mem_cons_self ..)) _
      rw [List.flatMap_cons, unwords, String.intercalate_append_of_ne_nil hitem hne, ← unwords,
        ← unwords, ih hitems]
      exact (unwords_cons_cons _ _ _).symm

/-! ## Blank texts -/

/-- A text that is trimmed to nothing has blanks only. -/
theorem isBlank_of_trim_eq_empty {text : String} (h : trim text = "") :
    ∀ c ∈ text.toList, isBlank c = true := by
  rw [trim, String.ofList_eq_empty_iff, trimEnds, trimEnd, List.reverse_eq_nil_iff,
    List.dropWhile_eq_nil_iff] at h
  intro c hc
  rw [← List.takeWhile_append_dropWhile (p := isBlank) (l := text.toList), List.mem_append] at hc
  rcases hc with hc | hc
  · exact List.mem_takeWhile_imp hc
  · exact h c (List.mem_reverse.mpr hc)

end Text

/-! ## Texts with the words of a tape -/

namespace Pattern

variable {context : Context} {text : String}

/-- **A text with the words of a tape compiles to the tape,** whatever its blanks are. -/
theorem compile_of_isElement (h : ∀ word ∈ Text.words text, IsElement word) :
    compile context text = pure (Text.unwords (Text.words text)) := by
  have hnone {c : Char} (hblank : Text.isBlank c = false) (hc : ¬ IsElementChar c) :
      c ∉ text.toList := by
    intro hmem
    obtain ⟨word, hword, hin⟩ := Text.exists_mem_words hmem hblank
    exact hc ((h word hword).mem hin)
  have htape : IsTape (Text.unwords (Text.words text)) := ⟨_, h, rfl⟩
  have hassemble : assemble context text.toList =
      assemble context (Text.unwords (Text.words text)).toList := by
    rw [assemble, assemble, Variable.substitute_of_not_mem context (hnone (by decide) (by decide)),
      Variable.substitute_of_not_mem context (htape.not_mem (by decide) (by decide)),
      String.ofList_toList, String.ofList_toList, Token.ofText, Token.ofText,
      Text.words_unwords fun word => Text.isWord_of_mem_words]
  change (expandCallsWith (innerCompiler context) text.toList >>=
    fun text => assemble context text) = _
  rw [expandCallsWith_of_no_parenthesis _ (hnone (by decide) (by decide)), pure_bind, hassemble,
    assemble_of_isTape context htape]

/-- A text of blanks compiles to nothing. -/
theorem compile_of_blank (h : Text.trim text = "") : compile context text = pure "" := by
  have hwords : Text.words text = [] := by
    rw [List.eq_nil_iff_forall_not_mem]
    intro word hword
    obtain ⟨hne, hchars⟩ := Text.isWord_of_mem_words hword
    obtain ⟨c, hc⟩ := List.exists_mem_of_ne_nil _ fun hnil => hne (String.toList_eq_nil_iff.mp hnil)
    have hblank := Text.isBlank_of_trim_eq_empty h c (Text.mem_of_mem_words hword hc)
    simp [hchars c hc] at hblank
  rw [compile_of_isElement fun word hword => by simp [hwords] at hword, hwords, Text.unwords_nil]

end Pattern

/-! ## Concatenation -/

namespace Tape

variable {patterns texts : List String} {tapes : String → String}

/-- The patterns that are not of blanks only. -/
def written (patterns : List String) : List String :=
  patterns.filter fun pattern => !(Text.trim pattern).isEmpty

/-- What contributes nothing may be left out. -/
theorem flatMap_filter {α β : Type} {keep : α → Bool} {f : α → List β} {items : List α}
    (h : ∀ item ∈ items, keep item = false → f item = []) :
    (items.filter keep).flatMap f = items.flatMap f := by
  induction items with
  | nil => rfl
  | cons item items ih =>
    obtain ⟨hitem, hitems⟩ := List.forall_mem_cons.mp h
    cases hkeep : keep item with
    | true =>
      rw [List.filter_cons_of_pos hkeep, List.flatMap_cons, List.flatMap_cons, ih hitems]
    | false =>
      rw [List.filter_cons_of_neg (by simp [hkeep]), List.flatMap_cons, hitem hkeep,
        List.nil_append, ih hitems]

/-- **The tape of all elements leaves empty tapes out,** and their spaces with them. -/
theorem unwords_flatMap_words (h : ∀ text ∈ texts, IsTape text) :
    Text.unwords (texts.flatMap Text.words) = Text.unwords (texts.filter (· ≠ "")) := by
  have hkept : ∀ text ∈ texts.filter (· ≠ ""), IsTape text ∧ text ≠ "" := by
    intro text htext
    obtain ⟨hmem, hne⟩ := List.mem_filter.mp htext
    exact ⟨h text hmem, of_decide_eq_true hne⟩
  have hdrop : (texts.filter (· ≠ "")).flatMap Text.words = texts.flatMap Text.words := by
    refine flatMap_filter fun text _ hempty => ?_
    obtain rfl : text = "" := by simpa using hempty
    rfl
  rw [← hdrop, Text.unwords_flatMap fun text htext =>
      mt (hkept text htext).1.words_eq_nil_iff.mp (hkept text htext).2,
    List.map_congr_left fun text htext => (hkept text htext).1.unwords_words, List.map_id']

/-- Tapes next to each other are the tape of their elements when no space is left over. -/
theorem unwords_eq_unwords_flatMap_words_iff (h : ∀ text ∈ texts, IsTape text) :
    Text.unwords texts = Text.unwords (texts.flatMap Text.words) ↔
      texts.length ≤ 1 ∨ ∀ text ∈ texts, text ≠ "" := by
  rw [unwords_flatMap_words h, eq_comm, Text.unwords_filter_ne_empty_iff]

/-- Tapes next to each other compile to the tape of their elements. -/
theorem compile_unwords (context : Context) (h : ∀ text ∈ texts, IsTape text) :
    Pattern.compile context (Text.unwords texts) =
      pure (Text.unwords (texts.flatMap Text.words)) := by
  rw [Pattern.compile_of_isElement, Text.words_unwords_flatMap]
  rw [Text.words_unwords_flatMap]
  intro word hword
  obtain ⟨text, htext, hin⟩ := List.mem_flatMap.mp hword
  exact (h text htext).isElement_of_mem_words hin

section

variable (hcompile : ∀ pattern ∈ patterns,
  Answers (Pattern.compile .standard pattern) (.ok (tapes pattern)))
include hcompile

theorem answers_concatenate :
    Answers (concatenate patterns) (.ok (Text.unwords ((written patterns).map tapes))) := by
  have htapes : List.Forall₂ (fun pattern tape =>
      Answers (Pattern.compile .standard pattern) (.ok tape)) (written patterns)
      ((written patterns).map tapes) := by
    rw [List.forall₂_map_right_iff, List.forall₂_same]
    exact fun pattern hpattern => hcompile pattern (List.mem_of_mem_filter hpattern)
  exact (Answers.mapM htapes).bind_ok (.pure _)

/-- Patterns of blanks are left out with their elements: they have none. -/
theorem flatMap_words_written :
    ((written patterns).map tapes).flatMap Text.words =
      patterns.flatMap fun pattern => Text.words (tapes pattern) := by
  rw [List.flatMap_map, written, flatMap_filter]
  intro pattern hpattern hempty
  have htrim : Text.trim pattern = "" := by simpa [String.isEmpty_iff] using hempty
  have htape := hcompile pattern hpattern
  rw [Pattern.compile_of_blank htrim] at htape
  rw [← (Answers.pure "").unique_ok htape]
  rfl

end

/-- **Concatenation puts the elements of all tapes in order.**  The text that it writes compiles to
the tape of these elements.  It is this tape, and compiles to itself, when at most one pattern is
more than blanks, or when each that is stands for something; otherwise spaces are left over. -/
theorem concatenate_canonical_iff (hdraw : ∀ pattern ∈ patterns, '?' ∉ pattern.toList) :
    ∃ tapes : String → String,
      (∀ pattern ∈ patterns, Answers (Pattern.compile .standard pattern) (.ok (tapes pattern))) ∧
      ∃ joined tape,
        Answers (concatenate patterns) (.ok joined) ∧
        Text.words joined = patterns.flatMap (fun pattern => Text.words (tapes pattern)) ∧
        tape = Text.unwords (patterns.flatMap fun pattern => Text.words (tapes pattern)) ∧
        Answers (Pattern.compile .standard joined) (.ok tape) ∧
        (joined = tape ↔ (written patterns).length ≤ 1 ∨
          ∀ pattern ∈ written patterns, tapes pattern ≠ "") ∧
        (Answers (Pattern.compile .standard joined) (.ok joined) ↔
          (written patterns).length ≤ 1 ∨ ∀ pattern ∈ written patterns, tapes pattern ≠ "") := by
  choose! tapes hcompile hisTape using fun pattern hpattern =>
    Pattern.yields_compile Pattern.isUndrawn_standard (hdraw pattern hpattern)
  have htapes : ∀ text ∈ (written patterns).map tapes, IsTape text :=
    List.forall_mem_map.mpr fun pattern hpattern =>
      hisTape pattern (List.mem_of_mem_filter hpattern)
  have hcompiles : Answers
      (Pattern.compile .standard (Text.unwords ((written patterns).map tapes)))
      (.ok (Text.unwords (patterns.flatMap fun pattern => Text.words (tapes pattern)))) := by
    rw [compile_unwords .standard htapes, flatMap_words_written hcompile]
    exact .pure _
  have hiff := unwords_eq_unwords_flatMap_words_iff htapes
  rw [flatMap_words_written hcompile, List.length_map, List.forall_mem_map] at hiff
  refine ⟨tapes, hcompile, _, _, answers_concatenate hcompile, ?_, rfl, hcompiles, hiff, ?_⟩
  · rw [Text.words_unwords_flatMap, flatMap_words_written hcompile]
  · rw [← hiff]
    constructor
    · exact fun hfixed => hfixed.unique_ok hcompiles
    · intro heq
      rw [← heq] at hcompiles
      exact hcompiles

/-- A word outside the notation stands for nothing and leaves a space in front. -/
theorem concatenate_canonical_iff_foreign :
    (∀ pattern ∈ ["foo", "1"], '?' ∉ pattern.toList) ∧
      Answers (concatenate ["foo", "1"]) (.ok " 1") ∧
      Answers (Pattern.compile .standard " 1") (.ok "1") := by
  have hdraw : ∀ pattern ∈ ["foo", "1"], '?' ∉ pattern.toList := by decide
  obtain ⟨tapes, -, joined, tape, hjoined, -, -, htape, -⟩ := concatenate_canonical_iff hdraw
  have hplayed : ((concatenate ["foo", "1"]).outcome ⟨.script ⟨#[], 0⟩, #[]⟩).1 = .ok " 1" := by
    decide +kernel
  have hcompiled : ((Pattern.compile .standard " 1").outcome ⟨.script ⟨#[], 0⟩, #[]⟩).1 =
      .ok "1" := by
    decide +kernel
  obtain rfl := hjoined.eq_of_outcome hplayed
  obtain rfl := htape.eq_of_outcome hcompiled
  exact ⟨hdraw, hjoined, htape⟩

end Tape
end NoteTape
