import NoteTape.Text.Blank

/-!
# Cutting a text into words and writing it again

`split` reads a text from the right.  Its state after a suffix is the word being collected and the
words after it, and a blank moves the word over; so a text cut at any one blank is cut into the
words on its two sides, `split_append_cons`.  From this follow the words of a text that was
written from others, `words_unwords_flatMap`, and from words, `words_unwords`.  Joined, the words of
a text are its characters without the blanks, `flatten_split`.  A fixed beginning is found when it
is there, `after?_eq_some_iff`, and a mark cuts a text where it stands first, `cutAt_append_cons`.
-/

namespace NoteTape
namespace Text

/-- A word: not empty, and without blanks. -/
def IsWord (word : String) : Prop := word ≠ "" ∧ ∀ c ∈ word.toList, isBlank c = false

/-! ## Reading from the right -/

theorem splitStep_of_blank {c : Char} (h : isBlank c = true) (run : List Char)
    (done : List (List Char)) :
    splitStep c (run, done) = ([], if run.isEmpty then done else run :: done) := by
  rw [splitStep, if_pos h]

theorem splitStep_of_not_blank {c : Char} (h : isBlank c = false) (run : List Char)
    (done : List (List Char)) : splitStep c (run, done) = (c :: run, done) := by
  rw [splitStep, if_neg (by simp [h])]

/-- Words that are there already stay behind the words of the text before them. -/
theorem foldr_splitStep_append (cs : List Char) (done : List (List Char)) :
    cs.foldr splitStep ([], done) =
      ((cs.foldr splitStep ([], [])).1, (cs.foldr splitStep ([], [])).2 ++ done) := by
  induction cs with
  | nil => rfl
  | cons c cs ih =>
    rw [List.foldr_cons, List.foldr_cons, ih]
    rcases cs.foldr splitStep ([], []) with ⟨run, before⟩
    cases hc : isBlank c with
    | true =>
      rw [splitStep_of_blank hc, splitStep_of_blank hc]
      by_cases hrun : run.isEmpty
      · simp [hrun]
      · simp [hrun]
    | false => rw [splitStep_of_not_blank hc, splitStep_of_not_blank hc]

theorem split_eq (cs : List Char) :
    split cs =
      if (cs.foldr splitStep ([], [])).1.isEmpty then (cs.foldr splitStep ([], [])).2
      else (cs.foldr splitStep ([], [])).1 :: (cs.foldr splitStep ([], [])).2 := rfl

/-- **A blank divides a text**, and with it the words of the text. -/
theorem split_append_cons (cs : List Char) {blank : Char} (h : isBlank blank = true)
    (rest : List Char) : split (cs ++ blank :: rest) = split cs ++ split rest := by
  have hstep : splitStep blank (rest.foldr splitStep ([], [])) = ([], split rest) :=
    splitStep_of_blank h _ _
  rw [split_eq (cs ++ _), List.foldr_append, List.foldr_cons, hstep, foldr_splitStep_append,
    split_eq cs]
  by_cases hrun : (cs.foldr splitStep ([], [])).1.isEmpty
  · simp [hrun]
  · simp [hrun]

theorem foldr_splitStep_of_forall {cs : List Char} (h : ∀ c ∈ cs, isBlank c = false) :
    cs.foldr splitStep ([], []) = (cs, []) := by
  induction cs with
  | nil => rfl
  | cons c cs ih =>
    rw [List.foldr_cons, ih fun d hd => h d (List.mem_cons_of_mem _ hd),
      splitStep_of_not_blank (h c (List.mem_cons_self ..))]

theorem split_word {cs : List Char} (hne : cs ≠ []) (h : ∀ c ∈ cs, isBlank c = false) :
    split cs = [cs] := by
  rw [split_eq, foldr_splitStep_of_forall h]
  simp [hne]

/-! ## The characters of words -/

/-- Read one after the other, the words are the text without its blanks. -/
theorem flatten_split (cs : List Char) : (split cs).flatten = cs.filter fun c => !isBlank c := by
  have hfold : (cs.foldr splitStep ([], [])).1 ++ (cs.foldr splitStep ([], [])).2.flatten =
      cs.filter fun c => !isBlank c := by
    induction cs with
    | nil => rfl
    | cons c cs ih =>
      rw [List.foldr_cons]
      generalize cs.foldr splitStep ([], []) = state at ih ⊢
      obtain ⟨run, done⟩ := state
      cases hc : isBlank c with
      | true =>
        rw [splitStep_of_blank hc, List.filter_cons_of_neg (by simp [hc]), ← ih]
        by_cases hrun : run.isEmpty
        · simp [List.isEmpty_iff.mp hrun]
        · simp [hrun]
      | false =>
        rw [splitStep_of_not_blank hc, List.filter_cons_of_pos (by simp [hc]), ← ih]
        rfl
  rw [split_eq, ← hfold]
  split
  · next hrun => rw [List.isEmpty_iff.mp hrun, List.nil_append]
  · rfl

/-- The characters of words are those of the text that are no blanks. -/
theorem exists_mem_split_iff {cs : List Char} {c : Char} :
    (∃ word ∈ split cs, c ∈ word) ↔ c ∈ cs ∧ isBlank c = false := by
  rw [← List.mem_flatten, flatten_split, List.mem_filter, Bool.not_eq_true']

theorem mem_of_mem_split {cs word : List Char} (h : word ∈ split cs) {c : Char} (hc : c ∈ word) :
    c ∈ cs :=
  (exists_mem_split_iff.mp ⟨word, h, hc⟩).1

/-- No word is empty. -/
theorem nil_not_mem_split (cs : List Char) : [] ∉ split cs := by
  have hfold : [] ∉ (cs.foldr splitStep ([], [])).2 := by
    induction cs with
    | nil => exact List.not_mem_nil
    | cons c cs ih =>
      rw [List.foldr_cons]
      generalize cs.foldr splitStep ([], []) = state at ih ⊢
      obtain ⟨run, done⟩ := state
      cases hc : isBlank c with
      | true =>
        rw [splitStep_of_blank hc]
        cases run with
        | nil => exact ih
        | cons d run => exact List.not_mem_cons_of_ne_of_not_mem (List.cons_ne_nil d run).symm ih
      | false =>
        rw [splitStep_of_not_blank hc]
        exact ih
  rw [split_eq]
  split
  · exact hfold
  · next hrun =>
    refine List.not_mem_cons_of_ne_of_not_mem (fun hnil => hrun ?_) hfold
    rw [← hnil]
    rfl

/-- The words of a text are words. -/
theorem isWord_of_mem_words {text word : String} (h : word ∈ words text) : IsWord word := by
  obtain ⟨cs, hcs, rfl⟩ := List.mem_map.mp h
  refine ⟨fun hempty => ?_, fun c hc => ?_⟩
  · rw [String.ofList_eq_empty_iff] at hempty
    exact nil_not_mem_split _ (hempty ▸ hcs)
  · rw [String.toList_ofList] at hc
    exact (exists_mem_split_iff.mp ⟨cs, hcs, hc⟩).2

/-- A character that is no blank stands in a word. -/
theorem exists_mem_words {text : String} {c : Char} (h : c ∈ text.toList)
    (hc : isBlank c = false) : ∃ word ∈ words text, c ∈ word.toList := by
  obtain ⟨cs, hcs, hmem⟩ := exists_mem_split_iff.mpr ⟨h, hc⟩
  exact ⟨String.ofList cs, List.mem_map_of_mem hcs, by rwa [String.toList_ofList]⟩

theorem mem_of_mem_words {text word : String} (h : word ∈ words text) {c : Char}
    (hc : c ∈ word.toList) : c ∈ text.toList := by
  obtain ⟨cs, hcs, rfl⟩ := List.mem_map.mp h
  rw [String.toList_ofList] at hc
  exact mem_of_mem_split hcs hc

/-! ## Trimming -/

theorem mem_of_mem_trimEnd {drop : Char → Bool} {cs : List Char} {c : Char}
    (h : c ∈ trimEnd drop cs) : c ∈ cs := by
  rw [trimEnd, List.mem_reverse] at h
  exact List.mem_reverse.mp ((List.dropWhile_sublist _).subset h)

theorem mem_of_mem_trimEnds {drop : Char → Bool} {cs : List Char} {c : Char}
    (h : c ∈ trimEnds drop cs) : c ∈ cs :=
  (List.dropWhile_sublist _).subset (mem_of_mem_trimEnd h)

/-! ## Words and texts -/

theorem unwords_cons_cons (w w' : String) (ws : List String) :
    unwords (w :: w' :: ws) = w ++ " " ++ unwords (w' :: ws) := String.intercalate_cons_cons

theorem toList_unwords_cons_cons (w w' : String) (ws : List String) :
    (unwords (w :: w' :: ws)).toList = w.toList ++ ' ' :: (unwords (w' :: ws)).toList := by
  rw [unwords_cons_cons, String.toList_append, String.toList_append]
  simp

/-- What is written from some texts begins what is written from these and others. -/
theorem toList_unwords_prefix (ws others : List String) :
    (unwords ws).toList <+: (unwords (ws ++ others)).toList := by
  induction ws with
  | nil => exact List.nil_prefix
  | cons w ws ih =>
    cases ws with
    | nil =>
      cases others with
      | nil => exact List.prefix_rfl
      | cons other others =>
        rw [unwords_singleton, List.singleton_append, toList_unwords_cons_cons]
        exact List.prefix_append _ _
    | cons w' ws =>
      rw [List.cons_append, List.cons_append, toList_unwords_cons_cons, toList_unwords_cons_cons]
      exact (List.prefix_append_right_inj _).mpr ((List.prefix_cons_inj _).mpr ih)

/-- **A text written from texts has the words of all of them.**  A text of blanks has none, and
leaves a space behind. -/
theorem words_unwords_flatMap (texts : List String) :
    words (unwords texts) = texts.flatMap words := by
  induction texts with
  | nil => rfl
  | cons text texts ih =>
    cases texts with
    | nil => rw [unwords_singleton, List.flatMap_singleton]
    | cons text' texts =>
      rw [words, toList_unwords_cons_cons, split_append_cons _ (by decide), List.map_append,
        List.flatMap_cons]
      exact congrArg (words text ++ ·) ih

theorem words_of_isWord {w : String} (h : IsWord w) : words w = [w] := by
  have hne : w.toList ≠ [] := fun hnil => h.1 (String.toList_eq_nil_iff.mp hnil)
  rw [words, split_word hne h.2, List.map_singleton, String.ofList_toList]

/-- **Words are found again in the text written from them.** -/
theorem words_unwords {ws : List String} (h : ∀ w ∈ ws, IsWord w) : words (unwords ws) = ws := by
  have hwords : ws.map words = ws.map fun w => [w] :=
    List.map_congr_left fun w hw => words_of_isWord (h w hw)
  rw [words_unwords_flatMap, List.flatMap_def, hwords, ← List.flatMap_def, List.flatMap_singleton']

/-- **What is written from texts without blanks has these texts as its words,** but for the empty
ones: they leave a space and no word. -/
theorem words_unwords_filter {texts : List String}
    (h : ∀ text ∈ texts, ∀ c ∈ text.toList, isBlank c = false) :
    words (unwords texts) = texts.filter (· ≠ "") := by
  rw [words_unwords_flatMap]
  induction texts with
  | nil => rfl
  | cons text texts ih =>
    obtain ⟨htext, htexts⟩ := List.forall_mem_cons.mp h
    rw [List.flatMap_cons, ih htexts]
    by_cases hempty : text = ""
    · rw [hempty, List.filter_cons_of_neg (by simp)]
      rfl
    · rw [words_of_isWord ⟨hempty, htext⟩, List.filter_cons_of_pos (by simp [hempty])]
      rfl

/-- A character of a text written from words is one of a word, or the space between two. -/
theorem mem_unwords {ws : List String} {c : Char} (h : c ∈ (unwords ws).toList) :
    c = ' ' ∨ ∃ w ∈ ws, c ∈ w.toList := by
  induction ws with
  | nil => simp at h
  | cons w ws ih =>
    cases ws with
    | nil => exact .inr ⟨w, by simp, by simpa using h⟩
    | cons w' ws =>
      rw [toList_unwords_cons_cons, List.mem_append, List.mem_cons] at h
      rcases h with h | rfl | h
      · exact .inr ⟨w, List.mem_cons_self .., h⟩
      · exact .inl rfl
      · rcases ih h with hspace | ⟨v, hv, hc⟩
        · exact .inl hspace
        · exact .inr ⟨v, List.mem_cons_of_mem _ hv, hc⟩

theorem mem_unwords_of_mem {w : String} {ws : List String} (hw : w ∈ ws) {c : Char}
    (hc : c ∈ w.toList) : c ∈ (unwords ws).toList := by
  induction ws with
  | nil => exact absurd hw List.not_mem_nil
  | cons v ws ih =>
    cases ws with
    | nil =>
      obtain rfl := List.mem_singleton.mp hw
      rwa [unwords_singleton]
    | cons v' ws =>
      rw [toList_unwords_cons_cons]
      rcases List.mem_cons.mp hw with rfl | hw
      · exact List.mem_append_left _ hc
      · exact List.mem_append_right _ (List.mem_cons_of_mem _ (ih hw))

/-- A character that no word has is not in the text. -/
theorem not_mem_unwords {ws : List String} {c : Char} (hspace : c ≠ ' ')
    (h : ∀ w ∈ ws, c ∉ w.toList) : c ∉ (unwords ws).toList := by
  intro hmem
  rcases mem_unwords hmem with hc | ⟨w, hw, hc⟩
  · exact hspace hc
  · exact h w hw hc

/-! ## Beginnings -/

/-- The text does not begin with a character of the class. -/
def Stops (p : Char → Bool) (cs : List Char) : Prop := ∀ c ∈ cs.head?, p c = false

theorem stops_cons {p : Char → Bool} {c : Char} (h : p c = false) (cs : List Char) :
    Stops p (c :: cs) := by
  rintro d ⟨⟩
  exact h

theorem Stops.append {p : Char → Bool} {run rest : List Char} (hrest : Stops p rest)
    (hrun : ∀ c ∈ run, p c = false) : Stops p (run ++ rest) := by
  cases run with
  | nil => exact hrest
  | cons c run => exact stops_cons (hrun c (List.mem_cons_self ..)) (run ++ rest)

/-- A run of a class is found whole when the text stops behind it. -/
theorem span_append {p : Char → Bool} {run rest : List Char} (hrun : ∀ c ∈ run, p c = true)
    (hrest : Stops p rest) :
    (run ++ rest).takeWhile p = run ∧ (run ++ rest).dropWhile p = rest := by
  rw [List.takeWhile_append_of_pos hrun, List.dropWhile_append_of_pos hrun]
  cases rest with
  | nil => exact ⟨List.append_nil run, rfl⟩
  | cons c rest =>
    have hc : p c = false := hrest c rfl
    rw [List.takeWhile_cons_of_neg (by simp [hc]), List.dropWhile_cons_of_neg (by simp [hc])]
    exact ⟨List.append_nil run, rfl⟩

/-- A text has a beginning when it is the beginning and what is left. -/
theorem after?_eq_some_iff {head cs rest : List Char} :
    after? head cs = some rest ↔ cs = head ++ rest := by
  induction head generalizing cs with
  | nil => exact Option.some_inj
  | cons p head ih =>
    cases cs with
    | nil => simp [after?]
    | cons c cs =>
      rw [after?, List.cons_append, List.cons.injEq]
      by_cases h : p = c
      · rw [if_pos h, ih]
        exact ⟨fun hcs => ⟨h.symm, hcs⟩, And.right⟩
      · rw [if_neg h]
        constructor
        · intro hnone
          simp at hnone
        · rintro ⟨heq, -⟩
          exact absurd heq.symm h

/-! ## Marks -/

theorem forall_bne_of_not_mem {mark : Char} {cs : List Char} (h : mark ∉ cs) :
    ∀ c ∈ cs, (c != mark) = true := by
  intro c hc
  rw [bne_iff_ne]
  rintro rfl
  exact h hc

theorem cutAt_of_not_mem {mark : Char} {cs : List Char} (h : mark ∉ cs) :
    cutAt mark cs = (cs, none) := by
  have hstop : Stops (· != mark) [] := fun _ hc => absurd hc (by simp)
  obtain ⟨htake, hdrop⟩ := span_append (forall_bne_of_not_mem h) hstop
  rw [List.append_nil] at htake hdrop
  rw [cutAt, htake, hdrop]

theorem cutAt_append_cons {mark : Char} {head : List Char} (h : mark ∉ head) (rest : List Char) :
    cutAt mark (head ++ mark :: rest) = (head, some rest) := by
  have hstop : Stops (· != mark) (mark :: rest) := stops_cons (by simp) rest
  obtain ⟨htake, hdrop⟩ := span_append (forall_bne_of_not_mem h) hstop
  rw [cutAt, htake, hdrop]

end Text
end NoteTape
