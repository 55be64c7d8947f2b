import NoteTape.Proofs.Pattern.Composition
import NoteTape.Proofs.Pattern.Undrawn

/-!
# Patterns taken word by word

Where tapes are merged, texts from outside the notation can be merged with them.  For this the
words of a pattern are judged: when one of them is `Foreign` the words are taken as they are, and
otherwise the elements of the tape.

The words are judged as they stand in the pattern, before its calls are expanded and its variables
substituted.  No lexeme of the notation has a parenthesis or a `$`, so every call and every
variable makes a word foreign, and with it the whole pattern is taken word by word.  The notation
itself is judged on the text behind these two stages.  So a pattern of the notation is taken as its
tape when it is literal, and only then: `answers_elementsOrWords_of_isLiteral` and
`answers_elementsOrWords_of_not_isLiteral`.
-/

namespace NoteTape

open Play (Answers Yields)

namespace Token

variable {lexeme : List Char} {token : Token} {word : String} {c : Char}

/-! ## The characters of the notation -/

/-- A character that lexemes are written with. -/
def IsNotationChar (c : Char) : Prop :=
  c ∈ ['-', '+', '*', '[', ']', '?', '<', '>'] ∨ Text.isDigit c = true

instance (c : Char) : Decidable (IsNotationChar c) :=
  inferInstanceAs (Decidable (c ∈ ['-', '+', '*', '[', ']', '?', '<', '>'] ∨ Text.isDigit c = true))

theorem isNotationChar_of_digits {digits : List Char}
    (h : ∀ d ∈ digits, Text.isAsciiDigit d = true) : ∀ d ∈ digits, IsNotationChar d :=
  fun d hd => .inr (isDigit_of_isAsciiDigit (h d hd))

theorem Bounds.isNotationChar {body low high : List Char} (h : Bounds body low high) :
    ∀ d ∈ body, IsNotationChar d := by
  rw [h.body_eq]
  refine List.forall_mem_append.mpr ⟨fun d hd => .inr (h.low_digits d hd),
    List.forall_mem_cons.mpr ⟨.inl (by decide), List.forall_mem_append.mpr
      ⟨fun d hd => .inr (h.high_digits d hd), List.forall_mem_singleton.mpr (.inl (by decide))⟩⟩⟩

/-- What a rule writes is written with characters of the notation. -/
theorem Writes.isNotationChar (h : Writes lexeme token) : ∀ c ∈ lexeme, IsNotationChar c := by
  have hone {a : Char} (ha : IsNotationChar a) : ∀ c ∈ [a], IsNotationChar c :=
    List.forall_mem_singleton.mpr ha
  have hpair {a b : Char} {rest : List Char} (ha : IsNotationChar a) (hb : IsNotationChar b)
      (hrest : ∀ c ∈ rest, IsNotationChar c) : ∀ c ∈ a :: b :: rest, IsNotationChar c :=
    List.forall_mem_cons.mpr ⟨ha, List.forall_mem_cons.mpr ⟨hb, hrest⟩⟩
  cases h with
  | rest => exact hone (by decide)
  | groupStart => exact hone (by decide)
  | groupEnd => exact hone (by decide)
  | random => exact hone (by decide)
  | rests h => exact hpair (by decide) (by decide) (isNotationChar_of_digits h.digits_ascii)
  | groupRepeat h => exact hpair (by decide) (by decide) (isNotationChar_of_digits h.digits_ascii)
  | range h _ => exact hpair (by decide) (by decide) h.isNotationChar
  | widest h _ => exact hpair (by decide) (by decide) h.isNotationChar
  | note hsign _ hdigits =>
    refine List.forall_mem_append.mpr ⟨?_, isNotationChar_of_digits hdigits⟩
    rcases hsign with rfl | rfl | rfl
    · exact List.forall_mem_nil _
    · exact hone (by decide)
    · exact hone (by decide)

/-! ## Foreign words -/

/-- A word outside the notation. -/
def Foreign (word : String) : Prop :=
  ∃ reading, read word.toList = .ok reading ∧ reading.token.isUnknown = true

/-- One character outside the notation is enough. -/
theorem foreign_of_mem (hdraw : '?' ∉ word.toList) (hc : c ∈ word.toList)
    (h : ¬ IsNotationChar c) : Foreign word := by
  obtain ⟨reading, hread, -, -⟩ := exists_read_of_undrawn hdraw
  refine ⟨reading, hread, ?_⟩
  rcases writes_or_unknown_of_read hread with hwrites | hunknown
  · exact absurd (hwrites.isNotationChar c hc) h
  · rw [hunknown]
    rfl

/-- Every word of a text has its token among those of the text. -/
theorem mem_of_answers_ofText {text : String} {tokens : List Token} (hdraw : '?' ∉ text.toList)
    (h : Answers (ofText text) (.ok tokens)) (hword : word ∈ Text.words text) {reading : Reading}
    (hread : read word.toList = .ok reading) : reading.token ∈ tokens := by
  have hlexemes : ∀ word ∈ Text.words text, Yields (ofLexeme word) fun _ => True := by
    intro word hword
    obtain ⟨reading, hread, -, -⟩ :=
      exists_read_of_undrawn fun hmem => hdraw (Text.mem_of_mem_words hword hmem)
    exact ⟨reading.token, answers_ofLexeme hread, trivial⟩
  obtain ⟨tokens', hanswers, -⟩ := Yields.exists_forall₂ hlexemes
  obtain rfl : tokens' = tokens := (Answers.mapM hanswers).unique_ok h
  have hall : ∀ word ∈ Text.words text, ∃ token ∈ tokens', Answers (ofLexeme word) (.ok token) :=
    Play.forall_of_forall₂ hanswers.flip fun token htoken _ hanswer => ⟨token, htoken, hanswer⟩
  obtain ⟨token, htoken, hanswer⟩ := hall word hword
  rwa [(answers_ofLexeme hread).unique_ok hanswer]

end Token

namespace Pattern

open Token (Foreign)

variable {pattern tape : String} {words : List String}

/-! ## How a pattern is taken -/

/-- The search for a word outside the notation finds one when there is one. -/
theorem yields_hasUnknown (h : ∀ word ∈ words, '?' ∉ word.toList) :
    Yields (hasUnknown words) fun found => (found = true ↔ ∃ word ∈ words, Foreign word) := by
  induction words with
  | nil => exact .pure (by simp)
  | cons word words ih =>
    obtain ⟨hword, hwords⟩ := List.forall_mem_cons.mp h
    obtain ⟨reading, hread, -, -⟩ := Token.exists_read_of_undrawn hword
    have hanswers := Token.answers_ofLexeme hread
    cases hunknown : reading.token.isUnknown with
    | true =>
      refine ⟨true, hanswers.bind_ok ?_, ?_⟩
      · rw [if_pos hunknown]
        exact .pure true
      · exact iff_of_true rfl ⟨word, List.mem_cons_self .., reading, hread, hunknown⟩
    | false =>
      obtain ⟨found, hfound, hiff⟩ := ih hwords
      refine ⟨found, hanswers.bind_ok ?_, ?_⟩
      · rw [if_neg (by simp [hunknown])]
        exact hfound
      · have hknown : ¬ Foreign word := by
          rintro ⟨other, hother, hforeign⟩
          obtain rfl := Except.ok.inj (hother.symm.trans hread)
          simp [hunknown] at hforeign
        refine hiff.trans ?_
        rw [List.exists_mem_cons_iff, or_iff_right hknown]

/-- A tape compiles to itself. -/
theorem answers_compile_of_isTape (h : IsTape tape) :
    Answers (compile .standard tape) (.ok tape) := by
  rw [compile_of_isTape .standard h]
  exact .pure tape

theorem answers_elements (h : Answers (compile .standard pattern) (.ok tape)) :
    Answers (elements pattern) (.ok (Text.words tape)) :=
  h.bind_ok (.pure _)

/-- **One word outside the notation, and a pattern is taken word by word.** -/
theorem answers_elementsOrWords_of_foreign (hdraw : '?' ∉ pattern.toList)
    (h : ∃ word ∈ Text.words pattern, Foreign word) :
    Answers (elementsOrWords pattern) (.ok (Text.words pattern)) := by
  obtain ⟨found, hfound, hiff⟩ :=
    yields_hasUnknown fun word hword hmem => hdraw (Text.mem_of_mem_words hword hmem)
  obtain rfl := hiff.mpr h
  exact hfound.bind_ok (.pure _)

/-- **With all words inside the notation a pattern is taken as its tape.** -/
theorem answers_elementsOrWords_of_not_foreign (hdraw : '?' ∉ pattern.toList)
    (h : ¬ ∃ word ∈ Text.words pattern, Foreign word)
    (htape : Answers (compile .standard pattern) (.ok tape)) :
    Answers (elementsOrWords pattern) (.ok (Text.words tape)) := by
  obtain ⟨found, hfound, hiff⟩ :=
    yields_hasUnknown fun word hword hmem => hdraw (Text.mem_of_mem_words hword hmem)
  obtain rfl : found = false := by
    rw [← Bool.not_eq_true]
    exact mt hiff.mp h
  exact hfound.bind_ok (answers_elements htape)

/-- Without question marks a pattern is taken as one list of words. -/
theorem yields_elementsOrWords (hdraw : '?' ∉ pattern.toList) :
    Yields (elementsOrWords pattern) fun elements => ∀ e ∈ elements, Text.IsWord e := by
  by_cases h : ∃ word ∈ Text.words pattern, Foreign word
  · exact ⟨_, answers_elementsOrWords_of_foreign hdraw h, fun _ => Text.isWord_of_mem_words⟩
  · obtain ⟨tape, htape, -⟩ := yields_compile isUndrawn_standard hdraw
    exact ⟨_, answers_elementsOrWords_of_not_foreign hdraw h htape,
      fun _ => Text.isWord_of_mem_words⟩

/-- A tape is taken as it is. -/
theorem answers_elementsOrWords_of_isTape (h : IsTape tape) :
    Answers (elementsOrWords tape) (.ok (Text.words tape)) := by
  refine answers_elementsOrWords_of_not_foreign (h.not_mem (by decide) (by decide)) ?_
    (answers_compile_of_isTape h)
  rintro ⟨word, hword, reading, hread, hunknown⟩
  have hanswers := Token.answers_ofLexeme hread
  rw [ofLexeme_of_isElement (h.isElement_of_mem_words hword)] at hanswers
  rw [← (Answers.pure (tokenOf word)).unique_ok hanswers, tokenOf] at hunknown
  split at hunknown
  · simp [Token.isUnknown] at hunknown
  · simp [Token.isUnknown] at hunknown

/-! ## Patterns of the notation -/

/-- A pattern of the notation: with its calls expanded and its variables substituted, none of its
lexemes is unknown. -/
def IsNotation (pattern : String) : Prop :=
  ∃ text tokens, Answers (prepare .standard pattern) (.ok text) ∧
    Answers (Token.ofText text) (.ok tokens) ∧ ∀ token ∈ tokens, token.isUnknown = false

/-- Without question marks one desk tells whether a pattern is one of the notation. -/
theorem isNotation_of_outcome (hdraw : '?' ∉ pattern.toList) {text : String} {tokens : List Token}
    {desk : Desk} (htext : ((prepare .standard pattern).outcome desk).1 = .ok text)
    (htokens : ((Token.ofText text).outcome desk).1 = .ok tokens)
    (hknown : ∀ token ∈ tokens, token.isUnknown = false) : IsNotation pattern := by
  obtain ⟨text', hprepare, hplain⟩ := yields_prepare isUndrawn_standard hdraw
  obtain rfl := hprepare.eq_of_outcome htext
  obtain ⟨tokens', hread, -⟩ := Token.yields_ofText hplain
  obtain rfl := hread.eq_of_outcome htokens
  exact ⟨text', tokens', hprepare, hread, hknown⟩

/-- A literal is what is left of it when its calls are expanded and its variables substituted. -/
theorem IsLiteral.prepare_eq (context : Context) (h : IsLiteral pattern) :
    prepare context pattern = pure pattern := by
  unfold prepare
  rw [expandCallsWith_of_no_parenthesis _ h.1, pure_bind,
    Variable.substitute_of_not_mem context h.2, String.ofList_toList]

/-- A literal of the notation has no word outside the notation. -/
theorem IsLiteral.not_foreign (h : IsLiteral pattern) (hdraw : '?' ∉ pattern.toList)
    (hgrammar : IsNotation pattern) : ¬ ∃ word ∈ Text.words pattern, Foreign word := by
  rintro ⟨word, hword, reading, hread, hunknown⟩
  obtain ⟨text, tokens, hprepare, hanswers, hknown⟩ := hgrammar
  rw [h.prepare_eq] at hprepare
  obtain rfl : pattern = text := (Answers.pure pattern).unique_ok hprepare
  have htoken := hknown _ (Token.mem_of_answers_ofText hdraw hanswers hword hread)
  simp [htoken] at hunknown

/-- A pattern that is no literal has a parenthesis or a `$` in one of its words. -/
theorem exists_mem_words_of_not_isLiteral (h : ¬ IsLiteral pattern) :
    ∃ word ∈ Text.words pattern, ∃ c ∈ word.toList, c = '(' ∨ c = '$' := by
  rw [IsLiteral, not_and_or, not_not, not_not] at h
  rcases h with hcall | hvariable
  · obtain ⟨word, hword, hc⟩ := Text.exists_mem_words hcall (by decide)
    exact ⟨word, hword, _, hc, .inl rfl⟩
  · obtain ⟨word, hword, hc⟩ := Text.exists_mem_words hvariable (by decide)
    exact ⟨word, hword, _, hc, .inr rfl⟩

/-- A tape has neither. -/
theorem not_mem_of_isTape (h : IsTape tape) {c : Char} (hc : c = '(' ∨ c = '$') :
    c ∉ tape.toList := by
  rcases hc with rfl | rfl
  · exact h.not_mem (by decide) (by decide)
  · exact h.not_mem (by decide) (by decide)

/-- So the words of a pattern that is no literal are not those of a tape. -/
theorem words_ne_of_not_isLiteral (h : ¬ IsLiteral pattern) (htape : IsTape tape) :
    Text.words pattern ≠ Text.words tape := by
  obtain ⟨word, hword, c, hc, hchar⟩ := exists_mem_words_of_not_isLiteral h
  intro heq
  exact not_mem_of_isTape htape hchar (Text.mem_of_mem_words (heq ▸ hword) hc)

/-- **A literal of the notation is taken as its tape.** -/
theorem answers_elementsOrWords_of_isLiteral (hdraw : '?' ∉ pattern.toList)
    (hgrammar : IsNotation pattern) (h : IsLiteral pattern)
    (htape : Answers (compile .standard pattern) (.ok tape)) :
    Answers (elementsOrWords pattern) (.ok (Text.words tape)) :=
  answers_elementsOrWords_of_not_foreign hdraw (h.not_foreign hdraw hgrammar) htape

/-- **A pattern with a call or a variable is taken word by word.** -/
theorem answers_elementsOrWords_of_not_isLiteral (hdraw : '?' ∉ pattern.toList)
    (h : ¬ IsLiteral pattern) : Answers (elementsOrWords pattern) (.ok (Text.words pattern)) := by
  obtain ⟨word, hword, c, hc, hchar⟩ := exists_mem_words_of_not_isLiteral h
  refine answers_elementsOrWords_of_foreign hdraw ⟨word, hword, ?_⟩
  refine Token.foreign_of_mem (fun hmem => hdraw (Text.mem_of_mem_words hword hmem)) hc ?_
  rcases hchar with rfl | rfl
  · decide
  · decide

end Pattern
end NoteTape
