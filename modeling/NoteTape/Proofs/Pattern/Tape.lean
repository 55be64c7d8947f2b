import NoteTape.Proofs.Pattern.Expansion
import NoteTape.Proofs.Pattern.Pieces
import NoteTape.Proofs.Pattern.Token
import NoteTape.Proofs.Pattern.Variable
import NoteTape.Proofs.Rhythm.Resample
import NoteTape.Proofs.Text.Words

/-!
# Tapes

A tape is written from elements, a rest `-` or a numeral, with one space between neighbours.
This is what every helper that reads a tape again relies on, and it has two halves.

* *What is compiled is a tape*, when the pool holds numerals: notes are read as numerals only,
  draws take from the pool or write an integer, and replays copy what is there.  At another
  length it stays one, `isTape_spreadTape`.
* *A tape compiles to itself*, in every context, without a draw and without a notice.  A tape is
  written with signs, digits and spaces, so no call and no variable begins in it; its words are
  its elements; and an element is read as a note or as one rest.

The second half is an equation between plays, `compile_of_isTape`, so nothing needs to be said
about the source.
-/

namespace NoteTape

open Play (Settles Verdict)
open Text (isAsciiDigit isBlank)

/-- An element as it stands on a tape: a rest or a numeral. -/
def IsElement (element : String) : Prop := element = "-" ∨ IsNumeral element.toList

/-- A text written from elements, with one space between neighbours. -/
def IsTape (tape : String) : Prop :=
  ∃ elements : List String, (∀ e ∈ elements, IsElement e) ∧ tape = Text.unwords elements

/-! ## The characters of a tape -/

/-- A sign or an ASCII digit. -/
def IsElementChar (c : Char) : Prop := c = '+' ∨ c = '-' ∨ isAsciiDigit c = true

instance (c : Char) : Decidable (IsElementChar c) :=
  inferInstanceAs (Decidable (c = '+' ∨ c = '-' ∨ isAsciiDigit c = true))

theorem IsElement.mem {element : String} (h : IsElement element) {c : Char}
    (hc : c ∈ element.toList) : IsElementChar c := by
  rcases h with rfl | h
  · exact .inr (.inl (List.mem_singleton.mp hc))
  · exact h.mem hc

theorem IsElementChar.isBlank_eq {c : Char} (h : IsElementChar c) : isBlank c = false := by
  rcases h with rfl | rfl | h
  · decide
  · decide
  · simp only [isAsciiDigit, Bool.and_eq_true, decide_eq_true_eq] at h
    have hlow : 48 ≤ c.toNat := h.1
    have hhigh : c.toNat ≤ 57 := h.2
    simp only [isBlank, Bool.or_eq_false_iff, Bool.and_eq_false_iff, decide_eq_false_iff_not,
      beq_eq_false_iff_ne]
    omega

theorem IsElement.isWord {element : String} (h : IsElement element) : Text.IsWord element := by
  refine ⟨?_, fun c hc => (h.mem hc).isBlank_eq⟩
  rcases h with rfl | h
  · decide
  · rintro rfl
    exact h.ne_nil rfl

/-- What is written for an integer is an element. -/
theorem isElement_of_decimal {n : Int} {text : String} (h : decimal n = .ok text) :
    IsElement text :=
  .inr (isNumeral_decimal? (decimal_eq_ok h))

/-- **Integers are written when each of them can be.** -/
theorem mapM_decimal_eq_ok_iff {numbers : List Int} {texts : List String} :
    numbers.mapM decimal = .ok texts ↔
      (∀ n ∈ numbers, n.natAbs < decimalBound) ∧ texts = numbers.map toString := by
  constructor
  · intro h
    have hpairs := (Play.forall₂_of_mapM_eq_ok h).imp fun n text htext => decimal_eq_ok_iff.mp htext
    refine ⟨fun n hn => ?_, ?_⟩
    · obtain ⟨text, htext⟩ := Play.exists_mapM_eq_ok_iff.mp ⟨texts, h⟩ n hn
      exact (decimal_eq_ok_iff.mp htext).1
    · rw [← List.forall₂_eq_eq_eq, List.forall₂_map_right_iff]
      exact (hpairs.imp fun n text htext => htext.2).flip
  · rintro ⟨hnumbers, rfl⟩
    rw [Play.mapM_congr fun n hn => decimal_of_lt (hnumbers n hn)]
    exact List.mapM_pure

theorem mapM_decimal_eq_error {numbers : List Int} {fault : Fault}
    (h : numbers.mapM decimal = .error fault) : fault = .integerTooLong := by
  obtain ⟨_, n, _, -, -, hn⟩ := Play.exists_of_mapM_eq_error h
  exact decimal_eq_error hn

theorem isElement_of_mapM_decimal {numbers : List Int} {texts : List String}
    (h : numbers.mapM decimal = .ok texts) : ∀ text ∈ texts, IsElement text :=
  Play.forall_of_forall₂ (Play.forall₂_of_mapM_eq_ok h) fun _ _ _ htext => isElement_of_decimal htext

/-- No call and no variable begins in a tape. -/
theorem IsTape.not_mem {tape : String} (h : IsTape tape) {c : Char} (hspace : c ≠ ' ')
    (hc : ¬ IsElementChar c) : c ∉ tape.toList := by
  obtain ⟨elements, helements, rfl⟩ := h
  intro hmem
  rcases Text.mem_unwords hmem with hblank | ⟨e, he, hmem⟩
  · exact hspace hblank
  · exact hc ((helements e he).mem hmem)

/-! ## The words of a tape -/

theorem IsTape.isElement_of_mem_words {tape : String} (h : IsTape tape) {e : String}
    (he : e ∈ Text.words tape) : IsElement e := by
  obtain ⟨elements, helements, rfl⟩ := h
  rw [Text.words_unwords fun e he => (helements e he).isWord] at he
  exact helements e he

/-- A tape is written from its words. -/
theorem IsTape.unwords_words {tape : String} (h : IsTape tape) :
    Text.unwords (Text.words tape) = tape := by
  obtain ⟨elements, helements, rfl⟩ := h
  rw [Text.words_unwords fun e he => (helements e he).isWord]

/-- Only the empty tape has no words. -/
theorem IsTape.words_eq_nil_iff {tape : String} (h : IsTape tape) :
    Text.words tape = [] ↔ tape = "" := by
  constructor
  · intro hnil
    rw [← h.unwords_words, hnil, Text.unwords_nil]
  · rintro rfl
    rfl

/-! ## What is compiled is a tape -/

/-- An element that was expanded, before it is written: a rest is the empty text. -/
def IsPlayed (element : String) : Prop := element = "" ∨ IsNumeral element.toList

theorem isElement_elementText {element : String} (h : IsPlayed element) :
    IsElement (elementText element) := by
  unfold elementText
  split
  · exact .inl rfl
  · next hempty =>
    rcases h with rfl | h
    · exact absurd rfl hempty
    · exact .inr h

theorem isTape_tapeOf {elements : List String} (h : ∀ e ∈ elements, IsPlayed e) :
    IsTape (tapeOf elements) := by
  refine ⟨elements.map elementText, ?_, rfl⟩
  intro written hwritten
  obtain ⟨e, he, rfl⟩ := List.mem_map.mp hwritten
  exact isElement_elementText (h e he)

/-- What a token that was read adds to a scope, when the pool holds numerals. -/
theorem settles_leaf_isPlayed {context : Context} (hpool : ∀ note ∈ context.notes, IsNumeral note.toList)
    {token : Token} (h : token.WellRead) :
    Settles (fun _ => True) (Expansion.leaf context token)
      (fun elements => ∀ e ∈ elements, IsPlayed e) fun _ => True := by
  have hone {text : String} (h : IsPlayed text) : ∀ e ∈ [text], IsPlayed e := by
    simpa using h
  cases token with
  | rest count =>
    refine (Settles.any _).bind fun n (_ : True) => .pure fun e he => ?_
    exact .inl (List.eq_of_mem_replicate he)
  | note text => exact .pure (hone (.inr h))
  | groupStart => exact .pure (by simp)
  | groupEnd => exact .pure (by simp)
  | groupRepeat count => exact .pure (by simp)
  | random =>
    exact (Play.settles_pick context.notes context.notes_ne_nil fun _ _ _ => trivial).bind
      fun text hmem => .pure (hone (.inr (hpool text hmem)))
  | randomRange low high =>
    refine (Settles.any _).bind fun n (_ : True) => ?_
    have hwritten : Settles (fun _ => True) (liftM (decimal n) : Play String)
        (fun text => IsNumeral text.toList) fun _ => True := by
      refine .lift ?_
      cases hn : decimal n with
      | ok text => exact isNumeral_decimal? (decimal_eq_ok hn)
      | error fault => trivial
    exact hwritten.bind fun text htext => .pure (hone (.inr htext))
  | unknown raw => exact .pure (by simp)

namespace Pattern

/-- The last two stages end in a tape. -/
theorem settles_assemble_isTape {context : Context}
    (hpool : ∀ note ∈ context.notes, IsNumeral note.toList) (text : List Char) :
    Settles (fun _ => True) (assemble context text) IsTape fun _ => True := by
  refine ((Token.settles_ofText _).mono (fun _ htokens => htokens.1) fun _ _ => trivial).bind
    fun tokens hread => ?_
  have hleaf : ∀ token ∈ tokens, Expansion.IsLeaf token → Settles (fun _ => True)
      (Expansion.leaf context token) (fun elements => ∀ e ∈ elements, IsPlayed e) fun _ => True :=
    fun token hmem _ => settles_leaf_isPlayed hpool (hread token hmem)
  have hreplay : ∀ count, Token.groupRepeat count ∈ tokens → ∀ scope, Settles (fun _ => True)
      (Expansion.replayed scope count) (fun result => ∀ e ∈ result, e ∈ scope) fun _ => True := by
    intro count _ scope
    refine Expansion.settles_replayed scope count (Settles.any _) ?_
    cases Rhythm.repetitions (Expansion.replays scope.length count) with
    | ok times => trivial
    | error fault => trivial
  exact (Expansion.settles_expand context hleaf hreplay).bind
    fun elements helements => .pure (isTape_tapeOf helements)

/-- **What is compiled is a tape.** -/
theorem isTape_of_compile {context : Context}
    (hpool : ∀ note ∈ context.notes, IsNumeral note.toList) {pattern tape : String}
    {desk after : Desk} (h : (compile context pattern).outcome desk = (.ok tape, after)) :
    IsTape tape := by
  have hcompile : Settles (fun _ => True) (compile context pattern) IsTape fun _ => True :=
    (Settles.any (expandCallsWith (innerCompiler context) pattern.toList)).bind
      fun text (_ : True) => settles_assemble_isTape hpool text
  exact hcompile.of_ok h

end Pattern

/-! ## A tape at another length -/

/-- **A tape at another length is a tape.** -/
theorem isTape_spreadTape {tape longer : String} {length : Int} (htape : IsTape tape)
    (h : Call.spreadTape tape length = .ok longer) : IsTape longer := by
  obtain ⟨elements, helements, rfl⟩ := htape
  have hwords : Text.words (Text.unwords elements) = elements :=
    Text.words_unwords fun e he => (helements e he).isWord
  unfold Call.spreadTape at h
  simp only [hwords] at h
  split at h
  · obtain ⟨count, -, h⟩ := Play.exists_of_bind_eq_ok h
    refine ⟨List.replicate count "-", fun e he => ?_, (Except.ok.inj h).symm⟩
    exact .inl (List.eq_of_mem_replicate he)
  · obtain ⟨result, hresult, h⟩ := Play.exists_of_bind_eq_ok h
    exact ⟨result, fun e he => helements e (Rhythm.mem_of_spread hresult he),
      (Except.ok.inj h).symm⟩

/-! ## Texts in which no call and no variable begins -/

namespace Call

theorem euclid?_of_ne {c : Char} (h : c ≠ 'E') (tail : List Char) : euclid? (c :: tail) = none := by
  rw [euclid?]
  intro body heq
  exact h (List.cons.inj heq).1

theorem spread?_of_ne {c : Char} (h : c ≠ 's') (tail : List Char) : spread? (c :: tail) = none := by
  have hafter : Text.after? spreadHead (c :: tail) = none := by
    rw [spreadHead, Text.after?, if_neg (Ne.symm h)]
  unfold spread?
  split
  · rfl
  · next body hbody =>
    rw [hafter] at hbody
    simp at hbody

/-- A text without the first letter of a call has no calls to expand. -/
theorem expandCallsWith_of_not_mem (inner : Option Pattern.Compiler) {text : List Char}
    (heuclid : 'E' ∉ text) (hspread : 's' ∉ text) :
    Pattern.expandCallsWith inner text = pure text := by
  have heuclids : expandEuclids text = pure text := by
    rw [expandEuclids, pieces_of_forall_none, replaceCalls_map_inl]
    intro c hc
    refine euclid?_of_ne ?_
    rintro rfl
    exact heuclid hc
  rw [Pattern.expandCallsWith, heuclids, pure_bind, pieces_of_forall_none, replaceCalls_map_inl]
  intro c hc
  refine spread?_of_ne ?_
  rintro rfl
  exact hspread hc

end Call

namespace Variable

/-- A text without a `$` has nothing to substitute. -/
theorem substitute_of_not_mem (context : Context) {text : List Char} (h : '$' ∉ text) :
    substitute context text = text := by
  have hstrip : strip text = (text, []) := by
    have hkept := stripFrom_append [] [] h []
    rwa [List.append_nil, List.append_nil, stripFrom, List.reverse_reverse] at hkept
  have hresolve := resolveFrom_append context.bindings [] h []
  rw [List.append_nil, List.append_nil, resolveFrom, List.reverse_reverse] at hresolve
  rw [substitute, hstrip]
  exact hresolve

end Variable

/-! ## A tape compiles to itself -/

/-- The token that an element is read as. -/
def tokenOf (element : String) : Token := if element = "-" then .rest 1 else .note element

theorem ofLexeme_of_isElement {element : String} (h : IsElement element) :
    Token.ofLexeme element = pure (tokenOf element) := by
  rcases h with rfl | h
  · rfl
  · have hdash : element ≠ "-" := by
      rintro rfl
      have hnone : integerOfChars? ['-'] = none := by decide
      have hsome := (isSome_integerOfChars?_iff _).mpr h
      rw [show ("-" : String).toList = ['-'] from rfl, hnone] at hsome
      simp at hsome
    rw [Token.ofLexeme, Token.read_numeral h, tokenOf, if_neg hdash, String.ofList_toList]
    rfl

theorem ofText_of_isElement {elements : List String} (h : ∀ e ∈ elements, IsElement e) :
    Token.ofText (Text.unwords elements) = pure (elements.map tokenOf) := by
  rw [Token.ofText, Text.words_unwords fun e he => (h e he).isWord]
  induction elements with
  | nil => rfl
  | cons e elements ih =>
    obtain ⟨he, helements⟩ := List.forall_mem_cons.mp h
    rw [List.mapM_cons, ofLexeme_of_isElement he, ih helements]
    rfl

/-- The element that a token of a tape is expanded to. -/
def played (element : String) : String := if element = "-" then "" else element

theorem run_map_tokenOf (context : Context) (elements : List String) (scope : List String) :
    Expansion.run context (elements.map tokenOf) scope [] =
      pure (scope.reverse ++ elements.map played) := by
  induction elements generalizing scope with
  | nil => rw [List.map_nil, Expansion.run, Expansion.closeAll, List.map_nil, List.append_nil]
  | cons e elements ih =>
    by_cases he : e = "-"
    · subst he
      have hone : Rhythm.repetitions 1 = .ok 1 := rfl
      have htoken : tokenOf "-" = .rest 1 := rfl
      rw [List.map_cons, htoken, Expansion.run, hone, Play.liftM_ok, pure_bind, ih]
      simp [played]
    · rw [List.map_cons, tokenOf, if_neg he, Expansion.run, ih]
      simp [played, he]

theorem elementText_played {element : String} (h : IsElement element) :
    elementText (played element) = element := by
  have hne := h.isWord.1
  by_cases he : element = "-"
  · subst he
    rfl
  · have hempty : ¬ element.isEmpty = true := by
      simpa [String.isEmpty_iff] using hne
    rw [played, if_neg he, elementText, if_neg hempty]

namespace Pattern

/-- The last two stages give a tape back. -/
theorem assemble_of_isTape (context : Context) {tape : String} (h : IsTape tape) :
    assemble context tape.toList = pure tape := by
  rw [assemble, Variable.substitute_of_not_mem context (h.not_mem (by decide) (by decide)),
    String.ofList_toList]
  obtain ⟨elements, helements, rfl⟩ := h
  rw [ofText_of_isElement helements, pure_bind, expand, run_map_tokenOf, pure_bind,
    List.reverse_nil, List.nil_append, tapeOf, List.map_map]
  congr 2
  calc elements.map (elementText ∘ played) = elements.map id :=
        List.map_congr_left fun e he => elementText_played (helements e he)
    _ = elements := List.map_id elements

/-- **A tape compiles to itself,** without a draw and without a notice. -/
theorem compile_of_isTape (context : Context) {tape : String} (h : IsTape tape) :
    compile context tape = pure tape := by
  change (expandCallsWith (innerCompiler context) tape.toList >>=
    fun text => assemble context text) = _
  rw [Call.expandCallsWith_of_not_mem _ (h.not_mem (by decide) (by decide))
    (h.not_mem (by decide) (by decide)), pure_bind, assemble_of_isTape context h]

/-- The notes of the standard pool are numerals. -/
theorem isNumeral_of_mem_standard {note : String} (h : note ∈ Context.standard.notes) :
    IsNumeral note.toList := by
  obtain ⟨n, hn, rfl⟩ := List.mem_map.mp h
  obtain ⟨i, hi, rfl⟩ := List.mem_map.mp hn
  rw [List.mem_range] at hi
  exact isNumeral_decimal? (decimal?_of_lt (lt_decimalBound (by omega)))

/-- **The contract of tapes.**  With a pool of numerals, such as the standard one, whatever a
pattern is compiled to is a tape, and it compiles to itself in every context and at every desk,
which it leaves as it was. -/
theorem compile_contract :
    (∀ note ∈ Context.standard.notes, IsNumeral note.toList) ∧
      ∀ (context : Context) (pattern tape : String) (desk after : Desk),
        (∀ note ∈ context.notes, IsNumeral note.toList) →
        (compile context pattern).outcome desk = (.ok tape, after) →
        IsTape tape ∧
          ∀ (context' : Context) (desk' : Desk),
            (compile context' tape).outcome desk' = (.ok tape, desk') := by
  refine ⟨fun note => isNumeral_of_mem_standard, ?_⟩
  intro context pattern tape desk after hpool h
  have htape := isTape_of_compile hpool h
  refine ⟨htape, fun context' desk' => ?_⟩
  rw [compile_of_isTape context' htape, Play.outcome_pure]

/-- A pattern with both kinds of calls, a variable, a random note that is played twice and a
lexeme that is dropped. -/
theorem compile_contract_calls :
    (∀ note ∈ ["60", "-62"], IsNumeral note.toList) ∧
      (compile ⟨["60", "-62"], 1, 127, [("x", "[ ? ]*2")], by decide, by decide⟩
          "E(1,2) $x spread(1 2,1) foo +5").outcome ⟨.script ⟨#[], 0⟩, #[]⟩ =
        (.ok "1 - 60 60 1 +5", ⟨.script ⟨#[], 1⟩, #[]⟩) ∧
      IsTape "1 - 60 60 1 +5" ∧
      ∀ (context' : Context) (desk' : Desk),
        (compile context' "1 - 60 60 1 +5").outcome desk' = (.ok "1 - 60 60 1 +5", desk') := by
  have hpool : ∀ note ∈ ["60", "-62"], IsNumeral note.toList := by
    intro note hnote
    rw [← isSome_integerOfChars?_iff]
    revert note
    decide +kernel
  have h : (compile ⟨["60", "-62"], 1, 127, [("x", "[ ? ]*2")], by decide, by decide⟩
      "E(1,2) $x spread(1 2,1) foo +5").outcome ⟨.script ⟨#[], 0⟩, #[]⟩ =
        (.ok "1 - 60 60 1 +5", ⟨.script ⟨#[], 1⟩, #[]⟩) := by
    decide +kernel
  exact ⟨hpool, h, compile_contract.2 _ _ _ _ _ hpool h⟩

end Pattern
end NoteTape
