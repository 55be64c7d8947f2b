import NoteTape.Proofs.Pattern.Between
import NoteTape.Proofs.Pattern.Euclid

/-!
# Lexemes by their characters

What a lexeme is read as can often be told from its characters.  Without question marks and
brackets it is a plain token.  With a parenthesis or a comma, a *mark*, it is unknown, because no
token is written with one; and a Euclidean call has a mark in each of its words, wherever it has
blanks.
-/

namespace NoteTape

namespace Token

/-- What was read is in order. -/
theorem wellRead_of_readAll {lexemes : List (List Char)} {tokens : List Token}
    (h : readAll lexemes = .ok tokens) : ∀ token ∈ tokens, token.WellRead := by
  induction lexemes generalizing tokens with
  | nil =>
    obtain rfl := Except.ok.inj h
    exact fun token htoken => absurd htoken List.not_mem_nil
  | cons lexeme lexemes ih =>
    rw [readAll, List.mapM_cons] at h
    obtain ⟨first, hfirst, h⟩ := Play.exists_of_bind_eq_ok h
    obtain ⟨rest, hrest, h⟩ := Play.exists_of_bind_eq_ok h
    obtain rfl := Except.ok.inj h
    refine List.forall_mem_cons.mpr ⟨?_, ih hrest⟩
    have hread := verdict_read lexeme
    cases hlexeme : read lexeme with
    | error fault =>
      rw [hlexeme] at hfirst
      exact absurd hfirst (by simp [Functor.map, Except.map])
    | ok reading =>
      rw [hlexeme] at hread hfirst
      obtain rfl := Except.ok.inj hfirst
      exact hread.1

/-- Without a question mark and without brackets a lexeme is a plain token. -/
theorem exists_read_of_not_mem {lexeme : List Char} (hdraw : '?' ∉ lexeme) (hopen : '[' ∉ lexeme)
    (hclose : ']' ∉ lexeme) :
    ∃ reading, read lexeme = .ok reading ∧ reading.token.IsPlain ∧ reading.token.WellRead := by
  have hplain : Play.Verdict (fun reading => reading.token.IsPlain) (fun _ => True)
      (read lexeme) := by
    unfold read
    split
    · trivial
    · simp at hopen
    · simp at hclose
    · simp at hdraw
    · rcases readCount_token _ _ Token.rest with ⟨n, -, htoken⟩ | htoken
      · change IsPlain _
        rw [htoken]
        trivial
      · change IsPlain _
        rw [htoken]
        trivial
    · simp at hclose
    · simp at hdraw
    · split
      · trivial
      · trivial
  have hread := verdict_read lexeme
  cases hlexeme : read lexeme with
  | error fault =>
    rw [hlexeme] at hread
    obtain ⟨⟨low, high, rfl, -⟩, -⟩ := hread
    simp at hdraw
  | ok reading =>
    rw [hlexeme] at hread hplain
    exact ⟨reading, rfl, hplain, hread.1⟩

theorem isPlayed_plainElements {token : Token} (h : token.WellRead) :
    ∀ e ∈ token.plainElements, IsPlayed e := by
  intro e he
  cases token with
  | rest count => exact .inl (List.eq_of_mem_replicate he)
  | note text =>
    obtain rfl := List.mem_singleton.mp he
    exact .inr h
  | unknown raw => exact absurd he List.not_mem_nil
  | groupStart => exact absurd he List.not_mem_nil
  | groupEnd => exact absurd he List.not_mem_nil
  | groupRepeat count => exact absurd he List.not_mem_nil
  | random => exact absurd he List.not_mem_nil
  | randomRange low high => exact absurd he List.not_mem_nil

/-- The tokens of lexemes without question marks and brackets. -/
theorem exists_readAll_of_not_mem {lexemes : List (List Char)}
    (h : ∀ lexeme ∈ lexemes, '?' ∉ lexeme ∧ '[' ∉ lexeme ∧ ']' ∉ lexeme) :
    ∃ tokens, readAll lexemes = .ok tokens ∧ Expansion.Plain tokens ∧
      ∀ e ∈ tokens.flatMap plainElements, IsPlayed e := by
  induction lexemes with
  | nil => exact ⟨[], rfl, by simp [Expansion.Plain], by simp⟩
  | cons lexeme lexemes ih =>
    obtain ⟨⟨hdraw, hopen, hclose⟩, hlexemes⟩ := List.forall_mem_cons.mp h
    obtain ⟨reading, hread, hplain, hwell⟩ := exists_read_of_not_mem hdraw hopen hclose
    obtain ⟨tokens, hreads, hplains, hplayed⟩ := ih hlexemes
    refine ⟨reading.token :: tokens, ?_, List.forall_mem_cons.mpr ⟨⟨hplain, hwell.fits⟩, hplains⟩,
      ?_⟩
    · rw [readAll, List.mapM_cons, hread]
      rw [readAll] at hreads
      rw [hreads]
      rfl
    · rw [List.flatMap_cons]
      exact List.forall_mem_append.mpr ⟨isPlayed_plainElements hwell, hplayed⟩

end Token

/-! ## Marks -/

/-- A character that stands in no lexeme of the notation. -/
def IsMark (c : Char) : Prop := c = '(' ∨ c = ',' ∨ c = ')'

/-- A text all of whose words have a mark. -/
def Marked (text : List Char) : Prop := ∀ word ∈ Text.split text, ∃ c ∈ word, IsMark c

theorem IsMark.not_isElementChar {c : Char} (h : IsMark c) : ¬ IsElementChar c := by
  rcases h with rfl | rfl | rfl
  · decide
  · decide
  · decide

theorem IsMark.isDigit_eq {c : Char} (h : IsMark c) : Text.isDigit c = false := by
  rcases h with rfl | rfl | rfl
  · decide
  · decide
  · decide

theorem IsMark.ne {c d : Char} (h : IsMark c) (hd : d ∉ ['(', ',', ')']) : c ≠ d := by
  rintro rfl
  exact hd (by simpa [IsMark] using h)

namespace Token

theorem readCount_of_mark {lexeme digits : List Char} {make : Int → Token} {c : Char}
    (hc : c ∈ digits) (hmark : IsMark c) :
    readCount lexeme digits make = .plain (.unknown (String.ofList lexeme)) := by
  have hall : digits.all Text.isAsciiDigit = false := by
    rw [List.all_eq_false]
    exact ⟨c, hc, fun h => hmark.not_isElementChar (.inr (.inr h))⟩
  rw [readCount, hall]
  simp

/-- **A lexeme with a mark is unknown.** -/
theorem read_of_mark {lexeme : List Char} {c : Char} (hc : c ∈ lexeme) (hmark : IsMark c) :
    read lexeme = .ok (.plain (.unknown (String.ofList lexeme))) := by
  have hne {d : Char} (hd : d ∉ ['(', ',', ')']) : c ≠ d := hmark.ne hd
  unfold read
  split
  · exact absurd (List.mem_singleton.mp hc) (hne (by decide))
  · exact absurd (List.mem_singleton.mp hc) (hne (by decide))
  · exact absurd (List.mem_singleton.mp hc) (hne (by decide))
  · exact absurd (List.mem_singleton.mp hc) (hne (by decide))
  · rw [readCount_of_mark (c := c) _ hmark]
    simpa [hne (d := '-') (by decide), hne (d := '*') (by decide)] using hc
  · rw [readCount_of_mark (c := c) _ hmark]
    simpa [hne (d := ']') (by decide), hne (d := '*') (by decide)] using hc
  · next body =>
    have hbody : c ∈ body := by
      simpa [hne (d := '?') (by decide), hne (d := '<') (by decide)] using hc
    have hnone : boundDigits? body = none := by
      rw [Option.eq_none_iff_forall_ne_some]
      rintro ⟨low, high⟩ hbounds
      have hb := bounds_of_boundDigits? hbounds
      have hdigit : Text.isDigit c ≠ true := by simp [hmark.isDigit_eq]
      rw [hb.body_eq] at hbody
      simp only [List.mem_append, List.mem_cons, List.not_mem_nil, or_false] at hbody
      rcases hbody with h | h | h | h
      · exact hdigit (hb.low_digits c h)
      · exact hne (by decide) h
      · exact hdigit (hb.high_digits c h)
      · exact hne (by decide) h
    rw [readRange, hnone]
  · split
    · next n hn =>
      have hnumeral := (isSome_integerOfChars?_iff lexeme).mp (by rw [hn]; rfl)
      exact absurd (hnumeral.mem hc) hmark.not_isElementChar
    · rfl

/-- The tokens of a text with a mark in every word are plain and have no elements. -/
theorem exists_readAll_of_marked {lexemes : List (List Char)}
    (h : ∀ lexeme ∈ lexemes, ∃ c ∈ lexeme, IsMark c) :
    ∃ tokens, readAll lexemes = .ok tokens ∧ Expansion.Plain tokens ∧
      tokens.flatMap plainElements = [] := by
  induction lexemes with
  | nil => exact ⟨[], rfl, by simp [Expansion.Plain], rfl⟩
  | cons lexeme lexemes ih =>
    obtain ⟨⟨c, hc, hmark⟩, hlexemes⟩ := List.forall_mem_cons.mp h
    obtain ⟨tokens, hreads, hplains, helements⟩ := ih hlexemes
    refine ⟨.unknown (String.ofList lexeme) :: tokens, ?_,
      List.forall_mem_cons.mpr ⟨⟨trivial, trivial⟩, hplains⟩, ?_⟩
    · rw [readAll, List.mapM_cons, read_of_mark hc hmark]
      rw [readAll] at hreads
      rw [hreads]
      rfl
    · rw [List.flatMap_cons, helements]
      rfl

end Token

namespace Text

theorem split_blanks_append {blanks : List Char} (h : ∀ b ∈ blanks, isBlank b = true)
    (rest : List Char) : split (blanks ++ rest) = split rest := by
  induction blanks with
  | nil => rfl
  | cons b blanks ih =>
    obtain ⟨hb, hblanks⟩ := List.forall_mem_cons.mp h
    have hcut := split_append_cons [] hb (blanks ++ rest)
    rw [List.cons_append, ← ih hblanks]
    exact hcut

/-- Blanks divide a text like a single one. -/
theorem split_append_blanks_append (cs : List Char) {blanks : List Char} (hne : blanks ≠ [])
    (h : ∀ b ∈ blanks, isBlank b = true) (rest : List Char) :
    split (cs ++ (blanks ++ rest)) = split cs ++ split rest := by
  cases blanks with
  | nil => exact absurd rfl hne
  | cons b blanks =>
    obtain ⟨hb, hblanks⟩ := List.forall_mem_cons.mp h
    rw [List.cons_append, split_append_cons cs hb, split_blanks_append hblanks]

end Text

/-- A run of characters without blanks, and a mark among them. -/
structure MarkedRun (run : List Char) : Prop where
  no_blanks : ∀ c ∈ run, Text.isBlank c = false
  mark : ∃ c ∈ run, IsMark c

theorem MarkedRun.marked {run : List Char} (h : MarkedRun run) : Marked run := by
  have hne : run ≠ [] := by
    rintro rfl
    obtain ⟨c, hc, -⟩ := h.mark
    exact absurd hc List.not_mem_nil
  intro word hword
  rw [Text.split_word hne h.no_blanks, List.mem_singleton] at hword
  rw [hword]
  exact h.mark

/-- Two runs stay apart or become one; they have a mark in any case. -/
theorem MarkedRun.marked_append {run run' blanks : List Char} (h : MarkedRun run)
    (h' : MarkedRun run') (hblanks : ∀ b ∈ blanks, Text.isBlank b = true) :
    Marked (run ++ (blanks ++ run')) := by
  by_cases hne : blanks = []
  · subst hne
    refine MarkedRun.marked ⟨List.forall_mem_append.mpr ⟨h.no_blanks, h'.no_blanks⟩, ?_⟩
    obtain ⟨c, hc, hmark⟩ := h.mark
    exact ⟨c, List.mem_append_left _ hc, hmark⟩
  · intro word hword
    rw [Text.split_append_blanks_append run hne hblanks, List.mem_append] at hword
    rcases hword with hword | hword
    · exact h.marked word hword
    · exact h'.marked word hword

/-- **A Euclidean call has a mark in every word,** wherever it has blanks: the opening parenthesis
before the first run of digits, the comma, and the closing parenthesis behind the second. -/
theorem Call.Euclid.Written.marked {call : Call.Euclid} {before after : List Char}
    (h : call.Written before after) : Marked call.text := by
  have hpulses : MarkedRun ('E' :: '(' :: call.pulses) := by
    refine ⟨List.forall_mem_cons.mpr ⟨by decide, List.forall_mem_cons.mpr ⟨by decide, ?_⟩⟩,
      '(', by simp, .inl rfl⟩
    exact fun d hd => Call.isBlank_of_isDigit (h.pulses_digits d hd)
  have hcomma : MarkedRun [','] :=
    ⟨List.forall_mem_singleton.mpr (by decide), ',', by simp, .inr (.inl rfl)⟩
  have hsteps : MarkedRun (call.steps ++ [')']) := by
    refine ⟨List.forall_mem_append.mpr ⟨?_, List.forall_mem_singleton.mpr (by decide)⟩, ')', by simp,
      .inr (.inr rfl)⟩
    exact fun d hd => Call.isBlank_of_isDigit (h.steps_digits d hd)
  by_cases hne : before = []
  · have hfirst : MarkedRun ('E' :: '(' :: call.pulses ++ [',']) := by
      refine ⟨List.forall_mem_append.mpr ⟨hpulses.no_blanks, hcomma.no_blanks⟩, ',', by simp,
        .inr (.inl rfl)⟩
    have htext : call.text =
        'E' :: '(' :: call.pulses ++ [','] ++ (after ++ (call.steps ++ [')'])) := by
      rw [h.text_eq, hne]
      simp
    rw [htext]
    exact hfirst.marked_append hsteps h.after_blanks
  · have htext : call.text = 'E' :: '(' :: call.pulses ++ (before ++
        ([','] ++ (after ++ (call.steps ++ [')'])))) := by
      rw [h.text_eq]
      simp
    intro word hword
    rw [htext, Text.split_append_blanks_append _ hne h.before_blanks, List.mem_append] at hword
    rcases hword with hword | hword
    · exact hpulses.marked word hword
    · exact hcomma.marked_append hsteps h.after_blanks word hword

end NoteTape
