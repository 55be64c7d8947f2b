import NoteTape.Proofs.Pattern.Lexeme
import NoteTape.Proofs.Pattern.Seam
import NoteTape.Proofs.Pattern.Silence

/-!
# What is left of a call that is left

A call that cannot be expanded is left in the text, and the text is then cut into lexemes like any
other.  Whether the call *drops out* of the tape depends on the lexemes it falls into.

* A Euclidean call falls into lexemes that are all unknown, wherever it has blanks, and so always
  drops out.
* The arguments of a spread call may be anything.  What stands alone between blanks is read as a
  token: `spread(1 2 3)` leaves the note `2`.  A closing bracket closes the scope around the call
  and ends the expansion, so that nothing behind the call reaches the tape.

There is no third way for a call to reach the tape: a text that was left drops out exactly when all
elements of its tokens stand in groups that are played no times and none of its brackets closes
outside, `dropsOut_iff`.
-/

namespace NoteTape

open Play (Alike)

/-! ## Tapes and their elements -/

theorem words_tapeOf {elements : List String} (h : ∀ e ∈ elements, IsPlayed e) :
    Text.words (tapeOf elements) = elements.map elementText := by
  refine Text.words_unwords fun w hw => ?_
  obtain ⟨e, he, rfl⟩ := List.mem_map.mp hw
  exact (isElement_elementText (h e he)).isWord

theorem elementText_ne_empty (element : String) : elementText element ≠ "" := by
  unfold elementText
  split
  · decide
  · next hne => simpa [String.isEmpty_iff] using hne

/-- Only a tape without elements is empty. -/
theorem tapeOf_eq_empty_iff {elements : List String} : tapeOf elements = "" ↔ elements = [] := by
  refine ⟨fun h => ?_, fun h => by rw [h]; rfl⟩
  cases elements with
  | nil => rfl
  | cons e elements =>
    cases elements with
    | nil =>
      refine absurd ?_ (elementText_ne_empty e)
      simpa [tapeOf, Text.unwords] using h
    | cons e' elements =>
      rw [tapeOf, List.map_cons, List.map_cons] at h
      have hlist := congrArg String.toList h
      rw [Text.toList_unwords_cons_cons] at hlist
      simp at hlist

namespace Pattern

open Call (Closing)
open Expansion (Plain closesOutside sounds)

/-- A pattern has a tape at a desk. -/
def Gives (context : Context) (pattern : String) (desk : Desk) (tape : String) : Prop :=
  ∃ after, (compile context pattern).outcome desk = (.ok tape, after)

theorem Gives.unique {context : Context} {pattern tape tape' : String} {desk : Desk}
    (h : Gives context pattern desk tape) (h' : Gives context pattern desk tape') : tape = tape' := by
  obtain ⟨after, h⟩ := h
  obtain ⟨after', h'⟩ := h'
  exact Except.ok.inj (congrArg Prod.fst (h.symm.trans h'))

/-- The calls of a text are left at a desk, and then the desk is another one. -/
def LeftAt (context : Context) (text : List Char) (desk middle : Desk) : Prop :=
  (expandCallsWith (innerCompiler context) text).outcome desk = (.ok text, middle)

/-- Without calls and variables only the tokens of a text matter. -/
theorem alike_assemble_of_not_mem (context : Context) {text : List Char} (h : '$' ∉ text) :
    Alike (assemble context text) (do
      let tokens ← (liftM (Token.readAll (Text.split text)) : Play (List Token))
      tapeOf <$> expand context tokens) := by
  rw [assemble, Variable.substitute_of_not_mem context h]
  refine (Token.alike_ofText_readAll text).bind fun tokens => ?_
  rw [map_eq_pure_bind]
  exact (Expansion.alike_run context tokens [] []).bind fun elements => .pure _

theorem outcome_tapeOf {context : Context} {tokens : List Token} {desk after : Desk}
    {tape : String} (h : (tapeOf <$> expand context tokens).outcome desk = (.ok tape, after)) :
    ∃ elements, (expand context tokens).outcome desk = (.ok elements, after) ∧
      tape = tapeOf elements := by
  rw [map_eq_pure_bind] at h
  obtain ⟨elements, middle, helements, htape⟩ := Play.exists_of_outcome_bind h
  obtain ⟨heq, rfl⟩ := Prod.mk.inj htape
  exact ⟨elements, helements, (Except.ok.inj heq).symm⟩

/-- **The tape of a text that was left** is what its tokens expand to. -/
theorem gives_iff_of_leftAt {context : Context} {text : List Char} {desk middle place : Desk}
    (hleft : LeftAt context text desk middle) (hvariables : '$' ∉ text)
    (hplace : place.source = middle.source) (tape : String) :
    Gives context (String.ofList text) desk tape ↔
      ∃ tokens elements after, Token.readAll (Text.split text) = .ok tokens ∧
        (expand context tokens).outcome place = (.ok elements, after) ∧ tape = tapeOf elements := by
  have hcompile : (compile context (String.ofList text)).outcome desk =
      (assemble context text).outcome middle := by
    change (expandCallsWith (innerCompiler context) (String.ofList text).toList >>=
      assemble context).outcome desk = _
    rw [String.toList_ofList, Play.outcome_bind_ok hleft]
  have halike := alike_assemble_of_not_mem context hvariables
  rw [Gives, hcompile]
  constructor
  · rintro ⟨after, h⟩
    obtain ⟨last, hlast, -⟩ := halike.symm.exists_ok hplace h
    obtain ⟨tokens, htokens, hexpand⟩ := Play.exists_of_outcome_lift_bind hlast
    obtain ⟨elements, helements, htape⟩ := outcome_tapeOf hexpand
    exact ⟨tokens, elements, last, htokens, helements, htape⟩
  · rintro ⟨tokens, elements, after, htokens, helements, rfl⟩
    refine (halike.exists_ok hplace.symm (?_ : Play.outcome _ place = (_, after))).imp
      fun _ h => h.1
    rw [htokens, Play.liftM_ok, pure_bind, map_eq_pure_bind, Play.outcome_bind_ok helements,
      Play.outcome_pure]

/-! ## Simple patterns around a text -/

/-- A pattern of rests, notes and unknown lexemes: no call, no bracket, no draw, no variable. -/
def Simple (pattern : String) : Prop := ∀ c ∈ ['?', '(', '[', ']', '$'], c ∉ pattern.toList

instance (pattern : String) : Decidable (Simple pattern) :=
  List.decidableBAll (fun c => c ∉ pattern.toList) ['?', '(', '[', ']', '$']

theorem Simple.leftAt {pattern : String} (h : Simple pattern) (context : Context) (desk : Desk) :
    LeftAt context pattern.toList desk desk := by
  rw [LeftAt, expandCallsWith_of_no_parenthesis _ (h '(' (by simp)), Play.outcome_pure]

theorem Simple.exists_tokens {pattern : String} (h : Simple pattern) :
    ∃ tokens, Token.readAll (Text.split pattern.toList) = .ok tokens ∧ Plain tokens ∧
      ∀ e ∈ tokens.flatMap Token.plainElements, IsPlayed e := by
  refine Token.exists_readAll_of_not_mem fun lexeme hlexeme => ⟨?_, ?_, ?_⟩
  · exact fun hc => h '?' (by simp) (Text.mem_of_mem_split hlexeme hc)
  · exact fun hc => h '[' (by simp) (Text.mem_of_mem_split hlexeme hc)
  · exact fun hc => h ']' (by simp) (Text.mem_of_mem_split hlexeme hc)

/-- A simple pattern has a tape without a draw. -/
theorem Simple.gives {pattern : String} (h : Simple pattern) {tokens : List Token}
    (htokens : Token.readAll (Text.split pattern.toList) = .ok tokens) (hplain : Plain tokens)
    (context : Context) (desk : Desk) :
    Gives context pattern desk (tapeOf (tokens.flatMap Token.plainElements)) := by
  rw [← String.ofList_toList (s := pattern),
    gives_iff_of_leftAt (h.leftAt context desk) (h '$' (by simp)) rfl]
  refine ⟨tokens, _, desk, htokens, ?_, rfl⟩
  rw [Expansion.expand_plain hplain, Play.outcome_pure]

/-- The text of a pattern with simple patterns around it. -/
theorem toList_between (front text back : String) :
    (front ++ " " ++ text ++ " " ++ back).toList =
      front.toList ++ ' ' :: (text.toList ++ ' ' :: back.toList) := by
  simp

/-- A text that is left by itself is left between simple patterns. -/
theorem LeftAt.between {context : Context} {text : List Char} {desk middle : Desk}
    (h : LeftAt context text desk middle) (hclosing : Closing text) {front back : String}
    (hfront : Simple front) (hback : Simple back) :
    ∃ last, LeftAt context (front.toList ++ ' ' :: (text ++ ' ' :: back.toList)) desk last ∧
      last.source = middle.source := by
  have hquiet := quiet_innerCompiler context
  have hparenthesis (pattern : String) (hp : Simple pattern) (desk : Desk) :
      (expandCallsWith (innerCompiler context) pattern.toList).outcome desk =
        (.ok pattern.toList, desk) := by
    rw [expandCallsWith_of_no_parenthesis _ (hp '(' (by simp)), Play.outcome_pure]
  obtain ⟨after, hafter, hsource⟩ :=
    exists_expandCallsWith_append hquiet hclosing h (hparenthesis back hback middle)
  obtain ⟨last, hlast, hsource'⟩ := exists_expandCallsWith_append hquiet
    (Call.closing_of_not_mem (hfront '(' (by simp))) (hparenthesis front hfront desk) hafter
  exact ⟨last, hlast, hsource'.trans hsource⟩

/-- Of a text between two others the words stand in the middle. -/
theorem split_between (front text back : List Char) :
    Text.split (front ++ ' ' :: (text ++ ' ' :: back)) =
      Text.split front ++ (Text.split text ++ Text.split back) := by
  rw [Text.split_append_cons _ (by decide), Text.split_append_cons _ (by decide)]

theorem readAll_between {front text back : List Char} {before after : List Token}
    (hbefore : Token.readAll (Text.split front) = .ok before)
    (hafter : Token.readAll (Text.split back) = .ok after) :
    Token.readAll (Text.split (front ++ ' ' :: (text ++ ' ' :: back))) =
      (fun tokens => before ++ (tokens ++ after)) <$> Token.readAll (Text.split text) := by
  rw [split_between, Token.readAll_append, Token.readAll_append, hbefore, hafter]
  cases Token.readAll (Text.split text) with
  | error fault => rfl
  | ok tokens => rfl

/-! ## Dropping out -/

/-- A text is no more than a blank: it has an empty tape, and between two simple patterns it leaves
the elements of the two. -/
structure DropsOut (context : Context) (text : String) (desk : Desk) : Prop where
  alone : Gives context text desk ""
  between : ∀ front back, Simple front → Simple back →
    ∃ tape tape' whole, Gives context front desk tape ∧ Gives context back desk tape' ∧
      Gives context (front ++ " " ++ text ++ " " ++ back) desk whole ∧
      Text.words whole = Text.words tape ++ Text.words tape'

/-- A text is silent when its lexemes can be read, all elements of its tokens stand in groups that
are played no times, and no bracket closes a group that is open around the text. -/
def Silent (text : String) : Prop :=
  ∃ tokens, Token.readAll (Text.split text.toList) = .ok tokens ∧
    sounds false [] tokens = false ∧ closesOutside 0 tokens = false

variable {context : Context} {text : String} {desk middle : Desk}

/-- A silent text that is left drops out. -/
theorem Silent.dropsOut (h : Silent text) (hleft : LeftAt context text.toList desk middle)
    (hfair : middle.source.Fair) (hclosing : Closing text.toList) (hvariables : '$' ∉ text.toList) :
    DropsOut context text desk := by
  -- the tokens of the text come to nothing
  obtain ⟨tokens, htokens, hsounds, hinside⟩ := h
  have hread := Token.wellRead_of_readAll htokens
  obtain ⟨elements, after, helements, -⟩ := (Expansion.settles_expand_of_fits context
    fun token hmem => (hread token hmem).fits).exists_ok middle hfair
  obtain rfl := (Expansion.eq_nil_iff_of_expand hread helements).mpr hsounds
  have halone : Gives context text desk "" := by
    rw [← String.ofList_toList (s := text), gives_iff_of_leftAt hleft hvariables rfl]
    exact ⟨tokens, [], after, htokens, helements, rfl⟩
  refine ⟨halone, fun front back hfront hback => ?_⟩
  obtain ⟨before, hbefore, hbeforePlain, hbeforePlayed⟩ := hfront.exists_tokens
  obtain ⟨behind, hbehind, hbehindPlain, hbehindPlayed⟩ := hback.exists_tokens
  -- and so do they between the others
  obtain ⟨last, hlast, hsource⟩ := hleft.between hclosing hfront hback
  have hvariables' : '$' ∉ front.toList ++ ' ' :: (text.toList ++ ' ' :: back.toList) := by
    have hdollar := hfront '$' (by simp)
    have hdollar' := hback '$' (by simp)
    simp [hdollar, hdollar', hvariables]
  have hwhole := gives_iff_of_leftAt hlast hvariables' hsource.symm
    (tapeOf (before.flatMap Token.plainElements ++ behind.flatMap Token.plainElements))
  rw [← toList_between, String.ofList_toList] at hwhole
  refine ⟨_, _, _, hfront.gives hbefore hbeforePlain context desk,
    hback.gives hbehind hbehindPlain context desk,
    hwhole.mpr ⟨before ++ (tokens ++ behind), _, after, ?_, ?_, rfl⟩, ?_⟩
  · rw [toList_between, readAll_between hbefore hbehind, htokens]
    rfl
  · rw [Expansion.expand_between hbeforePlain hbehindPlain hinside,
      map_eq_pure_bind, Play.outcome_bind_ok helements, Play.outcome_pure, List.append_nil]
  · rw [words_tapeOf (List.forall_mem_append.mpr ⟨hbeforePlayed, hbehindPlayed⟩),
      words_tapeOf hbeforePlayed, words_tapeOf hbehindPlayed, List.map_append]

/-- A text that drops out is silent: the note behind it would be lost otherwise. -/
theorem DropsOut.silent (h : DropsOut context text desk) (hleft : LeftAt context text.toList desk middle)
    (hclosing : Closing text.toList) (hvariables : '$' ∉ text.toList) : Silent text := by
  -- the text by itself comes to nothing
  have halone := h.alone
  rw [← String.ofList_toList (s := text), gives_iff_of_leftAt hleft hvariables rfl] at halone
  obtain ⟨tokens, elements, after, htokens, helements, hempty⟩ := halone
  obtain rfl : elements = [] := tapeOf_eq_empty_iff.mp hempty.symm
  refine ⟨tokens, htokens,
    (Expansion.eq_nil_iff_of_expand (Token.wellRead_of_readAll htokens) helements).mp rfl, ?_⟩
  rw [← Bool.not_eq_true]
  intro hcloses
  have hnothing : Simple "" := by decide
  have hnote : Simple "1" := by decide
  have hread : Token.readAll (Text.split "".toList) = .ok [] := rfl
  have hread' : Token.readAll (Text.split "1".toList) = .ok [.note "1"] := by decide +kernel
  obtain ⟨tape, tape', whole, htape, htape', hwhole, hwords⟩ := h.between "" "1" hnothing hnote
  obtain rfl := htape.unique (hnothing.gives hread (by simp [Plain]) context desk)
  obtain rfl := htape'.unique
    (hnote.gives hread' (by simp [Plain, Token.IsPlain, Token.Fits]) context desk)
  -- and so it does in front of a note
  obtain ⟨last, hlast, hsource⟩ := hleft.between hclosing hnothing hnote
  have hvariables' : '$' ∉ "".toList ++ ' ' :: (text.toList ++ ' ' :: "1".toList) := by
    simp [hvariables]
  rw [← String.ofList_toList (s := "" ++ " " ++ text ++ " " ++ "1"), toList_between,
    gives_iff_of_leftAt hlast hvariables' hsource.symm, readAll_between hread hread', htokens]
    at hwhole
  obtain ⟨_, elements, last', heq, hexpand, rfl⟩ := hwhole
  obtain rfl := Except.ok.inj heq
  obtain ⟨last'', hlost, -⟩ :=
    (Expansion.alike_run_of_closesOutside [.note "1"] [] [] hcloses).symm.exists_ok rfl
      hexpand
  obtain rfl := Except.ok.inj (congrArg Prod.fst (helements.symm.trans hlost))
  exact absurd hwords (by decide +kernel)

/-! ## Calls that are left -/

/-- A text with a mark in every word is silent. -/
theorem silent_of_marked (h : Marked text.toList) : Silent text := by
  obtain ⟨tokens, htokens, hplain, helements⟩ := Token.exists_readAll_of_marked h
  refine ⟨tokens, htokens, ?_, Expansion.closesOutside_plain hplain 0⟩
  have hnothing : (expand .standard tokens).outcome ⟨.script ⟨#[], 0⟩, #[]⟩ =
      (.ok [], ⟨.script ⟨#[], 0⟩, #[]⟩) := by
    rw [Expansion.expand_plain hplain, helements, Play.outcome_pure]
  exact (Expansion.eq_nil_iff_of_expand (Token.wellRead_of_readAll htokens) hnothing).mp rfl

/-- **When a call that is left drops out.**  The text may be any one in which every opening
parenthesis is closed, such as the text of a spread call with well nested arguments, and it has no
variables.  When its calls are left as they stand, it drops out of the tape exactly when it is
silent.  A Euclidean call always is. -/
theorem dropsOut_iff (hfair : desk.source.Fair) (hclosing : Closing text.toList)
    (hvariables : '$' ∉ text.toList)
    (hleft : (expandCalls context text).outcome desk = (.ok text, middle)) :
    (DropsOut context text desk ↔ Silent text) ∧
      ((∃ call before after, Call.Euclid.Written call before after ∧ text.toList = call.text) →
        DropsOut context text desk) := by
  have hleftAt : LeftAt context text.toList desk middle := by
    obtain ⟨written, after, hwritten, htext⟩ := Play.exists_of_outcome_bind hleft
    obtain ⟨heq, rfl⟩ := Prod.mk.inj htext
    rw [LeftAt, hwritten, ← Except.ok.inj heq, String.toList_ofList]
  have hmiddle : middle.source.Fair := by
    have hcalls : Play.Settles Source.Fair
        (expandCallsWith (innerCompiler context) text.toList) (fun _ => True) fun _ => True := by
      refine settles_expandCallsWith ?_ _
      rintro compile ⟨⟩
      exact soft_compiler context _
    have hafter := (hcalls desk hfair).1
    rwa [hleftAt] at hafter
  have hiff : DropsOut context text desk ↔ Silent text :=
    ⟨fun h => h.silent hleftAt hclosing hvariables,
      fun h => h.dropsOut hleftAt hmiddle hclosing hvariables⟩
  refine ⟨hiff, ?_⟩
  rintro ⟨call, before, after, hwritten, htext⟩
  refine hiff.mpr (silent_of_marked ?_)
  rw [htext]
  exact hwritten.marked

/-- A spread call with three arguments leaves the one in the middle; a Euclidean call with too many
hits leaves nothing, also with blanks in it. -/
theorem dropsOut_iff_remnants :
    Source.Fair (.script ⟨#[], 0⟩) ∧
      (Closing "spread(1 2 3)".toList ∧ '$' ∉ "spread(1 2 3)".toList ∧
        ∃ middle, (expandCalls .standard "spread(1 2 3)").outcome ⟨.script ⟨#[], 0⟩, #[]⟩ =
          (.ok "spread(1 2 3)", middle)) ∧
      ¬ DropsOut .standard "spread(1 2 3)" ⟨.script ⟨#[], 0⟩, #[]⟩ ∧
      (Closing "E(9 , 4)".toList ∧ '$' ∉ "E(9 , 4)".toList ∧
        ∃ middle, (expandCalls .standard "E(9 , 4)").outcome ⟨.script ⟨#[], 0⟩, #[]⟩ =
          (.ok "E(9 , 4)", middle)) ∧
      DropsOut .standard "E(9 , 4)" ⟨.script ⟨#[], 0⟩, #[]⟩ := by
  have hfair : Source.Fair (.script ⟨#[], 0⟩) := by simp [Source.Fair]
  obtain ⟨⟨before, after, hwritten⟩, htext⟩ := Call.found?_euclid?_iff.mp
    (show Call.found? Call.euclid? "E(9 , 4)".toList =
      some (⟨"9".toList, "4".toList, "E(9 , 4)".toList⟩, []) by decide +kernel)
  have hspread : Closing "spread(1 2 3)".toList :=
    Call.closing_spreadText (Call.levelAfter_eq_zero_iff.mp
      (show Call.levelAfter 0 "1 2 3".toList = some 0 by decide +kernel)).1
  have heuclid : Closing "E(9 , 4)".toList := hwritten.wellNested.1.closing
  have hleft : ((expandCalls .standard "spread(1 2 3)").outcome ⟨.script ⟨#[], 0⟩, #[]⟩).1 =
      .ok "spread(1 2 3)" := by
    decide +kernel
  have hleft' : ((expandCalls .standard "E(9 , 4)").outcome ⟨.script ⟨#[], 0⟩, #[]⟩).1 =
      .ok "E(9 , 4)" := by
    decide +kernel
  have hread : Token.readAll (Text.split "spread(1 2 3)".toList) =
      .ok [.unknown "spread(1", .note "2", .unknown "3)"] := by
    decide +kernel
  refine ⟨hfair, ⟨hspread, by decide, _, Prod.ext hleft rfl⟩, fun h => ?_,
    ⟨heuclid, by decide, _, Prod.ext hleft' rfl⟩,
    (dropsOut_iff hfair heuclid (by decide) (Prod.ext hleft' rfl)).2
      ⟨_, before, after, hwritten, rfl⟩⟩
  obtain ⟨tokens, htokens, hsounds, -⟩ :=
    (dropsOut_iff hfair hspread (by decide) (Prod.ext hleft rfl)).1.mp h
  obtain rfl := Except.ok.inj (hread.symm.trans htokens)
  exact absurd hsounds (by decide)

end Pattern
end NoteTape
