import NoteTape.Proofs.Pattern.Grammar
import NoteTape.Proofs.Pattern.Promise
import NoteTape.Proofs.Pattern.Silence

/-!
# Pools that keep the promise of a length

The tape of a call is read once more, and then each of its elements is what it means in the
notation.  A numeral is a note and `-` is a rest, so they are still themselves.  A note of the pool
may be any word.  When the word is a token of one element, and of one that a pattern may draw, the
promise is kept: the word is `Kept`.  Nearly every other word breaks it, since what the notation
does not know is dropped, and a bracket groups.

Pools of kept words keep every promise, `Spreadable.delivers`.  Apart from words with variables they
are the only ones: the call of `?` at length one puts any note of the pool alone on a tape, so a
pool that keeps every promise has kept words, `kept_of_delivers`.  The draws that make this so are
those of a script with two fractions.  One hits the note, the other an integer, when the note is a
random range.
-/

namespace NoteTape

open Play (Settles)
open Token (WellRead)

/-- The integers that a token draws from. -/
def Token.integers : Token → List Int
  | randomRange low high => Context.interval low high
  | _ => []

theorem Context.mem_interval {low high n : Int} : n ∈ interval low high ↔ low ≤ n ∧ n ≤ high := by
  simp only [interval, List.mem_map, List.mem_range]
  constructor
  · rintro ⟨i, hi, rfl⟩
    omega
  · rintro ⟨hlow, hhigh⟩
    exact ⟨(n - low).toNat, by omega, by omega⟩

namespace Pattern

variable {context : Context} {tokens : List Token} {element note : String}

/-! ## Words that stay what they are -/

/-- A token of one element, which is in the pool when it is an integer of a range. -/
structure Keeps (context : Context) (token : Token) : Prop where
  one : token.elementCount = 1
  drawn : ∀ n ∈ token.integers, ∃ text ∈ context.notes, decimal n = .ok text

instance : DecidablePred (Keeps context) := fun token =>
  decidable_of_iff (token.elementCount = 1 ∧
      ∀ n ∈ token.integers, ∃ text ∈ context.notes, decimal n = .ok text)
    ⟨fun h => ⟨h.1, h.2⟩, fun h => ⟨h.1, h.2⟩⟩

/-- A word that is read as such a token. -/
def Kept (context : Context) (word : String) : Prop :=
  match Token.read word.toList with
  | .ok reading => Keeps context reading.token
  | .error _ => False

instance : DecidablePred (Kept context) := fun word =>
  match h : Token.read word.toList with
  | .ok reading => decidable_of_iff (Keeps context reading.token) (by simp [Kept, h])
  | .error _ => isFalse (by simp [Kept, h])

theorem kept_iff : Kept context note ↔
    ∃ reading, Token.read note.toList = .ok reading ∧ Keeps context reading.token := by
  unfold Kept
  cases Token.read note.toList with
  | error fault => simp
  | ok reading => simp

/-- A note is the lexeme that it is read from. -/
theorem text_eq_of_read {lexeme text : String} {reading : Token.Reading}
    (h : Token.read lexeme.toList = .ok reading) (htoken : reading.token = .note text) :
    text = lexeme := by
  rcases Token.writes_or_unknown_of_read h with hwrites | hunknown
  · rw [htoken] at hwrites
    generalize hlexeme : lexeme.toList = cs at hwrites
    cases hwrites with
    | note => rw [← hlexeme, String.ofList_toList]
  · rw [htoken] at hunknown
    cases hunknown

theorem keeps_rest : Keeps context (.rest 1) := ⟨rfl, by simp [Token.integers]⟩

theorem keeps_note (text : String) : Keeps context (.note text) :=
  ⟨rfl, by simp [Token.integers]⟩

theorem kept_of_isNumeral (h : IsNumeral element.toList) : Kept context element :=
  kept_iff.mpr ⟨_, Token.read_numeral h, keeps_note _⟩

/-- What is promised is kept when the pool is. -/
theorem Promised.kept (hkept : ∀ note ∈ context.notes, Kept context note)
    (hread : ∀ token ∈ tokens, token.WellRead) (h : Promised context tokens element) :
    Kept context element := by
  rcases h with rfl | hnote | hpool | ⟨low, high, n, -, -, -, hn⟩
  · exact kept_iff.mpr ⟨_, rfl, keeps_rest⟩
  · exact kept_of_isNumeral (isNumeral_of_note hread hnote)
  · exact hkept element hpool
  · exact kept_of_isNumeral (isNumeral_decimal? (decimal_eq_ok hn))

/-- The element of a kept token that is read from something promised is promised as well. -/
theorem promised_of_keeps {token : Token} {text : String} (h : Promised context tokens element)
    (hkeeps : Keeps context token) (hnote : ∀ text, token = .note text → text = element)
    (htext : Promised context [token] text) : Promised context tokens text := by
  rcases htext with rfl | hmem | hpool | ⟨low, high, n, hmem, hlow, hhigh, hn⟩
  · exact .inl rfl
  · rw [hnote text (List.mem_singleton.mp hmem).symm]
    exact h
  · exact .inr (.inr (.inl hpool))
  · obtain rfl := List.mem_singleton.mp hmem
    obtain ⟨text', hpool, htext'⟩ := hkeeps.drawn n (Context.mem_interval.mpr ⟨hlow, hhigh⟩)
    obtain rfl := Except.ok.inj (hn.symm.trans htext')
    exact .inr (.inr (.inl hpool))

/-! ## Reading a tape of kept words -/

/-- One token, one element. -/
theorem settles_run_ones {steady : Source → Prop} {good : String → Prop} {tokens : List Token}
    (h : ∀ token ∈ tokens, Expansion.IsLeaf token ∧
      Settles steady (Expansion.leaf context token) (fun elements => ∃ e, elements = [e] ∧ good e)
        fun _ => False) (scope : List String) :
    Settles steady (Expansion.run context tokens scope [])
      (fun result => ∃ elements, result = scope.reverse ++ elements ∧
        elements.length = tokens.length ∧ ∀ e ∈ elements, good e) fun _ => False := by
  induction tokens generalizing scope with
  | nil =>
    rw [Expansion.run, Expansion.closeAll]
    exact .pure ⟨[], (List.append_nil _).symm, rfl, by simp⟩
  | cons token tokens ih =>
    obtain ⟨⟨hleaf, hone⟩, htokens⟩ := List.forall_mem_cons.mp h
    rw [Expansion.run_leaf context hleaf]
    refine hone.bind ?_
    rintro _ ⟨e, rfl, he⟩
    refine (ih htokens ([e].reverse ++ scope)).mono ?_ fun _ h => h
    rintro _ ⟨elements, rfl, hlength, helements⟩
    exact ⟨e :: elements, by simp, by simp [hlength], List.forall_mem_cons.mpr ⟨he, helements⟩⟩

theorem isLeaf_of_elementCount {token : Token} (h : token.elementCount = 1) :
    Expansion.IsLeaf token := by
  cases token with
  | groupStart => simp [Token.elementCount] at h
  | groupEnd => simp [Token.elementCount] at h
  | groupRepeat count => simp [Token.elementCount] at h
  | rest count => simp [Expansion.IsLeaf]
  | note text => simp [Expansion.IsLeaf]
  | random => simp [Expansion.IsLeaf]
  | randomRange low high => simp [Expansion.IsLeaf]
  | unknown raw => simp [Expansion.IsLeaf]

/-- A kept word is read as a leaf with one element, and it is one that was promised. -/
theorem settles_ofLexeme_kept {steady : Source → Prop} (hkept : Kept context element)
    (h : Promised context tokens element) :
    Settles steady (Token.ofLexeme element)
      (fun token => Expansion.IsLeaf token ∧
        Settles Source.InFormat (Expansion.leaf context token)
          (fun elements => ∃ e, elements = [e] ∧ (e = "" ∨ Promised context tokens e))
          fun _ => False) fun _ => False := by
  obtain ⟨reading, hread, hkeeps⟩ := kept_iff.mp hkept
  have hwell := Token.wellRead_of_read hread
  have hleaf : Settles Source.InFormat (Expansion.leaf context reading.token)
      (fun elements => ∃ e, elements = [e] ∧ (e = "" ∨ Promised context tokens e))
      fun _ => False := by
    refine (settles_leaf_promised (List.mem_singleton.mpr rfl) hwell).mono ?_ fun _ h => h
    rintro elements ⟨hlength, helements⟩
    rw [hkeeps.one, List.length_eq_one_iff] at hlength
    obtain ⟨e, rfl⟩ := hlength
    exact ⟨e, rfl, (helements e (List.mem_singleton.mpr rfl)).imp_right
      (promised_of_keeps h hkeeps fun _ => text_eq_of_read hread)⟩
  intro desk hdesk
  obtain ⟨hanswer, hsource⟩ := Token.answers_ofLexeme hread desk
  refine ⟨hsource ▸ hdesk, ?_⟩
  rw [hanswer]
  exact ⟨isLeaf_of_elementCount hkeeps.one, hleaf⟩

theorem Promised.not_mem_dollar (hliteral : ∀ note ∈ context.notes, '$' ∉ note.toList)
    (hread : ∀ token ∈ tokens, token.WellRead) (h : Promised context tokens element) :
    '$' ∉ element.toList := by
  rcases h with rfl | hnote | hpool | ⟨low, high, n, -, -, -, hn⟩
  · decide
  · exact fun hmem => absurd ((isNumeral_of_note hread hnote).mem hmem) (by decide)
  · exact hliteral element hpool
  · exact fun hmem => absurd ((isNumeral_decimal? (decimal_eq_ok hn)).mem hmem) (by decide)

/-- **A tape of what is promised has as many elements when it is read,** and they are promised
again. -/
theorem settles_assemble_promised (hwords : ∀ note ∈ context.notes, Text.IsWord note)
    (hliteral : ∀ note ∈ context.notes, '$' ∉ note.toList)
    (hkept : ∀ note ∈ context.notes, Kept context note)
    (hread : ∀ token ∈ tokens, token.WellRead) {elements : List String}
    (h : ∀ e ∈ elements, Promised context tokens e) :
    Settles Source.InFormat (assemble context (Text.unwords elements).toList)
      (fun tape => ∃ result, tape = Text.unwords result ∧ result.length = elements.length ∧
        ∀ e ∈ result, Promised context tokens e) fun _ => False := by
  have hdollar := Text.not_mem_unwords (c := '$') (by decide)
    fun e he => (h e he).not_mem_dollar hliteral hread
  rw [assemble, Variable.substitute_of_not_mem context hdollar, String.ofList_toList, Token.ofText,
    Text.words_unwords fun e he => (h e he).isWord hwords hread]
  refine ((Settles.mapM fun e he =>
    settles_ofLexeme_kept ((h e he).kept hkept hread) (h e he)).mono (fun _ h => h) ?_).bind ?_
  · rintro _ ⟨_, _, hfalse⟩
    exact hfalse
  · intro tokens' htokens'
    refine (settles_run_ones (Play.forall_of_forall₂ htokens' fun _ _ _ h => h) []).bind ?_
    rintro result ⟨elements', heq, hlength, hresult⟩
    rw [List.reverse_nil, List.nil_append] at heq
    subst heq
    refine .pure ⟨result.map elementText, rfl, ?_, promised_map_elementText hresult⟩
    rw [List.length_map, hlength, htokens'.length_eq]

/-- A call has a tape of the length, and nothing on it but what is promised. -/
def Delivers (context : Context) (pattern : String) (tokens : List Token) (length : Nat)
    (desk : Desk) : Prop :=
  ∃ elements after,
    (compile context (spreadCall pattern length)).outcome desk =
        (.ok (Text.unwords elements), after) ∧
      elements.length = length ∧ ∀ e ∈ elements, Promised context tokens e

variable {pattern : String} {length : Nat} {desk : Desk}

/-- **A pool of kept words keeps every promise.** -/
theorem Spreadable.delivers (h : Spreadable pattern tokens length desk)
    (hwords : ∀ note ∈ context.notes, Text.IsWord note)
    (hliteral : ∀ note ∈ context.notes, '$' ∉ note.toList)
    (hkept : ∀ note ∈ context.notes, Kept context note) :
    Delivers context pattern tokens length desk := by
  obtain ⟨elements, place, htape, hformat, hlength, helements⟩ := exists_compileTo hwords h
  obtain ⟨start, hstart, hcall⟩ := outcome_call h htape
  obtain ⟨_, after, hafter, ⟨result, rfl, hsize, hresult⟩, -⟩ :=
    (settles_assemble_promised hwords hliteral hkept h.readAt.wellRead helements).exists_ok start
      (hstart ▸ hformat)
  exact ⟨result, after, hcall.trans hafter, hsize.trans hlength, hresult⟩

/-! ## What a promise that is kept says of the pool -/

/-- The elements of a single token are its own. -/
theorem length_of_expand_singleton {token : Token} (hread : token.WellRead)
    (hformat : desk.source.InFormat) {elements : List String} {after : Desk}
    (h : (expand context [token]).outcome desk = (.ok elements, after)) :
    elements.length = token.elementCount := by
  have hbracket (hsounds : Expansion.sounds false [] [token] = false) : elements = [] :=
    (Expansion.eq_nil_iff_of_expand (List.forall_mem_singleton.mpr hread) h).mpr hsounds
  cases token using Expansion.leaf_or_bracket with
  | leaf token hl =>
    rw [expand, Expansion.run_leaf context hl] at h
    obtain ⟨own, middle, hown, hrun⟩ := Play.exists_of_outcome_bind h
    obtain ⟨hcount, -⟩ :=
      (settles_leaf_promised (List.mem_singleton.mpr rfl) hread).of_steady hformat hown
    obtain rfl := Except.ok.inj (congrArg Prod.fst hrun)
    simp [Expansion.closeAll, hcount]
  | groupStart => rw [hbracket rfl]; rfl
  | groupEnd => rw [hbracket rfl]; rfl
  | groupRepeat count => rw [hbracket rfl]; rfl

/-- A word that has a tape is read, and the tape is that of its token. -/
theorem exists_expand_of_assemble {start after : Desk} {tape : String}
    (hword : Text.IsWord note) (hdollar : '$' ∉ note.toList)
    (h : (assemble context note.toList).outcome start = (.ok tape, after)) :
    ∃ reading elements place last, Token.read note.toList = .ok reading ∧
      place.source = start.source ∧
      (expand context [reading.token]).outcome place = (.ok elements, last) ∧
      tape = tapeOf elements := by
  rw [assemble, Variable.substitute_of_not_mem context hdollar] at h
  obtain ⟨tokens, place, htokens, hexpand⟩ := Play.exists_of_outcome_bind h
  obtain ⟨elements, last, helements, htape⟩ := Play.exists_of_outcome_bind hexpand
  have hne : note.toList ≠ [] := fun hnil => hword.1 (String.toList_eq_nil_iff.mp hnil)
  obtain ⟨hanswer, hsource⟩ := Token.alike_ofText_readAll note.toList start start rfl
  rw [htokens, Text.split_word hne hword.2] at hanswer
  rw [htokens] at hsource
  obtain ⟨reading, hreading, htoken⟩ : ∃ reading, Token.read note.toList = .ok reading ∧
      tokens = [reading.token] := by
    change Except.ok tokens = Token.readAll [note.toList] at hanswer
    rw [Token.readAll, List.mapM_cons, List.mapM_nil] at hanswer
    cases hread : Token.read note.toList with
    | error fault =>
      rw [hread] at hanswer
      cases hanswer
    | ok reading =>
      rw [hread] at hanswer
      exact ⟨reading, rfl, Except.ok.inj hanswer⟩
  subst htoken
  exact ⟨reading, elements, place, last, hreading, hsource, helements,
    (Except.ok.inj (congrArg Prod.fst htape)).symm⟩

theorem elementText_of_isWord (h : Text.IsWord element) : elementText element = element := by
  have hne : ¬ element.isEmpty = true := by simpa [String.isEmpty_iff] using h.1
  rw [elementText, if_neg hne]

theorem isLiteral_random : IsLiteral "?" := ⟨by decide, by decide⟩

/-- One random note at length one is the note that is drawn. -/
theorem exists_compileTo_random {place : Desk} (hword : Text.IsWord note)
    (hdraw : context.draw.outcome desk = (.ok note, place)) :
    ∃ last, (compileTo context "?" 1).outcome desk = (.ok note, last) ∧
      last.source = place.source := by
  have hread : Token.readAll (Text.split "?".toList) = .ok [.random] := by decide +kernel
  have hexpand : (expand context [.random]).outcome desk = (.ok [note], place) := by
    rw [expand, Expansion.run, Play.outcome_bind_ok hdraw]
    rfl
  obtain ⟨last, hlast, hsource⟩ :=
    (isLiteral_random.alike_expansion hread).exists_ok rfl hexpand
  have htape : tapeOf [note] = note := by
    rw [tapeOf, List.map_singleton, elementText_of_isWord hword, Text.unwords_singleton]
  have hspread : Call.spreadTape note 1 = .ok note := by
    have hwords := Text.words_unwords (List.forall_mem_singleton.mpr hword)
    rw [Text.unwords_singleton] at hwords
    rw [Call.spreadTape, hwords]
    rfl
  have hcompile : (compileTo context "?" 1).outcome desk = (.ok note, last) := by
    rw [compileTo, compile_eq_map_expansion, map_eq_pure_bind, bind_assoc,
      Play.outcome_bind_ok hlast, pure_bind, htape, hspread]
    rfl
  exact ⟨last, hcompile, hsource⟩

/-- The desk of a script with two fractions. -/
def scriptDesk (u v : Binary64) : Desk := ⟨.script ⟨#[u, v], 0⟩, #[]⟩

/-- Some fraction draws a note of the pool, whatever the next one is. -/
theorem exists_draw_eq (hnote : note ∈ context.notes) (hsize : context.notes.length ≤ 2 ^ 51) :
    ∃ u : Binary64, u.IsFraction ∧ u.IsRepresentable ∧ ∀ v,
      context.draw.outcome (scriptDesk u v) = (.ok note, ⟨.script ⟨#[u, v], 1⟩, #[]⟩) := by
  obtain ⟨i, hi, rfl⟩ := List.mem_iff_getElem.mp hnote
  obtain ⟨u, hfraction, hrepresentable, hshare⟩ := Source.exists_share_eq hi hsize
  have hindex : Source.indexOf u context.notes.length = i := by
    rw [Source.indexOf, hshare]
    change min (i : Int).toNat (context.notes.length - 1) = i
    omega
  refine ⟨u, hfraction, hrepresentable, fun v => ?_⟩
  have hdraw : (Play.index context.notes.length).outcome (scriptDesk u v) =
      (.ok i, ⟨.script ⟨#[u, v], 1⟩, #[]⟩) := by
    rw [← hindex]
    rfl
  rw [Context.draw, Play.pick, Play.outcome_bind_ok hdraw, List.getElem?_eq_getElem hi]
  rfl

/-- Some fraction draws an integer of a range that is not too wide, as the second one. -/
theorem exists_integer_eq {low high n : Int} (hlow : low ≤ n) (hhigh : n ≤ high)
    (hwidth : high - low < 2 ^ 51) :
    ∃ v : Binary64, (v.IsFraction ∧ v.IsRepresentable) ∧
      ∀ u, ((Source.script ⟨#[u, v], 1⟩).integer low high).1 = .ok n := by
  obtain ⟨place, hplace⟩ := Int.eq_ofNat_of_zero_le (by omega : 0 ≤ n - low)
  obtain ⟨width, hwidth⟩ := Int.eq_ofNat_of_zero_le (by omega : 0 ≤ high - low + 1)
  obtain ⟨v, hfraction, hrepresentable, hshare⟩ :=
    Source.exists_share_eq (show place < width by omega) (by omega)
  refine ⟨v, ⟨hfraction, hrepresentable⟩, fun u => ?_⟩
  have hn : low + (place : Int) = n := by omega
  change (Source.share v (high - low + 1)).map (low + ·) = .ok n
  rw [hwidth, hshare, ← hn]
  rfl

/-- The element of a random range is the integer that is drawn. -/
theorem exists_of_expand_range {low high : Int} {after : Desk}
    (h : (expand context [.randomRange low high]).outcome desk = (.ok [element], after)) :
    ∃ n, (desk.source.integer low high).1 = .ok n ∧ decimal n = .ok element := by
  rw [expand, Expansion.run] at h
  obtain ⟨n, middle, hn, h⟩ := Play.exists_of_outcome_bind h
  obtain ⟨text, htext, h⟩ := Play.exists_of_outcome_lift_bind h
  rw [Expansion.run, Expansion.closeAll, Play.outcome_pure] at h
  obtain rfl := List.singleton_inj.mp (Except.ok.inj (congrArg Prod.fst h))
  exact ⟨n, congrArg Prod.fst hn, htext⟩

/-- A numeral that one random note promises is in the pool. -/
theorem mem_pool_of_promised (hnumeral : IsNumeral element.toList)
    (h : Promised context [.random] (elementText element)) : element ∈ context.notes := by
  rw [elementText_of_isWord (IsElement.isWord (.inr hnumeral))] at h
  rcases h with rfl | hmem | hpool | ⟨_, _, _, hmem, -⟩
  · exact absurd ((isSome_integerOfChars?_iff _).mpr hnumeral) (by decide)
  · simp at hmem
  · exact hpool
  · simp at hmem

theorem inFormat_script {u v : Binary64} {next : Nat} (hu : u.IsFraction ∧ u.IsRepresentable)
    (hv : v.IsFraction ∧ v.IsRepresentable) : (Source.script ⟨#[u, v], next⟩).InFormat := by
  simp [Source.InFormat, hu, hv]

theorem spreadable_random (hpos : 1 ≤ length) (hlength : length ≤ stepLimit)
    (hformat : desk.source.InFormat) : Spreadable "?" [.random] length desk where
  plain := List.forall_mem_singleton.mpr (by unfold Call.IsPlain; decide)
  no_variable := isLiteral_random.2
  readAt := rfl
  count_lt := by decide
  length_pos := hpos
  length_le := hlength
  inFormat := hformat

/-- When the call of one random note delivers, the note that was drawn is a word for one element,
and the draw of that word is promised too. -/
theorem exists_expand_of_delivers (hwords : ∀ note ∈ context.notes, Text.IsWord note)
    (hnote : note ∈ context.notes) (hdollar : '$' ∉ note.toList)
    {place : Desk} (hdraw : context.draw.outcome desk = (.ok note, place))
    (hformat : desk.source.InFormat) (hplace : place.source.InFormat)
    (h : Delivers context "?" [.random] 1 desk) :
    ∃ reading e start last, Token.read note.toList = .ok reading ∧
      reading.token.elementCount = 1 ∧ start.source = place.source ∧
      (expand context [reading.token]).outcome start = (.ok [e], last) ∧
      Promised context [.random] (elementText e) := by
  obtain ⟨result, after, hresult, hlength, hpromised⟩ := h
  obtain ⟨middle, htape, hmiddle⟩ := exists_compileTo_random (hwords note hnote) hdraw
  obtain ⟨first, hfirst, hcall⟩ := outcome_call (spreadable_random le_rfl (by decide) hformat) htape
  rw [hcall] at hresult
  obtain ⟨reading, elements, start, last, hread, hstart, hexpand, heq⟩ :=
    exists_expand_of_assemble (hwords note hnote) hdollar hresult
  have hsource : start.source = place.source := hstart.trans (hfirst.trans hmiddle)
  have hwell := Token.wellRead_of_read hread
  have hwellRead := List.forall_mem_singleton.mpr hwell
  -- the words of the tape are the elements that were promised
  have hwritten : elements.map elementText = result := by
    have hown := promised_map_elementText
      ((settles_expand_promised hwellRead).of_steady (hsource ▸ hplace) hexpand)
    have hownWords := Text.words_unwords fun e he => (hown e he).isWord hwords hwellRead
    have hresultWords := Text.words_unwords fun e he =>
      (hpromised e he).isWord hwords (List.forall_mem_singleton.mpr (by trivial))
    rw [← hownWords, ← hresultWords, heq, tapeOf]
  have hone : elements.length = 1 := by
    rw [← hlength, ← hwritten, List.length_map]
  have hcount := length_of_expand_singleton hwell (hsource ▸ hplace) hexpand
  obtain ⟨e, rfl⟩ := List.length_eq_one_iff.mp hone
  refine ⟨reading, e, start, last, hread, hcount.symm.trans hone, hsource, hexpand, ?_⟩
  exact hpromised _ (hwritten ▸ List.mem_singleton.mpr rfl)

/-- **A pool that keeps every promise has kept words,** apart from those with variables. -/
theorem kept_of_delivers (hwords : ∀ note ∈ context.notes, Text.IsWord note)
    (hsize : context.notes.length ≤ 2 ^ 51)
    (h : ∀ u v : Binary64, u.IsFraction ∧ u.IsRepresentable → v.IsFraction ∧ v.IsRepresentable →
      Delivers context "?" [.random] 1 (scriptDesk u v)) (hnote : note ∈ context.notes)
    (hdollar : '$' ∉ note.toList) : Kept context note := by
  obtain ⟨u, hfraction, hrepresentable, hdraw⟩ := exists_draw_eq hnote hsize
  have hu := And.intro hfraction hrepresentable
  obtain ⟨reading, _, _, _, hread, hone, -⟩ := exists_expand_of_delivers hwords hnote hdollar
    (hdraw u) (inFormat_script hu hu) (inFormat_script hu hu) (h u u hu hu)
  refine kept_iff.mpr ⟨reading, hread, hone, fun n hn => ?_⟩
  -- the second fraction draws the integer
  obtain ⟨low, high, htoken⟩ : ∃ low high, reading.token = .randomRange low high := by
    cases htoken : reading.token with
    | randomRange low high => exact ⟨low, high, rfl⟩
    | _ => simp [htoken, Token.integers] at hn
  obtain ⟨hzero, -, hbyte⟩ : WellRead (.randomRange low high) :=
    htoken ▸ Token.wellRead_of_read hread
  rw [htoken] at hn
  obtain ⟨hlow, hhigh⟩ := Context.mem_interval.mp hn
  obtain ⟨v, hv, hdrawn⟩ := exists_integer_eq hlow hhigh (by omega)
  obtain ⟨reading', e, start, last, hread', -, hsource, hexpand, hpromised⟩ :=
    exists_expand_of_delivers hwords hnote hdollar (hdraw v) (inFormat_script hu hv)
      (inFormat_script hu hv) (h u v hu hv)
  obtain rfl := Except.ok.inj (hread.symm.trans hread')
  rw [htoken] at hexpand
  obtain ⟨n', hn', he⟩ := exists_of_expand_range hexpand
  rw [hsource, hdrawn u] at hn'
  obtain rfl := Except.ok.inj hn'
  exact ⟨e, mem_pool_of_promised (isNumeral_decimal? (decimal_eq_ok he)) hpromised, he⟩

/-- **Which pools keep the promise of a length.**  The function keeps it for every pool of words:
its tape has exactly the length, and every element of it is promised.  The call gives what this tape
means when it is read as a pattern.  So from a pool of kept words without variables it delivers as
well, whatever the pattern, the length and the source.  A pool from which it always delivers has no
other words without variables. -/
theorem delivers_iff_kept (hwords : ∀ note ∈ context.notes, Text.IsWord note) :
    (∀ pattern tokens length desk, Spreadable pattern tokens length desk →
      ∃ elements place start,
        (compileTo context pattern length).outcome desk = (.ok (Text.unwords elements), place) ∧
          elements.length = length ∧ (∀ e ∈ elements, Promised context tokens e) ∧
          start.source = place.source ∧
          (compile context (spreadCall pattern length)).outcome desk =
            (assemble context (Text.unwords elements).toList).outcome start) ∧
      ((∀ note ∈ context.notes, '$' ∉ note.toList) → (∀ note ∈ context.notes, Kept context note) →
        ∀ pattern tokens length desk, Spreadable pattern tokens length desk →
          Delivers context pattern tokens length desk) ∧
      (context.notes.length ≤ 2 ^ 51 →
        (∀ pattern tokens length desk, Spreadable pattern tokens length desk →
          Delivers context pattern tokens length desk) →
        ∀ note ∈ context.notes, '$' ∉ note.toList → Kept context note) := by
  refine ⟨fun pattern tokens length desk h => ?_, ?_, ?_⟩
  · obtain ⟨elements, place, htape, -, hlength, helements⟩ := exists_compileTo hwords h
    obtain ⟨start, hstart, hcall⟩ := outcome_call h htape
    exact ⟨elements, place, start, htape, hlength, helements, hstart, hcall⟩
  · exact fun hliteral hkept pattern tokens length desk h => h.delivers hwords hliteral hkept
  · intro hsize hall note hnote hdollar
    refine kept_of_delivers hwords hsize (fun u v hu hv => ?_) hnote hdollar
    exact hall "?" [.random] 1 _
      (spreadable_random le_rfl (by decide) (inFormat_script hu hv))

example : ∀ note ∈ ["60", "-", "?", "?<60-61>", "61"],
    Kept ⟨["60", "-", "?", "?<60-61>", "61"], 1, 127, [], by decide, by decide⟩ note := by
  decide +kernel

/-- A letter is a word, but not a kept one: three of them are promised, and the call has none. -/
theorem delivers_iff_kept_letter :
    let context : Context := ⟨["a"], 1, 127, [], by decide, by decide⟩
    let desk : Desk := ⟨.script ⟨#[.zero], 0⟩, #[]⟩
    (∀ note ∈ context.notes, Text.IsWord note) ∧ Spreadable "?" [.random] 3 desk ∧
      ((compileTo context "?" 3).outcome desk).1 = .ok "a a a" ∧
      ((compile context (spreadCall "?" 3)).outcome desk).1 = .ok "" ∧
      ¬ ∀ pattern tokens length desk, Spreadable pattern tokens length desk →
        Delivers context pattern tokens length desk := by
  intro context desk
  have hwords : ∀ note ∈ context.notes, Text.IsWord note := by
    refine List.forall_mem_singleton.mpr ⟨by decide, ?_⟩
    exact List.forall_mem_singleton.mpr (by decide)
  have hspreadable : Spreadable "?" [.random] 3 desk :=
    spreadable_random (by decide) (by decide) (by
      simp [desk, Source.InFormat, Binary64.isFraction_zero, Binary64.isRepresentable_zero])
  refine ⟨hwords, hspreadable, by decide +kernel, by decide +kernel, fun hall => ?_⟩
  have hkept := (delivers_iff_kept hwords).2.2 (by decide) hall "a" (List.mem_singleton.mpr rfl)
    (by decide)
  exact absurd hkept (by decide +kernel)

end Pattern
end NoteTape
