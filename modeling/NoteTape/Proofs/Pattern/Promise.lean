import NoteTape.Proofs.Chance.Share
import NoteTape.Proofs.Pattern.Composition
import NoteTape.Proofs.Pattern.Growth
import NoteTape.Proofs.Pattern.Inline
import NoteTape.Proofs.Rhythm.Place

/-!
# What a pattern at another length promises

A pattern at another length has exactly as many elements as it is asked for, and each of them is
something the pattern can play: a rest, one of its notes, a note of the pool or an integer from one
of its ranges, `Promised`.  The function keeps this promise for every pool of words,
`exists_compileTo`: expansion makes no other elements, `settles_expand_promised`, and resampling has
none of its own and the promised number of them, `exists_spreadTape_of_le`.

The call in a pattern does not stop there.  The tape that comes out is put back into the text and
read as a pattern once more, `outcome_call`, so what becomes of an element of the tape is what it
means in the notation.  Of numerals and rests this is the element itself.  The notes of a pool may
be any words.
-/

namespace NoteTape

open Play (Alike Settles)

/-- How many elements a token has of its own. -/
def Token.elementCount : Token → Nat
  | rest count => count.toNat
  | note _ | random | randomRange _ _ => 1
  | _ => 0

namespace Pattern

variable {context : Context} {tokens : List Token} {element : String}

/-- What may stand on the tape of a pattern with these tokens. -/
def Promised (context : Context) (tokens : List Token) (element : String) : Prop :=
  element = "-" ∨ .note element ∈ tokens ∨ element ∈ context.notes ∨
    ∃ low high n, .randomRange low high ∈ tokens ∧ low ≤ n ∧ n ≤ high ∧ decimal n = .ok element

/-! ## Elements of an expansion -/

/-- The elements of a token, as many as it has: rests, before they are written, and what it
promises. -/
theorem settles_leaf_promised {token : Token} (hmem : token ∈ tokens) (h : token.WellRead) :
    Settles Source.InFormat (Expansion.leaf context token)
      (fun elements => elements.length = token.elementCount ∧
        ∀ e ∈ elements, e = "" ∨ Promised context tokens e) fun _ => False := by
  have hone {e : String} (h : Promised context tokens e) :
      [e].length = 1 ∧ ∀ e' ∈ [e], e' = "" ∨ Promised context tokens e' :=
    ⟨rfl, by simpa using .inr h⟩
  cases token with
  | rest count =>
    rw [Expansion.leaf, Rhythm.repetitions_of_lt h.fits.1 h.fits.2, Play.liftM_ok, pure_bind]
    exact .pure ⟨List.length_replicate .., fun e he => .inl (List.eq_of_mem_replicate he)⟩
  | note text => exact .pure (hone (.inr (.inl hmem)))
  | groupStart => exact .pure ⟨rfl, by simp⟩
  | groupEnd => exact .pure ⟨rfl, by simp⟩
  | groupRepeat count => exact .pure ⟨rfl, by simp⟩
  | random =>
    exact (Play.settles_pick context.notes context.notes_ne_nil fun n s hs => hs.index n).bind
      fun text htext => .pure (hone (.inr (.inr (.inl htext))))
  | randomRange low high =>
    obtain ⟨hlow, hlt, hhigh⟩ := h
    have hdraw : Settles Source.InFormat (Play.integer low high) (fun n => low ≤ n ∧ n ≤ high)
        fun _ => False :=
      Play.settles_integer fun s hs =>
        ⟨hs.integer low high, hs.exists_integer_mem (by omega) (by omega)⟩
    refine hdraw.bind fun n hn => ?_
    obtain ⟨text, htext⟩ := exists_decimal (n := n) (lt_decimalBound (by omega))
    rw [htext, Play.liftM_ok, pure_bind]
    exact .pure (hone (.inr (.inr (.inr ⟨low, high, n, hmem, hn.1, hn.2, htext⟩))))
  | unknown raw => exact .pure ⟨rfl, by simp⟩

/-- **An expansion makes rests and what is promised,** whatever the brackets are. -/
theorem settles_expand_promised (h : ∀ token ∈ tokens, token.WellRead) :
    Settles Source.InFormat (expand context tokens)
      (fun elements => ∀ e ∈ elements, e = "" ∨ Promised context tokens e) fun _ => False :=
  Expansion.settles_expand context
    (fun token hmem _ =>
      (settles_leaf_promised hmem (h token hmem)).mono (fun _ h => h.2) fun _ h => h)
    fun _ hmem scope => Expansion.settles_replayed_of_fits scope (h _ hmem).fits.1
      (h _ hmem).fits.2

theorem isNumeral_of_note (h : ∀ token ∈ tokens, token.WellRead) (hmem : .note element ∈ tokens) :
    IsNumeral element.toList :=
  h _ hmem

/-- With a pool of words, everything that is promised is a word. -/
theorem Promised.isWord (hwords : ∀ note ∈ context.notes, Text.IsWord note)
    (h : ∀ token ∈ tokens, token.WellRead) (helement : Promised context tokens element) :
    Text.IsWord element := by
  rcases helement with rfl | hnote | hpool | ⟨low, high, n, -, -, -, hn⟩
  · exact IsElement.isWord (.inl rfl)
  · exact IsElement.isWord (.inr (isNumeral_of_note h hnote))
  · exact hwords element hpool
  · exact (isElement_of_decimal hn).isWord

/-- What is promised, as it is written. -/
theorem promised_elementText (h : element = "" ∨ Promised context tokens element) :
    Promised context tokens (elementText element) := by
  unfold elementText
  split
  · exact .inl rfl
  · next hempty =>
    rcases h with rfl | h
    · exact absurd rfl hempty
    · exact h

theorem promised_map_elementText {elements : List String}
    (h : ∀ e ∈ elements, e = "" ∨ Promised context tokens e) :
    ∀ e ∈ elements.map elementText, Promised context tokens e :=
  List.forall_mem_map.mpr fun e he => promised_elementText (h e he)

/-! ## The function -/

/-- **A tape at another length has exactly that many elements,** its own and rests. -/
theorem exists_spreadTape_of_le {elements : List String} {length : Nat}
    (hwords : ∀ e ∈ elements, Text.IsWord e) (hcount : elements.length < 2 ^ 100)
    (hpos : 0 < length) (hlength : length ≤ 2 ^ 51) :
    ∃ result, Call.spreadTape (Text.unwords elements) length = .ok (Text.unwords result) ∧
      result.length = length ∧ ∀ e ∈ result, e = "-" ∨ e ∈ elements := by
  unfold Call.spreadTape
  simp only [Text.words_unwords hwords]
  by_cases hempty : elements = []
  · subst hempty
    have hrepetitions : Rhythm.repetitions length = .ok length :=
      Rhythm.repetitions_of_lt (by omega) (by
        have hbound : Rhythm.countBound = 2 ^ 63 := rfl
        omega)
    rw [if_pos ⟨by omega, rfl⟩, hrepetitions]
    refine ⟨List.replicate length "-", rfl, List.length_replicate .., fun e he => ?_⟩
    exact .inl (List.eq_of_mem_replicate he)
  · obtain ⟨result, hresult, -, hsize, -⟩ :=
      Rhythm.spread_of_le hempty hcount hpos hlength
    rw [if_neg fun hand => hempty (List.isEmpty_iff.mp hand.2), hresult]
    exact ⟨result, rfl, hsize, fun e he => .inr (Rhythm.mem_of_spread hresult he)⟩

/-- A pattern without calls and variables, and with a length, at a desk that can read it and draw
for it. -/
structure Spreadable (pattern : String) (tokens : List Token) (length : Nat) (desk : Desk) :
    Prop where
  plain : ∀ c ∈ pattern.toList, Call.IsPlain c
  no_variable : '$' ∉ pattern.toList
  readAt : ReadAt desk pattern tokens
  count_lt : tokens.length < 2 ^ 63
  length_pos : 1 ≤ length
  length_le : length ≤ stepLimit
  inFormat : desk.source.InFormat

variable {pattern : String} {length : Nat} {desk place : Desk}

theorem Spreadable.isLiteral (h : Spreadable pattern tokens length desk) : IsLiteral pattern :=
  ⟨fun hmem => (h.plain _ hmem).1 rfl, h.no_variable⟩

/-- **The function keeps its promise,** for every pool of words. -/
theorem exists_compileTo (hwords : ∀ note ∈ context.notes, Text.IsWord note)
    (h : Spreadable pattern tokens length desk) :
    ∃ result place,
      (compileTo context pattern length).outcome desk = (.ok (Text.unwords result), place) ∧
        place.source.InFormat ∧ result.length = length ∧
        ∀ e ∈ result, Promised context tokens e := by
  have hread := h.readAt.wellRead
  have hexpand : Settles Source.InFormat (expand context tokens) _ _ :=
    settles_expand_promised hread
  obtain ⟨elements, start, helements, hpromised, hstart⟩ := hexpand.exists_ok desk h.inFormat
  have hcount : elements.length < 2 ^ 100 := by
    have hsize := ((Expansion.length_expand context hread).of_ok helements).trans
      (Expansion.sizeBound_le tokens)
    have hlimit : tapeLimit = 2 ^ 16 := rfl
    have hlexemes := h.count_lt
    rw [hlimit] at hsize
    omega
  have hwritten := promised_map_elementText hpromised
  obtain ⟨place, hplace, hsource⟩ :=
    (h.isLiteral.alike_expansion h.readAt.readAll_eq).exists_ok rfl helements
  have hcompile : (compile context pattern).outcome desk = (.ok (tapeOf elements), place) := by
    rw [compile_eq_map_expansion, map_eq_pure_bind, Play.outcome_bind_ok hplace, Play.outcome_pure]
  have hlimit : stepLimit = 4096 := rfl
  have hlength := h.length_le
  obtain ⟨result, hresult, hsize, hmem⟩ := exists_spreadTape_of_le
    (fun e he => (hwritten e he).isWord hwords hread) (by rwa [List.length_map]) h.length_pos
    (show length ≤ 2 ^ 51 by omega)
  refine ⟨result, place, ?_, hsource ▸ hstart, hsize, fun e he => ?_⟩
  · rw [compileTo, Play.outcome_bind_ok hcompile, Play.outcome_lift]
    exact Prod.ext hresult rfl
  · rcases hmem e he with rfl | he
    · exact .inl rfl
    · exact hwritten e he

/-! ## The call -/

/-- A call of a pattern and a length, as it is written. -/
def spreadCall (pattern : String) (length : Nat) : String :=
  "spread(" ++ pattern ++ ", " ++ toString length ++ ")"

theorem toList_spreadCall (pattern : String) (length : Nat) :
    (spreadCall pattern length).toList =
      Call.spreadText (pattern.toList ++ ',' :: ' ' :: (toString length).toList) := by
  simp [spreadCall, Call.spreadText, Call.spreadHead]

theorem compiler_of_no_parenthesis (context : Context) (levels : Nat) {text : List Char}
    (h : '(' ∉ text) : compiler context levels text = assemble context text := by
  cases levels with
  | zero =>
    change expandCallsWith none text >>= assemble context = _
    rw [expandCallsWith_of_no_parenthesis _ h, pure_bind]
  | succ levels =>
    change expandCallsWith (some (compiler context levels)) text >>= assemble context = _
    rw [expandCallsWith_of_no_parenthesis _ h, pure_bind]

theorem integerOfChars?_toString (h : length ≤ stepLimit) :
    integerOfChars? (toString length).toList = some (length : Int) := by
  have hlimit : stepLimit = 4096 := rfl
  exact integerOfChars?_of_decimal? (decimal?_of_lt (n := length) (lt_decimalBound (by omega)))

theorem isNumeral_toString (h : length ≤ stepLimit) : IsNumeral (toString length).toList :=
  (isSome_integerOfChars?_iff _).mp (by rw [integerOfChars?_toString h]; rfl)

/-- The length of a call is read from behind a blank. -/
theorem integerOfChars?_length (h : length ≤ stepLimit) :
    integerOfChars? (Text.trimEnds Text.isBlank (' ' :: (toString length).toList)) =
      some (length : Int) := by
  have htrim : Text.trimEnds Text.isBlank (' ' :: (toString length).toList) =
      Text.trimEnds Text.isBlank (toString length).toList := by
    rw [Text.trimEnds, List.dropWhile_cons_of_pos (by decide), ← Text.trimEnds]
  rw [htrim, trimEnds_numeral (isNumeral_toString h), integerOfChars?_toString h]

theorem levelAfter_length (h : length ≤ stepLimit) :
    Call.levelAfter 0 (' ' :: (toString length).toList) = some 0 := by
  refine Call.levelAfter_of_isPlain 0
    (List.forall_mem_cons.mpr ⟨by unfold Call.IsPlain; decide, ?_⟩)
  exact fun c hc => isPlain_of_mem_numeral (isNumeral_toString h) hc

/-- A text without a parenthesis has no Euclidean calls. -/
theorem unexpandable_of_no_parenthesis {text : List Char} (h : '(' ∉ text) :
    Call.Unexpandable text := by
  intro x hx call rest hcall
  have hfound : Call.found? Call.euclid? x = some (call, rest.1) := by
    rw [Call.found?, hcall]
    rfl
  obtain ⟨⟨before, after, hwritten⟩, heq⟩ := Call.found?_euclid?_iff.mp hfound
  refine absurd (hx.subset ?_) h
  rw [heq, hwritten.text_eq]
  simp

theorem Spreadable.admitted (h : Spreadable pattern tokens length desk) (compile : Compiler) :
    Admitted (some compile) (pattern.toList ++ ',' :: ' ' :: (toString length).toList) compile
      pattern.toList length := by
  have hsplit := Call.twoArguments?_append (Call.levelAfter_of_isPlain 0 h.plain)
    (levelAfter_length h.length_le)
  exact ⟨rfl, ⟨_, hsplit, integerOfChars?_length h.length_le⟩, by exact_mod_cast h.length_le⟩

/-- **A call becomes the tape of its pattern at its length, read once more.** -/
theorem outcome_call (h : Spreadable pattern tokens length desk) {tape : String}
    (htape : (compileTo context pattern length).outcome desk = (.ok tape, place)) :
    ∃ start, start.source = place.source ∧
      (compile context (spreadCall pattern length)).outcome desk =
        (assemble context tape.toList).outcome start := by
  have hliteral := h.isLiteral
  have hlevel := Call.levelAfter_of_isPlain 0 h.plain
  have hpattern : Call.replaceEuclids pattern.toList = pattern.toList :=
    Call.replaceEuclids_of_unexpandable (unexpandable_of_no_parenthesis hliteral.1)
  have heuclid : 'E' ∉ ' ' :: (toString length).toList :=
    List.not_mem_cons_of_ne_of_not_mem (by decide)
      (not_mem_numeral (isNumeral_toString h.length_le))
  obtain ⟨middle, hsource, hcall⟩ := expandCallsWith_call (innerCompiler context)
    (Call.levelAfter_eq_zero_iff.mp hlevel).1 (hpattern.symm ▸ hlevel)
    (levelAfter_length h.length_le) heuclid desk
  -- without a parenthesis the pattern is compiled at its level as it is by itself
  have hfunction : callTape (compiler context (nestingLimit - 1)) pattern.toList length =
      compileTo context pattern length := by
    rw [callTape, compileTo, compile, compiler_of_no_parenthesis _ _ hliteral.1,
      compiler_of_no_parenthesis _ _ hliteral.1]
  have halike : Alike (compileTo context pattern length) (compileTo context pattern length) :=
    (alike_compile context pattern).bind fun tape => .lift (Call.spreadTape tape length)
  obtain ⟨start, hstart, hplace⟩ := halike.exists_ok hsource htape
  rw [← hfunction] at hstart
  refine ⟨start, hplace, ?_⟩
  have hexpand := expandSpread_of_ok (h.admitted _) hstart
  rw [hpattern] at hcall
  change (expandCallsWith (innerCompiler context) (spreadCall pattern length).toList >>=
    fun text => assemble context text).outcome desk = _
  rw [toList_spreadCall, Play.outcome_bind_ok (hcall.trans hexpand)]

end Pattern
end NoteTape
