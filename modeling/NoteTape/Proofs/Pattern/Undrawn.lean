import NoteTape.Proofs.Pattern.Grammar
import NoteTape.Proofs.Pattern.Lexeme
import NoteTape.Proofs.Pattern.Spread

/-!
# Patterns without question marks

Both random markers are written with a question mark, so a pattern without one asks for no draw.
This is more than that its lexemes are none of the two.  Lexemes are cut from what is left when the
calls are expanded and the variables substituted, and a pattern inside a call is compiled by
itself.  But no stage writes a question mark of its own: a rhythm is written with `1` and `-`, a
call becomes a tape or stays, and a variable stands for a part of the pattern or for a text of the
context.

So such a pattern has one tape, whatever the desk and whatever the pool, and the source is left as
it was: `yields_compile`.  Nothing in it can be overlong, since an overlong lexeme is a random
range.

The induction is on the levels of spread calls, with the compiler one level below as a play that
yields a tape.
-/

namespace NoteTape

open Play (Alike Answers Fixed Settles Yields)

/-! ## Tokens -/

namespace Token

/-- A token that takes a draw. -/
def IsDraw : Token → Prop
  | random | randomRange _ _ => True
  | _ => False

/-- The lexemes of random markers have a question mark. -/
theorem Writes.not_isDraw {lexeme : List Char} {token : Token} (h : Writes lexeme token)
    (hdraw : '?' ∉ lexeme) : ¬ token.IsDraw := by
  cases h with
  | random => simp at hdraw
  | range => simp at hdraw
  | widest => simp at hdraw
  | rest => exact id
  | rests => exact id
  | groupStart => exact id
  | groupEnd => exact id
  | groupRepeat => exact id
  | note => exact id

/-- A lexeme without a question mark is read, and asks for no draw. -/
theorem exists_read_of_undrawn {lexeme : List Char} (h : '?' ∉ lexeme) :
    ∃ reading, read lexeme = .ok reading ∧ reading.token.WellRead ∧ ¬ reading.token.IsDraw := by
  have hverdict := verdict_read lexeme
  cases hread : read lexeme with
  | error fault =>
    rw [hread] at hverdict
    obtain ⟨⟨low, high, rfl, -⟩, -⟩ := hverdict
    simp at h
  | ok reading =>
    rw [hread] at hverdict
    refine ⟨reading, rfl, hverdict.1, ?_⟩
    rcases writes_or_unknown_of_read hread with hwrites | hunknown
    · exact hwrites.not_isDraw h
    · rw [hunknown]
      exact id

/-- The tokens of a text without question marks. -/
theorem yields_ofText {text : String} (h : '?' ∉ text.toList) :
    Yields (ofText text) fun tokens => ∀ token ∈ tokens, token.WellRead ∧ ¬ token.IsDraw := by
  have hlexeme : ∀ lexeme ∈ Text.words text,
      Yields (ofLexeme lexeme) fun token => token.WellRead ∧ ¬ token.IsDraw := by
    intro lexeme hlexeme
    obtain ⟨reading, hread, hgood⟩ :=
      exists_read_of_undrawn fun hmem => h (Text.mem_of_mem_words hlexeme hmem)
    exact ⟨reading.token, answers_ofLexeme hread, hgood⟩
  exact (Yields.mapM hlexeme).mono fun tokens htokens =>
    Play.forall_of_forall₂ htokens fun _ _ _ hgood => hgood

end Token

/-! ## Expansions -/

namespace Expansion

variable {context : Context}

theorem fixed_leaf {token : Token} (h : ¬ token.IsDraw) : Fixed (leaf context token) := by
  cases token with
  | rest count => exact (Fixed.lift _).bind fun n => .pure (List.replicate n "")
  | random => exact absurd trivial h
  | randomRange low high => exact absurd trivial h
  | note text => exact .pure [text]
  | groupStart => exact .pure []
  | groupEnd => exact .pure []
  | groupRepeat count => exact .pure []
  | unknown raw => exact .pure []

theorem fixed_warnReplays (size : Nat) (count : Int) : Fixed (warnReplays size count) := by
  unfold warnReplays
  split
  · exact .pure ()
  · exact (Fixed.lift (decimal count)).bind fun text => .notify _ _ _

theorem fixed_replayed (scope : List String) (count : Int) : Fixed (replayed scope count) :=
  (fixed_warnReplays _ _).bind fun _ => (Fixed.lift _).bind fun times =>
    .pure (List.replicate times scope).flatten

theorem fixed_unmatched (tokens : List Token) (closed : List String) :
    Fixed (do warnUnread tokens; return closed.reverse) := by
  refine Fixed.bind ?_ fun _ => .pure _
  unfold warnUnread
  split
  · exact .pure ()
  · exact .notify _ _ _

/-- **A run without draws looks at nothing.** -/
theorem fixed_run {tokens : List Token} (h : ∀ token ∈ tokens, ¬ token.IsDraw)
    (scope : List String) (scopes : List (List String)) :
    Fixed (run context tokens scope scopes) := by
  induction tokens generalizing scope scopes with
  | nil =>
    rw [run]
    exact .pure _
  | cons token tokens ih =>
    obtain ⟨htoken, htokens⟩ := List.forall_mem_cons.mp h
    cases token using leaf_or_bracket with
    | leaf token hl =>
      rw [run_leaf context hl]
      exact (fixed_leaf htoken).bind fun elements => ih htokens _ _
    | groupStart =>
      rw [run]
      exact ih htokens _ _
    | groupEnd =>
      cases scopes with
      | nil =>
        rw [run]
        exact fixed_unmatched _ _
      | cons outer scopes =>
        rw [run]
        exact ih htokens _ _
    | groupRepeat count =>
      cases scopes with
      | nil =>
        rw [run]
        exact (fixed_replayed _ _).bind fun group => fixed_unmatched _ _
      | cons outer scopes =>
        rw [run]
        exact (fixed_replayed _ _).bind fun group => ih htokens _ _

/-- A leaf without a draw is a plain token. -/
theorem IsLeaf.isPlain {token : Token} (hl : IsLeaf token) (h : ¬ token.IsDraw) :
    token.IsPlain := by
  cases token with
  | rest count => trivial
  | note text => trivial
  | unknown raw => trivial
  | groupStart => exact absurd rfl hl.1
  | groupEnd => exact absurd rfl hl.2.1
  | groupRepeat count => exact absurd rfl (hl.2.2 count)
  | random => exact absurd trivial h
  | randomRange low high => exact absurd trivial h

/-- **An expansion without draws has one result,** whatever the pool. -/
theorem yields_expand {tokens : List Token}
    (h : ∀ token ∈ tokens, token.WellRead ∧ ¬ token.IsDraw) :
    Yields (expand context tokens) fun elements => ∀ e ∈ elements, IsPlayed e := by
  have hleaf : ∀ token ∈ tokens, IsLeaf token → Settles (fun _ => True) (leaf context token)
      (fun elements => ∀ e ∈ elements, IsPlayed e) fun _ => False := by
    intro token hmem hl
    obtain ⟨hread, hdraw⟩ := h token hmem
    rw [leaf_of_isPlain (hl.isPlain hdraw) hread.fits]
    exact .pure (Token.isPlayed_plainElements hread)
  have hreplay : ∀ count, Token.groupRepeat count ∈ tokens → ∀ scope, Settles (fun _ => True)
      (replayed scope count) (fun result => ∀ e ∈ result, e ∈ scope) fun _ => False := by
    intro count hmem scope
    have hfits : (Token.groupRepeat count).Fits := (h _ hmem).1.fits
    exact settles_replayed_of_fits scope hfits.1 hfits.2
  have hfixed : Fixed (expand context tokens) :=
    fixed_run (fun token hmem => (h token hmem).2) [] []
  exact hfixed.yields (settles_expand context hleaf hreplay) ⟨.script ⟨#[], 0⟩, #[]⟩ trivial

end Expansion

/-! ## Variables -/

namespace Variable

/-- A binding binds a part of the text, and leaves a part of it. -/
theorem mem_of_binding? {cs : List Char} {binding : Binding}
    {rest : { rest : List Char // rest.length ≤ cs.length }}
    (h : binding? cs = some (binding, rest)) :
    (∀ c ∈ binding.2.toList, c ∈ cs) ∧ ∀ c ∈ rest.1, c ∈ cs := by
  unfold binding? at h
  simp only at h
  split at h
  · simp at h
  · split at h
    · simp at h
    · next body hlength hbody =>
      have hmem : ∀ c ∈ body, c ∈ cs := by
        intro c hc
        unfold afterEquals? at hbody
        split at hbody
        · next rest heq =>
          obtain rfl := congrArg Subtype.val (Option.some.inj hbody)
          have hblank : c ∈ (afterName cs).dropWhile Text.isBlank := by
            rw [heq]
            exact List.mem_cons_of_mem _ hc
          exact (List.dropWhile_sublist _).subset ((List.dropWhile_sublist _).subset hblank)
        · simp at hbody
      obtain ⟨rfl, rfl⟩ := Prod.mk.inj (Option.some.inj h)
      constructor
      · intro c hc
        rw [String.toList_ofList] at hc
        exact hmem c ((List.takeWhile_sublist _).subset (Text.mem_of_mem_trimEnds hc))
      · exact fun c hc => hmem c ((List.dropWhile_sublist _).subset hc)

variable {good : Char → Prop}

/-- What holds of the characters of a text holds of those of its bindings and of what is left
without them. -/
theorem forall_mem_stripFrom {kept cs : List Char} {bound : List Binding}
    (hkept : ∀ c ∈ kept, good c) (hbound : ∀ b ∈ bound, ∀ c ∈ b.2.toList, good c)
    (hcs : ∀ c ∈ cs, good c) :
    (∀ c ∈ (stripFrom kept bound cs).1, good c) ∧
      ∀ b ∈ (stripFrom kept bound cs).2, ∀ c ∈ b.2.toList, good c := by
  fun_induction stripFrom kept bound cs with
  | case1 kept bound => exact ⟨fun c hc => hkept c (List.mem_reverse.mp hc), hbound⟩
  | case2 kept bound cs binding rest hlength hbinding ih =>
    obtain ⟨-, htail⟩ := List.forall_mem_cons.mp hcs
    obtain ⟨hvalue, hrest⟩ := mem_of_binding? hbinding
    exact ih hkept (List.forall_mem_cons.mpr ⟨fun c hc => htail c (hvalue c hc), hbound⟩)
      fun c hc => htail c (hrest c hc)
  | case3 kept bound cs hbinding ih =>
    obtain ⟨hhead, htail⟩ := List.forall_mem_cons.mp hcs
    exact ih (List.forall_mem_cons.mpr ⟨hhead, hkept⟩) hbound htail
  | case4 kept bound c cs hc ih =>
    obtain ⟨hhead, htail⟩ := List.forall_mem_cons.mp hcs
    exact ih (List.forall_mem_cons.mpr ⟨hhead, hkept⟩) hbound htail

theorem forall_mem_resolveFrom {done cs : List Char} {bound : List Binding}
    (hbound : ∀ b ∈ bound, ∀ c ∈ b.2.toList, good c) (hdone : ∀ c ∈ done, good c)
    (hcs : ∀ c ∈ cs, good c) : ∀ c ∈ resolveFrom bound done cs, good c := by
  fun_induction resolveFrom bound done cs with
  | case1 done => exact fun c hc => hdone c (List.mem_reverse.mp hc)
  | case2 done c cs hreference value ih =>
    obtain ⟨-, htail⟩ := List.forall_mem_cons.mp hcs
    have hvalue : ∀ c ∈ value.toList, good c := by
      intro c hc
      cases hlookup : bound.lookup (String.ofList (nameOf cs)) with
      | none => simp [value, hlookup] at hc
      | some text =>
        obtain ⟨before, after, rfl, -⟩ := List.lookup_eq_some_iff.mp hlookup
        refine hbound (String.ofList (nameOf cs), text) (by simp) c ?_
        simpa [value, hlookup] using hc
    refine ih (List.forall_mem_append.mpr ⟨?_, hdone⟩) ?_
    · exact fun c hc => hvalue c (List.mem_reverse.mp hc)
    · exact fun c hc => htail c ((List.dropWhile_sublist _).subset hc)
  | case3 done c cs hplain ih =>
    obtain ⟨hhead, htail⟩ := List.forall_mem_cons.mp hcs
    exact ih (List.forall_mem_cons.mpr ⟨hhead, hdone⟩) htail

/-- **Substitution writes no character of its own.** -/
theorem forall_mem_substitute {context : Context} {text : List Char}
    (hbindings : ∀ b ∈ context.bindings, ∀ c ∈ b.2.toList, good c) (htext : ∀ c ∈ text, good c) :
    ∀ c ∈ substitute context text, good c := by
  have hnone : ∀ b ∈ ([] : List Binding), ∀ c ∈ b.2.toList, good c :=
    fun _ hb => absurd hb List.not_mem_nil
  obtain ⟨hstripped, hbound⟩ :=
    forall_mem_stripFrom (fun _ hc => absurd hc List.not_mem_nil) hnone htext
  exact forall_mem_resolveFrom (List.forall_mem_append.mpr ⟨hbound, hbindings⟩)
    (fun _ hc => absurd hc List.not_mem_nil) hstripped

end Variable

/-! ## Calls -/

namespace Call

/-- A piece of a text is written with characters of the text. -/
theorem mem_of_mem_pieceText {β : Type} {call? : (cs : List Char) → Option (β × Shorter cs)}
    {text : β → List Char} (h : Faithful call? text) {cs : List Char} {part : Char ⊕ β}
    (hpart : part ∈ pieces call? cs) {c : Char} (hc : c ∈ pieceText text part) : c ∈ cs := by
  rw [← flatMap_piece h cs]
  exact List.mem_flatMap.mpr ⟨part, hpart, hc⟩

/-- A rhythm is written without question marks. -/
theorem not_mem_replaceEuclids {text : List Char} (h : '?' ∉ text) : '?' ∉ replaceEuclids text := by
  intro hmem
  obtain ⟨part, hpart, hc⟩ := List.mem_flatMap.mp hmem
  have hold : '?' ∉ pieceText Euclid.text part :=
    fun hc => h (mem_of_mem_pieceText faithful_euclid? hpart hc)
  cases part with
  | inl c => exact hold hc
  | inr call =>
    rw [pieceText_inr, Euclid.replacement] at hc
    cases hrhythm : call.rhythm? with
    | none =>
      rw [hrhythm] at hc
      exact hold hc
    | some rhythm =>
      rw [hrhythm] at hc
      have hwritten := mem_rhythm? hrhythm hc
      simp at hwritten

/-- What the calls of a text become is put in their places. -/
theorem yields_replaceCalls {β : Type} {expand : β → Play (List Char)} {parts : List (Char ⊕ β)}
    (hchar : .inl '?' ∉ parts)
    (hcall : ∀ call, .inr call ∈ parts → Yields (expand call) fun text => '?' ∉ text) :
    Yields (replaceCalls expand parts) fun text => '?' ∉ text := by
  unfold replaceCalls
  refine Yields.bind (Yields.mapM fun part hpart => ?_)
    fun texts (htexts : List.Forall₂ (fun _ text => '?' ∉ text) parts texts) => .pure ?_
  · cases part with
    | inl c =>
      refine .pure fun hmem => hchar ?_
      rwa [List.mem_singleton.mp hmem]
    | inr call => exact hcall call hpart
  · intro hmem
    obtain ⟨text, htext, hc⟩ := List.mem_flatten.mp hmem
    exact Play.forall_of_forall₂ htexts (fun _ _ _ hgood => hgood) text htext hc

end Call

/-- The values of a context are written without question marks. -/
def Context.IsUndrawn (context : Context) : Prop := ∀ b ∈ context.bindings, '?' ∉ b.2.toList

namespace Pattern

open Call (spreadText)

variable {context : Context} {inner : Option Compiler}

/-- A compiler that makes one tape of a pattern without question marks. -/
def Certain (compile : Compiler) : Prop := ∀ text, '?' ∉ text → Yields (compile text) IsTape

theorem yields_leave {call : List Char} (h : '?' ∉ call) (reason : String) :
    Yields (Call.leave call reason) fun text => '?' ∉ text :=
  .of_alike (Call.alike_leave call reason) h

/-- A call without question marks becomes a tape or stays as it is. -/
theorem yields_expandSpread (h : ∀ compile ∈ inner, Certain compile) {arguments : List Char}
    (harguments : '?' ∉ spreadText arguments) :
    Yields (expandSpread inner arguments) fun text => '?' ∉ text := by
  by_cases hadmitted : ∃ compile pattern length, Admitted inner arguments compile pattern length
  · obtain ⟨compile, pattern, length, hadmitted⟩ := hadmitted
    obtain ⟨lengthText, htwo, -⟩ := hadmitted.cut
    have hpattern : '?' ∉ pattern := by
      intro hmem
      refine harguments (List.mem_append_left _ (List.mem_append_right _ ?_))
      exact (Call.prefix_of_twoArguments? htwo).subset hmem
    obtain ⟨tape, hanswers, htape⟩ := h compile hadmitted.inner_eq pattern hpattern
    have hcall : Answers (callTape compile pattern length) (Call.spreadTape tape length) :=
      hanswers.bind_ok (.lift _)
    have hrecover : Yields (recover (spreadText arguments) (Call.spreadTape tape length))
        fun text => '?' ∉ text := by
      have hverdict := verdict_spreadTape tape hadmitted.length_le
      cases hspread : Call.spreadTape tape length with
      | ok longer =>
        exact .pure ((isTape_spreadTape htape hspread).not_mem (by decide) (by decide))
      | error fault =>
        rw [hspread] at hverdict
        obtain rfl : fault = .spreadLength length := hverdict
        exact yields_leave harguments _
    obtain ⟨text, htext, hdraw⟩ := hrecover
    rw [expandSpread_of_admitted hadmitted]
    exact ⟨text, hcall.attempt.bind_ok htext, hdraw⟩
  · refine ⟨spreadText arguments, fun desk => ?_, harguments⟩
    obtain ⟨after, hleft, hsource⟩ := expandSpread_of_not_admitted (fun compile pattern length h =>
      hadmitted ⟨compile, pattern, length, h⟩) desk
    rw [hleft]
    exact ⟨rfl, hsource⟩

/-- **Calls without question marks are expanded without a draw.** -/
theorem yields_expandCallsWith (h : ∀ compile ∈ inner, Certain compile) {text : List Char}
    (htext : '?' ∉ text) : Yields (expandCallsWith inner text) fun text => '?' ∉ text := by
  have heuclid : Yields (Call.expandEuclids text) fun text => '?' ∉ text :=
    .of_alike (Call.alike_expandEuclids text) (Call.not_mem_replaceEuclids htext)
  refine heuclid.bind fun text htext => Call.yields_replaceCalls ?_ fun call hcall => ?_
  · intro hc
    exact htext (Call.mem_of_mem_pieceText Call.faithful_spread? hc (List.mem_singleton_self _))
  · have hold : '?' ∉ call.text :=
      fun hmem => htext (Call.mem_of_mem_pieceText Call.faithful_spread? hcall hmem)
    cases call with
    | closed arguments => exact yields_expandSpread h hold
    | unclosed rest => exact .of_alike (Alike.notify_bind (.pure rest)) hold

/-! ## Patterns -/

/-- Substitution writes no question mark. -/
theorem not_mem_substitute (hcontext : context.IsUndrawn) {text : List Char} (h : '?' ∉ text) :
    '?' ∉ (String.ofList (substitute context text)).toList := by
  have hplain : ∀ c ∈ substitute context text, c ≠ '?' :=
    Variable.forall_mem_substitute (fun b hb c hc heq => hcontext b hb (heq ▸ hc))
      fun c hc heq => h (heq ▸ hc)
  rw [String.toList_ofList]
  exact fun hmem => hplain '?' hmem rfl

/-- The last two stages take no draw. -/
theorem yields_assemble (hcontext : context.IsUndrawn) {text : List Char} (h : '?' ∉ text) :
    Yields (assemble context text) IsTape :=
  (Token.yields_ofText (not_mem_substitute hcontext h)).bind fun _ htokens =>
    (Expansion.yields_expand htokens).bind fun _ helements => .pure (isTape_tapeOf helements)

theorem certain_compiler (hcontext : context.IsUndrawn) (levels : Nat) :
    Certain (compiler context levels) := by
  induction levels with
  | zero =>
    intro text h
    exact (yields_expandCallsWith (by simp) h).bind fun text htext => yields_assemble hcontext htext
  | succ levels ih =>
    intro text h
    refine (yields_expandCallsWith ?_ h).bind fun text htext => yields_assemble hcontext htext
    rintro compile ⟨⟩
    exact ih

/-- With its calls expanded and its variables substituted a pattern is one text. -/
theorem yields_prepare (hcontext : context.IsUndrawn) {pattern : String}
    (h : '?' ∉ pattern.toList) :
    Yields (prepare context pattern) fun text => '?' ∉ text.toList := by
  refine (yields_expandCallsWith ?_ h).bind fun text htext =>
    .pure (not_mem_substitute hcontext htext)
  rintro compile ⟨⟩
  exact certain_compiler hcontext (nestingLimit - 1)

/-- **A pattern without question marks has one tape,** and takes no draw. -/
theorem yields_compile (hcontext : context.IsUndrawn) {pattern : String}
    (h : '?' ∉ pattern.toList) : Yields (compile context pattern) IsTape :=
  certain_compiler hcontext nestingLimit pattern.toList h

theorem isUndrawn_standard : Context.standard.IsUndrawn :=
  fun _ hb => absurd hb List.not_mem_nil

end Pattern
end NoteTape
