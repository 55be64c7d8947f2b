import NoteTape.Proofs.Pattern.Between
import NoteTape.Proofs.Pattern.Descent
import NoteTape.Proofs.Pattern.Lexeme
import NoteTape.Proofs.Pattern.Seam
import NoteTape.Proofs.Pattern.Tape

/-!
# One pattern after another

Two patterns may be expanded one after the other with the same source, or written one after the
other, with a space between, and expanded at once.  When the brackets of the first one are
`Balanced` its expansion is over where the second one begins: all its groups are closed, and what is
on the stack are its elements, `run_append_of_closed`.

They are then the bottom of the stack for the second pattern, and whether it can see them is a
matter of its brackets.

* Brackets that find their group do not, nor does a plain closing bracket without a group, which
  ends the expansion: the elements of the two are put together, `run_eq_map`.
* A closing bracket without a group that repeats does.  What it repeats is the scope outside all
  groups, and this is everything so far, the elements of the first pattern among it,
  `run_repeat_outside`.

The draws are the same in both cases.  So the law holds for what is left of the source in general,
and for the elements with this one exception.
-/

namespace NoteTape

open Play (Alike Answers)

namespace Expansion

variable {context : Context} {tokens front inside rest : List Token} {count : Int}

/-! ## Balanced brackets -/

/-- How many groups are open behind some tokens, with `depth` of them open before; none when a
bracket closes a group that is not open. -/
def depthAfter : Nat → List Token → Option Nat
  | depth, [] => some depth
  | depth, .groupStart :: tokens => depthAfter (depth + 1) tokens
  | 0, .groupEnd :: _ => none
  | depth + 1, .groupEnd :: tokens => depthAfter depth tokens
  | 0, .groupRepeat _ :: _ => none
  | depth + 1, .groupRepeat _ :: tokens => depthAfter depth tokens
  | depth, _ :: tokens => depthAfter depth tokens

/-- Every closing bracket has its group, and every group is closed. -/
def Balanced (tokens : List Token) : Prop := depthAfter 0 tokens = some 0

instance : DecidablePred Balanced := fun tokens =>
  inferInstanceAs (Decidable (depthAfter 0 tokens = some 0))

theorem depthAfter_leaf {token : Token} (h : IsLeaf token) (depth : Nat) (tokens : List Token) :
    depthAfter depth (token :: tokens) = depthAfter depth tokens := by
  cases token with
  | groupStart => exact absurd rfl h.1
  | groupEnd => exact absurd rfl h.2.1
  | groupRepeat count => exact absurd rfl (h.2.2 count)
  | rest count => simp [depthAfter]
  | note text => simp [depthAfter]
  | random => simp [depthAfter]
  | randomRange low high => simp [depthAfter]
  | unknown raw => simp [depthAfter]

theorem closesOutside_eq {depth : Nat} {tokens : List Token} :
    closesOutside depth tokens = (depthAfter depth tokens).isNone := by
  induction tokens generalizing depth with
  | nil => rw [closesOutside, depthAfter, Option.isNone_some]
  | cons token tokens ih =>
    cases token using leaf_or_bracket with
    | leaf token hl => rw [closesOutside_leaf hl, depthAfter_leaf hl, ih]
    | groupStart => rw [closesOutside, depthAfter, ih]
    | groupEnd =>
      cases depth with
      | zero => rw [closesOutside, depthAfter, Option.isNone_none]
      | succ depth => rw [closesOutside, depthAfter, ih]
    | groupRepeat count =>
      cases depth with
      | zero => rw [closesOutside, depthAfter, Option.isNone_none]
      | succ depth => rw [closesOutside, depthAfter, ih]

theorem Balanced.closesOutside_eq_false (h : Balanced tokens) : closesOutside 0 tokens = false := by
  rw [closesOutside_eq, h, Option.isNone_some]

/-- In front of the first bracket that closes outside, the open groups are closed. -/
theorem exists_of_closesOutside {depth : Nat} (h : closesOutside depth tokens = true) :
    ∃ inside close rest, tokens = inside ++ close :: rest ∧ depthAfter depth inside = some 0 ∧
      (close = .groupEnd ∨ ∃ count, close = .groupRepeat count) := by
  induction tokens generalizing depth with
  | nil => simp [closesOutside] at h
  | cons token tokens ih =>
    have hnext {next : Nat} (h : closesOutside next tokens = true)
        (hdepth : ∀ tokens, depthAfter depth (token :: tokens) = depthAfter next tokens) :
        ∃ inside close rest, token :: tokens = inside ++ close :: rest ∧
          depthAfter depth inside = some 0 ∧
            (close = .groupEnd ∨ ∃ count, close = .groupRepeat count) := by
      obtain ⟨inside, close, rest, rfl, hinside, hclose⟩ := ih h
      exact ⟨token :: inside, close, rest, rfl, (hdepth inside).trans hinside, hclose⟩
    cases token using leaf_or_bracket with
    | leaf token hl =>
      rw [closesOutside_leaf hl] at h
      exact hnext h fun tokens => depthAfter_leaf hl depth tokens
    | groupStart =>
      rw [closesOutside] at h
      exact hnext h fun tokens => by rw [depthAfter]
    | groupEnd =>
      cases depth with
      | zero => exact ⟨[], _, tokens, rfl, by rw [depthAfter], .inl rfl⟩
      | succ depth =>
        rw [closesOutside] at h
        exact hnext h fun tokens => by rw [depthAfter]
    | groupRepeat count =>
      cases depth with
      | zero => exact ⟨[], _, tokens, rfl, by rw [depthAfter], .inr ⟨count, rfl⟩⟩
      | succ depth =>
        rw [closesOutside] at h
        exact hnext h fun tokens => by rw [depthAfter]

/-! ## Tokens behind balanced ones -/

/-- **Tokens that close all open groups leave their elements to the tokens behind them.** -/
theorem run_append_of_closed {scope : List String} {scopes : List (List String)}
    (h : depthAfter scopes.length front = some 0) (tokens : List Token) :
    run context (front ++ tokens) scope scopes =
      run context front scope scopes >>= fun elements =>
        run context tokens elements.reverse [] := by
  induction front generalizing scope scopes with
  | nil =>
    rw [depthAfter] at h
    obtain rfl := List.length_eq_zero_iff.mp (Option.some.inj h)
    rw [List.nil_append, run, closeAll, pure_bind, List.reverse_reverse]
  | cons token front ih =>
    cases token using leaf_or_bracket with
    | leaf token hl =>
      rw [depthAfter_leaf hl] at h
      rw [List.cons_append, run_leaf context hl, run_leaf context hl, bind_assoc]
      exact bind_congr fun elements => ih h
    | groupStart =>
      rw [depthAfter] at h
      rw [List.cons_append, run, run]
      exact ih h
    | groupEnd =>
      cases scopes with
      | nil => simp [depthAfter] at h
      | cons outer scopes =>
        rw [List.length_cons, depthAfter] at h
        rw [List.cons_append, run, run]
        exact ih h
    | groupRepeat count =>
      cases scopes with
      | nil => simp [depthAfter] at h
      | cons outer scopes =>
        rw [List.length_cons, depthAfter] at h
        rw [List.cons_append, run, run, bind_assoc]
        exact bind_congr fun group => ih h

/-- Elements below the tokens stay below, as long as no bracket closes outside. -/
theorem run_of_closesOutside (h : closesOutside 0 tokens = false) (below : List String) :
    run context tokens below.reverse [] = (below ++ ·) <$> expand context tokens := by
  have hbetween : run context (tokens ++ []) below.reverse [] = _ :=
    run_between (List.forall_mem_nil _) below.reverse [] [] h
  rw [List.append_nil] at hbetween
  refine hbetween.trans ?_
  simp only [List.reverse_reverse, List.flatMap_nil, List.append_nil]
  rfl

theorem run_balanced_append (h : Balanced inside) (tokens : List Token) (below : List String) :
    run context (inside ++ tokens) below.reverse [] =
      expand context inside >>= fun elements =>
        run context tokens (below ++ elements).reverse [] := by
  have hclosed : depthAfter ([] : List (List String)).length inside = some 0 := h
  rw [run_append_of_closed hclosed, run_of_closesOutside h.closesOutside_eq_false,
    map_eq_pure_bind, bind_assoc]
  exact bind_congr fun elements => by rw [pure_bind]

theorem expand_balanced_append (h : Balanced front) (tokens : List Token) :
    expand context (front ++ tokens) =
      expand context front >>= fun elements => run context tokens elements.reverse [] :=
  run_balanced_append h tokens []

/-- A bracket that closes outside repeats everything so far. -/
theorem run_repeat_outside (h : Balanced inside) (count : Int) (rest : List Token)
    (below : List String) :
    run context (inside ++ .groupRepeat count :: rest) below.reverse [] = (do
      let elements ← expand context inside
      let group ← Descent.replay (below ++ elements) count
      warnUnread rest
      return group) := by
  rw [run_balanced_append h]
  refine bind_congr fun elements => ?_
  rw [run, Descent.replayed_reverse, map_eq_pure_bind, bind_assoc]
  refine bind_congr fun group => ?_
  rw [pure_bind, List.reverse_reverse]

theorem run_end_outside (h : Balanced inside) (rest : List Token) (below : List String) :
    run context (inside ++ .groupEnd :: rest) below.reverse [] = (do
      let elements ← expand context inside
      warnUnread rest
      return below ++ elements) := by
  rw [run_balanced_append h]
  refine bind_congr fun elements => ?_
  rw [run, List.reverse_reverse]

/-- To repeat once is to end. -/
theorem replay_one (scope : List String) : Descent.replay scope 1 = pure scope := by
  have hreplayed := Descent.replayed_reverse scope 1
  rw [Descent.replayed_one] at hreplayed
  have hback := congrArg (List.reverse <$> ·) hreplayed
  simpa using hback.symm

/-- No bracket that closes outside repeats, unless it repeats once. -/
def RepeatsNothing (tokens : List Token) : Prop :=
  ∀ inside count rest, tokens = inside ++ .groupRepeat count :: rest → Balanced inside → count = 1

/-- **What is below tokens that repeat nothing outside stays below.** -/
theorem run_eq_map (h : RepeatsNothing tokens) (below : List String) :
    run context tokens below.reverse [] = (below ++ ·) <$> expand context tokens := by
  cases hcloses : closesOutside 0 tokens with
  | false => exact run_of_closesOutside hcloses below
  | true =>
    obtain ⟨inside, close, rest, rfl, hinside, rfl | ⟨count, rfl⟩⟩ :=
      exists_of_closesOutside hcloses
    · have hexpand : expand context (inside ++ .groupEnd :: rest) = _ :=
        run_end_outside hinside rest []
      rw [run_end_outside hinside, hexpand]
      simp
    · obtain rfl := h inside count rest rfl hinside
      have hexpand : expand context (inside ++ .groupRepeat 1 :: rest) = _ :=
        run_repeat_outside hinside 1 rest []
      rw [run_repeat_outside hinside, hexpand]
      simp [replay_one]

/-- The elements that a bracket with a count contributes, as often as it plays them. -/
def copied (elements : List String) (count : Int) : List String :=
  (List.replicate (Descent.copies elements.length count).toNat elements).flatten

/-- Elements are played without a draw. -/
theorem answers_replay (elements : List String) (h₀ : 0 ≤ count) (h : count < Rhythm.countBound) :
    Answers (Descent.replay elements count) (.ok (copied elements count)) := by
  have hlarge := countBound_lt_decimalBound
  have hbound : (tapeLimit : Int) < Rhythm.countBound := by decide
  have hwarn : Answers (warnReplays elements.length count) (.ok ()) := by
    unfold warnReplays
    split
    · exact .pure ()
    · obtain ⟨text, htext⟩ := exists_decimal (n := count) (by
        generalize decimalBound = bound at hlarge ⊢
        omega)
      rw [htext, Play.liftM_ok, pure_bind]
      exact .notify _ _ _
  have hdiv : tapeLimit / elements.length ≤ tapeLimit := Nat.div_le_self _ _
  have hcopies : 0 ≤ Descent.copies elements.length count ∧
      Descent.copies elements.length count < Rhythm.countBound := by
    unfold Descent.copies
    split
    · exact ⟨h₀, h⟩
    · omega
  refine hwarn.bind_ok ?_
  rw [Rhythm.repetitions_of_lt hcopies.1 hcopies.2, Play.liftM_ok, pure_bind]
  exact .pure _

variable {desk place : Desk} {inner : List String}

/-- The elements that a bracket which closes outside leaves. -/
theorem outcome_repeat_outside (hinside : Balanced inside) (h₀ : 0 ≤ count)
    (h : count < Rhythm.countBound)
    (hinner : (expand context inside).outcome desk = (.ok inner, place)) (rest : List Token)
    (below : List String) :
    ∃ after, (run context (inside ++ .groupRepeat count :: rest) below.reverse []).outcome desk =
        (.ok (copied (below ++ inner) count), after) ∧ after.source = place.source := by
  have hunread : Answers (warnUnread rest) (.ok ()) :=
    fun desk => alike_warnUnread rest desk desk rfl
  have hplayed : Answers (do
      let group ← Descent.replay (below ++ inner) count
      warnUnread rest
      return group) (.ok (copied (below ++ inner) count)) :=
    (answers_replay (below ++ inner) h₀ h).bind_ok (hunread.bind_ok (.pure _))
  obtain ⟨hanswer, hsource⟩ := hplayed place
  rw [run_repeat_outside hinside, Play.outcome_bind_ok hinner]
  exact ⟨_, Prod.ext hanswer rfl, hsource⟩

/-- The same elements may be left by tokens with others below them or with none. -/
theorem exists_run_below (hfits : ∀ token ∈ tokens, token.Fits) (below : List String)
    (hfair : desk.source.Fair) :
    ∃ elements result after last, (expand context tokens).outcome desk = (.ok elements, after) ∧
      (run context tokens below.reverse []).outcome desk = (.ok result, last) ∧
      last.source = after.source ∧ (RepeatsNothing tokens → result = below ++ elements) ∧
      ∀ inside count rest, tokens = inside ++ .groupRepeat count :: rest → Balanced inside →
        ∃ inner place, (expand context inside).outcome desk = (.ok inner, place) ∧
          elements = copied inner count ∧ result = copied (below ++ inner) count := by
  -- a bracket that repeats everything, wherever it stands, says what the outcomes are
  have hrepeat (inside : List Token) (count : Int) (rest : List Token)
      (heq : tokens = inside ++ .groupRepeat count :: rest) (hinside : Balanced inside) :
      ∃ inner place after last, (expand context inside).outcome desk = (.ok inner, place) ∧
        (expand context tokens).outcome desk = (.ok (copied inner count), after) ∧
        (run context tokens below.reverse []).outcome desk =
          (.ok (copied (below ++ inner) count), last) ∧ last.source = after.source := by
    subst heq
    obtain ⟨hfits, hlast⟩ := List.forall_mem_append.mp hfits
    obtain ⟨h₀, hcount⟩ : (Token.groupRepeat count).Fits := hlast _ (List.mem_cons_self ..)
    obtain ⟨inner, place, hinner, -, -⟩ :=
      (settles_expand_of_fits context hfits).exists_ok desk hfair
    obtain ⟨after, hafter, hsource⟩ := outcome_repeat_outside hinside h₀ hcount hinner rest []
    obtain ⟨last, hlast, hsource'⟩ := outcome_repeat_outside hinside h₀ hcount hinner rest below
    exact ⟨inner, place, after, last, hinner, hafter, hlast, hsource'.trans hsource.symm⟩
  obtain ⟨elements, after, helements, -, -⟩ :=
    (settles_expand_of_fits context hfits).exists_ok desk hfair
  have hmap (h : RepeatsNothing tokens) :
      (run context tokens below.reverse []).outcome desk = (.ok (below ++ elements), after) := by
    rw [run_eq_map h, map_eq_pure_bind]
    exact Play.outcome_bind_ok helements
  have hresult : ∃ result last, (run context tokens below.reverse []).outcome desk =
      (.ok result, last) ∧ last.source = after.source := by
    by_cases h : RepeatsNothing tokens
    · exact ⟨_, after, hmap h, rfl⟩
    · simp only [RepeatsNothing, not_forall] at h
      obtain ⟨inside, count, rest, heq, hinside, -⟩ := h
      obtain ⟨inner, place, after', last, -, hexpand, hrun, hsource⟩ :=
        hrepeat inside count rest heq hinside
      obtain ⟨-, rfl⟩ := Prod.mk.inj (helements.symm.trans hexpand)
      exact ⟨_, last, hrun, hsource⟩
  obtain ⟨result, last, hrun, hsource⟩ := hresult
  refine ⟨elements, result, after, last, helements, hrun, hsource, fun h => ?_, ?_⟩
  · exact Except.ok.inj (congrArg Prod.fst (hrun.symm.trans (hmap h)))
  · intro inside count rest heq hinside
    obtain ⟨inner, place, _, _, hinner, hexpand, hrun', -⟩ := hrepeat inside count rest heq hinside
    refine ⟨inner, place, hinner, ?_, ?_⟩
    · exact Except.ok.inj (congrArg Prod.fst (helements.symm.trans hexpand))
    · exact Except.ok.inj (congrArg Prod.fst (hrun.symm.trans hrun'))

end Expansion

namespace Pattern

open Expansion (Balanced RepeatsNothing copied)

variable {context : Context} {front back text : String} {tokens tokens' : List Token}

/-- The elements that a pattern expands to, before they are written on a tape. -/
def expansion (context : Context) (pattern : String) : Play (List String) := do
  let text ← prepare context pattern
  let tokens ← Token.ofText text
  expand context tokens

theorem compile_eq_map_expansion (context : Context) (pattern : String) :
    compile context pattern = tapeOf <$> expansion context pattern := by
  change expandCallsWith (innerCompiler context) pattern.toList >>= assemble context = _
  unfold expansion prepare assemble
  simp only [map_eq_pure_bind, bind_assoc, pure_bind]

/-- A text without calls and variables. -/
def IsLiteral (text : String) : Prop := '(' ∉ text.toList ∧ '$' ∉ text.toList

/-- The tokens that a text is read as at a desk, where nothing of it is overlong. -/
def ReadAt (desk : Desk) (text : String) (tokens : List Token) : Prop :=
  ((Token.ofText text).outcome desk).1 = .ok tokens

variable {desk : Desk}

/-- What a text is read as does not depend on the desk. -/
theorem ReadAt.readAll_eq (h : ReadAt desk text tokens) :
    Token.readAll (Text.split text.toList) = .ok tokens := by
  have hread := Token.alike_ofText_readAll text.toList
  rw [String.ofList_toList] at hread
  exact ((hread desk desk rfl).1.symm).trans h

theorem ReadAt.wellRead (h : ReadAt desk text tokens) : ∀ token ∈ tokens, token.WellRead :=
  Token.wellRead_of_readAll h.readAll_eq

theorem ReadAt.fits (h : ReadAt desk text tokens) : ∀ token ∈ tokens, token.Fits :=
  fun token hmem => (h.wellRead token hmem).fits

/-- Without calls and variables only the tokens of a text matter. -/
theorem IsLiteral.alike_expansion (h : IsLiteral text)
    (htokens : Token.readAll (Text.split text.toList) = .ok tokens) :
    Alike (expansion context text) (expand context tokens) := by
  have hread := Token.alike_ofText_readAll text.toList
  unfold expansion prepare
  rw [expandCallsWith_of_no_parenthesis _ h.1, pure_bind, pure_bind,
    Variable.substitute_of_not_mem context h.2]
  refine (hread.bind fun tokens => Expansion.alike_run context tokens [] []).trans ?_
  rw [htokens, Play.liftM_ok, pure_bind]
  exact Expansion.alike_run context tokens [] []

/-- Two texts with a space between are read one after the other. -/
theorem readAll_append_space
    (htokens : Token.readAll (Text.split front.toList) = .ok tokens)
    (htokens' : Token.readAll (Text.split back.toList) = .ok tokens') :
    Token.readAll (Text.split (front ++ " " ++ back).toList) = .ok (tokens ++ tokens') := by
  have hspace : (front ++ " " ++ back).toList = front.toList ++ ' ' :: back.toList := by
    rw [String.toList_append, String.toList_append, List.append_assoc]
    rfl
  rw [hspace, Text.split_append_cons _ (by decide), Token.readAll_append, htokens, htokens']
  rfl

theorem IsLiteral.append_space (hfront : IsLiteral front) (hback : IsLiteral back) :
    IsLiteral (front ++ " " ++ back) := by
  simp only [IsLiteral, String.toList_append, List.mem_append]
  exact ⟨by simp [hfront.1, hback.1], by simp [hfront.2, hback.2]⟩

/-- Behind a balanced pattern the second one begins with the elements of the first on the stack. -/
theorem exists_expansion_append (hfront : IsLiteral front) (hback : IsLiteral back)
    (htokens : Token.readAll (Text.split front.toList) = .ok tokens)
    (htokens' : Token.readAll (Text.split back.toList) = .ok tokens')
    (hbalanced : Balanced tokens) {elements result : List String} {start place last : Desk}
    (helements : (expand context tokens).outcome desk = (.ok elements, start))
    (hsource : place.source = start.source)
    (hrun : (Expansion.run context tokens' elements.reverse []).outcome place =
      (.ok result, last)) :
    ∃ after, (expansion context (front ++ " " ++ back)).outcome desk = (.ok result, after) ∧
      after.source = last.source := by
  obtain ⟨behind, hbehind, hbehindSource⟩ :=
    (Expansion.alike_run context tokens' elements.reverse []).exists_ok hsource.symm hrun
  have hexpand : (expand context (tokens ++ tokens')).outcome desk = (.ok result, behind) := by
    rw [Expansion.expand_balanced_append hbalanced, Play.outcome_bind_ok helements, hbehind]
  obtain ⟨after, hafter, hafterSource⟩ := ((hfront.append_space hback).alike_expansion
    (readAll_append_space htokens htokens')).exists_ok rfl hexpand
  exact ⟨after, hafter, hafterSource.trans hbehindSource⟩

/-- A closing bracket between them ends the expansion in front of the second pattern. -/
theorem exists_expansion_cut (hfront : IsLiteral front) (hback : IsLiteral back)
    (htokens : Token.readAll (Text.split front.toList) = .ok tokens)
    (htokens' : Token.readAll (Text.split back.toList) = .ok tokens')
    (hbalanced : Balanced tokens) {elements : List String} {start : Desk}
    (helements : (expand context tokens).outcome desk = (.ok elements, start)) :
    ∃ cut, (expansion context (front ++ " ] " ++ back)).outcome desk = (.ok elements, cut) ∧
      cut.source = start.source := by
  have hbracket : IsLiteral "]" := ⟨by decide, by decide⟩
  have hread : Token.readAll (Text.split "]".toList) = .ok [.groupEnd] := by decide +kernel
  have htext : front ++ " ] " ++ back = front ++ " " ++ ("]" ++ " " ++ back) := by
    rw [show " ] " = " " ++ ("]" ++ " ") by rfl]
    simp only [String.append_assoc]
  obtain ⟨unread, hunread, hunreadSource⟩ :=
    (Expansion.alike_warnUnread tokens').exists_ok rfl (Play.outcome_pure () start)
  have hend : (Expansion.run context ([.groupEnd] ++ tokens') elements.reverse []).outcome start =
      (.ok elements, unread) := by
    rw [List.singleton_append, Expansion.run, List.reverse_reverse, Play.outcome_bind_ok hunread]
    rfl
  obtain ⟨cut, hcut, hcutSource⟩ := exists_expansion_append hfront
    (hbracket.append_space hback) htokens (readAll_append_space hread htokens') hbalanced
    helements rfl hend
  exact ⟨cut, htext ▸ hcut, hcutSource.trans hunreadSource⟩

/-- **Patterns are composed by a space.**  The first one is balanced and the two contain neither
calls nor variables.  Written one after the other they take the draws that they take one after the
other.  The elements are those of the one and then those of the other, unless the second one repeats
something outside all groups; then it repeats the elements of the first one as well, the two
together as often as they fit on a tape.

A closing bracket between the patterns ends the expansion before the second one, without its
draws. -/
theorem expansion_append (context : Context) (hfront : IsLiteral front) (hback : IsLiteral back)
    (htokens : ReadAt desk front tokens) (htokens' : ReadAt desk back tokens')
    (hbalanced : Balanced tokens) (hfair : desk.source.Fair) :
    ∃ elements elements' result middle after last cut,
      (expansion context front).outcome desk = (.ok elements, middle) ∧
      (expansion context back).outcome middle = (.ok elements', after) ∧
      (expansion context (front ++ " " ++ back)).outcome desk = (.ok result, last) ∧
      last.source = after.source ∧
      (RepeatsNothing tokens' → result = elements ++ elements') ∧
      (∀ inside count rest, tokens' = inside ++ .groupRepeat count :: rest → Balanced inside →
        ∃ inner place, (expand context inside).outcome middle = (.ok inner, place) ∧
          elements' = copied inner count ∧ result = copied (elements ++ inner) count) ∧
      (expansion context (front ++ " ] " ++ back)).outcome desk = (.ok elements, cut) ∧
      cut.source = middle.source := by
  obtain ⟨elements, start, helements, -, hstart⟩ :=
    (Expansion.settles_expand_of_fits context htokens.fits).exists_ok desk hfair
  obtain ⟨middle, hmiddle, hsource⟩ :=
    (hfront.alike_expansion htokens.readAll_eq).exists_ok rfl helements
  obtain ⟨elements', result, after, last, helements', hrun, hlast, hlaw, hrepeat⟩ :=
    Expansion.exists_run_below htokens'.fits elements (hsource ▸ hstart)
  obtain ⟨after', hafter, hafterSource⟩ :=
    (hback.alike_expansion htokens'.readAll_eq).exists_ok rfl helements'
  obtain ⟨last', hlast', hlastSource⟩ := exists_expansion_append hfront hback
    htokens.readAll_eq htokens'.readAll_eq hbalanced helements hsource hrun
  obtain ⟨cut, hcut, hcutSource⟩ := exists_expansion_cut hfront hback htokens.readAll_eq
    htokens'.readAll_eq hbalanced helements
  exact ⟨elements, elements', result, middle, after', last', cut, hmiddle, hafter, hlast',
    hlastSource.trans (hlast.trans hafterSource.symm), hlaw, hrepeat, hcut,
    hcutSource.trans hsource.symm⟩

/-- A group with a random note, played twice, and a pattern that ends at a bracket of its own. -/
theorem expansion_append_group :
    let desk : Desk := ⟨.script ⟨#[.zero, .zero], 0⟩, #[]⟩
    IsLiteral "[ ? 5 ]*2" ∧ IsLiteral "1 ] ?" ∧
      Balanced [.groupStart, .random, .note "5", .groupRepeat 2] ∧ desk.source.Fair ∧
      ∃ last, (expansion .standard ("[ ? 5 ]*2" ++ " " ++ "1 ] ?")).outcome desk =
        (.ok ["1", "5", "1", "5", "1"], last) := by
  intro desk
  have hfront : IsLiteral "[ ? 5 ]*2" := ⟨by decide, by decide⟩
  have hback : IsLiteral "1 ] ?" := ⟨by decide, by decide⟩
  have hbalanced : Balanced [.groupStart, .random, .note "5", .groupRepeat 2] := by decide
  have hfair : desk.source.Fair := by simp [desk, Source.Fair, Binary64.isFraction_zero]
  have hread : ReadAt desk "[ ? 5 ]*2" [.groupStart, .random, .note "5", .groupRepeat 2] := by
    unfold ReadAt
    decide +kernel
  have hread' : ReadAt desk "1 ] ?" [.note "1", .groupEnd, .random] := by
    unfold ReadAt
    decide +kernel
  have hrepeats : RepeatsNothing [.note "1", .groupEnd, .random] := by
    intro inside count rest heq
    have hmem : Token.groupRepeat count ∈ [.note "1", .groupEnd, .random] :=
      heq ▸ List.mem_append_right inside (List.mem_cons_self ..)
    simp at hmem
  obtain ⟨elements, elements', result, middle, after, last, cut, helements, helements', hresult, -,
    hlaw, -, -, -⟩ := expansion_append .standard hfront hback hread hread' hbalanced hfair
  have hfirst : (expansion .standard "[ ? 5 ]*2").outcome desk =
      (.ok ["1", "5", "1", "5"], ⟨.script ⟨#[.zero, .zero], 1⟩, #[]⟩) := by
    decide +kernel
  obtain ⟨heq, rfl⟩ := Prod.mk.inj (helements.symm.trans hfirst)
  have hsecond : ((expansion .standard "1 ] ?").outcome ⟨.script ⟨#[.zero, .zero], 1⟩, #[]⟩).1 =
      .ok ["1"] := by
    decide +kernel
  rw [helements'] at hsecond
  rw [hlaw hrepeats, Except.ok.inj heq, Except.ok.inj hsecond] at hresult
  exact ⟨hfront, hback, hbalanced, hfair, last, hresult⟩

/-- A bracket without a group repeats the elements of the pattern before it as well. -/
theorem expansion_repeat_outside :
    let desk : Desk := ⟨.script ⟨#[], 0⟩, #[]⟩
    IsLiteral "5" ∧ IsLiteral "1 ]*2" ∧ ReadAt desk "5" [.note "5"] ∧
      ReadAt desk "1 ]*2" [.note "1", .groupRepeat 2] ∧ Balanced [.note "5"] ∧
      (expansion .standard "5").outcome desk = (.ok ["5"], desk) ∧
      (expansion .standard "1 ]*2").outcome desk = (.ok ["1", "1"], desk) ∧
      (expansion .standard ("5" ++ " " ++ "1 ]*2")).outcome desk =
        (.ok ["5", "1", "5", "1"], desk) ∧
      ["5", "1", "5", "1"] ≠ ["5"] ++ ["1", "1"] := by
  intro desk
  have hread : ReadAt desk "5" [.note "5"] ∧ ReadAt desk "1 ]*2" [.note "1", .groupRepeat 2] := by
    unfold ReadAt
    decide +kernel
  refine ⟨⟨by decide, by decide⟩, ⟨by decide, by decide⟩, hread.1, hread.2, by decide, ?_⟩
  decide +kernel

end Pattern
end NoteTape
