import NoteTape.Proofs.Pattern.Failure
import NoteTape.Proofs.Pattern.Nesting
import NoteTape.Proofs.Pattern.Progress

/-!
# Tokens between plain tokens

A rest, a note or an unknown lexeme is *plain*: it adds elements of its own to the innermost scope
and has nothing to do with the scopes around it.  So tokens that stand between plain tokens add
the elements in the middle that they add by themselves, `run_between`, with an exception: a
bracket that closes outside, where no group is open within the tokens, ends the expansion, and
nothing behind it is read, `alike_run_of_closesOutside`.

The induction is on the tokens with the whole stack generalised.  What stood before is the bottom of
the stack, `onTopOf`; it is out of the reach of the tokens because a bracket that would get there
is one that closes outside.
-/

namespace NoteTape

open Play (Alike)

/-! ## Tokens, read without a notice -/

namespace Token

/-- The tokens of some lexemes. -/
def readAll (lexemes : List (List Char)) : Except Fault (List Token) :=
  lexemes.mapM fun lexeme => Reading.token <$> read lexeme

theorem alike_ofLexeme_read (lexeme : String) :
    Alike (ofLexeme lexeme) (liftM (Reading.token <$> read lexeme.toList)) := by
  unfold ofLexeme
  cases read lexeme.toList with
  | error fault => exact .lift (.error fault)
  | ok reading =>
    change Alike (_ : Play Token) (pure reading.token)
    rw [Play.liftM_ok, pure_bind]
    split
    · exact .pure _
    · exact .notify_bind (f := fun _ => pure reading.token) (.pure _)

/-- **Reading draws nothing.** -/
theorem alike_ofText_readAll (text : List Char) :
    Alike (ofText (String.ofList text)) (liftM (readAll (Text.split text))) := by
  unfold ofText Text.words readAll
  rw [String.toList_ofList]
  induction Text.split text with
  | nil => exact .pure []
  | cons lexeme lexemes ih =>
    rw [List.map_cons, List.mapM_cons, List.mapM_cons, Play.liftM_bind]
    have hlexeme := alike_ofLexeme_read (String.ofList lexeme)
    rw [String.toList_ofList] at hlexeme
    refine hlexeme.bind fun token => ?_
    rw [Play.liftM_bind]
    exact ih.bind fun tokens => .pure (token :: tokens)

theorem readAll_append (front back : List (List Char)) :
    readAll (front ++ back) = (do
      let tokens ← readAll front
      let tokens' ← readAll back
      return tokens ++ tokens') := by
  simp [readAll, List.mapM_append]

/-- A rest, a note or an unknown lexeme: a token that needs no draw and is no bracket. -/
def IsPlain : Token → Prop
  | rest _ | note _ | unknown _ => True
  | _ => False

/-- The elements of a plain token. -/
def plainElements : Token → List String
  | rest count => List.replicate count.toNat ""
  | note text => [text]
  | _ => []

end Token

/-! ## Expansions with plain tokens around them -/

namespace Expansion

variable {context : Context}

theorem IsLeaf.of_isPlain {token : Token} (h : token.IsPlain) : IsLeaf token := by
  cases token with
  | rest count => simp [IsLeaf]
  | note text => simp [IsLeaf]
  | unknown raw => simp [IsLeaf]
  | groupStart => exact h.elim
  | groupEnd => exact h.elim
  | groupRepeat count => exact h.elim
  | random => exact h.elim
  | randomRange low high => exact h.elim

theorem leaf_of_isPlain {token : Token} (h : token.IsPlain) (hfits : token.Fits) :
    leaf context token = pure token.plainElements := by
  cases token with
  | rest count =>
    rw [leaf, Rhythm.repetitions_of_lt hfits.1 hfits.2, Play.liftM_ok, pure_bind]
    rfl
  | note text => rfl
  | unknown raw => rfl
  | groupStart => exact h.elim
  | groupEnd => exact h.elim
  | groupRepeat count => exact h.elim
  | random => exact h.elim
  | randomRange low high => exact h.elim

/-- Plain tokens that fit. -/
def Plain (tokens : List Token) : Prop := ∀ token ∈ tokens, token.IsPlain ∧ token.Fits

theorem run_plain_append {front : List Token} (h : Plain front) (back : List Token)
    (scope : List String) (scopes : List (List String)) :
    run context (front ++ back) scope scopes =
      run context back ((front.flatMap Token.plainElements).reverse ++ scope) scopes := by
  induction front generalizing scope with
  | nil => rfl
  | cons token front ih =>
    obtain ⟨⟨hplain, hfits⟩, hfront⟩ := List.forall_mem_cons.mp h
    rw [List.cons_append, run_leaf context (.of_isPlain hplain), leaf_of_isPlain hplain hfits,
      pure_bind, ih hfront, List.flatMap_cons, List.reverse_append, List.append_assoc]

theorem run_plain {tokens : List Token} (h : Plain tokens) (scope : List String)
    (scopes : List (List String)) :
    run context tokens scope scopes =
      pure ((scope :: scopes).flatten.reverse ++ tokens.flatMap Token.plainElements) := by
  have hrun : run context (tokens ++ []) scope scopes = _ := run_plain_append h [] scope scopes
  rw [List.append_nil] at hrun
  rw [hrun, run, closeAll_eq_flatten]
  simp

/-! ## Brackets that close outside -/

/-- With `depth` groups open, some bracket of the tokens closes a group that is not. -/
def closesOutside : Nat → List Token → Bool
  | _, [] => false
  | depth, .groupStart :: tokens => closesOutside (depth + 1) tokens
  | 0, .groupEnd :: _ => true
  | depth + 1, .groupEnd :: tokens => closesOutside depth tokens
  | 0, .groupRepeat _ :: _ => true
  | depth + 1, .groupRepeat _ :: tokens => closesOutside depth tokens
  | depth, _ :: tokens => closesOutside depth tokens

theorem closesOutside_leaf {token : Token} (h : IsLeaf token) (depth : Nat) (tokens : List Token) :
    closesOutside depth (token :: tokens) = closesOutside depth tokens := by
  cases token with
  | groupStart => exact absurd rfl h.1
  | groupEnd => exact absurd rfl h.2.1
  | groupRepeat count => exact absurd rfl (h.2.2 count)
  | rest count => simp [closesOutside]
  | note text => simp [closesOutside]
  | random => simp [closesOutside]
  | randomRange low high => simp [closesOutside]
  | unknown raw => simp [closesOutside]

/-- Plain tokens close nothing. -/
theorem closesOutside_plain {tokens : List Token} (h : Plain tokens) (depth : Nat) :
    closesOutside depth tokens = false := by
  induction tokens with
  | nil => rw [closesOutside]
  | cons token tokens ih =>
    obtain ⟨⟨hplain, -⟩, htokens⟩ := List.forall_mem_cons.mp h
    rw [closesOutside_leaf (.of_isPlain hplain), ih htokens]

/-- The stack with some elements below all others. -/
def onTopOf (bottom : List String) : List String → List (List String) →
    List String × List (List String)
  | scope, [] => (scope ++ bottom, [])
  | scope, outer :: scopes =>
      (scope, (onTopOf bottom outer scopes).1 :: (onTopOf bottom outer scopes).2)

theorem onTopOf_append (bottom elements scope : List String) (scopes : List (List String)) :
    onTopOf bottom (elements ++ scope) scopes =
      (elements ++ (onTopOf bottom scope scopes).1, (onTopOf bottom scope scopes).2) := by
  cases scopes with
  | nil => rw [onTopOf, onTopOf, List.append_assoc]
  | cons outer scopes => rfl

theorem flatten_onTopOf (bottom scope : List String) (scopes : List (List String)) :
    ((onTopOf bottom scope scopes).1 :: (onTopOf bottom scope scopes).2).flatten =
      (scope :: scopes).flatten ++ bottom := by
  induction scopes generalizing scope with
  | nil => simp [onTopOf]
  | cons outer scopes ih =>
    rw [onTopOf, List.flatten_cons, ih outer]
    simp

/-- **What stands around tokens stays around their elements,** the tokens before and the plain
tokens behind, as long as no bracket closes outside. -/
theorem run_between {back : List Token} (hback : Plain back) (bottom : List String)
    {tokens : List Token} (scope : List String) (scopes : List (List String))
    (h : closesOutside scopes.length tokens = false) :
    run context (tokens ++ back) (onTopOf bottom scope scopes).1 (onTopOf bottom scope scopes).2 =
      (fun elements => bottom.reverse ++ elements ++ back.flatMap Token.plainElements) <$>
        run context tokens scope scopes := by
  induction tokens generalizing scope scopes with
  | nil =>
    rw [List.nil_append, run_plain hback, flatten_onTopOf, run, closeAll_eq_flatten, map_pure]
    simp
  | cons token tokens ih =>
    cases token using leaf_or_bracket with
    | leaf token hl =>
      rw [closesOutside_leaf hl] at h
      rw [List.cons_append, run_leaf context hl, run_leaf context hl, map_bind]
      refine bind_congr fun elements => ?_
      have hnext := ih (elements.reverse ++ scope) scopes h
      rwa [onTopOf_append] at hnext
    | groupStart =>
      rw [closesOutside] at h
      rw [List.cons_append, run, run]
      exact ih [] (scope :: scopes) h
    | groupEnd =>
      cases scopes with
      | nil => simp [closesOutside] at h
      | cons outer scopes =>
        rw [List.length_cons, closesOutside] at h
        rw [List.cons_append, onTopOf, run, run]
        have hnext := ih (scope ++ outer) scopes h
        rwa [onTopOf_append] at hnext
    | groupRepeat count =>
      cases scopes with
      | nil => simp [closesOutside] at h
      | cons outer scopes =>
        rw [List.length_cons, closesOutside] at h
        rw [List.cons_append, onTopOf, run, run, map_bind]
        refine bind_congr fun group => ?_
        have hnext := ih (group ++ outer) scopes h
        rwa [onTopOf_append] at hnext

/-- **Behind a bracket that closes outside nothing is read.** -/
theorem alike_run_of_closesOutside (back : List Token) {tokens : List Token} (scope : List String)
    (scopes : List (List String)) (h : closesOutside scopes.length tokens = true) :
    Alike (run context (tokens ++ back) scope scopes) (run context tokens scope scopes) := by
  induction tokens generalizing scope scopes with
  | nil => simp [closesOutside] at h
  | cons token tokens ih =>
    have hend (closed : List String) : Alike (do warnUnread (tokens ++ back); return closed.reverse)
        (do warnUnread tokens; return closed.reverse) :=
      (alike_warnUnread (tokens ++ back)).trans (alike_warnUnread tokens).symm |>.bind
        fun _ => .pure _
    cases token using leaf_or_bracket with
    | leaf token hl =>
      rw [closesOutside_leaf hl] at h
      rw [List.cons_append, run_leaf context hl, run_leaf context hl]
      exact (alike_leaf context token).bind fun elements => ih _ scopes h
    | groupStart =>
      rw [closesOutside] at h
      rw [List.cons_append, run, run]
      exact ih [] (scope :: scopes) h
    | groupEnd =>
      cases scopes with
      | nil =>
        rw [List.cons_append, run, run]
        exact hend scope
      | cons outer scopes =>
        rw [List.length_cons, closesOutside] at h
        rw [List.cons_append, run, run]
        exact ih _ scopes h
    | groupRepeat count =>
      cases scopes with
      | nil =>
        rw [List.cons_append, run, run]
        exact (alike_replayed scope count).bind hend
      | cons outer scopes =>
        rw [List.length_cons, closesOutside] at h
        rw [List.cons_append, run, run]
        exact (alike_replayed scope count).bind fun group => ih _ scopes h

/-- The elements of a whole expansion between plain tokens. -/
theorem expand_between {front tokens back : List Token} (hfront : Plain front) (hback : Plain back)
    (h : closesOutside 0 tokens = false) :
    expand context (front ++ (tokens ++ back)) =
      (fun elements => front.flatMap Token.plainElements ++ elements ++
        back.flatMap Token.plainElements) <$> expand context tokens := by
  rw [expand, run_plain_append hfront, List.append_nil, expand]
  refine (run_between hback (front.flatMap Token.plainElements).reverse [] [] h).trans ?_
  rw [List.reverse_reverse]

theorem expand_plain {tokens : List Token} (h : Plain tokens) :
    expand context tokens = pure (tokens.flatMap Token.plainElements) := by
  rw [expand, run_plain h]
  rfl

end Expansion
end NoteTape
