import NoteTape.Pattern.Expansion
import NoteTape.Proofs.Chance.Source
import NoteTape.Proofs.Number.Numeral
import NoteTape.Proofs.Play
import NoteTape.Proofs.Rhythm.Bjorklund

/-!
# What an expansion settles on

A token that is not a bracket adds its elements to the innermost scope, `leaf`; a bracket only
moves elements that are there.  So whatever holds of the elements of all leaves holds of every
element on the stack throughout a run, which is the invariant `Sound`, and the run fails only
where a leaf or a replay fails: `settles_run`.

A token *fits* when its numbers are in order and below `countBound` in size.  An expansion of
tokens that fit returns, whatever their brackets are.
-/

namespace NoteTape

open Rhythm (countBound repetitions repetitions_of_lt)
open Play (Settles)

/-- The numbers of a token are in order and of a size that can be counted to. -/
def Token.Fits : Token → Prop
  | rest count => 0 ≤ count ∧ count < countBound
  | groupRepeat count => 0 ≤ count ∧ count < countBound
  | randomRange low high => low ≤ high ∧ -countBound ≤ low ∧ high < countBound
  | _ => True

namespace Expansion

/-! ## Leaves -/

/-- The elements of a token that is not a bracket.  A random marker is one draw. -/
def leaf (context : Context) : Token → Play (List String)
  | .rest count => do
      let n ← repetitions count
      return List.replicate n ""
  | .note text => return [text]
  | .random => do
      let text ← context.draw
      return [text]
  | .randomRange low high => do
      let n ← Play.integer low high
      let text ← decimal n
      return [text]
  | _ => return []

/-- A token that is not a bracket. -/
def IsLeaf (token : Token) : Prop :=
  token ≠ .groupStart ∧ token ≠ .groupEnd ∧ ∀ count, token ≠ .groupRepeat count

theorem run_leaf (context : Context) {token : Token} (h : IsLeaf token) (tokens : List Token)
    (scope : List String) (scopes : List (List String)) :
    run context (token :: tokens) scope scopes =
      leaf context token >>= fun elements =>
        run context tokens (elements.reverse ++ scope) scopes := by
  cases token with
  | rest count => simp [run, leaf]
  | note text => simp [run, leaf]
  | groupStart => exact absurd rfl h.1
  | groupEnd => exact absurd rfl h.2.1
  | groupRepeat count => exact absurd rfl (h.2.2 count)
  | random => simp [run, leaf]
  | randomRange low high => simp [run, leaf]
  | unknown raw => simp [run, leaf]

/-- A token is a leaf or one of the three brackets. -/
@[elab_as_elim] theorem leaf_or_bracket {motive : Token → Prop}
    (leaf : ∀ token, IsLeaf token → motive token) (groupStart : motive .groupStart)
    (groupEnd : motive .groupEnd) (groupRepeat : ∀ count, motive (.groupRepeat count))
    (token : Token) : motive token := by
  cases token with
  | groupStart => exact groupStart
  | groupEnd => exact groupEnd
  | groupRepeat count => exact groupRepeat count
  | rest count => exact leaf _ (by simp [IsLeaf])
  | note text => exact leaf _ (by simp [IsLeaf])
  | random => exact leaf _ (by simp [IsLeaf])
  | randomRange low high => exact leaf _ (by simp [IsLeaf])
  | unknown raw => exact leaf _ (by simp [IsLeaf])

/-! ## The stack -/

variable {steady : Source → Prop} {element : String → Prop} {bad : Fault → Prop}

/-- The invariant of a run: every element on the stack is in order. -/
def Sound (element : String → Prop) (stack : List (List String)) : Prop :=
  ∀ scope ∈ stack, ∀ e ∈ scope, element e

theorem Sound.add {elements scope : List String} {scopes : List (List String)}
    (h : Sound element (scope :: scopes)) (helements : ∀ e ∈ elements, element e) :
    Sound element ((elements ++ scope) :: scopes) := by
  obtain ⟨hscope, hscopes⟩ := List.forall_mem_cons.mp h
  exact List.forall_mem_cons.mpr ⟨List.forall_mem_append.mpr ⟨helements, hscope⟩, hscopes⟩

theorem Sound.push {stack : List (List String)} (h : Sound element stack) :
    Sound element ([] :: stack) := by
  refine List.forall_mem_cons.mpr ⟨?_, h⟩
  intro e he
  exact absurd he List.not_mem_nil

/-- Closing a scope moves some of its elements into the one around it. -/
theorem Sound.pop {closed scope outer : List String} {scopes : List (List String)}
    (h : Sound element (scope :: outer :: scopes)) (hclosed : ∀ e ∈ closed, e ∈ scope) :
    Sound element ((closed ++ outer) :: scopes) := by
  obtain ⟨hscope, hrest⟩ := List.forall_mem_cons.mp h
  exact Sound.add hrest fun e he => hscope e (hclosed e he)

theorem Sound.closeAll {scope : List String} {scopes : List (List String)}
    (h : Sound element (scope :: scopes)) :
    ∀ e ∈ Expansion.closeAll scope scopes, element e := by
  induction scopes generalizing scope with
  | nil => exact (List.forall_mem_cons.mp h).1
  | cons outer scopes ih =>
    rw [Expansion.closeAll]
    exact ih (h.pop fun e he => he)

/-! ## A run -/

/-- A replay adds no elements of its own. -/
theorem settles_replayed (scope : List String) (count : Int)
    (hwarn : Settles steady (warnReplays scope.length count) (fun _ => True) bad)
    (hcount : Play.Verdict (fun _ => True) bad (repetitions (replays scope.length count))) :
    Settles steady (replayed scope count) (fun result => ∀ e ∈ result, e ∈ scope) bad := by
  refine hwarn.bind fun _ _ => (Settles.lift hcount).bind fun times _ => .pure ?_
  intro e he
  obtain ⟨copy, hcopy, hmem⟩ := List.mem_flatten.mp he
  rwa [List.eq_of_mem_replicate hcopy] at hmem

/-- A bracket without an opening one ends the expansion with the elements of its scope. -/
theorem settles_unmatched (tokens : List Token) {closed : List String}
    (h : ∀ e ∈ closed, element e) :
    Settles steady (do warnUnread tokens; return closed.reverse)
      (fun elements => ∀ e ∈ elements, element e) bad := by
  have hwarn : Settles steady (warnUnread tokens) (fun _ => True) bad := by
    unfold warnUnread
    split
    · exact .pure trivial
    · exact .notify
  refine hwarn.bind fun _ _ => .pure ?_
  intro e he
  exact h e (List.mem_reverse.mp he)

/-- **What holds of the elements of the leaves holds throughout a run,** and only leaves and
replays fail. -/
theorem settles_run (context : Context) (tokens : List Token)
    (hleaf : ∀ token ∈ tokens, IsLeaf token →
      Settles steady (leaf context token) (fun elements => ∀ e ∈ elements, element e) bad)
    (hreplay : ∀ count, Token.groupRepeat count ∈ tokens → ∀ scope,
      Settles steady (replayed scope count) (fun result => ∀ e ∈ result, e ∈ scope) bad)
    {scope : List String} {scopes : List (List String)} (h : Sound element (scope :: scopes)) :
    Settles steady (run context tokens scope scopes)
      (fun elements => ∀ e ∈ elements, element e) bad := by
  induction tokens generalizing scope scopes with
  | nil =>
    rw [run]
    refine .pure fun e he => ?_
    exact h.closeAll e (List.mem_reverse.mp he)
  | cons token tokens ih =>
    have hnext {scope : List String} {scopes : List (List String)}
        (h : Sound element (scope :: scopes)) :
        Settles steady (run context tokens scope scopes)
          (fun elements => ∀ e ∈ elements, element e) bad :=
      ih (fun other hother => hleaf other (List.mem_cons_of_mem _ hother))
        (fun count hcount => hreplay count (List.mem_cons_of_mem _ hcount)) h
    have hscope : ∀ e ∈ scope, element e := (List.forall_mem_cons.mp h).1
    cases token using leaf_or_bracket with
    | leaf token hl =>
      rw [run_leaf context hl]
      refine (hleaf token (List.mem_cons_self ..) hl).bind fun elements helements => ?_
      refine hnext (h.add ?_)
      intro e he
      exact helements e (List.mem_reverse.mp he)
    | groupStart =>
      rw [run]
      exact hnext h.push
    | groupEnd =>
      cases scopes with
      | nil =>
        rw [run]
        exact settles_unmatched tokens hscope
      | cons outer scopes =>
        rw [run]
        exact hnext (h.pop fun e he => he)
    | groupRepeat count =>
      have hgroup := hreplay count (List.mem_cons_self ..) scope
      cases scopes with
      | nil =>
        rw [run]
        exact hgroup.bind fun group hmem =>
          settles_unmatched tokens fun e he => hscope e (hmem e he)
      | cons outer scopes =>
        rw [run]
        exact hgroup.bind fun group hmem => hnext (h.pop hmem)

/-- The same of a whole expansion, which begins with an empty scope. -/
theorem settles_expand (context : Context) {tokens : List Token}
    (hleaf : ∀ token ∈ tokens, IsLeaf token →
      Settles steady (leaf context token) (fun elements => ∀ e ∈ elements, element e) bad)
    (hreplay : ∀ count, Token.groupRepeat count ∈ tokens → ∀ scope,
      Settles steady (replayed scope count) (fun result => ∀ e ∈ result, e ∈ scope) bad) :
    Settles steady (expand context tokens) (fun elements => ∀ e ∈ elements, element e) bad := by
  have hempty : Sound element [] := by
    intro scope hscope
    exact absurd hscope List.not_mem_nil
  exact settles_run context tokens hleaf hreplay hempty.push

/-! ## Tokens that fit -/

theorem countBound_lt_decimalBound : countBound < decimalBound := by
  have hlt := two_pow_lt_decimalBound
  have hbound : countBound = 2 ^ 63 := rfl
  generalize decimalBound = bound at hlt ⊢
  omega

theorem settles_replayed_of_fits (scope : List String) {count : Int} (h₀ : 0 ≤ count)
    (h : count < countBound) :
    Settles steady (replayed scope count) (fun result => ∀ e ∈ result, e ∈ scope) bad := by
  have hlarge := countBound_lt_decimalBound
  have hbound : (tapeLimit : Int) < countBound := by decide
  refine settles_replayed scope count ?_ ?_
  · unfold warnReplays
    split
    · exact .pure trivial
    · obtain ⟨text, htext⟩ := exists_decimal (n := count) (by
        generalize decimalBound = bound at hlarge ⊢
        omega)
      rw [htext, Play.liftM_ok, pure_bind]
      exact .notify
  · have hdiv : tapeLimit / scope.length ≤ tapeLimit := Nat.div_le_self _ _
    have hreplays : 0 ≤ replays scope.length count ∧ replays scope.length count < countBound := by
      unfold replays
      split <;> omega
    rw [repetitions_of_lt hreplays.1 hreplays.2]
    trivial

theorem settles_leaf_of_fits (context : Context) {token : Token} (h : token.Fits) :
    Settles Source.Fair (leaf context token) (fun _ => True) bad := by
  have hbound : countBound = 2 ^ 63 := rfl
  cases token with
  | rest count =>
    rw [leaf, repetitions_of_lt h.1 h.2, Play.liftM_ok, pure_bind]
    exact .pure trivial
  | note text => exact .pure trivial
  | groupStart => exact .pure trivial
  | groupEnd => exact .pure trivial
  | groupRepeat count => exact .pure trivial
  | random =>
    exact .bind (Play.settles_pick context.notes context.notes_ne_nil fun n s hs => hs.index n)
      fun _ _ => .pure trivial
  | randomRange low high =>
    obtain ⟨hle, hlow, hhigh⟩ := h
    have hdraw : Settles Source.Fair (Play.integer low high)
        (fun n => ∃ text, decimal n = .ok text) bad := by
      refine Play.settles_integer fun s hs => ?_
      obtain ⟨n, hn, hsize⟩ := hs.exists_integer hle (by omega)
      exact ⟨hs.integer low high, n, hn, exists_decimal (lt_decimalBound (by omega))⟩
    refine hdraw.bind fun n ⟨text, htext⟩ => ?_
    rw [htext, Play.liftM_ok, pure_bind]
    exact .pure trivial
  | unknown raw => exact .pure trivial

/-- **An expansion of tokens that fit returns.** -/
theorem settles_expand_of_fits (context : Context) {tokens : List Token}
    (h : ∀ token ∈ tokens, token.Fits) :
    Settles Source.Fair (expand context tokens) (fun _ => True) fun _ => False := by
  have hleaf : ∀ token ∈ tokens, IsLeaf token → Settles Source.Fair (leaf context token)
      (fun elements => ∀ e ∈ elements, True) fun _ => False :=
    fun token hmem _ => (settles_leaf_of_fits context (h token hmem)).mono
      (fun _ _ _ _ => trivial) fun _ hfault => hfault
  have hreplay : ∀ count, Token.groupRepeat count ∈ tokens → ∀ scope, Settles Source.Fair
      (replayed scope count) (fun result => ∀ e ∈ result, e ∈ scope) fun _ => False :=
    fun count hmem scope => settles_replayed_of_fits scope (h _ hmem).1 (h _ hmem).2
  exact (settles_expand context hleaf hreplay).mono
    (fun _ _ => trivial) fun _ hfault => hfault

end Expansion
end NoteTape
