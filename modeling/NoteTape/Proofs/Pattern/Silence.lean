import NoteTape.Proofs.Pattern.Growth

/-!
# Tokens that come to nothing

Whether an expansion has any elements does not depend on what is drawn.  It can be told from the
tokens, by a run that keeps for every open scope only whether there is an element in it, `sounds`.
A replay of no times makes a scope silent, and a replay of some times, however it is cut back,
leaves it as it is; so tokens come to nothing when all their elements are in groups that are played
no times.
-/

namespace NoteTape

open Play (Settles)

/-- A token has elements of its own. -/
def Token.hasElements : Token → Bool
  | rest count => count != 0
  | note _ | random | randomRange _ _ => true
  | _ => false

namespace Expansion

/-- An expansion has elements.  The innermost open scope and the ones around it are given by
whether there are elements in them. -/
def sounds : Bool → List Bool → List Token → Bool
  | here, around, [] => here || around.any id
  | here, around, .groupStart :: tokens => sounds false (here :: around) tokens
  | here, outer :: around, .groupEnd :: tokens => sounds (here || outer) around tokens
  | here, [], .groupEnd :: _ => here
  | here, outer :: around, .groupRepeat count :: tokens =>
      sounds ((here && count != 0) || outer) around tokens
  | here, [], .groupRepeat count :: _ => here && count != 0
  | here, around, token :: tokens => sounds (here || token.hasElements) around tokens

theorem sounds_leaf {token : Token} (h : IsLeaf token) (here : Bool) (around : List Bool)
    (tokens : List Token) :
    sounds here around (token :: tokens) = sounds (here || token.hasElements) around tokens := by
  cases token with
  | groupStart => exact absurd rfl h.1
  | groupEnd => exact absurd rfl h.2.1
  | groupRepeat count => exact absurd rfl (h.2.2 count)
  | rest count => simp [sounds]
  | note text => simp [sounds]
  | random => simp [sounds]
  | randomRange low high => simp [sounds]
  | unknown raw => simp [sounds]

/-- There is something in a scope. -/
def filled (scope : List String) : Bool := !scope.isEmpty

@[simp] theorem filled_nil : filled [] = false := rfl

@[simp] theorem filled_append (front back : List String) :
    filled (front ++ back) = (filled front || filled back) := by
  cases front with
  | nil => rfl
  | cons e front => rfl

@[simp] theorem filled_reverse (scope : List String) : filled scope.reverse = filled scope := by
  simp [filled]

theorem filled_flatten (stack : List (List String)) :
    filled stack.flatten = (stack.map filled).any id := by
  induction stack with
  | nil => rfl
  | cons scope stack ih => rw [List.flatten_cons, filled_append, ih, List.map_cons, List.any_cons]; rfl

/-- A replay leaves elements when it is asked for and there are some. -/
theorem filled_replayed (scope : List String) {count : Int} (h : 0 ≤ count) :
    Settles (fun _ => True) (replayed scope count)
      (fun group => filled group = (filled scope && count != 0)) fun _ => True := by
  refine (Settles.any _).bind fun _ _ => ?_
  unfold Rhythm.repetitions
  split
  · refine .pure ?_
    have hreplays : (replays scope.length count).toNat = 0 ↔ count = 0 := by
      unfold replays
      split <;> omega
    cases hscope : scope with
    | nil => simp [filled]
    | cons e elements =>
      rw [← hscope]
      have hfilled : filled scope = true := by rw [hscope]; rfl
      have hmany (times : Nat) : filled (List.replicate times scope).flatten = (times != 0) := by
        cases times with
        | zero => rfl
        | succ times => simp [List.replicate_succ, hfilled]
      rw [hmany, hfilled, Bool.true_and, Bool.eq_iff_iff, bne_iff_ne, bne_iff_ne, ne_eq, ne_eq,
        hreplays]
  · exact .lift trivial

theorem filled_leaf (context : Context) {token : Token} (h : token.WellRead) :
    Settles (fun _ => True) (leaf context token)
      (fun elements => filled elements = token.hasElements) fun _ => True := by
  cases token with
  | rest count =>
    rw [leaf, Rhythm.repetitions_of_lt h.fits.1 h.fits.2, Play.liftM_ok, pure_bind]
    refine .pure ?_
    have hcount : count.toNat = 0 ↔ count = 0 := by
      have hle := h.1
      omega
    rw [Token.hasElements, Bool.eq_iff_iff, bne_iff_ne, ne_eq, ← hcount]
    cases count.toNat with
    | zero => simp
    | succ n => simp [filled, List.replicate_succ]
  | note text => exact .pure rfl
  | random => exact (Settles.any _).bind fun _ _ => .pure rfl
  | randomRange low high =>
    exact (Settles.any _).bind fun _ _ => (Settles.any _).bind fun _ _ => .pure rfl
  | groupStart => exact .pure rfl
  | groupEnd => exact .pure rfl
  | groupRepeat count => exact .pure rfl
  | unknown raw => exact .pure rfl

/-- **Whether an expansion has elements** can be told from its tokens. -/
theorem filled_run (context : Context) {tokens : List Token}
    (h : ∀ token ∈ tokens, token.WellRead) (scope : List String) (scopes : List (List String)) :
    Settles (fun _ => True) (run context tokens scope scopes)
      (fun elements => filled elements = sounds (filled scope) (scopes.map filled) tokens)
      fun _ => True := by
  induction tokens generalizing scope scopes with
  | nil =>
    rw [run, closeAll_eq_flatten]
    refine .pure ?_
    rw [filled_reverse, filled_flatten, sounds]
    rfl
  | cons token tokens ih =>
    obtain ⟨htoken, htokens⟩ := List.forall_mem_cons.mp h
    cases token using leaf_or_bracket with
    | leaf token hl =>
      rw [run_leaf context hl, sounds_leaf hl]
      refine (filled_leaf context htoken).bind fun elements helements => ?_
      have hnext := ih htokens (elements.reverse ++ scope) scopes
      rwa [filled_append, filled_reverse, helements, Bool.or_comm] at hnext
    | groupStart =>
      rw [run]
      exact ih htokens [] (scope :: scopes)
    | groupEnd =>
      cases scopes with
      | nil =>
        rw [run]
        refine (Settles.any _).bind fun _ _ => .pure ?_
        rw [filled_reverse, List.map_nil, sounds]
      | cons outer scopes =>
        rw [run]
        have hnext := ih htokens (scope ++ outer) scopes
        rwa [filled_append] at hnext
    | groupRepeat count =>
      cases scopes with
      | nil =>
        rw [run]
        refine (filled_replayed scope htoken.1).bind fun group hgroup => ?_
        refine (Settles.any _).bind fun _ _ => .pure ?_
        rw [filled_reverse, hgroup, List.map_nil, sounds]
      | cons outer scopes =>
        rw [run]
        refine (filled_replayed scope htoken.1).bind fun group hgroup => ?_
        have hnext := ih htokens (group ++ outer) scopes
        rwa [filled_append, hgroup] at hnext

/-- The same of a whole expansion, which begins with an empty scope. -/
theorem eq_nil_iff_of_expand {context : Context} {tokens : List Token}
    (h : ∀ token ∈ tokens, token.WellRead) {desk after : Desk} {elements : List String}
    (hexpand : (expand context tokens).outcome desk = (.ok elements, after)) :
    elements = [] ↔ sounds false [] tokens = false := by
  have hfilled : filled elements = sounds false [] tokens :=
    (filled_run context h [] []).of_ok hexpand
  rw [← hfilled, filled, Bool.not_eq_false', List.isEmpty_iff]

end Expansion
end NoteTape
