import NoteTape.Proofs.Pattern.Expansion

/-!
# An expansion, token by token

`Expansion.run` reads all of its tokens.  Here it is taken apart into steps: `step` reads one
token, and `advance` a number of them.  In between, an expansion either has its open scopes and
goes on, or it has met a closing bracket without an opening one and is done; this is its
`Progress`.  So one can stop behind any token, look at the stack, and go on from there, which is
`run_append`.

The tokens that are still unread take no part in a step.  They are mentioned because the notice
at an unmatched bracket says how many they are.
-/

namespace NoteTape
namespace Expansion

/-- How far an expansion has got: it has its open scopes, the innermost and the ones around it,
or it has ended at an unmatched bracket with its elements. -/
inductive Progress where
  | reading (scope : List String) (scopes : List (List String))
  | ended (elements : List String)

/-- Nothing is read, and one scope is open. -/
def Progress.start : Progress := .reading [] []

/-- How many elements the open scopes have together. -/
def Progress.size : Progress → Nat
  | reading scope scopes => (scope :: scopes).flatten.length
  | ended elements => elements.length

theorem closeAll_eq_flatten (scope : List String) (scopes : List (List String)) :
    closeAll scope scopes = (scope :: scopes).flatten := by
  induction scopes generalizing scope with
  | nil => simp [closeAll]
  | cons outer scopes ih => simp [closeAll, ih]

/-! ## Steps -/

/-- Close the innermost scope, which comes to the elements of `group`. -/
def close (unread : List Token) (group : List String) : List (List String) → Play Progress
  | [] => do
      warnUnread unread
      return .ended group.reverse
  | outer :: scopes => return .reading (group ++ outer) scopes

/-- Read one token. -/
def step (context : Context) (token : Token) (unread : List Token) (scope : List String)
    (scopes : List (List String)) : Play Progress :=
  match token with
  | .groupStart => return .reading [] (scope :: scopes)
  | .groupEnd => close unread scope scopes
  | .groupRepeat count => do
      let group ← replayed scope count
      close unread group scopes
  | token => do
      let elements ← leaf context token
      return .reading (elements.reverse ++ scope) scopes

/-- Read some tokens, unless the expansion has ended. -/
def advance (context : Context) : List Token → List Token → Progress → Play Progress
  | [], _, progress => pure progress
  | _ :: _, _, .ended elements => pure (.ended elements)
  | token :: read, unread, .reading scope scopes => do
      let progress ← step context token (read ++ unread) scope scopes
      advance context read unread progress

/-- Read the rest. -/
def finish (context : Context) (unread : List Token) : Progress → Play (List String)
  | .reading scope scopes => run context unread scope scopes
  | .ended elements => pure elements

theorem step_leaf (context : Context) {token : Token} (h : IsLeaf token) (unread : List Token)
    (scope : List String) (scopes : List (List String)) :
    step context token unread scope scopes =
      leaf context token >>= fun elements =>
        pure (.reading (elements.reverse ++ scope) scopes) := by
  cases token with
  | groupStart => exact absurd rfl h.1
  | groupEnd => exact absurd rfl h.2.1
  | groupRepeat count => exact absurd rfl (h.2.2 count)
  | rest count => rfl
  | note text => rfl
  | random => rfl
  | randomRange low high => rfl
  | unknown raw => rfl

theorem advance_ended (context : Context) (read unread : List Token) (elements : List String) :
    advance context read unread (.ended elements) = pure (.ended elements) := by
  cases read with
  | nil => rfl
  | cons token read => rfl

/-! ## A run is its steps -/

theorem run_cons (context : Context) (token : Token) (tokens : List Token) (scope : List String)
    (scopes : List (List String)) :
    run context (token :: tokens) scope scopes =
      step context token tokens scope scopes >>= finish context tokens := by
  cases token using leaf_or_bracket with
  | leaf token hl =>
    rw [run_leaf context hl, step_leaf context hl, bind_assoc]
    simp only [pure_bind, finish]
  | groupStart => simp [run, step, finish]
  | groupEnd => cases scopes <;> simp [run, step, close, finish]
  | groupRepeat count => cases scopes <;> simp [run, step, close, finish]

/-- **A run may be stopped behind any token and taken up again.** -/
theorem run_append (context : Context) (read unread : List Token) (scope : List String)
    (scopes : List (List String)) :
    run context (read ++ unread) scope scopes =
      advance context read unread (.reading scope scopes) >>= finish context unread := by
  induction read generalizing scope scopes with
  | nil => simp [advance, finish]
  | cons token read ih =>
    rw [List.cons_append, run_cons, advance, bind_assoc]
    refine bind_congr fun progress => ?_
    cases progress with
    | reading scope scopes => exact ih scope scopes
    | ended elements => rw [advance_ended, pure_bind, finish, finish]

/-- The same of a whole expansion. -/
theorem expand_append (context : Context) (read unread : List Token) :
    expand context (read ++ unread) =
      advance context read unread .start >>= finish context unread :=
  run_append context read unread [] []

end Expansion
end NoteTape
