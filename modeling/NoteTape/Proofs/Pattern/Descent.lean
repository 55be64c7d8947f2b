import NoteTape.Proofs.Pattern.Expansion

/-!
# Expansion is recursive descent

`Expansion.run` is a loop over a stack of open scopes.  The notation is explained by recursion: a
group is a scope of its own, read by a recursive call, and what the call returns is added to the
scope around it.  `descend` is this recursion.  It returns the elements of one scope and
how the scope ended, at the end of the input or at a closing bracket with the tokens behind it.

The two agree on every token list, balanced or not, as plays: they return the same elements or
fail alike, take the same draws and give the same notices.

## The stack and the recursion

The loop has no return address.  In the middle of a group its stack holds what the recursion
keeps in the calls that have not returned: the elements that each open scope has so far.
`resume` is what the loop still does once the innermost scope has been read, and the
invariant is that the loop, from any stack, reads one scope by recursion and then resumes:
`run_eq_descend`.

## What can fail

No list has `2 ^ 63` items, so a count from there on is refused even where the repeated list is
empty; and no integer of more than `digitLimit` digits can be written.  With counts and bounds
that fit, the expansion returns.
-/

namespace NoteTape
namespace Descent

open Expansion (leaf IsLeaf run run_leaf closeAll replayed warnReplays warnUnread)

/-- How a scope ended, with fewer than `bound` tokens left: at the end of the input, or at a
closing bracket that plays it a number of times. -/
inductive Ending (bound : Nat) where
  | endOfInput
  | closed (count : Int) (rest : List Token) (shorter : rest.length < bound)

/-- The same ending, seen from a longer list of tokens. -/
def Ending.widen {m n : Nat} (h : m ≤ n) : Ending m → Ending n
  | endOfInput => endOfInput
  | closed count rest shorter => closed count rest (Nat.lt_of_lt_of_le shorter h)

/-- How often a scope of `size` elements contributes when it is closed with a count. -/
def copies (size : Nat) (count : Int) : Int :=
  if count ≤ 1 ∨ size * count ≤ tapeLimit then count else max 1 (tapeLimit / size : Nat)

/-- What a closed scope contributes: its elements, copied. -/
def replay (scope : List String) (count : Int) : Play (List String) := do
  warnReplays scope.length count
  let times ← Rhythm.repetitions (copies scope.length count)
  return (List.replicate times scope).flatten

/-- The elements of the scope that the tokens begin in, and how it ends. -/
def descend (context : Context) : (tokens : List Token) →
    Play (List String × Ending tokens.length)
  | [] => return ([], .endOfInput)
  | .groupEnd :: tokens => return ([], .closed 1 tokens (by simp))
  | .groupRepeat count :: tokens => return ([], .closed count tokens (by simp))
  | .groupStart :: tokens => do
      let (inner, ending) ← descend context tokens
      match ending with
      | .endOfInput => return (inner, .endOfInput)
      | .closed count rest _ => do
          let group ← replay inner count
          let (after, ending) ← descend context rest
          return (group ++ after, ending.widen (by simp only [List.length_cons]; omega))
  | token :: tokens => do
      let elements ← leaf context token
      let (after, ending) ← descend context tokens
      return (elements ++ after, ending.widen (by simp))
termination_by tokens => tokens.length
decreasing_by
  · simp
  · simp only [List.length_cons]; omega
  · simp

/-- The elements that tokens expand to, by recursive descent.  A bracket that closes the outermost
scope ends the expansion. -/
def expand (context : Context) (tokens : List Token) : Play (List String) := do
  let (elements, ending) ← descend context tokens
  match ending with
  | .endOfInput => return elements
  | .closed count rest _ => do
      let elements ← replay elements count
      warnUnread rest
      return elements

/-! ## Copies -/

theorem copies_eq_replays (size : Nat) (count : Int) :
    copies size count = Expansion.replays size count := by
  unfold copies Expansion.replays
  generalize (size : Int) * count = total
  by_cases h : count ≤ 1 ∨ total ≤ tapeLimit
  · rw [if_pos h, if_neg (by omega)]
  · rw [if_neg h, if_pos (by omega)]

/-- The loop keeps a scope from its last element to its first, and so are its copies. -/
theorem replayed_reverse (scope : List String) (count : Int) :
    replayed scope.reverse count = List.reverse <$> replay scope count := by
  simp only [replayed, replay, List.length_reverse, copies_eq_replays, map_bind, map_pure]
  refine bind_congr fun _ => bind_congr fun times => ?_
  rw [List.reverse_flatten, List.map_replicate, List.reverse_replicate]

/-- A plain closing bracket adds the scope once. -/
theorem replayed_one (scope : List String) : replayed scope 1 = pure scope := by
  have hone : Expansion.replays scope.length 1 = 1 := if_neg (by omega)
  have hcount : Rhythm.repetitions 1 = .ok 1 := rfl
  rw [replayed, warnReplays, hone, if_pos rfl, pure_bind, hcount,
    Play.liftM_ok, pure_bind, List.replicate_one, List.flatten_singleton]

/-! ## Resuming -/

/-- What the loop does when the innermost of its scopes has been read to the end. -/
def resume (context : Context) (scope : List String) (scopes : List (List String)) {bound : Nat} :
    List String × Ending bound → Play (List String)
  | (elements, .endOfInput) => return (closeAll (elements.reverse ++ scope) scopes).reverse
  | (elements, .closed count rest _) => do
      let scope ← replayed (elements.reverse ++ scope) count
      match scopes with
      | [] =>
          warnUnread rest
          return scope.reverse
      | outer :: scopes => run context rest (scope ++ outer) scopes

/-- Elements that were read before the rest of a scope may as well be on the stack already. -/
theorem resume_append (context : Context) (scope : List String) (scopes : List (List String))
    {m n : Nat} (h : m ≤ n) (head after : List String) (ending : Ending m) :
    resume context scope scopes (head ++ after, ending.widen h) =
      resume context (head.reverse ++ scope) scopes (after, ending) := by
  cases ending with
  | endOfInput => simp only [Ending.widen, resume, List.reverse_append, List.append_assoc]
  | closed count rest shorter =>
    simp only [Ending.widen, resume, List.reverse_append, List.append_assoc]

/-! ## The simulation -/

theorem descend_leaf (context : Context) {token : Token} (h : IsLeaf token)
    (tokens : List Token) :
    descend context (token :: tokens) =
      leaf context token >>= fun elements =>
        descend context tokens >>= fun after =>
          pure (elements ++ after.1, after.2.widen (by simp)) := by
  rw [descend]
  · exact h.2.1
  · exact h.2.2
  · exact h.1

theorem descend_groupStart (context : Context) (tokens : List Token) :
    descend context (.groupStart :: tokens) =
      descend context tokens >>= fun inner =>
        match inner with
        | (inner, .endOfInput) => pure (inner, .endOfInput)
        | (inner, .closed count rest _) =>
          replay inner count >>= fun group =>
            descend context rest >>= fun after =>
              pure (group ++ after.1,
                after.2.widen (by simp only [List.length_cons]; omega)) := by
  rw [descend]
  refine bind_congr fun inner => ?_
  rcases inner with ⟨inner, _ | ⟨count, rest, shorter⟩⟩
  · rfl
  · rfl

/-- **The loop is the recursion with its return address on the stack:** from any stack it reads
the innermost scope as the recursion does, and resumes. -/
theorem run_eq_descend (context : Context) (tokens : List Token) (scope : List String)
    (scopes : List (List String)) :
    run context tokens scope scopes = descend context tokens >>= resume context scope scopes := by
  -- along the recursion, for every stack: a group is read with the scope around it pushed
  induction tokens using descend.induct generalizing scope scopes with
  | case1 => simp [run, descend, resume]
  | case2 tokens =>
    rw [descend, pure_bind, resume, List.reverse_nil, List.nil_append, replayed_one, pure_bind]
    cases scopes with
    | nil => rw [run]
    | cons outer scopes => rw [run]
  | case3 count tokens =>
    rw [descend, pure_bind, resume, List.reverse_nil, List.nil_append]
    cases scopes with
    | nil => rw [run]
    | cons outer scopes => rw [run]
  | case4 tokens ihgroup ihrest =>
    rw [run, ihgroup, descend_groupStart, bind_assoc]
    refine bind_congr fun inner => ?_
    rcases inner with ⟨inner, _ | ⟨count, rest, shorter⟩⟩
    · rw [pure_bind, resume, resume, List.append_nil, closeAll]
    · rw [resume, List.append_nil, replayed_reverse, bind_assoc, map_eq_pure_bind, bind_assoc]
      refine bind_congr fun group => ?_
      rw [pure_bind]
      -- the group is closed, and the loop goes on in the scope around it
      change run context rest (group.reverse ++ scope) scopes = _
      rw [ihrest rest shorter, bind_assoc]
      refine bind_congr fun after => ?_
      rw [pure_bind, resume_append]
  | case5 token tokens hend hrepeat hstart ih =>
    have hleaf : IsLeaf token := ⟨hstart, hend, hrepeat⟩
    rw [run_leaf context hleaf, descend_leaf context hleaf, bind_assoc]
    refine bind_congr fun elements => ?_
    rw [ih, bind_assoc]
    refine bind_congr fun after => ?_
    rw [pure_bind, resume_append]

/-- With no scope around it, the loop resumes by ending the expansion. -/
theorem expand_eq (context : Context) (tokens : List Token) :
    NoteTape.expand context tokens = expand context tokens := by
  rw [NoteTape.expand, run_eq_descend, expand]
  refine bind_congr fun inner => ?_
  rcases inner with ⟨elements, _ | ⟨count, rest, shorter⟩⟩
  · rw [resume, closeAll, List.append_nil, List.reverse_reverse]
  · rw [resume, List.append_nil, replayed_reverse, map_eq_pure_bind, bind_assoc]
    refine bind_congr fun group => ?_
    rw [pure_bind, List.reverse_reverse]

/-- **Expansion is recursive descent,** for every token list and at every desk: the elements or
the fault are the same, and so are the draws that were taken and the notices that were given.
When the tokens fit and the source is one of random numbers, there are elements. -/
theorem expand_outcome (context : Context) (tokens : List Token) (desk : Desk) :
    (NoteTape.expand context tokens).outcome desk = (expand context tokens).outcome desk ∧
      ((∀ token ∈ tokens, token.Fits) → desk.source.Fair →
        ∃ elements after,
          (NoteTape.expand context tokens).outcome desk = (.ok elements, after)) := by
  refine ⟨by rw [expand_eq], fun hfits hfair => ?_⟩
  obtain ⟨elements, after, hok, -, -⟩ :=
    (Expansion.settles_expand_of_fits context hfits).exists_ok desk hfair
  exact ⟨elements, after, hok⟩

/-- A group with a random note, played twice, and a closing bracket without an opening one. -/
theorem expand_outcome_unmatched :
    (∀ token ∈ [.groupStart, .random, .note "5", .groupRepeat 2, .groupEnd, .random],
        Token.Fits token) ∧
      Source.Fair (.script ⟨#[], 0⟩) ∧
      ∃ after,
        (NoteTape.expand .standard
          [.groupStart, .random, .note "5", .groupRepeat 2, .groupEnd, .random]).outcome
            ⟨.script ⟨#[], 0⟩, #[]⟩ = (.ok ["1", "5", "1", "5"], after) := by
  have hfits : ∀ token ∈ [.groupStart, .random, .note "5", .groupRepeat 2, .groupEnd, .random],
      Token.Fits token := by
    simp [Token.Fits, Rhythm.countBound]
  have hfair : Source.Fair (.script ⟨#[], 0⟩) := by simp [Source.Fair]
  obtain ⟨elements, after, hok⟩ :=
    (expand_outcome .standard _ ⟨.script ⟨#[], 0⟩, #[]⟩).2 hfits hfair
  have hvalue : ((NoteTape.expand .standard
      [.groupStart, .random, .note "5", .groupRepeat 2, .groupEnd, .random]).outcome
        ⟨.script ⟨#[], 0⟩, #[]⟩).1 = .ok ["1", "5", "1", "5"] := by
    decide +kernel
  rw [hok] at hvalue
  obtain rfl := Except.ok.inj hvalue
  exact ⟨hfits, hfair, after, hok⟩

/-- An empty group is empty however often it is played, and yet a count of `2 ^ 63` is refused. -/
theorem expand_empty_group_refused :
    copies 0 (2 ^ 63) = 2 ^ 63 ∧ (List.replicate (2 ^ 63) ([] : List String)).flatten = [] ∧
      (NoteTape.expand .standard [.groupStart, .groupRepeat (2 ^ 63)]).outcome
        ⟨.script ⟨#[], 0⟩, #[]⟩ = (.error .countTooLarge, ⟨.script ⟨#[], 0⟩, #[]⟩) := by
  refine ⟨by decide, List.flatten_replicate_nil, rfl⟩

end Descent
end NoteTape
