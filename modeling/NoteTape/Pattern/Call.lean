import NoteTape.Pattern.Token
import NoteTape.Rhythm.Euclid
import NoteTape.Rhythm.Resample

/-!
# Calls

Two kinds of call may stand anywhere in a pattern: `E(k,n)`, a Euclidean rhythm, and
`spread(pattern, length)`, a pattern at another length.  A call that cannot be expanded is left
as it stands, with a warning.

This module finds the calls of a text and reads their arguments.  `pieces` is the common search:
it cuts a text into single characters and whole calls, from left to right, so that whatever the
calls expand to, the text between them stays in place.

A Euclidean call is a regular form.  A spread call extends to the parenthesis that closes its
first one; one that is never closed ends the search, and the text from it on stays.
-/

namespace NoteTape
namespace Call

/-- A suffix of a text that is shorter than the text. -/
abbrev Shorter (cs : List Char) := { rest : List Char // rest.length < cs.length }

/-- Cut a text into characters and calls.  `found` are the pieces before, the latest first. -/
def piecesFrom {β : Type} (call? : (cs : List Char) → Option (β × Shorter cs))
    (found : List (Char ⊕ β)) (cs : List Char) : List (Char ⊕ β) :=
  match cs with
  | [] => found.reverse
  | c :: tail =>
      match call? (c :: tail) with
      | some (call, ⟨rest, _⟩) => piecesFrom call? (.inr call :: found) rest
      | none => piecesFrom call? (.inl c :: found) tail
termination_by cs.length
decreasing_by
  · assumption
  · simp

/-- A text cut into characters and calls. -/
def pieces {β : Type} (call? : (cs : List Char) → Option (β × Shorter cs)) (cs : List Char) :
    List (Char ⊕ β) := piecesFrom call? [] cs

/-- A text with every call replaced by what it expands to. -/
def replaceCalls {β : Type} (expand : β → Play (List Char)) (parts : List (Char ⊕ β)) :
    Play (List Char) := do
  let texts ← parts.mapM fun part =>
    match part with
    | .inl c => pure [c]
    | .inr call => expand call
  return texts.flatten

theorem length_of_after? {head cs body : List Char} (h : Text.after? head cs = some body) :
    cs.length = head.length + body.length := by
  induction head generalizing cs with
  | nil =>
      simp only [Text.after?, Option.some.injEq] at h
      simp [h]
  | cons p ps ih =>
      cases cs with
      | nil => simp [Text.after?] at h
      | cons c cs =>
          simp only [Text.after?] at h
          split at h
          · simp only [List.length_cons, ih h]; omega
          · simp at h

/-! ## Euclidean calls -/

/-- A Euclidean call: its two runs of digits and its text. -/
structure Euclid where
  pulses : List Char
  steps : List Char
  text : List Char
  deriving DecidableEq, Repr

/-- The digits at the beginning of a text, at least one, and the rest. -/
def digits? (cs : List Char) : Option (List Char × List Char) :=
  match cs.takeWhile Text.isDigit with
  | [] => none
  | run => some (run, cs.dropWhile Text.isDigit)

theorem length_of_digits? {cs run rest : List Char} (h : digits? cs = some (run, rest)) :
    rest.length ≤ cs.length := by
  unfold digits? at h
  split at h
  · simp at h
  · obtain ⟨-, rfl⟩ := by simpa using h
    exact (List.dropWhile_sublist _).length_le

/-- The two numbers of a Euclidean call behind its opening parenthesis, and the rest. -/
def euclidBody? (cs : List Char) : Option (Euclid × List Char) :=
  match digits? cs with
  | none => none
  | some (pulses, rest) =>
      match Text.after? [','] (rest.dropWhile Text.isBlank) with
      | none => none
      | some tail =>
          match digits? (tail.dropWhile Text.isBlank) with
          | none => none
          | some (steps, close) =>
              match Text.after? [')'] close with
              | none => none
              | some after =>
                  let text := 'E' :: '(' :: (pulses ++ rest.takeWhile Text.isBlank ++ ',' ::
                    tail.takeWhile Text.isBlank ++ steps ++ [')'])
                  some (⟨pulses, steps, text⟩, after)

theorem length_of_euclidBody? {cs after : List Char} {call : Euclid}
    (h : euclidBody? cs = some (call, after)) : after.length ≤ cs.length := by
  unfold euclidBody? at h
  split at h
  · simp at h
  · rename_i pulses rest hp
    split at h
    · simp at h
    · rename_i tail ht
      split at h
      · simp at h
      · rename_i steps close hs
        split at h
        · simp at h
        · rename_i last hl
          obtain ⟨-, rfl⟩ := by simpa using h
          have h₁ := length_of_digits? hp
          have h₂ := (List.dropWhile_sublist (l := rest) Text.isBlank).length_le
          have h₃ := length_of_after? ht
          have h₄ := (List.dropWhile_sublist (l := tail) Text.isBlank).length_le
          have h₅ := length_of_digits? hs
          have h₆ := length_of_after? hl
          omega

/-- The Euclidean call at the beginning of a text. -/
def euclid? (cs : List Char) : Option (Euclid × Shorter cs) :=
  match cs with
  | 'E' :: '(' :: body =>
      match h : euclidBody? body with
      | some (call, rest) =>
          some (call, ⟨rest, by
            have := length_of_euclidBody? h
            simp only [List.length_cons]; omega⟩)
      | none => none
  | _ => none

/-- Leave a call as it stands, with a warning. -/
def leave (text : List Char) (reason : String) : Play (List Char) := do
  Play.notify .warning .pattern
    ("Leaving " ++ Text.quoted (String.ofList text) ++ " unexpanded: " ++ reason)
  return text

/-- The rhythm that a Euclidean call stands for, or the call itself. -/
def expandEuclid (call : Euclid) : Play (List Char) :=
  match integerOfChars? call.pulses, integerOfChars? call.steps with
  | some pulses, some steps =>
      if (stepLimit : Int) < steps then leave call.text s!"more than {stepLimit} steps"
      else
        match Rhythm.euclideanTape pulses steps with
        | .ok tape => pure tape.toList
        | .error fault => leave call.text fault.message
  | _, _ => leave call.text "arguments are not integers"

/-- A text with its Euclidean calls expanded. -/
def expandEuclids (text : List Char) : Play (List Char) :=
  replaceCalls expandEuclid (pieces euclid? text)

/-! ## Spread calls -/

/-- How a spread call begins. -/
def spreadHead : List Char := ['s', 'p', 'r', 'e', 'a', 'd', '(']

/-- The text up to the parenthesis that closes the innermost of `depth + 1` open ones, and the
rest behind it.  `inside` is the text before, the last character first. -/
def closeFrom (depth : Nat) (inside : List Char) : List Char → Option (List Char × List Char)
  | [] => none
  | c :: cs =>
      if c = '(' then closeFrom (depth + 1) (c :: inside) cs
      else if c = ')' then
        match depth with
        | 0 => some (inside.reverse, cs)
        | outer + 1 => closeFrom outer (c :: inside) cs
      else closeFrom depth (c :: inside) cs

theorem length_lt_of_closeFrom {depth : Nat} {inside cs arguments rest : List Char}
    (h : closeFrom depth inside cs = some (arguments, rest)) : rest.length < cs.length := by
  induction cs generalizing depth inside with
  | nil => simp [closeFrom] at h
  | cons c cs ih =>
      unfold closeFrom at h
      split at h
      · have := ih h
        simp only [List.length_cons]; omega
      · split at h
        · split at h
          · obtain ⟨-, rfl⟩ := by simpa using h
            simp
          · have := ih h
            simp only [List.length_cons]; omega
        · have := ih h
          simp only [List.length_cons]; omega

/-- A piece of a text that starts with `spread(`: a call with its arguments, or everything that
is left when the call is never closed. -/
inductive Spread where
  | closed (arguments : List Char)
  | unclosed (text : List Char)
  deriving DecidableEq, Repr

/-- The text of a spread call. -/
def spreadText (arguments : List Char) : List Char := spreadHead ++ arguments ++ [')']

/-- The spread call at the beginning of a text, or the whole text when the call is unclosed. -/
def spread? (cs : List Char) : Option (Spread × Shorter cs) :=
  match hb : Text.after? spreadHead cs with
  | none => none
  | some body =>
      have hlen := length_of_after? hb
      match hc : closeFrom 0 [] body with
      | some (arguments, rest) =>
          some (.closed arguments, ⟨rest, by
            have := length_lt_of_closeFrom hc
            omega⟩)
      | none =>
          some (.unclosed cs, ⟨[], by
            simp only [spreadHead, List.length_cons, List.length_nil] at hlen ⊢
            omega⟩)

/-- The places of the commas that stand outside all parentheses, the latest first; `level` is the
number of parentheses that are open, `place` the place of the first character and `found` are the
places before it. -/
def commasFrom (level : Int) (place : Nat) (found : List Nat) : List Char → List Nat
  | [] => found
  | c :: cs =>
      if c = '(' then commasFrom (level + 1) (place + 1) found cs
      else if c = ')' then commasFrom (level - 1) (place + 1) found cs
      else if c = ',' ∧ level = 0 then commasFrom level (place + 1) (place :: found) cs
      else commasFrom level (place + 1) found cs

/-- The two arguments of a spread call, unless there are fewer or more of them. -/
def twoArguments? (arguments : List Char) : Option (List Char × List Char) :=
  match commasFrom 0 0 [] arguments with
  | [place] => some (arguments.take place, arguments.drop (place + 1))
  | _ => none

/-- A tape at another length; an empty one becomes that many rests. -/
def spreadTape (tape : String) (length : Int) : Except Fault String :=
  let elements := Text.words tape
  if 0 < length ∧ elements.isEmpty then do
    let count ← Rhythm.repetitions length
    return Text.unwords (List.replicate count "-")
  else do
    let elements ← Rhythm.spread elements length
    return Text.unwords elements

end Call
end NoteTape
