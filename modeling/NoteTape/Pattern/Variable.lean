import NoteTape.Pattern.Context
import NoteTape.Text.Letter

/-!
# Variables

In a pattern, `$name = text` binds a name and `$name` stands for the text bound to it.  A name is
a run of word characters; the text of a binding runs up to the next `$` or the end of the pattern
and is trimmed.

All bindings are taken out of the pattern first, `Variable.strip`, and the references are replaced
in what is left, `Variable.resolve`.  So the last binding of a name counts, wherever its
references stand; a name that is bound nowhere in the pattern has the context's text or none; and
text that was put in is not read again.
-/

namespace NoteTape
namespace Variable

/-- A name and the text bound to it. -/
abbrev Binding := String × String

theorem length_dropWhile_le (p : Char → Bool) (cs : List Char) :
    (cs.dropWhile p).length ≤ cs.length := (List.dropWhile_sublist p).length_le

/-- The name at the beginning of a text. -/
def nameOf (cs : List Char) : List Char := cs.takeWhile Text.isWordChar

/-- The text behind the name at its beginning. -/
def afterName (cs : List Char) : List Char := cs.dropWhile Text.isWordChar

theorem length_afterName_le (cs : List Char) : (afterName cs).length ≤ cs.length :=
  length_dropWhile_le _ _

/-- The part of a text behind an equals sign that may follow blanks. -/
def afterEquals? (cs : List Char) : Option { rest : List Char // rest.length ≤ cs.length } :=
  match h : cs.dropWhile Text.isBlank with
  | '=' :: rest =>
      some ⟨rest, by
        have := length_dropWhile_le Text.isBlank cs
        rw [h, List.length_cons] at this
        omega⟩
  | _ => none

/-- The binding that follows a `$`, and the text behind it. -/
def binding? (cs : List Char) : Option (Binding × { rest : List Char // rest.length ≤ cs.length }) :=
  let name := nameOf cs
  if name.isEmpty then none
  else
    match afterEquals? (afterName cs) with
    | none => none
    | some ⟨body, h⟩ =>
        let value := body.takeWhile (· != '$')
        some ((String.ofList name, String.ofList (Text.trimEnds Text.isBlank value)),
          ⟨body.dropWhile (· != '$'), by
            have h₁ := length_dropWhile_le (· != '$') body
            have h₂ := length_afterName_le cs
            omega⟩)

/-- Take the bindings out of a text.  `kept` is the text before, the last character first, and
`bound` are the bindings before, the latest first. -/
def stripFrom (kept : List Char) (bound : List Binding) : List Char → List Char × List Binding
  | [] => (kept.reverse, bound)
  | c :: cs =>
      if c = '$' then
        match binding? cs with
        | some (binding, ⟨rest, _⟩) => stripFrom kept (binding :: bound) rest
        | none => stripFrom (c :: kept) bound cs
      else stripFrom (c :: kept) bound cs
termination_by cs => cs.length
decreasing_by all_goals simp only [List.length_cons]; omega

/-- The text without its bindings, and the bindings, the latest first. -/
def strip (cs : List Char) : List Char × List Binding := stripFrom [] [] cs

/-- Replace the references in a text.  `done` is the text before, the last character first. -/
def resolveFrom (bound : List Binding) (done : List Char) : List Char → List Char
  | [] => done.reverse
  | c :: cs =>
      if c = '$' ∧ nameOf cs ≠ [] then
        let value := (bound.lookup (String.ofList (nameOf cs))).getD ""
        resolveFrom bound (value.toList.reverse ++ done) (afterName cs)
      else resolveFrom bound (c :: done) cs
termination_by cs => cs.length
decreasing_by
  · have := length_afterName_le cs
    simp only [List.length_cons]; omega
  · simp

/-- The text with its references replaced; of several bindings of a name the first counts. -/
def resolve (bound : List Binding) (cs : List Char) : List Char := resolveFrom bound [] cs

end Variable

/-- A pattern without bindings and references: every reference is replaced by the text bound to
its name last in the pattern, or else in the context. -/
def substitute (context : Context) (pattern : List Char) : List Char :=
  let (text, bound) := Variable.strip pattern
  Variable.resolve (bound ++ context.bindings) text

end NoteTape
