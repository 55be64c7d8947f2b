import NoteTape.Pattern.Context
import NoteTape.Pattern.Token
import NoteTape.Rhythm.Euclid

/-!
# Expansion

Tokens expand into a flat list of elements: the text of a note, or the empty text for a rest.

Groups are kept on a stack of open scopes, innermost first, each a list of elements with the
latest first.  An opening bracket pushes an empty scope; a closing one pops the scope and adds
its elements to the one around it, as often as the bracket says.  So a group's random notes are
drawn once and replayed.  A closing bracket without an opening one ends the whole expansion, and
scopes that are still open at the end are closed there.

A repeated group is not let grow past `tapeLimit` elements: it is replayed as often as fits, and
at least once.
-/

namespace NoteTape

/-- The most elements that a repeated group expands to. -/
def tapeLimit : Nat := 65536

namespace Expansion

/-- How often a group of `size` elements is replayed when `count` is asked for. -/
def replays (size : Nat) (count : Int) : Int :=
  if 1 < count ∧ (tapeLimit : Int) < size * count then max 1 (tapeLimit / size : Nat) else count

/-- Warn when a group is replayed less often than asked for. -/
def warnReplays (size : Nat) (count : Int) : Play Unit :=
  if replays size count = count then pure ()
  else do
    let asked ← decimal count
    Play.notify .warning .pattern
      (s!"Group of {size} elements repeated " ++ asked ++
        s!" times exceeds {tapeLimit} elements, repeating {replays size count} times")

/-- The elements of a group, the latest first, as often as it is replayed. -/
def replayed (scope : List String) (count : Int) : Play (List String) := do
  warnReplays scope.length count
  let times ← Rhythm.repetitions (replays scope.length count)
  return (List.replicate times scope).flatten

/-- The elements of all open scopes, innermost first, closed one after the other. -/
def closeAll : List String → List (List String) → List String
  | scope, [] => scope
  | scope, outer :: scopes => closeAll (scope ++ outer) scopes

/-- Say how many tokens are left unread. -/
def warnUnread (tokens : List Token) : Play Unit :=
  if tokens.isEmpty then pure ()
  else
    Play.notify .debug .pattern
      s!"Unmatched group close, discarding {tokens.length} trailing tokens"

/-- Expand tokens with a stack of open scopes: the innermost, and the ones around it. -/
def run (context : Context) : List Token → List String → List (List String) → Play (List String)
  | [], scope, scopes => pure (closeAll scope scopes).reverse
  | .rest count :: tokens, scope, scopes => do
      let n ← Rhythm.repetitions count
      run context tokens (List.replicate n "" ++ scope) scopes
  | .note text :: tokens, scope, scopes => run context tokens (text :: scope) scopes
  | .random :: tokens, scope, scopes => do
      let text ← context.draw
      run context tokens (text :: scope) scopes
  | .randomRange low high :: tokens, scope, scopes => do
      let n ← Play.integer low high
      let text ← decimal n
      run context tokens (text :: scope) scopes
  | .groupStart :: tokens, scope, scopes => run context tokens [] (scope :: scopes)
  | .groupEnd :: tokens, scope, outer :: scopes => run context tokens (scope ++ outer) scopes
  | .groupEnd :: tokens, scope, [] => do
      warnUnread tokens
      return scope.reverse
  | .groupRepeat count :: tokens, scope, outer :: scopes => do
      let scope ← replayed scope count
      run context tokens (scope ++ outer) scopes
  | .groupRepeat count :: tokens, scope, [] => do
      let scope ← replayed scope count
      warnUnread tokens
      return scope.reverse
  | .unknown _ :: tokens, scope, scopes => run context tokens scope scopes

end Expansion

/-- The elements that tokens expand to: the text of a note, or the empty text for a rest. -/
def expand (context : Context) (tokens : List Token) : Play (List String) :=
  Expansion.run context tokens [] []

/-- An element as it stands on a tape. -/
def elementText (element : String) : String := if element.isEmpty then "-" else element

/-- A tape: elements with one space between neighbours, a rest as `-`. -/
def tapeOf (elements : List String) : String := Text.unwords (elements.map elementText)

end NoteTape
