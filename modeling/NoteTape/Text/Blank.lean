/-!
# Blank characters, words and trimming

Tapes, patterns and command lines are cut at *blanks*.  The set of blanks is the Unicode
whitespace together with the four information separators, so a tape pasted from a word
processor, with non-breaking or ideographic spaces in it, reads like one typed by hand.

Everything here works on lists of characters; `Text.words` and `Text.trim` are the same
operations on `String`.

## Contents

* `isBlank` is the class of characters that separate words;
* `split` cuts a list of characters into its maximal blank-free runs, which are never empty;
* `trimEnds` and `trimEnd` remove characters of a class from the ends of a list.
-/

namespace NoteTape
namespace Text

/-- A blank separates words: the ASCII blanks, the information separators, and the space and
line separators of Unicode.  The zero-width space and the byte-order mark are not blanks. -/
def isBlank (c : Char) : Bool :=
  let n := c.toNat
  (9 ≤ n && n ≤ 13) || (28 ≤ n && n ≤ 32) || n == 0x85 || n == 0xA0 || n == 0x1680 ||
    (0x2000 ≤ n && n ≤ 0x200A) || n == 0x2028 || n == 0x2029 || n == 0x202F || n == 0x205F ||
    n == 0x3000

/-- One step of `split`, reading from the right: `run` is the word being collected and `done`
the words after it. -/
def splitStep (c : Char) : List Char × List (List Char) → List Char × List (List Char)
  | (run, done) =>
      if isBlank c then ([], if run.isEmpty then done else run :: done) else (c :: run, done)

/-- The maximal blank-free runs of a list of characters, in order. -/
def split (cs : List Char) : List (List Char) :=
  let (run, done) := cs.foldr splitStep ([], [])
  if run.isEmpty then done else run :: done

@[simp] theorem split_nil : split [] = [] := rfl

/-- The words of a text: its maximal blank-free runs, in order. -/
def words (text : String) : List String :=
  (split text.toList).map String.ofList

/-- Drop characters of a class from the right end. -/
def trimEnd (drop : Char → Bool) (cs : List Char) : List Char :=
  (cs.reverse.dropWhile drop).reverse

/-- Drop characters of a class from both ends. -/
def trimEnds (drop : Char → Bool) (cs : List Char) : List Char :=
  trimEnd drop (cs.dropWhile drop)

/-- The text without the blanks at its two ends. -/
def trim (text : String) : String :=
  String.ofList (trimEnds isBlank text.toList)

/-- Words written with one space between neighbours. -/
def unwords (words : List String) : String :=
  " ".intercalate words

@[simp] theorem unwords_nil : unwords [] = "" := by simp [unwords]

@[simp] theorem unwords_singleton (w : String) : unwords [w] = w := by simp [unwords]

/-- The text before the first occurrence of a character, and the text after it when the
character occurs at all. -/
def cutAt (mark : Char) (cs : List Char) : List Char × Option (List Char) :=
  let head := cs.takeWhile (· != mark)
  match cs.dropWhile (· != mark) with
  | [] => (head, none)
  | _ :: rest => (head, some rest)

/-- The text after a given beginning, or nothing when it begins otherwise. -/
def after? : List Char → List Char → Option (List Char)
  | [], cs => some cs
  | _ :: _, [] => none
  | p :: ps, c :: cs => if p = c then after? ps cs else none

/-- ASCII capitals in lower case; every other character as it is. -/
def lowerAscii (cs : List Char) : List Char :=
  cs.map Char.toLower

end Text
end NoteTape
