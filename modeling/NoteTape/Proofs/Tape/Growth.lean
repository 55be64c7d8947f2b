import NoteTape.Proofs.Text.Words
import NoteTape.Tape.Growth

/-!
# Growth by rules is a substitution

Between two steps the words are written as a text and cut out of it again.  What is written for a word
may hold several words, or none, or blanks at its ends; in the text these words come one after the
other.  So a step puts in the place of each word the words of its replacement,
`growStep_eq_flatMap`, and what stands beside a word does not matter.  The replacement is what the
last rule for the word says, `replacement_of_last`, or the word itself, `replacement_of_forall_ne`.

Steps therefore go through the parts of a text one by one, `grown_append`.  They add up, `grown_grown`,
because the words of a text that has grown are found again in it, `words_unwords_grown`.
-/

namespace NoteTape
namespace Tape

open Text (IsWord isWord_of_mem_words unwords words)

/-! ## The rule for a word -/

/-- **Of several rules for a word the last counts.** -/
theorem replacement_of_last {word : String} (text : String) (before : List Rule) {after : List Rule}
    (hafter : ∀ rule ∈ after, rule.1 ≠ word) :
    replacement (before ++ (word, text) :: after) word = text := by
  have hlookup : (before ++ (word, text) :: after).reverse.lookup word = some text := by
    refine List.lookup_eq_some_iff.mpr ⟨after.reverse, before.reverse, ?_, fun rule hrule => ?_⟩
    · rw [List.reverse_append, List.reverse_cons, List.append_assoc, List.singleton_append]
    · exact bne_iff_ne.mpr (hafter rule (List.mem_reverse.mp hrule)).symm
  rw [replacement, hlookup, Option.getD_some]

/-- A word without a rule stays. -/
theorem replacement_of_forall_ne {word : String} {rules : List Rule}
    (h : ∀ rule ∈ rules, rule.1 ≠ word) : replacement rules word = word := by
  have hlookup : rules.reverse.lookup word = none :=
    List.lookup_eq_none_iff.mpr fun rule hrule =>
      bne_iff_ne.mpr (h rule (List.mem_reverse.mp hrule)).symm
  rw [replacement, hlookup, Option.getD_none]

variable (rules : List Rule)

/-! ## One step -/

/-- **A step puts the words of its replacement in the place of each word.** -/
theorem growStep_eq_flatMap (ws : List String) :
    growStep rules ws = ws.flatMap fun word => words (replacement rules word) := by
  rw [growStep, Text.words_unwords_flatMap, List.flatMap_map]

theorem growStep_append (xs ys : List String) :
    growStep rules (xs ++ ys) = growStep rules xs ++ growStep rules ys := by
  simp only [growStep_eq_flatMap, List.flatMap_append]

/-! ## Many steps -/

/-- The words that grow from some words in a number of steps. -/
def grown (steps : Nat) (ws : List String) : List String := Nat.repeat (growStep rules) steps ws

@[simp] theorem grown_zero (ws : List String) : grown rules 0 ws = ws := rfl

theorem grown_succ (steps : Nat) (ws : List String) :
    grown rules (steps + 1) ws = growStep rules (grown rules steps ws) := rfl

/-- **The steps add up.** -/
theorem grown_grown (m n : Nat) (ws : List String) :
    grown rules n (grown rules m ws) = grown rules (m + n) ws := by
  induction n with
  | zero => rfl
  | succ n ih => rw [grown_succ, ih, ← Nat.add_assoc, grown_succ]

/-- **Neighbours grow independently.** -/
theorem grown_append (steps : Nat) (xs ys : List String) :
    grown rules steps (xs ++ ys) = grown rules steps xs ++ grown rules steps ys := by
  induction steps with
  | zero => rfl
  | succ steps ih => rw [grown_succ, ih, growStep_append, ← grown_succ, ← grown_succ]

theorem isWord_of_mem_grown {steps : Nat} {ws : List String} (h : ∀ word ∈ ws, IsWord word) :
    ∀ word ∈ grown rules steps ws, IsWord word := by
  cases steps with
  | zero => exact h
  | succ steps => exact fun _ => isWord_of_mem_words

/-! ## Texts -/

/-- What has grown is cut into its words again. -/
theorem words_unwords_grown (steps : Nat) (text : String) :
    words (unwords (grown rules steps (words text))) = grown rules steps (words text) :=
  Text.words_unwords (isWord_of_mem_grown rules fun _ => isWord_of_mem_words)

theorem grow_natCast (text : String) (steps : Nat) :
    grow text rules steps = .ok (unwords (grown rules steps (words text))) := by
  rw [grow, if_neg (by omega)]
  rfl

/-- The words of two texts with a space between them. -/
theorem words_append_space (x y : String) : words (x ++ " " ++ y) = words x ++ words y := by
  have hwords := Text.words_unwords_flatMap [x, y]
  rwa [Text.unwords_cons_cons, Text.unwords_singleton, List.flatMap_cons,
    List.flatMap_singleton] at hwords

/-- **Growth composes and distributes.**  Without a step the words of a text stay, and in one step each
word is replaced by the words of its replacement, whatever blanks there are in it.  Growing on from what
has grown is growing in all the steps at once, and two texts side by side grow side by side. -/
theorem grow_laws (x y : String) (m n : Nat) :
    (∃ kept, grow x rules 0 = .ok kept ∧ words kept = words x) ∧
      (∃ next, grow x rules 1 = .ok next ∧
        words next = (words x).flatMap fun word => words (replacement rules word)) ∧
      (∃ before after, grow x rules m = .ok before ∧ grow before rules n = .ok after ∧
        grow x rules (m + n) = .ok after) ∧
      ∃ left right both, grow x rules n = .ok left ∧ grow y rules n = .ok right ∧
        grow (x ++ " " ++ y) rules n = .ok both ∧ words both = words left ++ words right := by
  have hgrow := grow_natCast rules
  have hwords := words_unwords_grown rules
  refine ⟨⟨_, hgrow x 0, hwords 0 x⟩, ⟨_, hgrow x 1, ?_⟩, ⟨_, _, hgrow x m, hgrow _ n, ?_⟩,
    ⟨_, _, _, hgrow x n, hgrow y n, hgrow _ n, ?_⟩⟩
  · rw [hwords, grown_succ, grown_zero, growStep_eq_flatMap]
  · rw [hwords, grown_grown, ← hgrow x (m + n), Int.natCast_add]
  · rw [hwords, hwords, hwords, words_append_space, grown_append]

/-- A rule that doubles, one that erases and one that has blanks around a word. -/
example : grow "a b c" [("a", "a  a"), ("b", ""), ("c", "\ta b ")] 2 = .ok "a a a a a a" :=
  rfl

end Tape
end NoteTape
