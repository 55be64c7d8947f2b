import Mathlib.Data.List.Rotate
import NoteTape.Proofs.Pattern.Verbatim
import NoteTape.Tape.Arrangement

/-!
# Turning and mirroring tapes

Turning a list by integers and reversing it are the motions of a regular polygon: turns add up, a turn
by the whole length is none, and reversing a turned list is turning the reversed one the other way.
For lists this is arithmetic of remainders, since a turn by an integer is a turn by any natural number
with the same remainder, `turned_eq_rotate`.

On patterns each operation compiles its argument, and the argument of the second is what the first has
written.  Whatever rearranges the elements of a tape writes a tape again, `isTape_unwords`, and a tape
compiles to itself.  So the laws carry over, and in place of the pattern comes its tape,
`rotate_reverse_laws`.
-/

namespace NoteTape
namespace Tape

open Play (Answers)
open Text (unwords words)

/-! ## Turns of lists -/

section Lists

variable {α : Type} {items : List α}

/-- **Only the remainder of a turn counts.** -/
theorem turned_eq_rotate {k : Nat} {steps : Int}
    (h : (k : Int) % items.length = steps % items.length) :
    turned items steps = items.rotate k := by
  rw [turned, List.rotate_eq_drop_append_take_mod, ← h, ← Int.natCast_mod, Int.toNat_natCast]

theorem exists_turned_eq_rotate (hne : items ≠ []) (steps : Int) :
    ∃ k : Nat, (k : Int) % items.length = steps % items.length ∧
      turned items steps = items.rotate k := by
  have hpos : 0 < items.length := List.length_pos_iff.mpr hne
  have hremainder : ((steps % items.length).toNat : Int) % items.length = steps % items.length := by
    rw [Int.toNat_of_nonneg (Int.emod_nonneg _ (by omega)), Int.emod_emod]
  exact ⟨_, hremainder, turned_eq_rotate hremainder⟩

@[simp] theorem turned_nil (steps : Int) : turned ([] : List α) steps = [] := by
  rw [turned, List.drop_nil, List.take_nil, List.append_nil]

@[simp] theorem length_turned (items : List α) (steps : Int) :
    (turned items steps).length = items.length := by
  rw [turned, List.length_append, List.length_drop, List.length_take]
  omega

theorem turned_ne_nil (hne : items ≠ []) (steps : Int) : turned items steps ≠ [] := by
  rwa [← List.length_pos_iff, length_turned, List.length_pos_iff]

@[simp] theorem mem_turned {item : α} {steps : Int} : item ∈ turned items steps ↔ item ∈ items := by
  rw [turned, List.mem_append, or_comm, ← List.mem_append, List.take_append_drop]

/-- An item stands as many places further to the left, around the end. -/
theorem getElem?_turned {place : Nat} (h : place < items.length) (steps : Int) :
    (turned items steps)[place]? = items[((place + steps) % items.length).toNat]? := by
  have hne : items ≠ [] := List.length_pos_iff.mp (Nat.zero_lt_of_lt h)
  obtain ⟨k, hk, hturned⟩ := exists_turned_eq_rotate hne steps
  have hplace : ((place + steps) % items.length).toNat = (place + k) % items.length := by
    rw [Int.add_emod, ← hk, ← Int.add_emod, ← Nat.cast_add, ← Int.natCast_mod, Int.toNat_natCast]
  rw [hturned, List.getElem?_rotate h, hplace]

/-- **Turns add up.** -/
theorem turned_turned (items : List α) (a b : Int) :
    turned (turned items a) b = turned items (a + b) := by
  rcases eq_or_ne items [] with rfl | hne
  · simp only [turned_nil]
  obtain ⟨j, hj, hfirst⟩ := exists_turned_eq_rotate hne a
  obtain ⟨k, hk, -⟩ := exists_turned_eq_rotate hne b
  have hsum : ((j + k : Nat) : Int) % items.length = (a + b) % items.length := by
    rw [Nat.cast_add, Int.add_emod, hj, hk, ← Int.add_emod]
  rw [turned_eq_rotate hsum, hfirst, turned_eq_rotate (by rwa [List.length_rotate]),
    List.rotate_rotate]

/-- A turn by a multiple of the length is none. -/
theorem turned_of_dvd {steps : Int} (h : (items.length : Int) ∣ steps) :
    turned items steps = items := by
  have hzero : ((0 : Nat) : Int) % items.length = steps % items.length := by
    rw [Int.emod_eq_zero_of_dvd h, Nat.cast_zero, Int.zero_emod]
  rw [turned_eq_rotate hzero, List.rotate_zero]

/-- **A turned list is reversed by turning the reversed one back.** -/
theorem reverse_turned (items : List α) (steps : Int) :
    (turned items steps).reverse = turned items.reverse (-steps) := by
  rcases eq_or_ne items [] with rfl | hne
  · simp only [turned_nil, List.reverse_nil]
  obtain ⟨k, hk, hturned⟩ := exists_turned_eq_rotate hne steps
  have hback : ((items.length - k % items.length : Nat) : Int) % items.reverse.length =
      -steps % items.reverse.length := by
    have hlt : k % items.length < items.length := Nat.mod_lt _ (List.length_pos_iff.mpr hne)
    have hsum : (items.length : Int) - steps % items.length =
        -steps + items.length * (1 + steps / items.length) := by
      rw [Int.emod_def]
      ring
    rw [List.length_reverse, Nat.cast_sub hlt.le, Int.natCast_mod, hk, hsum,
      Int.add_mul_emod_self_left]
  rw [hturned, List.reverse_rotate, turned_eq_rotate hback]

/-! ## Mirrored lists -/

/-- A list followed by itself backwards, with the item at the turn once or twice. -/
def mirrored (items : List α) (twice : Bool) : List α :=
  items ++ if twice then items.reverse else items.dropLast.reverse

/-- **A mirrored list is its own reverse.** -/
theorem reverse_mirrored (items : List α) (twice : Bool) :
    (mirrored items twice).reverse = mirrored items twice := by
  rcases List.eq_nil_or_concat items with rfl | ⟨front, last, rfl⟩
  · cases twice with
    | false => rfl
    | true => rfl
  · cases twice with
    | false => simp [mirrored]
    | true => simp [mirrored]

theorem length_mirrored (items : List α) (twice : Bool) :
    (mirrored items twice).length =
      if twice then 2 * items.length else 2 * items.length - 1 := by
  cases twice with
  | false =>
    simp only [mirrored, List.length_append, Bool.false_eq_true, if_false, List.length_reverse,
      List.length_dropLast]
    omega
  | true =>
    simp only [mirrored, List.length_append, if_true, List.length_reverse]
    omega

theorem mem_mirrored {item : α} {twice : Bool} : item ∈ mirrored items twice ↔ item ∈ items := by
  rw [mirrored, List.mem_append, or_iff_left_iff_imp]
  cases twice with
  | false => exact fun h => List.dropLast_subset _ (List.mem_reverse.mp h)
  | true => exact List.mem_reverse.mp

end Lists

/-! ## Elements of tapes rearranged -/

variable {pattern tape : String} {items : List String}

/-- **Elements of a tape make a tape,** however they are arranged. -/
theorem isTape_unwords (htape : IsTape tape) (h : ∀ e ∈ items, e ∈ words tape) :
    IsTape (unwords items) ∧ words (unwords items) = items := by
  have helements : ∀ e ∈ items, IsElement e := fun e he => htape.isElement_of_mem_words (h e he)
  exact ⟨⟨items, helements, rfl⟩, Text.words_unwords fun e he => (helements e he).isWord⟩

theorem answers_rotate (hcompile : Answers (Pattern.compile .standard pattern) (.ok tape))
    (hne : words tape ≠ []) (steps : Int) :
    Answers (rotate pattern steps) (.ok (unwords (turned (words tape) steps))) := by
  refine (Pattern.answers_elements hcompile).bind_ok ?_
  rw [if_neg (by rwa [List.isEmpty_iff])]
  exact .pure _

theorem answers_reverse (hcompile : Answers (Pattern.compile .standard pattern) (.ok tape)) :
    Answers (reverse pattern) (.ok (unwords (words tape).reverse)) :=
  (Pattern.answers_elements hcompile).bind_ok (.pure _)

theorem answers_palindrome (hcompile : Answers (Pattern.compile .standard pattern) (.ok tape))
    (twice : Bool) :
    Answers (palindrome pattern twice) (.ok (unwords (mirrored (words tape) twice))) :=
  (Pattern.answers_elements hcompile).bind_ok (.pure _)

/-- What is written from elements of a tape is turned as they are. -/
theorem answers_rotate_unwords (htape : IsTape tape) (h : ∀ e ∈ items, e ∈ words tape)
    (hne : items ≠ []) (steps : Int) :
    Answers (rotate (unwords items) steps) (.ok (unwords (turned items steps))) := by
  obtain ⟨hitems, hwords⟩ := isTape_unwords htape h
  have hanswers := answers_rotate (Pattern.answers_compile_of_isTape hitems) (by rwa [hwords]) steps
  rwa [hwords] at hanswers

theorem answers_reverse_unwords (htape : IsTape tape) (h : ∀ e ∈ items, e ∈ words tape) :
    Answers (reverse (unwords items)) (.ok (unwords items.reverse)) := by
  obtain ⟨hitems, hwords⟩ := isTape_unwords htape h
  have hanswers := answers_reverse (Pattern.answers_compile_of_isTape hitems)
  rwa [hwords] at hanswers

/-- Two plays give the same text at every desk. -/
def Coincide (p q : Play String) : Prop := ∃ text, Answers p (.ok text) ∧ Answers q (.ok text)

/-- **Turning and reversing move a tape like the corners of a polygon.**  A pattern without question
marks has one tape.  When this is not empty, its elements are turned to the left or read backwards.
Turns of the pattern add up, a turn by a multiple of the number of elements gives the tape, so does
reversing twice, and reversing what has been turned is turning back what has been reversed.  The
palindrome begins with the tape, has twice as many elements or one less, and is its own reverse. -/
theorem rotate_reverse_laws (hdraw : '?' ∉ pattern.toList) :
    ∃ tape, Answers (Pattern.compile .standard pattern) (.ok tape) ∧ (tape ≠ "" →
      (∀ a, ∃ text, Answers (rotate pattern a) (.ok text) ∧
        (words text).length = (words tape).length ∧
        ∀ place : Nat, place < (words tape).length →
          (words text)[place]? = (words tape)[((place + a) % (words tape).length).toNat]?) ∧
      (∃ text, Answers (reverse pattern) (.ok text) ∧ words text = (words tape).reverse) ∧
      (∀ a b, Coincide (do rotate (← rotate pattern a) b) (rotate pattern (a + b))) ∧
      (∀ a, ((words tape).length : Int) ∣ a → Answers (rotate pattern a) (.ok tape)) ∧
      Answers (do reverse (← reverse pattern)) (.ok tape) ∧
      (∀ a, Coincide (do reverse (← rotate pattern a)) (do rotate (← reverse pattern) (-a))) ∧
      ∀ twice, ∃ text, Answers (palindrome pattern twice) (.ok text) ∧
        (words text).length =
          (if twice then 2 * (words tape).length else 2 * (words tape).length - 1) ∧
        words tape <+: words text ∧ tape.toList <+: text.toList ∧
        Answers (reverse text) (.ok text)) := by
  obtain ⟨tape, hcompile, htape⟩ := Pattern.yields_compile Pattern.isUndrawn_standard hdraw
  refine ⟨tape, hcompile, fun hnonempty => ?_⟩
  have hne : words tape ≠ [] := fun hnil => hnonempty (htape.words_eq_nil_iff.mp hnil)
  have hturned (steps : Int) : ∀ e ∈ turned (words tape) steps, e ∈ words tape :=
    fun _ => mem_turned.mp
  have hreversed : ∀ e ∈ (words tape).reverse, e ∈ words tape := fun _ => List.mem_reverse.mp
  have hreverse := answers_reverse hcompile
  refine ⟨fun a => ?_, ?_, fun a b => ?_, fun a hdvd => ?_, ?_, fun a => ?_, fun twice => ?_⟩
  · have hwords := (isTape_unwords htape (hturned a)).2
    refine ⟨_, answers_rotate hcompile hne a, ?_, fun place hplace => ?_⟩
    · rw [hwords, length_turned]
    · rw [hwords, getElem?_turned hplace]
  · exact ⟨_, hreverse, (isTape_unwords htape hreversed).2⟩
  · refine ⟨_, ?_, answers_rotate hcompile hne (a + b)⟩
    rw [← turned_turned]
    exact (answers_rotate hcompile hne a).bind_ok
      (answers_rotate_unwords htape (hturned a) (turned_ne_nil hne a) b)
  · have hanswers := answers_rotate hcompile hne a
    rwa [turned_of_dvd hdvd, htape.unwords_words] at hanswers
  · have hagain := answers_reverse_unwords htape hreversed
    rw [List.reverse_reverse, htape.unwords_words] at hagain
    exact hreverse.bind_ok hagain
  · refine ⟨_, (answers_rotate hcompile hne a).bind_ok
      (answers_reverse_unwords htape (hturned a)), ?_⟩
    rw [reverse_turned]
    exact hreverse.bind_ok
      (answers_rotate_unwords htape hreversed (List.reverse_ne_nil_iff.mpr hne) (-a))
  · have hmirrored : ∀ e ∈ mirrored (words tape) twice, e ∈ words tape := fun _ => mem_mirrored.mp
    have hwords := (isTape_unwords htape hmirrored).2
    have hagain := answers_reverse_unwords htape hmirrored
    rw [reverse_mirrored] at hagain
    refine ⟨_, answers_palindrome hcompile twice, ?_, ?_, ?_, hagain⟩
    · rw [hwords, length_mirrored]
    · rw [hwords]
      exact List.prefix_append _ _
    · have hprefix := Text.toList_unwords_prefix (words tape)
        (if twice then (words tape).reverse else (words tape).dropLast.reverse)
      rwa [htape.unwords_words] at hprefix

/-- A pattern of three elements, turned past its end and mirrored with the last one once. -/
theorem rotate_reverse_laws_three :
    '?' ∉ "[ 1 - ] 3".toList ∧
      Coincide (do rotate (← rotate "[ 1 - ] 3" 5) (-9)) (rotate "[ 1 - ] 3" (5 + -9)) ∧
      Answers (rotate "[ 1 - ] 3" (-3)) (.ok "1 - 3") ∧
      ∃ text, Answers (palindrome "[ 1 - ] 3" false) (.ok text) ∧ (words text).length = 5 ∧
        Answers (reverse text) (.ok text) := by
  have hdraw : '?' ∉ "[ 1 - ] 3".toList := by decide
  have hvalue : ((Pattern.compile .standard "[ 1 - ] 3").outcome ⟨.script ⟨#[], 0⟩, #[]⟩).1 =
      .ok "1 - 3" := by
    decide +kernel
  have hwords : words "1 - 3" = ["1", "-", "3"] := by decide +kernel
  obtain ⟨tape, hcompile, hlaws⟩ := rotate_reverse_laws hdraw
  obtain rfl := hcompile.eq_of_outcome hvalue
  obtain ⟨-, -, hturns, hwhole, -, -, hpalindrome⟩ := hlaws (by decide)
  obtain ⟨text, htext, hlength, -, -, hreverse⟩ := hpalindrome false
  rw [hwords] at hlength hwhole
  exact ⟨hdraw, hturns 5 (-9), hwhole (-3) (by decide), text, htext, hlength, hreverse⟩

end Tape
end NoteTape
