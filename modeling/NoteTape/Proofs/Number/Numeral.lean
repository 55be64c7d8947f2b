import Mathlib.Algebra.Order.Ring.Nat
import Mathlib.Data.List.Induction
import NoteTape.Fault

/-!
# Numerals

A numeral is an optional sign and one to `digitLimit` ASCII digits.  Strict reading accepts exactly
the numerals, `isSome_integerOfChars?_iff`, and writing an integer gives one, `isNumeral_decimal?`,
from which the integer is read back, `integerOfChars?_of_decimal?`.  So the notes of a tape, the
notes that a pool may hold and the integers that are drawn all have one form.

An integer has more than one numeral, `+7` and `07` besides `7`.  The one that is written for it is
its canonical form.
-/

namespace NoteTape

open Text (isAsciiDigit)

/-- An optional sign and ASCII digits, at least one and not too many. -/
def IsNumeral (cs : List Char) : Prop :=
  ∃ sign digits, cs = sign ++ digits ∧ (sign = [] ∨ sign = ['+'] ∨ sign = ['-']) ∧
    digits ≠ [] ∧ digits.length ≤ digitLimit ∧ ∀ d ∈ digits, isAsciiDigit d = true

/-! ## Reading -/

theorem isSome_asciiNatural?_iff (cs : List Char) :
    (asciiNatural? cs).isSome = true ↔
      cs ≠ [] ∧ cs.length ≤ digitLimit ∧ ∀ d ∈ cs, isAsciiDigit d = true := by
  unfold asciiNatural?
  split
  · next h =>
    simp only [Bool.or_eq_true, List.isEmpty_iff, decide_eq_true_eq, Bool.not_eq_true'] at h
    constructor
    · simp
    · rintro ⟨hne, hlen, hall⟩
      rw [← List.all_eq_true] at hall
      rcases h with (h | h) | h
      · exact absurd h hne
      · exact absurd hlen (Nat.not_le.mpr h)
      · simp [hall] at h
  · next h =>
    simp only [Bool.or_eq_true, List.isEmpty_iff, decide_eq_true_eq, Bool.not_eq_true', not_or,
      Bool.not_eq_false, List.all_eq_true, Nat.not_lt] at h
    exact ⟨fun _ => ⟨h.1.1, h.1.2, h.2⟩, fun _ => rfl⟩

/-- **A natural number is read from its digits.** -/
theorem asciiNatural?_eq_some_iff {cs : List Char} {n : Nat} :
    asciiNatural? cs = some n ↔ cs ≠ [] ∧ cs.length ≤ digitLimit ∧
      (∀ d ∈ cs, isAsciiDigit d = true) ∧ n = Text.natural cs := by
  have hsome := isSome_asciiNatural?_iff cs
  constructor
  · intro h
    rw [h] at hsome
    obtain ⟨hne, hlength, hdigits⟩ := hsome.mp rfl
    refine ⟨hne, hlength, hdigits, ?_⟩
    unfold asciiNatural? at h
    split at h
    · simp at h
    · exact (Option.some.inj h).symm
  · rintro ⟨hne, hlength, hdigits, rfl⟩
    have hread := hsome.mpr ⟨hne, hlength, hdigits⟩
    unfold asciiNatural? at hread ⊢
    split at hread
    · simp at hread
    · next hcheck => rw [if_neg hcheck]

/-- Text that starts with a digit is read as it stands. -/
theorem integerOfChars?_of_digit {d : Char} {ds : List Char} (h : isAsciiDigit d = true) :
    integerOfChars? (d :: ds) = (asciiNatural? (d :: ds)).map Int.ofNat := by
  unfold integerOfChars?
  split
  · next heq =>
    obtain ⟨rfl, -⟩ := List.cons.inj heq
    simp [isAsciiDigit] at h
  · next heq =>
    obtain ⟨rfl, -⟩ := List.cons.inj heq
    simp [isAsciiDigit] at h
  · rfl

theorem integerOfChars?_minus (ds : List Char) :
    integerOfChars? ('-' :: ds) = (asciiNatural? ds).map fun n : Nat => -(n : Int) := by
  rw [integerOfChars?]
  cases asciiNatural? ds with
  | none => rfl
  | some n => rfl

/-- **Strict reading accepts exactly the numerals.** -/
theorem isSome_integerOfChars?_iff (cs : List Char) :
    (integerOfChars? cs).isSome = true ↔ IsNumeral cs := by
  constructor
  · intro h
    by_cases hminus : ∃ ds, cs = '-' :: ds
    · obtain ⟨ds, rfl⟩ := hminus
      rw [integerOfChars?_minus, Option.isSome_map, isSome_asciiNatural?_iff] at h
      exact ⟨['-'], ds, rfl, .inr (.inr rfl), h⟩
    · unfold integerOfChars? at h
      split at h
      · next ds =>
        rw [Option.isSome_map, isSome_asciiNatural?_iff] at h
        exact ⟨['+'], ds, rfl, .inr (.inl rfl), h⟩
      · next ds => exact absurd ⟨ds, rfl⟩ hminus
      · rw [Option.isSome_map, isSome_asciiNatural?_iff] at h
        exact ⟨[], cs, rfl, .inl rfl, h⟩
  · rintro ⟨sign, digits, rfl, rfl | rfl | rfl, hdigits⟩
    · cases digits with
      | nil => exact absurd rfl hdigits.1
      | cons d ds =>
        rw [List.nil_append, integerOfChars?_of_digit (hdigits.2.2 d (List.mem_cons_self ..)),
          Option.isSome_map, isSome_asciiNatural?_iff]
        exact hdigits
    · change ((asciiNatural? digits).map Int.ofNat).isSome = true
      rw [Option.isSome_map, isSome_asciiNatural?_iff]
      exact hdigits
    · rw [List.singleton_append, integerOfChars?_minus, Option.isSome_map,
        isSome_asciiNatural?_iff]
      exact hdigits

theorem exists_integerOfChars? {cs : List Char} (h : IsNumeral cs) :
    ∃ n, integerOfChars? cs = some n :=
  Option.isSome_iff_exists.mp ((isSome_integerOfChars?_iff cs).mpr h)

/-! ## Characters -/

theorem IsNumeral.ne_nil {cs : List Char} (h : IsNumeral cs) : cs ≠ [] := by
  obtain ⟨sign, digits, rfl, -, hne, -⟩ := h
  exact List.append_ne_nil_of_right_ne_nil sign hne

/-- A numeral is written with signs and digits only. -/
theorem IsNumeral.mem {cs : List Char} (h : IsNumeral cs) {c : Char} (hc : c ∈ cs) :
    c = '+' ∨ c = '-' ∨ isAsciiDigit c = true := by
  obtain ⟨sign, digits, rfl, hsign, -, -, hdigits⟩ := h
  rcases List.mem_append.mp hc with hc | hc
  · rcases hsign with rfl | rfl | rfl
    · simp at hc
    · exact .inl (List.mem_singleton.mp hc)
    · exact .inr (.inl (List.mem_singleton.mp hc))
  · exact .inr (.inr (hdigits c hc))

/-! ## Writing -/

theorem isAsciiDigit_of_isDigit {c : Char} (h : c.isDigit = true) : isAsciiDigit c = true := by
  simp only [Char.isDigit, ge_iff_le, Bool.and_eq_true, decide_eq_true_eq] at h
  simp only [isAsciiDigit, Bool.and_eq_true, decide_eq_true_eq]
  exact ⟨UInt32.le_iff_toNat_le.mp h.1, UInt32.le_iff_toNat_le.mp h.2⟩

theorem decimalBound_eq : decimalBound = 10 ^ digitLimit := by
  unfold decimalBound
  -- the power is too great to be computed on the way
  generalize digitLimit = k
  exact Nat.pow_eq

theorem digits_repr {n : Nat} (h : n < decimalBound) :
    n.repr.toList ≠ [] ∧ n.repr.toList.length ≤ digitLimit ∧
      ∀ d ∈ n.repr.toList, isAsciiDigit d = true := by
  rw [decimalBound_eq] at h
  rw [Nat.toList_repr]
  refine ⟨Nat.toDigits_ne_nil, ?_, fun d hd => ?_⟩
  · rwa [Nat.length_toDigits_le_iff (by omega) (by decide)]
  · exact isAsciiDigit_of_isDigit (Nat.isDigit_of_mem_toDigits (by omega) (by omega) hd)

/-- **What is written for an integer is a numeral.** -/
theorem isNumeral_decimal? {n : Int} {text : String} (h : decimal? n = some text) :
    IsNumeral text.toList := by
  unfold decimal? at h
  split at h
  · next hlt =>
    obtain rfl := Option.some.inj h
    rw [Int.toString_eq_repr, Int.repr_eq_if]
    have hpos : n.toNat ≤ n.natAbs := by omega
    have hneg : (-n).toNat ≤ n.natAbs := by omega
    split
    · exact ⟨[], _, rfl, .inl rfl, digits_repr (Nat.lt_of_le_of_lt hpos hlt)⟩
    · refine ⟨['-'], _, ?_, .inr (.inr rfl), digits_repr (Nat.lt_of_le_of_lt hneg hlt)⟩
      rw [String.toList_append]
      rfl
  · simp at h

theorem decimal_eq_ok {n : Int} {text : String} (h : decimal n = .ok text) :
    decimal? n = some text := by
  unfold decimal at h
  split at h
  · next text' heq =>
    rw [heq, Except.ok.inj h]
  · simp at h

theorem decimal?_of_lt {n : Int} (h : n.natAbs < decimalBound) :
    decimal? n = some (toString n) := by
  unfold decimal?
  generalize decimalBound = bound at h
  rw [if_pos h]

theorem decimal_of_lt {n : Int} (h : n.natAbs < decimalBound) : decimal n = .ok (toString n) := by
  unfold decimal
  rw [decimal?_of_lt h]

theorem exists_decimal {n : Int} (h : n.natAbs < decimalBound) : ∃ text, decimal n = .ok text :=
  ⟨toString n, decimal_of_lt h⟩

/-- An integer of too many digits is not written. -/
theorem decimal_of_not_lt {n : Int} (h : ¬ n.natAbs < decimalBound) :
    decimal n = .error .integerTooLong := by
  unfold decimal decimal?
  generalize decimalBound = bound at h
  rw [if_neg h]

/-- There is no other reason not to write an integer. -/
theorem decimal_eq_error {n : Int} {fault : Fault} (h : decimal n = .error fault) :
    fault = .integerTooLong := by
  by_cases hn : n.natAbs < decimalBound
  · rw [decimal_of_lt hn] at h
    exact nomatch h
  · rw [decimal_of_not_lt hn] at h
    exact (Except.error.inj h).symm

/-- **An integer is written in one way,** unless it has too many digits. -/
theorem decimal_eq_ok_iff {n : Int} {text : String} :
    decimal n = .ok text ↔ n.natAbs < decimalBound ∧ text = toString n := by
  by_cases hn : n.natAbs < decimalBound
  · rw [decimal_of_lt hn]
    constructor
    · intro h
      exact ⟨hn, (Except.ok.inj h).symm⟩
    · rintro ⟨-, rfl⟩
      rfl
  · rw [decimal_of_not_lt hn]
    constructor
    · intro h
      exact nomatch h
    · rintro ⟨hlt, -⟩
      exact absurd hlt hn

/-! ## Reading what was written -/

theorem digitValue?_of_isAsciiDigit {c : Char} (h : isAsciiDigit c = true) :
    Text.digitValue? c = some (c.toNat - '0'.toNat) := by
  simp only [isAsciiDigit, Bool.and_eq_true, decide_eq_true_eq] at h
  simp only [Text.digitValue?]
  rw [if_pos (by omega), if_pos h]
  rfl

theorem isDigit_of_isAsciiDigit {c : Char} (h : isAsciiDigit c = true) : Text.isDigit c = true := by
  rw [Text.isDigit, digitValue?_of_isAsciiDigit h]
  rfl

theorem filterMap_digitValue? {cs : List Char} (h : ∀ d ∈ cs, isAsciiDigit d = true) :
    cs.filterMap Text.digitValue? = cs.map fun c => c.toNat - '0'.toNat := by
  induction cs with
  | nil => rfl
  | cons c cs ih =>
    obtain ⟨hc, hcs⟩ := List.forall_mem_cons.mp h
    rw [List.filterMap_cons_some (digitValue?_of_isAsciiDigit hc), ih hcs, List.map_cons]

theorem natural_of_forall {cs : List Char} (h : ∀ d ∈ cs, isAsciiDigit d = true) :
    Text.natural cs = Nat.ofDigitChars 10 cs 0 := by
  rw [Text.natural, Text.naturalOfDigits, filterMap_digitValue? h, List.foldl_map,
    Nat.ofDigitChars_eq_foldl]

/-- One digit more is one place more. -/
theorem natural_concat {d : Char} {value : Nat} (h : Text.digitValue? d = some value)
    (digits : List Char) : Text.natural (digits ++ [d]) = 10 * Text.natural digits + value := by
  rw [Text.natural, List.filterMap_append, List.filterMap_cons_some h, Text.naturalOfDigits,
    List.foldl_append]
  rfl

theorem natural_repr {n : Nat} (h : n < decimalBound) : Text.natural n.repr.toList = n := by
  rw [natural_of_forall (digits_repr h).2.2, Nat.toList_repr]
  exact Nat.ofDigitChars_toDigits (by omega) (by omega)

theorem asciiNatural?_repr {n : Nat} (h : n < decimalBound) :
    asciiNatural? n.repr.toList = some n := by
  obtain ⟨hne, hlength, hdigits⟩ := digits_repr h
  exact asciiNatural?_eq_some_iff.mpr ⟨hne, hlength, hdigits, (natural_repr h).symm⟩

/-- **An integer is read back from what is written for it.** -/
theorem integerOfChars?_of_decimal? {n : Int} {text : String} (h : decimal? n = some text) :
    integerOfChars? text.toList = some n := by
  unfold decimal? at h
  split at h
  · next hlt =>
    obtain rfl := Option.some.inj h
    rw [Int.toString_eq_repr, Int.repr_eq_if]
    have hpos : n.toNat ≤ n.natAbs := by omega
    have hneg : (-n).toNat ≤ n.natAbs := by omega
    split
    · next hnonneg =>
      have hread := asciiNatural?_repr (Nat.lt_of_le_of_lt hpos hlt)
      obtain ⟨hne, -, hdigits⟩ := digits_repr (Nat.lt_of_le_of_lt hpos hlt)
      obtain ⟨d, ds, hcons⟩ := List.exists_cons_of_ne_nil hne
      rw [hcons] at hread hdigits ⊢
      rw [integerOfChars?_of_digit (hdigits d (List.mem_cons_self ..)), hread]
      simp only [Option.map_some, Int.ofNat_eq_natCast, Option.some.injEq]
      omega
    · next hnegative =>
      have hread := asciiNatural?_repr (Nat.lt_of_le_of_lt hneg hlt)
      have htext : ("-" ++ (-n).toNat.repr).toList = '-' :: (-n).toNat.repr.toList := by
        rw [String.toList_append]
        rfl
      rw [htext, integerOfChars?_minus, hread]
      simp only [Option.map_some, Option.some.injEq]
      omega
  · simp at h

theorem integer?_of_decimal {n : Int} {text : String} (h : decimal n = .ok text) :
    integer? text = some n :=
  integerOfChars?_of_decimal? (decimal_eq_ok h)

/-! ## The size of what is read -/

/-- A number is below the power of ten that has a zero for each of its digits. -/
theorem naturalOfDigits_lt {values : List Nat} (h : ∀ value ∈ values, value < 10) :
    Text.naturalOfDigits values < 10 ^ values.length := by
  induction values using List.reverseRecOn with
  | nil => exact Nat.one_pos
  | append_singleton values last ih =>
    obtain ⟨hvalues, hlast⟩ := List.forall_mem_append.mp h
    have hlast := hlast last (List.mem_singleton_self last)
    have hlt := ih hvalues
    rw [Text.naturalOfDigits] at hlt ⊢
    rw [List.foldl_append, List.foldl_cons, List.foldl_nil, List.length_append,
      List.length_singleton, Nat.pow_succ]
    omega

theorem lt_of_asciiNatural? {cs : List Char} {n : Nat} (h : asciiNatural? cs = some n) :
    n < decimalBound := by
  obtain ⟨-, hlength, hdigits, rfl⟩ := asciiNatural?_eq_some_iff.mp h
  have hvalues : ∀ value ∈ cs.map fun c => c.toNat - '0'.toNat, value < 10 := by
    intro value hvalue
    obtain ⟨d, hd, rfl⟩ := List.mem_map.mp hvalue
    have hdigit := hdigits d hd
    simp only [isAsciiDigit, Bool.and_eq_true, decide_eq_true_eq] at hdigit
    have hzero : '0'.toNat = 0x30 := rfl
    omega
  have hlt := naturalOfDigits_lt hvalues
  rw [List.length_map] at hlt
  rw [Text.natural, filterMap_digitValue? hdigits, decimalBound_eq]
  exact hlt.trans_le (Nat.pow_le_pow_right (by decide) hlength)

/-- **An integer that is read can be written.** -/
theorem natAbs_lt_of_integer? {text : String} {n : Int} (h : integer? text = some n) :
    n.natAbs < decimalBound := by
  unfold integer? integerOfChars? at h
  split at h
  · obtain ⟨size, hsize, rfl⟩ := Option.map_eq_some_iff.mp h
    exact lt_of_asciiNatural? hsize
  · next ds _ =>
    change integerOfChars? ('-' :: ds) = some n at h
    rw [integerOfChars?_minus] at h
    obtain ⟨size, hsize, rfl⟩ := Option.map_eq_some_iff.mp h
    rw [Int.natAbs_neg, Int.natAbs_natCast]
    exact lt_of_asciiNatural? hsize
  · obtain ⟨size, hsize, rfl⟩ := Option.map_eq_some_iff.mp h
    exact lt_of_asciiNatural? hsize

/-! ## Canonical form -/

/-- An element, written as its integer is written when it is one. -/
def canonical (element : String) : String :=
  match integer? element with
  | some n => toString n
  | none => element

theorem canonical_of_integer? {element : String} {n : Int} (h : integer? element = some n) :
    canonical element = toString n := by
  rw [canonical, h]

/-- Far fewer digits are needed for the sizes of sequences. -/
theorem two_pow_lt_decimalBound : 2 ^ 67 < decimalBound := by
  decide +kernel

theorem lt_decimalBound {n : Nat} (h : n < 2 ^ 67) : n < decimalBound :=
  h.trans two_pow_lt_decimalBound

end NoteTape
