import Mathlib.Data.List.GetD
import NoteTape.Proofs.Number.Rounding
import NoteTape.Proofs.Play
import NoteTape.Rhythm.Euclid
import NoteTape.Rhythm.Resample

/-!
# Sequences at another length

`spread` repeats items or leaves some out, so its result has no items of its own,
`mem_of_spread`.  It has a result for every positive length that a sequence can have,
`exists_spread`, and for no other length, `spread_of_nonpos`.

`cycleItems` starts over from the first item, `cycled_cycleItems`.
-/

namespace NoteTape
namespace Rhythm

variable {α : Type} {items result : List α} {length : Int}

/-! ## Items -/

theorem mem_of_mem_stretch {copies size : Nat} {x : α} (h : x ∈ stretch items copies size) :
    x ∈ items := by
  obtain ⟨item, hitem, hcopy⟩ := List.mem_flatMap.mp (List.mem_of_mem_take h)
  rwa [List.eq_of_mem_replicate hcopy]

theorem mem_of_mem_compress {stride : Binary64} {size : Nat} {x : α}
    (h : x ∈ compress items stride size) : x ∈ items := by
  obtain ⟨i, -, hitem⟩ := List.mem_filterMap.mp h
  obtain ⟨index, -, hindex⟩ := Option.bind_eq_some_iff.mp hitem
  obtain ⟨place, -, hplace⟩ := Option.bind_eq_some_iff.mp hindex
  rw [List.getElem?_toArray] at hplace
  exact List.mem_of_getElem? hplace

/-- **Whatever its length, a result has no items of its own.** -/
theorem mem_of_spread (h : spread items length = .ok result) {x : α} (hx : x ∈ result) :
    x ∈ items := by
  rw [spread] at h
  split at h
  · simp at h
  · split at h
    · simp at h
    · split at h
      · rwa [Except.ok.inj h]
      · split at h
        · obtain ⟨quotient, -, h⟩ := Play.exists_of_bind_eq_ok h
          obtain ⟨copies, -, h⟩ := Play.exists_of_bind_eq_ok h
          obtain rfl := Except.ok.inj h
          exact mem_of_mem_stretch hx
        · obtain rfl := Except.ok.inj h
          exact mem_of_mem_compress hx

/-! ## Lengths -/

/-- No sequence is brought to a length that is not positive. -/
theorem spread_of_nonpos (items : List α) (h : length ≤ 0) :
    spread items length = .error (.spreadLength length) := by
  rw [spread, if_pos h]

/-- **Items are brought to every length** that a sequence can have. -/
theorem exists_spread (hne : items ≠ []) (hpos : 0 < length) (h : length < countBound) :
    ∃ result, spread items length = .ok result := by
  have hbound : countBound = 2 ^ 63 := rfl
  have hcount : 0 < items.length := List.length_pos_iff.mpr hne
  have hzero : (items.length : Int) ≠ 0 := by omega
  rw [spread, if_neg (by omega), if_neg hzero]
  split
  · exact ⟨items, rfl⟩
  · split
    · -- the quotient is no greater than the length, so it is finite and can be rounded up
      obtain ⟨x, hx, hwithin⟩ := Binary64.exists_ofQuotient? (n := length.toNat) (k := 63)
        hcount (by omega) (by omega)
      obtain ⟨i, hi⟩ := Binary64.exists_ceil? hwithin
      rw [Int.toNat_of_nonneg (Int.le_of_lt hpos)] at hx
      have hdiv : Quantity.div (.whole length) (.whole items.length) = .ok x := by
        simp only [Quantity.div, if_neg hzero, hx]
      have hceil : (Quantity.real x).ceil = .ok i := Quantity.integral_of_some hi
      refine ⟨stretch items i.toNat length.toNat, ?_⟩
      rw [hdiv]
      change (Quantity.real x).ceil >>= _ = _
      rw [hceil]
      rfl
    · exact ⟨_, rfl⟩

/-! ## Cycled items -/

/-- What is not the default is in the list. -/
theorem lt_length_of_getD_ne {i : Nat} {d : α} (h : items.getD i d ≠ d) : i < items.length := by
  by_contra hge
  exact h (List.getD_eq_default _ _ (by omega))

theorem getD_mem {i : Nat} {d : α} (h : items.getD i d ≠ d) : items.getD i d ∈ items := by
  rw [List.getD_eq_getElem _ _ (lt_length_of_getD_ne h)]
  exact List.getElem_mem _

theorem cycled?_nil (place : Nat) : cycled? ([] : List α).toArray place = none := rfl

theorem cycled?_of_ne_nil (hne : items ≠ []) (place : Nat) (d : α) :
    cycled? items.toArray place = some (items.getD (place % items.length) d) := by
  have hlt : place % items.length < items.length := Nat.mod_lt place (List.length_pos_iff.mpr hne)
  rw [cycled?, List.size_toArray, List.getElem?_toArray, List.getElem?_eq_getElem hlt,
    List.getD_eq_getElem _ _ hlt]

theorem cycleItems_nil (length : Nat) : cycleItems ([] : List α) length = [] :=
  List.filterMap_eq_nil_iff.mpr fun place _ => cycled?_nil place

theorem cycleItems_eq_map (hne : items ≠ []) (d : α) (length : Nat) :
    cycleItems items length =
      (List.range length).map fun place => items.getD (place % items.length) d := by
  rw [cycleItems, List.filterMap_congr fun place _ => cycled?_of_ne_nil hne place d,
    List.filterMap_eq_map']

/-- The items of a sequence over and over, up to a length. -/
structure Cycled (items : List α) (length : Nat) (result : List α) : Prop where
  length_eq : result.length = length
  getElem?_eq (place : Nat) (h : place < length) :
    result[place]? = items[place % items.length]?

/-- **A sequence is cycled from its first item on.** -/
theorem cycled_cycleItems (hne : items ≠ []) (length : Nat) :
    Cycled items length (cycleItems items length) := by
  obtain ⟨first, -⟩ := List.exists_mem_of_ne_nil items hne
  have hlt (place : Nat) : place % items.length < items.length :=
    Nat.mod_lt place (List.length_pos_iff.mpr hne)
  rw [cycleItems_eq_map hne first]
  refine ⟨by rw [List.length_map, List.length_range], fun place hplace => ?_⟩
  rw [List.getElem?_map, List.getElem?_range hplace, Option.map_some,
    List.getElem?_eq_getElem (hlt place), List.getD_eq_getElem _ _ (hlt place)]

theorem mem_of_mem_cycleItems {size : Nat} {x : α} (h : x ∈ cycleItems items size) : x ∈ items := by
  obtain ⟨place, -, hitem⟩ := List.mem_filterMap.mp h
  rw [cycled?, List.getElem?_toArray] at hitem
  exact List.mem_of_getElem? hitem

theorem cycleItems_map {β : Type} (f : α → β) (items : List α) (length : Nat) :
    cycleItems (items.map f) length = (cycleItems items length).map f := by
  have hcycled (place : Nat) :
      cycled? (items.map f).toArray place = (cycled? items.toArray place).map f := by
    rw [cycled?, cycled?, List.size_toArray, List.size_toArray, List.getElem?_toArray,
      List.getElem?_toArray, List.length_map, List.getElem?_map]
  rw [cycleItems, cycleItems, List.map_filterMap]
  exact List.filterMap_congr fun place _ => hcycled place

/-- A sequence is not cycled to its own length. -/
theorem cycleItems_length_self (items : List α) : cycleItems items items.length = items := by
  rcases eq_or_ne items [] with rfl | hne
  · rfl
  have hcycled := cycled_cycleItems hne items.length
  refine List.ext_getElem? fun place => ?_
  by_cases hplace : place < items.length
  · rw [hcycled.getElem?_eq place hplace, Nat.mod_eq_of_lt hplace]
  · rw [List.getElem?_eq_none (by rw [hcycled.length_eq]; omega), List.getElem?_eq_none (by omega)]

end Rhythm
end NoteTape
