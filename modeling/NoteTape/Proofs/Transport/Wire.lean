import Mathlib.Data.List.TakeWhile
import NoteTape.Proofs.Text.Words
import NoteTape.Transport.Wire

/-!
# What the plain wire can carry

A message can be encoded when all its characters are ASCII, and only then.  The terminators that
are replaced are ASCII themselves, so it makes no difference that they are cut off first.  A tape
that is ASCII can therefore be sent to a target exactly when the name of the target is ASCII,
`exists_wireBytes_eq_ok` and `exists_wireBytes_eq_error`.
-/

namespace NoteTape

open Text (isAscii)

namespace Text

theorem mem_trimEnd_of_mem {drop : Char → Bool} {cs : List Char} {c : Char} (h : c ∈ cs)
    (hc : drop c = false) : c ∈ trimEnd drop cs := by
  rw [trimEnd, List.mem_reverse]
  have hmem : c ∈ cs.reverse.takeWhile drop ++ cs.reverse.dropWhile drop := by
    rw [List.takeWhile_append_dropWhile]
    exact List.mem_reverse.mpr h
  rcases List.mem_append.mp hmem with htake | hdrop
  · exact absurd (List.mem_takeWhile_imp htake) (by simp [hc])
  · exact hdrop

/-- A text has bytes when all its characters have. -/
theorem asciiBytes?_eq_ok {cs : List Char} (h : ∀ c ∈ cs, isAscii c = true) :
    asciiBytes? cs = .ok (cs.map fun c => UInt8.ofNat c.toNat) := by
  have hnone : foreignRun? cs = none := by
    rw [foreignRun?, List.dropWhile_eq_nil_iff.mpr h]
  rw [asciiBytes?, hnone]

/-- A character without a byte is reported. -/
theorem exists_asciiBytes?_eq_error {cs : List Char} {c : Char} (hmem : c ∈ cs)
    (hc : isAscii c = false) : ∃ run, asciiBytes? cs = .error run := by
  cases hrest : cs.dropWhile isAscii with
  | nil =>
    have hall := List.dropWhile_eq_nil_iff.mp hrest c hmem
    exact absurd hall (by simp [hc])
  | cons d rest =>
    refine ⟨⟨(cs.takeWhile isAscii).length, d, (rest.takeWhile fun d => !isAscii d).length⟩, ?_⟩
    have hrun : foreignRun? cs =
        some ⟨(cs.takeWhile isAscii).length, d, (rest.takeWhile fun d => !isAscii d).length⟩ := by
      rw [foreignRun?, hrest]
    rw [asciiBytes?, hrun]

end Text

theorem isAscii_of_isTerminator {c : Char} (h : isTerminator c = true) : isAscii c = true := by
  rw [isTerminator, Bool.or_eq_true, beq_iff_eq, beq_iff_eq] at h
  rcases h with rfl | rfl
  · decide
  · decide

/-- A name that the wire can carry. -/
def IsAsciiName (target : String) : Prop := ∀ c ∈ target.toList, isAscii c = true

instance (target : String) : Decidable (IsAsciiName target) :=
  List.decidableBAll (fun c => isAscii c = true) target.toList

theorem toList_wireMessage (target tape : String) :
    (wireMessage target tape).toList = target.toList ++ (if target = "" then [] else [' ']) ++
      tape.toList := by
  unfold wireMessage
  split
  · next h => simp [h]
  · simp

/-- **A tape in ASCII can be sent to a target** whose name is ASCII. -/
theorem exists_wireBytes_eq_ok {target tape : String} (htape : ∀ c ∈ tape.toList, isAscii c = true)
    (htarget : IsAsciiName target) :
    ∃ bytes, wireBytes (wireMessage target tape) = .ok bytes := by
  have hmessage : ∀ c ∈ (wireMessage target tape).toList, isAscii c = true := by
    intro c hc
    rw [toList_wireMessage, List.mem_append, List.mem_append] at hc
    rcases hc with (hc | hc) | hc
    · exact htarget c hc
    · split at hc
      · exact absurd hc List.not_mem_nil
      · obtain rfl := List.mem_singleton.mp hc
        decide
    · exact htape c hc
  have hends : ∀ c ∈ [';', '\n'], isAscii c = true := by simp [isAscii]
  have hall : ∀ c ∈ Text.trimEnd isTerminator (wireMessage target tape).toList ++ [';', '\n'],
      isAscii c = true :=
    List.forall_mem_append.mpr ⟨fun c hc => hmessage c (Text.mem_of_mem_trimEnd hc), hends⟩
  rw [wireBytes, Text.asciiBytes?_eq_ok hall]
  exact ⟨_, rfl⟩

/-- **No tape can be sent to any other target.** -/
theorem exists_wireBytes_eq_error {target : String} (htarget : ¬ IsAsciiName target)
    (tape : String) : ∃ run, wireBytes (wireMessage target tape) = .error (.notAscii run) := by
  obtain ⟨c, hmem, hc⟩ : ∃ c ∈ target.toList, isAscii c = false := by
    simpa [IsAsciiName] using htarget
  have hkept : isTerminator c = false := by
    rw [← Bool.not_eq_true]
    intro hterminator
    exact absurd (isAscii_of_isTerminator hterminator) (by simp [hc])
  have hmessage : c ∈ (wireMessage target tape).toList := by
    rw [toList_wireMessage]
    exact List.mem_append_left _ (List.mem_append_left _ hmem)
  obtain ⟨run, hrun⟩ := Text.exists_asciiBytes?_eq_error
    (List.mem_append_left [';', '\n'] (Text.mem_trimEnd_of_mem hmessage hkept)) hc
  rw [wireBytes, hrun]
  exact ⟨run, rfl⟩

end NoteTape
