import NoteTape.Proofs.Console.Performance
import NoteTape.Proofs.Transport.Datagram

/-!
# The datagrams of a console

Every line that is a command makes a target and a tape that the plain wire carries as they are.  The
tape is a timed tape, so it is plain, `IsTimedTape.isPlain`.  The target is a word, a name of the
console itself or one that the line begins with, `Command.isWordTarget_of_read?`; it may have
letters of any script, but no space and no terminator.

The main result is `Command.datagram_performLine`.
-/

namespace NoteTape

open Play (Returns Settles)
open Text (isAscii isWordChar)

/-- A timed tape has no character that looks like an end. -/
theorem IsTimedTape.isPlain {tape : String} (h : IsTimedTape tape) : IsPlain tape := by
  have hends : ∀ d ∈ ['\n', ';'], ¬ IsElementChar d ∧ d ≠ ':' ∧ d ≠ ' ' :=
    List.forall_mem_cons.mpr ⟨by decide, List.forall_mem_singleton.mpr (by decide)⟩
  have hnone : ∀ d ∈ ['\n', ';'], d ∉ tape.toList := by
    intro d hd hmem
    obtain ⟨helement, hcolon, hspace⟩ := hends d hd
    obtain ⟨words, hwords, rfl⟩ := h
    rcases Text.mem_unwords hmem with hmem | ⟨w, hw, hmem⟩
    · exact hspace hmem
    · exact ((hwords w hw).mem hmem).elim helement hcolon
  refine ⟨h.isAscii, fun c hc => ?_⟩
  rw [← Bool.not_eq_true, isTerminator, Bool.or_eq_true, beq_iff_eq, beq_iff_eq]
  rintro (rfl | rfl)
  · exact hnone _ (by decide) hc
  · exact hnone _ (by decide) hc

/-! ## Targets -/

/-- A target that is a word. -/
structure IsWordTarget (target : String) : Prop where
  ne_empty : target ≠ ""
  word : ∀ c ∈ target.toList, isWordChar c = true

namespace IsWordTarget

variable {target : String}

/-- A word in ASCII goes over the wire as it is. -/
theorem isPlain (h : IsWordTarget target) (hascii : IsAsciiName target) : IsPlain target := by
  refine ⟨hascii, fun c hc => ?_⟩
  rw [← Bool.not_eq_true, isTerminator, Bool.or_eq_true, beq_iff_eq, beq_iff_eq]
  rintro (rfl | rfl)
  · exact absurd (h.word _ hc) (by decide +kernel)
  · exact absurd (h.word _ hc) (by decide +kernel)

theorem space_not_mem (h : IsWordTarget target) : ' ' ∉ target.toList :=
  fun hc => absurd (h.word _ hc) (by decide +kernel)

end IsWordTarget

namespace Command

variable {cs : List Char} {command : Command}

/-- The names of the console itself. -/
theorem isWordTarget_of_mem {name : String} (h : name ∈ ["kick", "bass", "melody"]) :
    IsWordTarget name := by
  have hall : ∀ name ∈ ["kick", "bass", "melody"],
      name ≠ "" ∧ name.toList.all isWordChar = true := by decide +kernel
  exact ⟨(hall name h).1, List.all_eq_true.mp (hall name h).2⟩

theorem isWordTarget_of_kick? (h : kick? cs = some command) : IsWordTarget command.target := by
  obtain ⟨_, -, h⟩ := Option.bind_eq_some_iff.mp h
  obtain ⟨numerals, -, h⟩ := Option.bind_eq_some_iff.mp h
  obtain rfl := Option.some.inj h
  exact isWordTarget_of_mem (show "kick" ∈ _ by decide)

theorem isWordTarget_of_bass? (h : bass? cs = some command) : IsWordTarget command.target := by
  obtain ⟨_, -, h⟩ := Option.bind_eq_some_iff.mp h
  obtain ⟨numerals, -, h⟩ := Option.bind_eq_some_iff.mp h
  obtain rfl := Option.some.inj h
  exact isWordTarget_of_mem (show "bass" ∈ _ by decide)

theorem isWordTarget_of_melody? {scale : String} (h : melody? scale cs = some command) :
    IsWordTarget command.target := by
  obtain ⟨_, -, h⟩ := Option.bind_eq_some_iff.mp h
  obtain ⟨⟨root, numerals⟩, -, h⟩ := Option.bind_eq_some_iff.mp h
  obtain rfl := Option.some.inj h
  exact isWordTarget_of_mem (show "melody" ∈ _ by decide)

theorem isWordTarget_of_swing? (h : swing? cs = some command) : IsWordTarget command.target := by
  obtain ⟨_, -, h⟩ := Option.bind_eq_some_iff.mp h
  obtain ⟨⟨root, numerals⟩, -, h⟩ := Option.bind_eq_some_iff.mp h
  obtain rfl := Option.some.inj h
  exact isWordTarget_of_mem (show "melody" ∈ _ by decide)

theorem isWordTarget_of_assign? (h : assign? cs = some command) : IsWordTarget command.target := by
  unfold assign? at h
  dsimp only at h
  split at h
  · exact nomatch h
  next hne =>
    obtain ⟨rest, -, h⟩ := Option.bind_eq_some_iff.mp h
    split at h
    · exact nomatch h
    · obtain rfl := Option.some.inj h
      refine ⟨fun hempty => hne ?_, fun c hc => ?_⟩
      · exact String.ofList_injective hempty
      · rw [target, String.toList_ofList] at hc
        exact List.mem_takeWhile_imp hc

/-- What both of two attempts find, the first that finds something does. -/
theorem of_orElse {good : Command → Prop} {first : Option Command} {second : Unit → Option Command}
    (hfirst : ∀ command, first = some command → good command)
    (hsecond : ∀ command, second () = some command → good command)
    (h : first.orElse second = some command) : good command := by
  cases first with
  | none => exact hsecond command h
  | some found => exact hfirst command h

/-- **The target of a command is a word.** -/
theorem isWordTarget_of_read? {line : String} (h : read? line = some command) :
    IsWordTarget command.target := by
  refine of_orElse (fun _ => isWordTarget_of_kick?) (fun _ => ?_) h
  refine of_orElse (fun _ => isWordTarget_of_bass?) fun _ => ?_
  refine of_orElse (fun _ => isWordTarget_of_melody?) fun _ => ?_
  refine of_orElse (fun _ => isWordTarget_of_melody?) fun _ => ?_
  exact of_orElse (fun _ => isWordTarget_of_swing?) fun _ => isWordTarget_of_assign?

/-! ## Lines -/

/-- What a line comes to is a word and a timed tape, from whatever source it is drawn. -/
theorem returns_performLine (line : String) :
    Returns (performLine line) fun performed => ∀ target tape, performed = some (target, tape) →
      IsWordTarget target ∧ IsTimedTape tape := by
  unfold performLine
  cases hread : read? line with
  | none => exact .pure fun target tape h => nomatch h
  | some command =>
    have hperform : Returns command.perform fun performed =>
        IsWordTarget performed.1 ∧ IsTimedTape performed.2 :=
      (returns_tape command).bind fun tape htape => .pure ⟨isWordTarget_of_read? hread, htape⟩
    refine hperform.bind fun performed h => .pure fun target tape heq => ?_
    obtain rfl := Option.some.inj heq
    exact h

/-- **The datagrams of a console.**  When a line comes to a target in ASCII and a tape, sending them
puts one datagram on the network: the target, a space and the tape, with the only semicolon and the
only line feed behind them.  The receiver has the target and the tape again, so that no two lines
with different targets or tapes make the same datagram. -/
theorem datagram_performLine {line : String} {origin : Origin} {desk : Desk} {target tape : String}
    (h : (origin.run (performLine line) desk).1.1 = .ok (some (target, tape)))
    (hascii : IsAsciiName target) :
    (∀ (answer : Destination → List UInt8 → Except Fault Unit) (wire : Wire)
        (sent : List (Destination × List UInt8)),
        ((Wire.send (.recording answer) target tape wire).run sent).2 =
          sent ++ [(wire.destination, datagram target tape)]) ∧
      (datagram target tape).count (byteOf ';') = 1 ∧
      (datagram target tape).count (byteOf '\n') = 1 ∧
      received (datagram target tape) = (target, some tape) ∧
      ∀ (line' : String) (origin' : Origin) (desk' : Desk) (target' tape' : String),
        (origin'.run (performLine line') desk').1.1 = .ok (some (target', tape')) →
        IsAsciiName target' → datagram target' tape' = datagram target tape →
        target' = target ∧ tape' = tape := by
  obtain ⟨htarget, htape⟩ := (returns_performLine line).of_run h _ _ rfl
  have hplain := htarget.isPlain hascii
  have hreceived := received_datagram hplain htarget.space_not_mem htape.isPlain
  refine ⟨fun answer wire sent => ?_, count_datagram hplain htape.isPlain (by decide),
    count_datagram hplain htape.isPlain (by decide), hreceived, ?_⟩
  · exact Wire.run_send_recording
      (wireBytes_eq_datagram htarget.ne_empty hplain htape.isPlain) answer wire sent
  · intro line' origin' desk' target' tape' h' hascii' heq
    obtain ⟨htarget', htape'⟩ := (returns_performLine line').of_run h' _ _ rfl
    have hreceived' := received_datagram (htarget'.isPlain hascii') htarget'.space_not_mem
      htape'.isPlain
    rw [heq, hreceived, Prod.mk.injEq, Option.some.injEq] at hreceived'
    exact ⟨hreceived'.1.symm, hreceived'.2.symm⟩

/-- Two fractions, a half and nine tenths, handed out in turn. -/
def twoDraws : Desk := ⟨.script ⟨#[.round false 1 2, .round false 9 10], 0⟩, #[]⟩

/-- A kick with swing. -/
theorem datagram_performLine_swing :
    (Origin.ambient.run (performLine "kick complex(9, 5)") twoDraws).1.1 =
        .ok (some ("kick", "1:2 1:0 -:2 1:0 -:2")) ∧
      IsAsciiName "kick" ∧
      (∀ (answer : Destination → List UInt8 → Except Fault Unit) (wire : Wire)
        (sent : List (Destination × List UInt8)),
        ((Wire.send (.recording answer) "kick" "1:2 1:0 -:2 1:0 -:2" wire).run sent).2 =
          sent ++ [(wire.destination, datagram "kick" "1:2 1:0 -:2 1:0 -:2")]) ∧
      (datagram "kick" "1:2 1:0 -:2 1:0 -:2").count (byteOf ';') = 1 ∧
      (datagram "kick" "1:2 1:0 -:2 1:0 -:2").count (byteOf '\n') = 1 ∧
      received (datagram "kick" "1:2 1:0 -:2 1:0 -:2") = ("kick", some "1:2 1:0 -:2 1:0 -:2") ∧
      ∀ (line' : String) (origin' : Origin) (desk' : Desk) (target' tape' : String),
        (origin'.run (performLine line') desk').1.1 = .ok (some (target', tape')) →
        IsAsciiName target' →
        datagram target' tape' = datagram "kick" "1:2 1:0 -:2 1:0 -:2" →
        target' = "kick" ∧ tape' = "1:2 1:0 -:2 1:0 -:2" := by
  have h : (Origin.ambient.run (performLine "kick complex(9, 5)") twoDraws).1.1 =
      .ok (some ("kick", "1:2 1:0 -:2 1:0 -:2")) := by decide +kernel
  have hascii : IsAsciiName "kick" := by decide
  exact ⟨h, hascii, datagram_performLine h hascii⟩

end Command
end NoteTape
