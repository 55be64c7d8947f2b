import NoteTape.Console.Performance
import NoteTape.Proofs.Melody.Elements
import NoteTape.Proofs.Melody.Generator
import NoteTape.Proofs.Pattern.Failure
import NoteTape.Proofs.Pattern.Seam
import NoteTape.Proofs.Tape.Timed

/-!
# Performing a line

What a line comes to depends on the line and on the state of the source alone,
`Command.alike_performLine`: no command looks at the notices that were given before.

What a command returns is a timed tape, `Command.returns_tape`.  With a source of random numbers it
returns one or has a fault of the input, `Command.settles_tape`, with a single exception.  A kick divides its complexity, which may have
thousands of digits, by twenty and by ten, and a quotient past the greatest floating-point number
is no fault of the input: `Command.outcome_tape_of_overflows`.
-/

namespace NoteTape

open Melody (InputFault)
open Play (Alike Returns Settles Verdict)

/-! ## Notices -/

theorem alike_kickElements (chance : Quantity) (length : Nat) :
    Alike (kickElements chance length) (kickElements chance length) := by
  cases length with
  | zero => exact .pure []
  | succ count =>
    refine Alike.bind (.mapM fun _ _ => (Alike.happens chance).bind fun happened => ?_)
      fun rest => .pure _
    split
    · exact .pure "1"
    · exact .pure "-"

theorem alike_kickTape (complexity length : Int) :
    Alike (kickTape complexity length) (kickTape complexity length) := by
  refine (Alike.lift _).bind fun chance => (alike_kickElements chance _).bind fun elements => ?_
  split
  · exact (Alike.lift _).bind fun amount => .pure _
  · exact .pure _

namespace Command

theorem alike_tape (command : Command) : Alike command.tape command.tape := by
  cases command with
  | kick numerals => exact (Alike.lift _).bind fun read => alike_kickTape read.1 read.2
  | bass numerals => exact (Alike.lift _).bind fun read => Melody.alike_generate _
  | melody scale root numerals => exact (Alike.lift _).bind fun read => Melody.alike_generate _
  | swing root numerals => exact (Alike.lift _).bind fun read => Melody.alike_generateSwung _ _
  | assign target text => exact Pattern.alike_compile .standard text

/-- **A command looks at no notices.** -/
theorem alike_performLine (line : String) : Alike (performLine line) (performLine line) := by
  unfold performLine
  cases read? line with
  | none => exact .pure none
  | some command =>
    exact Alike.bind ((alike_tape command).bind fun tape => .pure (command.target, tape))
      fun performed => .pure (some performed)

end Command

/-! ## Kicks -/

theorem isElement_one : IsElement "1" := .inr ((isSome_integerOfChars?_iff _).mp (by decide +kernel))

theorem settles_kickElements {steady : Source → Prop} (hdraw : ∀ s, steady s → steady s.uniform.2)
    (chance : Quantity) (length : Nat) {bad : Fault → Prop} :
    Settles steady (kickElements chance length) (fun elements => ∀ e ∈ elements, IsElement e)
      bad := by
  cases length with
  | zero => exact .pure (by simp)
  | succ count =>
    have hsteps : Settles steady (kickSteps chance count)
        (fun elements => ∀ e ∈ elements, IsElement e) bad := by
      refine .mapM_forall fun _ _ => ?_
      refine (Play.settles_happens chance hdraw).bind fun happened _ => ?_
      split
      · exact .pure isElement_one
      · exact .pure (.inl rfl)
    exact hsteps.bind fun rest hrest => .pure (List.forall_mem_cons.mpr ⟨isElement_one, hrest⟩)

theorem div_whole_of_some {a b : Int} {x : Binary64} (hb : b ≠ 0)
    (h : Binary64.ofQuotient? a b = some x) : (Quantity.whole a).div (.whole b) = .ok x := by
  simp only [Quantity.div, if_neg hb, h]

theorem div_whole_of_none {a b : Int} (hb : b ≠ 0) (h : Binary64.ofQuotient? a b = none) :
    (Quantity.whole a).div (.whole b) = .error .quotientPastReals := by
  simp only [Quantity.div, if_neg hb, h]

theorem exists_beatChance {complexity : Int} {share : Binary64}
    (h : Binary64.ofQuotient? complexity 20 = some share) :
    ∃ chance, beatChance complexity = .ok chance := by
  obtain ⟨one, hone, -⟩ := Binary64.exists_ofInt? (n := 1) (k := 0) (by decide) (by omega)
  have hreal : (1 : Quantity).toReal = .ok one := by
    change (Quantity.whole 1).toReal = .ok one
    simp only [Quantity.toReal, hone]
  have hdiv : (Quantity.whole complexity).div 20 = .ok share :=
    div_whole_of_some (b := 20) (by decide) h
  have hsub : (1 : Quantity).sub (.real share) = .ok (.real (one.sub share)) := by
    change (1 : Quantity).toReal >>= _ = _
    rw [hreal]
    rfl
  refine ⟨Quantity.atLeast leastBeatChance (.real (one.sub share)), ?_⟩
  rw [beatChance, hdiv]
  change (do return Quantity.atLeast leastBeatChance (← (1 : Quantity).sub (.real share))) = _
  rw [hsub]
  rfl

/-- A kick is a timed tape, from whatever source it is drawn. -/
theorem returns_kickTape (complexity length : Int) :
    Returns (kickTape complexity length) IsTimedTape := by
  refine (Settles.any _).bind fun chance _ =>
    (settles_kickElements (fun _ _ => trivial) chance _).bind fun elements helements => ?_
  have htape : IsTape (Text.unwords elements) := ⟨elements, helements, rfl⟩
  split
  · exact (Settles.any _).bind fun amount _ => .pure (htape.isTimedTape_swing _)
  · exact .pure htape.isTimedTape

/-- A kick returns when the quotients of its complexity are there. -/
theorem settles_kickTape {complexity : Int} {share amount : Binary64}
    (hshare : Binary64.ofQuotient? complexity 20 = some share)
    (hamount : Binary64.ofQuotient? complexity 10 = some amount) (length : Int) :
    Settles Source.Fair (kickTape complexity length) (fun _ => True) InputFault := by
  obtain ⟨chance, hchance⟩ := exists_beatChance hshare
  have hdiv : (Quantity.whole complexity).div 10 = .ok amount :=
    div_whole_of_some (b := 10) (by decide) hamount
  rw [kickTape, hchance, Play.liftM_ok, pure_bind]
  refine (settles_kickElements (fun s hs => hs.uniform) chance _).bind fun elements _ => ?_
  split
  · rw [hdiv, Play.liftM_ok, pure_bind]
    exact .pure trivial
  · exact .pure trivial

/-- A kick fails when one of the quotients is not there. -/
theorem outcome_kickTape {complexity : Int} (hpos : 0 ≤ complexity)
    (h : Binary64.ofQuotient? complexity 20 = none ∨ Binary64.ofQuotient? complexity 10 = none)
    (length : Int) {desk : Desk} (hfair : desk.source.Fair) :
    ∃ after, (kickTape complexity length).outcome desk = (.error .quotientPastReals, after) := by
  cases hshare : Binary64.ofQuotient? complexity 20 with
  | none =>
    have hchance : beatChance complexity = .error .quotientPastReals := by
      change (Quantity.whole complexity).div (.whole 20) >>= _ = _
      rw [div_whole_of_none (by decide) hshare]
      rfl
    refine ⟨desk, Play.outcome_bind_error ?_⟩
    rw [hchance]
    rfl
  | some share =>
    have hamount : Binary64.ofQuotient? complexity 10 = none := by
      rcases h with h | h
      · exact absurd (hshare.symm.trans h) (by simp)
      · exact h
    -- no small complexity is without a quotient
    have hlarge : 5 < complexity := by
      by_contra hsmall
      obtain ⟨amount, hsome, -⟩ := Binary64.exists_ofQuotient? (n := complexity.toNat) (d := 10)
        (k := 0) (by omega) (by omega) (by omega)
      rw [Int.toNat_of_nonneg hpos] at hsome
      exact absurd (hsome.symm.trans hamount) (by simp)
    obtain ⟨chance, hchance⟩ := exists_beatChance hshare
    obtain ⟨elements, after, helements, -, -⟩ :=
      (settles_kickElements (fun s hs => hs.uniform) chance length.toNat).exists_ok desk hfair
    have hdiv : (Quantity.whole complexity).div 10 = .error .quotientPastReals :=
      div_whole_of_none (b := 10) (by decide) hamount
    refine ⟨after, ?_⟩
    rw [kickTape, hchance, Play.liftM_ok, pure_bind, Play.outcome_bind_ok helements,
      if_pos hlarge, hdiv]
    rfl

/-! ## Commands -/

/-- A complexity that has no quotient by twenty, or none by ten. -/
def Numerals.Overflows (numerals : Numerals) : Prop :=
  ∃ complexity length, numerals.read = .ok (complexity, length) ∧
    (Binary64.ofQuotient? complexity 20 = none ∨ Binary64.ofQuotient? complexity 10 = none)

instance (numerals : Numerals) : Decidable numerals.Overflows :=
  match h : numerals.read with
  | .error _ => isFalse fun ⟨_, _, hread, _⟩ => nomatch h.symm.trans hread
  | .ok (complexity, length) =>
      decidable_of_iff
        (Binary64.ofQuotient? complexity 20 = none ∨ Binary64.ofQuotient? complexity 10 = none)
        ⟨fun hnone => ⟨complexity, length, h, hnone⟩, fun ⟨_, _, hread, hnone⟩ => by
          cases h.symm.trans hread
          exact hnone⟩

/-- Numerals are read as natural numbers, unless one is too long. -/
theorem Numerals.verdict_read (numerals : Numerals) :
    Verdict (fun read => 0 ≤ read.1) InputFault numerals.read := by
  have hnatural (cs : List Char) : Verdict (fun _ => True) InputFault (naturalOfChars cs) := by
    unfold naturalOfChars naturalOfDigitRun
    split
    · exact (rfl : InputFault (.numeralTooLong _))
    · trivial
  unfold read
  refine (hnatural _).bind fun complexity _ => ?_
  cases numerals.length with
  | none => exact Int.natCast_nonneg complexity
  | some digits => exact (hnatural digits).bind fun length _ => Int.natCast_nonneg complexity

namespace Command

/-- A kick of a complexity without a quotient. -/
def Overflows : Command → Prop
  | kick numerals => numerals.Overflows
  | _ => False

instance (command : Command) : Decidable command.Overflows :=
  match command with
  | kick numerals => inferInstanceAs (Decidable numerals.Overflows)
  | bass _ => instDecidableFalse
  | melody _ _ _ => instDecidableFalse
  | swing _ _ => instDecidableFalse
  | assign _ _ => instDecidableFalse

/-- **What a command returns is a timed tape,** from whatever source it is drawn. -/
theorem returns_tape (command : Command) : Returns command.tape IsTimedTape := by
  cases command with
  | kick numerals => exact (Settles.any _).bind fun read _ => returns_kickTape read.1 read.2
  | bass numerals =>
    exact (Settles.any _).bind fun read _ =>
      (Melody.returns_generate _).mono (fun _ htape => htape.isTimedTape) fun _ h => h
  | melody scale root numerals =>
    exact (Settles.any _).bind fun read _ =>
      (Melody.returns_generate _).mono (fun _ htape => htape.isTimedTape) fun _ h => h
  | swing root numerals =>
    exact (Settles.any _).bind fun read _ => (Melody.returns_generate _).bind fun tape htape =>
      .pure (htape.isTimedTape_swing swingAmount)
  | assign target text =>
    refine (Settles.any _).of_returns fun desk tape after hok => ?_
    exact (Pattern.isTape_of_compile (fun note => Pattern.isNumeral_of_mem_standard) hok).isTimedTape

/-- What a command needs of its numerals. -/
theorem settles_read (numerals : Numerals) {p : Int × Int → Play String}
    (h : ∀ complexity length, numerals.read = .ok (complexity, length) →
      Settles Source.Fair (p (complexity, length)) (fun _ => True) InputFault) :
    Settles Source.Fair (liftM numerals.read >>= p) (fun _ => True) InputFault := by
  have hverdict := numerals.verdict_read
  cases hread : numerals.read with
  | error fault =>
    rw [hread] at hverdict
    exact fun _ hs => ⟨hs, hverdict⟩
  | ok read =>
    rw [Play.liftM_ok, pure_bind]
    exact h read.1 read.2 hread

/-- A melody with the numbers of a command as settings. -/
theorem settles_melody (numerals : Numerals) {spec : Int → Int → MelodySpec}
    (h : ∀ complexity length, Melody.WholeSettings (spec complexity length)) :
    Settles Source.Fair (liftM numerals.read >>= fun read => Melody.generate (spec read.1 read.2))
      (fun _ => True) InputFault :=
  settles_read numerals fun complexity length _ =>
    (Melody.settles_generate (h complexity length)).mono (fun _ _ => trivial) fun _ h => h

/-- **A command has a timed tape or a fault of the input.** -/
theorem settles_tape {command : Command} (h : ¬ command.Overflows) :
    Settles Source.Fair command.tape IsTimedTape InputFault := by
  have hsettles : Settles Source.Fair command.tape (fun _ => True) InputFault := by
    cases command with
    | kick numerals =>
      refine settles_read numerals fun complexity length hread => ?_
      cases hshare : Binary64.ofQuotient? complexity 20 with
      | none => exact absurd ⟨complexity, length, hread, .inl hshare⟩ h
      | some share =>
        cases hamount : Binary64.ofQuotient? complexity 10 with
        | none => exact absurd ⟨complexity, length, hread, .inr hamount⟩ h
        | some amount => exact settles_kickTape hshare hamount length
    | bass numerals =>
      exact settles_melody numerals fun complexity length =>
        ⟨⟨_, rfl⟩, ⟨_, rfl⟩, ⟨5, rfl⟩, ⟨5, rfl⟩, ⟨5, rfl⟩⟩
    | melody scale root numerals =>
      exact settles_melody numerals fun complexity length =>
        ⟨⟨_, rfl⟩, ⟨_, rfl⟩, ⟨5, rfl⟩, ⟨_, rfl⟩, ⟨5, rfl⟩⟩
    | swing root numerals =>
      refine settles_read numerals fun complexity length _ => ?_
      have hspec : Melody.WholeSettings (swingSpec root complexity length) :=
        ⟨⟨_, rfl⟩, ⟨_, rfl⟩, ⟨5, rfl⟩, ⟨5, rfl⟩, ⟨5, rfl⟩⟩
      exact (Melody.settles_generate hspec).bind fun tape _ => .pure trivial
    | assign target text =>
      refine (Pattern.soft_compiler .standard Pattern.nestingLimit text.toList).mono
        (fun _ _ => trivial) fun fault hfault => ?_
      obtain ⟨digits, -, rfl⟩ := hfault
      rfl
  exact hsettles.of_returns fun desk tape after hok => (returns_tape command).of_ok hok

/-- **A kick past the reals fails**, and not with a fault of the input. -/
theorem outcome_tape_of_overflows {command : Command} (h : command.Overflows) (desk : Desk)
    (hfair : desk.source.Fair) :
    ∃ after, command.tape.outcome desk = (.error .quotientPastReals, after) := by
  cases command with
  | kick numerals =>
    obtain ⟨complexity, length, hread, hquotient⟩ := h
    have hpos := numerals.verdict_read
    rw [hread] at hpos
    obtain ⟨after, houtcome⟩ := outcome_kickTape hpos hquotient length hfair
    refine ⟨after, ?_⟩
    rw [tape, hread, Play.liftM_ok, pure_bind]
    exact houtcome
  | bass numerals => exact h.elim
  | melody scale root numerals => exact h.elim
  | swing root numerals => exact h.elim
  | assign target text => exact h.elim

/-- A complexity of four hundred nines has no quotient. -/
example : (kick ⟨List.replicate 400 '9', none⟩).Overflows := by decide +kernel

end Command
end NoteTape
