import NoteTape.Pattern.Compile
import NoteTape.Proofs.Pattern.Expansion
import NoteTape.Proofs.Pattern.Token
import NoteTape.Proofs.Rhythm.Resample

/-!
# When a pattern cannot be compiled

Compiling is fail-soft, and the exception is a single one.  Calls are expanded without a fault: a
Euclidean call is expanded or left, and so is a spread call, since whatever goes wrong inside it
is a fault of the input that the call recovers from.  Variables are substituted by a function.
What was read can be expanded, because reading bounds the numbers of a token.

There remains the reading of lexemes, which fails on an overlong one and on no other.  So with a
source of random numbers a pattern has a tape unless some lexeme is overlong once the calls are
expanded and the variables substituted: `compile_outcome`.

The induction is on the levels of spread calls.  Its invariant is that a compiler settles on a
tape or on a number that is too long, which is what the calls one level up recover from.
-/

namespace NoteTape

open Play (Settles Verdict)

variable {steady : Source → Prop} {bad : Fault → Prop}

/-! ## Tokens that were read -/

/-- What reading lets through is within the bounds that an expansion needs. -/
theorem Token.WellRead.fits {token : Token} (h : token.WellRead) : token.Fits := by
  have hlimit : ((stepLimit : Nat) : Int) < Rhythm.countBound := by decide
  have hbound : Rhythm.countBound = 2 ^ 63 := rfl
  cases token with
  | rest count => exact ⟨h.1, Int.lt_of_le_of_lt h.2 hlimit⟩
  | groupRepeat count => exact ⟨h.1, Int.lt_of_le_of_lt h.2 hlimit⟩
  | randomRange low high =>
    obtain ⟨hlow, hlt, hhigh⟩ := h
    exact ⟨by omega, by omega, by omega⟩
  | note text => trivial
  | groupStart => trivial
  | groupEnd => trivial
  | random => trivial
  | unknown raw => trivial

namespace Pattern

/-- **The last two stages**: a text without calls has a tape unless a lexeme is overlong. -/
theorem settles_assemble (context : Context) (text : List Char) :
    Settles Source.Fair (assemble context text)
      (fun _ => ∀ lexeme ∈ Text.words (String.ofList (substitute context text)),
        ¬ Token.Overlong lexeme.toList)
      fun fault => (∃ lexeme ∈ Text.words (String.ofList (substitute context text)),
        Token.Overlong lexeme.toList) ∧ Token.TooLong fault := by
  refine (Token.settles_ofText _).bind fun tokens ⟨hread, hshort⟩ => ?_
  have hexpand : Settles Source.Fair (expand context tokens) (fun _ => True) fun fault =>
      (∃ lexeme ∈ Text.words (String.ofList (substitute context text)),
        Token.Overlong lexeme.toList) ∧ Token.TooLong fault :=
    (Expansion.settles_expand_of_fits context fun token hmem => (hread token hmem).fits).mono
      (fun _ _ => trivial) fun _ hfault => hfault.elim
  exact hexpand.bind fun _ _ => .pure hshort

/-! ## Calls -/

theorem settles_leave (call : List Char) (reason : String) :
    Settles steady (Call.leave call reason) (fun _ => True) bad :=
  Settles.notify.bind fun _ _ => .pure trivial

theorem settles_replaceCalls {β : Type} {expand : β → Play (List Char)}
    (h : ∀ call, Settles steady (expand call) (fun _ => True) bad) (parts : List (Char ⊕ β)) :
    Settles steady (Call.replaceCalls expand parts) (fun _ => True) bad := by
  unfold Call.replaceCalls
  refine Settles.bind (?_ : Settles steady _ (fun _ => True) bad) fun _ _ => .pure trivial
  refine (Settles.mapM fun part _ => (?_ : Settles steady _ (fun _ => True) bad)).mono
    (fun _ _ => trivial) ?_
  · cases part with
    | inl c => exact .pure trivial
    | inr call => exact h call
  · rintro fault ⟨part, -, hfault⟩
    exact hfault

/-- A Euclidean call is expanded or left. -/
theorem settles_expandEuclids (text : List Char) :
    Settles steady (Call.expandEuclids text) (fun _ => True) bad := by
  refine settles_replaceCalls (fun call => ?_) _
  unfold Call.expandEuclid
  split
  · split
    · exact settles_leave _ _
    · split
      · exact .pure trivial
      · exact settles_leave _ _
  · exact settles_leave _ _

/-- A tape is brought to every length of steps; an empty one becomes rests. -/
theorem exists_spreadTape (tape : String) {length : Int} (hpos : 0 < length)
    (h : length ≤ stepLimit) : ∃ longer, Call.spreadTape tape length = .ok longer := by
  have hlarge : (stepLimit : Int) < Rhythm.countBound := by decide
  unfold Call.spreadTape
  simp only
  split
  · rw [Rhythm.repetitions_of_lt (by omega) (by omega)]
    exact ⟨_, rfl⟩
  · next hfilled =>
    have hne : Text.words tape ≠ [] := by
      intro hnil
      exact hfilled ⟨hpos, by rw [hnil]; rfl⟩
    obtain ⟨result, hresult⟩ := Rhythm.exists_spread hne hpos (Int.lt_of_le_of_lt h hlarge)
    rw [hresult]
    exact ⟨_, rfl⟩

/-- No tape is brought to a length that is not positive. -/
theorem spreadTape_of_nonpos (tape : String) {length : Int} (h : length ≤ 0) :
    Call.spreadTape tape length = .error (.spreadLength length) := by
  unfold Call.spreadTape
  simp only
  rw [if_neg fun hfilled => absurd hfilled.1 (Int.not_lt.mpr h), Rhythm.spread_of_nonpos _ h]
  rfl

/-- The only fault of a tape that is brought to a length of steps is a length that is not
positive. -/
theorem verdict_spreadTape (tape : String) {length : Int} (h : length ≤ stepLimit) :
    Verdict (fun _ => True) (· = .spreadLength length) (Call.spreadTape tape length) := by
  by_cases hpos : 0 < length
  · obtain ⟨longer, hlonger⟩ := exists_spreadTape tape hpos h
    rw [hlonger]
    trivial
  · rw [spreadTape_of_nonpos tape (Int.not_lt.mp hpos)]
    rfl

/-- What can go wrong inside a spread call. -/
def SpreadFault (fault : Fault) : Prop :=
  Token.TooLong fault ∨ ∃ length, fault = .spreadLength length

theorem SpreadFault.isInput {fault : Fault} (h : SpreadFault fault) : fault.isInput = true := by
  rcases h with ⟨digits, -, rfl⟩ | ⟨length, rfl⟩
  · rfl
  · rfl

/-- A compiler whose only fault is a number that is too long. -/
def Soft (compile : Compiler) : Prop :=
  ∀ text, Settles Source.Fair (compile text) (fun _ => True) Token.TooLong

/-- A spread call recovers from what a soft compiler cannot compile. -/
theorem settles_expandSpreadTo {inner : Option Compiler} (h : ∀ compile ∈ inner, Soft compile)
    (call pattern : List Char) (length : Int) :
    Settles Source.Fair (expandSpreadTo inner call pattern length) (fun _ => True) bad := by
  unfold expandSpreadTo
  split
  · exact settles_leave _ _
  · next hlength =>
    cases inner with
    | none => exact settles_leave _ _
    | some compile =>
      have hcompile : Settles Source.Fair (compile pattern) (fun _ => True) SpreadFault :=
        (h compile rfl pattern).mono (fun _ _ => trivial) fun _ hfault => .inl hfault
      have hattempt : Settles Source.Fair (Play.attempt do
            let tape ← compile pattern
            Call.spreadTape tape length) (Verdict (fun _ => True) SpreadFault) bad := by
        refine (Settles.attempt (hcompile.bind fun tape _ => ?_)).mono (fun _ hresult => hresult)
          fun _ hfault => hfault.elim
        refine (Settles.lift (verdict_spreadTape tape (Int.not_lt.mp hlength))).mono
          (fun _ _ => trivial) ?_
        rintro _ rfl
        exact .inr ⟨length, rfl⟩
      refine hattempt.bind fun result hresult => ?_
      cases result with
      | ok tape => exact .pure trivial
      | error fault =>
        have hinput : fault.isInput = true := SpreadFault.isInput hresult
        simp only [hinput, if_true]
        exact settles_leave _ _

/-- **Calls are expanded or left.** -/
theorem settles_expandCallsWith {inner : Option Compiler} (h : ∀ compile ∈ inner, Soft compile)
    (text : List Char) :
    Settles Source.Fair (expandCallsWith inner text) (fun _ => True) bad := by
  refine (settles_expandEuclids text).bind fun text _ => settles_replaceCalls (fun call => ?_) _
  cases call with
  | closed arguments =>
    unfold expandSpreadPiece expandSpread
    simp only
    split
    · exact settles_leave _ _
    · split
      · exact settles_leave _ _
      · exact settles_expandSpreadTo h _ _ _
  | unclosed text => exact Settles.notify.bind fun _ _ => .pure trivial

/-- The compilers at all levels are soft. -/
theorem soft_compiler (context : Context) (levels : Nat) : Soft (compiler context levels) := by
  have hassemble (text : List Char) :
      Settles Source.Fair (assemble context text) (fun _ => True) Token.TooLong :=
    (settles_assemble context text).mono (fun _ _ => trivial) fun _ hfault => hfault.2
  induction levels with
  | zero =>
    intro text
    exact (settles_expandCallsWith (by simp) text).bind fun text _ => hassemble text
  | succ levels ih =>
    intro text
    refine (settles_expandCallsWith ?_ text).bind fun text _ => hassemble text
    rintro compile ⟨⟩
    exact ih

/-! ## Patterns -/

/-- **When a pattern has a tape.**  Its calls are always expanded and its variables substituted,
and the text that results has a tape unless one of its lexemes is overlong; then a number is
refused for having too many digits. -/
theorem compile_outcome (context : Context) (pattern : String) (desk : Desk)
    (hfair : desk.source.Fair) :
    ∃ text after, (prepare context pattern).outcome desk = (.ok text, after) ∧
      ((∀ lexeme ∈ Text.words text, ¬ Token.Overlong lexeme.toList) →
        ∃ tape last, (compile context pattern).outcome desk = (.ok tape, last)) ∧
      ((∃ lexeme ∈ Text.words text, Token.Overlong lexeme.toList) →
        ∃ fault last, (compile context pattern).outcome desk = (.error fault, last) ∧
          Token.TooLong fault) := by
  have hcalls : Settles Source.Fair (expandCallsWith (innerCompiler context) pattern.toList)
      (fun _ => True) fun _ => False := by
    refine settles_expandCallsWith ?_ _
    rintro compile ⟨⟩
    exact soft_compiler context _
  obtain ⟨text, after, hok, -, hafter⟩ := hcalls.exists_ok desk hfair
  have hprepare : (prepare context pattern).outcome desk =
      (.ok (String.ofList (substitute context text)), after) := by
    rw [prepare, Play.outcome_bind_ok hok, Play.outcome_pure]
  have hcompile : (compile context pattern).outcome desk =
      (assemble context text).outcome after := by
    change (expandCallsWith (innerCompiler context) pattern.toList >>= _).outcome desk = _
    rw [Play.outcome_bind_ok hok]
  refine ⟨_, after, hprepare, ?_⟩
  rw [hcompile]
  rcases (settles_assemble context text).ok_or_error after hafter with
    ⟨tape, last, htape, hshort, -⟩ | ⟨fault, last, hfault, ⟨⟨lexeme, hmem, hlong⟩, htoo⟩, -⟩
  · refine ⟨fun _ => ⟨tape, last, htape⟩, ?_⟩
    rintro ⟨lexeme, hmem, hlong⟩
    exact absurd hlong (hshort lexeme hmem)
  · exact ⟨fun hshort => absurd hlong (hshort lexeme hmem),
      fun _ => ⟨fault, last, hfault, htoo⟩⟩

/-- A pattern with malformed calls, an unbound variable, bounds out of order and an unknown
lexeme. -/
theorem compile_outcome_malformed :
    Source.Fair (.script ⟨#[], 0⟩) ∧
      (∃ after,
        (prepare .standard "[ E(9,4) spread([ ? ]*x,0) $x ?<9-5> ]*2 - foo").outcome
          ⟨.script ⟨#[], 0⟩, #[]⟩ =
            (.ok "[ E(9,4) spread([ ? ]*x,0)  ?<9-5> ]*2 - foo", after)) ∧
      (∀ lexeme ∈ Text.words "[ E(9,4) spread([ ? ]*x,0)  ?<9-5> ]*2 - foo",
        ¬ Token.Overlong lexeme.toList) ∧
      ∃ tape last,
        (compile .standard "[ E(9,4) spread([ ? ]*x,0) $x ?<9-5> ]*2 - foo").outcome
          ⟨.script ⟨#[], 0⟩, #[]⟩ = (.ok tape, last) := by
  have hfair : Source.Fair (.script ⟨#[], 0⟩) := by simp [Source.Fair]
  obtain ⟨text, after, hprepare, hok, -⟩ :=
    compile_outcome .standard "[ E(9,4) spread([ ? ]*x,0) $x ?<9-5> ]*2 - foo"
      ⟨.script ⟨#[], 0⟩, #[]⟩ hfair
  have htext : ((prepare .standard "[ E(9,4) spread([ ? ]*x,0) $x ?<9-5> ]*2 - foo").outcome
      ⟨.script ⟨#[], 0⟩, #[]⟩).1 = .ok "[ E(9,4) spread([ ? ]*x,0)  ?<9-5> ]*2 - foo" := by
    decide +kernel
  rw [hprepare] at htext
  obtain rfl := Except.ok.inj htext
  have hshort : ∀ lexeme ∈ Text.words "[ E(9,4) spread([ ? ]*x,0)  ?<9-5> ]*2 - foo",
      lexeme.toList.length ≤ digitLimit := by
    decide +kernel
  have hread := fun lexeme hmem => Token.not_overlong_of_length (hshort lexeme hmem)
  exact ⟨hfair, ⟨after, hprepare⟩, hread, hok hread⟩

end Pattern
end NoteTape
