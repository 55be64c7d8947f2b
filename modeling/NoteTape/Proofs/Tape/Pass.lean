import NoteTape.Proofs.Pattern.Verbatim
import NoteTape.Tape.Arithmetic

/-!
# Passes over tapes

A pass compiles a pattern and puts a function of integers to work on its tape.  Rests stay where
they are, and what the function gives for an integer is written in its place.  So a pass over a
pattern without question marks is a function of its tape, `answers_mapIntegers`, and since a tape
compiles to itself, a pass over a tape is one without any compiling, `mapIntegers_of_isTape`.

What a pass has written is known of all integers on the tape, and they are in canonical form,
`IsTapeOf`.  This is what makes one pass follow another: when the function of the second leaves the
integers alone that the first writes, the second leaves the whole tape alone,
`IsTapeOf.mapIntegers_of_fixed`.  On a tape that nothing has passed over, `+7` or `07` would still
be rewritten.

A pass whose function has a value everywhere fails only when a value has too many digits to be
written, `exists_onIntegers_iff`.
-/

namespace NoteTape
namespace Tape

open Play (Answers Returns Settles)
open Text (unwords words)

variable {f : Int → Except Fault Int} {g : Int → Int} {good better : Int → Prop}
  {element result pattern tape : String} {elements results : List String} {n : Int}

/-! ## One element -/

theorem onInteger_of_none (f : Int → Except Fault Int) (h : integer? element = none) :
    onInteger f element = .ok element := by
  rw [onInteger, h]

theorem onInteger_of_integer? (f : Int → Except Fault Int) (h : integer? element = some n) :
    onInteger f element = f n >>= decimal := by
  rw [onInteger, h]

/-- On a tape only a rest is no integer. -/
theorem integer?_eq_none_iff (h : IsElement element) : integer? element = none ↔ element = "-" := by
  constructor
  · intro hnone
    rcases h with hrest | hnumeral
    · exact hrest
    · obtain ⟨n, hn⟩ := exists_integerOfChars? hnumeral
      exact nomatch hnone.symm.trans hn
  · rintro rfl
    rfl

/-- An element that is no integer stays, and what the function gives for an integer is written. -/
theorem onInteger_ok_eq_ok_iff :
    onInteger (fun n => .ok (g n)) element = .ok result ↔
      (integer? element = none ∧ result = element) ∨
        ∃ n, integer? element = some n ∧ decimal (g n) = .ok result := by
  cases h : integer? element with
  | none =>
    rw [onInteger_of_none _ h]
    simp [eq_comm]
  | some n =>
    rw [onInteger_of_integer? _ h, Play.ok_bind]
    simp

/-- A value that can be written is all that is asked for. -/
theorem exists_onInteger_iff :
    (∃ result, onInteger (fun n => .ok (g n)) element = .ok result) ↔
      ∀ n, integer? element = some n → (g n).natAbs < decimalBound := by
  cases h : integer? element with
  | none =>
    rw [onInteger_of_none _ h]
    simp
  | some n =>
    rw [onInteger_of_integer? _ h, Play.ok_bind]
    by_cases hlt : (g n).natAbs < decimalBound
    · rw [decimal_of_lt hlt]
      simp [hlt]
    · rw [decimal_of_not_lt hlt]
      simp [hlt]

theorem onInteger_ok_eq_error {fault : Fault}
    (h : onInteger (fun n => .ok (g n)) element = .error fault) : fault = .integerTooLong := by
  cases hread : integer? element with
  | none =>
    rw [onInteger_of_none _ hread] at h
    exact nomatch h
  | some n =>
    rw [onInteger_of_integer? _ hread, Play.ok_bind] at h
    exact decimal_eq_error h

/-! ## All elements -/

/-- **A pass returns when all its values can be written.** -/
theorem exists_onIntegers_iff :
    (∃ results, onIntegers (fun n => .ok (g n)) elements = .ok results) ↔
      ∀ element ∈ elements, ∀ n, integer? element = some n → (g n).natAbs < decimalBound := by
  simp only [← exists_onInteger_iff]
  exact Play.exists_mapM_eq_ok_iff

/-- Its only fault is that of a value with too many digits. -/
theorem onIntegers_ok_eq_error {fault : Fault}
    (h : onIntegers (fun n => .ok (g n)) elements = .error fault) : fault = .integerTooLong := by
  obtain ⟨_, element, _, -, -, hfault⟩ := Play.exists_of_mapM_eq_error h
  exact onInteger_ok_eq_error hfault

/-- The elements of a pattern that returns are those of a tape. -/
theorem returns_elements (pattern : String) :
    Returns (Pattern.elements pattern) fun elements => ∀ e ∈ elements, IsElement e := by
  have hcompile : Returns (Pattern.compile .standard pattern) IsTape :=
    (Settles.any _).of_returns fun _ _ _ h =>
      Pattern.isTape_of_compile (fun _ => Pattern.isNumeral_of_mem_standard) h
  exact hcompile.bind fun _ htape => .pure fun _ => htape.isElement_of_mem_words

theorem elements_of_isTape (h : IsTape tape) : Pattern.elements tape = pure (words tape) := by
  rw [Pattern.elements, Pattern.compile_of_isTape _ h, pure_bind]

/-- A pass over a list of elements. -/
theorem mapM_onInteger (f : Int → Except Fault Int) (elements : List String) :
    (do return unwords (← elements.mapM fun element => liftM (onInteger f element)) : Play String) =
      liftM (do return unwords (← onIntegers f elements) : Except Fault String) := by
  rw [Play.liftM_mapM, Play.liftM_bind]
  rfl

/-- **A pass over a tape** is one over its elements. -/
theorem mapIntegers_of_isTape (f : Int → Except Fault Int) (h : IsTape tape) :
    mapIntegers f tape =
      liftM (do return unwords (← onIntegers f (words tape)) : Except Fault String) := by
  rw [← mapM_onInteger, mapIntegers, mapElements, elements_of_isTape h, pure_bind]

/-- **A pass over a pattern that has one tape** gives one answer, that of a pass over the tape. -/
theorem answers_mapIntegers (f : Int → Except Fault Int)
    (h : Answers (Pattern.compile .standard pattern) (.ok tape)) :
    Answers (mapIntegers f pattern) (do return unwords (← onIntegers f (words tape))) := by
  have hpass := Answers.lift (do return unwords (← onIntegers f (words tape)) : Except Fault String)
  rw [← mapM_onInteger] at hpass
  exact (Pattern.answers_elements h).bind_ok hpass

theorem onIntegers_congr {f f' : Int → Except Fault Int}
    (h : ∀ element ∈ elements, ∀ n, integer? element = some n → f n = f' n) :
    onIntegers f elements = onIntegers f' elements := by
  refine Play.mapM_congr fun element helement => ?_
  cases hread : integer? element with
  | none => rw [onInteger_of_none f hread, onInteger_of_none f' hread]
  | some n =>
    rw [onInteger_of_integer? f hread, onInteger_of_integer? f' hread, h element helement n hread]

/-- **Only the integers of the tape count.**  Two passes over a pattern come to the same when their
functions agree on these, whatever the desk is. -/
theorem outcome_mapIntegers_congr {f f' : Int → Except Fault Int} {desk : Desk}
    (h : ∀ tape after, (Pattern.compile .standard pattern).outcome desk = (.ok tape, after) →
      ∀ element ∈ words tape, ∀ n, integer? element = some n → f n = f' n) :
    (mapIntegers f pattern).outcome desk = (mapIntegers f' pattern).outcome desk := by
  unfold mapIntegers mapElements Pattern.elements
  rw [bind_assoc, bind_assoc, Play.outcome_bind, Play.outcome_bind]
  rcases hcompile : (Pattern.compile .standard pattern).outcome desk with ⟨fault | tape, after⟩
  · rfl
  · dsimp only
    rw [pure_bind, pure_bind, mapM_onInteger, mapM_onInteger,
      onIntegers_congr (h tape after hcompile)]

/-! ## What a pass has written -/

/-- A rest, or an integer of some kind as it is written. -/
def IsWritten (good : Int → Prop) (element : String) : Prop :=
  element = "-" ∨ ∃ n, good n ∧ decimal n = .ok element

/-- A tape of rests and of integers of some kind in canonical form. -/
def IsTapeOf (good : Int → Prop) (tape : String) : Prop :=
  ∃ elements, (∀ e ∈ elements, IsWritten good e) ∧ tape = unwords elements

theorem IsWritten.isElement (h : IsWritten good element) : IsElement element := by
  rcases h with hrest | ⟨n, -, hn⟩
  · exact .inl hrest
  · exact isElement_of_decimal hn

theorem IsTapeOf.isTape (h : IsTapeOf good tape) : IsTape tape := by
  obtain ⟨elements, helements, rfl⟩ := h
  exact ⟨elements, fun e he => (helements e he).isElement, rfl⟩

theorem IsTapeOf.isWritten (h : IsTapeOf good tape) (he : element ∈ words tape) :
    IsWritten good element := by
  obtain ⟨elements, helements, rfl⟩ := h
  rw [Text.words_unwords fun e he => (helements e he).isElement.isWord] at he
  exact helements element he

theorem IsWritten.of_integer? (h : IsWritten good element) (hn : integer? element = some n) :
    good n := by
  rcases h with rfl | ⟨m, hm, hwritten⟩
  · exact nomatch hn
  · rw [integer?_of_decimal hwritten] at hn
    exact Option.some.inj hn ▸ hm

/-- What is written for an element of a tape. -/
theorem isWritten_of_onInteger (helement : IsElement element)
    (hgood : ∀ n, integer? element = some n → good (g n))
    (h : onInteger (fun n => .ok (g n)) element = .ok result) : IsWritten good result := by
  rcases onInteger_ok_eq_ok_iff.mp h with ⟨hnone, rfl⟩ | ⟨n, hn, hwritten⟩
  · exact .inl ((integer?_eq_none_iff helement).mp hnone)
  · exact .inr ⟨g n, hgood n hn, hwritten⟩

theorem isWritten_of_onIntegers (helements : ∀ e ∈ elements, IsElement e)
    (hgood : ∀ e ∈ elements, ∀ n, integer? e = some n → good (g n))
    (h : onIntegers (fun n => .ok (g n)) elements = .ok results) :
    ∀ result ∈ results, IsWritten good result :=
  Play.forall_of_forall₂ (Play.forall₂_of_mapM_eq_ok h) fun e he _ hresult =>
    isWritten_of_onInteger (helements e he) (hgood e he) hresult

/-- **The integers that a pass writes are values of its function.** -/
theorem returns_mapIntegers (hgood : ∀ n, good (g n)) (pattern : String) :
    Returns (mapIntegers (fun n => .ok (g n)) pattern) (IsTapeOf good) := by
  unfold mapIntegers mapElements
  refine (returns_elements pattern).bind fun elements helements => ?_
  rw [mapM_onInteger, Play.liftM_bind]
  refine (Play.returns_lift _).bind fun results hresults => .pure ⟨results, ?_, rfl⟩
  exact isWritten_of_onIntegers helements (fun _ _ n _ => hgood n) hresults

/-- The same for a second pass, whose function is known on the integers of the first. -/
theorem IsTapeOf.returns_mapIntegers (htape : IsTapeOf good tape)
    (hbetter : ∀ n, good n → better (g n)) :
    Returns (mapIntegers (fun n => .ok (g n)) tape) (IsTapeOf better) := by
  rw [mapIntegers_of_isTape _ htape.isTape, Play.liftM_bind]
  refine (Play.returns_lift _).bind fun results hresults => .pure ⟨results, ?_, rfl⟩
  refine isWritten_of_onIntegers (fun _ => htape.isTape.isElement_of_mem_words) ?_ hresults
  intro e he n hn
  exact hbetter n ((htape.isWritten he).of_integer? hn)

/-! ## Elements before and after -/

/-- One tape was made of another by changing its integers to integers of some kind.  It has as many
elements, and rests in the same places. -/
structure IsPassed (good : Int → Prop) (tape passed : String) : Prop where
  length_eq : (words passed).length = (words tape).length
  rests : ∀ place : Nat, (words passed)[place]? = some "-" ↔ (words tape)[place]? = some "-"
  integers : ∀ element ∈ words passed, ∀ n, integer? element = some n → good n

theorem onInteger_eq_rest_iff (h : onInteger (fun n => .ok (g n)) element = .ok result) :
    result = "-" ↔ element = "-" := by
  rcases onInteger_ok_eq_ok_iff.mp h with ⟨-, rfl⟩ | ⟨n, hn, hwritten⟩
  · exact Iff.rfl
  · refine iff_of_false ?_ ?_
    · rintro rfl
      exact nomatch integer?_of_decimal hwritten
    · rintro rfl
      exact nomatch hn

theorem getElem?_onIntegers_eq_rest_iff
    (h : onIntegers (fun n => .ok (g n)) elements = .ok results) (place : Nat) :
    results[place]? = some "-" ↔ elements[place]? = some "-" := by
  have hpairs := Play.forall₂_of_mapM_eq_ok h
  clear h
  induction hpairs generalizing place with
  | nil => exact Iff.rfl
  | cons hresult _ ih =>
    cases place with
    | zero => simpa using onInteger_eq_rest_iff hresult
    | succ place => simpa using ih place

/-- **What a pass makes of a tape.** -/
theorem isPassed_of_onIntegers (htape : IsTape tape) (hgood : ∀ n, good (g n))
    (h : onIntegers (fun n => .ok (g n)) (words tape) = .ok results) :
    IsTapeOf good (unwords results) ∧ IsPassed good tape (unwords results) := by
  have hwritten : ∀ result ∈ results, IsWritten good result :=
    isWritten_of_onIntegers (fun _ => htape.isElement_of_mem_words) (fun _ _ n _ => hgood n) h
  have hwords : words (unwords results) = results :=
    Text.words_unwords fun result hresult => (hwritten result hresult).isElement.isWord
  refine ⟨⟨results, hwritten, rfl⟩, ?_⟩
  constructor
  · rw [hwords]
    exact (Play.forall₂_of_mapM_eq_ok h).length_eq.symm
  · rw [hwords]
    exact getElem?_onIntegers_eq_rest_iff h
  · rw [hwords]
    exact fun element helement _ => (hwritten element helement).of_integer?

/-! ## Passes that change nothing -/

theorem onInteger_of_fixed (hfixed : ∀ n, good n → g n = n) (h : IsWritten good element) :
    onInteger (fun n => .ok (g n)) element = .ok element := by
  rcases h with rfl | ⟨n, hn, hwritten⟩
  · rfl
  · rw [onInteger_of_integer? _ (integer?_of_decimal hwritten), Play.ok_bind, hfixed n hn, hwritten]

theorem onIntegers_of_fixed (hfixed : ∀ n, good n → g n = n)
    (h : ∀ e ∈ elements, IsWritten good e) :
    onIntegers (fun n => .ok (g n)) elements = .ok elements := by
  induction elements with
  | nil => rfl
  | cons e elements ih =>
    obtain ⟨he, helements⟩ := List.forall_mem_cons.mp h
    have hrest := ih helements
    rw [onIntegers] at hrest ⊢
    rw [List.mapM_cons, onInteger_of_fixed hfixed he, hrest]
    rfl

/-- **A function that leaves the integers of a tape alone leaves the tape alone.** -/
theorem IsTapeOf.mapIntegers_of_fixed (htape : IsTapeOf good tape)
    (hfixed : ∀ n, good n → g n = n) : mapIntegers (fun n => .ok (g n)) tape = pure tape := by
  rw [mapIntegers_of_isTape _ htape.isTape, onIntegers_of_fixed hfixed fun _ => htape.isWritten,
    Play.ok_bind, htape.isTape.unwords_words]
  rfl

/-! ## Passes over decimals -/

/-- **A pass over decimals is a function of the integers.** -/
theorem mapIntegers_unwords (f : Int → Except Fault Int) {numbers : List Int}
    {texts : List String} (h : numbers.mapM decimal = .ok texts) :
    mapIntegers f (unwords texts) =
      liftM (do
        return unwords (← numbers.mapM fun n => f n >>= decimal) : Except Fault String) := by
  have htexts := Play.forall₂_of_mapM_eq_ok h
  have helements := isElement_of_mapM_decimal h
  have hmap : onIntegers f texts = numbers.mapM fun n => f n >>= decimal := by
    clear h helements
    induction htexts with
    | nil => rfl
    | cons hn _ ih =>
      rw [onIntegers] at ih ⊢
      rw [List.mapM_cons, List.mapM_cons, onInteger_of_integer? f (integer?_of_decimal hn), ih]
  rw [mapIntegers_of_isTape f ⟨texts, helements, rfl⟩,
    Text.words_unwords fun text htext => (helements text htext).isWord, hmap]

/-- The same for a function that has a value everywhere. -/
theorem mapIntegers_ok_unwords (g : Int → Int) {numbers : List Int} {texts : List String}
    (h : numbers.mapM decimal = .ok texts) :
    mapIntegers (fun n => .ok (g n)) (unwords texts) =
      liftM (do return unwords (← (numbers.map g).mapM decimal) : Except Fault String) := by
  rw [mapIntegers_unwords _ h, List.mapM_map]
  simp only [Play.ok_bind, Function.comp_def]

end Tape
end NoteTape
