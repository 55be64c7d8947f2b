import Mathlib.Data.List.Forall2
import NoteTape.Play

/-!
# Reasoning about plays

A play is opened in two ways.  `outcome_bind` and its companions compute the outcome of a play at
one desk, step by step.  `Settles` speaks of all desks at once: whatever desk a play starts from,
as long as its source keeps a property that draws preserve, the play ends in a good value or in a
fault that is foreseen.  With `fun _ => False` for the foreseen faults it says that the play
returns; with `fun _ => True` it speaks of the value only.

Every rule for `Settles` follows the shape of a play, so a bound on what a play can do is proved
along its definition.
-/

namespace NoteTape
namespace Play

variable {α β : Type}

/-! ## Outcomes -/

@[simp] theorem outcome_pure (a : α) (desk : Desk) : (pure a : Play α).outcome desk = (.ok a, desk) :=
  rfl

theorem outcome_bind (p : Play α) (f : α → Play β) (desk : Desk) :
    (p >>= f).outcome desk =
      match p.outcome desk with
      | (.ok a, after) => (f a).outcome after
      | (.error fault, after) => (.error fault, after) := by
  change ExceptT.bindCont f (p.outcome desk).1 (p.outcome desk).2 = _
  rcases p.outcome desk with ⟨_ | a, after⟩
  · rfl
  · rfl

theorem outcome_bind_ok {p : Play α} {f : α → Play β} {desk after : Desk} {a : α}
    (h : p.outcome desk = (.ok a, after)) : (p >>= f).outcome desk = (f a).outcome after := by
  rw [outcome_bind, h]

theorem outcome_bind_error {p : Play α} {f : α → Play β} {desk after : Desk} {fault : Fault}
    (h : p.outcome desk = (.error fault, after)) :
    (p >>= f).outcome desk = (.error fault, after) := by
  rw [outcome_bind, h]

/-- What a play returns is taken further by a function. -/
theorem outcome_bind_pure {p : Play α} {f : α → β} {desk after : Desk} {answer : Except Fault α}
    (h : p.outcome desk = (answer, after)) :
    (p >>= fun a => pure (f a)).outcome desk = (answer >>= fun a => pure (f a), after) := by
  cases answer with
  | error fault => exact outcome_bind_error h
  | ok a => exact outcome_bind_ok h

/-- A play that returns has returned from each of its two parts. -/
theorem exists_of_outcome_bind {p : Play α} {f : α → Play β} {desk after : Desk} {b : β}
    (h : (p >>= f).outcome desk = (.ok b, after)) :
    ∃ a middle, p.outcome desk = (.ok a, middle) ∧ (f a).outcome middle = (.ok b, after) := by
  rcases hp : p.outcome desk with ⟨fault | a, middle⟩
  · rw [outcome_bind_error hp] at h
    exact absurd (congrArg Prod.fst h) (by simp)
  · rw [outcome_bind_ok hp] at h
    exact ⟨a, middle, rfl, h⟩

theorem outcome_lift (answer : Except Fault α) (desk : Desk) :
    (liftM answer : Play α).outcome desk = (answer, desk) := rfl

/-- What follows an answer that is there already begins at the same desk. -/
theorem exists_of_outcome_lift_bind {answer : Except Fault α} {f : α → Play β} {b : β}
    {desk after : Desk} (h : ((liftM answer : Play α) >>= f).outcome desk = (.ok b, after)) :
    ∃ a, answer = .ok a ∧ (f a).outcome desk = (.ok b, after) := by
  cases answer with
  | error fault => exact nomatch (Prod.mk.inj h).1
  | ok a => exact ⟨a, rfl, h⟩

/-- An attempt returns what the play comes to. -/
theorem outcome_attempt (p : Play α) (desk : Desk) :
    (attempt p).outcome desk = (.ok (p.outcome desk).1, (p.outcome desk).2) := rfl

/-- An answer that is there already is a play that does nothing else. -/
theorem liftM_ok (a : α) : (liftM (.ok a : Except Fault α) : Play α) = pure a := rfl

/-- An answer in two steps is a play in two steps. -/
theorem liftM_bind (answer : Except Fault α) (f : α → Except Fault β) :
    (liftM (answer >>= f) : Play β) = liftM answer >>= fun a => liftM (f a) := by
  cases answer with
  | error fault => rfl
  | ok a => rfl

theorem liftM_mapM (f : α → Except Fault β) (items : List α) :
    items.mapM (fun item => (liftM (f item) : Play β)) = liftM (items.mapM f) := by
  induction items with
  | nil => rfl
  | cons item items ih =>
    rw [List.mapM_cons, List.mapM_cons, liftM_bind, ih]
    refine congrArg _ (funext fun result => ?_)
    rw [liftM_bind]
    rfl

theorem ok_bind (a : α) (f : α → Except Fault β) : (Except.ok a >>= f) = f a := rfl

theorem error_bind (fault : Fault) (f : α → Except Fault β) :
    (Except.error fault >>= f) = .error fault := rfl

/-- An answer that is reached in two steps. -/
theorem exists_of_bind_eq_ok {answer : Except Fault α} {f : α → Except Fault β} {b : β}
    (h : answer >>= f = .ok b) : ∃ a, answer = .ok a ∧ f a = .ok b := by
  cases answer with
  | error fault => exact absurd h (by simp [bind, Except.bind])
  | ok a => exact ⟨a, rfl, h⟩

/-- The answers for all items of a list. -/
theorem forall₂_of_mapM_eq_ok {f : α → Except Fault β} {items : List α} {results : List β}
    (h : items.mapM f = .ok results) :
    List.Forall₂ (fun item result => f item = .ok result) items results := by
  induction items generalizing results with
  | nil =>
    obtain rfl := Except.ok.inj h
    exact .nil
  | cons item items ih =>
    rw [List.mapM_cons] at h
    obtain ⟨result, hresult, h⟩ := exists_of_bind_eq_ok h
    obtain ⟨rest, hrest, h⟩ := exists_of_bind_eq_ok h
    obtain rfl := Except.ok.inj h
    exact .cons hresult (ih hrest)

/-- The items have answers when each of them has one. -/
theorem exists_mapM_eq_ok_iff {f : α → Except Fault β} {items : List α} :
    (∃ results, items.mapM f = .ok results) ↔ ∀ item ∈ items, ∃ result, f item = .ok result := by
  induction items with
  | nil => exact ⟨fun _ _ hitem => absurd hitem List.not_mem_nil, fun _ => ⟨[], rfl⟩⟩
  | cons item items ih =>
    rw [List.forall_mem_cons, ← ih, List.mapM_cons]
    constructor
    · rintro ⟨results, h⟩
      obtain ⟨result, hresult, h⟩ := exists_of_bind_eq_ok h
      obtain ⟨rest, hrest, -⟩ := exists_of_bind_eq_ok h
      exact ⟨⟨result, hresult⟩, rest, hrest⟩
    · rintro ⟨⟨result, hresult⟩, rest, hrest⟩
      exact ⟨result :: rest, by rw [hresult, hrest]; rfl⟩

/-- Only the items of the list count. -/
theorem mapM_congr {f g : α → Except Fault β} {items : List α}
    (h : ∀ item ∈ items, f item = g item) : items.mapM f = items.mapM g := by
  induction items with
  | nil => rfl
  | cons item items ih =>
    obtain ⟨hitem, hitems⟩ := List.forall_mem_cons.mp h
    rw [List.mapM_cons, List.mapM_cons, hitem, ih hitems]

/-- A fault is that of the first item that has no answer. -/
theorem exists_of_mapM_eq_error {f : α → Except Fault β} {items : List α} {fault : Fault}
    (h : items.mapM f = .error fault) :
    ∃ before item after, items = before ++ item :: after ∧
      (∀ other ∈ before, ∃ result, f other = .ok result) ∧ f item = .error fault := by
  induction items with
  | nil => exact nomatch h
  | cons item items ih =>
    rw [List.mapM_cons] at h
    cases hitem : f item with
    | error fault' =>
      rw [hitem] at h
      exact ⟨[], item, items, rfl, fun _ hother => absurd hother List.not_mem_nil,
        hitem.trans (congrArg _ (Except.error.inj h))⟩
    | ok result =>
      rw [hitem, ok_bind] at h
      cases hitems : items.mapM f with
      | ok results =>
        rw [hitems] at h
        exact nomatch h
      | error fault' =>
        rw [hitems] at h
        obtain rfl := Except.error.inj h
        obtain ⟨before, failing, after, rfl, hbefore, hfault⟩ := ih hitems
        exact ⟨item :: before, failing, after, rfl,
          List.forall_mem_cons.mpr ⟨⟨result, hitem⟩, hbefore⟩, hfault⟩

/-- What follows from each of the pairs of two lists holds of the items of the second. -/
theorem forall_of_forall₂ {rel : α → β → Prop} {good : β → Prop} {items : List α}
    {results : List β} (h : List.Forall₂ rel items results)
    (hgood : ∀ item ∈ items, ∀ result, rel item result → good result) :
    ∀ result ∈ results, good result := by
  induction h with
  | nil => exact fun _ hresult => absurd hresult List.not_mem_nil
  | @cons item result items results hrel _ ih =>
    exact List.forall_mem_cons.mpr ⟨hgood item (List.mem_cons_self ..) result hrel,
      ih fun other hother => hgood other (List.mem_cons_of_mem _ hother)⟩

/-- The pairs of two lists stand at the same places. -/
theorem exists_getElem?_of_forall₂ {rel : α → β → Prop} {items : List α} {results : List β}
    (h : List.Forall₂ rel items results) {place : Nat} {item : α} (hitem : items[place]? = some item) :
    ∃ result, results[place]? = some result ∧ rel item result := by
  obtain ⟨hplace, rfl⟩ := List.getElem?_eq_some_iff.mp hitem
  have hresult : place < results.length := h.length_eq ▸ hplace
  exact ⟨results[place], List.getElem?_eq_getElem hresult, h.get hplace hresult⟩

theorem forall₂_trans {γ : Type} {rel : α → β → Prop} {rel' : β → γ → Prop} {items : List α}
    {middles : List β} {results : List γ} (h : List.Forall₂ rel items middles)
    (h' : List.Forall₂ rel' middles results) :
    List.Forall₂ (fun item result => ∃ middle, rel item middle ∧ rel' middle result) items results := by
  induction h generalizing results with
  | nil =>
    cases h'
    exact .nil
  | cons hrel _ ih =>
    cases h' with
    | cons hrel' hrest => exact .cons ⟨_, hrel, hrel'⟩ (ih hrest)

/-! ## Traces -/

/-- A first value and, for each item, a value that may follow the one before. -/
inductive Traced {γ : Type} (next : γ → α → γ → Prop) : γ → List α → List γ → Prop
  | nil {first : γ} : Traced next first [] [first]
  | cons {first second : γ} {item : α} {items : List α} {results : List γ} :
      next first item second → Traced next second items results →
      Traced next first (item :: items) (first :: results)

namespace Traced

variable {γ : Type} {first : γ} {results : List γ}

theorem length_eq {next : γ → α → γ → Prop} {items : List α} (h : Traced next first items results) :
    results.length = items.length + 1 := by
  induction h with
  | nil => rfl
  | cons _ _ ih => rw [List.length_cons, ih, List.length_cons]

theorem head?_eq {next : γ → α → γ → Prop} {items : List α} (h : Traced next first items results) :
    results.head? = some first := by
  cases h with
  | nil => rfl
  | cons _ _ => rfl

/-- Two values in a row, with the item by which the second follows the first. -/
theorem exists_getElem? {next : γ → α → γ → Prop} {items : List α} (h : Traced next first items results)
    {place : Nat} {item : α} (hitem : items[place]? = some item) :
    ∃ previous result, results[place]? = some previous ∧ results[place + 1]? = some result ∧
      next previous item result := by
  induction h generalizing place with
  | nil => exact nomatch hitem
  | @cons first second item' items results hsecond htraced ih =>
    cases place with
    | zero =>
      obtain rfl := Option.some.inj hitem
      refine ⟨first, second, rfl, ?_, hsecond⟩
      rw [List.getElem?_cons_succ, ← List.head?_eq_getElem?, htraced.head?_eq]
    | succ place => exact ih hitem

/-- What holds of the first value and is kept from value to value holds of all. -/
theorem all {next : γ → α → γ → Prop} {items : List α} {good : γ → Prop}
    (h : Traced next first items results) (hfirst : good first)
    (hnext : ∀ previous, good previous → ∀ item ∈ items, ∀ result, next previous item result →
      good result) : ∀ result ∈ results, good result := by
  induction h with
  | nil => exact List.forall_mem_singleton.mpr hfirst
  | @cons first second item items results hsecond _ ih =>
    have hgood : good second := hnext first hfirst item (List.mem_cons_self ..) second hsecond
    exact List.forall_mem_cons.mpr ⟨hfirst, ih hgood fun previous hprevious other hother =>
      hnext previous hprevious other (List.mem_cons_of_mem _ hother)⟩

/-- A trace in which every value is its item. -/
theorem eq_cons {items : List γ} (h : Traced (fun _ item result => result = item) first items results) :
    results = first :: items := by
  induction h with
  | nil => rfl
  | cons hsecond _ ih => rw [ih, hsecond]

end Traced

/-! ## Settling -/

/-- An answer is a good value or a foreseen fault. -/
def Verdict (good : α → Prop) (bad : Fault → Prop) : Except Fault α → Prop
  | .ok a => good a
  | .error fault => bad fault

/-- Nothing is said about an answer. -/
theorem Verdict.of_true (answer : Except Fault α) :
    Verdict (fun _ => True) (fun _ => True) answer := by
  cases answer with
  | ok a => trivial
  | error fault => trivial

theorem Verdict.mono {good good' : α → Prop} {bad : Fault → Prop} {answer : Except Fault α}
    (h : Verdict good bad answer) (hgood : ∀ a, good a → good' a) : Verdict good' bad answer := by
  cases answer with
  | ok a => exact hgood a h
  | error fault => exact h

theorem Verdict.bind {good : α → Prop} {better : β → Prop} {bad : Fault → Prop}
    {answer : Except Fault α} {f : α → Except Fault β} (h : Verdict good bad answer)
    (hf : ∀ a, good a → Verdict better bad (f a)) : Verdict better bad (answer >>= f) := by
  cases answer with
  | ok a => exact hf a h
  | error fault => exact h

theorem Verdict.mapM {good : β → Prop} {bad : Fault → Prop} {f : α → Except Fault β}
    (items : List α) (h : ∀ item ∈ items, Verdict good bad (f item)) :
    Verdict (fun results => ∀ result ∈ results, good result) bad (items.mapM f) := by
  induction items with
  | nil => exact fun _ hresult => absurd hresult List.not_mem_nil
  | cons item items ih =>
    rw [List.mapM_cons]
    exact (h item (List.mem_cons_self ..)).bind fun result hresult =>
      (ih fun other hother => h other (List.mem_cons_of_mem _ hother)).bind fun results hresults =>
        List.forall_mem_cons.mpr ⟨hresult, hresults⟩

/-- From every desk with a steady source the play ends in a good value or a foreseen fault, and
leaves the source steady. -/
def Settles (steady : Source → Prop) (p : Play α) (good : α → Prop) (bad : Fault → Prop) : Prop :=
  ∀ desk : Desk, steady desk.source →
    steady (p.outcome desk).2.source ∧ Verdict good bad (p.outcome desk).1

namespace Settles

variable {steady : Source → Prop} {p : Play α} {f : α → Play β} {good good' : α → Prop}
  {better : β → Prop} {bad bad' : Fault → Prop}

theorem pure {a : α} (h : good a) : Settles steady (pure a : Play α) good bad :=
  fun _ hs => ⟨hs, h⟩

theorem lift {answer : Except Fault α} (h : Verdict good bad answer) :
    Settles steady (liftM answer : Play α) good bad :=
  fun _ hs => ⟨hs, h⟩

theorem notify {level : Level} {channel : Channel} {text : String} :
    Settles steady (notify level channel text) (fun _ => True) bad :=
  fun _ hs => ⟨hs, trivial⟩

theorem mono (hp : Settles steady p good bad) (hgood : ∀ a, good a → good' a)
    (hbad : ∀ fault, bad fault → bad' fault) : Settles steady p good' bad' := by
  intro desk hs
  obtain ⟨hsteady, hverdict⟩ := hp desk hs
  refine ⟨hsteady, ?_⟩
  cases h : (p.outcome desk).1 with
  | ok a =>
    rw [h] at hverdict
    exact hgood a hverdict
  | error fault =>
    rw [h] at hverdict
    exact hbad fault hverdict

theorem bind (hp : Settles steady p good bad) (hf : ∀ a, good a → Settles steady (f a) better bad) :
    Settles steady (p >>= f) better bad := by
  intro desk hs
  obtain ⟨hsteady, hverdict⟩ := hp desk hs
  rcases h : p.outcome desk with ⟨_ | a, after⟩
  · rw [h] at hsteady hverdict
    rw [outcome_bind_error h]
    exact ⟨hsteady, hverdict⟩
  · rw [h] at hsteady hverdict
    rw [outcome_bind_ok h]
    exact hf a hverdict after hsteady

/-- An attempt always returns; what it returns is the verdict on the play. -/
theorem attempt (hp : Settles steady p good bad) :
    Settles steady (attempt p) (Verdict good bad) fun _ => False :=
  hp

/-- What every item comes to, a list of items comes to in order; the fault is the one of some
item. -/
theorem mapM {good : α → β → Prop} {bad : α → Fault → Prop} {items : List α}
    (h : ∀ item ∈ items, Settles steady (f item) (good item) (bad item)) :
    Settles steady (items.mapM f) (List.Forall₂ good items)
      fun fault => ∃ item ∈ items, bad item fault := by
  induction items with
  | nil => exact pure .nil
  | cons item items ih =>
    rw [List.mapM_cons]
    have hitem : Settles steady (f item) (good item)
        fun fault => ∃ other ∈ item :: items, bad other fault :=
      (h item (List.mem_cons_self ..)).mono (fun _ hresult => hresult)
        fun _ hfault => ⟨item, List.mem_cons_self .., hfault⟩
    have hitems : Settles steady (items.mapM f) (List.Forall₂ good items)
        fun fault => ∃ other ∈ item :: items, bad other fault :=
      (ih fun other hother => h other (List.mem_cons_of_mem _ hother)).mono
        (fun _ hresults => hresults)
        fun _ ⟨other, hother, hfault⟩ => ⟨other, List.mem_cons_of_mem _ hother, hfault⟩
    exact bind hitem fun _ hresult => bind hitems fun _ hresults => pure (.cons hresult hresults)

/-- What holds of the results of all items, whatever the item. -/
theorem mapM_forall {good : β → Prop} {items : List α}
    (h : ∀ item ∈ items, Settles steady (f item) good bad) :
    Settles steady (items.mapM f) (fun results => ∀ result ∈ results, good result) bad := by
  refine (mapM h).mono (fun results hresults => ?_) fun _ ⟨_, _, hfault⟩ => hfault
  exact forall_of_forall₂ hresults fun _ _ _ hresult => hresult

/-- What a step keeps, a run through a list of items keeps. -/
theorem foldlM {γ : Type} {state : γ → Prop} {step : γ → α → Play γ} {items : List α}
    (h : ∀ item ∈ items, ∀ c, state c → Settles steady (step c item) state bad) {first : γ}
    (hfirst : state first) : Settles steady (items.foldlM step first) state bad := by
  induction items generalizing first with
  | nil => exact pure hfirst
  | cons item items ih =>
    rw [List.foldlM_cons]
    exact (h item (List.mem_cons_self ..) first hfirst).bind fun next hnext =>
      ih (fun other hother => h other (List.mem_cons_of_mem _ hother)) hnext

/-- The values of a trace follow from each other as its steps say. -/
theorem traced {γ : Type} {step : γ → α → Play γ} {next : γ → α → γ → Prop} {items : List α}
    (h : ∀ previous, ∀ item ∈ items, Settles steady (step previous item) (next previous item) bad)
    (first : γ) : Settles steady (trace step first items) (Traced next first items) bad := by
  -- behind the values that are done there is a trace from the last of them
  have hfrom : ∀ (done : List γ) (previous : γ),
      Settles steady (traceFrom step (previous :: done) previous items)
        (fun results => ∃ values, results = done.reverse ++ values ∧
          Traced next previous items values) bad := by
    induction items with
    | nil =>
      intro done previous
      exact pure ⟨[previous], by rw [List.reverse_cons], .nil⟩
    | cons item items ih =>
      intro done previous
      refine (h previous item (List.mem_cons_self ..)).bind fun result hresult => ?_
      refine (ih (fun previous other hother => h previous other (List.mem_cons_of_mem _ hother))
        (previous :: done) result).mono ?_ fun _ hfault => hfault
      rintro _ ⟨values, rfl, hvalues⟩
      refine ⟨previous :: values, ?_, .cons hresult hvalues⟩
      rw [List.reverse_cons, List.append_assoc, List.singleton_append]
  refine (hfrom [] first).mono ?_ fun _ hfault => hfault
  rintro _ ⟨values, rfl, hvalues⟩
  exact hvalues

theorem trace {γ : Type} {step : γ → α → Play γ}
    (h : ∀ previous item, Settles steady (step previous item) (fun _ => True) bad) (first : γ)
    (items : List α) : Settles steady (trace step first items) (fun _ => True) bad := by
  have htraced : Settles steady (Play.trace step first items)
      (Traced (fun _ _ _ => True) first items) bad :=
    traced (fun previous item _ => h previous item) first
  exact htraced.mono (fun _ _ => trivial) fun _ hfault => hfault

/-- The two ways in which a play ends. -/
theorem ok_or_error (hp : Settles steady p good bad) (desk : Desk) (hs : steady desk.source) :
    (∃ a after, p.outcome desk = (.ok a, after) ∧ good a ∧ steady after.source) ∨
      ∃ fault after, p.outcome desk = (.error fault, after) ∧ bad fault ∧ steady after.source := by
  obtain ⟨hsteady, hverdict⟩ := hp desk hs
  rcases h : p.outcome desk with ⟨fault | a, after⟩
  · rw [h] at hsteady hverdict
    exact .inr ⟨fault, after, rfl, hverdict, hsteady⟩
  · rw [h] at hsteady hverdict
    exact .inl ⟨a, after, rfl, hverdict, hsteady⟩

/-- What holds of whatever a play returns is good. -/
theorem of_returns (hp : Settles steady p good bad)
    (h : ∀ desk a after, p.outcome desk = (.ok a, after) → good' a) :
    Settles steady p good' bad := by
  intro desk hs
  rcases hp.ok_or_error desk hs with ⟨a, after, hok, -, hsteady⟩ | ⟨fault, after, hfault, hbad, hsteady⟩
  · rw [hok]
    exact ⟨hsteady, h desk a after hok⟩
  · rw [hfault]
    exact ⟨hsteady, hbad⟩

/-- What is known of a play in two ways is known together. -/
theorem and (hp : Settles steady p good bad) (hq : Settles (fun _ => True) p good' fun _ => True) :
    Settles steady p (fun a => good a ∧ good' a) bad := by
  intro desk hs
  obtain ⟨hsteady, hverdict⟩ := hp desk hs
  refine ⟨hsteady, ?_⟩
  have hverdict' := (hq desk trivial).2
  cases h : (p.outcome desk).1 with
  | ok a =>
    rw [h] at hverdict hverdict'
    exact ⟨hverdict, hverdict'⟩
  | error fault =>
    rw [h] at hverdict
    exact hverdict

/-- A play without foreseen faults returns. -/
theorem exists_ok (hp : Settles steady p good fun _ => False) (desk : Desk)
    (hs : steady desk.source) :
    ∃ a after, p.outcome desk = (.ok a, after) ∧ good a ∧ steady after.source := by
  rcases hp.ok_or_error desk hs with hok | ⟨_, _, _, hfalse, _⟩
  · exact hok
  · exact hfalse.elim

/-- Nothing is said about a play. -/
theorem any (p : Play α) : Settles (fun _ => True) p (fun _ => True) fun _ => True :=
  fun _ _ => ⟨trivial, Verdict.of_true _⟩

/-- What holds of all that a play can return from steady sources holds of what it has returned. -/
theorem of_steady (hp : Settles steady p good bad) {desk after : Desk} {a : α}
    (hs : steady desk.source) (h : p.outcome desk = (.ok a, after)) : good a := by
  have hverdict := (hp desk hs).2
  rw [h] at hverdict
  exact hverdict

/-- The same when any source will do. -/
theorem of_ok (hp : Settles (fun _ => True) p good fun _ => True) {desk after : Desk} {a : α}
    (h : p.outcome desk = (.ok a, after)) : good a :=
  hp.of_steady trivial h

/-- The same for a play whose draws come from an origin. -/
theorem of_run (hp : Settles (fun _ => True) p good fun _ => True) {origin : Origin} {desk : Desk}
    {a : α} (h : (origin.run p desk).1.1 = .ok a) : good a :=
  hp.of_ok (Prod.ext h rfl)

end Settles

/-- Whatever a play returns is good. -/
abbrev Returns (p : Play α) (good : α → Prop) : Prop :=
  Settles (fun _ => True) p good fun _ => True

/-- A play that has its answer already returns it. -/
theorem returns_lift (answer : Except Fault α) :
    Returns (liftM answer : Play α) fun a => answer = .ok a := by
  refine .lift ?_
  cases answer with
  | ok a => exact rfl
  | error fault => trivial

/-- Every item has one result. -/
theorem length_of_outcome_mapM {f : α → Play β} {items : List α} {results : List β}
    {desk after : Desk} (h : (items.mapM f).outcome desk = (.ok results, after)) :
    results.length = items.length := by
  have hresults : Returns (items.mapM f) fun results => results.length = items.length :=
    (Settles.mapM fun item _ => Settles.any (f item)).mono (fun _ hall => hall.length_eq.symm)
      fun _ _ => trivial
  exact hresults.of_ok h

/-- A play that draws keeps its source steady when the draw does. -/
theorem settles_index {steady : Source → Prop} (n : Nat)
    (h : ∀ s, steady s → steady (s.index n).2) {bad : Fault → Prop} :
    Settles steady (index n) (fun _ => True) bad :=
  fun desk hs => ⟨h desk.source hs, trivial⟩

/-- An interval from which steady sources draw an integer. -/
theorem settles_integer {steady : Source → Prop} {low high : Int} {good : Int → Prop}
    (h : ∀ s, steady s →
      steady (s.integer low high).2 ∧ ∃ n, (s.integer low high).1 = .ok n ∧ good n)
    {bad : Fault → Prop} : Settles steady (integer low high) good bad := by
  intro desk hs
  obtain ⟨hsteady, n, hn, hgood⟩ := h desk.source hs
  refine ⟨hsteady, ?_⟩
  change Verdict good bad (desk.source.integer low high).1
  rw [hn]
  exact hgood

theorem settles_happens {steady : Source → Prop} (probability : Quantity)
    (h : ∀ s, steady s → steady s.uniform.2) {bad : Fault → Prop} :
    Settles steady (happens probability) (fun _ => True) bad := by
  have huniform : Settles steady uniform (fun _ => True) bad :=
    fun desk hs => ⟨h desk.source hs, trivial⟩
  exact huniform.bind fun _ _ => .pure trivial

/-- An item that is picked is one of the items. -/
theorem settles_pick {steady : Source → Prop} (items : List α) (hne : items ≠ [])
    (h : ∀ n s, steady s → steady (s.index n).2) {bad : Fault → Prop} :
    Settles steady (pick items hne) (· ∈ items) bad := by
  refine Settles.bind (settles_index items.length (h items.length)) fun i _ => ?_
  refine Settles.pure ?_
  cases hi : items[i]? with
  | none => exact List.head_mem hne
  | some item => exact List.mem_of_getElem? hi

end Play
end NoteTape
