import NoteTape.Proofs.Play

/-!
# Plays that differ in their notices only

Two plays are *alike* when they give the same answer and leave the source in the same state,
whatever notices were given before and whatever notices they give.  This is the sense in which two
ways of writing a pattern come to the same: one of them may have more to say about it.

A play need not be alike itself, since a play could look at the notices on its desk.  None does,
and this is proved along its definition: draws look at the source only, and the rules below go
through everything that plays are made of.  So the relation is symmetric and transitive, and it
has a rule in the place of reflexivity for everything that a play can do at its desk.

A play without a draw is *fixed*: it gives one answer at all desks.  When this answer is a value,
the play *yields* it.
-/

namespace NoteTape
namespace Play

variable {α β : Type}

/-- The same answer and the same draws, from every state of the source and whatever the notices
are. -/
def Alike (p q : Play α) : Prop :=
  ∀ d e : Desk, d.source = e.source →
    (p.outcome d).1 = (q.outcome e).1 ∧ (p.outcome d).2.source = (q.outcome e).2.source

namespace Alike

variable {p q r : Play α} {f g : α → Play β} {a : α}

theorem symm (h : Alike p q) : Alike q p := by
  intro d e hsource
  obtain ⟨hanswer, hafter⟩ := h e d hsource.symm
  exact ⟨hanswer.symm, hafter.symm⟩

theorem trans (hpq : Alike p q) (hqr : Alike q r) : Alike p r := by
  intro d e hsource
  obtain ⟨hpanswer, hpafter⟩ := hpq d d rfl
  obtain ⟨hqanswer, hqafter⟩ := hqr d e hsource
  exact ⟨hpanswer.trans hqanswer, hpafter.trans hqafter⟩

/-- A play that is alike to any is alike to itself. -/
theorem self (h : Alike p q) : Alike p p := h.trans h.symm

theorem pure (a : α) : Alike (pure a) (pure a) :=
  fun _ _ hsource => ⟨rfl, hsource⟩

/-- An answer that does not depend on the desk. -/
theorem lift (answer : Except Fault α) : Alike (liftM answer) (liftM answer) :=
  fun _ _ hsource => ⟨rfl, hsource⟩

/-- A draw looks at the source only. -/
theorem ofDraw (draw : Source → α × Source) : Alike (ofDraw draw) (ofDraw draw) := by
  intro d e hsource
  change Except.ok (draw d.source).1 = Except.ok (draw e.source).1 ∧
    (draw d.source).2 = (draw e.source).2
  rw [hsource]
  exact ⟨rfl, rfl⟩

theorem integer (low high : Int) : Alike (integer low high) (integer low high) := by
  intro d e hsource
  change (d.source.integer low high).1 = (e.source.integer low high).1 ∧
    (d.source.integer low high).2 = (e.source.integer low high).2
  rw [hsource]
  exact ⟨rfl, rfl⟩

/-- A notice is as good as none. -/
theorem notify (level : Level) (channel : Channel) (text : String) :
    Alike (notify level channel text) (Pure.pure ()) :=
  fun _ _ hsource => ⟨rfl, hsource⟩

theorem bind (hp : Alike p q) (hf : ∀ a, Alike (f a) (g a)) : Alike (p >>= f) (q >>= g) := by
  intro d e hsource
  obtain ⟨hanswer, hafter⟩ := hp d e hsource
  rw [outcome_bind, outcome_bind]
  rcases hd : p.outcome d with ⟨fault | a, d'⟩
  · rcases he : q.outcome e with ⟨fault' | a', e'⟩
    · rw [hd, he] at hanswer hafter
      exact ⟨by rw [Except.error.inj hanswer], hafter⟩
    · rw [hd, he] at hanswer
      exact absurd hanswer (by simp)
  · rcases he : q.outcome e with ⟨fault' | a', e'⟩
    · rw [hd, he] at hanswer
      exact absurd hanswer (by simp)
    · rw [hd, he] at hanswer hafter
      obtain rfl := Except.ok.inj hanswer
      exact hf a d' e' hafter

/-- A play that returns without a draw may be left out. -/
theorem pure_bind {s : Play β} (hp : Alike p (Pure.pure a)) (hf : Alike (f a) s) :
    Alike (p >>= f) s := by
  intro d e hsource
  obtain ⟨hanswer, hafter⟩ := hp d e hsource
  rcases hd : p.outcome d with ⟨fault | a', d'⟩
  · rw [hd] at hanswer
    exact absurd hanswer (by simp)
  · rw [hd] at hanswer hafter
    obtain rfl := Except.ok.inj hanswer
    rw [outcome_bind_ok hd]
    exact hf d' e hafter

/-- What comes behind a notice is what counts. -/
theorem notify_bind {f : Unit → Play β} {s : Play β} {level : Level} {channel : Channel}
    {text : String} (hf : Alike (f ()) s) : Alike (Play.notify level channel text >>= f) s :=
  pure_bind (notify level channel text) hf

theorem attempt (hp : Alike p q) : Alike (attempt p) (attempt q) := by
  intro d e hsource
  obtain ⟨hanswer, hafter⟩ := hp d e hsource
  exact ⟨congrArg Except.ok hanswer, hafter⟩

theorem mapM {γ : Type} {f g : γ → Play α} {items : List γ}
    (h : ∀ item ∈ items, Alike (f item) (g item)) : Alike (items.mapM f) (items.mapM g) := by
  induction items with
  | nil => exact pure []
  | cons item items ih =>
    rw [List.mapM_cons, List.mapM_cons]
    have hitem := h item (List.mem_cons_self ..)
    have hitems := ih fun other hother => h other (List.mem_cons_of_mem _ hother)
    exact hitem.bind fun a => hitems.bind fun rest => pure (a :: rest)

/-- A pick is one draw. -/
theorem pick (items : List α) (hne : items ≠ []) : Alike (pick items hne) (pick items hne) :=
  (ofDraw _).bind fun i => pure (items[i]?.getD (items.head hne))

theorem happens (probability : Quantity) : Alike (happens probability) (happens probability) :=
  (ofDraw _).bind fun u => pure (Quantity.isLess (.real u) probability)

theorem traceFrom {γ : Type} {step : γ → β → Play γ}
    (h : ∀ previous item, Alike (step previous item) (step previous item)) (done : List γ)
    (previous : γ) (items : List β) :
    Alike (traceFrom step done previous items) (traceFrom step done previous items) := by
  induction items generalizing done previous with
  | nil => exact pure done.reverse
  | cons item items ih => exact (h previous item).bind fun next => ih (next :: done) next

theorem trace {γ : Type} {step : γ → β → Play γ}
    (h : ∀ previous item, Alike (step previous item) (step previous item)) (first : γ)
    (items : List β) : Alike (trace step first items) (trace step first items) :=
  traceFrom h [first] first items

/-- What one of two plays returns, the other returns as well. -/
theorem exists_ok (h : Alike p q) {d e e' : Desk} (hsource : d.source = e.source)
    (hq : q.outcome e = (.ok a, e')) :
    ∃ d', p.outcome d = (.ok a, d') ∧ d'.source = e'.source := by
  obtain ⟨hanswer, hafter⟩ := h d e hsource
  rw [hq] at hanswer hafter
  exact ⟨(p.outcome d).2, Prod.ext hanswer rfl, hafter⟩

end Alike

/-! ## Plays that look at nothing -/

/-- A play that gives this answer at every desk, and draws nothing. -/
def Answers (p : Play α) (answer : Except Fault α) : Prop :=
  ∀ desk, (p.outcome desk).1 = answer ∧ (p.outcome desk).2.source = desk.source

namespace Answers

variable {p : Play α} {f : α → Play β} {answer : Except Fault α} {g : α → Except Fault β}

theorem pure (a : α) : Answers (pure a) (.ok a) := fun _ => ⟨rfl, rfl⟩

theorem lift (answer : Except Fault α) : Answers (liftM answer) answer := fun _ => ⟨rfl, rfl⟩

theorem notify (level : Level) (channel : Channel) (text : String) :
    Answers (notify level channel text) (.ok ()) :=
  fun _ => ⟨rfl, rfl⟩

theorem attempt (hp : Answers p answer) : Answers (attempt p) (.ok answer) :=
  fun desk => ⟨congrArg Except.ok (hp desk).1, (hp desk).2⟩

/-- Behind a play that returns the rest is what counts. -/
theorem bind_ok {a : α} {answer : Except Fault β} (hp : Answers p (.ok a))
    (hf : Answers (f a) answer) : Answers (p >>= f) answer := by
  intro desk
  obtain ⟨hanswer, hsource⟩ := hp desk
  rw [outcome_bind_ok (Prod.ext hanswer rfl)]
  obtain ⟨hanswer', hsource'⟩ := hf (p.outcome desk).2
  exact ⟨hanswer', hsource'.trans hsource⟩

theorem bind (hp : Answers p answer) (hf : ∀ a, Answers (f a) (g a)) :
    Answers (p >>= f) (answer >>= g) := by
  cases answer with
  | error fault =>
    intro desk
    obtain ⟨hanswer, hsource⟩ := hp desk
    rw [outcome_bind_error (Prod.ext hanswer rfl)]
    exact ⟨rfl, hsource⟩
  | ok a => exact hp.bind_ok (hf a)

theorem foldlM {γ : Type} {f : γ → β → Play γ} {g : γ → β → Except Fault γ}
    (h : ∀ c item, Answers (f c item) (g c item)) (first : γ) (items : List β) :
    Answers (items.foldlM f first) (items.foldlM g first) := by
  induction items generalizing first with
  | nil => exact pure first
  | cons item items ih =>
    rw [List.foldlM_cons, List.foldlM_cons]
    exact (h first item).bind ih

/-- Items that are answered one by one are answered together. -/
theorem mapM {γ : Type} {f : γ → Play α} {items : List γ} {results : List α}
    (h : List.Forall₂ (fun item result => Answers (f item) (.ok result)) items results) :
    Answers (items.mapM f) (.ok results) := by
  induction h with
  | nil => exact pure []
  | cons hitem _ ih =>
    rw [List.mapM_cons]
    exact hitem.bind_ok (ih.bind_ok (pure _))

/-- What is alike to a play that answers gives the same answer. -/
theorem of_alike {q : Play α} (h : Alike p q) (hq : Answers q answer) : Answers p answer := by
  intro desk
  obtain ⟨hanswer, hsource⟩ := h desk desk rfl
  exact ⟨hanswer.trans (hq desk).1, hsource.trans (hq desk).2⟩

/-- There is one answer. -/
theorem unique {answer' : Except Fault α} (h : Answers p answer) (h' : Answers p answer') :
    answer = answer' :=
  (h ⟨.script ⟨#[], 0⟩, #[]⟩).1.symm.trans (h' ⟨.script ⟨#[], 0⟩, #[]⟩).1

theorem unique_ok {a b : α} (h : Answers p (.ok a)) (h' : Answers p (.ok b)) : a = b :=
  Except.ok.inj (h.unique h')

/-- One desk tells the answer. -/
theorem eq_of_outcome {a b : α} {desk : Desk} (h : Answers p (.ok a))
    (hdesk : (p.outcome desk).1 = .ok b) : a = b :=
  Except.ok.inj ((h desk).1.symm.trans hdesk)

end Answers

/-- A play that gives one and the same answer at every desk, and draws nothing. -/
def Fixed (p : Play α) : Prop :=
  ∃ answer, ∀ desk, (p.outcome desk).1 = answer ∧ (p.outcome desk).2.source = desk.source

namespace Fixed

variable {p : Play α} {f : α → Play β}

theorem of_answers {answer : Except Fault α} (h : Answers p answer) : Fixed p := ⟨answer, h⟩

theorem exists_answers (h : Fixed p) : ∃ answer, Answers p answer := h

theorem pure (a : α) : Fixed (pure a) := of_answers (.pure a)

theorem lift (answer : Except Fault α) : Fixed (liftM answer) := of_answers (.lift answer)

theorem notify (level : Level) (channel : Channel) (text : String) :
    Fixed (notify level channel text) :=
  of_answers (.notify level channel text)

theorem bind (hp : Fixed p) (hf : ∀ a, Fixed (f a)) : Fixed (p >>= f) := by
  obtain ⟨answer, hp⟩ := hp.exists_answers
  choose g hg using fun a => (hf a).exists_answers
  exact of_answers (hp.bind hg)

theorem foldlM {γ : Type} {f : γ → β → Play γ} (h : ∀ c item, Fixed (f c item)) (first : γ)
    (items : List β) : Fixed (items.foldlM f first) := by
  choose g hg using fun c item => (h c item).exists_answers
  exact of_answers (.foldlM hg first items)

theorem source_eq (h : Fixed p) (desk : Desk) : (p.outcome desk).2.source = desk.source := by
  obtain ⟨answer, h⟩ := h
  exact (h desk).2

theorem answer_eq (h : Fixed p) (d e : Desk) : (p.outcome d).1 = (p.outcome e).1 := by
  obtain ⟨answer, h⟩ := h
  exact (h d).1.trans (h e).1.symm

/-- A play that looks at nothing, and returns from steady sources, returns from all. -/
theorem yields {steady : Source → Prop} {good : α → Prop} (h : Fixed p)
    (hp : Settles steady p good fun _ => False) (desk : Desk) (hs : steady desk.source) :
    ∃ a, Answers p (.ok a) ∧ good a := by
  obtain ⟨a, after, hok, hgood, -⟩ := hp.exists_ok desk hs
  obtain ⟨answer, hanswers⟩ := h.exists_answers
  have hanswer : answer = .ok a := by
    rw [← (hanswers desk).1, hok]
  exact ⟨a, hanswer ▸ hanswers, hgood⟩

end Fixed

/-! ## Plays that return the same from everywhere -/

/-- A play that returns one good value at every desk, and draws nothing. -/
def Yields (p : Play α) (good : α → Prop) : Prop := ∃ a, Answers p (.ok a) ∧ good a

namespace Yields

variable {p : Play α} {f : α → Play β} {good good' : α → Prop} {better : β → Prop}

theorem pure {a : α} (h : good a) : Yields (pure a) good := ⟨a, .pure a, h⟩

theorem of_alike {a : α} (h : Alike p (Pure.pure a)) (ha : good a) : Yields p good :=
  ⟨a, .of_alike h (.pure a), ha⟩

theorem mono (hp : Yields p good) (h : ∀ a, good a → good' a) : Yields p good' := by
  obtain ⟨a, hanswers, ha⟩ := hp
  exact ⟨a, hanswers, h a ha⟩

theorem bind (hp : Yields p good) (hf : ∀ a, good a → Yields (f a) better) :
    Yields (p >>= f) better := by
  obtain ⟨a, hanswers, ha⟩ := hp
  obtain ⟨b, hb, hbetter⟩ := hf a ha
  exact ⟨b, hanswers.bind_ok hb, hbetter⟩

/-- What the items yield one by one. -/
theorem exists_forall₂ {γ : Type} {f : γ → Play α} {good : γ → α → Prop} {items : List γ}
    (h : ∀ item ∈ items, Yields (f item) (good item)) :
    ∃ results, List.Forall₂ (fun item result => Answers (f item) (.ok result)) items results ∧
      List.Forall₂ good items results := by
  induction items with
  | nil => exact ⟨[], .nil, .nil⟩
  | cons item items ih =>
    obtain ⟨result, hresult, hgood⟩ := h item (List.mem_cons_self ..)
    obtain ⟨results, hresults, hgoods⟩ :=
      ih fun other hother => h other (List.mem_cons_of_mem _ hother)
    exact ⟨result :: results, .cons hresult hresults, .cons hgood hgoods⟩

theorem mapM {γ : Type} {f : γ → Play α} {good : γ → α → Prop} {items : List γ}
    (h : ∀ item ∈ items, Yields (f item) (good item)) :
    Yields (items.mapM f) (List.Forall₂ good items) := by
  obtain ⟨results, hresults, hgood⟩ := exists_forall₂ h
  exact ⟨results, .mapM hresults, hgood⟩

end Yields

end Play
end NoteTape
