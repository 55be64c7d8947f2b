import NoteTape.Chance.Source
import NoteTape.Notice

/-!
# Playing

A *play* is a computation that may draw random numbers, give notices and fail.  It runs at a
`Desk`, which holds the source of the draws and the notices given so far.  The desk stays when a
play fails: the draws that were taken are taken, and what was said is said.

## Whose source

A desk has one source, the *ambient* one.  A caller who wants repeatable or undisturbed draws
names another `Origin`: a fresh source for a seed, or a source of its own.  `Origin.run` is the
only place where that choice is made.  A play never sees any other source than the one it is run
with, and the ambient source is untouched unless the origin is `ambient`.
-/

namespace NoteTape

/-- What a play uses: the source of its draws and the notices given so far, in order. -/
structure Desk where
  source : Source
  notices : Array Notice
  deriving DecidableEq, Repr

/-- A computation that may draw, give notices and fail. -/
abbrev Play := ExceptT Fault (StateM Desk)

namespace Play

variable {α : Type}

/-- The outcome of a play at a desk, and the desk afterwards. -/
def outcome (p : Play α) (desk : Desk) : Except Fault α × Desk := StateT.run (ExceptT.run p) desk

/-- A play given by what it does at a desk. -/
def ofOutcome (f : Desk → Except Fault α × Desk) : Play α := ExceptT.mk f

/-- A play that only draws, and cannot fail. -/
def ofDraw (draw : Source → α × Source) : Play α :=
  ofOutcome fun desk =>
    let (a, source) := draw desk.source
    (.ok a, ⟨source, desk.notices⟩)

/-- Draw a fraction of the unit interval. -/
def uniform : Play Binary64 := ofDraw Source.uniform

/-- Draw an index below a bound. -/
def index (n : Nat) : Play Nat := ofDraw (Source.index n)

/-- Draw an integer of a closed interval. -/
def integer (low high : Int) : Play Int :=
  ofOutcome fun desk =>
    let (r, source) := desk.source.integer low high
    (r, ⟨source, desk.notices⟩)

/-- Draw one item of a list that is not empty. -/
def pick (items : List α) (h : items ≠ []) : Play α := do
  let i ← index items.length
  return items[i]?.getD (items.head h)

/-- Draw whether an event of a given probability happens. -/
def happens (probability : Quantity) : Play Bool := do
  let u ← uniform
  return Quantity.isLess (.real u) probability

/-- Give a notice. -/
def notify (level : Level) (channel : Channel) (text : String) : Play Unit :=
  ofOutcome fun desk => (.ok (), ⟨desk.source, desk.notices.push ⟨level, channel, text⟩⟩)

/-- The outcome of a play as a value: a play that goes on after a fault. -/
def attempt (p : Play α) : Play (Except Fault α) :=
  ofOutcome fun desk =>
    let (r, desk) := p.outcome desk
    (.ok r, desk)

/-- The values of `trace` after `previous`; `done` are those so far, the latest first. -/
def traceFrom {β : Type} (step : β → α → Play β) (done : List β) (previous : β) :
    List α → Play (List β)
  | [] => pure done.reverse
  | item :: items => do
      let next ← step previous item
      traceFrom step (next :: done) next items

/-- A first value and, for each item, the value that follows from the one before. -/
def trace {β : Type} (step : β → α → Play β) (first : β) (items : List α) : Play (List β) :=
  traceFrom step [first] first items

/-- Start the source afresh from a seed. -/
def reseed (seed : Int) : Play Unit := ofDraw fun _ => ((), Source.seeded seed)

end Play

/-- Where the draws of a play come from. -/
inductive Origin where
  /-- The source of the desk. -/
  | ambient
  /-- A fresh source for a seed. -/
  | seeded (seed : Int)
  /-- A source of the caller's. -/
  | own (source : Source)
  deriving DecidableEq, Repr

namespace Origin

/-- The source that a play starts with. -/
def source (origin : Origin) (ambient : Source) : Source :=
  match origin with
  | .ambient => ambient
  | seeded seed => Source.seeded seed
  | own source => source

/-- The outcome of a play whose draws come from an origin, the state in which it leaves its
source, and the desk afterwards. -/
def run {α : Type} (origin : Origin) (p : Play α) (desk : Desk) :
    (Except Fault α × Source) × Desk :=
  let (r, after) := p.outcome ⟨origin.source desk.source, desk.notices⟩
  let left :=
    match origin with
    | .ambient => after.source
    | _ => desk.source
  ((r, after.source), ⟨left, after.notices⟩)

/-- The choice between a seed, a source of the caller's and the ambient source, in this order. -/
def choose (seed : Option Int) (own : Option Source) : Origin :=
  match seed, own with
  | some n, _ => seeded n
  | none, some s => .own s
  | none, none => ambient

end Origin
end NoteTape
