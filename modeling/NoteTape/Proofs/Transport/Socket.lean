import NoteTape.Proofs.Play
import NoteTape.Proofs.Transport.Wire

/-!
# The sockets of a wire

A wire has one place for a socket.  `Network.logged` is a network that keeps a log: it numbers the
sockets as they are opened, and what a wire sends or closes concerns the latest one, which is the only one
that a wire can still know.  Whether a transmission is refused may depend on everything before it.

A log is `Orderly` when a socket is only opened while none is held and only used and closed while it is
held.  Each action of a wire keeps this, `Call.orderly_perform`, so all sequences of actions do,
`orderly_performAll`.  What is wanted of the sockets follows from the log alone: there is at most one more
opened than closed, `Orderly.opened_prefix`, and what is used is open, `Orderly.isLive`.

The main result is `sockets_kept`.
-/

namespace NoteTape

/-! ## Logs -/

/-- What happens to the sockets, which are numbered from one on. -/
inductive SocketEvent where
  | opened (socket : Nat)
  | closed (socket : Nat)
  /-- Bytes were given to a socket, and what came of it. -/
  | transmitted (socket : Nat) (destination : Destination) (bytes : List UInt8)
      (answer : Except Fault Unit)

namespace SocketEvent

variable {log before : List SocketEvent} {event : SocketEvent} {held : Option Nat} {socket : Nat}

def isOpened : SocketEvent → Bool
  | opened _ => true
  | _ => false

def isClosed : SocketEvent → Bool
  | closed _ => true
  | _ => false

/-- The number of sockets that were opened. -/
def openedCount (log : List SocketEvent) : Nat := log.countP isOpened

/-- The number of sockets that were closed. -/
def closedCount (log : List SocketEvent) : Nat := log.countP isClosed

/-- The datagram that went out, if one did. -/
def datagram? : SocketEvent → Option (Destination × List UInt8)
  | transmitted _ destination bytes (.ok ()) => some (destination, bytes)
  | _ => none

/-- A socket that was opened and has not been closed. -/
def IsLive (log : List SocketEvent) (socket : Nat) : Prop := opened socket ∈ log ∧ closed socket ∉ log

/-- The socket that an event uses or closes. -/
def used? : SocketEvent → Option Nat
  | opened _ => none
  | closed socket => some socket
  | transmitted socket _ _ _ => some socket

/-- Sockets are opened while none is held.  They are used and closed while they are held. -/
inductive Orderly : List SocketEvent → Option Nat → Prop
  | nil : Orderly [] none
  | opened {log : List SocketEvent} :
      Orderly log none → Orderly (log ++ [opened (openedCount log + 1)]) (some (openedCount log + 1))
  | closed {log : List SocketEvent} {socket : Nat} :
      Orderly log (some socket) → Orderly (log ++ [closed socket]) none
  | transmitted {log : List SocketEvent} {socket : Nat} {destination : Destination}
      {bytes : List UInt8} {answer : Except Fault Unit} :
      Orderly log (some socket) →
        Orderly (log ++ [transmitted socket destination bytes answer]) (some socket)

theorem openedCount_concat (log : List SocketEvent) (event : SocketEvent) :
    openedCount (log ++ [event]) = openedCount log + event.isOpened.toNat := by
  rw [openedCount, List.countP_append, List.countP_singleton]
  cases event.isOpened with
  | false => rfl
  | true => rfl

theorem closedCount_concat (log : List SocketEvent) (event : SocketEvent) :
    closedCount (log ++ [event]) = closedCount log + event.isClosed.toNat := by
  rw [closedCount, List.countP_append, List.countP_singleton]
  cases event.isClosed with
  | false => rfl
  | true => rfl

/-- What an orderly log says about the sockets. -/
structure Kept (log : List SocketEvent) (held : Option Nat) : Prop where
  /-- All sockets are closed but the one that is held. -/
  balanced : openedCount log = closedCount log + held.toList.length
  numbered : ∀ socket, opened socket ∈ log ∨ closed socket ∈ log → socket ≤ openedCount log
  live : ∀ socket ∈ held, IsLive log socket
  settled : ∀ socket, opened socket ∈ log → closed socket ∈ log ∨ held = some socket

namespace Orderly

/-- **An orderly log keeps its sockets.** -/
theorem kept (h : Orderly log held) : Kept log held := by
  induction h with
  | nil => exact ⟨rfl, fun _ hsocket => by simp at hsocket, nofun, nofun⟩
  | @opened log _ ih =>
    refine ⟨?_, fun socket hsocket => ?_, fun socket hsocket => ?_, fun socket hsocket => ?_⟩
    · rw [openedCount_concat, closedCount_concat, ih.balanced]
      rfl
    · have hcount : openedCount (log ++ [.opened (openedCount log + 1)]) = openedCount log + 1 :=
        openedCount_concat ..
      simp only [List.mem_append, List.mem_singleton, opened.injEq, reduceCtorEq, or_false] at hsocket
      rw [hcount]
      rcases hsocket with (hopened | rfl) | hclosed
      · exact Nat.le_succ_of_le (ih.numbered socket (.inl hopened))
      · exact le_rfl
      · exact Nat.le_succ_of_le (ih.numbered socket (.inr hclosed))
    · -- a number that was not given yet cannot have been closed
      obtain rfl := Option.some.inj hsocket
      refine ⟨List.mem_append_right _ (List.mem_singleton_self _), fun hclosed => ?_⟩
      simp only [List.mem_append, List.mem_singleton, reduceCtorEq, or_false] at hclosed
      exact absurd (ih.numbered _ (.inr hclosed)) (Nat.not_succ_le_self _)
    · simp only [List.mem_append, List.mem_singleton, opened.injEq] at hsocket
      rcases hsocket with hopened | rfl
      · exact .inl (List.mem_append_left _ ((ih.settled socket hopened).resolve_right nofun))
      · exact .inr rfl
  | @closed log socket _ ih =>
    refine ⟨?_, fun other hother => ?_, nofun, fun other hother => .inl ?_⟩
    · rw [openedCount_concat, closedCount_concat, ih.balanced]
      rfl
    · have hcount : openedCount (log ++ [.closed socket]) = openedCount log := openedCount_concat ..
      simp only [List.mem_append, List.mem_singleton, closed.injEq, reduceCtorEq, or_false] at hother
      rw [hcount]
      rcases hother with hopened | hclosed | rfl
      · exact ih.numbered other (.inl hopened)
      · exact ih.numbered other (.inr hclosed)
      · exact ih.numbered other (.inl (ih.live other rfl).1)
    · simp only [List.mem_append, List.mem_singleton, reduceCtorEq, or_false] at hother
      rcases ih.settled other hother with hclosed | hheld
      · exact List.mem_append_left _ hclosed
      · obtain rfl := Option.some.inj hheld
        exact List.mem_append_right _ (List.mem_singleton_self _)
  | @transmitted log socket destination bytes answer _ ih =>
    have hmem (event : SocketEvent) (hevent : event.used? = none ∨ event.isClosed = true) :
        event ∈ log ++ [.transmitted socket destination bytes answer] ↔ event ∈ log := by
      rw [List.mem_append, List.mem_singleton, or_iff_left]
      rintro rfl
      simp [used?, isClosed] at hevent
    refine ⟨?_, fun other hother => ?_, fun other hother => ?_, fun other hother => ?_⟩
    · rw [openedCount_concat, closedCount_concat]
      exact ih.balanced
    · rw [hmem _ (.inl rfl), hmem _ (.inr rfl)] at hother
      rw [openedCount_concat]
      exact ih.numbered other hother
    · rw [IsLive, hmem _ (.inl rfl), hmem _ (.inr rfl)]
      exact ih.live other hother
    · rw [hmem _ (.inl rfl)] at hother
      rw [hmem _ (.inr rfl)]
      exact ih.settled other hother

/-- An event that uses or closes a socket concerns the one that is held. -/
theorem exists_of_concat (h : Orderly (log ++ [event]) held) :
    ∃ held', Orderly log held' ∧ ∀ socket ∈ event.used?, held' = some socket := by
  generalize hlog : log ++ [event] = whole at h
  cases h with
  | nil => exact absurd hlog (List.append_ne_nil_of_right_ne_nil _ (List.cons_ne_nil _ _))
  | opened h =>
    obtain ⟨rfl, hevent⟩ := List.append_inj' hlog rfl
    obtain rfl := List.singleton_inj.mp hevent
    exact ⟨none, h, nofun⟩
  | closed h =>
    obtain ⟨rfl, hevent⟩ := List.append_inj' hlog rfl
    obtain rfl := List.singleton_inj.mp hevent
    exact ⟨_, h, fun socket hsocket => hsocket⟩
  | transmitted h =>
    obtain ⟨rfl, hevent⟩ := List.append_inj' hlog rfl
    obtain rfl := List.singleton_inj.mp hevent
    exact ⟨_, h, fun socket hsocket => hsocket⟩

/-- A log is orderly from its beginning on. -/
theorem exists_of_prefix (h : Orderly log held) (hbefore : before <+: log) :
    ∃ held', Orderly before held' := by
  induction h with
  | nil => exact ⟨none, List.prefix_nil.mp hbefore ▸ .nil⟩
  | opened h ih =>
    rcases List.prefix_concat_iff.mp hbefore with rfl | hbefore
    · exact ⟨_, h.opened⟩
    · exact ih hbefore
  | closed h ih =>
    rcases List.prefix_concat_iff.mp hbefore with rfl | hbefore
    · exact ⟨_, h.closed⟩
    · exact ih hbefore
  | transmitted h ih =>
    rcases List.prefix_concat_iff.mp hbefore with rfl | hbefore
    · exact ⟨_, h.transmitted⟩
    · exact ih hbefore


/-- **There is never more than one socket open,** at any moment. -/
theorem opened_prefix (h : Orderly log held) (hbefore : before <+: log) :
    openedCount before = closedCount before ∨ openedCount before = closedCount before + 1 := by
  obtain ⟨held', hbefore'⟩ := h.exists_of_prefix hbefore
  have hbalanced := hbefore'.kept.balanced
  cases held' with
  | none => exact .inl hbalanced
  | some socket => exact .inr hbalanced

/-- **What is used or closed is open.** -/
theorem isLive (h : Orderly log held) (hbefore : before ++ [event] <+: log)
    (hsocket : socket ∈ event.used?) : IsLive before socket := by
  obtain ⟨held', hbefore'⟩ := h.exists_of_prefix hbefore
  obtain ⟨held, hlog, hheld⟩ := hbefore'.exists_of_concat
  exact hlog.kept.live socket (hheld socket hsocket)

end Orderly
end SocketEvent

open SocketEvent

/-- A network that keeps a log.  Its answers may look at all that happened before. -/
def Network.logged (answer : List SocketEvent → Destination → List UInt8 → Except Fault Unit) :
    Network (StateM (List SocketEvent)) where
  openSocket := fun log => ((), log ++ [.opened (openedCount log + 1)])
  closeSocket := fun log => ((), log ++ [.closed (openedCount log)])
  transmit destination bytes := fun log => (answer log destination bytes,
    log ++ [.transmitted (openedCount log) destination bytes (answer log destination bytes)])

namespace Wire

variable (answer : List SocketEvent → Destination → List UInt8 → Except Fault Unit)
  {destination : Destination} {wire : Wire} {log : List SocketEvent}
  {sent : List (Destination × List UInt8)} {target tape : String}

/-! ## Actions -/

theorem run_bind_of_run {α β : Type} {action : StateM (List SocketEvent) α}
    {next : α → StateM (List SocketEvent) β} {log log' : List SocketEvent} {a : α}
    (h : action.run log = (a, log')) : (action >>= next).run log = (next a).run log' := by
  rw [StateT.run_bind, h]
  rfl

/-- The socket that a wire holds, if any: the latest one. -/
def held? (wire : Wire) (log : List SocketEvent) : Option Nat :=
  if wire.isOpen then some (openedCount log) else none

/-- A wire after some actions: its log is orderly, and these datagrams went out. -/
structure Stands (destination : Destination) (sent : List (Destination × List UInt8)) (wire : Wire)
    (log : List SocketEvent) : Prop where
  destination_eq : wire.destination = destination
  orderly : Orderly log (wire.held? log)
  datagrams_eq : log.filterMap datagram? = sent

theorem stands_closed (destination : Destination) : Stands destination [] (closed destination) [] :=
  ⟨rfl, .nil, rfl⟩

/-- A connected wire holds a socket. -/
theorem exists_connect (h : Stands destination sent wire log) :
    ∃ notices log', (connect (.logged answer) wire).run log =
        (⟨.ok (), ⟨destination, true⟩, notices⟩, log') ∧
      log' = (log ++ if wire.isOpen then [] else [.opened (openedCount log + 1)]) ∧
      Stands destination sent ⟨destination, true⟩ log' := by
  obtain ⟨destination', isOpen⟩ := wire
  obtain rfl : destination' = destination := h.destination_eq
  cases isOpen with
  | true => exact ⟨_, _, rfl, (List.append_nil log).symm, h⟩
  | false =>
    have horderly : Orderly log none := h.orderly
    refine ⟨_, log ++ [.opened (openedCount log + 1)], rfl, rfl, rfl, ?_, ?_⟩
    · change Orderly _ (some (openedCount (log ++ [SocketEvent.opened (openedCount log + 1)])))
      rw [openedCount_concat]
      exact horderly.opened
    · rw [List.filterMap_append, h.datagrams_eq]
      exact List.append_nil sent

/-- A disconnected wire holds none. -/
theorem exists_disconnect (h : Stands destination sent wire log) :
    ∃ log', (disconnect (.logged answer) wire).run log = (⟨.ok (), closed destination, []⟩, log') ∧
      Stands destination sent (closed destination) log' := by
  obtain ⟨destination', isOpen⟩ := wire
  obtain rfl : destination' = destination := h.destination_eq
  cases isOpen with
  | false => exact ⟨_, rfl, h⟩
  | true =>
    have horderly : Orderly log (some (openedCount log)) := h.orderly
    refine ⟨log ++ [.closed (openedCount log)], rfl, rfl, horderly.closed, ?_⟩
    rw [List.filterMap_append, h.datagrams_eq]
    exact List.append_nil sent

/-- What a transmission comes to: the fault of its message, or else the answer of the network. -/
def transmission (answer : Destination → List UInt8 → Except Fault Unit) (destination : Destination)
    (target tape : String) : Except Fault Unit := do
  answer destination (← wireBytes (wireMessage target tape))

/-- The datagrams that an attempt to send puts on the network: one if it succeeds, and none if it
fails. -/
def Emits (destination : Destination) (target tape : String) (outcome : Except Fault Unit)
    (datagrams : List (Destination × List UInt8)) : Prop :=
  match outcome with
  | .ok () => ∃ bytes, wireBytes (wireMessage target tape) = .ok bytes ∧ datagrams = [(destination, bytes)]
  | .error _ => datagrams = []

/-- **A transmission goes over the socket that is held.** -/
theorem exists_transmit (h : Stands destination sent ⟨destination, true⟩ log) (target tape : String) :
    ∃ outcome notices log' datagrams, (transmit (.logged answer) target tape ⟨destination, true⟩).run log =
        (⟨outcome, ⟨destination, true⟩, notices⟩, log') ∧
      outcome = transmission (answer log) destination target tape ∧
      Emits destination target tape outcome datagrams ∧
      Stands destination (sent ++ datagrams) ⟨destination, true⟩ log' := by
  rw [transmit, transmission]
  cases hbytes : wireBytes (wireMessage target tape) with
  | error fault => exact ⟨_, _, _, [], rfl, rfl, rfl, (List.append_nil sent).symm ▸ h⟩
  | ok bytes =>
    have horderly : Orderly log (some (openedCount log)) := h.orderly
    have hlogged : StateT.run ((Network.logged answer).transmit destination bytes) log =
        (answer log destination bytes,
          log ++ [.transmitted (openedCount log) destination bytes (answer log destination bytes)]) := rfl
    rw [Play.ok_bind]
    dsimp only
    rw [run_bind_of_run hlogged]
    generalize answer log destination bytes = answered
    have hheld : Orderly (log ++ [.transmitted (openedCount log) destination bytes answered])
        (held? ⟨destination, true⟩
          (log ++ [.transmitted (openedCount log) destination bytes answered])) := by
      rw [held?, openedCount_concat]
      exact horderly.transmitted
    cases answered with
    | error fault =>
      refine ⟨_, _, _, [], rfl, rfl, rfl, rfl, hheld, ?_⟩
      rw [List.filterMap_append, h.datagrams_eq]
      rfl
    | ok answered =>
      refine ⟨_, _, _, [(destination, bytes)], rfl, rfl, ⟨bytes, hbytes, rfl⟩, rfl, hheld, ?_⟩
      rw [List.filterMap_append, h.datagrams_eq]
      rfl

/-- A message is sent over a connection, which is made if there is none. -/
theorem exists_send (h : Stands destination sent wire log) (target tape : String) :
    ∃ outcome notices log' before datagrams, (send (.logged answer) target tape wire).run log =
        (⟨outcome, ⟨destination, true⟩, notices⟩, log') ∧
      before = (log ++ if wire.isOpen then [] else [.opened (openedCount log + 1)]) ∧
      outcome = transmission (answer before) destination target tape ∧
      Emits destination target tape outcome datagrams ∧
      Stands destination (sent ++ datagrams) ⟨destination, true⟩ log' := by
  obtain ⟨opening, before, hconnect, hbefore, hopened⟩ := exists_connect answer h
  obtain ⟨outcome, notices, log', datagrams, htransmit, houtcome, hemits, hstands⟩ :=
    exists_transmit answer hopened target tape
  refine ⟨outcome, opening ++ notices, log', before, datagrams, ?_, hbefore, houtcome, hemits, hstands⟩
  rw [send, run_bind_of_run hconnect, run_bind_of_run htransmit]
  rfl

/-! ## Sequences of calls -/

/-- What can be asked of a wire.  A block that a wire is used in is entered and left. -/
inductive Call where
  | open
  | close
  | enter
  | leave
  | send (target tape : String)

namespace Call

variable {m : Type → Type} [Monad m]

def perform (network : Network m) (wire : Wire) : Call → m Report
  | .open | .enter => connect network wire
  | .close | .leave => disconnect network wire
  | .send target tape => Wire.send network target tape wire

/-- Perform some calls on a wire in order, also behind those that fail. -/
def performAll (network : Network m) : List Call → Wire → m (List (Except Fault Unit) × Wire)
  | [], wire => pure ([], wire)
  | call :: calls, wire => do
      let report ← call.perform network wire
      let (outcomes, last) ← performAll network calls report.wire
      return (report.outcome :: outcomes, last)

/-- The datagrams that belong to a call with its outcome. -/
def Emits (destination : Destination) (datagrams : List (Destination × List UInt8)) :
    Call × Except Fault Unit → Prop
  | (.send target tape, outcome) => Wire.Emits destination target tape outcome datagrams
  | (_, outcome) => outcome = .ok () ∧ datagrams = []

end Call

/-- **One call on a wire.** -/
theorem exists_perform (h : Stands destination sent wire log) (call : Call) :
    ∃ report log' datagrams, (call.perform (.logged answer) wire).run log = (report, log') ∧
      Call.Emits destination datagrams (call, report.outcome) ∧
      Stands destination (sent ++ datagrams) report.wire log' := by
  have hconnected : ∃ report log' datagrams, (connect (.logged answer) wire).run log = (report, log') ∧
      (report.outcome = .ok () ∧ datagrams = []) ∧
      Stands destination (sent ++ datagrams) report.wire log' := by
    obtain ⟨_, log', hconnect, -, hstands⟩ := exists_connect answer h
    exact ⟨_, log', [], hconnect, ⟨rfl, rfl⟩, (List.append_nil sent).symm ▸ hstands⟩
  have hdisconnected : ∃ report log' datagrams,
      (disconnect (.logged answer) wire).run log = (report, log') ∧
      (report.outcome = .ok () ∧ datagrams = []) ∧
      Stands destination (sent ++ datagrams) report.wire log' := by
    obtain ⟨log', hdisconnect, hstands⟩ := exists_disconnect answer h
    exact ⟨_, log', [], hdisconnect, ⟨rfl, rfl⟩, (List.append_nil sent).symm ▸ hstands⟩
  cases call with
  | «open» => exact hconnected
  | close => exact hdisconnected
  | enter => exact hconnected
  | leave => exact hdisconnected
  | send target tape =>
    obtain ⟨_, _, log', _, datagrams, hsend, -, -, hemits, hstands⟩ :=
      exists_send answer h target tape
    exact ⟨_, log', datagrams, hsend, hemits, hstands⟩

/-- **A sequence of calls,** with the datagrams of each. -/
theorem exists_performAll (calls : List Call) (h : Stands destination sent wire log) :
    ∃ outcomes last log' parts, (Call.performAll (.logged answer) calls wire).run log =
        ((outcomes, last), log') ∧
      outcomes.length = calls.length ∧
      List.Forall₂ (fun part call => Call.Emits destination part call) parts (calls.zip outcomes) ∧
      Stands destination (sent ++ parts.flatten) last log' := by
  induction calls generalizing sent wire log with
  | nil => exact ⟨[], wire, log, [], rfl, rfl, .nil, (List.append_nil sent).symm ▸ h⟩
  | cons call calls ih =>
    obtain ⟨report, middle, datagrams, hperform, hemits, hmiddle⟩ := exists_perform answer h call
    obtain ⟨outcomes, last, log', parts, hrest, hlength, hparts, hlast⟩ := ih hmiddle
    refine ⟨report.outcome :: outcomes, last, log', datagrams :: parts, ?_,
      congrArg Nat.succ hlength, .cons hemits hparts, ?_⟩
    · rw [Call.performAll, run_bind_of_run hperform, run_bind_of_run hrest]
      rfl
    · rw [List.flatten_cons, ← List.append_assoc]
      exact hlast

/-- **One tape over a wire of its own.**  The socket is closed again, and the fault is the one that
occurred. -/
theorem exists_sendOnce (destination : Destination) (target tape : String) :
    ∃ report log datagrams, (sendOnce (.logged answer) destination target tape).run [] = (report, log) ∧
      report.outcome = transmission (answer [.opened 1]) destination target tape ∧
      Emits destination target tape report.outcome datagrams ∧
      report.wire = closed destination ∧ Stands destination datagrams report.wire log := by
  obtain ⟨opening, opened, hconnect, hlog, hopened⟩ :=
    exists_connect answer (stands_closed destination)
  obtain ⟨outcome, notices, middle, before, datagrams, hsend, hbefore, houtcome, hemits, hmiddle⟩ :=
    exists_send answer hopened target tape
  obtain ⟨log, hdisconnect, hstands⟩ := exists_disconnect answer hmiddle
  have hsingle : before = [.opened 1] := by
    rw [hbefore, hlog]
    rfl
  have hwithin : (sendWithin (.logged answer) target tape (closed destination)).run [] =
      (⟨outcome, closed destination, opening ++ notices⟩, log) := by
    rw [sendWithin, run_bind_of_run hconnect, run_bind_of_run hsend, run_bind_of_run hdisconnect]
    rfl
  rw [hsingle] at houtcome
  rw [sendOnce, run_bind_of_run hwithin]
  cases outcome with
  | ok answered => exact ⟨_, log, datagrams, rfl, houtcome, hemits, rfl, hstands⟩
  | error fault =>
    dsimp only
    split
    · exact ⟨_, log, datagrams, rfl, houtcome, hemits, rfl, hstands⟩
    · exact ⟨_, log, datagrams, rfl, houtcome, hemits, rfl, hstands⟩

/-- **No socket leaks, and none is used when it is closed.**  Whatever the network answers, after any
calls on a wire one more socket is opened than closed if the wire holds one, and as many are opened as
closed otherwise.  It is never more than one more, at any moment in between.  A socket that is sent over
or closed is open, and all that were opened are closed but the one that the wire holds.  The datagrams
that went out are those of the successful calls to send, one each.  A tape that is sent over a wire of its
own leaves no socket open, whether it is sent or not, and the fault is the one that occurred: that of the
message or that of the network. -/
theorem sockets_kept (answer : List SocketEvent → Destination → List UInt8 → Except Fault Unit)
    (destination : Destination) :
    (∀ calls : List Call, ∃ outcomes wire log parts,
      (Call.performAll (.logged answer) calls (closed destination)).run [] = ((outcomes, wire), log) ∧
      openedCount log = closedCount log + (if wire.isOpen then 1 else 0) ∧
      (∀ before, before <+: log →
        openedCount before = closedCount before ∨ openedCount before = closedCount before + 1) ∧
      (∀ before event socket, before ++ [event] <+: log → event.used? = some socket →
        IsLive before socket) ∧
      (∀ socket, .opened socket ∈ log → .closed socket ∈ log ∨ wire.held? log = some socket) ∧
      outcomes.length = calls.length ∧ log.filterMap datagram? = parts.flatten ∧
      List.Forall₂ (fun part call => Call.Emits destination part call) parts (calls.zip outcomes)) ∧
    ∀ target tape, ∃ report log datagrams,
      (sendOnce (.logged answer) destination target tape).run [] = (report, log) ∧
      report.outcome = transmission (answer [.opened 1]) destination target tape ∧
      openedCount log = closedCount log ∧ (∀ socket, .opened socket ∈ log → .closed socket ∈ log) ∧
      (∀ before event socket, before ++ [event] <+: log → event.used? = some socket →
        IsLive before socket) ∧
      log.filterMap datagram? = datagrams ∧ Emits destination target tape report.outcome datagrams := by
  refine ⟨fun calls => ?_, fun target tape => ?_⟩
  · obtain ⟨outcomes, wire, log, parts, hrun, hlength, hparts, hstands⟩ :=
      exists_performAll answer calls (stands_closed destination)
    have horderly := hstands.orderly
    have hbalanced := horderly.kept.balanced
    refine ⟨outcomes, wire, log, parts, hrun, ?_, fun before => horderly.opened_prefix,
      fun before event socket => horderly.isLive, horderly.kept.settled, hlength, hstands.datagrams_eq,
      hparts⟩
    rw [hbalanced, held?]
    cases wire.isOpen with
    | false => rfl
    | true => rfl
  · obtain ⟨report, log, datagrams, hrun, houtcome, hemits, hwire, hstands⟩ :=
      exists_sendOnce answer destination target tape
    rw [hwire] at hstands
    have horderly : Orderly log none := hstands.orderly
    exact ⟨report, log, datagrams, hrun, houtcome, horderly.kept.balanced,
      fun socket hsocket => (horderly.kept.settled socket hsocket).resolve_right nofun,
      fun before event socket => horderly.isLive, hstands.datagrams_eq, hemits⟩

end Wire
end NoteTape
