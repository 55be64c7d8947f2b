import NoteTape.Libraries
import NoteTape.Proofs.Console.Fatal
import NoteTape.Proofs.Console.Run

/-!
# What a console survives

A console is `Reliable` when its link and its disk fail as the outside does: they refuse, and they
fail in no other way, except that a link cannot carry a tape to a target outside ASCII.  One turn
of a reliable console goes on unless its input is fatal or stops it, `always_answers_turn`.  A
session between two turns is `Sound`, and this carries the induction: a run takes one turn an input
until it stops or breaks, `always_course_runFrom`.

The console of the settings is reliable over the plain wire, so `Program.turnsOf_course` is about
the program.  Of the library of its files it asks that it makes messages and fails inside.
-/

namespace NoteTape

open Play (Verdict)

namespace Console

/-! ## Reliable consoles -/

/-- An answer from outside: a success or a refusal. -/
def IsPolite (outcome : Except Fault Unit) : Prop :=
  Verdict (fun _ => True) (fun fault => fault.kind = .system) outcome

variable {σ ρ α β : Type}

/-- Whatever the cell and the world are, an action ends in a good value. -/
def Always (good : α → Prop) (action : StateT ρ (StateM σ) α) : Prop :=
  ∀ cell world, good ((action.run cell).run world).1.1

namespace Always

theorem pure {good : α → Prop} {a : α} (h : good a) :
    Always good (pure a : StateT ρ (StateM σ) α) :=
  fun _ _ => h

theorem bind {good : α → Prop} {better : β → Prop} {action : StateT ρ (StateM σ) α}
    {next : α → StateT ρ (StateM σ) β} (h : Always good action)
    (hnext : ∀ a, good a → Always better (next a)) : Always better (action >>= next) :=
  fun cell world => hnext _ (h cell world) _ _

end Always

/-- A console whose link and disk fail as the outside does, except that a timed tape for a target
outside ASCII is a fault of another kind, and whose library makes messages and fails inside. -/
structure Reliable (console : Console (StateT ρ (StateM σ))) : Prop where
  makes : console.midi.MakesMessages
  inside : console.midi.FailsInside
  send : ∀ {target tape}, IsTimedTape tape → IsAsciiName target →
    Always (fun answer => IsPolite answer.1) (console.link.send target tape)
  foreign : ∀ {target tape}, IsTimedTape tape → ¬ IsAsciiName target →
    Always (fun answer => Verdict (fun _ => False) InnerFault answer.1)
      (console.link.send target tape)
  write : ∀ name bytes, Always IsPolite (console.disk.write name bytes)

/-- A session as it is between two turns: its source is fair, and its tape is timed. -/
structure Sound (session : Session) : Prop where
  fair : session.source.Fair
  timed : ∀ tape, session.lastTape = some tape → IsTimedTape tape

/-- What a turn comes to: a fault if its input was fatal, and else it goes on unless it stops. -/
structure Answers (fatal : Prop) (stops : Bool) (turn : Turn) : Prop where
  breaks : fatal → ∃ fault, turn.goesOn = .error fault
  goes : ¬ fatal → turn.goesOn = .ok (!stops) ∧ Sound turn.session

namespace Answers

variable {fatal : Prop} {session : Session}

theorem showing (hfatal : ¬ fatal) (h : Sound session) (lines : List String) :
    Answers fatal false (showing session lines) :=
  ⟨fun h => absurd h hfatal, fun _ => ⟨rfl, h.fair, h.timed⟩⟩

theorem stopping (hfatal : ¬ fatal) (h : Sound session) (lines : List String) :
    Answers fatal true (stopping session lines) :=
  ⟨fun h => absurd h hfatal, fun _ => ⟨rfl, h.fair, h.timed⟩⟩

theorem failing (hfatal : fatal) (fault : Fault) : Answers fatal false (failing session fault) :=
  ⟨fun _ => ⟨fault, rfl⟩, fun h => absurd hfatal h⟩

/-- A refusal from outside is shown. -/
theorem refusing_system (hfatal : ¬ fatal) (h : Sound session) (what : String) {fault : Fault}
    (hfault : fault.kind = .system) : Answers fatal false (refusing session what fault) := by
  have hsaid (notices : List Notice) : Sound (session.say notices) := ⟨h.fair, h.timed⟩
  rw [refusing, if_pos hfault]
  exact showing hfatal (hsaid _) _

/-- An inner fault ends the run. -/
theorem refusing_inner (hfatal : fatal) (what : String) {fault : Fault} (hfault : InnerFault fault) :
    Answers fatal false (refusing session what fault) := by
  rw [refusing, if_neg hfault]
  exact failing hfatal fault

end Answers

section

variable {console : Console (StateT ρ (StateM σ))} {session : Session}

/-- A delivery breaks the console when the target is not ASCII. -/
theorem always_answers_deliver (hreliable : Reliable console) {target tape : String}
    (hsound : IsAsciiName target → Sound session) (htape : IsTimedTape tape) :
    Always (Answers (¬ IsAsciiName target) false) (deliver console session target tape) := by
  by_cases htarget : IsAsciiName target
  · have hfatal : ¬ ¬ IsAsciiName target := not_not_intro htarget
    refine (hreliable.send htape htarget).bind fun answer hanswer => .pure ?_
    have hsaid : Sound (session.say answer.2) := ⟨(hsound htarget).fair, (hsound htarget).timed⟩
    rcases answer with ⟨fault | _, notices⟩
    · exact .refusing_system hfatal hsaid "Send failed" hanswer
    · refine ⟨fun h => absurd h hfatal, fun _ => ⟨rfl, hsaid.fair, ?_⟩⟩
      rintro _ ⟨⟩
      exact htape
  · refine (hreliable.foreign htape htarget).bind fun answer hanswer => .pure ?_
    rcases answer with ⟨fault | _, notices⟩
    · exact .refusing_inner htarget "Send failed" hanswer
    · exact hanswer.elim

/-- A timed tape is played into its track, or into the fault of the tempo, and the session is
otherwise as it was. -/
theorem exists_play_ofTape {midi : Midi} (hmidi : midi.MakesMessages) (session : Session)
    (tempo : Quantity) {tape : String} (htape : IsTimedTape tape) :
    ∃ notes rest, session.play (Track.ofTape midi (.atTempo tempo) tape) =
        (Track.tempoOf midi tempo >>= fun n =>
          .ok (Track.ofNotes TrackSpec.standard.resolution n notes), rest) ∧
      rest.source = session.source ∧ rest.lastTape = session.lastTape := by
  obtain ⟨answer, rest, hplay, hanswer, hsource, hlast⟩ :=
    Session.exists_play_of_fixed (Track.fixed_ofTape midi (.atTempo tempo) tape) session
  obtain ⟨_, htrack⟩ := hanswer session.desk
  obtain ⟨notes, _, hnotes⟩ := Track.outcome_ofTape hmidi tempo htape session.desk
  obtain rfl : answer = _ := congrArg Prod.fst (htrack.symm.trans hnotes)
  exact ⟨notes, rest, hplay, hsource, hlast⟩

/-- Saving breaks the console when there is a tape and its file cannot be written. -/
theorem always_answers_save (hreliable : Reliable console) (name : String)
    (htimed : ∀ tape, session.lastTape = some tape → IsTimedTape tape)
    (hsound : ¬ (session.lastTape ≠ none ∧ Unwritable console.midi console.tempo name) →
      Sound session) :
    Always (Answers (session.lastTape ≠ none ∧ Unwritable console.midi console.tempo name) false)
      (save console session name) := by
  rcases Option.eq_none_or_eq_some session.lastTape with hlast | ⟨tape, hlast⟩
  · rw [save_of_none _ hlast]
    have hfatal : ¬ (session.lastTape ≠ none ∧ Unwritable console.midi console.tempo name) :=
      fun h => h.1 hlast
    exact .pure (.showing hfatal (hsound hfatal) _)
  · obtain ⟨notes, rest, hplay, hsource, hremembered⟩ :=
      exists_play_ofTape hreliable.makes session console.tempo (htimed tape hlast)
    have htape : session.lastTape ≠ none := by simp [hlast]
    cases htempo : Track.tempoOf console.midi console.tempo with
    | error fault =>
      rw [htempo] at hplay
      have hfault := Track.verdict_tempoOf hreliable.inside console.tempo
      rw [htempo] at hfault
      rw [save_of_error console hlast hplay]
      exact .pure (.refusing_inner ⟨htape, .inl (by simp [htempo])⟩ _ hfault)
    | ok n =>
      rw [htempo] at hplay
      rw [save_of_ok console hlast hplay]
      split
      next hnul =>
        exact .pure (.failing ⟨htape, .inr (List.contains_iff_mem.mp hnul)⟩ _)
      next hnul =>
        have hfatal : ¬ (session.lastTape ≠ none ∧ Unwritable console.midi console.tempo name) := by
          rintro ⟨-, hlength | hmem⟩
          · exact hlength n htempo
          · exact hnul (List.contains_iff_mem.mpr hmem)
        have hrest : Sound rest :=
          ⟨by rw [hsource]; exact (hsound hfatal).fair, by rw [hremembered]; exact htimed⟩
        refine (hreliable.write name _).bind fun outcome houtcome => .pure ?_
        rcases outcome with fault | _
        · exact .refusing_system hfatal hrest _ houtcome
        · exact ⟨fun h => absurd h hfatal, fun _ => ⟨rfl, hrest.fair, hrest.timed⟩⟩

/-- **One turn.**  It goes on unless its input is fatal, or stops the console. -/
theorem always_answers_turn (hreliable : Reliable console) (hsound : Sound session)
    (input : Input) :
    Always (Answers (Fatal console.midi console.tempo session input) input.isStop)
      (turn console session input) := by
  obtain ⟨hbreaks, hfair, htimed⟩ := asks_demand console.midi console.tempo hsound.fair input
  obtain ⟨asked, hlast, hsource, hturn⟩ := exists_respond console session input
  rw [← isStop_demand session.source input, hturn]
  -- nothing is known of the source behind a fatal kick, so what responds is sound only otherwise
  have hasked (h : ¬ Fatal console.midi console.tempo session input) : Sound asked :=
    ⟨by rw [hsource]; exact hfair h, by rw [hlast]; exact hsound.timed⟩
  rw [← hbreaks] at hasked ⊢
  rw [← hlast] at hasked ⊢
  cases hdemand : (demand session.source input).1 with
  | «show» lines =>
    rw [hdemand] at hasked
    exact .pure (.showing id (hasked id) lines)
  | stop lines =>
    rw [hdemand] at hasked
    exact .pure (.stopping id (hasked id) lines)
  | save name =>
    rw [hdemand] at hasked
    exact always_answers_save hreliable name (by rw [hlast]; exact hsound.timed) hasked
  | send target tape =>
    rw [hdemand] at hasked
    exact always_answers_deliver hreliable (fun h => hasked (not_not_intro h))
      (htimed target tape hdemand)
  | fail fault => exact .pure (.failing trivial fault)

end

/-! ## Runs -/

/-- The turns that a console takes for its inputs: one for each until it stops, or until a fatal
input breaks it. -/
inductive Course (midi : Midi) (tempo : Quantity) : Session → List Input → List Turn → Prop
  | ended {session : Session} {turn : Turn} : turn.goesOn = .ok false →
      Course midi tempo session [] [turn]
  | stopped {session : Session} {input : Input} {inputs : List Input} {turn : Turn} :
      input.isStop = true → turn.goesOn = .ok false →
      Course midi tempo session (input :: inputs) [turn]
  | broken {session : Session} {input : Input} {inputs : List Input} {turn : Turn} {fault : Fault} :
      Fatal midi tempo session input → turn.goesOn = .error fault →
      Course midi tempo session (input :: inputs) [turn]
  | taken {session : Session} {input : Input} {inputs : List Input} {turn : Turn}
      {turns : List Turn} :
      ¬ Fatal midi tempo session input → input.isStop = false → turn.goesOn = .ok true →
      Course midi tempo turn.session inputs turns →
      Course midi tempo session (input :: inputs) (turn :: turns)

/-- **A whole run** takes the course of its inputs. -/
theorem always_course_runFrom {console : Console (StateT ρ (StateM σ))}
    (hreliable : Reliable console) {session : Session} (hsound : Sound session)
    (inputs : List Input) :
    Always (Course console.midi console.tempo session inputs) (runFrom console session inputs) := by
  -- on the inputs, for every sound session: a turn that goes on hands `Sound` to the next one
  induction inputs generalizing session with
  | nil =>
    refine (always_answers_turn hreliable hsound .ended).bind fun turn hturn => .pure ?_
    exact .ended (hturn.goes (not_fatal_of_line?_eq_none rfl)).1
  | cons input inputs ih =>
    refine (always_answers_turn hreliable hsound input).bind fun turn hturn => ?_
    by_cases hfatal : Fatal console.midi console.tempo session input
    · obtain ⟨fault, hgoes⟩ := hturn.breaks hfatal
      rw [hgoes]
      exact .pure (.broken hfatal hgoes)
    · obtain ⟨hgoes, hafter⟩ := hturn.goes hfatal
      cases hstop : input.isStop with
      | true =>
        rw [hstop] at hgoes
        rw [hgoes]
        exact .pure (.stopped hstop hgoes)
      | false =>
        rw [hstop] at hgoes
        rw [hgoes]
        exact (ih hafter).bind fun turns hturns => .pure (.taken hfatal hstop hgoes hturns)

/-- The inputs before the first that stops the console. -/
def handled (inputs : List Input) : List Input := inputs.takeWhile fun input => !input.isStop

/-- Without a perilous input the console goes on until it stops. -/
theorem Course.map_goesOn {midi : Midi} {tempo : Quantity} {session : Session} {inputs : List Input}
    {turns : List Turn} (h : Course midi tempo session inputs turns)
    (hsafe : ∀ input ∈ handled inputs, ¬ Perilous midi tempo input) :
    turns.map Turn.goesOn =
      List.replicate (handled inputs).length (.ok true) ++ [.ok false] := by
  induction h with
  | ended hgoes => simp [handled, hgoes]
  | stopped hstop hgoes => simp [handled, hstop, hgoes]
  | @broken session input inputs turn fault hfatal hgoes =>
    have hmem : input ∈ handled (input :: inputs) := by simp [handled, hfatal.isStop_eq]
    exact absurd hfatal.perilous (hsafe input hmem)
  | @taken session input inputs turn turns hfatal hstop hgoes _ ih =>
    have hhandled : handled (input :: inputs) = input :: handled inputs := by
      simp [handled, hstop]
    rw [hhandled] at hsafe ⊢
    rw [List.map_cons, hgoes, ih (List.forall_mem_cons.mp hsafe).2]
    rfl

end Console

/-! ## The program -/

open Console (IsPolite)

variable {σ : Type}

/-- A network that may refuse to transmit and does not fail otherwise. -/
def Network.IsPolite (network : Network (StateM σ)) : Prop :=
  ∀ destination bytes world, Console.IsPolite ((network.transmit destination bytes).run world).1

/-- A disk that may refuse to write and does not fail otherwise. -/
def Disk.IsPolite (disk : Disk (StateM σ)) : Prop :=
  ∀ name bytes world, Console.IsPolite ((disk.write name bytes).run world).1

/-- A disk answers in a larger monad as it does in its own. -/
theorem Disk.IsPolite.lift {disk : Disk (StateM σ)} (h : disk.IsPolite) (name : String)
    (bytes : List UInt8) :
    Console.Always Console.IsPolite ((disk.lift : Disk (StateT Wire (StateM σ))).write name bytes) := by
  intro wire world
  have hwrite : ((((disk.lift : Disk (StateT Wire (StateM σ))).write name bytes).run wire).run
      world).1.1 = ((disk.write name bytes).run world).1 := rfl
  rw [hwrite]
  exact h name bytes world

namespace Wire

/-- What comes of a message is what comes of its bytes, if it has bytes. -/
theorem outcome_transmit (network : Network (StateM σ)) (target tape : String) (wire : Wire)
    (world : σ) :
    ((transmit network target tape wire).run world).1.outcome =
      match wireBytes (wireMessage target tape) with
      | .error fault => .error fault
      | .ok bytes => ((network.transmit wire.destination bytes).run world).1 := by
  unfold transmit
  cases wireBytes (wireMessage target tape) with
  | error fault => rfl
  | ok bytes =>
    dsimp only
    rw [Console.run_bind]
    rcases ((network.transmit wire.destination bytes).run world).1 with fault | _
    · rfl
    · rfl

/-- Once the wire is open, what comes of a tape is what comes of its message. -/
theorem exists_outcome_send (network : Network (StateM σ)) (target tape : String) (wire : Wire)
    (world : σ) :
    ∃ opened world', ((send network target tape wire).run world).1.outcome =
      ((transmit network target tape opened).run world').1.outcome := by
  refine ⟨((connect network wire).run world).1.wire, ((connect network wire).run world).2, ?_⟩
  rw [send, Console.run_bind, Console.run_bind, Console.run_pure]

/-- A link over a wire answers with what comes of the message. -/
theorem outcome_link_send (network : Network (StateM σ)) (destination : Destination)
    (target tape : String) (wire : Wire) (world : σ) :
    ((((link network destination).send target tape).run wire).run world).1.1.1 =
      ((send network target tape wire).run world).1.outcome := rfl

end Wire

namespace Program

/-- **The console of the settings over the plain wire is reliable.** -/
theorem reliable_consoleOf {libraries : Libraries} (hmakes : libraries.midi.MakesMessages)
    (hinside : libraries.midi.FailsInside) {settings : Settings}
    (hprotocol : settings.protocol = .fudi) {network : Network (StateM σ)}
    (hnetwork : network.IsPolite) {disk : Disk (StateM σ)} (hdisk : disk.IsPolite) :
    (consoleOf libraries settings network disk).Reliable := by
  have hlink : (consoleOf libraries settings network disk).link =
      Wire.link network settings.destination := by
    simp only [consoleOf, Settings.link, hprotocol]
  refine ⟨hmakes, hinside, fun {target tape} htape htarget => ?_,
    fun {target tape} htape htarget => ?_, hdisk.lift⟩
  · rw [hlink]
    intro wire world
    obtain ⟨opened, world', houtcome⟩ := Wire.exists_outcome_send network target tape wire world
    obtain ⟨bytes, hbytes⟩ := exists_wireBytes_eq_ok htape.isAscii htarget
    rw [Wire.outcome_link_send, houtcome, Wire.outcome_transmit, hbytes]
    exact hnetwork opened.destination bytes world'
  · rw [hlink]
    intro wire world
    obtain ⟨opened, world', houtcome⟩ := Wire.exists_outcome_send network target tape wire world
    obtain ⟨run, hrun⟩ := exists_wireBytes_eq_error htarget tape
    rw [Wire.outcome_link_send, houtcome, Wire.outcome_transmit, hrun]
    exact (by decide : FaultKind.encoding ≠ .system)

/-- **What the console survives**, once it is open.  Over a network and a disk that only refuse, and
with a library of files that makes messages and fails inside, it takes one turn for each line up to
the first that stops it, unless one of them is fatal: a kick past the reals, a tape for a target
outside ASCII, or a tape that cannot be saved.  A run without a line of these sorts goes on to its
end. -/
theorem turnsOf_course {libraries : Libraries} (hmakes : libraries.midi.MakesMessages)
    (hinside : libraries.midi.FailsInside) {settings : Settings}
    (hprotocol : settings.protocol = .fudi) {network : Network (StateM σ)}
    (hnetwork : network.IsPolite) {disk : Disk (StateM σ)} (hdisk : disk.IsPolite) {desk : Desk}
    (hfair : desk.source.Fair) (lines : List String) (world : σ) :
    let inputs := lines.map Input.line
    let turns := ((turnsOf libraries settings network disk desk lines).run world).1
    let tempo : Quantity := .real settings.tempo
    Console.Course libraries.midi tempo (Console.start desk none) inputs turns ∧
      ((∀ input ∈ Console.handled inputs, ¬ Console.Perilous libraries.midi tempo input) →
        turns.map Turn.goesOn =
          List.replicate (Console.handled inputs).length (.ok true) ++ [.ok false]) := by
  have hsound : Console.Sound (Console.start desk none) := ⟨hfair, fun _ h => nomatch h⟩
  have hreliable := reliable_consoleOf hmakes hinside hprotocol hnetwork hdisk
  have hcourse := Console.always_course_runFrom hreliable hsound (lines.map Input.line)
    (Wire.closed settings.destination) world
  exact ⟨hcourse, hcourse.map_goesOn⟩

/-- A kick, a tape that is refused, a file and an unknown line are taken until the console quits. -/
theorem turnsOf_course_quit :
    let settings : Settings := ⟨.fudi, .text "127.0.0.1", 7000, .text "/", .nothing,
      Settings.standardTempo, .standard⟩
    let network : Network (StateM Nat) := ⟨pure (), pure (), fun _ _ sent =>
      (if sent = 1 then .error (.refused "down") else .ok (), sent + 1)⟩
    let disk : Disk (StateM Nat) := ⟨fun _ _ => pure (.ok ())⟩
    let desk : Desk := ⟨.script ⟨#[.zero], 0⟩, #[]⟩
    let lines := ["kick complex(7)", "lead = 60 -", "save a.mid", "wat", "quit", "kick complex(1)"]
    ((turnsOf .standard settings network disk desk lines).run 0).1.map Turn.goesOn =
      [.ok true, .ok true, .ok true, .ok true, .ok false] := by
  intro settings network disk desk lines
  have hnetwork : network.IsPolite := by
    intro destination bytes sent
    change IsPolite (if sent = 1 then .error (.refused "down") else .ok ())
    split
    · exact (rfl : (Fault.refused "down").kind = .system)
    · trivial
  have hdisk : disk.IsPolite := fun _ _ _ => trivial
  have hfair : desk.source.Fair := by
    intro u hu
    obtain rfl := Array.mem_singleton.mp hu
    exact Binary64.isFraction_zero
  have hlength : (Console.handled (lines.map Input.line)).length = 4 := by decide +kernel
  have hmakes : Libraries.standard.midi.MakesMessages := Midi.makesMessages_standard
  have hinside : Libraries.standard.midi.FailsInside := Midi.failsInside_standard
  have hprotocol : settings.protocol = .fudi := rfl
  have hcourse := turnsOf_course hmakes hinside hprotocol hnetwork hdisk hfair lines 0
  refine (hcourse.2 (by decide +kernel)).trans ?_
  rw [hlength]
  rfl

end Program
end NoteTape
