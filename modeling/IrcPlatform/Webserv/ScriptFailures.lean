import IrcPlatform.Webserv.Guarantees

/-!
# Script failures

Runs in which scripts start, and in which no event of a pipe closes its connection. There the
phase of a client says what its other fields say, and every script that succeeds is answered.
-/

namespace IrcPlatform.Webserv

open Std

variable {loop : EventLoop}

/-! ## Phases -/

/-- What a client is doing, by its phase, its response and script, and the events that its
socket is polled for. -/
structure Client.Agrees (client : Client) (events : PollFlags) (responses : List Bytes) :
    Prop where
  writing : client.phase = .writing ↔ client.output ≠ []
  polledOut : client.output ≠ [] ↔ events = Server.pollOut
  serving : client.phase = .cgiWriting ∨ client.phase = .cgiReading ↔ 0 < client.cgiPid
  unpolled : 0 < client.cgiPid ↔ events = {}
  input : client.phase = .cgiWriting ↔ 0 ≤ client.cgiInputFd
  reading : client.phase = .reading ↔ client.output = [] ∧ client.cgiPid ≤ 0
  polledIn : client.phase = .reading → events = Server.pollIn ∧ responses = []

/-- `CgiHandler::start` fails: the script is not a regular file, there is no interpreter, or a
call to the operating system fails. -/
def CgiHandler.failsToStart (route : RouteResult) (started : Started) : Bool :=
  !started.regular || started.inputPipe.isNone || started.outputPipe.isNone ||
    (CgiHandler.selectInterpreter route).isEmpty || started.child.isNone || !started.nonBlocking

theorem startProcess_eq_none {server : Server} {route : RouteResult} {started : Started} :
    (server.startProcess route started).2 = none ↔
      CgiHandler.failsToStart route started = true := by
  rcases started with ⟨regular, inputPipe, outputPipe, child, nonBlocking⟩
  cases regular <;> cases inputPipe <;> cases outputPipe <;> cases child <;> cases nonBlocking <;>
    by_cases interpreter : (CgiHandler.selectInterpreter route).isEmpty = true <;>
      simp [Server.startProcess, CgiHandler.failsToStart, interpreter]

namespace EventLoop

/-- The step reads a request whose script fails to start. -/
def scriptFails (loop : EventLoop) : LoopAction → Bool
  | .visit answers =>
      loop.current.any fun entry =>
        loop.server.handlerFor entry == .readClient &&
          (loop.server.scriptStart entry.fd answers).any fun (_, route) =>
            CgiHandler.failsToStart route answers.started
  | _ => false

theorem scriptFails_of_failing {action : LoopAction}
    (failing : (loop.circumstances action).failing) : loop.scriptFails action = true := by
  cases action with
  | visit answers =>
      rw [circumstances] at failing
      split at failing
      · exact failing.elim
      next entry there =>
        rcases failing with ⟨handler, parsed, route, started, failed⟩
        simp [scriptFails, there, handler, started, startProcess_eq_none.mp failed]
  | _ => exact failing.elim

end EventLoop

/-- A connection that sits where it should agrees with itself. -/
theorem Seat.agrees {client : Client} {events : PollFlags} {story : Story}
    (seat : Seat False True (some (client, events), .no) story)
    (idle : client.cgiPid ≤ 0 → client.cgiInputFd < 0) :
    client.Agrees events story.responses := by
  cases seat with
  | reading silent unsent unforked phase =>
      have closed := idle unforked
      constructor
      · simp [phase, silent]
      · simp [silent, Server.pollIn, Server.pollOut]
      · simp [phase, unforked]
      · simp [unforked, Server.pollIn]
      · simp [phase, closed]
      · simp [phase, silent, unforked]
      · exact fun _ => ⟨rfl, rfl⟩
  | serving silent unsent running phase =>
      have phased := phase rfl
      by_cases open_ : 0 ≤ client.cgiInputFd
      · rw [if_pos open_] at phased
        constructor <;> simp [phased, silent, running, open_, Server.pollOut]
      · rw [if_neg open_] at phased
        constructor <;> simp [phased, silent, running, open_, Server.pollOut]
  | writing heard unforked phase =>
      have closed := idle unforked
      rcases phase with phase | ⟨lax, _⟩
      · constructor
        · simp [phase, heard]
        · simp [heard]
        · simp [phase, unforked]
        · simp [unforked, Server.pollOut]
        · simp [phase, closed]
        · simp [phase, heard]
        · simp [phase]
      · exact lax.elim

/-- In a run in which every script starts, the poll table has an entry for each client whose
events, with the response, agree with its phase. -/
theorem phases_of_reaches
    (reached : loopMachine.system.Reaches (fun loop action => loop.scriptFails action = false)
      loop) (fd : Int) (client : Client) (found : loop.server.clients[fd]? = some client) :
    ∃ entry ∈ loop.server.pollfds, entry.fd = fd ∧
      client.Agrees entry.events (Story.of fd loop.server.calls).responses := by
  have seated : Seated False True loop.server.settled := by
    apply EventLoop.seated_of_reaches _ _ reached
    · intro loop action started failing
      rw [EventLoop.scriptFails_of_failing failing] at started
      cases started
    · intro loop action started cut
      trivial
  rcases (EventLoop.serving_of_reachable reached.reachable).sound with ⟨uses, tabled⟩
  have listed := (tabled.polled fd).mpr (by
    rw [(tabled.client fd).mpr (Server.mem_of_view (Server.exists_view found))]
    simp)
  rcases List.mem_map.mp listed with ⟨entry, inside, rfl⟩
  refine ⟨entry, inside, rfl, ?_⟩
  rw [← EventLoop.eventsOf_of_listed tabled.nodup inside]
  have seat := seated entry.fd
  simp only [Server.settled, Server.exists_view found] at seat
  exact seat.agrees fun unforked => (tabled.idle _ _ found unforked).1

/-- A script has started. -/
def startedLoop : EventLoop :=
  loopMachine.performOr listeningLoop (connectRound ++ requestRound (some 100))

theorem startedLoop_facts :
    (loopMachine.performAll (connectRound ++ requestRound (some 100)) listeningLoop).isSome ∧
      loopMachine.EveryStep (fun loop action => loop.scriptFails action = false)
        (connectRound ++ requestRound (some 100)) listeningLoop ∧
      startedLoop.server.clients[(4 : Int)]?.any (0 < ·.cgiPid) = true := by
  decide +kernel

theorem reaches_startedLoop :
    loopMachine.system.Reaches (fun loop action => loop.scriptFails action = false) startedLoop :=
  Machine.reaches_performAll (.start initial_listeningLoop)
    (Machine.performAll_eq_performOr startedLoop_facts.1) startedLoop_facts.2.1

theorem startedLoop_phases : ∃ client, startedLoop.server.clients[(4 : Int)]? = some client ∧
    0 < client.cgiPid ∧ ∃ entry ∈ startedLoop.server.pollfds, entry.fd = 4 ∧
      client.Agrees entry.events (Story.of 4 startedLoop.server.calls).responses := by
  rcases (Option.any_eq_true _ _).mp startedLoop_facts.2.2 with ⟨client, found, positive⟩
  exact ⟨client, found, of_decide_eq_true positive,
    phases_of_reaches reaches_startedLoop 4 client found⟩

/-- The process of a script could not be forked. -/
def unstartedLoop : EventLoop :=
  loopMachine.performOr listeningLoop (connectRound ++ requestRound none)

theorem unstartedLoop_phase : loopMachine.system.Reachable unstartedLoop ∧
    ∃ client, unstartedLoop.server.clients[(4 : Int)]? = some client ∧
      ¬ ∃ entry ∈ unstartedLoop.server.pollfds, entry.fd = 4 ∧
        client.Agrees entry.events (Story.of 4 unstartedLoop.server.calls).responses := by
  refine ⟨Machine.reachable_performOr reachable_listeningLoop _, ?_⟩
  have answered : unstartedLoop.server.clients[(4 : Int)]?.any
      (fun client => client.phase == .reading && client.output != []) = true := by
    decide +kernel
  rcases (Option.any_eq_true _ _).mp answered with ⟨client, found, both⟩
  simp only [Bool.and_eq_true, beq_iff_eq, bne_iff_ne] at both
  refine ⟨client, found, ?_⟩
  rintro ⟨entry, _, _, agrees⟩
  have writing := agrees.writing.mpr both.2
  rw [both.1] at writing
  cases writing

/-! ## Answers of scripts -/

namespace EventLoop

/-- The step closes a connection for the events of a pipe. -/
def severs (loop : EventLoop) : LoopAction → Bool
  | .visit _ =>
      loop.current.any fun entry =>
        match loop.server.handlerFor entry with
        | .closeOwner _ => true
        | _ => false
  | _ => false

/-- The step ends a script for the length of its output that has succeeded before. -/
def cutsShort (loop : EventLoop) : LoopAction → Bool
  | .visit answers =>
      loop.current.any fun entry =>
        loop.server.handlerFor entry == .readCgi && Server.succeeded answers.killed &&
          match answers.received with
          | .data bytes =>
              let client := loop.server.clientAt (loop.server.outputOwner entry.fd)
              Server.maxCgiOutput < (client.cgiOutput ++ bytes).length
          | _ => false
  | _ => false

theorem cutsShort_of_cut {action : LoopAction} (cut : (loop.circumstances action).cut) :
    loop.cutsShort action = true := by
  cases action with
  | visit answers =>
      rw [circumstances] at cut
      split at cut
      · exact cut.elim
      next entry there =>
        rcases cut with ⟨handler, bytes, received, beyond, success⟩
        rw [List.length_append] at beyond
        simp [cutsShort, there, handler, received, success, beyond]
  | _ => exact cut.elim

end EventLoop

/-- A connection is still there, or has been answered. -/
def Heard (moment : Moment) (fd : Int) : Prop :=
  (moment.server.view fd).isSome = true ∨ (Story.of fd moment.server.calls).responses ≠ []

variable {given : Circumstances} {before after : Moment} {fd : Int}

theorem Step.heard (step : Step given before after) (seated : Seated True True before)
    (loud : ¬given.quiet fd) (heard : Heard before fd) : Heard after fd := by
  rcases step with ⟨other, moves, shift, allowed, flags⟩
  rw [Heard, moves.calls, Story.of_append]
  by_cases same : fd = other
  · subst same
    have seat := seated fd
    rw [Heard] at heard
    rw [moves.self]
    generalize before.server.view fd = view, before.waited fd = waited at shift seat heard
    generalize Story.of fd before.server.calls = story at seat heard ⊢
    cases shift with
    | refused =>
        right
        simpa [Story.addAll, Story.add] using heard
    | removed spent reason =>
        right
        rcases reason with answered | quiet
        · cases seat with
          | reading silent => exact absurd silent answered
          | serving silent => exact absurd silent answered
          | writing _ _ _ responses => simp [Story.addAll, Story.add, responses]
        · exact absurd quiet loud
    | _ => exact .inl rfl
  · rw [moves.others fd same, Story.addAll_of_same (shift.foreign same _)]
    exact heard

theorem Steps.heard (steps : Steps given before after) (seated : Seated True True before)
    (loud : ¬given.quiet fd) (heard : Heard before fd) : Heard after fd := by
  induction steps with
  | refl => exact heard
  | tail earlier step ih =>
      exact step.heard (Steps.seated earlier (fun _ => trivial) (fun _ => trivial) seated) loud ih

namespace EventLoop

/-- A connection that is closed without an answer had a reason of its own. -/
theorem quiet_of_gone {action : LoopAction} (serving : Serving loop)
    (possible : loop.enabled action = true) (present : fd ∈ loop.server.clients)
    (gone : fd ∉ (loop.perform action).server.clients)
    (unanswered : (Story.of fd (loop.perform action).server.calls).responses = []) :
    (loop.circumstances action).quiet fd := by
  have some_ : (loop.server.view fd).isSome = true := by
    rwa [← contains_clients, ExtTreeMap.contains_iff_mem]
  have none_ : ¬((loop.perform action).server.view fd).isSome = true := by
    rwa [← contains_clients, ExtTreeMap.contains_iff_mem]
  rcases performed serving.sound serving.seated serving.attended possible with
    ⟨revents, rfl, enough, server⟩ | ⟨_, steps⟩
  · rw [server, view_polled enough] at none_
    exact absurd some_ none_
  · by_contra loud
    rcases Steps.heard steps serving.seated loud (.inl some_) with still | answered
    · exact none_ still
    · exact answered unanswered

theorem server_of_nothing {entry : PollFd} (there : loop.current = some entry)
    (handler : loop.server.handlerFor entry = .nothing) (answers : Answers) :
    (loop.perform (.visit answers)).server = loop.server := by
  rcases exists_of_current there with ⟨index, ready, control, _⟩
  simp only [perform, control, there, visit, Server.handle, handler]
  split <;> rfl

/-- A client with a script is polled for nothing, so only a failure of its socket is seen. -/
theorem handler_of_running {entry : PollFd} {client : Client} (serving : Serving loop)
    (there : loop.current = some entry)
    (found : loop.server.clients[entry.fd]? = some client) (running : 0 < client.cgiPid)
    (severed : ∀ fd, loop.server.handlerFor entry ≠ .closeOwner fd) :
    loop.server.handlerFor entry = .nothing ∨
      (entry.revents.pollerr || entry.revents.pollhup || entry.revents.pollnval) = true := by
  rcases exists_of_current there with ⟨index, ready, control, at_⟩
  have listed : entry ∈ loop.server.pollfds := List.mem_of_getElem? at_
  have seen := Server.exists_view found
  have known := Server.handlerCase serving.sound listed
  rcases serving.sound with ⟨uses, tabled⟩
  have used : uses entry.fd = some .client :=
    (tabled.client entry.fd).mpr (Server.mem_of_view seen)
  have unpolled : loop.server.eventsOf entry.fd = {} := by
    have seat := serving.seated entry.fd
    simp only [Server.settled, seen] at seat
    generalize loop.server.eventsOf entry.fd = events at seat
    generalize Story.of entry.fd loop.server.calls = story at seat
    cases seat with
    | reading _ _ idle => omega
    | serving => rfl
    | writing _ idle => omega
  have fits : Fits entry.revents {} := by
    have behind : (entry.fd, entry.revents) ∈ Server.keys (loop.server.pollfds.drop index) := by
      apply List.mem_map_of_mem
      rw [List.mem_iff_getElem?]
      exact ⟨0, by rw [List.getElem?_drop, Nat.add_zero, at_]⟩
    have attended := serving.attended index ready control (entry.fd, entry.revents)
      (List.mem_map_of_mem listed) behind client _ seen
    rwa [unpolled] at attended
  cases handler : loop.server.handlerFor entry with
  | nothing => exact .inl rfl
  | closeOwner fd => exact absurd handler (severed fd)
  | closeClient =>
      rw [handler] at known
      cases known with
      | closeClient _ failed => exact .inr failed
  | acceptClient =>
      rw [handler] at known
      cases known with
      | acceptClient listener =>
          rw [Server.isListener_iff, ← tabled.listener, used] at listener
          cases listener
  | readCgi =>
      rw [handler] at known
      cases known with
      | readCgi there piped nonneg =>
          have output := (tabled.output entry.fd _).mpr
            ⟨nonneg, _, Server.found_of_view there, piped⟩
          rw [used] at output
          cases output
  | writeCgi =>
      rw [handler] at known
      cases known with
      | writeCgi there piped nonneg =>
          have input := (tabled.input entry.fd _).mpr
            ⟨nonneg, _, Server.found_of_view there, piped⟩
          rw [used] at input
          cases input
  | readClient =>
      rw [handler] at known
      cases known with
      | readClient _ reported => cases fits.1 reported
  | writeClient =>
      rw [handler] at known
      cases known with
      | writeClient _ reported => cases fits.2 reported

end EventLoop

/-- A script has been answered, and the client has left. -/
def answeredLoop : EventLoop :=
  loopMachine.performOr listeningLoop
    (connectRound ++ requestRound (some 100) ++ bodyRound ++ outputRound)

theorem answeredLoop_facts :
    (loopMachine.performAll
      (connectRound ++ requestRound (some 100) ++ bodyRound ++ outputRound) listeningLoop).isSome ∧
      loopMachine.EveryStep
        (fun loop action => loop.severs action = false ∧ loop.cutsShort action = false)
        (connectRound ++ requestRound (some 100) ++ bodyRound ++ outputRound) listeningLoop ∧
      (Story.of 4 answeredLoop.server.calls).status = some (.exited 0) := by
  decide +kernel

theorem reaches_answeredLoop :
    loopMachine.system.Reaches
      (fun loop action => loop.severs action = false ∧ loop.cutsShort action = false)
      answeredLoop :=
  Machine.reaches_performAll (.start initial_listeningLoop)
    (Machine.performAll_eq_performOr answeredLoop_facts.1) answeredLoop_facts.2.1

/-- The client of a script has hung up, and its entry comes next. -/
def hungLoop : EventLoop :=
  loopMachine.performOr listeningLoop
    (connectRound ++ requestRound (some 100) ++
      [.poll [{}, { pollhup := true }, {}, {}], passEntry])

theorem hungLoop_facts :
    (loopMachine.performAll
      (connectRound ++ requestRound (some 100) ++
        [.poll [{}, { pollhup := true }, {}, {}], passEntry]) listeningLoop).isSome ∧
      loopMachine.EveryStep
        (fun loop action => loop.severs action = false ∧ loop.cutsShort action = false)
        (connectRound ++ requestRound (some 100) ++
          [.poll [{}, { pollhup := true }, {}, {}], passEntry]) listeningLoop ∧
      hungLoop.server.clients[(4 : Int)]?.any (0 < ·.cgiPid) = true ∧
      hungLoop.enabled passEntry = true ∧ hungLoop.severs passEntry = false ∧
      4 ∉ (hungLoop.perform passEntry).server.clients ∧
      (Story.of 4 (hungLoop.perform passEntry).server.calls).responses = [] := by
  decide +kernel

theorem reaches_hungLoop :
    loopMachine.system.Reaches
      (fun loop action => loop.severs action = false ∧ loop.cutsShort action = false) hungLoop :=
  Machine.reaches_performAll (.start initial_listeningLoop)
    (Machine.performAll_eq_performOr hungLoop_facts.1) hungLoop_facts.2.1

/-- The script has gone away behind a full pipe, whose entry comes next. -/
def brokenLoop : EventLoop :=
  loopMachine.performOr listeningLoop
    (connectRound ++ requestRound (some 100) ++
      [.poll [{}, {}, {}, { pollerr := true }], passEntry, passEntry, passEntry])

end IrcPlatform.Webserv
