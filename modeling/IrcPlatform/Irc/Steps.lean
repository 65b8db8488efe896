import IrcPlatform.Irc.Reachable

/-!
# Single steps of the IRC server

One poll entry can carry many lines. This machine takes the actions of the
server apart into steps each of which runs at most one command, so that laws
about a command hold for every line of an entry. Every action of the server is
a list of such steps (`perform_leads`), and the steps may also be taken in any
other order.

`accept` returns a descriptor that the process has not open.
-/

namespace IrcPlatform.Irc

open Std

/-- The two input errors that end a connection. -/
inductive InputError where
  | lineTooLong
  | bufferLimit

def InputError.text : InputError → Bytes
  | lineTooLong => ascii "ERROR :Input line too long"
  | bufferLimit => ascii "ERROR :Receive buffer limit exceeded"

inductive ServerStep where
  | accept (fd : Int) (peerAddress : Bytes)
  | receive (fd : Int) (data : Bytes)
  | consume (fd : Int) (length : Nat)
  | command (fd : Int) (message : Message)
  | refuse (fd : Int) (error : InputError)
  | reserve (fd : Int)
  | flush (fd : Int) (sent : Option Nat)
  | takeReservations
  | disconnect (fd : Int) (reason : Bytes)

namespace Server

def ready (server : Server) : ServerStep → Bool
  | .accept fd _ => !server.clients.contains fd && decide (0 ≤ fd) && fd != server.listenFd
  | _ => true

def advance (server : Server) : ServerStep → Server
  | .accept fd peerAddress => server.acceptClient (some (fd, peerAddress))
  | .receive fd data => server.updateClient fd (·.appendReceiveBuffer data)
  | .consume fd length => server.updateClient fd (·.eraseReceivePrefix length)
  | .command fd message => server.invokeDispatch fd message
  | .refuse fd error => server.queueToClient fd error.text
  | .reserve fd => server.scheduleDisconnect fd
  | .flush fd sent => server.flushSendBuffer fd sent
  | .takeReservations => { server with pendingDisconnects := ∅ }
  | .disconnect fd reason => server.disconnectClient fd reason

end Server

/-- What one step can do to the core. -/
inductive CoreStep (core : Core) : Core → Prop where
  | quiet : CoreStep core core
  | enter {fd : Int} {hostname : Bytes} (missing : core.clients fd = none) :
      CoreStep core (core.setClient fd { fd := fd, hostname := hostname })
  | command {fd : Int} {after : Core} (effect : CommandEffect fd core after) : CoreStep core after
  | close {fd : Int} {after : Core} (effect : DisconnectEffect fd core after) :
      CoreStep core after

theorem CoreStep.consistent {before after : Core} (step : CoreStep before after)
    (consistent : before.Consistent) : after.Consistent := by
  cases step with
  | quiet => exact consistent
  | enter missing => exact consistent.enter missing rfl rfl
  | command effect => exact effect.consistent consistent
  | close effect => exact effect.consistent consistent

def stepMachine : Machine Server ServerStep where
  initial := serverMachine.initial
  enabled := Server.ready
  perform := Server.advance

def stepSystem : TransitionSystem Server ServerStep := stepMachine.system


/-- What an action takes from the operating system: a new connection has a descriptor
that is not the one of the listening socket, and not negative. -/
def ServerAction.Honest (server : Server) : ServerAction → Prop
  | .accept fd _ => 0 ≤ fd ∧ fd ≠ server.listenFd
  | .poll event => ∀ fd peerAddress, event.accepted = some (fd, peerAddress) →
      0 ≤ fd ∧ fd ≠ server.listenFd
  | .dispatch _ _ | .processPending _ | .disconnect _ _ => True

/-- A step that takes nothing from the operating system and sends nothing. -/
def ServerStep.isInner : ServerStep → Bool
  | accept _ _ | flush _ _ => false
  | receive _ _ | consume _ _ | command _ _ | refuse _ _ | reserve _ | takeReservations
  | disconnect _ _ => true

/-- The connection that an action may accept. -/
def ServerAction.accepts (server : Server) : ServerAction → Option (Int × Bytes)
  | .accept fd peerAddress => some (fd, peerAddress)
  | .poll event => if event.fd = server.listenFd then event.accepted else none
  | .dispatch _ _ | .processPending _ | .disconnect _ _ => none

/-- The descriptor that an action may send to, with the result of `send`. -/
def ServerAction.flushes : ServerAction → Option (Int × Option Nat)
  | .poll event => if event.revents.pollOut then some (event.fd, event.sent) else none
  | .accept _ _ | .dispatch _ _ | .processPending _ | .disconnect _ _ => none

namespace Server

variable {server : Server} {fd : Int}

/-! ## Every action is a list of steps -/

theorem leads_advance {before : Server} (leads : stepMachine.Leads before server)
    (step : ServerStep) (ready : server.ready step = true) :
    stepMachine.Leads before (server.advance step) :=
  @Machine.Leads.next _ _ stepMachine before server step leads ready

section Kinds

/-! The steps are of any kind that the steps inside the server are of; the two that take
something from the operating system are asked for where they occur. -/

variable {kind : ServerStep → Prop} (inner : ∀ step : ServerStep, step.isInner = true → kind step)
include inner

theorem leadsBy_inner {before : Server} (leads : stepMachine.LeadsBy kind before server)
    (step : ServerStep) (isInner : step.isInner = true) :
    stepMachine.LeadsBy kind before (server.advance step) := by
  have ready : server.ready step = true := by
    cases step with
    | accept fd peerAddress => simp [ServerStep.isInner] at isInner
    | _ => rfl
  exact @Machine.LeadsBy.next _ _ stepMachine kind before server step leads ready
    (inner step isInner)

theorem processLine_leads (fd : Int) (line : Bytes) :
    stepMachine.LeadsBy kind server (server.processLine fd line) := by
  simp only [processLine]
  split
  · exact Machine.LeadsBy.refl kind server
  next message _ =>
    exact leadsBy_inner inner (Machine.LeadsBy.refl kind server) (.command fd message) rfl

theorem receiveLoop_leads (fd : Int) (fuel : Nat) (server : Server) :
    stepMachine.LeadsBy kind server (receiveLoop fd fuel server) := by
  have idle : stepMachine.LeadsBy kind server server := Machine.LeadsBy.refl kind server
  induction fuel generalizing server with
  | zero => exact idle
  | succ fuel ih =>
      simp only [receiveLoop]
      split
      · exact idle
      · split
        · exact idle
        next line consumed _ =>
          have consuming := leadsBy_inner inner idle (.consume fd consumed) rfl
          have processed := consuming.trans (processLine_leads inner fd line)
          split
          · exact processed
          · exact processed.trans (ih _ (Machine.LeadsBy.refl kind _))
        next consumed _ =>
          have consuming := leadsBy_inner inner idle (.consume fd consumed) rfl
          have refusing := leadsBy_inner inner consuming (.refuse fd .lineTooLong) rfl
          exact leadsBy_inner inner refusing (.reserve fd) rfl

theorem receiveFromClient_leads (fd : Int) (received : Option Bytes) :
    stepMachine.LeadsBy kind server (server.receiveFromClient fd received) := by
  have idle : stepMachine.LeadsBy kind server server := Machine.LeadsBy.refl kind server
  simp only [receiveFromClient]
  split
  · exact idle
  · split
    · exact leadsBy_inner inner idle (.reserve fd) rfl
    next data =>
      have appended := leadsBy_inner inner idle (.receive fd data) rfl
      split
      · have refusing := leadsBy_inner inner appended (.refuse fd .bufferLimit) rfl
        exact leadsBy_inner inner refusing (.reserve fd) rfl
      · exact appended.trans (receiveLoop_leads inner fd _ _)

theorem handleClientEvent_leads (event : PollResult)
    (flush : event.revents.pollOut = true → kind (.flush event.fd event.sent)) :
    stepMachine.LeadsBy kind server (server.handleClientEvent event) := by
  have idle : stepMachine.LeadsBy kind server server := Machine.LeadsBy.refl kind server
  simp only [handleClientEvent]
  split
  · exact idle
  · split
    · exact leadsBy_inner inner idle (.reserve event.fd) rfl
    · generalize reading : (if event.revents.pollIn then
        server.receiveFromClient event.fd event.received else server) = received
      have afterReading : stepMachine.LeadsBy kind server received := by
        rw [← reading]
        split
        · exact receiveFromClient_leads inner _ _
        · exact idle
      split
      · exact afterReading
      · generalize writing : (if event.revents.pollOut then
          received.flushSendBuffer event.fd event.sent else received) = flushed
        have afterWriting : stepMachine.LeadsBy kind server flushed := by
          rw [← writing]
          split
          next output =>
            exact @Machine.LeadsBy.next _ _ stepMachine kind server received
              (.flush event.fd event.sent) afterReading rfl (flush output)
          · exact afterReading
        split
        · exact afterWriting
        · split
          · exact leadsBy_inner inner afterWriting (.reserve event.fd) rfl
          · exact afterWriting

theorem disconnectAll_leads (order : List Int) (server : Server) :
    stepMachine.LeadsBy kind server (disconnectAll order server) := by
  induction order generalizing server with
  | nil => exact Machine.LeadsBy.refl kind server
  | cons fd rest ih =>
      have closed := leadsBy_inner inner (Machine.LeadsBy.refl kind server)
        (.disconnect fd (server.disconnectReason fd)) rfl
      exact closed.trans (ih _)

omit inner in
theorem acceptClient_leads {accepted : Option (Int × Bytes)}
    (accept : ∀ fd peerAddress, accepted = some (fd, peerAddress) →
      0 ≤ fd ∧ fd ≠ server.listenFd ∧ kind (.accept fd peerAddress)) :
    stepMachine.LeadsBy kind server (server.acceptClient accepted) := by
  cases accepted with
  | none => exact Machine.LeadsBy.refl kind server
  | some connection =>
      rcases connection with ⟨fd, peerAddress⟩
      rcases accept fd peerAddress rfl with ⟨nonnegative, notListening, ofKind⟩
      cases present : server.clients.contains fd with
      | true =>
          have same : server.acceptClient (some (fd, peerAddress)) = server := by
            simp [acceptClient, addClient, present]
          rw [same]
          exact Machine.LeadsBy.refl kind server
      | false =>
          have ready : server.ready (.accept fd peerAddress) = true := by
            simp [Server.ready, present, nonnegative, notListening]
          exact @Machine.LeadsBy.next _ _ stepMachine kind server server
            (.accept fd peerAddress) (Machine.LeadsBy.refl kind server) ready ofKind

/-- The refinement: what one action does, a list of steps does. -/
theorem perform_leadsBy {action : ServerAction} (honest : action.Honest server)
    (accept : ∀ fd peerAddress, action.accepts server = some (fd, peerAddress) →
      kind (.accept fd peerAddress))
    (flush : ∀ fd sent, action.flushes = some (fd, sent) → kind (.flush fd sent)) :
    stepMachine.LeadsBy kind server (server.perform action) := by
  have idle : stepMachine.LeadsBy kind server server := Machine.LeadsBy.refl kind server
  cases action with
  | accept fd peerAddress =>
      change stepMachine.LeadsBy kind server (server.acceptClient (some (fd, peerAddress)))
      apply acceptClient_leads
      intro other otherAddress same
      simp only [Option.some.injEq, Prod.mk.injEq] at same
      rcases same with ⟨rfl, rfl⟩
      exact ⟨honest.1, honest.2, accept fd peerAddress rfl⟩
  | dispatch fd message => exact leadsBy_inner inner idle (.command fd message) rfl
  | poll event =>
      simp only [perform, handleEvent]
      split
      · exact idle
      · split
        next listening =>
          simp only [handleListenEvent]
          split
          · apply acceptClient_leads
            intro other otherAddress same
            rcases honest other otherAddress same with ⟨nonnegative, notListening⟩
            refine ⟨nonnegative, notListening, accept other otherAddress ?_⟩
            rw [ServerAction.accepts, if_pos listening, same]
          · exact idle
        · apply handleClientEvent_leads inner
          intro output
          exact flush event.fd event.sent (by rw [ServerAction.flushes, if_pos output])
  | processPending order =>
      have taken := leadsBy_inner inner idle .takeReservations rfl
      exact taken.trans (disconnectAll_leads inner order _)
  | disconnect fd reason => exact leadsBy_inner inner idle (.disconnect fd reason) rfl

end Kinds

theorem perform_leads {action : ServerAction} (honest : action.Honest server) :
    stepMachine.Leads server (server.perform action) :=
  (@perform_leadsBy server (fun _ => True) (fun _ _ => trivial) action honest
    (fun _ _ _ => trivial) (fun _ _ _ => trivial)).leads

/-- The runs of the event loop stay inside the runs of single steps. -/
theorem reachable_of_honest (reached : serverSystem.Reaches (fun server action =>
    action.Honest server) server) : stepSystem.Reachable server := by
  refine Machine.reachable_of_leads (fun _ initial => initial) ?_ reached
  rintro before action _ honest ⟨_, rfl⟩
  exact perform_leads honest

/-! ## The core along the steps -/

theorem core_acceptClient {peerAddress : Bytes} (missing : server.core.clients fd = none) :
    (server.acceptClient (some (fd, peerAddress))).core =
      server.core.setClient fd { fd := fd, hostname := peerAddress } := by
  rw [← core_addClient missing]
  simp only [acceptClient]
  split
  · rfl
  · rfl

theorem core_clients_of_ready {peerAddress : Bytes}
    (ready : server.ready (.accept fd peerAddress) = true) : server.core.clients fd = none := by
  simp only [Server.ready, Bool.and_eq_true, Bool.not_eq_true',
    ExtTreeMap.contains_eq_isSome_getElem?, Option.isSome_eq_false_iff,
    Option.isNone_iff_eq_none] at ready
  exact Option.map_eq_none_iff.mpr ready.1.1

theorem advance_coreStep (consistent : server.core.Consistent) {step : ServerStep}
    (ready : server.ready step = true) : CoreStep server.core (server.advance step).core := by
  cases step with
  | accept fd peerAddress =>
      have missing := core_clients_of_ready ready
      change CoreStep _ (server.acceptClient _).core
      rw [core_acceptClient missing]
      exact CoreStep.enter missing
  | receive fd data =>
      change CoreStep _ (server.updateClient fd _).core
      rw [core_appendReceiveBuffer]
      exact CoreStep.quiet
  | consume fd length =>
      change CoreStep _ (server.updateClient fd _).core
      rw [core_eraseReceivePrefix]
      exact CoreStep.quiet
  | command fd message => exact CoreStep.command (invokeDispatch_effect consistent fd message)
  | refuse fd error =>
      change CoreStep _ (server.queueToClient fd _).core
      rw [core_queueToClient]
      exact CoreStep.quiet
  | reserve fd => exact CoreStep.quiet
  | flush fd sent =>
      change CoreStep _ (server.flushSendBuffer fd sent).core
      rw [core_flushSendBuffer]
      exact CoreStep.quiet
  | takeReservations => exact CoreStep.quiet
  | disconnect fd reason => exact CoreStep.close (disconnectClient_effect consistent fd reason)

theorem core_fresh (password serverStartTime : Bytes) (listenFd : Int) :
    (fresh password serverStartTime listenFd).core =
      ⟨fun _ => none, fun _ => none, fun _ => none⟩ := by
  ext1 <;> funext key <;> simp [core, fresh]

/-- The membership relation is consistent between any two steps. -/
theorem step_reachable_consistent (reached : stepSystem.Reachable server) :
    server.core.Consistent := by
  refine reached.invariant (fun server => server.core.Consistent) ?_ ?_
  · rintro _ ⟨password, serverStartTime, listenFd, rfl⟩
    rw [core_fresh]
    exact Core.consistent_empty
  · rintro before step _ _ consistent ⟨ready, rfl⟩
    exact (advance_coreStep consistent ready).consistent consistent

/-- The invariant rule for properties of the core. -/
theorem step_reachable_core (property : Core → Prop)
    (initially : property ⟨fun _ => none, fun _ => none, fun _ => none⟩)
    (preserved : ∀ before after : Core, before.Consistent → property before →
      CoreStep before after → property after)
    (reached : stepSystem.Reachable server) : property server.core := by
  refine reached.invariant (fun server => property server.core) ?_ ?_
  · rintro _ ⟨password, serverStartTime, listenFd, rfl⟩
    rw [core_fresh]
    exact initially
  · rintro before step _ reached holds ⟨ready, rfl⟩
    have consistent := step_reachable_consistent reached
    exact preserved _ _ consistent holds (advance_coreStep consistent ready)

/-! ## A run with two members -/

/-- Registration of one client and its JOIN of a channel. -/
def enterSteps (fd : Int) (nickname channelName : Bytes) : List ServerStep :=
  [ .accept fd (ascii "127.0.0.1"),
    .command fd { command := ascii "PASS", params := [ascii "secret"] },
    .command fd { command := ascii "NICK", params := [nickname] },
    .command fd { command := ascii "USER", params := [nickname, ascii "0", ascii "*", nickname] },
    .command fd { command := ascii "JOIN", params := [channelName] } ]

/-- Two members of one channel, the first of them its operator. -/
def alicesRoom : Server :=
  stepMachine.performOr (fresh (ascii "secret") (ascii "today") 3)
    (enterSteps 4 (ascii "alice") (ascii "#Room") ++ enterSteps 5 (ascii "bob") (ascii "#room"))

theorem step_reachable_fresh (password serverStartTime : Bytes) (listenFd : Int) :
    stepSystem.Reachable (fresh password serverStartTime listenFd) :=
  TransitionSystem.Reaches.start ⟨password, serverStartTime, listenFd, rfl⟩

theorem reachable_alicesRoom : stepSystem.Reachable alicesRoom :=
  Machine.reachable_performOr (step_reachable_fresh _ _ _) _

end Server

end IrcPlatform.Irc
