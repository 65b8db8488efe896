import IrcPlatform.Library.Transition
import IrcPlatform.Irc.Disconnection

/-!
# Runs of the IRC server

The steps of the server as a transition system: accepted connections, commands
of any client, entries of a poll scan with arbitrary results of the system
calls, the processing of the reservations in any order, and disconnections. The
event loop is the part of it made of poll entries and of processing the
reservations.
-/

namespace IrcPlatform.Irc

open Std

inductive ServerAction where
  | accept (fd : Int) (peerAddress : Bytes)
  | dispatch (fd : Int) (message : Message)
  | poll (event : PollResult)
  | processPending (order : List Int)
  | disconnect (fd : Int) (reason : Bytes)

/-- The steps that the event loop itself makes. -/
def ServerAction.ofEventLoop : ServerAction → Bool
  | poll _ | processPending _ => true
  | accept _ _ | dispatch _ _ | disconnect _ _ => false

namespace Server

/-- The server after its listening socket was set up. -/
def fresh (password serverStartTime : Bytes) (listenFd : Int) : Server where
  password := password
  serverStartTime := serverStartTime
  listenFd := listenFd
  pollFds := [{ fd := listenFd }]

/-- `processPendingDisconnects` with the reservations taken in a given order. -/
def processPendingInOrder (server : Server) (order : List Int) : Server :=
  disconnectAll order { server with pendingDisconnects := ∅ }

theorem processPendingDisconnects_eq (server : Server) :
    server.processPendingDisconnects =
      server.processPendingInOrder server.pendingDisconnects.toList := rfl

def enabled (server : Server) : ServerAction → Bool
  | .accept fd _ => !server.clients.contains fd
  | .processPending order => order.isPerm server.pendingDisconnects.toList
  | .dispatch _ _ | .poll _ | .disconnect _ _ => true

def perform (server : Server) : ServerAction → Server
  | .accept fd peerAddress => server.acceptClient (some (fd, peerAddress))
  | .dispatch fd message => server.invokeDispatch fd message
  | .poll event => server.handleEvent event
  | .processPending order => server.processPendingInOrder order
  | .disconnect fd reason => server.disconnectClient fd reason

end Server

/-- The server as a machine; its runs start from a server without clients. -/
def serverMachine : Machine Server ServerAction where
  initial server := ∃ password serverStartTime listenFd,
    server = Server.fresh password serverStartTime listenFd
  enabled := Server.enabled
  perform := Server.perform

def serverSystem : TransitionSystem Server ServerAction := serverMachine.system

/-- Steps of the event loop that also meet a condition. -/
def loopSteps (condition : Server → ServerAction → Prop) (server : Server)
    (action : ServerAction) : Prop :=
  action.ofEventLoop = true ∧ condition server action

namespace Server

theorem reachable_fresh (password serverStartTime : Bytes) (listenFd : Int) :
    serverSystem.Reachable (fresh password serverStartTime listenFd) :=
  TransitionSystem.Reaches.start ⟨password, serverStartTime, listenFd, rfl⟩

variable {server : Server} {fd : Int}

/-! ## Consistency along runs -/

theorem core_addClient {peerAddress : Bytes} (missing : server.core.clients fd = none) :
    (server.addClient fd peerAddress).2.core =
      server.core.setClient fd { fd := fd, hostname := peerAddress } := by
  have absent : server.clients.contains fd = false := by
    rw [ExtTreeMap.contains_eq_isSome_getElem?, Option.isSome_eq_false_iff]
    exact Option.isNone_iff_eq_none.mpr (Option.map_eq_none_iff.mp missing)
  unfold addClient
  rw [absent]
  ext1
  · funext other
    simp only [core, Bool.false_eq_true, if_false, ExtTreeMap.getElem?_insert,
      LawfulEqOrd.compare_eq_iff_eq, Core.setClient_clients, eq_comm (a := other)]
    split <;> rfl
  · rfl
  · rfl

theorem acceptClient_consistent (consistent : server.core.Consistent)
    (accepted : Option (Int × Bytes)) : (server.acceptClient accepted).core.Consistent := by
  unfold acceptClient
  split
  · exact consistent
  next fd peerAddress =>
    cases missing : server.core.clients fd with
    | none =>
        have entered : (server.core.setClient fd
            { fd := fd, hostname := peerAddress }).Consistent := consistent.enter missing rfl rfl
        rw [← core_addClient missing] at entered
        simp only
        split
        · exact entered
        · exact entered
    | some client =>
        have present : server.clients.contains fd = true := by
          rcases exists_find_of_core_clients server fd missing with ⟨stored, found, _⟩
          simp only [findClientByFd] at found
          rw [ExtTreeMap.contains_eq_isSome_getElem?, found]
          rfl
        simpa [addClient, present] using consistent

theorem invokeDispatch_effect (consistent : server.core.Consistent) (fd : Int)
    (message : Message) :
    CommandEffect fd server.core (server.invokeDispatch fd message).core :=
  @dispatchCommand_effect (server.record _) consistent fd message

theorem processLine_consistent (consistent : server.core.Consistent) (fd : Int) (line : Bytes) :
    (server.processLine fd line).core.Consistent := by
  unfold processLine
  split
  · exact consistent
  · exact (invokeDispatch_effect consistent fd _).consistent consistent

@[simp] theorem core_eraseReceivePrefix (server : Server) (fd : Int) (length : Nat) :
    (server.updateClient fd (·.eraseReceivePrefix length)).core = server.core :=
  core_updateClient_of_buffers server fd _ fun _ => rfl

@[simp] theorem core_appendReceiveBuffer (server : Server) (fd : Int) (data : Bytes) :
    (server.updateClient fd (·.appendReceiveBuffer data)).core = server.core :=
  core_updateClient_of_buffers server fd _ fun _ => rfl

theorem receiveLoop_consistent (fd : Int) (fuel : Nat) (consistent : server.core.Consistent) :
    (receiveLoop fd fuel server).core.Consistent := by
  induction fuel generalizing server with
  | zero => exact consistent
  | succ fuel ih =>
      unfold receiveLoop
      split
      · exact consistent
      · split
        · exact consistent
        next line consumed _ =>
          have processed : ((server.updateClient fd (·.eraseReceivePrefix consumed)).processLine
              fd line).core.Consistent :=
            processLine_consistent (by rwa [core_eraseReceivePrefix]) fd line
          simp only
          split
          · exact processed
          · exact ih processed
        · rwa [core_scheduleDisconnect, core_queueToClient, core_eraseReceivePrefix]

theorem receiveFromClient_consistent (consistent : server.core.Consistent) (fd : Int)
    (received : Option Bytes) : (server.receiveFromClient fd received).core.Consistent := by
  unfold receiveFromClient
  split
  · exact consistent
  · split
    · exact consistent
    · simp only
      split
      · rwa [core_scheduleDisconnect, core_queueToClient, core_appendReceiveBuffer]
      · exact receiveLoop_consistent fd _ (by rwa [core_appendReceiveBuffer])

@[simp] theorem core_flushSendBuffer (server : Server) (fd : Int) (sent : Option Nat) :
    (server.flushSendBuffer fd sent).core = server.core := by
  unfold flushSendBuffer
  split
  · rfl
  · split
    · exact core_updatePollEvents server fd
    · split
      · rfl
      · rw [core_updatePollEvents, core_updateClient_of_buffers, core_record]
        intro client
        rfl

theorem handleClientEvent_consistent (consistent : server.core.Consistent) (event : PollResult) :
    (server.handleClientEvent event).core.Consistent := by
  unfold handleClientEvent
  simp only
  split
  · exact consistent
  · split
    · exact consistent
    · generalize reading : (if event.revents.pollIn then
        server.receiveFromClient event.fd event.received else server) = received
      have afterReading : received.core.Consistent := by
        rw [← reading]
        split
        · exact receiveFromClient_consistent consistent _ _
        · exact consistent
      split
      · exact afterReading
      · generalize writing : (if event.revents.pollOut then
          received.flushSendBuffer event.fd event.sent else received) = flushed
        have afterWriting : flushed.core.Consistent := by
          rw [← writing]
          split
          · rwa [core_flushSendBuffer]
          · exact afterReading
        split
        · exact afterWriting
        · split
          · exact afterWriting
          · exact afterWriting

theorem handleEvent_consistent (consistent : server.core.Consistent) (event : PollResult) :
    (server.handleEvent event).core.Consistent := by
  unfold handleEvent
  split
  · exact consistent
  · split
    · unfold handleListenEvent
      split
      · exact acceptClient_consistent consistent _
      · exact consistent
    · exact handleClientEvent_consistent consistent event

theorem perform_consistent (consistent : server.core.Consistent) (action : ServerAction) :
    (server.perform action).core.Consistent := by
  cases action with
  | accept fd peerAddress => exact acceptClient_consistent consistent _
  | dispatch fd message => exact (invokeDispatch_effect consistent fd message).consistent consistent
  | poll event => exact handleEvent_consistent consistent event
  | processPending order => exact disconnectAll_consistent order consistent
  | disconnect fd reason =>
      exact (disconnectClient_effect consistent fd reason).consistent consistent

/-- The membership relation is consistent in every reachable state. -/
theorem reachable_consistent (reached : serverSystem.Reachable server) :
    server.core.Consistent := by
  refine reached.invariant (fun server => server.core.Consistent) ?_ ?_
  · rintro _ ⟨password, serverStartTime, listenFd, rfl⟩
    have empty : (fresh password serverStartTime listenFd).core =
        ⟨fun _ => none, fun _ => none, fun _ => none⟩ := by
      ext1 <;> funext key <;> simp [core, fresh]
    rw [empty]
    exact Core.consistent_empty
  · rintro before action _ _ consistent ⟨_, rfl⟩
    exact perform_consistent consistent action

/-! ## The relation on the stored records -/

/-- The membership relation as the two maps of the server store it. -/
structure RelationsHold (server : Server) : Prop where
  member_iff_joined (fd : Int) (key : Bytes) :
    (∃ channel : Channel, server.channels[key]? = some channel ∧ fd ∈ channel.members) ↔
      ∃ client : Client, server.clients[fd]? = some client ∧ key ∈ client.joinedChannels
  operator_member (key : Bytes) (channel : Channel) : server.channels[key]? = some channel →
    ∀ fd ∈ channel.operators, fd ∈ channel.members
  member_exists (key : Bytes) (channel : Channel) : server.channels[key]? = some channel →
    ∃ fd, fd ∈ channel.members
  key_eq (key : Bytes) (channel : Channel) : server.channels[key]? = some channel →
    key = channel.keyName ∧ key = IrcUtil.normalizeChannelName channel.name
  invited_live (key : Bytes) (channel : Channel) : server.channels[key]? = some channel →
    ∀ fd ∈ channel.invited,
      (∃ client, server.clients[fd]? = some client) ∧ fd ∉ channel.members
  member_registered (key : Bytes) (channel : Channel) : server.channels[key]? = some channel →
    ∀ fd ∈ channel.members,
      ∃ client : Client, server.clients[fd]? = some client ∧ client.registered = true
  client_fd (fd : Int) (client : Client) : server.clients[fd]? = some client → client.fd = fd

theorem exists_core_client_iff (property : Client → Prop)
    (buffersOnly : ∀ client, property client.withoutBuffers ↔ property client) :
    (∃ client, server.core.clients fd = some client ∧ property client) ↔
      ∃ client, server.clients[fd]? = some client ∧ property client := by
  constructor
  · rintro ⟨client, stored, holds⟩
    rcases exists_find_of_core_clients server fd stored with ⟨found, lookup, rfl⟩
    exact ⟨found, lookup, (buffersOnly found).mp holds⟩
  · rintro ⟨client, lookup, holds⟩
    exact ⟨_, core_clients_of_find server fd lookup, (buffersOnly client).mpr holds⟩

theorem relationsHold_of_consistent (consistent : server.core.Consistent) :
    server.RelationsHold where
  member_iff_joined fd key := by
    have related := consistent.isMember_iff fd key
    rw [Core.IsMember, Core.HasJoined, exists_core_client_iff (fun client =>
      key ∈ client.joinedChannels) fun _ => Iff.rfl] at related
    exact related
  operator_member key channel found fd := consistent.operator_member key channel fd found
  member_exists key channel found := consistent.nonempty key channel found
  key_eq key channel found :=
    ⟨(consistent.keyName key channel found).symm,
      (consistent.key_normalized key channel found).symm⟩
  invited_live key channel found fd invited := by
    rcases consistent.invited_live key channel fd found invited with ⟨client, stored⟩
    rcases exists_find_of_core_clients server fd stored with ⟨record, lookup, _⟩
    exact ⟨⟨record, lookup⟩, consistent.invited_not_member key channel fd found invited⟩
  member_registered key channel found fd member := by
    rcases consistent.member_live found member with ⟨client, stored, _⟩
    exact (exists_core_client_iff (·.registered = true) fun _ => Iff.rfl).mp
      ⟨client, stored, consistent.member_registered key channel fd client found member stored⟩
  client_fd fd client lookup :=
    consistent.client_fd fd client.withoutBuffers (core_clients_of_find server fd lookup)

theorem reachable_relationsHold (reached : serverSystem.Reachable server) :
    server.RelationsHold :=
  relationsHold_of_consistent (reachable_consistent reached)

/-- Registration of one client and its JOIN of a channel. -/
def enterChannel (fd : Int) (nickname channelName : Bytes) : List ServerAction :=
  [ .accept fd (ascii "127.0.0.1"),
    .dispatch fd { command := ascii "PASS", params := [ascii "secret"] },
    .dispatch fd { command := ascii "NICK", params := [nickname] },
    .dispatch fd { command := ascii "USER", params := [nickname, ascii "0", ascii "*", nickname] },
    .dispatch fd { command := ascii "JOIN", params := [channelName] } ]

/-- Two members of one channel, the first of them its operator. -/
def twoMembers : Server :=
  serverMachine.performOr (fresh (ascii "secret") (ascii "today") 3)
    (enterChannel 4 (ascii "alice") (ascii "#Room") ++
      enterChannel 5 (ascii "bob") (ascii "#room"))

theorem reachable_twoMembers : serverSystem.Reachable twoMembers :=
  Machine.reachable_performOr (reachable_fresh _ _ _) _

/-- The operator quits. -/
def afterQuit : Server :=
  serverMachine.performOr twoMembers
    [ .dispatch 4 { command := ascii "QUIT" }, .processPending [4] ]

theorem reachable_relationsHold_afterQuit :
    afterQuit.RelationsHold ∧ afterQuit.clients.keys = [5] ∧
      (afterQuit.channels.toList.map fun entry => entry.2.members.toList) = [[5]] :=
  ⟨reachable_relationsHold (Machine.reachable_performOr reachable_twoMembers _),
    by decide +kernel, by decide +kernel⟩

end Server

end IrcPlatform.Irc
