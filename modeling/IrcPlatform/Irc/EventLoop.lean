import IrcPlatform.Irc.Reservations

/-!
# The event loop and the reservations

What one poll entry can do: no client disappears, only live descriptors get
reserved, and the history grows by events of known kinds. The one event that the
design rules out, a command dispatched for a reserved descriptor, happens
exactly when bytes with a complete command are read for a descriptor that an
earlier entry of the same scan, or the last processing of the reservations, has
reserved.
-/

namespace IrcPlatform.Irc

open Std

/-- Kinds of history events that the event loop may always produce. -/
structure Permits (allowed : HistoryEvent → Prop) : Prop where
  accepted (fd : Int) : allowed (.accepted fd)
  queued (fd : Int) (message : Bytes) (appended : Bool) : allowed (.queued fd message appended)
  sent (fd : Int) (data : Bytes) : allowed (.sent fd data)
  dispatched (fd : Int) : allowed (.dispatched fd false)

/-- The frame of the steps of the event loop between two processings of the reservations. -/
structure Frame (allowed : HistoryEvent → Prop) (before after : Server) : Prop where
  live (fd : Int) : (before.findClientByFd fd).isSome → (after.findClientByFd fd).isSome
  still_reserved (fd : Int) : fd ∈ before.pendingDisconnects → fd ∈ after.pendingDisconnects
  reserved_live (fd : Int) : fd ∈ after.pendingDisconnects →
    fd ∈ before.pendingDisconnects ∨ (after.findClientByFd fd).isSome
  history : ∃ added, after.history = before.history ++ added ∧ ∀ event ∈ added, allowed event

namespace Frame

variable {allowed : HistoryEvent → Prop} {before between after : Server}

theorem refl (server : Server) : Frame allowed server server :=
  ⟨fun _ => id, fun _ => id, fun _ => Or.inl, [], by simp, by simp⟩

theorem trans (first : Frame allowed before between) (second : Frame allowed between after) :
    Frame allowed before after where
  live fd := second.live fd ∘ first.live fd
  still_reserved fd := second.still_reserved fd ∘ first.still_reserved fd
  reserved_live fd reserved := by
    rcases second.reserved_live fd reserved with earlier | live
    · rcases first.reserved_live fd earlier with earliest | live
      · exact Or.inl earliest
      · exact Or.inr (second.live fd live)
    · exact Or.inr live
  history := by
    rcases first.history with ⟨early, earlyHistory, earlyAllowed⟩
    rcases second.history with ⟨late, lateHistory, lateAllowed⟩
    refine ⟨early ++ late, by rw [lateHistory, earlyHistory, List.append_assoc], ?_⟩
    intro event listed
    rcases List.mem_append.mp listed with listed | listed
    · exact earlyAllowed event listed
    · exact lateAllowed event listed

theorem of_kept (permits : Permits allowed) (kept : Kept before after) :
    Frame allowed before after where
  live fd live := kept.live fd ▸ live
  still_reserved := kept.still_reserved
  reserved_live fd reserved := by
    rcases kept.reserved_live fd reserved with earlier | live
    · exact Or.inl earlier
    · exact Or.inr ((kept.live fd).symm ▸ live)
  history := by
    rcases kept.history with ⟨added, grown, queued⟩
    refine ⟨added, grown, ?_⟩
    intro event listed
    rcases queued event listed with ⟨fd, message, appended, rfl⟩
    exact permits.queued fd message appended

theorem mem_history (frame : Frame allowed before after) {event : HistoryEvent}
    (listed : event ∈ before.history) : event ∈ after.history := by
  rcases frame.history with ⟨added, grown, _⟩
  rw [grown]
  exact List.mem_append_left added listed

theorem allowed_of_mem (frame : Frame allowed before after) {event : HistoryEvent}
    (listed : event ∈ after.history) : event ∈ before.history ∨ allowed event := by
  rcases frame.history with ⟨added, grown, ok⟩
  rw [grown] at listed
  exact (List.mem_append.mp listed).imp_right (ok event)

theorem record (server : Server) {event : HistoryEvent} (ok : allowed event) :
    Frame allowed server (server.record event) :=
  ⟨fun _ => id, fun _ => id, fun _ => Or.inl, [event], rfl, by simpa using ok⟩

theorem updateClient (server : Server) (fd : Int) (change : Client → Client) :
    Frame allowed server (server.updateClient fd change) := by
  refine ⟨?_, fun _ => id, fun _ => Or.inl, [], by simp [Server.updateClient], by simp⟩
  intro other live
  rw [Server.findClientByFd_updateClient_eq]
  split
  next same => simpa [same] using live
  · exact live

theorem updatePollEvents (server : Server) (fd : Int) :
    Frame allowed server (server.updatePollEvents fd) := by
  unfold Server.updatePollEvents
  split
  · exact refl server
  · exact ⟨fun _ => id, fun _ => id, fun _ => Or.inl, [], by simp, by simp⟩

theorem reserve {server : Server} {fd : Int} (live : (server.findClientByFd fd).isSome) :
    Frame allowed server (server.scheduleDisconnect fd) := by
  rcases Option.isSome_iff_exists.mp live with ⟨client, found⟩
  have kept := (Write.reserve found).kept
  refine ⟨fun _ => id, kept.still_reserved, ?_, [], by simp [Server.scheduleDisconnect], by simp⟩
  intro other reserved
  exact kept.reserved_live other reserved

end Frame

namespace Server

variable {allowed : HistoryEvent → Prop} {server : Server}

/-! ## The frame of each function of the network layer -/

theorem acceptClient_frame (permits : Permits allowed) (server : Server)
    (accepted : Option (Int × Bytes)) : Frame allowed server (server.acceptClient accepted) := by
  unfold acceptClient
  split
  · exact Frame.refl server
  next fd peerAddress =>
    unfold addClient
    cases present : server.clients.contains fd with
    | true => exact Frame.refl server
    | false =>
        refine ⟨?_, fun _ => id, fun _ => Or.inl, [.accepted fd], rfl,
          by simpa using permits.accepted fd⟩
        intro other live
        simp only [findClientByFd] at live
        simp only [findClientByFd, addClientPollFd, record, Bool.false_eq_true, if_false,
          Bool.not_true, ExtTreeMap.getElem?_insert]
        split
        · rfl
        · exact live

theorem invokeDispatch_frame (permits : Permits allowed) (server : Server) (fd : Int)
    (message : Message)
    (ok : fd ∈ server.pendingDisconnects → allowed (.dispatched fd true)) :
    Frame allowed server (server.invokeDispatch fd message) := by
  refine (Frame.record server ?_).trans
    (Frame.of_kept permits (dispatchCommand_kept _ fd message))
  cases reserved : server.pendingDisconnects.contains fd with
  | false => exact permits.dispatched fd
  | true => exact ok (ExtTreeSet.contains_iff_mem.mp reserved)

theorem processLine_frame (permits : Permits allowed) (server : Server) (fd : Int) (line : Bytes)
    (ok : fd ∈ server.pendingDisconnects → (Parser.parse line).isSome →
      allowed (.dispatched fd true)) :
    Frame allowed server (server.processLine fd line) := by
  unfold processLine
  split
  · exact Frame.refl server
  next message parsed =>
    exact invokeDispatch_frame permits server fd message fun reserved =>
      ok reserved (by simp [parsed])

/-- The first line in the receive buffer of a client is complete and parses. -/
def holdsCommand (client : Client) : Bool :=
  match BufferUtil.findLine client.receiveBuffer with
  | .extracted line _ => (Parser.parse line).isSome
  | .incomplete | .tooLong _ => false

/-- Only the first round of the line loop can meet a reservation. -/
theorem receiveLoop_frame (permits : Permits allowed) (fd : Int) (fuel : Nat)
    (ok : fd ∈ server.pendingDisconnects → ∀ client, server.findClientByFd fd = some client →
      holdsCommand client = true → allowed (.dispatched fd true)) :
    Frame allowed server (receiveLoop fd fuel server) := by
  induction fuel generalizing server with
  | zero => exact Frame.refl server
  | succ fuel ih =>
      unfold receiveLoop
      split
      · exact Frame.refl server
      next client found =>
        have erased := fun consumed =>
          @Frame.updateClient allowed server fd (·.eraseReceivePrefix consumed)
        have live : (server.findClientByFd fd).isSome := by simp [found]
        split
        · exact Frame.refl server
        next line consumed extracted =>
          have processed := (erased consumed).trans (processLine_frame permits _ fd line
            fun reserved parsed => ok reserved client found (by simpa [holdsCommand, extracted]
              using parsed))
          simp only
          split
          · exact processed
          next free =>
            refine processed.trans (ih ?_)
            intro reserved
            simp [reserved] at free
        next consumed _ =>
          have queued := (erased consumed).trans
            (Frame.of_kept permits (Kept.queueToClient _ fd (ascii "ERROR :Input line too long")))
          exact queued.trans (Frame.reserve (queued.live fd live))

/-- Reading brings the first line of the buffer to completion, and it parses. -/
def readsCommand (server : Server) (fd : Int) (received : Option Bytes) : Bool :=
  match server.findClientByFd fd, received with
  | some client, some data =>
      client.receiveBuffer.length + data.length ≤ maxReceiveBuffer &&
        holdsCommand (client.appendReceiveBuffer data)
  | _, _ => false

theorem receiveFromClient_frame (permits : Permits allowed) (server : Server) (fd : Int)
    (received : Option Bytes)
    (ok : fd ∈ server.pendingDisconnects → server.readsCommand fd received = true →
      allowed (.dispatched fd true)) :
    Frame allowed server (server.receiveFromClient fd received) := by
  unfold receiveFromClient
  split
  · exact Frame.refl server
  next client found =>
    have live : (server.findClientByFd fd).isSome := by simp [found]
    split
    · exact Frame.reserve live
    next data =>
      have appended := @Frame.updateClient allowed server fd (·.appendReceiveBuffer data)
      simp only
      split
      · have queued := appended.trans (Frame.of_kept permits
          (Kept.queueToClient _ fd (ascii "ERROR :Receive buffer limit exceeded")))
        exact queued.trans (Frame.reserve (queued.live fd live))
      next room =>
        refine appended.trans (receiveLoop_frame permits fd _ ?_)
        intro reserved record foundRecord holds
        rw [findClientByFd_updateClient_eq, if_pos rfl, found, Option.map_some,
          Option.some.injEq] at foundRecord
        subst foundRecord
        refine ok reserved ?_
        simp only [readsCommand, found]
        simpa [holds] using room

theorem flushSendBuffer_frame (permits : Permits allowed) (server : Server) (fd : Int)
    (sent : Option Nat) : Frame allowed server (server.flushSendBuffer fd sent) := by
  unfold flushSendBuffer
  split
  · exact Frame.refl server
  next client found =>
    split
    · exact Frame.updatePollEvents server fd
    · split
      · exact Frame.reserve (by simp [found])
      · exact ((Frame.record server (permits.sent fd _)).trans
          (Frame.updateClient _ fd _)).trans (Frame.updatePollEvents _ fd)

/-- The entry makes the loop read a command for its descriptor. -/
def bringsCommand (server : Server) (event : PollResult) : Bool :=
  !(event.fd == server.listenFd) && !event.revents.pollNval && event.revents.pollIn &&
    server.readsCommand event.fd event.received

theorem handleEvent_frame (permits : Permits allowed) (server : Server) (event : PollResult)
    (ok : event.fd ∈ server.pendingDisconnects → server.bringsCommand event = true →
      allowed (.dispatched event.fd true)) :
    Frame allowed server (server.handleEvent event) := by
  unfold handleEvent
  split
  · exact Frame.refl server
  · split
    · unfold handleListenEvent
      split
      · exact acceptClient_frame permits server _
      · exact Frame.refl server
    next other =>
      unfold handleClientEvent
      simp only
      split
      · exact Frame.refl server
      next client found =>
        have live : (server.findClientByFd event.fd).isSome := by simp [found]
        split
        · exact Frame.reserve live
        next valid =>
          generalize reading : (if event.revents.pollIn then
            server.receiveFromClient event.fd event.received else server) = received
          have afterReading : Frame allowed server received := by
            rw [← reading]
            split
            next input =>
              refine receiveFromClient_frame permits server event.fd event.received ?_
              intro reserved reads
              refine ok reserved ?_
              simpa [bringsCommand, other, input, reads] using valid
            · exact Frame.refl server
          split
          · exact afterReading
          · generalize writing : (if event.revents.pollOut then
              received.flushSendBuffer event.fd event.sent else received) = flushed
            have afterWriting : Frame allowed server flushed := by
              rw [← writing]
              split
              · exact afterReading.trans (flushSendBuffer_frame permits received event.fd _)
              · exact afterReading
            split
            · exact afterWriting
            · split
              · exact afterWriting.trans (Frame.reserve (afterWriting.live event.fd live))
              · exact afterWriting

/-! ## Commands dispatched for a reserved descriptor -/

/-- An event other than the dispatch of a command for a reserved descriptor. -/
def Calm (event : HistoryEvent) : Prop := ∀ fd, event ≠ .dispatched fd true

theorem permits_calm : Permits Calm where
  accepted _ _ := HistoryEvent.noConfusion
  queued _ _ _ _ := HistoryEvent.noConfusion
  sent _ _ _ := HistoryEvent.noConfusion
  dispatched fd other same := by simp at same

theorem permits_true : Permits fun _ => True :=
  ⟨fun _ => trivial, fun _ _ _ => trivial, fun _ _ => trivial, fun _ => trivial⟩

theorem receiveLoop_dispatches {fd : Int} {client : Client} (fuel : Nat)
    (found : server.findClientByFd fd = some client) (reserved : fd ∈ server.pendingDisconnects)
    (holds : holdsCommand client = true) :
    .dispatched fd true ∈ (receiveLoop fd (fuel + 1) server).history := by
  unfold holdsCommand at holds
  split at holds
  next line consumed extracted =>
    rcases Option.isSome_iff_exists.mp holds with ⟨message, parsed⟩
    unfold receiveLoop
    rw [found]
    simp only [extracted]
    unfold processLine
    rw [parsed]
    simp only
    have isReserved : server.pendingDisconnects.contains fd = true := by simpa using reserved
    have dispatched : .dispatched fd true ∈ ((server.updateClient fd
        (·.eraseReceivePrefix consumed)).invokeDispatch fd message).history := by
      obtain ⟨added, grown, _⟩ := (dispatchCommand_kept ((server.updateClient fd
        (·.eraseReceivePrefix consumed)).record (.dispatched fd true)) fd message).history
      unfold invokeDispatch
      have same : (server.updateClient fd (·.eraseReceivePrefix consumed)).pendingDisconnects =
          server.pendingDisconnects := rfl
      rw [same, isReserved, grown]
      simp [record]
    split
    · exact dispatched
    · exact (receiveLoop_frame permits_true fd fuel fun _ _ _ _ => trivial).mem_history dispatched
  · simp at holds
  · simp at holds

theorem handleEvent_dispatches {event : PollResult}
    (reserved : event.fd ∈ server.pendingDisconnects) (brings : server.bringsCommand event = true) :
    .dispatched event.fd true ∈ (server.handleEvent event).history := by
  simp only [bringsCommand, Bool.and_eq_true, Bool.not_eq_true',
    beq_eq_false_iff_ne, ne_eq] at brings
  rcases brings with ⟨⟨⟨other, valid⟩, input⟩, reads⟩
  cases found : server.findClientByFd event.fd with
  | none => simp [readsCommand, found] at reads
  | some client =>
      cases arrival : event.received with
      | none => simp [readsCommand, found, arrival] at reads
      | some data =>
          simp only [readsCommand, found, arrival, Bool.and_eq_true, decide_eq_true_eq] at reads
          rcases reads with ⟨room, holds⟩
          have received : .dispatched event.fd true ∈
              (server.receiveFromClient event.fd (some data)).history := by
            unfold receiveFromClient
            rw [found]
            simp only
            rw [if_neg (by omega)]
            refine receiveLoop_dispatches _ ?_ reserved holds
            rw [findClientByFd_updateClient_eq, if_pos rfl, found]
            rfl
          unfold handleEvent
          rw [if_neg (by simp [Revents.isZero, input]), if_neg other]
          unfold handleClientEvent
          simp only [found, valid, input, arrival, Bool.false_eq_true, if_false, if_true,
            Bool.true_and]
          split
          · exact received
          · generalize writing : (if event.revents.pollOut then
              (server.receiveFromClient event.fd (some data)).flushSendBuffer event.fd event.sent
              else server.receiveFromClient event.fd (some data)) = flushed
            have kept : .dispatched event.fd true ∈ flushed.history := by
              rw [← writing]
              split
              · exact (flushSendBuffer_frame permits_true _ _ _).mem_history received
              · exact received
            split
            · exact kept
            · split
              · exact kept
              · exact kept

/-- Disconnections only add QUIT lines to the history. -/
theorem disconnectAll_history (order : List Int) (server : Server) :
    ∃ added, (disconnectAll order server).history = server.history ++ added ∧
      ∀ event ∈ added, Calm event := by
  induction order generalizing server with
  | nil => exact ⟨[], by simp [disconnectAll], by simp⟩
  | cons fd rest ih =>
      obtain ⟨late, lateHistory, lateCalm⟩ :=
        ih (server.disconnectClient fd (server.disconnectReason fd))
      have early : ∃ added, (server.disconnectClient fd (server.disconnectReason fd)).history =
          server.history ++ added ∧ ∀ event ∈ added, Calm event := by
        unfold disconnectClient
        split
        · exact ⟨[], by simp, by simp⟩
        next client found =>
          have frame := Frame.of_kept permits_calm (kept_queueToAll
            (Reply.command (Reply.clientPrefix client) (ascii "QUIT")
              (ascii ":" ++ server.disconnectReason fd))
            (server.sharedTargets client).toList server)
          rcases frame.history with ⟨added, grown, calm⟩
          refine ⟨added, ?_, calm⟩
          rw [← grown]
          have left := (removeClientFromAllChannels_onlyClient (queueToAll
            (Reply.command (Reply.clientPrefix client) (ascii "QUIT")
              (ascii ":" ++ server.disconnectReason fd))
            (server.sharedTargets client).toList server) fd).history
          simp only [broadcastToSharedChannels]
          split
          · exact left
          · exact left
      rcases early with ⟨added, grown, calm⟩
      refine ⟨added ++ late, ?_, ?_⟩
      · rw [disconnectAll, lateHistory, grown, List.append_assoc]
      · intro event listed
        rcases List.mem_append.mp listed with listed | listed
        · exact calm event listed
        · exact lateCalm event listed

/-- No command was dispatched for a descriptor that was reserved at that moment. -/
def NoReservedDispatch (server : Server) : Prop :=
  ∀ fd, .dispatched fd true ∉ server.history

/-- A poll entry does not bring a command for a descriptor that is already reserved. -/
def NoReservedCommand (server : Server) : ServerAction → Prop
  | .poll event => event.fd ∈ server.pendingDisconnects → server.bringsCommand event = false
  | _ => True

theorem perform_noReservedDispatch_iff {action : ServerAction} (loop : action.ofEventLoop = true) :
    (server.perform action).NoReservedDispatch ↔
      server.NoReservedDispatch ∧ server.NoReservedCommand action := by
  cases action with
  | accept | dispatch | disconnect => simp [ServerAction.ofEventLoop] at loop
  | processPending order =>
      obtain ⟨added, grown, calm⟩ := disconnectAll_history order
        { server with pendingDisconnects := ∅ }
      have history : (server.perform (.processPending order)).history = server.history ++ added :=
        grown
      simp only [NoReservedDispatch, NoReservedCommand, and_true, history, List.mem_append, not_or]
      exact ⟨fun absent fd => (absent fd).1,
        fun absent fd => ⟨absent fd, fun listed => calm _ listed fd rfl⟩⟩
  | poll event =>
      constructor
      · intro absent
        refine ⟨fun fd listed => absent fd ?_, ?_⟩
        · exact (handleEvent_frame permits_true server event fun _ _ => trivial).mem_history listed
        · intro reserved
          by_contra brings
          exact absent event.fd (handleEvent_dispatches reserved (by simpa using brings))
      · rintro ⟨absent, clean⟩ fd listed
        have frame : Frame Calm server (server.handleEvent event) :=
          handleEvent_frame permits_calm server event fun reserved brings => by
            simp [clean reserved] at brings
        rcases frame.allowed_of_mem listed with earlier | calm
        · exact absent fd earlier
        · exact calm fd rfl

theorem performAll_noReservedDispatch_iff {actions : List ServerAction} {final : Server}
    (loop : ∀ action ∈ actions, action.ofEventLoop = true)
    (performed : serverMachine.performAll actions server = some final) :
    final.NoReservedDispatch ↔
      server.NoReservedDispatch ∧ serverMachine.EveryStep NoReservedCommand actions server := by
  induction actions generalizing server with
  | nil =>
      rw [Machine.performAll, Option.some.injEq] at performed
      simp [Machine.EveryStep, performed]
  | cons action actions ih =>
      have here : (serverMachine.perform server action).NoReservedDispatch ↔
          server.NoReservedDispatch ∧ server.NoReservedCommand action :=
        perform_noReservedDispatch_iff (loop action List.mem_cons_self)
      rw [Machine.performAll] at performed
      split at performed
      · rw [ih (fun later listed => loop later (List.mem_cons_of_mem action listed)) performed,
          here, Machine.EveryStep, and_assoc]
      · simp at performed

end Server

end IrcPlatform.Irc
