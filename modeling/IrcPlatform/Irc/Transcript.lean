import IrcPlatform.Irc.Registration

/-!
# The transcript of a connection

What the history says about one connection: the messages queued and appended to
it and the bytes sent to it since it was accepted. `advance_events` computes the
events of every step, and says of every queued message which line of the step it
is. The send buffer is what was appended and not sent yet.
-/

namespace IrcPlatform.Irc

open Std

/-- The lines that one step can post, and to whom. -/
inductive StepLine (server : Server) : ServerStep → Posting → Prop where
  | command {fd : Int} {client : Client} {message : Message} {posting : Posting}
      (found : server.findClientByFd fd = some client)
      (line : CommandLine server fd client message posting) :
      StepLine server (.command fd message) posting
  | welcome {fd : Int} {client completed : Client} {message : Message} {posting : Posting}
      (found : server.findClientByFd fd = some client) (own : completed.fd = fd)
      (stored : ∃ record, (server.advance (.command fd message)).findClientByFd fd = some record ∧
        record.identity = completed.identity)
      (listed : posting ∈ server.welcomePostings completed) :
      StepLine server (.command fd message) posting
  | refused (fd : Int) (error : InputError) : StepLine server (.refuse fd error) ⟨fd, error.text⟩
  | quit {fd other : Int} {client : Client} {reason : Bytes}
      (found : server.findClientByFd fd = some client)
      (shares : server.sharesChannel fd other = true) :
      StepLine server (.disconnect fd reason) ⟨other, Server.quitLine client reason⟩

/-- The bytes that an event handed to the socket of a descriptor. -/
def HistoryEvent.sentTo (fd : Int) : HistoryEvent → Bytes
  | .sent other data => if other = fd then data else []
  | _ => []

/-- The events since a descriptor was accepted for the last time. -/
def sinceAccepted (fd : Int) (history : List HistoryEvent) : List HistoryEvent :=
  history.foldl (fun events event => if event = .accepted fd then [] else events ++ [event]) []

theorem sinceAccepted_append {fd : Int} (history : List HistoryEvent)
    {events : List HistoryEvent} (quiet : .accepted fd ∉ events) :
    sinceAccepted fd (history ++ events) = sinceAccepted fd history ++ events := by
  simp only [sinceAccepted, List.foldl_append]
  generalize history.foldl _ [] = start
  induction events generalizing start with
  | nil => simp
  | cons event rest ih =>
      simp only [List.mem_cons, not_or] at quiet
      rw [List.foldl_cons, if_neg (Ne.symm quiet.1), ih quiet.2, List.append_assoc]
      rfl

theorem sinceAccepted_accepted (fd : Int) (history : List HistoryEvent) :
    sinceAccepted fd (history ++ [.accepted fd]) = [] := by
  simp [sinceAccepted, List.foldl_append]

/-- The messages queued to a descriptor among some events. -/
def queuedLines (fd : Int) (events : List HistoryEvent) : List Bytes :=
  events.filterMap (HistoryEvent.queuedTo fd)

/-- The messages that entered its send buffer. -/
def appendedLines (fd : Int) (events : List HistoryEvent) : List Bytes :=
  events.filterMap (HistoryEvent.appendedTo fd)

def sentBytes (fd : Int) (events : List HistoryEvent) : Bytes :=
  events.flatMap (HistoryEvent.sentTo fd)

theorem appendedLines_append (fd : Int) (first second : List HistoryEvent) :
    appendedLines fd (first ++ second) = appendedLines fd first ++ appendedLines fd second :=
  List.filterMap_append

theorem queuedLines_append (fd : Int) (first second : List HistoryEvent) :
    queuedLines fd (first ++ second) = queuedLines fd first ++ queuedLines fd second :=
  List.filterMap_append

theorem sentBytes_append (fd : Int) (first second : List HistoryEvent) :
    sentBytes fd (first ++ second) = sentBytes fd first ++ sentBytes fd second :=
  List.flatMap_append

/-- An appended message was queued. -/
theorem mem_queuedLines_of_appended {fd : Int} {events : List HistoryEvent} {line : Bytes}
    (appended : line ∈ appendedLines fd events) : line ∈ queuedLines fd events := by
  rcases List.mem_filterMap.mp appended with ⟨event, listed, result⟩
  refine List.mem_filterMap.mpr ⟨event, listed, ?_⟩
  cases event with
  | queued other message flag =>
      cases flag with
      | true => exact result
      | false => simp [HistoryEvent.appendedTo] at result
  | _ => simp [HistoryEvent.appendedTo] at result

/-! ## The events of one step -/

/-- What a step adds to the history, and what this means for the send buffers. -/
structure StepEvents (before : Server) (step : ServerStep) (after : Server)
    (events : List HistoryEvent) : Prop where
  history : after.history = before.history ++ events
  lines (fd : Int) (message : Bytes) : message ∈ queuedLines fd events →
    StepLine before step ⟨fd, message⟩
  accepted (fd : Int) : .accepted fd ∈ events →
    (∃ peerAddress, step = .accept fd peerAddress) ∧ events = [.accepted fd]
  buffers (fd : Int) (client next : Client) : before.findClientByFd fd = some client →
    after.findClientByFd fd = some next →
    sentBytes fd events ++ next.sendBuffer =
      client.sendBuffer ++ (appendedLines fd events).flatMap Server.withCrlf
  entered (fd : Int) (next : Client) : before.findClientByFd fd = none →
    after.findClientByFd fd = some next → next.sendBuffer = [] ∧ .accepted fd ∈ events

namespace Server

variable {server : Server} {fd : Int} {client : Client}

theorem stepEvents_of_quiet {step : ServerStep} {after : Server}
    (history : after.history = server.history)
    (buffers : ∀ fd, (after.findClientByFd fd).map (·.sendBuffer) =
      (server.findClientByFd fd).map (·.sendBuffer)) : StepEvents server step after [] where
  history := by rw [history, List.append_nil]
  lines fd message listed := by simp [queuedLines] at listed
  accepted fd listed := by simp at listed
  buffers fd client next found foundNext := by
    have same := buffers fd
    rw [found, foundNext, Option.map_some, Option.map_some, Option.some.injEq] at same
    simp [sentBytes, appendedLines, same]
  entered fd next missing foundNext := by
    have same := buffers fd
    simp [missing, foundNext] at same

/-- The events of a list of postings, after some events that concern no buffer. -/
theorem stepEvents_of_posts {step : ServerStep} (start : Server) {after : Server}
    {postings : List Posting} {early : List HistoryEvent}
    (history : start.history = server.history ++ early)
    (calm : ∀ event ∈ early, ∃ fd reserved, event = .dispatched fd reserved)
    (clients : ∀ fd, start.findClientByFd fd = server.findClientByFd fd)
    (posts : start.Posts postings after)
    (lines : ∀ posting ∈ postings, StepLine server step posting) :
    StepEvents server step after (early ++ start.mail.entries postings) := by
  have silent : ∀ fd, queuedLines fd early = [] := by
    intro fd
    apply List.filterMap_eq_nil_iff.mpr
    intro event listed
    rcases calm event listed with ⟨other, reserved, rfl⟩
    rfl
  have unsent : ∀ fd, sentBytes fd (early ++ start.mail.entries postings) = [] := by
    intro fd
    apply List.flatMap_eq_nil_iff.mpr
    intro event listed
    rcases List.mem_append.mp listed with listed | listed
    · rcases calm event listed with ⟨other, reserved, rfl⟩
      rfl
    · rcases Mail.mem_entries _ listed with ⟨posting, _, appended, rfl⟩
      rfl
  have noAppended : ∀ fd, appendedLines fd early = [] := by
    intro fd
    apply List.eq_nil_iff_forall_not_mem.mpr
    intro line listed
    have queued := mem_queuedLines_of_appended listed
    rw [silent] at queued
    exact List.not_mem_nil queued
  constructor
  case history => rw [posts.history, history, List.append_assoc]
  case lines =>
    intro fd message listed
    rw [queuedLines_append, silent, List.nil_append] at listed
    rcases List.mem_filterMap.mp listed with ⟨event, eventListed, result⟩
    rcases Mail.mem_entries _ eventListed with ⟨posting, postingListed, appended, rfl⟩
    simp only [HistoryEvent.queuedTo, Option.ite_none_right_eq_some, Option.some.injEq] at result
    rcases result with ⟨rfl, rfl⟩
    exact lines posting postingListed
  case accepted =>
    intro fd listed
    rcases List.mem_append.mp listed with listed | listed
    · rcases calm _ listed with ⟨other, reserved, same⟩
      simp at same
    · rcases Mail.mem_entries _ listed with ⟨posting, _, appended, same⟩
      simp at same
  case buffers =>
    intro fd client next found foundNext
    rw [unsent, List.nil_append, appendedLines_append, noAppended, List.nil_append]
    exact posts.sendBuffer ((clients fd).trans found) foundNext
  case entered =>
    intro fd next missing foundNext
    have live := posts.isSome fd
    simp [clients, missing, foundNext] at live

theorem posts_disconnectClient (found : server.findClientByFd fd = some client)
    (reason : Bytes) : ∃ announced, server.Posts ((server.sharedTargets client).toList.map
        fun target => ⟨target, quitLine client reason⟩) announced ∧
      (server.disconnectClient fd reason).history = announced.history ∧
      ∀ other, other ≠ fd → (server.disconnectClient fd reason).findClientByFd other =
        announced.findClientByFd other := by
  refine ⟨_, mail_broadcastToSharedChannels server client (quitLine client reason), ?_⟩
  simp only [disconnectClient, found]
  rw [← quitLine]
  generalize server.broadcastToSharedChannels client (quitLine client reason) = announced
  have left := removeClientFromAllChannels_onlyClient announced fd
  generalize announced.removeClientFromAllChannels fd = removed at left
  constructor
  · split
    · exact left.history
    · exact left.history
  · intro other distinct
    rw [← left.others other distinct]
    split
    · simp [findClientByFd, eraseClient, removeClientPollFd, ExtTreeMap.getElem?_erase,
        Ne.symm distinct]
    · simp [findClientByFd, eraseClient, removeClientPollFd, unregisterNickname,
        ExtTreeMap.getElem?_erase, Ne.symm distinct]

theorem CommandLine_of_record {event : HistoryEvent} {message : Message} {posting : Posting}
    (line : CommandLine (server.record event) fd client message posting) :
    CommandLine server fd client message posting := by
  cases line with
  | numeric listed parameters => exact CommandLine.numeric listed parameters
  | answer listed parameters => exact CommandLine.answer listed parameters
  | @notice receiver record _ registered found admitted listed parameters =>
      have foundHere : server.findClientByFd receiver = some record := found
      exact CommandLine.notice registered foundHere admitted listed parameters
  | @privmsg target _ name _ _ registered command params given listed found =>
      have foundHere : server.findClientByNickname name = some target := found
      exact CommandLine.privmsg registered command params given listed foundHere
  | @invite target channel name channelName _ registered command params found foundChannel
      operator =>
      have foundHere : server.findClientByNickname name = some target := found
      have foundChannelHere : server.findChannel channelName = some channel := foundChannel
      exact CommandLine.invite registered command params foundHere foundChannelHere operator

theorem invokeDispatch_events (consistent : server.core.Consistent) (fd : Int)
    (message : Message) : ∃ events, StepEvents server (.command fd message)
      (server.advance (.command fd message)) events := by
  have calm : ∀ event ∈ [HistoryEvent.dispatched fd (server.pendingDisconnects.contains fd)],
      ∃ fd reserved, event = .dispatched fd reserved := by
    intro event listed
    exact ⟨fd, _, List.mem_singleton.mp listed⟩
  cases found : server.findClientByFd fd with
  | none =>
      have same : server.advance (.command fd message) =
          server.record (.dispatched fd (server.pendingDisconnects.contains fd)) := by
        have missing : (server.record (.dispatched fd
            (server.pendingDisconnects.contains fd))).findClientByFd fd = none := found
        simp only [advance, invokeDispatch, dispatchCommand, missing]
      rw [same]
      exact ⟨_, stepEvents_of_posts (server.record (.dispatched fd
        (server.pendingDisconnects.contains fd))) rfl calm (fun _ => rfl) (Posts.refl _)
        (fun _ listed => absurd listed List.not_mem_nil)⟩
  | some client =>
      have mail := @dispatchCommand_mail (server.record (.dispatched fd
        (server.pendingDisconnects.contains fd))) fd client consistent found message
      cases mail with
      | lines posts all _ =>
          refine ⟨_, stepEvents_of_posts (server.record (.dispatched fd
            (server.pendingDisconnects.contains fd))) rfl calm (fun _ => rfl) posts ?_⟩
          intro posting listed
          exact StepLine.command found (CommandLine_of_record (all posting listed))
      | welcome posts own _ _ foundAfter =>
          refine ⟨_, stepEvents_of_posts (server.record (.dispatched fd
            (server.pendingDisconnects.contains fd))) rfl calm (fun _ => rfl) posts ?_⟩
          intro posting listed
          have ownFd : client.fd = fd :=
            consistent.client_fd fd client.withoutBuffers (core_clients_of_find server fd found)
          exact StepLine.welcome found (own.trans ownFd) foundAfter listed

theorem sendBuffer_updateClient (server : Server) (fd : Int) {change : Client → Client}
    (kept : ∀ client, (change client).sendBuffer = client.sendBuffer) (other : Int) :
    ((server.updateClient fd change).findClientByFd other).map (·.sendBuffer) =
      (server.findClientByFd other).map (·.sendBuffer) := by
  have same := server.mail_updateClient fd fun client _ => kept client
  exact congrArg (fun mail : Mail => mail.buffers other) same

theorem acceptClient_events {peerAddress : Bytes}
    (ready : server.ready (.accept fd peerAddress) = true) :
    StepEvents server (.accept fd peerAddress) (server.acceptClient (some (fd, peerAddress)))
      [.accepted fd] := by
  have entered := core_clients_of_advance_accept ready
  have missing := (findClientByFd_of_core server fd).mp (core_clients_of_ready ready)
  have absent : server.clients.contains fd = false := by
    simp only [Server.ready, Bool.and_eq_true, Bool.not_eq_true'] at ready
    exact ready.1.1
  constructor
  case history => simp [acceptClient, addClient, absent, addClientPollFd, record]
  case lines =>
    intro other message listed
    simp [queuedLines, HistoryEvent.queuedTo] at listed
  case accepted =>
    intro other listed
    rw [List.mem_singleton, HistoryEvent.accepted.injEq] at listed
    subst listed
    exact ⟨⟨peerAddress, rfl⟩, rfl⟩
  case buffers =>
    intro other client next found foundNext
    have distinct : other ≠ fd := by
      rintro rfl
      simp [missing] at found
    rw [findClientByFd_acceptClient distinct, found, Option.some.injEq] at foundNext
    simp [sentBytes, appendedLines, HistoryEvent.sentTo, HistoryEvent.appendedTo, foundNext]
  case entered =>
    intro other next missingOther foundNext
    by_cases same : other = fd
    · subst same
      rw [entered, Option.some.injEq] at foundNext
      subst foundNext
      exact ⟨rfl, List.mem_singleton_self _⟩
    · rw [findClientByFd_acceptClient same, missingOther] at foundNext
      simp at foundNext

theorem flushSendBuffer_events (server : Server) (fd : Int) (sent : Option Nat) :
    ∃ events, StepEvents server (.flush fd sent) (server.flushSendBuffer fd sent) events := by
  simp only [flushSendBuffer]
  split
  · exact ⟨[], stepEvents_of_quiet rfl fun _ => rfl⟩
  next client found =>
    split
    · refine ⟨[], stepEvents_of_quiet ?_ fun other => ?_⟩
      · simp only [updatePollEvents]
        split
        · rfl
        · rfl
      · rw [findClientByFd_updatePollEvents]
    · split
      · exact ⟨[], stepEvents_of_quiet rfl fun _ => rfl⟩
      next count =>
        have lookup : ∀ other, (((server.record (.sent fd (client.sendBuffer.take
            count))).updateClient fd (·.eraseSendPrefix count)).updatePollEvents
              fd).findClientByFd other =
            if other = fd then some (client.eraseSendPrefix count)
            else server.findClientByFd other := by
          intro other
          rw [findClientByFd_updatePollEvents, findClientByFd_updateClient_eq]
          simp [found]
        refine ⟨[.sent fd (client.sendBuffer.take count)], ?_⟩
        constructor
        case history =>
          simp only [updatePollEvents]
          split
          · rfl
          · rfl
        case lines =>
          intro other message listed
          simp [queuedLines, HistoryEvent.queuedTo] at listed
        case accepted =>
          intro other listed
          simp at listed
        case buffers =>
          intro other record next foundOther foundNext
          rw [lookup] at foundNext
          split at foundNext
          next same =>
            subst same
            rw [found, Option.some.injEq] at foundOther
            rw [Option.some.injEq] at foundNext
            subst foundOther foundNext
            simp [sentBytes, appendedLines, HistoryEvent.sentTo, HistoryEvent.appendedTo,
              Client.eraseSendPrefix]
          next distinct =>
            rw [foundOther, Option.some.injEq] at foundNext
            subst foundNext
            simp [sentBytes, appendedLines, HistoryEvent.sentTo, HistoryEvent.appendedTo,
              Ne.symm distinct]
        case entered =>
          intro other next missing foundNext
          rw [lookup] at foundNext
          split at foundNext
          next same =>
            subst same
            simp [found] at missing
          · simp [missing] at foundNext

theorem disconnectClient_events (server : Server) (fd : Int) (reason : Bytes) :
    ∃ events, StepEvents server (.disconnect fd reason) (server.disconnectClient fd reason)
      events := by
  cases found : server.findClientByFd fd with
  | none =>
      rw [disconnectClient_of_missing found]
      exact ⟨[], stepEvents_of_quiet rfl fun _ => rfl⟩
  | some client =>
      rcases posts_disconnectClient found reason with ⟨announced, posts, history, others⟩
      have gone := (disconnectClient_disconnected found reason).gone
      have elsewhere : ∀ other next, (server.disconnectClient fd reason).findClientByFd other =
          some next → announced.findClientByFd other = some next := by
        intro other next foundNext
        have distinct : other ≠ fd := by
          rintro rfl
          simp [gone] at foundNext
        rwa [← others other distinct]
      have announcing : StepEvents server (.disconnect fd reason) announced
          ([] ++ server.mail.entries ((server.sharedTargets client).toList.map
            fun target => ⟨target, quitLine client reason⟩)) := by
        refine stepEvents_of_posts server (by simp) (by simp) (fun _ => rfl) posts ?_
        intro posting listed
        rcases List.mem_map.mp listed with ⟨target, targetListed, rfl⟩
        apply StepLine.quit found
        simp only [sharesChannel, found]
        rwa [ExtTreeSet.contains_iff_mem, ← ExtTreeSet.mem_toList]
      exact ⟨_, history.trans announcing.history, announcing.lines, announcing.accepted,
        fun other record next foundOther foundNext =>
          announcing.buffers other record next foundOther (elsewhere other next foundNext),
        fun other next missing foundNext =>
          announcing.entered other next missing (elsewhere other next foundNext)⟩

/-- Every step has its events. -/
theorem advance_events (consistent : server.core.Consistent) {step : ServerStep}
    (ready : server.ready step = true) :
    ∃ events, StepEvents server step (server.advance step) events := by
  cases step with
  | accept fd peerAddress => exact ⟨_, acceptClient_events ready⟩
  | receive fd data =>
      exact ⟨[], stepEvents_of_quiet rfl (sendBuffer_updateClient server fd fun _ => rfl)⟩
  | consume fd length =>
      exact ⟨[], stepEvents_of_quiet rfl (sendBuffer_updateClient server fd fun _ => rfl)⟩
  | command fd message => exact invokeDispatch_events consistent fd message
  | refuse fd error =>
      refine ⟨[] ++ _, stepEvents_of_posts server (List.append_nil _).symm
        (fun _ listed => absurd listed List.not_mem_nil) (fun _ => rfl)
        ((Posts.refl server).queue fd error.text) ?_⟩
      intro posting listed
      rw [List.mem_singleton.mp listed]
      exact StepLine.refused fd error
  | reserve fd => exact ⟨[], stepEvents_of_quiet rfl fun _ => rfl⟩
  | flush fd sent => exact flushSendBuffer_events server fd sent
  | takeReservations => exact ⟨[], stepEvents_of_quiet rfl fun _ => rfl⟩
  | disconnect fd reason => exact disconnectClient_events server fd reason

end Server

end IrcPlatform.Irc
