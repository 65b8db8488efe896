import IrcPlatform.Irc.Overflow
import IrcPlatform.Irc.Transcript
import Mathlib.Data.List.Infix
import Mathlib.Data.List.TakeWhile

/-!
# The bytes on the wire

What `send` took for a client against what was queued for it. As long as no message
finds the send buffer full, the bytes sent are a prefix of the stream of all messages.
A dropped message leaves a gap in the send buffer: a shorter one that is queued after
it still fits, and a POLLOUT of the same scan sends it before the connection is closed.
-/

namespace IrcPlatform.Irc

open Std

/-- A message for a descriptor that found no room. -/
def HistoryEvent.dropsFor (fd : Int) : HistoryEvent → Bool
  | .queued other _ false => other == fd
  | _ => false

/-- The events before the first dropped message of a descriptor. -/
def beforeDrop (fd : Int) (events : List HistoryEvent) : List HistoryEvent :=
  events.takeWhile fun event => !event.dropsFor fd

/-- The bytes that entered the send buffer of a descriptor before a message was dropped. -/
def unbroken (fd : Int) (events : List HistoryEvent) : Bytes :=
  (appendedLines fd (beforeDrop fd events)).flatMap Server.withCrlf

/-- Everything that was queued for a descriptor, as it would be sent. -/
def queuedBytes (fd : Int) (events : List HistoryEvent) : Bytes :=
  (queuedLines fd events).flatMap Server.withCrlf

theorem queuedBytes_append (fd : Int) (first second : List HistoryEvent) :
    queuedBytes fd (first ++ second) = queuedBytes fd first ++ queuedBytes fd second := by
  simp only [queuedBytes, queuedLines_append, List.flatMap_append]

/-- Before the first drop every queued message is appended. -/
theorem appendedLines_beforeDrop (fd : Int) (events : List HistoryEvent) :
    appendedLines fd (beforeDrop fd events) = queuedLines fd (beforeDrop fd events) := by
  simp only [appendedLines, queuedLines]
  apply List.filterMap_congr
  intro event listed
  have kept := List.mem_takeWhile_imp listed
  cases event with
  | queued other message appended =>
      cases appended with
      | true => rfl
      | false =>
          have apart : other ≠ fd := by
            simpa [HistoryEvent.dropsFor] using kept
          simp [HistoryEvent.appendedTo, HistoryEvent.queuedTo, apart]
  | _ => rfl

theorem unbroken_prefix_queued (fd : Int) (events : List HistoryEvent) :
    unbroken fd events <+: queuedBytes fd events := by
  rw [unbroken, appendedLines_beforeDrop]
  exact ((List.takeWhile_prefix _).filterMap _).flatMap _

theorem unbroken_prefix_appended (fd : Int) (events : List HistoryEvent) :
    unbroken fd events <+: (appendedLines fd events).flatMap Server.withCrlf :=
  ((List.takeWhile_prefix _).filterMap _).flatMap _

/-- Later events only lengthen the unbroken part. -/
theorem unbroken_prefix_append (fd : Int) (first second : List HistoryEvent) :
    unbroken fd first <+: unbroken fd (first ++ second) := by
  have longer : beforeDrop fd first <+: beforeDrop fd (first ++ second) := by
    simp only [beforeDrop]
    rw [List.takeWhile_append]
    split
    next all =>
      rw [(List.takeWhile_prefix _).eq_of_length all]
      exact List.prefix_append _ _
    · exact List.prefix_refl _
  exact (longer.filterMap _).flatMap _

namespace Server

variable {server : Server} {fd : Int} {client : Client}

/-! ## What is sent in a step -/

theorem sentBytes_of_queued {events : List HistoryEvent}
    (queued : ∀ event ∈ events, ∃ other message appended,
      event = HistoryEvent.queued other message appended) (fd : Int) :
    sentBytes fd events = [] := by
  apply List.flatMap_eq_nil_iff.mpr
  intro event listed
  rcases queued event listed with ⟨other, message, appended, rfl⟩
  rfl

/-- Only `flushSendBuffer` sends. -/
theorem sentBytes_advance {step : ServerStep} {events : List HistoryEvent}
    (ready : server.ready step = true)
    (history : (server.advance step).history = server.history ++ events) (fd : Int) :
    sentBytes fd events = [] ∨ ∃ count client, step = .flush fd (some count) ∧
      server.findClientByFd fd = some client ∧
      events = [.sent fd (client.sendBuffer.take count)] := by
  have silent : (server.advance step).history = server.history → sentBytes fd events = [] := by
    intro same
    have empty : events = [] := by simpa [history] using same
    rw [empty]
    rfl
  cases step with
  | accept other peerAddress =>
      have accepted := (acceptClient_events ready).history
      rw [show server.acceptClient (some (other, peerAddress)) =
        server.advance (.accept other peerAddress) from rfl, history,
        List.append_cancel_left_eq] at accepted
      rw [accepted]
      exact Or.inl rfl
  | receive other data => exact Or.inl (silent rfl)
  | consume other length => exact Or.inl (silent rfl)
  | reserve other => exact Or.inl (silent rfl)
  | takeReservations => exact Or.inl (silent rfl)
  | command other message =>
      left
      rcases (dispatchCommand_kept (server.record (.dispatched other
        (server.pendingDisconnects.contains other))) other message).history with
        ⟨added, grown, queued⟩
      have same : server.history ++ events = server.history ++
          ([.dispatched other (server.pendingDisconnects.contains other)] ++ added) := by
        rw [← history, ← List.append_assoc]
        exact grown
      rw [List.append_cancel_left_eq] at same
      rw [same, sentBytes_append, sentBytes_of_queued queued]
      rfl
  | refuse other error =>
      left
      rcases history_queueToClient server other error.text with same | ⟨appended, grown⟩
      · exact silent same
      · rw [show server.queueToClient other error.text =
          server.advance (.refuse other error) from rfl, history,
          List.append_cancel_left_eq] at grown
        rw [grown]
        rfl
  | flush other sent =>
      cases found : server.findClientByFd other with
      | none =>
          left
          apply silent
          simp only [advance, flushSendBuffer, found]
      | some client =>
          have polled : ∀ changed : Server, (changed.updatePollEvents other).history =
              changed.history := by
            intro changed
            simp only [updatePollEvents]
            split
            · rfl
            · rfl
          cases empty : client.sendBuffer.isEmpty with
          | true =>
              left
              apply silent
              simp only [advance, flushSendBuffer, found, empty, if_true, polled]
          | false =>
              cases sent with
              | none =>
                  left
                  apply silent
                  simp only [advance, flushSendBuffer, found, empty, Bool.false_eq_true, if_false]
                  rfl
              | some count =>
                  have grown : (server.advance (.flush other (some count))).history =
                      server.history ++ [.sent other (client.sendBuffer.take count)] := by
                    simp only [advance, flushSendBuffer, found, empty, Bool.false_eq_true,
                      if_false, polled]
                    rfl
                  rw [history, List.append_cancel_left_eq] at grown
                  by_cases same : other = fd
                  · subst same
                    exact Or.inr ⟨count, client, rfl, found, grown⟩
                  · left
                    simp [grown, sentBytes, HistoryEvent.sentTo, same]
  | disconnect other reason =>
      left
      cases found : server.findClientByFd other with
      | none =>
          apply silent
          simp only [advance, disconnectClient_of_missing found]
      | some client =>
          rcases posts_disconnectClient found reason with ⟨announced, posts, same, _⟩
          rw [show server.disconnectClient other reason =
            server.advance (.disconnect other reason) from rfl, history, posts.history,
            List.append_cancel_left_eq] at same
          rw [same]
          apply sentBytes_of_queued
          intro event listed
          rcases Mail.mem_entries _ listed with ⟨posting, _, appended, rfl⟩
          exact ⟨posting.fd, posting.message, appended, rfl⟩

/-! ## The stream along a run -/

/-- A `send` takes no byte of a message that was queued behind a dropped one. -/
def SendsUnbroken (server : Server) : ServerStep → Prop
  | .flush fd (some count) => ∀ client, server.findClientByFd fd = some client →
      (sentBytes fd (sinceAccepted fd server.history)).length +
          min count client.sendBuffer.length ≤
        (unbroken fd (sinceAccepted fd server.history)).length
  | _ => True

/-- The stream of one descriptor since it was accepted. -/
structure StreamKept (server : Server) (fd : Int) : Prop where
  waiting (client : Client) : server.findClientByFd fd = some client →
    sentBytes fd (sinceAccepted fd server.history) ++ client.sendBuffer =
      (appendedLines fd (sinceAccepted fd server.history)).flatMap withCrlf
  sent : sentBytes fd (sinceAccepted fd server.history) <+:
    (appendedLines fd (sinceAccepted fd server.history)).flatMap withCrlf
  short : (sentBytes fd (sinceAccepted fd server.history)).length ≤
    (unbroken fd (sinceAccepted fd server.history)).length

theorem StreamKept.of_nothing (nothing : sinceAccepted fd server.history = [])
    (empty : ∀ client, server.findClientByFd fd = some client → client.sendBuffer = []) :
    server.StreamKept fd := by
  constructor
  case waiting =>
    intro client found
    rw [nothing, empty client found]
    rfl
  case sent =>
    rw [nothing]
    exact List.nil_prefix
  case short =>
    rw [nothing]
    exact Nat.zero_le _

theorem StreamKept.advance {step : ServerStep} {events : List HistoryEvent}
    (kept : server.StreamKept fd) (ready : server.ready step = true)
    (stepEvents : StepEvents server step (server.advance step) events)
    (allowed : server.SendsUnbroken step) : (server.advance step).StreamKept fd := by
  by_cases entering : .accepted fd ∈ events
  · have only := (stepEvents.accepted fd entering).2
    have since : sinceAccepted fd (server.advance step).history = [] := by
      rw [stepEvents.history, only]
      exact sinceAccepted_accepted fd _
    apply StreamKept.of_nothing since
    intro next foundNext
    rcases (stepEvents.accepted fd entering).1 with ⟨peerAddress, rfl⟩
    have missing := (findClientByFd_of_core server fd).mp (core_clients_of_ready ready)
    exact (stepEvents.entered fd next missing foundNext).1
  · have since : sinceAccepted fd (server.advance step).history =
        sinceAccepted fd server.history ++ events := by
      rw [stepEvents.history]
      exact sinceAccepted_append _ entering
    have waiting : ∀ next, (server.advance step).findClientByFd fd = some next →
        sentBytes fd (sinceAccepted fd (server.advance step).history) ++ next.sendBuffer =
          (appendedLines fd (sinceAccepted fd (server.advance step).history)).flatMap
            withCrlf := by
      intro next foundNext
      cases found : server.findClientByFd fd with
      | none => exact absurd (stepEvents.entered fd next found foundNext).2 entering
      | some client =>
          rw [since, sentBytes_append, appendedLines_append, List.flatMap_append,
            List.append_assoc, stepEvents.buffers fd client next found foundNext,
            ← List.append_assoc, kept.waiting client found]
    have longer := unbroken_prefix_append fd (sinceAccepted fd server.history) events
    rcases sentBytes_advance ready stepEvents.history fd with silent |
      ⟨count, client, rfl, found, only⟩
    · constructor
      case waiting => exact waiting
      case sent =>
        rw [since, sentBytes_append, silent, List.append_nil, appendedLines_append,
          List.flatMap_append]
        exact kept.sent.trans (List.prefix_append _ _)
      case short =>
        rw [since, sentBytes_append, silent, List.append_nil]
        exact kept.short.trans longer.length_le
    · have live : ((server.advance (.flush fd (some count))).findClientByFd fd).isSome = true := by
        have same := (flushSendBuffer_sameTables server fd (some count)).live fd
        rw [found] at same
        exact same
      rcases Option.isSome_iff_exists.mp live with ⟨next, foundNext⟩
      constructor
      case waiting => exact waiting
      case sent => exact ⟨next.sendBuffer, waiting next foundNext⟩
      case short =>
        have bound := allowed client found
        have taken : (sentBytes fd events).length = min count client.sendBuffer.length := by
          simp [only, sentBytes, HistoryEvent.sentTo]
        rw [since, sentBytes_append, List.length_append, taken]
        exact bound.trans longer.length_le

theorem streamKept_of_reaches (reached : stepSystem.Reaches SendsUnbroken server) (fd : Int) :
    server.StreamKept fd := by
  refine reached.invariant (fun server => server.StreamKept fd) ?_ ?_
  · rintro _ ⟨password, serverStartTime, listenFd, rfl⟩
    apply StreamKept.of_nothing
    · rfl
    · intro client found
      simp [fresh, findClientByFd] at found
  · rintro before step _ reached kept allowed ⟨ready, rfl⟩
    rcases advance_events (step_reachable_consistent reached) ready with ⟨events, stepEvents⟩
    exact kept.advance ready stepEvents allowed

instance (server : Server) : ∀ step, Decidable (server.SendsUnbroken step)
  | .flush fd (some _) =>
      inferInstanceAs (Decidable (∀ client ∈ server.findClientByFd fd, _))
  | .flush _ none | .accept _ _ | .receive _ _ | .consume _ _ | .command _ _ | .refuse _ _
  | .reserve _ | .takeReservations | .disconnect _ _ => inferInstanceAs (Decidable True)

/-- A client enters and reads its welcome in two pieces. -/
def readInPieces : List ServerStep :=
  enterSteps 5 (ascii "bob") (ascii "#room") ++ [.flush 5 (some 10), .flush 5 (some 4096)]

theorem queuedBytes_pings (fd : Int) (line : Bytes) (count : Nat) :
    queuedBytes fd (List.replicate count
      [HistoryEvent.dispatched fd false, .queued fd line true]).flatten =
      (List.replicate count (withCrlf line)).flatten := by
  induction count with
  | zero => rfl
  | succ count ih =>
      rw [List.replicate_succ, List.flatten_cons, queuedBytes_append, ih, List.replicate_succ,
        List.flatten_cons]
      simp [queuedBytes, queuedLines, List.filterMap_cons, HistoryEvent.queuedTo]

theorem mem_pings {fd : Int} {line : Bytes} {count : Nat} {event : HistoryEvent}
    (listed : event ∈ (List.replicate count
      [HistoryEvent.dispatched fd false, .queued fd line true]).flatten) :
    event = .dispatched fd false ∨ event = .queued fd line true := by
  rcases List.mem_flatten.mp listed with ⟨events, replicated, inside⟩
  rw [List.eq_of_mem_replicate replicated] at inside
  simpa using inside

theorem sentBytes_pings (fd : Int) (line : Bytes) (count : Nat) :
    sentBytes fd (List.replicate count
      [HistoryEvent.dispatched fd false, .queued fd line true]).flatten = [] := by
  apply List.flatMap_eq_nil_iff.mpr
  intro event listed
  rcases mem_pings listed with rfl | rfl
  · rfl
  · rfl

theorem not_accepted_pings (fd : Int) (line : Bytes) (count : Nat) :
    HistoryEvent.accepted fd ∉ (List.replicate count
      [HistoryEvent.dispatched fd false, .queued fd line true]).flatten := by
  intro listed
  rcases mem_pings listed with same | same
  · simp at same
  · simp at same

theorem queueToClient_of_overflow (found : server.findClientByFd fd = some client)
    {message : Bytes} (full : overflows client message = true) :
    server.queueToClient fd message =
      (server.record (.queued fd message false)).scheduleDisconnect fd := by
  simp only [queueToClient, found]
  rw [if_pos (by simpa [overflows] using full)]

/-- What a POLLOUT event alone does when all of the send buffer can be sent. -/
theorem history_handleEvent_sent (found : server.findClientByFd fd = some client)
    (waiting : client.sendBuffer ≠ []) (other : fd ≠ server.listenFd) {count : Nat}
    (all : client.sendBuffer.length ≤ count) :
    (server.handleEvent { fd := fd, revents := { pollOut := true }, sent := some count }).history =
      server.history ++ [.sent fd client.sendBuffer] := by
  have flushed : (server.flushSendBuffer fd (some count)).history =
      server.history ++ [.sent fd client.sendBuffer] := by
    have pending : client.sendBuffer.isEmpty = false := by simpa using waiting
    simp only [flushSendBuffer, found, pending, Bool.false_eq_true, if_false,
      List.take_of_length_le all, updatePollEvents]
    split
    · rfl
    · rfl
  simp only [handleEvent, handleClientEvent, Revents.isZero, found, other, Bool.or_false,
    Bool.or_true, Bool.not_true, Bool.false_eq_true, if_false, if_true, Bool.false_and]
  split
  · exact flushed
  · exact flushed

def gapText : Bytes := List.replicate 26 (byte 'x')

def gapLine : Bytes := ascii "PRIVMSG #room,bob :" ++ gapText

/-- The two copies that the second member is to get: 66 and 64 bytes. -/
def roomCopy : Bytes := ascii ":alice!alice@127.0.0.1 PRIVMSG #room :" ++ gapText
def directCopy : Bytes := ascii ":alice!alice@127.0.0.1 PRIVMSG bob :" ++ gapText

/-- The send buffer of the second member has 64 bytes left when the first one writes to the
channel and to the second member; then the second member reads. -/
def gapRun : List ServerAction :=
  connectBoth ++ lineRounds 5 pingLine 16383 ++
    [ .poll { fd := 4, revents := { pollIn := true }, received := some (gapLine ++ crlf) },
      .poll { fd := 5, revents := { pollOut := true }, sent := some 1048576 } ]

theorem connected_room : ∃ alice bob room,
    connected.findClientByFd 4 = some alice ∧ connected.findClientByFd 5 = some bob ∧
    connected.findChannel (ascii "#room") = some room ∧
    connected.nickToFd[IrcUtil.ircCaseFold (ascii "bob")]? = some 5 ∧
    alice.receiveBuffer = [] ∧ alice.registered = true ∧
    Reply.clientPrefix alice = ascii "alice!alice@127.0.0.1" ∧ bob.nickname = ascii "bob" ∧
    bob.fd = 5 ∧
    room.name = ascii "#room" ∧ room.members.toList = [4, 5] := by
  have facts : ((connected.findClientByFd 4).map fun alice =>
        (alice.receiveBuffer, alice.registered, Reply.clientPrefix alice)) =
          some ([], true, ascii "alice!alice@127.0.0.1") ∧
      ((connected.findClientByFd 5).map fun bob => (bob.nickname, bob.fd)) =
        some (ascii "bob", 5) ∧
      ((connected.findChannel (ascii "#room")).map fun room =>
        (room.name, room.members.toList)) = some (ascii "#room", [4, 5]) ∧
      connected.nickToFd[IrcUtil.ircCaseFold (ascii "bob")]? = some 5 := by
    decide +kernel
  rcases facts with ⟨first, second, third, index⟩
  rcases Option.map_eq_some_iff.mp first with ⟨alice, foundAlice, ofAlice⟩
  rcases Option.map_eq_some_iff.mp second with ⟨bob, foundBob, ofBob⟩
  rcases Option.map_eq_some_iff.mp third with ⟨room, foundRoom, ofRoom⟩
  simp only [Prod.mk.injEq] at ofAlice ofBob ofRoom
  exact ⟨alice, bob, room, foundAlice, foundBob, foundRoom, index, ofAlice.1, ofAlice.2.1,
    ofAlice.2.2, ofBob.1, ofBob.2, ofRoom.1, ofRoom.2⟩

/-- In a state that knows the two members like `connected`, the line queues both copies, the
first of them in vain. -/
theorem dispatch_gapLine {alice filled : Client}
    (core : server.core = connected.core) (foundAlice : server.findClientByFd 4 = some alice)
    (sameAlice : connected.findClientByFd 4 = some alice)
    (found : server.findClientByFd 5 = some filled)
    (level : filled.sendBuffer.length = 1048512) :
    ∃ after, server.dispatchCommand 4
        { command := ascii "PRIVMSG", params := [ascii "#room,bob", gapText] } = after ∧
      after.findClientByFd 5 = some (filled.appendSendBuffer (withCrlf directCopy)) ∧
      after.history =
        server.history ++ [.queued 5 roomCopy false, .queued 5 directCopy true] := by
  rcases connected_room with ⟨member, bob, room, foundMember, foundBob, foundRoom, index, _,
    registered, sender, nickname, own, roomName, members⟩
  rw [sameAlice, Option.some.injEq] at foundMember
  subst foundMember
  have command : server.dispatchCommand 4
      { command := ascii "PRIVMSG", params := [ascii "#room,bob", gapText] } =
      (server.privmsgTarget 4 gapText (ascii "#room")).privmsgTarget 4 gapText
        (ascii "bob") := by
    have entry : commandTable.find? (·.name == ascii "PRIVMSG") =
        some ⟨ascii "PRIVMSG", handlePrivmsg, true, false⟩ := rfl
    have targets : IrcUtil.splitCommaList (ascii "#room,bob") = [ascii "#room", ascii "bob"] := by
      decide
    simp only [dispatchCommand, foundAlice, entry, registered, Bool.not_true, Bool.false_and,
      Bool.and_false, Bool.false_eq_true, if_false, handlePrivmsg, targets]
    rfl
  have toRoom : server.privmsgTarget 4 gapText (ascii "#room") =
      (server.record (.queued 5 roomCopy false)).scheduleDisconnect 5 := by
    have copy : Reply.command (Reply.clientPrefix alice) (ascii "PRIVMSG")
        (room.name ++ ascii " :" ++ gapText) = roomCopy := by
      rw [sender, roomName]
      decide +kernel
    have inside : room.hasMember 4 = true := by
      simp [Channel.hasMember, ← ExtTreeSet.mem_toList, members]
    have lookup := (findChannel_eq_of_core_eq core (ascii "#room")).trans foundRoom
    have full : overflows filled roomCopy = true := by
      simp only [overflows, level]
      decide +kernel
    simp only [privmsgTarget, foundAlice, lookup, inside, copy, Bool.not_true,
      Bool.false_eq_true, if_false, broadcastToChannel, members]
    exact queueToClient_of_overflow found full
  generalize dropped : (server.record (.queued 5 roomCopy false)).scheduleDisconnect 5 = between
    at toRoom
  have foundBetween : between.findClientByFd 5 = some filled := by
    rw [← dropped, findClientByFd_scheduleDisconnect, findClientByFd_record, found]
  have toBob : between.privmsgTarget 4 gapText (ascii "bob") =
      between.queueToClient 5 directCopy := by
    have foundSender : between.findClientByFd 4 = some alice := by
      rw [← dropped, findClientByFd_scheduleDisconnect, findClientByFd_record, foundAlice]
    rcases find_eq_of_core_eq 5 core found with ⟨other, foundOther, same⟩
    rw [foundBob, Option.some.injEq] at foundOther
    subst foundOther
    have nick : filled.nickname = ascii "bob" :=
      (congrArg Client.nickname same).symm.trans nickname
    have fd : filled.fd = 5 := (congrArg Client.fd same).symm.trans own
    have holder : between.findClientByNickname (ascii "bob") = some filled := by
      have listed : between.nickToFd[IrcUtil.ircCaseFold (ascii "bob")]? = some 5 := by
        rw [← dropped]
        exact (congrFun (congrArg Core.nicks core) _).trans index
      simp only [findClientByNickname, listed, foundBetween]
    have copy : Reply.command (Reply.clientPrefix alice) (ascii "PRIVMSG")
        (ascii "bob" ++ ascii " :" ++ gapText) = directCopy := by
      rw [sender]
      decide +kernel
    simp only [privmsgTarget, foundSender, holder, nick, fd, copy]
    rfl
  have room : overflows filled directCopy = false := by
    simp only [overflows, level]
    decide +kernel
  refine ⟨_, rfl, ?_, ?_⟩
  · rw [command, toRoom, toBob, findClientByFd_queueToClient, if_pos rfl, foundBetween,
      Option.map_some, deliver, room]
    rfl
  · rw [command, toRoom, toBob, history_queueToClient_of_room _ _ foundBetween room, ← dropped]
    simp [scheduleDisconnect, record]

theorem ofEventLoop_lineRounds (fd : Int) (line : Bytes) (count : Nat) :
    ∀ action ∈ lineRounds fd line count, action.ofEventLoop = true := by
  induction count with
  | zero => simp [lineRounds]
  | succ count ih =>
      intro action listed
      rw [lineRounds, List.mem_cons, List.mem_cons] at listed
      rcases listed with rfl | rfl | later
      · rfl
      · rfl
      · exact ih action later

end Server

end IrcPlatform.Irc
