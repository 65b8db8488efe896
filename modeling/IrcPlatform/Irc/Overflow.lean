import IrcPlatform.Irc.EventLoop
import IrcPlatform.Irc.Mail

/-!
# Send buffers that overflow

A client that sends PING without reading the answers fills its own send buffer
to any level the replies add up to. From there, the last QUIT line it should get
reserves it while the reservations are processed. This is how a reservation
outlives its connection, and how a command is dispatched for a reserved
descriptor.
-/

namespace IrcPlatform.Irc.Server

open Std

variable {server : Server} {fd : Int} {client : Client}

/-! ## A client that does not read -/

/-- Only the buffers of one client differ. -/
structure BuffersGrow (fd : Int) (before after : Server) : Prop where
  core : after.core = before.core
  pending : after.pendingDisconnects = before.pendingDisconnects
  listenFd : after.listenFd = before.listenFd
  serverName : after.serverName = before.serverName
  others (other : Int) : other ≠ fd → after.findClientByFd other = before.findClientByFd other

theorem BuffersGrow.refl (fd : Int) (server : Server) : BuffersGrow fd server server :=
  ⟨rfl, rfl, rfl, rfl, fun _ _ => rfl⟩

theorem BuffersGrow.trans {before between after : Server}
    (first : BuffersGrow fd before between) (second : BuffersGrow fd between after) :
    BuffersGrow fd before after :=
  ⟨second.core.trans first.core, second.pending.trans first.pending,
    second.listenFd.trans first.listenFd, second.serverName.trans first.serverName,
    fun other distinct => (second.others other distinct).trans (first.others other distinct)⟩

theorem queueToClient_buffersGrow (found : server.findClientByFd fd = some client)
    {message : Bytes} (room : overflows client message = false) :
    BuffersGrow fd server (server.queueToClient fd message) := by
  have serverName : (server.queueToClient fd message).serverName = server.serverName := by
    unfold queueToClient updatePollEvents
    rw [found]
    simp only
    split
    · rfl
    · split
      · rfl
      · rfl
  refine ⟨core_queueToClient server fd message, ?_, listenFd_queueToClient server fd message,
    serverName, ?_⟩
  · apply ExtTreeSet.ext_mem
    intro other
    rw [mem_pendingDisconnects_queueToClient, found]
    simp [room]
  · intro other distinct
    rw [findClientByFd_queueToClient, if_neg distinct]

theorem receiveLoop_idle (found : server.findClientByFd fd = some client)
    (idle : client.receiveBuffer = []) (fuel : Nat) : receiveLoop fd fuel server = server := by
  cases fuel with
  | zero => rfl
  | succ fuel =>
      unfold receiveLoop
      rw [found]
      simp only [idle]
      rfl

/-- The answer to a PING with a token. -/
def pong (server : Server) (token : Bytes) : Bytes :=
  Reply.command (Reply.serverPrefix server.serverName) (ascii "PONG")
    (server.serverName ++ ascii " :" ++ token)

theorem dispatchCommand_ping (found : server.findClientByFd fd = some client)
    {linePrefix token : Bytes} (named : token ≠ []) :
    server.dispatchCommand fd
      { linePrefix := linePrefix, command := ascii "PING", params := [token] } =
      server.queueToClient fd (server.pong token) := by
  have entry : commandTable.find? (·.name == ascii "PING") =
      some ⟨ascii "PING", handlePing, false, false⟩ := rfl
  unfold dispatchCommand
  rw [found]
  simp only [entry, Bool.and_false, Bool.false_eq_true, if_false]
  unfold handlePing
  rw [found]
  simp [named, pong]

/-- A command that arrives alone, in one piece, at an empty receive buffer. -/
theorem handleEvent_line (found : server.findClientByFd fd = some client)
    (idle : client.receiveBuffer = []) (other : fd ≠ server.listenFd) {line : Bytes}
    {message : Message}
    (complete : BufferUtil.findLine (line ++ crlf) = .extracted line (line ++ crlf).length)
    (parsed : Parser.parse line = some message)
    (short : (line ++ crlf).length ≤ maxReceiveBuffer) :
    server.handleEvent { fd := fd, revents := { pollIn := true }, received := some (line ++ crlf) }
      = server.invokeDispatch fd message := by
  generalize arrival : line ++ crlf = data at complete short ⊢
  generalize appending : server.updateClient fd (·.appendReceiveBuffer data) = appended
  have foundAppended : appended.findClientByFd fd = some (client.appendReceiveBuffer data) := by
    rw [← appending, findClientByFd_updateClient_eq, if_pos rfl, found, Option.map_some]
  have emptied : appended.updateClient fd (·.eraseReceivePrefix data.length) = server := by
    rw [← appending, updateClient_updateClient]
    apply updateClient_of_fixed
    intro stored foundStored
    rw [found, Option.some.injEq] at foundStored
    subst foundStored
    simp only [Client.appendReceiveBuffer, Client.eraseReceivePrefix]
    rw [idle, List.nil_append, List.drop_length, ← idle]
  have looped : receiveLoop fd (data.length + 1) appended =
      server.invokeDispatch fd message := by
    have buffer : (client.appendReceiveBuffer data).receiveBuffer = data := by
      simp [Client.appendReceiveBuffer, idle]
    simp only [receiveLoop, foundAppended, buffer, complete, emptied, processLine, parsed]
    have kept := dispatchCommand_kept (server.record (.dispatched fd
      (server.pendingDisconnects.contains fd))) fd message
    rcases Option.isSome_iff_exists.mp ((kept.live fd).trans (by simp [found])) with
      ⟨next, foundNext⟩
    have idleNext : next.receiveBuffer = [] := by
      have same := kept.receiveBuffer fd
      rw [foundNext, findClientByFd_record, found, Option.map_some, Option.map_some,
        Option.some.injEq] at same
      exact same.trans idle
    split
    · rfl
    · exact receiveLoop_idle foundNext idleNext _
  have received : server.receiveFromClient fd (some data) =
      server.invokeDispatch fd message := by
    simp only [receiveFromClient, found, idle, List.length_nil, Nat.zero_add]
    rw [if_neg (by omega), appending, looped]
  simp only [handleEvent, handleClientEvent, Revents.isZero, found, received, other,
    Bool.or_false, Bool.not_true, Bool.false_eq_true, if_false, if_true]
  split
  · rfl
  · split
    · rfl
    · rfl

/-- One PING line that arrives alone and whose answer fits. -/
theorem handleEvent_ping (found : server.findClientByFd fd = some client)
    (idle : client.receiveBuffer = []) (other : fd ≠ server.listenFd) {line : Bytes}
    {linePrefix token : Bytes} (named : token ≠ [])
    (complete : BufferUtil.findLine (line ++ crlf) = .extracted line (line ++ crlf).length)
    (parsed : Parser.parse line =
      some { linePrefix := linePrefix, command := ascii "PING", params := [token] })
    (short : (line ++ crlf).length ≤ maxReceiveBuffer)
    (room : overflows client (server.pong token) = false) {after : Server}
    (handled : server.handleEvent
      { fd := fd, revents := { pollIn := true }, received := some (line ++ crlf) } = after) :
    BuffersGrow fd server after ∧
      after.findClientByFd fd = some (client.appendSendBuffer (withCrlf (server.pong token))) ∧
      after.history = server.history ++ [.dispatched fd (server.pendingDisconnects.contains fd),
        .queued fd (server.pong token) true] := by
  rw [handleEvent_line found idle other complete parsed short] at handled
  generalize recording : server.record (.dispatched fd
    (server.pendingDisconnects.contains fd)) = recorded
  have foundRecorded : recorded.findClientByFd fd = some client := by
    rw [← recording, findClientByFd_record, found]
  have sameAnswer : recorded.pong token = server.pong token := by
    rw [← recording]
    rfl
  have answered : after = recorded.queueToClient fd (server.pong token) := by
    rw [← handled, invokeDispatch, recording, dispatchCommand_ping foundRecorded named,
      sameAnswer]
  have grown : BuffersGrow fd server recorded := by
    rw [← recording]
    exact ⟨rfl, rfl, rfl, rfl, fun _ _ => rfl⟩
  rw [answered]
  refine ⟨grown.trans (queueToClient_buffersGrow foundRecorded room), ?_, ?_⟩
  · rw [findClientByFd_queueToClient, if_pos rfl, foundRecorded, Option.map_some, deliver, room]
    rfl
  · rw [history_queueToClient_of_room recorded fd foundRecorded room, ← recording]
    simp [record]

theorem performAll_poll (event : PollResult) (actions : List ServerAction) (server : Server) :
    serverMachine.performAll (.poll event :: actions) server =
      serverMachine.performAll actions (server.handleEvent event) :=
  rfl

theorem performAll_processPending {order : List Int}
    (listed : order.isPerm server.pendingDisconnects.toList = true) (actions : List ServerAction) :
    serverMachine.performAll (.processPending order :: actions) server =
      serverMachine.performAll actions (server.processPendingInOrder order) := by
  have ready : serverMachine.enabled server (.processPending order) = true := listed
  rw [Machine.performAll, if_pos ready]
  rfl

/-- Rounds of the event loop that each read one line of one client. -/
def lineRounds (fd : Int) (line : Bytes) : Nat → List ServerAction
  | 0 => []
  | count + 1 =>
      .poll { fd := fd, revents := { pollIn := true }, received := some (line ++ crlf) } ::
        .processPending [] :: lineRounds fd line count

/-- PING by PING, the send buffer of the sender grows up to its limit. -/
theorem performAll_lineRounds_ping (count : Nat) (found : server.findClientByFd fd = some client)
    (idle : client.receiveBuffer = []) (other : fd ≠ server.listenFd)
    (nobody : server.pendingDisconnects = ∅) {line linePrefix token : Bytes} (named : token ≠ [])
    (complete : BufferUtil.findLine (line ++ crlf) = .extracted line (line ++ crlf).length)
    (parsed : Parser.parse line =
      some { linePrefix := linePrefix, command := ascii "PING", params := [token] })
    (short : (line ++ crlf).length ≤ maxReceiveBuffer)
    (room : client.sendBuffer.length + count * (withCrlf (server.pong token)).length ≤
      maxSendBuffer) :
    ∃ after filled, serverMachine.performAll (lineRounds fd line count) server = some after ∧
      BuffersGrow fd server after ∧ after.findClientByFd fd = some filled ∧
      filled.receiveBuffer = [] ∧ filled.sendBuffer =
        client.sendBuffer ++ (List.replicate count (withCrlf (server.pong token))).flatten ∧
      after.history = server.history ++ (List.replicate count
        [.dispatched fd false, .queued fd (server.pong token) true]).flatten := by
  induction count generalizing server client with
  | zero => exact ⟨server, client, rfl, BuffersGrow.refl fd server, found, idle, by simp, by simp⟩
  | succ count ih =>
      have fits : overflows client (server.pong token) = false := by
        rw [Nat.succ_mul] at room
        simp only [overflows, decide_eq_false_iff_not]
        omega
      generalize reading : server.handleEvent
        { fd := fd, revents := { pollIn := true }, received := some (line ++ crlf) } = next
      rcases handleEvent_ping found idle other named complete parsed short fits reading with
        ⟨grown, foundNext, history⟩
      generalize processing : next.processPendingInOrder [] = processed
      have nobodyNext : next.pendingDisconnects = ∅ := grown.pending.trans nobody
      have same : processed = next := by
        rw [← processing, processPendingInOrder, disconnectAll, ← nobodyNext]
      have sameAnswer : next.pong token = server.pong token := by
        unfold pong
        rw [grown.serverName]
      rw [← sameAnswer, Nat.succ_mul] at room
      have roomNext : (client.appendSendBuffer (withCrlf (server.pong token))).sendBuffer.length +
          count * (withCrlf (next.pong token)).length ≤ maxSendBuffer := by
        rw [← sameAnswer]
        simp only [Client.appendSendBuffer, List.length_append]
        omega
      rcases ih foundNext idle (grown.listenFd ▸ other) nobodyNext roomNext with
        ⟨after, filled, performed, grownAfter, foundAfter, idleAfter, buffer, historyAfter⟩
      refine ⟨after, filled, ?_, grown.trans grownAfter, foundAfter, idleAfter, ?_, ?_⟩
      · have listed : ([] : List Int).isPerm next.pendingDisconnects.toList = true := by
          rw [nobodyNext]
          rfl
        rw [lineRounds, performAll_poll, reading,
          performAll_processPending listed, processing, same]
        exact performed
      · rw [buffer, sameAnswer, Client.appendSendBuffer, List.replicate_succ, List.flatten_cons,
          List.append_assoc]
      · have unreserved : server.pendingDisconnects.contains fd = false := by
          rw [nobody]
          rfl
        rw [historyAfter, history, sameAnswer, unreserved, List.replicate_succ,
          List.flatten_cons, List.append_assoc]

theorem handleEvent_hangUp (found : server.findClientByFd fd = some client)
    (other : fd ≠ server.listenFd) :
    server.handleEvent { fd := fd, revents := { pollHup := true } } =
      server.scheduleDisconnect fd := by
  unfold handleEvent handleClientEvent
  simp [Revents.isZero, found, other]

theorem two_le_length_withCrlf (message : Bytes) : 2 ≤ (withCrlf message).length := by
  unfold withCrlf
  split
  next terminated =>
    simp only [Bool.and_eq_true, decide_eq_true_eq] at terminated
    exact terminated.1
  · simp [crlf]

/-! ## Two members, one of which does not read -/

def registration (nickname : Bytes) : Bytes :=
  ascii "PASS secret" ++ crlf ++ ascii "NICK " ++ nickname ++ crlf ++
    ascii "USER " ++ nickname ++ ascii " 0 * :" ++ nickname ++ crlf ++ ascii "JOIN #room" ++ crlf

/-- A round in which a client connects, registers, joins and reads all replies. -/
def connect (fd : Int) (nickname : Bytes) : List ServerAction :=
  [ .poll { fd := 3, revents := { pollIn := true }, accepted := some (fd, ascii "127.0.0.1") },
    .poll { fd := fd, revents := { pollIn := true }, received := some (registration nickname) },
    .poll { fd := fd, revents := { pollOut := true }, sent := some 4096 },
    .processPending [] ]

def start : Server := fresh (ascii "secret") (ascii "today") 3

def connectBoth : List ServerAction := connect 4 (ascii "alice") ++ connect 5 (ascii "bob")

def connected : Server := serverMachine.performOr start connectBoth

theorem performAll_connectBoth : serverMachine.performAll connectBoth start = some connected :=
  Machine.performAll_eq_performOr (by decide +kernel)

theorem connected_facts : connected.listenFd = 3 ∧ connected.serverName = ascii "ircserv.local" ∧
    connected.pendingDisconnects.toList = [] ∧ connected.sharesChannel 4 5 = true ∧
    ((connected.findClientByFd 5).map fun client =>
      (client.receiveBuffer, client.sendBuffer)) = some ([], []) := by
  decide +kernel

def pingLine : Bytes := ascii "PING " ++ List.replicate 27 (byte 'x')

/-- 16384 answers of 64 bytes each fill the send buffer of the second member. -/
def fillBuffer : List ServerAction := connectBoth ++ lineRounds 5 pingLine 16384

/-- The answer to the line, as the connected server gives it. -/
def pongLine : Bytes := connected.pong (List.replicate 27 (byte 'x'))

theorem length_pongLine : (withCrlf pongLine).length = 64 := by
  rw [pongLine, pong, connected_facts.2.1]
  decide +kernel

/-- The second member sends some such lines and reads no answer. -/
theorem performAll_pings {count : Nat} (limit : count ≤ 16384) : ∃ server member filled,
    serverMachine.performAll (connectBoth ++ lineRounds 5 pingLine count) start = some server ∧
    server.core = connected.core ∧ server.listenFd = 3 ∧ server.pendingDisconnects = ∅ ∧
    server.findClientByFd 4 = some member ∧ server.findClientByFd 5 = some filled ∧
    connected.findClientByFd 4 = some member ∧ filled.receiveBuffer = [] ∧
    filled.sendBuffer = (List.replicate count (withCrlf pongLine)).flatten ∧
    server.history = connected.history ++
      (List.replicate count [.dispatched 5 false, .queued 5 pongLine true]).flatten := by
  rcases connected_facts with ⟨listenFd, _, pending, shares, buffers⟩
  have nobody : connected.pendingDisconnects = ∅ := by
    apply ExtTreeSet.ext_mem
    intro other
    rw [← ExtTreeSet.mem_toList, pending]
    simp
  cases found : connected.findClientByFd 5 with
  | none => simp [found] at buffers
  | some client =>
      simp only [found, Option.map_some, Option.some.injEq, Prod.mk.injEq] at buffers
      rcases buffers with ⟨idle, empty⟩
      have parsed : Parser.parse pingLine = some
          { linePrefix := [], command := ascii "PING",
            params := [List.replicate 27 (byte 'x')] } := by
        rfl
      have room : client.sendBuffer.length + count * (withCrlf
          (connected.pong (List.replicate 27 (byte 'x')))).length ≤ maxSendBuffer := by
        rw [← pongLine, length_pongLine, empty, maxSendBuffer, List.length_nil]
        omega
      rcases performAll_lineRounds_ping count found idle (by rw [listenFd]; decide) nobody
          (by decide) (by rfl) parsed (by decide +kernel) room with
        ⟨full, filled, performed, grown, foundFull, idleFull, buffer, history⟩
      have exists_member : ∃ member, connected.findClientByFd 4 = some member := by
        cases foundMember : connected.findClientByFd 4 with
        | none => simp [sharesChannel, foundMember] at shares
        | some member => exact ⟨member, rfl⟩
      rcases exists_member with ⟨member, foundMember⟩
      have foundMemberFull : full.findClientByFd 4 = some member :=
        (grown.others 4 (by decide)).trans foundMember
      refine ⟨full, member, filled, ?_, grown.core, grown.listenFd.trans listenFd,
        grown.pending.trans nobody, foundMemberFull, foundFull, foundMember, idleFull, ?_, history⟩
      · rw [Machine.performAll_append, performAll_connectBoth, Option.bind_some, performed]
      · rw [buffer, empty, List.nil_append, pongLine]

theorem performAll_fillBuffer : ∃ full member filled,
    serverMachine.performAll fillBuffer start = some full ∧
    full.core = connected.core ∧ full.listenFd = 3 ∧ full.pendingDisconnects = ∅ ∧
    full.findClientByFd 4 = some member ∧ full.findClientByFd 5 = some filled ∧
    filled.receiveBuffer = [] ∧ filled.sendBuffer.length = maxSendBuffer ∧
    full.sharesChannel 4 5 = true := by
  rcases performAll_pings (Nat.le_refl 16384) with ⟨full, member, filled, performed, core, listenFd,
    nobody, foundMember, foundFull, _, idleFull, buffer, _⟩
  have consistent : connected.core.Consistent :=
    reachable_consistent (Machine.reachable_performOr (reachable_fresh _ _ _) _)
  refine ⟨full, member, filled, performed, core, listenFd, nobody, foundMember, foundFull,
    idleFull, ?_, ?_⟩
  · simp only [buffer, List.length_flatten, List.map_replicate, length_pongLine,
      List.sum_replicate_nat, maxSendBuffer]
  · rw [sharesChannel_iff (core.symm ▸ consistent), core, ← sharesChannel_iff consistent]
    exact connected_facts.2.2.2.1

/-! ## Reservations that outlive their connection -/

theorem handleEvent_reservationsLive (live : server.ReservationsLive) (event : PollResult) :
    (server.handleEvent event).ReservationsLive := by
  intro fd reserved
  have frame := handleEvent_frame permits_true server event fun _ _ => trivial
  apply Option.isSome_iff_exists.mp
  rcases frame.reserved_live fd reserved with earlier | alive
  · exact frame.live fd (Option.isSome_iff_exists.mpr (live fd earlier))
  · exact alive

/-- The reservations are processed while the send buffers have room for the QUIT lines. -/
def RoomAtProcessing (server : Server) : ServerAction → Prop
  | .processPending order => server.RoomForQuits order
  | _ => True

theorem nodup_pendingOrder {order : List Int}
    (listed : order.Perm server.pendingDisconnects.toList) : order.Nodup := by
  have distinct : server.pendingDisconnects.toList.Nodup :=
    server.pendingDisconnects.ordered_toList.imp fun before => by
      intro same
      subst same
      simp at before
  exact listed.nodup_iff.mpr distinct

theorem performAll_reservationsLive {actions : List ServerAction} {final : Server}
    (reached : serverSystem.Reachable server) (live : server.ReservationsLive)
    (loop : ∀ action ∈ actions, action.ofEventLoop = true)
    (performed : serverMachine.performAll actions server = some final)
    (room : serverMachine.EveryStep RoomAtProcessing actions server) : final.ReservationsLive := by
  induction actions generalizing server with
  | nil =>
      rw [Machine.performAll, Option.some.injEq] at performed
      exact performed ▸ live
  | cons action actions ih =>
      rcases room with ⟨here, later⟩
      rw [Machine.performAll] at performed
      split at performed
      next ready =>
        refine ih (reached.next ⟨ready, rfl⟩) ?_
          (fun next listed => loop next (List.mem_cons_of_mem action listed)) performed later
        cases action with
        | accept | dispatch | disconnect =>
            simpa [ServerAction.ofEventLoop] using loop _ List.mem_cons_self
        | poll event => exact handleEvent_reservationsLive live event
        | processPending order =>
            have distinct := nodup_pendingOrder (List.isPerm_iff.mp ready)
            exact (reservationsLive_processPendingInOrder_iff (reachable_consistent reached)
              distinct).mpr here
      · simp at performed

/-- In every reachable state and for every order, the reservations left after processing
are all for live clients exactly when the send buffers have room for the QUIT lines. In a
run of the event loop where this is so at each processing, every reservation is at any
time for a live client. -/
theorem reservations_live_iff_room {server : Server} {order : List Int}
    (reached : serverSystem.Reachable server)
    (listed : order.Perm server.pendingDisconnects.toList) :
    ((server.processPendingInOrder order).ReservationsLive ↔ server.RoomForQuits order) ∧
    ∀ (password serverStartTime : Bytes) (listenFd : Int) (actions : List ServerAction)
      (final : Server), (∀ action ∈ actions, action.ofEventLoop = true) →
      serverMachine.performAll actions (fresh password serverStartTime listenFd) = some final →
      serverMachine.EveryStep RoomAtProcessing actions (fresh password serverStartTime listenFd) →
      final.ReservationsLive := by
  constructor
  · exact reservationsLive_processPendingInOrder_iff (reachable_consistent reached)
      (nodup_pendingOrder listed)
  · intro password serverStartTime listenFd actions final loop performed room
    apply performAll_reservationsLive (reachable_fresh _ _ _) ?_ loop performed room
    intro fd reserved
    simp [fresh] at reserved

theorem roomForQuits_nil (server : Server) : server.RoomForQuits [] := by
  intro earlier fd later client split
  simp at split

/-- Two members that quit together, and the run that connects two members. -/
theorem reservations_live_iff_room_quits :
    (((serverMachine.performOr twoMembers [.dispatch 4 { command := ascii "QUIT" },
        .dispatch 5 { command := ascii "QUIT" }]).processPendingInOrder [5, 4]).ReservationsLive ↔
      (serverMachine.performOr twoMembers [.dispatch 4 { command := ascii "QUIT" },
        .dispatch 5 { command := ascii "QUIT" }]).RoomForQuits [5, 4]) ∧
    connected.ReservationsLive := by
  have both := @reservations_live_iff_room _ [5, 4]
    (Machine.reachable_performOr reachable_twoMembers
      [.dispatch 4 { command := ascii "QUIT" }, .dispatch 5 { command := ascii "QUIT" }])
    (by decide +kernel)
  refine ⟨both.1, both.2 _ _ _ connectBoth _ ?_ performAll_connectBoth ?_⟩
  · decide
  · simp [connectBoth, connect, Machine.EveryStep, RoomAtProcessing, roomForQuits_nil]

/-- Disconnecting the first member reserves the second one, whose buffer is full. -/
theorem disconnectClient_full {member filled : Client}
    (foundFirst : server.findClientByFd 4 = some member)
    (foundSecond : server.findClientByFd 5 = some filled)
    (full : filled.sendBuffer.length = maxSendBuffer) (shares : server.sharesChannel 4 5 = true) :
    ∃ after, server.disconnectClient 4 (server.disconnectReason 4) = after ∧
      after.listenFd = server.listenFd ∧ after.findClientByFd 5 = some filled ∧
      5 ∈ after.pendingDisconnects := by
  have spec := disconnectClient_spec foundFirst
  have overflow : overflows filled (server.quitNotice 4) = true := by
    have terminated := two_le_length_withCrlf (server.quitNotice 4)
    simp only [overflows, decide_eq_true_eq]
    omega
  refine ⟨_, rfl, spec.listenFd, ?_, (spec.reserved 5).mpr (Or.inr ⟨shares, filled, foundSecond,
    overflow⟩)⟩
  rw [spec.others 5 (by decide), if_pos shares, foundSecond, Option.map_some,
    deliver, if_pos overflow]

/-- Both connections break in the scan after the second one stopped reading: the second
client is disconnected and its reservation, made by the QUIT of the first, stays. -/
theorem reservation_outlives_connection : ∃ server,
    serverMachine.performAll (fillBuffer ++
      [ .poll { fd := 4, revents := { pollHup := true } },
        .poll { fd := 5, revents := { pollHup := true } } ]) start = some server ∧
    5 ∈ server.processPendingDisconnects.pendingDisconnects ∧
    server.processPendingDisconnects.clients[(5 : Int)]? = none := by
  obtain ⟨full, member, filled, performed, core, listenFd, nobody, foundMember, found, _, length,
    shares⟩ := performAll_fillBuffer
  have distinct : ∀ fd : Int, fd ≠ 3 → fd ≠ full.listenFd := fun fd other => listenFd.symm ▸ other
  refine ⟨(full.scheduleDisconnect 4).scheduleDisconnect 5, ?_, ?_⟩
  · rw [Machine.performAll_append, performed, Option.bind_some, performAll_poll,
      handleEvent_hangUp foundMember (distinct 4 (by decide)), performAll_poll]
    have hangUp : (full.scheduleDisconnect 4).handleEvent
        { fd := 5, revents := { pollHup := true } } =
        (full.scheduleDisconnect 4).scheduleDisconnect 5 :=
      handleEvent_hangUp found (distinct 5 (by decide))
    rw [hangUp, Machine.performAll]
  · have order : ((full.scheduleDisconnect 4).scheduleDisconnect 5).pendingDisconnects.toList =
        [4, 5] := by
      simp only [scheduleDisconnect, nobody]
      rfl
    rw [processPendingDisconnects, order]
    generalize emptied : ({ (full.scheduleDisconnect 4).scheduleDisconnect 5 with
      pendingDisconnects := ∅ } : Server) = server
    obtain ⟨after, left, _, kept, reserved⟩ := disconnectClient_full
      (emptied ▸ foundMember : server.findClientByFd 4 = some member)
      (emptied ▸ found : server.findClientByFd 5 = some filled) length
      (emptied ▸ shares : server.sharesChannel 4 5 = true)
    have closed := disconnectClient_spec kept
    rw [disconnectAll, left, disconnectAll, disconnectAll]
    exact ⟨(closed.reserved 5).mpr (Or.inl reserved), closed.gone⟩

/-! ## Commands of reserved clients -/

/-- A run of the event loop dispatches no command for a reserved descriptor exactly when
none of its poll entries brings one. -/
theorem eventLoop_noReservedDispatch_iff (password serverStartTime : Bytes) (listenFd : Int)
    {actions : List ServerAction} {final : Server}
    (loop : ∀ action ∈ actions, action.ofEventLoop = true)
    (performed :
      serverMachine.performAll actions (fresh password serverStartTime listenFd) = some final) :
    final.NoReservedDispatch ↔
      serverMachine.EveryStep NoReservedCommand actions
        (fresh password serverStartTime listenFd) := by
  rw [performAll_noReservedDispatch_iff loop performed]
  have initially : (fresh password serverStartTime listenFd).NoReservedDispatch := by
    intro fd
    simp [fresh]
  exact and_iff_right initially

theorem eventLoop_noReservedDispatch_iff_connected :
    connected.NoReservedDispatch ↔ serverMachine.EveryStep NoReservedCommand connectBoth start :=
  eventLoop_noReservedDispatch_iff _ _ _ (by decide) performAll_connectBoth

/-- The QUIT line of the first member reserves the second one, whose next command is
dispatched all the same. -/
theorem reserved_command_dispatched : ∃ server,
    serverMachine.performAll (fillBuffer ++
      [ .poll { fd := 4, revents := { pollHup := true } },
        .processPending [4],
        .poll { fd := 5, revents := { pollIn := true }, received := some (pingLine ++ crlf) } ])
      start = some server ∧
    ¬server.NoReservedDispatch := by
  obtain ⟨full, member, filled, performed, core, listenFd, nobody, foundMember, found, idle, length,
    shares⟩ := performAll_fillBuffer
  have distinct : ∀ fd : Int, fd ≠ 3 → fd ≠ full.listenFd := fun fd other => listenFd.symm ▸ other
  generalize emptied : ({ full.scheduleDisconnect 4 with pendingDisconnects := ∅ } : Server)
    = server
  have listening : server.listenFd = 3 := emptied ▸ listenFd
  obtain ⟨after, left, sameListen, kept, reserved⟩ := disconnectClient_full
    (emptied ▸ foundMember : server.findClientByFd 4 = some member)
    (emptied ▸ found : server.findClientByFd 5 = some filled) length
    (emptied ▸ shares : server.sharesChannel 4 5 = true)
  refine ⟨after.handleEvent
    { fd := 5, revents := { pollIn := true }, received := some (pingLine ++ crlf) }, ?_, ?_⟩
  · have listed : [4].isPerm (full.scheduleDisconnect 4).pendingDisconnects.toList = true := by
      rw [scheduleDisconnect, nobody]
      rfl
    rw [Machine.performAll_append, performed, Option.bind_some, performAll_poll,
      handleEvent_hangUp foundMember (distinct 4 (by decide)), performAll_processPending listed,
      processPendingInOrder, emptied, disconnectAll, left, disconnectAll, performAll_poll,
      Machine.performAll]
  · intro calm
    refine calm 5 (handleEvent_dispatches reserved ?_)
    have holds : holdsCommand (filled.appendReceiveBuffer (pingLine ++ crlf)) = true := by
      unfold holdsCommand Client.appendReceiveBuffer
      simp only [idle]
      decide +kernel
    simp only [bringsCommand, readsCommand, sameListen, listening, kept, holds, idle]
    decide +kernel

end IrcPlatform.Irc.Server
