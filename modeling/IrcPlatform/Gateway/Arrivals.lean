import IrcPlatform.Gateway.Downlink
import IrcPlatform.Irc.PollTable
import IrcPlatform.Irc.Receiving

/-!
# Lines that arrive at the gateway

What the server sends to a connection of the gateway arrives there as the lines that the
server queued to it, whole and one after the other.
-/

namespace IrcPlatform.Gateway

open JsString

/-! ## Cutting the stream -/

/-- The first line of a stream of clean lines is the first of them. -/
theorem splitLine_of_lines {data line rest unread : Bytes} {lines : List Bytes}
    (clean : ∀ line ∈ lines, Irc.CleanText line)
    (stream : data ++ unread = lines.flatMap (· ++ crlf))
    (cut : splitLine data = some (line, rest)) :
    ∃ later, lines = line :: later ∧ rest ++ unread = later.flatMap (· ++ crlf) := by
  rcases Option.map_eq_some_iff.mp cut with ⟨raw, found, same⟩
  rw [Prod.mk.injEq] at same
  rcases same with ⟨rfl, rfl⟩
  rcases Irc.BufferUtil.eq_of_beforeLineFeed found with ⟨shape, unbroken⟩
  rw [shape, List.append_assoc, List.cons_append] at stream
  cases lines with
  | nil => simp at stream
  | cons first later =>
      have outside : (10 : UInt8) ∉ first ++ [13] := by
        rw [List.mem_append, not_or]
        exact ⟨fun listed => (clean first List.mem_cons_self 10 listed).2.1 rfl, by decide⟩
      have joined : (first :: later).flatMap (· ++ crlf) =
          (first ++ [13]) ++ 10 :: later.flatMap (· ++ crlf) := by
        simp [crlf]
      rcases first_occurrence_inj unbroken outside (stream.trans joined) with ⟨rfl, sameRest⟩
      refine ⟨later, ?_, sameRest⟩
      rw [Irc.BufferUtil.dropCarriageReturn]
      simp

/-! ## What the server told a connection -/

/-- In a step of the run the server queued the line to the descriptor that the connection
held. -/
def Told (start : State) (actions : List Action) (id : Nat) (line : Bytes) : Prop :=
  ∃ early action late before fd, actions = early ++ action :: late ∧
    gatewayMachine.performAll early start = some before ∧
    Irc.stepSystem.Reachable before.server ∧ before.heldBy id = some fd ∧
    Irc.Server.QueuedBetween before.server (before.perform action).server fd line

theorem Told.later {start : State} {actions : List Action} {id : Nat} {line : Bytes}
    (told : Told start actions id line) (action : Action) :
    Told start (actions ++ [action]) id line := by
  rcases told with ⟨early, first, late, before, fd, rfl, performed, reached, held, queued⟩
  exact ⟨early, first, late ++ [action], before, fd, by simp, performed, reached, held, queued⟩

/-- The bytes on the way and those in the send buffer are lines that the server told the
connection. -/
structure Stream (start : State) (actions : List Action) (server : Irc.Server) (id : Nat)
    (peer : Peer) (data : Bytes) (lines : List Bytes) (unread : Bytes) : Prop where
  whole : data ++ unread = lines.flatMap (· ++ crlf)
  told : ∀ line ∈ lines, Irc.CleanText line ∧ Told start actions id line
  unaccepted : peer = .unaccepted → lines = []
  buffered (fd : Int) (client : Irc.Client) : peer = .held fd →
    server.findClientByFd fd = some client → unread = client.sendBuffer

/-- What every run keeps from a start with a server that can be reached. -/
structure Wired (start : State) (actions : List Action) (state : State) : Prop where
  reached : Irc.stepSystem.Reachable state.server
  apart : state.Apart
  stream (id : Nat) (peer : Peer) (data : Bytes) : state.downlink id = some (peer, data) →
    ∃ lines unread, Stream start actions state.server id peer data lines unread

variable {start state : State} {actions : List Action} {id : Nat} {fd : Int}

theorem sendBuffer_of_flush {server : Irc.Server} {client : Irc.Client}
    (found : server.findClientByFd fd = some client) (other : fd ≠ server.listenFd) (count : Nat) :
    ((server.handleEvent { fd := fd, revents := { pollOut := true }, sent := some count }
      ).findClientByFd fd).map (·.sendBuffer) = some (client.sendBuffer.drop count) := by
  have same : server.handleEvent { fd := fd, revents := { pollOut := true }, sent := some count } =
      server.flushSendBuffer fd (some count) := by
    have asked : ({ pollOut := true } : Irc.Revents).isZero = false := rfl
    simp [Irc.Server.handleEvent, asked, other, Irc.Server.handleClientEvent, found]
  rw [same]
  simp only [Irc.Server.flushSendBuffer, found]
  split
  next empty =>
    rw [Irc.Server.findClientByFd_updatePollEvents, found, Option.map_some]
    have nothing : client.sendBuffer = [] := by simpa using empty
    rw [nothing, List.drop_nil]
  · rw [Irc.Server.findClientByFd_updatePollEvents, Irc.Server.findClientByFd_updateClient_eq,
      if_pos rfl]
    have recorded : (server.record (.sent fd (client.sendBuffer.take count))).findClientByFd fd =
        some client := found
    rw [recorded]
    rfl

/-- The stream while the way down is as it was: the server may have told more. -/
theorem Stream.grows {peer : Peer} {data unread : Bytes} {lines : List Bytes}
    (stream : Stream start actions state.server id peer data lines unread)
    (wired : Wired start actions state) {action : Action}
    (performed : gatewayMachine.performAll actions start = some state)
    (ready : state.enabled action = true) (honest : action.Honest state)
    (found : state.downlink id = some (peer, data)) (other : ∀ count, action ≠ .flush id count) :
    ∃ lines unread, Stream start (actions ++ [action]) (state.perform action).server id peer data
      lines unread := by
  have earlier : ∀ line ∈ lines, Irc.CleanText line ∧ Told start (actions ++ [action]) id line :=
    fun line listed => (stream.told line listed).imp_right (·.later action)
  by_cases live : ∃ fd client, peer = .held fd ∧
      (state.perform action).server.findClientByFd fd = some client
  · rcases live with ⟨fd, next, rfl, foundNext⟩
    have held : state.heldBy id = some fd := State.heldBy_eq_some_iff.mpr ⟨data, found⟩
    rcases Irc.Server.sendBuffer_of_leads wired.reached
      (State.perform_spares wired.apart ready honest held other) foundNext with
      ⟨client, added, foundClient, grown, queued⟩
    refine ⟨lines ++ added, next.sendBuffer, ?_, ?_, by simp, ?_⟩
    · rw [grown, ← stream.buffered fd client rfl foundClient, ← List.append_assoc, stream.whole,
        List.flatMap_append]
    · intro line listed
      rcases List.mem_append.mp listed with old | new
      · exact earlier line old
      · rcases queued line new with ⟨clean, between⟩
        exact ⟨clean, actions, action, [], state, fd, rfl, performed, wired.reached, held, between⟩
    · intro fd' client' same foundClient'
      rw [Peer.held.injEq] at same
      subst same
      rw [foundNext, Option.some.injEq] at foundClient'
      rw [foundClient']
  · refine ⟨lines, unread, stream.whole, earlier, stream.unaccepted, ?_⟩
    intro fd client held foundClient
    exact absurd ⟨fd, client, held, foundClient⟩ live

/-- An accepted connection has an empty send buffer. -/
theorem sendBuffer_of_establish {peerAddress : Bytes} (wired : Wired start actions state)
    (ready : state.enabled (.establish id fd peerAddress) = true)
    (honest : (Action.establish id fd peerAddress).Honest state) {client : Irc.Client}
    (found : (state.perform (.establish id fd peerAddress)).server.findClientByFd fd =
      some client) : client.sendBuffer = [] := by
  simp only [State.enabled, Bool.and_eq_true, Bool.not_eq_true', bne_iff_ne, ne_eq] at ready
  have missing : state.server.findClientByFd fd = none := by
    have absent := ready.1.1.2
    rw [Std.ExtTreeMap.contains_eq_isSome_getElem?, Option.isSome_eq_false_iff,
      Option.isNone_iff_eq_none] at absent
    exact absent
  have readyStep : state.server.ready (.accept fd peerAddress) = true := by
    simp only [Irc.Server.ready, ready.1.1.2, Bool.not_false, Bool.true_and, Bool.and_eq_true,
      decide_eq_true_eq, bne_iff_ne, ne_eq]
    exact ⟨honest, ready.2⟩
  rcases Irc.Server.advance_events (Irc.Server.step_reachable_consistent wired.reached) readyStep
    with ⟨events, stepEvents⟩
  simp only [State.perform] at found
  split at found
  · rw [missing] at found
    simp at found
  · split at found
    · rw [missing] at found
      simp at found
    · exact (stepEvents.entered fd client missing found).1

theorem server_arrive (state : State) (id : Nat) :
    (state.perform (.arrive id)).server = state.server := by
  simp only [State.perform]
  split
  · rfl
  · split
    · rfl
    · split
      · rfl
      · rfl

theorem server_flush {data : Bytes} (found : state.downlink id = some (.held fd, data))
    (count : Nat) : (state.perform (.flush id count)).server = state.server.handleEvent
      { fd := fd, revents := { pollOut := true }, sent := some count } := by
  rcases Option.map_eq_some_iff.mp found with ⟨irc, ircFound, same⟩
  have held : irc.peer = .held fd := congrArg Prod.fst same
  simp only [State.perform, ircFound, held]
  rfl

theorem Wired.perform (wired : Wired start actions state) {action : Action}
    (performed : gatewayMachine.performAll actions start = some state)
    (ready : state.enabled action = true) (honest : action.Honest state) :
    Wired start (actions ++ [action]) (state.perform action) := by
  refine ⟨(State.perform_leads ready honest).reachable wired.reached, wired.apart.perform ready,
    ?_⟩
  intro id peer data found
  have change := State.perform_downlink ready id
  rw [found] at change
  cases change with
  | kept other same =>
      rcases wired.stream id peer data same.symm with ⟨lines, unread, stream⟩
      exact stream.grows wired performed ready honest same.symm other
  | created none fresh =>
      rw [Option.some.injEq, Prod.mk.injEq] at fresh
      rcases fresh with ⟨rfl, rfl⟩
      exact ⟨[], [], ⟨rfl, by simp, fun _ => rfl, by simp⟩⟩
  | accepted before taken =>
      rw [Option.some.injEq, Prod.mk.injEq] at taken
      rcases taken with ⟨rfl, rfl⟩
      rcases wired.stream id _ _ before with ⟨lines, unread, stream⟩
      have nothing := stream.unaccepted rfl
      have whole := stream.whole
      rw [nothing, List.flatMap_nil, List.append_eq_nil_iff] at whole
      refine ⟨[], [], ⟨by rw [whole.1]; rfl, by simp, fun _ => rfl, ?_⟩⟩
      intro other client same foundClient
      rw [Peer.held.injEq] at same
      subst same
      exact (sendBuffer_of_establish wired ready honest foundClient).symm
  | arrived before cut taken =>
      rw [Option.some.injEq, Prod.mk.injEq] at taken
      rcases taken with ⟨rfl, rfl⟩
      rcases wired.stream id _ _ before with ⟨lines, unread, stream⟩
      rcases splitLine_of_lines (fun line listed => (stream.told line listed).1) stream.whole cut
        with ⟨later, rfl, whole⟩
      refine ⟨later, unread, ⟨whole, ?_, ?_, ?_⟩⟩
      · intro line listed
        exact (stream.told line (List.mem_cons_of_mem _ listed)).imp_right (·.later _)
      · intro unaccepted
        exact absurd (stream.unaccepted unaccepted) (List.cons_ne_nil _ _)
      · rw [server_arrive]
        exact stream.buffered
  | @flushed fd data count client before live sent =>
      rw [Option.some.injEq, Prod.mk.injEq] at sent
      rcases sent with ⟨rfl, rfl⟩
      rcases wired.stream id _ _ before with ⟨lines, unread, stream⟩
      refine ⟨lines, unread.drop count, ⟨?_, ?_, by simp, ?_⟩⟩
      · rw [← stream.buffered _ _ rfl live, List.append_assoc, List.take_append_drop]
        exact stream.whole
      · exact fun line listed => (stream.told line listed).imp_right (·.later _)
      · intro sameFd next same foundNext
        rw [Peer.held.injEq] at same
        subst same
        have other : fd ≠ state.server.listenFd := by
          rintro rfl
          rw [(Irc.Server.step_reachable_polled wired.reached).socket_apart] at live
          simp at live
        have flushed := sendBuffer_of_flush live other count
        rw [← server_flush before, foundNext, Option.map_some, Option.some.injEq] at flushed
        rw [flushed, stream.buffered _ _ rfl live]
  | released before gone =>
      rw [Option.some.injEq, Prod.mk.injEq] at gone
      rcases gone with ⟨rfl, rfl⟩
      rcases wired.stream id _ _ before with ⟨lines, unread, stream⟩
      refine ⟨lines, unread, ⟨stream.whole, ?_, by simp, by simp⟩⟩
      exact fun line listed => (stream.told line listed).imp_right (·.later _)

/-! ## Runs -/

theorem wired_start {server : Irc.Server} (reached : Irc.stepSystem.Reachable server)
    (password : JsString) (limit replayLimit channelLimit : Nat) :
    Wired (State.start server password limit replayLimit channelLimit) []
      (State.start server password limit replayLimit channelLimit) where
  reached := reached
  apart id other fd held := by
    simp [State.heldBy, State.downlink, State.ircAt, State.start] at held
  stream id peer data found := by
    simp [State.downlink, State.ircAt, State.start] at found

theorem wired_of_run (initially : Wired start [] start)
    (performed : gatewayMachine.performAll actions start = some state)
    (honest : gatewayMachine.EveryStep (fun state action => action.Honest state) actions start) :
    Wired start actions state := by
  refine Machine.performAll_induction (fun actions state =>
    gatewayMachine.EveryStep (fun state action => action.Honest state) actions start →
      Wired start actions state) (fun _ => initially) ?_ performed honest
  intro actions action between earlier ih ready all
  rcases Machine.everyStep_concat earlier all with ⟨before, last⟩
  exact (ih before).perform earlier ready last

/-- A line that arrives is one that the server told the connection. -/
theorem told_of_arrive (wired : Wired start actions state) {irc : IrcConnection}
    (found : state.ircAt id = some irc) {line rest : Bytes}
    (cut : splitLine irc.toGateway = some (line, rest)) :
    Irc.CleanText line ∧ Told start actions id line := by
  have before : state.downlink id = some (irc.peer, irc.toGateway) := by
    rw [State.downlink, found]
    rfl
  rcases wired.stream id _ _ before with ⟨lines, unread, stream⟩
  rcases splitLine_of_lines (fun line listed => (stream.told line listed).1) stream.whole cut with
    ⟨later, rfl, _⟩
  exact stream.told line List.mem_cons_self

end IrcPlatform.Gateway
