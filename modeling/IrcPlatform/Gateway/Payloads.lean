import IrcPlatform.Gateway.Arrivals
import IrcPlatform.Gateway.LineReading
import IrcPlatform.Gateway.MessageLine
import IrcPlatform.Gateway.Replay

/-!
# The replay of a channel

A line from the server that looks like the join of the connection itself, to the channel
the browser named last, makes the gateway send the stored messages of that channel to the
browser. The gateway checks neither whose line it is nor who is a member: both rest on whom
the server sends JOIN lines to.
-/

namespace IrcPlatform.Gateway

open JsString

/-! ## The payload -/

def nickFromPrefix (linePrefix : JsString) : JsString := linePrefix.takeWhile (· != unit '!')

/-- `event.params[0] || event.trailing`. -/
def IrcMessage.channel (message : IrcMessage) : JsString :=
  match message.params with
  | [] => message.trailing
  | first :: _ => if first.isEmpty then message.trailing else first

structure HistoryPayload where
  channel : ChannelName
  messages : List HistoryMessage
deriving DecidableEq

/-- The payload that a message of the server triggers. -/
def Connection.historyFor (connection : Connection) (irc : IrcConnection)
    (history : ChannelHistory) (message : IrcMessage) : Option HistoryPayload :=
  if message.command == js "JOIN" && nickFromPrefix message.linePrefix == irc.nickname then
    connection.joinedChannel.bind fun joined =>
      if message.channel = joined.val then some ⟨joined, history.recent joined.val⟩ else none
  else none

/-- The connection and the line that a step handles. -/
def State.arriving (state : State) : Action → Option (Connection × IrcConnection × Bytes)
  | .arrive id =>
      (state.connections[id]?).bind fun connection => connection.irc.bind fun irc =>
        (splitLine irc.toGateway).map fun cut => (connection, irc, cut.1)
  | _ => none

/-- The `history` payload that a step sends to the browser of its connection. -/
def State.sentHistory (state : State) (action : Action) : Option HistoryPayload :=
  (state.arriving action).bind fun (connection, irc, line) =>
    (parseIrcLine (decodeUtf8 line)).bind fun message =>
      if connection.isOpen then connection.historyFor irc state.history message else none

/-! ## JOIN lines at the gateway -/

theorem channel_visible {channel : Bytes} (valid : Irc.IrcUtil.isValidChannelName channel = true) :
    channel ≠ [] ∧ Irc.CleanText channel ∧ byte ' ' ∉ channel := by
  cases channel with
  | nil => simp [Irc.IrcUtil.isValidChannelName] at valid
  | cons first rest =>
      simp only [Irc.IrcUtil.isValidChannelName, Bool.and_eq_true, beq_iff_eq,
        List.all_eq_true, Bool.not_eq_true', Bool.or_eq_false_iff, beq_eq_false_iff_ne] at valid
      rcases valid with ⟨⟨_, hash⟩, characters⟩
      refine ⟨List.cons_ne_nil _ _, ?_, ?_⟩
      · intro c listed
        rcases List.mem_cons.mp listed with rfl | later
        · rw [hash]
          decide
        · have safe := characters c later
          exact ⟨safe.1.1.2, safe.1.2, safe.2⟩
      · intro listed
        rcases List.mem_cons.mp listed with same | later
        · rw [hash] at same
          exact absurd same (by decide)
        · exact (characters _ later).1.1.1.1.1.1 rfl

/-- What the gateway reads of the JOIN line of a channel. -/
theorem parseIrcLine_joinLine {client : Irc.Client} {room : Irc.Channel}
    (valid : Irc.IrcUtil.isValidChannelName room.name = true)
    (nonempty : Irc.Server.joinLine client room ≠ []) :
    parseIrcLine (decodeUtf8 (Irc.Server.joinLine client room)) =
      some ⟨decodeUtf8 (Irc.Reply.clientPrefix client), js "JOIN", [], decodeUtf8 room.name⟩ := by
  rcases channel_visible valid with ⟨_, clean, spaceless⟩
  have form := (@Irc.command_form (ascii "JOIN") (by decide) (Irc.Reply.clientPrefix client)
    (ascii ":" ++ room.name)).resolve_left nonempty
  have kept : Irc.IrcUtil.sanitizeMessageText (ascii ":" ++ room.name) =
      ascii ":" ++ room.name := by
    apply List.filter_eq_self.mpr
    intro c listed
    rcases List.mem_append.mp listed with colon | inName
    · rw [List.mem_singleton.mp colon]
      decide
    · have safe := clean c inName
      simp [safe.1, safe.2.1, safe.2.2]
  have parameters : Irc.Reply.trailing (ascii ":" ++ room.name) =
      byte ' ' :: byte ':' :: room.name := by
    rw [Irc.Reply.trailing, kept]
    rfl
  rw [parameters] at form
  have decoded : decodeUtf8 (byte ' ' :: byte ':' :: room.name) =
      0x20 :: unit ':' :: decodeUtf8 room.name := by
    rw [decodeUtf8_cons (by decide), decodeUtf8_cons (by decide)]
    rfl
  have split : splitTrailing (0x20 :: unit ':' :: decodeUtf8 room.name) =
      ([], some (decodeUtf8 room.name)) := by
    rw [splitTrailing, if_pos ⟨rfl, rfl⟩]
  rw [Irc.Server.joinLine, parseIrcLine_lineForm form, decoded, split]
  rfl

/-- A line that the gateway takes for a JOIN is one to the server. -/
theorem lineWord_of_parsed {line : Bytes} {message : IrcMessage}
    (form : line = [] ∨ ∃ linePrefix word rest, Irc.LineForm line linePrefix word rest)
    (parsed : parseIrcLine (decodeUtf8 line) = some message)
    (command : message.command = js "JOIN") : Irc.lineWord line = ascii "JOIN" := by
  rcases form with rfl | ⟨linePrefix, word, rest, form⟩
  · simp [decodeUtf8, decodeFrom, parseIrcLine, splitPrefix, splitTrailing, words] at parsed
  · rw [parseIrcLine_lineForm form, Option.some.injEq] at parsed
    have same : asciiText word = js "JOIN" := by rw [← command, ← parsed]
    rw [form.lineWord_eq, ← (lineWords_text word form.word).1, same]
    decide

/-! ## Confirmations of a run -/

/-- In a step of the run the server queued the line, which is the JOIN line of the channel, to
the descriptor that the connection held, and this was a member of the channel then. -/
def Confirmation (start : State) (actions : List Action) (id : Nat) (line channel : Bytes) :
    Prop :=
  ∃ early action late before fd, actions = early ++ action :: late ∧
    gatewayMachine.performAll early start = some before ∧ before.heldBy id = some fd ∧
    ∃ server step, Irc.Server.OnTheWay before.server step server (before.perform action).server ∧
      server.Confirms step fd line channel

variable {start state : State} {actions : List Action} {id : Nat}

theorem confirmation_of_told {line : Bytes} (told : Told start actions id line)
    {message : IrcMessage} (parsed : parseIrcLine (decodeUtf8 line) = some message)
    (command : message.command = js "JOIN") :
    ∃ channel, Confirmation start actions id line channel ∧
      message.channel = decodeUtf8 channel := by
  rcases told with ⟨early, action, late, before, fd, split, performed, reached, held, server, step,
    way, queued⟩
  have reachedThen := way.here.reachable reached
  have consistent := Irc.Server.step_reachable_consistent reachedThen
  rcases Irc.Server.advance_events consistent way.ready with ⟨events, stepEvents⟩
  have listed := queued
  rw [Irc.Server.stepLines_of_history stepEvents.history] at listed
  have form := Irc.Server.stepLine_form (stepEvents.lines fd line listed)
  have join := lineWord_of_parsed form parsed command
  rcases Irc.Server.confirms_of_join reachedThen way.ready queued join with ⟨channel, confirms⟩
  refine ⟨channel, ⟨early, action, late, before, fd, split, performed, held, server, step, way,
    confirms⟩, ?_⟩
  have valid := confirms.valid reachedThen way.ready
  rcases confirms.join with ⟨sender, sent, client, room, _, _, rfl, rfl⟩
  have nonempty : Irc.Server.joinLine client room ≠ [] := by
    intro empty
    rw [empty, Irc.lineWord_nil] at join
    exact absurd join (by decide)
  rw [parseIrcLine_joinLine valid nonempty, Option.some.injEq] at parsed
  rw [← parsed]
  rfl

/-- A channel name of the gateway that the decoder gave is the name in the line. -/
theorem channel_of_decoded {channel : Bytes} {joined : ChannelName}
    (same : decodeUtf8 channel = joined.val) : channel = utf8 joined.val := by
  rw [← same]
  apply eq_of_decodeUtf8_ascii
  rw [same]
  rcases target_plain ⟨joined.val, Bool.or_eq_true_iff.mpr (Or.inl joined.property)⟩ with
    ⟨_, plain⟩
  exact fun c listed => lt_of_isPlain (plain c listed)

/-- A step that sends a replay handles a line, and the line is the JOIN of the channel. -/
theorem sentHistory_spec {action : Action} {payload : HistoryPayload}
    (sent : state.sentHistory action = some payload) :
    ∃ connection irc line message, state.arriving action = some (connection, irc, line) ∧
      parseIrcLine (decodeUtf8 line) = some message ∧ connection.isOpen = true ∧
      message.command = js "JOIN" ∧ nickFromPrefix message.linePrefix = irc.nickname ∧
      connection.joinedChannel = some payload.channel ∧
      message.channel = payload.channel.val ∧
      payload.messages = state.history.recent payload.channel.val := by
  rcases Option.bind_eq_some_iff.mp sent with ⟨⟨connection, irc, line⟩, arriving, sent⟩
  rcases Option.bind_eq_some_iff.mp sent with ⟨message, parsed, sent⟩
  rw [Option.ite_none_right_eq_some] at sent
  rcases sent with ⟨isOpen, sent⟩
  rw [Connection.historyFor, Option.ite_none_right_eq_some, Bool.and_eq_true, beq_iff_eq,
    beq_iff_eq] at sent
  rcases sent with ⟨⟨command, own⟩, sent⟩
  rcases Option.bind_eq_some_iff.mp sent with ⟨joined, stored, sent⟩
  rw [Option.ite_none_right_eq_some, Option.some.injEq] at sent
  rcases sent with ⟨same, rfl⟩
  exact ⟨connection, irc, line, message, arriving, parsed, isOpen, command, own, stored, same, rfl⟩

theorem arriving_arrive {connection : Connection} {irc : IrcConnection} {line : Bytes}
    (arriving : state.arriving (.arrive id) = some (connection, irc, line)) :
    state.ircAt id = some irc ∧ ∃ rest, splitLine irc.toGateway = some (line, rest) := by
  rcases Option.bind_eq_some_iff.mp arriving with ⟨stored, found, arriving⟩
  rcases Option.bind_eq_some_iff.mp arriving with ⟨held, given, arriving⟩
  rcases Option.map_eq_some_iff.mp arriving with ⟨⟨first, rest⟩, cut, same⟩
  simp only [Prod.mk.injEq] at same
  rcases same with ⟨rfl, rfl, rfl⟩
  exact ⟨by rw [State.ircAt_of_connection found, given], rest, cut⟩

/-- What the browser of a connection gets as the replay of a channel answers a JOIN line of
that channel which the server queued to the connection as a member. -/
structure Answers (start : State) (actions : List Action) (state : State) (action : Action)
    (payload : HistoryPayload) : Prop where
  line : ∃ id connection irc line, action = .arrive id ∧
    state.arriving action = some (connection, irc, line) ∧
    Confirmation start actions id line (utf8 payload.channel.val)

/-- Nobody gets the replay of a channel without being a member of it. -/
theorem replay_confirmed {server : Irc.Server} (reached : Irc.stepSystem.Reachable server)
    {password : JsString} {limit replayLimit channelLimit : Nat}
    (performed : gatewayMachine.performAll actions
      (State.start server password limit replayLimit channelLimit) = some state)
    (honest : gatewayMachine.EveryStep (fun state action => action.Honest state) actions
      (State.start server password limit replayLimit channelLimit))
    {action : Action} {payload : HistoryPayload}
    (sent : state.sentHistory action = some payload) :
    Answers (State.start server password limit replayLimit channelLimit) actions state action
      payload := by
  have wired := wired_of_run (wired_start reached password limit replayLimit channelLimit)
    performed honest
  rcases sentHistory_spec sent with ⟨connection, irc, line, message, arriving, parsed, _, command,
    _, _, same, _⟩
  cases action with
  | arrive id =>
      rcases arriving_arrive arriving with ⟨found, rest, cut⟩
      rcases confirmation_of_told (told_of_arrive wired found cut).2 parsed command with
        ⟨channel, confirmation, decoded⟩
      have named := channel_of_decoded (decoded.symm.trans same)
      exact ⟨id, connection, irc, line, rfl, arriving, named ▸ confirmation⟩
  | _ => simp [State.arriving] at arriving

/-- alice's browser joins a channel, and all but the last line of the server arrives. -/
def joining : List Action :=
  connectAlice "#room" ++ [.flush 0 4096, .arrive 0, .arrive 0, .arrive 0, .arrive 0]

theorem performAll_joining : gatewayMachine.performAll joining origin =
    some (gatewayMachine.performOr origin joining) :=
  Machine.performAll_eq_performOr (by decide +kernel)

theorem honest_joining :
    gatewayMachine.EveryStep (fun state action => action.Honest state) joining origin :=
  ⟨trivial, trivial, (by decide : (0 : Int) ≤ 4), trivial, trivial, trivial, trivial, trivial,
    trivial, trivial, trivial, trivial, trivial, trivial, trivial⟩

theorem replay_confirmed_joining :
    (gatewayMachine.performOr origin joining).sentHistory (.arrive 0) =
      some ⟨⟨js "#room", by decide⟩, []⟩ ∧
    Answers origin joining (gatewayMachine.performOr origin joining) (.arrive 0)
      ⟨⟨js "#room", by decide⟩, []⟩ := by
  have sent : (gatewayMachine.performOr origin joining).sentHistory (.arrive 0) =
      some ⟨⟨js "#room", by decide⟩, []⟩ := by decide +kernel
  exact ⟨sent, replay_confirmed (Irc.Server.step_reachable_fresh _ _ _) performAll_joining
    honest_joining sent⟩

end IrcPlatform.Gateway
