import IrcPlatform.Gateway.Connection
import IrcPlatform.Irc.Privmsg
import IrcPlatform.Irc.Reachable

/-!
# The gateway and the IRC server

Any number of browser connections, the IRC server behind them and the two queues
of each connection. The server reads one line of a queue at a time, in any order
over the connections; clients that are not the gateway's may do anything.

`entries` and `verdicts` are history variables: all browser messages that the
gateway echoed, and what became of their lines at the server.
-/

namespace IrcPlatform.Gateway

open JsString

/-- What became of the line of a browser message: it never reached the server, or the
server read it and relayed it or not. Both with the nickname that the server had, last
or then, for the connection. -/
inductive Outcome where
  | lost (nickname : Bytes)
  | read (fromMember relayed : Bool) (nickname : Bytes)
deriving DecidableEq

structure Verdict where
  entry : Entry
  outcome : Outcome
deriving DecidableEq

structure State where
  server : Irc.Server
  password : JsString
  history : ChannelHistory
  connections : List Connection := []
  entries : List Entry := []
  verdicts : List Verdict := []

inductive Action where
  | openSocket
  /-- `none` is a payload that `parseClientMessage` refuses. -/
  | browser (id : Nat) (now : Int) (message : Option ClientMessage)
  | closeSocket (id : Nat)
  /-- The TCP connection is up, and the server has accepted it. -/
  | establish (id : Nat) (fd : Int) (peerAddress : Bytes)
  /-- The socket of the gateway fails or is closed by the network. -/
  | fail (id : Nat)
  /-- One line of the server reaches the gateway. -/
  | arrive (id : Nat)
  /-- The server reads one line. -/
  | read (id : Nat)
  | flush (id : Nat) (count : Nat)
  | hangUp (id : Nat)
  /-- The server has closed its end; what it did not read is lost. -/
  | release (id : Nat)
  | sweep (order : List Int)
  /-- A step of the server for a client that is not the gateway's. -/
  | other (action : Irc.ServerAction)

/-- The outcome of a line that the server reads in a given state. -/
def outcomeOf (server : Irc.Server) (fd : Int) (line : Bytes) (entry : Entry) : Outcome :=
  .read (server.acceptsFromMember fd line (utf8 entry.target.val)) (server.relays fd line)
    (server.nicknameOf fd)

/-- The server reads one line of a connection. -/
def readLine (fd : Int) (server : Irc.Server) (line : Line) : Irc.Server :=
  server.handleEvent
    { fd := fd, revents := { pollIn := true }, received := some (line.text ++ crlf) }

/-- The descriptor of a step that the rest of the world makes. -/
def foreignFd : Irc.ServerAction → Option Int
  | .accept fd _ | .dispatch fd _ | .disconnect fd _ => some fd
  | .poll event => some event.fd
  | .processPending _ => none

namespace State

def ircAt (state : State) (id : Nat) : Option IrcConnection :=
  (state.connections[id]?).bind (·.irc)

/-- The IRC connections. -/
def links (state : State) : List IrcConnection := state.connections.filterMap (·.irc)

def holds (state : State) (fd : Int) : Bool :=
  state.links.any fun irc => irc.peer == .held fd

def setConnection (state : State) (id : Nat) (connection : Connection) : State :=
  { state with connections := state.connections.set id connection }

def setIrc (state : State) (id : Nat) (irc : IrcConnection) : State :=
  { state with
    connections :=
      state.connections.modify id fun connection => { connection with irc := some irc } }

def judge (state : State) (entry : Entry) (outcome : Outcome) : State :=
  { state with verdicts := state.verdicts ++ [⟨entry, outcome⟩] }

/-- The waiting lines are lost. -/
def loseLines (state : State) (irc : IrcConnection) : State :=
  { state with
    verdicts := state.verdicts ++
      (irc.toServer.filterMap (·.entry)).map (⟨·, .lost irc.granted⟩) }

/-- A browser message is echoed, and added to the history if it is recorded. -/
def recordEntry (state : State) (entry : Entry) : State :=
  { state with
    entries := state.entries ++ [entry]
    history :=
      if entry.recorded then
        state.history.add entry.target.val { nick := entry.nick, text := entry.text.val }
      else state.history }

/-- The `message` action where it does not throw. -/
def deliverMessage (state : State) (id : Nat) (connection : Connection) (irc : IrcConnection)
    (entry : Entry) : State :=
  let stored := (state.setConnection id
    { connection with irc := some (irc.privmsg entry) }).recordEntry entry
  if irc.reaches then stored else stored.judge entry (.lost irc.granted)

/-- The handler of a browser message. -/
def handleBrowser (state : State) (id : Nat) (connection : Connection) (now : Int)
    (message : Option ClientMessage) : State :=
  match connection.admitAction now with
  | none => state.setConnection id (connection.slideWindow now)
  | some admitted =>
      match message with
      | none => state.setConnection id admitted
      | some (.message target text) =>
          match admitted.irc with
          | none => state.setConnection id admitted
          | some irc =>
              match admitted.messageEntry id irc target text with
              | none => state.setConnection id admitted
              | some entry => state.deliverMessage id admitted irc entry
      | some other => state.setConnection id ((admitted.act other).getD admitted)

def enabled (state : State) : Action → Bool
  | .openSocket => true
  | .browser id _ _ | .closeSocket id => (state.connections[id]?).any (·.isOpen)
  | .establish id fd _ =>
      (state.ircAt id).any (fun irc =>
        irc.peer == .unaccepted && (irc.socket == .connecting || irc.socket == .ended) &&
          irc.username.isSome) &&
        !state.server.clients.contains fd && !state.holds fd && fd != state.server.listenFd
  | .fail id => (state.ircAt id).isSome
  | .arrive id =>
      (state.ircAt id).any fun irc =>
        irc.socket != .destroyed && (splitLine irc.toGateway).isSome
  | .read id =>
      (state.ircAt id).any fun irc =>
        match irc.peer with
        | .held fd => state.server.clients.contains fd && !irc.toServer.isEmpty
        | .unaccepted | .gone => false
  | .flush id _ | .hangUp id =>
      (state.ircAt id).any fun irc =>
        match irc.peer with
        | .held fd => state.server.clients.contains fd
        | .unaccepted | .gone => false
  | .release id =>
      (state.ircAt id).any fun irc =>
        match irc.peer with
        | .held fd => !state.server.clients.contains fd
        | .unaccepted | .gone => false
  | .sweep order => order.isPerm state.server.pendingDisconnects.toList
  | .other action =>
      state.server.enabled action &&
        (foreignFd action).any fun fd => !state.holds fd && fd != state.server.listenFd

def perform (state : State) : Action → State
  | .openSocket => { state with connections := state.connections ++ [{}] }
  | .browser id now message =>
      match state.connections[id]? with
      | none => state
      | some connection => state.handleBrowser id connection now message
  | .closeSocket id =>
      match state.connections[id]? with
      | none => state
      | some connection => state.setConnection id
          { connection with
            isOpen := false
            irc := connection.irc.map (·.quit (js "Browser disconnected")) }
  | .establish id fd peerAddress =>
      match state.ircAt id with
      | none => state
      | some irc =>
          match irc.register state.password with
          | none => state
          | some registered =>
              { state with server := state.server.acceptClient (some (fd, peerAddress)) }.setIrc id
                { registered with
                  socket :=
                    if irc.socket = Socket.connecting then Socket.established else irc.socket
                  peer := .held fd }
  | .fail id =>
      match state.ircAt id with
      | none => state
      | some irc =>
          (state.loseLines irc).setIrc id { irc with socket := .destroyed, toServer := [] }
  | .arrive id =>
      match state.connections[id]? with
      | none => state
      | some connection =>
          match connection.irc with
          | none => state
          | some irc =>
              match splitLine irc.toGateway with
              | none => state
              | some (line, rest) =>
                  state.setConnection id
                    (connection.handleLine { irc with toGateway := rest } line)
  | .read id =>
      match state.ircAt id with
      | none => state
      | some irc =>
          match irc.peer, irc.toServer with
          | .held fd, line :: rest =>
              let after := readLine fd state.server line
              let taken := { state with server := after }.setIrc id
                { irc with toServer := rest, granted := after.nicknameOf fd }
              match line.entry with
              | none => taken
              | some entry => taken.judge entry (outcomeOf state.server fd line.text entry)
          | _, _ => state
  | .flush id count =>
      match state.ircAt id with
      | none => state
      | some irc =>
          match irc.peer with
          | .held fd =>
              let sent := ((state.server.findClientByFd fd).map (·.sendBuffer)).getD []
              { state with
                server := state.server.handleEvent
                  { fd := fd, revents := { pollOut := true }, sent := some count } }.setIrc id
                { irc with toGateway := irc.toGateway ++ sent.take count }
          | .unaccepted | .gone => state
  | .hangUp id =>
      match state.ircAt id with
      | none => state
      | some irc =>
          match irc.peer with
          | .held fd =>
              { state with
                server := state.server.handleEvent { fd := fd, revents := { pollHup := true } } }
          | .unaccepted | .gone => state
  | .release id =>
      match state.ircAt id with
      | none => state
      | some irc => (state.loseLines irc).setIrc id { irc with peer := .gone, toServer := [] }
  | .sweep order => { state with server := state.server.processPendingInOrder order }
  | .other action => { state with server := state.server.perform action }

/-- The gateway and the server before the first connection. -/
def start (server : Irc.Server) (password : JsString) (limit replayLimit channelLimit : Nat) :
    State where
  server := server
  password := password
  history := ChannelHistory.create limit replayLimit channelLimit

end State

/-- The gateway starts before a server that is in any state it can reach. -/
def gatewayMachine : Machine State Action where
  initial state := ∃ server password limit replayLimit channelLimit,
    Irc.serverSystem.Reachable server ∧
      state = State.start server password limit replayLimit channelLimit
  enabled := State.enabled
  perform := State.perform

def gatewaySystem : TransitionSystem State Action := gatewayMachine.system

end IrcPlatform.Gateway
