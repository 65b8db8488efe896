import IrcPlatform.Gateway.History
import IrcPlatform.Irc.Network

/-!
# One browser connection of the gateway

The state that `server.js` keeps for a WebSocket, with the `IrcConnection` it
opens for it and the two queues between that connection and the IRC server.
Writing to the socket appends a line to the queue towards the server.

A line that carries a browser message also carries an `Entry`: what the gateway
echoed and stored for it. No function of the source reads an `Entry` or the field
`granted`. The texts of the errors that a browser sees are left out, and so are
the events that are only forwarded to it.
-/

namespace IrcPlatform.Gateway

open JsString

/-- What the gateway answered to a browser message: the echoed nick and text, and whether
it was added to the history. -/
structure Entry where
  connection : Nat
  target : MessageTarget
  nick : JsString
  text : MessageText
  recorded : Bool
  recorded_channel : recorded = true → matchesChannel target.val = true
deriving DecidableEq

/-- The line that `send` writes, encoded; the commands the gateway sends are upper case. -/
def formatLine (command : JsString) (params : List JsString) (trailing : JsString) : Bytes :=
  let line := ((command :: params.map removeSeparators).intersperse [0x20]).flatten
  let cleanTrailing := blankLineBreaks trailing
  utf8 (if cleanTrailing.isEmpty then line else line ++ js " :" ++ cleanTrailing)

/-- A line on its way to the server: one that carries a browser message, or another. -/
inductive Line where
  | message (entry : Entry)
  | other (text : Bytes)
deriving DecidableEq

namespace Line

def text : Line → Bytes
  | message entry => formatLine (js "PRIVMSG") [entry.target.val] entry.text.val
  | other text => text

def entry : Line → Option Entry
  | message entry => some entry
  | other _ => none

end Line

inductive Socket where
  | connecting
  | established
  /-- `end()` was called. -/
  | ended
  | destroyed
deriving DecidableEq

/-- The server's end of the connection. -/
inductive Peer where
  | unaccepted
  | held (fd : Int)
  /-- The server has closed it, which the gateway may not know yet. -/
  | gone
deriving DecidableEq

def Peer.fd : Peer → Option Int
  | held fd => some fd
  | unaccepted | gone => none

structure IrcConnection where
  nickname : JsString
  /-- `String(username)`, or `none` where that throws. -/
  username : Option JsString
  socket : Socket := .connecting
  peer : Peer := .unaccepted
  toServer : List Line := []
  /-- Bytes the server has sent and the gateway has not handled yet. -/
  toGateway : Bytes := []
  /-- The nickname that the server last had for the connection. -/
  granted : Bytes := []

structure Connection where
  joinedChannel : Option ChannelName := none
  recentActions : List Int := []
  irc : Option IrcConnection := none
  /-- The WebSocket is open. -/
  isOpen : Bool := true

namespace IrcConnection

/-- The constructor. -/
def create (nickname : JsString) (username : JsonValue) : IrcConnection where
  nickname := nickname
  username := if username.truthy then username.toText else some (toLowerCase nickname)

/-- The socket still takes writes. -/
def writable (irc : IrcConnection) : Bool :=
  irc.socket == .connecting || irc.socket == .established

/-- A written line can still reach the server. -/
def reaches (irc : IrcConnection) : Bool := irc.writable && irc.peer != .gone

def write (irc : IrcConnection) (line : Line) : IrcConnection :=
  if irc.reaches then { irc with toServer := irc.toServer ++ [line] } else irc

def send (irc : IrcConnection) (command : JsString) (params : List JsString)
    (trailing : JsString) : IrcConnection :=
  irc.write (.other (formatLine command params trailing))

/-- The connect listener; `none` where an exception escapes from it. -/
def register (irc : IrcConnection) (password : JsString) : Option IrcConnection :=
  irc.username.map fun username =>
    let passed := if password.isEmpty then irc else irc.send (js "PASS") [password] []
    (passed.send (js "NICK") [irc.nickname] []).send (js "USER") [username, js "0", js "*"]
      irc.nickname

def join (irc : IrcConnection) (channel : ChannelName) : IrcConnection :=
  irc.send (js "JOIN") [channel.val] []

def part (irc : IrcConnection) (channel : ChannelName) : IrcConnection :=
  irc.send (js "PART") [channel.val] []

def privmsg (irc : IrcConnection) (entry : Entry) : IrcConnection := irc.write (.message entry)

def changeNick (irc : IrcConnection) (nickname : JsonValue) : Option IrcConnection :=
  match nickname with
  | .string name =>
      if matchesNickname name then
        some { irc.send (js "NICK") [name] [] with nickname := name }
      else none
  | .other _ _ => none

/-- `quit`, after which the socket takes no more writes. -/
def quit (irc : IrcConnection) (reason : JsString) : IrcConnection :=
  if irc.socket == .destroyed then irc
  else { irc.send (js "QUIT") [] reason with socket := .ended }

end IrcConnection

/-! ## Lines from the server -/

/-- The first complete line, without its terminator, and what follows it. -/
def splitLine (data : Bytes) : Option (Bytes × Bytes) :=
  (Irc.BufferUtil.beforeLineFeed data).map fun raw =>
    (Irc.BufferUtil.dropCarriageReturn raw, data.drop (raw.length + 1))

structure IrcMessage where
  linePrefix : JsString
  command : JsString
  params : List JsString
  /-- Also empty where the line has none. -/
  trailing : JsString
deriving DecidableEq

/-- The text before and after the first `" :"`; no second part where there is none. -/
def splitTrailing : JsString → JsString × Option JsString
  | [] => ([], none)
  | [c] => ([c], none)
  | c :: next :: rest =>
      if c = 0x20 ∧ next = unit ':' then ([], some rest)
      else ((c :: (splitTrailing (next :: rest)).1), (splitTrailing (next :: rest)).2)

/-- The prefix of a line and what follows it; `none` where a prefix has no end. -/
def splitPrefix (line : JsString) : Option (JsString × JsString) :=
  if line.head? = some (unit ':') then
    match line.span (· != 0x20) with
    | (_, []) => none
    | (token, _ :: rest) => some (token.drop 1, rest)
  else some ([], line)

def parseIrcLine (line : JsString) : Option IrcMessage :=
  match splitPrefix line with
  | none => none
  | some (linePrefix, rest) =>
      match words (splitTrailing rest).1 with
      | [] => none
      | command :: params =>
          some ⟨linePrefix, toUpperCase command, params, (splitTrailing rest).2.getD []⟩

namespace Connection

/-- The reaction to a line: a PING is answered, and the welcome reply triggers the JOIN. -/
def handleLine (connection : Connection) (irc : IrcConnection) (line : Bytes) : Connection :=
  match parseIrcLine (decodeUtf8 line) with
  | none => { connection with irc := some irc }
  | some message =>
      let answered :=
        if message.command == js "PING" then
          irc.send (js "PONG") message.params message.trailing
        else irc
      if message.command == js "001" then
        match connection.joinedChannel with
        | none => { connection with irc := some answered }
        | some channel =>
            { connection with irc := some (answered.join channel) }
      else { connection with irc := some answered }

end Connection

/-! ## Browser messages -/

/-- A browser message after `parseClientMessage`. -/
inductive ClientMessage where
  | connect (nickname channel username : JsonValue)
  | message (target text : JsonValue)
  | join (channel : JsonValue)
  | part (channel : JsonValue)
  | nick (nickname : JsonValue)
  | unsupported
deriving DecidableEq

/-- The name that `join` and `part` send; `none` where they throw. -/
def checkChannel : JsonValue → Option ChannelName
  | .string name => if valid : matchesChannel name = true then some ⟨name, valid⟩ else none
  | .other _ _ => none

/-- The target that `privmsg` sends; `none` where it throws. -/
def checkTarget : JsonValue → Option MessageTarget
  | .string name =>
      if valid : (matchesChannel name || matchesNickname name) = true then some ⟨name, valid⟩
      else none
  | .other _ _ => none

/-- The text that `privmsg` sends; `none` where it throws. -/
def checkText (text : JsonValue) : Option MessageText :=
  text.toText.bind fun text =>
    if fits : trim text ≠ [] ∧ (utf8 (trim text)).length ≤ 420 then some ⟨trim text, fits⟩
    else none

def lobby : ChannelName := ⟨js "#lobby", by decide⟩

namespace Connection

/-- The sliding window of the action limit; `none` where the action is refused. -/
def admitAction (connection : Connection) (now : Int) : Option Connection :=
  let recent := connection.recentActions.dropWhile (· < now - 5000)
  if 12 ≤ recent.length then none
  else some { connection with recentActions := recent ++ [now] }

/-- The window after an action, refused or not. -/
def slideWindow (connection : Connection) (now : Int) : Connection :=
  match connection.admitAction now with
  | some admitted => admitted
  | none => { connection with
      recentActions := connection.recentActions.dropWhile (· < now - 5000) }

/-- A value that is not truthy stands for the joined channel. -/
def orJoined (connection : Connection) (value : JsonValue) : JsonValue :=
  if value.truthy then value
  else match connection.joinedChannel with
    | some channel => .string channel.val
    | none => .other false (some (js "null"))

/-- The channel of the `connect` action; `none` where it throws. -/
def firstChannel (channel : JsonValue) : Option ChannelName :=
  if channel.truthy then checkChannel channel else some lobby

/-- The `connect` action; `none` where it throws. -/
def connect (connection : Connection) (nickname channel username : JsonValue) :
    Option Connection :=
  match connection.irc, nickname with
  | none, .string name =>
      if matchesNickname name then
        (firstChannel channel).map fun joined => { connection with
          joinedChannel := some joined
          irc := some (IrcConnection.create name username) }
      else none
  | _, _ => none

/-- What the `message` action echoes and stores for a text that it sends. -/
def entryOf (connection : Connection) (id : Nat) (irc : IrcConnection) (target : MessageTarget)
    (text : MessageText) : Entry where
  connection := id
  target := target
  nick := irc.nickname
  text := text
  recorded := connection.joinedChannel.any (·.val == target.val)
  recorded_channel recorded := by
    rcases (Option.any_eq_true _ _).mp recorded with ⟨joined, _, same⟩
    rw [← beq_iff_eq.mp same]
    exact joined.property

/-- What the `message` action echoes and stores, where it does not throw. -/
def messageEntry (connection : Connection) (id : Nat) (irc : IrcConnection)
    (target text : JsonValue) : Option Entry :=
  (checkTarget (connection.orJoined target)).bind fun target =>
    (checkText text).map (connection.entryOf id irc target)

/-- The actions other than `message`; `none` where they throw. -/
def act (connection : Connection) : ClientMessage → Option Connection
  | .connect nickname channel username => connection.connect nickname channel username
  | .message _ _ => none
  | .join channel =>
      connection.irc.bind fun irc => (checkChannel channel).map fun name =>
        { connection with joinedChannel := some name, irc := some (irc.join name) }
  | .part channel =>
      connection.irc.bind fun irc => (checkChannel (connection.orJoined channel)).map fun name =>
        { connection with irc := some (irc.part name) }
  | .nick nickname =>
      connection.irc.bind fun irc => (irc.changeNick nickname).map fun irc =>
        { connection with irc := some irc }
  | .unsupported => none

end Connection

end IrcPlatform.Gateway
