import IrcPlatform.Irc.Channel
import IrcPlatform.Irc.Message
import IrcPlatform.Irc.Reply

/-!
# Server state and relations

The state of the IRC server, the lookups, the send queue, and the helpers that
keep the two sides of the membership relation together (`ServerRelations.cpp`).

A `Client *` or `Channel *` of the source is a lookup in the map that owns the
object; a write through such a pointer is a modification of that map entry.
Containers are the ordered maps and sets of `Std`, whose iteration order is the
one of `std::map` and `std::set`.

`history` is a history variable that no function of the source reads: it lists
the accepted connections, the invocations of `dispatchCommand`, the calls of
`queueToClient` on a live client and the bytes handed to `send`.
-/

namespace IrcPlatform.Irc

open Std

/-- The `events` mask of a `pollfd`. -/
structure PollFd where
  fd : Int
  pollIn : Bool := true
  pollOut : Bool := false
deriving DecidableEq

inductive HistoryEvent where
  | accepted (fd : Int)
  /-- `dispatchCommand` was invoked; `reserved` tells whether `fd` was then in
  `_pendingDisconnects`. -/
  | dispatched (fd : Int) (reserved : Bool)
  /-- A message as the caller passed it, and whether it entered the send buffer. -/
  | queued (fd : Int) (message : Bytes) (appended : Bool)
  | sent (fd : Int) (data : Bytes)
deriving DecidableEq

structure Server where
  password : Bytes
  serverName : Bytes := ascii "ircserv.local"
  clients : ExtTreeMap Int Client := ∅
  channels : ExtTreeMap Bytes Channel := ∅
  nickToFd : ExtTreeMap Bytes Int := ∅
  serverStartTime : Bytes
  pendingDisconnects : ExtTreeSet Int := ∅
  disconnectReasons : ExtTreeMap Int Bytes := ∅
  listenFd : Int := -1
  pollFds : List PollFd := []
  history : List HistoryEvent := []

namespace Server

def maxSendBuffer : Nat := 1048576

/-! ## Lookups and writes through pointers -/

def findClientByFd (server : Server) (fd : Int) : Option Client := server.clients[fd]?

def findClientByNickname (server : Server) (nickname : Bytes) : Option Client :=
  match server.nickToFd[IrcUtil.ircCaseFold nickname]? with
  | none => none
  | some fd => server.findClientByFd fd

def findChannel (server : Server) (name : Bytes) : Option Channel :=
  server.channels[IrcUtil.normalizeChannelName name]?

def updateClient (server : Server) (fd : Int) (change : Client → Client) : Server :=
  { server with clients := server.clients.modify fd change }

/-- Write through the pointer that `findChannel name` returned. -/
def updateChannel (server : Server) (name : Bytes) (change : Channel → Channel) : Server :=
  { server with
    channels := server.channels.modify (IrcUtil.normalizeChannelName name) change }

def addClient (server : Server) (fd : Int) (hostname : Bytes) : Bool × Server :=
  if server.clients.contains fd then (false, server)
  else
    (true, { server with clients := server.clients.insert fd { fd := fd, hostname := hostname } })

/-! ## Poll entries -/

def addClientPollFd (server : Server) (fd : Int) : Server :=
  { server with pollFds := server.pollFds ++ [{ fd := fd }] }

def removeClientPollFd (server : Server) (fd : Int) : Server :=
  { server with pollFds := server.pollFds.eraseP (·.fd == fd) }

/-- Replace the mask of the first entry of a descriptor. -/
def setPollEvents (fd : Int) (pollOut : Bool) : List PollFd → List PollFd
  | [] => []
  | entry :: rest =>
      if entry.fd == fd then { entry with pollIn := true, pollOut := pollOut } :: rest
      else entry :: setPollEvents fd pollOut rest

def updatePollEvents (server : Server) (fd : Int) : Server :=
  match server.findClientByFd fd with
  | none => server
  | some client =>
      { server with pollFds := setPollEvents fd client.hasPendingOutput server.pollFds }

/-! ## Sending -/

def scheduleDisconnect (server : Server) (fd : Int) : Server :=
  { server with pendingDisconnects := server.pendingDisconnects.insert fd }

/-- The message with its line terminator. -/
def withCrlf (message : Bytes) : Bytes :=
  if 2 ≤ message.length && message.drop (message.length - 2) == crlf then message
  else message ++ crlf

def record (server : Server) (event : HistoryEvent) : Server :=
  { server with history := server.history ++ [event] }

def queueToClient (server : Server) (fd : Int) (message : Bytes) : Server :=
  match server.findClientByFd fd with
  | none => server
  | some client =>
      let normalized := withCrlf message
      if maxSendBuffer < client.sendBuffer.length + normalized.length then
        (server.record (.queued fd message false)).scheduleDisconnect fd
      else
        ((server.record (.queued fd message true)).updateClient fd
          (·.appendSendBuffer normalized)).updatePollEvents fd

/-- Queue one message to a list of descriptors, in order. -/
def queueToAll (message : Bytes) : List Int → Server → Server
  | [], server => server
  | fd :: rest, server => queueToAll message rest (server.queueToClient fd message)

/-- Add the members of one channel, if it exists. -/
def addTargets (server : Server) (targets : ExtTreeSet Int) (channelKey : Bytes) : ExtTreeSet Int :=
  match server.findChannel channelKey with
  | none => targets
  | some channel => targets.insertMany channel.members.toList

/-- The descriptors that share a channel with a client, the client excluded. -/
def sharedTargets (server : Server) (client : Client) : ExtTreeSet Int :=
  (client.joinedChannels.toList.foldl server.addTargets ∅).erase client.fd

def broadcastToSharedChannels (server : Server) (client : Client) (message : Bytes) : Server :=
  queueToAll message (server.sharedTargets client).toList server

/-- No descriptor is excluded when `excludeFd` is `-1`. -/
def broadcastToChannel (server : Server) (channel : Channel) (message : Bytes)
    (excludeFd : Int) : Server :=
  queueToAll message (channel.members.toList.filter (· != excludeFd)) server

/-! ## Nickname index -/

def isNicknameAvailable (server : Server) (nickname : Bytes) (exceptFd : Int) : Bool :=
  match server.nickToFd[IrcUtil.ircCaseFold nickname]? with
  | none => true
  | some fd => fd == exceptFd

def registerNickname (server : Server) (fd : Int) (nickname : Bytes) : Server :=
  { server with nickToFd := server.nickToFd.insert (IrcUtil.ircCaseFold nickname) fd }

def unregisterNickname (server : Server) (nickname : Bytes) : Server :=
  { server with nickToFd := server.nickToFd.erase (IrcUtil.ircCaseFold nickname) }

/-! ## Membership -/

/-- The flag confirms that both sides of the relation hold afterwards. -/
def joinChannel (server : Server) (clientFd : Int) (channelKey : Bytes) : Bool × Server :=
  match server.findClientByFd clientFd, server.findChannel channelKey with
  | some _, some channel =>
      let joined := (server.updateChannel channelKey (·.addMember clientFd)).updateClient
        clientFd (·.addJoinedChannel channel.keyName)
      let channelSide := (joined.findChannel channelKey).any (·.hasMember clientFd)
      let clientSide := (joined.findClientByFd clientFd).any (·.hasJoinedChannel channel.keyName)
      (channelSide && clientSide, joined)
  | _, _ => (false, server)

def deleteChannelIfEmpty (server : Server) (channelKey : Bytes) : Server :=
  match server.findChannel channelKey with
  | none => server
  | some channel =>
      if channel.isEmpty then { server with channels := server.channels.erase channel.keyName }
      else server

def leaveChannel (server : Server) (clientFd : Int) (channelKey reason : Bytes)
    (sendPart : Bool) : Server :=
  match server.findClientByFd clientFd, server.findChannel channelKey with
  | some client, some channel =>
      if !channel.hasMember clientFd then server
      else
        let notice := Reply.command (Reply.clientPrefix client) (ascii "PART")
          (channel.name ++ ascii " :" ++ reason)
        let notified :=
          if sendPart then server.broadcastToChannel channel notice (-1) else server
        ((notified.updateChannel channelKey
            (fun channel => (channel.removeMember clientFd).removeInvite clientFd)).updateClient
          clientFd (·.removeJoinedChannel channel.keyName)).deleteChannelIfEmpty channel.keyName
  | _, _ => server

/-- One round of the loop over the joined channels of a leaving client. -/
def removeFromChannel (clientFd : Int) (server : Server) (key : Bytes) : Server :=
  match server.findChannel key with
  | none => server
  | some _ =>
      ((server.updateChannel key (·.removeMember clientFd)).updateClient clientFd
        (·.removeJoinedChannel key)).deleteChannelIfEmpty key

def removeClientFromAllChannels (server : Server) (clientFd : Int) : Server :=
  match server.findClientByFd clientFd with
  | none => server
  | some client =>
      let left := client.joinedChannels.toList.foldl (removeFromChannel clientFd) server
      { left with channels := left.channels.map fun _ channel => channel.removeInvite clientFd }

/-! ## Disconnection -/

def eraseClient (server : Server) (fd : Int) : Server :=
  { server with
    disconnectReasons := server.disconnectReasons.erase fd
    clients := server.clients.erase fd }

def disconnectClient (server : Server) (fd : Int) (reason : Bytes) : Server :=
  match server.findClientByFd fd with
  | none => server
  | some client =>
      let notice := Reply.command (Reply.clientPrefix client) (ascii "QUIT") (ascii ":" ++ reason)
      let left := (server.broadcastToSharedChannels client notice).removeClientFromAllChannels fd
      let unnamed :=
        if client.nickname.isEmpty then left else left.unregisterNickname client.nickname
      (unnamed.removeClientPollFd fd).eraseClient fd

/-- The reason saved by QUIT, or the fixed text. -/
def disconnectReason (server : Server) (fd : Int) : Bytes :=
  (server.disconnectReasons[fd]?).getD (ascii "Connection closed")

/-- Disconnect a list of descriptors, in order. -/
def disconnectAll : List Int → Server → Server
  | [], server => server
  | fd :: rest, server =>
      disconnectAll rest (server.disconnectClient fd (server.disconnectReason fd))

def processPendingDisconnects (server : Server) : Server :=
  disconnectAll server.pendingDisconnects.toList { server with pendingDisconnects := ∅ }

/-! ## Shared checks -/

def requireChannelMember (server : Server) (fd : Int) (channel : Channel) : Bool × Server :=
  if channel.hasMember fd then (true, server)
  else
    match server.findClientByFd fd with
    | none => (false, server)
    | some client =>
        (false, server.queueToClient fd (Reply.numeric server.serverName client
          Numeric.errNotOnChannel (channel.name ++ ascii " :You're not on that channel")))

def requireChannelOperator (server : Server) (fd : Int) (channel : Channel) : Bool × Server :=
  if channel.isOperator fd then (true, server)
  else
    match server.findClientByFd fd with
    | none => (false, server)
    | some client =>
        (false, server.queueToClient fd (Reply.numeric server.serverName client
          Numeric.errChanOPrivsNeeded (channel.name ++ ascii " :You're not channel operator")))

def sendNoSuchChannel (server : Server) (fd : Int) (client : Client) (channelName : Bytes) :
    Server :=
  server.queueToClient fd (Reply.numeric server.serverName client Numeric.errNoSuchChannel
    (channelName ++ ascii " :No such channel"))

def requireParams (server : Server) (fd : Int) (message : Message) (count : Nat) :
    Bool × Server :=
  if count ≤ message.params.length then (true, server)
  else
    match server.findClientByFd fd with
    | none => (false, server)
    | some client =>
        (false, server.queueToClient fd (Reply.numeric server.serverName client
          Numeric.errNeedMoreParams (message.command ++ ascii " :Not enough parameters")))

end Server

end IrcPlatform.Irc
