import IrcPlatform.Irc.Server

/-!
# Channel commands

JOIN, PART, KICK, INVITE, TOPIC and QUIT. The comma lists of JOIN and PART are
processed element by element, each against the state the previous one left.
-/

namespace IrcPlatform.Irc.Server

open Std

/-- Nicknames of the members in descriptor order, operators marked with `@`. -/
def namesOf (server : Server) (channel : Channel) : Bytes :=
  channel.members.toList.foldl
    (fun names fd =>
      match server.findClientByFd fd with
      | none => names
      | some member =>
          names ++ (if names.isEmpty then [] else ascii " ") ++
            (if channel.isOperator fd then ascii "@" else []) ++ member.nickname)
    []

/-- RPL_TOPIC or RPL_NOTOPIC. -/
def sendTopic (server : Server) (fd : Int) (client : Client) (channel : Channel) : Server :=
  if channel.hasTopic then
    server.queueToClient fd (Reply.numeric server.serverName client Numeric.rplTopic
      (channel.name ++ ascii " :" ++ channel.topic))
  else
    server.queueToClient fd (Reply.numeric server.serverName client Numeric.rplNoTopic
      (channel.name ++ ascii " :No topic is set"))

/-- The notice to all members and the topic and names replies to the new one. -/
def announceJoin (server : Server) (fd : Int) (client : Client) (channel : Channel) : Server :=
  let announced := (server.broadcastToChannel channel
    (Reply.command (Reply.clientPrefix client) (ascii "JOIN") (ascii ":" ++ channel.name))
    (-1)).sendTopic fd client channel
  (announced.queueToClient fd (Reply.numeric server.serverName client Numeric.rplNamReply
      (ascii "= " ++ channel.name ++ ascii " :" ++ announced.namesOf channel))).queueToClient
    fd (Reply.numeric server.serverName client Numeric.rplEndOfNames
      (channel.name ++ ascii " :End of NAMES list"))

/-- The part of JOIN after all admission checks; `created` tells a new channel. -/
def completeJoin (server : Server) (fd : Int) (client : Client) (normalizedKey : Bytes)
    (created : Bool) : Server :=
  let joined := server.joinChannel fd normalizedKey
  if !joined.1 then joined.2.deleteChannelIfEmpty normalizedKey
  else
    let admitted := joined.2.updateChannel normalizedKey fun channel =>
      (if created then (channel.addOperator fd).2 else channel).removeInvite fd
    match admitted.findChannel normalizedKey with
    | none => admitted
    | some channel => admitted.announceJoin fd client channel

/-- One element of the JOIN list with the key at the same position. -/
def joinElement (server : Server) (fd : Int) (channelName key : Bytes) : Server :=
  match server.findClientByFd fd with
  | none => server
  | some client =>
      if !IrcUtil.isValidChannelName channelName then
        server.sendNoSuchChannel fd client channelName
      else
        let normalizedKey := IrcUtil.normalizeChannelName channelName
        if client.hasJoinedChannel normalizedKey then server
        else
          match server.findChannel normalizedKey with
          | none =>
              let created := { server with
                channels := server.channels.insertIfNew normalizedKey
                  { name := channelName, keyName := normalizedKey } }
              created.completeJoin fd client normalizedKey true
          | some channel =>
              if channel.inviteOnly && !channel.isInvited fd then
                server.queueToClient fd (Reply.numeric server.serverName client
                  Numeric.errInviteOnlyChan (channel.name ++ ascii " :Cannot join channel (+i)"))
              else if !channel.matchesKey key then
                server.queueToClient fd (Reply.numeric server.serverName client
                  Numeric.errBadChannelKey (channel.name ++ ascii " :Cannot join channel (+k)"))
              else if channel.isFull then
                server.queueToClient fd (Reply.numeric server.serverName client
                  Numeric.errChannelIsFull (channel.name ++ ascii " :Cannot join channel (+l)"))
              else server.completeJoin fd client normalizedKey false

/-- The element loop of JOIN; a missing key is the empty string. -/
def joinElements (fd : Int) : List Bytes → List Bytes → Server → Server
  | [], _, server => server
  | channelName :: channels, keys, server =>
      joinElements fd channels keys.tail (server.joinElement fd channelName (keys.headD []))

/-- `JOIN 0`: leave the channels of a list, in order. -/
def leaveAll (fd : Int) (reason : Bytes) : List Bytes → Server → Server
  | [], server => server
  | key :: rest, server => leaveAll fd reason rest (server.leaveChannel fd key reason true)

def handleJoin (server : Server) (fd : Int) (message : Message) : Server :=
  match server.findClientByFd fd with
  | none => server
  | some client =>
      match message.params with
      | [] => (server.requireParams fd message 1).2
      | targets :: arguments =>
          if targets == ascii "0" then
            leaveAll fd client.nickname client.joinedChannels.toList server
          else
            let keys :=
              match arguments with
              | [] => []
              | keys :: _ => IrcUtil.splitCommaList keys
            joinElements fd (IrcUtil.splitCommaList targets) keys server

/-- One element of the PART list. -/
def partElement (server : Server) (fd : Int) (reason channelName : Bytes) : Server :=
  match server.findClientByFd fd with
  | none => server
  | some client =>
      let normalizedKey := IrcUtil.normalizeChannelName channelName
      match server.findChannel normalizedKey with
      | none => server.sendNoSuchChannel fd client channelName
      | some channel =>
          let member := server.requireChannelMember fd channel
          if !member.1 then member.2
          else member.2.leaveChannel fd normalizedKey reason true

def partElements (fd : Int) (reason : Bytes) : List Bytes → Server → Server
  | [], server => server
  | channelName :: channels, server =>
      partElements fd reason channels (server.partElement fd reason channelName)

def handlePart (server : Server) (fd : Int) (message : Message) : Server :=
  match server.findClientByFd fd with
  | none => server
  | some client =>
      match message.params with
      | [] => (server.requireParams fd message 1).2
      | targets :: arguments =>
          partElements fd (arguments.headD client.nickname) (IrcUtil.splitCommaList targets) server

def handleKick (server : Server) (fd : Int) (message : Message) : Server :=
  match server.findClientByFd fd with
  | none => server
  | some client =>
      match message.params with
      | channelName :: targetNick :: arguments =>
          match server.findChannel channelName with
          | none => server.sendNoSuchChannel fd client channelName
          | some channel =>
              let member := server.requireChannelMember fd channel
              if !member.1 then member.2
              else
                let operator := member.2.requireChannelOperator fd channel
                if !operator.1 then operator.2
                else
                  match operator.2.findClientByNickname targetNick with
                  | none =>
                      operator.2.queueToClient fd (Reply.numeric server.serverName client
                        Numeric.errNoSuchNick (targetNick ++ ascii " :No such nick/channel"))
                  | some target =>
                      if !channel.hasMember target.fd then
                        operator.2.queueToClient fd (Reply.numeric server.serverName client
                          Numeric.errUserNotInChannel
                          (targetNick ++ ascii " " ++ channel.name ++
                            ascii " :They aren't on that channel"))
                      else
                        let reason := arguments.headD client.nickname
                        let notice := Reply.command (Reply.clientPrefix client) (ascii "KICK")
                          (channel.name ++ ascii " " ++ target.nickname ++ ascii " :" ++ reason)
                        (operator.2.broadcastToChannel channel notice (-1)).leaveChannel
                          target.fd channel.keyName reason false
      | _ => (server.requireParams fd message 2).2

def handleInvite (server : Server) (fd : Int) (message : Message) : Server :=
  match server.findClientByFd fd with
  | none => server
  | some client =>
      match message.params with
      | targetNick :: channelName :: _ =>
          match server.findClientByNickname targetNick with
          | none =>
              server.queueToClient fd (Reply.numeric server.serverName client
                Numeric.errNoSuchNick (targetNick ++ ascii " :No such nick/channel"))
          | some target =>
              match server.findChannel channelName with
              | none => server.sendNoSuchChannel fd client channelName
              | some channel =>
                  let member := server.requireChannelMember fd channel
                  if !member.1 then member.2
                  else
                    let operator := member.2.requireChannelOperator fd channel
                    if !operator.1 then operator.2
                    else if channel.hasMember target.fd then
                      operator.2.queueToClient fd (Reply.numeric server.serverName client
                        Numeric.errUserOnChannel
                        (target.nickname ++ ascii " " ++ channel.name ++
                          ascii " :is already on channel"))
                    else
                      let invited := operator.2.updateChannel channelName (·.addInvite target.fd)
                      (invited.queueToClient fd (Reply.numeric server.serverName client
                          Numeric.rplInviting
                          (channel.name ++ ascii " " ++ target.nickname))).queueToClient
                        target.fd (Reply.command (Reply.clientPrefix client) (ascii "INVITE")
                          (target.nickname ++ ascii " :" ++ channel.name))
      | _ => (server.requireParams fd message 2).2

def handleTopic (server : Server) (fd : Int) (message : Message) : Server :=
  match server.findClientByFd fd with
  | none => server
  | some client =>
      match message.params with
      | [] => (server.requireParams fd message 1).2
      | channelName :: arguments =>
          match server.findChannel channelName with
          | none => server.sendNoSuchChannel fd client channelName
          | some channel =>
              let member := server.requireChannelMember fd channel
              if !member.1 then member.2
              else
                match arguments with
                | [] => member.2.sendTopic fd client channel
                | topic :: _ =>
                    let operator :=
                      if channel.topicRestricted then member.2.requireChannelOperator fd channel
                      else (true, member.2)
                    if !operator.1 then operator.2
                    else
                      let notice := Reply.command (Reply.clientPrefix client) (ascii "TOPIC")
                        (channel.name ++ ascii " :" ++ topic)
                      (operator.2.updateChannel channelName (·.setTopic topic)).broadcastToChannel
                        channel notice (-1)

def handleQuit (server : Server) (fd : Int) (message : Message) : Server :=
  match server.findClientByFd fd with
  | none => server
  | some _ =>
      let reason := message.params.headD (ascii "Client Quit")
      { server with
        disconnectReasons := server.disconnectReasons.insert fd reason }.scheduleDisconnect fd

end IrcPlatform.Irc.Server
