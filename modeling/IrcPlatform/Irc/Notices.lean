import IrcPlatform.Irc.ModeReplay
import IrcPlatform.Irc.Welcome
import Mathlib.Data.Set.Insert

/-!
# Notices and their audience

What the relayed lines of a command are for: a notice is one line together with the
clients that are to get a copy of it, said in terms of the membership relation
(`Server.notices`). `Delivers` is what the mail has to do with it: every other client
gets its copies and nothing else, and the sender gets its copies among the replies.
-/

namespace IrcPlatform.Irc

open Std

/-- A line and the clients that are to get one copy of it. -/
structure Notice where
  line : Bytes
  audience : Set Int

open Classical in
/-- The copies for one client, in order. -/
noncomputable def copies (fd : Int) (notices : List Notice) : List Bytes :=
  (notices.filter fun notice => fd ∈ notice.audience).map (·.line)

/-- A line that begins with the name of the server. -/
def Reply.fromServer (line : Bytes) : Bool := (ascii ":ircserv.local ").isPrefixOf line

namespace Core

/-- The members of a channel, under any spelling of its name. -/
def audience (core : Core) (name : Bytes) : Set Int :=
  {fd | core.IsMember fd (IrcUtil.normalizeChannelName name)}

/-- The other clients that have a channel in common with one. -/
def neighbours (core : Core) (fd : Int) : Set Int :=
  {other | other ≠ fd ∧ ∃ key, core.IsMember fd key ∧ core.IsMember other key}

end Core

/-! ## The notices of each command -/

namespace Server

def privmsgLine (client : Client) (target text : Bytes) : Bytes :=
  Reply.command (Reply.clientPrefix client) (ascii "PRIVMSG") (target ++ ascii " :" ++ text)

def nickLine (client : Client) (nickname : Bytes) : Bytes :=
  Reply.command (Reply.clientPrefix client) (ascii "NICK") (ascii ":" ++ nickname)

def partLine (client : Client) (channel : Channel) (reason : Bytes) : Bytes :=
  Reply.command (Reply.clientPrefix client) (ascii "PART") (channel.name ++ ascii " :" ++ reason)

def kickLine (client target : Client) (channel : Channel) (reason : Bytes) : Bytes :=
  Reply.command (Reply.clientPrefix client) (ascii "KICK")
    (channel.name ++ ascii " " ++ target.nickname ++ ascii " :" ++ reason)

def inviteLine (client target : Client) (channel : Channel) : Bytes :=
  Reply.command (Reply.clientPrefix client) (ascii "INVITE")
    (target.nickname ++ ascii " :" ++ channel.name)

def topicLine (client : Client) (channel : Channel) (topic : Bytes) : Bytes :=
  Reply.command (Reply.clientPrefix client) (ascii "TOPIC") (channel.name ++ ascii " :" ++ topic)

section Notices

open Classical

variable (server : Server) (fd : Int) (client : Client)

/-- One element of the target list of PRIVMSG. -/
noncomputable def privmsgNotice (text target : Bytes) : List Notice :=
  if target.head? = some (byte '#') then
    match server.findChannel target with
    | none => []
    | some channel =>
        if fd ∈ server.core.audience target then
          [⟨privmsgLine client channel.name text, server.core.audience target \ {fd}⟩]
        else []
  else
    match server.findClientByNickname target with
    | none => []
    | some receiver => [⟨privmsgLine client receiver.nickname text, {receiver.fd}⟩]

noncomputable def nickNotice (nickname : Bytes) : List Notice :=
  if IrcUtil.isValidNickname nickname = true ∧ server.isNicknameAvailable nickname fd = true then
    [⟨nickLine client nickname, insert fd (server.core.neighbours fd)⟩]
  else []

/-- One element of the list of JOIN: the members after the admission. -/
noncomputable def joinNotice (name key : Bytes) : List Notice :=
  match server.findClientByFd fd with
  | none => []
  | some client =>
      if server.Admits fd name key then
        [⟨joinLine client (server.enteredChannel fd name),
          (server.joinElement fd name key).core.audience name⟩]
      else []

noncomputable def joinNotices (fd : Int) : List Bytes → List Bytes → Server → List Notice
  | [], _, _ => []
  | name :: names, keys, server =>
      server.joinNotice fd name (keys.headD []) ++
        joinNotices fd names keys.tail (server.joinElement fd name (keys.headD []))

/-- One departure: the members before it. -/
noncomputable def leaveNotice (reason name : Bytes) : List Notice :=
  match server.findClientByFd fd, server.findChannel name with
  | some client, some channel =>
      if fd ∈ server.core.audience name then
        [⟨partLine client channel reason, server.core.audience name⟩]
      else []
  | _, _ => []

noncomputable def leaveNotices (fd : Int) (reason : Bytes) : List Bytes → Server → List Notice
  | [], _ => []
  | key :: keys, server =>
      server.leaveNotice fd reason key ++
        leaveNotices fd reason keys (server.leaveChannel fd key reason true)

noncomputable def partNotices (fd : Int) (reason : Bytes) : List Bytes → Server → List Notice
  | [], _ => []
  | name :: names, server =>
      server.leaveNotice fd reason name ++
        partNotices fd reason names (server.partElement fd reason name)

/-- A removal by an operator: the members before it. -/
noncomputable def kickNotice (channelName targetNick reason : Bytes) : List Notice :=
  match server.findChannel channelName with
  | none => []
  | some channel =>
      match server.findClientByNickname targetNick with
      | none => []
      | some target =>
          if fd ∈ channel.operators ∧ target.fd ∈ server.core.audience channelName then
            [⟨kickLine client target channel reason, server.core.audience channelName⟩]
          else []

noncomputable def inviteNotice (targetNick channelName : Bytes) : List Notice :=
  match server.findClientByNickname targetNick with
  | none => []
  | some target =>
      match server.findChannel channelName with
      | none => []
      | some channel =>
          if fd ∈ channel.operators ∧ target.fd ∉ server.core.audience channelName then
            [⟨inviteLine client target channel, {target.fd}⟩]
          else []

/-- A change of the topic: the members of the channel in the state `after` it. -/
noncomputable def topicNotice (after : Server) (channelName topic : Bytes) : List Notice :=
  match server.findChannel channelName with
  | none => []
  | some channel =>
      if fd ∈ server.core.audience channelName ∧
          (channel.topicRestricted = true → fd ∈ channel.operators) then
        [⟨topicLine client channel topic, after.core.audience channelName⟩]
      else []

/-- The effective changes of a MODE command: the members in the state `after` them. -/
noncomputable def modeNotice (after : Server) (target modeString : Bytes)
    (arguments : List Bytes) : List Notice :=
  match server.findChannel target with
  | none => []
  | some channel =>
      let loop := server.modeLoop fd client target modeString arguments
      if fd ∈ channel.operators ∧ loop.changedModes ≠ [] then
        [⟨modeLine client channel loop.changedModes loop.changedParams,
          after.core.audience target⟩]
      else []

/-- The notices that a message of a client is to give rise to. -/
noncomputable def notices (message : Message) : List Notice :=
  match server.findClientByFd fd with
  | none => []
  | some client =>
      if client.registered = false then []
      else if message.command = ascii "PRIVMSG" then
        match message.params with
        | [] => []
        | targets :: arguments =>
            if arguments.headD [] = [] then []
            else (IrcUtil.splitCommaList targets).flatMap
              (server.privmsgNotice fd client (arguments.headD []))
      else if message.command = ascii "NICK" then
        match message.params with
        | [] => []
        | nickname :: _ => server.nickNotice fd client nickname
      else if message.command = ascii "JOIN" then
        match message.params with
        | [] => []
        | targets :: arguments =>
            if targets = ascii "0" then
              leaveNotices fd client.nickname client.joinedChannels.toList server
            else joinNotices fd (IrcUtil.splitCommaList targets) (joinKeys arguments) server
      else if message.command = ascii "PART" then
        match message.params with
        | [] => []
        | targets :: arguments =>
            partNotices fd (arguments.headD client.nickname) (IrcUtil.splitCommaList targets)
              server
      else if message.command = ascii "KICK" then
        match message.params with
        | channelName :: targetNick :: arguments =>
            server.kickNotice fd client channelName targetNick
              (arguments.headD client.nickname)
        | _ => []
      else if message.command = ascii "INVITE" then
        match message.params with
        | targetNick :: channelName :: _ => server.inviteNotice fd client targetNick channelName
        | _ => []
      else if message.command = ascii "TOPIC" then
        match message.params with
        | channelName :: topic :: _ =>
            server.topicNotice fd client (server.dispatchCommand fd message) channelName topic
        | _ => []
      else if message.command = ascii "MODE" then
        match message.params with
        | target :: modeString :: arguments =>
            server.modeNotice fd client (server.dispatchCommand fd message) target modeString
              arguments
        | _ => []
      else []

end Notices

end Server

end IrcPlatform.Irc
