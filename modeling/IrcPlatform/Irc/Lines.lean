import IrcPlatform.Irc.Mail

/-!
# The lines of a command

`CommandLine` lists every line that a dispatched command can post and to whom:
a numeric reply or an answer to the sender itself, a notice with the prefix of a
registered sender to registered clients, and the two lines that are delivered by
nickname. `dispatchCommand_mail` shows that the list is complete, up to the
welcome sequence of a registration.
-/

namespace IrcPlatform.Irc

open Std Relation

/-- A client record without its buffers and its channels. -/
def Client.identity (client : Client) : Client :=
  { client with receiveBuffer := [], sendBuffer := [], joinedChannels := ∅ }

@[simp] theorem Client.identity_withoutBuffers (client : Client) :
    client.withoutBuffers.identity = client.identity := rfl

@[simp] theorem Client.identity_addJoinedChannel (client : Client) (key : Bytes) :
    (client.addJoinedChannel key).identity = client.identity := rfl

@[simp] theorem Client.identity_removeJoinedChannel (client : Client) (key : Bytes) :
    (client.removeJoinedChannel key).identity = client.identity := rfl

namespace Client

variable {client other : Client} (same : other.identity = client.identity)
include same

theorem fd_of_identity : other.fd = client.fd := by
  have fields := congrArg Client.fd same
  exact fields

theorem nickname_of_identity : other.nickname = client.nickname := by
  have fields := congrArg Client.nickname same
  exact fields

theorem registered_of_identity : other.registered = client.registered := by
  have fields := congrArg Client.registered same
  exact fields

end Client

theorem Reply.clientPrefix_of_identity {client other : Client}
    (same : other.identity = client.identity) :
    Reply.clientPrefix other = Reply.clientPrefix client := by
  have fields := congrArg Reply.clientPrefix same
  exact fields

theorem Reply.numeric_of_nickname {target client : Client}
    (same : target.nickname = client.nickname) (serverName : Bytes) (code : Nat)
    (parameters : Bytes) :
    Reply.numeric serverName target code parameters =
      Reply.numeric serverName client code parameters := by
  simp only [Reply.numeric, same]

/-- The replies 001, 002, 003, 004 and 422 in their order. -/
def welcomeCodes : List Nat :=
  [Numeric.rplWelcome, Numeric.rplYourHost, Numeric.rplCreated, Numeric.rplMyInfo,
    Numeric.errNoMotd]

/-- The codes of all other replies. -/
def replyCodes : List Nat :=
  [Numeric.rplChannelModeIs, Numeric.rplNoTopic, Numeric.rplTopic, Numeric.rplInviting,
    Numeric.rplNamReply, Numeric.rplEndOfNames, Numeric.errNoSuchNick, Numeric.errNoSuchChannel,
    Numeric.errCannotSendToChan, Numeric.errNoOrigin, Numeric.errNoRecipient,
    Numeric.errNoTextToSend, Numeric.errUnknownCommand, Numeric.errNoNicknameGiven,
    Numeric.errErroneusNickname, Numeric.errNicknameInUse, Numeric.errUserNotInChannel,
    Numeric.errNotOnChannel, Numeric.errUserOnChannel, Numeric.errNotRegistered,
    Numeric.errNeedMoreParams, Numeric.errAlreadyRegistred, Numeric.errPasswdMismatch,
    Numeric.errChannelIsFull, Numeric.errUnknownMode, Numeric.errInviteOnlyChan,
    Numeric.errBadChannelKey, Numeric.errChanOPrivsNeeded]

/-- The commands that are relayed to the members of a channel, and NICK. -/
def noticeCommands : List Bytes :=
  [ascii "NICK", ascii "JOIN", ascii "PART", ascii "PRIVMSG", ascii "KICK", ascii "TOPIC",
    ascii "MODE"]

inductive CommandLine (server : Server) (fd : Int) (client : Client) (message : Message) :
    Posting → Prop where
  | numeric {code : Nat} (listed : code ∈ replyCodes) (parameters : Bytes) :
      CommandLine server fd client message
        ⟨fd, Reply.numeric server.serverName client code parameters⟩
  | answer {command : Bytes} (listed : command ∈ [ascii "CAP", ascii "PONG"])
      (parameters : Bytes) :
      CommandLine server fd client message
        ⟨fd, Reply.command (Reply.serverPrefix server.serverName) command parameters⟩
  | notice {receiver : Int} {record : Client} {command : Bytes}
      (registered : client.registered = true)
      (found : server.findClientByFd receiver = some record)
      (admitted : record.registered = true) (listed : command ∈ noticeCommands)
      (parameters : Bytes) :
      CommandLine server fd client message
        ⟨receiver, Reply.command (Reply.clientPrefix client) command parameters⟩
  | privmsg {target : Client} {targets name text : Bytes} {arguments : List Bytes}
      (registered : client.registered = true) (command : message.command = ascii "PRIVMSG")
      (params : message.params = targets :: arguments) (given : text = arguments.headD [])
      (listed : name ∈ IrcUtil.splitCommaList targets)
      (found : server.findClientByNickname name = some target) :
      CommandLine server fd client message
        ⟨target.fd, Reply.command (Reply.clientPrefix client) (ascii "PRIVMSG")
          (target.nickname ++ ascii " :" ++ text)⟩
  | invite {target : Client} {channel : Channel} {name channelName : Bytes}
      {arguments : List Bytes} (registered : client.registered = true)
      (command : message.command = ascii "INVITE")
      (params : message.params = name :: channelName :: arguments)
      (found : server.findClientByNickname name = some target)
      (foundChannel : server.findChannel channelName = some channel)
      (operator : fd ∈ channel.operators) :
      CommandLine server fd client message
        ⟨target.fd, Reply.command (Reply.clientPrefix client) (ascii "INVITE")
          (target.nickname ++ ascii " :" ++ channel.name)⟩

/-- The index and the records are the same up to buffers and channels. -/
structure SameRecords (before after : Server) : Prop where
  serverName : after.serverName = before.serverName
  nickToFd : after.nickToFd = before.nickToFd
  identity (fd : Int) : (after.findClientByFd fd).map Client.identity =
    (before.findClientByFd fd).map Client.identity
  reasons (fd : Int) : fd ∈ after.disconnectReasons →
    fd ∈ before.disconnectReasons ∨ (before.findClientByFd fd).isSome = true
  /-- New channels have valid names. -/
  keys (key : Bytes) : key ∈ after.channels →
    key ∈ before.channels ∨ IrcUtil.isValidChannelName key = true

namespace SameRecords

variable {before between after : Server}

theorem refl (server : Server) : SameRecords server server :=
  ⟨rfl, rfl, fun _ => rfl, fun _ => Or.inl, fun _ => Or.inl⟩

theorem isSome (same : SameRecords before after) (fd : Int) :
    (after.findClientByFd fd).isSome = (before.findClientByFd fd).isSome := by
  have identity := congrArg Option.isSome (same.identity fd)
  rwa [Option.isSome_map, Option.isSome_map] at identity

theorem trans (first : SameRecords before between) (second : SameRecords between after) :
    SameRecords before after where
  serverName := second.serverName.trans first.serverName
  nickToFd := second.nickToFd.trans first.nickToFd
  identity fd := (second.identity fd).trans (first.identity fd)
  reasons fd reason := by
    rcases second.reasons fd reason with earlier | live
    · exact first.reasons fd earlier
    · exact Or.inr (first.isSome fd ▸ live)
  keys key listed := by
    rcases second.keys key listed with earlier | valid
    · exact first.keys key earlier
    · exact Or.inr valid

theorem exists_before (same : SameRecords before after) {fd : Int} {client : Client}
    (found : after.findClientByFd fd = some client) :
    ∃ old, before.findClientByFd fd = some old ∧ old.identity = client.identity := by
  have identity := same.identity fd
  rw [found] at identity
  exact Option.map_eq_some_iff.mp identity.symm

theorem findClientByNickname (same : SameRecords before after) {nickname : Bytes}
    {client : Client} (found : after.findClientByNickname nickname = some client) :
    ∃ old, before.findClientByNickname nickname = some old ∧
      old.identity = client.identity := by
  simp only [Server.findClientByNickname, same.nickToFd] at found ⊢
  split at found
  · simp at found
  next fd entry =>
    exact same.exists_before found

theorem updateClient (server : Server) (fd : Int) {change : Client → Client}
    (kept : ∀ client, (change client).identity = client.identity) :
    SameRecords server (server.updateClient fd change) := by
  refine ⟨rfl, rfl, ?_, fun _ => Or.inl, fun _ => Or.inl⟩
  intro other
  rw [Server.findClientByFd_updateClient_eq]
  split
  next same =>
    subst same
    simp [Option.map_map, Function.comp_def, kept]
  · rfl

theorem queueToClient (server : Server) (fd : Int) (message : Bytes) :
    SameRecords server (server.queueToClient fd message) := by
  constructor
  case serverName =>
    simp only [Server.queueToClient, Server.updatePollEvents]
    split
    · rfl
    · split
      · rfl
      · split
        · rfl
        · rfl
  case nickToFd =>
    simp only [Server.queueToClient, Server.updatePollEvents]
    split
    · rfl
    · split
      · rfl
      · split
        · rfl
        · rfl
  case identity =>
    intro other
    rw [Server.findClientByFd_queueToClient]
    split
    next same =>
      subst same
      have kept : ∀ client, (Server.deliver message client).identity = client.identity := by
        intro client
        simp only [Server.deliver]
        split
        · rfl
        · rfl
      simp [Option.map_map, Function.comp_def, kept]
    · rfl
  case reasons =>
    intro other reason
    rw [Server.disconnectReasons_queueToClient] at reason
    exact Or.inl reason
  case keys =>
    intro key listed
    rw [Server.channels_queueToClient] at listed
    exact Or.inl listed

theorem queueToAll (message : Bytes) (targets : List Int) (server : Server) :
    SameRecords server (Server.queueToAll message targets server) := by
  induction targets generalizing server with
  | nil => exact refl server
  | cons target rest ih => exact (queueToClient server target message).trans (ih _)

end SameRecords

/-- The server `now` came from `start` by posting lines of the command and by writes that
keep all records up to their channels. -/
structure Tells (start : Server) (fd : Int) (client : Client) (message : Message)
    (now : Server) : Prop where
  lines : ∃ postings, start.Posts postings now ∧
    ∀ posting ∈ postings, CommandLine start fd client message posting
  same : SameRecords start now

namespace Tells

variable {start now after : Server} {fd : Int} {client current : Client} {message : Message}

theorem refl : Tells start fd client message start :=
  ⟨⟨[], Server.Posts.refl start, by simp⟩, SameRecords.refl start⟩

theorem queue (tells : Tells start fd client message now) {receiver : Int} {text : Bytes}
    (line : CommandLine start fd client message ⟨receiver, text⟩) :
    Tells start fd client message (now.queueToClient receiver text) := by
  rcases tells.lines with ⟨postings, posts, all⟩
  refine ⟨⟨_, posts.queue receiver text, ?_⟩,
    tells.same.trans (SameRecords.queueToClient now receiver text)⟩
  intro posting listed
  rcases List.mem_append.mp listed with listed | listed
  · exact all posting listed
  · rw [List.mem_singleton.mp listed]
    exact line

/-- A write outside the mail that keeps the records. -/
theorem quiet (tells : Tells start fd client message now) (mail : after.mail = now.mail)
    (same : SameRecords now after) : Tells start fd client message after := by
  rcases tells.lines with ⟨postings, posts, all⟩
  exact ⟨⟨postings, posts.of_mail_eq mail, all⟩, tells.same.trans same⟩

theorem updateChannel (tells : Tells start fd client message now) (name : Bytes)
    (change : Channel → Channel) :
    Tells start fd client message (now.updateChannel name change) :=
  tells.quiet rfl ⟨rfl, rfl, fun _ => rfl, fun _ => Or.inl, fun _ listed =>
    Or.inl (ExtTreeMap.mem_modify.mp listed)⟩

theorem updateClient (tells : Tells start fd client message now) (other : Int)
    {change : Client → Client} (kept : ∀ client, (change client).identity = client.identity)
    (send : ∀ client, (change client).sendBuffer = client.sendBuffer) :
    Tells start fd client message (now.updateClient other change) :=
  tells.quiet (Server.mail_updateClient now other fun client _ => send client)
    (SameRecords.updateClient now other kept)

theorem deleteChannelIfEmpty (tells : Tells start fd client message now) (key : Bytes) :
    Tells start fd client message (now.deleteChannelIfEmpty key) := by
  apply tells.quiet (now.mail_deleteChannelIfEmpty key)
  simp only [Server.deleteChannelIfEmpty]
  split
  · exact SameRecords.refl now
  · split
    · exact ⟨rfl, rfl, fun _ => rfl, fun _ => Or.inl, fun _ listed =>
        Or.inl (ExtTreeMap.mem_of_mem_erase listed)⟩
    · exact SameRecords.refl now

theorem queueToAll (tells : Tells start fd client message now) {text : Bytes}
    {targets : List Int}
    (lines : ∀ target ∈ targets, CommandLine start fd client message ⟨target, text⟩) :
    Tells start fd client message (Server.queueToAll text targets now) := by
  induction targets generalizing now with
  | nil => exact tells
  | cons target rest ih =>
      apply ih (tells.queue (lines target List.mem_cons_self))
      intro other listed
      exact lines other (List.mem_cons_of_mem target listed)

/-- The sender's record, looked up later in the command. -/
theorem sender (tells : Tells start fd client message now)
    (found : start.findClientByFd fd = some client)
    (foundNow : now.findClientByFd fd = some current) : current.identity = client.identity := by
  rcases tells.same.exists_before foundNow with ⟨old, foundOld, identity⟩
  rw [found, Option.some.injEq] at foundOld
  rw [foundOld, identity]

theorem numeric (tells : Tells start fd client message now) {serverName : Bytes}
    (name : serverName = start.serverName) (identity : current.identity = client.identity)
    {code : Nat} (listed : code ∈ replyCodes) (parameters : Bytes) :
    Tells start fd client message
      (now.queueToClient fd (Reply.numeric serverName current code parameters)) := by
  rw [name, Reply.numeric_of_nickname (Client.nickname_of_identity identity)]
  exact tells.queue (CommandLine.numeric listed parameters)

/-- The members of a channel are registered, seen from the start of the command. -/
theorem members (tells : Tells start fd client message now) (consistent : now.core.Consistent)
    {name : Bytes} {channel : Channel} (found : now.findChannel name = some channel) :
    ∀ member ∈ channel.members, ∃ record, start.findClientByFd member = some record ∧
      record.registered = true := by
  intro member listed
  have stored : now.core.channels (IrcUtil.normalizeChannelName name) = some channel := found
  rcases consistent.member_live stored listed with ⟨client, live, _⟩
  have registered := consistent.member_registered _ channel member client stored listed live
  rcases Server.exists_find_of_core_clients now member live with ⟨record, foundRecord, same⟩
  rcases tells.same.exists_before foundRecord with ⟨old, foundOld, identity⟩
  refine ⟨old, foundOld, ?_⟩
  have flag := congrArg Client.registered same
  rw [Client.registered_of_identity identity]
  exact flag.trans registered

/-- A notice to members of a channel. -/
theorem broadcast (tells : Tells start fd client message now)
    (registered : client.registered = true)
    {channel : Channel}
    (members : ∀ member ∈ channel.members, ∃ record,
      start.findClientByFd member = some record ∧ record.registered = true)
    (identity : current.identity = client.identity) {command : Bytes}
    (listed : command ∈ noticeCommands) (parameters : Bytes) (excludeFd : Int) :
    Tells start fd client message (now.broadcastToChannel channel
      (Reply.command (Reply.clientPrefix current) command parameters) excludeFd) := by
  apply tells.queueToAll
  intro target chosen
  have member : target ∈ channel.members := by
    rw [← ExtTreeSet.mem_toList]
    exact (List.mem_filter.mp chosen).1
  rcases members target member with ⟨record, found, admitted⟩
  rw [Reply.clientPrefix_of_identity identity]
  exact CommandLine.notice registered found admitted listed parameters

/-! ## Shared checks -/

theorem sendNoSuchChannel (tells : Tells start fd client message now)
    (identity : current.identity = client.identity) (name : Bytes) :
    Tells start fd client message (now.sendNoSuchChannel fd current name) :=
  tells.numeric tells.same.serverName identity (by decide) _

theorem sendTopic (tells : Tells start fd client message now)
    (identity : current.identity = client.identity) (channel : Channel) :
    Tells start fd client message (now.sendTopic fd current channel) := by
  simp only [Server.sendTopic]
  split
  · exact tells.numeric tells.same.serverName identity (by decide) _
  · exact tells.numeric tells.same.serverName identity (by decide) _

variable (found : start.findClientByFd fd = some client)
include found

theorem requireParams (tells : Tells start fd client message now) (other : Message)
    (count : Nat) : Tells start fd client message (now.requireParams fd other count).2 := by
  simp only [Server.requireParams]
  split
  · exact tells
  · split
    · exact tells
    next current foundNow =>
      exact tells.numeric tells.same.serverName (tells.sender found foundNow) (by decide) _

theorem requireChannelMember (tells : Tells start fd client message now) (channel : Channel) :
    Tells start fd client message (now.requireChannelMember fd channel).2 := by
  simp only [Server.requireChannelMember]
  split
  · exact tells
  · split
    · exact tells
    next current foundNow =>
      exact tells.numeric tells.same.serverName (tells.sender found foundNow) (by decide) _

theorem requireChannelOperator (tells : Tells start fd client message now) (channel : Channel) :
    Tells start fd client message (now.requireChannelOperator fd channel).2 := by
  simp only [Server.requireChannelOperator]
  split
  · exact tells
  · split
    · exact tells
    next current foundNow =>
      exact tells.numeric tells.same.serverName (tells.sender found foundNow) (by decide) _

end Tells

end IrcPlatform.Irc
