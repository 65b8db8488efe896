import IrcPlatform.Irc.Deliveries
import IrcPlatform.Irc.Permissions

/-!
# All or nothing

PASS, NICK, USER, KICK, INVITE and TOPIC either answer their sender with one numeric reply
and change nothing, or go through and send no error.
-/

namespace IrcPlatform.Irc

open Std

/-- A 4xx numeric of the server, except 422 that ends the welcome sequence. -/
def Reply.isError (line : Bytes) : Bool :=
  let word := (line.drop (ascii ":ircserv.local ").length).takeWhile (· != byte ' ')
  Reply.fromServer line && word.length == 3 && word.all isAsciiDigit &&
    word.head? == some (byte '4') && word != ascii "422"

theorem Reply.isError_of_foreign {line : Bytes} (foreign : ¬ascii ":ircserv.local " <+: line) :
    Reply.isError line = false := by
  have notOurs : Reply.fromServer line = false := by
    rw [Reply.fromServer, Bool.eq_false_iff, ne_eq, List.isPrefixOf_iff_prefix]
    exact foreign
  simp only [Reply.isError, notOurs, Bool.false_and]

/-- The codes that are errors. -/
def Numeric.isError (code : Nat) : Bool := decide (400 ≤ code ∧ code < 500) && code != 422

theorem digits_error : ∀ code ∈ welcomeCodes ++ replyCodes,
    ((Reply.threeDigits code).length == 3 && (Reply.threeDigits code).all isAsciiDigit &&
      (Reply.threeDigits code).head? == some (byte '4') &&
        Reply.threeDigits code != ascii "422") = Numeric.isError code := by
  decide +kernel

/-- A numeric is recognised by its code. -/
theorem Reply.isError_numeric {target : Client} {code : Nat}
    (valid : target.nickname ≠ [] → IrcUtil.isValidNickname target.nickname = true)
    (listed : code ∈ welcomeCodes ++ replyCodes) (parameters : Bytes) :
    Reply.isError (Reply.numeric (ascii "ircserv.local") target code parameters) =
      Numeric.isError code := by
  have safeServer : IrcUtil.isSafeToken (ascii "ircserv.local") = true := by decide
  have shape := Reply.numeric_eq safeServer (safe_targetName_of_valid valid)
    (Reply.code_bytes code listed).1 parameters
  have start : ascii ":" ++ ascii "ircserv.local" ++ ascii " " = ascii ":ircserv.local " := rfl
  simp only [start, List.append_assoc (ascii ":ircserv.local ")] at shape
  have passes : ∀ c ∈ Reply.threeDigits code, (c != byte ' ') = true := by
    intro c inside
    rw [bne_iff_ne]
    rintro rfl
    exact digits_noSpace code inside
  have ours : Reply.fromServer (Reply.numeric (ascii "ircserv.local") target code parameters) =
      true := by
    rw [shape, Reply.fromServer, List.isPrefixOf_iff_prefix]
    exact List.prefix_append _ _
  have word : ((Reply.numeric (ascii "ircserv.local") target code parameters).drop
      (ascii ":ircserv.local ").length).takeWhile (· != byte ' ') = Reply.threeDigits code := by
    rw [shape, List.drop_left, List.append_assoc, List.append_assoc,
      List.takeWhile_append_of_pos passes]
    simp [ascii]
  simp only [Reply.isError, ours, word, Bool.true_and]
  exact digits_error code listed

/-! ## Attempts -/

/-- Every channel had the modes that it has now. -/
def Core.KeepsModes (before after : Core) : Prop :=
  ∀ key changed, after.channels key = some changed →
    ∃ channel, before.channels key = some channel ∧ channel.SameModes changed

theorem Core.KeepsModes.of_channels {before after : Core}
    (same : after.channels = before.channels) : before.KeepsModes after := by
  intro key changed found
  exact ⟨changed, same ▸ found, Channel.SameModes.refl changed⟩

theorem Core.KeepsModes.of_effect {actor : Int} {before after : Core}
    (effect : LeaveEffect actor before after) : before.KeepsModes after := by
  cases effect with
  | @leave client channel key found foundChannel member =>
      intro other changed present
      rw [Core.leave_channels] at present
      by_cases here : other = key
      · rw [if_pos here] at present
        split at present
        · simp at present
        · rw [Option.some.injEq] at present
          subst here present
          exact ⟨channel, foundChannel, rfl, rfl, rfl, rfl, rfl, rfl⟩
      · rw [if_neg here] at present
        exact ⟨changed, present, Channel.SameModes.refl changed⟩

theorem Core.KeepsModes.setChannel {core : Core} {key : Bytes} {channel changed : Channel}
    (found : core.channels key = some channel) (same : channel.SameModes changed) :
    core.KeepsModes (core.setChannel key changed) := by
  intro other record present
  rw [Core.setChannel_channels] at present
  by_cases here : other = key
  · rw [if_pos here, Option.some.injEq] at present
    subst here present
    exact ⟨channel, found, same⟩
  · rw [if_neg here] at present
    exact ⟨record, present, Channel.SameModes.refl record⟩

namespace Server

/-- What a command did that answers its sender or goes through. -/
inductive Attempt (server : Server) (fd : Int) (client : Client) : Server → Prop where
  | answered {code : Nat} (listed : code ∈ replyCodes) (parameters : Bytes) :
      Attempt server fd client
        (server.queueToClient fd (Reply.numeric server.serverName client code parameters))
  | accepted {after : Server} {postings : List Posting} (posts : server.Posts postings after)
      (noError : ∀ posting ∈ postings, Reply.isError posting.message = false)
      (modes : server.core.KeepsModes after.core) : Attempt server fd client after

section Attempt

variable {server : Server} {fd : Int} {client : Client}

theorem Attempt.quiet : Attempt server fd client server :=
  .accepted (Posts.refl server) (List.forall_mem_nil _) (.of_channels rfl)

theorem Attempt.requireParams (found : server.findClientByFd fd = some client)
    (message : Message) (count : Nat) :
    Attempt server fd client (server.requireParams fd message count).2 := by
  simp only [Server.requireParams, found]
  split
  · exact .quiet
  · exact .answered (by decide) _

theorem Attempt.requireMember (found : server.findClientByFd fd = some client)
    (channel : Channel) :
    Attempt server fd client (server.requireChannelMember fd channel).2 := by
  simp only [Server.requireChannelMember, found]
  split
  · exact .quiet
  · exact .answered (by decide) _

theorem Attempt.requireOperator (found : server.findClientByFd fd = some client)
    (channel : Channel) :
    Attempt server fd client (server.requireChannelOperator fd channel).2 := by
  simp only [Server.requireChannelOperator, found]
  split
  · exact .quiet
  · exact .answered (by decide) _

theorem Attempt.noSuchChannel (name : Bytes) :
    Attempt server fd client (server.sendNoSuchChannel fd client name) :=
  .answered (by decide) _

theorem noError_welcomePostings {completed : Client}
    (serverName : server.serverName = ascii "ircserv.local")
    (valid : completed.nickname ≠ [] → IrcUtil.isValidNickname completed.nickname = true) :
    ∀ posting ∈ server.welcomePostings completed, Reply.isError posting.message = false := by
  simp only [welcomePostings, serverName, List.forall_mem_cons]
  refine ⟨?_, ?_, ?_, ?_, ?_, List.forall_mem_nil _⟩
  · exact Reply.isError_numeric valid (by decide) _
  · exact Reply.isError_numeric valid (by decide) _
  · exact Reply.isError_numeric valid (by decide) _
  · exact Reply.isError_numeric valid (by decide) _
  · exact Reply.isError_numeric valid (by decide) _

/-- A change of the sender's account, followed by the attempt to register. -/
theorem Attempt.tryRegister {changed : Server} {current : Client}
    (mail : changed.mail = server.mail) (channels : changed.channels = server.channels)
    (serverName : changed.serverName = ascii "ircserv.local")
    (found : changed.findClientByFd fd = some current)
    (valid : current.nickname ≠ [] → IrcUtil.isValidNickname current.nickname = true) :
    Attempt server fd client (changed.tryRegisterClient fd) := by
  have posts := posts_tryRegisterClient found
  simp only [Posts, mail] at posts
  refine .accepted posts ?_ ?_
  · split
    · apply noError_welcomePostings serverName
      rw [(accountChange_tryCompleteRegistration current).2]
      exact valid
    · exact List.forall_mem_nil _
  · apply Core.KeepsModes.of_channels
    rw [core_tryRegisterClient found]
    simp only [Core.setClient, core, channels]

/-! ## The six commands -/

/-- What the handlers are given in a reachable state. -/
structure Speaker (server : Server) (fd : Int) (client : Client) : Prop where
  consistent : server.core.Consistent
  serverName : server.serverName = ascii "ircserv.local"
  found : server.findClientByFd fd = some client
  valid : client.nickname ≠ [] → IrcUtil.isValidNickname client.nickname = true

variable (speaker : Speaker server fd client) (message : Message)

include speaker

theorem handlePass_attempt : Attempt server fd client (server.handlePass fd message) := by
  simp only [handlePass, speaker.found]
  split
  · exact .requireParams speaker.found message 1
  · split
    · exact .answered (by decide) _
    · exact .tryRegister (mail_updateClient server fd fun _ _ => rfl) rfl speaker.serverName
        (findClientByFd_updateClient (·.acceptPassword) speaker.found) speaker.valid

theorem handleUser_attempt : Attempt server fd client (server.handleUser fd message) := by
  simp only [handleUser, speaker.found]
  split
  · exact .answered (by decide) _
  · split
    next username _ _ realname _ _ =>
      split
      · exact .answered (by decide) _
      · exact .tryRegister (mail_updateClient server fd fun _ _ => rfl) rfl speaker.serverName
          (findClientByFd_updateClient (·.setUser username realname) speaker.found) speaker.valid
    · exact .requireParams speaker.found message 4

theorem noError_command (word parameters : Bytes) :
    Reply.isError (Reply.command (Reply.clientPrefix client) word parameters) = false :=
  Reply.isError_of_foreign (command_not_of_server speaker.valid word parameters)

theorem handleNick_attempt : Attempt server fd client (server.handleNick fd message) := by
  simp only [handleNick, speaker.found]
  split
  · exact .answered (by decide) _
  next nickname _ _ =>
    split
    · exact .answered (by decide) _
    next valid =>
      split
      · exact .answered (by decide) _
      · split
        · have quiet := noError_command speaker (ascii "NICK") (ascii ":" ++ nickname)
          generalize Reply.command (Reply.clientPrefix client) (ascii "NICK")
            (ascii ":" ++ nickname) = notice at quiet ⊢
          refine .accepted (posts_notifyNick server fd client nickname notice) ?_ ?_
          · intro posting listed
            rcases List.mem_cons.mp listed with rfl | listed
            · exact quiet
            · rcases List.mem_map.mp listed with ⟨target, _, rfl⟩
              exact quiet
          · apply Core.KeepsModes.of_channels
            rw [core_broadcastToSharedChannels, core_queueToClient]
            simp only [core, channels_renameClient]
        · have renamed : (server.renameClient fd client nickname).serverName =
              ascii "ircserv.local" := by
            simp only [renameClient]
            split
            · exact speaker.serverName
            · exact speaker.serverName
          have validNickname : IrcUtil.isValidNickname nickname = true := by simpa using valid
          exact .tryRegister (mail_renameClient server fd client nickname)
            (channels_renameClient server fd client nickname) renamed
            (find_renameClient speaker.found nickname) fun _ => validNickname

/-- The two checks that KICK and INVITE begin with fail for everybody else. -/
theorem Attempt.refuse {channel : Channel} (ordinary : fd ∉ channel.operators)
    (accepted : Server) :
    Attempt server fd client
      (if !(server.requireChannelMember fd channel).1 then
        (server.requireChannelMember fd channel).2
      else if !((server.requireChannelMember fd channel).2.requireChannelOperator fd channel).1
        then ((server.requireChannelMember fd channel).2.requireChannelOperator fd channel).2
      else accepted) := by
  by_cases member : fd ∈ channel.members
  · simp only [requireChannelMember_of_member member, Bool.not_true, Bool.false_eq_true, if_false,
      requireChannelOperator_of_not_operator ordinary, Bool.not_false, if_true]
    exact .requireOperator speaker.found channel
  · simp only [requireChannelMember_of_not_member member, Bool.not_false, if_true]
    exact .requireMember speaker.found channel

theorem handleKick_attempt : Attempt server fd client (server.handleKick fd message) := by
  simp only [handleKick, speaker.found]
  rcases message.params with _ | ⟨channelName, _ | ⟨targetNick, arguments⟩⟩
  · exact .requireParams speaker.found message 2
  · exact .requireParams speaker.found message 2
  · dsimp only
    cases foundChannel : server.findChannel channelName with
    | none => exact .noSuchChannel channelName
    | some channel =>
        dsimp only
        by_cases operator : fd ∈ channel.operators
        · have member := member_of_operator speaker.consistent foundChannel operator
          simp only [requireChannelMember_of_member member,
            requireChannelOperator_of_operator operator, Bool.not_true, Bool.false_eq_true,
            if_false]
          cases foundTarget : server.findClientByNickname targetNick with
          | none => exact .answered (by decide) _
          | some target =>
              dsimp only
              split
              · exact .answered (by decide) _
              · have quiet := noError_command speaker (ascii "KICK")
                  (channel.name ++ ascii " " ++ target.nickname ++ ascii " :" ++
                    arguments.headD client.nickname)
                generalize Reply.command (Reply.clientPrefix client) (ascii "KICK")
                  (channel.name ++ ascii " " ++ target.nickname ++ ascii " :" ++
                    arguments.headD client.nickname) = notice at quiet ⊢
                have kept : (server.broadcastToChannel channel notice (-1)).core = server.core :=
                  core_broadcastToChannel server channel notice (-1)
                refine .accepted ((mail_leaveChannel_silent _ _ _ _).trans
                  (mail_broadcastToChannel server channel notice (-1))) ?_ ?_
                · intro posting listed
                  rcases List.mem_map.mp listed with ⟨receiver, _, rfl⟩
                  exact quiet
                · rcases leaveChannel_effect target.fd (kept ▸ speaker.consistent) channel.keyName
                    (arguments.headD client.nickname) false with same | effect
                  · rw [same, kept]
                    exact .of_channels rfl
                  · rw [kept] at effect
                    exact .of_effect effect
        · exact .refuse speaker operator _

theorem handleInvite_attempt : Attempt server fd client (server.handleInvite fd message) := by
  simp only [handleInvite, speaker.found]
  rcases message.params with _ | ⟨targetNick, _ | ⟨channelName, arguments⟩⟩
  · exact .requireParams speaker.found message 2
  · exact .requireParams speaker.found message 2
  · dsimp only
    cases foundTarget : server.findClientByNickname targetNick with
    | none => exact .answered (by decide) _
    | some target =>
        dsimp only
        cases foundChannel : server.findChannel channelName with
        | none => exact .noSuchChannel channelName
        | some channel =>
            dsimp only
            by_cases operator : fd ∈ channel.operators
            · have member := member_of_operator speaker.consistent foundChannel operator
              simp only [requireChannelMember_of_member member,
                requireChannelOperator_of_operator operator, Bool.not_true, Bool.false_eq_true,
                if_false]
              split
              · exact .answered (by decide) _
              · have updated : (server.updateChannel channelName (·.addInvite target.fd)).mail =
                    server.mail := rfl
                have posts := (((Posts.refl server).of_mail_eq updated).queue fd
                  (Reply.numeric server.serverName client Numeric.rplInviting
                    (channel.name ++ ascii " " ++ target.nickname))).queue target.fd
                  (Reply.command (Reply.clientPrefix client) (ascii "INVITE")
                    (target.nickname ++ ascii " :" ++ channel.name))
                refine .accepted posts ?_ ?_
                · simp only [List.nil_append, List.cons_append, List.forall_mem_cons]
                  refine ⟨?_, noError_command speaker _ _, List.forall_mem_nil _⟩
                  rw [speaker.serverName]
                  exact Reply.isError_numeric speaker.valid (by decide) _
                · rw [core_queueToClient, core_queueToClient, core_updateChannel _ _ foundChannel]
                  exact .setChannel foundChannel ⟨rfl, rfl, rfl, rfl, rfl, rfl⟩
            · exact .refuse speaker operator _

theorem handleTopic_attempt : Attempt server fd client (server.handleTopic fd message) := by
  simp only [handleTopic, speaker.found]
  rcases message.params with _ | ⟨channelName, arguments⟩
  · exact .requireParams speaker.found message 1
  · dsimp only
    cases foundChannel : server.findChannel channelName with
    | none => exact .noSuchChannel channelName
    | some channel =>
        dsimp only
        by_cases member : fd ∈ channel.members
        · simp only [requireChannelMember_of_member member, Bool.not_true, Bool.false_eq_true,
            if_false]
          cases arguments with
          | nil =>
              simp only [sendTopic]
              split
              · exact .answered (by decide) _
              · exact .answered (by decide) _
          | cons topic rest =>
              dsimp only
              by_cases refused : channel.topicRestricted = true ∧ fd ∉ channel.operators
              · simp only [refused.1, if_true, requireChannelOperator_of_not_operator refused.2,
                  Bool.not_false]
                exact .requireOperator speaker.found channel
              · have passes : (if channel.topicRestricted = true then
                    server.requireChannelOperator fd channel else (true, server)) =
                      (true, server) := by
                  split
                  next restricted =>
                    have operator : fd ∈ channel.operators := by
                      by_contra ordinary
                      exact refused ⟨restricted, ordinary⟩
                    exact requireChannelOperator_of_operator operator
                  · rfl
                have quiet := noError_command speaker (ascii "TOPIC")
                  (channel.name ++ ascii " :" ++ topic)
                generalize Reply.command (Reply.clientPrefix client) (ascii "TOPIC")
                  (channel.name ++ ascii " :" ++ topic) = notice at quiet ⊢
                simp only [passes, Bool.not_true, Bool.false_eq_true, if_false]
                refine .accepted (mail_broadcastToChannel _ channel notice (-1)) ?_ ?_
                · intro posting listed
                  rcases List.mem_map.mp listed with ⟨receiver, _, rfl⟩
                  exact quiet
                · rw [core_broadcastToChannel, core_updateChannel _ _ foundChannel]
                  exact .setChannel foundChannel ⟨rfl, rfl, rfl, rfl, rfl, rfl⟩
        · simp only [requireChannelMember_of_not_member member, Bool.not_false, if_true]
          exact .requireMember speaker.found channel

end Attempt

/-! ## Errors change nothing -/

/-- The commands that are all or nothing. -/
def attemptCommands : List Bytes :=
  [ascii "PASS", ascii "NICK", ascii "USER", ascii "KICK", ascii "INVITE", ascii "TOPIC"]

/-- One of these commands, or one that is not in the table. -/
def IsAttempt (message : Message) : Prop :=
  message.command ∈ attemptCommands ∨ ∀ entry ∈ commandTable, entry.name ≠ message.command

theorem handler_attempt {server : Server} {fd : Int} {client : Client} {message : Message}
    (speaker : Speaker server fd client) {entry : CommandEntry} (listed : entry ∈ commandTable)
    (attempts : entry.name ∈ attemptCommands) :
    Attempt server fd client (entry.handler server fd message) := by
  simp only [commandTable, List.mem_cons, List.not_mem_nil, or_false] at listed
  rcases listed with
    rfl | rfl | rfl | rfl | rfl | rfl | rfl | rfl | rfl | rfl | rfl | rfl | rfl | rfl
  · exact handlePass_attempt speaker message
  · exact handleNick_attempt speaker message
  · exact handleUser_attempt speaker message
  · exact absurd attempts (by decide)
  · exact absurd attempts (by decide)
  · exact absurd attempts (by decide)
  · exact absurd attempts (by decide)
  · exact absurd attempts (by decide)
  · exact absurd attempts (by decide)
  · exact handleKick_attempt speaker message
  · exact handleInvite_attempt speaker message
  · exact handleTopic_attempt speaker message
  · exact absurd attempts (by decide)
  · exact absurd attempts (by decide)

theorem dispatchCommand_attempt {server : Server} {fd : Int} {client : Client} {message : Message}
    (speaker : Speaker server fd client) (attempts : IsAttempt message) :
    Attempt server fd client (server.dispatchCommand fd message) := by
  have happened := dispatchCommand_cases speaker.found message
  generalize server.dispatchCommand fd message = after at happened
  cases happened with
  | unknown _ _ => exact .answered (by decide) _
  | ignored _ _ => exact .quiet
  | refused _ _ _ _ => exact .answered (by decide) _
  | rejected _ _ _ _ => exact .answered (by decide) _
  | handled listed named _ _ =>
      apply handler_attempt speaker listed
      rcases attempts with command | absent
      · exact named ▸ command
      · exact absurd named (absent _ listed)

theorem speaker_of_reachable {server : Server} (reached : stepSystem.Reachable server) {fd : Int}
    {client : Client} (found : server.findClientByFd fd = some client) :
    Speaker server fd client :=
  ⟨step_reachable_consistent reached, step_reachable_serverName reached, found,
    nickname_valid reached found⟩

/-- What is left of a step that only answered one client. -/
structure OnlyAnswered (before after : Server) (fd : Int) : Prop where
  channels : after.channels = before.channels
  nickToFd : after.nickToFd = before.nickToFd
  others (other : Int) : other ≠ fd → after.findClientByFd other = before.findClientByFd other
  own : (after.findClientByFd fd).map ({ · with sendBuffer := [] }) =
    (before.findClientByFd fd).map ({ · with sendBuffer := [] })

theorem onlyAnswered_queueToClient (server : Server) (fd : Int) (line : Bytes) :
    OnlyAnswered server (server.queueToClient fd line) fd where
  channels := channels_queueToClient server fd line
  nickToFd := (SameRecords.queueToClient server fd line).nickToFd
  others other distinct := by rw [findClientByFd_queueToClient, if_neg distinct]
  own := by
    have kept (client : Client) : ({ deliver line client with sendBuffer := [] } : Client) =
        { client with sendBuffer := [] } := by
      rw [deliver]
      split
      · rfl
      · rfl
    rw [findClientByFd_queueToClient, if_pos rfl, Option.map_map]
    congr 1
    funext client
    exact kept client

/-- An error of such a command is the only line it queues, and nothing else happens. -/
theorem error_only_answers {server : Server} (reached : stepSystem.Reachable server) (fd : Int)
    {message : Message} (attempts : IsAttempt message) {receiver : Int} {line : Bytes}
    {appended : Bool}
    (queued : .queued receiver line appended ∈
      (server.dispatchCommand fd message).history.drop server.history.length)
    (error : Reply.isError line = true) :
    receiver = fd ∧
      (server.dispatchCommand fd message).history =
        server.history ++ [.queued fd line appended] ∧
      OnlyAnswered server (server.dispatchCommand fd message) fd := by
  cases found : server.findClientByFd fd with
  | none => simp [dispatchCommand, found] at queued
  | some client =>
      have attempt := dispatchCommand_attempt (speaker_of_reachable reached found) attempts
      generalize server.dispatchCommand fd message = after at attempt queued ⊢
      cases attempt with
      | @answered code listed parameters =>
          generalize Reply.numeric server.serverName client code parameters = reply at queued ⊢
          rcases history_queueToClient server fd reply with same | ⟨flag, same⟩
          · simp [same] at queued
          · rw [same, List.drop_left, List.mem_singleton] at queued
            cases queued
            exact ⟨rfl, same, onlyAnswered_queueToClient server fd line⟩
      | accepted posts noError _ =>
          rw [posts.history, List.drop_left] at queued
          rcases Mail.mem_entries _ queued with ⟨posting, listed, flag, same⟩
          cases same
          rw [noError posting listed] at error
          exact absurd error Bool.false_ne_true

/-- Alice invites somebody who is not there. -/
theorem error_only_answers_invite :
    (HistoryEvent.queued 4 (ascii ":ircserv.local 401 alice carol :No such nick/channel") true ∈
      (alicesRoom.dispatchCommand 4 { command := ascii "INVITE"
                                      params := [ascii "carol", ascii "#room"] }).history.drop
        alicesRoom.history.length) ∧
    OnlyAnswered alicesRoom (alicesRoom.dispatchCommand 4
      { command := ascii "INVITE", params := [ascii "carol", ascii "#room"] }) 4 := by
  have queued : HistoryEvent.queued 4
      (ascii ":ircserv.local 401 alice carol :No such nick/channel") true ∈
        (alicesRoom.dispatchCommand 4 { command := ascii "INVITE"
                                        params := [ascii "carol", ascii "#room"] }).history.drop
          alicesRoom.history.length := by
    decide +kernel
  exact ⟨queued, (error_only_answers reachable_alicesRoom 4 (Or.inl (by decide)) queued
    (by decide)).2.2⟩

end Server

end IrcPlatform.Irc
