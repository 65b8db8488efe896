import IrcPlatform.Irc.Lines

/-!
# The lines of each handler

Every handler posts only lines that `CommandLine` lists. The loops of JOIN, PART
and PRIVMSG are inductions over their lists that carry the consistency of the
membership relation: it says that whoever gets a channel notice is registered.
-/

namespace IrcPlatform.Irc

open Std Relation

namespace Server

variable {start server : Server} {fd : Int} {client current : Client} {message : Message}

/-! ## Commands that only answer -/

theorem handleCap_tells (found : server.findClientByFd fd = some client) (message : Message) :
    Tells server fd client message (server.handleCap fd message) := by
  simp only [handleCap, found]
  split
  next subcommand arguments _ =>
    split
    · exact Tells.refl.queue (CommandLine.answer (by decide) _)
    · split
      · exact Tells.refl.queue (CommandLine.answer (by decide) _)
      · exact Tells.refl
  · exact Tells.refl

theorem handlePing_tells (found : server.findClientByFd fd = some client) (message : Message) :
    Tells server fd client message (server.handlePing fd message) := by
  simp only [handlePing, found]
  split
  · exact Tells.refl.numeric rfl rfl (by decide) _
  · exact Tells.refl.queue (CommandLine.answer (by decide) _)

theorem handleQuit_tells (server : Server) (fd : Int) (client : Client) (message : Message) :
    Tells server fd client message (server.handleQuit fd message) := by
  simp only [handleQuit]
  split
  · exact Tells.refl
  next current found =>
    refine Tells.refl.quiet rfl ⟨rfl, rfl, fun _ => rfl, ?_, fun _ => Or.inl⟩
    intro other reason
    simp only [scheduleDisconnect, ExtTreeMap.mem_insert, LawfulEqOrd.compare_eq_iff_eq] at reason
    rcases reason with rfl | earlier
    · right
      simp [found]
    · exact Or.inl earlier

/-! ## PRIVMSG -/

section Privmsg

variable {targets text : Bytes} {arguments : List Bytes}
  (found : start.findClientByFd fd = some client) (registered : client.registered = true)
  (command : message.command = ascii "PRIVMSG") (params : message.params = targets :: arguments)
  (given : text = arguments.headD [])

include found registered command params given

theorem privmsgTarget_tells (tells : Tells start fd client message server)
    (consistent : server.core.Consistent) {name : Bytes}
    (listed : name ∈ IrcUtil.splitCommaList targets) :
    Tells start fd client message (server.privmsgTarget fd text name) := by
  simp only [privmsgTarget]
  split
  · exact tells
  next current foundNow =>
    have identity := tells.sender found foundNow
    split
    · split
      · exact tells.sendNoSuchChannel identity name
      next channel foundChannel =>
        split
        · exact tells.numeric tells.same.serverName identity (by decide) _
        · exact tells.broadcast registered (tells.members consistent foundChannel) identity
            (by decide) _ _
    · split
      · exact tells.numeric tells.same.serverName identity (by decide) _
      next target foundTarget =>
        rcases tells.same.findClientByNickname foundTarget with ⟨old, foundOld, same⟩
        have line : CommandLine start fd client message ⟨old.fd,
            Reply.command (Reply.clientPrefix client) (ascii "PRIVMSG")
              (old.nickname ++ ascii " :" ++ text)⟩ :=
          CommandLine.privmsg registered command params given listed foundOld
        rw [Client.fd_of_identity same, Client.nickname_of_identity same,
          ← Reply.clientPrefix_of_identity identity] at line
        exact tells.queue line

theorem privmsgTargets_tells (names : List Bytes)
    (listed : ∀ name ∈ names, name ∈ IrcUtil.splitCommaList targets)
    (tells : Tells start fd client message server) (consistent : server.core.Consistent) :
    Tells start fd client message (privmsgTargets fd text names server) := by
  induction names generalizing server with
  | nil => exact tells
  | cons name names ih =>
      apply ih
      · intro other otherListed
        exact listed other (List.mem_cons_of_mem name otherListed)
      · exact privmsgTarget_tells found registered command params given tells consistent
          (listed name List.mem_cons_self)
      · rwa [privmsgTarget_core]

end Privmsg

theorem handlePrivmsg_tells (consistent : server.core.Consistent)
    (found : server.findClientByFd fd = some client) (registered : client.registered = true)
    (command : message.command = ascii "PRIVMSG") :
    Tells server fd client message (server.handlePrivmsg fd message) := by
  simp only [handlePrivmsg, found]
  split
  · exact Tells.refl.numeric rfl rfl (by decide) _
  next targets arguments params =>
    split
    · exact Tells.refl.numeric rfl rfl (by decide) _
    · exact privmsgTargets_tells found registered command params rfl _ (fun _ => id) Tells.refl
        consistent

/-! ## JOIN -/

theorem joinChannel_tells (tells : Tells start fd client message server) (key : Bytes) :
    Tells start fd client message (server.joinChannel fd key).2 := by
  simp only [joinChannel]
  split
  · exact (tells.updateChannel _ _).updateClient fd (fun _ => rfl) fun _ => rfl
  · exact tells

theorem announceJoin_tells (tells : Tells start fd client message server)
    (consistent : server.core.Consistent) (registered : client.registered = true)
    (identity : current.identity = client.identity) {name : Bytes} {channel : Channel}
    (foundChannel : server.findChannel name = some channel) :
    Tells start fd client message (server.announceJoin fd current channel) := by
  have announced : Tells start fd client message (server.broadcastToChannel channel
      (Reply.command (Reply.clientPrefix current) (ascii "JOIN") (ascii ":" ++ channel.name))
      (-1)) :=
    tells.broadcast registered (tells.members consistent foundChannel) identity (by decide) _ _
  have topic := announced.sendTopic identity channel
  exact (topic.numeric tells.same.serverName identity (by decide) _).numeric
    tells.same.serverName identity (by decide) _

theorem completeJoin_tells (tells : Tells start fd client message server)
    (registered : client.registered = true) (identity : current.identity = client.identity)
    {key : Bytes} {created : Bool}
    (consistent : (server.completeJoin fd current key created).core.Consistent) :
    Tells start fd client message (server.completeJoin fd current key created) := by
  have joined := joinChannel_tells tells key
  simp only [completeJoin] at consistent ⊢
  split
  · exact joined.deleteChannelIfEmpty key
  next entered =>
    rw [if_neg entered] at consistent
    split
    · exact joined.updateChannel _ _
    next channel foundChannel =>
      rw [foundChannel] at consistent
      simp only [core_announceJoin] at consistent
      exact announceJoin_tells (joined.updateChannel _ _) consistent registered identity
        foundChannel

theorem joinElement_tells (tells : Tells start fd client message server)
    (found : start.findClientByFd fd = some client) (registered : client.registered = true)
    (channelName key : Bytes)
    (consistent : (server.joinElement fd channelName key).core.Consistent) :
    Tells start fd client message (server.joinElement fd channelName key) := by
  simp only [joinElement] at consistent ⊢
  split
  · exact tells
  next current foundNow =>
    have identity := tells.sender found foundNow
    simp only [foundNow] at consistent
    split
    · exact tells.sendNoSuchChannel identity channelName
    next valid =>
      rw [if_neg valid] at consistent
      split
      · exact tells
      next outside =>
        rw [if_neg outside] at consistent
        split
        next missing =>
          simp only [missing] at consistent
          apply completeJoin_tells _ registered identity consistent
          refine tells.quiet rfl ⟨rfl, rfl, fun _ => rfl, fun _ => Or.inl, ?_⟩
          intro entered listed
          simp only [ExtTreeMap.mem_insertIfNew, LawfulEqOrd.compare_eq_iff_eq] at listed
          rcases listed with rfl | earlier
          · right
            rw [IrcUtil.isValidChannelName_normalize]
            simpa using valid
          · exact Or.inl earlier
        next channel foundChannel =>
          simp only [foundChannel] at consistent
          split
          · exact tells.numeric tells.same.serverName identity (by decide) _
          next admitted =>
            rw [if_neg admitted] at consistent
            split
            · exact tells.numeric tells.same.serverName identity (by decide) _
            next keyed =>
              rw [if_neg keyed] at consistent
              split
              · exact tells.numeric tells.same.serverName identity (by decide) _
              next room =>
                rw [if_neg room] at consistent
                exact completeJoin_tells tells registered identity consistent

/-- A sender that was registered at the start still is. -/
theorem registered_of_tells (tells : Tells start fd client message server)
    (found : start.findClientByFd fd = some client) (registered : client.registered = true) :
    ∃ current, server.findClientByFd fd = some current ∧ current.registered = true := by
  have identity := tells.same.identity fd
  rw [found] at identity
  rcases Option.map_eq_some_iff.mp identity with ⟨current, foundNow, same⟩
  exact ⟨current, foundNow, (Client.registered_of_identity same).trans registered⟩

theorem joinElements_tells (found : start.findClientByFd fd = some client)
    (registered : client.registered = true) (channels keys : List Bytes)
    (tells : Tells start fd client message server) (consistent : server.core.Consistent) :
    Tells start fd client message (joinElements fd channels keys server) := by
  induction channels generalizing keys server with
  | nil => exact tells
  | cons channelName channels ih =>
      rcases registered_of_tells tells found registered with ⟨current, foundNow, stillRegistered⟩
      have kept : (server.joinElement fd channelName (keys.headD [])).core.Consistent := by
        rcases joinElement_effect consistent foundNow stillRegistered channelName
          (keys.headD []) with same | effect
        · rwa [same]
        · exact effect.consistent consistent
      exact ih keys.tail (joinElement_tells tells found registered _ _ kept) kept

/-! ## Departures -/

theorem leaveChannel_tells (tells : Tells start fd client message server)
    (found : start.findClientByFd fd = some client) (registered : client.registered = true)
    (consistent : server.core.Consistent) (key reason : Bytes) :
    Tells start fd client message (server.leaveChannel fd key reason true) := by
  simp only [leaveChannel]
  split
  next current channel foundNow foundChannel =>
    split
    · exact tells
    · apply Tells.deleteChannelIfEmpty
      refine Tells.updateClient ?_ fd (fun _ => rfl) fun _ => rfl
      apply Tells.updateChannel
      simp only [if_true]
      exact tells.broadcast registered (tells.members consistent foundChannel)
        (tells.sender found foundNow) (by decide) _ _
  · exact tells

/-- A departure without a notice. -/
theorem leaveChannel_tells_silent (tells : Tells start fd client message server) (other : Int)
    (key reason : Bytes) :
    Tells start fd client message (server.leaveChannel other key reason false) := by
  simp only [leaveChannel]
  split
  · split
    · exact tells
    · apply Tells.deleteChannelIfEmpty
      refine Tells.updateClient ?_ other (fun _ => rfl) fun _ => rfl
      exact tells.updateChannel _ _
  · exact tells

theorem leaveAll_tells (found : start.findClientByFd fd = some client)
    (registered : client.registered = true) (reason : Bytes) (keys : List Bytes)
    (tells : Tells start fd client message server) (consistent : server.core.Consistent) :
    Tells start fd client message (leaveAll fd reason keys server) := by
  induction keys generalizing server with
  | nil => exact tells
  | cons key keys ih =>
      apply ih (leaveChannel_tells tells found registered consistent key reason)
      rcases leaveChannel_effect fd consistent key reason true with same | effect
      · rwa [same]
      · exact effect.consistent consistent

theorem handleJoin_tells (consistent : server.core.Consistent)
    (found : server.findClientByFd fd = some client) (registered : client.registered = true)
    (message : Message) : Tells server fd client message (server.handleJoin fd message) := by
  simp only [handleJoin, found]
  split
  · exact Tells.refl.requireParams found _ _
  · split
    · exact leaveAll_tells found registered _ _ Tells.refl consistent
    · exact joinElements_tells found registered _ _ Tells.refl consistent

theorem partElement_tells (tells : Tells start fd client message server)
    (found : start.findClientByFd fd = some client) (registered : client.registered = true)
    (consistent : server.core.Consistent) (reason channelName : Bytes) :
    Tells start fd client message (server.partElement fd reason channelName) := by
  simp only [partElement]
  split
  · exact tells
  next current foundNow =>
    split
    · exact tells.sendNoSuchChannel (tells.sender found foundNow) _
    next channel _ =>
      have checked := tells.requireChannelMember found channel
      split
      · exact checked
      · apply leaveChannel_tells checked found registered
        rwa [core_requireChannelMember]

theorem partElements_tells (found : start.findClientByFd fd = some client)
    (registered : client.registered = true) (reason : Bytes) (channels : List Bytes)
    (tells : Tells start fd client message server) (consistent : server.core.Consistent) :
    Tells start fd client message (partElements fd reason channels server) := by
  induction channels generalizing server with
  | nil => exact tells
  | cons channelName channels ih =>
      apply ih (partElement_tells tells found registered consistent reason channelName)
      rcases partElement_effect fd consistent reason channelName with same | effect
      · rwa [same]
      · exact effect.consistent consistent

theorem handlePart_tells (consistent : server.core.Consistent)
    (found : server.findClientByFd fd = some client) (registered : client.registered = true)
    (message : Message) : Tells server fd client message (server.handlePart fd message) := by
  simp only [handlePart, found]
  split
  · exact Tells.refl.requireParams found _ _
  · exact partElements_tells found registered _ _ Tells.refl consistent

/-! ## KICK, INVITE and TOPIC -/

theorem handleKick_tells (consistent : server.core.Consistent)
    (found : server.findClientByFd fd = some client) (registered : client.registered = true)
    (message : Message) : Tells server fd client message (server.handleKick fd message) := by
  simp only [handleKick, found]
  split
  next channelName targetNick arguments _ =>
    split
    · exact Tells.refl.sendNoSuchChannel rfl _
    next channel foundChannel =>
      have start : Tells server fd client message server := Tells.refl
      have members := start.members consistent foundChannel
      have member := start.requireChannelMember found channel
      split
      · exact member
      · have operator := member.requireChannelOperator found channel
        split
        · exact operator
        · split
          · exact operator.numeric rfl rfl (by decide) _
          next target _ =>
            split
            · exact operator.numeric rfl rfl (by decide) _
            · apply leaveChannel_tells_silent
              exact operator.broadcast registered members rfl (by decide) _ _
  · exact Tells.refl.requireParams found _ _

theorem handleInvite_tells (found : server.findClientByFd fd = some client)
    (registered : client.registered = true) (command : message.command = ascii "INVITE") :
    Tells server fd client message (server.handleInvite fd message) := by
  simp only [handleInvite, found]
  split
  next targetNick channelName arguments params =>
    split
    · exact Tells.refl.numeric rfl rfl (by decide) _
    next target foundTarget =>
      split
      · exact Tells.refl.sendNoSuchChannel rfl _
      next channel foundChannel =>
        have member : Tells server fd client message (server.requireChannelMember fd channel).2 :=
          Tells.refl.requireChannelMember found channel
        split
        · exact member
        · have operator := member.requireChannelOperator found channel
          split
          · exact operator
          next passed =>
            split
            · exact operator.numeric rfl rfl (by decide) _
            · have invited := operator.updateChannel channelName (·.addInvite target.fd)
              have answered := invited.numeric rfl rfl
                (by decide : Numeric.rplInviting ∈ replyCodes)
                (channel.name ++ ascii " " ++ target.nickname)
              exact answered.queue (CommandLine.invite registered command params foundTarget
                foundChannel (operator_of_require passed))
  · exact Tells.refl.requireParams found _ _

theorem handleTopic_tells (consistent : server.core.Consistent)
    (found : server.findClientByFd fd = some client) (registered : client.registered = true)
    (message : Message) : Tells server fd client message (server.handleTopic fd message) := by
  simp only [handleTopic, found]
  split
  · exact Tells.refl.requireParams found _ _
  next channelName arguments _ =>
    split
    · exact Tells.refl.sendNoSuchChannel rfl _
    next channel foundChannel =>
      have start : Tells server fd client message server := Tells.refl
      have members := start.members consistent foundChannel
      have member := start.requireChannelMember found channel
      split
      · exact member
      · split
        · exact member.sendTopic rfl channel
        next topic _ _ =>
          generalize checks : (if channel.topicRestricted then
            (server.requireChannelMember fd channel).2.requireChannelOperator fd channel
            else (true, (server.requireChannelMember fd channel).2)) = operator
          have passed : Tells server fd client message operator.2 := by
            rw [← checks]
            split
            · exact member.requireChannelOperator found channel
            · exact member
          split
          · exact passed
          · exact (passed.updateChannel channelName (·.setTopic topic)).broadcast registered
              members rfl (by decide) _ _

end Server

/-! ## MODE -/

namespace ModeLoop

variable {start : Server} {fd : Int} {client : Client} {message : Message} {loop : ModeLoop}

theorem reply_tells (tells : Tells start fd client message loop.server) {code : Nat}
    (listed : code ∈ replyCodes) (parameters : Bytes) :
    Tells start fd client message (loop.reply fd client code parameters).server :=
  tells.numeric tells.same.serverName rfl listed parameters

theorem modeKey_tells (tells : Tells start fd client message loop.server)
    (command target : Bytes) (channel : Channel) :
    Tells start fd client message (loop.modeKey fd client command target channel).server := by
  simp only [modeKey]
  split
  · split
    · exact reply_tells tells (by decide) _
    · split
      · exact reply_tells tells (by decide) _
      · exact tells.updateChannel _ _
  · split
    · exact tells.updateChannel _ _
    · exact tells

theorem modeOperator_tells (tells : Tells start fd client message loop.server)
    (command target : Bytes) (channel : Channel) :
    Tells start fd client message (loop.modeOperator fd client command target channel).server := by
  simp only [modeOperator]
  split
  · exact reply_tells tells (by decide) _
  next nickArg arguments _ =>
    have consumed : Tells start fd client message
        ({ loop with arguments := arguments } : ModeLoop).server := tells
    split
    · exact reply_tells consumed (by decide) _
    next targetClient _ =>
      split
      · exact reply_tells consumed (by decide) _
      · generalize (if loop.adding = true then channel.addOperator targetClient.fd
          else channel.removeOperator targetClient.fd).1 = flag
        cases flag with
        | true => exact tells.updateChannel _ _
        | false => exact tells.updateChannel _ _

theorem modeLimit_tells (tells : Tells start fd client message loop.server)
    (command target : Bytes) (channel : Channel) :
    Tells start fd client message (loop.modeLimit fd client command target channel).server := by
  simp only [modeLimit]
  split
  · split
    · exact reply_tells tells (by decide) _
    · split
      · exact tells
      · split
        · exact tells
        · exact tells.updateChannel _ _
  · split
    · exact tells.updateChannel _ _
    · exact tells

theorem step_tells (tells : Tells start fd client message loop.server) (command target : Bytes)
    (c : UInt8) : Tells start fd client message (loop.step fd client command target c).server := by
  simp only [step]
  split
  · exact tells
  next channel _ =>
    split
    · exact tells
    · split
      · exact tells
      · split
        · exact reply_tells tells (by decide) _
        · split
          · simp only [modeInviteOnly]
            split
            · exact tells.updateChannel _ _
            · exact tells
          · split
            · simp only [modeTopicRestricted]
              split
              · exact tells.updateChannel _ _
              · exact tells
            · split
              · exact modeKey_tells tells _ _ _
              · split
                · exact modeOperator_tells tells _ _ _
                · split
                  · exact modeLimit_tells tells _ _ _
                  · exact reply_tells tells (by decide) _

theorem foldl_tells (modeString : Bytes) (command target : Bytes)
    (tells : Tells start fd client message loop.server) :
    Tells start fd client message
      (modeString.foldl (step fd client command target) loop).server := by
  induction modeString generalizing loop with
  | nil => exact tells
  | cons c rest ih => exact ih (step_tells tells command target c)

end ModeLoop

namespace Server

variable {start server : Server} {fd : Int} {client current : Client} {message : Message}

theorem sendModeNotice_tells {loop : ModeLoop}
    (tells : Tells start fd client message loop.server) (registered : client.registered = true)
    (consistent : loop.server.core.Consistent) (target : Bytes) :
    Tells start fd client message (sendModeNotice loop client target) := by
  simp only [sendModeNotice]
  split
  · exact tells
  · split
    · exact tells
    next channel foundChannel =>
      exact tells.broadcast registered (tells.members consistent foundChannel) rfl
        (by decide) _ _

theorem handleMode_tells (consistent : server.core.Consistent)
    (found : server.findClientByFd fd = some client) (registered : client.registered = true)
    (message : Message) : Tells server fd client message (server.handleMode fd message) := by
  have after := (@handleMode_effect server fd message).consistent consistent
  simp only [handleMode, found] at after ⊢
  split
  · exact Tells.refl.requireParams found _ _
  next target arguments params =>
    simp only [params] at after
    split
    · exact Tells.refl.numeric rfl rfl (by decide) _
    next channelTarget =>
      rw [if_neg channelTarget] at after
      split
      · exact Tells.refl.sendNoSuchChannel rfl _
      next channel foundChannel =>
        simp only [foundChannel] at after
        split
        · exact Tells.refl.numeric rfl rfl (by decide) _
        next modeString modeArguments =>
          have member : Tells server fd client message
              (server.requireChannelMember fd channel).2 :=
            Tells.refl.requireChannelMember found channel
          simp only at after
          split
          · exact member
          next isMember =>
            rw [if_neg isMember] at after
            have operator := member.requireChannelOperator found channel
            split
            · exact operator
            next isOperator =>
              rw [if_neg isOperator, core_sendModeNotice] at after
              exact sendModeNotice_tells (ModeLoop.foldl_tells _ _ _ operator) registered after _

end Server

end IrcPlatform.Irc
