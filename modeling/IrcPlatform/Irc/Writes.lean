import IrcPlatform.Irc.HandlerEffects

/-!
# The writes of a command

A second view of the handlers, next to their effect on the core: each of them is
a sequence of four kinds of writes. What holds of every write (only live clients
are reserved, no client appears or disappears, the receive buffers stay, the
history grows by queued messages) then holds of every command.
-/

namespace IrcPlatform.Irc

open Std Relation

inductive Write (before : Server) : Server → Prop where
  | queue (fd : Int) (message : Bytes) : Write before (before.queueToClient fd message)
  | reserve {fd : Int} {client : Client} (found : before.findClientByFd fd = some client) :
      Write before (before.scheduleDisconnect fd)
  | client {fd : Int} {change : Client → Client}
      (receive : ∀ client, before.findClientByFd fd = some client →
        (change client).receiveBuffer = client.receiveBuffer)
      (send : ∀ client, before.findClientByFd fd = some client →
        (change client).sendBuffer = client.sendBuffer) :
      Write before (before.updateClient fd change)
  | tables {after : Server} (channels : ExtTreeMap Bytes Channel) (nickToFd : ExtTreeMap Bytes Int)
      (reasons : ExtTreeMap Int Bytes)
      (same : after = { before with
        channels := channels, nickToFd := nickToFd, disconnectReasons := reasons }) :
      Write before after

def Writes : Server → Server → Prop := ReflTransGen Write

namespace Writes

variable {start server : Server}

theorem refl (server : Server) : Writes server server := ReflTransGen.refl

theorem trans {after : Server} (first : Writes start server) (second : Writes server after) :
    Writes start after := ReflTransGen.trans first second

theorem queue (writes : Writes start server) (fd : Int) (message : Bytes) :
    Writes start (server.queueToClient fd message) := ReflTransGen.tail writes (.queue fd message)

theorem client (writes : Writes start server) (fd : Int) (change : Client → Client)
    (receive : ∀ client, (change client).receiveBuffer = client.receiveBuffer)
    (send : ∀ client, (change client).sendBuffer = client.sendBuffer) :
    Writes start (server.updateClient fd change) :=
  ReflTransGen.tail writes (.client (fun client _ => receive client) fun client _ => send client)

theorem channel (writes : Writes start server) (name : Bytes) (change : Channel → Channel) :
    Writes start (server.updateChannel name change) :=
  ReflTransGen.tail writes (.tables _ _ _ rfl)

theorem queueToAll (writes : Writes start server) (message : Bytes) (targets : List Int) :
    Writes start (Server.queueToAll message targets server) := by
  induction targets generalizing server with
  | nil => exact writes
  | cons target rest ih => exact ih (writes.queue target message)

theorem broadcast (writes : Writes start server) (channel : Channel) (message : Bytes)
    (excludeFd : Int) : Writes start (server.broadcastToChannel channel message excludeFd) :=
  writes.queueToAll message _

theorem broadcastShared (writes : Writes start server) (client : Client) (message : Bytes) :
    Writes start (server.broadcastToSharedChannels client message) :=
  writes.queueToAll message _

theorem noSuchChannel (writes : Writes start server) (fd : Int) (client : Client) (name : Bytes) :
    Writes start (server.sendNoSuchChannel fd client name) := writes.queue fd _

theorem requireParams (writes : Writes start server) (fd : Int) (message : Message) (count : Nat) :
    Writes start (server.requireParams fd message count).2 := by
  unfold Server.requireParams
  split
  · exact writes
  · split
    · exact writes
    · exact writes.queue fd _

theorem requireMember (writes : Writes start server) (fd : Int) (channel : Channel) :
    Writes start (server.requireChannelMember fd channel).2 := by
  unfold Server.requireChannelMember
  split
  · exact writes
  · split
    · exact writes
    · exact writes.queue fd _

theorem requireOperator (writes : Writes start server) (fd : Int) (channel : Channel) :
    Writes start (server.requireChannelOperator fd channel).2 := by
  unfold Server.requireChannelOperator
  split
  · exact writes
  · split
    · exact writes
    · exact writes.queue fd _

theorem topicReply (writes : Writes start server) (fd : Int) (client : Client)
    (channel : Channel) : Writes start (server.sendTopic fd client channel) := by
  unfold Server.sendTopic
  split
  · exact writes.queue fd _
  · exact writes.queue fd _

theorem deleteIfEmpty (writes : Writes start server) (key : Bytes) :
    Writes start (server.deleteChannelIfEmpty key) := by
  unfold Server.deleteChannelIfEmpty
  split
  · exact writes
  · split
    · exact ReflTransGen.tail writes (.tables _ _ _ rfl)
    · exact writes

end Writes

namespace Server

variable {start server : Server}

/-! ## Registration commands -/

theorem sendWelcomeSequence_writes (writes : Writes start server) (client : Client) :
    Writes start (server.sendWelcomeSequence client) :=
  ((((writes.queue _ _).queue _ _).queue _ _).queue _ _).queue _ _

theorem tryRegisterClient_writes (writes : Writes start server) (fd : Int) :
    Writes start (server.tryRegisterClient fd) := by
  unfold tryRegisterClient
  split
  · exact writes
  next client found =>
    have buffers : client.tryCompleteRegistration.2.receiveBuffer = client.receiveBuffer ∧
        client.tryCompleteRegistration.2.sendBuffer = client.sendBuffer := by
      unfold Client.tryCompleteRegistration
      split
      · exact ⟨rfl, rfl⟩
      · split
        · exact ⟨rfl, rfl⟩
        · exact ⟨rfl, rfl⟩
    have completed : Writes start (server.updateClient fd fun _ =>
        client.tryCompleteRegistration.2) := by
      apply ReflTransGen.tail writes
      apply Write.client
      · intro stored lookup
        rw [found, Option.some.injEq] at lookup
        exact lookup ▸ buffers.1
      · intro stored lookup
        rw [found, Option.some.injEq] at lookup
        exact lookup ▸ buffers.2
    simp only
    split
    · exact sendWelcomeSequence_writes completed _
    · exact completed

theorem handlePass_writes (server : Server) (fd : Int) (message : Message) :
    Writes server (server.handlePass fd message) := by
  have start := Writes.refl server
  unfold handlePass
  split
  · exact start
  · split
    · exact start.requireParams _ _ _
    · split
      · exact start.queue _ _
      · apply tryRegisterClient_writes
        exact start.client fd (·.acceptPassword) (fun _ => rfl) fun _ => rfl

theorem renameClient_writes (server : Server) (fd : Int) (client : Client) (nickname : Bytes) :
    Writes server (server.renameClient fd client nickname) := by
  have start := Writes.refl server
  unfold renameClient
  apply Writes.client
  · split
    · exact ReflTransGen.tail start (.tables _ _ _ rfl)
    · exact ReflTransGen.tail start (.tables _ _ _ rfl)
  · exact fun _ => rfl
  · exact fun _ => rfl

theorem handleNick_writes (server : Server) (fd : Int) (message : Message) :
    Writes server (server.handleNick fd message) := by
  have start := Writes.refl server
  unfold handleNick
  split
  · exact start
  next client _ =>
    split
    · exact start.queue _ _
    next nickname _ _ =>
      split
      · exact start.queue _ _
      · split
        · exact start.queue _ _
        · have renamed := renameClient_writes server fd client nickname
          simp only
          split
          · exact (renamed.queue _ _).broadcastShared _ _
          · exact tryRegisterClient_writes renamed fd

theorem handleUser_writes (server : Server) (fd : Int) (message : Message) :
    Writes server (server.handleUser fd message) := by
  have start := Writes.refl server
  unfold handleUser
  split
  · exact start
  · split
    · exact start.queue _ _
    · split
      · split
        · exact start.queue _ _
        · apply tryRegisterClient_writes
          exact start.client fd (·.setUser _ _) (fun _ => rfl) fun _ => rfl
      · exact start.requireParams _ _ _

theorem handleCap_writes (server : Server) (fd : Int) (message : Message) :
    Writes server (server.handleCap fd message) := by
  have start := Writes.refl server
  unfold handleCap
  split
  · simp only
    split
    · exact start.queue _ _
    · split
      · exact start.queue _ _
      · exact start
  · exact start

theorem handlePing_writes (server : Server) (fd : Int) (message : Message) :
    Writes server (server.handlePing fd message) := by
  have start := Writes.refl server
  unfold handlePing
  split
  · exact start
  · simp only
    split
    · exact start.queue _ _
    · exact start.queue _ _

theorem handleQuit_writes (server : Server) (fd : Int) (message : Message) :
    Writes server (server.handleQuit fd message) := by
  unfold handleQuit
  split
  · exact Writes.refl server
  next client found =>
    have stored : Writes server { server with
        disconnectReasons :=
          server.disconnectReasons.insert fd (message.params.headD (ascii "Client Quit")) } :=
      ReflTransGen.single (.tables _ _ _ rfl)
    exact ReflTransGen.tail stored (.reserve found)

/-! ## PRIVMSG -/

theorem privmsgTarget_writes (writes : Writes start server) (fd : Int) (text target : Bytes) :
    Writes start (server.privmsgTarget fd text target) := by
  unfold privmsgTarget
  split
  · exact writes
  · split
    · split
      · exact writes.noSuchChannel _ _ _
      · split
        · exact writes.queue _ _
        · exact writes.broadcast _ _ _
    · split
      · exact writes.queue _ _
      · exact writes.queue _ _

theorem privmsgTargets_writes (writes : Writes start server) (fd : Int) (text : Bytes)
    (targets : List Bytes) : Writes start (privmsgTargets fd text targets server) := by
  induction targets generalizing server with
  | nil => exact writes
  | cons target targets ih => exact ih (privmsgTarget_writes writes fd text target)

theorem handlePrivmsg_writes (server : Server) (fd : Int) (message : Message) :
    Writes server (server.handlePrivmsg fd message) := by
  have start := Writes.refl server
  unfold handlePrivmsg
  split
  · exact start
  · split
    · exact start.queue _ _
    · simp only
      split
      · exact start.queue _ _
      · exact privmsgTargets_writes start _ _ _

/-! ## Channel commands -/

theorem joinChannel_writes (writes : Writes start server) (fd : Int) (key : Bytes) :
    Writes start (server.joinChannel fd key).2 := by
  unfold joinChannel
  split
  · exact (writes.channel _ _).client fd (·.addJoinedChannel _) (fun _ => rfl) fun _ => rfl
  · exact writes

theorem announceJoin_writes (writes : Writes start server) (fd : Int) (client : Client)
    (channel : Channel) : Writes start (server.announceJoin fd client channel) :=
  (((writes.broadcast _ _ _).topicReply _ _ _).queue _ _).queue _ _

theorem completeJoin_writes (writes : Writes start server) (fd : Int) (client : Client)
    (key : Bytes) (created : Bool) : Writes start (server.completeJoin fd client key created) := by
  have joined := joinChannel_writes writes fd key
  unfold completeJoin
  simp only
  split
  · exact joined.deleteIfEmpty key
  · split
    · exact joined.channel _ _
    · exact announceJoin_writes (joined.channel _ _) _ _ _

theorem joinElement_writes (writes : Writes start server) (fd : Int) (channelName key : Bytes) :
    Writes start (server.joinElement fd channelName key) := by
  unfold joinElement
  split
  · exact writes
  · split
    · exact writes.noSuchChannel _ _ _
    · simp only
      split
      · exact writes
      · split
        · exact completeJoin_writes (ReflTransGen.tail writes (.tables _ _ _ rfl)) _ _ _ _
        · split
          · exact writes.queue _ _
          · split
            · exact writes.queue _ _
            · split
              · exact writes.queue _ _
              · exact completeJoin_writes writes _ _ _ _

theorem joinElements_writes (writes : Writes start server) (fd : Int)
    (channels keys : List Bytes) : Writes start (joinElements fd channels keys server) := by
  induction channels generalizing server keys with
  | nil => exact writes
  | cons channelName channels ih => exact ih (joinElement_writes writes fd _ _) keys.tail

theorem leaveChannel_writes (writes : Writes start server) (fd : Int) (key reason : Bytes)
    (sendPart : Bool) : Writes start (server.leaveChannel fd key reason sendPart) := by
  unfold leaveChannel
  split
  · split
    · exact writes
    · simp only
      apply Writes.deleteIfEmpty
      apply Writes.client
      · apply Writes.channel
        split
        · exact writes.broadcast _ _ _
        · exact writes
      · exact fun _ => rfl
      · exact fun _ => rfl
  · exact writes

theorem leaveAll_writes (writes : Writes start server) (fd : Int) (reason : Bytes)
    (keys : List Bytes) : Writes start (leaveAll fd reason keys server) := by
  induction keys generalizing server with
  | nil => exact writes
  | cons key keys ih => exact ih (leaveChannel_writes writes fd key reason true)

theorem handleJoin_writes (server : Server) (fd : Int) (message : Message) :
    Writes server (server.handleJoin fd message) := by
  have start := Writes.refl server
  unfold handleJoin
  split
  · exact start
  · split
    · exact start.requireParams _ _ _
    · split
      · exact leaveAll_writes start _ _ _
      · exact joinElements_writes start _ _ _

theorem partElement_writes (writes : Writes start server) (fd : Int) (reason channelName : Bytes) :
    Writes start (server.partElement fd reason channelName) := by
  unfold partElement
  split
  · exact writes
  · simp only
    split
    · exact writes.noSuchChannel _ _ _
    · split
      · exact writes.requireMember _ _
      · exact leaveChannel_writes (writes.requireMember _ _) _ _ _ _

theorem partElements_writes (writes : Writes start server) (fd : Int) (reason : Bytes)
    (channels : List Bytes) : Writes start (partElements fd reason channels server) := by
  induction channels generalizing server with
  | nil => exact writes
  | cons channelName channels ih => exact ih (partElement_writes writes fd reason channelName)

theorem handlePart_writes (server : Server) (fd : Int) (message : Message) :
    Writes server (server.handlePart fd message) := by
  have start := Writes.refl server
  unfold handlePart
  split
  · exact start
  · split
    · exact start.requireParams _ _ _
    · exact partElements_writes start _ _ _

theorem handleKick_writes (server : Server) (fd : Int) (message : Message) :
    Writes server (server.handleKick fd message) := by
  have start := Writes.refl server
  unfold handleKick
  split
  · exact start
  · split
    · split
      · exact start.noSuchChannel _ _ _
      next channel _ =>
        have member := start.requireMember fd channel
        have operator := member.requireOperator fd channel
        simp only
        split
        · exact member
        · split
          · exact operator
          · split
            · exact operator.queue _ _
            · split
              · exact operator.queue _ _
              · exact leaveChannel_writes (operator.broadcast _ _ _) _ _ _ _
    · exact start.requireParams _ _ _

theorem handleInvite_writes (server : Server) (fd : Int) (message : Message) :
    Writes server (server.handleInvite fd message) := by
  have start := Writes.refl server
  unfold handleInvite
  split
  · exact start
  · split
    · split
      · exact start.queue _ _
      · split
        · exact start.noSuchChannel _ _ _
        next channel _ =>
          have member := start.requireMember fd channel
          have operator := member.requireOperator fd channel
          simp only
          split
          · exact member
          · split
            · exact operator
            · split
              · exact operator.queue _ _
              · exact ((operator.channel _ _).queue _ _).queue _ _
    · exact start.requireParams _ _ _

theorem handleTopic_writes (server : Server) (fd : Int) (message : Message) :
    Writes server (server.handleTopic fd message) := by
  have start := Writes.refl server
  unfold handleTopic
  split
  · exact start
  · split
    · exact start.requireParams _ _ _
    · split
      · exact start.noSuchChannel _ _ _
      next channel _ =>
        have member := start.requireMember fd channel
        simp only
        split
        · exact member
        · split
          · exact member.topicReply _ _ _
          · generalize checks : (if channel.topicRestricted then
              (server.requireChannelMember fd channel).2.requireChannelOperator fd channel
              else (true, (server.requireChannelMember fd channel).2)) = operator
            have checked : Writes server operator.2 := by
              rw [← checks]
              split
              · exact member.requireOperator _ _
              · exact member
            split
            · exact checked
            · exact (checked.channel _ _).broadcast _ _ _

/-! ## MODE -/

theorem modeStep_writes {loop : ModeLoop} (writes : Writes start loop.server) (fd : Int)
    (client : Client) (command target : Bytes) (c : UInt8) :
    Writes start (loop.step fd client command target c).server := by
  have reply : ∀ (arguments : List Bytes) (code : Nat) (parameters : Bytes), Writes start
      ({ loop with arguments := arguments }.reply fd client code parameters).server :=
    fun _ _ _ => writes.queue _ _
  have change : ∀ update, Writes start (loop.change target update).server :=
    fun update => writes.channel target update
  unfold ModeLoop.step
  split
  · exact writes
  next channel _ =>
    split
    · exact writes
    · split
      · exact writes
      · split
        · exact reply _ _ _
        · split
          · unfold ModeLoop.modeInviteOnly
            split
            · exact change _
            · exact writes
          · split
            · unfold ModeLoop.modeTopicRestricted
              split
              · exact change _
              · exact writes
            · split
              · unfold ModeLoop.modeKey
                split
                · split
                  · exact reply _ _ _
                  · split
                    · exact reply _ _ _
                    · exact change _
                · split
                  · exact change _
                  · exact writes
              · split
                · unfold ModeLoop.modeOperator
                  split
                  · exact reply _ _ _
                  · simp only
                    split
                    · exact reply _ _ _
                    next targetClient _ =>
                      split
                      · exact reply _ _ _
                      · generalize (if loop.adding then channel.addOperator targetClient.fd
                          else channel.removeOperator targetClient.fd).1 = flag
                        cases flag with
                        | true => exact change _
                        | false => exact change _
                · split
                  · unfold ModeLoop.modeLimit
                    split
                    · split
                      · exact reply _ _ _
                      · simp only
                        split
                        · exact writes
                        · split
                          · exact writes
                          · exact change _
                    · split
                      · exact change _
                      · exact writes
                  · exact reply _ _ _

theorem modeLoop_writes (loop : ModeLoop) (writes : Writes start loop.server) (fd : Int)
    (client : Client) (command target modeString : Bytes) :
    Writes start (modeString.foldl (ModeLoop.step fd client command target) loop).server := by
  induction modeString generalizing loop with
  | nil => exact writes
  | cons c rest ih => exact ih _ (modeStep_writes writes fd client command target c)

theorem sendModeNotice_writes {loop : ModeLoop} (writes : Writes start loop.server)
    (client : Client) (target : Bytes) : Writes start (sendModeNotice loop client target) := by
  unfold sendModeNotice
  split
  · exact writes
  · split
    · exact writes
    · exact writes.broadcast _ _ _

theorem handleMode_writes (server : Server) (fd : Int) (message : Message) :
    Writes server (server.handleMode fd message) := by
  have start := Writes.refl server
  unfold handleMode
  split
  · exact start
  · split
    · exact start.requireParams _ _ _
    · split
      · exact start.queue _ _
      · split
        · exact start.noSuchChannel _ _ _
        next channel _ =>
          split
          · exact start.queue _ _
          · have member := start.requireMember fd channel
            have operator := member.requireOperator fd channel
            simp only
            split
            · exact member
            · split
              · exact operator
              · apply sendModeNotice_writes
                apply modeLoop_writes
                exact operator

/-! ## The dispatcher -/

theorem commandTable_writes (server : Server) (fd : Int) (message : Message) :
    ∀ entry ∈ commandTable, Writes server (entry.handler server fd message) := by
  intro entry listed
  simp only [commandTable, List.mem_cons, List.not_mem_nil, or_false] at listed
  rcases listed with
    rfl | rfl | rfl | rfl | rfl | rfl | rfl | rfl | rfl | rfl | rfl | rfl | rfl | rfl
  · exact handlePass_writes server fd message
  · exact handleNick_writes server fd message
  · exact handleUser_writes server fd message
  · exact handleCap_writes server fd message
  · exact handlePing_writes server fd message
  · exact Writes.refl server
  · exact handleQuit_writes server fd message
  · exact handleJoin_writes server fd message
  · exact handlePrivmsg_writes server fd message
  · exact handleKick_writes server fd message
  · exact handleInvite_writes server fd message
  · exact handleTopic_writes server fd message
  · exact handleMode_writes server fd message
  · exact handlePart_writes server fd message

theorem dispatchCommand_writes (server : Server) (fd : Int) (message : Message) :
    Writes server (server.dispatchCommand fd message) := by
  have start := Writes.refl server
  unfold dispatchCommand
  split
  · exact start
  · split
    · split
      · exact start.queue _ _
      · exact start
    next entry listed =>
      split
      · exact start.queue _ _
      · split
        · exact start.queue _ _
        · exact commandTable_writes server fd message entry (List.mem_of_find?_eq_some listed)

end Server

end IrcPlatform.Irc
