import IrcPlatform.Irc.Effects

/-!
# The effect of each handler

Every handler is matched with the constructor of `CommandEffect` that describes
it. The handlers that only reply are quiet; the loops of JOIN, PART and MODE are
inductions over their lists.
-/

namespace IrcPlatform.Irc

open Std Relation

namespace Core

@[simp] theorem setClient_setClient (core : Core) (fd : Int) (first second : Client) :
    (core.setClient fd first).setClient fd second = core.setClient fd second := by
  ext1 <;> simp [setClient]

@[simp] theorem setChannel_setChannel (core : Core) (key : Bytes) (first second : Channel) :
    (core.setChannel key first).setChannel key second = core.setChannel key second := by
  ext1 <;> simp [setChannel]

theorem setChannel_setClient (core : Core) (key : Bytes) (channel : Channel) (fd : Int)
    (client : Client) :
    (core.setChannel key channel).setClient fd client =
      (core.setClient fd client).setChannel key channel := rfl

end Core

namespace Server

variable {server : Server} {fd : Int} {client : Client}

theorem findClientByFd_updateClient (change : Client → Client)
    (found : server.findClientByFd fd = some client) :
    (server.updateClient fd change).findClientByFd fd = some (change client) := by
  simp only [findClientByFd] at found
  simp [findClientByFd, updateClient, found]

theorem findChannel_updateChannel {name : Bytes} {channel : Channel} (change : Channel → Channel)
    (found : server.findChannel name = some channel) :
    (server.updateChannel name change).findChannel name = some (change channel) := by
  simp only [findChannel] at found
  simp [findChannel, updateChannel, found]

/-! ## Registration commands -/

theorem core_tryRegisterClient (found : server.findClientByFd fd = some client) :
    (server.tryRegisterClient fd).core =
      server.core.setClient fd client.tryCompleteRegistration.2.withoutBuffers := by
  unfold tryRegisterClient
  rw [found]
  simp only
  split
  · rw [core_sendWelcomeSequence, core_updateClient _ fd _ found]
  · rw [core_updateClient _ fd _ found]

theorem accountChange_tryCompleteRegistration (client : Client) :
    AccountChange client client.tryCompleteRegistration.2 ∧
      client.tryCompleteRegistration.2.nickname = client.nickname := by
  unfold Client.tryCompleteRegistration
  split
  · exact ⟨⟨rfl, rfl, id⟩, rfl⟩
  · split
    · exact ⟨⟨rfl, rfl, fun _ => rfl⟩, rfl⟩
    · exact ⟨⟨rfl, rfl, id⟩, rfl⟩

theorem handlePass_effect (found : server.findClientByFd fd = some client) (message : Message) :
    CommandEffect fd server.core (server.handlePass fd message).core := by
  have stored := core_clients_of_find server fd found
  unfold handlePass
  rw [found]
  simp only
  split
  · simpa using CommandEffect.quiet
  · split
    · simpa using CommandEffect.quiet
    · have accepted := findClientByFd_updateClient (·.acceptPassword) found
      rw [core_tryRegisterClient accepted, core_updateClient _ fd _ found, Core.setClient_setClient]
      have completed := accountChange_tryCompleteRegistration client.acceptPassword
      exact CommandEffect.account stored
        ⟨completed.1.fd, completed.1.joined, completed.1.registered⟩ completed.2

theorem handleUser_effect (found : server.findClientByFd fd = some client) (message : Message) :
    CommandEffect fd server.core (server.handleUser fd message).core := by
  have stored := core_clients_of_find server fd found
  unfold handleUser
  rw [found]
  simp only
  split
  · simpa using CommandEffect.quiet
  · split
    next username _ _ realname _ _ =>
      split
      · simpa using CommandEffect.quiet
      · have named := findClientByFd_updateClient (·.setUser username realname) found
        rw [core_tryRegisterClient named, core_updateClient _ fd _ found, Core.setClient_setClient]
        have completed := accountChange_tryCompleteRegistration (client.setUser username realname)
        exact CommandEffect.account stored
          ⟨completed.1.fd, completed.1.joined, completed.1.registered⟩ completed.2
    next => simpa using CommandEffect.quiet

/-- The core after the index and the record of a client took a new nickname. -/
theorem core_renameClient (found : server.findClientByFd fd = some client) (nickname : Bytes) :
    (server.renameClient fd client nickname).core =
      server.core.rename fd client.nickname nickname
        (client.setNickname nickname).withoutBuffers := by
  ext1
  · have stored := core_updateClient server fd (·.setNickname nickname) found
    have clients := congrArg Core.clients stored
    unfold renameClient
    simp only
    split <;> exact clients
  · unfold renameClient
    simp only
    split <;> rfl
  · funext nick
    simp only [core, renameClient, updateClient, registerNickname, ExtTreeMap.getElem?_insert,
      LawfulEqOrd.compare_eq_iff_eq, Core.rename, Core.unname, eq_comm (b := nick)]
    by_cases new : nick = IrcUtil.ircCaseFold nickname
    · simp [new]
    · by_cases named : client.nickname = []
      · simp [new, named]
      · simp [new, named, unregisterNickname, ExtTreeMap.getElem?_erase, eq_comm (b := nick)]

theorem Core.rename_setClient (core : Core) (fd : Int) (old nickname : Bytes)
    (first second : Client) :
    (core.rename fd old nickname first).setClient fd second =
      core.rename fd old nickname second := by
  ext1 <;> simp [Core.rename, Core.setClient]

theorem handleNick_effect (found : server.findClientByFd fd = some client) (message : Message) :
    CommandEffect fd server.core (server.handleNick fd message).core := by
  have stored := core_clients_of_find server fd found
  unfold handleNick
  rw [found]
  simp only
  split
  · simpa using CommandEffect.quiet
  next nickname _ _ =>
    split
    · simpa using CommandEffect.quiet
    next invalid =>
      split
      · simpa using CommandEffect.quiet
      next taken =>
        have valid : IrcUtil.isValidNickname nickname = true := by simpa using invalid
        have available : ∀ other,
            server.core.nicks (IrcUtil.ircCaseFold nickname) = some other → other = fd := by
          intro other held
          simp only [core] at held
          simpa [isNicknameAvailable, held] using taken
        split
        · simp only [core_broadcastToSharedChannels, core_queueToClient]
          rw [core_renameClient found]
          have effect : CommandEffect fd server.core (server.core.rename fd
              client.withoutBuffers.nickname nickname
                (client.setNickname nickname).withoutBuffers) :=
            CommandEffect.rename stored ⟨rfl, rfl, id⟩ rfl valid available
          exact effect
        · have kept : (server.renameClient fd client nickname).findClientByFd fd =
              some (client.setNickname nickname) := by
            unfold renameClient
            apply findClientByFd_updateClient (·.setNickname nickname)
            split <;> exact found
          have completed := accountChange_tryCompleteRegistration (client.setNickname nickname)
          rw [core_tryRegisterClient kept, core_renameClient found, Core.rename_setClient]
          have effect : CommandEffect fd server.core (server.core.rename fd
              client.withoutBuffers.nickname nickname
              (client.setNickname nickname).tryCompleteRegistration.2.withoutBuffers) :=
            CommandEffect.rename stored
              ⟨completed.1.fd, completed.1.joined, completed.1.registered⟩ completed.2
                valid available
          exact effect

theorem handleCap_core (server : Server) (fd : Int) (message : Message) :
    (server.handleCap fd message).core = server.core := by
  unfold handleCap
  split
  · simp only
    split
    · simp
    · split <;> simp
  · rfl

theorem handlePing_core (server : Server) (fd : Int) (message : Message) :
    (server.handlePing fd message).core = server.core := by
  unfold handlePing
  split
  · rfl
  · simp only
    split <;> simp

theorem handleQuit_core (server : Server) (fd : Int) (message : Message) :
    (server.handleQuit fd message).core = server.core := by
  unfold handleQuit
  split <;> rfl

/-! ## PRIVMSG -/

theorem privmsgTarget_core (server : Server) (fd : Int) (text target : Bytes) :
    (server.privmsgTarget fd text target).core = server.core := by
  unfold privmsgTarget
  split
  · rfl
  · split
    · split
      · simp
      · split <;> simp
    · split <;> simp

theorem privmsgTargets_core (fd : Int) (text : Bytes) (targets : List Bytes) (server : Server) :
    (privmsgTargets fd text targets server).core = server.core := by
  induction targets generalizing server with
  | nil => rfl
  | cons target targets ih => rw [privmsgTargets, ih, privmsgTarget_core]

theorem handlePrivmsg_core (server : Server) (fd : Int) (message : Message) :
    (server.handlePrivmsg fd message).core = server.core := by
  unfold handlePrivmsg
  split
  · rfl
  · split
    · simp
    · simp only
      split
      · simp
      · exact privmsgTargets_core _ _ _ _

/-! ## JOIN -/

/-- The writes of an admission, before the notices. -/
def withMember (server : Server) (fd : Int) (key : Bytes) (created : Bool) : Server :=
  ((server.updateChannel key (·.addMember fd)).updateClient fd
    (·.addJoinedChannel key)).updateChannel key fun channel =>
      (if created then (channel.addOperator fd).2 else channel).removeInvite fd

/-- The record of a channel after an admission. -/
def admitTo (channel : Channel) (fd : Int) (created : Bool) : Channel :=
  (if created then ((channel.addMember fd).addOperator fd).2
    else channel.addMember fd).removeInvite fd

theorem findChannel_withMember {channel : Channel} {key : Bytes} (created : Bool)
    (foundChannel : server.findChannel key = some channel) :
    (server.withMember fd key created).findChannel key = some (admitTo channel fd created) := by
  have entered : ((server.updateChannel key (·.addMember fd)).updateClient fd
      (·.addJoinedChannel key)).findChannel key = some (channel.addMember fd) :=
    findChannel_updateChannel _ foundChannel
  simp only [withMember, admitTo]
  rw [findChannel_updateChannel _ entered]

theorem core_withMember {channel : Channel} {key : Bytes} (created : Bool)
    (found : server.findClientByFd fd = some client)
    (foundChannel : server.findChannel key = some channel)
    (normalized : IrcUtil.normalizeChannelName key = key) :
    (server.withMember fd key created).core =
      (server.core.setClient fd (client.withoutBuffers.addJoinedChannel key)).setChannel key
        (admitTo channel fd created) := by
  have kept : (server.updateChannel key (·.addMember fd)).findClientByFd fd = some client := found
  have entered : ((server.updateChannel key (·.addMember fd)).updateClient fd
      (·.addJoinedChannel key)).findChannel key = some (channel.addMember fd) :=
    findChannel_updateChannel _ foundChannel
  simp only [withMember, admitTo]
  rw [core_updateChannel _ _ entered, core_updateClient _ fd _ kept,
    core_updateChannel _ _ foundChannel, normalized, Core.setChannel_setClient,
    Core.setChannel_setChannel]
  rfl

/-- An admission never fails: both sides of the relation hold after the writes. -/
theorem completeJoin_eq {channel : Channel} {key : Bytes} (created : Bool)
    (found : server.findClientByFd fd = some client)
    (foundChannel : server.findChannel key = some channel) (keyName : channel.keyName = key) :
    server.completeJoin fd client key created =
      (server.withMember fd key created).announceJoin fd client (admitTo channel fd created) := by
  have kept : (server.updateChannel key (·.addMember fd)).findClientByFd fd = some client := found
  have entered : ((server.updateChannel key (·.addMember fd)).updateClient fd
      (·.addJoinedChannel key)).findChannel key = some (channel.addMember fd) :=
    findChannel_updateChannel _ foundChannel
  have joined : server.joinChannel fd key = (true,
      (server.updateChannel key (·.addMember fd)).updateClient fd (·.addJoinedChannel key)) := by
    unfold joinChannel
    rw [found, foundChannel]
    simp only [keyName, Prod.mk.injEq, and_true]
    rw [findClientByFd_updateClient _ kept, entered]
    simp [Channel.hasMember, Channel.addMember, Client.hasJoinedChannel, Client.addJoinedChannel]
  have present : (server.withMember fd key created).findChannel key =
      some (admitTo channel fd created) := findChannel_withMember created foundChannel
  unfold completeJoin
  rw [joined]
  simp only [Bool.not_true, Bool.false_eq_true, if_false]
  rw [← withMember, present]

theorem core_completeJoin {channel : Channel} {key : Bytes} (created : Bool)
    (found : server.findClientByFd fd = some client)
    (foundChannel : server.findChannel key = some channel) (keyName : channel.keyName = key)
    (normalized : IrcUtil.normalizeChannelName key = key) :
    (server.completeJoin fd client key created).core =
      (server.core.setClient fd (client.withoutBuffers.addJoinedChannel key)).setChannel key
        (admitTo channel fd created) := by
  rw [completeJoin_eq created found foundChannel keyName, core_announceJoin,
    core_withMember created found foundChannel normalized]

/-- The core after the insertion of a new channel. -/
theorem core_insertChannel {key : Bytes} (channel : Channel)
    (missing : server.core.channels key = none) :
    ({ server with channels := server.channels.insertIfNew key channel } : Server).core =
      server.core.setChannel key channel := by
  ext1
  · rfl
  · funext other
    simp only [core] at missing
    simp only [core, Core.setChannel_channels, ExtTreeMap.getElem?_insertIfNew,
      LawfulEqOrd.compare_eq_iff_eq, eq_comm (a := other)]
    by_cases same : key = other
    · subst same
      simp [ExtTreeMap.mem_iff_isSome_getElem?, missing]
    · simp [same]
  · rfl

theorem joinElement_effect (consistent : server.core.Consistent)
    (found : server.findClientByFd fd = some client) (registered : client.registered = true)
    (channelName key : Bytes) :
    (server.joinElement fd channelName key).core = server.core ∨
      JoinEffect fd server.core (server.joinElement fd channelName key).core := by
  have stored := core_clients_of_find server fd found
  unfold joinElement
  rw [found]
  simp only
  split
  · left
    simp
  · split
    · exact Or.inl rfl
    next notJoined =>
      have normalized := IrcUtil.normalizeChannelName_normalizeChannelName channelName
      have lookup := core_channels_of_find server (IrcUtil.normalizeChannelName channelName)
      rw [normalized] at lookup
      split
      next missing =>
        right
        rw [missing] at lookup
        have inserted := core_insertChannel
          { name := channelName, keyName := IrcUtil.normalizeChannelName channelName } lookup
        revert inserted
        generalize insertion : ({ server with
          channels := server.channels.insertIfNew (IrcUtil.normalizeChannelName channelName)
            { name := channelName
              keyName := IrcUtil.normalizeChannelName channelName } } : Server) = created
        intro inserted
        have foundNew : created.findChannel (IrcUtil.normalizeChannelName channelName) =
            some { name := channelName
                   keyName := IrcUtil.normalizeChannelName channelName } := by
          rw [← core_channels_of_find, normalized, inserted]
          simp
        have foundClient : created.findClientByFd fd = some client := by
          rw [← insertion]
          exact found
        have effect : JoinEffect fd server.core (server.core.create fd
            (IrcUtil.normalizeChannelName channelName) client.withoutBuffers channelName) :=
          JoinEffect.create stored registered rfl lookup
        rw [core_completeJoin true foundClient foundNew rfl normalized, inserted,
          Core.setChannel_setClient, Core.setChannel_setChannel]
        simpa [Core.create, admitTo, Channel.addMember, Channel.addOperator, Channel.hasMember,
          Channel.removeInvite] using effect
      next channel present =>
        rw [present] at lookup
        split
        · left
          simp
        · split
          · left
            simp
          · split
            · left
              simp
            · right
              have keyName := consistent.keyName _ _ lookup
              have outside : fd ∉ channel.members := by
                rw [consistent.joined_of_member lookup stored]
                simpa [Client.hasJoinedChannel, Client.withoutBuffers] using notJoined
              rw [core_completeJoin false found present keyName normalized]
              exact JoinEffect.admitMember stored registered lookup outside

/-- A client that the core knows as registered is found, and registered, on the server. -/
theorem exists_registered_of_core {member : Client} (stored : server.core.clients fd = some member)
    (registered : member.registered = true) :
    ∃ client, server.findClientByFd fd = some client ∧ client.registered = true := by
  rcases exists_find_of_core_clients server fd stored with ⟨client, found, same⟩
  exact ⟨client, found, by rw [← registered, ← same]; rfl⟩

theorem joinElements_effect (channels keys : List Bytes) (consistent : server.core.Consistent)
    (found : server.findClientByFd fd = some client) (registered : client.registered = true) :
    ReflTransGen (JoinEffect fd) server.core (joinElements fd channels keys server).core := by
  induction channels generalizing keys server client with
  | nil => exact ReflTransGen.refl
  | cons channelName channels ih =>
      unfold joinElements
      rcases joinElement_effect consistent found registered channelName (keys.headD []) with
        same | effect
      · rcases find_eq_of_core_eq fd same.symm found with ⟨next, foundNext, buffers⟩
        have registeredNext : next.registered = true := by
          have sameFlag := congrArg Client.registered buffers
          rw [← registered]
          exact sameFlag
        have rest := ih keys.tail (same ▸ consistent) foundNext registeredNext
        rwa [same] at rest
      · rcases effect.actor_registered with ⟨member, stored, memberRegistered⟩
        obtain ⟨next, foundNext, registeredNext⟩ :=
          exists_registered_of_core stored memberRegistered
        exact ReflTransGen.head effect
          (ih keys.tail (effect.consistent consistent) foundNext registeredNext)

/-! ## Departures -/

theorem core_deleteChannelIfEmpty {channel : Channel} {key : Bytes}
    (foundChannel : server.findChannel key = some channel) (keyName : channel.keyName = key) :
    (server.deleteChannelIfEmpty key).core =
      if channel.isEmpty then server.core.dropChannel key else server.core := by
  unfold deleteChannelIfEmpty
  rw [foundChannel]
  simp only [keyName]
  split
  · ext1
    · rfl
    · funext other
      simp only [core, Core.dropChannel_channels, ExtTreeMap.getElem?_erase,
        LawfulEqOrd.compare_eq_iff_eq, eq_comm (a := other)]
    · rfl
  · rfl

/-- The write part of a departure: both sides change and an empty channel is deleted. -/
theorem core_departure {channel : Channel} {key : Bytes} (change : Channel → Channel)
    (found : server.findClientByFd fd = some client)
    (foundChannel : server.findChannel key = some channel)
    (keyName : (change channel).keyName = key)
    (normalized : IrcUtil.normalizeChannelName key = key)
    (left : change channel = (channel.removeMember fd).removeInvite fd) :
    (((server.updateChannel key change).updateClient fd
      (·.removeJoinedChannel key)).deleteChannelIfEmpty key).core =
      server.core.leave fd key client.withoutBuffers channel := by
  have changed : ((server.updateChannel key change).updateClient fd
      (·.removeJoinedChannel key)).findChannel key = some (change channel) :=
    findChannel_updateChannel _ foundChannel
  have kept : (server.updateChannel key change).findClientByFd fd = some client := found
  rw [core_deleteChannelIfEmpty changed keyName, core_updateClient _ fd _ kept,
    core_updateChannel _ _ foundChannel, normalized, left]
  unfold Core.leave
  simp only
  split
  · ext1 <;> simp [Core.setClient, Core.setChannel, Core.dropChannel, Client.removeJoinedChannel,
      Client.withoutBuffers]
  · rfl

theorem core_leaveChannel {channel : Channel} {key : Bytes} (consistent : server.core.Consistent)
    (found : server.findClientByFd fd = some client)
    (foundChannel : server.findChannel key = some channel) (member : fd ∈ channel.members)
    (reason : Bytes) (sendPart : Bool) :
    (server.leaveChannel fd key reason sendPart).core =
      server.core.leave fd (IrcUtil.normalizeChannelName key) client.withoutBuffers channel := by
  have stored : server.core.channels (IrcUtil.normalizeChannelName key) = some channel :=
    foundChannel
  have keyName := consistent.keyName _ _ stored
  unfold leaveChannel
  rw [found, foundChannel]
  have isMember : channel.hasMember fd = true := by simpa [Channel.hasMember] using member
  simp only [isMember, Bool.not_true, Bool.false_eq_true, if_false]
  generalize notified : (if sendPart = true then server.broadcastToChannel channel
    (Reply.command (Reply.clientPrefix client) (ascii "PART")
      (channel.name ++ ascii " :" ++ reason)) (-1) else server) = after
  have sameCore : after.core = server.core := by
    rw [← notified]
    split
    · exact core_broadcastToChannel _ _ _ _
    · rfl
  rcases find_eq_of_core_eq fd sameCore.symm found with ⟨afterClient, foundAfter, buffers⟩
  have channelAfter : after.findChannel (IrcUtil.normalizeChannelName key) = some channel := by
    rw [findChannel_eq_of_core_eq sameCore, findChannel,
      IrcUtil.normalizeChannelName_normalizeChannelName]
    exact foundChannel
  have written : after.updateChannel key
        (fun channel => (channel.removeMember fd).removeInvite fd) =
      after.updateChannel (IrcUtil.normalizeChannelName key)
        (fun channel => (channel.removeMember fd).removeInvite fd) := by
    simp [updateChannel]
  rw [keyName, written, core_departure _ foundAfter channelAfter (by simpa using keyName)
    (IrcUtil.normalizeChannelName_normalizeChannelName key) rfl, sameCore, buffers]

theorem leaveChannel_effect (fd : Int) (consistent : server.core.Consistent) (key reason : Bytes)
    (sendPart : Bool) :
    server.leaveChannel fd key reason sendPart = server ∨
      LeaveEffect fd server.core (server.leaveChannel fd key reason sendPart).core := by
  cases found : server.findClientByFd fd with
  | none =>
      left
      simp [leaveChannel, found]
  | some client =>
      cases foundChannel : server.findChannel key with
      | none =>
          left
          simp [leaveChannel, found, foundChannel]
      | some channel =>
          by_cases member : fd ∈ channel.members
          · right
            rw [core_leaveChannel consistent found foundChannel member]
            exact LeaveEffect.leave (core_clients_of_find server fd found) foundChannel member
          · left
            simp [leaveChannel, found, foundChannel, Channel.hasMember, member]

theorem leaveAll_effect (reason : Bytes) (keys : List Bytes) (consistent : server.core.Consistent) :
    ReflTransGen (LeaveEffect fd) server.core (leaveAll fd reason keys server).core := by
  induction keys generalizing server with
  | nil => exact ReflTransGen.refl
  | cons key keys ih =>
      unfold leaveAll
      rcases leaveChannel_effect fd consistent key reason true with same | effect
      · rw [same]
        exact ih consistent
      · exact ReflTransGen.head effect (ih (effect.consistent consistent))

theorem handleJoin_effect (consistent : server.core.Consistent)
    (found : server.findClientByFd fd = some client) (registered : client.registered = true)
    (message : Message) :
    CommandEffect fd server.core (server.handleJoin fd message).core := by
  unfold handleJoin
  rw [found]
  simp only
  split
  · simpa using CommandEffect.quiet
  · split
    · exact CommandEffect.leaves (leaveAll_effect _ _ consistent)
    · exact CommandEffect.joins (joinElements_effect _ _ consistent found registered)

theorem partElement_effect (fd : Int) (consistent : server.core.Consistent)
    (reason channelName : Bytes) :
    (server.partElement fd reason channelName).core = server.core ∨
      LeaveEffect fd server.core (server.partElement fd reason channelName).core := by
  unfold partElement
  split
  · exact Or.inl rfl
  · simp only
    split
    · left
      simp
    next channel _ =>
      split
      · left
        simp
      · have sameCore := core_requireChannelMember server fd channel
        rw [← sameCore] at consistent ⊢
        rcases leaveChannel_effect fd consistent
          (IrcUtil.normalizeChannelName channelName) reason true with same | effect
        · exact Or.inl (by rw [same])
        · exact Or.inr effect

theorem partElements_effect (reason : Bytes) (channels : List Bytes)
    (consistent : server.core.Consistent) :
    ReflTransGen (LeaveEffect fd) server.core (partElements fd reason channels server).core := by
  induction channels generalizing server with
  | nil => exact ReflTransGen.refl
  | cons channelName channels ih =>
      unfold partElements
      rcases partElement_effect fd consistent reason channelName with same | effect
      · have rest := ih (same ▸ consistent)
        rwa [same] at rest
      · exact ReflTransGen.head effect (ih (effect.consistent consistent))

theorem handlePart_effect (consistent : server.core.Consistent) (message : Message) :
    CommandEffect fd server.core (server.handlePart fd message).core := by
  unfold handlePart
  split
  · exact CommandEffect.quiet
  · split
    · simpa using CommandEffect.quiet
    · exact CommandEffect.leaves (partElements_effect _ _ consistent)

/-! ## KICK, INVITE and TOPIC -/

/-- A nickname that is found belongs to a stored client with the descriptor of its key. -/
theorem find_of_findClientByNickname (consistent : server.core.Consistent) {nickname : Bytes}
    {target : Client} (found : server.findClientByNickname nickname = some target) :
    server.findClientByFd target.fd = some target := by
  unfold findClientByNickname at found
  split at found
  · simp at found
  next other _ =>
    have stored := core_clients_of_find server other found
    have sameFd : target.withoutBuffers.fd = other := consistent.client_fd other _ stored
    change server.findClientByFd target.withoutBuffers.fd = some target
    rwa [sameFd]

/-- Both checks leave the core unchanged, and passing them means being an operator. -/
theorem operator_of_require {channel : Channel}
    (passed : ¬(!((server.requireChannelMember fd channel).2.requireChannelOperator fd
      channel).1) = true) : fd ∈ channel.operators := by
  rw [requireChannelOperator_fst] at passed
  simpa [Channel.isOperator] using passed

theorem member_of_require {channel : Channel}
    (passed : ¬(!(server.requireChannelMember fd channel).1) = true) : fd ∈ channel.members := by
  rw [requireChannelMember_fst] at passed
  simpa [Channel.hasMember] using passed

theorem handleKick_effect (consistent : server.core.Consistent) (message : Message) :
    CommandEffect fd server.core (server.handleKick fd message).core := by
  unfold handleKick
  split
  · exact CommandEffect.quiet
  next client _ =>
    split
    next channelName targetNick arguments _ =>
      split
      · simpa using CommandEffect.quiet
      next channel foundChannel =>
        simp only
        split
        · simpa using CommandEffect.quiet
        · split
          · simpa using CommandEffect.quiet
          next passed =>
            have operator := operator_of_require passed
            generalize checks : ((server.requireChannelMember fd channel).2.requireChannelOperator
              fd channel).2 = checked
            have sameCore : checked.core = server.core := by simp [← checks]
            split
            · simpa [sameCore] using CommandEffect.quiet
            next target foundTarget =>
              split
              · simpa [sameCore] using CommandEffect.quiet
              next present =>
                have stored : server.core.channels (IrcUtil.normalizeChannelName channelName) =
                    some channel := foundChannel
                have member : target.fd ∈ channel.members := by
                  simpa [Channel.hasMember] using present
                have keyName := consistent.keyName _ _ stored
                generalize notified : checked.broadcastToChannel channel _ (-1) = after
                have afterCore : after.core = server.core := by
                  rw [← notified, core_broadcastToChannel, sameCore]
                have held := find_of_findClientByNickname (sameCore.symm ▸ consistent) foundTarget
                obtain ⟨kicked, foundKicked, buffers⟩ :=
                  find_eq_of_core_eq target.fd (sameCore.trans afterCore.symm) held
                have sameChannel : after.findChannel channel.keyName = some channel := by
                  rw [keyName, findChannel_eq_of_core_eq afterCore, findChannel,
                    IrcUtil.normalizeChannelName_normalizeChannelName]
                  exact foundChannel
                rw [core_leaveChannel (afterCore.symm ▸ consistent) foundKicked sameChannel member,
                  afterCore, keyName, IrcUtil.normalizeChannelName_normalizeChannelName]
                have known := core_clients_of_find after target.fd foundKicked
                rw [afterCore] at known
                exact CommandEffect.kick stored operator known member
    · simpa using CommandEffect.quiet

theorem handleInvite_effect (consistent : server.core.Consistent) (message : Message) :
    CommandEffect fd server.core (server.handleInvite fd message).core := by
  unfold handleInvite
  split
  · exact CommandEffect.quiet
  next client _ =>
    split
    next targetNick channelName _ _ =>
      split
      · simpa using CommandEffect.quiet
      next target foundTarget =>
        split
        · simpa using CommandEffect.quiet
        next channel foundChannel =>
          simp only
          split
          · simpa using CommandEffect.quiet
          · split
            · simpa using CommandEffect.quiet
            next passed =>
              have operator := operator_of_require passed
              split
              · simpa using CommandEffect.quiet
              next absent =>
                have held := find_of_findClientByNickname consistent foundTarget
                have outside : target.fd ∉ channel.members := by
                  simpa [Channel.hasMember] using absent
                generalize checks : ((server.requireChannelMember fd
                  channel).2.requireChannelOperator fd channel).2 = checked
                have sameCore : checked.core = server.core := by simp [← checks]
                have present : checked.findChannel channelName = some channel := by
                  rw [findChannel_eq_of_core_eq sameCore]
                  exact foundChannel
                rw [core_queueToClient, core_queueToClient,
                  core_updateChannel _ _ present, sameCore]
                exact CommandEffect.invite foundChannel operator
                  (core_clients_of_find server target.fd held) outside
    · simpa using CommandEffect.quiet

theorem handleTopic_effect (message : Message) :
    CommandEffect fd server.core (server.handleTopic fd message).core := by
  unfold handleTopic
  split
  · exact CommandEffect.quiet
  next client _ =>
    split
    · simpa using CommandEffect.quiet
    next channelName arguments _ =>
      split
      · simpa using CommandEffect.quiet
      next channel foundChannel =>
        simp only
        split
        · simpa using CommandEffect.quiet
        next passed =>
          have member := member_of_require passed
          split
          · simpa using CommandEffect.quiet
          next topic _ =>
            generalize checks : (if channel.topicRestricted then
              (server.requireChannelMember fd channel).2.requireChannelOperator fd channel
              else (true, (server.requireChannelMember fd channel).2)) = operator
            have sameCore : operator.2.core = server.core := by
              rw [← checks]
              split <;> simp
            have allowed : operator.1 = true → channel.topicRestricted = true →
                fd ∈ channel.operators := by
              intro granted restricted
              rw [← checks, if_pos restricted, requireChannelOperator_fst] at granted
              simpa [Channel.isOperator] using granted
            split
            · simpa [sameCore] using CommandEffect.quiet
            next granted =>
              have present : operator.2.findChannel channelName = some channel := by
                rw [findChannel_eq_of_core_eq sameCore]
                exact foundChannel
              rw [core_broadcastToChannel, core_updateChannel _ _ present, sameCore]
              exact CommandEffect.topic foundChannel member (allowed (by simpa using granted))

end Server

/-! ## MODE -/

namespace ModeChange

theorem refl (channel : Channel) : ModeChange channel channel :=
  ⟨rfl, rfl, rfl, rfl, rfl, fun _ operator => Or.inl operator⟩

theorem trans {before between after : Channel} (first : ModeChange before between)
    (second : ModeChange between after) : ModeChange before after where
  name := second.name.trans first.name
  keyName := second.keyName.trans first.keyName
  topic := second.topic.trans first.topic
  members := second.members.trans first.members
  invited := second.invited.trans first.invited
  operators fd operator := by
    rcases second.operators fd operator with kept | member
    · exact first.operators fd kept
    · exact Or.inr (first.members ▸ member)

/-- A change that leaves the operator set alone. -/
theorem of_flags {before after : Channel} (name : after.name = before.name)
    (keyName : after.keyName = before.keyName) (topic : after.topic = before.topic)
    (members : after.members = before.members) (invited : after.invited = before.invited)
    (operators : after.operators = before.operators) : ModeChange before after :=
  ⟨name, keyName, topic, members, invited, fun _ operator => Or.inl (operators ▸ operator)⟩

theorem addOperator (channel : Channel) (fd : Int) :
    ModeChange channel (channel.addOperator fd).2 := by
  unfold Channel.addOperator
  split
  · exact refl channel
  next present =>
    refine ⟨rfl, rfl, rfl, rfl, rfl, ?_⟩
    intro other operator
    simp only [ExtTreeSet.mem_insert, LawfulEqOrd.compare_eq_iff_eq] at operator
    rcases operator with rfl | operator
    · exact Or.inr (by simpa [Channel.hasMember] using present)
    · exact Or.inl operator

theorem removeOperator (channel : Channel) (fd : Int) :
    ModeChange channel (channel.removeOperator fd).2 := by
  refine ⟨rfl, rfl, rfl, rfl, rfl, ?_⟩
  intro other operator
  simp only [Channel.removeOperator, ExtTreeSet.mem_erase] at operator
  exact Or.inl operator.2

end ModeChange

namespace ModeLoop

/-- The loop has only written mode changes of one channel since `start`. -/
def Tracks (start : Core) (target : Bytes) (channel : Channel) (loop : ModeLoop) : Prop :=
  ∃ current, ModeChange channel current ∧
    loop.server.core = start.setChannel (IrcUtil.normalizeChannelName target) current

variable {start : Core} {target : Bytes} {channel current : Channel} {loop : ModeLoop}

theorem Tracks.of_core_eq {other : ModeLoop} (tracks : loop.Tracks start target channel)
    (same : other.server.core = loop.server.core) : other.Tracks start target channel := by
  rcases tracks with ⟨current, changed, core⟩
  exact ⟨current, changed, same.trans core⟩

theorem Tracks.reply (tracks : loop.Tracks start target channel) (fd : Int) (client : Client)
    (code : Nat) (parameters : Bytes) :
    (loop.reply fd client code parameters).Tracks start target channel :=
  tracks.of_core_eq (Server.core_queueToClient _ _ _)

/-- A write of the loop to the channel it looked up. -/
theorem Tracks.change (tracks : loop.Tracks start target channel)
    (found : loop.server.findChannel target = some current) (update : Channel → Channel)
    (allowed : ModeChange current (update current)) :
    (loop.change target update).Tracks start target channel := by
  rcases tracks with ⟨before, changed, core⟩
  have same : before = current := by
    rw [← Server.core_channels_of_find, core] at found
    simpa using found
  subst same
  refine ⟨update before, changed.trans allowed, ?_⟩
  change (loop.server.updateChannel target update).core = _
  rw [Server.core_updateChannel _ _ found, core, Core.setChannel_setChannel]

theorem Tracks.modeInviteOnly (tracks : loop.Tracks start target channel)
    (found : loop.server.findChannel target = some current) :
    (loop.modeInviteOnly target current).Tracks start target channel := by
  unfold ModeLoop.modeInviteOnly
  split
  · exact tracks.change found _ (ModeChange.of_flags rfl rfl rfl rfl rfl rfl)
  · exact tracks

theorem Tracks.modeTopicRestricted (tracks : loop.Tracks start target channel)
    (found : loop.server.findChannel target = some current) :
    (loop.modeTopicRestricted target current).Tracks start target channel := by
  unfold ModeLoop.modeTopicRestricted
  split
  · exact tracks.change found _ (ModeChange.of_flags rfl rfl rfl rfl rfl rfl)
  · exact tracks

theorem Tracks.modeKey (tracks : loop.Tracks start target channel)
    (found : loop.server.findChannel target = some current) (fd : Int) (client : Client)
    (command : Bytes) :
    (loop.modeKey fd client command target current).Tracks start target channel := by
  unfold ModeLoop.modeKey
  split
  · split
    · exact tracks.reply _ _ _ _
    · split
      · exact tracks.reply _ _ _ _
      · exact tracks.change found _ (ModeChange.of_flags rfl rfl rfl rfl rfl rfl)
  · split
    · exact tracks.change found _ (ModeChange.of_flags rfl rfl rfl rfl rfl rfl)
    · exact tracks

theorem Tracks.modeOperator (tracks : loop.Tracks start target channel)
    (found : loop.server.findChannel target = some current) (fd : Int) (client : Client)
    (command : Bytes) :
    (loop.modeOperator fd client command target current).Tracks start target channel := by
  unfold ModeLoop.modeOperator
  split
  · exact tracks.reply _ _ _ _
  next nickArg arguments _ =>
    have consumed : ({ loop with arguments := arguments } : ModeLoop).Tracks start target channel :=
      tracks.of_core_eq rfl
    simp only
    split
    · exact consumed.reply _ _ _ _
    next targetClient _ =>
      split
      · exact consumed.reply _ _ _ _
      · have changed := consumed.change found (fun channel =>
          (if loop.adding then channel.addOperator targetClient.fd
            else channel.removeOperator targetClient.fd).2) (by
            split
            · exact ModeChange.addOperator _ _
            · exact ModeChange.removeOperator _ _)
        generalize (if loop.adding then current.addOperator targetClient.fd
          else current.removeOperator targetClient.fd).1 = flag
        cases flag with
        | true => exact changed.of_core_eq rfl
        | false => exact changed

theorem Tracks.modeLimit (tracks : loop.Tracks start target channel)
    (found : loop.server.findChannel target = some current) (fd : Int) (client : Client)
    (command : Bytes) :
    (loop.modeLimit fd client command target current).Tracks start target channel := by
  unfold ModeLoop.modeLimit
  split
  · split
    · exact tracks.reply _ _ _ _
    · simp only
      split
      · exact tracks.of_core_eq rfl
      · split
        · exact tracks.of_core_eq rfl
        · exact Tracks.change (tracks.of_core_eq rfl) found _
            (ModeChange.of_flags rfl rfl rfl rfl rfl rfl)
  · split
    · exact tracks.change found _ (ModeChange.of_flags rfl rfl rfl rfl rfl rfl)
    · exact tracks

theorem Tracks.step (tracks : loop.Tracks start target channel) (fd : Int) (client : Client)
    (command : Bytes) (c : UInt8) :
    (loop.step fd client command target c).Tracks start target channel := by
  unfold ModeLoop.step
  split
  · exact tracks
  next current found =>
    split
    · exact tracks.of_core_eq rfl
    · split
      · exact tracks.of_core_eq rfl
      · split
        · exact tracks.reply _ _ _ _
        · split
          · exact tracks.modeInviteOnly found
          · split
            · exact tracks.modeTopicRestricted found
            · split
              · exact tracks.modeKey found _ _ _
              · split
                · exact tracks.modeOperator found _ _ _
                · split
                  · exact tracks.modeLimit found _ _ _
                  · exact tracks.reply _ _ _ _

theorem Tracks.foldl (modeString : Bytes) (tracks : loop.Tracks start target channel) (fd : Int)
    (client : Client) (command : Bytes) :
    (modeString.foldl (ModeLoop.step fd client command target) loop).Tracks
      start target channel := by
  induction modeString generalizing loop with
  | nil => exact tracks
  | cons c rest ih => exact ih (tracks.step fd client command c)

end ModeLoop

namespace Server

variable {server : Server} {fd : Int} {client : Client}

theorem handleMode_effect (message : Message) :
    CommandEffect fd server.core (server.handleMode fd message).core := by
  unfold handleMode
  split
  · exact CommandEffect.quiet
  next client _ =>
    split
    · simpa using CommandEffect.quiet
    next target arguments _ =>
      split
      · simpa using CommandEffect.quiet
      · split
        · simpa using CommandEffect.quiet
        next channel foundChannel =>
          split
          · simpa using CommandEffect.quiet
          next modeString modeArguments _ =>
            simp only
            split
            · simpa using CommandEffect.quiet
            · split
              · simpa using CommandEffect.quiet
              next passed =>
                have operator := operator_of_require passed
                generalize checks : ((server.requireChannelMember fd
                  channel).2.requireChannelOperator fd channel).2 = checked
                have sameCore : checked.core = server.core := by simp [← checks]
                have initial : ({ server := checked, arguments := modeArguments } : ModeLoop).Tracks
                    server.core target channel :=
                  ⟨channel, ModeChange.refl channel, by
                    rw [Core.setChannel_self foundChannel]
                    exact sameCore⟩
                obtain ⟨current, changed, core⟩ :=
                  initial.foldl modeString fd client message.command
                rw [core_sendModeNotice, core]
                exact CommandEffect.modes foundChannel operator changed

/-! ## The dispatcher -/

/-- Every entry of the command table has an effect, given what the dispatcher checked. -/
theorem commandTable_effect (consistent : server.core.Consistent)
    (found : server.findClientByFd fd = some client) (message : Message) :
    ∀ entry ∈ commandTable, (entry.requiresRegistration = true → client.registered = true) →
      CommandEffect fd server.core (entry.handler server fd message).core := by
  intro entry listed admitted
  simp only [commandTable, List.mem_cons, List.not_mem_nil, or_false] at listed
  rcases listed with
    rfl | rfl | rfl | rfl | rfl | rfl | rfl | rfl | rfl | rfl | rfl | rfl | rfl | rfl
  · exact handlePass_effect found message
  · exact handleNick_effect found message
  · exact handleUser_effect found message
  · simpa [handleCap_core] using CommandEffect.quiet
  · simpa [handlePing_core] using CommandEffect.quiet
  · exact CommandEffect.quiet
  · simpa [handleQuit_core] using CommandEffect.quiet
  · exact handleJoin_effect consistent found (admitted rfl) message
  · simpa [handlePrivmsg_core] using CommandEffect.quiet
  · exact handleKick_effect consistent message
  · exact handleInvite_effect consistent message
  · exact handleTopic_effect message
  · exact handleMode_effect message
  · exact handlePart_effect consistent message

/-- The list of effects is complete: every dispatched message has one of them. -/
theorem dispatchCommand_effect (consistent : server.core.Consistent) (fd : Int)
    (message : Message) :
    CommandEffect fd server.core (server.dispatchCommand fd message).core := by
  unfold dispatchCommand
  split
  · exact CommandEffect.quiet
  next client found =>
    split
    · split
      · simpa using CommandEffect.quiet
      · exact CommandEffect.quiet
    next entry listed =>
      split
      · simpa using CommandEffect.quiet
      next admitted =>
        split
        · simpa using CommandEffect.quiet
        · refine commandTable_effect consistent found message entry
            (List.mem_of_find?_eq_some listed) ?_
          intro required
          simpa [required] using admitted

end Server

end IrcPlatform.Irc
