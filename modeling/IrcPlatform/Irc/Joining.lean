import IrcPlatform.Irc.ChannelNames

/-!
# Admission to channels

Who may enter a channel (`Admits`), which error answers the others
(`JoinRefusal`), and what an admission does to both sides of the membership
relation (`JoinAdmission`). `joinElement` decides by these rules for every element
of a list, against the state that the elements before it left.
-/

namespace IrcPlatform.Irc

open Std

/-! ## The rules -/

namespace Channel

/-- The +i rule: an invite-only channel is open to invited clients. -/
def PassesInvite (channel : Channel) (fd : Int) : Prop :=
  channel.inviteOnly = true → fd ∈ channel.invited

/-- The +k rule. -/
def PassesKey (channel : Channel) (key : Bytes) : Prop :=
  channel.keyEnabled = true → channel.channelKey = key

/-- The +l rule. -/
def HasRoom (channel : Channel) : Prop :=
  channel.limitEnabled = true → channel.members.size < channel.userLimit

variable {channel : Channel}

theorem passesInvite_iff {fd : Int} :
    channel.PassesInvite fd ↔ (channel.inviteOnly && !channel.isInvited fd) = false := by
  simp only [PassesInvite, isInvited]
  cases channel.inviteOnly with
  | true => simp
  | false => simp

theorem passesKey_iff {key : Bytes} : channel.PassesKey key ↔ channel.matchesKey key = true := by
  simp only [PassesKey, matchesKey]
  cases channel.keyEnabled with
  | true => simp
  | false => simp

theorem hasRoom_iff : channel.HasRoom ↔ channel.isFull = false := by
  simp only [HasRoom, isFull]
  cases channel.limitEnabled with
  | true => simp
  | false => simp

end Channel

/-- A channel as the first client to enter it finds it. -/
def newChannel (fd : Int) (name : Bytes) : Channel where
  name := name
  keyName := IrcUtil.normalizeChannelName name
  members := (∅ : ExtTreeSet Int).insert fd
  operators := (∅ : ExtTreeSet Int).insert fd

namespace Server

/-- The client may enter the channel of this name with this key. -/
structure Admits (server : Server) (fd : Int) (name key : Bytes) : Prop where
  valid : IrcUtil.isValidChannelName name = true
  outside : ¬server.core.IsMember fd (IrcUtil.normalizeChannelName name)
  existing (channel : Channel) : server.findChannel name = some channel →
    channel.PassesInvite fd ∧ channel.PassesKey key ∧ channel.HasRoom

/-- The first rule that keeps the client out, with the code of its error. -/
inductive JoinRefusal (server : Server) (fd : Int) (name key : Bytes) : Nat → Prop where
  | name (invalid : IrcUtil.isValidChannelName name = false) : JoinRefusal server fd name key 403
  | inviteOnly {channel : Channel} (valid : IrcUtil.isValidChannelName name = true)
      (found : server.findChannel name = some channel) (uninvited : ¬channel.PassesInvite fd) :
      JoinRefusal server fd name key 473
  | key {channel : Channel} (valid : IrcUtil.isValidChannelName name = true)
      (found : server.findChannel name = some channel) (invite : channel.PassesInvite fd)
      (wrong : ¬channel.PassesKey key) : JoinRefusal server fd name key 475
  | limit {channel : Channel} (valid : IrcUtil.isValidChannelName name = true)
      (found : server.findChannel name = some channel) (invite : channel.PassesInvite fd)
      (right : channel.PassesKey key) (full : ¬channel.HasRoom) :
      JoinRefusal server fd name key 471

theorem JoinRefusal.not_admits {server : Server} {fd : Int} {name key : Bytes} {code : Nat}
    (refusal : server.JoinRefusal fd name key code) : ¬server.Admits fd name key := by
  intro admits
  cases refusal with
  | name invalid => simp [admits.valid] at invalid
  | inviteOnly _ found uninvited => exact uninvited (admits.existing _ found).1
  | key _ found _ wrong => exact wrong (admits.existing _ found).2.1
  | limit _ found _ _ full => exact full (admits.existing _ found).2.2

/-- What an admission does: the client is on both sides of the relation, its invite is
consumed, it is an operator when the channel is new, and nothing else changes. -/
structure JoinAdmission (fd : Int) (name : Bytes) (before after : Server) (entered : Channel) :
    Prop where
  stored : after.core.channels (IrcUtil.normalizeChannelName name) = some entered
  member : fd ∈ entered.members
  joined : after.core.HasJoined fd (IrcUtil.normalizeChannelName name)
  consumed : fd ∉ entered.invited
  operator_iff : fd ∈ entered.operators ↔
    before.core.channels (IrcUtil.normalizeChannelName name) = none
  existing (old : Channel) :
    before.core.channels (IrcUtil.normalizeChannelName name) = some old →
      entered = { old with members := old.members.insert fd, invited := old.invited.erase fd }
  created : before.core.channels (IrcUtil.normalizeChannelName name) = none →
    entered = newChannel fd name
  channels (key : Bytes) : key ≠ IrcUtil.normalizeChannelName name →
    after.core.channels key = before.core.channels key
  own (client : Client) : before.core.clients fd = some client →
    after.core.clients fd = some (client.addJoinedChannel (IrcUtil.normalizeChannelName name))
  clients (other : Int) : other ≠ fd → after.core.clients other = before.core.clients other
  nicks : after.core.nicks = before.core.nicks

/-- The law of one element of a JOIN list. -/
structure JoinLaw (fd : Int) (name key : Bytes) (before after : Server) : Prop where
  added_iff : ¬before.core.IsMember fd (IrcUtil.normalizeChannelName name) ∧
      after.core.IsMember fd (IrcUtil.normalizeChannelName name) ↔ before.Admits fd name key
  admission : before.Admits fd name key → ∃ entered, JoinAdmission fd name before after entered
  refusal : ¬before.core.IsMember fd (IrcUtil.normalizeChannelName name) →
    ¬before.Admits fd name key → after.core = before.core ∧
      ∃ client code parameters, before.findClientByFd fd = some client ∧
        before.JoinRefusal fd name key code ∧ before.Posts
          [⟨fd, Reply.numeric before.serverName client code parameters⟩] after
  member : before.core.IsMember fd (IrcUtil.normalizeChannelName name) → after = before

variable {server : Server} {fd : Int} {client : Client}

/-! ## One element -/

def joinLine (client : Client) (channel : Channel) : Bytes :=
  Reply.command (Reply.clientPrefix client) (ascii "JOIN") (ascii ":" ++ channel.name)

/-- The replies to the client that entered: the topic and the names. -/
def joinReplies (server : Server) (fd : Int) (client : Client) (channel : Channel)
    (names : Bytes) : List Posting :=
  [ ⟨fd, if channel.hasTopic then
        Reply.numeric server.serverName client Numeric.rplTopic
          (channel.name ++ ascii " :" ++ channel.topic)
      else Reply.numeric server.serverName client Numeric.rplNoTopic
          (channel.name ++ ascii " :No topic is set")⟩,
    ⟨fd, Reply.numeric server.serverName client Numeric.rplNamReply
      (ascii "= " ++ channel.name ++ ascii " :" ++ names)⟩,
    ⟨fd, Reply.numeric server.serverName client Numeric.rplEndOfNames
      (channel.name ++ ascii " :End of NAMES list")⟩ ]

theorem serverName_queueToAll (message : Bytes) (targets : List Int) (server : Server) :
    (queueToAll message targets server).serverName = server.serverName :=
  (SameRecords.queueToAll message targets server).serverName

theorem namesOf_of_core {after : Server} (core : after.core = server.core) (channel : Channel) :
    after.namesOf channel = server.namesOf channel := by
  simp only [namesOf]
  congr 1
  funext names fd
  have lookup := congrArg (fun core : Core => core.clients fd) core
  simp only [Server.core] at lookup
  cases found : after.findClientByFd fd with
  | none =>
      rw [show after.clients[fd]? = none from found, Option.map_none, eq_comm,
        Option.map_eq_none_iff] at lookup
      rw [show server.findClientByFd fd = none from lookup]
  | some member =>
      rw [show after.clients[fd]? = some member from found, Option.map_some, eq_comm,
        Option.map_eq_some_iff] at lookup
      rcases lookup with ⟨other, foundOther, same⟩
      have nickname : other.nickname = member.nickname := by
        have fields := congrArg Client.nickname same
        exact fields
      rw [show server.findClientByFd fd = some other from foundOther]
      simp only [nickname]

/-- The lines of an admission, with the names of all members. -/
theorem posts_announceJoin_names (server : Server) (fd : Int) (client : Client)
    (channel : Channel) : server.Posts ((channel.members.toList.filter (· != -1)).map
        (fun target => ⟨target, joinLine client channel⟩) ++
      joinReplies server fd client channel (server.namesOf channel))
      (server.announceJoin fd client channel) := by
  have announced := mail_broadcastToChannel server channel (joinLine client channel) (-1)
  have sameName : (server.broadcastToChannel channel (joinLine client channel) (-1)).serverName =
      server.serverName := serverName_queueToAll _ _ server
  have core : (server.broadcastToChannel channel (joinLine client channel) (-1)).core =
      server.core := core_broadcastToChannel ..
  simp only [announceJoin]
  rw [← joinLine]
  generalize server.broadcastToChannel channel (joinLine client channel) (-1) = notified
    at announced sameName core
  have topic : notified.Posts [⟨fd, if channel.hasTopic then
        Reply.numeric server.serverName client Numeric.rplTopic
          (channel.name ++ ascii " :" ++ channel.topic)
      else Reply.numeric server.serverName client Numeric.rplNoTopic
          (channel.name ++ ascii " :No topic is set")⟩]
      (notified.sendTopic fd client channel) := by
    simp only [sendTopic, sameName]
    split
    · exact (Posts.refl notified).queue _ _
    · exact (Posts.refl notified).queue _ _
  rw [namesOf_of_core ((core_sendTopic notified fd client channel).trans core)]
  have names := (topic.queue fd (Reply.numeric server.serverName client Numeric.rplNamReply
    (ascii "= " ++ channel.name ++ ascii " :" ++ server.namesOf channel))).queue fd
      (Reply.numeric server.serverName client Numeric.rplEndOfNames
        (channel.name ++ ascii " :End of NAMES list"))
  have notices : server.Posts _ notified := announced
  exact notices.trans names

theorem posts_announceJoin (server : Server) (fd : Int) (client : Client) (channel : Channel) :
    ∃ names, server.Posts ((channel.members.toList.filter (· != -1)).map
        (fun target => ⟨target, joinLine client channel⟩) ++
      joinReplies server fd client channel names) (server.announceJoin fd client channel) :=
  ⟨_, posts_announceJoin_names server fd client channel⟩

/-- The channel after the client entered it. -/
def enteredChannel (server : Server) (fd : Int) (name : Bytes) : Channel :=
  match server.findChannel name with
  | none => newChannel fd name
  | some channel => (channel.addMember fd).removeInvite fd

/-- What one element of a JOIN list does. -/
inductive JoinOutcome (server : Server) (fd : Int) (client : Client) (name key : Bytes)
    (after : Server) : Prop where
  | refused {code : Nat} {parameters : Bytes} (refusal : server.JoinRefusal fd name key code)
      (outside : IrcUtil.isValidChannelName name = true →
        ¬server.core.IsMember fd (IrcUtil.normalizeChannelName name))
      (answered : after = server.queueToClient fd
        (Reply.numeric server.serverName client code parameters))
  | member (joined : IrcUtil.normalizeChannelName name ∈ client.joinedChannels)
      (same : after = server)
  | admitted {names : Bytes} (admits : server.Admits fd name key)
      (core : after.core = (server.core.setClient fd (client.withoutBuffers.addJoinedChannel
        (IrcUtil.normalizeChannelName name))).setChannel (IrcUtil.normalizeChannelName name)
          (server.enteredChannel fd name))
      (posts : server.Posts
        (((server.enteredChannel fd name).members.toList.filter (· != -1)).map
            (fun target => ⟨target, joinLine client (server.enteredChannel fd name)⟩) ++
          joinReplies server fd client (server.enteredChannel fd name) names) after)

theorem findChannel_normalize (server : Server) (name : Bytes) :
    server.findChannel (IrcUtil.normalizeChannelName name) = server.findChannel name := by
  simp only [findChannel, IrcUtil.normalizeChannelName_normalizeChannelName]

theorem isMember_iff (consistent : server.core.Consistent)
    (found : server.findClientByFd fd = some client) (key : Bytes) :
    server.core.IsMember fd key ↔ key ∈ client.joinedChannels := by
  rw [consistent.isMember_iff]
  simp [Core.HasJoined, core_clients_of_find server fd found, Client.withoutBuffers]

theorem mail_withMember (server : Server) (fd : Int) (key : Bytes) (created : Bool) :
    (server.withMember fd key created).mail = server.mail := by
  simp only [withMember, mail_updateChannel]
  have buffers : ∀ client : Client, (client.addJoinedChannel key).sendBuffer =
      client.sendBuffer := fun _ => rfl
  exact mail_updateClient (server.updateChannel key (·.addMember fd)) fd fun client _ =>
    buffers client

/-- An admission, where `start` is the server with the channel in place. -/
theorem joinOutcome_of_completeJoin {start : Server} {name key : Bytes} {channel : Channel}
    {created : Bool} (admits : server.Admits fd name key)
    (found : start.findClientByFd fd = some client)
    (foundChannel : start.findChannel (IrcUtil.normalizeChannelName name) = some channel)
    (keyName : channel.keyName = IrcUtil.normalizeChannelName name)
    (mail : start.mail = server.mail) (serverName : start.serverName = server.serverName)
    (clients : start.core.clients = server.core.clients)
    (nicks : start.core.nicks = server.core.nicks)
    (channels : ∀ other, other ≠ IrcUtil.normalizeChannelName name →
      start.core.channels other = server.core.channels other)
    (entered : admitTo channel fd created = server.enteredChannel fd name) :
    server.JoinOutcome fd client name key
      (start.completeJoin fd client (IrcUtil.normalizeChannelName name) created) := by
  have normalized := IrcUtil.normalizeChannelName_normalizeChannelName name
  have admitMail : (start.withMember fd (IrcUtil.normalizeChannelName name) created).mail =
      server.mail := (mail_withMember start fd _ created).trans mail
  rcases posts_announceJoin (start.withMember fd (IrcUtil.normalizeChannelName name) created) fd
    client (admitTo channel fd created) with ⟨names, posts⟩
  have admitName : (start.withMember fd (IrcUtil.normalizeChannelName name) created).serverName =
      server.serverName := serverName
  rw [← completeJoin_eq created found foundChannel keyName, entered] at posts
  simp only [joinReplies, admitName] at posts
  have core := core_completeJoin created found foundChannel keyName normalized
  rw [entered] at core
  apply JoinOutcome.admitted admits
  · rw [core]
    ext1
    · simp only [Core.setChannel_clients]
      funext other
      simp only [Core.setClient_clients, clients]
    · funext other
      simp only [Core.setChannel_channels, Core.setClient_channels]
      split
      · rfl
      next distinct => exact channels other distinct
    · exact nicks
  · exact ((Posts.refl server).of_mail_eq admitMail).trans posts

/-- Every element is refused, skipped or admitted by the rules. -/
theorem joinElement_outcome (consistent : server.core.Consistent)
    (found : server.findClientByFd fd = some client) (name key : Bytes) :
    server.JoinOutcome fd client name key (server.joinElement fd name key) := by
  simp only [joinElement, found]
  split
  next invalid =>
    have invalid : IrcUtil.isValidChannelName name = false := by simpa using invalid
    refine JoinOutcome.refused (JoinRefusal.name invalid) ?_ rfl
    simp [invalid]
  next valid =>
    have valid : IrcUtil.isValidChannelName name = true := by simpa using valid
    split
    next joined => exact JoinOutcome.member (by simpa [Client.hasJoinedChannel] using joined) rfl
    next notJoined =>
      have outside : ¬server.core.IsMember fd (IrcUtil.normalizeChannelName name) := by
        rw [isMember_iff consistent found]
        simpa [Client.hasJoinedChannel] using notJoined
      rw [findChannel_normalize]
      split
      next missing =>
        have admits : server.Admits fd name key := by
          refine ⟨valid, outside, ?_⟩
          intro channel present
          simp [missing] at present
        have absent : server.core.channels (IrcUtil.normalizeChannelName name) = none := missing
        have inserted := core_insertChannel
          { name := name, keyName := IrcUtil.normalizeChannelName name } absent
        have opened : ({ server with
            channels := server.channels.insertIfNew (IrcUtil.normalizeChannelName name)
              { name := name
                keyName := IrcUtil.normalizeChannelName name } } : Server).findChannel
            (IrcUtil.normalizeChannelName name) =
              some { name := name, keyName := IrcUtil.normalizeChannelName name } := by
          rw [findChannel_normalize, ← core_channels_of_find, inserted]
          simp
        refine joinOutcome_of_completeJoin admits ?_ opened rfl rfl rfl rfl rfl ?_ ?_
        · exact found
        · intro other distinct
          rw [inserted]
          simp [distinct]
        · simp [enteredChannel, missing, admitTo, newChannel, Channel.addMember,
            Channel.addOperator, Channel.hasMember, Channel.removeInvite]
      next channel present =>
        split
        next uninvited =>
          refine JoinOutcome.refused (JoinRefusal.inviteOnly valid present ?_)
            (fun _ => outside) rfl
          rw [Channel.passesInvite_iff]
          simpa using uninvited
        next invited =>
          have invite : channel.PassesInvite fd := by
            rw [Channel.passesInvite_iff]
            simpa using invited
          split
          next wrong =>
            refine JoinOutcome.refused (JoinRefusal.key valid present invite ?_)
              (fun _ => outside) rfl
            rw [Channel.passesKey_iff]
            simpa using wrong
          next right =>
            have keyed : channel.PassesKey key := by
              rw [Channel.passesKey_iff]
              simpa using right
            split
            next full =>
              refine JoinOutcome.refused (JoinRefusal.limit valid present invite keyed ?_)
                (fun _ => outside) rfl
              rw [Channel.hasRoom_iff]
              simpa using full
            next notFull =>
              have room : channel.HasRoom := by
                rw [Channel.hasRoom_iff]
                simpa using notFull
              have admits : server.Admits fd name key := by
                refine ⟨valid, outside, ?_⟩
                intro other foundOther
                rw [present, Option.some.injEq] at foundOther
                subst foundOther
                exact ⟨invite, keyed, room⟩
              have stored : server.findChannel (IrcUtil.normalizeChannelName name) =
                  some channel := by
                rw [findChannel_normalize]
                exact present
              refine joinOutcome_of_completeJoin admits found stored
                (consistent.keyName _ _ present) rfl rfl rfl rfl ?_ ?_
              · intro _ _
                rfl
              · simp only [enteredChannel, present]
                rfl

/-! ## The law of one element -/

theorem joinAdmission_of_core {after : Server} {name key : Bytes}
    (consistent : server.core.Consistent) (found : server.findClientByFd fd = some client)
    (admits : server.Admits fd name key)
    (core : after.core = (server.core.setClient fd (client.withoutBuffers.addJoinedChannel
      (IrcUtil.normalizeChannelName name))).setChannel (IrcUtil.normalizeChannelName name)
        (server.enteredChannel fd name)) :
    JoinAdmission fd name server after (server.enteredChannel fd name) := by
  have lookup := core_channels_of_find server name
  have unchanged : ∀ other, other ≠ IrcUtil.normalizeChannelName name →
      after.core.channels other = server.core.channels other := by
    intro other distinct
    rw [core]
    simp [distinct]
  have own : after.core.clients fd = some (client.withoutBuffers.addJoinedChannel
      (IrcUtil.normalizeChannelName name)) := by
    rw [core]
    simp
  constructor
  case stored =>
    rw [core]
    simp
  case member =>
    simp only [enteredChannel]
    split
    · simp [newChannel]
    · simp
  case joined => exact ⟨_, own, by simp [Client.addJoinedChannel]⟩
  case consumed =>
    simp only [enteredChannel]
    split
    · simp [newChannel]
    · simp
  case operator_iff =>
    simp only [enteredChannel]
    split
    next missing => simp [lookup, missing, newChannel]
    next channel present =>
      have notMember : fd ∉ channel.members := by
        intro member
        exact admits.outside ⟨channel, present, member⟩
      have notOperator : fd ∉ channel.operators := by
        intro operator
        exact notMember (consistent.operator_member _ channel fd present operator)
      simp [lookup, present, notOperator]
  case existing =>
    intro old present
    rw [lookup] at present
    simp only [enteredChannel, present]
    rfl
  case created =>
    intro missing
    rw [lookup] at missing
    simp only [enteredChannel, missing]
  case channels => exact unchanged
  case own =>
    intro stored foundStored
    rw [core_clients_of_find server fd found, Option.some.injEq] at foundStored
    rw [own, foundStored]
  case clients =>
    intro other distinct
    rw [core]
    simp [distinct]
  case nicks =>
    rw [core]
    rfl

theorem joinElement_law (wellFormed : server.core.WellFormed)
    (found : server.findClientByFd fd = some client) (name key : Bytes) :
    JoinLaw fd name key server (server.joinElement fd name key) := by
  have consistent := wellFormed.consistent
  have outcome := joinElement_outcome consistent found name key
  generalize server.joinElement fd name key = after at outcome
  cases outcome with
  | @refused code parameters refusal outside answered =>
      have sameCore : after.core = server.core := by
        rw [answered, core_queueToClient]
      constructor
      case added_iff =>
        rw [sameCore]
        constructor
        · rintro ⟨outside, inside⟩
          exact absurd inside outside
        · intro admits
          exact absurd admits refusal.not_admits
      case admission =>
        intro admits
        exact absurd admits refusal.not_admits
      case refusal =>
        intro _ _
        refine ⟨sameCore, client, code, parameters, found, refusal, ?_⟩
        rw [answered]
        exact (Posts.refl server).queue _ _
      case member =>
        intro isMember
        have valid : IrcUtil.isValidChannelName name = true := by
          rcases isMember with ⟨channel, stored, _⟩
          rw [← IrcUtil.isValidChannelName_normalize]
          exact wellFormed.names _ channel stored
        exact absurd isMember (outside valid)
  | member joined same =>
      have isMember : server.core.IsMember fd (IrcUtil.normalizeChannelName name) :=
        (isMember_iff consistent found _).mpr joined
      subst same
      constructor
      case added_iff =>
        constructor
        · rintro ⟨outside, _⟩
          exact absurd isMember outside
        · intro admits
          exact absurd isMember admits.outside
      case admission =>
        intro admits
        exact absurd isMember admits.outside
      case refusal =>
        intro outside
        exact absurd isMember outside
      case member =>
        intro _
        rfl
  | admitted admits core posts =>
      have admission := joinAdmission_of_core consistent found admits core
      constructor
      case added_iff =>
        constructor
        · intro _
          exact admits
        · intro _
          exact ⟨admits.outside, _, admission.stored, admission.member⟩
      case admission =>
        intro _
        exact ⟨_, admission⟩
      case refusal =>
        intro _ denied
        exact absurd admits denied
      case member =>
        intro isMember
        exact absurd isMember admits.outside

/-! ## The list -/

/-- Every element leaves a well-formed core and a registered client. -/
theorem joinElement_kept (wellFormed : server.core.WellFormed)
    (found : server.findClientByFd fd = some client) (registered : client.registered = true)
    (name key : Bytes) : (server.joinElement fd name key).core.WellFormed ∧
      ∃ next, (server.joinElement fd name key).findClientByFd fd = some next ∧
        next.registered = true := by
  have consistent := wellFormed.consistent
  have stored := core_clients_of_find server fd found
  have effect := joinElement_effect consistent found registered name key
  have outcome := joinElement_outcome consistent found name key
  generalize server.joinElement fd name key = after at effect outcome
  have consistentAfter : after.core.Consistent := by
    rcases effect with same | effect
    · rwa [same]
    · exact effect.consistent consistent
  have steady : after.core = server.core → after.core.WellFormed ∧
      ∃ next, after.findClientByFd fd = some next ∧ next.registered = true := by
    intro same
    have storedAfter : after.core.clients fd = some client.withoutBuffers := by
      rw [same]
      exact stored
    exact ⟨same ▸ wellFormed, exists_registered_of_core storedAfter registered⟩
  cases outcome with
  | refused _ _ answered => exact steady (by rw [answered, core_queueToClient])
  | member _ same => exact steady (by rw [same])
  | admitted admits core _ =>
      refine ⟨⟨consistentAfter, ?_, ?_⟩, ?_⟩
      · intro other channel foundChannel
        rw [core, Core.setChannel_channels] at foundChannel
        split at foundChannel
        next same =>
          rw [same, IrcUtil.isValidChannelName_normalize]
          exact admits.valid
        · exact wellFormed.names other channel foundChannel
      · intro other record foundRecord
        rw [core, Core.setChannel_clients, Core.setClient_clients] at foundRecord
        split at foundRecord
        next same => exact same ▸ wellFormed.descriptors fd _ stored
        · exact wellFormed.descriptors other record foundRecord
      · have own : after.core.clients fd = some (client.withoutBuffers.addJoinedChannel
            (IrcUtil.normalizeChannelName name)) := by
          rw [core]
          simp
        exact exists_registered_of_core own registered

/-- The states between the elements; element and key go by position. -/
theorem joinElements_law (names keys : List Bytes) (wellFormed : server.core.WellFormed)
    (found : server.findClientByFd fd = some client) (registered : client.registered = true) :
    ∃ states : Nat → Server, states 0 = server ∧
      states names.length = joinElements fd names keys server ∧
      ∀ position (inside : position < names.length),
        JoinLaw fd names[position] (keys.getD position []) (states position)
          (states (position + 1)) := by
  induction names generalizing keys server client with
  | nil => exact ⟨fun _ => server, rfl, rfl, by simp⟩
  | cons name names ih =>
      rcases joinElement_kept wellFormed found registered name (keys.headD []) with
        ⟨kept, next, foundNext, stillRegistered⟩
      rcases ih keys.tail kept foundNext stillRegistered with ⟨states, first, last, laws⟩
      have here := joinElement_law wellFormed found name (keys.headD [])
      refine ⟨fun position => Nat.casesOn position server states, rfl, last, ?_⟩
      intro position inside
      cases position with
      | zero =>
          have key : keys.getD 0 [] = keys.headD [] := by
            cases keys with
            | nil => rfl
            | cons _ _ => rfl
          rw [key]
          rw [← first] at here
          exact here
      | succ position =>
          have later := laws position (Nat.lt_of_succ_lt_succ inside)
          have key : keys.getD (position + 1) [] = keys.tail.getD position [] := by
            cases keys with
            | nil => rfl
            | cons _ _ => rfl
          rw [key]
          exact later

/-- The key list of a JOIN message. -/
def joinKeys (arguments : List Bytes) : List Bytes :=
  match arguments with
  | [] => []
  | keys :: _ => IrcUtil.splitCommaList keys

theorem dispatchCommand_joinElements (found : server.findClientByFd fd = some client)
    (registered : client.registered = true) {message : Message} {targets : Bytes}
    {arguments : List Bytes} (command : message.command = ascii "JOIN")
    (params : message.params = targets :: arguments) (notAll : targets ≠ ascii "0") :
    server.dispatchCommand fd message =
      joinElements fd (IrcUtil.splitCommaList targets) (joinKeys arguments) server := by
  have looked : commandTable.find? (·.name == message.command) =
      some ⟨ascii "JOIN", handleJoin, true, false⟩ := by
    rw [command]
    rfl
  rw [dispatchCommand_registered found registered looked rfl]
  simp only [handleJoin, found, params, beq_iff_eq, if_neg notAll]
  rfl

/-- A JOIN of a registered client goes through its list from left to right, and every
element is decided by the rules of admission. -/
theorem dispatchCommand_join (reached : stepSystem.Reachable server)
    (found : server.findClientByFd fd = some client) (registered : client.registered = true)
    {message : Message} {targets : Bytes} {arguments : List Bytes}
    (command : message.command = ascii "JOIN") (params : message.params = targets :: arguments)
    (notAll : targets ≠ ascii "0") :
    ∃ states : Nat → Server, states 0 = server ∧
      states (IrcUtil.splitCommaList targets).length = server.dispatchCommand fd message ∧
      ∀ position (inside : position < (IrcUtil.splitCommaList targets).length),
        JoinLaw fd (IrcUtil.splitCommaList targets)[position]
          ((joinKeys arguments).getD position []) (states position) (states (position + 1)) := by
  rw [dispatchCommand_joinElements found registered command params notAll]
  exact joinElements_law _ _ (step_reachable_wellFormed reached) found registered

/-- Bob opens a channel, tries the one he is in, an invalid name, and the new one again. -/
theorem dispatchCommand_join_bob :
    (∃ states : Nat → Server, states 0 = alicesRoom ∧
      states (IrcUtil.splitCommaList (ascii "#new,#ROOM,new,#NEW")).length =
        alicesRoom.dispatchCommand 5
          { command := ascii "JOIN", params := [ascii "#new,#ROOM,new,#NEW", ascii "k"] } ∧
      ∀ position (inside : position <
          (IrcUtil.splitCommaList (ascii "#new,#ROOM,new,#NEW")).length),
        JoinLaw 5 (IrcUtil.splitCommaList (ascii "#new,#ROOM,new,#NEW"))[position]
          ((joinKeys [ascii "k"]).getD position []) (states position) (states (position + 1))) ∧
    ((alicesRoom.dispatchCommand 5
      { command := ascii "JOIN", params := [ascii "#new,#ROOM,new,#NEW", ascii "k"] }).channels.map
        fun _ channel => (channel.members.toList, channel.operators.toList)).toList =
      [(ascii "#new", [5], [5]), (ascii "#room", [4, 5], [4])] := by
  have bob : (alicesRoom.findClientByFd 5).map (·.registered) = some true := by decide +kernel
  rcases Option.map_eq_some_iff.mp bob with ⟨client, found, registered⟩
  exact ⟨dispatchCommand_join reachable_alicesRoom found registered rfl rfl (by decide),
    by decide +kernel⟩

end Server

end IrcPlatform.Irc
