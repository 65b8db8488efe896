import IrcPlatform.Irc.LineIntegrity
import IrcPlatform.Irc.Notices

/-!
# Delivery of notices

Every command puts exactly its notices into the mail: a handler is taken apart into
replies to the sender and broadcasts, and the lists of JOIN, PART and PRIVMSG add up
what their elements deliver, each against the state that the ones before it left.
-/

namespace IrcPlatform.Irc

open Std

/-! ## Copies and postings -/

section Copies

variable {fd : Int}

theorem copies_append (first second : List Notice) :
    copies fd (first ++ second) = copies fd first ++ copies fd second := by
  simp only [copies, List.filter_append, List.map_append]

theorem copies_of_mem {notice : Notice} (listed : fd ∈ notice.audience) :
    copies fd [notice] = [notice.line] := by
  simp [copies, listed]

theorem copies_of_not_mem {notice : Notice} (absent : fd ∉ notice.audience) :
    copies fd [notice] = [] := by
  simp [copies, absent]

theorem addressed_append (first second : List Posting) :
    addressed fd (first ++ second) = addressed fd first ++ addressed fd second := by
  simp only [addressed, List.filter_append, List.map_append]

/-- A broadcast puts one line into the mail of each of its targets. -/
theorem addressed_broadcast {targets : List Int} (distinct : targets.Nodup) (line : Bytes) :
    addressed fd (targets.map fun target => ⟨target, line⟩) =
      if fd ∈ targets then [line] else [] := by
  induction targets with
  | nil => rfl
  | cons target rest ih =>
      rw [List.nodup_cons] at distinct
      rw [List.map_cons, ← List.singleton_append, addressed_append, ih distinct.2]
      by_cases same : target = fd
      · subst same
        simp [addressed, distinct.1]
      · simp [addressed, same, Ne.symm same]

end Copies

/-- The postings give every client its copies, and the sender replies among them. -/
structure Sorted (fd : Int) (notices : List Notice) (postings : List Posting) : Prop where
  own : (addressed fd postings).filter (!Reply.fromServer ·) = copies fd notices
  others (other : Int) : other ≠ fd → addressed other postings = copies other notices

namespace Sorted

variable {fd : Int} {notices more : List Notice} {postings later : List Posting}

theorem nil (fd : Int) : Sorted fd [] [] where
  own := rfl
  others _ _ := rfl

theorem append (first : Sorted fd notices postings) (second : Sorted fd more later) :
    Sorted fd (notices ++ more) (postings ++ later) where
  own := by
    rw [addressed_append, List.filter_append, first.own, second.own, copies_append]
  others other distinct := by
    rw [addressed_append, first.others other distinct, second.others other distinct,
      copies_append]

theorem reply {line : Bytes} (fromServer : Reply.fromServer line = true) :
    Sorted fd [] [⟨fd, line⟩] where
  own := by simp [addressed, fromServer, copies]
  others other distinct := by simp [addressed, Ne.symm distinct, copies]

theorem replies {postings : List Posting}
    (all : ∀ posting ∈ postings, posting.fd = fd ∧ Reply.fromServer posting.message = true) :
    Sorted fd [] postings := by
  induction postings with
  | nil => exact nil fd
  | cons posting rest ih =>
      rw [List.forall_mem_cons] at all
      have first : Sorted fd [] [posting] := all.1.1 ▸ reply all.1.2
      exact first.append (ih all.2)

theorem broadcast {targets : List Int} (distinct : targets.Nodup) {line : Bytes}
    (relayed : Reply.fromServer line = false) {audience : Set Int}
    (same : ∀ other, other ∈ targets ↔ other ∈ audience) :
    Sorted fd [⟨line, audience⟩] (targets.map fun target => ⟨target, line⟩) := by
  have delivered : ∀ other, addressed other (targets.map fun target => ⟨target, line⟩) =
      copies other [⟨line, audience⟩] := by
    intro other
    rw [addressed_broadcast distinct]
    by_cases listed : other ∈ targets
    · rw [if_pos listed, copies_of_mem ((same other).mp listed)]
    · have absent : other ∉ audience := fun inside => listed ((same other).mpr inside)
      rw [if_neg listed, copies_of_not_mem absent]
  constructor
  case own =>
    rw [delivered]
    apply List.filter_eq_self.mpr
    intro other listed
    rcases List.mem_map.mp listed with ⟨notice, chosen, rfl⟩
    rw [List.mem_singleton.mp (List.mem_filter.mp chosen).1, relayed]
    rfl
  case others =>
    intro other _
    exact delivered other

end Sorted

namespace Channel

variable {channel : Channel} {fd : Int}

theorem hasMember_iff : channel.hasMember fd = true ↔ fd ∈ channel.members :=
  ExtTreeSet.mem_iff_contains.symm

theorem isOperator_iff : channel.isOperator fd = true ↔ fd ∈ channel.operators :=
  ExtTreeSet.mem_iff_contains.symm

end Channel

namespace Server

/-- The mail of `after` is that of `before` with the notices delivered. -/
def Delivers (fd : Int) (before : Server) (notices : List Notice) (after : Server) : Prop :=
  ∃ postings, before.Posts postings after ∧ Sorted fd notices postings

namespace Delivers

variable {fd : Int} {before between after : Server} {notices more : List Notice}

theorem refl (fd : Int) (server : Server) : Delivers fd server [] server :=
  ⟨[], Posts.refl server, Sorted.nil fd⟩

theorem trans (first : Delivers fd before notices between)
    (second : Delivers fd between more after) : Delivers fd before (notices ++ more) after := by
  rcases first with ⟨postings, posts, sorted⟩
  rcases second with ⟨later, postsLater, sortedLater⟩
  exact ⟨postings ++ later, posts.trans postsLater, sorted.append sortedLater⟩

theorem of_mail_eq (delivers : Delivers fd before notices between)
    (same : after.mail = between.mail) : Delivers fd before notices after := by
  rcases delivers with ⟨postings, posts, sorted⟩
  exact ⟨postings, posts.of_mail_eq same, sorted⟩

theorem reply (delivers : Delivers fd before notices between) {line : Bytes}
    (fromServer : Reply.fromServer line = true) :
    Delivers fd before notices (between.queueToClient fd line) := by
  rcases delivers with ⟨postings, posts, sorted⟩
  have answered := sorted.append (Sorted.reply fromServer)
  rw [List.append_nil] at answered
  exact ⟨_, posts.queue fd line, answered⟩

/-- One line to one client. -/
theorem direct (delivers : Delivers fd before notices between) {line : Bytes}
    (relayed : Reply.fromServer line = false) (receiver : Int) :
    Delivers fd before (notices ++ [⟨line, {receiver}⟩])
      (between.queueToClient receiver line) := by
  rcases delivers with ⟨postings, posts, sorted⟩
  have single : Sorted fd [⟨line, {receiver}⟩] [⟨receiver, line⟩] := by
    apply @Sorted.broadcast fd [receiver] (by simp) _ relayed
    intro other
    rw [List.mem_singleton, Set.mem_singleton_iff]
  exact ⟨_, posts.queue receiver line, sorted.append single⟩

end Delivers

/-! ## Replies and broadcasts of a sender -/

theorem fromServer_numeric {client : Client}
    (valid : client.nickname ≠ [] → IrcUtil.isValidNickname client.nickname = true) {code : Nat}
    (listed : code ∈ welcomeCodes ++ replyCodes) (parameters : Bytes) :
    Reply.fromServer (Reply.numeric (ascii "ircserv.local") client code parameters) = true := by
  have safeServer : IrcUtil.isSafeToken (ascii "ircserv.local") = true := by decide
  rw [Reply.fromServer, List.isPrefixOf_iff_prefix]
  exact Reply.head_numeric safeServer (safe_targetName_of_valid valid)
    (Reply.code_bytes code listed).1 parameters

theorem fromServer_answer {word : Bytes} (listed : word ∈ [ascii "CAP", ascii "PONG"])
    (parameters : Bytes) : Reply.fromServer
      (Reply.command (Reply.serverPrefix (ascii "ircserv.local")) word parameters) = true := by
  have safeServer : IrcUtil.isSafeToken (ascii "ircserv.local") = true := by decide
  rw [Reply.fromServer, List.isPrefixOf_iff_prefix]
  exact Reply.head_command safeServer (safe_answer listed) parameters

theorem fromServer_command {client : Client}
    (valid : client.nickname ≠ [] → IrcUtil.isValidNickname client.nickname = true)
    (word parameters : Bytes) :
    Reply.fromServer (Reply.command (Reply.clientPrefix client) word parameters) = false := by
  rw [Reply.fromServer, Bool.eq_false_iff]
  intro head
  exact command_not_of_server valid word parameters (List.isPrefixOf_iff_prefix.mp head)

section Checks

variable {server : Server} {fd : Int} {channel : Channel}

theorem requireChannelMember_of_member (member : fd ∈ channel.members) :
    server.requireChannelMember fd channel = (true, server) := by
  simp [requireChannelMember, Channel.hasMember_iff, member]

theorem requireChannelMember_of_not_member (outside : fd ∉ channel.members) :
    (server.requireChannelMember fd channel).1 = false := by
  simpa [requireChannelMember_fst, Bool.eq_false_iff, Channel.hasMember_iff] using outside

theorem requireChannelOperator_of_operator (operator : fd ∈ channel.operators) :
    server.requireChannelOperator fd channel = (true, server) := by
  simp [requireChannelOperator, Channel.isOperator_iff, operator]

theorem requireChannelOperator_of_not_operator (ordinary : fd ∉ channel.operators) :
    (server.requireChannelOperator fd channel).1 = false := by
  simpa [requireChannelOperator_fst, Bool.eq_false_iff, Channel.isOperator_iff] using ordinary

end Checks

/-- What a handler relies on: the registered client it runs for and the state. -/
structure Sender (server : Server) (fd : Int) (client : Client) : Prop where
  found : server.findClientByFd fd = some client
  registered : client.registered = true
  nickname : client.nickname ≠ [] → IrcUtil.isValidNickname client.nickname = true
  serverName : server.serverName = ascii "ircserv.local"
  wellFormed : server.core.WellFormed

variable {server after : Server} {fd : Int} {client : Client}

/-- The members that a channel lists. -/
theorem mem_audience {name : Bytes} {channel : Channel}
    (foundChannel : server.findChannel name = some channel) (other : Int) :
    other ∈ server.core.audience name ↔ other ∈ channel.members := by
  constructor
  · rintro ⟨stored, foundStored, member⟩
    rw [core_channels_of_find, foundChannel, Option.some.injEq] at foundStored
    exact foundStored ▸ member
  · intro member
    exact ⟨channel, foundChannel, member⟩

namespace Sender

/-- The client is there as before when a list goes on to its next element. -/
theorem next (sender : Sender server fd client) (same : SameRecords server after)
    (consistent : after.core.Consistent) :
    ∃ current, Sender after fd current ∧ current.identity = client.identity := by
  have identity := same.identity fd
  rw [sender.found] at identity
  rcases Option.map_eq_some_iff.mp identity with ⟨current, found, sameIdentity⟩
  refine ⟨current, ⟨found, ?_, ?_, same.serverName.trans sender.serverName,
    wellFormed_of_same same consistent sender.wellFormed⟩, sameIdentity⟩
  · rw [Client.registered_of_identity sameIdentity, sender.registered]
  · rw [Client.nickname_of_identity sameIdentity]
    exact sender.nickname

variable (sender : Sender server fd client)
include sender

theorem fromServer_reply {code : Nat} (listed : code ∈ replyCodes) (parameters : Bytes) :
    Reply.fromServer (Reply.numeric server.serverName client code parameters) = true := by
  rw [sender.serverName]
  exact fromServer_numeric sender.nickname (List.mem_append_right _ listed) parameters

theorem numeric {code : Nat} (listed : code ∈ replyCodes) (parameters : Bytes) :
    Delivers fd server []
      (server.queueToClient fd (Reply.numeric server.serverName client code parameters)) :=
  (Delivers.refl fd server).reply (sender.fromServer_reply listed parameters)

theorem broadcast_to {between : Server} (mail : between.mail = server.mail) {name : Bytes}
    {channel : Channel} (foundChannel : server.findChannel name = some channel)
    {audience : Set Int} (same : ∀ other, other ∈ audience ↔ other ∈ channel.members)
    (word parameters : Bytes) :
    Delivers fd server [⟨Reply.command (Reply.clientPrefix client) word parameters, audience⟩]
      (between.broadcastToChannel channel
        (Reply.command (Reply.clientPrefix client) word parameters) (-1)) := by
  have announced := mail_broadcastToChannel between channel
    (Reply.command (Reply.clientPrefix client) word parameters) (-1)
  rw [sender.wellFormed.filter_members foundChannel, mail] at announced
  refine ⟨_, announced, ?_⟩
  apply Sorted.broadcast (nodup_toList channel.members)
    (fromServer_command sender.nickname word parameters)
  intro other
  rw [ExtTreeSet.mem_toList, same]

theorem broadcast {name : Bytes} {channel : Channel}
    (foundChannel : server.findChannel name = some channel) (word parameters : Bytes) :
    Delivers fd server
      [⟨Reply.command (Reply.clientPrefix client) word parameters, server.core.audience name⟩]
      (server.broadcastToChannel channel
        (Reply.command (Reply.clientPrefix client) word parameters) (-1)) :=
  sender.broadcast_to rfl foundChannel (mem_audience foundChannel) word parameters

/-- A channel message: the sender gets no copy. -/
theorem broadcast_others {name : Bytes} {channel : Channel}
    (foundChannel : server.findChannel name = some channel) (word parameters : Bytes) :
    Delivers fd server
      [⟨Reply.command (Reply.clientPrefix client) word parameters,
        server.core.audience name \ {fd}⟩]
      (server.broadcastToChannel channel
        (Reply.command (Reply.clientPrefix client) word parameters) fd) := by
  refine ⟨_, mail_broadcastToChannel server channel _ fd, ?_⟩
  apply Sorted.broadcast ((nodup_toList channel.members).filter _)
    (fromServer_command sender.nickname word parameters)
  intro other
  rw [List.mem_filter, ExtTreeSet.mem_toList, Set.mem_sdiff, mem_audience foundChannel,
    Set.mem_singleton_iff, bne_iff_ne]

theorem requireParams (message : Message) (count : Nat) :
    Delivers fd server [] (server.requireParams fd message count).2 := by
  simp only [Server.requireParams, sender.found]
  split
  · exact Delivers.refl fd server
  · exact sender.numeric (by decide) _

theorem sendNoSuchChannel (name : Bytes) :
    Delivers fd server [] (server.sendNoSuchChannel fd client name) :=
  sender.numeric (by decide) _

theorem sendTopic (channel : Channel) :
    Delivers fd server [] (server.sendTopic fd client channel) := by
  simp only [Server.sendTopic]
  split
  · exact sender.numeric (by decide) _
  · exact sender.numeric (by decide) _

theorem requireChannelMember (channel : Channel) :
    Delivers fd server [] (server.requireChannelMember fd channel).2 := by
  simp only [Server.requireChannelMember, sender.found]
  split
  · exact Delivers.refl fd server
  · exact sender.numeric (by decide) _

theorem requireChannelOperator (channel : Channel) :
    Delivers fd server [] (server.requireChannelOperator fd channel).2 := by
  simp only [Server.requireChannelOperator, sender.found]
  split
  · exact Delivers.refl fd server
  · exact sender.numeric (by decide) _

end Sender

/-! ## PRIVMSG -/

/-- The notices of an element depend on the core alone. -/
theorem privmsgNotice_of_core (core : after.core = server.core) {current : Client}
    (identity : current.identity = client.identity) (text target : Bytes) :
    after.privmsgNotice fd current text target = server.privmsgNotice fd client text target := by
  have sameChannel := findChannel_eq_of_core_eq core target
  have senders := Reply.clientPrefix_of_identity identity
  have receivers : (after.findClientByNickname target).map Client.withoutBuffers =
      (server.findClientByNickname target).map Client.withoutBuffers := by
    rw [map_findClientByNickname, map_findClientByNickname, core]
  simp only [privmsgNotice, sameChannel, privmsgLine, senders]
  rw [core]
  cases found : server.findClientByNickname target with
  | none =>
      rw [found, Option.map_none, Option.map_eq_none_iff] at receivers
      rw [receivers]
  | some receiver =>
      rw [found] at receivers
      rcases Option.map_eq_some_iff.mp receivers with ⟨record, foundRecord, same⟩
      have identity := congrArg Client.identity same
      rw [Client.identity_withoutBuffers, Client.identity_withoutBuffers] at identity
      simp only [foundRecord, Client.fd_of_identity identity,
        Client.nickname_of_identity identity]

theorem sameRecords_privmsgTarget (server : Server) (fd : Int) (text target : Bytes) :
    SameRecords server (server.privmsgTarget fd text target) := by
  simp only [privmsgTarget]
  split
  · exact SameRecords.refl server
  · split
    · split
      · exact SameRecords.queueToClient server fd _
      · split
        · exact SameRecords.queueToClient server fd _
        · exact SameRecords.queueToAll _ _ server
    · split
      · exact SameRecords.queueToClient server fd _
      · exact SameRecords.queueToClient server _ _

theorem privmsgTarget_delivers (sender : Sender server fd client) (text target : Bytes) :
    Delivers fd server (server.privmsgNotice fd client text target)
      (server.privmsgTarget fd text target) := by
  simp only [privmsgTarget, sender.found, privmsgNotice]
  by_cases channelTarget : target.head? = some (byte '#')
  · rw [if_pos channelTarget, if_pos channelTarget]
    cases foundChannel : server.findChannel target with
    | none => exact sender.sendNoSuchChannel target
    | some channel =>
        dsimp only
        by_cases member : fd ∈ channel.members
        · have inside : ¬(!channel.hasMember fd) = true := by
            simpa [Channel.hasMember_iff] using member
          rw [if_pos ((mem_audience foundChannel fd).mpr member), if_neg inside]
          exact sender.broadcast_others foundChannel _ _
        · have outside : (!channel.hasMember fd) = true := by
            simpa [Bool.eq_false_iff, Channel.hasMember_iff] using member
          rw [if_neg (mt (mem_audience foundChannel fd).mp member), if_pos outside]
          exact sender.numeric (by decide) _
  · rw [if_neg channelTarget, if_neg channelTarget]
    cases foundReceiver : server.findClientByNickname target with
    | none => exact sender.numeric (by decide) _
    | some receiver =>
        exact (Delivers.refl fd server).direct
          (fromServer_command sender.nickname (ascii "PRIVMSG") _) receiver.fd

theorem Sender.privmsgTarget (sender : Sender server fd client) (text target : Bytes) :
    ∃ current, Sender (server.privmsgTarget fd text target) fd current ∧
      current.identity = client.identity := by
  have consistent : (server.privmsgTarget fd text target).core.Consistent := by
    rw [privmsgTarget_core]
    exact sender.wellFormed.consistent
  exact sender.next (sameRecords_privmsgTarget server fd text target) consistent

theorem privmsgTargets_delivers (sender : Sender server fd client) (text : Bytes)
    (targets : List Bytes) :
    Delivers fd server (targets.flatMap (server.privmsgNotice fd client text))
      (privmsgTargets fd text targets server) := by
  induction targets generalizing server client with
  | nil => exact Delivers.refl fd server
  | cons target targets ih =>
      rcases sender.privmsgTarget text target with ⟨current, later, identity⟩
      have first := privmsgTarget_delivers sender text target
      have rest := ih later
      have notices : (server.privmsgTarget fd text target).privmsgNotice fd current text =
          server.privmsgNotice fd client text :=
        funext (privmsgNotice_of_core (privmsgTarget_core server fd text target) identity text)
      rw [notices] at rest
      rw [List.flatMap_cons]
      exact first.trans rest

theorem handlePrivmsg_delivers (sender : Sender server fd client) {message : Message}
    (command : message.command = ascii "PRIVMSG") :
    Delivers fd server (server.notices fd message) (server.handlePrivmsg fd message) := by
  have admitted : ¬client.registered = false := by simp [sender.registered]
  simp only [notices, handlePrivmsg, sender.found, if_neg admitted, if_pos command]
  cases message.params with
  | nil => exact sender.numeric (by decide) _
  | cons targets arguments =>
      dsimp only
      by_cases empty : arguments.headD [] = []
      · rw [if_pos empty, if_pos (by simpa using empty)]
        exact sender.numeric (by decide) _
      · rw [if_neg empty, if_neg (by simpa using empty)]
        exact privmsgTargets_delivers sender _ _

/-! ## JOIN -/

theorem Sender.sorted_joinReplies (sender : Sender server fd client) (channel : Channel)
    (names : Bytes) : Sorted fd [] (joinReplies server fd client channel names) := by
  have topic : Sorted fd [] [⟨fd, if channel.hasTopic then
      Reply.numeric server.serverName client Numeric.rplTopic
        (channel.name ++ ascii " :" ++ channel.topic)
    else Reply.numeric server.serverName client Numeric.rplNoTopic
        (channel.name ++ ascii " :No topic is set")⟩] := by
    apply Sorted.reply
    split
    · exact sender.fromServer_reply (by decide) _
    · exact sender.fromServer_reply (by decide) _
  have listed : Sorted fd [] [⟨fd, Reply.numeric server.serverName client Numeric.rplNamReply
      (ascii "= " ++ channel.name ++ ascii " :" ++ names)⟩] :=
    Sorted.reply (sender.fromServer_reply (by decide) _)
  have ended : Sorted fd [] [⟨fd, Reply.numeric server.serverName client Numeric.rplEndOfNames
      (channel.name ++ ascii " :End of NAMES list")⟩] :=
    Sorted.reply (sender.fromServer_reply (by decide) _)
  exact (topic.append listed).append ended

theorem JoinRefusal.listed {name key : Bytes} {code : Nat}
    (refusal : server.JoinRefusal fd name key code) : code ∈ replyCodes := by
  cases refusal with
  | _ => decide

theorem joinElement_delivers (sender : Sender server fd client) (name key : Bytes) :
    Delivers fd server (server.joinNotice fd name key) (server.joinElement fd name key) := by
  have outcome := joinElement_outcome sender.wellFormed.consistent sender.found name key
  have kept := (joinElement_kept sender.wellFormed sender.found sender.registered name key).1
  simp only [joinNotice, sender.found]
  generalize server.joinElement fd name key = after at outcome kept
  cases outcome with
  | refused refusal _ answered =>
      rw [if_neg refusal.not_admits, answered]
      exact sender.numeric refusal.listed _
  | member joined same =>
      have inside := (isMember_iff sender.wellFormed.consistent sender.found _).mpr joined
      have notAdmitted : ¬server.Admits fd name key := fun admits => admits.outside inside
      rw [if_neg notAdmitted, same]
      exact Delivers.refl fd server
  | admitted admits core posts =>
      have entered : after.findChannel name = some (server.enteredChannel fd name) := by
        rw [← core_channels_of_find, core]
        simp
      rw [if_pos admits]
      rw [kept.filter_members entered] at posts
      have announced := @Sorted.broadcast fd _
        (nodup_toList (server.enteredChannel fd name).members)
        _ (fromServer_command sender.nickname (ascii "JOIN")
          (ascii ":" ++ (server.enteredChannel fd name).name)) (after.core.audience name)
        (fun other => ExtTreeSet.mem_toList.trans (mem_audience entered other).symm)
      exact ⟨_, posts, announced.append (sender.sorted_joinReplies _ _)⟩

theorem Sender.joinElement (sender : Sender server fd client) (name key : Bytes) :
    ∃ current, Sender (server.joinElement fd name key) fd current ∧
      current.identity = client.identity := by
  have kept := joinElement_kept sender.wellFormed sender.found sender.registered name key
  have tells : Tells server fd client { command := [] } _ :=
    joinElement_tells Tells.refl sender.found sender.registered name key kept.1.consistent
  exact sender.next tells.same kept.1.consistent

theorem joinElements_delivers (sender : Sender server fd client) (names keys : List Bytes) :
    Delivers fd server (joinNotices fd names keys server) (joinElements fd names keys server) := by
  induction names generalizing server client keys with
  | nil => exact Delivers.refl fd server
  | cons name names ih =>
      rcases sender.joinElement name (keys.headD []) with ⟨current, later, _⟩
      exact (joinElement_delivers sender name (keys.headD [])).trans (ih later keys.tail)

/-! ## Departures -/

/-- The removal itself sends nothing. -/
theorem mail_departure (server : Server) (fd : Int) (name key : Bytes)
    (change : Channel → Channel) :
    (((server.updateChannel name change).updateClient fd
      (·.removeJoinedChannel key)).deleteChannelIfEmpty key).mail = server.mail := by
  rw [mail_deleteChannelIfEmpty]
  exact mail_updateClient (server.updateChannel name change) fd fun _ _ => rfl

theorem leaveNotice_normalize (server : Server) (fd : Int) (reason name : Bytes) :
    server.leaveNotice fd reason (IrcUtil.normalizeChannelName name) =
      server.leaveNotice fd reason name := by
  have same : server.core.audience (IrcUtil.normalizeChannelName name) =
      server.core.audience name := by
    simp only [Core.audience, IrcUtil.normalizeChannelName_normalizeChannelName]
  simp only [leaveNotice, findChannel_normalize]
  rw [same]

theorem leaveChannel_delivers (sender : Sender server fd client) (reason name : Bytes) :
    Delivers fd server (server.leaveNotice fd reason name)
      (server.leaveChannel fd name reason true) := by
  simp only [leaveNotice, leaveChannel, sender.found]
  cases foundChannel : server.findChannel name with
  | none => exact Delivers.refl fd server
  | some channel =>
      dsimp only
      by_cases member : fd ∈ channel.members
      · have inside : ¬(!channel.hasMember fd) = true := by
          simpa [Channel.hasMember_iff] using member
        rw [if_pos ((mem_audience foundChannel fd).mpr member), if_neg inside]
        exact (sender.broadcast foundChannel _ _).of_mail_eq (mail_departure _ fd name _ _)
      · have outside : (!channel.hasMember fd) = true := by
          simpa [Bool.eq_false_iff, Channel.hasMember_iff] using member
        rw [if_neg (mt (mem_audience foundChannel fd).mp member), if_pos outside]
        exact Delivers.refl fd server

theorem partElement_delivers (sender : Sender server fd client) (reason name : Bytes) :
    Delivers fd server (server.leaveNotice fd reason name)
      (server.partElement fd reason name) := by
  have leaves := leaveChannel_delivers sender reason (IrcUtil.normalizeChannelName name)
  rw [leaveNotice_normalize] at leaves
  simp only [partElement, sender.found, findChannel_normalize]
  cases foundChannel : server.findChannel name with
  | none =>
      simp only [leaveNotice, sender.found, foundChannel]
      exact sender.sendNoSuchChannel name
  | some channel =>
      dsimp only
      by_cases member : fd ∈ channel.members
      · rw [requireChannelMember_of_member member]
        exact leaves
      · simp only [leaveNotice, sender.found, foundChannel,
          requireChannelMember_of_not_member member]
        rw [if_neg (mt (mem_audience foundChannel fd).mp member)]
        exact sender.requireChannelMember channel

theorem leaveAll_delivers (sender : Sender server fd client) (reason : Bytes)
    (keys : List Bytes) :
    Delivers fd server (leaveNotices fd reason keys server) (leaveAll fd reason keys server) := by
  induction keys generalizing server client with
  | nil => exact Delivers.refl fd server
  | cons key keys ih =>
      have consistent := sender.wellFormed.consistent
      have tells : Tells server fd client { command := [] } _ :=
        leaveChannel_tells Tells.refl sender.found sender.registered consistent key reason
      have kept : (server.leaveChannel fd key reason true).core.Consistent := by
        rcases leaveChannel_effect fd consistent key reason true with same | effect
        · rwa [same]
        · exact effect.consistent consistent
      rcases sender.next tells.same kept with ⟨current, later, _⟩
      exact (leaveChannel_delivers sender reason key).trans (ih later)

theorem Sender.partElement (sender : Sender server fd client) (reason name : Bytes) :
    ∃ current, Sender (server.partElement fd reason name) fd current ∧
      current.identity = client.identity := by
  have consistent := sender.wellFormed.consistent
  have tells : Tells server fd client { command := [] } _ :=
    partElement_tells Tells.refl sender.found sender.registered consistent reason name
  have kept : (server.partElement fd reason name).core.Consistent := by
    rcases partElement_effect fd consistent reason name with same | effect
    · rwa [same]
    · exact effect.consistent consistent
  exact sender.next tells.same kept

theorem partElements_delivers (sender : Sender server fd client) (reason : Bytes)
    (names : List Bytes) :
    Delivers fd server (partNotices fd reason names server)
      (partElements fd reason names server) := by
  induction names generalizing server client with
  | nil => exact Delivers.refl fd server
  | cons name names ih =>
      rcases sender.partElement reason name with ⟨current, later, _⟩
      exact (partElement_delivers sender reason name).trans (ih later)

theorem handleJoin_delivers (sender : Sender server fd client) {message : Message}
    (command : message.command = ascii "JOIN") :
    Delivers fd server (server.notices fd message) (server.handleJoin fd message) := by
  simp +decide only [notices, handleJoin, sender.found, sender.registered, command, if_true,
    if_false]
  cases params : message.params with
  | nil => exact sender.requireParams message 1
  | cons targets arguments =>
      dsimp only
      by_cases all : targets = ascii "0"
      · rw [if_pos all, if_pos (by simpa using all)]
        exact leaveAll_delivers sender _ _
      · rw [if_neg all, if_neg (by simpa using all)]
        exact joinElements_delivers sender _ _

theorem handlePart_delivers (sender : Sender server fd client) {message : Message}
    (command : message.command = ascii "PART") :
    Delivers fd server (server.notices fd message) (server.handlePart fd message) := by
  simp +decide only [notices, handlePart, sender.found, sender.registered, command, if_true,
    if_false]
  cases params : message.params with
  | nil => exact sender.requireParams message 1
  | cons targets arguments => exact partElements_delivers sender _ _

/-! ## KICK, INVITE and TOPIC -/

theorem mail_leaveChannel_silent (server : Server) (fd : Int) (key reason : Bytes) :
    (server.leaveChannel fd key reason false).mail = server.mail := by
  simp only [leaveChannel]
  split
  · split
    · rfl
    · exact mail_departure server _ _ _ _
  · rfl

theorem member_of_operator (consistent : server.core.Consistent) {name : Bytes}
    {channel : Channel} (foundChannel : server.findChannel name = some channel)
    (operator : fd ∈ channel.operators) : fd ∈ channel.members :=
  consistent.operator_member _ channel fd foundChannel operator

/-- The two checks that KICK, INVITE and MODE begin with fail for everybody else. -/
theorem Sender.refuse (sender : Sender server fd client) {channel : Channel}
    (ordinary : fd ∉ channel.operators) (accepted : Server) :
    Delivers fd server []
      (if !(server.requireChannelMember fd channel).1 then
        (server.requireChannelMember fd channel).2
      else if !((server.requireChannelMember fd channel).2.requireChannelOperator fd channel).1
        then ((server.requireChannelMember fd channel).2.requireChannelOperator fd channel).2
      else accepted) := by
  by_cases member : fd ∈ channel.members
  · simp only [requireChannelMember_of_member member, Bool.not_true, Bool.false_eq_true, if_false,
      requireChannelOperator_of_not_operator ordinary, Bool.not_false, if_true]
    exact sender.requireChannelOperator channel
  · simp only [requireChannelMember_of_not_member member, Bool.not_false, if_true]
    exact sender.requireChannelMember channel

theorem handleKick_delivers (sender : Sender server fd client) {message : Message}
    (command : message.command = ascii "KICK") :
    Delivers fd server (server.notices fd message) (server.handleKick fd message) := by
  simp +decide only [notices, handleKick, sender.found, sender.registered, command, if_true,
    if_false]
  rcases message.params with _ | ⟨channelName, _ | ⟨targetNick, arguments⟩⟩
  · exact sender.requireParams message 2
  · exact sender.requireParams message 2
  · simp only [kickNotice]
    cases foundChannel : server.findChannel channelName with
    | none => exact sender.sendNoSuchChannel channelName
    | some channel =>
        dsimp only
        by_cases operator : fd ∈ channel.operators
        · have member := member_of_operator sender.wellFormed.consistent foundChannel operator
          simp only [requireChannelMember_of_member member,
            requireChannelOperator_of_operator operator, Bool.not_true, Bool.false_eq_true,
            if_false]
          cases foundTarget : server.findClientByNickname targetNick with
          | none => exact sender.numeric (by decide) _
          | some target =>
              dsimp only
              by_cases inside : target.fd ∈ channel.members
              · have both : fd ∈ channel.operators ∧
                    target.fd ∈ server.core.audience channelName :=
                  ⟨operator, (mem_audience foundChannel _).mpr inside⟩
                have listed : ¬(!channel.hasMember target.fd) = true := by
                  simpa [Channel.hasMember_iff] using inside
                rw [if_pos both, if_neg listed]
                exact (sender.broadcast foundChannel _ _).of_mail_eq
                  (mail_leaveChannel_silent _ _ _ _)
              · have notBoth : ¬(fd ∈ channel.operators ∧
                    target.fd ∈ server.core.audience channelName) := fun both =>
                  inside ((mem_audience foundChannel _).mp both.2)
                have unlisted : (!channel.hasMember target.fd) = true := by
                  simpa [Bool.eq_false_iff, Channel.hasMember_iff] using inside
                rw [if_neg notBoth, if_pos unlisted]
                exact sender.numeric (by decide) _
        · cases server.findClientByNickname targetNick with
          | none => exact sender.refuse operator _
          | some target =>
              have notBoth : ¬(fd ∈ channel.operators ∧
                  target.fd ∈ server.core.audience channelName) := fun both => operator both.1
              dsimp only
              rw [if_neg notBoth]
              exact sender.refuse operator _

theorem handleInvite_delivers (sender : Sender server fd client) {message : Message}
    (command : message.command = ascii "INVITE") :
    Delivers fd server (server.notices fd message) (server.handleInvite fd message) := by
  simp +decide only [notices, handleInvite, sender.found, sender.registered, command, if_true,
    if_false]
  rcases message.params with _ | ⟨targetNick, _ | ⟨channelName, arguments⟩⟩
  · exact sender.requireParams message 2
  · exact sender.requireParams message 2
  · simp only [inviteNotice]
    cases foundTarget : server.findClientByNickname targetNick with
    | none => exact sender.numeric (by decide) _
    | some target =>
        cases foundChannel : server.findChannel channelName with
        | none => exact sender.sendNoSuchChannel channelName
        | some channel =>
            dsimp only
            by_cases operator : fd ∈ channel.operators
            · have member := member_of_operator sender.wellFormed.consistent foundChannel operator
              simp only [requireChannelMember_of_member member,
                requireChannelOperator_of_operator operator, Bool.not_true, Bool.false_eq_true,
                if_false]
              by_cases inside : target.fd ∈ channel.members
              · have notBoth : ¬(fd ∈ channel.operators ∧
                    target.fd ∉ server.core.audience channelName) := fun both =>
                  both.2 ((mem_audience foundChannel _).mpr inside)
                rw [if_neg notBoth, if_pos (Channel.hasMember_iff.mpr inside)]
                exact sender.numeric (by decide) _
              · have both : fd ∈ channel.operators ∧
                    target.fd ∉ server.core.audience channelName :=
                  ⟨operator, mt (mem_audience foundChannel _).mp inside⟩
                rw [if_pos both, if_neg (mt Channel.hasMember_iff.mp inside)]
                have invited : Delivers fd server []
                    (server.updateChannel channelName (·.addInvite target.fd)) :=
                  (Delivers.refl fd server).of_mail_eq rfl
                exact (invited.reply (sender.fromServer_reply (by decide) _)).direct
                  (fromServer_command sender.nickname (ascii "INVITE") _) target.fd
            · have notBoth : ¬(fd ∈ channel.operators ∧
                  target.fd ∉ server.core.audience channelName) := fun both => operator both.1
              rw [if_neg notBoth]
              exact sender.refuse operator _

/-- A change of a channel that keeps its members. -/
theorem mem_audience_of_core {name : Bytes} {channel changed : Channel}
    (core : after.core = server.core.setChannel (IrcUtil.normalizeChannelName name) changed)
    (members : changed.members = channel.members) (other : Int) :
    other ∈ after.core.audience name ↔ other ∈ channel.members := by
  have found : after.findChannel name = some changed := by
    rw [← core_channels_of_find, core]
    simp
  rw [mem_audience found, members]

theorem handleTopic_of_member (sender : Sender server fd client) {message : Message}
    {channelName : Bytes} {arguments : List Bytes} {channel : Channel}
    (params : message.params = channelName :: arguments)
    (foundChannel : server.findChannel channelName = some channel)
    (member : fd ∈ channel.members) : server.handleTopic fd message =
      match arguments with
      | [] => server.sendTopic fd client channel
      | topic :: _ =>
          if channel.topicRestricted = true ∧ fd ∉ channel.operators then
            (server.requireChannelOperator fd channel).2
          else
            (server.updateChannel channelName (·.setTopic topic)).broadcastToChannel channel
              (topicLine client channel topic) (-1) := by
  simp only [handleTopic, sender.found, params, foundChannel,
    requireChannelMember_of_member member, Bool.not_true, Bool.false_eq_true, if_false]
  cases arguments with
  | nil => rfl
  | cons topic rest =>
      dsimp only
      cases restricted : channel.topicRestricted with
      | false => simp [topicLine]
      | true =>
          by_cases operator : fd ∈ channel.operators
          · simp [requireChannelOperator_of_operator operator, operator, topicLine]
          · simp [requireChannelOperator_of_not_operator operator, operator]

theorem handleTopic_delivers (sender : Sender server fd client) {message : Message}
    (command : message.command = ascii "TOPIC")
    (dispatched : server.dispatchCommand fd message = server.handleTopic fd message) :
    Delivers fd server (server.notices fd message) (server.handleTopic fd message) := by
  simp +decide only [notices, sender.found, sender.registered, command, if_true, if_false,
    dispatched]
  rcases params : message.params with _ | ⟨channelName, arguments⟩
  · simp only [handleTopic, sender.found, params]
    exact sender.requireParams message 1
  · cases foundChannel : server.findChannel channelName with
    | none =>
        have answered : server.handleTopic fd message =
            server.sendNoSuchChannel fd client channelName := by
          simp only [handleTopic, sender.found, params, foundChannel]
        rw [answered]
        cases arguments with
        | nil => exact sender.sendNoSuchChannel channelName
        | cons topic rest =>
            simp only [topicNotice, foundChannel]
            exact sender.sendNoSuchChannel channelName
    | some channel =>
        by_cases member : fd ∈ channel.members
        · rw [handleTopic_of_member sender params foundChannel member]
          cases arguments with
          | nil => exact sender.sendTopic channel
          | cons topic rest =>
              simp only [topicNotice, foundChannel]
              by_cases refused : channel.topicRestricted = true ∧ fd ∉ channel.operators
              · have notAllowed : ¬(fd ∈ server.core.audience channelName ∧
                    (channel.topicRestricted = true → fd ∈ channel.operators)) := fun allowed =>
                  refused.2 (allowed.2 refused.1)
                rw [if_neg notAllowed, if_pos refused]
                exact sender.requireChannelOperator channel
              · have allowed : fd ∈ server.core.audience channelName ∧
                    (channel.topicRestricted = true → fd ∈ channel.operators) :=
                  ⟨(mem_audience foundChannel fd).mpr member, by simpa using refused⟩
                rw [if_pos allowed, if_neg refused]
                have updated : (server.updateChannel channelName (·.setTopic topic)).mail =
                    server.mail := rfl
                refine sender.broadcast_to updated foundChannel ?_ _ _
                apply @mem_audience_of_core server _ channelName channel (channel.setTopic topic)
                · rw [core_broadcastToChannel, core_updateChannel _ _ foundChannel]
                · rfl
        · have failed : server.handleTopic fd message =
              (server.requireChannelMember fd channel).2 := by
            simp only [handleTopic, sender.found, params, foundChannel,
              requireChannelMember_of_not_member member, Bool.not_false, if_true]
          rw [failed]
          cases arguments with
          | nil => exact sender.requireChannelMember channel
          | cons topic rest =>
              simp only [topicNotice, foundChannel]
              have notAllowed : ¬(fd ∈ server.core.audience channelName ∧
                  (channel.topicRestricted = true → fd ∈ channel.operators)) := fun allowed =>
                member ((mem_audience foundChannel fd).mp allowed.1)
              rw [if_neg notAllowed]
              exact sender.requireChannelMember channel

/-! ## MODE -/

/-- The sender has only got replies so far. -/
structure Answers (start : Server) (fd : Int) (now : Server) : Prop where
  delivers : Delivers fd start [] now
  serverName : now.serverName = ascii "ircserv.local"

theorem Answers.updateChannel {start now : Server} (answers : Answers start fd now)
    (name : Bytes) (change : Channel → Channel) :
    Answers start fd (now.updateChannel name change) :=
  ⟨answers.delivers.of_mail_eq rfl, answers.serverName⟩

end Server

namespace ModeLoop

open Server (Answers)

variable {start : Server} {fd : Int} {client : Client} {loop : ModeLoop}
  (nickname : client.nickname ≠ [] → IrcUtil.isValidNickname client.nickname = true)
include nickname

theorem reply_answers (answers : Answers start fd loop.server) {code : Nat}
    (listed : code ∈ replyCodes) (parameters : Bytes) :
    Answers start fd (loop.reply fd client code parameters).server where
  delivers := by
    apply answers.delivers.reply
    rw [answers.serverName]
    exact Server.fromServer_numeric nickname (List.mem_append_right _ listed) parameters
  serverName := (SameRecords.queueToClient loop.server fd _).serverName.trans answers.serverName

theorem modeKey_answers (answers : Answers start fd loop.server) (command target : Bytes)
    (channel : Channel) :
    Answers start fd (loop.modeKey fd client command target channel).server := by
  simp only [modeKey]
  split
  · split
    · exact reply_answers nickname answers (by decide) _
    · split
      · exact reply_answers nickname answers (by decide) _
      · exact answers.updateChannel target _
  · split
    · exact answers.updateChannel target _
    · exact answers

theorem modeOperator_answers (answers : Answers start fd loop.server) (command target : Bytes)
    (channel : Channel) :
    Answers start fd (loop.modeOperator fd client command target channel).server := by
  simp only [modeOperator]
  split
  · exact reply_answers nickname answers (by decide) _
  next nickArg arguments _ =>
    have consumed : Answers start fd ({ loop with arguments := arguments } : ModeLoop).server :=
      answers
    split
    · exact reply_answers nickname consumed (by decide) _
    next targetClient _ =>
      split
      · exact reply_answers nickname consumed (by decide) _
      · generalize (if loop.adding = true then channel.addOperator targetClient.fd
          else channel.removeOperator targetClient.fd).1 = flag
        cases flag with
        | true => exact answers.updateChannel target _
        | false => exact answers.updateChannel target _

theorem modeLimit_answers (answers : Answers start fd loop.server) (command target : Bytes)
    (channel : Channel) :
    Answers start fd (loop.modeLimit fd client command target channel).server := by
  simp only [modeLimit]
  split
  · split
    · exact reply_answers nickname answers (by decide) _
    · split
      · exact answers
      · split
        · exact answers
        · exact answers.updateChannel target _
  · split
    · exact answers.updateChannel target _
    · exact answers

theorem step_answers (answers : Answers start fd loop.server) (command target : Bytes)
    (c : UInt8) : Answers start fd (loop.step fd client command target c).server := by
  simp only [step]
  split
  · exact answers
  next channel _ =>
    split
    · exact answers
    · split
      · exact answers
      · split
        · exact reply_answers nickname answers (by decide) _
        · split
          · simp only [modeInviteOnly]
            split
            · exact answers.updateChannel target _
            · exact answers
          · split
            · simp only [modeTopicRestricted]
              split
              · exact answers.updateChannel target _
              · exact answers
            · split
              · exact modeKey_answers nickname answers _ _ _
              · split
                · exact modeOperator_answers nickname answers _ _ _
                · split
                  · exact modeLimit_answers nickname answers _ _ _
                  · exact reply_answers nickname answers (by decide) _

theorem foldl_answers (modeString : Bytes) (command target : Bytes)
    (answers : Answers start fd loop.server) :
    Answers start fd (modeString.foldl (step fd client command target) loop).server := by
  induction modeString generalizing loop with
  | nil => exact answers
  | cons c rest ih => exact ih (step_answers nickname answers command target c)

end ModeLoop

namespace Server

variable {server after : Server} {fd : Int} {client : Client}

theorem answers_modeLoop (sender : Sender server fd client) (target modeString : Bytes)
    (arguments : List Bytes) :
    Answers server fd (server.modeLoop fd client target modeString arguments).server :=
  ModeLoop.foldl_answers sender.nickname modeString _ target
    ⟨Delivers.refl fd server, sender.serverName⟩

theorem delivers_sendModeNotice (named : server.core.Named)
    (sender : Sender server fd client) {target : Bytes} {channel : Channel}
    (foundChannel : server.findChannel target = some channel) (modeString : Bytes)
    (arguments : List Bytes)
    (changes : (server.modeLoop fd client target modeString arguments).changedModes ≠ []) :
    Delivers fd server
      [⟨modeLine client channel (server.modeLoop fd client target modeString arguments).changedModes
          (server.modeLoop fd client target modeString arguments).changedParams,
        (sendModeNotice (server.modeLoop fd client target modeString arguments) client
          target).core.audience target⟩]
      (sendModeNotice (server.modeLoop fd client target modeString arguments) client target) := by
  have answers := answers_modeLoop sender target modeString arguments
  rcases recorded_modeLoop named fd client foundChannel modeString arguments with
    ⟨actions, changed, recorded⟩
  generalize server.modeLoop fd client target modeString arguments = loop at *
  rcases kept_of_performAll recorded.performed with ⟨members, name⟩
  have foundChanged : loop.server.findChannel target = some changed := by
    rw [← core_channels_of_find, recorded.core]
    simp
  have posted := @posts_sendModeNotice loop.server client loop target changed rfl foundChanged
    changes
  rw [members, sender.wellFormed.filter_members foundChannel] at posted
  have sameLine : modeLine client changed loop.changedModes loop.changedParams =
      modeLine client channel loop.changedModes loop.changedParams := by
    simp only [modeLine, name]
  rw [sameLine] at posted
  have core : (sendModeNotice loop client target).core =
      server.core.setChannel (IrcUtil.normalizeChannelName target) changed := by
    rw [core_sendModeNotice, recorded.core]
  refine answers.delivers.trans ⟨_, posted, ?_⟩
  apply Sorted.broadcast (nodup_toList channel.members)
    (fromServer_command sender.nickname (ascii "MODE") _)
  intro other
  rw [ExtTreeSet.mem_toList, mem_audience_of_core core members]

theorem handleMode_delivers (named : server.core.Named)
    (sender : Sender server fd client) {message : Message}
    (command : message.command = ascii "MODE")
    (dispatched : server.dispatchCommand fd message = server.handleMode fd message) :
    Delivers fd server (server.notices fd message) (server.handleMode fd message) := by
  simp +decide only [notices, sender.found, sender.registered, command, if_true, if_false]
  rcases params : message.params with _ | ⟨target, _ | ⟨modeString, arguments⟩⟩
  · simp only [handleMode, sender.found, params]
    exact sender.requireParams message 1
  · simp only [handleMode, sender.found, params]
    split
    · exact sender.numeric (by decide) _
    · split
      · exact sender.sendNoSuchChannel target
      · exact sender.numeric (by decide) _
  · cases foundChannel : server.findChannel target with
    | none =>
        simp only [modeNotice, foundChannel, handleMode, sender.found, params]
        split
        · exact sender.numeric (by decide) _
        · exact sender.sendNoSuchChannel target
    | some channel =>
        have valid := sender.wellFormed.names _ channel foundChannel
        rw [IrcUtil.isValidChannelName_normalize] at valid
        simp only [modeNotice, foundChannel]
        by_cases operator : fd ∈ channel.operators
        · have run := dispatchCommand_mode sender.wellFormed sender.found foundChannel operator
            command params
          rw [← dispatched, run]
          by_cases changes :
              (server.modeLoop fd client target modeString arguments).changedModes = []
          · rw [if_neg (fun both => both.2 changes)]
            simp only [sendModeNotice, changes, List.isEmpty_nil, if_true]
            exact (answers_modeLoop sender target modeString arguments).delivers
          · rw [if_pos ⟨operator, changes⟩]
            exact delivers_sendModeNotice named sender foundChannel modeString arguments changes
        · rw [if_neg (fun both => operator both.1)]
          simp only [handleMode, sender.found, params, head_of_valid valid, foundChannel]
          exact sender.refuse operator _

/-! ## NICK and the commands without notices -/

theorem mem_neighbours (consistent : server.core.Consistent)
    (found : server.findClientByFd fd = some client) (other : Int) :
    other ∈ server.sharedTargets client ↔ other ∈ server.core.neighbours fd := by
  have shares := sharesChannel_iff consistent fd other
  simp only [sharesChannel, found, ExtTreeSet.contains_iff_mem] at shares
  rw [shares]
  simp only [Core.neighbours, Set.mem_ofPred_eq, consistent.isMember_iff]

theorem handleNick_delivers (sender : Sender server fd client) {message : Message}
    (command : message.command = ascii "NICK") :
    Delivers fd server (server.notices fd message) (server.handleNick fd message) := by
  simp +decide only [notices, handleNick, sender.found, sender.registered, command, if_true,
    if_false]
  rcases message.params with _ | ⟨nickname, rest⟩
  · exact sender.numeric (by decide) _
  · simp only [nickNotice]
    by_cases accepted : IrcUtil.isValidNickname nickname = true ∧
        server.isNicknameAvailable nickname fd = true
    · rw [if_pos accepted]
      simp only [accepted.1, accepted.2, Bool.not_true, Bool.false_eq_true, if_false]
      refine ⟨_, posts_notifyNick server fd client nickname _, ?_⟩
      have shared := mem_neighbours sender.wellFormed.consistent sender.found
      have alone : fd ∉ (server.sharedTargets client).toList := by
        rw [ExtTreeSet.mem_toList, shared]
        exact fun inside => inside.1 rfl
      apply @Sorted.broadcast fd (fd :: (server.sharedTargets client).toList)
        (List.nodup_cons.mpr ⟨alone, nodup_sharedTargets server client⟩) _
        (fromServer_command sender.nickname (ascii "NICK") _)
      intro other
      rw [List.mem_cons, ExtTreeSet.mem_toList, shared, Set.mem_insert_iff]
    · rw [if_neg accepted]
      split
      · exact sender.numeric (by decide) _
      next valid =>
        split
        · exact sender.numeric (by decide) _
        next available => exact absurd ⟨by simpa using valid, by simpa using available⟩ accepted

theorem handleCap_delivers (sender : Sender server fd client) (message : Message) :
    Delivers fd server [] (server.handleCap fd message) := by
  have answer : ∀ parameters, Delivers fd server [] (server.queueToClient fd
      (Reply.command (Reply.serverPrefix server.serverName) (ascii "CAP") parameters)) := by
    intro parameters
    rw [sender.serverName]
    exact (Delivers.refl fd server).reply (fromServer_answer (by decide) parameters)
  simp only [handleCap, sender.found]
  split
  · split
    · exact answer _
    · split
      · exact answer _
      · exact Delivers.refl fd server
  · exact Delivers.refl fd server

theorem handlePing_delivers (sender : Sender server fd client) (message : Message) :
    Delivers fd server [] (server.handlePing fd message) := by
  simp only [handlePing, sender.found]
  split
  · exact sender.numeric (by decide) _
  · rw [sender.serverName]
    exact (Delivers.refl fd server).reply (fromServer_answer (by decide) _)

theorem handleQuit_delivers (server : Server) (fd : Int) (message : Message) :
    Delivers fd server [] (server.handleQuit fd message) := by
  simp only [handleQuit]
  split
  · exact Delivers.refl fd server
  · exact (Delivers.refl fd server).of_mail_eq rfl

/-! ## The dispatcher -/

/-- An unregistered client has no notices to give rise to. -/
theorem unregistered_delivers (invariants : server.Invariants)
    (found : server.findClientByFd fd = some client) (unregistered : client.registered = false)
    (message : Message) : Delivers fd server [] (server.dispatchCommand fd message) := by
  have consistent := invariants.wellFormed.consistent
  have serverName := invariants.serverName
  cases dispatchCommand_mail consistent found message with
  | lines posts all _ =>
      refine ⟨_, posts, Sorted.replies ?_⟩
      intro posting listed
      cases all posting listed with
      | numeric code parameters =>
          refine ⟨rfl, ?_⟩
          rw [serverName]
          exact fromServer_numeric (invariants.nickname_valid found)
            (List.mem_append_right _ code) parameters
      | answer word parameters =>
          refine ⟨rfl, ?_⟩
          rw [serverName]
          exact fromServer_answer word parameters
      | notice registered _ _ _ _ => simp [unregistered] at registered
      | privmsg registered _ _ _ _ _ => simp [unregistered] at registered
      | invite registered _ _ _ _ _ => simp [unregistered] at registered
  | @welcome completed posts own _ _ foundAfter =>
      refine ⟨_, posts, Sorted.replies ?_⟩
      intro posting listed
      rcases numeric_of_welcome listed with ⟨code, codeListed, parameters, rfl⟩
      have ownFd : client.fd = fd := consistent.client_fd fd client.withoutBuffers
        (core_clients_of_find server fd found)
      refine ⟨own.trans ownFd, ?_⟩
      rw [serverName]
      apply fromServer_numeric _ (List.mem_append_left _ codeListed)
      intro given
      rcases foundAfter with ⟨record, foundRecord, identity⟩
      rcases dispatchCommand_account consistent found message with ⟨next, foundNext, account⟩
      rw [foundRecord, Option.some.injEq] at foundNext
      subst foundNext
      rw [← Client.nickname_of_identity identity] at given ⊢
      have accounts : record.account.nickname = record.nickname := rfl
      rw [← accounts, account] at given ⊢
      rcases Account.nickname_next with kept | valid
      · rw [kept] at given ⊢
        exact invariants.nickname_valid found given
      · exact valid

theorem notices_of_other (found : server.findClientByFd fd = some client) {message : Message}
    (other : message.command ∉ ascii "INVITE" :: noticeCommands) :
    server.notices fd message = [] := by
  simp only [noticeCommands, List.mem_cons, List.not_mem_nil, or_false, not_or] at other
  rcases other with ⟨notInvite, notNick, notJoin, notPart, notPrivmsg, notKick, notTopic, notMode⟩
  simp only [notices, found, if_neg notInvite, if_neg notNick, if_neg notJoin, if_neg notPart,
    if_neg notPrivmsg, if_neg notKick, if_neg notTopic, if_neg notMode, ite_self]

theorem relayed_listed : ∀ word ∈ ascii "INVITE" :: noticeCommands,
    word ∈ commandTable.map (·.name) := by
  decide

theorem rejected_not_relayed : ∀ entry ∈ commandTable, entry.rejectsWhenRegistered = true →
    entry.name ∉ ascii "INVITE" :: noticeCommands := by
  decide

theorem handler_delivers (named : server.core.Named)
    (sender : Sender server fd client) {message : Message} {entry : CommandEntry}
    (listed : entry ∈ commandTable) (command : message.command = entry.name)
    (fresh : entry.rejectsWhenRegistered = true → client.registered = false)
    (dispatched : server.dispatchCommand fd message = entry.handler server fd message) :
    Delivers fd server (server.notices fd message) (entry.handler server fd message) := by
  have quiet : message.command ∉ ascii "INVITE" :: noticeCommands →
      server.notices fd message = [] := notices_of_other sender.found
  simp only [commandTable, List.mem_cons, List.not_mem_nil, or_false] at listed
  rcases listed with
    rfl | rfl | rfl | rfl | rfl | rfl | rfl | rfl | rfl | rfl | rfl | rfl | rfl | rfl
  · exact absurd (fresh rfl) (by simp [sender.registered])
  · exact handleNick_delivers sender command
  · exact absurd (fresh rfl) (by simp [sender.registered])
  · rw [quiet (by rw [command]; decide)]
    exact handleCap_delivers sender message
  · rw [quiet (by rw [command]; decide)]
    exact handlePing_delivers sender message
  · rw [quiet (by rw [command]; decide)]
    exact Delivers.refl fd server
  · rw [quiet (by rw [command]; decide)]
    exact handleQuit_delivers server fd message
  · exact handleJoin_delivers sender command
  · exact handlePrivmsg_delivers sender command
  · exact handleKick_delivers sender command
  · exact handleInvite_delivers sender command
  · exact handleTopic_delivers sender command dispatched
  · exact handleMode_delivers named sender command dispatched
  · exact handlePart_delivers sender command

theorem dispatchCommand_delivers (invariants : server.Invariants) (fd : Int)
    (message : Message) :
    Delivers fd server (server.notices fd message) (server.dispatchCommand fd message) := by
  cases found : server.findClientByFd fd with
  | none =>
      simp only [notices, dispatchCommand, found]
      exact Delivers.refl fd server
  | some client =>
      cases registered : client.registered with
      | false =>
          simp only [notices, found, registered, if_true]
          exact unregistered_delivers invariants found registered message
      | true =>
          have sender : Sender server fd client :=
            ⟨found, registered, invariants.nickname_valid found, invariants.serverName,
              invariants.wellFormed⟩
          have happened := dispatchCommand_cases found message
          generalize dispatched : server.dispatchCommand fd message = after at happened
          cases happened with
          | unknown absent _ =>
              rw [notices_of_other found]
              · exact sender.numeric (by decide) _
              · intro relayed
                rcases List.mem_map.mp (relayed_listed _ relayed) with ⟨entry, listed, named⟩
                exact absent entry listed named
          | ignored _ unregistered => simp [registered] at unregistered
          | refused _ _ _ unregistered => simp [registered] at unregistered
          | rejected listed named rejects _ =>
              rw [notices_of_other found]
              · exact sender.numeric (by decide) _
              · rw [← named]
                exact rejected_not_relayed _ listed rejects
          | handled listed named _ fresh =>
              exact handler_delivers invariants.named sender listed named.symm fresh dispatched

/-! ## What the clients see -/

theorem noOverflow_of_history {announced : Server} (same : after.history = announced.history)
    (room : server.NoOverflow after) : server.NoOverflow announced := by
  intro fd message
  rw [← same]
  exact room fd message

/-- What a delivery puts into the send buffer of one client. -/
def Receives (fd : Int) (notices : List Notice) (other : Int) (record next : Client) : Prop :=
  ∃ lines : List Bytes, next.sendBuffer = record.sendBuffer ++ lines.flatMap withCrlf ∧
    (other = fd → lines.filter (!Reply.fromServer ·) = copies other notices) ∧
    (other ≠ fd → lines = copies other notices)

theorem Delivers.receives {notices : List Notice} (delivers : Delivers fd server notices after)
    (room : server.NoOverflow after) {other : Int} {record next : Client}
    (found : server.findClientByFd other = some record)
    (foundNext : after.findClientByFd other = some next) :
    Receives fd notices other record next := by
  rcases delivers with ⟨postings, posts, sorted⟩
  refine ⟨_, posts.sendBuffer_of_noOverflow room found foundNext, ?_, sorted.others other⟩
  rintro rfl
  exact sorted.own

/-- The QUIT line of a connection goes to the other clients of its channels. -/
theorem disconnectClient_receives (consistent : server.core.Consistent)
    (found : server.findClientByFd fd = some client) {reason : Bytes}
    (room : server.NoOverflow (server.disconnectClient fd reason)) {other : Int}
    {record next : Client} (foundOther : server.findClientByFd other = some record)
    (foundNext : (server.disconnectClient fd reason).findClientByFd other = some next) :
    next.sendBuffer = record.sendBuffer ++
      (copies other [⟨quitLine client reason, server.core.neighbours fd⟩]).flatMap withCrlf := by
  have distinct : other ≠ fd := by
    rintro rfl
    rw [(disconnectClient_disconnected found reason).gone] at foundNext
    simp at foundNext
  rcases posts_disconnectClient found reason with ⟨announced, posts, history, others⟩
  rw [others other distinct] at foundNext
  rw [posts.sendBuffer_of_noOverflow (noOverflow_of_history history room) foundOther foundNext,
    addressed_broadcast (nodup_sharedTargets server client)]
  have shared := mem_neighbours consistent found other
  by_cases listed : other ∈ server.sharedTargets client
  · rw [if_pos (ExtTreeSet.mem_toList.mpr listed), copies_of_mem (shared.mp listed)]
  · rw [if_neg (mt ExtTreeSet.mem_toList.mp listed), copies_of_not_mem (mt shared.mpr listed)]

/-- Every notice goes to its audience and to nobody else, one copy each: what a message of
a client and the end of a connection add to the send buffers. -/
theorem notices_delivered (reached : stepSystem.Reachable server) (fd : Int) :
    (∀ message, server.NoOverflow (server.dispatchCommand fd message) →
      ∀ other record next, server.findClientByFd other = some record →
        (server.dispatchCommand fd message).findClientByFd other = some next →
        Receives fd (server.notices fd message) other record next) ∧
    (∀ client reason, server.findClientByFd fd = some client →
      server.NoOverflow (server.disconnectClient fd reason) →
      ∀ other record next, server.findClientByFd other = some record →
        (server.disconnectClient fd reason).findClientByFd other = some next →
        next.sendBuffer = record.sendBuffer ++
          (copies other [⟨quitLine client reason, server.core.neighbours fd⟩]).flatMap
            withCrlf) := by
  constructor
  · intro message room other record next found foundNext
    have delivers := dispatchCommand_delivers (step_reachable_invariants reached) fd message
    exact delivers.receives room found foundNext
  · intro client reason found room other record next foundOther foundNext
    exact disconnectClient_receives (step_reachable_consistent reached) found room foundOther
      foundNext

def fitted : HistoryEvent → Bool
  | .queued _ _ appended => appended
  | _ => true

theorem noOverflow_of_fitted
    (all : (after.history.drop server.history.length).all fitted = true) :
    server.NoOverflow after := by
  intro fd message listed
  have fits := List.all_eq_true.mp all _ listed
  simp [fitted] at fits

def bobsMessage : Message where
  command := ascii "PRIVMSG"
  params := [ascii "#room,alice,#ROOM", ascii "hi"]

/-- Bob names his channel twice, and Alice gets both copies. -/
theorem notices_delivered_bob : ∃ alice next,
    alicesRoom.findClientByFd 4 = some alice ∧
    (alicesRoom.dispatchCommand 5 bobsMessage).findClientByFd 4 = some next ∧
    Receives 5 (alicesRoom.notices 5 bobsMessage) 4 alice next ∧
    next.sendBuffer = alice.sendBuffer ++
      (ascii ":bob!bob@127.0.0.1 PRIVMSG #Room :hi" ++ crlf ++
        ascii ":bob!bob@127.0.0.1 PRIVMSG alice :hi" ++ crlf ++
        ascii ":bob!bob@127.0.0.1 PRIVMSG #Room :hi" ++ crlf) := by
  have facts : ((alicesRoom.dispatchCommand 5 bobsMessage).history.drop
        alicesRoom.history.length).all fitted = true ∧
      ((alicesRoom.dispatchCommand 5 bobsMessage).findClientByFd 4).map (·.sendBuffer) =
        (alicesRoom.findClientByFd 4).map fun alice => alice.sendBuffer ++
          (ascii ":bob!bob@127.0.0.1 PRIVMSG #Room :hi" ++ crlf ++
            ascii ":bob!bob@127.0.0.1 PRIVMSG alice :hi" ++ crlf ++
            ascii ":bob!bob@127.0.0.1 PRIVMSG #Room :hi" ++ crlf) := by
    decide +kernel
  have live : (alicesRoom.findClientByFd 4).isSome = true := by decide +kernel
  rcases Option.isSome_iff_exists.mp live with ⟨alice, found⟩
  have buffers := facts.2
  rw [found, Option.map_some] at buffers
  rcases Option.map_eq_some_iff.mp buffers with ⟨next, foundNext, grown⟩
  exact ⟨alice, next, found, foundNext,
    (notices_delivered reachable_alicesRoom 5).1 bobsMessage (noOverflow_of_fitted facts.1) 4
      alice next found foundNext, grown⟩

end Server

end IrcPlatform.Irc
