import IrcPlatform.Irc.Departing
import IrcPlatform.Irc.Isolation

/-!
# Every command informs the clients

The commands of a registered client give the notices of what they do to the rosters. Before its
registration a client is in no channel, and what it is answered tells it nothing but its
nickname, with the welcome.
-/

namespace IrcPlatform.Irc

open Std

/-! ## Changes of settings -/

/-- The settings of channels may change, but neither their names nor their members. -/
structure Core.KeepsRosters (before after : Core) : Prop where
  clients : after.clients = before.clients
  channels (key : Bytes) : (after.channels key).map (fun channel =>
      (channel.name, channel.members)) =
    (before.channels key).map fun channel => (channel.name, channel.members)

namespace Core.KeepsRosters

variable {before after : Core}

theorem of_eq (same : after = before) : before.KeepsRosters after := by
  rw [same]
  exact ⟨rfl, fun _ => rfl⟩

theorem setChannel {key : Bytes} {channel changed : Channel}
    (stored : before.channels key = some channel) (name : changed.name = channel.name)
    (members : changed.members = channel.members) :
    before.KeepsRosters (before.setChannel key changed) where
  clients := rfl
  channels other := by
    rw [Core.setChannel_channels]
    split
    next same => rw [same, stored, Option.map_some, Option.map_some, name, members]
    · rfl

theorem rosters (kept : before.KeepsRosters after) (consistent : before.Consistent) :
    after.rosters = before.rosters := by
  apply Core.rosters_congr
  · intro key channel fd stored member
    rcases consistent.member_live stored member with ⟨client, found, _⟩
    exact ⟨client, found⟩
  · exact kept.channels
  · intro key channel fd client _ _ found
    exact ⟨client, kept.clients ▸ found, rfl⟩

end Core.KeepsRosters

namespace Server

variable {server after : Server} {fd : Int} {client : Client}

theorem handleInvite_keepsRosters (message : Message) :
    server.core.KeepsRosters (server.handleInvite fd message).core := by
  simp only [handleInvite]
  split
  · exact .of_eq rfl
  · split
    next targetNick channelName _ _ =>
      split
      · exact .of_eq (core_queueToClient ..)
      next target _ =>
        split
        · exact .of_eq (core_queueToClient ..)
        next channel foundChannel =>
          split
          · exact .of_eq (core_requireChannelMember ..)
          · split
            · exact .of_eq (by simp)
            · split
              · exact .of_eq (by simp)
              · generalize checks : ((server.requireChannelMember fd
                  channel).2.requireChannelOperator fd channel).2 = checked
                have sameCore : checked.core = server.core := by simp [← checks]
                have present : checked.findChannel channelName = some channel := by
                  rw [findChannel_eq_of_core_eq sameCore]
                  exact foundChannel
                rw [core_queueToClient, core_queueToClient, core_updateChannel _ _ present,
                  sameCore]
                exact .setChannel foundChannel rfl rfl
    · exact .of_eq (core_requireParams ..)

theorem handleTopic_keepsRosters (message : Message) :
    server.core.KeepsRosters (server.handleTopic fd message).core := by
  simp only [handleTopic]
  split
  · exact .of_eq rfl
  · split
    · exact .of_eq (core_requireParams ..)
    next channelName arguments _ =>
      split
      · exact .of_eq (core_queueToClient ..)
      next channel foundChannel =>
        split
        · exact .of_eq (core_requireChannelMember ..)
        · split
          · exact .of_eq (by simp)
          next topic _ =>
            generalize checks : (if channel.topicRestricted = true then
              (server.requireChannelMember fd channel).2.requireChannelOperator fd channel
              else (true, (server.requireChannelMember fd channel).2)) = operator
            have sameCore : operator.2.core = server.core := by
              rw [← checks]
              split
              · simp
              · simp
            split
            · exact .of_eq sameCore
            · have present : operator.2.findChannel channelName = some channel := by
                rw [findChannel_eq_of_core_eq sameCore]
                exact foundChannel
              rw [core_broadcastToChannel, core_updateChannel _ _ present, sameCore]
              exact .setChannel foundChannel rfl rfl

theorem handleMode_keepsRosters (message : Message) :
    server.core.KeepsRosters (server.handleMode fd message).core := by
  simp only [handleMode]
  split
  · exact .of_eq rfl
  next client _ =>
    split
    · exact .of_eq (core_requireParams ..)
    next target arguments _ =>
      split
      · exact .of_eq (core_queueToClient ..)
      · split
        · exact .of_eq (core_queueToClient ..)
        next channel foundChannel =>
          split
          · exact .of_eq (core_queueToClient ..)
          next modeString modeArguments _ =>
            split
            · exact .of_eq (core_requireChannelMember ..)
            · split
              · exact .of_eq (by simp)
              · generalize checks : ((server.requireChannelMember fd
                  channel).2.requireChannelOperator fd channel).2 = checked
                have sameCore : checked.core = server.core := by simp [← checks]
                have initial : ({ server := checked, arguments := modeArguments } :
                    ModeLoop).Tracks server.core target channel := by
                  refine ⟨channel, ModeChange.refl channel, ?_⟩
                  rw [Core.setChannel_self foundChannel]
                  exact sameCore
                rcases initial.foldl modeString fd client message.command with
                  ⟨current, changed, core⟩
                rw [core_sendModeNotice, core]
                exact .setChannel foundChannel changed.name changed.members

/-! ## New nicknames -/

/-- Nobody else has an available nickname. -/
theorem unused_of_available (named : server.core.Named) {nickname : Bytes}
    (available : server.isNicknameAvailable nickname fd = true) {other : Int} {record : Client}
    (found : server.findClientByFd other = some record) (given : record.nickname ≠ [])
    (same : nickname = record.nickname) : other = fd := by
  have entry : server.nickToFd[IrcUtil.ircCaseFold record.nickname]? = some other :=
    named.indexed other record.withoutBuffers (core_clients_of_find server other found) given
  simp only [isNicknameAvailable, same, entry] at available
  simpa using available

theorem fresh_of_available (named : server.core.Named) (peopled : server.core.Peopled)
    (found : server.findClientByFd fd = some client) {nickname : Bytes}
    (available : server.isNicknameAvailable nickname fd = true) {room : Bytes}
    (inside : (room, nickname) ∈ server.core.rosters) : nickname = client.nickname := by
  rcases inside with ⟨key, channel, holder, owner, stored, _, member, foundOwner, same⟩
  have registered := peopled.wellFormed.consistent.member_registered key channel holder owner
    stored member foundOwner
  have given := (peopled.nicknamed holder owner foundOwner registered).given
  rcases exists_find_of_core_clients server holder foundOwner with ⟨record, foundHolder, rfl⟩
  have own := unused_of_available named available foundHolder given same.symm
  subst own
  rw [found, Option.some.injEq] at foundHolder
  rw [foundHolder]
  exact same.symm

theorem handleNick_notifies (named : server.core.Named) (peopled : server.core.Peopled)
    (sender : Sender server fd client) {message : Message} {nickname : Bytes}
    {arguments : List Bytes} (params : message.params = nickname :: arguments) :
    server.Notifies (server.nickNotice fd client nickname) (server.handleNick fd message) := by
  have consistent := sender.wellFormed.consistent
  have stored := core_clients_of_find server fd sender.found
  have nicknamed := nicknamed_of_find peopled sender.found sender.registered
  simp only [nickNotice, handleNick, sender.found, params, sender.registered, if_true]
  by_cases accepted : IrcUtil.isValidNickname nickname = true ∧
      server.isNicknameAvailable nickname fd = true
  · rw [if_pos accepted]
    simp only [accepted.1, accepted.2, Bool.not_true, Bool.false_eq_true, if_false]
    generalize result : ((server.renameClient fd client nickname).queueToClient fd
      _).broadcastToSharedChannels (client.setNickname nickname) _ = after
    have core : after.core = server.core.rename fd client.nickname nickname
        (client.setNickname nickname).withoutBuffers := by
      rw [← result, core_broadcastToSharedChannels, core_queueToClient,
        core_renameClient sender.found]
    have channels : after.core.channels = server.core.channels := by
      rw [core]
      rfl
    have clients : ∀ other, after.core.clients other = if other = fd then
        some (client.setNickname nickname).withoutBuffers else server.core.clients other := by
      intro other
      rw [core]
      exact Core.setClient_clients ..
    apply notifies_of_change (nicknamed.tiding_nickLine accepted.1)
    · exact peopled.rosters_rename stored sender.registered channels clients
    · intro other current foundOther
      have known := core_clients_of_find after other foundOther
      rw [clients other] at known
      have fresh : ∀ room, (room, nickname) ∈ server.core.rosters → nickname = client.nickname :=
        fun room => fresh_of_available named peopled sender.found accepted.2
      split at known
      next own =>
        subst own
        rw [Option.some.injEq] at known
        have registered := congrArg Client.registered known
        have name := congrArg Client.nickname known
        refine ⟨client, sender.found, registered.symm, ?_, ?_⟩
        · intro unregistered
          rw [sender.registered] at unregistered
          simp at unregistered
        · intro _
          have renamed : current.nickname = nickname := name.symm
          refine ⟨by rw [Tiding.nameAfter, if_pos rfl, renamed], ?_, fresh, fun _ => rfl⟩
          exact iff_of_true (Set.mem_insert _ _) (Or.inl rfl)
      next distinct =>
        rcases exists_find_of_core_clients server other known with ⟨former, there, same⟩
        have registered := congrArg Client.registered same
        have name := congrArg Client.nickname same
        refine ⟨former, there, registered.symm, ?_, ?_⟩
        · intro unregistered inside
          rcases (Set.mem_insert_iff.mp inside).resolve_left distinct with
            ⟨_, key, _, channel, storedChannel, member⟩
          exact not_member_of_unregistered consistent there unregistered storedChannel member
        · intro admitted
          have apart : client.nickname ≠ former.nickname := fun shared =>
            distinct (peopled.distinct fd other _ _ stored (core_clients_of_find server other there)
              sender.registered admitted shared).symm
          have sameName : former.nickname = current.nickname := name
          refine ⟨by rw [Tiding.nameAfter, if_neg apart, sameName], ?_, fresh, ?_⟩
          · have shares := peopled.shares_iff stored sender.registered
              (core_clients_of_find server other there) admitted
            rw [Set.mem_insert_iff, or_iff_right distinct]
            refine Iff.trans ?_ (or_iff_right apart).symm
            refine Iff.trans ?_ shares.symm
            exact and_iff_right distinct
          · intro taken
            have given := (nicknamed_of_find peopled there admitted).given
            exact absurd (unused_of_available named accepted.2 there given taken) distinct
  · rw [if_neg accepted]
    have refused {code : Nat} {parameters : Bytes} : server.Notifies []
        (server.queueToClient fd (Reply.numeric server.serverName client code parameters)) :=
      notifies_of_core (SameRecords.queueToClient server fd _) (core_queueToClient ..)
    split
    · exact refused
    next valid =>
      split
      · exact refused
      next available => exact absurd ⟨by simpa using valid, by simpa using available⟩ accepted

/-! ## Silent notices -/

/-- The commands whose notices tell of no roster. -/
def silentWords : List Bytes := [ascii "PRIVMSG", ascii "INVITE", ascii "TOPIC", ascii "MODE"]

theorem silentWords_listed : ∀ word ∈ silentWords, word ∈ lineWords ∧
    word ∉ [ascii "JOIN", ascii "PART", ascii "KICK", ascii "QUIT", ascii "NICK"] := by
  decide

theorem privmsgNotice_line {text target : Bytes} {notice : Notice}
    (listed : notice ∈ server.privmsgNotice fd client text target) : ∃ parameters, notice.line =
      Reply.command (Reply.clientPrefix client) (ascii "PRIVMSG") parameters := by
  simp only [privmsgNotice] at listed
  split at listed
  · split at listed
    · simp at listed
    · split at listed
      · exact ⟨_, by rw [List.mem_singleton.mp listed]; rfl⟩
      · simp at listed
  · split at listed
    · simp at listed
    · exact ⟨_, by rw [List.mem_singleton.mp listed]; rfl⟩

/-- The notices of these commands carry the word of the command. -/
theorem line_of_silentWord (found : server.findClientByFd fd = some client) {message : Message}
    (command : message.command ∈ silentWords) {notice : Notice}
    (listed : notice ∈ server.notices fd message) : ∃ parameters, notice.line =
      Reply.command (Reply.clientPrefix client) message.command parameters := by
  have single {condition : Prop} {_decision : Decidable condition} {line : Bytes}
      {audience : Set Int}
      (chosen : notice ∈ if condition then [(⟨line, audience⟩ : Notice)] else []) :
      notice.line = line := by
    split at chosen
    · rw [List.mem_singleton.mp chosen]
    · simp at chosen
  simp only [silentWords, List.mem_cons, List.not_mem_nil, or_false] at command
  rcases command with command | command | command | command
  · simp +decide only [notices, found, command, if_true, if_false] at listed
    rw [command]
    split at listed
    · simp at listed
    · split at listed
      · simp at listed
      · split at listed
        · simp at listed
        · rcases List.mem_flatMap.mp listed with ⟨target, _, inside⟩
          exact privmsgNotice_line inside
  · simp +decide only [notices, found, command, if_true, if_false] at listed
    rw [command]
    split at listed
    · simp at listed
    · split at listed
      · simp only [inviteNotice] at listed
        split at listed
        · simp at listed
        · split at listed
          · simp at listed
          · exact ⟨_, single listed⟩
      · simp at listed
  · simp +decide only [notices, found, command, if_true, if_false] at listed
    rw [command]
    split at listed
    · simp at listed
    · split at listed
      · simp only [topicNotice] at listed
        split at listed
        · simp at listed
        · exact ⟨_, single listed⟩
      · simp at listed
  · simp +decide only [notices, found, command, if_true, if_false] at listed
    rw [command]
    split at listed
    · simp at listed
    · split at listed
      · simp only [modeNotice] at listed
        split at listed
        · simp at listed
        · exact ⟨_, single listed⟩
      · simp at listed

theorem notifies_of_silentWord (peopled : server.core.Peopled)
    (sender : Sender server fd client) {message : Message}
    (command : message.command ∈ silentWords) (same : SameRecords server after)
    (kept : server.core.KeepsRosters after.core) :
    server.Notifies (server.notices fd message) after := by
  have nicknamed := nicknamed_of_find peopled sender.found sender.registered
  apply notifies_of_silent _ same (kept.rosters sender.wellFormed.consistent)
  intro notice listed
  rcases line_of_silentWord sender.found command listed with ⟨parameters, line⟩
  rcases silentWords_listed _ command with ⟨known, other⟩
  rw [line]
  exact nicknamed.tiding_other known other parameters

/-! ## The commands of a registered client -/

/-- A command with a list of channels to enter. -/
def EntersList (message : Message) : Prop :=
  message.command = ascii "JOIN" ∧
    ∃ targets arguments, message.params = targets :: arguments ∧ targets ≠ ascii "0"

theorem handler_notifies (named : server.core.Named) (peopled : server.core.Peopled)
    (sender : Sender server fd client) {message : Message} {entry : CommandEntry}
    (listed : entry ∈ commandTable) (command : message.command = entry.name)
    (fresh : entry.rejectsWhenRegistered = true → client.registered = false)
    (noList : ¬EntersList message) :
    server.Notifies (server.notices fd message) (entry.handler server fd message) := by
  have consistent := sender.wellFormed.consistent
  have quiet : message.command ∉ ascii "INVITE" :: noticeCommands →
      server.notices fd message = [] := notices_of_other sender.found
  have missing {count : Nat} : server.Notifies [] (server.requireParams fd message count).2 := by
    have tells : Tells server fd client message _ := Tells.refl.requireParams sender.found message
      count
    exact notifies_of_core tells.same (core_requireParams ..)
  simp only [commandTable, List.mem_cons, List.not_mem_nil, or_false] at listed
  rcases listed with
    rfl | rfl | rfl | rfl | rfl | rfl | rfl | rfl | rfl | rfl | rfl | rfl | rfl | rfl
  · exact absurd (fresh rfl) (by simp [sender.registered])
  · simp +decide only [notices, sender.found, sender.registered, command, if_true, if_false]
    cases params : message.params with
    | nil =>
        have answered : server.handleNick fd message = server.queueToClient fd (Reply.numeric
            server.serverName client Numeric.errNoNicknameGiven
              (ascii ":No nickname given")) := by
          simp only [handleNick, sender.found, params]
        rw [answered]
        exact notifies_of_core (SameRecords.queueToClient server fd _) (core_queueToClient ..)
    | cons nickname arguments => exact handleNick_notifies named peopled sender params
  · exact absurd (fresh rfl) (by simp [sender.registered])
  · rw [quiet (by rw [command]; decide)]
    exact notifies_of_core (handleCap_tells sender.found message).same (handleCap_core ..)
  · rw [quiet (by rw [command]; decide)]
    exact notifies_of_core (handlePing_tells sender.found message).same (handlePing_core ..)
  · rw [quiet (by rw [command]; decide)]
    exact Notifies.refl server
  · rw [quiet (by rw [command]; decide)]
    exact notifies_of_core (handleQuit_tells server fd client message).same (handleQuit_core ..)
  · simp +decide only [notices, handleJoin, sender.found, sender.registered, command, if_true,
      if_false]
    cases params : message.params with
    | nil => exact missing
    | cons targets arguments =>
        dsimp only
        by_cases all : targets = ascii "0"
        · rw [if_pos all, if_pos (by simpa using all)]
          exact leaveAll_notifies peopled sender _ _
        · exact absurd ⟨command, targets, arguments, params, all⟩ noList
  · exact notifies_of_silentWord peopled sender (by rw [command]; decide)
      (handlePrivmsg_tells consistent sender.found sender.registered command).same
      (.of_eq (handlePrivmsg_core ..))
  · simp +decide only [notices, sender.found, sender.registered, command, if_true, if_false]
    rcases params : message.params with _ | ⟨channelName, _ | ⟨targetNick, arguments⟩⟩
    · simp only [handleKick, sender.found, params]
      exact missing
    · simp only [handleKick, sender.found, params]
      exact missing
    · exact handleKick_notifies peopled sender params
  · exact notifies_of_silentWord peopled sender (by rw [command]; decide)
      (handleInvite_tells sender.found sender.registered command).same
      (handleInvite_keepsRosters message)
  · exact notifies_of_silentWord peopled sender (by rw [command]; decide)
      (handleTopic_tells consistent sender.found sender.registered message).same
      (handleTopic_keepsRosters message)
  · exact notifies_of_silentWord peopled sender (by rw [command]; decide)
      (handleMode_tells consistent sender.found sender.registered message).same
      (handleMode_keepsRosters message)
  · simp +decide only [notices, handlePart, sender.found, sender.registered, command, if_true,
      if_false]
    cases params : message.params with
    | nil => exact missing
    | cons targets arguments => exact partElements_notifies peopled sender _ _

theorem dispatchCommand_notifies (named : server.core.Named) (peopled : server.core.Peopled)
    (sender : Sender server fd client) {message : Message} (noList : ¬EntersList message) :
    server.Notifies (server.notices fd message) (server.dispatchCommand fd message) := by
  have answered {code : Nat} {parameters : Bytes} : server.Notifies []
      (server.queueToClient fd (Reply.numeric server.serverName client code parameters)) :=
    notifies_of_core (SameRecords.queueToClient server fd _) (core_queueToClient ..)
  have happened := dispatchCommand_cases sender.found message
  generalize server.dispatchCommand fd message = after at happened
  cases happened with
  | unknown absent _ =>
      rw [notices_of_other sender.found]
      · exact answered
      · intro relayed
        rcases List.mem_map.mp (relayed_listed _ relayed) with ⟨entry, listed, same⟩
        exact absent entry listed same
  | ignored _ unregistered => simp [sender.registered] at unregistered
  | refused _ _ _ unregistered => simp [sender.registered] at unregistered
  | rejected listed same rejects _ =>
      rw [notices_of_other sender.found]
      · exact answered
      · rw [← same]
        exact rejected_not_relayed _ listed rejects
  | handled listed same _ fresh =>
      exact handler_notifies named peopled sender listed same.symm fresh noList

/-- Only a JOIN line tells that somebody entered. -/
theorem opens_of_tidingOf {linePrefix command : Bytes} {params : List Bytes}
    {told : Tiding Bytes Bytes} (read : tidingOf linePrefix command params = some told)
    (opens : told.opens = true) : command = ascii "JOIN" := by
  simp only [tidingOf] at read
  split at read
  next nickname _ =>
    cases params with
    | nil => simp [clientTiding] at read
    | cons first more =>
        by_contra notJoin
        simp only [clientTiding, if_neg notJoin] at read
        split at read
        · rw [← Option.some.inj read] at opens
          simp [Tiding.opens] at opens
        · split at read
          · rcases Option.map_eq_some_iff.mp read with ⟨_, _, rfl⟩
            simp [Tiding.opens] at opens
          · split at read
            · rw [← Option.some.inj read] at opens
              simp [Tiding.opens] at opens
            · split at read
              · rw [← Option.some.inj read] at opens
                simp [Tiding.opens] at opens
              · simp at read
  next =>
    have personal := personal_of_serverTiding read
    cases told with
    | entered _ _ => simp [Tiding.isPersonal] at personal
    | named _ | listed _ _ | listedAll | left _ _ | gone _ | renamed _ _ =>
        simp [Tiding.opens] at opens

theorem quiet_of_other {notice : Notice} (other : notice.Other) {told : Tiding Bytes Bytes}
    (read : tiding notice.line = some told) : told.opens = false := by
  rcases other with ⟨linePrefix, word, parameters, listed, line⟩
  rcases otherNotices_words word listed with ⟨known, notJoin⟩
  rw [line] at read
  rcases command_form known linePrefix parameters with empty | form
  · have silent : tiding [] = none := by decide
    rw [empty, silent] at read
    simp at read
  · rw [form.tiding] at read
    rcases Option.bind_eq_some_iff.mp read with ⟨params, _, told_⟩
    rw [Bool.eq_false_iff]
    exact mt (opens_of_tidingOf told_) notJoin

theorem registered_informs (invariants : server.Invariants) (peopled : server.core.Peopled)
    (found : server.findClientByFd fd = some client) (registered : client.registered = true)
    (message : Message) : server.Informs (server.dispatchCommand fd message) := by
  have sender : Sender server fd client :=
    ⟨found, registered, invariants.nickname_valid found, invariants.serverName,
      invariants.wellFormed⟩
  by_cases list : EntersList message
  · rcases list with ⟨command, targets, arguments, params, notAll⟩
    rw [dispatchCommand_joinElements found registered command params notAll]
    exact joinElements_informs peopled sender _ _
  · have notifies := dispatchCommand_notifies invariants.named peopled sender list
    apply notifies.informs (dispatchCommand_delivers invariants fd message) found registered
    intro notice listed told read
    rcases notice_cases found listed with other |
      ⟨_, command, targets, arguments, params, notAll, _⟩
    · exact quiet_of_other other read
    · exact absurd ⟨command, targets, arguments, params, notAll⟩ list

/-! ## Before the registration -/

/-- A client without a nickname understands nothing of a reply but its welcome. -/
theorem reading_deaf {lines : List Bytes} (deaf : ∀ line ∈ lines, ∀ told, tiding line = some told →
      told.isPersonal = true ∧ ∀ name, told ≠ .named name) : reading {} lines = {} := by
  induction lines with
  | nil => rfl
  | cons line rest ih =>
      rw [List.forall_mem_cons] at deaf
      have kept : reading {} [line] = {} := by
        cases read : tiding line with
        | none => exact reading_silent _ (by simpa using read)
        | some told =>
            rw [reading_single _ read]
            rcases deaf.1 told read with ⟨personal, unnamed⟩
            cases told with
            | named name => exact absurd rfl (unnamed name)
            | listed room names => rfl
            | listedAll => rfl
            | entered _ _ | left _ _ | gone _ | renamed _ _ => simp [Tiding.isPersonal] at personal
      rw [← List.singleton_append, reading_append, kept]
      exact ih deaf.2

theorem named_of_serverTiding {command : Bytes} {params : List Bytes} {name : Bytes}
    (read : serverTiding command params = some (.named name)) : command = ascii "001" := by
  by_contra other
  simp only [serverTiding, if_neg other] at read
  split at read
  · split at read
    · simp at read
    · simp at read
  · split at read
    · simp at read
    · simp at read

theorem named_of_tidingOf {linePrefix command : Bytes} {params : List Bytes} {name : Bytes}
    (read : tidingOf linePrefix command params = some (.named name)) : command = ascii "001" := by
  simp only [tidingOf] at read
  split at read
  · cases params with
    | nil => simp [clientTiding] at read
    | cons first more =>
        simp only [clientTiding] at read
        split at read
        · simp at read
        · split at read
          · simp at read
          · split at read
            · rcases Option.map_eq_some_iff.mp read with ⟨_, _, other⟩
              simp at other
            · split at read
              · simp at read
              · split at read
                · simp at read
                · simp at read
  · exact named_of_serverTiding read

theorem replyCodes_not_welcome : ∀ code ∈ replyCodes, Reply.threeDigits code ≠ ascii "001" := by
  decide

theorem deaf_numeric (valid : client.nickname ≠ [] → IrcUtil.isValidNickname client.nickname = true)
    {code : Nat} (listed : code ∈ replyCodes) {parameters : Bytes} {told : Tiding Bytes Bytes}
    (read : tiding (Reply.numeric (ascii "ircserv.local") client code parameters) = some told) :
    told.isPersonal = true ∧ ∀ name, told ≠ .named name := by
  rw [tiding_numeric valid (List.mem_append_right _ listed)] at read
  rcases Option.bind_eq_some_iff.mp read with ⟨params, _, served⟩
  refine ⟨personal_of_serverTiding served, ?_⟩
  rintro name rfl
  exact replyCodes_not_welcome code listed (named_of_serverTiding served)

theorem deaf_answer {word : Bytes} (listed : word ∈ [ascii "CAP", ascii "PONG"])
    {parameters : Bytes} {told : Tiding Bytes Bytes}
    (read : tiding (Reply.command (Reply.serverPrefix (ascii "ircserv.local")) word parameters) =
      some told) : told.isPersonal = true ∧ ∀ name, told ≠ .named name := by
  refine ⟨personal_of_fromServer (fromServer_answer listed parameters) read, ?_⟩
  rintro name rfl
  have known : word ∈ lineWords ∧ word ≠ ascii "001" := by
    simp only [List.mem_cons, List.not_mem_nil, or_false] at listed
    rcases listed with rfl | rfl
    · decide
    · decide
  rcases command_form known.1 (Reply.serverPrefix (ascii "ircserv.local")) parameters with
    empty | form
  · have silent : tiding [] = none := by decide
    rw [empty, silent] at read
    simp at read
  · rw [form.tiding] at read
    rcases Option.bind_eq_some_iff.mp read with ⟨params, _, told⟩
    exact known.2 (named_of_tidingOf told)

/-- The welcome tells the client its nickname. -/
theorem tidings_welcomePostings (serverName : server.serverName = ascii "ircserv.local")
    (nicknamed : Nicknamed client) :
    (addressed client.fd (server.welcomePostings client)).filterMap tiding =
      [.named client.nickname] := by
  have valid := nicknamed.named.nickname
  have lines : addressed client.fd (server.welcomePostings client) =
      (server.welcomePostings client).map (·.message) := by
    simp [addressed, welcomePostings]
  have greeted : tiding (Reply.numeric (ascii "ircserv.local") client Numeric.rplWelcome
      (ascii ":Welcome to the Internet Relay Network " ++ Reply.clientPrefix client)) =
        some (.named client.nickname) := by
    have parameters : ascii ":Welcome to the Internet Relay Network " ++
        Reply.clientPrefix client = ascii ":" ++
          (ascii "Welcome to the Internet Relay Network " ++ Reply.clientPrefix client) := rfl
    have safe : ∀ word ∈ [client.nickname], IrcUtil.isSafeToken word = true := by
      simpa using safe_nickname nicknamed.valid
    have spread (rest : Bytes) : byte ' ' :: (client.nickname ++ rest) =
        spaced [client.nickname] ++ rest := by
      simp [spaced]
    rw [parameters, tiding_numeric valid (by decide), trailing_text, nicknamed.targetName_eq,
      spread, parseParams_words safe (by simp [Parser.maxParams])]
    rfl
  have silent {code : Nat} (listed : code ∈ welcomeCodes ++ replyCodes)
      (other : Reply.threeDigits code ∉ [ascii "001", ascii "353", ascii "366"])
      (parameters : Bytes) := tiding_numeric_other valid listed other parameters
  rw [lines]
  simp only [welcomePostings, List.map_cons, List.map_nil, serverName]
  rw [List.filterMap_cons_some greeted, List.filterMap_cons_none (silent (by decide) (by decide) _),
    List.filterMap_cons_none (silent (by decide) (by decide) _),
    List.filterMap_cons_none (silent (by decide) (by decide) _),
    List.filterMap_cons_none (silent (by decide) (by decide) _)]
  rfl

/-- What an unregistered client does is no matter of the rosters. -/
theorem rosters_of_confined (consistent : server.core.Consistent)
    (found : server.findClientByFd fd = some client) (unregistered : client.registered = false)
    (confined : Confined fd server after) : after.core.rosters = server.core.rosters := by
  apply Core.rosters_congr
  · intro key channel member stored inside
    rcases consistent.member_live stored inside with ⟨record, live, _⟩
    exact ⟨record, live⟩
  · intro key
    rw [show after.core.channels = server.core.channels from
      funext fun key => congrArg (fun channels => channels[key]?) confined.channels]
  · intro key channel member record stored inside live
    have distinct : member ≠ fd := by
      rintro rfl
      exact not_member_of_unregistered consistent found unregistered stored inside
    refine ⟨record, ?_, rfl⟩
    have same := confined.others member distinct
    simp only [core] at live ⊢
    rw [same]
    exact live

theorem unregistered_informs {message : Message} (invariants : server.Invariants)
    (peopled : (server.dispatchCommand fd message).core.Peopled)
    (found : server.findClientByFd fd = some client) (unregistered : client.registered = false) :
    server.Informs (server.dispatchCommand fd message) := by
  have consistent := invariants.wellFormed.consistent
  have confined := dispatchCommand_confined consistent invariants.named found unregistered message
  have mail := dispatchCommand_mail consistent found message
  generalize server.dispatchCommand fd message = after at *
  have rosters := rosters_of_confined consistent found unregistered confined
  -- The others get no line and have changed nothing.
  have others : ∀ {postings : List Posting} {watchers : Int → Watcher Bytes Bytes},
      (∀ posting ∈ postings, posting.fd = fd) → server.Informed watchers → ∀ other, other ≠ fd →
        ∀ record, after.findClientByFd other = some record →
          server.findClientByFd other = some record ∧
            reading (watchers other) (addressed other postings) = watchers other := by
    intro postings watchers own informed other distinct record foundOther
    have none_ : addressed other postings = [] := by
      simp only [addressed, List.map_eq_nil_iff, List.filter_eq_nil_iff]
      intro posting listed
      rw [own posting listed]
      simpa using Ne.symm distinct
    rw [none_]
    exact ⟨(confined.others other distinct).symm.trans foundOther, rfl⟩
  cases mail with
  | lines posts all steady =>
      rename_i postings
      have own : ∀ posting ∈ postings, posting.fd = fd := by
        intro posting listed
        cases all posting listed with
        | numeric code parameters => rfl
        | answer word parameters => rfl
        | notice registered _ _ _ _ => simp [unregistered] at registered
        | privmsg registered _ _ _ _ _ => simp [unregistered] at registered
        | invite registered _ _ _ _ _ => simp [unregistered] at registered
      refine ⟨postings, posts, ?_⟩
      intro watchers informed
      constructor
      case follows =>
        intro other record foundOther registered
        by_cases same : other = fd
        · rw [same] at foundOther
          rw [steady record foundOther, unregistered] at registered
          simp at registered
        · rcases others own informed other same record foundOther with ⟨there, calm⟩
          rw [calm, rosters]
          exact informed.follows other record there registered
      case unheard =>
        intro other record foundOther waiting
        by_cases same : other = fd
        · subst same
          rw [informed.unheard other client found unregistered]
          apply reading_deaf
          intro line listed told read
          rcases List.mem_map.mp listed with ⟨posting, chosen, rfl⟩
          cases all posting (List.mem_filter.mp chosen).1 with
          | numeric code parameters =>
              simp only [invariants.serverName] at read
              exact deaf_numeric (invariants.nickname_valid found) code read
          | answer word parameters =>
              simp only [invariants.serverName] at read
              exact deaf_answer word read
          | notice registered _ _ _ _ => simp [unregistered] at registered
          | privmsg registered _ _ _ _ _ => simp [unregistered] at registered
          | invite registered _ _ _ _ _ => simp [unregistered] at registered
        · rcases others own informed other same record foundOther with ⟨there, calm⟩
          rw [calm]
          exact informed.unheard other record there waiting
  | @welcome completed posts sameFd _ registered foundAfter =>
      rcases foundAfter with ⟨record, foundRecord, identity⟩
      have ownFd : client.fd = fd := consistent.client_fd fd client.withoutBuffers
        (core_clients_of_find server fd found)
      have receiver : completed.fd = fd := sameFd.trans ownFd
      have admitted : record.registered = true :=
        (Client.registered_of_identity identity).trans registered
      have nicknamed : Nicknamed completed :=
        (nicknamed_of_find peopled foundRecord admitted).of_identity identity.symm
      have told := tidings_welcomePostings invariants.serverName nicknamed
      have own : ∀ posting ∈ server.welcomePostings completed, posting.fd = fd := by
        intro posting listed
        rcases numeric_of_welcome listed with ⟨_, _, _, rfl⟩
        exact receiver
      refine ⟨_, posts, ?_⟩
      intro watchers informed
      constructor
      case follows =>
        intro other current foundOther registeredOther
        by_cases same : other = fd
        · subst same
          rw [foundRecord, Option.some.injEq] at foundOther
          subst foundOther
          rw [informed.unheard other client found unregistered, reading, ← receiver, told]
          have name := Client.nickname_of_identity identity
          refine ⟨congrArg some name.symm, rfl, ?_⟩
          intro room person
          have outside : (room, record.nickname) ∉ after.core.rosters := by
            intro inside
            rcases (peopled.mem_rosters_iff (core_clients_of_find after other foundRecord) admitted
              room).mp inside with ⟨key, channel, stored, _, member⟩
            have before : server.channels[key]? = some channel := confined.channels ▸ stored
            exact not_member_of_unregistered consistent found unregistered before member
          constructor
          · intro inside
            exact absurd inside (Finset.notMem_empty _)
          · rintro ⟨inside, _⟩
            exact absurd inside outside
        · rcases others own informed other same current foundOther with ⟨there, calm⟩
          rw [calm, rosters]
          exact informed.follows other current there registeredOther
      case unheard =>
        intro other current foundOther waiting
        by_cases same : other = fd
        · rw [same, foundRecord, Option.some.injEq] at foundOther
          rw [← foundOther, admitted] at waiting
          simp at waiting
        · rcases others own informed other same current foundOther with ⟨there, calm⟩
          rw [calm]
          exact informed.unheard other current there waiting

end Server

end IrcPlatform.Irc
