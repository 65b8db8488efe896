import IrcPlatform.Irc.Followers

/-!
# Clients that enter a channel

An admitted client reads the names of the members behind its JOIN line, and they are all that it
has to know of the channel. The members that were there before read the JOIN line alone.
-/

namespace IrcPlatform.Irc

open Std

/-! ## Names in a reply -/

theorem bareName_shown {nickname : Bytes} (valid : IrcUtil.isValidNickname nickname = true)
    (operator : Bool) :
    bareName ((if operator = true then ascii "@" else []) ++ nickname) = nickname := by
  cases operator with
  | true => rfl
  | false =>
      rcases isNicknameByte_of_valid valid with ⟨_, allowed⟩
      have unmarked : nickname.head? ≠ some (byte '@') := by
        intro marked
        exact absurd (allowed _ (List.mem_of_head? marked)) (by decide)
      simp only [Bool.false_eq_true, if_false, List.nil_append, bareName, if_neg unmarked]

/-- The names are given one after the other, with single spaces between them. -/
theorem foldl_names {names : List Bytes} (nonempty : ∀ name ∈ names, name ≠ []) :
    names.foldl (fun text name => text ++ (if text.isEmpty then [] else ascii " ") ++ name) [] =
      [byte ' '].intercalate names := by
  have later : ∀ (rest : List Bytes) (start : Bytes), start ≠ [] →
      rest.foldl (fun text name => text ++ (if text.isEmpty then [] else ascii " ") ++ name)
        start = start ++ spaced rest := by
    intro rest
    induction rest with
    | nil =>
        intro start _
        simp [spaced]
    | cons name rest ih =>
        intro start given
        have some_ : start.isEmpty = false := by simpa using given
        rw [List.foldl_cons, ih _ (by simp [given]), some_, spaced_cons]
        simp [ascii, byte]
  cases names with
  | nil => rfl
  | cons first rest =>
      rw [List.foldl_cons, later rest _ (by simp [nonempty]), intercalate_cons]
      rfl

theorem listedNames_intercalate {names : List Bytes} (given : names ≠ [])
    (spaceless : ∀ name ∈ names, byte ' ' ∉ name) :
    listedNames ([byte ' '].intercalate names) = names.map bareName := by
  rw [listedNames, List.splitOn_intercalate _ spaceless given]

theorem Nicknamed.of_identity {client other : Client} (same : other.identity = client.identity)
    (nicknamed : Nicknamed client) : Nicknamed other :=
  ⟨WellNamed.of_identity same nicknamed.named,
    Client.nickname_of_identity same ▸ nicknamed.given⟩

namespace Server

variable {server before after : Server} {fd : Int} {client : Client}

theorem nicknamed_of_find (peopled : server.core.Peopled)
    (found : server.findClientByFd fd = some client) (registered : client.registered = true) :
    Nicknamed client := by
  have stored := core_clients_of_find server fd found
  have names := peopled.nicknamed fd client.withoutBuffers stored registered
  exact names.of_identity (Client.identity_withoutBuffers client).symm

theorem peopled_of_same (same : SameRecords before after) (consistent : after.core.Consistent)
    (peopled : before.core.Peopled) : after.core.Peopled where
  wellFormed := wellFormed_of_same same consistent peopled.wellFormed
  nicknamed fd client stored registered := by
    rcases exists_find_of_core_clients after fd stored with ⟨record, found, rfl⟩
    rcases same.exists_before found with ⟨former, there, identity⟩
    have admitted := (Client.registered_of_identity identity).trans registered
    exact (nicknamed_of_find peopled there admitted).of_identity identity.symm
  distinct fd other client record stored storedOther registered registeredOther nickname := by
    rcases exists_find_of_core_clients after fd stored with ⟨first, found, rfl⟩
    rcases exists_find_of_core_clients after other storedOther with ⟨second, foundOther, rfl⟩
    rcases same.exists_before found with ⟨former, there, identity⟩
    rcases same.exists_before foundOther with ⟨formerOther, thereOther, identityOther⟩
    refine peopled.distinct fd other _ _ (core_clients_of_find before fd there)
      (core_clients_of_find before other thereOther)
      ((Client.registered_of_identity identity).trans registered)
      ((Client.registered_of_identity identityOther).trans registeredOther) ?_
    exact (Client.nickname_of_identity identity).trans
      (nickname.trans (Client.nickname_of_identity identityOther).symm)

/-- The name of a member in a names reply. -/
def shownName (server : Server) (channel : Channel) (fd : Int) : Option Bytes :=
  (server.findClientByFd fd).map fun member =>
    (if channel.isOperator fd = true then ascii "@" else []) ++ member.nickname

theorem namesOf_eq {channel : Channel} (nonempty : ∀ fd ∈ channel.members, ∀ client,
      server.findClientByFd fd = some client → client.nickname ≠ []) :
    server.namesOf channel =
      [byte ' '].intercalate (channel.members.toList.filterMap (server.shownName channel)) := by
  rw [← foldl_names, List.foldl_filterMap]
  · simp only [namesOf]
    congr 1
    funext names fd
    simp only [shownName]
    cases server.findClientByFd fd with
    | none => rfl
    | some member => simp [List.append_assoc]
  · intro name listed
    rcases List.mem_filterMap.mp listed with ⟨fd, member, shown⟩
    rcases Option.map_eq_some_iff.mp shown with ⟨client, found, rfl⟩
    have given := nonempty fd (ExtTreeSet.mem_toList.mp member) client found
    simp [given]

/-- Silent notices are heard by nobody. -/
theorem notifies_of_silent {notices : List Notice}
    (silent : ∀ notice ∈ notices, tiding notice.line = none) (same : SameRecords before after)
    (rosters : after.core.rosters = before.core.rosters) : before.Notifies notices after := by
  intro watchers informed
  apply (informed.sameRecords same rosters).congr
  intro fd _ _
  apply reading_silent
  intro line listed
  rcases List.mem_map.mp listed with ⟨notice, chosen, rfl⟩
  exact silent notice (List.mem_filter.mp chosen).1

section Names

variable (peopled : server.core.Peopled) {name : Bytes} {channel : Channel}
  (foundChannel : server.findChannel name = some channel)
include peopled foundChannel

theorem nicknamed_of_member {other : Int} {record : Client} (member : other ∈ channel.members)
    (found : server.findClientByFd other = some record) : Nicknamed record := by
  have consistent := peopled.wellFormed.consistent
  have registered := consistent.member_registered _ channel other _ foundChannel member
    (core_clients_of_find server other found)
  exact nicknamed_of_find peopled found registered

theorem mem_rosters_stored (nickname : Bytes) : (channel.name, nickname) ∈ server.core.rosters ↔
    ∃ other record, other ∈ channel.members ∧ server.findClientByFd other = some record ∧
      record.nickname = nickname := by
  rw [Core.mem_rosters]
  constructor
  · rintro ⟨key, room, other, record, stored, named, member, found, rfl⟩
    have same := peopled.channel_unique foundChannel stored named
    rw [same, show server.core.channels _ = some channel from foundChannel,
      Option.some.injEq] at stored
    rcases exists_find_of_core_clients server other found with ⟨owner, foundOwner, rfl⟩
    exact ⟨other, owner, stored ▸ member, foundOwner, rfl⟩
  · rintro ⟨other, record, member, found, rfl⟩
    exact ⟨_, channel, other, record.withoutBuffers, foundChannel, rfl, member,
      core_clients_of_find server other found, rfl⟩

/-- A names reply gives the roster of the channel. -/
theorem mem_listedNames (inhabited : fd ∈ channel.members) (nickname : Bytes) :
    nickname ∈ listedNames (server.namesOf channel) ↔
      (channel.name, nickname) ∈ server.core.rosters := by
  have nicknamed {other : Int} {record : Client} := @nicknamed_of_member server peopled name
    channel foundChannel other record
  have valid {other : Int} (member : other ∈ channel.members.toList) {record : Client}
      (found : server.findClientByFd other = some record) :
      IrcUtil.isValidNickname record.nickname = true :=
    (nicknamed (ExtTreeSet.mem_toList.mp member) found).valid
  have given : channel.members.toList.filterMap (server.shownName channel) ≠ [] := by
    rcases peopled.wellFormed.consistent.member_live foundChannel inhabited with
      ⟨record, stored, _⟩
    rcases exists_find_of_core_clients server fd stored with ⟨owner, found, _⟩
    apply List.ne_nil_of_mem
    exact List.mem_filterMap.mpr ⟨fd, ExtTreeSet.mem_toList.mpr inhabited, by
      rw [shownName, found, Option.map_some]⟩
  have spaceless : ∀ shown ∈ channel.members.toList.filterMap (server.shownName channel),
      byte ' ' ∉ shown := by
    intro shown listed
    rcases List.mem_filterMap.mp listed with ⟨other, member, read⟩
    rcases Option.map_eq_some_iff.mp read with ⟨record, found, rfl⟩
    rw [List.mem_append, not_or]
    constructor
    · split
      · decide
      · simp
    · exact noSpace_of_safe (safe_nickname (valid member found))
  rw [namesOf_eq fun other member record found => (nicknamed member found).given,
    listedNames_intercalate given spaceless, mem_rosters_stored peopled foundChannel,
    List.mem_map]
  constructor
  · rintro ⟨shown, listed, rfl⟩
    rcases List.mem_filterMap.mp listed with ⟨other, member, read⟩
    rcases Option.map_eq_some_iff.mp read with ⟨record, found, rfl⟩
    exact ⟨other, record, ExtTreeSet.mem_toList.mp member, found,
      (bareName_shown (valid member found) _).symm⟩
  · rintro ⟨other, record, member, found, rfl⟩
    have inList := ExtTreeSet.mem_toList.mpr member
    exact ⟨_, List.mem_filterMap.mpr ⟨other, inList, by rw [shownName, found, Option.map_some]⟩,
      bareName_shown (valid inList found) _⟩

/-- Only nicknames, spaces and marks stand in a names reply. -/
theorem cleanText_namesOf : CleanText (server.namesOf channel) := by
  rw [namesOf_eq fun other member record found =>
    (nicknamed_of_member peopled foundChannel member found).given]
  have clean : ∀ shown ∈ channel.members.toList.filterMap (server.shownName channel),
      CleanText shown := by
    intro shown listed c inside
    rcases List.mem_filterMap.mp listed with ⟨other, member, read⟩
    rcases Option.map_eq_some_iff.mp read with ⟨record, found, rfl⟩
    have valid := (nicknamed_of_member peopled foundChannel
      (ExtTreeSet.mem_toList.mp member) found).valid
    rcases List.mem_append.mp inside with mark | letter
    · split at mark
      · rw [show ascii "@" = [byte '@'] from rfl, List.mem_singleton] at mark
        rw [mark]
        decide
      · simp at mark
    · exact cleanText_of_safe (safe_nickname valid) c letter
  generalize channel.members.toList.filterMap (server.shownName channel) = names at clean
  cases names with
  | nil =>
      intro c listed
      simp at listed
  | cons first rest =>
      rw [intercalate_cons]
      intro c listed
      rcases List.mem_append.mp listed with inFirst | later
      · exact clean first List.mem_cons_self c inFirst
      · exact cleanText_spaced (fun word inRest => clean word (List.mem_cons_of_mem _ inRest)) c
          later

end Names

/-! ## The replies to the client that entered -/

theorem tiding_namesReply (nicknamed : Nicknamed client) {channel : Channel}
    (valid : IrcUtil.isValidChannelName channel.name = true) {names : Bytes}
    (clean : CleanText names) :
    tiding (Reply.numeric (ascii "ircserv.local") client Numeric.rplNamReply
      (ascii "= " ++ channel.name ++ ascii " :" ++ names)) =
        some (.listed channel.name (listedNames names)) := by
  have mark : IrcUtil.isSafeToken (ascii "=") = true := by decide
  have safe : ∀ word ∈ [ascii "=", channel.name], IrcUtil.isSafeToken word = true := by
    simp [mark, safe_channelName valid]
  have addressee : ∀ word ∈ [client.nickname, ascii "=", channel.name],
      IrcUtil.isSafeToken word = true := by
    simp [mark, safe_channelName valid, safe_nickname nicknamed.valid]
  have parameters : ascii "= " ++ channel.name ++ ascii " :" ++ names =
      ascii "=" ++ (spaced [channel.name] ++ behindColon names) := by
    simp [spaced, behindColon, ascii, byte]
  rw [parameters, tiding_numeric nicknamed.named.nickname (by decide), trailing_spaced safe,
    sanitized_of_clean clean, nicknamed.targetName_eq, ← List.append_assoc, ← List.cons_append,
    ← spaced_cons, parseParams_words addressee (by simp [Parser.maxParams])]
  rfl

theorem tiding_endOfNames (nicknamed : Nicknamed client) {channel : Channel}
    (valid : IrcUtil.isValidChannelName channel.name = true) :
    tiding (Reply.numeric (ascii "ircserv.local") client Numeric.rplEndOfNames
      (channel.name ++ ascii " :End of NAMES list")) = some .listedAll := by
  have safe : ∀ word ∈ [channel.name], IrcUtil.isSafeToken word = true := by
    simpa using safe_channelName valid
  have addressee : ∀ word ∈ [client.nickname, channel.name], IrcUtil.isSafeToken word = true := by
    simp [safe_channelName valid, safe_nickname nicknamed.valid]
  have parameters : channel.name ++ ascii " :End of NAMES list" =
      channel.name ++ (spaced [] ++ behindColon (ascii "End of NAMES list")) := rfl
  rw [parameters, tiding_numeric nicknamed.named.nickname (by decide), trailing_spaced safe,
    nicknamed.targetName_eq, ← List.append_assoc, ← List.cons_append, ← spaced_cons,
    parseParams_words addressee (by simp [Parser.maxParams])]
  rfl

/-- The replies tell the names, and that these are all. -/
theorem tidings_joinReplies (sender : Sender server fd client) (nicknamed : Nicknamed client)
    {channel : Channel} (valid : IrcUtil.isValidChannelName channel.name = true) {names : Bytes}
    (clean : CleanText names) :
    (addressed fd (joinReplies server fd client channel names)).filterMap tiding =
      [.listed channel.name (listedNames names), .listedAll] := by
  have topic : tiding (if channel.hasTopic then Reply.numeric server.serverName client
        Numeric.rplTopic (channel.name ++ ascii " :" ++ channel.topic)
      else Reply.numeric server.serverName client Numeric.rplNoTopic
        (channel.name ++ ascii " :No topic is set")) = none := by
    rw [sender.serverName]
    split
    · exact tiding_numeric_other sender.nickname (by decide) (by decide) _
    · exact tiding_numeric_other sender.nickname (by decide) (by decide) _
  have listed := tiding_namesReply nicknamed valid clean
  have ended := tiding_endOfNames nicknamed valid
  rw [← sender.serverName] at listed ended
  have lines : addressed fd (joinReplies server fd client channel names) =
      (joinReplies server fd client channel names).map (·.message) := by
    simp [addressed, joinReplies]
  rw [lines]
  simp only [joinReplies, List.map_cons, List.map_nil]
  rw [List.filterMap_cons_none topic, List.filterMap_cons_some listed,
    List.filterMap_cons_some ended]
  rfl

/-! ## One element of a JOIN -/

/-- An admission is announced from a server where it has happened. -/
theorem joinElement_announces (consistent : server.core.Consistent)
    (found : server.findClientByFd fd = some client) {name key : Bytes}
    (admits : server.Admits fd name key) : ∃ start : Server,
      server.joinElement fd name key =
        start.announceJoin fd client (server.enteredChannel fd name) ∧
      start.mail = server.mail ∧ start.serverName = server.serverName := by
  have notJoined : client.hasJoinedChannel (IrcUtil.normalizeChannelName name) = false := by
    have outside := admits.outside
    rw [isMember_iff consistent found] at outside
    simpa [Client.hasJoinedChannel, Bool.eq_false_iff] using outside
  simp only [joinElement, found, admits.valid, notJoined, Bool.not_true, Bool.false_eq_true,
    if_false, findChannel_normalize]
  cases present : server.findChannel name with
  | none =>
      have absent : server.core.channels (IrcUtil.normalizeChannelName name) = none := present
      have inserted := core_insertChannel
        { name := name, keyName := IrcUtil.normalizeChannelName name } absent
      have entered : admitTo { name := name, keyName := IrcUtil.normalizeChannelName name } fd
          true = server.enteredChannel fd name := by
        simp [enteredChannel, present, admitTo, newChannel, Channel.addMember,
          Channel.addOperator, Channel.hasMember, Channel.removeInvite]
      dsimp only
      generalize insertion : ({ server with
        channels := server.channels.insertIfNew (IrcUtil.normalizeChannelName name)
          { name := name, keyName := IrcUtil.normalizeChannelName name } } : Server) = opened
        at inserted
      have stored : opened.findChannel (IrcUtil.normalizeChannelName name) =
          some { name := name, keyName := IrcUtil.normalizeChannelName name } := by
        rw [findChannel_normalize, ← core_channels_of_find, inserted]
        simp
      have foundNow : opened.findClientByFd fd = some client := by
        rw [← insertion]
        exact found
      rw [completeJoin_eq true foundNow stored rfl, entered]
      refine ⟨_, rfl, ?_, ?_⟩
      · rw [mail_withMember, ← insertion]
        rfl
      · rw [← insertion]
        rfl
  | some channel =>
      rcases admits.existing channel present with ⟨invite, keyed, room⟩
      have stored : server.findChannel (IrcUtil.normalizeChannelName name) = some channel := by
        rw [findChannel_normalize]
        exact present
      have entered : admitTo channel fd false = server.enteredChannel fd name := by
        simp only [enteredChannel, present]
        rfl
      simp only [Channel.passesInvite_iff.mp invite, Channel.passesKey_iff.mp keyed,
        Channel.hasRoom_iff.mp room, Bool.not_true, Bool.false_eq_true, if_false]
      rw [completeJoin_eq false found stored (consistent.keyName _ _ present), entered]
      exact ⟨_, rfl, mail_withMember server fd _ false, rfl⟩

section Element

variable (peopled : server.core.Peopled) (sender : Sender server fd client)
include sender

theorem sameRecords_joinElement (name key : Bytes) :
    SameRecords server (server.joinElement fd name key) := by
  have kept := joinElement_kept sender.wellFormed sender.found sender.registered name key
  have tells : Tells server fd client { command := [] } _ :=
    joinElement_tells Tells.refl sender.found sender.registered name key kept.1.consistent
  exact tells.same

include peopled

theorem peopled_joinElement (name key : Bytes) :
    (server.joinElement fd name key).core.Peopled := by
  have kept := joinElement_kept sender.wellFormed sender.found sender.registered name key
  exact peopled_of_same (sameRecords_joinElement sender name key) kept.1.consistent peopled

theorem rosters_of_admission {name : Bytes} {entered : Channel}
    (admission : JoinAdmission fd name server after entered) :
    after.core.rosters = server.core.rosters.after (.entered entered.name client.nickname) ∧
      (∀ other, other ∈ entered.members ↔
        other = fd ∨ server.core.IsMember other (IrcUtil.normalizeChannelName name)) ∧
      ∀ other record, server.findClientByFd other = some record → record.registered = true →
        ((entered.name, record.nickname) ∈ server.core.rosters ↔
          server.core.IsMember other (IrcUtil.normalizeChannelName name)) := by
  have stored := core_clients_of_find server fd sender.found
  have members : ∀ other, other ∈ entered.members ↔
      other = fd ∨ server.core.IsMember other (IrcUtil.normalizeChannelName name) := by
    intro other
    cases present : server.core.channels (IrcUtil.normalizeChannelName name) with
    | none =>
        rw [admission.created present]
        simp [newChannel, Core.IsMember, present, eq_comm (a := other)]
    | some old =>
        rw [admission.existing old present]
        simp [Core.IsMember, present, eq_comm (a := other)]
  refine ⟨?_, members, ?_⟩
  · have channels : ∀ other, after.core.channels other =
        if other = IrcUtil.normalizeChannelName name then some entered
        else server.core.channels other := by
      intro other
      split
      next same => rw [same, admission.stored]
      next distinct => exact admission.channels other distinct
    have clients : ∀ other, after.core.clients other = if other = fd then
        some (client.withoutBuffers.addJoinedChannel (IrcUtil.normalizeChannelName name))
        else server.core.clients other := by
      intro other
      split
      next same => rw [same, admission.own _ stored]
      next distinct => exact admission.clients other distinct
    apply Core.rosters_join stored channels clients rfl
    · intro old present
      rw [admission.existing old present]
    · exact members
  · intro other record found registered
    have foundOther := core_clients_of_find server other found
    cases present : server.core.channels (IrcUtil.normalizeChannelName name) with
    | none =>
        have missing : ¬server.core.IsMember other (IrcUtil.normalizeChannelName name) := by
          simp [Core.IsMember, present]
        have name_ : entered.name = name := by rw [admission.created present, newChannel]
        apply iff_of_false _ missing
        intro inside
        rcases (peopled.mem_rosters_iff foundOther registered _).mp inside with
          ⟨key, channel, storedChannel, named, _⟩
        have sameKey := peopled.wellFormed.consistent.key_normalized key channel storedChannel
        rw [named, name_] at sameKey
        rw [← sameKey, present] at storedChannel
        simp at storedChannel
    | some old =>
        rw [admission.existing old present]
        refine (peopled.mem_rosters_channel foundOther registered present).trans ?_
        simp [Core.IsMember, present]

/-- An admission informs the members with one line, and the client that entered with the
names. -/
theorem joinElement_admitted_informs {name key : Bytes} (admits : server.Admits fd name key) :
    server.Informs (server.joinElement fd name key) := by
  have consistent := sender.wellFormed.consistent
  have admission := joinElement_admission consistent sender.found admits
  have same := sameRecords_joinElement sender name key
  have peopledAfter := peopled_joinElement peopled sender name key
  rcases joinElement_announces consistent sender.found admits with
    ⟨start, announced, mail, serverName⟩
  have nicknamed := nicknamed_of_find peopled sender.found sender.registered
  have posts := posts_announceJoin_names start fd client (server.enteredChannel fd name)
  have names : start.namesOf (server.enteredChannel fd name) =
      (server.joinElement fd name key).namesOf (server.enteredChannel fd name) := by
    rw [announced]
    exact (namesOf_of_core (core_announceJoin ..) _).symm
  rw [← announced, names] at posts
  generalize server.joinElement fd name key = after at *
  generalize server.enteredChannel fd name = entered at *
  rcases rosters_of_admission peopled sender admission with ⟨rosters, members, insiders⟩
  have stored : after.findChannel name = some entered := admission.stored
  rw [peopledAfter.wellFormed.filter_members stored] at posts
  simp only [joinReplies, serverName] at posts
  have posted : server.Posts (entered.members.toList.map
      (fun target => ⟨target, joinLine client entered⟩) ++
        joinReplies server fd client entered (after.namesOf entered)) after :=
    ((Posts.refl server).of_mail_eq mail).trans posts
  have valid : IrcUtil.isValidChannelName entered.name = true := peopledAfter.valid_name stored
  have told := nicknamed.tiding_joinLine valid
  have inside : fd ∈ entered.members := (members fd).mpr (Or.inl rfl)
  refine ⟨_, posted, ?_⟩
  intro watchers informed
  have notice : ∀ other, addressed other (entered.members.toList.map
      fun target => (⟨target, joinLine client entered⟩ : Posting)) =
        if other ∈ entered.members then [joinLine client entered] else [] := by
    intro other
    rw [addressed_broadcast (nodup_toList entered.members)]
    simp only [ExtTreeSet.mem_toList]
  have silent : ∀ other, other ≠ fd →
      addressed other (joinReplies server fd client entered (after.namesOf entered)) = [] := by
    intro other distinct
    simp [addressed, joinReplies, Ne.symm distinct]
  constructor
  case follows =>
    intro other record found registered
    rcases same.exists_before found with ⟨former, there, identity⟩
    have admitted := (Client.registered_of_identity identity).trans registered
    have follows := informed.follows other former there admitted
    rw [rosters, ← Client.nickname_of_identity identity, addressed_append, notice]
    by_cases own : other = fd
    · subst own
      rw [sender.found, Option.some.injEq] at there
      subst there
      rw [if_pos inside, reading, List.filterMap_append,
        tidings_joinReplies sender nicknamed valid
          (cleanText_namesOf peopledAfter stored), List.filterMap_cons_some told]
      apply follows.opened
      · rw [insiders other client sender.found sender.registered]
        exact admits.outside
      · intro nickname
        rw [mem_listedNames peopledAfter stored inside, rosters]
        simp [Rosters.after]
    · rw [silent other own, List.append_nil]
      have apart : client.nickname ≠ former.nickname := fun shared =>
        own (peopled.distinct fd other _ _ (core_clients_of_find server fd sender.found)
          (core_clients_of_find server other there) sender.registered admitted shared).symm
      have concerned := insiders other former there admitted
      by_cases listed : other ∈ entered.members
      · rw [if_pos listed, reading_single _ told]
        exact follows.told (concerned.mpr (((members other).mp listed).resolve_left own)) apart
      · rw [if_neg listed]
        exact follows.untold (mt concerned.mp fun member =>
          listed ((members other).mpr (Or.inr member))) apart
  case unheard =>
    intro other record found unregistered
    rcases same.exists_before found with ⟨former, there, identity⟩
    have waiting := (Client.registered_of_identity identity).trans unregistered
    have distinct : other ≠ fd := by
      rintro rfl
      rw [sender.found, Option.some.injEq] at there
      rw [← there, sender.registered] at waiting
      simp at waiting
    have outside : other ∉ entered.members := by
      intro listed
      rcases ((members other).mp listed).resolve_left distinct with ⟨channel, storedOld, member⟩
      have registered := consistent.member_registered _ channel other _ storedOld member
        (core_clients_of_find server other there)
      rw [show former.withoutBuffers.registered = former.registered from rfl, waiting]
        at registered
      simp at registered
    rw [addressed_append, notice, if_neg outside, silent other distinct]
    exact informed.unheard other former there waiting

theorem joinElement_informs (name key : Bytes) :
    server.Informs (server.joinElement fd name key) := by
  by_cases admits : server.Admits fd name key
  · exact joinElement_admitted_informs peopled sender admits
  · have delivers := joinElement_delivers sender name key
    have law := joinElement_law sender.wellFormed sender.found name key
    simp only [joinNotice, sender.found, if_neg admits] at delivers
    have core : (server.joinElement fd name key).core = server.core := by
      by_cases member : server.core.IsMember fd (IrcUtil.normalizeChannelName name)
      · rw [law.member member]
      · exact (law.refusal member admits).1
    have notifies : server.Notifies [] (server.joinElement fd name key) :=
      notifies_of_silent (by simp) (sameRecords_joinElement sender name key) (by rw [core])
    exact notifies.informs delivers sender.found sender.registered (by simp)

end Element

theorem joinElements_informs (peopled : server.core.Peopled) (sender : Sender server fd client)
    (names keys : List Bytes) : server.Informs (joinElements fd names keys server) := by
  induction names generalizing server client keys with
  | nil => exact Informs.refl server
  | cons name names ih =>
      rcases sender.joinElement name (keys.headD []) with ⟨current, later, _⟩
      exact (joinElement_informs peopled sender name _).trans
        (ih (peopled_joinElement peopled sender name _) later keys.tail)

end Server

end IrcPlatform.Irc
