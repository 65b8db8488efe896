import IrcPlatform.Irc.Entering

/-!
# Clients that leave or change their names

A departure, a removal by an operator, a new nickname and the end of a connection are told to
the members of the channels concerned, before the one that leaves is gone. The settings of a
channel do not touch its roster.
-/

namespace IrcPlatform.Irc

open Std

namespace Server

variable {server after : Server} {fd : Int} {client : Client}

/-! ## One departure -/

/-- A member is taken out of a channel, and the members are told. -/
theorem notifies_of_leave (peopled : server.core.Peopled) (same : SameRecords server after)
    {name : Bytes} {channel : Channel} (foundChannel : server.findChannel name = some channel)
    {leaver : Int} {record : Client} (found : server.findClientByFd leaver = some record)
    (member : leaver ∈ channel.members)
    (core : after.core = server.core.leave leaver (IrcUtil.normalizeChannelName name)
      record.withoutBuffers channel)
    {line : Bytes} (tells : tiding line = some (.left channel.name record.nickname)) :
    server.Notifies [⟨line, server.core.audience name⟩] after := by
  have stored := core_clients_of_find server leaver found
  have storedChannel : server.core.channels (IrcUtil.normalizeChannelName name) = some channel :=
    foundChannel
  have registered := peopled.wellFormed.consistent.member_registered _ channel leaver _
    storedChannel member stored
  apply notifies_of_change tells
  · rw [core]
    exact peopled.rosters_leave stored registered storedChannel
  · intro other current foundOther
    rcases same.exists_before foundOther with ⟨former, there, identity⟩
    have storedOther := core_clients_of_find server other there
    refine ⟨former, there, (Client.registered_of_identity identity).symm, ?_, ?_⟩
    · intro unregistered inside
      have admitted := peopled.wellFormed.consistent.member_registered _ channel other _
        storedChannel ((mem_audience foundChannel other).mp inside) storedOther
      rw [show former.withoutBuffers.registered = former.registered from rfl, unregistered]
        at admitted
      simp at admitted
    · intro admitted
      refine ⟨(Client.nickname_of_identity identity).symm, ?_, trivial⟩
      exact (mem_audience foundChannel other).trans
        (peopled.mem_rosters_channel storedOther admitted storedChannel).symm

/-- A command that does nothing to the rosters and gives no notices. -/
theorem notifies_of_core (same : SameRecords server after) (core : after.core = server.core) :
    server.Notifies [] after :=
  notifies_of_silent (by simp) same (by rw [core])

section Departures

variable (peopled : server.core.Peopled) (sender : Sender server fd client)
include sender

theorem sameRecords_leaveChannel (reason name : Bytes) :
    SameRecords server (server.leaveChannel fd name reason true) := by
  have tells : Tells server fd client { command := [] } _ :=
    leaveChannel_tells Tells.refl sender.found sender.registered sender.wellFormed.consistent
      name reason
  exact tells.same

theorem sameRecords_partElement (reason name : Bytes) :
    SameRecords server (server.partElement fd reason name) := by
  have tells : Tells server fd client { command := [] } _ :=
    partElement_tells Tells.refl sender.found sender.registered sender.wellFormed.consistent
      reason name
  exact tells.same

/-- Without a notice the departure has not happened. -/
theorem partElement_of_outside {reason name : Bytes}
    (outside : fd ∉ server.core.audience name) :
    server.leaveNotice fd reason name = [] ∧
      (server.partElement fd reason name).core = server.core := by
  simp only [leaveNotice, partElement, sender.found, findChannel_normalize]
  cases foundChannel : server.findChannel name with
  | none => exact ⟨rfl, core_queueToClient ..⟩
  | some channel =>
      have notMember : fd ∉ channel.members := mt (mem_audience foundChannel fd).mpr outside
      dsimp only
      rw [if_neg outside]
      simp only [requireChannelMember_of_not_member notMember, Bool.not_false, if_true]
      exact ⟨trivial, core_requireChannelMember ..⟩

include peopled

theorem leaveChannel_notifies (reason name : Bytes) :
    server.Notifies (server.leaveNotice fd reason name)
      (server.leaveChannel fd name reason true) := by
  have same := sameRecords_leaveChannel sender reason name
  have consistent := sender.wellFormed.consistent
  have nicknamed := nicknamed_of_find peopled sender.found sender.registered
  simp only [leaveNotice, sender.found]
  cases foundChannel : server.findChannel name with
  | none =>
      have unchanged : server.leaveChannel fd name reason true = server := by
        simp only [leaveChannel, sender.found, foundChannel]
      rw [unchanged]
      exact Notifies.refl server
  | some channel =>
      dsimp only
      by_cases member : fd ∈ channel.members
      · rw [if_pos ((mem_audience foundChannel fd).mpr member)]
        exact notifies_of_leave peopled same foundChannel sender.found member
          (core_leaveChannel consistent sender.found foundChannel member reason true)
          (nicknamed.tiding_partLine (peopled.valid_name foundChannel) reason)
      · have outside : (!channel.hasMember fd) = true := by
          simpa [Bool.eq_false_iff, Channel.hasMember_iff] using member
        have unchanged : server.leaveChannel fd name reason true = server := by
          simp only [leaveChannel, sender.found, foundChannel, outside, if_true]
        rw [if_neg (mt (mem_audience foundChannel fd).mp member), unchanged]
        exact Notifies.refl server

theorem partElement_notifies (reason name : Bytes) :
    server.Notifies (server.leaveNotice fd reason name)
      (server.partElement fd reason name) := by
  by_cases inside : fd ∈ server.core.audience name
  · have leaves := leaveChannel_notifies peopled sender reason (IrcUtil.normalizeChannelName name)
    rw [leaveNotice_normalize] at leaves
    rcases inside with ⟨channel, stored, member⟩
    have foundChannel : server.findChannel name = some channel := stored
    have left : server.partElement fd reason name =
        server.leaveChannel fd (IrcUtil.normalizeChannelName name) reason true := by
      simp only [partElement, sender.found, findChannel_normalize, foundChannel,
        requireChannelMember_of_member member, Bool.not_true, Bool.false_eq_true, if_false]
    rwa [left]
  · rcases partElement_of_outside sender inside with ⟨silent, core⟩
    rw [silent]
    exact notifies_of_core (sameRecords_partElement sender reason name) core

end Departures

theorem consistent_leaveChannel (consistent : server.core.Consistent) (fd : Int)
    (name reason : Bytes) : (server.leaveChannel fd name reason true).core.Consistent := by
  rcases leaveChannel_effect fd consistent name reason true with same | effect
  · rwa [same]
  · exact effect.consistent consistent

theorem consistent_partElement (consistent : server.core.Consistent) (fd : Int)
    (reason name : Bytes) : (server.partElement fd reason name).core.Consistent := by
  rcases partElement_effect fd consistent reason name with same | effect
  · rwa [same]
  · exact effect.consistent consistent

theorem leaveAll_notifies (peopled : server.core.Peopled) (sender : Sender server fd client)
    (reason : Bytes) (keys : List Bytes) :
    server.Notifies (leaveNotices fd reason keys server) (leaveAll fd reason keys server) := by
  induction keys generalizing server client with
  | nil => exact Notifies.refl server
  | cons key keys ih =>
      have same := sameRecords_leaveChannel sender reason key
      have consistent := consistent_leaveChannel sender.wellFormed.consistent fd key reason
      rcases sender.next same consistent with ⟨current, later, _⟩
      exact (leaveChannel_notifies peopled sender reason key).trans
        (ih (peopled_of_same same consistent peopled) later)

theorem partElements_notifies (peopled : server.core.Peopled) (sender : Sender server fd client)
    (reason : Bytes) (names : List Bytes) :
    server.Notifies (partNotices fd reason names server)
      (partElements fd reason names server) := by
  induction names generalizing server client with
  | nil => exact Notifies.refl server
  | cons name names ih =>
      have same := sameRecords_partElement sender reason name
      have consistent := consistent_partElement sender.wellFormed.consistent fd reason name
      rcases sender.next same consistent with ⟨current, later, _⟩
      exact (partElement_notifies peopled sender reason name).trans
        (ih (peopled_of_same same consistent peopled) later)

/-! ## Removals by an operator -/

/-- A KICK without a notice does nothing but answer. -/
theorem kick_cases (sender : Sender server fd client) {message : Message}
    {channelName targetNick : Bytes} {arguments : List Bytes}
    (params : message.params = channelName :: targetNick :: arguments) :
    (server.kickNotice fd client channelName targetNick (arguments.headD client.nickname) = [] ∧
      (server.handleKick fd message).core = server.core) ∨
    ∃ channel target, server.findChannel channelName = some channel ∧
      server.findClientByFd target.fd = some target ∧ target.fd ∈ channel.members ∧
      server.kickNotice fd client channelName targetNick (arguments.headD client.nickname) =
        [⟨kickLine client target channel (arguments.headD client.nickname),
          server.core.audience channelName⟩] ∧
      (server.handleKick fd message).core = server.core.leave target.fd
        (IrcUtil.normalizeChannelName channelName) target.withoutBuffers channel := by
  have consistent := sender.wellFormed.consistent
  simp only [kickNotice, handleKick, sender.found, params]
  cases foundChannel : server.findChannel channelName with
  | none => exact Or.inl ⟨rfl, core_queueToClient ..⟩
  | some channel =>
      dsimp only
      by_cases operator : fd ∈ channel.operators
      · have member := member_of_operator consistent foundChannel operator
        simp only [requireChannelMember_of_member member,
          requireChannelOperator_of_operator operator, Bool.not_true, Bool.false_eq_true,
          if_false]
        cases foundTarget : server.findClientByNickname targetNick with
        | none => exact Or.inl ⟨rfl, core_queueToClient ..⟩
        | some target =>
            dsimp only
            by_cases inside : target.fd ∈ channel.members
            · have both : fd ∈ channel.operators ∧
                  target.fd ∈ server.core.audience channelName :=
                ⟨operator, (mem_audience foundChannel _).mpr inside⟩
              have listed : ¬(!channel.hasMember target.fd) = true := by
                simpa [Channel.hasMember_iff] using inside
              have held := find_of_findClientByNickname consistent foundTarget
              rw [if_pos both, if_neg listed]
              refine Or.inr ⟨channel, target, rfl, held, inside, rfl, ?_⟩
              generalize notified : server.broadcastToChannel channel _ (-1) = announced
              have core : announced.core = server.core := by
                rw [← notified, core_broadcastToChannel]
              rcases find_eq_of_core_eq target.fd core.symm held with ⟨kicked, foundKicked, same⟩
              have keyName := consistent.keyName _ _
                (show server.core.channels _ = some channel from foundChannel)
              have sameChannel : announced.findChannel channel.keyName = some channel := by
                rw [keyName, findChannel_eq_of_core_eq core, findChannel_normalize]
                exact foundChannel
              rw [core_leaveChannel (core.symm ▸ consistent) foundKicked sameChannel inside, core,
                keyName, IrcUtil.normalizeChannelName_normalizeChannelName, same]
            · have notBoth : ¬(fd ∈ channel.operators ∧
                  target.fd ∈ server.core.audience channelName) := fun both =>
                inside ((mem_audience foundChannel _).mp both.2)
              have unlisted : (!channel.hasMember target.fd) = true := by
                simpa [Bool.eq_false_iff, Channel.hasMember_iff] using inside
              rw [if_neg notBoth, if_pos unlisted]
              exact Or.inl ⟨rfl, core_queueToClient ..⟩
      · have refused : ∀ accepted : Server,
            (if !(server.requireChannelMember fd channel).1 then
              (server.requireChannelMember fd channel).2
            else if !((server.requireChannelMember fd channel).2.requireChannelOperator fd
              channel).1 then
              ((server.requireChannelMember fd channel).2.requireChannelOperator fd channel).2
            else accepted).core = server.core := by
          intro accepted
          by_cases member : fd ∈ channel.members
          · simp [requireChannelMember_of_member member,
              requireChannelOperator_of_not_operator operator]
          · simp [requireChannelMember_of_not_member member]
        left
        refine ⟨?_, refused _⟩
        cases server.findClientByNickname targetNick with
        | none => rfl
        | some target => exact if_neg fun both => operator both.1

theorem handleKick_notifies (peopled : server.core.Peopled) (sender : Sender server fd client)
    {message : Message} {channelName targetNick : Bytes} {arguments : List Bytes}
    (params : message.params = channelName :: targetNick :: arguments) :
    server.Notifies
      (server.kickNotice fd client channelName targetNick (arguments.headD client.nickname))
      (server.handleKick fd message) := by
  have consistent := sender.wellFormed.consistent
  have same := (handleKick_tells consistent sender.found sender.registered message).same
  have nicknamed := nicknamed_of_find peopled sender.found sender.registered
  rcases kick_cases sender params with ⟨silent, core⟩ |
    ⟨channel, target, foundChannel, found, member, notice, core⟩
  · rw [silent]
    exact notifies_of_core same core
  · rw [notice]
    exact notifies_of_leave peopled same foundChannel found member core
      (nicknamed.tiding_kickLine (nicknamed_of_member peopled foundChannel member found)
        (peopled.valid_name foundChannel) _)

end Server

end IrcPlatform.Irc
