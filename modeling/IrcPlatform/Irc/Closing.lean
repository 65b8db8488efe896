import IrcPlatform.Irc.Nicknames
import IrcPlatform.Irc.Tables

/-!
# Closing a connection

The operating system hands out the numbers of closed descriptors again. This
file computes the whole state after `disconnectClient` and shows that no
container keeps anything of the closed connection, so that a later connection
on the same number starts from nothing.
-/

namespace IrcPlatform.Irc

open Std Relation

namespace Channel

/-- The channel after a descriptor is gone from its three sets, if somebody is left. -/
def without (fd : Int) (channel : Channel) : Option Channel :=
  let left := (channel.removeMember fd).removeInvite fd
  if left.isEmpty then none else some left

theorem erase_of_notMem {fds : ExtTreeSet Int} {fd : Int} (absent : fd ∉ fds) :
    fds.erase fd = fds := by
  apply ExtTreeSet.ext_mem
  intro other
  simp only [ExtTreeSet.mem_erase, ne_eq, LawfulEqOrd.compare_eq_iff_eq]
  constructor
  · exact And.right
  · intro listed
    exact ⟨fun same => absent (same ▸ listed), listed⟩

theorem without_eq_none_iff {fd : Int} {channel : Channel} :
    channel.without fd = none ↔ ∀ other ∈ channel.members, other = fd := by
  simp only [without]
  cases empty : ((channel.removeMember fd).removeInvite fd).isEmpty with
  | false =>
      rcases (isEmpty_eq_false_iff _).mp empty with ⟨other, listed⟩
      simp only [removeInvite_members, removeMember_members, ExtTreeSet.mem_erase, ne_eq,
        LawfulEqOrd.compare_eq_iff_eq] at listed
      simp only [Bool.false_eq_true, if_false, reduceCtorEq, false_iff]
      intro only
      exact listed.1 (only other listed.2).symm
  | true =>
      simp only [if_true, true_iff]
      intro other listed
      by_contra distinct
      have remaining : ((channel.removeMember fd).removeInvite fd).isEmpty = false := by
        apply (isEmpty_eq_false_iff _).mpr
        refine ⟨other, ?_⟩
        simp [listed, Ne.symm distinct]
      rw [empty] at remaining
      exact Bool.noConfusion remaining

/-- Taking the descriptor out a second time changes nothing. -/
theorem map_removeInvite_without (fd : Int) (channel : Channel) :
    (channel.without fd).map (·.removeInvite fd) = channel.without fd := by
  simp only [without]
  split
  · rfl
  · have twice : (channel.invited.erase fd).erase fd = channel.invited.erase fd :=
      erase_of_notMem (by simp)
    simp [removeInvite, removeMember, twice]

/-- Someone who is not in the channel can only lose an invite. -/
theorem without_of_outside {fd other : Int} {channel : Channel} (outside : fd ∉ channel.members)
    (operators : ∀ fd ∈ channel.operators, fd ∈ channel.members)
    (member : other ∈ channel.members) : channel.without fd = some (channel.removeInvite fd) := by
  have sameMembers := erase_of_notMem outside
  have sameOperators : channel.operators.erase fd = channel.operators :=
    erase_of_notMem fun operator => outside (operators fd operator)
  have same : channel.removeMember fd = channel := by
    simp only [removeMember, sameMembers, sameOperators]
  have nonempty : (channel.removeInvite fd).isEmpty = false :=
    (isEmpty_eq_false_iff _).mpr ⟨other, member⟩
  simp only [without, same, nonempty, Bool.false_eq_true, if_false]

/-- What `without` keeps. -/
structure LosesOnly (fd : Int) (before after : Channel) : Prop where
  members (other : Int) : other ∈ after.members ↔ other ∈ before.members ∧ other ≠ fd
  operators (other : Int) : other ∈ after.operators ↔ other ∈ before.operators ∧ other ≠ fd
  invited (other : Int) : other ∈ after.invited ↔ other ∈ before.invited ∧ other ≠ fd
  rest : after = { before with
    members := after.members, operators := after.operators, invited := after.invited }

theorem losesOnly_of_without {fd : Int} {channel left : Channel}
    (result : channel.without fd = some left) : LosesOnly fd channel left := by
  simp only [without] at result
  split at result
  · simp at result
  · rw [Option.some.injEq] at result
    subst result
    constructor
    case rest => rfl
    all_goals
      intro other
      simp [removeInvite, removeMember, and_comm, eq_comm (a := fd)]

end Channel

/-! ## The channels after a disconnection -/

theorem LeaveEffect.channels {actor : Int} {start current : Core}
    (chain : ReflTransGen (LeaveEffect actor) start current) (key : Bytes) :
    current.channels key = start.channels key ∨
      ∃ channel, start.channels key = some channel ∧
        current.channels key = channel.without actor := by
  induction chain with
  | refl => exact Or.inl rfl
  | tail _ effect ih =>
      cases effect with
      | @leave client channel left _ foundChannel member =>
          by_cases here : key = left
          · subst here
            have result : ∀ core : Core, (core.leave actor key client channel).channels key =
                channel.without actor := by
              intro core
              rw [Core.leave_channels, if_pos rfl]
              rfl
            rw [result]
            rcases ih with same | ⟨old, stored, gone⟩
            · exact Or.inr ⟨channel, same ▸ foundChannel, rfl⟩
            · rw [foundChannel] at gone
              have lost := (Channel.losesOnly_of_without gone.symm).members actor
              exact absurd rfl (lost.mp member).2
          · rw [Core.leave_channels, if_neg here]
            exact ih

theorem DisconnectEffect.channels {fd : Int} {before after : Core}
    (effect : DisconnectEffect fd before after) (consistent : before.Consistent)
    (live : before.clients fd ≠ none) (key : Bytes) :
    after.channels key = (before.channels key).bind (Channel.without fd) := by
  cases effect with
  | absent missing => exact absurd missing live
  | @closed client left _ departures noChannel =>
      have consistentLeft := LeaveEffect.chain_consistent departures consistent
      rw [Core.remove_channels]
      change (left.channels key).map (·.removeInvite fd) = _
      rcases LeaveEffect.channels departures key with same | ⟨channel, stored, gone⟩
      · cases stored : before.channels key with
        | none =>
            rw [same, stored]
            rfl
        | some channel =>
            rw [stored] at same
            have outside : fd ∉ channel.members := by
              intro member
              have joined := (consistentLeft.isMember_iff fd key).mp ⟨channel, same, member⟩
              exact noChannel key joined
            rcases consistentLeft.nonempty key channel same with ⟨other, member⟩
            rw [same, Option.map_some, Option.bind_some]
            exact (Channel.without_of_outside outside
              (fun other => consistentLeft.operator_member key channel other same) member).symm
      · rw [gone, stored, Option.bind_some, Channel.map_removeInvite_without]

namespace Server

variable {server : Server} {fd : Int} {client : Client}

/-! ## The state after a disconnection -/

/-- Exactly the channels of which `fd` was the only member are gone, and the others only
lose `fd`. -/
structure ChannelsClosed (fd : Int) (before after : Server) : Prop where
  gone_iff (key : Bytes) (channel : Channel) : before.channels[key]? = some channel →
    (after.channels[key]? = none ↔ ∀ other, other ∈ channel.members ↔ other = fd)
  kept (key : Bytes) (left : Channel) : after.channels[key]? = some left →
    ∃ channel, before.channels[key]? = some channel ∧ channel.LosesOnly fd left
  created (key : Bytes) : before.channels[key]? = none → after.channels[key]? = none

/-- No container of the server knows the descriptor. -/
structure Unknown (fd : Int) (server : Server) : Prop where
  client : fd ∉ server.clients
  reason : fd ∉ server.disconnectReasons
  nickname (key : Bytes) : server.nickToFd[key]? ≠ some fd
  poll : fd ∉ server.pollFds.map (·.fd)
  sets (key : Bytes) (channel : Channel) : server.channels[key]? = some channel →
    fd ∉ channel.members ∧ fd ∉ channel.operators ∧ fd ∉ channel.invited

/-- Another client's record only gains the QUIT line, at most once. -/
def GainsAtMost (notice : Bytes) (before after : Client) : Prop :=
  after = before ∨ after = before.appendSendBuffer (withCrlf notice)

structure Closed (fd : Int) (notice : Bytes) (before after : Server) : Prop where
  unknown : after.Unknown fd
  channels : ChannelsClosed fd before after
  others (other : Int) (record : Client) : other ≠ fd → before.clients[other]? = some record →
    ∃ next, after.clients[other]? = some next ∧ GainsAtMost notice record next
  nobody (other : Int) : before.clients[other]? = none → after.clients[other]? = none

/-- A descriptor without a connection, that is not the listening one, is unknown. -/
theorem unknown_of_dead (consistent : server.core.Consistent) (named : server.core.Named)
    (tables : server.TablesLive) (dead : server.findClientByFd fd = none)
    (unlisted : fd ∉ server.pollFds.map (·.fd)) : server.Unknown fd := by
  have absent := (findClientByFd_of_core server fd).mpr dead
  constructor
  case client =>
    rwa [ExtTreeMap.mem_iff_isSome_getElem?, Option.not_isSome_iff_eq_none]
  case reason =>
    intro stored
    have live := tables.reason_live fd stored
    simp [dead] at live
  case nickname =>
    intro key entry
    rcases named.held key fd entry with ⟨record, found, _⟩
    simp [absent] at found
  case poll => exact unlisted
  case sets =>
    intro key channel stored
    have outside : fd ∉ channel.members := by
      intro member
      rcases consistent.member_live stored member with ⟨record, found, _⟩
      simp [absent] at found
    refine ⟨outside, ?_, ?_⟩
    · intro operator
      exact outside (consistent.operator_member key channel fd stored operator)
    · intro invited
      rcases consistent.invited_live key channel fd stored invited with ⟨record, found⟩
      simp [absent] at found

theorem channelsClosed_of_effect {after : Server} (consistent : server.core.Consistent)
    (live : server.core.clients fd ≠ none)
    (effect : DisconnectEffect fd server.core after.core) : ChannelsClosed fd server after := by
  have result : ∀ key : Bytes, after.channels[key]? =
      server.channels[key]?.bind (Channel.without fd) :=
    effect.channels consistent live
  constructor
  case gone_iff =>
    intro key channel stored
    rw [result, stored, Option.bind_some, Channel.without_eq_none_iff]
    rcases consistent.nonempty key channel stored with ⟨someone, member⟩
    constructor
    · intro only other
      refine ⟨only other, ?_⟩
      rintro rfl
      exact only someone member ▸ member
    · intro only other listed
      exact (only other).mp listed
  case kept =>
    intro key left found
    rw [result] at found
    rcases Option.bind_eq_some_iff.mp found with ⟨channel, stored, remains⟩
    exact ⟨channel, stored, Channel.losesOnly_of_without remains⟩
  case created =>
    intro key missing
    rw [result, missing]
    rfl

/-- The whole effect of a disconnection. -/
theorem disconnectClient_closed (reached : stepSystem.Reachable server)
    (found : server.findClientByFd fd = some client) (reason : Bytes) :
    Closed fd (quitLine client reason) server (server.disconnectClient fd reason) := by
  have consistent := step_reachable_consistent reached
  have named := step_reachable_named reached
  have tables := step_reachable_tablesLive reached
  have spec := disconnectClient_disconnected found reason
  have effect := disconnectClient_effect consistent fd reason
  have unlisted : fd ∉ (server.disconnectClient fd reason).pollFds.map (·.fd) := by
    rw [map_fd_disconnectClient found, tables.poll_distinct.mem_erase_iff]
    exact fun listed => listed.1 rfl
  constructor
  case unknown =>
    exact unknown_of_dead (effect.consistent consistent) (effect.named named)
      (tables.disconnect fd reason) spec.gone unlisted
  case channels =>
    apply channelsClosed_of_effect consistent _ effect
    rw [core_clients_of_find server fd found]
    exact Option.some_ne_none _
  case others =>
    intro other record distinct stored
    have lookup := spec.others other distinct
    have before : server.findClientByFd other = some record := stored
    rw [before] at lookup
    split at lookup
    · refine ⟨_, lookup, ?_⟩
      simp only [deliver]
      split
      · exact Or.inl rfl
      · exact Or.inr rfl
    · exact ⟨record, lookup, Or.inl rfl⟩
  case nobody =>
    intro other missing
    have before : server.findClientByFd other = none := missing
    have distinct : other ≠ fd := by
      rintro rfl
      simp [found] at before
    have lookup := spec.others other distinct
    rw [before] at lookup
    split at lookup
    · exact lookup
    · exact lookup

/-! ## The next connection on the same number -/

/-- A connection that has just been accepted: its record is fresh, it has one poll entry,
and nothing else of the server names its descriptor. -/
structure StartsClean (fd : Int) (peerAddress : Bytes) (server : Server) : Prop where
  client : server.clients[fd]? = some { fd := fd, hostname := peerAddress }
  reason : fd ∉ server.disconnectReasons
  nickname (key : Bytes) : server.nickToFd[key]? ≠ some fd
  poll : (server.pollFds.map (·.fd)).count fd = 1
  sets (key : Bytes) (channel : Channel) : server.channels[key]? = some channel →
    fd ∉ channel.members ∧ fd ∉ channel.operators ∧ fd ∉ channel.invited

theorem acceptClient_startsClean (reached : stepSystem.Reachable server) {peerAddress : Bytes}
    (ready : server.ready (.accept fd peerAddress) = true) :
    StartsClean fd peerAddress (server.acceptClient (some (fd, peerAddress))) := by
  have tables := step_reachable_tablesLive reached
  have dead := (findClientByFd_of_core server fd).mp (core_clients_of_ready ready)
  have absent : server.clients.contains fd = false := by
    rw [ExtTreeMap.contains_eq_isSome_getElem?, Option.isSome_eq_false_iff,
      Option.isNone_iff_eq_none]
    exact dead
  have notListening : fd ≠ server.listenFd := by
    simp only [Server.ready, Bool.and_eq_true, bne_iff_ne] at ready
    exact ready.2
  have unlisted : fd ∉ server.pollFds.map (·.fd) := by
    intro listed
    have live := tables.poll_live fd listed notListening
    simp [dead] at live
  have unknown := unknown_of_dead (step_reachable_consistent reached)
    (step_reachable_named reached) tables dead unlisted
  simp only [acceptClient, addClient, absent, Bool.false_eq_true, if_false, Bool.not_true]
  constructor
  case client => simp [addClientPollFd, record]
  case reason => exact unknown.reason
  case nickname => exact unknown.nickname
  case poll =>
    simp only [addClientPollFd, record, List.map_append, List.count_append,
      List.count_eq_zero_of_not_mem unlisted]
    simp
  case sets => exact unknown.sets

/-- A disconnection leaves nothing of the connection behind: neither in the state after
it, nor for whoever gets the same descriptor number later. -/
theorem disconnectClient_leaves_nothing (reached : stepSystem.Reachable server)
    (found : server.findClientByFd fd = some client) (reason : Bytes) :
    Closed fd (quitLine client reason) server (server.disconnectClient fd reason) ∧
    ∀ later peerAddress, stepMachine.Leads (server.disconnectClient fd reason) later →
      later.ready (.accept fd peerAddress) = true →
      StartsClean fd peerAddress (later.acceptClient (some (fd, peerAddress))) := by
  refine ⟨disconnectClient_closed reached found reason, ?_⟩
  intro later peerAddress leads ready
  have closing := leads_advance (Machine.Leads.refl server) (.disconnect fd reason) rfl
  exact acceptClient_startsClean ((closing.trans leads).reachable reached) ready

/-- The second member of a channel is disconnected, and the first one stays. -/
theorem disconnectClient_leaves_nothing_alicesRoom :
    ∃ client, alicesRoom.findClientByFd 5 = some client ∧
      Closed 5 (quitLine client (ascii "bye")) alicesRoom
        (alicesRoom.disconnectClient 5 (ascii "bye")) ∧
      (alicesRoom.disconnectClient 5 (ascii "bye")).channels.keys = [ascii "#room"] := by
  have live : (alicesRoom.findClientByFd 5).isSome = true := by decide +kernel
  rcases Option.isSome_iff_exists.mp live with ⟨client, found⟩
  have result := disconnectClient_leaves_nothing reachable_alicesRoom found (ascii "bye")
  exact ⟨client, found, result.1, by decide +kernel⟩

end Server

end IrcPlatform.Irc
