import IrcPlatform.Irc.Registration

/-!
# Names of channels and descriptors of clients

Two invariants about keys. Every channel has a valid name, because only JOIN makes
channels and it checks the name first. Every client has a descriptor that is not
negative, so that the exclusion of `-1` from a broadcast excludes nobody.
-/

namespace IrcPlatform.Irc

open Std Relation

/-- Every channel of the core has a valid name. -/
def Core.NamesValid (core : Core) : Prop :=
  ∀ key channel, core.channels key = some channel → IrcUtil.isValidChannelName key = true

/-- Channels may change or go, but none is new. -/
def Core.NoNewChannel (before after : Core) : Prop :=
  ∀ key, (after.channels key).isSome = true → (before.channels key).isSome = true

def Core.Nonnegative (core : Core) : Prop :=
  ∀ fd client, core.clients fd = some client → 0 ≤ fd

/-- What the loops over channel lists rely on in each round. -/
structure Core.WellFormed (core : Core) : Prop where
  consistent : core.Consistent
  names : core.NamesValid
  descriptors : core.Nonnegative

namespace Core

variable {before between after : Core}

/-- Nobody is excluded by the descriptor `-1`. -/
theorem WellFormed.filter_members {core : Core} (wellFormed : core.WellFormed) {key : Bytes}
    {channel : Channel} (found : core.channels key = some channel) :
    channel.members.toList.filter (· != -1) = channel.members.toList := by
  apply List.filter_eq_self.mpr
  intro member listed
  rcases wellFormed.consistent.member_live found (ExtTreeSet.mem_toList.mp listed) with
    ⟨client, stored, _⟩
  have nonnegative := wellFormed.descriptors member client stored
  have present : member ≠ -1 := by omega
  simpa using present

theorem NoNewChannel.of_eq (same : after.channels = before.channels) :
    before.NoNewChannel after := by
  intro key present
  rwa [same] at present

theorem NoNewChannel.trans (first : before.NoNewChannel between)
    (second : between.NoNewChannel after) : before.NoNewChannel after :=
  fun key present => first key (second key present)

theorem NoNewChannel.namesValid (old : before.NoNewChannel after) (valid : before.NamesValid) :
    after.NamesValid := by
  intro key channel found
  rcases Option.isSome_iff_exists.mp (old key (by simp [found])) with ⟨earlier, foundEarlier⟩
  exact valid key earlier foundEarlier

end Core

theorem LeaveEffect.noNewChannel {fd : Int} {before after : Core}
    (effect : LeaveEffect fd before after) : before.NoNewChannel after := by
  cases effect with
  | @leave client channel key _ foundChannel _ =>
      intro other present
      rw [Core.leave_channels] at present
      split at present
      next same => simp [same, foundChannel]
      · exact present

theorem LeaveEffect.chain_noNewChannel {fd : Int} {before after : Core}
    (chain : ReflTransGen (LeaveEffect fd) before after) : before.NoNewChannel after := by
  induction chain with
  | refl => exact Core.NoNewChannel.of_eq rfl
  | tail _ effect ih => exact ih.trans effect.noNewChannel

theorem DisconnectEffect.noNewChannel {fd : Int} {before after : Core}
    (effect : DisconnectEffect fd before after) : before.NoNewChannel after := by
  cases effect with
  | absent _ => exact Core.NoNewChannel.of_eq rfl
  | @closed client left _ departures _ =>
      refine (LeaveEffect.chain_noNewChannel departures).trans ?_
      intro key present
      rwa [Core.remove_channels, Option.isSome_map] at present

namespace Server

variable {server : Server} {fd : Int} {client : Client}

/-! ## The commands that registration is about -/

theorem channels_tryRegisterClient (found : server.findClientByFd fd = some client) :
    (server.tryRegisterClient fd).core.channels = server.core.channels := by
  rw [core_tryRegisterClient found]
  rfl

theorem channels_handlePass (found : server.findClientByFd fd = some client) (message : Message) :
    (server.handlePass fd message).core.channels = server.core.channels := by
  simp only [handlePass, found]
  split
  · rw [core_requireParams]
  · split
    · rw [core_queueToClient]
    · rw [channels_tryRegisterClient (findClientByFd_updateClient _ found),
        core_updateClient server fd _ found]
      rfl

theorem channels_handleUser (found : server.findClientByFd fd = some client) (message : Message) :
    (server.handleUser fd message).core.channels = server.core.channels := by
  simp only [handleUser, found]
  split
  · rw [core_queueToClient]
  · split
    · split
      · rw [core_queueToClient]
      · rw [channels_tryRegisterClient (findClientByFd_updateClient _ found),
          core_updateClient server fd _ found]
        rfl
    · rw [core_requireParams]

theorem channels_handleNick (found : server.findClientByFd fd = some client) (message : Message) :
    (server.handleNick fd message).core.channels = server.core.channels := by
  simp only [handleNick, found]
  split
  · rw [core_queueToClient]
  · split
    · rw [core_queueToClient]
    · split
      · rw [core_queueToClient]
      next nickname _ _ _ _ =>
        have renamed : (server.renameClient fd client nickname).core.channels =
            server.core.channels := by
          rw [core_renameClient found]
          rfl
        split
        · rw [core_broadcastToSharedChannels, core_queueToClient, renamed]
        · rw [channels_tryRegisterClient (find_renameClient found nickname), renamed]

/-! ## The invariant of the names -/

theorem namesValid_of_same {after : Server} (same : SameRecords server after)
    (valid : server.core.NamesValid) : after.core.NamesValid := by
  intro key channel foundChannel
  have listed : key ∈ after.channels := by
    rw [ExtTreeMap.mem_iff_isSome_getElem?]
    exact Option.isSome_of_eq_some foundChannel
  rcases same.keys key listed with earlier | new
  · rw [ExtTreeMap.mem_iff_isSome_getElem?] at earlier
    rcases Option.isSome_iff_exists.mp earlier with ⟨old, foundOld⟩
    exact valid key old foundOld
  · exact new

theorem dispatchCommand_namesValid (consistent : server.core.Consistent)
    (valid : server.core.NamesValid) (fd : Int) (message : Message) :
    (server.dispatchCommand fd message).core.NamesValid := by
  cases found : server.findClientByFd fd with
  | none =>
      simp only [dispatchCommand, found]
      exact valid
  | some client =>
      have happened := dispatchCommand_case consistent found message
      generalize server.dispatchCommand fd message = after at happened
      cases happened with
      | told tells _ => exact namesValid_of_same tells.same valid
      | pass _ _ => exact (Core.NoNewChannel.of_eq (channels_handlePass found _)).namesValid valid
      | nick _ => exact (Core.NoNewChannel.of_eq (channels_handleNick found _)).namesValid valid
      | user _ _ => exact (Core.NoNewChannel.of_eq (channels_handleUser found _)).namesValid valid

theorem advance_namesValid (consistent : server.core.Consistent)
    (valid : server.core.NamesValid) {step : ServerStep} (ready : server.ready step = true) :
    (server.advance step).core.NamesValid := by
  cases step with
  | accept fd peerAddress =>
      change (server.acceptClient _).core.NamesValid
      rw [core_acceptClient (core_clients_of_ready ready)]
      exact valid
  | receive fd data =>
      change (server.updateClient fd _).core.NamesValid
      rwa [core_appendReceiveBuffer]
  | consume fd length =>
      change (server.updateClient fd _).core.NamesValid
      rwa [core_eraseReceivePrefix]
  | command fd message => exact @dispatchCommand_namesValid (server.record _) consistent valid _ _
  | refuse fd error =>
      change (server.queueToClient fd _).core.NamesValid
      rwa [core_queueToClient]
  | reserve fd => exact valid
  | flush fd sent =>
      change (server.flushSendBuffer fd sent).core.NamesValid
      rwa [core_flushSendBuffer]
  | takeReservations => exact valid
  | disconnect fd reason =>
      exact (disconnectClient_effect consistent fd reason).noNewChannel.namesValid valid

theorem step_reachable_namesValid (reached : stepSystem.Reachable server) :
    server.core.NamesValid := by
  refine reached.invariant (fun server => server.core.NamesValid) ?_ ?_
  · rintro _ ⟨password, serverStartTime, listenFd, rfl⟩
    intro key channel found
    rw [core_fresh] at found
    simp at found
  · rintro before step _ reached valid ⟨ready, rfl⟩
    exact advance_namesValid (step_reachable_consistent reached) valid ready

/-! ## The invariant of the descriptors -/

theorem step_reachable_nonnegative (reached : stepSystem.Reachable server) :
    server.core.Nonnegative := by
  refine reached.invariant (fun server => server.core.Nonnegative) ?_ ?_
  · rintro _ ⟨password, serverStartTime, listenFd, rfl⟩ fd client found
    rw [core_fresh] at found
    simp at found
  · rintro before step _ reached nonnegative ⟨ready, rfl⟩ fd stored foundStored
    rcases exists_find_of_core_clients _ fd foundStored with ⟨next, foundNext, _⟩
    rcases account_advance (step_reachable_consistent reached) ready foundNext with
      ⟨peerAddress, rfl, _⟩ | ⟨client, found, _⟩
    · have enabled : before.ready (.accept fd peerAddress) = true := ready
      simp only [Server.ready, Bool.and_eq_true, decide_eq_true_eq] at enabled
      exact enabled.1.2
    · exact nonnegative fd _ (core_clients_of_find before fd found)

theorem nonnegative_of_same {after : Server} (same : SameRecords server after)
    (nonnegative : server.core.Nonnegative) : after.core.Nonnegative := by
  intro fd stored foundStored
  rcases exists_find_of_core_clients after fd foundStored with ⟨next, foundNext, _⟩
  rcases same.exists_before foundNext with ⟨client, found, _⟩
  exact nonnegative fd _ (core_clients_of_find server fd found)

theorem wellFormed_of_same {after : Server} (same : SameRecords server after)
    (consistent : after.core.Consistent) (wellFormed : server.core.WellFormed) :
    after.core.WellFormed :=
  ⟨consistent, namesValid_of_same same wellFormed.names,
    nonnegative_of_same same wellFormed.descriptors⟩

theorem step_reachable_wellFormed (reached : stepSystem.Reachable server) :
    server.core.WellFormed :=
  ⟨step_reachable_consistent reached, step_reachable_namesValid reached,
    step_reachable_nonnegative reached⟩

/-- The invariants that the laws about one message rest on. -/
structure Invariants (server : Server) : Prop where
  wellFormed : server.core.WellFormed
  named : server.core.Named
  serverName : server.serverName = ascii "ircserv.local"

theorem step_reachable_invariants (reached : stepSystem.Reachable server) :
    server.Invariants :=
  ⟨step_reachable_wellFormed reached, step_reachable_named reached,
    step_reachable_serverName reached⟩

namespace Invariants

variable (invariants : server.Invariants)
include invariants

/-- The history is no part of them. -/
theorem record (event : HistoryEvent) : (server.record event).Invariants :=
  ⟨invariants.wellFormed, invariants.named, invariants.serverName⟩

theorem nickname_valid (found : server.findClientByFd fd = some client)
    (given : client.nickname ≠ []) : IrcUtil.isValidNickname client.nickname = true :=
  (nicknameIndex_of_named invariants.named).nickname_valid fd client found given

end Invariants

end Server

end IrcPlatform.Irc
