import IrcPlatform.Irc.HandlerEffects

/-!
# The effect of a disconnection

`disconnectClient` takes the client out of its channels one by one, drops its
nickname and erases it. On the core this is a sequence of departures followed by
the removal of a client that is in no channel.
-/

namespace IrcPlatform.Irc

open Std Relation

/-- What `disconnectClient` does to the core. -/
inductive DisconnectEffect (fd : Int) (core : Core) : Core → Prop where
  | absent (missing : core.clients fd = none) : DisconnectEffect fd core core
  | closed {client : Client} {left : Core} (found : core.clients fd = some client)
      (departures : ReflTransGen (LeaveEffect fd) core left)
      (noChannel : ∀ key, ¬left.HasJoined fd key) :
      DisconnectEffect fd core ((left.unname client.nickname).remove fd)

theorem DisconnectEffect.consistent {fd : Int} {before after : Core}
    (effect : DisconnectEffect fd before after) (consistent : before.Consistent) :
    after.Consistent := by
  cases effect with
  | absent _ => exact consistent
  | @closed client left _ departures noChannel =>
      have kept := LeaveEffect.chain_consistent departures consistent
      have unnamed : (left.unname client.nickname).Consistent := kept.of_nicks rfl rfl
      exact unnamed.remove noChannel

namespace Server

variable {server : Server} {fd : Int} {client : Client}

/-- A channel the client has joined is left like by PART: the client is in no invite set
of it, so that forgetting the invite changes nothing. -/
theorem core_removeFromChannel (consistent : server.core.Consistent)
    (found : server.findClientByFd fd = some client) {key : Bytes}
    (joined : key ∈ client.joinedChannels) :
    ∃ channel, server.core.channels key = some channel ∧ fd ∈ channel.members ∧
      (removeFromChannel fd server key).core =
        server.core.leave fd key client.withoutBuffers channel := by
  obtain ⟨channel, stored, member⟩ :=
    consistent.joined_live (core_clients_of_find server fd found) joined
  refine ⟨channel, stored, member, ?_⟩
  have normalized := consistent.normalize_key stored
  have foundChannel : server.findChannel key = some channel := by
    rw [← core_channels_of_find, normalized]
    exact stored
  have notInvited : fd ∉ channel.invited := fun invited =>
    consistent.invited_not_member key channel fd stored invited member
  have forgotten : channel.removeMember fd = (channel.removeMember fd).removeInvite fd := by
    have same : channel.invited.erase fd = channel.invited := by
      apply ExtTreeSet.ext_mem
      intro other
      simp only [ExtTreeSet.mem_erase, ne_eq, LawfulEqOrd.compare_eq_iff_eq]
      exact ⟨And.right, fun invited => ⟨fun same => notInvited (same ▸ invited), invited⟩⟩
    unfold Channel.removeInvite
    rw [Channel.removeMember_invited, same]
    rfl
  unfold removeFromChannel
  rw [foundChannel]
  exact core_departure (·.removeMember fd) found foundChannel
    (consistent.keyName key channel stored) normalized forgotten

/-- The loop over the joined channels leaves all of them. -/
theorem foldl_removeFromChannel (keys : List Bytes) (consistent : server.core.Consistent)
    (found : server.findClientByFd fd = some client)
    (joined : ∀ key, key ∈ client.joinedChannels ↔ key ∈ keys) (nodup : keys.Nodup) :
    ReflTransGen (LeaveEffect fd) server.core
        (keys.foldl (removeFromChannel fd) server).core ∧
      ∀ key, ¬(keys.foldl (removeFromChannel fd) server).core.HasJoined fd key := by
  induction keys generalizing server client with
  | nil =>
      refine ⟨ReflTransGen.refl, ?_⟩
      rintro key ⟨stored, foundStored, member⟩
      rw [List.foldl_nil, core_clients_of_find server fd found, Option.some.injEq] at foundStored
      subst foundStored
      exact absurd ((joined key).mp member) List.not_mem_nil
  | cons key keys ih =>
      have here : key ∈ client.joinedChannels := (joined key).mpr List.mem_cons_self
      rcases core_removeFromChannel consistent found here with ⟨channel, stored, member, left⟩
      have effect : LeaveEffect fd server.core (removeFromChannel fd server key).core := by
        rw [left]
        exact LeaveEffect.leave (core_clients_of_find server fd found) stored member
      have foundNext : (removeFromChannel fd server key).core.clients fd =
          some (client.withoutBuffers.removeJoinedChannel key) := by
        rw [left]
        simp
      rcases exists_find_of_core_clients _ fd foundNext with ⟨next, foundClient, same⟩
      have remaining : ∀ other, other ∈ next.joinedChannels ↔ other ∈ keys := by
        intro other
        have kept : next.joinedChannels = client.joinedChannels.erase key :=
          congrArg Client.joinedChannels same
        rw [kept, ExtTreeSet.mem_erase, joined other]
        simp only [ne_eq, LawfulEqOrd.compare_eq_iff_eq, List.mem_cons]
        have fresh := (List.nodup_cons.mp nodup).1
        grind
      obtain ⟨chain, none⟩ := ih (effect.consistent consistent) foundClient remaining
        (List.nodup_cons.mp nodup).2
      exact ⟨ReflTransGen.head effect chain, none⟩

theorem core_removeClientFromAllChannels (consistent : server.core.Consistent)
    (found : server.findClientByFd fd = some client) :
    ∃ left, ReflTransGen (LeaveEffect fd) server.core left ∧
      (∀ key, ¬left.HasJoined fd key) ∧
      (server.removeClientFromAllChannels fd).core =
        { left with channels := fun key => (left.channels key).map (·.removeInvite fd) } := by
  have nodup : client.joinedChannels.toList.Nodup :=
    client.joinedChannels.ordered_toList.imp fun before => by
      intro same
      subst same
      simp at before
  obtain ⟨chain, none⟩ := foldl_removeFromChannel client.joinedChannels.toList consistent found
    (fun key => ExtTreeSet.mem_toList.symm) nodup
  refine ⟨_, chain, none, ?_⟩
  unfold removeClientFromAllChannels
  rw [found]
  ext1
  · rfl
  · funext key
    simp [core]
  · rfl

theorem core_unregisterNickname (server : Server) (nickname : Bytes) :
    (if nickname.isEmpty then server else server.unregisterNickname nickname).core =
      server.core.unname nickname := by
  split
  next empty =>
    ext1
    · rfl
    · rfl
    · funext nick
      simp [Core.unname, List.isEmpty_iff.mp empty]
  next named =>
    ext1
    · rfl
    · rfl
    · funext nick
      have some : nickname ≠ [] := by simpa using named
      simp [core, Core.unname, unregisterNickname, some, ExtTreeMap.getElem?_erase,
        eq_comm (b := nick)]

/-- The erasure that ends a disconnection, seen on the core. -/
theorem core_eraseClient (server : Server) (fd : Int) :
    (server.eraseClient fd).core =
      { server.core with clients := Function.update server.core.clients fd none } := by
  ext1
  · funext other
    simp only [core, eraseClient, ExtTreeMap.getElem?_erase, LawfulEqOrd.compare_eq_iff_eq,
      Function.update_apply, eq_comm (a := other)]
    split <;> rfl
  · rfl
  · rfl

theorem disconnectClient_effect (consistent : server.core.Consistent) (fd : Int)
    (reason : Bytes) :
    DisconnectEffect fd server.core (server.disconnectClient fd reason).core := by
  unfold disconnectClient
  split
  next missing => exact DisconnectEffect.absent (core_clients_of_find_none server fd missing)
  next client found =>
    simp only
    generalize notified : server.broadcastToSharedChannels client (Reply.command
      (Reply.clientPrefix client) (ascii "QUIT") (ascii ":" ++ reason)) = after
    have sameCore : after.core = server.core := by
      rw [← notified, core_broadcastToSharedChannels]
    rcases find_eq_of_core_eq fd sameCore.symm found with ⟨kept, foundAfter, _⟩
    obtain ⟨left, departures, noChannel, core⟩ :=
      core_removeClientFromAllChannels (sameCore.symm ▸ consistent) foundAfter
    rw [sameCore] at departures
    have effect := DisconnectEffect.closed (core_clients_of_find server fd found)
      departures noChannel
    rw [core_eraseClient, core_removeClientPollFd, core_unregisterNickname, core]
    exact effect

theorem disconnectAll_consistent (order : List Int) (consistent : server.core.Consistent) :
    (disconnectAll order server).core.Consistent := by
  induction order generalizing server with
  | nil => exact consistent
  | cons fd rest ih =>
      exact ih ((disconnectClient_effect consistent fd _).consistent consistent)

end Server

end IrcPlatform.Irc
