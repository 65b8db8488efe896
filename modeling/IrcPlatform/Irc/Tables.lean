import IrcPlatform.Irc.CommandMail
import IrcPlatform.Irc.Steps

/-!
# The tables beside the client map

The poll entries and the saved quit reasons are keyed by descriptors as well.
No step leaves an entry for a descriptor that has no connection, so a new
connection never finds one.
-/

namespace IrcPlatform.Irc

open Std

/-- The tables gain no entry of a descriptor without a connection. -/
structure SameTables (before after : Server) : Prop where
  listenFd : after.listenFd = before.listenFd
  pollFds : after.pollFds.map (·.fd) = before.pollFds.map (·.fd)
  live (fd : Int) : (after.findClientByFd fd).isSome = (before.findClientByFd fd).isSome
  reasons (fd : Int) : fd ∈ after.disconnectReasons →
    fd ∈ before.disconnectReasons ∨ (before.findClientByFd fd).isSome = true

namespace Server

theorem map_fd_setPollEvents (fd : Int) (pollOut : Bool) (entries : List PollFd) :
    (setPollEvents fd pollOut entries).map (·.fd) = entries.map (·.fd) := by
  induction entries with
  | nil => rfl
  | cons entry rest ih =>
      simp only [setPollEvents]
      split
      · rfl
      · rw [List.map_cons, List.map_cons, ih]

theorem map_fd_updatePollEvents (server : Server) (fd : Int) :
    (server.updatePollEvents fd).pollFds.map (·.fd) = server.pollFds.map (·.fd) := by
  simp only [updatePollEvents]
  split
  · rfl
  · exact map_fd_setPollEvents _ _ _

theorem map_fd_queueToClient (server : Server) (fd : Int) (message : Bytes) :
    (server.queueToClient fd message).pollFds.map (·.fd) = server.pollFds.map (·.fd) := by
  simp only [queueToClient]
  split
  · rfl
  · split
    · rfl
    · exact map_fd_updatePollEvents _ _

end Server

theorem Write.pollFds {before after : Server} (write : Write before after) :
    after.pollFds.map (·.fd) = before.pollFds.map (·.fd) := by
  cases write with
  | queue fd message => exact before.map_fd_queueToClient fd message
  | reserve _ => rfl
  | client _ _ => rfl
  | tables _ _ _ same => rw [same]

theorem Writes.pollFds {before after : Server} (writes : Writes before after) :
    after.pollFds.map (·.fd) = before.pollFds.map (·.fd) := by
  induction writes with
  | refl => rfl
  | tail _ write ih => exact write.pollFds.trans ih

/-- The tables after writes that save no reason. -/
theorem Writes.sameTables {before after : Server} (writes : Writes before after)
    (reasons : ∀ fd, fd ∈ after.disconnectReasons →
      fd ∈ before.disconnectReasons ∨ (before.findClientByFd fd).isSome = true) :
    SameTables before after :=
  ⟨writes.kept.listenFd, writes.pollFds, writes.kept.live, reasons⟩

namespace SameTables

theorem refl (server : Server) : SameTables server server :=
  ⟨rfl, rfl, fun _ => rfl, fun _ => Or.inl⟩

theorem trans {before between after : Server} (first : SameTables before between)
    (second : SameTables between after) : SameTables before after where
  listenFd := second.listenFd.trans first.listenFd
  pollFds := second.pollFds.trans first.pollFds
  live fd := (second.live fd).trans (first.live fd)
  reasons fd reason := by
    rcases second.reasons fd reason with earlier | live
    · exact first.reasons fd earlier
    · exact Or.inr (first.live fd ▸ live)

theorem record (server : Server) (event : HistoryEvent) :
    SameTables server (server.record event) :=
  ⟨rfl, rfl, fun _ => rfl, fun _ => Or.inl⟩

theorem updateClient (server : Server) (fd : Int) (change : Client → Client) :
    SameTables server (server.updateClient fd change) where
  listenFd := rfl
  pollFds := rfl
  live other := by
    rw [Server.findClientByFd_updateClient_eq]
    split
    next same => simp [same]
    · rfl
  reasons _ := Or.inl

theorem queueToClient (server : Server) (fd : Int) (message : Bytes) :
    SameTables server (server.queueToClient fd message) := by
  apply ((Writes.refl server).queue fd message).sameTables
  intro other reason
  rw [Server.disconnectReasons_queueToClient] at reason
  exact Or.inl reason

theorem updatePollEvents (server : Server) (fd : Int) :
    SameTables server (server.updatePollEvents fd) := by
  refine ⟨?_, server.map_fd_updatePollEvents fd, ?_, ?_⟩
  · simp only [Server.updatePollEvents]
    split
    · rfl
    · rfl
  · intro other
    rw [Server.findClientByFd_updatePollEvents]
  · intro other reason
    simp only [Server.updatePollEvents] at reason
    split at reason
    · exact Or.inl reason
    · exact Or.inl reason

end SameTables

namespace Server

variable {server : Server} {fd : Int} {client : Client}

theorem disconnectReasons_tryRegisterClient (server : Server) (fd : Int) :
    (server.tryRegisterClient fd).disconnectReasons = server.disconnectReasons := by
  simp only [tryRegisterClient]
  split
  · rfl
  · split
    · simp only [sendWelcomeSequence, disconnectReasons_queueToClient]
      rfl
    · rfl

theorem disconnectReasons_requireParams (server : Server) (fd : Int) (message : Message)
    (count : Nat) :
    (server.requireParams fd message count).2.disconnectReasons = server.disconnectReasons := by
  simp only [requireParams]
  split
  · rfl
  · split
    · rfl
    · exact disconnectReasons_queueToClient _ _ _

theorem disconnectReasons_handlePass (server : Server) (fd : Int) (message : Message) :
    (server.handlePass fd message).disconnectReasons = server.disconnectReasons := by
  simp only [handlePass]
  split
  · rfl
  · split
    · exact disconnectReasons_requireParams _ _ _ _
    · split
      · exact disconnectReasons_queueToClient _ _ _
      · exact disconnectReasons_tryRegisterClient _ _

theorem disconnectReasons_handleUser (server : Server) (fd : Int) (message : Message) :
    (server.handleUser fd message).disconnectReasons = server.disconnectReasons := by
  simp only [handleUser]
  split
  · rfl
  · split
    · exact disconnectReasons_queueToClient _ _ _
    · split
      · split
        · exact disconnectReasons_queueToClient _ _ _
        · exact disconnectReasons_tryRegisterClient _ _
      · exact disconnectReasons_requireParams _ _ _ _

theorem disconnectReasons_renameClient (server : Server) (fd : Int) (client : Client)
    (nickname : Bytes) :
    (server.renameClient fd client nickname).disconnectReasons = server.disconnectReasons := by
  simp only [renameClient]
  split
  · rfl
  · rfl

theorem disconnectReasons_handleNick (server : Server) (fd : Int) (message : Message) :
    (server.handleNick fd message).disconnectReasons = server.disconnectReasons := by
  simp only [handleNick]
  split
  · rfl
  · split
    · exact disconnectReasons_queueToClient _ _ _
    · split
      · exact disconnectReasons_queueToClient _ _ _
      · split
        · exact disconnectReasons_queueToClient _ _ _
        · split
          · rw [broadcastToSharedChannels, disconnectReasons_queueToAll,
              disconnectReasons_queueToClient, disconnectReasons_renameClient]
          · rw [disconnectReasons_tryRegisterClient, disconnectReasons_renameClient]

/-- Only the sender can save a reason, and it is live. -/
theorem dispatchCommand_sameTables (consistent : server.core.Consistent) (fd : Int)
    (message : Message) : SameTables server (server.dispatchCommand fd message) := by
  apply (dispatchCommand_writes server fd message).sameTables
  intro other reason
  cases found : server.findClientByFd fd with
  | none =>
      simp only [dispatchCommand, found] at reason
      exact Or.inl reason
  | some client =>
      have happened := dispatchCommand_case consistent found message
      generalize server.dispatchCommand fd message = after at happened reason
      cases happened with
      | told tells _ => exact tells.same.reasons other reason
      | pass _ _ => exact Or.inl (disconnectReasons_handlePass server fd message ▸ reason)
      | nick _ => exact Or.inl (disconnectReasons_handleNick server fd message ▸ reason)
      | user _ _ => exact Or.inl (disconnectReasons_handleUser server fd message ▸ reason)

theorem findClientByFd_of_core (server : Server) (fd : Int) :
    server.core.clients fd = none ↔ server.findClientByFd fd = none := by
  simp [core, findClientByFd]

/-! ## The invariant -/

/-- The tables hold one poll entry for each connection and for the listening socket, and
reasons of connections only. -/
structure TablesLive (server : Server) : Prop where
  poll_distinct : (server.pollFds.map (·.fd)).Nodup
  poll_live (fd : Int) : fd ∈ server.pollFds.map (·.fd) → fd ≠ server.listenFd →
    (server.findClientByFd fd).isSome = true
  reason_live (fd : Int) : fd ∈ server.disconnectReasons →
    (server.findClientByFd fd).isSome = true

theorem TablesLive.of_same {before after : Server} (same : SameTables before after)
    (tables : before.TablesLive) : after.TablesLive where
  poll_distinct := same.pollFds ▸ tables.poll_distinct
  poll_live fd listed other := by
    rw [same.pollFds] at listed
    rw [same.listenFd] at other
    rw [same.live]
    exact tables.poll_live fd listed other
  reason_live fd reason := by
    rw [same.live]
    rcases same.reasons fd reason with earlier | live
    · exact tables.reason_live fd earlier
    · exact live

/-! ## The invariant along the steps -/

theorem TablesLive.accept {peerAddress : Bytes} (tables : server.TablesLive)
    (ready : server.ready (.accept fd peerAddress) = true) :
    (server.acceptClient (some (fd, peerAddress))).TablesLive := by
  simp only [Server.ready, Bool.and_eq_true, Bool.not_eq_true', bne_iff_ne, ne_eq] at ready
  rcases ready with ⟨⟨absent, _⟩, notListening⟩
  have missing : server.findClientByFd fd = none := by
    rwa [ExtTreeMap.contains_eq_isSome_getElem?, Option.isSome_eq_false_iff,
      Option.isNone_iff_eq_none] at absent
  have unlisted : fd ∉ server.pollFds.map (·.fd) := by
    intro listed
    have live := tables.poll_live fd listed notListening
    simp [missing] at live
  have others : ∀ other, (server.findClientByFd other).isSome = true →
      ((server.acceptClient (some (fd, peerAddress))).findClientByFd other).isSome = true := by
    intro other live
    simp only [acceptClient, addClient, absent, Bool.false_eq_true, if_false, Bool.not_true,
      addClientPollFd, record, findClientByFd, ExtTreeMap.getElem?_insert]
    split
    · rfl
    · exact live
  have polls : (server.acceptClient (some (fd, peerAddress))).pollFds.map (·.fd) =
      server.pollFds.map (·.fd) ++ [fd] := by
    simp [acceptClient, addClient, absent, addClientPollFd, record]
  constructor
  case poll_distinct =>
    rw [polls, List.nodup_append]
    refine ⟨tables.poll_distinct, by simp, ?_⟩
    rintro other listed _ new rfl
    rw [List.mem_singleton.mp new] at listed
    exact unlisted listed
  case poll_live =>
    intro other listed otherNotListening
    rw [polls, List.mem_append, List.mem_singleton] at listed
    rcases listed with listed | rfl
    · apply others other
      apply tables.poll_live other listed
      simpa [acceptClient, addClient, absent, addClientPollFd, record] using otherNotListening
    · simp [acceptClient, addClient, absent, addClientPollFd, record, findClientByFd]
  case reason_live =>
    intro other reason
    apply others other
    apply tables.reason_live other
    simpa [acceptClient, addClient, absent, addClientPollFd, record] using reason

theorem removeClientFromAllChannels_writes {start : Server} (writes : Writes start server)
    (fd : Int) : Writes start (server.removeClientFromAllChannels fd) := by
  have folded : ∀ (keys : List Bytes) {server : Server}, Writes start server →
      Writes start (keys.foldl (removeFromChannel fd) server) := by
    intro keys
    induction keys with
    | nil => exact fun writes => writes
    | cons key keys ih =>
        intro server writes
        apply ih
        simp only [removeFromChannel]
        split
        · exact writes
        · apply Writes.deleteIfEmpty
          apply Writes.client
          · exact writes.channel _ _
          · exact fun _ => rfl
          · exact fun _ => rfl
  simp only [removeClientFromAllChannels]
  split
  · exact writes
  next client _ =>
    exact Relation.ReflTransGen.tail (folded client.joinedChannels.toList writes)
      (.tables _ _ _ rfl)

/-- A disconnection is a list of writes and then the removal of the entries of its client. -/
theorem disconnectClient_writes (found : server.findClientByFd fd = some client)
    (reason : Bytes) : ∃ left, Writes server left ∧
      left.disconnectReasons = server.disconnectReasons ∧
      server.disconnectClient fd reason = (left.removeClientPollFd fd).eraseClient fd := by
  simp only [disconnectClient, found]
  refine ⟨_, ?_, ?_, rfl⟩
  · have notified := (Writes.refl server).broadcastShared client (quitLine client reason)
    have removed := removeClientFromAllChannels_writes notified fd
    split
    · exact removed
    · exact Relation.ReflTransGen.tail removed (.tables _ _ _ rfl)
  · have removal := (removeClientFromAllChannels_onlyClient
      (server.broadcastToSharedChannels client (quitLine client reason)) fd).reasons
    rw [broadcastToSharedChannels, disconnectReasons_queueToAll] at removal
    split
    · exact removal
    · exact removal

/-- The entries that are left after a disconnection. -/
theorem map_fd_disconnectClient (found : server.findClientByFd fd = some client)
    (reason : Bytes) : (server.disconnectClient fd reason).pollFds.map (·.fd) =
      (server.pollFds.map (·.fd)).erase fd := by
  rcases disconnectClient_writes found reason with ⟨left, writes, _, same⟩
  rw [same, ← writes.pollFds, List.erase_eq_eraseP]
  simp only [eraseClient, removeClientPollFd, List.eraseP_map]
  congr 2
  funext entry
  exact Bool.beq_comm

theorem mem_disconnectReasons_disconnectClient (found : server.findClientByFd fd = some client)
    (reason : Bytes) (other : Int) :
    other ∈ (server.disconnectClient fd reason).disconnectReasons ↔
      other ≠ fd ∧ other ∈ server.disconnectReasons := by
  rcases disconnectClient_writes found reason with ⟨left, _, reasons, same⟩
  rw [same, ← reasons]
  simp [eraseClient, removeClientPollFd, eq_comm (a := fd)]

theorem TablesLive.disconnect (tables : server.TablesLive) (fd : Int) (reason : Bytes) :
    (server.disconnectClient fd reason).TablesLive := by
  cases found : server.findClientByFd fd with
  | none =>
      rw [disconnectClient_of_missing found]
      exact tables
  | some client =>
      have spec := disconnectClient_disconnected found reason
      have survives : ∀ other, other ≠ fd → (server.findClientByFd other).isSome = true →
          ((server.disconnectClient fd reason).findClientByFd other).isSome = true := by
        intro other distinct live
        rw [spec.others other distinct]
        split
        · rwa [Option.isSome_map]
        · exact live
      constructor
      case poll_distinct =>
        rw [map_fd_disconnectClient found]
        exact tables.poll_distinct.erase fd
      case poll_live =>
        intro other listed notListening
        rw [map_fd_disconnectClient found, tables.poll_distinct.mem_erase_iff] at listed
        rw [spec.listenFd] at notListening
        exact survives other listed.1 (tables.poll_live other listed.2 notListening)
      case reason_live =>
        intro other stored
        rw [mem_disconnectReasons_disconnectClient found] at stored
        exact survives other stored.1 (tables.reason_live other stored.2)

theorem flushSendBuffer_sameTables (server : Server) (fd : Int) (sent : Option Nat) :
    SameTables server (server.flushSendBuffer fd sent) := by
  simp only [flushSendBuffer]
  split
  · exact SameTables.refl server
  · split
    · exact SameTables.updatePollEvents server fd
    · split
      · exact ⟨rfl, rfl, fun _ => rfl, fun _ => Or.inl⟩
      · exact ((SameTables.record server _).trans (SameTables.updateClient _ fd _)).trans
          (SameTables.updatePollEvents _ fd)

theorem TablesLive.advance (tables : server.TablesLive) (consistent : server.core.Consistent)
    {step : ServerStep} (ready : server.ready step = true) :
    (server.advance step).TablesLive := by
  cases step with
  | accept fd peerAddress => exact tables.accept ready
  | receive fd data => exact tables.of_same (SameTables.updateClient server fd _)
  | consume fd length => exact tables.of_same (SameTables.updateClient server fd _)
  | command fd message =>
      apply tables.of_same
      exact (SameTables.record server _).trans
        (@dispatchCommand_sameTables (server.record _) consistent fd message)
  | refuse fd error => exact tables.of_same (SameTables.queueToClient server fd _)
  | reserve fd => exact ⟨tables.poll_distinct, tables.poll_live, tables.reason_live⟩
  | flush fd sent => exact tables.of_same (flushSendBuffer_sameTables server fd sent)
  | takeReservations => exact ⟨tables.poll_distinct, tables.poll_live, tables.reason_live⟩
  | disconnect fd reason => exact tables.disconnect fd reason

theorem step_reachable_tablesLive (reached : stepSystem.Reachable server) :
    server.TablesLive := by
  refine reached.invariant TablesLive ?_ ?_
  · rintro _ ⟨password, serverStartTime, listenFd, rfl⟩
    constructor <;> simp [fresh]
  · rintro before step _ reached tables ⟨ready, rfl⟩
    exact tables.advance (step_reachable_consistent reached) ready

end Server

end IrcPlatform.Irc
