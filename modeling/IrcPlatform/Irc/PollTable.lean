import IrcPlatform.Irc.Tables

/-!
# The poll table

`_pollFds` caches what `poll` has to watch. Its entries are those of the listening
socket and of the connections, one each, and the entry of a connection asks for
output exactly while its send buffer holds something. Only `updatePollEvents` writes
the mask, so each change of a send buffer is followed by it.
-/

namespace IrcPlatform.Irc

open Std

namespace Server

variable {server : Server} {fd : Int} {client : Client}

/-- The mask of an entry is the one its client needs. -/
def Interested (server : Server) (entry : PollFd) : Prop :=
  ∀ client, server.findClientByFd entry.fd = some client →
    entry.pollIn = true ∧ entry.pollOut = client.hasPendingOutput

/-- What `_pollFds` and the send buffers satisfy after every step. -/
structure Polled (server : Server) : Prop where
  distinct : (server.pollFds.map (·.fd)).Nodup
  socket : server.listenFd ∈ server.pollFds.map (·.fd)
  socket_apart : server.findClientByFd server.listenFd = none
  listed (fd : Int) : (server.findClientByFd fd).isSome = true →
    fd ∈ server.pollFds.map (·.fd)
  interested : ∀ entry ∈ server.pollFds, server.Interested entry
  bounded (fd : Int) (client : Client) : server.findClientByFd fd = some client →
    client.sendBuffer.length ≤ maxSendBuffer

/-! ## The mask after `updatePollEvents` -/

theorem mem_setPollEvents {pollOut : Bool} {entries : List PollFd} {entry : PollFd}
    (distinct : (entries.map (·.fd)).Nodup)
    (listed : entry ∈ setPollEvents fd pollOut entries) :
    entry ∈ entries ∧ entry.fd ≠ fd ∨ entry = { fd := fd, pollOut := pollOut } := by
  induction entries with
  | nil => simp [setPollEvents] at listed
  | cons first rest ih =>
      rw [List.map_cons, List.nodup_cons] at distinct
      rcases distinct with ⟨fresh, distinct⟩
      by_cases same : first.fd = fd
      · simp only [setPollEvents, same, beq_self_eq_true, if_true] at listed
        rcases List.mem_cons.mp listed with rfl | later
        · exact Or.inr rfl
        · left
          refine ⟨List.mem_cons_of_mem first later, ?_⟩
          intro sameLater
          apply fresh
          rw [same, ← sameLater]
          exact List.mem_map_of_mem later
      · simp only [setPollEvents, beq_eq_false_iff_ne.mpr same, Bool.false_eq_true,
          if_false] at listed
        rcases List.mem_cons.mp listed with rfl | later
        · exact Or.inl ⟨List.mem_cons_self, same⟩
        · rcases ih distinct later with ⟨kept, apart⟩ | written
          · exact Or.inl ⟨List.mem_cons_of_mem first kept, apart⟩
          · exact Or.inr written

/-- The call makes the entry of its descriptor fit, and keeps the others. -/
theorem interested_updatePollEvents (distinct : (server.pollFds.map (·.fd)).Nodup)
    (others : ∀ entry ∈ server.pollFds, entry.fd ≠ fd → server.Interested entry) :
    ∀ entry ∈ (server.updatePollEvents fd).pollFds,
      (server.updatePollEvents fd).Interested entry := by
  intro entry listed client found
  rw [findClientByFd_updatePollEvents] at found
  cases foundSelf : server.findClientByFd fd with
  | none =>
      simp only [updatePollEvents, foundSelf] at listed
      apply others entry listed ?_ client found
      rintro rfl
      rw [foundSelf] at found
      simp at found
  | some self =>
      simp only [updatePollEvents, foundSelf] at listed
      rcases mem_setPollEvents distinct listed with ⟨kept, apart⟩ | rfl
      · exact others entry kept apart client found
      · rw [foundSelf, Option.some.injEq] at found
        exact ⟨rfl, found ▸ rfl⟩

/-! ## The invariant along the writes -/

/-- A change of one record that is followed by `updatePollEvents`. -/
theorem Polled.refresh (polled : server.Polled) {change : Client → Client}
    (fits : ∀ client, server.findClientByFd fd = some client →
      (change client).sendBuffer.length ≤ maxSendBuffer) :
    ((server.updateClient fd change).updatePollEvents fd).Polled := by
  have entries : ((server.updateClient fd change).updatePollEvents fd).pollFds.map (·.fd) =
      server.pollFds.map (·.fd) := map_fd_updatePollEvents (server.updateClient fd change) fd
  have socket : ((server.updateClient fd change).updatePollEvents fd).listenFd =
      server.listenFd := (SameTables.updatePollEvents _ fd).listenFd
  have lookup : ∀ other, ((server.updateClient fd change).updatePollEvents fd).findClientByFd
      other = if other = fd then (server.findClientByFd fd).map change
        else server.findClientByFd other := by
    intro other
    rw [findClientByFd_updatePollEvents, findClientByFd_updateClient_eq]
  constructor
  case distinct => exact entries ▸ polled.distinct
  case socket =>
    rw [entries, socket]
    exact polled.socket
  case socket_apart =>
    rw [socket, lookup]
    split
    next same => rw [← same, polled.socket_apart, Option.map_none]
    · exact polled.socket_apart
  case listed =>
    intro other live
    rw [entries]
    apply polled.listed
    rw [lookup] at live
    split at live
    next same =>
      rw [Option.isSome_map] at live
      rwa [same]
    · exact live
  case interested =>
    have distinct : ((server.updateClient fd change).pollFds.map (·.fd)).Nodup :=
      polled.distinct
    apply interested_updatePollEvents distinct
    intro entry listed apart client found
    rw [findClientByFd_updateClient_eq, if_neg apart] at found
    exact polled.interested entry listed client found
  case bounded =>
    intro other client found
    rw [lookup] at found
    split at found
    · rcases Option.map_eq_some_iff.mp found with ⟨earlier, foundEarlier, rfl⟩
      exact fits earlier foundEarlier
    · exact polled.bounded other client found

/-- A change of the state that keeps the entries and the send buffers. -/
theorem Polled.of_buffers {after : Server} (polled : server.Polled)
    (pollFds : after.pollFds = server.pollFds) (listenFd : after.listenFd = server.listenFd)
    (buffers : ∀ fd, (after.findClientByFd fd).map (·.sendBuffer) =
      (server.findClientByFd fd).map (·.sendBuffer)) : after.Polled := by
  have live : ∀ fd, (after.findClientByFd fd).isSome = (server.findClientByFd fd).isSome := by
    intro fd
    have same := congrArg Option.isSome (buffers fd)
    rwa [Option.isSome_map, Option.isSome_map] at same
  have earlier : ∀ fd client, after.findClientByFd fd = some client →
      ∃ before, server.findClientByFd fd = some before ∧
        before.sendBuffer = client.sendBuffer := by
    intro fd client found
    have same := buffers fd
    rw [found, Option.map_some, eq_comm] at same
    exact Option.map_eq_some_iff.mp same
  constructor
  case distinct => exact pollFds ▸ polled.distinct
  case socket =>
    rw [pollFds, listenFd]
    exact polled.socket
  case socket_apart =>
    rw [listenFd, ← Option.not_isSome_iff_eq_none, live, Option.not_isSome_iff_eq_none]
    exact polled.socket_apart
  case listed =>
    intro fd isLive
    rw [pollFds]
    apply polled.listed
    rwa [live] at isLive
  case interested =>
    intro entry listed client found
    rw [pollFds] at listed
    rcases earlier entry.fd client found with ⟨before, foundBefore, same⟩
    have fits := polled.interested entry listed before foundBefore
    rwa [Client.hasPendingOutput, same] at fits
  case bounded =>
    intro fd client found
    rcases earlier fd client found with ⟨before, foundBefore, same⟩
    rw [← same]
    exact polled.bounded fd before foundBefore

theorem Polled.updateClient (polled : server.Polled) {change : Client → Client}
    (send : ∀ client, server.findClientByFd fd = some client →
      (change client).sendBuffer = client.sendBuffer) :
    (server.updateClient fd change).Polled := by
  refine polled.of_buffers ?_ ?_ ?_
  · rfl
  · rfl
  · intro other
    exact congrFun (congrArg Mail.buffers (mail_updateClient server fd send)) other

theorem Polled.queueToClient (polled : server.Polled) (fd : Int) (message : Bytes) :
    (server.queueToClient fd message).Polled := by
  simp only [Server.queueToClient]
  split
  · exact polled
  next client found =>
    split
    · exact polled.of_buffers rfl rfl fun _ => rfl
    next room =>
      have recorded : (server.record (.queued fd message true)).Polled :=
        polled.of_buffers rfl rfl fun _ => rfl
      apply recorded.refresh
      intro stored foundStored
      rw [findClientByFd_record, found, Option.some.injEq] at foundStored
      simp only [Client.appendSendBuffer, List.length_append, ← foundStored]
      omega

theorem Polled.write {after : Server} (polled : server.Polled) (write : Write server after) :
    after.Polled := by
  cases write with
  | queue fd message => exact polled.queueToClient fd message
  | reserve found => exact polled.of_buffers rfl rfl fun _ => rfl
  | client receive send => exact polled.updateClient send
  | tables channels nickToFd reasons same =>
      subst same
      exact polled.of_buffers rfl rfl fun _ => rfl

theorem Polled.writes {after : Server} (polled : server.Polled) (writes : Writes server after) :
    after.Polled := by
  induction writes with
  | refl => exact polled
  | tail _ write ih => exact ih.write write

/-! ## The invariant along the steps -/

theorem Polled.accept {peerAddress : Bytes} (polled : server.Polled)
    (live : server.TablesLive) (ready : server.ready (.accept fd peerAddress) = true) :
    (server.acceptClient (some (fd, peerAddress))).Polled := by
  have absent : server.clients.contains fd = false := by
    simp only [Server.ready, Bool.and_eq_true, Bool.not_eq_true'] at ready
    exact ready.1.1
  have apart : fd ≠ server.listenFd := by
    simp only [Server.ready, Bool.and_eq_true, bne_iff_ne] at ready
    exact ready.2
  have tables := live.accept ready
  generalize accepting : server.acceptClient (some (fd, peerAddress)) = after at tables ⊢
  have listenFd : after.listenFd = server.listenFd := by
    simp [← accepting, acceptClient, addClient, absent, addClientPollFd, record]
  have entries : after.pollFds = server.pollFds ++ [{ fd := fd }] := by
    simp [← accepting, acceptClient, addClient, absent, addClientPollFd, record]
  have lookup : ∀ other, after.findClientByFd other =
      if other = fd then some { fd := fd, hostname := peerAddress }
      else server.findClientByFd other := by
    intro other
    simp only [← accepting, acceptClient, addClient, absent, Bool.false_eq_true, if_false,
      Bool.not_true, addClientPollFd, record, findClientByFd, ExtTreeMap.getElem?_insert,
      LawfulEqOrd.compare_eq_iff_eq, eq_comm (a := other)]
  constructor
  case distinct => exact tables.poll_distinct
  case socket =>
    rw [entries, listenFd, List.map_append]
    exact List.mem_append_left _ polled.socket
  case socket_apart =>
    rw [listenFd, lookup, if_neg (Ne.symm apart)]
    exact polled.socket_apart
  case listed =>
    intro other isLive
    rw [entries, List.map_append, List.mem_append]
    rw [lookup] at isLive
    split at isLive
    next same => exact Or.inr (by simp [same])
    · exact Or.inl (polled.listed other isLive)
  case interested =>
    intro entry listed client found
    rw [entries, List.mem_append, List.mem_singleton] at listed
    have unlisted : fd ∉ server.pollFds.map (·.fd) := by
      intro early
      have stored := live.poll_live fd early apart
      rw [ExtTreeMap.contains_eq_isSome_getElem?] at absent
      rw [findClientByFd, absent] at stored
      simp at stored
    rcases listed with early | rfl
    · have other : entry.fd ≠ fd := by
        rintro rfl
        exact unlisted (List.mem_map_of_mem early)
      rw [lookup, if_neg other] at found
      exact polled.interested entry early client found
    · rw [lookup, if_pos rfl, Option.some.injEq] at found
      subst found
      exact ⟨rfl, rfl⟩
  case bounded =>
    intro other client found
    rw [lookup] at found
    split at found
    · rw [Option.some.injEq] at found
      subst found
      exact Nat.zero_le _
    · exact polled.bounded other client found

/-- Removal of the poll entry and the record of one client. -/
theorem Polled.remove (polled : server.Polled) (apart : fd ≠ server.listenFd) :
    ((server.removeClientPollFd fd).eraseClient fd).Polled := by
  have entries : ((server.removeClientPollFd fd).eraseClient fd).pollFds.map (·.fd) =
      (server.pollFds.map (·.fd)).erase fd := by
    simp only [eraseClient, removeClientPollFd, List.erase_eq_eraseP, List.eraseP_map]
    congr 2
    funext entry
    exact Bool.beq_comm
  have lookup : ∀ other, ((server.removeClientPollFd fd).eraseClient fd).findClientByFd other =
      if other = fd then none else server.findClientByFd other := by
    intro other
    simp only [findClientByFd, eraseClient, removeClientPollFd, ExtTreeMap.getElem?_erase,
      LawfulEqOrd.compare_eq_iff_eq, eq_comm (a := other)]
  constructor
  case distinct =>
    rw [entries]
    exact polled.distinct.erase fd
  case socket =>
    rw [entries, polled.distinct.mem_erase_iff]
    exact ⟨Ne.symm apart, polled.socket⟩
  case socket_apart =>
    rw [lookup]
    split
    · rfl
    · exact polled.socket_apart
  case listed =>
    intro other live
    rw [lookup] at live
    split at live
    · simp at live
    next distinct =>
      rw [entries, polled.distinct.mem_erase_iff]
      exact ⟨distinct, polled.listed other live⟩
  case interested =>
    intro entry listed client found
    rw [lookup] at found
    split at found
    · simp at found
    · exact polled.interested entry (List.mem_of_mem_eraseP listed) client found
  case bounded =>
    intro other client found
    rw [lookup] at found
    split at found
    · simp at found
    · exact polled.bounded other client found

theorem Polled.disconnect (polled : server.Polled) (fd : Int) (reason : Bytes) :
    (server.disconnectClient fd reason).Polled := by
  cases found : server.findClientByFd fd with
  | none =>
      rw [disconnectClient_of_missing found]
      exact polled
  | some client =>
      rcases disconnectClient_writes found reason with ⟨left, writes, _, same⟩
      rw [same]
      apply (polled.writes writes).remove
      rintro rfl
      have gone := writes.kept.live left.listenFd
      rw [(polled.writes writes).socket_apart, found] at gone
      simp at gone

theorem Polled.flushSendBuffer (polled : server.Polled) (fd : Int) (sent : Option Nat) :
    (server.flushSendBuffer fd sent).Polled := by
  simp only [Server.flushSendBuffer]
  split
  · exact polled
  next client found =>
    split
    · have fits : ((server.updateClient fd id).updatePollEvents fd).Polled := by
        apply polled.refresh
        exact polled.bounded fd
      rwa [@updateClient_of_fixed server fd id fun _ _ => rfl] at fits
    · split
      · exact polled.of_buffers rfl rfl fun _ => rfl
      next count =>
        have recorded : (server.record (.sent fd (client.sendBuffer.take count))).Polled :=
          polled.of_buffers rfl rfl fun _ => rfl
        apply recorded.refresh
        intro stored foundStored
        have bound := polled.bounded fd stored foundStored
        simp only [Client.eraseSendPrefix, List.length_drop]
        omega

theorem Polled.advance (polled : server.Polled) (live : server.TablesLive) {step : ServerStep}
    (ready : server.ready step = true) : (server.advance step).Polled := by
  cases step with
  | accept fd peerAddress => exact polled.accept live ready
  | receive fd data => exact polled.updateClient fun _ _ => rfl
  | consume fd length => exact polled.updateClient fun _ _ => rfl
  | command fd message =>
      have recorded : (server.record (.dispatched fd
          (server.pendingDisconnects.contains fd))).Polled :=
        polled.of_buffers rfl rfl fun _ => rfl
      exact recorded.writes (dispatchCommand_writes _ fd message)
  | refuse fd error => exact polled.queueToClient fd _
  | reserve fd => exact polled.of_buffers rfl rfl fun _ => rfl
  | flush fd sent => exact polled.flushSendBuffer fd sent
  | takeReservations => exact polled.of_buffers rfl rfl fun _ => rfl
  | disconnect fd reason => exact polled.disconnect fd reason

theorem polled_fresh (password serverStartTime : Bytes) (listenFd : Int) :
    (fresh password serverStartTime listenFd).Polled := by
  have noClient : ∀ fd, (fresh password serverStartTime listenFd).findClientByFd fd = none := by
    intro fd
    simp [findClientByFd, fresh]
  constructor
  case distinct => simp [fresh]
  case socket => simp [fresh]
  case socket_apart => exact noClient _
  case listed =>
    intro fd live
    simp [noClient] at live
  case interested =>
    intro entry _ client found
    simp [noClient] at found
  case bounded =>
    intro fd client found
    simp [noClient] at found

theorem step_reachable_polled (reached : stepSystem.Reachable server) : server.Polled := by
  refine reached.invariant Polled ?_ ?_
  · rintro _ ⟨password, serverStartTime, listenFd, rfl⟩
    exact polled_fresh password serverStartTime listenFd
  · rintro before step _ reached polled ⟨ready, rfl⟩
    exact polled.advance (step_reachable_tablesLive reached) ready

/-! ## What `poll` watches -/

/-- The table watches the listening socket and the connections, each once, and asks for
output of a connection exactly while something waits to be sent to it. -/
structure WatchesAll (server : Server) : Prop where
  socket_once : (server.pollFds.map (·.fd)).count server.listenFd = 1
  client_once (fd : Int) (client : Client) : server.findClientByFd fd = some client →
    fd ≠ server.listenFd ∧ (server.pollFds.map (·.fd)).count fd = 1
  nothing_else : ∀ entry ∈ server.pollFds, entry.fd = server.listenFd ∨
    ∃ client, server.findClientByFd entry.fd = some client
  events : ∀ entry ∈ server.pollFds, ∀ client,
    server.findClientByFd entry.fd = some client →
      entry.pollIn = true ∧ (entry.pollOut = true ↔ client.sendBuffer ≠ [])
  bounded (fd : Int) (client : Client) : server.findClientByFd fd = some client →
    client.sendBuffer.length ≤ 1048576

theorem reachable_watchesAll (reached : stepSystem.Reachable server) : server.WatchesAll := by
  have polled := step_reachable_polled reached
  have live := step_reachable_tablesLive reached
  constructor
  case socket_once => rw [polled.distinct.count, if_pos polled.socket]
  case client_once =>
    intro fd client found
    constructor
    · rintro rfl
      rw [polled.socket_apart] at found
      simp at found
    · rw [polled.distinct.count, if_pos]
      apply polled.listed
      rw [found]
      rfl
  case nothing_else =>
    intro entry listed
    by_cases socket : entry.fd = server.listenFd
    · exact Or.inl socket
    · right
      apply Option.isSome_iff_exists.mp
      exact live.poll_live entry.fd (List.mem_map_of_mem listed) socket
  case events =>
    intro entry listed client found
    have fits := polled.interested entry listed client found
    refine ⟨fits.1, ?_⟩
    rw [fits.2, Client.hasPendingOutput, Bool.not_eq_true', List.isEmpty_eq_false_iff]
  case bounded => exact polled.bounded

theorem reachable_watchesAll_alicesRoom : alicesRoom.WatchesAll :=
  reachable_watchesAll reachable_alicesRoom

end Server

end IrcPlatform.Irc
