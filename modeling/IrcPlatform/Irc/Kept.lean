import IrcPlatform.Irc.Writes

/-!
# What commands keep

The frame of a command: descriptors stay live or dead, only live ones get
reserved, receive buffers stay, and the history only gains queued messages.
-/

namespace IrcPlatform.Irc

open Std Relation

/-- The frame conditions of a write, closed under composition. -/
structure Kept (before after : Server) : Prop where
  listenFd : after.listenFd = before.listenFd
  live (fd : Int) : (after.findClientByFd fd).isSome = (before.findClientByFd fd).isSome
  receiveBuffer (fd : Int) : (after.findClientByFd fd).map (·.receiveBuffer) =
    (before.findClientByFd fd).map (·.receiveBuffer)
  still_reserved (fd : Int) : fd ∈ before.pendingDisconnects → fd ∈ after.pendingDisconnects
  reserved_live (fd : Int) : fd ∈ after.pendingDisconnects →
    fd ∈ before.pendingDisconnects ∨ (before.findClientByFd fd).isSome
  history : ∃ added, after.history = before.history ++ added ∧
    ∀ event ∈ added, ∃ fd message appended, event = HistoryEvent.queued fd message appended

namespace Kept

variable {before between after : Server}

theorem refl (server : Server) : Kept server server :=
  ⟨rfl, fun _ => rfl, fun _ => rfl, fun _ => id, fun _ => Or.inl, [], by simp, by simp⟩

theorem trans (first : Kept before between) (second : Kept between after) : Kept before after where
  listenFd := second.listenFd.trans first.listenFd
  live fd := (second.live fd).trans (first.live fd)
  receiveBuffer fd := (second.receiveBuffer fd).trans (first.receiveBuffer fd)
  still_reserved fd := second.still_reserved fd ∘ first.still_reserved fd
  reserved_live fd reserved := by
    rcases second.reserved_live fd reserved with earlier | live
    · exact first.reserved_live fd earlier
    · exact Or.inr (first.live fd ▸ live)
  history := by
    rcases first.history with ⟨early, earlyHistory, earlyQueued⟩
    rcases second.history with ⟨late, lateHistory, lateQueued⟩
    refine ⟨early ++ late, by rw [lateHistory, earlyHistory, List.append_assoc], ?_⟩
    intro event listed
    rcases List.mem_append.mp listed with listed | listed
    · exact earlyQueued event listed
    · exact lateQueued event listed

end Kept

namespace Server

variable (server : Server) (fd : Int)

/-! ## The lookup after each write -/

@[simp] theorem findClientByFd_record (event : HistoryEvent) (other : Int) :
    (server.record event).findClientByFd other = server.findClientByFd other := rfl

@[simp] theorem findClientByFd_scheduleDisconnect (other : Int) :
    (server.scheduleDisconnect fd).findClientByFd other = server.findClientByFd other := rfl

@[simp] theorem findClientByFd_updatePollEvents (other : Int) :
    (server.updatePollEvents fd).findClientByFd other = server.findClientByFd other := by
  unfold updatePollEvents
  split
  · rfl
  · rfl

theorem findClientByFd_updateClient_eq (change : Client → Client) (other : Int) :
    (server.updateClient fd change).findClientByFd other =
      if other = fd then (server.findClientByFd fd).map change
      else server.findClientByFd other := by
  simp only [findClientByFd, updateClient, ExtTreeMap.getElem?_modify,
    LawfulEqOrd.compare_eq_iff_eq, eq_comm (a := other)]

theorem updateClient_updateClient (first second : Client → Client) :
    (server.updateClient fd first).updateClient fd second =
      server.updateClient fd fun client => second (first client) := by
  have same : (server.clients.modify fd first).modify fd second =
      server.clients.modify fd fun client => second (first client) := by
    apply ExtTreeMap.ext_getElem?
    intro other
    simp only [ExtTreeMap.getElem?_modify, LawfulEqOrd.compare_eq_iff_eq]
    split
    · rw [if_pos trivial, Option.map_map]
      rfl
    · rfl
  simp only [updateClient, same]

/-- A change that keeps the stored record keeps the state. -/
theorem updateClient_of_fixed {change : Client → Client}
    (fixed : ∀ client, server.findClientByFd fd = some client → change client = client) :
    server.updateClient fd change = server := by
  have same : server.clients.modify fd change = server.clients := by
    apply ExtTreeMap.ext_getElem?
    intro other
    rw [ExtTreeMap.getElem?_modify]
    split
    next equal =>
      rw [LawfulEqOrd.compare_eq_iff_eq] at equal
      subst equal
      cases found : server.clients[fd]? with
      | none => rfl
      | some client => rw [Option.map_some, fixed client found]
    · rfl
  simp only [updateClient, same]

/-- The send buffer has no room for a message. -/
def overflows (client : Client) (message : Bytes) : Bool :=
  maxSendBuffer < client.sendBuffer.length + (withCrlf message).length

/-- The record of a client to which a message was queued. -/
def deliver (message : Bytes) (client : Client) : Client :=
  if overflows client message then client else client.appendSendBuffer (withCrlf message)

theorem findClientByFd_queueToClient (message : Bytes) (other : Int) :
    (server.queueToClient fd message).findClientByFd other =
      if other = fd then (server.findClientByFd fd).map (deliver message)
      else server.findClientByFd other := by
  unfold queueToClient
  split
  next missing =>
    split
    next same => simp [same, missing]
    · rfl
  next client found =>
    simp only
    split
    next full =>
      rw [findClientByFd_scheduleDisconnect, findClientByFd_record]
      split
      next same => simp [same, found, deliver, overflows, full]
      · rfl
    next room =>
      rw [findClientByFd_updatePollEvents, findClientByFd_updateClient_eq]
      split
      next same => simp [found, deliver, overflows, room]
      · rfl

theorem mem_pendingDisconnects_queueToClient (message : Bytes) (other : Int) :
    other ∈ (server.queueToClient fd message).pendingDisconnects ↔
      other ∈ server.pendingDisconnects ∨
        other = fd ∧ ∃ client, server.findClientByFd fd = some client ∧
          overflows client message := by
  unfold queueToClient
  split
  next missing => simp [missing]
  next client found =>
    simp only
    split
    next full =>
      simp [found, scheduleDisconnect, record, overflows, full, or_comm, eq_comm (a := other)]
    next room =>
      have same : ∀ changed : Server, (changed.updatePollEvents fd).pendingDisconnects =
          changed.pendingDisconnects := by
        intro changed
        unfold updatePollEvents
        split
        · rfl
        · rfl
      rw [same]
      simp [found, updateClient, record, overflows, room]

theorem history_queueToClient (message : Bytes) :
    (server.queueToClient fd message).history = server.history ∨
      ∃ appended, (server.queueToClient fd message).history =
        server.history ++ [.queued fd message appended] := by
  unfold queueToClient
  split
  · exact Or.inl rfl
  · simp only
    split
    · exact Or.inr ⟨false, rfl⟩
    · right
      refine ⟨true, ?_⟩
      unfold updatePollEvents
      split
      · rfl
      · rfl

theorem listenFd_queueToClient (message : Bytes) :
    (server.queueToClient fd message).listenFd = server.listenFd := by
  unfold queueToClient updatePollEvents
  split
  · rfl
  · simp only
    split
    · rfl
    · split
      · rfl
      · rfl

theorem disconnectReasons_queueToClient (message : Bytes) :
    (server.queueToClient fd message).disconnectReasons = server.disconnectReasons := by
  unfold queueToClient updatePollEvents
  split
  · rfl
  · simp only
    split
    · rfl
    · split
      · rfl
      · rfl

theorem channels_queueToClient (message : Bytes) :
    (server.queueToClient fd message).channels = server.channels := by
  unfold queueToClient updatePollEvents
  split
  · rfl
  · simp only
    split
    · rfl
    · split
      · rfl
      · rfl

end Server

theorem Kept.queueToClient (server : Server) (fd : Int) (message : Bytes) :
    Kept server (server.queueToClient fd message) where
  listenFd := server.listenFd_queueToClient fd message
  live other := by
    rw [Server.findClientByFd_queueToClient]
    split
    next same => simp [same]
    · rfl
  receiveBuffer other := by
    rw [Server.findClientByFd_queueToClient]
    split
    next same =>
      have kept : ∀ client, (Server.deliver message client).receiveBuffer =
          client.receiveBuffer := by
        intro client
        unfold Server.deliver
        split
        · rfl
        · rfl
      simp [same, Option.map_map, Function.comp_def, kept]
    · rfl
  still_reserved other reserved := by
    rw [Server.mem_pendingDisconnects_queueToClient]
    exact Or.inl reserved
  reserved_live other reserved := by
    rw [Server.mem_pendingDisconnects_queueToClient] at reserved
    rcases reserved with earlier | ⟨rfl, client, found, _⟩
    · exact Or.inl earlier
    · right
      simp [found]
  history := by
    rcases server.history_queueToClient fd message with same | ⟨appended, same⟩
    · exact ⟨[], by simp [same], by simp⟩
    · refine ⟨_, same, ?_⟩
      intro event listed
      exact ⟨fd, message, appended, List.mem_singleton.mp listed⟩

theorem Write.kept {before after : Server} (write : Write before after) : Kept before after := by
  cases write with
  | queue fd message => exact Kept.queueToClient before fd message
  | @reserve fd client found =>
      refine ⟨rfl, fun _ => rfl, fun _ => rfl, ?_, ?_, [], by simp [Server.scheduleDisconnect],
        by simp⟩
      · intro other reserved
        simp [Server.scheduleDisconnect, reserved]
      · intro other reserved
        simp only [Server.scheduleDisconnect, ExtTreeSet.mem_insert,
          LawfulEqOrd.compare_eq_iff_eq] at reserved
        rcases reserved with rfl | reserved
        · right
          simp [found]
        · exact Or.inl reserved
  | @client fd change receive _ =>
      refine ⟨rfl, ?_, ?_, fun _ => id, fun _ => Or.inl, [], by simp [Server.updateClient], by simp⟩
      · intro other
        rw [Server.findClientByFd_updateClient_eq]
        split
        next same => simp [same]
        · rfl
      · intro other
        rw [Server.findClientByFd_updateClient_eq]
        split
        next same =>
          subst same
          cases found : before.findClientByFd other with
          | none => rfl
          | some client => simp [receive client found]
        · rfl
  | tables channels nickToFd reasons same =>
      subst same
      exact ⟨rfl, fun _ => rfl, fun _ => rfl, fun _ => id, fun _ => Or.inl, [], by simp, by simp⟩

theorem Writes.kept {before after : Server} (writes : Writes before after) : Kept before after := by
  induction writes with
  | refl => exact Kept.refl before
  | tail _ write ih => exact ih.trans write.kept

theorem Server.dispatchCommand_kept (server : Server) (fd : Int) (message : Message) :
    Kept server (server.dispatchCommand fd message) :=
  (dispatchCommand_writes server fd message).kept

end IrcPlatform.Irc
