import IrcPlatform.Irc.Kept
import IrcPlatform.Irc.Reachable

/-!
# Processing the reservations

`processPendingDisconnects` empties the set of reservations before it
disconnects the descriptors one by one. The QUIT lines it sends meanwhile can
reserve a client again whose send buffer has no room for them. This file
computes what one disconnection does to the other clients and derives exactly
when no reservation outlives its connection.
-/

namespace IrcPlatform.Irc

open Std

namespace Server

/-! ## Queueing one message to several clients -/

theorem findClientByFd_queueToAll (message : Bytes) {targets : List Int} (distinct : targets.Nodup)
    (server : Server) (other : Int) :
    (queueToAll message targets server).findClientByFd other =
      if other ∈ targets then (server.findClientByFd other).map (deliver message)
      else server.findClientByFd other := by
  induction targets generalizing server with
  | nil => simp [queueToAll]
  | cons target rest ih =>
      rcases List.nodup_cons.mp distinct with ⟨fresh, distinctRest⟩
      rw [queueToAll, ih distinctRest, findClientByFd_queueToClient]
      by_cases here : other = target
      · subst here
        simp [fresh]
      · simp [here]

theorem mem_pendingDisconnects_queueToAll (message : Bytes) {targets : List Int}
    (distinct : targets.Nodup) (server : Server) (other : Int) :
    other ∈ (queueToAll message targets server).pendingDisconnects ↔
      other ∈ server.pendingDisconnects ∨ other ∈ targets ∧
        ∃ client, server.findClientByFd other = some client ∧ overflows client message := by
  induction targets generalizing server with
  | nil => simp [queueToAll]
  | cons target rest ih =>
      rcases List.nodup_cons.mp distinct with ⟨fresh, distinctRest⟩
      rw [queueToAll, ih distinctRest, mem_pendingDisconnects_queueToClient,
        findClientByFd_queueToClient]
      by_cases here : other = target
      · subst here
        simp [fresh]
      · simp [here]

theorem kept_queueToAll (message : Bytes) (targets : List Int) (server : Server) :
    Kept server (queueToAll message targets server) :=
  ((Writes.refl server).queueToAll message targets).kept

theorem disconnectReasons_queueToAll (message : Bytes) (targets : List Int) (server : Server) :
    (queueToAll message targets server).disconnectReasons = server.disconnectReasons := by
  induction targets generalizing server with
  | nil => rfl
  | cons target rest ih => rw [queueToAll, ih, disconnectReasons_queueToClient]

/-! ## The clients that share a channel -/

theorem mem_sharedTargets {server : Server} {client : Client} {other : Int} :
    other ∈ server.sharedTargets client ↔ other ≠ client.fd ∧
      ∃ key ∈ client.joinedChannels, ∃ channel, server.findChannel key = some channel ∧
        other ∈ channel.members := by
  have collected : ∀ (keys : List Bytes) (targets : ExtTreeSet Int),
      other ∈ keys.foldl server.addTargets targets ↔
      other ∈ targets ∨ ∃ key ∈ keys, ∃ channel, server.findChannel key = some channel ∧
        other ∈ channel.members := by
    intro keys
    induction keys with
    | nil => simp
    | cons key keys ih =>
        intro targets
        rw [List.foldl_cons, ih, addTargets]
        cases found : server.findChannel key with
        | none => simp [found]
        | some channel => simp [found, ExtTreeSet.mem_insertMany_list, or_assoc]
  rw [sharedTargets, ExtTreeSet.mem_erase, collected]
  simp [eq_comm (a := other)]

theorem nodup_toList (descriptors : ExtTreeSet Int) : descriptors.toList.Nodup :=
  descriptors.ordered_toList.imp fun before => by
    intro same
    subst same
    simp at before

theorem nodup_sharedTargets (server : Server) (client : Client) :
    (server.sharedTargets client).toList.Nodup :=
  nodup_toList (server.sharedTargets client)

/-- A live descriptor shares a channel with another one. -/
def sharesChannel (server : Server) (fd other : Int) : Bool :=
  match server.findClientByFd fd with
  | none => false
  | some client => (server.sharedTargets client).contains other

/-- The QUIT line that a disconnection sends, without its terminator. -/
def quitNotice (server : Server) (fd : Int) : Bytes :=
  match server.findClientByFd fd with
  | none => []
  | some client => Reply.command (Reply.clientPrefix client) (ascii "QUIT")
      (ascii ":" ++ server.disconnectReason fd)

/-! ## One disconnection, seen by the other clients -/

/-- Taking a client out of its channels touches no other client and no reservation. -/
structure OnlyClient (fd : Int) (before after : Server) : Prop where
  pending : after.pendingDisconnects = before.pendingDisconnects
  reasons : after.disconnectReasons = before.disconnectReasons
  history : after.history = before.history
  listenFd : after.listenFd = before.listenFd
  others (other : Int) : other ≠ fd → after.findClientByFd other = before.findClientByFd other

theorem OnlyClient.refl (fd : Int) (server : Server) : OnlyClient fd server server :=
  ⟨rfl, rfl, rfl, rfl, fun _ _ => rfl⟩

theorem OnlyClient.trans {fd : Int} {before between after : Server}
    (first : OnlyClient fd before between) (second : OnlyClient fd between after) :
    OnlyClient fd before after :=
  ⟨second.pending.trans first.pending, second.reasons.trans first.reasons,
    second.history.trans first.history, second.listenFd.trans first.listenFd,
    fun other distinct => (second.others other distinct).trans (first.others other distinct)⟩

theorem deleteChannelIfEmpty_onlyClient (server : Server) (fd : Int) (key : Bytes) :
    OnlyClient fd server (server.deleteChannelIfEmpty key) := by
  unfold deleteChannelIfEmpty
  split
  · exact OnlyClient.refl fd server
  · split
    · exact ⟨rfl, rfl, rfl, rfl, fun _ _ => rfl⟩
    · exact OnlyClient.refl fd server

theorem removeFromChannel_onlyClient (server : Server) (fd : Int) (key : Bytes) :
    OnlyClient fd server (removeFromChannel fd server key) := by
  unfold removeFromChannel
  split
  · exact OnlyClient.refl fd server
  · refine OnlyClient.trans ?_ (deleteChannelIfEmpty_onlyClient _ fd key)
    refine ⟨rfl, rfl, rfl, rfl, ?_⟩
    intro other distinct
    rw [findClientByFd_updateClient_eq, if_neg distinct]
    rfl

theorem removeClientFromAllChannels_onlyClient (server : Server) (fd : Int) :
    OnlyClient fd server (server.removeClientFromAllChannels fd) := by
  have folded : ∀ (keys : List Bytes) (server : Server),
      OnlyClient fd server (keys.foldl (removeFromChannel fd) server) := by
    intro keys
    induction keys with
    | nil => exact OnlyClient.refl fd
    | cons key keys ih =>
        intro server
        exact (removeFromChannel_onlyClient server fd key).trans (ih _)
  unfold removeClientFromAllChannels
  split
  · exact OnlyClient.refl fd server
  next client _ =>
    have left := folded client.joinedChannels.toList server
    exact ⟨left.pending, left.reasons, left.history, left.listenFd, left.others⟩

/-- What the other clients see of one disconnection. -/
structure Disconnected (fd : Int) (notice : Bytes) (before after : Server) : Prop where
  listenFd : after.listenFd = before.listenFd
  gone : after.findClientByFd fd = none
  others (other : Int) : other ≠ fd → after.findClientByFd other =
    if before.sharesChannel fd other then (before.findClientByFd other).map (deliver notice)
    else before.findClientByFd other
  reserved (other : Int) : other ∈ after.pendingDisconnects ↔
    other ∈ before.pendingDisconnects ∨ before.sharesChannel fd other = true ∧
      ∃ client, before.findClientByFd other = some client ∧ overflows client notice
  reasons (other : Int) : other ≠ fd →
    after.disconnectReason other = before.disconnectReason other

/-- The QUIT line of a disconnection for a given reason. -/
def quitLine (client : Client) (reason : Bytes) : Bytes :=
  Reply.command (Reply.clientPrefix client) (ascii "QUIT") (ascii ":" ++ reason)

theorem disconnectClient_disconnected {server : Server} {fd : Int} {client : Client}
    (found : server.findClientByFd fd = some client) (reason : Bytes) :
    Disconnected fd (quitLine client reason) server (server.disconnectClient fd reason) := by
  have distinct := nodup_sharedTargets server client
  have shared : ∀ other, other ∈ (server.sharedTargets client).toList ↔
      server.sharesChannel fd other = true := by
    intro other
    unfold sharesChannel
    rw [found]
    simp
  unfold disconnectClient
  rw [found]
  simp only [broadcastToSharedChannels]
  rw [← quitLine]
  generalize announced : queueToAll (quitLine client reason) (server.sharedTargets client).toList
    server = after
  have left := removeClientFromAllChannels_onlyClient after fd
  generalize removal : after.removeClientFromAllChannels fd = removed at left
  generalize naming : (if client.nickname.isEmpty then removed
    else removed.unregisterNickname client.nickname) = unnamed
  have unnaming : OnlyClient fd removed unnamed := by
    rw [← naming]
    split
    · exact OnlyClient.refl fd removed
    · exact ⟨rfl, rfl, rfl, rfl, fun _ _ => rfl⟩
  have closing := left.trans unnaming
  constructor
  case listenFd =>
    change unnamed.listenFd = _
    rw [closing.listenFd, ← announced, (kept_queueToAll _ _ server).listenFd]
  case gone => simp [findClientByFd, eraseClient]
  case others =>
    intro other distinctFd
    have kept : ((unnamed.removeClientPollFd fd).eraseClient fd).findClientByFd other =
        unnamed.findClientByFd other := by
      simp [findClientByFd, eraseClient, removeClientPollFd, ExtTreeMap.getElem?_erase,
        Ne.symm distinctFd]
    rw [kept, closing.others other distinctFd, ← announced, findClientByFd_queueToAll _ distinct]
    simp only [shared]
  case reserved =>
    intro other
    change other ∈ unnamed.pendingDisconnects ↔ _
    rw [closing.pending, ← announced, mem_pendingDisconnects_queueToAll _ distinct, shared]
  case reasons =>
    intro other distinctFd
    have kept : ((unnamed.removeClientPollFd fd).eraseClient fd).disconnectReasons[other]? =
        unnamed.disconnectReasons[other]? := by
      simp [eraseClient, removeClientPollFd, ExtTreeMap.getElem?_erase, Ne.symm distinctFd]
    unfold disconnectReason
    rw [kept, closing.reasons, ← announced, disconnectReasons_queueToAll]

theorem disconnectClient_spec {server : Server} {fd : Int} {client : Client}
    (found : server.findClientByFd fd = some client) :
    Disconnected fd (server.quitNotice fd) server
      (server.disconnectClient fd (server.disconnectReason fd)) := by
  have notified : server.quitNotice fd = quitLine client (server.disconnectReason fd) := by
    unfold quitNotice
    rw [found]
    rfl
  rw [notified]
  exact disconnectClient_disconnected found _

theorem disconnectClient_of_missing {server : Server} {fd : Int}
    (missing : server.findClientByFd fd = none) (reason : Bytes) :
    server.disconnectClient fd reason = server := by
  unfold disconnectClient
  rw [missing]

/-! ## What stays the same for the clients that are disconnected later -/

theorem withoutBuffers_deliver (message : Bytes) (client : Client) :
    (deliver message client).withoutBuffers = client.withoutBuffers := by
  unfold deliver
  split
  · rfl
  · rfl

theorem Disconnected.core_clients {fd : Int} {notice : Bytes} {before after : Server}
    (spec : Disconnected fd notice before after) {other : Int} (distinct : other ≠ fd) :
    after.core.clients other = before.core.clients other := by
  change (after.findClientByFd other).map _ = (before.findClientByFd other).map _
  rw [spec.others other distinct]
  split
  · simp [Option.map_map, Function.comp_def, withoutBuffers_deliver]
  · rfl

/-- In a consistent state, sharing a channel is symmetric: both sides have joined it. -/
theorem sharesChannel_iff {server : Server} (consistent : server.core.Consistent)
    (fd other : Int) : server.sharesChannel fd other = true ↔ other ≠ fd ∧
      ∃ key, server.core.HasJoined fd key ∧ server.core.HasJoined other key := by
  unfold sharesChannel
  cases found : server.findClientByFd fd with
  | none =>
      have absent := core_clients_of_find_none server fd found
      simp [Core.HasJoined, absent]
  | some client =>
      have stored := core_clients_of_find server fd found
      have sameFd : client.fd = fd := consistent.client_fd fd client.withoutBuffers stored
      simp only [ExtTreeSet.contains_iff_mem, mem_sharedTargets, sameFd]
      refine and_congr_right fun _ => ⟨?_, ?_⟩
      · rintro ⟨key, joined, channel, foundChannel, member⟩
        have normalized : IrcUtil.normalizeChannelName key = key := by
          rcases consistent.joined_live stored joined with ⟨record, foundRecord, _⟩
          exact consistent.normalize_key foundRecord
        rw [← core_channels_of_find, normalized] at foundChannel
        exact ⟨key, ⟨client.withoutBuffers, stored, joined⟩,
          consistent.member_live foundChannel member⟩
      · rintro ⟨key, ⟨record, foundRecord, joined⟩, otherJoined⟩
        rw [stored, Option.some.injEq] at foundRecord
        subst foundRecord
        obtain ⟨channel, foundChannel, member⟩ :=
          (consistent.isMember_iff other key).mpr otherJoined
        refine ⟨key, joined, channel, ?_, member⟩
        rw [← core_channels_of_find, consistent.normalize_key foundChannel]
        exact foundChannel

section Step

variable {before after : Server} {fd : Int} {notice : Bytes}

theorem Disconnected.sharesChannel_eq (spec : Disconnected fd notice before after)
    (consistent : before.core.Consistent) (consistentAfter : after.core.Consistent)
    {first second : Int} (firstDistinct : first ≠ fd) (secondDistinct : second ≠ fd) :
    after.sharesChannel first second = before.sharesChannel first second := by
  rw [Bool.eq_iff_iff, sharesChannel_iff consistentAfter, sharesChannel_iff consistent]
  simp only [Core.HasJoined, spec.core_clients firstDistinct, spec.core_clients secondDistinct]

theorem Disconnected.quitNotice_eq (spec : Disconnected fd notice before after) {other : Int}
    (distinct : other ≠ fd) : after.quitNotice other = before.quitNotice other := by
  unfold quitNotice
  rw [spec.reasons other distinct, spec.others other distinct]
  cases before.sharesChannel fd other with
  | false => rfl
  | true =>
      cases before.findClientByFd other with
      | none => rfl
      | some client =>
          have samePrefix : Reply.clientPrefix (deliver notice client) =
              Reply.clientPrefix client := by
            unfold deliver
            split
            · rfl
            · rfl
          simp only [if_true, Option.map_some, samePrefix]

end Step

/-! ## The exact condition -/

/-- Bytes of the QUIT lines that `fd` gets when `earlier` are disconnected. -/
def quitLoad (server : Server) (earlier : List Int) (fd : Int) : Nat :=
  ((earlier.filter fun other => server.sharesChannel other fd).map fun other =>
    (withCrlf (server.quitNotice other)).length).sum

/-- Every client that shares a channel with one disconnected before it has room in its
send buffer for the QUIT lines of all of these. -/
def RoomForQuits (server : Server) (order : List Int) : Prop :=
  ∀ earlier fd later client, order = earlier ++ fd :: later →
    server.findClientByFd fd = some client →
    (earlier.any fun other => server.sharesChannel other fd) = true →
    client.sendBuffer.length + server.quitLoad earlier fd ≤ maxSendBuffer

def ReservationsLive (server : Server) : Prop :=
  ∀ fd ∈ server.pendingDisconnects, ∃ client, server.findClientByFd fd = some client

variable {server : Server}

theorem quitLoad_eq_zero {earlier : List Int} {fd : Int}
    (nobody : (earlier.any fun other => server.sharesChannel other fd) = false) :
    server.quitLoad earlier fd = 0 := by
  have empty : (earlier.filter fun other => server.sharesChannel other fd) = [] := by
    rw [List.filter_eq_nil_iff]
    intro other listed
    simpa using List.any_eq_false.mp nobody other listed
  rw [quitLoad, empty]
  rfl

theorem disconnectAll_append (first second : List Int) (server : Server) :
    disconnectAll (first ++ second) server = disconnectAll second (disconnectAll first server) := by
  induction first generalizing server with
  | nil => rfl
  | cons fd rest ih => exact ih _

/-- A dead descriptor stays dead and is not reserved again. -/
theorem disconnectAll_dead (order : List Int) {fd : Int}
    (missing : server.findClientByFd fd = none) :
    (disconnectAll order server).findClientByFd fd = none ∧
      (fd ∈ (disconnectAll order server).pendingDisconnects ↔ fd ∈ server.pendingDisconnects) := by
  induction order generalizing server with
  | nil => exact ⟨missing, Iff.rfl⟩
  | cons other rest ih =>
      rw [disconnectAll]
      cases found : server.findClientByFd other with
      | none =>
          rw [disconnectClient_of_missing found]
          exact ih missing
      | some client =>
          have spec := disconnectClient_spec found
          have distinct : fd ≠ other := by
            rintro rfl
            simp [found] at missing
          have dead : (server.disconnectClient other (server.disconnectReason other)).findClientByFd
              fd = none := by
            rw [spec.others fd distinct, missing]
            split <;> rfl
          rcases ih dead with ⟨stays, reserved⟩
          refine ⟨stays, reserved.trans ?_⟩
          rw [spec.reserved]
          simp [missing]

/-- Reservations are not taken back while the list is processed. -/
theorem disconnectAll_reserved (order : List Int) {fd : Int}
    (reserved : fd ∈ server.pendingDisconnects) :
    fd ∈ (disconnectAll order server).pendingDisconnects := by
  induction order generalizing server with
  | nil => exact reserved
  | cons other rest ih =>
      rw [disconnectAll]
      apply ih
      cases found : server.findClientByFd other with
      | none => rwa [disconnectClient_of_missing found]
      | some client =>
          rw [(disconnectClient_spec found).reserved]
          exact Or.inl reserved

/-- A client that is not in the list stays live, and is reserved exactly when the QUIT
lines it gets do not all fit. -/
theorem disconnectAll_waiting {order : List Int} (distinct : order.Nodup)
    (consistent : server.core.Consistent) {fd : Int} {client : Client} (outside : fd ∉ order)
    (found : server.findClientByFd fd = some client) :
    (∃ later, (disconnectAll order server).findClientByFd fd = some later) ∧
      (fd ∈ (disconnectAll order server).pendingDisconnects ↔ fd ∈ server.pendingDisconnects ∨
        (order.any fun other => server.sharesChannel other fd) = true ∧
          maxSendBuffer < client.sendBuffer.length + server.quitLoad order fd) := by
  induction order generalizing server client with
  | nil => exact ⟨⟨client, found⟩, by simp [disconnectAll]⟩
  | cons other rest ih =>
      rcases List.nodup_cons.mp distinct with ⟨fresh, distinctRest⟩
      obtain ⟨elsewhere, outsideRest⟩ : fd ≠ other ∧ fd ∉ rest := by simpa using outside
      rw [disconnectAll]
      cases foundOther : server.findClientByFd other with
      | none =>
          have alone : server.sharesChannel other fd = false := by
            unfold sharesChannel
            rw [foundOther]
          rw [disconnectClient_of_missing foundOther]
          simpa [quitLoad, alone] using ih distinctRest consistent outsideRest found
      | some leaving =>
          have spec := disconnectClient_spec foundOther
          have consistentNext := (disconnectClient_effect consistent other
            (server.disconnectReason other)).consistent consistent
          generalize disconnection : server.disconnectClient other (server.disconnectReason other) =
            next at spec consistentNext
          have sameShares : ∀ earlier ∈ rest,
              next.sharesChannel earlier fd = server.sharesChannel earlier fd := by
            intro earlier listed
            apply spec.sharesChannel_eq consistent consistentNext
            · rintro rfl
              exact fresh listed
            · exact elsewhere
          have sameAny : (rest.any fun earlier => next.sharesChannel earlier fd) =
              rest.any fun earlier => server.sharesChannel earlier fd := by
            rw [Bool.eq_iff_iff, List.any_eq_true, List.any_eq_true]
            constructor
            · rintro ⟨earlier, listed, shares⟩
              exact ⟨earlier, listed, sameShares earlier listed ▸ shares⟩
            · rintro ⟨earlier, listed, shares⟩
              exact ⟨earlier, listed, (sameShares earlier listed).symm ▸ shares⟩
          have sameLoad : next.quitLoad rest fd = server.quitLoad rest fd := by
            have sameFilter : (rest.filter fun earlier => next.sharesChannel earlier fd) =
                rest.filter fun earlier => server.sharesChannel earlier fd :=
              List.filter_congr sameShares
            unfold quitLoad
            rw [sameFilter]
            congr 1
            apply List.map_congr_left
            intro earlier listed
            rw [spec.quitNotice_eq]
            rintro rfl
            exact fresh (List.mem_filter.mp listed).1
          have foundNext := spec.others fd elsewhere
          rw [found] at foundNext
          have reservedNext := spec.reserved fd
          rw [found] at reservedNext
          cases shares : server.sharesChannel other fd with
          | false =>
              simp only [shares, Bool.false_eq_true, if_false] at foundNext
              simp only [shares, Bool.false_eq_true, false_and, or_false] at reservedNext
              rcases ih distinctRest consistentNext outsideRest foundNext with ⟨stays, reserved⟩
              refine ⟨stays, reserved.trans ?_⟩
              rw [reservedNext, sameAny, sameLoad]
              simp [quitLoad, shares]
          | true =>
              simp only [shares, if_true, Option.map_some] at foundNext
              simp only [shares, true_and, Option.some.injEq, exists_eq_left'] at reservedNext
              rcases ih distinctRest consistentNext outsideRest foundNext with ⟨stays, reserved⟩
              refine ⟨stays, ?_⟩
              have load : server.quitLoad (other :: rest) fd =
                  (withCrlf (server.quitNotice other)).length + server.quitLoad rest fd := by
                simp [quitLoad, shares]
              have some : ((other :: rest).any fun earlier => server.sharesChannel earlier fd) =
                  true := by simp [shares]
              rw [reserved, reservedNext, sameAny, sameLoad, load, some]
              unfold deliver overflows
              cases nobody : rest.any fun earlier => server.sharesChannel earlier fd with
              | false =>
                  rw [quitLoad_eq_zero nobody]
                  simp
              | true =>
                  split
                  next full =>
                    simp only [decide_eq_true_eq] at full
                    constructor
                    · intro _
                      right
                      refine ⟨rfl, ?_⟩
                      omega
                    · intro _
                      simp [full]
                  next room =>
                    simp only [decide_eq_true_eq] at room
                    simp only [Client.appendSendBuffer, List.length_append, decide_eq_true_eq, room,
                      or_false, true_and, Nat.add_assoc]

theorem reservationsLive_processPendingInOrder_iff {order : List Int}
    (consistent : server.core.Consistent) (distinct : order.Nodup) :
    (server.processPendingInOrder order).ReservationsLive ↔ server.RoomForQuits order := by
  unfold processPendingInOrder
  generalize emptied : ({ server with pendingDisconnects := ∅ } : Server) = start
  have consistentStart : start.core.Consistent := by
    rw [← emptied]
    exact consistent
  have nothing : ∀ fd, fd ∉ start.pendingDisconnects := by
    rw [← emptied]
    simp
  have sameRoom : server.RoomForQuits order ↔ start.RoomForQuits order := by
    rw [← emptied]
    rfl
  rw [sameRoom]
  constructor
  · intro live earlier fd later client split found someone
    by_contra full
    subst split
    rcases List.nodup_append.mp distinct with ⟨distinctEarlier, _, apart⟩
    have outside : fd ∉ earlier := fun listed => apart fd listed fd List.mem_cons_self rfl
    have waiting := disconnectAll_waiting distinctEarlier consistentStart outside found
    have reserved := waiting.2.mpr (Or.inr ⟨someone, by omega⟩)
    rw [disconnectAll_append] at live
    rcases live fd (disconnectAll_reserved _ reserved) with ⟨survivor, stored⟩
    rcases waiting.1 with ⟨waitingClient, foundLater⟩
    have dead := (disconnectAll_dead later (disconnectClient_spec foundLater).gone).1
    rw [disconnectAll, dead] at stored
    simp at stored
  · intro room fd reserved
    by_cases listed : fd ∈ order
    · exfalso
      rcases List.append_of_mem listed with ⟨earlier, later, split⟩
      subst split
      rcases List.nodup_append.mp distinct with ⟨distinctEarlier, _, apart⟩
      have outside : fd ∉ earlier := fun listed => apart fd listed fd List.mem_cons_self rfl
      rw [disconnectAll_append] at reserved
      cases found : start.findClientByFd fd with
      | none =>
          rcases disconnectAll_dead earlier found with ⟨missing, same⟩
          rw [(disconnectAll_dead (fd :: later) missing).2, same] at reserved
          exact nothing fd reserved
      | some client =>
          have waiting := disconnectAll_waiting distinctEarlier consistentStart outside found
          rcases waiting.1 with ⟨waitingClient, foundLater⟩
          have spec := disconnectClient_spec foundLater
          rw [disconnectAll, (disconnectAll_dead later spec.gone).2, spec.reserved] at reserved
          rcases reserved with before | ⟨own, _⟩
          · rcases waiting.2.mp before with initially | ⟨someone, full⟩
            · exact nothing fd initially
            · have fits := room earlier fd later client rfl found someone
              omega
          · have consistentLater := disconnectAll_consistent earlier consistentStart
            exact ((sharesChannel_iff consistentLater fd fd).mp own).1 rfl
    · cases found : start.findClientByFd fd with
      | none =>
          rw [(disconnectAll_dead order found).2] at reserved
          exact absurd reserved (nothing fd)
      | some client =>
          exact (disconnectAll_waiting distinct consistentStart listed found).1

end Server

end IrcPlatform.Irc
