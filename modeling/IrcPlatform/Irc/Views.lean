import IrcPlatform.Irc.Informing
import IrcPlatform.Irc.SentStream

/-!
# What the clients know of their channels

In every run a client that reads the lines that were queued to it since its connection was
accepted is informed: it knows its nickname, and for each of its channels the nicknames of the
members. What it reads are the bytes that were sent to it, with those that still wait.
-/

namespace IrcPlatform.Irc

open Std

/-- The lines of a stream, without their terminators. -/
def linesOf (stream : Bytes) : List Bytes := (stream.splitOn 10).dropLast.map (·.dropLast)

theorem linesOf_terminated {lines : List Bytes} (clean : ∀ line ∈ lines, CleanText line) :
    linesOf (lines.flatMap (· ++ crlf)) = lines := by
  have whole : lines.flatMap (· ++ crlf) =
      [10].intercalate (lines.map (· ++ [13]) ++ [[]]) := by
    clear clean
    induction lines with
    | nil => rfl
    | cons line rest ih =>
        have further : rest.map (· ++ [13]) ++ [[]] ≠ ([] : List Bytes) := by simp
        rcases List.exists_cons_of_ne_nil further with ⟨next, others, same⟩
        rw [List.flatMap_cons, ih, List.map_cons, List.cons_append, same,
          List.intercalate_cons_cons]
        simp [crlf]
  have apart : ∀ piece ∈ lines.map (· ++ [13]) ++ [[]], (10 : UInt8) ∉ piece := by
    intro piece listed
    rcases List.mem_append.mp listed with inside | last
    · rcases List.mem_map.mp inside with ⟨line, ofLines, rfl⟩
      rw [List.mem_append, not_or]
      exact ⟨fun feed => (clean line ofLines 10 feed).2.1 rfl, by decide⟩
    · rw [List.mem_singleton.mp last]
      exact List.not_mem_nil
  rw [linesOf, whole, List.splitOn_intercalate _ apart (by simp), List.dropLast_concat,
    List.map_map]
  simp [Function.comp_def]

namespace Server

variable {server after : Server} {fd : Int} {client : Client}

theorem peopled_of_reaches (reached : stepSystem.Reaches dottedPeers server) :
    server.core.Peopled where
  wellFormed := step_reachable_wellFormed reached.reachable
  nicknamed fd client stored registered := by
    rcases exists_find_of_core_clients server fd stored with ⟨record, found, rfl⟩
    have sound := (step_reachable_sound reached.reachable found).registered
    have complete : record.account.complete = true := sound.symm.trans registered
    simp only [Account.complete, Bool.and_eq_true, Bool.not_eq_true'] at complete
    have given : record.account.nickname ≠ [] := by simpa using complete.1.2
    have named := wellNamed_of_reaches reached found
    exact ⟨named.of_identity (Client.identity_withoutBuffers record), given⟩
  distinct fd other client record stored storedOther registered registeredOther same := by
    rcases exists_find_of_core_clients server fd stored with ⟨first, found, rfl⟩
    have sound := (step_reachable_sound reached.reachable found).registered
    have complete : first.account.complete = true := sound.symm.trans registered
    simp only [Account.complete, Bool.and_eq_true, Bool.not_eq_true'] at complete
    have given : first.account.nickname ≠ [] := by simpa using complete.1.2
    have named := step_reachable_named reached.reachable
    have entry := named.indexed fd _ stored given
    have entryOther := named.indexed other record storedOther (same ▸ given)
    rw [← same, entry, Option.some.injEq] at entryOther
    exact entryOther

/-- What a client makes of all lines that were queued to it. -/
def knowledge (server : Server) (fd : Int) : Watcher Bytes Bytes :=
  reading {} (queuedLines fd (sinceAccepted fd server.history))

theorem knowledge_of_events {events : List HistoryEvent}
    (history : after.history = server.history ++ events) (quiet : .accepted fd ∉ events) :
    after.knowledge fd = reading (server.knowledge fd) (queuedLines fd events) := by
  rw [knowledge, history, sinceAccepted_append _ quiet, queuedLines_append, reading_append,
    knowledge]

theorem knowledge_of_silent {events : List HistoryEvent}
    (history : after.history = server.history ++ events) (quiet : .accepted fd ∉ events)
    (silent : ∀ line ∈ queuedLines fd events, tiding line = none) :
    after.knowledge fd = server.knowledge fd := by
  rw [knowledge_of_events history quiet, reading_silent _ silent]

/-! ## Steps -/

theorem Informed.of_core {watchers : Int → Watcher Bytes Bytes}
    (informed : server.Informed watchers) (core : after.core = server.core) :
    after.Informed watchers := by
  apply informed.quiet (by rw [core])
  intro fd client found
  rcases find_eq_of_core_eq fd core found with ⟨former, there, same⟩
  have registered := congrArg Client.registered same
  have nickname := congrArg Client.nickname same
  exact ⟨former, there, registered.symm, fun _ => nickname.symm⟩

/-- A step without a line that tells something, and without a change of the core. -/
theorem informed_of_silent {step : ServerStep} {events : List HistoryEvent}
    (stepEvents : StepEvents server step after events) (core : after.core = server.core)
    (noAccept : ∀ fd peerAddress, step ≠ .accept fd peerAddress)
    (silent : ∀ posting, StepLine server step posting → tiding posting.message = none)
    (informed : server.Informed server.knowledge) : after.Informed after.knowledge := by
  apply (informed.of_core core).congr
  intro fd client _
  apply knowledge_of_silent stepEvents.history
  · intro entering
    rcases (stepEvents.accepted fd entering).1 with ⟨peerAddress, same⟩
    exact noAccept fd peerAddress same
  · intro line listed
    exact silent _ (stepEvents.lines fd line listed)

theorem informed_accept {peerAddress : Bytes}
    (consistent : server.core.Consistent) (ready : server.ready (.accept fd peerAddress) = true)
    (informed : server.Informed server.knowledge) :
    (server.advance (.accept fd peerAddress)).Informed
      (server.advance (.accept fd peerAddress)).knowledge := by
  have missing := core_clients_of_ready ready
  have core : (server.advance (.accept fd peerAddress)).core =
      server.core.setClient fd { fd := fd, hostname := peerAddress } := core_acceptClient missing
  rcases advance_events consistent ready with ⟨events, stepEvents⟩
  generalize server.advance (.accept fd peerAddress) = after at core stepEvents
  have others : ∀ other, other ≠ fd → ∀ record, after.findClientByFd other = some record →
      ∃ former, server.findClientByFd other = some former ∧
        former.withoutBuffers = record.withoutBuffers ∧
        after.knowledge other = server.knowledge other := by
    intro other distinct record found
    have stored := core_clients_of_find after other found
    rw [core, Core.setClient_clients, if_neg distinct] at stored
    rcases exists_find_of_core_clients server other stored with ⟨former, there, same⟩
    refine ⟨former, there, same, ?_⟩
    apply knowledge_of_silent stepEvents.history
    · intro entering
      rcases (stepEvents.accepted other entering).1 with ⟨_, sameStep⟩
      simp only [ServerStep.accept.injEq] at sameStep
      exact distinct sameStep.1.symm
    · intro line listed
      have impossible := stepEvents.lines other line listed
      cases impossible
  have rosters : after.core.rosters = server.core.rosters := by
    rw [core]
    apply Core.rosters_congr
    · intro key channel member stored inside
      rcases consistent.member_live stored inside with ⟨record, live, _⟩
      exact ⟨record, live⟩
    · intro key
      rfl
    · intro key channel member record stored inside live
      have distinct : member ≠ fd := by
        rintro rfl
        rw [missing] at live
        simp at live
      exact ⟨record, by rw [Core.setClient_clients, if_neg distinct, live], rfl⟩
  constructor
  case follows =>
    intro other record found registered
    by_cases same : other = fd
    · have stored := core_clients_of_find after other found
      rw [core, Core.setClient_clients, if_pos same, Option.some.injEq] at stored
      have fresh := congrArg Client.registered stored
      rw [show record.withoutBuffers.registered = record.registered from rfl, registered] at fresh
      simp at fresh
    · rcases others other same record found with ⟨former, there, buffers, known⟩
      have sameFlag := congrArg Client.registered buffers
      have sameName := congrArg Client.nickname buffers
      rw [rosters, known, ← show former.nickname = record.nickname from sameName]
      exact informed.follows other former there (sameFlag.trans registered)
  case unheard =>
    intro other record found waiting
    by_cases same : other = fd
    · subst same
      have absent : server.findClientByFd other = none :=
        (findClientByFd_of_core server other).mp missing
      have entering := (stepEvents.entered other record absent found).2
      have only := (stepEvents.accepted other entering).2
      rw [knowledge, stepEvents.history, only, sinceAccepted_accepted]
      rfl
    · rcases others other same record found with ⟨former, there, buffers, known⟩
      have sameFlag := congrArg Client.registered buffers
      rw [known]
      exact informed.unheard other former there (sameFlag.trans waiting)

theorem informed_command (reached : stepSystem.Reaches dottedPeers server) {message : Message}
    (peopled : (server.advance (.command fd message)).core.Peopled)
    (informed : server.Informed server.knowledge) :
    (server.advance (.command fd message)).Informed
      (server.advance (.command fd message)).knowledge := by
  have invariants := (step_reachable_invariants reached.reachable).record
    (.dispatched fd (server.pendingDisconnects.contains fd))
  have peopledBefore := peopled_of_reaches reached
  generalize recording : server.record
    (.dispatched fd (server.pendingDisconnects.contains fd)) = start at invariants
  have after : server.advance (.command fd message) = start.dispatchCommand fd message := by
    rw [← recording]
    rfl
  have history : start.history = server.history ++
      [.dispatched fd (server.pendingDisconnects.contains fd)] := by
    rw [← recording]
    rfl
  have known : ∀ other, start.knowledge other = server.knowledge other := by
    intro other
    apply knowledge_of_silent history
    · simp
    · simp [queuedLines, HistoryEvent.queuedTo]
  have informedStart : start.Informed start.knowledge := by
    have same : start.core = server.core := by
      rw [← recording]
      rfl
    exact (informed.of_core same).congr fun other _ _ => known other
  have peopledStart : start.core.Peopled := by
    rw [← recording]
    exact peopledBefore
  rw [after] at peopled ⊢
  have informs : start.Informs (start.dispatchCommand fd message) := by
    cases found : start.findClientByFd fd with
    | none =>
        have unchanged : start.dispatchCommand fd message = start := by
          simp only [dispatchCommand, found]
        rw [unchanged]
        exact Informs.refl start
    | some client =>
        cases registered : client.registered with
        | true => exact registered_informs invariants peopledStart found registered message
        | false => exact unregistered_informs invariants peopled found registered
  rcases informs with ⟨postings, posts, informs⟩
  apply (informs _ informedStart).congr
  intro other record found
  have live : (start.findClientByFd other).isSome = true := by
    rw [← posts.isSome, found]
    rfl
  rw [knowledge_of_events posts.history]
  · congr 1
    exact start.mail.queuedTo_entries postings (by simpa [mail] using live)
  · intro entering
    rcases Mail.mem_entries _ entering with ⟨posting, _, appended, same⟩
    simp at same

theorem rosters_of_silentlyClosed (consistent : server.core.Consistent)
    (found : server.findClientByFd fd = some client) (unregistered : client.registered = false)
    (closed : SilentlyClosed fd server after) : after.core.rosters = server.core.rosters := by
  apply Core.rosters_congr
  · intro key channel member stored inside
    rcases consistent.member_live stored inside with ⟨record, live, _⟩
    exact ⟨record, live⟩
  · intro key
    have same : after.core.channels key = (server.core.channels key).map (·.removeInvite fd) :=
      closed.channels key
    rw [same, Option.map_map]
    rfl
  · intro key channel member record stored inside live
    have distinct : member ≠ fd := by
      rintro rfl
      exact not_member_of_unregistered consistent found unregistered stored inside
    refine ⟨record, ?_, rfl⟩
    have same := closed.others member distinct
    simp only [core] at live ⊢
    rw [same]
    exact live

theorem disconnectClient_notifies (invariants : server.Invariants)
    (peopled : server.core.Peopled) (found : server.findClientByFd fd = some client)
    (reason : Bytes) :
    server.Notifies [⟨quitLine client reason, server.core.neighbours fd⟩]
      (server.disconnectClient fd reason) := by
  have consistent := invariants.wellFormed.consistent
  have stored := core_clients_of_find server fd found
  cases registered : client.registered with
  | false =>
      have closed := disconnectClient_silent consistent invariants.named found registered reason
      have rosters := rosters_of_silentlyClosed consistent found registered closed
      have gone := (disconnectClient_disconnected found reason).gone
      intro watchers informed
      have quiet : (server.disconnectClient fd reason).Informed watchers := by
        apply informed.quiet rosters
        intro other record foundOther
        have distinct : other ≠ fd := by
          rintro rfl
          rw [gone] at foundOther
          simp at foundOther
        exact ⟨record, (closed.others other distinct).symm.trans foundOther, rfl, fun _ => rfl⟩
      apply quiet.congr
      intro other record _
      have outside : other ∉ server.core.neighbours fd := by
        rintro ⟨_, key, ⟨channel, storedChannel, member⟩, _⟩
        exact not_member_of_unregistered consistent found registered storedChannel member
      rw [copies_of_not_mem outside]
      rfl
  | true =>
      have nicknamed := nicknamed_of_find peopled found registered
      have effect := disconnectClient_effect consistent fd reason
      have live : server.core.clients fd ≠ none := by
        rw [stored]
        exact Option.some_ne_none _
      have effects := disconnectClient_disconnected found reason
      have former : ∀ other record,
          (server.disconnectClient fd reason).findClientByFd other = some record →
            other ≠ fd ∧ ∃ old, server.findClientByFd other = some old ∧
              old.identity = record.identity := by
        intro other record foundOther
        have distinct : other ≠ fd := by
          rintro rfl
          rw [effects.gone] at foundOther
          simp at foundOther
        rw [effects.others other distinct] at foundOther
        refine ⟨distinct, ?_⟩
        split at foundOther
        · rcases Option.map_eq_some_iff.mp foundOther with ⟨old, there, delivered⟩
          refine ⟨old, there, ?_⟩
          rw [← delivered, deliver]
          split
          · rfl
          · rfl
        · exact ⟨record, foundOther, rfl⟩
      have clients : ∀ other, other ≠ fd →
          (server.disconnectClient fd reason).core.clients other = server.core.clients other :=
        fun other => effects.core_clients
      have closing := peopled.rosters_close stored registered (effect.channels consistent live)
        clients
      apply notifies_of_change (nicknamed.tiding_quitLine reason) closing
      intro other record foundOther
      rcases former other record foundOther with ⟨distinct, old, there, identity⟩
      refine ⟨old, there, (Client.registered_of_identity identity).symm, ?_, ?_⟩
      · rintro unregistered ⟨_, key, _, channel, storedChannel, member⟩
        exact not_member_of_unregistered consistent there unregistered storedChannel member
      · intro admitted
        have storedOther := core_clients_of_find server other there
        refine ⟨(Client.nickname_of_identity identity).symm, ?_, fun shared => distinct
          (peopled.distinct fd other _ _ stored storedOther registered admitted shared).symm⟩
        exact (and_iff_right distinct).trans
          (peopled.shares_iff stored registered storedOther admitted).symm

theorem informed_disconnect (invariants : server.Invariants) (peopled : server.core.Peopled)
    (fd : Int) (reason : Bytes) (informed : server.Informed server.knowledge) :
    (server.disconnectClient fd reason).Informed
      (server.disconnectClient fd reason).knowledge := by
  cases found : server.findClientByFd fd with
  | none =>
      have unchanged : server.disconnectClient fd reason = server := by
        simp only [disconnectClient, found]
      rw [unchanged]
      exact informed
  | some client =>
      have notifies := disconnectClient_notifies invariants peopled found reason
      rcases posts_disconnectClient found reason with ⟨announced, posts, history, others⟩
      apply (notifies _ informed).congr
      intro other record foundOther
      have distinct : other ≠ fd := by
        rintro rfl
        rw [(disconnectClient_disconnected found reason).gone] at foundOther
        simp at foundOther
      have live : (server.findClientByFd other).isSome = true := by
        rw [others other distinct] at foundOther
        rw [← posts.isSome, foundOther]
        rfl
      have queued : queuedLines other (server.mail.entries _) = addressed other _ :=
        server.mail.queuedTo_entries ((server.sharedTargets client).toList.map
          fun target => ⟨target, quitLine client reason⟩) (by simpa [mail] using live)
      have shared := mem_neighbours invariants.wellFormed.consistent found other
      rw [knowledge_of_events (history.trans posts.history), queued,
        addressed_broadcast (nodup_sharedTargets server client)]
      · by_cases listed : other ∈ server.sharedTargets client
        · rw [if_pos (ExtTreeSet.mem_toList.mpr listed), copies_of_mem (shared.mp listed)]
        · rw [if_neg (mt ExtTreeSet.mem_toList.mp listed),
            copies_of_not_mem (mt shared.mpr listed)]
      · intro entering
        rcases Mail.mem_entries _ entering with ⟨posting, _, appended, same⟩
        simp at same

/-! ## Runs -/

/-- Every step leaves the clients informed. -/
theorem informed_advance (reached : stepSystem.Reaches dottedPeers server) {step : ServerStep}
    (ready : server.ready step = true)
    (next : stepSystem.Reaches dottedPeers (server.advance step))
    (informed : server.Informed server.knowledge) :
    (server.advance step).Informed (server.advance step).knowledge := by
  have consistent := step_reachable_consistent reached.reachable
  have invariants := step_reachable_invariants reached.reachable
  rcases advance_events consistent ready with ⟨events, stepEvents⟩
  cases step with
  | accept fd peerAddress => exact informed_accept consistent ready informed
  | receive fd data =>
      exact informed_of_silent stepEvents (core_appendReceiveBuffer ..) (by simp)
        (fun _ line => by cases line) informed
  | consume fd length =>
      exact informed_of_silent stepEvents (core_eraseReceivePrefix ..) (by simp)
        (fun _ line => by cases line) informed
  | command fd message =>
      exact informed_command reached (peopled_of_reaches next) informed
  | refuse fd error =>
      apply informed_of_silent stepEvents (core_queueToClient ..) (by simp) ?_ informed
      intro posting line
      cases line with
      | refused _ _ => exact tiding_error error
  | reserve fd =>
      exact informed_of_silent stepEvents rfl (by simp) (fun _ line => by cases line) informed
  | flush fd sent =>
      exact informed_of_silent stepEvents (core_flushSendBuffer ..) (by simp)
        (fun _ line => by cases line) informed
  | takeReservations =>
      exact informed_of_silent stepEvents rfl (by simp) (fun _ line => by cases line) informed
  | disconnect fd reason =>
      exact informed_disconnect invariants (peopled_of_reaches reached) fd reason informed

theorem informed_of_reaches (reached : stepSystem.Reaches dottedPeers server) :
    server.Informed server.knowledge := by
  induction reached with
  | start initial =>
      rcases initial with ⟨password, serverStartTime, listenFd, rfl⟩
      constructor
      · intro fd client found
        simp [fresh, findClientByFd] at found
      · intro fd client found
        simp [fresh, findClientByFd] at found
  | @next before _ step reached allowed made informed =>
      rcases made with ⟨ready, rfl⟩
      exact informed_advance reached ready (.next reached allowed ⟨ready, rfl⟩) informed

/-- What was sent to a client and what still waits are its lines, each of them clean. -/
structure Streams (server : Server) (fd : Int) (client : Client) : Prop where
  stream : sentBytes fd (sinceAccepted fd server.history) ++ client.sendBuffer =
    (appendedLines fd (sinceAccepted fd server.history)).flatMap withCrlf
  clean (line : Bytes) : line ∈ queuedLines fd (sinceAccepted fd server.history) →
    CleanText line

theorem streams_advance (reached : stepSystem.Reaches dottedPeers server) {step : ServerStep}
    (ready : server.ready step = true) (allowed : dottedPeers server step)
    (streams : ∀ client, server.findClientByFd fd = some client → server.Streams fd client)
    {next : Client} (foundNext : (server.advance step).findClientByFd fd = some next) :
    (server.advance step).Streams fd next := by
  rcases advance_events (step_reachable_consistent reached.reachable) ready with
    ⟨events, stepEvents⟩
  by_cases entering : .accepted fd ∈ events
  · rcases stepEvents.accepted fd entering with ⟨⟨peerAddress, rfl⟩, only⟩
    have missing := (findClientByFd_of_core server fd).mp (core_clients_of_ready ready)
    have empty := (stepEvents.entered fd next missing foundNext).1
    have since : sinceAccepted fd (server.advance (.accept fd peerAddress)).history = [] := by
      rw [stepEvents.history, only]
      exact sinceAccepted_accepted fd _
    constructor
    · rw [since, empty]
      rfl
    · rw [since]
      simp [queuedLines]
  · have since : sinceAccepted fd (server.advance step).history =
        sinceAccepted fd server.history ++ events := by
      rw [stepEvents.history]
      exact sinceAccepted_append _ entering
    cases found : server.findClientByFd fd with
    | none => exact absurd (stepEvents.entered fd next found foundNext).2 entering
    | some client =>
        have before := streams client found
        have gained := stepEvents.buffers fd client next found foundNext
        constructor
        · rw [since, sentBytes_append, appendedLines_append, List.flatMap_append,
            List.append_assoc, gained, ← List.append_assoc, before.stream]
        · intro line listed
          rw [since, queuedLines_append] at listed
          rcases List.mem_append.mp listed with earlier | new
          · exact before.clean line earlier
          · exact (stepLine_integrity reached ready allowed (stepEvents.lines fd line new)).1.clean

theorem streams_of_reaches (reached : stepSystem.Reaches dottedPeers server) :
    ∀ client, server.findClientByFd fd = some client → server.Streams fd client := by
  induction reached with
  | start initial =>
      rcases initial with ⟨password, serverStartTime, listenFd, rfl⟩
      intro client found
      simp [fresh, findClientByFd] at found
  | next reached allowed made ih =>
      rcases made with ⟨ready, rfl⟩
      intro next foundNext
      exact streams_advance reached ready allowed ih foundNext

/-- Without a dropped message everything that was queued is appended. -/
theorem appendedLines_of_fits {events : List HistoryEvent}
    (fits : ∀ message, HistoryEvent.queued fd message false ∉ events) :
    appendedLines fd events = queuedLines fd events := by
  apply List.filterMap_congr
  intro event listed
  cases event with
  | queued other message appended =>
      cases appended with
      | true => rfl
      | false =>
          have distinct : other ≠ fd := by
            rintro rfl
            exact fits message listed
          simp [HistoryEvent.appendedTo, HistoryEvent.queuedTo, distinct]
  | _ => rfl

theorem Streams.lines (streams : server.Streams fd client)
    (fits : ∀ message, .queued fd message false ∉ sinceAccepted fd server.history) :
    linesOf (sentBytes fd (sinceAccepted fd server.history) ++ client.sendBuffer) =
      queuedLines fd (sinceAccepted fd server.history) := by
  have terminated : (queuedLines fd (sinceAccepted fd server.history)).flatMap withCrlf =
      (queuedLines fd (sinceAccepted fd server.history)).flatMap (· ++ crlf) := by
    apply List.flatMap_congr
    intro line listed
    exact withCrlf_of_clean (streams.clean line listed)
  rw [streams.stream, appendedLines_of_fits fits, terminated, linesOf_terminated streams.clean]

/-- A client that has read what was sent to it, and what still waits, knows its nickname and
the nicknames in each of its channels, in every run. -/
theorem stream_tells_rosters (reached : stepSystem.Reaches dottedPeers server)
    (found : server.findClientByFd fd = some client) (registered : client.registered = true)
    (fits : ∀ message, .queued fd message false ∉ sinceAccepted fd server.history) :
    let watcher := reading {}
      (linesOf (sentBytes fd (sinceAccepted fd server.history) ++ client.sendBuffer))
    watcher.name = some client.nickname ∧
      ∀ room nickname, (room, nickname) ∈ watcher.present ↔
        ∃ channel other member, server.findChannel room = some channel ∧ channel.name = room ∧
          fd ∈ channel.members ∧ other ∈ channel.members ∧
            server.findClientByFd other = some member ∧ member.nickname = nickname := by
  have follows := (informed_of_reaches reached).follows fd client found registered
  have peopled := peopled_of_reaches reached
  have stored := core_clients_of_find server fd found
  rw [(streams_of_reaches reached client found).lines fits]
  refine ⟨follows.named, ?_⟩
  intro room nickname
  refine (follows.present room nickname).trans ?_
  constructor
  · rintro ⟨own, there⟩
    rcases (peopled.mem_rosters_iff stored registered room).mp own with
      ⟨key, channel, storedChannel, rfl, member⟩
    have sameKey := peopled.wellFormed.consistent.key_normalized key channel storedChannel
    have foundChannel : server.findChannel channel.name = some channel := by
      rw [← core_channels_of_find, sameKey]
      exact storedChannel
    rcases (mem_rosters_stored peopled foundChannel nickname).mp there with
      ⟨other, record, listed, foundOther, name⟩
    exact ⟨channel, other, record, foundChannel, rfl, member, listed, foundOther, name⟩
  · rintro ⟨channel, other, record, foundChannel, rfl, member, listed, foundOther, name⟩
    have own := (mem_rosters_stored peopled foundChannel client.nickname).mpr
      ⟨fd, client, member, found, rfl⟩
    exact ⟨own, (mem_rosters_stored peopled foundChannel nickname).mpr
      ⟨other, record, listed, foundOther, name⟩⟩

/-- Alice takes another name, and Bob has been sent a part of his lines. -/
def renamedSteps : List ServerStep :=
  alicesSteps ++
    [ .flush 5 (some 300),
      .command 4 { command := ascii "NICK", params := [ascii "carol"] } ]

def renamedRoom : Server :=
  stepMachine.performOr (fresh (ascii "secret") (ascii "today") 3) renamedSteps

theorem stream_tells_rosters_bob : ∃ bob, renamedRoom.findClientByFd 5 = some bob ∧
    let watcher := reading {}
      (linesOf (sentBytes 5 (sinceAccepted 5 renamedRoom.history) ++ bob.sendBuffer))
    (watcher.name = some bob.nickname ∧
      ∀ room nickname, (room, nickname) ∈ watcher.present ↔
        ∃ channel other member, renamedRoom.findChannel room = some channel ∧
          channel.name = room ∧ 5 ∈ channel.members ∧ other ∈ channel.members ∧
            renamedRoom.findClientByFd other = some member ∧ member.nickname = nickname) ∧
    (ascii "#Room", ascii "carol") ∈ watcher.present ∧
      (ascii "#Room", ascii "alice") ∉ watcher.present := by
  have performs : (stepMachine.performAll renamedSteps
      (fresh (ascii "secret") (ascii "today") 3)).isSome = true := by decide +kernel
  have bob : (renamedRoom.findClientByFd 5).map (·.registered) = some true := by decide +kernel
  have kept : (sinceAccepted 5 renamedRoom.history).all (!·.dropsFor 5) = true := by
    decide +kernel
  have known : (renamedRoom.findClientByFd 5).map (fun bob => decide
      ((ascii "#Room", ascii "carol") ∈ (reading {} (linesOf (sentBytes 5
        (sinceAccepted 5 renamedRoom.history) ++ bob.sendBuffer))).present ∧
      (ascii "#Room", ascii "alice") ∉ (reading {} (linesOf (sentBytes 5
        (sinceAccepted 5 renamedRoom.history) ++ bob.sendBuffer))).present)) = some true := by
    decide +kernel
  rcases Option.map_eq_some_iff.mp bob with ⟨client, found, registered⟩
  have dotted : ∀ step ∈ renamedSteps,
      acceptsOnly (fun address => isDotted address = true) step := by
    intro step listed fd peerAddress same
    subst same
    simp only [renamedSteps, alicesSteps, enterSteps, List.cons_append, List.nil_append,
      List.mem_cons, ServerStep.accept.injEq, reduceCtorEq, List.not_mem_nil, or_false,
      false_or] at listed
    rcases listed with ⟨_, rfl⟩ | ⟨_, rfl⟩
    · decide
    · decide
  have fits : ∀ message, .queued 5 message false ∉ sinceAccepted 5 renamedRoom.history := by
    intro message listed
    have drops := List.all_eq_true.mp kept _ listed
    simp [HistoryEvent.dropsFor] at drops
  rw [found, Option.map_some, Option.some.injEq, decide_eq_true_iff] at known
  exact ⟨client, found, stream_tells_rosters
    (reaches_of_performAll (Machine.performAll_eq_performOr performs) dotted) found registered
      fits, known⟩

end Server

end IrcPlatform.Irc
