import IrcPlatform.Webserv.Connections
import IrcPlatform.Webserv.ServerRun

/-!
# Operations of the event loop

Each operation that the handlers are made of keeps the tables in agreement and shows its
connection in a new state.
-/

namespace IrcPlatform.Webserv

open Std

namespace Server

variable {server before after : Server} {uses : Int → Option Use} {fd other pipe : Int}
  {client changed : Client} {events : PollFlags} {view : Option View} {new : List Call}

/-! ## Views -/

theorem found_of_view (seen : server.view fd = some (client, events)) :
    server.clients[fd]? = some client :=
  (view_eq_some_iff.mp seen).1

theorem clientAt_of_view (seen : server.view fd = some (client, events)) :
    server.clientAt fd = client :=
  clientAt_of_found (found_of_view seen)

theorem exists_view (found : server.clients[fd]? = some client) :
    server.view fd = some (client, server.eventsOf fd) := by
  rw [view_eq_some_iff]
  exact ⟨found, rfl⟩

theorem view_eq_none_iff : server.view fd = none ↔ server.clients[fd]? = none :=
  Option.map_eq_none_iff

/-- The entry of a descriptor that is not a client's is removed. -/
theorem view_of_removed (clients : after.clients[other]? = before.clients[other]?)
    (pollfds : after.pollfds = before.pollfds.eraseP (·.fd == pipe))
    (absent : before.clients[pipe]? = none) : after.view other = before.view other := by
  by_cases same : other = pipe
  · subst same
    rw [view_eq_none_iff.mpr absent, view_eq_none_iff.mpr (clients.trans absent)]
  · apply view_of_same clients
    rw [eventsOf, eventsOf, pollfds, find_eraseP same]

/-- An entry of a descriptor that is not a client's is added. -/
theorem view_of_pushed (clients : after.clients[other]? = before.clients[other]?)
    (pollfds : after.pollfds = before.pollfds ++ [{ fd := pipe, events := events }])
    (absent : before.clients[pipe]? = none) : after.view other = before.view other := by
  by_cases same : other = pipe
  · subst same
    rw [view_eq_none_iff.mpr absent, view_eq_none_iff.mpr (clients.trans absent)]
  · apply view_of_same clients
    have pushed : after.eventsOf other = (before.pushPollFd pipe events).eventsOf other :=
      eventsOf_of_pollfds pollfds other
    rw [pushed, eventsOf_pushPollFd same]

/-- A pipe of a connection is closed. -/
theorem Moves.closePipe (seen : before.view fd = some (client, events))
    (absent : before.clients[pipe]? = none) (calls : after.calls = before.calls ++ [.closed pipe])
    (listeners : after.listeners = before.listeners)
    (pollfds : after.pollfds = before.pollfds.eraseP (·.fd == pipe))
    (clients : after.clients = before.clients.insert fd changed) :
    Moves before after fd (some (changed, events)) [.closed pipe] where
  calls := calls
  listeners := listeners
  self := by
    have different : fd ≠ pipe := by
      rintro rfl
      rw [found_of_view seen] at absent
      simp at absent
    rw [view_eq_some_iff, clients]
    refine ⟨ExtTreeMap.getElem?_insert_self, ?_⟩
    rw [eventsOf, pollfds, find_eraseP different]
    exact (view_eq_some_iff.mp seen).2
  others other different := by
    apply view_of_removed _ pollfds absent
    rw [clients, getElem?_insert_of_ne changed different]
  thinned := pollfds ▸ .remove _ _

/-- An entry of a descriptor that is not a client's is added, and a client changes. -/
theorem Moves.openPipe (seen : before.view fd = some (client, events)) {polled : PollFlags}
    (absent : before.clients[pipe]? = none) (calls : after.calls = before.calls ++ new)
    (listeners : after.listeners = before.listeners)
    (pollfds : after.pollfds = before.pollfds ++ [{ fd := pipe, events := polled }])
    (clients : ∀ key : Int, after.clients[key]? = (before.clients.insert fd changed)[key]?) :
    Moves before after fd (some (changed, events)) new where
  calls := calls
  listeners := listeners
  self := by
    have different : fd ≠ pipe := by
      rintro rfl
      rw [found_of_view seen] at absent
      simp at absent
    rw [view_eq_some_iff, clients]
    refine ⟨ExtTreeMap.getElem?_insert_self, ?_⟩
    have pushed : after.eventsOf fd = (before.pushPollFd pipe polled).eventsOf fd :=
      eventsOf_of_pollfds pollfds fd
    rw [pushed, eventsOf_pushPollFd different, (view_eq_some_iff.mp seen).2]
  others other different := by
    apply view_of_pushed _ pollfds absent
    rw [clients, getElem?_insert_of_ne changed different]
  thinned := pollfds ▸ .push _ _ _

/-- The client of a connection changes, and nothing else. -/
theorem Moves.setClient_view (seen : server.view fd = some (client, events)) (changed : Client) :
    Moves server (server.setClient fd changed) fd (some (changed, events)) [] := by
  have moves := Moves.setClient server fd changed
  rwa [(view_eq_some_iff.mp seen).2] at moves

namespace Tabled

theorem not_client_of_input (tabled : Tabled server uses) {owner : Int}
    (use : uses pipe = some (.input owner)) : server.clients[pipe]? = none := by
  cases found : server.clients[pipe]? with
  | none => rfl
  | some client =>
      have other := tabled.use_of_found found
      rw [use] at other
      simp at other

theorem not_client_of_output (tabled : Tabled server uses) {owner : Int}
    (use : uses pipe = some (.output owner)) : server.clients[pipe]? = none := by
  cases found : server.clients[pipe]? with
  | none => rfl
  | some client =>
      have other := tabled.use_of_found found
      rw [use] at other
      simp at other

theorem input_use (tabled : Tabled server uses) (found : server.clients[fd]? = some client)
    (open_ : 0 ≤ client.cgiInputFd) : uses client.cgiInputFd = some (.input fd) :=
  (tabled.input _ fd).mpr ⟨open_, client, found, rfl⟩

theorem output_use (tabled : Tabled server uses) (found : server.clients[fd]? = some client)
    (open_ : 0 ≤ client.cgiOutputFd) : uses client.cgiOutputFd = some (.output fd) :=
  (tabled.output _ fd).mpr ⟨open_, client, found, rfl⟩

end Tabled

/-! ## Operations that keep the descriptors -/

theorem Sound.record {call : Call} (sound : Sound server) (plain : call.isPlain = true) :
    Sound (server.record call) := by
  rcases sound with ⟨uses, tabled⟩
  exact ⟨uses, tabled.record plain⟩

theorem Sound.setClient (sound : Sound server) (found : server.clients[fd]? = some client)
    (named : changed.fd = client.fd) (input : changed.cgiInputFd = client.cgiInputFd)
    (output : changed.cgiOutputFd = client.cgiOutputFd)
    (idle : changed.cgiPid ≤ 0 → changed.cgiInputFd < 0 ∧ changed.cgiOutputFd < 0) :
    Sound (server.setClient fd changed) := by
  rcases sound with ⟨uses, tabled⟩
  exact ⟨uses, tabled.setClient found (named.trans (tabled.named fd client found)) input output
    idle⟩

/-- The client keeps its script. -/
theorem Sound.updateClient (sound : Sound server) (found : server.clients[fd]? = some client)
    (named : changed.fd = client.fd) (input : changed.cgiInputFd = client.cgiInputFd)
    (output : changed.cgiOutputFd = client.cgiOutputFd) (pid : changed.cgiPid = client.cgiPid) :
    Sound (server.setClient fd changed) := by
  apply sound.setClient found named input output
  intro idle
  rcases sound with ⟨uses, tabled⟩
  rw [input, output]
  exact tabled.idle fd client found (pid ▸ idle)

theorem Sound.setEventsAll (sound : Sound server) (fd : Int) (events : PollFlags) :
    Sound (server.setEventsAll fd events) := by
  rcases sound with ⟨uses, tabled⟩
  exact ⟨uses, tabled.setEventsAll fd events⟩

theorem Sound.nodup (sound : Sound server) : (server.pollfds.map (·.fd)).Nodup := by
  rcases sound with ⟨uses, tabled⟩
  exact tabled.nodup

theorem Sound.listed (sound : Sound server) (found : server.clients[fd]? = some client) :
    fd ∈ server.pollfds.map (·.fd) := by
  rcases sound with ⟨uses, tabled⟩
  exact tabled.listed found

theorem Sound.named (sound : Sound server) (found : server.clients[fd]? = some client) :
    client.fd = fd := by
  rcases sound with ⟨uses, tabled⟩
  exact tabled.named fd client found

theorem Sound.setEventsFirst_eq (sound : Sound server) (fd : Int) (events : PollFlags) :
    server.setEventsFirst fd events = server.setEventsAll fd events := by
  rw [Server.setEventsFirst, Server.setEventsAll, changeFirst_eq sound.nodup]

theorem Sound.setEventsAt_eq (sound : Sound server) {index : Nat} {entry : PollFd}
    (there : server.pollfds[index]? = some entry) (events : PollFlags) :
    server.setEventsAt index events = server.setEventsAll entry.fd events := by
  rw [Server.setEventsAt, Server.setEventsAll, modify_eq sound.nodup there]

theorem Moves.setEvents (sound : Sound server) (seen : server.view fd = some (client, events))
    (changed : PollFlags) :
    Moves server (server.setEventsAll fd changed) fd (some (client, changed)) [] :=
  .setEventsAll (found_of_view seen) (sound.listed (found_of_view seen)) changed

/-! ## Operations that close a pipe -/

/-- The pipe to a script is closed. -/
theorem Sound.closeInput (sound : Sound server) (seen : server.view fd = some (client, events))
    (open_ : 0 ≤ client.cgiInputFd)
    (calls : after.calls = server.calls ++ [.closed client.cgiInputFd])
    (listeners : after.listeners = server.listeners)
    (pollfds : after.pollfds = server.pollfds.eraseP (·.fd == client.cgiInputFd))
    (inputs : after.cgiInputOwners = server.cgiInputOwners.erase client.cgiInputFd)
    (outputs : after.cgiOutputOwners = server.cgiOutputOwners)
    (clients : after.clients = server.clients.insert fd { client with cgiInputFd := -1 }) :
    Sound after ∧ Moves server after fd (some ({ client with cgiInputFd := -1 }, events))
      [.closed client.cgiInputFd] := by
  rcases sound with ⟨uses, tabled⟩
  have found := found_of_view seen
  constructor
  · exact ⟨_, tabled.closeInput found open_ listeners pollfds calls inputs outputs clients rfl rfl
      rfl rfl⟩
  · exact .closePipe seen (tabled.not_client_of_input (tabled.input_use found open_)) calls
      listeners pollfds clients

/-- The pipe from a script is closed. -/
theorem Sound.closeOutput (sound : Sound server) (seen : server.view fd = some (client, events))
    (open_ : 0 ≤ client.cgiOutputFd)
    (calls : after.calls = server.calls ++ [.closed client.cgiOutputFd])
    (listeners : after.listeners = server.listeners)
    (pollfds : after.pollfds = server.pollfds.eraseP (·.fd == client.cgiOutputFd))
    (inputs : after.cgiInputOwners = server.cgiInputOwners)
    (outputs : after.cgiOutputOwners = server.cgiOutputOwners.erase client.cgiOutputFd)
    (clients : after.clients = server.clients.insert fd { client with cgiOutputFd := -1 }) :
    Sound after ∧ Moves server after fd (some ({ client with cgiOutputFd := -1 }, events))
      [.closed client.cgiOutputFd] := by
  rcases sound with ⟨uses, tabled⟩
  have found := found_of_view seen
  constructor
  · exact ⟨_, tabled.closeOutput found open_ listeners pollfds calls inputs outputs clients rfl rfl
      rfl rfl⟩
  · exact .closePipe seen (tabled.not_client_of_output (tabled.output_use found open_)) calls
      listeners pollfds clients

theorem Sound.dropCgiInput (sound : Sound server) (seen : server.view fd = some (client, events))
    (open_ : 0 ≤ client.cgiInputFd) :
    Sound (server.dropCgiInput fd) ∧ Moves server (server.dropCgiInput fd) fd
      (some ({ client with cgiInputFd := -1 }, events)) [.closed client.cgiInputFd] := by
  have closed : ¬client.cgiInputFd < 0 := by omega
  simp only [Server.dropCgiInput, clientAt_of_view seen, if_neg closed]
  exact sound.closeInput seen open_ rfl rfl rfl rfl rfl rfl

theorem Sound.dropCgiOutput (sound : Sound server) (seen : server.view fd = some (client, events))
    (open_ : 0 ≤ client.cgiOutputFd) :
    Sound (server.dropCgiOutput fd) ∧ Moves server (server.dropCgiOutput fd) fd
      (some ({ client with cgiOutputFd := -1 }, events)) [.closed client.cgiOutputFd] := by
  have closed : ¬client.cgiOutputFd < 0 := by omega
  simp only [Server.dropCgiOutput, clientAt_of_view seen, if_neg closed]
  exact sound.closeOutput seen open_ rfl rfl rfl rfl rfl rfl

/-- Only a client with a script has pipes. -/
theorem Sound.idle (sound : Sound server) (found : server.clients[fd]? = some client)
    (idle : client.cgiPid ≤ 0) : client.cgiInputFd < 0 ∧ client.cgiOutputFd < 0 := by
  rcases sound with ⟨uses, tabled⟩
  exact tabled.idle fd client found idle

theorem Sound.running (sound : Sound server) (found : server.clients[fd]? = some client)
    (open_ : 0 ≤ client.cgiInputFd ∨ 0 ≤ client.cgiOutputFd) : 0 < client.cgiPid := by
  by_contra idle
  have closed := sound.idle found (by omega)
  omega

/-- The pipe to a script is closed, and its output is waited for. -/
theorem Sound.endCgiInput (sound : Sound server) (seen : server.view fd = some (client, events))
    (open_ : 0 ≤ client.cgiInputFd) :
    Sound (server.endCgiInput client.cgiInputFd fd) ∧
      Moves server (server.endCgiInput client.cgiInputFd fd) fd
        (some ({ client with cgiInputFd := -1, phase := .cgiReading }, events))
        [.closed client.cgiInputFd] := by
  have here : (server.close client.cgiInputFd).clientAt fd = client := clientAt_of_view seen
  let dropped := (server.close client.cgiInputFd).setClient fd { client with cgiInputFd := -1 }
  let removed := { dropped with
    cgiInputOwners := dropped.cgiInputOwners.erase client.cgiInputFd }.removePollFd
      client.cgiInputFd
  have closed : Sound removed ∧ Moves server removed fd
      (some ({ client with cgiInputFd := -1 }, events)) [.closed client.cgiInputFd] :=
    sound.closeInput seen open_ rfl rfl rfl rfl rfl rfl
  have phased : server.endCgiInput client.cgiInputFd fd =
      removed.setClient fd { client with cgiInputFd := -1, phase := .cgiReading } := by
    rw [Server.endCgiInput, here, setPhase, show clientAt _ fd = _ from
      clientAt_of_view closed.2.self]
  rw [phased]
  constructor
  · exact closed.1.updateClient (found_of_view closed.2.self) rfl rfl rfl rfl
  · exact closed.2.trans (.setClient_view closed.2.self _)

/-- The output of a script is over. -/
theorem Sound.endCgiOutput (sound : Sound server) (seen : server.view fd = some (client, events))
    (open_ : 0 ≤ client.cgiOutputFd) :
    let closed := (server.close client.cgiOutputFd).record (.drained fd)
    let dropped := closed.setClient fd { closed.clientAt fd with cgiOutputFd := -1 }
    let erased :=
      { dropped with cgiOutputOwners := dropped.cgiOutputOwners.erase client.cgiOutputFd }
    Sound (erased.removePollFd client.cgiOutputFd) ∧
      Moves server (erased.removePollFd client.cgiOutputFd) fd
        (some ({ client with cgiOutputFd := -1 }, events))
        [.closed client.cgiOutputFd, .drained fd] := by
  have here : clientAt ((server.close client.cgiOutputFd).record (.drained fd)) fd = client :=
    clientAt_of_view seen
  simp only [here]
  let dropped := (server.close client.cgiOutputFd).setClient fd { client with cgiOutputFd := -1 }
  let removed := { dropped with
    cgiOutputOwners := dropped.cgiOutputOwners.erase client.cgiOutputFd }.removePollFd
      client.cgiOutputFd
  have closed : Sound removed ∧ Moves server removed fd
      (some ({ client with cgiOutputFd := -1 }, events)) [.closed client.cgiOutputFd] :=
    sound.closeOutput seen open_ rfl rfl rfl rfl rfl rfl
  have recorded := Moves.record removed fd (.drained fd)
  rw [closed.2.self] at recorded
  have drained : Sound (removed.record (.drained fd)) := closed.1.record rfl
  exact ⟨drained, closed.2.trans recorded⟩

/-! ## Responses -/

theorem Moves.respond (seen : server.view fd = some (client, events)) (response : Bytes) :
    Moves server (server.respond fd response) fd (some ({ client with output := response }, events))
      [.serialized fd response] := by
  have recorded := Moves.record server fd (.serialized fd response)
  have found : (server.record (.serialized fd response)).view fd = some (client, events) := seen
  rw [Server.respond, clientAt_of_view seen]
  exact recorded.trans (.setClient_view found { client with output := response })

theorem Sound.respond (sound : Sound server) (seen : server.view fd = some (client, events))
    (response : Bytes) : Sound (server.respond fd response) := by
  have found : (server.record (.serialized fd response)).clients[fd]? = some client :=
    found_of_view seen
  rw [Server.respond, clientAt_of_view seen]
  exact (sound.record rfl).updateClient found rfl rfl rfl rfl

theorem Sound.respondWith (sound : Sound server)
    (seen : server.view fd = some (client, events)) (response : Bytes) (changed : Client)
    (named : changed.fd = client.fd) (input : changed.cgiInputFd = client.cgiInputFd)
    (output : changed.cgiOutputFd = client.cgiOutputFd)
    (idle : changed.cgiPid ≤ 0 → changed.cgiInputFd < 0 ∧ changed.cgiOutputFd < 0) :
    Sound ((server.respond fd response).setClient fd changed) :=
  (sound.respond seen response).setClient (found_of_view (Moves.respond seen response).self)
    named input output idle

theorem Moves.respondWith (seen : server.view fd = some (client, events)) (response : Bytes)
    (changed : Client) :
    Moves server ((server.respond fd response).setClient fd changed) fd (some (changed, events))
      [.serialized fd response] := by
  have responded := Moves.respond seen response
  exact responded.trans (.setClient_view responded.self changed)

/-- A client gets its response, and is polled for the sending of it. -/
theorem Moves.answer (sound : Sound server) (moves : Moves before server fd view new)
    (seen : view = some (changed, events)) (polled : PollFlags) :
    Moves before (server.setEventsAll fd polled) fd (some (changed, polled)) new := by
  rw [← List.append_nil new]
  exact moves.trans (.setEvents sound (moves.self.trans seen) polled)

/-- The client is erased, once it has no script any more. -/
theorem Sound.removeClient (sound : Sound server) (seen : server.view fd = some (client, events))
    (input : client.cgiInputFd < 0) (output : client.cgiOutputFd < 0)
    (calls : after.calls = server.calls ++ [.closed fd])
    (listeners : after.listeners = server.listeners)
    (pollfds : after.pollfds = server.pollfds.eraseP (·.fd == fd))
    (inputs : after.cgiInputOwners = server.cgiInputOwners)
    (outputs : after.cgiOutputOwners = server.cgiOutputOwners)
    (clients : after.clients = server.clients.erase fd) :
    Sound after ∧ Moves server after fd none [.closed fd] := by
  rcases sound with ⟨uses, tabled⟩
  constructor
  · exact ⟨_, tabled.removeClient (found_of_view seen) input output listeners pollfds calls inputs
      outputs clients⟩
  · constructor
    · exact calls
    · exact listeners
    · rw [view_eq_none_iff, clients, ExtTreeMap.getElem?_erase_self]
    · intro other different
      apply view_of_same
      · rw [clients, ExtTreeMap.getElem?_erase, if_neg]
        rw [LawfulEqOrd.compare_eq_iff_eq]
        exact Ne.symm different
      · rw [eventsOf, eventsOf, pollfds, find_eraseP different]
    · exact pollfds ▸ .remove _ _

/-! ## Operations that open descriptors -/

theorem Tabled.opens (tabled : Tabled server uses) :
    Opens server.calls (openFds server.calls) :=
  ⟨rfl, tabled.once⟩

theorem isFresh_iff : server.isFresh fd = true ↔ 0 ≤ fd ∧ fd ∉ openFds server.calls := by
  simp [isFresh]

/-- A descriptor that is not open is not of a client. -/
theorem Sound.view_of_fresh (sound : Sound server) (fresh : fd ∉ openFds server.calls) :
    server.view fd = none := by
  rcases sound with ⟨uses, tabled⟩
  rw [view_eq_none_iff]
  cases found : server.clients[fd]? with
  | none => rfl
  | some client =>
      rw [tabled.opened, tabled.use_of_found found] at fresh
      simp at fresh

theorem Sound.unlisted (sound : Sound server) (fresh : fd ∉ openFds server.calls) :
    fd ∉ server.pollfds.map (·.fd) := by
  rcases sound with ⟨uses, tabled⟩
  rw [tabled.polled, tabled.free_of_fresh fresh]
  simp

/-- A connection that is closed at once. -/
theorem Sound.refuse (sound : Sound server) (fresh : fd ∉ openFds server.calls) :
    Sound ((server.record (.opened fd)).close fd) ∧
      Moves server ((server.record (.opened fd)).close fd) fd none [.opened fd, .closed fd] := by
  have absent := sound.view_of_fresh fresh
  constructor
  · rcases sound with ⟨uses, tabled⟩
    have opens : Opens (server.calls ++ [.opened fd, .closed fd]) (openFds server.calls) :=
      tabled.opens.extend (by simp [follow, fresh])
    have recalled := tabled.remember opens (.refl _)
    rw [List.append_cons] at recalled
    exact ⟨uses, recalled⟩
  · have moves := (Moves.record server fd (.opened fd)).trans
      (.record (server.record (.opened fd)) fd (.closed fd))
    rwa [show (server.record (.opened fd)).view fd = none from absent] at moves

/-- A connection that is kept. -/
theorem Sound.keep (sound : Sound server) (nonneg : 0 ≤ fd) (fresh : fd ∉ openFds server.calls)
    (config : Option ServerConfig) (now : Int) :
    let kept := ((server.record (.opened fd)).record (.accepted fd)).setClient fd
      { fd := fd, config := config, touched := now }
    Sound (kept.pushPollFd fd pollIn) ∧
      Moves server (kept.pushPollFd fd pollIn) fd
        (some ({ fd := fd, config := config, touched := now }, pollIn))
        [.opened fd, .accepted fd] := by
  intro kept
  rcases sound with ⟨uses, tabled⟩
  have opens : Opens (server.calls ++ [.opened fd] ++ [.accepted fd])
      (fd :: openFds server.calls) :=
    (tabled.opens.extend (by simp [follow, fresh])).extend rfl
  have free := tabled.free_of_fresh fresh
  have absent : fd ∉ server.pollfds.map (·.fd) := by
    rw [tabled.polled, free]
    simp
  have stored (key : Int) (different : key ≠ fd) : kept.clients[key]? = server.clients[key]? :=
    getElem?_insert_of_ne _ different
  have self : kept.clients[fd]? = some { fd := fd, config := config, touched := now } :=
    ExtTreeMap.getElem?_insert_self
  have owned (key : Int) (value : Client) (there : kept.clients[key]? = some value) :
      value = { fd := fd, config := config, touched := now } ∧ key = fd ∨
        key ≠ fd ∧ server.clients[key]? = some value := by
    by_cases same : key = fd
    · subst same
      rw [self, Option.some.injEq] at there
      exact .inl ⟨there.symm, rfl⟩
    · exact .inr ⟨same, (stored key same).symm.trans there⟩
  have unowned : server.clients[fd]? = none := by
    have unseen := Sound.view_of_fresh ⟨uses, tabled⟩ fresh
    exact view_eq_none_iff.mp unseen
  have keeps (pipeOf : Client → Int)
      (closed : pipeOf { fd := fd, config := config, touched := now } < 0) (key owner : Int)
      (known : 0 ≤ key) : (∃ value, kept.clients[owner]? = some value ∧ pipeOf value = key) ↔
        ∃ value, server.clients[owner]? = some value ∧ pipeOf value = key := by
    constructor
    · rintro ⟨value, there, rfl⟩
      rcases owned owner value there with ⟨rfl, _⟩ | ⟨_, before⟩
      · omega
      · exact ⟨value, before, rfl⟩
    · rintro ⟨value, before, same⟩
      refine ⟨value, ?_, same⟩
      rw [stored, before]
      rintro rfl
      rw [unowned] at before
      cases before
  constructor
  · refine ⟨_, tabled.occupy free nonneg .client (by simp) opens (.refl _) rfl rfl
      ?_ ?_ ?_ ?_ ?_ ?_ ?_⟩
    · intro key
      simp only [kept, pushPollFd, Server.setClient, ExtTreeMap.mem_insert,
        LawfulEqOrd.compare_eq_iff_eq, and_true]
      exact ⟨Or.symm ∘ Or.imp_left Eq.symm, Or.imp_left Eq.symm ∘ Or.symm⟩
    · simp [kept, pushPollFd, Server.setClient, Server.record]
    · simp [kept, pushPollFd, Server.setClient, Server.record]
    · intro key owner known
      exact (keeps Client.cgiInputFd (by simp) key owner known).trans (by simp [HasInput])
    · intro key owner known
      exact (keeps Client.cgiOutputFd (by simp) key owner known).trans (by simp [HasOutput])
    · intro key value there
      rcases owned key value there with ⟨rfl, rfl⟩ | ⟨_, before⟩
      · rfl
      · exact tabled.named key value before
    · intro key value there idle
      rcases owned key value there with ⟨rfl, _⟩ | ⟨_, before⟩
      · simp
      · exact tabled.idle key value before idle
  · constructor
    · exact List.append_assoc _ _ _
    · rfl
    · rw [view_eq_some_iff]
      exact ⟨self, eventsOf_pushPollFd_self absent pollIn⟩
    · intro other different
      exact view_of_same (stored other different) (eventsOf_pushPollFd different pollIn)
    · exact .push _ _ _

/-! ## Starting scripts -/

theorem freshPipe_iff {ends : Int × Int} : server.freshPipe ends = true ↔
    (0 ≤ ends.1 ∧ ends.1 ∉ openFds server.calls) ∧ (0 ≤ ends.2 ∧ ends.2 ∉ openFds server.calls) ∧
      ends.1 ≠ ends.2 := by
  simp [freshPipe, isFresh_iff, and_assoc]

/-- The ends of the two pipes, and the descriptors that were open before. -/
theorem nodup_pipes {inputEnds outputEnds : Int × Int} (sound : Sound server)
    (first : server.freshPipe inputEnds = true)
    (second : (server.openPipe inputEnds).freshPipe outputEnds = true) :
    (outputEnds.2 :: outputEnds.1 :: inputEnds.2 :: inputEnds.1 :: openFds server.calls).Nodup ∧
      0 ≤ inputEnds.2 ∧ 0 ≤ outputEnds.1 := by
  rcases sound with ⟨uses, tabled⟩
  rw [freshPipe_iff] at first second
  have opened : openFds (server.openPipe inputEnds).calls =
      inputEnds.2 :: inputEnds.1 :: openFds server.calls := by
    simp only [openPipe, record, openFds_opened]
  rw [opened] at second
  have nodup := tabled.openNodup
  refine ⟨?_, first.2.1.1, second.1.1⟩
  simp only [List.nodup_cons, List.mem_cons, not_or] at second ⊢
  tauto

/-- Nothing is left of an attempt to start a script. -/
def FailsToStart (server after : Server) : Prop :=
  ∃ attempt, Attempt attempt ∧ Opens (server.calls ++ attempt) (openFds server.calls) ∧
    after = { server with calls := server.calls ++ attempt } ∧
    ∀ pid, .forked pid ∈ attempt → 0 < pid ∧ pid ∉ children server.calls

/-- One end of each pipe is left to a new process. -/
structure StartsProcess (server after : Server) (process : CgiProcess)
    (opening closing : List Call) : Prop where
  opens : ∀ call ∈ opening, call.isFile = true
  closes : ∀ call ∈ closing, call.isFile = true
  open_ : Opens (server.calls ++ (opening ++ .forked process.pid :: closing))
    (process.outputFd :: process.inputFd :: openFds server.calls)
  same : after = { server with
    calls := server.calls ++ (opening ++ .forked process.pid :: closing) }
  positive : 0 < process.pid
  fresh : process.pid ∉ children server.calls
  input : 0 ≤ process.inputFd
  output : 0 ≤ process.outputFd
  nodup : (process.outputFd :: process.inputFd :: openFds server.calls).Nodup

/-- What `CgiHandler::start` leaves, by its result. -/
def StartOutcome (server : Server) : Server × Option CgiProcess → Prop
  | (after, none) => server.FailsToStart after
  | (after, some process) => ∃ opening closing, server.StartsProcess after process opening closing

theorem startProcess_outcome (sound : Sound server) {started : Started} (route : RouteResult)
    (fresh : server.startsFresh started = true) :
    server.StartOutcome (server.startProcess route started) := by
  have once : Lawful OpenedOnce server.calls := by
    rcases sound with ⟨uses, tabled⟩
    exact tabled.once
  have start : Opens server.calls (openFds server.calls) := ⟨rfl, once⟩
  have untried : server.FailsToStart server :=
    ⟨[], .early (by simp), by simpa using start, by simp, by simp⟩
  have plain (files : List Call) (plain : ∀ call ∈ files, call.isFile = true)
      (opens : Opens (server.calls ++ files) (openFds server.calls)) :
      server.FailsToStart { server with calls := server.calls ++ files } := by
    refine ⟨files, .early plain, opens, rfl, ?_⟩
    intro pid listed
    cases plain _ listed
  simp only [startsFresh, Bool.and_eq_true] at fresh
  rcases fresh with ⟨pipes, process⟩
  unfold startProcess
  split
  · exact untried
  · split
    next => exact untried
    next inputEnds givenInput _ =>
      simp only [givenInput, Option.all_some, Bool.and_eq_true, freshPipe_iff] at pipes
      rcases pipes with ⟨⟨⟨_, first⟩, ⟨_, second⟩, apart⟩, _⟩
      simpa [StartOutcome, closePipe, openPipe, close, record] using
        plain [.opened inputEnds.1, .opened inputEnds.2, .closed inputEnds.1, .closed inputEnds.2]
          (by simp [Call.isFile]) (start.extend (by
            simp [follow, first, second, apart, Ne.symm apart]))
    next inputEnds outputEnds givenInput givenOutput =>
      simp only [givenInput, givenOutput, Option.all_some, Bool.and_eq_true] at pipes
      rcases nodup_pipes sound pipes.1 pipes.2 with ⟨nodup, nonneg, nonnegOutput⟩
      have apart := nodup
      simp only [List.nodup_cons, List.mem_cons, not_or] at apart
      rcases apart with ⟨⟨_, _, _, _⟩, ⟨_, _, _⟩, ⟨_, _⟩, _, _⟩
      let opening : List Call := [.opened inputEnds.1, .opened inputEnds.2, .opened outputEnds.1,
        .opened outputEnds.2]
      have files : ∀ call ∈ opening, call.isFile = true := by simp [opening, Call.isFile]
      have opens : Opens (server.calls ++ opening) (outputEnds.2 :: outputEnds.1 ::
          inputEnds.2 :: inputEnds.1 :: openFds server.calls) :=
        start.extend (by simp [opening, follow, *])
      simp only
      split
      · let closing : List Call := [.closed inputEnds.1, .closed inputEnds.2, .closed outputEnds.1,
          .closed outputEnds.2]
        have closed : Opens (server.calls ++ opening ++ closing) (openFds server.calls) :=
          opens.extend (by simp [closing, follow, *])
        rw [List.append_assoc] at closed
        have failed := plain (opening ++ closing) (by simp [opening, closing, Call.isFile]) closed
        simpa only [opening, closing, StartOutcome, closePipe, openPipe, close, record,
          List.append_assoc, List.cons_append, List.nil_append] using failed
      · split
        next =>
          let closing : List Call := [.closed inputEnds.1, .closed outputEnds.2,
            .closed inputEnds.2, .closed outputEnds.1]
          have closed : Opens (server.calls ++ opening ++ closing) (openFds server.calls) :=
            opens.extend (by simp [closing, follow, *])
          rw [List.append_assoc] at closed
          have failed := plain (opening ++ closing) (by simp [opening, closing, Call.isFile]) closed
          simpa only [opening, closing, StartOutcome, closePipe, openPipe, close, record,
            List.append_assoc, List.cons_append, List.nil_append] using failed
        next pid forked =>
          simp only [forked, Option.all_some, Bool.and_eq_true, decide_eq_true_eq,
            Bool.not_eq_true', List.contains_eq_mem, decide_eq_false_iff_not] at process
          split
          · refine ⟨opening, [.closed inputEnds.1, .closed outputEnds.2], files,
              by simp [Call.isFile], ?_, ?_, process.1, process.2, nonneg, nonnegOutput, ?_⟩
            · rw [← List.append_assoc]
              exact opens.extend (by simp [follow, *])
            · simp only [opening, openPipe, close, record, List.append_assoc, List.cons_append,
                List.nil_append]
            · simp only [List.nodup_cons, List.mem_cons, not_or]
              tauto
          · let closing : List Call := [.closed inputEnds.1, .closed outputEnds.2,
              .closed inputEnds.2, .closed outputEnds.1]
            refine ⟨opening ++ .forked pid :: closing ++ [.killed pid, .reaped pid true],
              .late files (by simp [closing, Call.isFile]), ?_, ?_, ?_⟩
            · rw [List.append_assoc, ← List.append_assoc]
              exact opens.extend (by simp [closing, follow, *])
            · simp only [opening, closing, openPipe, close, record, List.append_assoc,
                List.cons_append, List.nil_append]
            · intro other listed
              have same : other = pid := by simpa [opening, closing] using listed
              exact same ▸ process

/-- The pipes of the clients when one client is changed. -/
theorem has_insert {clients : ExtTreeMap Int Client} (pipeOf : Client → Int)
    (changed : Client) (fd owner key : Int) :
    (∃ value, (clients.insert fd changed)[owner]? = some value ∧ pipeOf value = key) ↔
      (owner = fd ∧ pipeOf changed = key) ∨
        (owner ≠ fd ∧ ∃ value, clients[owner]? = some value ∧ pipeOf value = key) := by
  by_cases same : owner = fd
  · subst same
    simp
  · simp [getElem?_insert_of_ne changed same, same]

theorem stored_insert {clients : ExtTreeMap Int Client} {changed value : Client} {fd key : Int}
    (there : (clients.insert fd changed)[key]? = some value) :
    key = fd ∧ value = changed ∨ key ≠ fd ∧ clients[key]? = some value := by
  by_cases same : key = fd
  · subst same
    rw [ExtTreeMap.getElem?_insert_self, Option.some.injEq] at there
    exact .inl ⟨rfl, there.symm⟩
  · rw [getElem?_insert_of_ne changed same] at there
    exact .inr ⟨same, there⟩

theorem getElem?_insert_owner {owners : ExtTreeMap Int Int} {key owner : Int}
    (absent : owners[pipe]? = none) :
    (owners.insert pipe fd)[key]? = some owner ↔
      owners[key]? = some owner ∨ key = pipe ∧ fd = owner := by
  rw [ExtTreeMap.getElem?_insert]
  simp only [LawfulEqOrd.compare_eq_iff_eq]
  by_cases same : key = pipe
  · subst same
    simp [absent]
  · simp [same, Ne.symm same]

theorem Tabled.unowned_output (tabled : Tabled server uses) (free : uses pipe = none) :
    server.cgiOutputOwners[pipe]? = none := by
  cases owned : server.cgiOutputOwners[pipe]? with
  | none => rfl
  | some owner =>
      rw [tabled.outputOwners, free] at owned
      cases owned

theorem Tabled.unowned_input (tabled : Tabled server uses) (free : uses pipe = none) :
    server.cgiInputOwners[pipe]? = none := by
  cases owned : server.cgiInputOwners[pipe]? with
  | none => rfl
  | some owner =>
      rw [tabled.inputOwners, free] at owned
      cases owned

/-- A client gets the pipe from its script. -/
theorem Tabled.adoptOutput (tabled : Tabled server uses)
    (found : server.clients[fd]? = some client) (idle : client.cgiPid ≤ 0)
    (free : uses pipe = none) (nonneg : 0 ≤ pipe) {fds : List Int}
    (opens : Opens after.calls fds) (opened : fds.Perm (pipe :: openFds server.calls))
    (listeners : after.listeners = server.listeners)
    (pollfds : after.pollfds = server.pollfds ++ [{ fd := pipe, events := events }])
    (inputs : after.cgiInputOwners = server.cgiInputOwners)
    (outputs : after.cgiOutputOwners = server.cgiOutputOwners.insert pipe fd)
    (clients : ∀ key : Int, after.clients[key]? = (server.clients.insert fd changed)[key]?)
    (named : changed.fd = client.fd) (running : 0 < changed.cgiPid)
    (input : changed.cgiInputFd = -1) (output : changed.cgiOutputFd = pipe) :
    Tabled after (Function.update uses pipe (some (.output fd))) := by
  have closed := tabled.idle fd client found idle
  have clients : after.clients = server.clients.insert fd changed :=
    ExtTreeMap.ext_getElem? clients
  apply tabled.occupy free nonneg (.output fd) (by simp) opens opened listeners pollfds
  · intro key
    simp [mem_insert_of_found found clients]
  · intro key owner
    simp [inputs]
  · intro key owner
    rw [outputs, getElem?_insert_owner (tabled.unowned_output free)]
    simp [eq_comm]
  · intro key owner known
    rw [HasInput, clients, has_insert, HasInput]
    by_cases same : owner = fd
    · subst same
      simp [found, input]
      omega
    · simp [same]
  · intro key owner known
    rw [HasOutput, clients, has_insert, HasOutput]
    by_cases same : owner = fd
    · subst same
      simp [found, output]
      omega
    · simp [same, Ne.symm same]
  · intro key value there
    rw [clients] at there
    rcases stored_insert there with ⟨rfl, rfl⟩ | ⟨_, before⟩
    · rw [named, tabled.named key client found]
    · exact tabled.named key value before
  · intro key value there silent
    rw [clients] at there
    rcases stored_insert there with ⟨_, rfl⟩ | ⟨_, before⟩
    · omega
    · exact tabled.idle key value before silent

/-- A client with a script gets the pipe to it. -/
theorem Tabled.adoptInput (tabled : Tabled server uses)
    (found : server.clients[fd]? = some client) (without : client.cgiInputFd < 0)
    (free : uses pipe = none) (nonneg : 0 ≤ pipe) {fds : List Int}
    (opens : Opens after.calls fds) (opened : fds.Perm (pipe :: openFds server.calls))
    (listeners : after.listeners = server.listeners)
    (pollfds : after.pollfds = server.pollfds ++ [{ fd := pipe, events := events }])
    (inputs : after.cgiInputOwners = server.cgiInputOwners.insert pipe fd)
    (outputs : after.cgiOutputOwners = server.cgiOutputOwners)
    (clients : ∀ key : Int, after.clients[key]? = (server.clients.insert fd changed)[key]?)
    (named : changed.fd = client.fd) (running : 0 < changed.cgiPid)
    (input : changed.cgiInputFd = pipe) (output : changed.cgiOutputFd = client.cgiOutputFd) :
    Tabled after (Function.update uses pipe (some (.input fd))) := by
  have clients : after.clients = server.clients.insert fd changed :=
    ExtTreeMap.ext_getElem? clients
  apply tabled.occupy free nonneg (.input fd) (by simp) opens opened listeners pollfds
  · intro key
    simp [mem_insert_of_found found clients]
  · intro key owner
    rw [inputs, getElem?_insert_owner (tabled.unowned_input free)]
    simp [eq_comm]
  · intro key owner
    simp [outputs]
  · intro key owner known
    rw [HasInput, clients, has_insert, HasInput]
    by_cases same : owner = fd
    · subst same
      simp [found, input]
      omega
    · simp [same, Ne.symm same]
  · intro key owner known
    rw [HasOutput, clients, has_insert, HasOutput]
    by_cases same : owner = fd
    · subst same
      simp [found, output]
    · simp [same]
  · intro key value there
    rw [clients] at there
    rcases stored_insert there with ⟨rfl, rfl⟩ | ⟨_, before⟩
    · rw [named, tabled.named key client found]
    · exact tabled.named key value before
  · intro key value there silent
    rw [clients] at there
    rcases stored_insert there with ⟨_, rfl⟩ | ⟨_, before⟩
    · omega
    · exact tabled.idle key value before silent

/-- The client that a script has been started for. -/
def scripted (client : Client) (process : CgiProcess) (request : Request) (timeout : Nat)
    (now : Int) : Client :=
  { client with
    cgiPid := process.pid
    cgiInputFd := if request.body.isEmpty then -1 else process.inputFd
    cgiOutputFd := process.outputFd, cgiInput := request.body, cgiWritten := 0, cgiOutput := []
    touched := now, timeoutSeconds := timeout
    phase := if request.body.isEmpty then .cgiReading else .cgiWriting }

/-- The pipe to a script that gets nothing is closed at once. -/
def unusedInput (process : CgiProcess) (request : Request) : List Call :=
  if request.body.isEmpty then [.closed process.inputFd] else []

theorem insert_insert (table : ExtTreeMap Int Client) (fd : Int) (first second : Client) :
    (table.insert fd first).insert fd second = table.insert fd second := by
  apply ExtTreeMap.ext_getElem?
  intro key
  simp only [ExtTreeMap.getElem?_insert]
  split <;> rfl

/-- The tables with a new script. -/
theorem adoptProcess_eq {process : CgiProcess} {index : Nat} (here : server.clientAt fd = client)
    (request : Request) (timeout : Nat) (now : Int) :
    server.adoptProcess index fd request timeout now process =
      { server with
        clients := server.clients.insert fd (scripted client process request timeout now)
        pollfds := (server.pollfds.modify index ({ · with events := {} }) ++
            [{ fd := process.outputFd, events := pollIn }]) ++
          if request.body.isEmpty then [] else [{ fd := process.inputFd, events := pollOut }]
        cgiOutputOwners := server.cgiOutputOwners.insert process.outputFd fd
        cgiInputOwners :=
          if request.body.isEmpty then server.cgiInputOwners
          else server.cgiInputOwners.insert process.inputFd fd
        calls := server.calls ++ unusedInput process request } := by
  cases empty : request.body.isEmpty with
  | true =>
      have self (other : Client) (more : List Call) (table : List PollFd)
          (owners : ExtTreeMap Int Int) :
          clientAt { server with
            clients := server.clients.insert fd other, calls := more, pollfds := table
            cgiOutputOwners := owners } fd = other :=
        clientAt_of_found ExtTreeMap.getElem?_insert_self
      simp only [adoptProcess, here, empty, if_true, Server.setClient, setEventsAt, pushPollFd,
        close, record, self, insert_insert, List.append_nil, scripted, unusedInput]
  | false =>
      simp only [adoptProcess, here, empty, Bool.false_eq_true, if_false, Server.setClient,
        setEventsAt, pushPollFd, scripted, unusedInput, List.append_nil]

/-- A process is started and belongs to the client of an entry from then on. -/
theorem Sound.adoptProcess {process : CgiProcess} {opening closing : List Call} {index : Nat}
    {entry : PollFd} (sound : Sound server) (seen : server.view fd = some (client, events))
    (idle : client.cgiPid ≤ 0) (there : server.pollfds[index]? = some entry)
    (named : entry.fd = fd) (starts : server.StartsProcess before process opening closing)
    (request : Request) (timeout : Nat) (now : Int) :
    Sound (before.adoptProcess index fd request timeout now process) ∧
      Moves server (before.adoptProcess index fd request timeout now process) fd
        (some (scripted client process request timeout now, {}))
        (opening ++ .forked process.pid :: (closing ++ unusedInput process request)) := by
  have same := starts.same
  subst same
  have nodup := sound.nodup
  have moved := Moves.setEvents sound seen {}
  rcases sound with ⟨uses, tabled⟩
  have polled := tabled.setEventsAll fd {}
  have found := found_of_view seen
  have distinct := starts.nodup
  rw [List.nodup_cons, List.nodup_cons, List.mem_cons, not_or] at distinct
  rcases distinct with ⟨⟨apart, freshOutput⟩, freshInput, _⟩
  have freeOutput := tabled.free_of_fresh freshOutput
  have freeInput := tabled.free_of_fresh freshInput
  have absentOutput := view_eq_none_iff.mp (Sound.view_of_fresh ⟨uses, tabled⟩ freshOutput)
  have absentInput := view_eq_none_iff.mp (Sound.view_of_fresh ⟨uses, tabled⟩ freshInput)
  have here : clientAt { server with
      calls := server.calls ++ (opening ++ .forked process.pid :: closing) } fd = client :=
    clientAt_of_found found
  have split : server.pollfds.modify index ({ · with events := {} }) =
      (server.setEventsAll fd {}).pollfds := by
    rw [modify_eq nodup there, named]
    rfl
  have running : 0 < (scripted client process request timeout now).cgiPid := starts.positive
  rw [adoptProcess_eq here, split]
  cases empty : request.body.isEmpty with
  | true =>
      simp only [if_true, List.append_nil, unusedInput, empty]
      have opens : Opens (server.calls ++ (opening ++ .forked process.pid :: closing) ++
          [.closed process.inputFd]) (process.outputFd :: openFds server.calls) :=
        starts.open_.extend (by simp [follow, apart])
      have without : (scripted client process request timeout now).cgiInputFd = -1 := by
        simp [scripted, empty]
      constructor
      · exact ⟨_, polled.adoptOutput found idle freeOutput starts.output opens (.refl _) rfl rfl
          rfl rfl (fun _ => rfl) rfl running without rfl⟩
      · apply moved.trans
        refine .openPipe moved.self absentOutput ?_ rfl rfl fun _ => rfl
        simp [Server.setEventsAll]
  | false =>
      simp only [Bool.false_eq_true, if_false, List.append_nil, unusedInput, empty]
      let reading (calls : List Call) : Server :=
        { server with
          clients := server.clients.insert fd
            { scripted client process request timeout now with cgiInputFd := -1 }
          pollfds := (server.setEventsAll fd {}).pollfds ++
            [{ fd := process.outputFd, events := pollIn }]
          cgiOutputOwners := server.cgiOutputOwners.insert process.outputFd fd, calls := calls }
      have stored (calls : List Call) : (reading calls).clients[fd]? =
          some { scripted client process request timeout now with cgiInputFd := -1 } :=
        ExtTreeMap.getElem?_insert_self
      have opens : Opens (server.calls ++ [.opened process.outputFd])
          (process.outputFd :: openFds server.calls) :=
        tabled.opens.extend (by simp [follow, freshOutput])
      have first : Tabled (reading (server.calls ++ [.opened process.outputFd])) _ :=
        polled.adoptOutput found idle freeOutput starts.output opens (.refl _) rfl rfl rfl rfl
          (fun _ => rfl) rfl running rfl rfl
      have input : (scripted client process request timeout now).cgiInputFd = process.inputFd := by
        simp [scripted, empty]
      have clients (calls : List Call) (key : Int) :
          (server.clients.insert fd (scripted client process request timeout now))[key]? =
            ((reading calls).clients.insert fd
              (scripted client process request timeout now))[key]? := by
        rw [show (reading calls).clients = _ from rfl, insert_insert]
      constructor
      · refine ⟨_, first.adoptInput (stored _) (by simp) ?_ starts.input starts.open_ ?_ rfl rfl rfl
          rfl (clients _) rfl running input rfl⟩
        · rw [Function.update_of_ne (Ne.symm apart), freeInput]
        · rw [show openFds (reading _).calls = _ from opens.fds]
          exact .swap _ _ _
      · have opened : Moves (server.setEventsAll fd {}) (reading server.calls) fd
            (some ({ scripted client process request timeout now with cgiInputFd := -1 }, {})) [] :=
          .openPipe moved.self absentOutput (by simp [reading, Server.setEventsAll]) rfl rfl
            fun _ => rfl
        apply (moved.trans opened).trans
        have different : process.inputFd ≠ fd := by
          rintro rfl
          rw [found] at absentInput
          cases absentInput
        refine .openPipe opened.self ?_ rfl rfl rfl (clients server.calls)
        rw [show (reading server.calls).clients = _ from rfl, getElem?_insert_of_ne _ different,
          absentInput]

end Server

end IrcPlatform.Webserv
