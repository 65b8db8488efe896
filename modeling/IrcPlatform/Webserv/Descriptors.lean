import IrcPlatform.Library.Ledger
import IrcPlatform.Webserv.ServerRun

/-!
# Descriptors

What every open descriptor is used for. The poll table, the tables of clients and pipe owners
and the record of the system calls agree with it; each operation of the event loop changes the
use of the descriptors that it opens or closes, and shows one connection in a new state.
-/

namespace IrcPlatform.Webserv

open Std

inductive Use where
  | listener
  | client
  | input (owner : Int)
  | output (owner : Int)
deriving DecidableEq

/-- What a call must find: only descriptors that are not open are opened, and only open ones
closed. -/
def OpenedOnce (early : List Call) : Call → Prop
  | .opened fd => fd ∉ Server.openFds early
  | .closed fd => fd ∈ Server.openFds early
  | _ => True

/-- A call that opens and closes nothing. -/
def Call.isPlain : Call → Bool
  | .opened _ | .closed _ => false
  | _ => true

namespace Server

/-- The events that a descriptor is polled for. -/
def eventsOf (server : Server) (fd : Int) : PollFlags :=
  ((server.pollfds.find? (·.fd == fd)).map (·.events)).getD {}

/-- A connection: its client, and the events that its socket is polled for. -/
def view (server : Server) (fd : Int) : Option (Client × PollFlags) :=
  server.clients[fd]?.map fun client => (client, server.eventsOf fd)

/-- The client has a script whose standard input is the pipe. -/
def HasInput (server : Server) (owner pipe : Int) : Prop :=
  ∃ client, server.clients[owner]? = some client ∧ client.cgiInputFd = pipe

def HasOutput (server : Server) (owner pipe : Int) : Prop :=
  ∃ client, server.clients[owner]? = some client ∧ client.cgiOutputFd = pipe

/-- The tables agree with the uses. -/
structure Tabled (server : Server) (uses : Int → Option Use) : Prop where
  nodup : (server.pollfds.map (·.fd)).Nodup
  polled : ∀ fd, fd ∈ server.pollfds.map (·.fd) ↔ uses fd ≠ none
  listener : ∀ fd, uses fd = some .listener ↔ fd ∈ server.listeners.map (·.fd)
  client : ∀ fd, uses fd = some .client ↔ fd ∈ server.clients
  inputOwners : ∀ pipe owner : Int,
    server.cgiInputOwners[pipe]? = some owner ↔ uses pipe = some (.input owner)
  outputOwners : ∀ pipe owner : Int,
    server.cgiOutputOwners[pipe]? = some owner ↔ uses pipe = some (.output owner)
  input : ∀ pipe owner, uses pipe = some (.input owner) ↔ 0 ≤ pipe ∧ server.HasInput owner pipe
  output : ∀ pipe owner, uses pipe = some (.output owner) ↔
    0 ≤ pipe ∧ server.HasOutput owner pipe
  nonneg : ∀ fd, uses fd ≠ none → 0 ≤ fd
  named : ∀ (fd : Int) (client : Client), server.clients[fd]? = some client → client.fd = fd
  idle : ∀ (fd : Int) (client : Client), server.clients[fd]? = some client → client.cgiPid ≤ 0 →
    client.cgiInputFd < 0 ∧ client.cgiOutputFd < 0
  opened : ∀ fd, fd ∈ openFds server.calls ↔ uses fd ≠ none
  openNodup : (openFds server.calls).Nodup
  once : Lawful OpenedOnce server.calls

/-- The entries of a poll table as the scan sees them. -/
def keys (pollfds : List PollFd) : List (Int × PollFlags) :=
  pollfds.map fun entry => (entry.fd, entry.revents)

/-- Entries have been removed, and new ones without events added at the end. -/
def Thinned (before after : List PollFd) : Prop :=
  ∃ kept pushed, List.Sublist kept (keys before) ∧ keys after = kept ++ pushed ∧
    ∀ entry ∈ pushed, entry.2 = {}

/-- One connection is seen in another state, after some calls. -/
structure Moves (before after : Server) (fd : Int) (view : Option (Client × PollFlags))
    (new : List Call) : Prop where
  calls : after.calls = before.calls ++ new
  listeners : after.listeners = before.listeners
  self : after.view fd = view
  others : ∀ other, other ≠ fd → after.view other = before.view other
  thinned : Thinned before.pollfds after.pollfds

variable {server before between after : Server} {uses : Int → Option Use} {fd pipe owner : Int}
  {client : Client} {events : PollFlags} {call : Call} {calls new : List Call}

/-! ## Calls -/

theorem openFds_append (calls more : List Call) : openFds (calls ++ more) =
    more.foldl
      (fun fds call =>
        match call with
        | .opened fd => fd :: fds
        | .closed fd => fds.erase fd
        | _ => fds)
      (openFds calls) := List.foldl_append

theorem children_append (calls more : List Call) : children (calls ++ more) =
    more.foldl
      (fun pids call =>
        match call with
        | .forked pid => pid :: pids
        | .reaped pid _ => pids.erase pid
        | _ => pids)
      (children calls) := List.foldl_append

theorem openFds_plain (plain : ∀ call ∈ new, call.isPlain = true) :
    openFds (calls ++ new) = openFds calls := by
  induction new generalizing calls with
  | nil => rw [List.append_nil]
  | cons call rest ih =>
      rw [List.append_cons, ih fun other listed => plain other (List.mem_cons_of_mem _ listed)]
      have here := plain call List.mem_cons_self
      cases call <;> simp_all [openFds_append, Call.isPlain]

theorem openFds_opened (fd : Int) : openFds (calls ++ [.opened fd]) = fd :: openFds calls := by
  rw [openFds_append]
  rfl

theorem openFds_closed (fd : Int) :
    openFds (calls ++ [.closed fd]) = (openFds calls).erase fd := by
  rw [openFds_append]
  rfl

theorem lawful_plain (lawful : Lawful OpenedOnce calls)
    (plain : ∀ call ∈ new, call.isPlain = true) : Lawful OpenedOnce (calls ++ new) := by
  apply lawful.append
  intro early call listed
  have here := plain call listed
  cases call <;> simp_all [OpenedOnce, Call.isPlain]

/-- The descriptors that are open after the calls, each of which was possible. -/
structure Opens (calls : List Call) (fds : List Int) : Prop where
  fds : openFds calls = fds
  once : Lawful OpenedOnce calls

/-- The descriptors that are open after more calls; `none` where one of the calls is impossible. -/
def follow : List Call → List Int → Option (List Int)
  | [], fds => some fds
  | .opened fd :: rest, fds => if fd ∈ fds then none else follow rest (fd :: fds)
  | .closed fd :: rest, fds => if fd ∈ fds then follow rest (fds.erase fd) else none
  | _ :: rest, fds => follow rest fds

theorem Opens.extend {fds later : List Int} (opens : Opens calls fds)
    (possible : follow new fds = some later) : Opens (calls ++ new) later := by
  induction new generalizing calls fds with
  | nil =>
      rw [follow, Option.some.injEq] at possible
      rwa [List.append_nil, ← possible]
  | cons call rest ih =>
      rw [List.append_cons]
      cases call with
      | opened fd =>
          rw [follow] at possible
          split at possible
          next => cases possible
          next fresh =>
            refine ih ⟨by rw [openFds_opened, opens.fds], opens.once.concat ?_⟩ possible
            rwa [OpenedOnce, opens.fds]
      | closed fd =>
          rw [follow] at possible
          split at possible
          next open_ =>
            refine ih ⟨by rw [openFds_closed, opens.fds], opens.once.concat ?_⟩ possible
            rwa [OpenedOnce, opens.fds]
          next => cases possible
      | _ =>
          apply ih _ possible
          exact ⟨(openFds_plain (by simp [Call.isPlain])).trans opens.fds,
            opens.once.concat trivial⟩

/-! ## Poll tables -/

theorem find_eraseP {pollfds : List PollFd} (different : fd ≠ pipe) :
    (pollfds.eraseP (·.fd == pipe)).find? (·.fd == fd) = pollfds.find? (·.fd == fd) := by
  induction pollfds with
  | nil => rfl
  | cons entry rest ih =>
      by_cases here : entry.fd = pipe
      · have other : (entry.fd == fd) = false := by
          rw [here]
          exact beq_eq_false_iff_ne.mpr (Ne.symm different)
        rw [List.eraseP_cons_of_pos (by simpa using here), List.find?_cons, other]
      · rw [List.eraseP_cons_of_neg (by simpa using here), List.find?_cons, List.find?_cons, ih]

theorem map_fd_eraseP (pollfds : List PollFd) (pipe : Int) :
    (pollfds.eraseP (·.fd == pipe)).map (·.fd) = (pollfds.map (·.fd)).erase pipe := by
  induction pollfds with
  | nil => rfl
  | cons entry rest ih =>
      by_cases here : entry.fd = pipe
      · rw [List.eraseP_cons_of_pos (by simpa using here), List.map_cons, here,
          List.erase_cons_head]
      · rw [List.eraseP_cons_of_neg (by simpa using here), List.map_cons, List.map_cons, ih,
          List.erase_cons_tail (by simpa using here)]

theorem eventsOf_of_pollfds (same : after.pollfds = before.pollfds) (fd : Int) :
    after.eventsOf fd = before.eventsOf fd := by
  rw [eventsOf, eventsOf, same]

theorem eventsOf_pushPollFd (different : fd ≠ pipe) (events : PollFlags) :
    (server.pushPollFd pipe events).eventsOf fd = server.eventsOf fd := by
  have other : (pipe == fd) = false := beq_eq_false_iff_ne.mpr (Ne.symm different)
  simp only [eventsOf, pushPollFd, List.find?_append]
  rw [List.find?_cons, other, List.find?_nil, Option.or_none]

theorem eventsOf_pushPollFd_self (absent : fd ∉ server.pollfds.map (·.fd))
    (events : PollFlags) : (server.pushPollFd fd events).eventsOf fd = events := by
  have none : server.pollfds.find? (·.fd == fd) = none := by
    rw [List.find?_eq_none]
    intro entry listed
    simp only [beq_iff_eq]
    rintro rfl
    exact absent (List.mem_map_of_mem listed)
  simp [eventsOf, pushPollFd, none]

theorem find_setEvents (pollfds : List PollFd) (fd other : Int) (events : PollFlags) :
    (pollfds.map fun entry =>
      if entry.fd = fd then { entry with events := events } else entry).find?
        (·.fd == other) =
      (pollfds.find? (·.fd == other)).map fun entry =>
        if entry.fd = fd then { entry with events := events } else entry := by
  rw [List.find?_map]
  congr 1
  congr 1
  funext entry
  simp only [Function.comp_apply]
  split <;> rfl

theorem eventsOf_setEventsAll (different : fd ≠ pipe) (events : PollFlags) :
    (server.setEventsAll pipe events).eventsOf fd = server.eventsOf fd := by
  simp only [eventsOf, setEventsAll, find_setEvents, Option.map_map]
  cases found : server.pollfds.find? (·.fd == fd) with
  | none => rfl
  | some entry =>
      have named : entry.fd = fd := by simpa using List.find?_some found
      simp [named, different]

theorem eventsOf_setEventsAll_self (listed : fd ∈ server.pollfds.map (·.fd))
    (events : PollFlags) : (server.setEventsAll fd events).eventsOf fd = events := by
  simp only [eventsOf, setEventsAll, find_setEvents, Option.map_map]
  cases found : server.pollfds.find? (·.fd == fd) with
  | none =>
      rw [List.find?_eq_none] at found
      rcases List.mem_map.mp listed with ⟨entry, inside, rfl⟩
      exact absurd (found entry inside) (by simp)
  | some entry =>
      have named : entry.fd = fd := by simpa using List.find?_some found
      simp [named]

theorem map_fd_setEvents (pollfds : List PollFd) (fd : Int) (events : PollFlags) :
    (pollfds.map fun entry =>
      if entry.fd = fd then { entry with events := events } else entry).map (·.fd) =
        pollfds.map (·.fd) := by
  rw [List.map_map]
  apply List.map_congr_left
  intro entry _
  simp only [Function.comp_apply]
  split <;> rfl

theorem keys_setEvents (pollfds : List PollFd) (fd : Int) (events : PollFlags) :
    keys (pollfds.map fun entry =>
      if entry.fd = fd then { entry with events := events } else entry) = keys pollfds := by
  rw [keys, keys, List.map_map]
  apply List.map_congr_left
  intro entry _
  simp only [Function.comp_apply]
  split <;> rfl

/-- With one entry for each descriptor, the three ways of changing events agree. -/
theorem changeFirst_eq {pollfds : List PollFd} (nodup : (pollfds.map (·.fd)).Nodup) :
    changeFirst fd events pollfds =
      pollfds.map fun entry =>
        if entry.fd = fd then { entry with events := events } else entry := by
  induction pollfds with
  | nil => rfl
  | cons entry rest ih =>
      rw [List.map_cons, List.nodup_cons] at nodup
      rw [changeFirst, List.map_cons]
      split
      next here =>
        have untouched : ∀ other ∈ rest,
            (if other.fd = fd then { other with events := events } else other) = id other := by
          intro other listed
          rw [if_neg, id]
          rintro rfl
          exact nodup.1 (here ▸ List.mem_map_of_mem listed)
        rw [List.map_congr_left untouched, List.map_id]
      · rw [ih nodup.2]

theorem modify_eq {pollfds : List PollFd} {index : Nat} {entry : PollFd}
    (nodup : (pollfds.map (·.fd)).Nodup) (there : pollfds[index]? = some entry) :
    pollfds.modify index ({ · with events := events }) =
      pollfds.map fun other =>
        if other.fd = entry.fd then { other with events := events } else other := by
  apply List.ext_getElem?
  intro position
  rw [List.getElem?_modify, List.getElem?_map]
  cases found : pollfds[position]? with
  | none => rfl
  | some other =>
      by_cases here : index = position
      · subst here
        rw [there, Option.some.injEq] at found
        simp [found]
      · have different : other.fd ≠ entry.fd := by
          intro same
          apply here
          have first : (pollfds.map (·.fd))[index]? = some entry.fd := by simp [there]
          have second : (pollfds.map (·.fd))[position]? = some entry.fd := by simp [found, same]
          have inside := (List.getElem?_eq_some_iff.mp first).1
          exact (List.getElem?_inj inside nodup).mp (first.trans second.symm)
        simp [here, different]

theorem Thinned.refl (pollfds : List PollFd) : Thinned pollfds pollfds :=
  ⟨keys pollfds, [], List.Sublist.refl _, (List.append_nil _).symm, by simp⟩

theorem Thinned.of_keys {first second : List PollFd} (same : keys second = keys first) :
    Thinned first second :=
  ⟨keys first, [], List.Sublist.refl _, by rw [List.append_nil, same], by simp⟩

theorem Thinned.trans {first second third : List PollFd} (start : Thinned first second)
    (rest : Thinned second third) : Thinned first third := by
  rcases start with ⟨kept, pushed, sublist, whole, plain⟩
  rcases rest with ⟨keptLater, pushedLater, sublistLater, wholeLater, plainLater⟩
  rw [whole, List.sublist_append_iff] at sublistLater
  rcases sublistLater with ⟨early, late, rfl, inKept, inPushed⟩
  refine ⟨early, late ++ pushedLater, inKept.trans sublist, ?_, ?_⟩
  · rw [wholeLater, List.append_assoc]
  · intro entry listed
    rcases List.mem_append.mp listed with inLate | inLater
    · exact plain entry (inPushed.mem inLate)
    · exact plainLater entry inLater

theorem Thinned.remove (pollfds : List PollFd) (fd : Int) :
    Thinned pollfds (pollfds.eraseP (·.fd == fd)) :=
  ⟨keys (pollfds.eraseP (·.fd == fd)), [], List.eraseP_sublist.map _,
    (List.append_nil _).symm, by simp⟩

theorem Thinned.push (pollfds : List PollFd) (fd : Int) (events : PollFlags) :
    Thinned pollfds (pollfds ++ [{ fd := fd, events := events }]) :=
  ⟨keys pollfds, [(fd, {})], List.Sublist.refl _, by simp [keys], by simp⟩

/-! ## Connections -/

theorem getElem?_insert_of_ne {table : ExtTreeMap Int Client} {fd other : Int} (client : Client)
    (different : other ≠ fd) : (table.insert fd client)[other]? = table[other]? := by
  rw [ExtTreeMap.getElem?_insert, if_neg]
  rw [LawfulEqOrd.compare_eq_iff_eq]
  exact Ne.symm different

theorem view_eq_some_iff : server.view fd = some (client, events) ↔
    server.clients[fd]? = some client ∧ server.eventsOf fd = events := by
  rw [view, Option.map_eq_some_iff]
  simp

theorem view_of_same (clients : after.clients[fd]? = before.clients[fd]?)
    (events : after.eventsOf fd = before.eventsOf fd) : after.view fd = before.view fd := by
  rw [view, view, clients, events]

theorem clientAt_of_found (found : server.clients[fd]? = some client) :
    server.clientAt fd = client := by
  rw [clientAt, found, Option.getD_some]

theorem Moves.refl (server : Server) (fd : Int) : Moves server server fd (server.view fd) [] where
  calls := (List.append_nil _).symm
  listeners := rfl
  self := rfl
  others _ _ := rfl
  thinned := .refl _

theorem Moves.trans {first second : Option (Client × PollFlags)} {more : List Call}
    (start : Moves before between fd first new) (rest : Moves between after fd second more) :
    Moves before after fd second (new ++ more) where
  calls := by rw [rest.calls, start.calls, List.append_assoc]
  listeners := rest.listeners.trans start.listeners
  self := rest.self
  others other different := (rest.others other different).trans (start.others other different)
  thinned := start.thinned.trans rest.thinned

/-- Some calls, and nothing else. -/
theorem Moves.recordAll (server : Server) (fd : Int) (new : List Call) :
    Moves server { server with calls := server.calls ++ new } fd (server.view fd) new where
  calls := rfl
  listeners := rfl
  self := rfl
  others _ _ := rfl
  thinned := .refl _

theorem Moves.record (server : Server) (fd : Int) (call : Call) :
    Moves server (server.record call) fd (server.view fd) [call] :=
  .recordAll server fd [call]

theorem Moves.setClient (server : Server) (fd : Int) (client : Client) :
    Moves server (server.setClient fd client) fd (some (client, server.eventsOf fd)) [] where
  calls := (List.append_nil _).symm
  listeners := rfl
  self := by
    rw [view_eq_some_iff]
    exact ⟨ExtTreeMap.getElem?_insert_self, rfl⟩
  others other different := by
    apply view_of_same
    · exact getElem?_insert_of_ne client different
    · rfl
  thinned := .refl _

/-- The events of one descriptor change. -/
theorem Moves.setEventsAll (found : server.clients[fd]? = some client)
    (listed : fd ∈ server.pollfds.map (·.fd)) (events : PollFlags) :
    Moves server (server.setEventsAll fd events) fd (some (client, events)) [] where
  calls := (List.append_nil _).symm
  listeners := rfl
  self := by
    rw [view_eq_some_iff]
    exact ⟨found, eventsOf_setEventsAll_self listed events⟩
  others other different := by
    apply view_of_same
    · rfl
    · exact eventsOf_setEventsAll different events
  thinned := .of_keys (keys_setEvents _ _ _)

/-! ## Operations that keep the uses -/

namespace Tabled

theorem listed (tabled : Tabled server uses) (found : server.clients[fd]? = some client) :
    fd ∈ server.pollfds.map (·.fd) := by
  rw [tabled.polled, (tabled.client fd).mpr]
  · simp
  · exact ExtTreeMap.mem_iff_isSome_getElem?.mpr (by rw [found]; rfl)

theorem use_of_found (tabled : Tabled server uses) (found : server.clients[fd]? = some client) :
    uses fd = some .client :=
  (tabled.client fd).mpr (ExtTreeMap.mem_iff_isSome_getElem?.mpr (by rw [found]; rfl))

theorem exists_client (tabled : Tabled server uses) (use : uses fd = some .client) :
    ∃ client, server.clients[fd]? = some client := by
  have inside := (tabled.client fd).mp use
  exact Option.isSome_iff_exists.mp (ExtTreeMap.mem_iff_isSome_getElem?.mp inside)

/-- Calls that open and close nothing. -/
theorem plain (tabled : Tabled server uses) (calls : after.calls = server.calls ++ new)
    (plain : ∀ call ∈ new, call.isPlain = true) (listeners : after.listeners = server.listeners)
    (clients : after.clients = server.clients) (pollfds : after.pollfds = server.pollfds)
    (inputs : after.cgiInputOwners = server.cgiInputOwners)
    (outputs : after.cgiOutputOwners = server.cgiOutputOwners) : Tabled after uses where
  nodup := pollfds ▸ tabled.nodup
  polled := pollfds ▸ tabled.polled
  listener := listeners ▸ tabled.listener
  client := clients ▸ tabled.client
  inputOwners := inputs ▸ tabled.inputOwners
  outputOwners := outputs ▸ tabled.outputOwners
  input := by simp only [HasInput, clients]; exact tabled.input
  output := by simp only [HasOutput, clients]; exact tabled.output
  nonneg := tabled.nonneg
  named := clients ▸ tabled.named
  idle := clients ▸ tabled.idle
  opened := by rw [calls, openFds_plain plain]; exact tabled.opened
  openNodup := by rw [calls, openFds_plain plain]; exact tabled.openNodup
  once := by rw [calls]; exact lawful_plain tabled.once plain

theorem record (tabled : Tabled server uses) (plain : call.isPlain = true) :
    Tabled (server.record call) uses :=
  tabled.plain rfl (by simpa using plain) rfl rfl rfl rfl rfl

theorem setEventsAll (tabled : Tabled server uses) (fd : Int) (events : PollFlags) :
    Tabled (server.setEventsAll fd events) uses where
  nodup := by rw [Server.setEventsAll, map_fd_setEvents]; exact tabled.nodup
  polled := by rw [Server.setEventsAll, map_fd_setEvents]; exact tabled.polled
  listener := tabled.listener
  client := tabled.client
  inputOwners := tabled.inputOwners
  outputOwners := tabled.outputOwners
  input := tabled.input
  output := tabled.output
  nonneg := tabled.nonneg
  named := tabled.named
  idle := tabled.idle
  opened := tabled.opened
  openNodup := tabled.openNodup
  once := tabled.once

/-- A client keeps its pipes. -/
theorem setClient {other : Client} (tabled : Tabled server uses)
    (found : server.clients[fd]? = some client) (named : other.fd = fd)
    (input : other.cgiInputFd = client.cgiInputFd)
    (output : other.cgiOutputFd = client.cgiOutputFd)
    (idle : other.cgiPid ≤ 0 → other.cgiInputFd < 0 ∧ other.cgiOutputFd < 0) :
    Tabled (server.setClient fd other) uses where
  nodup := tabled.nodup
  polled := tabled.polled
  listener := tabled.listener
  client := by
    intro key
    rw [tabled.client, Server.setClient, ExtTreeMap.mem_insert, LawfulEqOrd.compare_eq_iff_eq]
    constructor
    · exact Or.inr
    · rintro (rfl | inside)
      · exact ExtTreeMap.mem_iff_isSome_getElem?.mpr (by rw [found]; rfl)
      · exact inside
  inputOwners := tabled.inputOwners
  outputOwners := tabled.outputOwners
  input := by
    intro pipe owner
    rw [tabled.input, HasInput, HasInput, Server.setClient]
    by_cases same : owner = fd
    · subst same
      simp [found, input]
    · simp only [getElem?_insert_of_ne other same]
  output := by
    intro pipe owner
    rw [tabled.output, HasOutput, HasOutput, Server.setClient]
    by_cases same : owner = fd
    · subst same
      simp [found, output]
    · simp only [getElem?_insert_of_ne other same]
  nonneg := tabled.nonneg
  named := by
    intro key value stored
    by_cases same : key = fd
    · subst same
      rw [Server.setClient, ExtTreeMap.getElem?_insert_self, Option.some.injEq] at stored
      exact stored ▸ named
    · rw [Server.setClient, getElem?_insert_of_ne other same] at stored
      exact tabled.named key value stored
  idle := by
    intro key value stored
    by_cases same : key = fd
    · subst same
      rw [Server.setClient, ExtTreeMap.getElem?_insert_self, Option.some.injEq] at stored
      exact stored ▸ idle
    · rw [Server.setClient, getElem?_insert_of_ne other same] at stored
      exact tabled.idle key value stored
  opened := tabled.opened
  openNodup := tabled.openNodup
  once := tabled.once

/-! ## Operations that close a descriptor -/

/-- A descriptor is closed and forgotten. -/
theorem forget (tabled : Tabled server uses) (used : uses pipe ≠ some .listener)
    (open_ : uses pipe ≠ none) (listeners : after.listeners = server.listeners)
    (pollfds : after.pollfds = server.pollfds.eraseP (·.fd == pipe))
    (calls : after.calls = server.calls ++ [.closed pipe])
    (clients : ∀ key : Int, key ∈ after.clients ↔ key ∈ server.clients ∧ key ≠ pipe)
    (inputs : ∀ key owner : Int, after.cgiInputOwners[key]? = some owner ↔
      key ≠ pipe ∧ server.cgiInputOwners[key]? = some owner)
    (outputs : ∀ key owner : Int, after.cgiOutputOwners[key]? = some owner ↔
      key ≠ pipe ∧ server.cgiOutputOwners[key]? = some owner)
    (input : ∀ key owner : Int, 0 ≤ key →
      (after.HasInput owner key ↔ key ≠ pipe ∧ server.HasInput owner key))
    (output : ∀ key owner : Int, 0 ≤ key →
      (after.HasOutput owner key ↔ key ≠ pipe ∧ server.HasOutput owner key))
    (named : ∀ (key : Int) (value : Client), after.clients[key]? = some value → value.fd = key)
    (idle : ∀ (key : Int) (value : Client), after.clients[key]? = some value →
      value.cgiPid ≤ 0 → value.cgiInputFd < 0 ∧ value.cgiOutputFd < 0) :
    Tabled after (Function.update uses pipe none) where
  nodup := by
    rw [pollfds, map_fd_eraseP]
    exact tabled.nodup.erase pipe
  polled := by
    intro key
    rw [pollfds, map_fd_eraseP, tabled.nodup.mem_erase_iff, tabled.polled, Function.update_apply]
    by_cases same : key = pipe <;> simp [same]
  listener := by
    intro key
    rw [listeners, ← tabled.listener, Function.update_apply]
    by_cases same : key = pipe
    · subst same
      simp [used]
    · simp [same]
  client := by
    intro key
    rw [clients, ← tabled.client, Function.update_apply]
    by_cases same : key = pipe <;> simp [same]
  inputOwners := by
    intro key owner
    rw [inputs, tabled.inputOwners, Function.update_apply]
    by_cases same : key = pipe <;> simp [same]
  outputOwners := by
    intro key owner
    rw [outputs, tabled.outputOwners, Function.update_apply]
    by_cases same : key = pipe <;> simp [same]
  input := by
    intro key owner
    have before := tabled.input key owner
    rw [Function.update_apply]
    by_cases same : key = pipe
    · subst same
      simp only [if_true]
      constructor
      · simp
      · rintro ⟨nonneg, there⟩
        exact absurd rfl ((input key owner nonneg).mp there).1
    · rw [if_neg same, before]
      constructor
      · rintro ⟨nonneg, there⟩
        exact ⟨nonneg, (input key owner nonneg).mpr ⟨same, there⟩⟩
      · rintro ⟨nonneg, there⟩
        exact ⟨nonneg, ((input key owner nonneg).mp there).2⟩
  output := by
    intro key owner
    have before := tabled.output key owner
    rw [Function.update_apply]
    by_cases same : key = pipe
    · subst same
      simp only [if_true]
      constructor
      · simp
      · rintro ⟨nonneg, there⟩
        exact absurd rfl ((output key owner nonneg).mp there).1
    · rw [if_neg same, before]
      constructor
      · rintro ⟨nonneg, there⟩
        exact ⟨nonneg, (output key owner nonneg).mpr ⟨same, there⟩⟩
      · rintro ⟨nonneg, there⟩
        exact ⟨nonneg, ((output key owner nonneg).mp there).2⟩
  nonneg := by
    intro key some_
    rw [Function.update_apply] at some_
    by_cases same : key = pipe
    · simp [same] at some_
    · rw [if_neg same] at some_
      exact tabled.nonneg key some_
  named := named
  idle := idle
  opened := by
    intro key
    rw [calls, openFds_closed, tabled.openNodup.mem_erase_iff, tabled.opened, Function.update_apply]
    by_cases same : key = pipe <;> simp [same]
  openNodup := by
    rw [calls, openFds_closed]
    exact tabled.openNodup.erase pipe
  once := by
    rw [calls]
    exact tabled.once.concat ((tabled.opened pipe).mpr open_)

theorem getElem?_erase_iff {owners : ExtTreeMap Int Int} {pipe key owner : Int} :
    (owners.erase pipe)[key]? = some owner ↔ key ≠ pipe ∧ owners[key]? = some owner := by
  rw [ExtTreeMap.getElem?_erase]
  by_cases same : key = pipe
  · simp [same]
  · rw [if_neg]
    · simp [same]
    · rw [LawfulEqOrd.compare_eq_iff_eq]
      exact Ne.symm same

theorem mem_insert_of_found {other : Client} (found : server.clients[fd]? = some client)
    (clients : after.clients = server.clients.insert fd other) (key : Int) :
    key ∈ after.clients ↔ key ∈ server.clients := by
  rw [clients, ExtTreeMap.mem_insert, LawfulEqOrd.compare_eq_iff_eq]
  constructor
  · rintro (rfl | inside)
    · exact ExtTreeMap.mem_iff_isSome_getElem?.mpr (by rw [found]; rfl)
    · exact inside
  · exact Or.inr

/-- The pipe that a script reads from is closed. -/
theorem closeInput {other : Client} (tabled : Tabled server uses)
    (found : server.clients[fd]? = some client) (open_ : 0 ≤ client.cgiInputFd)
    (listeners : after.listeners = server.listeners)
    (pollfds : after.pollfds = server.pollfds.eraseP (·.fd == client.cgiInputFd))
    (calls : after.calls = server.calls ++ [.closed client.cgiInputFd])
    (inputs : after.cgiInputOwners = server.cgiInputOwners.erase client.cgiInputFd)
    (outputs : after.cgiOutputOwners = server.cgiOutputOwners)
    (clients : after.clients = server.clients.insert fd other) (named : other.fd = client.fd)
    (closed : other.cgiInputFd = -1) (output : other.cgiOutputFd = client.cgiOutputFd)
    (pid : other.cgiPid = client.cgiPid) :
    Tabled after (Function.update uses client.cgiInputFd none) := by
  have use : uses client.cgiInputFd = some (.input fd) :=
    (tabled.input _ fd).mpr ⟨open_, client, found, rfl⟩
  apply tabled.forget (by simp [use]) (by simp [use]) listeners pollfds calls
  · intro key
    rw [mem_insert_of_found found clients]
    refine ⟨fun inside => ⟨inside, ?_⟩, And.left⟩
    rintro rfl
    rw [← tabled.client, use] at inside
    simp at inside
  · intro key owner
    rw [inputs, getElem?_erase_iff]
  · intro key owner
    rw [outputs]
    refine ⟨fun stored => ⟨?_, stored⟩, And.right⟩
    rintro rfl
    rw [tabled.outputOwners, use] at stored
    simp at stored
  · intro key owner nonneg
    rw [HasInput, HasInput, clients]
    by_cases same : owner = fd
    · subst same
      rw [ExtTreeMap.getElem?_insert_self]
      simp only [Option.some.injEq, exists_eq_left', closed, found]
      omega
    · simp only [getElem?_insert_of_ne other same]
      refine ⟨fun there => ⟨?_, there⟩, And.right⟩
      rintro rfl
      have twice := (tabled.input _ owner).mpr ⟨nonneg, there⟩
      rw [use, Option.some.injEq, Use.input.injEq] at twice
      exact same twice.symm
  · intro key owner nonneg
    rw [HasOutput, HasOutput, clients]
    have apart : server.HasOutput owner key → key ≠ client.cgiInputFd := by
      rintro there rfl
      have twice := (tabled.output _ owner).mpr ⟨nonneg, there⟩
      rw [use] at twice
      simp at twice
    by_cases same : owner = fd
    · subst same
      rw [ExtTreeMap.getElem?_insert_self]
      simp only [Option.some.injEq, exists_eq_left', output, found]
      refine ⟨fun there => ⟨apart ⟨client, found, there⟩, there⟩, And.right⟩
    · simp only [getElem?_insert_of_ne other same]
      exact ⟨fun there => ⟨apart there, there⟩, And.right⟩
  · intro key value stored
    rw [clients] at stored
    by_cases same : key = fd
    · subst same
      rw [ExtTreeMap.getElem?_insert_self, Option.some.injEq] at stored
      rw [← stored, named, tabled.named key client found]
    · rw [getElem?_insert_of_ne other same] at stored
      exact tabled.named key value stored
  · intro key value stored idle
    rw [clients] at stored
    by_cases same : key = fd
    · subst same
      rw [ExtTreeMap.getElem?_insert_self, Option.some.injEq] at stored
      subst stored
      have both := tabled.idle key client found (pid ▸ idle)
      omega
    · rw [getElem?_insert_of_ne other same] at stored
      exact tabled.idle key value stored idle

/-- The pipe that a script writes to is closed. -/
theorem closeOutput {other : Client} (tabled : Tabled server uses)
    (found : server.clients[fd]? = some client) (open_ : 0 ≤ client.cgiOutputFd)
    (listeners : after.listeners = server.listeners)
    (pollfds : after.pollfds = server.pollfds.eraseP (·.fd == client.cgiOutputFd))
    (calls : after.calls = server.calls ++ [.closed client.cgiOutputFd])
    (inputs : after.cgiInputOwners = server.cgiInputOwners)
    (outputs : after.cgiOutputOwners = server.cgiOutputOwners.erase client.cgiOutputFd)
    (clients : after.clients = server.clients.insert fd other) (named : other.fd = client.fd)
    (closed : other.cgiOutputFd = -1) (input : other.cgiInputFd = client.cgiInputFd)
    (pid : other.cgiPid = client.cgiPid) :
    Tabled after (Function.update uses client.cgiOutputFd none) := by
  have use : uses client.cgiOutputFd = some (.output fd) :=
    (tabled.output _ fd).mpr ⟨open_, client, found, rfl⟩
  apply tabled.forget (by simp [use]) (by simp [use]) listeners pollfds calls
  · intro key
    rw [mem_insert_of_found found clients]
    refine ⟨fun inside => ⟨inside, ?_⟩, And.left⟩
    rintro rfl
    rw [← tabled.client, use] at inside
    simp at inside
  · intro key owner
    rw [inputs]
    refine ⟨fun stored => ⟨?_, stored⟩, And.right⟩
    rintro rfl
    rw [tabled.inputOwners, use] at stored
    simp at stored
  · intro key owner
    rw [outputs, getElem?_erase_iff]
  · intro key owner nonneg
    rw [HasInput, HasInput, clients]
    have apart : server.HasInput owner key → key ≠ client.cgiOutputFd := by
      rintro there rfl
      have twice := (tabled.input _ owner).mpr ⟨nonneg, there⟩
      rw [use] at twice
      simp at twice
    by_cases same : owner = fd
    · subst same
      rw [ExtTreeMap.getElem?_insert_self]
      simp only [Option.some.injEq, exists_eq_left', input, found]
      refine ⟨fun there => ⟨apart ⟨client, found, there⟩, there⟩, And.right⟩
    · simp only [getElem?_insert_of_ne other same]
      exact ⟨fun there => ⟨apart there, there⟩, And.right⟩
  · intro key owner nonneg
    rw [HasOutput, HasOutput, clients]
    by_cases same : owner = fd
    · subst same
      rw [ExtTreeMap.getElem?_insert_self]
      simp only [Option.some.injEq, exists_eq_left', closed, found]
      omega
    · simp only [getElem?_insert_of_ne other same]
      refine ⟨fun there => ⟨?_, there⟩, And.right⟩
      rintro rfl
      have twice := (tabled.output _ owner).mpr ⟨nonneg, there⟩
      rw [use, Option.some.injEq, Use.output.injEq] at twice
      exact same twice.symm
  · intro key value stored
    rw [clients] at stored
    by_cases same : key = fd
    · subst same
      rw [ExtTreeMap.getElem?_insert_self, Option.some.injEq] at stored
      rw [← stored, named, tabled.named key client found]
    · rw [getElem?_insert_of_ne other same] at stored
      exact tabled.named key value stored
  · intro key value stored idle
    rw [clients] at stored
    by_cases same : key = fd
    · subst same
      rw [ExtTreeMap.getElem?_insert_self, Option.some.injEq] at stored
      subst stored
      have both := tabled.idle key client found (pid ▸ idle)
      omega
    · rw [getElem?_insert_of_ne other same] at stored
      exact tabled.idle key value stored idle

/-- A client without a script is closed and erased. -/
theorem removeClient (tabled : Tabled server uses) (found : server.clients[fd]? = some client)
    (input : client.cgiInputFd < 0) (output : client.cgiOutputFd < 0)
    (listeners : after.listeners = server.listeners)
    (pollfds : after.pollfds = server.pollfds.eraseP (·.fd == fd))
    (calls : after.calls = server.calls ++ [.closed fd])
    (inputs : after.cgiInputOwners = server.cgiInputOwners)
    (outputs : after.cgiOutputOwners = server.cgiOutputOwners)
    (clients : after.clients = server.clients.erase fd) :
    Tabled after (Function.update uses fd none) := by
  have use := tabled.use_of_found found
  have stored_iff : ∀ (key : Int) (value : Client),
      after.clients[key]? = some value ↔ key ≠ fd ∧ server.clients[key]? = some value := by
    intro key value
    rw [clients, ExtTreeMap.getElem?_erase]
    by_cases same : key = fd
    · simp [same]
    · rw [if_neg]
      · simp [same]
      · rw [LawfulEqOrd.compare_eq_iff_eq]
        exact Ne.symm same
  apply tabled.forget (by simp [use]) (by simp [use]) listeners pollfds calls
  · intro key
    rw [clients, ExtTreeMap.mem_erase, and_comm, ne_eq, LawfulEqOrd.compare_eq_iff_eq, eq_comm]
  · intro key owner
    rw [inputs]
    refine ⟨fun stored => ⟨?_, stored⟩, And.right⟩
    rintro rfl
    rw [tabled.inputOwners, use] at stored
    simp at stored
  · intro key owner
    rw [outputs]
    refine ⟨fun stored => ⟨?_, stored⟩, And.right⟩
    rintro rfl
    rw [tabled.outputOwners, use] at stored
    simp at stored
  · intro key owner nonneg
    constructor
    · rintro ⟨value, stored, same⟩
      rcases (stored_iff owner value).mp stored with ⟨_, before⟩
      refine ⟨?_, value, before, same⟩
      rintro rfl
      have twice := (tabled.input _ owner).mpr ⟨nonneg, value, before, same⟩
      rw [use] at twice
      simp at twice
    · rintro ⟨_, value, before, same⟩
      refine ⟨value, (stored_iff owner value).mpr ⟨?_, before⟩, same⟩
      rintro rfl
      rw [found, Option.some.injEq] at before
      subst before
      omega
  · intro key owner nonneg
    constructor
    · rintro ⟨value, stored, same⟩
      rcases (stored_iff owner value).mp stored with ⟨_, before⟩
      refine ⟨?_, value, before, same⟩
      rintro rfl
      have twice := (tabled.output _ owner).mpr ⟨nonneg, value, before, same⟩
      rw [use] at twice
      simp at twice
    · rintro ⟨_, value, before, same⟩
      refine ⟨value, (stored_iff owner value).mpr ⟨?_, before⟩, same⟩
      rintro rfl
      rw [found, Option.some.injEq] at before
      subst before
      omega
  · exact fun key value stored => tabled.named key value ((stored_iff key value).mp stored).2
  · exact fun key value stored => tabled.idle key value ((stored_iff key value).mp stored).2

/-! ## Operations that open a descriptor -/

/-- A descriptor is opened and given a use. -/
theorem occupy (tabled : Tabled server uses) (free : uses pipe = none) (nonneg : 0 ≤ pipe)
    (use : Use) (chosen : use ≠ .listener) {fds : List Int} (opens : Opens after.calls fds)
    (opened : fds.Perm (pipe :: openFds server.calls))
    (listeners : after.listeners = server.listeners)
    (pollfds : after.pollfds = server.pollfds ++ [{ fd := pipe, events := events }])
    (clients : ∀ key : Int, key ∈ after.clients ↔ key ∈ server.clients ∨ key = pipe ∧ use = .client)
    (inputs : ∀ key owner : Int, after.cgiInputOwners[key]? = some owner ↔
      server.cgiInputOwners[key]? = some owner ∨ key = pipe ∧ use = .input owner)
    (outputs : ∀ key owner : Int, after.cgiOutputOwners[key]? = some owner ↔
      server.cgiOutputOwners[key]? = some owner ∨ key = pipe ∧ use = .output owner)
    (input : ∀ key owner : Int, 0 ≤ key →
      (after.HasInput owner key ↔ server.HasInput owner key ∨ key = pipe ∧ use = .input owner))
    (output : ∀ key owner : Int, 0 ≤ key →
      (after.HasOutput owner key ↔ server.HasOutput owner key ∨ key = pipe ∧ use = .output owner))
    (named : ∀ (key : Int) (value : Client), after.clients[key]? = some value → value.fd = key)
    (idle : ∀ (key : Int) (value : Client), after.clients[key]? = some value →
      value.cgiPid ≤ 0 → value.cgiInputFd < 0 ∧ value.cgiOutputFd < 0) :
    Tabled after (Function.update uses pipe (some use)) where
  nodup := by
    rw [pollfds, List.map_append, List.map_singleton, ← List.concat_eq_append, List.nodup_concat]
    refine ⟨?_, tabled.nodup⟩
    rw [tabled.polled, free]
    simp
  polled := by
    intro key
    rw [pollfds, List.map_append, List.mem_append, tabled.polled, Function.update_apply]
    by_cases same : key = pipe <;> simp [same]
  listener := by
    intro key
    rw [listeners, ← tabled.listener, Function.update_apply]
    by_cases same : key = pipe
    · subst same
      simp [free, chosen]
    · simp [same]
  client := by
    intro key
    rw [clients, ← tabled.client, Function.update_apply]
    by_cases same : key = pipe <;> simp [same, free]
  inputOwners := by
    intro key owner
    rw [inputs, tabled.inputOwners, Function.update_apply]
    by_cases same : key = pipe <;> simp [same, free]
  outputOwners := by
    intro key owner
    rw [outputs, tabled.outputOwners, Function.update_apply]
    by_cases same : key = pipe <;> simp [same, free]
  input := by
    intro key owner
    have before := tabled.input key owner
    rw [Function.update_apply]
    by_cases same : key = pipe
    · subst same
      rw [free] at before
      have absent : ¬server.HasInput owner key := fun there => by
        simpa using before.mpr ⟨nonneg, there⟩
      simp [input key owner nonneg, absent, nonneg]
    · rw [if_neg same, before]
      apply and_congr_right
      intro known
      simp [input key owner known, same]
  output := by
    intro key owner
    have before := tabled.output key owner
    rw [Function.update_apply]
    by_cases same : key = pipe
    · subst same
      rw [free] at before
      have absent : ¬server.HasOutput owner key := fun there => by
        simpa using before.mpr ⟨nonneg, there⟩
      simp [output key owner nonneg, absent, nonneg]
    · rw [if_neg same, before]
      apply and_congr_right
      intro known
      simp [output key owner known, same]
  nonneg := by
    intro key some_
    rw [Function.update_apply] at some_
    by_cases same : key = pipe
    · exact same ▸ nonneg
    · rw [if_neg same] at some_
      exact tabled.nonneg key some_
  named := named
  idle := idle
  opened := by
    intro key
    rw [opens.fds, opened.mem_iff, List.mem_cons, tabled.opened, Function.update_apply]
    by_cases same : key = pipe <;> simp [same]
  openNodup := by
    rw [opens.fds, opened.nodup_iff, List.nodup_cons, tabled.opened, free]
    exact ⟨by simp, tabled.openNodup⟩
  once := opens.once

/-- The use of a descriptor that is not open. -/
theorem free_of_fresh (tabled : Tabled server uses) (fresh : fd ∉ openFds server.calls) :
    uses fd = none := by
  rw [tabled.opened] at fresh
  exact of_not_not fresh

/-- Only which descriptors are open matters of the calls. -/
theorem remember (tabled : Tabled server uses) {fds : List Int} (opens : Opens calls fds)
    (opened : fds.Perm (openFds server.calls)) :
    Tabled { server with calls := calls } uses where
  nodup := tabled.nodup
  polled := tabled.polled
  listener := tabled.listener
  client := tabled.client
  inputOwners := tabled.inputOwners
  outputOwners := tabled.outputOwners
  input := tabled.input
  output := tabled.output
  nonneg := tabled.nonneg
  named := tabled.named
  idle := tabled.idle
  opened fd := by rw [opens.fds, opened.mem_iff, tabled.opened]
  openNodup := by rw [opens.fds, opened.nodup_iff]; exact tabled.openNodup
  once := opens.once

end Tabled

end Server

end IrcPlatform.Webserv
