import IrcPlatform.Webserv.Serving

/-!
# Guarantees

What holds over every run of the event loop whenever a handler has returned: the tables of the
descriptors agree, every connection is given one response at most, and the children are the
scripts of the clients.
-/

namespace IrcPlatform.Webserv

open Std

variable {loop : EventLoop}

/-! ## Descriptors -/

namespace Server

/-- The poll table has one entry for each listener, client and open pipe; the owners are those
of the pipes; what is open is in the table, and nothing is closed twice. -/
structure Consistent (server : Server) : Prop where
  nodup : (server.pollfds.map (·.fd)).Nodup
  polled : ∀ fd, fd ∈ server.pollfds.map (·.fd) ↔
    fd ∈ server.listeners.map (·.fd) ∨ fd ∈ server.clients ∨
      0 ≤ fd ∧ ∃ owner, server.HasInput owner fd ∨ server.HasOutput owner fd
  inputOwners : ∀ pipe owner : Int,
    server.cgiInputOwners[pipe]? = some owner ↔ 0 ≤ pipe ∧ server.HasInput owner pipe
  outputOwners : ∀ pipe owner : Int,
    server.cgiOutputOwners[pipe]? = some owner ↔ 0 ≤ pipe ∧ server.HasOutput owner pipe
  opened : ∀ fd, fd ∈ openFds server.calls ↔ fd ∈ server.pollfds.map (·.fd)
  once : Lawful OpenedOnce server.calls
  clients : server.clients.size ≤ maxConnections
  scripts : server.runningCgi ≤ maxCgiProcesses

/-- A handler of a connection or a pipe has a client. -/
def Owned (server : Server) (entry : PollFd) : Prop :=
  match server.handlerFor entry with
  | .readClient | .writeClient => entry.fd ∈ server.clients
  | .readCgi =>
      ∃ owner : Int, server.cgiOutputOwners[entry.fd]? = some owner ∧ owner ∈ server.clients
  | .writeCgi =>
      ∃ owner : Int, server.cgiInputOwners[entry.fd]? = some owner ∧ owner ∈ server.clients
  | _ => True

theorem mem_of_view {server : Server} {fd : Int} {client : Client} {events : PollFlags}
    (seen : server.view fd = some (client, events)) : fd ∈ server.clients := by
  rw [ExtTreeMap.mem_iff_isSome_getElem?, found_of_view seen]
  rfl

theorem Tabled.consistent {server : Server} {uses : Int → Option Use} (tabled : Tabled server uses)
    (bounded : Bounded server) : Consistent server := by
  constructor
  · exact tabled.nodup
  · intro fd
    rw [tabled.polled, ← tabled.listener, ← tabled.client]
    constructor
    · intro used
      cases use : uses fd with
      | none => exact absurd use used
      | some kind =>
          cases kind with
          | listener => exact .inl rfl
          | client => exact .inr (.inl rfl)
          | input owner =>
              have piped := (tabled.input fd owner).mp use
              exact .inr (.inr ⟨piped.1, owner, .inl piped.2⟩)
          | output owner =>
              have piped := (tabled.output fd owner).mp use
              exact .inr (.inr ⟨piped.1, owner, .inr piped.2⟩)
    · rintro (listener | client | ⟨nonneg, owner, input | output⟩)
      · rw [listener]
        simp
      · rw [client]
        simp
      · rw [(tabled.input fd owner).mpr ⟨nonneg, input⟩]
        simp
      · rw [(tabled.output fd owner).mpr ⟨nonneg, output⟩]
        simp
  · intro pipe owner
    rw [tabled.inputOwners, tabled.input]
  · intro pipe owner
    rw [tabled.outputOwners, tabled.output]
  · intro fd
    rw [tabled.opened, tabled.polled]
  · exact tabled.once
  · exact bounded.clients
  · exact bounded.scripts

theorem Consistent.owned {server : Server} {entry : PollFd} (consistent : Consistent server)
    (known : HandlerCase server entry (server.handlerFor entry)) : server.Owned entry := by
  rw [Owned]
  cases handler : server.handlerFor entry with
  | readClient =>
      rw [handler] at known
      cases known with
      | readClient seen reported => exact mem_of_view seen
  | writeClient =>
      rw [handler] at known
      cases known with
      | writeClient seen reported => exact mem_of_view seen
  | readCgi =>
      rw [handler] at known
      cases known with
      | readCgi seen piped nonneg =>
          have owner := (consistent.outputOwners entry.fd _).mpr
            ⟨nonneg, _, found_of_view seen, piped⟩
          exact ⟨_, owner, mem_of_view seen⟩
  | writeCgi =>
      rw [handler] at known
      cases known with
      | writeCgi seen piped nonneg =>
          have owner := (consistent.inputOwners entry.fd _).mpr
            ⟨nonneg, _, found_of_view seen, piped⟩
          exact ⟨_, owner, mem_of_view seen⟩
  | _ => trivial

end Server

/-- The tables of the descriptors agree in every run, and handlers find their clients. -/
theorem consistent_of_reachable (reached : loopMachine.system.Reachable loop) :
    loop.server.Consistent ∧ ∀ entry, loop.current = some entry → loop.server.Owned entry := by
  have serving := EventLoop.serving_of_reachable reached
  have sound := serving.sound
  rcases sound with ⟨uses, tabled⟩
  have consistent := tabled.consistent serving.bounded
  refine ⟨consistent, ?_⟩
  intro entry there
  rcases EventLoop.exists_of_current there with ⟨index, ready, control, listed⟩
  exact consistent.owned (Server.handlerCase serving.sound (List.mem_of_getElem? listed))

/-! ### A run -/

/-- A disk with one script. -/
def scriptDisk : Disk where
  tree := ((FileTree.empty {}).put [] (ascii "bin") (.directory {})).put [ascii "bin"]
    (ascii "a.py") (.file [] true)
  directory := []

/-- A server all of whose files are scripts. -/
def scriptServer : ServerConfig where
  locations :=
    [{ path := ascii "/", root := ascii "bin", methods := [ascii "POST"]
       cgiHandlers := (∅ : ExtTreeMap Bytes Bytes).insert (ascii ".py") (ascii "/bin/python3") }]

def listeningLoop : EventLoop := { server := .start [⟨3, scriptServer⟩] }

/-- Nothing happens behind the scan. -/
def quietEnd : List LoopAction := [.reap scriptDisk 0 [], .expire scriptDisk 0]

/-- The scan passes an entry without events. -/
def passEntry : LoopAction := .visit { disk := scriptDisk }

/-- A client connects. -/
def connectRound : List LoopAction :=
  [.poll [{ pollin := true }], .visit { accepts := [{ fd := 4 }], disk := scriptDisk }] ++ quietEnd

def postScript : Bytes :=
  ascii "POST /a.py HTTP/1.1\r\nHost: a\r\nContent-Length: 5\r\n\r\nhello"

/-- Its request starts a script, if there is a process for it. -/
def requestRound (child : Option Int) : List LoopAction :=
  [.poll [{}, { pollin := true }], passEntry,
    .visit {
      received := .data postScript
      started := { inputPipe := some (5, 6), outputPipe := some (7, 8), child := child }
      disk := scriptDisk }] ++ quietEnd

/-- The body is written to the script. -/
def bodyRound : List LoopAction :=
  [.poll [{}, {}, {}, { pollout := true }], passEntry, passEntry, passEntry,
    .visit { written := .count 5, disk := scriptDisk }] ++ quietEnd

/-- The script ends its output and has exited. -/
def outputRound : List LoopAction :=
  [.poll [{}, {}, { pollhup := true }], passEntry, passEntry,
    .visit { received := .ended, exited := some (.exited 0), disk := scriptDisk }] ++ quietEnd

theorem initial_listeningLoop : loopMachine.initial listeningLoop :=
  ⟨[⟨3, scriptServer⟩], by decide, by decide, rfl⟩

theorem reachable_listeningLoop : loopMachine.system.Reachable listeningLoop :=
  .start initial_listeningLoop

def servedLoop : EventLoop :=
  loopMachine.performOr listeningLoop (connectRound ++ requestRound (some 100) ++ bodyRound)

theorem reachable_servedLoop : loopMachine.system.Reachable servedLoop :=
  Machine.reachable_performOr reachable_listeningLoop _

theorem servedLoop_consistent : servedLoop.server.pollfds.map (·.fd) = [3, 4, 7] ∧
    servedLoop.server.Consistent :=
  ⟨by decide +kernel, (consistent_of_reachable reachable_servedLoop).1⟩

/-! ## Responses -/

/-- The responses of a connection only become more. -/
theorem Story.responses_addAll {fd : Int} {new : List Call} (unaccepted : .accepted fd ∉ new)
    (story : Story) : story.responses <+: (story.addAll fd new).responses := by
  induction new generalizing story with
  | nil => exact List.prefix_rfl
  | cons call rest ih =>
      rw [List.mem_cons, not_or] at unaccepted
      rw [addAll_cons]
      apply List.IsPrefix.trans _ (ih unaccepted.2 _)
      cases call with
      | accepted other =>
          have different : other ≠ fd := by
            rintro rfl
            exact unaccepted.1 rfl
          simp [add, different]
      | serialized other response =>
          rw [add]
          split
          · exact List.prefix_append _ _
          · exact List.prefix_rfl
      | _ =>
          rw [add]
          try split
          all_goals exact List.prefix_rfl

/-- The output of a client is the response made for its connection. -/
theorem Seat.responses {lax cut : Prop} {client : Client} {events : PollFlags} {story : Story}
    (seat : Seat lax cut (some (client, events), .no) story) :
    story.responses = if client.output = [] then [] else [client.output] := by
  cases seat with
  | reading silent => rw [if_pos silent]
  | serving silent => rw [if_pos silent]
  | writing heard idle phase responses => rw [if_neg heard, responses]

theorem EventLoop.Serving.responses (serving : EventLoop.Serving loop) {fd : Int} {client : Client}
    (found : loop.server.clients[fd]? = some client) :
    (Story.of fd loop.server.calls).responses =
      if client.output = [] then [] else [client.output] := by
  have seen := Server.exists_view found
  have seat := serving.seated fd
  rw [show loop.server.settled.server.view fd = some (client, _) from seen] at seat
  exact seat.responses

/-- At every moment of a run at most one response has been made for each connection, the bytes
sent are the beginning of it, and all of it when the connection is closed behind it; what is
written to a script is the beginning of the body. A response stays the output of its client. -/
theorem responses_of_reachable (reached : loopMachine.system.Reachable loop) :
    (∀ early, early <+: loop.server.calls → ∀ fd, (Story.of fd early).Delivered) ∧
      (∀ (fd : Int) (client : Client), loop.server.clients[fd]? = some client →
        (Story.of fd loop.server.calls).responses =
          if client.output = [] then [] else [client.output]) ∧
      ∀ (actions : List LoopAction) (later : EventLoop) (fd : Int) (new : List Call)
        (client kept : Client), loopMachine.performAll actions loop = some later →
        later.server.calls = loop.server.calls ++ new → .accepted fd ∉ new →
        loop.server.clients[fd]? = some client → client.output ≠ [] →
        later.server.clients[fd]? = some kept → kept.output = client.output := by
  have serving := EventLoop.serving_of_reachable reached
  refine ⟨serving.told, fun fd client found => serving.responses found, ?_⟩
  intro actions later fd new client kept performed calls unaccepted found heard still
  have reachedLater := Machine.reaches_performAll reached performed (Machine.everyStep_true _ _)
  have after := (EventLoop.serving_of_reachable reachedLater).responses still
  have grown := Story.responses_addAll unaccepted (Story.of fd loop.server.calls)
  rw [calls, Story.of_append] at after
  rw [after, serving.responses found, if_neg heard] at grown
  split at grown
  · cases List.prefix_nil.mp grown
  · exact (List.cons.inj (grown.eq_of_length rfl)).1.symm

theorem servedLoop_responses : (Story.of 4 servedLoop.server.calls).written = ascii "hello" ∧
    ∀ early, early <+: servedLoop.server.calls → ∀ fd, (Story.of fd early).Delivered :=
  ⟨by decide +kernel, (responses_of_reachable reachable_servedLoop).1⟩

/-! ## Children -/

namespace Server

/-- The processes that have been forked and not been waited for are those of the clients, each
of one client. Only such a process is killed or waited for, and a `waitpid` that blocks comes
right behind the `kill` of its process. -/
structure Parental (server : Server) : Prop where
  nodup : (children server.calls).Nodup
  owned : ∀ pid, pid ∈ children server.calls ↔
    0 < pid ∧ ∃ (fd : Int) (client : Client), server.clients[fd]? = some client ∧
      client.cgiPid = pid
  unique : ∀ (fd other : Int) (client another : Client), server.clients[fd]? = some client →
    server.clients[other]? = some another → 0 < client.cgiPid →
    client.cgiPid = another.cgiPid → fd = other
  lawful : Lawful Waits (processCalls server.calls)

theorem live_eq_some {server : Server} {fd pid : Int} :
    live (server.view fd, .no) = some pid ↔ 0 < pid ∧ ∃ client : Client,
      server.clients[fd]? = some client ∧ client.cgiPid = pid := by
  rw [view]
  cases server.clients[fd]? with
  | none => simp [live]
  | some client =>
      simp only [Option.map_some, live]
      split
      next running =>
        simp only [Option.some.injEq]
        constructor
        · rintro rfl
          exact ⟨running, client, rfl, rfl⟩
        · rintro ⟨_, _, rfl, same⟩
          exact same
      next idle =>
        simp only [Option.some.injEq]
        constructor
        · intro none
          cases none
        · rintro ⟨positive, _, rfl, rfl⟩
          exact absurd positive idle

end Server

/-- The children of the server in every run. -/
theorem parental_of_reachable (reached : loopMachine.system.Reachable loop) :
    loop.server.Parental := by
  have tended := (EventLoop.serving_of_reachable reached).tended
  rw [Tended, Server.settled] at tended
  rcases tended with ⟨nodup, owned, unique, lawful⟩
  constructor
  · rwa [children_processCalls] at nodup
  · intro pid
    rw [← children_processCalls, owned]
    simp only [Server.live_eq_some]
    exact exists_and_left
  · intro fd other client another found there running same
    apply unique fd other client.cgiPid
    · exact Server.live_eq_some.mpr ⟨running, client, found, rfl⟩
    · exact Server.live_eq_some.mpr ⟨running, another, there, same.symm⟩
  · exact lawful

theorem servedLoop_parental : Server.children servedLoop.server.calls = [100] ∧
    servedLoop.server.Parental :=
  ⟨by decide +kernel, parental_of_reachable reachable_servedLoop⟩

end IrcPlatform.Webserv
