import IrcPlatform.Library.Maps
import IrcPlatform.Webserv.Bounds

/-!
# Timeouts

A round of the event loop ends with the expiry of clients that nothing has moved for too long.
In every run no client is late then, and a connection that nothing moves is answered at the
first expiry that it is late for, and closed at the next.
-/

namespace IrcPlatform.Webserv

open Std

/-- Nothing has moved for longer than the timeout. -/
def Client.Late (client : Client) (now : Int) : Prop :=
  (client.timeoutSeconds : Int) < now - client.touched

instance (client : Client) (now : Int) : Decidable (client.Late now) :=
  inferInstanceAs (Decidable (_ < _))

/-- What was there to be moved is as it was. -/
structure Client.Rests (client changed : Client) : Prop where
  config : changed.config = client.config
  output : changed.output = client.output
  touched : changed.touched = client.touched
  timeout : changed.timeoutSeconds = client.timeoutSeconds
  process : changed.cgiPid = client.cgiPid

theorem Client.Rests.refl (client : Client) : client.Rests client :=
  ⟨rfl, rfl, rfl, rfl, rfl⟩

theorem Client.Rests.trans {first second third : Client} (early : first.Rests second)
    (late : second.Rests third) : first.Rests third where
  config := late.config.trans early.config
  output := late.output.trans early.output
  touched := late.touched.trans early.touched
  timeout := late.timeout.trans early.timeout
  process := late.process.trans early.process

/-- A call by which a connection goes on. -/
def Call.moves (fd : Int) : Call → Bool
  | .parsed other _ | .serialized other _ | .sent other _ | .wrote other _
  | .collected other _ | .finished other _ => other == fd
  | .opened _ | .closed _ | .forked _ | .killed _ | .reaped _ _ | .accepted _ | .drained _
  | .completed _ => false

def ReadResult.isData : ReadResult → Bool
  | .data _ => true
  | .again | .ended => false

namespace EventLoop

/-- The calls of a step. -/
def newCalls (loop : EventLoop) (action : LoopAction) : List Call :=
  (loop.perform action).server.calls.drop loop.server.calls.length

/-- No byte is received from the connection's peer. -/
def silent (fd : Int) (loop : EventLoop) : LoopAction → Bool
  | .visit answers => !loop.current.any (·.fd == fd) || !answers.received.isData
  | .poll _ | .reap _ _ _ | .expire _ _ => true

/-- The step moves nothing on a connection: neither its peer nor its script sends or takes a
byte, and no response is made for it. -/
def stalls (fd : Int) (loop : EventLoop) (action : LoopAction) : Bool :=
  (loop.newCalls action).all (!·.moves fd) && loop.silent fd action

end EventLoop

namespace Server

variable {server before between after : Server} {fd : Int} {client changed : Client}
  {disk : Disk} {now : Int}

/-! ## One client at a time -/

/-- At most one client is another. -/
def OnlyClient (fd : Int) (before after : Server) : Prop :=
  ∀ other : Int, other ≠ fd → after.clients[other]? = before.clients[other]?

namespace OnlyClient

theorem same (same : after.clients = before.clients) (fd : Int) : OnlyClient fd before after :=
  fun _ _ => by rw [same]

theorem trans (first : OnlyClient fd before between) (second : OnlyClient fd between after) :
    OnlyClient fd before after :=
  fun other different => (second other different).trans (first other different)

theorem setClient (server : Server) (fd : Int) (client : Client) :
    OnlyClient fd server (server.setClient fd client) := by
  intro other different
  rw [Server.setClient, ExtTreeMap.getElem?_insert, if_neg]
  rw [LawfulEqOrd.compare_eq_iff_eq]
  exact different.symm

theorem erase (same : after.clients = before.clients.erase fd) : OnlyClient fd before after := by
  intro other different
  rw [same, ExtTreeMap.getElem?_erase, if_neg]
  rw [LawfulEqOrd.compare_eq_iff_eq]
  exact different.symm

theorem dropCgiInput (server : Server) (fd : Int) :
    OnlyClient fd server (server.dropCgiInput fd) := by
  rw [Server.dropCgiInput]
  split
  · exact same rfl fd
  · exact trans (same rfl fd) (setClient _ fd _)

theorem dropCgiOutput (server : Server) (fd : Int) :
    OnlyClient fd server (server.dropCgiOutput fd) := by
  rw [Server.dropCgiOutput]
  split
  · exact same rfl fd
  · exact trans (same rfl fd) (setClient _ fd _)

theorem closeClient (server : Server) (fd : Int) :
    OnlyClient fd server (server.closeClient fd) := by
  rw [Server.closeClient]
  split
  · exact same rfl fd
  next client _ =>
    have waited : OnlyClient fd server
        (if 0 < client.cgiPid then server.killCgi fd else server) := by
      split
      · exact same rfl fd
      · exact same rfl fd
    exact ((waited.trans (dropCgiInput _ fd)).trans (dropCgiOutput _ fd)).trans (erase rfl)

theorem respond (server : Server) (fd : Int) (response : Bytes) :
    OnlyClient fd server (server.respond fd response) :=
  trans (same rfl fd) (setClient _ fd _)

end OnlyClient

/-! ## Expiry -/

/-- A client that has been answered because it was late. -/
structure Answered (disk : Disk) (now : Int) (client changed : Client) : Prop where
  output : changed.output = (ResponseFactory.error disk
    (if 0 < client.cgiPid then 504 else 408) client.settings).serialize
  touched : changed.touched = now
  timeout : changed.timeoutSeconds = client.timeoutSeconds
  idle : changed.cgiPid ≤ 0

theorem Answered.of_rests {client rested changed : Client}
    (answered : Answered disk now rested changed) (rests : client.Rests rested) :
    Answered disk now client changed where
  output := by
    rw [answered.output, rests.process, Client.settings, rests.config, Client.settings]
  touched := answered.touched
  timeout := answered.timeout.trans rests.timeout
  idle := answered.idle

/-- What becomes of a client that is late, with the calls after some that there were before. -/
inductive Expiry (disk : Disk) (now fd : Int) (client : Client) (calls : List Call)
    (after : Server) : Prop where
  | answered {changed : Client} (due : 0 < client.cgiPid ∨ client.output = [])
      (found : after.clients[fd]? = some changed) (answered : Answered disk now client changed)
      (call : .serialized fd changed.output ∈ after.calls.drop calls.length)
  | closed (answered : client.output ≠ []) (absent : after.clients[fd]? = none)
      (call : .closed fd ∈ after.calls.drop calls.length)

theorem mem_drop_append {calls early late : List Call} (first : calls <+: early) {call : Call}
    (listed : call ∈ late) : call ∈ (early ++ late).drop calls.length := by
  rcases first with ⟨more, rfl⟩
  rw [List.append_assoc, List.drop_left]
  exact List.mem_append_right _ listed

theorem clientAt_setClient (server : Server) (fd : Int) (client : Client) :
    (server.setClient fd client).clientAt fd = client :=
  clientAt_of_found ExtTreeMap.getElem?_insert_self

/-- A client whose pipes are closed is otherwise the same. -/
theorem dropPipes_timeout (server : Server) (fd : Int) :
    (((server.dropCgiInput fd).dropCgiOutput fd).clientAt fd).timeoutSeconds =
      (server.clientAt fd).timeoutSeconds := by
  have input : ((server.dropCgiInput fd).clientAt fd).timeoutSeconds =
      (server.clientAt fd).timeoutSeconds := by
    rw [dropCgiInput]
    split
    · rfl
    · rw [clientAt_setClient]
  rw [dropCgiOutput]
  split
  · exact input
  · rw [clientAt_setClient]
    exact input

theorem calls_dropPipes (server : Server) (fd : Int) :
    server.calls <+: ((server.dropCgiInput fd).dropCgiOutput fd).calls := by
  have input : server.calls <+: (server.dropCgiInput fd).calls := by
    rw [dropCgiInput]
    split
    · exact List.prefix_rfl
    · exact List.prefix_append _ _
  apply input.trans
  rw [dropCgiOutput]
  split
  · exact List.prefix_rfl
  · exact List.prefix_append _ _

theorem calls_killCgi (server : Server) (fd : Int) : server.calls <+: (server.killCgi fd).calls :=
  (List.prefix_append _ _).trans (List.prefix_append _ _)

theorem calls_waited : server.calls <+:
    (if 0 < client.cgiPid then server.killCgi fd else server).calls := by
  split
  · exact server.calls_killCgi fd
  · exact List.prefix_rfl

theorem closeClient_closed (found : server.clients[fd]? = some client) :
    (server.closeClient fd).clients[fd]? = none ∧
      .closed fd ∈ (server.closeClient fd).calls.drop server.calls.length := by
  rw [closeClient, found]
  constructor
  · exact ExtTreeMap.getElem?_erase_self
  · exact mem_drop_append (calls_waited.trans (calls_dropPipes _ fd)) List.mem_cons_self

theorem calls_closeClient (server : Server) (fd : Int) :
    server.calls <+: (server.closeClient fd).calls := by
  rw [closeClient]
  split
  · exact List.prefix_rfl
  · exact (calls_waited.trans (calls_dropPipes _ fd)).trans (List.prefix_append _ _)

theorem expireOne_expiry (sound : Sound server) (found : server.clients[fd]? = some client)
    (disk : Disk) (now : Int) :
    Expiry disk now fd client server.calls (expireOne disk now server fd) := by
  have named := sound.named found
  have here := clientAt_of_found found
  simp only [expireOne, found, named]
  split
  next running =>
    have timeout := (server.killCgi fd).dropPipes_timeout fd
    have calls := (server.calls_killCgi fd).trans ((server.killCgi fd).calls_dropPipes fd)
    rw [show (server.killCgi fd).clientAt fd = server.clientAt fd from rfl, here] at timeout
    refine .answered (.inl running) ExtTreeMap.getElem?_insert_self ⟨?_, rfl, ?_, by simp⟩ ?_
    · simp only [respond, clientAt_setClient, if_pos running]
    · simp only [respond, clientAt_setClient]
      exact timeout
    · simp only [respond, clientAt_setClient]
      exact mem_drop_append calls List.mem_cons_self
  next idle =>
    split
    next silent =>
      refine .answered (.inr (by simpa using silent)) ExtTreeMap.getElem?_insert_self
        ⟨?_, rfl, ?_, ?_⟩ ?_
      · simp only [respond, clientAt_setClient, if_neg idle]
      · simp only [respond, clientAt_setClient]
        rw [here]
      · simp only [respond, clientAt_setClient]
        rw [here]
        omega
      · simp only [respond, clientAt_setClient]
        exact mem_drop_append List.prefix_rfl List.mem_cons_self
    next heard =>
      have closed := closeClient_closed found
      exact .closed (by simpa using heard) closed.1 closed.2

theorem onlyClient_expireOne (sound : Sound server) (fd : Int) (disk : Disk) (now : Int) :
    OnlyClient fd server (expireOne disk now server fd) := by
  simp only [expireOne]
  split
  · exact .same rfl fd
  next client found =>
    rw [sound.named found]
    split
    · have killed : OnlyClient fd server (server.killCgi fd) := .same rfl fd
      have closed := killed.trans ((OnlyClient.dropCgiInput _ fd).trans (.dropCgiOutput _ fd))
      exact (closed.trans (.respond _ fd _)).trans
        (OnlyClient.trans (.setClient _ fd _) (.same rfl fd))
    · split
      · exact (OnlyClient.respond server fd _).trans
          (OnlyClient.trans (.setClient _ fd _) (.same rfl fd))
      · exact .closeClient server fd

/-! ### All clients that are late -/

theorem mem_expired : fd ∈ server.expired now ↔
    ∃ client, server.clients[fd]? = some client ∧ client.Late now := by
  simp only [expired, List.mem_map, List.mem_filter, Prod.exists,
    ExtTreeMap.mem_toList_iff_getElem?_eq_some, decide_eq_true_eq]
  constructor
  · rintro ⟨key, client, ⟨found, late⟩, rfl⟩
    exact ⟨client, found, late⟩
  · rintro ⟨client, found, late⟩
    exact ⟨fd, client, ⟨found, late⟩, rfl⟩

theorem nodup_expired (server : Server) (now : Int) : (server.expired now).Nodup :=
  (distinct_keys server.clients).sublist (List.filter_sublist.map _)

/-- What became of a client stays so, and is so for fewer calls before. -/
theorem Expiry.within {calls fewer : List Call} (expiry : Expiry disk now fd client calls between)
    (first : fewer.length ≤ calls.length) (same : after.clients[fd]? = between.clients[fd]?)
    (more : between.calls <+: after.calls) : Expiry disk now fd client fewer after := by
  have kept {call : Call} (listed : call ∈ between.calls.drop calls.length) :
      call ∈ after.calls.drop fewer.length :=
    (more.drop _).subset (List.drop_subset_drop_left _ first listed)
  cases expiry with
  | answered due found answered call => exact .answered due (same.trans found) answered (kept call)
  | closed answered absent call => exact .closed answered (same.trans absent) (kept call)

theorem sound_expireOne (sound : Sound server) (fd : Int) (disk : Disk) (now : Int) :
    Sound (expireOne disk now server fd) ∧
      server.calls <+: (expireOne disk now server fd).calls := by
  have handled : Handled { EventLoop.nobody with asked := fun _ => True } server
      (expireOne disk now server fd) :=
    handled_expireOne sound trivial disk now
  rcases handled.steps.calls with ⟨new, calls⟩
  exact ⟨handled.sound, calls ▸ List.prefix_append _ _⟩

/-- Clients outside the list stay. -/
theorem expireAll_others {expired : List Int} (sound : Sound server) (apart : fd ∉ expired)
    (disk : Disk) (now : Int) :
    (expired.foldl (expireOne disk now) server).clients[fd]? = server.clients[fd]? ∧
      server.calls <+: (expired.foldl (expireOne disk now) server).calls := by
  induction expired generalizing server with
  | nil => exact ⟨rfl, List.prefix_rfl⟩
  | cons first rest ih =>
      rw [List.mem_cons, not_or] at apart
      have one := sound_expireOne sound first disk now
      have others := ih one.1 apart.2
      rw [List.foldl_cons]
      exact ⟨others.1.trans (onlyClient_expireOne sound first disk now fd apart.1),
        one.2.trans others.2⟩

theorem expireAll_expiry {expired : List Int} (sound : Sound server) (nodup : expired.Nodup)
    (listed : fd ∈ expired) (found : server.clients[fd]? = some client) :
    Expiry disk now fd client server.calls (expired.foldl (expireOne disk now) server) := by
  induction expired generalizing server with
  | nil => cases listed
  | cons first rest ih =>
      rw [List.nodup_cons] at nodup
      have one := sound_expireOne sound first disk now
      rw [List.foldl_cons]
      rcases List.mem_cons.mp listed with rfl | later
      · have others := expireAll_others one.1 nodup.1 disk now
        exact (expireOne_expiry sound found disk now).within (Nat.le_refl _) others.1 others.2
      · have different : fd ≠ first := fun same => nodup.1 (same ▸ later)
        have there := (onlyClient_expireOne sound first disk now fd different).trans found
        exact (ih one.1 nodup.2 later there).within one.2.length_le rfl List.prefix_rfl

/-- A client stays as it is, or it is late and expires. -/
theorem expireClients_cases (sound : Sound server) (found : server.clients[fd]? = some client)
    (disk : Disk) (now : Int) :
    ¬client.Late now ∧ (server.expireClients disk now).clients[fd]? = some client ∨
      client.Late now ∧
        Expiry disk now fd client server.calls (server.expireClients disk now) := by
  by_cases late : client.Late now
  · have listed := mem_expired.mpr ⟨client, found, late⟩
    exact .inr ⟨late, expireAll_expiry sound (server.nodup_expired now) listed found⟩
  · refine .inl ⟨late, ?_⟩
    have apart : fd ∉ server.expired now := by
      intro listed
      rcases mem_expired.mp listed with ⟨other, there, lateOther⟩
      rw [found, Option.some.injEq] at there
      exact late (there ▸ lateOther)
    exact (expireAll_others sound apart disk now).1.trans found

/-- Behind an expiry nobody is late. -/
theorem onTime_of_expireClients (sound : Sound server)
    (found : (server.expireClients disk now).clients[fd]? = some changed) :
    ¬changed.Late now := by
  cases before : server.clients[fd]? with
  | none =>
      have apart : fd ∉ server.expired now := by
        intro listed
        rcases mem_expired.mp listed with ⟨client, there, _⟩
        rw [before] at there
        cases there
      have same := (expireAll_others sound apart disk now).1
      rw [before] at same
      exact absurd (found.symm.trans same) (by simp)
  | some client =>
      rcases expireClients_cases sound before disk now with ⟨onTime, stays⟩ | ⟨_, expiry⟩
      · rw [found, Option.some.injEq] at stays
        exact stays ▸ onTime
      · cases expiry with
        | answered _ there answered _ =>
            rw [found, Option.some.injEq] at there
            rw [Client.Late, there, answered.touched]
            omega
        | closed _ absent _ => exact absurd (found.symm.trans absent) (by simp)

end Server

/-! ## Connections that nothing moves -/

section Steps

variable {given : Circumstances} {before after : Moment} {place turned : Option View × Waited}
  {fd : Int} {client : Client} {events : PollFlags} {waited : Waited} {new : List Call}

/-- A step of a connection that may not be given anything, without a call that moves it. -/
theorem Shift.rests (shift : Shift given fd (some (client, events), waited) new turned)
    (unasked : ¬given.asked fd) (still : ∀ call ∈ new, call.moves fd = false)
    (open_ : .closed fd ∉ new) :
    ∃ changed polled, turned.1 = some (changed, polled) ∧ client.Rests changed := by
  cases shift with
  | received asked => exact absurd asked unasked
  | answered asked => exact absurd asked unasked
  | started asked => exact absurd asked unasked
  | completed | inputClosed | outputClosed | reaped | killed =>
      exact ⟨_, _, rfl, rfl, rfl, rfl, rfl, rfl⟩
  | removed => exact absurd List.mem_cons_self open_
  | sent | wrote | collected | timedOut => simp [Call.moves] at still
  | finished => simp [Call.moves] at still

theorem Steps.rests (steps : Steps given before after)
    (seen : before.server.view fd = some (client, events)) (unasked : ¬given.asked fd)
    (calls : after.server.calls = before.server.calls ++ new)
    (still : ∀ call ∈ new, call.moves fd = false) (open_ : .closed fd ∉ new) :
    ∃ changed polled, after.server.view fd = some (changed, polled) ∧ client.Rests changed := by
  induction steps generalizing new with
  | refl => exact ⟨client, events, seen, .refl client⟩
  | tail earlier step ih =>
      rcases Steps.calls earlier with ⟨early, first⟩
      rcases step with ⟨moved, moves, shift, allowed, flags⟩
      rename_i late
      have whole : new = early ++ late := by
        rw [← List.append_right_inj before.server.calls, ← calls, moves.calls, first,
          List.append_assoc]
      subst whole
      rw [List.mem_append, not_or] at open_
      rcases ih first (fun call listed => still call (List.mem_append_left _ listed)) open_.1 with
        ⟨changed, polled, there, rests⟩
      by_cases same : fd = moved
      · subst same
        rw [there] at shift
        rcases shift.rests unasked (fun call listed => still call (List.mem_append_right _ listed))
          open_.2 with ⟨last, lastPolled, now, restsLast⟩
        exact ⟨last, lastPolled, moves.self.trans now, rests.trans restsLast⟩
      · exact ⟨changed, polled, (moves.others fd same).trans there, rests⟩

end Steps

namespace Server

variable {server : Server} {entry : PollFd} {answers : Answers} {client : Client}

theorem writeClient_cases (server : Server) (fd : Int) (answers : Answers) :
    server.writeClient fd answers = server ∨
      server.writeClient fd answers = server.closeClient fd ∨
      ∃ bytes, .sent fd bytes ∈
        (server.writeClient fd answers).calls.drop server.calls.length := by
  simp only [writeClient]
  split
  · exact .inl rfl
  · exact .inr (.inl rfl)
  · exact .inr (.inl rfl)
  next number _ =>
    refine .inr (.inr ⟨((server.clientAt fd).output.drop (server.clientAt fd).sent).take
      (number + 1), ?_⟩)
    split
    · apply ((calls_closeClient _ fd).drop _).subset
      simp [record, setClient]
    · simp [record, setClient]

/-- What the entry of a client's socket leads to, if nothing is received from it. -/
theorem handle_own (sound : Sound server) (found : server.clients[entry.fd]? = some client)
    (silent : answers.received.isData = false) (index : Nat) :
    server.handle index entry answers = server ∨
      server.handle index entry answers = server.closeClient entry.fd ∨
      ∃ bytes, .sent entry.fd bytes ∈
        (server.handle index entry answers).calls.drop server.calls.length := by
  rcases sound with ⟨uses, tabled⟩
  have use := (tabled.client entry.fd).mpr (mem_of_view (exists_view found))
  have notListener : server.isListener entry.fd = false := by
    rw [Bool.eq_false_iff]
    intro listener
    have other := (tabled.listener entry.fd).mpr (isListener_iff.mp listener)
    rw [use] at other
    cases other
  have notOutput : server.cgiOutputOwners.contains entry.fd = false := by
    rw [Bool.eq_false_iff]
    intro owned
    have other := (tabled.outputOwners _ _).mp (owner_of_contains owned)
    rw [use] at other
    cases other
  have notInput : server.cgiInputOwners.contains entry.fd = false := by
    rw [Bool.eq_false_iff]
    intro owned
    have other := (tabled.inputOwners _ _).mp (owner_of_contains owned)
    rw [use] at other
    cases other
  have kind : server.handlerFor entry = .closeClient ∨ server.handlerFor entry = .readClient ∨
      server.handlerFor entry = .writeClient ∨ server.handlerFor entry = .nothing := by
    simp only [handlerFor, notListener, notOutput, notInput, Bool.false_eq_true, if_false]
    split
    · exact .inl rfl
    · split
      · exact .inr (.inl rfl)
      · split
        · exact .inr (.inr (.inl rfl))
        · exact .inr (.inr (.inr rfl))
  rw [handle]
  rcases kind with kind | kind | kind | kind
  · rw [kind]
    exact .inr (.inl rfl)
  · rw [kind]
    simp only [readClient]
    cases received : answers.received with
    | again => exact .inl rfl
    | ended => exact .inr (.inl rfl)
    | data bytes =>
        rw [received, ReadResult.isData] at silent
        cases silent
  · rw [kind]
    exact writeClient_cases server entry.fd answers
  · rw [kind]
    exact .inl rfl

end Server

namespace EventLoop

open Server

variable {loop final : EventLoop} {action : LoopAction} {fd now : Int} {client : Client}
  {disk : Disk}

theorem calls_perform (serving : Serving loop) (possible : loop.enabled action = true) :
    loop.server.calls <+: (loop.perform action).server.calls := by
  rcases performed serving.sound serving.seated serving.attended possible with
    ⟨revents, _, _, server⟩ | ⟨_, steps⟩
  · rw [server]
    exact List.prefix_rfl
  · rcases steps.calls with ⟨new, calls⟩
    exact calls ▸ List.prefix_append _ _

theorem run_performAll {actions : List LoopAction} (serving : Serving loop)
    (performed : loopMachine.performAll actions loop = some final) :
    Serving final ∧ loop.server.calls <+: final.server.calls := by
  induction actions generalizing loop with
  | nil =>
      rw [Machine.performAll, Option.some.injEq] at performed
      exact performed ▸ ⟨serving, List.prefix_rfl⟩
  | cons action actions ih =>
      rw [Machine.performAll] at performed
      split at performed
      next possible =>
        have later := ih (serving.perform possible) performed
        exact ⟨later.1, (calls_perform serving possible).trans later.2⟩
      · cases performed

/-- The connection was closed after one state and before another. -/
def ClosedSince (fd : Int) (before after : EventLoop) : Prop :=
  .closed fd ∈ after.server.calls.drop before.server.calls.length

theorem ClosedSince.later {before between after : EventLoop}
    (closed : ClosedSince fd before between)
    (more : between.server.calls <+: after.server.calls) : ClosedSince fd before after :=
  (more.drop _).subset closed

theorem ClosedSince.earlier {before between after : EventLoop}
    (closed : ClosedSince fd between after)
    (more : before.server.calls <+: between.server.calls) : ClosedSince fd before after :=
  List.drop_subset_drop_left _ more.length_le closed

/-- The connection is as it was, or it has been closed. -/
def Idle (fd : Int) (client : Client) (loop final : EventLoop) : Prop :=
  ClosedSince fd loop final ∨
    ∃ changed, final.server.clients[fd]? = some changed ∧ client.Rests changed

/-- A step that moves nothing on a connection. -/
theorem idle_perform (serving : Serving loop) (possible : loop.enabled action = true)
    (found : loop.server.clients[fd]? = some client) (still : loop.stalls fd action = true) :
    Idle fd client loop (loop.perform action) := by
  rw [stalls, Bool.and_eq_true, List.all_eq_true] at still
  rcases still with ⟨unmoved, silent⟩
  have same (unchanged : (loop.perform action).server.clients[fd]? = some client) :
      Idle fd client loop (loop.perform action) := .inr ⟨client, unchanged, .refl client⟩
  have others (unasked : ¬(loop.circumstances action).asked fd)
      (handled : Handled (loop.circumstances action) loop.server (loop.perform action).server) :
      Idle fd client loop (loop.perform action) := by
    rcases handled.steps.calls with ⟨new, calls⟩
    have whole : loop.newCalls action = new := by
      rw [newCalls, show (loop.perform action).server.calls = _ from calls]
      exact List.drop_left
    by_cases closed : .closed fd ∈ new
    · left
      show .closed fd ∈ loop.newCalls action
      rwa [whole]
    · have untouched : ∀ call ∈ new, call.moves fd = false := by
        intro call listed
        simpa using unmoved call (whole ▸ listed)
      rcases Steps.rests handled.steps (exists_view found) unasked calls untouched closed with
        ⟨changed, polled, there, rests⟩
      exact .inr ⟨changed, found_of_view there, rests⟩
  have turned := performed serving.sound serving.seated serving.attended possible
  cases action with
  | poll revents => exact same found
  | reap disk now waits =>
      rcases turned with ⟨revents, polled, _⟩ | handled
      · cases polled
      · exact others id handled
  | expire disk now =>
      rcases expireClients_cases serving.sound found disk now with ⟨_, stays⟩ | ⟨_, expiry⟩
      · exact same stays
      · cases expiry with
        | answered _ there answered call =>
            have moves := unmoved _ call
            simp [Call.moves] at moves
        | closed _ _ call => exact .inl call
  | visit answers =>
      cases there : loop.current with
      | none =>
          rcases turned with ⟨revents, polled, _⟩ | handled
          · cases polled
          · apply others _ handled
            simp [circumstances, there, nobody]
      | some entry =>
          by_cases own : fd = entry.fd
          · subst own
            rcases exists_of_current there with ⟨index, ready, control, listed⟩
            have quiet : answers.received.isData = false := by
              simpa [EventLoop.silent, there] using silent
            have performed : loop.perform (.visit answers) =
                loop.visit index ready entry answers := by
              simp only [perform, control, there]
            rw [newCalls] at unmoved
            rw [performed, visit] at unmoved ⊢
            split at unmoved
            next plain =>
              rw [if_pos plain]
              exact .inr ⟨client, found, .refl client⟩
            next some_ =>
              rw [if_neg some_]
              rcases handle_own serving.sound found quiet index with
                same | closed | ⟨bytes, sent⟩
              · rw [Idle, same]
                exact .inr ⟨client, found, .refl client⟩
              · rw [Idle, closed]
                exact .inl (closeClient_closed found).2
              · have moves := unmoved _ sent
                simp [Call.moves] at moves
          · rcases turned with ⟨revents, polled, _⟩ | handled
            · cases polled
            · apply others _ handled
              simpa [circumstances, there, Server.circumstances] using own

/-- A run that moves nothing on a connection. -/
structure StalledRun (fd : Int) (before : EventLoop) (actions : List LoopAction)
    (after : EventLoop) : Prop where
  performed : loopMachine.performAll actions before = some after
  still : loopMachine.EveryStep (fun loop action => loop.stalls fd action = true) actions before

theorem idle_performAll {actions : List LoopAction} (serving : Serving loop)
    (found : loop.server.clients[fd]? = some client) (run : StalledRun fd loop actions final) :
    Idle fd client loop final := by
  rcases run with ⟨performed, still⟩
  induction actions generalizing loop client with
  | nil =>
      rw [Machine.performAll, Option.some.injEq] at performed
      exact .inr ⟨client, performed ▸ found, .refl client⟩
  | cons action actions ih =>
      rw [Machine.performAll] at performed
      split at performed
      next possible =>
        have serves := serving.perform possible
        rcases idle_perform serving possible found still.1 with closed | ⟨changed, there, rests⟩
        · exact .inl (closed.later (run_performAll serves performed).2)
        · rcases ih serves there performed still.2 with closed | ⟨last, here, restsLast⟩
          · exact .inl (closed.earlier (calls_perform serving possible))
          · exact .inr ⟨last, here, rests.trans restsLast⟩
      · cases performed

/-! ### Expiries behind such runs -/

/-- The connection was answered by an expiry because it was late. -/
structure AnsweredBy (fd : Int) (client : Client) (disk : Disk) (now : Int) (loop : EventLoop)
    (changed : Client) : Prop where
  found : (loop.perform (.expire disk now)).server.clients[fd]? = some changed
  answered : Answered disk now client changed
  call : .serialized fd changed.output ∈
    (loop.perform (.expire disk now)).server.calls.drop loop.server.calls.length

theorem answered_of_stalled {late : EventLoop} {early : List LoopAction} (serving : Serving loop)
    (found : loop.server.clients[fd]? = some client) (stalled : StalledRun fd loop early late)
    (expiring : late.enabled (.expire disk now) = true) (lapsed : client.Late now) :
    ClosedSince fd loop (late.perform (.expire disk now)) ∨
      ∃ changed, AnsweredBy fd client disk now late changed := by
  rcases run_performAll serving stalled.performed with ⟨waiting, calls⟩
  rcases idle_performAll serving found stalled with closed | ⟨changed, there, rests⟩
  · exact .inl (closed.later (calls_perform waiting expiring))
  · have lateToo : changed.Late now := by
      rw [Client.Late, rests.timeout, rests.touched]
      exact lapsed
    rcases expireClients_cases waiting.sound there disk now with ⟨onTime, _⟩ | ⟨_, expiry⟩
    · exact absurd lateToo onTime
    · cases expiry with
      | closed _ _ call => exact .inl (ClosedSince.earlier call calls)
      | @answered settled _ here answered call =>
          exact .inr ⟨settled, here, answered.of_rests rests, call⟩

/-- A connection that has been answered because it was late is closed by the next expiry that it
is late for. -/
theorem closed_of_answered {late last : EventLoop} {idle : List LoopAction} {changed : Client}
    {nextDisk : Disk} {later : Int} (serving : Serving late)
    (expiring : late.enabled (.expire disk now) = true)
    (settled : AnsweredBy fd client disk now late changed)
    (stalled : StalledRun fd (late.perform (.expire disk now)) idle last)
    (again : last.enabled (.expire nextDisk later) = true)
    (passed : (client.timeoutSeconds : Int) < later - now) :
    ClosedSince fd late (last.perform (.expire nextDisk later)) := by
  have serves := serving.perform expiring
  have once := calls_perform serving expiring
  rcases run_performAll serves stalled.performed with ⟨kept, more⟩
  have answered := settled.answered
  rcases idle_performAll serves settled.found stalled with closed | ⟨resting, present, rests⟩
  · exact (closed.later (calls_perform kept again)).earlier once
  · have lateAgain : resting.Late later := by
      rw [Client.Late, rests.timeout, rests.touched, answered.timeout, answered.touched]
      exact passed
    rcases expireClients_cases kept.sound present nextDisk later with
      ⟨onTime, _⟩ | ⟨_, expiry⟩
    · exact absurd lateAgain onTime
    · cases expiry with
      | closed _ _ call => exact ClosedSince.earlier call (once.trans more)
      | answered due _ _ _ =>
          -- It has a response and no script, so that it is not answered a second time.
          rcases due with running | silent
          · rw [rests.process] at running
            exact absurd running (Int.not_lt.mpr answered.idle)
          · rw [rests.output, answered.output] at silent
            exact absurd silent (Response.serialize_ne_nil _)

end EventLoop

/-! ## Connections that are late -/

open EventLoop

/-- An expiry leaves nobody who is late. A connection that nothing moves is answered by the
first expiry that it is late for, unless it is closed, and closed by the next. -/
theorem closed_of_stalled {loop late : EventLoop} {fd now : Int} {client : Client}
    {early : List LoopAction} {disk : Disk} (reached : loopMachine.system.Reachable loop)
    (found : loop.server.clients[fd]? = some client) (stalled : StalledRun fd loop early late)
    (expiring : late.enabled (.expire disk now) = true) (lapsed : client.Late now) :
    (∀ (other : Int) (changed : Client),
        (late.perform (.expire disk now)).server.clients[other]? = some changed →
          ¬changed.Late now) ∧
      (ClosedSince fd loop (late.perform (.expire disk now)) ∨
        ∃ changed, AnsweredBy fd client disk now late changed) ∧
      ∀ (idle : List LoopAction) (last : EventLoop) (nextDisk : Disk) (later : Int),
        StalledRun fd (late.perform (.expire disk now)) idle last →
        last.enabled (.expire nextDisk later) = true →
        (client.timeoutSeconds : Int) < later - now →
          ClosedSince fd loop (last.perform (.expire nextDisk later)) := by
  have serving := serving_of_reachable reached
  have run := run_performAll serving stalled.performed
  have first := answered_of_stalled serving found stalled expiring lapsed
  refine ⟨fun other changed => Server.onTime_of_expireClients run.1.sound, first, ?_⟩
  intro idle last nextDisk later unmoved again passed
  rcases first with closed | ⟨changed, settled⟩
  · have rest := run_performAll (run.1.perform expiring) unmoved.performed
    exact closed.later (rest.2.trans (calls_perform rest.1 again))
  · exact (closed_of_answered run.1 expiring settled unmoved again passed).earlier run.2

/-- Nothing is reported, so that the scan is over at once. -/
def quietRound (count : Nat) : List LoopAction :=
  [.poll (List.replicate count {}), .reap scriptDisk 0 []]

def lateLoop : EventLoop := loopMachine.performOr servedLoop (quietRound 3)

def expiredLoop : EventLoop :=
  loopMachine.performOr (lateLoop.perform (.expire scriptDisk 31)) (quietRound 2)

theorem closed_of_stalled_script :
    ClosedSince 4 servedLoop (expiredLoop.perform (.expire scriptDisk 62)) := by
  have present : (servedLoop.server.clients[(4 : Int)]?).isSome = true := by decide +kernel
  rcases Option.isSome_iff_exists.mp present with ⟨client, found⟩
  have here := Server.clientAt_of_found found
  have lapsed : client.Late 31 := here ▸ (by decide +kernel)
  have passed : (client.timeoutSeconds : Int) < 62 - 31 := here ▸ (by decide +kernel)
  have waited : StalledRun 4 servedLoop (quietRound 3) lateLoop :=
    ⟨Machine.performAll_eq_performOr (by decide +kernel), by decide +kernel⟩
  have rested : StalledRun 4 (lateLoop.perform (.expire scriptDisk 31)) (quietRound 2)
      expiredLoop :=
    ⟨Machine.performAll_eq_performOr (by decide +kernel), by decide +kernel⟩
  exact (closed_of_stalled reachable_servedLoop found waited (by decide +kernel) lapsed).2.2
    (quietRound 2) expiredLoop scriptDisk 62 rested (by decide +kernel) passed

end IrcPlatform.Webserv
