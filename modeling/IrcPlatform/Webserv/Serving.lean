import IrcPlatform.Webserv.Children
import IrcPlatform.Webserv.HandlerSteps

/-!
# Serving

What holds whenever a handler has returned, over whole runs of the event loop: the tables agree,
connections and scripts are bounded, every connection has a seat that fits its story, the
children are tended, and no entry that the scan still comes to reports an event that its
connection does not ask for any more.
-/

namespace IrcPlatform.Webserv

open Std

/-! ## Bounds -/

/-- The sizes of two tables that only differ at one key. -/
theorem size_of_same_off {Value : Type} {before after : ExtTreeMap Int Value} {fd : Int}
    (same : ∀ key : Int, key ≠ fd → after[key]? = before[key]?) :
    after.size + (if before.contains fd then 1 else 0) =
      before.size + if after.contains fd then 1 else 0 := by
  have erased : after.erase fd = before.erase fd := by
    apply ExtTreeMap.ext_getElem?
    intro key
    simp only [ExtTreeMap.getElem?_erase, LawfulEqOrd.compare_eq_iff_eq]
    split
    next => rfl
    next different => exact same key (Ne.symm different)
  have positive {table : ExtTreeMap Int Value} (inside : table.contains fd = true) :
      0 < table.size := by
    by_contra none
    have empty := ExtTreeMap.eq_empty_iff_size_eq_zero.mpr (Nat.eq_zero_of_not_pos none)
    rw [empty] at inside
    simp at inside
  have sizes := congrArg ExtTreeMap.size erased
  rw [ExtTreeMap.size_erase, ExtTreeMap.size_erase] at sizes
  by_cases first : before.contains fd = true
  · have some_ := positive first
    by_cases second : after.contains fd = true
    · have also := positive second
      simp only [first, second, if_true] at sizes ⊢
      omega
    · simp only [first, second, if_true] at sizes ⊢
      simp at sizes ⊢
      omega
  · by_cases second : after.contains fd = true
    · have also := positive second
      simp only [first, second, if_true] at sizes ⊢
      simp at sizes ⊢
      omega
    · simp only [first, second] at sizes ⊢
      simpa using sizes

structure Bounded (server : Server) : Prop where
  clients : server.clients.size ≤ Server.maxConnections
  scripts : server.runningCgi ≤ Server.maxCgiProcesses

variable {given : Circumstances} {before after : Moment} {fd : Int} {new : List Call}
  {place turned : Option View × Waited}

/-- A connection only appears when it is accepted. -/
theorem Shift.accepts (shift : Shift given fd place new turned) (absent : place.1 = none)
    (present : turned.1 ≠ none) : .accepted fd ∈ new := by
  cases shift <;> simp_all

/-- A script only appears when it is started. -/
theorem Shift.forks (shift : Shift given fd place new turned) {changed : Client}
    {events : PollFlags} (seen : turned.1 = some (changed, events))
    (running : 0 < changed.cgiPid) :
    (∃ client events, place.1 = some (client, events) ∧ 0 < client.cgiPid) ∨
      ∃ pid, .forked pid ∈ new := by
  cases shift with
  | refused => cases seen
  | removed => cases seen
  | accepted =>
      simp only [Option.some.injEq, Prod.mk.injEq] at seen
      rw [← seen.1] at running
      simp at running
  | started asked silent idle request opens closes positive reading writing timeout now =>
      exact .inr ⟨_, List.mem_append_right _ List.mem_cons_self⟩
  | _ =>
      simp only [Option.some.injEq, Prod.mk.injEq] at seen
      rw [← seen.1] at running
      first
        | exact .inl ⟨_, _, rfl, running⟩
        | exact .inl ⟨_, _, rfl, by assumption⟩

theorem view_fst (server : Server) (fd : Int) :
    (server.view fd).map (·.1) = server.clients[fd]? := by
  rw [Server.view, Option.map_map]
  exact Option.map_id_apply

theorem contains_clients (server : Server) (fd : Int) :
    server.clients.contains fd = (server.view fd).isSome := by
  rw [ExtTreeMap.contains_eq_isSome_getElem?, ← view_fst, Option.isSome_map]

theorem contains_running (server : Server) (fd : Int) :
    (server.clients.filter fun _ client => 0 < client.cgiPid).contains fd = true ↔
      ∃ client events, server.view fd = some (client, events) ∧ 0 < client.cgiPid := by
  rw [ExtTreeMap.contains_eq_isSome_getElem?, ExtTreeMap.getElem?_filter', ← view_fst]
  cases server.view fd with
  | none => simp
  | some view => simp [Option.filter, Prod.ext_iff]

theorem Step.bounded (step : Step given before after) (bounded : Bounded before.server) :
    Bounded after.server := by
  rcases step with ⟨fd, moves, shift, allowed, flags⟩
  rename_i view waited new
  have same : ∀ key : Int, key ≠ fd →
      after.server.clients[key]? = before.server.clients[key]? := by
    intro key different
    rw [← view_fst, ← view_fst, moves.others key different]
  constructor
  · have sizes := size_of_same_off same
    have limit := bounded.clients
    rw [contains_clients, contains_clients, moves.self] at sizes
    cases absent : before.server.view fd with
    | none =>
        rw [absent] at sizes shift
        by_cases present : view = none
        · simp only [present, Option.isSome_none] at sizes
          simp at sizes
          omega
        · have room := allowed.admitted (shift.accepts rfl present)
          have some_ : view.isSome = true := Option.isSome_iff_ne_none.mpr present
          simp only [some_, Option.isSome_none] at sizes
          simp at sizes
          omega
    | some _ =>
        rw [absent] at sizes
        simp only [Option.isSome_some, if_true] at sizes
        split at sizes <;> omega
  · have filtered : ∀ key : Int, key ≠ fd →
        (after.server.clients.filter fun _ client => 0 < client.cgiPid)[key]? =
          (before.server.clients.filter fun _ client => 0 < client.cgiPid)[key]? := by
      intro key different
      rw [ExtTreeMap.getElem?_filter', ExtTreeMap.getElem?_filter', same key different]
    have sizes := size_of_same_off filtered
    have limit := bounded.scripts
    rw [Server.runningCgi] at limit ⊢
    by_cases running : (after.server.clients.filter fun _ client =>
        0 < client.cgiPid).contains fd = true
    · rcases (contains_running _ _).mp running with ⟨client, events, seen, positive⟩
      rw [moves.self] at seen
      rcases shift.forks seen positive with ⟨former, polled, there, alive⟩ | ⟨pid, forked⟩
      · have before := (contains_running _ _).mpr ⟨former, polled, there, alive⟩
        simp only [running, before, if_true] at sizes
        omega
      · have room := allowed.bounded pid forked
        rw [Server.runningCgi] at room
        split at sizes <;> omega
    · simp only [running] at sizes
      split at sizes <;> simp at sizes <;> omega

/-! ## The scan -/

/-- The events that were reported are still asked for. -/
def Fits (revents events : PollFlags) : Prop :=
  (revents.pollin = true → events.pollin = true) ∧ (revents.pollout = true → events.pollout = true)

theorem fits_none (events : PollFlags) : Fits {} events := by
  constructor <;> simp

/-- The entries that are still to come report nothing that their connections do not ask for. -/
def Attended (server : Server) (pending : List (Int × PollFlags)) : Prop :=
  ∀ key ∈ Server.keys server.pollfds, key ∈ pending → ∀ client events,
    server.view key.1 = some (client, events) → Fits key.2 events

theorem Attended.mono {server : Server} {pending fewer : List (Int × PollFlags)}
    (attended : Attended server pending) (within : ∀ key ∈ fewer, key ∈ pending ∨ key.2 = {}) :
    Attended server fewer := by
  intro key listed inside client events seen
  rcases within key inside with old | plain
  · exact attended key listed old client events seen
  · rw [plain]
    exact fits_none events

/-- Which events a connection is polled for only changes at its turn, or where it was polled for
none. -/
theorem Shift.polled {lax cut : Prop} {story : Story} (shift : Shift given fd place new turned)
    (seat : Seat lax cut place story) (unasked : ¬given.asked fd) {changed : Client}
    {events : PollFlags} (seen : turned.1 = some (changed, events)) :
    .accepted fd ∈ new ∨ ∃ client polled, place.1 = some (client, polled) ∧
      (events = polled ∨ polled = {}) := by
  cases shift with
  | refused => cases seen
  | removed => cases seen
  | accepted => exact .inl (by simp)
  | answered asked => exact absurd asked unasked
  | started asked => exact absurd asked unasked
  | finished running =>
      refine .inr ⟨_, _, rfl, ?_⟩
      cases seat with
      | reading _ _ idle => omega
      | writing _ idle => omega
      | serving => exact .inr rfl
  | timedOut running =>
      refine .inr ⟨_, _, rfl, ?_⟩
      cases seat with
      | serving => exact .inr rfl
  | _ =>
      simp only [Option.some.injEq, Prod.mk.injEq] at seen
      exact .inr ⟨_, _, rfl, .inl seen.2.symm⟩

theorem Step.attended {lax cut : Prop} {pending : List (Int × PollFlags)}
    (step : Step given before after) (seated : Seated lax cut before)
    (unasked : ∀ key ∈ pending, ¬given.asked key.1) (attended : Attended before.server pending) :
    Attended after.server pending := by
  rcases step with ⟨fd, moves, shift, allowed, flags⟩
  intro key listed inside changed events seen
  rcases moves.thinned with ⟨kept, pushed, sublist, whole, plain⟩
  rw [whole, List.mem_append] at listed
  rcases listed with still | fresh
  · have before_ := sublist.mem still
    by_cases same : key.1 = fd
    · rw [same, moves.self] at seen
      have polled := shift.polled (seated fd) (same ▸ unasked key inside) seen
      rcases polled with accepted | ⟨client, polled, there, rfl | rfl⟩
      · exfalso
        apply allowed.unlisted accepted
        rcases List.mem_map.mp before_ with ⟨entry, present, rfl⟩
        exact same ▸ List.mem_map_of_mem present
      · exact attended key before_ inside client _ (same ▸ there)
      · have former := attended key before_ inside client _ (same ▸ there)
        exact ⟨fun reported => absurd (former.1 reported) (by simp),
          fun reported => absurd (former.2 reported) (by simp)⟩
    · rw [moves.others key.1 same] at seen
      exact attended key before_ inside changed events seen
  · rw [plain key fresh]
    exact fits_none events

namespace Steps

theorem bounded (steps : Steps given before after) (bounded : Bounded before.server) :
    Bounded after.server := by
  induction steps with
  | refl => exact bounded
  | tail _ step ih => exact step.bounded ih

theorem attended {pending : List (Int × PollFlags)} (steps : Steps given before after)
    (seated : Seated True True before) (unasked : ∀ key ∈ pending, ¬given.asked key.1)
    (attended : Attended before.server pending) : Attended after.server pending := by
  induction steps with
  | refl => exact attended
  | tail earlier step ih =>
      exact step.attended (Steps.seated earlier (fun _ => trivial) (fun _ => trivial) seated)
        unasked ih

theorem thinned (steps : Steps given before after) :
    Server.Thinned before.server.pollfds after.server.pollfds := by
  induction steps with
  | refl => exact .refl _
  | tail _ step ih =>
      rcases step with ⟨fd, moves, shift, allowed, flags⟩
      exact ih.trans moves.thinned

theorem calls (steps : Steps given before after) :
    ∃ new, after.server.calls = before.server.calls ++ new := by
  induction steps with
  | refl => exact ⟨[], (List.append_nil _).symm⟩
  | tail _ step ih =>
      rcases ih with ⟨early, first⟩
      rcases step with ⟨fd, moves, shift, allowed, flags⟩
      rename_i new
      exact ⟨early ++ new, by rw [moves.calls, first, List.append_assoc]⟩

end Steps

/-! ## Handlers -/

namespace Server

/-- What is known about the entry that a handler is called for. -/
inductive HandlerCase (server : Server) (entry : PollFd) : Handler → Prop where
  | acceptClient (listener : server.isListener entry.fd = true) :
      HandlerCase server entry .acceptClient
  | readCgi {client : Client} {events : PollFlags}
      (seen : server.view (server.outputOwner entry.fd) = some (client, events))
      (piped : client.cgiOutputFd = entry.fd) (nonneg : 0 ≤ entry.fd) :
      HandlerCase server entry .readCgi
  | writeCgi {client : Client} {events : PollFlags}
      (seen : server.view (server.inputOwner entry.fd) = some (client, events))
      (piped : client.cgiInputFd = entry.fd) (nonneg : 0 ≤ entry.fd) :
      HandlerCase server entry .writeCgi
  | closeOwner {fd : Int} {client : Client} {events : PollFlags}
      (seen : server.view fd = some (client, events)) (running : 0 < client.cgiPid) :
      HandlerCase server entry (.closeOwner fd)
  | closeClient {client : Client} {events : PollFlags}
      (seen : server.view entry.fd = some (client, events))
      (failed : (entry.revents.pollerr || entry.revents.pollhup || entry.revents.pollnval) = true) :
      HandlerCase server entry .closeClient
  | readClient {client : Client} {events : PollFlags}
      (seen : server.view entry.fd = some (client, events))
      (reported : entry.revents.pollin = true) : HandlerCase server entry .readClient
  | writeClient {client : Client} {events : PollFlags}
      (seen : server.view entry.fd = some (client, events))
      (reported : entry.revents.pollout = true) : HandlerCase server entry .writeClient
  | nothing : HandlerCase server entry .nothing

theorem isListener_iff {server : Server} {fd : Int} :
    server.isListener fd = true ↔ fd ∈ server.listeners.map (·.fd) := by
  simp [isListener]

theorem owner_of_contains {owners : ExtTreeMap Int Int} {fd : Int}
    (owned : owners.contains fd = true) : owners[fd]? = some ((owners[fd]?).getD (0 : Int)) := by
  rw [ExtTreeMap.contains_eq_isSome_getElem?] at owned
  rcases Option.isSome_iff_exists.mp owned with ⟨owner, found⟩
  rw [found, Option.getD_some]

theorem contains_of_owner {owners : ExtTreeMap Int Int} {fd owner : Int}
    (found : owners[fd]? = some owner) : owners.contains fd = true := by
  rw [ExtTreeMap.contains_eq_isSome_getElem?, found]
  rfl

theorem handlerCase {server : Server} {entry : PollFd} (sound : Sound server)
    (listed : entry ∈ server.pollfds) : HandlerCase server entry (server.handlerFor entry) := by
  rcases sound with ⟨uses, tabled⟩
  have used := (tabled.polled entry.fd).mp (List.mem_map_of_mem listed)
  simp only [handlerFor]
  split
  next listener =>
    split
    · exact .acceptClient listener
    · exact .nothing
  next notListener =>
    split
    next owned =>
      have owner : server.cgiOutputOwners[entry.fd]? = some (server.outputOwner entry.fd) :=
        owner_of_contains owned
      rcases (tabled.output _ _).mp ((tabled.outputOwners _ _).mp owner) with
        ⟨nonneg, client, found, piped⟩
      split
      · exact .readCgi (exists_view found) piped nonneg
      · split
        · exact .closeOwner (exists_view found)
            (Sound.running ⟨uses, tabled⟩ found (.inr (piped ▸ nonneg)))
        · exact .nothing
    next notOutput =>
      split
      next owned =>
        have owner : server.cgiInputOwners[entry.fd]? = some (server.inputOwner entry.fd) :=
          owner_of_contains owned
        rcases (tabled.input _ _).mp ((tabled.inputOwners _ _).mp owner) with
          ⟨nonneg, client, found, piped⟩
        split
        · exact .writeCgi (exists_view found) piped nonneg
        · exact .closeOwner (exists_view found)
            (Sound.running ⟨uses, tabled⟩ found (.inl (piped ▸ nonneg)))
      next notInput =>
        have client : uses entry.fd = some .client := by
          cases use : uses entry.fd with
          | none => exact absurd use used
          | some kind =>
              cases kind with
              | client => rfl
              | listener =>
                  rw [tabled.listener, ← isListener_iff] at use
                  exact absurd use notListener
              | input owner =>
                  rw [← tabled.inputOwners] at use
                  exact absurd (contains_of_owner use) notInput
              | output owner =>
                  rw [← tabled.outputOwners] at use
                  exact absurd (contains_of_owner use) notOutput
        rcases tabled.exists_client client with ⟨client, found⟩
        split
        next failed => exact .closeClient (exists_view found) failed
        next =>
          split
          next reported => exact .readClient (exists_view found) reported
          next =>
            split
            next reported => exact .writeClient (exists_view found) reported
            next => exact .nothing

/-- What may happen while the handler of an entry runs. -/
def circumstances (server : Server) (entry : PollFd) (answers : Answers) : Circumstances where
  asked fd := fd = entry.fd
  quiet fd := fd = entry.fd ∧ (server.handlerFor entry = .readClient → answers.received = .ended) ∨
    server.handlerFor entry = .closeOwner fd
  failing := server.handlerFor entry = .readClient ∧ ∃ parsed route,
    server.scriptStart entry.fd answers = some (parsed, route) ∧
      (parsed.startProcess route answers.started).2 = none
  cut := server.handlerFor entry = .readCgi ∧ ∃ bytes, answers.received = .data bytes ∧
    maxCgiOutput < ((server.clientAt (server.outputOwner entry.fd)).cgiOutput ++ bytes).length ∧
      succeeded answers.killed = true

theorem handled_handle {lax cut : Prop} {server : Server} {index : Nat} {entry : PollFd}
    {answers : Answers} (sound : Sound server) (seated : Seated lax cut server.settled)
    (there : server.pollfds[index]? = some entry)
    (fits : ∀ client events, server.view entry.fd = some (client, events) →
      Fits entry.revents events) (possible : server.permits entry answers = true) :
    Handled (server.circumstances entry answers) server (server.handle index entry answers) := by
  have known := handlerCase sound (List.mem_of_getElem? there)
  generalize handler : server.handlerFor entry = kind at known
  rw [permits, handler] at possible
  rw [handle, handler]
  cases known with
  | acceptClient listener =>
      simp only [acceptClient, there, Option.bind_some]
      exact handled_acceptAll _ _ sound possible
  | readCgi seen piped nonneg =>
      apply handled_readCgi sound answers rfl seen piped nonneg
      intro bytes received beyond success
      refine ⟨handler, bytes, received, ?_, success⟩
      rwa [clientAt_of_view seen]
  | writeCgi seen piped nonneg =>
      apply handled_writeCgi sound answers rfl seen piped nonneg
      simpa only [clientAt_of_view seen] using possible
  | closeOwner seen running =>
      exact handled_closeClient sound _ fun _ _ _ => .inr (.inr handler)
  | closeClient seen failed =>
      apply handled_closeClient sound
      intro _ _ _
      exact .inr (.inl ⟨rfl, fun reading => by rw [handler] at reading; cases reading⟩)
  | @readClient client events seen reported =>
      simp only [Bool.and_eq_true] at possible
      have asked := (fits _ _ seen).1 reported
      have seat := seated entry.fd
      rw [show server.settled.server.view entry.fd = some (client, events) from seen] at seat
      have asking : Asking (server.circumstances entry answers) server entry.fd client index :=
        ⟨rfl, (seat.reading_of_pollin asked).1, (seat.reading_of_pollin asked).2, entry, there, rfl⟩
      exact handled_readClient sound seen answers (fun spent => Or.inl ⟨rfl, fun _ => spent⟩) asking
        possible.2 fun parsed route started failed => ⟨handler, parsed, route, started, failed⟩
  | writeClient seen reported =>
      apply handled_writeClient sound answers seen
      · exact Or.inl ⟨rfl, fun reading => by rw [handler] at reading; cases reading⟩
      simpa only [clientAt_of_view seen] using possible
  | nothing => exact .refl sound

end Server

/-! ## The loop -/

namespace Server

/-- The entries behind the index of the scan are those that were there before, or new ones. -/
theorem Thinned.unvisited {first second : List PollFd} {index next : Nat} {entry : PollFd}
    (thinned : Thinned first second) (there : first[index]? = some entry)
    (onward : next = index + 1 ∨ next = index ∧ ∀ other, second[index]? = some other →
      other.fd ≠ entry.fd) :
    ∀ key ∈ keys (second.drop next), key ∈ keys (first.drop (index + 1)) ∨ key.2 = {} := by
  rcases thinned with ⟨kept, pushed, sublist, whole, plain⟩
  have inside : index < first.length := (List.getElem?_eq_some_iff.mp there).1
  have split : keys first = keys (first.take index) ++
      (entry.fd, entry.revents) :: keys (first.drop (index + 1)) := by
    have parts : first = first.take index ++ entry :: first.drop (index + 1) := by
      rw [← (List.getElem?_eq_some_iff.mp there).2, List.getElem_cons_drop, List.take_append_drop]
    conv_lhs => rw [parts]
    rw [keys, List.map_append, List.map_cons]
    rfl
  have length : (keys (first.take index)).length = index := by
    rw [keys, List.length_map, List.length_take]
    omega
  rw [split, List.sublist_append_iff] at sublist
  rcases sublist with ⟨early, late, rfl, inEarly, inLate⟩
  have short := inEarly.length_le
  rw [length] at short
  have behind {position : Nat} {rest : List (Int × PollFlags)}
      (sublist : rest.Sublist (keys (first.drop (index + 1)))) :
      ∀ key ∈ (rest ++ pushed).drop position,
        key ∈ keys (first.drop (index + 1)) ∨ key.2 = {} := by
    intro key listed
    rcases List.mem_append.mp (List.mem_of_mem_drop listed) with old | new
    · exact .inl (sublist.mem old)
    · exact .inr (plain key new)
  intro key listed
  have past : early.length ≤ next := by omega
  rw [keys, List.map_drop, show second.map _ = _ from whole, List.append_assoc, List.drop_append,
    List.drop_eq_nil_of_le past, List.nil_append] at listed
  rcases List.sublist_cons_iff.mp inLate with removed | ⟨rest, rfl, still⟩
  · exact behind removed key listed
  · cases position : next - early.length with
    | succ position' =>
        rw [position, List.cons_append, List.drop_succ_cons] at listed
        exact behind still key listed
    | zero =>
        have here : next = index ∧ early.length = index := by omega
        rcases onward with beyond | ⟨_, moved⟩
        · omega
        · exfalso
          have found : (keys second)[index]? = some (entry.fd, entry.revents) := by
            rw [whole, List.append_assoc, List.getElem?_append_right (by omega), here.2]
            simp
          rw [keys, List.getElem?_map, Option.map_eq_some_iff] at found
          rcases found with ⟨other, at_, same⟩
          exact moved other at_ (Prod.mk.inj same).1

theorem closeClient_unlisted {server : Server} (nodup : (server.pollfds.map (·.fd)).Nodup)
    {fd : Int} {client : Client} (found : server.clients[fd]? = some client) :
    fd ∉ (server.closeClient fd).pollfds.map (·.fd) := by
  have input (server : Server) : (server.dropCgiInput fd).pollfds.Sublist server.pollfds := by
    rw [dropCgiInput]
    split
    · exact .refl _
    · exact List.eraseP_sublist
  have output (server : Server) : (server.dropCgiOutput fd).pollfds.Sublist server.pollfds := by
    rw [dropCgiOutput]
    split
    · exact .refl _
    · exact List.eraseP_sublist
  have waited : (if 0 < client.cgiPid then server.killCgi fd else server).pollfds =
      server.pollfds := by
    split <;> rfl
  have kept := (output _).trans (input (if 0 < client.cgiPid then server.killCgi fd else server))
  rw [waited] at kept
  simp only [closeClient, found]
  rw [removePollFd, map_fd_eraseP]
  exact (nodup.sublist (kept.map _)).not_mem_erase

end Server

namespace EventLoop

open Server

/-- Nothing may happen to a connection without a reason of its own. -/
def nobody : Circumstances where
  asked _ := False
  quiet _ := False
  failing := False
  cut := False

/-- What may happen in a step of the loop. -/
def circumstances (loop : EventLoop) : LoopAction → Circumstances
  | .visit answers =>
      match loop.current with
      | none => nobody
      | some entry => loop.server.circumstances entry answers
  | .expire _ _ => { nobody with asked := fun _ => True }
  | .poll _ | .reap _ _ _ => nobody

/-- What holds whenever a handler has returned. -/
structure Serving (loop : EventLoop) : Prop where
  sound : Sound loop.server
  seated : Seated True True loop.server.settled
  told : Told loop.server.calls
  tended : Tended loop.server.settled
  bounded : Bounded loop.server
  attended : ∀ index ready, loop.control = .scanning index ready →
    Attended loop.server (keys (loop.server.pollfds.drop index))

variable {loop : EventLoop} {server : Server} {index ready : Nat} {entry : PollFd}
  {answers : Answers} {action : LoopAction} {revents : List PollFlags}

/-! ### Polling -/

theorem map_polled {Value : Type} (field : PollFd → Value)
    (same : ∀ entry revents, field { entry with revents := revents } = field entry)
    {table : List PollFd} {revents : List PollFlags} (enough : revents.length = table.length) :
    (List.zipWith ({ · with revents := · }) table revents).map field = table.map field := by
  induction table generalizing revents with
  | nil => rw [List.zipWith_nil_left]
  | cons entry rest ih =>
      cases revents with
      | nil => cases enough
      | cons flags more =>
          rw [List.zipWith_cons_cons, List.map_cons, List.map_cons, same,
            ih (Nat.succ.inj enough)]

theorem eventsOf_eq (server : Server) (fd : Int) : server.eventsOf fd =
    (((server.pollfds.map fun entry => (entry.fd, entry.events)).find? (·.1 == fd)).map
      (·.2)).getD {} := by
  rw [eventsOf, List.find?_map, Option.map_map]
  rfl

theorem view_polled (enough : revents.length = server.pollfds.length) (fd : Int) :
    (polled server revents).view fd = server.view fd := by
  have clients : (polled server revents).clients[fd]? = server.clients[fd]? := rfl
  apply view_of_same clients
  rw [eventsOf_eq, eventsOf_eq, polled, map_polled _ (fun _ _ => rfl) enough]

theorem sound_polled (sound : Sound server) (enough : revents.length = server.pollfds.length) :
    Sound (polled server revents) := by
  rcases sound with ⟨uses, tabled⟩
  have fds : (polled server revents).pollfds.map (·.fd) = server.pollfds.map (·.fd) :=
    map_polled _ (fun _ _ => rfl) enough
  refine ⟨uses, ?_⟩
  constructor
  · rw [fds]
    exact tabled.nodup
  · rw [fds]
    exact tabled.polled
  · exact tabled.listener
  · exact tabled.client
  · exact tabled.inputOwners
  · exact tabled.outputOwners
  · exact tabled.input
  · exact tabled.output
  · exact tabled.nonneg
  · exact tabled.named
  · exact tabled.idle
  · exact tabled.opened
  · exact tabled.openNodup
  · exact tabled.once

theorem find_of_listed {table : List PollFd} (nodup : (table.map (·.fd)).Nodup)
    (listed : entry ∈ table) : table.find? (·.fd == entry.fd) = some entry := by
  induction table with
  | nil => cases listed
  | cons first rest ih =>
      rw [List.map_cons, List.nodup_cons] at nodup
      rcases List.mem_cons.mp listed with rfl | later
      · simp
      · have different : (first.fd == entry.fd) = false := by
          rw [beq_eq_false_iff_ne]
          intro same
          exact nodup.1 (same ▸ List.mem_map_of_mem later)
        rw [List.find?_cons, different]
        exact ih nodup.2 later

/-- The events of an entry are those of its descriptor. -/
theorem eventsOf_of_listed (nodup : (server.pollfds.map (·.fd)).Nodup)
    (listed : entry ∈ server.pollfds) : server.eventsOf entry.fd = entry.events := by
  rw [eventsOf, find_of_listed nodup listed]
  rfl

theorem attended_polled (nodup : (server.pollfds.map (·.fd)).Nodup)
    (enough : revents.length = server.pollfds.length)
    (reported : ((server.pollfds.zip revents).all fun (entry, flags) => entry.reports flags) = true)
    (pending : List (Int × PollFlags)) : Attended (polled server revents) pending := by
  intro key listed _ client events seen
  rw [view_polled enough] at seen
  rcases List.mem_map.mp listed with ⟨entry, inside, rfl⟩
  rw [polled, ← List.map_uncurry_zip_eq_zipWith] at inside
  rcases List.mem_map.mp inside with ⟨⟨asked, flags⟩, zipped, rfl⟩
  have before := (List.of_mem_zip zipped).1
  have polled_ := eventsOf_of_listed nodup before
  have same : events = asked.events := (view_eq_some_iff.mp seen).2.symm.trans polled_
  have fits := List.all_eq_true.mp reported _ zipped
  rw [same]
  simpa [PollFd.reports, Fits, or_iff_not_imp_left] using fits

/-! ### Visiting -/

theorem exists_of_current (there : loop.current = some entry) : ∃ index ready,
    loop.control = .scanning index ready ∧ loop.server.pollfds[index]? = some entry := by
  rw [current] at there
  split at there
  next index ready control =>
    split at there
    · cases there
    · exact ⟨index, ready, control, there⟩
  · cases there

/-- Where the scan stays at its index, another entry has come there. -/
theorem moved_of_not_advances (sound : Sound loop.server)
    (there : loop.server.pollfds[index]? = some entry)
    (stays : loop.server.advances (loop.server.handle index entry answers) index entry = false) :
    ∀ other, (loop.server.handle index entry answers).pollfds[index]? = some other →
      other.fd ≠ entry.fd := by
  intro other here same
  have known := handlerCase sound (List.mem_of_getElem? there)
  rw [advances] at stays
  rw [handle] at here stays
  cases handler : loop.server.handlerFor entry with
  | closeClient =>
      rw [handler] at here known
      rcases known with ⟨⟩ | ⟨⟩ | ⟨⟩ | ⟨⟩ | ⟨seen, failed⟩
      rcases sound with ⟨uses, tabled⟩
      have gone := closeClient_unlisted tabled.nodup (found_of_view seen)
      have still : other ∈ (loop.server.closeClient entry.fd).pollfds := List.mem_of_getElem? here
      exact gone (List.mem_map.mpr ⟨other, still, same⟩)
  | acceptClient | nothing => simp [handler] at stays
  | readCgi | writeCgi | closeOwner | readClient | writeClient =>
      simp only [handler] at here stays
      simp [here, same] at stays

/-- What an action does to the connections: nothing, where `poll` returns, or steps of them. -/
theorem performed (sound : Sound loop.server) (seated : Seated True True loop.server.settled)
    (attended : ∀ index ready, loop.control = .scanning index ready →
      Attended loop.server (keys (loop.server.pollfds.drop index)))
    (possible : loop.enabled action = true) :
    (∃ revents : List PollFlags, action = .poll revents ∧
        revents.length = loop.server.pollfds.length ∧
        (loop.perform action).server = polled loop.server revents) ∨
      Handled (loop.circumstances action) loop.server (loop.perform action).server := by
  cases action with
  | poll revents =>
      simp only [enabled, Bool.and_eq_true, beq_iff_eq] at possible
      exact .inl ⟨revents, rfl, possible.1.2, rfl⟩
  | reap disk now waits => exact .inr (handled_reapCgi sound disk now waits)
  | expire disk now => exact .inr (handled_expireClients sound (fun _ => trivial) disk now)
  | visit answers =>
      right
      rw [enabled, Option.any_eq_true] at possible
      rcases possible with ⟨entry, there, possible⟩
      rcases exists_of_current there with ⟨index, ready, control, listed⟩
      simp only [perform, circumstances, there, control, visit]
      split
      · exact .refl sound
      next some_ =>
        have permitted : loop.server.permits entry answers = true := by
          simpa [some_] using possible
        apply handled_handle sound seated listed _ permitted
        intro client events seen
        refine attended index ready control (entry.fd, entry.revents) ?_ ?_ client events seen
        · exact List.mem_map_of_mem (List.mem_of_getElem? listed)
        · apply List.mem_map_of_mem
          rw [List.mem_iff_getElem?]
          exact ⟨0, by rw [List.getElem?_drop, Nat.add_zero, listed]⟩

/-! ### Runs -/

/-- No entry behind the one that is visited is of the same descriptor. -/
theorem different_of_behind (sound : Sound server) (there : server.pollfds[index]? = some entry) :
    ∀ key ∈ keys (server.pollfds.drop (index + 1)), key.1 ≠ entry.fd := by
  rcases sound with ⟨uses, tabled⟩
  have nodup := tabled.nodup
  have inside := (List.getElem?_eq_some_iff.mp there).1
  rw [← List.take_append_drop index server.pollfds, ← List.getElem_cons_drop inside,
    (List.getElem?_eq_some_iff.mp there).2, List.map_append, List.map_cons,
    List.nodup_append, List.nodup_cons] at nodup
  intro key listed same
  rcases List.mem_map.mp listed with ⟨other, behind, rfl⟩
  exact nodup.2.1.1 (same ▸ List.mem_map_of_mem behind)

theorem attended_onward (attended : Attended server (keys (server.pollfds.drop index))) :
    Attended server (keys (server.pollfds.drop (index + 1))) := by
  apply attended.mono
  intro key listed
  rw [← List.drop_drop] at listed
  rcases List.mem_map.mp listed with ⟨other, inside, rfl⟩
  exact .inl (List.mem_map_of_mem (List.mem_of_mem_drop inside))

/-- The scan goes on with the entries that are still to come. -/
theorem attended_visit (serving : Serving loop) (control : loop.control = .scanning index ready)
    (there : loop.server.pollfds[index]? = some entry)
    (steps : Steps (loop.server.circumstances entry answers) loop.server.settled
      (loop.server.handle index entry answers).settled) {next : Nat}
    (onward : next = index + 1 ∨
      next = index ∧ loop.server.advances (loop.server.handle index entry answers) index entry =
        false) :
    Attended (loop.server.handle index entry answers)
      (keys ((loop.server.handle index entry answers).pollfds.drop next)) := by
  have behind := attended_onward (serving.attended index ready control)
  have later := Steps.attended steps serving.seated (different_of_behind serving.sound there) behind
  apply later.mono
  apply (Steps.thinned steps).unvisited there
  rcases onward with beyond | ⟨still, stays⟩
  · exact .inl beyond
  · exact .inr ⟨still, moved_of_not_advances serving.sound there stays⟩

theorem attended_perform (serving : Serving loop) (possible : loop.enabled action = true) :
    ∀ index ready, (loop.perform action).control = .scanning index ready →
      Attended (loop.perform action).server
        (keys ((loop.perform action).server.pollfds.drop index)) := by
  have turned := performed serving.sound serving.seated serving.attended possible
  intro next left control
  cases action with
  | poll revents =>
      simp only [enabled, Bool.and_eq_true, beq_iff_eq] at possible
      rcases serving.sound with ⟨uses, tabled⟩
      exact attended_polled tabled.nodup possible.1.2 possible.2 _
  | reap disk now waits => cases control
  | expire disk now => cases control
  | visit answers =>
      rw [enabled, Option.any_eq_true] at possible
      rcases possible with ⟨entry, there, possible⟩
      rcases exists_of_current there with ⟨index, ready, scanning, listed⟩
      rcases turned with ⟨revents, polled, _⟩ | ⟨_, steps⟩
      · cases polled
      · simp only [perform, circumstances, there, scanning, visit] at control steps ⊢
        split at control
        next idle =>
          rw [if_pos idle]
          cases control
          exact attended_onward (serving.attended index left scanning)
        next some_ =>
          rw [if_neg some_] at steps ⊢
          cases control
          apply attended_visit serving scanning listed steps
          split
          · exact .inl rfl
          next stays => exact .inr ⟨rfl, Bool.eq_false_iff.mpr stays⟩

theorem Serving.perform (serving : Serving loop) (possible : loop.enabled action = true) :
    Serving (loop.perform action) := by
  have attended := attended_perform serving possible
  rcases performed serving.sound serving.seated serving.attended possible with
    ⟨revents, rfl, enough, server⟩ | ⟨after, steps⟩
  · have view : (polled loop.server revents).view = loop.server.view :=
      funext (view_polled enough)
    constructor
    · exact sound_polled serving.sound enough
    · intro fd
      have seat := serving.seated fd
      rwa [show loop.server.settled.server.view = _ from view.symm] at seat
    · exact serving.told
    · have tended := serving.tended
      rwa [Tended, show loop.server.settled.server.view = _ from view.symm] at tended
    · exact ⟨serving.bounded.clients, serving.bounded.scripts⟩
    · exact attended
  · constructor
    · exact after
    · exact Steps.seated steps (fun _ => trivial) (fun _ => trivial) serving.seated
    · exact Steps.told steps (fun _ => trivial) (fun _ => trivial) serving.seated serving.told
    · exact Steps.tended steps serving.tended
    · exact Steps.bounded steps serving.bounded
    · exact attended

theorem seated_perform {lax cut : Prop} (serving : Serving loop)
    (seated : Seated lax cut loop.server.settled) (possible : loop.enabled action = true)
    (lenient : (loop.circumstances action).failing → lax)
    (cutting : (loop.circumstances action).cut → cut) :
    Seated lax cut (loop.perform action).server.settled := by
  rcases performed serving.sound serving.seated serving.attended possible with
    ⟨revents, rfl, enough, server⟩ | ⟨_, steps⟩
  · intro fd
    have seat := seated fd
    have view : (polled loop.server revents).view = loop.server.view :=
      funext (view_polled enough)
    rwa [show loop.server.settled.server.view = _ from view.symm] at seat
  · exact Steps.seated steps lenient cutting seated

/-! ### The first moment -/

theorem opens_start {fds : List Int} (nodup : fds.Nodup) :
    Opens (fds.map Call.opened) fds.reverse := by
  induction fds using List.reverseRecOn with
  | nil => exact ⟨rfl, .nil⟩
  | append_singleton fds fd ih =>
      rw [List.nodup_append] at nodup
      have fresh : fd ∉ fds.reverse := by
        rw [List.mem_reverse]
        exact fun listed => nodup.2.2 fd listed fd List.mem_cons_self rfl
      rw [List.map_append, List.reverse_append]
      apply (ih nodup.1).extend
      simp [follow, fresh]

/-- Every descriptor is that of a listener. -/
def listening (fds : List Int) (fd : Int) : Option Use :=
  if fd ∈ fds then some .listener else none

theorem listening_eq {fds : List Int} {fd : Int} {use : Use} :
    listening fds fd = some use ↔ fd ∈ fds ∧ use = .listener := by
  rw [listening]
  split
  next listed => simp [listed, eq_comm]
  next absent => simp [absent]

theorem listening_ne_none {fds : List Int} {fd : Int} : listening fds fd ≠ none ↔ fd ∈ fds := by
  simp [listening]

theorem sound_start {listeners : List Listener} (nodup : (listeners.map (·.fd)).Nodup)
    (nonneg : ∀ listener ∈ listeners, 0 ≤ listener.fd) : Sound (Server.start listeners) := by
  have calls : (Server.start listeners).calls = (listeners.map (·.fd)).map Call.opened := by
    rw [List.map_map]
    rfl
  have opens := opens_start nodup
  have fds : (Server.start listeners).pollfds.map (·.fd) = listeners.map (·.fd) := by
    rw [Server.start, List.map_map]
    rfl
  have empty (fd : Int) : (Server.start listeners).clients[fd]? = none :=
    ExtTreeMap.getElem?_empty
  refine ⟨listening (listeners.map (·.fd)), ?_⟩
  constructor
  · rw [fds]
    exact nodup
  · intro fd
    rw [fds, listening_ne_none]
  · intro fd
    rw [listening_eq]
    exact and_iff_left rfl
  · intro fd
    simp [listening_eq, Server.start]
  · intro pipe owner
    simp [listening_eq, Server.start]
  · intro pipe owner
    simp [listening_eq, Server.start]
  · intro pipe owner
    simp [listening_eq, HasInput, empty]
  · intro pipe owner
    simp [listening_eq, HasOutput, empty]
  · intro fd used
    rcases List.mem_map.mp (listening_ne_none.mp used) with ⟨listener, inside, rfl⟩
    exact nonneg listener inside
  · intro fd client found
    rw [empty] at found
    cases found
  · intro fd client found
    rw [empty] at found
    cases found
  · intro fd
    rw [calls, opens.fds, List.mem_reverse, listening_ne_none]
  · rw [calls, opens.fds]
    exact List.nodup_reverse.mpr nodup
  · rw [calls]
    exact opens.once

/-- Nobody has connected yet. -/
theorem seated_start (lax cut : Prop) (listeners : List Listener) :
    Seated lax cut (Server.start listeners).settled ∧ Told (Server.start listeners).calls := by
  have common : ∀ call ∈ (Server.start listeners).calls, call.isCommon = true := by
    intro call listed
    rcases List.mem_map.mp listed with ⟨listener, inside, rfl⟩
    rfl
  have silent {early : List Call} (first : early <+: (Server.start listeners).calls) (fd : Int) :
      Story.of fd early = {} :=
    Story.addAll_of_same fun call listed => Story.add_common (common call (first.subset listed))
  constructor
  · intro fd
    have unseen : (Server.start listeners).view fd = none := by
      rw [view, show (Server.start listeners).clients[fd]? = none from ExtTreeMap.getElem?_empty]
      rfl
    simp only [settled, unseen, silent List.prefix_rfl]
    exact .absent Story.delivered_empty fun status told => by cases told
  · intro early first fd
    rw [silent first]
    exact Story.delivered_empty

theorem tended_start (listeners : List Listener) : Tended (Server.start listeners).settled := by
  have calls : processCalls (Server.start listeners).calls = [] := by
    apply processCalls_files
    intro call listed
    rcases List.mem_map.mp listed with ⟨listener, inside, rfl⟩
    rfl
  have unseen (fd : Int) : (Server.start listeners).view fd = none := by
    rw [view, show (Server.start listeners).clients[fd]? = none from ExtTreeMap.getElem?_empty]
    rfl
  simp only [Tended, settled, calls, unseen]
  constructor
  · exact List.nodup_nil
  · intro pid
    simp [children, live]
  · intro fd other pid first
    cases first
  · exact .nil

theorem serving_start {listeners : List Listener} (nodup : (listeners.map (·.fd)).Nodup)
    (nonneg : ∀ listener ∈ listeners, 0 ≤ listener.fd) :
    Serving { server := Server.start listeners } := by
  constructor
  · exact sound_start nodup nonneg
  · exact (seated_start True True listeners).1
  · exact (seated_start True True listeners).2
  · exact tended_start listeners
  · exact ⟨Nat.zero_le _, Nat.zero_le _⟩
  · intro index ready control
    cases control

theorem serving_of_reachable (reached : loopMachine.system.Reachable loop) : Serving loop := by
  apply reached.invariant
  · rintro loop ⟨listeners, nodup, nonneg, rfl⟩
    exact serving_start nodup nonneg
  · rintro before action after _ serving ⟨possible, rfl⟩
    exact serving.perform possible

/-- The seats after a run none of whose steps may break a promise. -/
theorem seated_of_reaches {lax cut : Prop} {permitted : EventLoop → LoopAction → Prop}
    (lenient : ∀ loop action, permitted loop action → (loop.circumstances action).failing → lax)
    (cutting : ∀ loop action, permitted loop action → (loop.circumstances action).cut → cut)
    (reached : loopMachine.system.Reaches permitted loop) :
    Seated lax cut loop.server.settled := by
  apply reached.invariant
  · rintro loop ⟨listeners, nodup, nonneg, rfl⟩
    exact (seated_start lax cut listeners).1
  · rintro before action after reached seated allowed ⟨possible, rfl⟩
    exact seated_perform (serving_of_reachable reached) seated possible
      (lenient before action allowed) (cutting before action allowed)

end EventLoop

end IrcPlatform.Webserv
