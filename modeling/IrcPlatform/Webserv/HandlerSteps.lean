import IrcPlatform.Webserv.Operations
import IrcPlatform.Webserv.ServerRun

/-!
# Steps of the handlers

Every handler of the event loop takes its server through small steps of connections. A passage
follows the steps of one connection from a first moment on, together with its present state.
-/

namespace IrcPlatform.Webserv

open Std

theorem Attempt.not_accepted {attempt : List Call} (tried : Attempt attempt) (fd : Int) :
    .accepted fd ∉ attempt := by
  have apart {files : List Call} (plain : ∀ call ∈ files, call.isFile = true) :
      .accepted fd ∉ files := by
    intro listed
    cases plain _ listed
  cases tried with
  | early plain => exact apart plain
  | late plain closes => simp [apart plain, apart closes]

/-- Steps of one connection that lead to a sound server. -/
structure Passage (given : Circumstances) (before after : Moment) (fd : Int)
    (view : Option View) (waited : Waited) : Prop where
  sound : Server.Sound after.server
  steps : Steps given before after
  seen : after.server.view fd = view
  others : ∀ other, other ≠ fd → after.server.view other = before.server.view other
  flags : after.waited = Function.update before.waited fd waited

namespace Passage

variable {given : Circumstances} {before between : Moment} {server after : Server}
  {flags : Int → Waited} {fd : Int} {client : Client} {events : PollFlags}
  {view later : Option View} {waited turned : Waited} {new : List Call}

theorem refl (sound : Server.Sound server) (seen : server.view fd = view)
    (flag : flags fd = waited) :
    Passage given ⟨server, flags⟩ ⟨server, flags⟩ fd view waited where
  sound := sound
  steps := .refl
  seen := seen
  others _ _ := rfl
  flags := by rw [← flag, Function.update_eq_self]

theorem flag (passage : Passage given before between fd view waited) :
    between.waited fd = waited := by
  rw [passage.flags, Function.update_self]

/-- One step more. -/
theorem next (passage : Passage given before between fd view waited) (sound : Server.Sound after)
    (moves : Server.Moves between.server after fd later new)
    (shift : Shift given fd (view, waited) new (later, turned))
    (allowed : Allowed between.server fd new) :
    Passage given before ⟨after, Function.update between.waited fd turned⟩ fd later turned where
  sound := sound
  steps := by
    apply passage.steps.tail
    apply Step.of fd moves _ allowed rfl
    rwa [passage.seen, passage.flag]
  seen := moves.self
  others other different :=
    (moves.others other different).trans (passage.others other different)
  flags := by
    rw [passage.flags, Function.update_idem]

/-- One step more of a connection whose process is waited for or not as before. -/
theorem same (passage : Passage given before ⟨server, flags⟩ fd view waited)
    (sound : Server.Sound after) (moves : Server.Moves server after fd later new)
    (shift : Shift given fd (view, waited) new (later, waited))
    (allowed : Allowed server fd new) :
    Passage given before ⟨after, flags⟩ fd later waited := by
  have stepped := passage.next sound moves shift allowed
  have flag := passage.flag
  dsimp only at stepped flag
  rwa [← flag, Function.update_eq_self, flag] at stepped

/-- A call that shows nothing of the tables. -/
theorem record (call : Call) (passage : Passage given before ⟨server, flags⟩ fd view waited)
    (plain : call.isPlain = true)
    (shift : Shift given fd (view, waited) [call] (view, waited))
    (allowed : Allowed server fd [call]) :
    Passage given before ⟨server.record call, flags⟩ fd view waited := by
  have moves := Server.Moves.record server fd call
  rw [show server.view fd = view from passage.seen] at moves
  exact passage.same (passage.sound.record plain) moves shift allowed

theorem exists_found (passage : Passage given before ⟨server, flags⟩ fd (some (client, events))
    waited) : server.clients[fd]? = some client :=
  Server.found_of_view passage.seen

/-! ## Closing -/

theorem dropCgiInput
    (passage : Passage given before ⟨server, flags⟩ fd (some (client, events)) waited)
    (spent : waited ≠ .no ∨ client.cgiInputFd < 0) :
    Passage given before ⟨server.dropCgiInput fd, flags⟩ fd (some (client.withoutInput, events))
      waited := by
  have seen : server.view fd = some (client, events) := passage.seen
  have here := Server.clientAt_of_view seen
  by_cases closed : client.cgiInputFd < 0
  · simpa only [Server.dropCgiInput, Client.withoutInput, here, if_pos closed] using passage
  · have open_ : 0 ≤ client.cgiInputFd := by omega
    have waiting : waited ≠ .no := by
      rcases spent with waiting | negative
      · exact waiting
      · omega
    have sound : Server.Sound server := passage.sound
    have running := sound.running passage.exists_found (.inl open_)
    have dropped := sound.dropCgiInput seen open_
    rw [Client.withoutInput, if_neg closed]
    apply passage.same dropped.1 dropped.2
    · exact .inputClosed running open_ (.inr waiting)
    · constructor <;> simp

theorem dropCgiOutput
    (passage : Passage given before ⟨server, flags⟩ fd (some (client, events)) waited)
    (spent : waited = .killed ∨ client.cgiOutputFd < 0) :
    Passage given before ⟨server.dropCgiOutput fd, flags⟩ fd
      (some (client.withoutOutput, events)) waited := by
  have seen : server.view fd = some (client, events) := passage.seen
  have here := Server.clientAt_of_view seen
  by_cases closed : client.cgiOutputFd < 0
  · simpa only [Server.dropCgiOutput, Client.withoutOutput, here, if_pos closed] using passage
  · have open_ : 0 ≤ client.cgiOutputFd := by omega
    have killed : waited = .killed := by
      rcases spent with killed | negative
      · exact killed
      · omega
    have sound : Server.Sound server := passage.sound
    have running := sound.running passage.exists_found (.inr open_)
    have dropped := sound.dropCgiOutput seen open_
    rw [Client.withoutOutput, if_neg closed]
    apply passage.same dropped.1 dropped.2
    · exact .outputClosed running open_ (.inr ⟨rfl, killed⟩)
    · constructor <;> simp

theorem killCgi
    (passage : Passage given before ⟨server, flags⟩ fd (some (client, events)) .no)
    (running : 0 < client.cgiPid) :
    Passage given before ⟨server.killCgi fd, Function.update flags fd .killed⟩ fd
      (some (client, events)) .killed := by
  have seen : server.view fd = some (client, events) := passage.seen
  rw [Server.killCgi, Server.clientAt_of_view seen]
  have killed := Server.Moves.record server fd (.killed client.cgiPid)
  have reaped := Server.Moves.record (server.record (.killed client.cgiPid)) fd
    (.reaped client.cgiPid true)
  have moves := killed.trans reaped
  rw [show (server.record (.killed client.cgiPid)).view fd = _ from seen] at moves
  apply passage.next
  · exact (passage.sound.record rfl).record rfl
  · exact moves
  · exact .killed running
  · constructor <;> simp

/-- `waitpid` has returned the process of the connection. -/
theorem reap
    (passage : Passage given before ⟨server, flags⟩ fd (some (client, events)) .no)
    (running : 0 < client.cgiPid) (spent : client.cgiOutputFd < 0) :
    Passage given before ⟨server.record (.reaped client.cgiPid false),
      Function.update flags fd .reaped⟩ fd (some (client, events)) .reaped := by
  have seen : server.view fd = some (client, events) := passage.seen
  have moves := Server.Moves.record server fd (.reaped client.cgiPid false)
  rw [seen] at moves
  apply passage.next
  · exact passage.sound.record rfl
  · exact moves
  · exact .reaped running spent
  · constructor <;> simp

/-- The client is closed; its process has been waited for. -/
theorem removeClient
    (passage : Passage given before ⟨server, flags⟩ fd (some (client, events)) waited)
    (spent : waited = .killed ∨ waited = .no ∧ client.cgiPid ≤ 0)
    (heard : client.output ≠ [] ∨ given.quiet fd) :
    let closed := (((server.dropCgiInput fd).dropCgiOutput fd).close fd).removePollFd fd
    Passage given before
      ⟨{ closed with clients := closed.clients.erase fd }, Function.update flags fd .no⟩ fd none
      .no := by
  have pipes : waited = .no → client.cgiInputFd < 0 ∧ client.cgiOutputFd < 0 := by
    rintro rfl
    rcases spent with killed | ⟨_, idle⟩
    · cases killed
    · exact passage.sound.idle passage.exists_found idle
  have first := passage.dropCgiInput (by
    rcases spent with rfl | ⟨no, _⟩
    · exact .inl (by simp)
    · exact .inr (pipes no).1)
  have second := first.dropCgiOutput (by
    rcases spent with killed | ⟨no, _⟩
    · exact .inl killed
    · rw [Client.withoutInput_cgiOutputFd]
      exact .inr (pipes no).2)
  intro closed
  have input : client.withoutInput.withoutOutput.cgiInputFd < 0 := by
    rw [Client.withoutOutput_cgiInputFd]
    exact client.withoutInput_cgiInputFd
  have gone : Server.Sound { closed with clients := closed.clients.erase fd } ∧
      Server.Moves ((server.dropCgiInput fd).dropCgiOutput fd)
        { closed with clients := closed.clients.erase fd } fd none [.closed fd] :=
    second.sound.removeClient second.seen input client.withoutInput.withoutOutput_cgiOutputFd
      rfl rfl rfl rfl rfl rfl
  apply second.next gone.1 gone.2
  · apply Shift.removed
    · simpa using spent
    · simpa using heard
  · constructor <;> simp

/-- The end of a script whose process has been waited for. -/
theorem finishCgi
    (passage : Passage given before ⟨server, flags⟩ fd (some (client, events)) waited)
    (running : 0 < client.cgiPid) (spent : waited ≠ .no)
    (ended : waited = .killed ∨ client.cgiOutputFd < 0) {status : WaitStatus}
    (whole : Server.succeeded status = true → waited = .killed → given.cut) (disk : Disk)
    (now : Int) :
    ∃ view, Passage given before
      ⟨server.finishCgi disk now fd status, Function.update flags fd .no⟩ fd (some view) .no := by
  have first := passage.dropCgiInput (.inl spent)
  have second := first.dropCgiOutput (by rwa [Client.withoutInput_cgiOutputFd])
  have input : client.withoutInput.withoutOutput.cgiInputFd < 0 := by
    rw [Client.withoutOutput_cgiInputFd]
    exact client.withoutInput_cgiInputFd
  have output := client.withoutInput.withoutOutput_cgiOutputFd
  simp only [Server.finishCgi, passage.exists_found]
  generalize made : (if Server.succeeded status = true then
    CgiHandler.makeResponse disk client.cgiOutput client.settings
    else ResponseFactory.error disk 500 client.settings) = response
  generalize (server.dropCgiInput fd).dropCgiOutput fd = closed at second ⊢
  have seen : (closed.record (.finished fd status)).view fd = _ := second.seen
  have recorded := Server.Moves.record closed fd (.finished fd status)
  have responded := Server.Moves.respond seen response.serialize
  have sound : Server.Sound (closed.record (.finished fd status)) := second.sound.record rfl
  let changed : Client := { client.withoutInput.withoutOutput with
    output := response.serialize, cgiPid := -1, sent := 0, touched := now, phase := .writing }
  have kept := sound.respondWith seen response.serialize changed rfl rfl rfl
    fun _ => ⟨input, output⟩
  rw [Server.endCgi, Server.clientAt_of_view responded.self, kept.setEventsFirst_eq]
  refine ⟨_, second.next (kept.setEventsAll fd Server.pollOut)
    (.answer kept (recorded.trans (.respondWith seen response.serialize changed)) rfl
      Server.pollOut) (.finished ?_ input output spent whole disk client.settings ?_ now) ?_⟩
  · simpa using running
  · intro success
    rw [← made, if_pos success]
    simp
  · constructor <;> simp

theorem closeClient
    (passage : Passage given before ⟨server, flags⟩ fd (some (client, events)) .no)
    (heard : client.output ≠ [] ∨ given.quiet fd) :
    Passage given before ⟨server.closeClient fd, Function.update flags fd .no⟩ fd none .no := by
  have found := passage.exists_found
  by_cases running : 0 < client.cgiPid
  · simp only [Server.closeClient, found, if_pos running]
    rw [← Function.update_idem (v := Waited.killed)]
    exact (passage.killCgi running).removeClient (.inl rfl) heard
  · simp only [Server.closeClient, found, if_neg running]
    exact passage.removeClient (.inr ⟨rfl, by omega⟩) heard

/-- The client of a connection changes. -/
theorem setClient (changed : Client)
    (passage : Passage given before ⟨server, flags⟩ fd (some (client, events)) waited)
    (named : changed.fd = client.fd) (input : changed.cgiInputFd = client.cgiInputFd)
    (output : changed.cgiOutputFd = client.cgiOutputFd) (pid : changed.cgiPid = client.cgiPid)
    (shift : Shift given fd (some (client, events), waited) [] (some (changed, events), waited)) :
    Passage given before ⟨server.setClient fd changed, flags⟩ fd (some (changed, events))
      waited := by
  apply passage.same
  · exact passage.sound.updateClient passage.exists_found named input output pid
  · exact .setClient_view passage.seen changed
  · exact shift
  · constructor <;> simp

/-- The client of a connection changes with a call. -/
theorem recordClient (call : Call) (changed : Client)
    (passage : Passage given before ⟨server, flags⟩ fd (some (client, events)) waited)
    (plain : call.isPlain = true) (named : changed.fd = client.fd)
    (input : changed.cgiInputFd = client.cgiInputFd)
    (output : changed.cgiOutputFd = client.cgiOutputFd) (pid : changed.cgiPid = client.cgiPid)
    (shift : Shift given fd (some (client, events), waited) [call]
      (some (changed, events), waited)) (allowed : Allowed server fd [call]) :
    Passage given before ⟨(server.record call).setClient fd changed, flags⟩ fd
      (some (changed, events)) waited := by
  have seen : (server.record call).view fd = some (client, events) := passage.seen
  have recorded := Server.Moves.record server fd call
  have moves := recorded.trans (.setClient_view seen changed)
  exact passage.same
    ((passage.sound.record plain).updateClient (Server.found_of_view seen) named input output pid)
    moves shift allowed

end Passage

/-! ## Handlers -/

/-- A handler takes small steps, and leaves no process that was waited for behind. -/
structure Handled (given : Circumstances) (before after : Server) : Prop where
  sound : Server.Sound after
  steps : Steps given before.settled after.settled

namespace Handled

variable {given : Circumstances} {server before between after : Server} {fd : Int}
  {client : Client} {events : PollFlags} {view : Option View}

theorem refl (sound : Server.Sound server) : Handled given server server := ⟨sound, .refl⟩

theorem trans (first : Handled given before between) (second : Handled given between after) :
    Handled given before after :=
  ⟨second.sound, Relation.ReflTransGen.trans first.steps second.steps⟩

end Handled

theorem Passage.start (given : Circumstances) {server : Server} (sound : Server.Sound server)
    (fd : Int) :
    Passage given server.settled ⟨server, fun _ => .no⟩ fd (server.view fd) .no :=
  .refl sound rfl rfl

theorem Passage.handled {given : Circumstances} {server after : Server} {flags : Int → Waited}
    {fd : Int} {view : Option View}
    (passage : Passage given server.settled ⟨after, flags⟩ fd view .no) :
    Handled given server after := by
  refine ⟨passage.sound, ?_⟩
  have unwaited : flags = fun _ => .no :=
    passage.flags.trans (Function.update_eq_self fd (fun _ => Waited.no))
  subst unwaited
  exact passage.steps

namespace Server

variable {given : Circumstances} {server : Server} {fd pipeFd : Int} {client : Client}
  {events : PollFlags}

theorem handled_closeClient (sound : Sound server) (fd : Int)
    (heard : ∀ client events, server.view fd = some (client, events) →
      client.output ≠ [] ∨ given.quiet fd) : Handled given server (server.closeClient fd) := by
  cases found : server.clients[fd]? with
  | none =>
      simp only [closeClient, found]
      exact .refl sound
  | some client =>
      have seen := exists_view found
      have passage := Passage.start given sound fd
      rw [seen] at passage
      exact (passage.closeClient (heard _ _ seen)).handled

theorem handled_writeClient (sound : Sound server) (answers : Answers)
    (seen : server.view fd = some (client, events)) (quiet : given.quiet fd)
    (fits : answers.written.fits (client.output.length - client.sent) = true) :
    Handled given server (server.writeClient fd answers) := by
  have passage := Passage.start given sound fd
  rw [seen] at passage
  rw [writeClient, clientAt_of_view seen]
  cases written : answers.written with
  | again => exact .refl sound
  | failed => exact handled_closeClient sound fd fun _ _ _ => .inr quiet
  | count number =>
      rw [written, WriteResult.fits, decide_eq_true_eq] at fits
      cases number with
      | zero => exact handled_closeClient sound fd fun _ _ _ => .inr quiet
      | succ number =>
          have sent := passage.recordClient _ { client with
              sent := client.sent + (number + 1), touched := answers.now } rfl rfl rfl rfl rfl
            (.sent (number + 1) (by omega) fits answers.now) (by constructor <;> simp)
          simp only
          split
          next whole =>
            have some_ : client.output ≠ [] := by
              rintro empty
              rw [empty, List.length_nil] at fits
              omega
            have completed := sent.record (.completed fd) rfl (.completed some_ whole)
              (by constructor <;> simp)
            exact (completed.closeClient (.inr quiet)).handled
          next => exact sent.handled

/-- The pipe to a script is closed, and its output is waited for. -/
theorem passage_endCgiInput {before : Moment} {flags : Int → Waited}
    (passage : Passage given before ⟨server, flags⟩ fd (some (client, events)) .no)
    (open_ : 0 ≤ client.cgiInputFd) :
    Passage given before ⟨server.endCgiInput client.cgiInputFd fd, flags⟩ fd
      (some ({ client with cgiInputFd := -1, phase := .cgiReading }, events)) .no := by
  have closed := passage.sound.endCgiInput passage.seen open_
  apply passage.same closed.1 closed.2
  · exact .inputClosed (passage.sound.running passage.exists_found (.inl open_)) open_ (.inl rfl)
  · constructor <;> simp

theorem handled_writeCgi (sound : Sound server) (answers : Answers)
    (owner : server.inputOwner pipeFd = fd)
    (seen : server.view fd = some (client, events)) (piped : client.cgiInputFd = pipeFd)
    (open_ : 0 ≤ pipeFd)
    (fits : answers.written.fits (client.cgiInput.length - client.cgiWritten) = true) :
    Handled given server (server.writeCgi pipeFd answers) := by
  have passage := Passage.start given sound fd
  rw [seen] at passage
  simp only [writeCgi, owner, clientAt_of_view seen]
  subst piped
  have running := sound.running (found_of_view seen) (.inl open_)
  cases written : answers.written with
  | again => exact .refl sound
  | failed => exact (passage_endCgiInput passage open_).handled
  | count number =>
      rw [written, WriteResult.fits, decide_eq_true_eq] at fits
      cases number with
      | zero => exact (passage_endCgiInput passage open_).handled
      | succ number =>
          have wrote := passage.recordClient _ { client with
              cgiWritten := client.cgiWritten + (number + 1), touched := answers.now }
            rfl rfl rfl rfl rfl (.wrote running (number + 1) fits answers.now)
            (by constructor <;> simp)
          simp only
          split
          next => exact (passage_endCgiInput wrote open_).handled
          next => exact wrote.handled

theorem handled_readCgi (sound : Sound server) (answers : Answers)
    (owner : server.outputOwner pipeFd = fd) (seen : server.view fd = some (client, events))
    (piped : client.cgiOutputFd = pipeFd) (open_ : 0 ≤ pipeFd)
    (cut : ∀ bytes, answers.received = .data bytes →
      maxCgiOutput < (client.cgiOutput ++ bytes).length → succeeded answers.killed = true →
      given.cut) :
    Handled given server (server.readCgi pipeFd answers) := by
  have passage := Passage.start given sound fd
  rw [seen] at passage
  simp only [readCgi, owner, clientAt_of_view seen]
  subst piped
  have running := sound.running (found_of_view seen) (.inr open_)
  cases received : answers.received with
  | again => exact .refl sound
  | data bytes =>
      have collected := passage.recordClient _ { client with
          cgiOutput := client.cgiOutput ++ bytes, touched := answers.now }
        rfl rfl rfl rfl rfl (.collected running bytes answers.now) (by constructor <;> simp)
      simp only
      split
      next beyond =>
        have killed := collected.killCgi running
        rcases killed.finishCgi running (by simp) (.inl rfl)
          (fun success _ => cut bytes received beyond success) answers.disk answers.now with
          ⟨view, finished⟩
        exact finished.handled
      next => exact collected.handled
  | ended =>
      have spent := sound.endCgiOutput seen open_
      have closed := passage.same spent.1 spent.2
        (.outputClosed running open_ (.inl rfl)) (by constructor <;> simp)
      simp only
      cases exited : answers.exited with
      | none => exact closed.handled
      | some status =>
          have reaped := closed.reap running (by simp)
          rcases reaped.finishCgi running (by simp) (.inr (by simp))
            (fun _ killed => by cases killed)
            answers.disk answers.now with ⟨view, finished⟩
          exact finished.handled

/-! ### Accepting -/

theorem handled_acceptOne (sound : Sound server) (config : Option ServerConfig)
    {accepted : Accepted} (fresh : server.isFresh accepted.fd = true) :
    Handled given server (server.acceptOne config accepted) := by
  rw [isFresh_iff] at fresh
  have passage := Passage.start given sound accepted.fd
  rw [sound.view_of_fresh fresh.2] at passage
  have refused := sound.refuse fresh.2
  have closed := passage.same refused.1 refused.2 .refused (by constructor <;> simp)
  have kept := sound.keep fresh.1 fresh.2 config accepted.now
  simp only [acceptOne]
  split
  next => exact closed.handled
  next room =>
    split
    next => exact closed.handled
    next =>
      refine (passage.same kept.1 kept.2 (.accepted config accepted.now) ?_).handled
      constructor
      · intro _
        exact Nat.lt_of_not_le room
      · intro _
        exact sound.unlisted fresh.2
      · simp
      · simp

theorem handled_acceptAll (config : Option ServerConfig) (accepts : List Accepted)
    (sound : Sound server) (fresh : acceptsFresh config server accepts = true) :
    Handled given server
      (accepts.foldl (fun server accepted => server.acceptOne config accepted) server) := by
  induction accepts generalizing server with
  | nil => exact .refl sound
  | cons accepted rest ih =>
      rw [acceptsFresh, Bool.and_eq_true] at fresh
      have first : Handled given server (server.acceptOne config accepted) :=
        handled_acceptOne sound config fresh.1
      exact first.trans (ih first.sound fresh.2)

/-! ### Reading requests -/

/-- The script that `CgiHandler::start` is called for, if it is called. -/
def startRoute (server : Server) (fd : Int) (request : Request) (answers : Answers) :
    Option RouteResult :=
  let config := (server.clientAt fd).settings
  let route := Router.resolve request config
  if route.status ≠ .ready ∨ !CgiHandler.matchesRoute route then none
  else if maxCgiProcesses ≤ server.runningCgi then none
  else
    match FileSystem.resolveExisting answers.disk (selectedRoot config route.location)
        route.diskPath with
    | .error _ => none
    | .ok resolved => some { route with diskPath := resolved }

/-- What is known when a request of a client is read. -/
structure Asking (given : Circumstances) (server : Server) (fd : Int) (client : Client)
    (index : Nat) : Prop where
  asked : given.asked fd
  silent : client.output = []
  idle : client.cgiPid ≤ 0
  there : ∃ entry, server.pollfds[index]? = some entry ∧ entry.fd = fd

variable {before : Moment} {flags : Int → Waited} {index : Nat} {middle : Server}
  {changed : Client} {new : List Call}

/-- A client changes with some calls, and is polled for something else. -/
theorem passage_setEventsAt {polled : PollFlags}
    (passage : Passage given before ⟨server, flags⟩ fd (some (client, events)) .no)
    (there : ∃ entry, server.pollfds[index]? = some entry ∧ entry.fd = fd)
    (sound : Sound middle) (moves : Moves server middle fd (some (changed, events)) new)
    (table : middle.pollfds = server.pollfds)
    (shift : Shift given fd (some (client, events), .no) new (some (changed, polled), .no))
    (allowed : Allowed server fd new) :
    Passage given before ⟨middle.setEventsAt index polled, flags⟩ fd (some (changed, polled))
      .no := by
  rcases there with ⟨entry, there, named⟩
  rw [← table] at there
  rw [sound.setEventsAt_eq there, named]
  have polling := moves.trans (.setEvents sound moves.self polled)
  rw [List.append_nil] at polling
  exact passage.same (sound.setEventsAll fd polled) polling shift allowed

/-- The client is given a response at once. -/
theorem passage_answerAt {request : Option Request}
    (passage : Passage given before ⟨server, flags⟩ fd (some (client, events)) .no)
    (asking : Asking given server fd client index)
    (sound : Sound middle)
    (moves : Moves server middle fd (some (client, events)) (parsedCalls fd request))
    (table : middle.pollfds = server.pollfds) (response : Response) :
    ∃ view, Passage given before ⟨middle.answerAt index fd response.serialize, flags⟩ fd view
      .no := by
  have responded := Moves.respond moves.self response.serialize
  rw [answerAt, setPhase, clientAt_of_view responded.self]
  let changed : Client := { client with output := response.serialize, phase := .writing }
  refine ⟨some (changed, pollOut), passage_setEventsAt passage asking.there
    (sound.respondWith moves.self response.serialize changed rfl rfl rfl ?_)
    (moves.trans (.respondWith moves.self response.serialize changed)) table ?_ ?_⟩
  · have pipes := sound.idle (found_of_view moves.self) asking.idle
    exact fun _ => pipes
  · have unattempted : Attempt [] := .early (by simp)
    have shift : Shift given fd (some (client, events), .no)
        (parsedCalls fd request ++ [] ++ [.serialized fd response.serialize])
        (some (changed, pollOut), .no) :=
      .answered asking.asked asking.silent asking.idle request unattempted
        response.serialize_ne_nil (.inl rfl) client.touched (.inl rfl)
    rwa [List.append_nil] at shift
  · cases request <;> constructor <;> simp [parsedCalls]

theorem children_parsed (fd : Int) (request : Request) :
    children (server.record (.parsed fd request)).calls = children server.calls := by
  simp only [record, children_append, List.foldl_cons, List.foldl_nil]

theorem isFile_unusedInput {process : CgiProcess} {request : Request} :
    ∀ call ∈ unusedInput process request, call.isFile = true := by
  unfold unusedInput
  split <;> simp [Call.isFile]

theorem startsFresh_parsed (fd : Int) (request : Request) (started : Started) :
    (server.record (.parsed fd request)).startsFresh started = server.startsFresh started := by
  have opened : openFds (server.calls ++ [.parsed fd request]) = openFds server.calls := by
    simp only [openFds_append, List.foldl_cons, List.foldl_nil]
  have forked : children (server.calls ++ [.parsed fd request]) = children server.calls := by
    simp only [children_append, List.foldl_cons, List.foldl_nil]
  unfold startsFresh freshPipe isFresh openPipe record
  simp only [openFds_opened, opened, forked]

/-- A request that is not left to a script leaves the server as it was. -/
theorem startCgi_false {request : Request} {answers : Answers}
    (left : (server.startCgi index fd request answers).2 = false) :
    (server.startCgi index fd request answers).1 = server := by
  simp only [startCgi] at left ⊢
  split
  next => rfl
  next ready =>
    rw [if_neg ready] at left
    split at left
    · cases left
    · split at left
      · cases left
      · cases left
      · split at left <;> cases left

/-- A request is left to a script, or refused. -/
theorem passage_startCgi
    (passage : Passage given before ⟨server, flags⟩ fd (some (client, events)) .no)
    (asking : Asking given server fd client index) (request : Request) (answers : Answers)
    (fresh : server.startsFresh answers.started = true)
    (failing : ∀ route,
      (server.record (.parsed fd request)).startRoute fd request answers = some route →
      ((server.record (.parsed fd request)).startProcess route answers.started).2 = none →
      given.failing)
    (left : ((server.record (.parsed fd request)).startCgi index fd request answers).2 = true) :
    ∃ view, Passage given before
      ⟨((server.record (.parsed fd request)).startCgi index fd request answers).1, flags⟩ fd view
      .no := by
  have seen : server.view fd = some (client, events) := passage.seen
  have sound : Sound (server.record (.parsed fd request)) := passage.sound.record rfl
  have moves : Moves server (server.record (.parsed fd request)) fd (some (client, events))
      (parsedCalls fd (some request)) := seen ▸ .record server fd (.parsed fd request)
  have refused := passage_answerAt passage asking sound moves rfl
  simp only [startCgi] at left ⊢
  split
  next unready =>
    rw [if_pos unready] at left
    cases left
  next ready =>
    split
    next => exact refused _
    next room =>
      split
      next => exact refused _
      next => exact refused _
      next resolved found =>
        have outcome := startProcess_outcome sound
          { Router.resolve request (clientAt (server.record (.parsed fd request)) fd).settings with
            diskPath := resolved } ((startsFresh_parsed fd request answers.started).trans fresh)
        have running : server.runningCgi < maxCgiProcesses := Nat.lt_of_not_le room
        split
        next after failed =>
          rw [failed] at outcome
          rcases outcome with ⟨attempt, plain, opens, rfl, forked⟩
          have lax : given.failing := by
            apply failing { Router.resolve request
              (clientAt (server.record (.parsed fd request)) fd).settings with
                diskPath := resolved }
            · simp only [startRoute, if_neg ready, if_neg room, found]
            · rw [failed]
          have recorded := Moves.recordAll (server.record (.parsed fd request)) fd attempt
          rw [moves.self] at recorded
          have kept : Sound { server.record (.parsed fd request) with
              calls := (server.record (.parsed fd request)).calls ++ attempt } := by
            rcases sound with ⟨uses, tabled⟩
            exact ⟨uses, tabled.remember opens (.refl _)⟩
          refine ⟨_, passage_setEventsAt passage asking.there (kept.respond recorded.self _)
            ((moves.trans recorded).trans (.respond recorded.self _)) rfl
            (.answered asking.asked asking.silent asking.idle (some request) plain
              (Response.serialize_ne_nil _) (.inl rfl) client.touched (.inr ⟨lax, rfl⟩)) ?_⟩
          constructor
          · simp [parsedCalls, plain.not_accepted fd]
          · simp [parsedCalls, plain.not_accepted fd]
          · intro _ _
            exact running
          · intro pid listed
            have inside : .forked pid ∈ attempt := by simpa [parsedCalls] using listed
            have known := forked pid inside
            rwa [children_parsed] at known
        next after process started =>
          rw [started] at outcome
          rcases outcome with ⟨opening, closing, starts⟩
          have adopted (timeout : Nat) := sound.adoptProcess moves.self asking.idle
            asking.there.choose_spec.1 asking.there.choose_spec.2 starts request timeout answers.now
          have closes : ∀ call ∈ closing ++ unusedInput process request, call.isFile = true := by
            intro call listed
            rcases List.mem_append.mp listed with before | after
            · exact starts.closes call before
            · exact isFile_unusedInput call after
          refine ⟨_, passage.same (adopted _).1 (moves.trans (adopted _).2) ?_ ?_⟩
          · apply Shift.started asking.asked asking.silent asking.idle request starts.opens closes
              starts.positive starts.output
            have nonneg := starts.input
            cases body : request.body <;> simp [nonneg]
          · have files {call : Call} (other : call.isFile = false)
                (listed : call ∈ [.parsed fd request] ++ (opening ++ .forked process.pid ::
                  (closing ++ unusedInput process request))) :
                call = .parsed fd request ∨ call = .forked process.pid := by
              simp only [List.mem_append, List.mem_cons, List.not_mem_nil,
                or_false] at listed closes
              rcases listed with parsed | opening | forked | closing
              · exact .inl parsed
              · rw [starts.opens call opening] at other
                cases other
              · exact .inr forked
              · rw [closes call closing] at other
                cases other
            have unaccepted : .accepted fd ∉ [.parsed fd request] ++ (opening ++
                .forked process.pid :: (closing ++ unusedInput process request)) := by
              intro listed
              rcases files rfl listed with parsed | forked
              · cases parsed
              · cases forked
            constructor
            · exact fun listed => absurd listed unaccepted
            · exact fun listed => absurd listed unaccepted
            · intro _ _
              exact running
            · intro pid listed
              rcases files rfl listed with parsed | forked
              · cases parsed
              · rw [Call.forked.injEq] at forked
                have fresh := starts.fresh
                rw [children_parsed] at fresh
                exact forked ▸ ⟨starts.positive, fresh⟩

/-- The call of `CgiHandler::start` that the reading of a request leads to: the server at that
time, and the script. -/
def scriptStart (server : Server) (fd : Int) (answers : Answers) : Option (Server × RouteResult) :=
  match answers.received with
  | .data incoming =>
      let client := server.clientAt fd
      match intake client.settings.maxBody client.input incoming with
      | .parsed input (.ok request) =>
          let parsed := (server.setClient fd { client with
            input := input, touched := answers.now }).record (.parsed fd request)
          (parsed.startRoute fd request answers).map fun route => (parsed, route)
      | _ => none
  | _ => none

/-- A request that the parser refuses, or that is not complete. -/
theorem passage_answerResult
    (passage : Passage given before ⟨server, flags⟩ fd (some (client, events)) .no)
    (asking : Asking given server fd client index) (answers : Answers) (result : ParseResult) :
    ∃ view, Passage given before ⟨server.answerResult index fd answers result, flags⟩ fd view
      .no := by
  have seen : server.view fd = some (client, events) := passage.seen
  have unmoved : Moves server server fd (some (client, events)) (parsedCalls fd none) :=
    seen ▸ .refl server fd
  rw [answerResult]
  split
  next => exact ⟨_, passage⟩
  next response _ => exact passage_answerAt passage asking passage.sound unmoved rfl response

theorem passage_handleResult
    (passage : Passage given before ⟨server, flags⟩ fd (some (client, events)) .no)
    (asking : Asking given server fd client index) (answers : Answers) (result : ParseResult)
    (fresh : server.startsFresh answers.started = true)
    (failing : ∀ request route, result = .ok request →
      (server.record (.parsed fd request)).startRoute fd request answers = some route →
      ((server.record (.parsed fd request)).startProcess route answers.started).2 = none →
      given.failing) :
    ∃ view, Passage given before ⟨server.handleResult index fd answers result, flags⟩ fd view
      .no := by
  cases result with
  | ok request =>
      rw [handleResult]
      split
      next after left =>
        have started := passage_startCgi passage asking request answers fresh
          (fun route => failing request route rfl)
        rw [left] at started
        exact started rfl
      next after left =>
        have same := startCgi_false (congrArg Prod.snd left)
        rw [left] at same
        have seen : server.view fd = some (client, events) := passage.seen
        have moves : Moves server (server.record (.parsed fd request)) fd (some (client, events))
            (parsedCalls fd (some request)) := seen ▸ .record server fd (.parsed fd request)
        rw [show after = server.record (.parsed fd request) from same]
        exact passage_answerAt passage asking (passage.sound.record rfl) moves rfl _
  | _ =>
      simp only [handleResult]
      exact passage_answerResult passage asking answers _

theorem handled_readClient (sound : Sound server)
    (seen : server.view fd = some (client, events)) (answers : Answers)
    (quiet : answers.received = .ended → given.quiet fd)
    (asking : Asking given server fd client index)
    (fresh : server.startsFresh answers.started = true)
    (failing : ∀ parsed route, server.scriptStart fd answers = some (parsed, route) →
      (parsed.startProcess route answers.started).2 = none → given.failing) :
    Handled given server (server.readClient index fd answers) := by
  have passage := Passage.start given sound fd
  rw [seen] at passage
  rw [readClient]
  cases received : answers.received with
  | again => exact .refl sound
  | ended => exact handled_closeClient sound fd fun _ _ _ => .inr (quiet received)
  | data incoming =>
      simp only [clientAt_of_view seen]
      cases taken : intake client.settings.maxBody client.input incoming with
      | refused =>
          have unmoved : Moves server server fd (some (client, events)) (parsedCalls fd none) :=
            seen ▸ .refl server fd
          rcases passage_answerAt passage asking sound unmoved rfl
            (ResponseFactory.error answers.disk 413 client.settings) with ⟨view, answered⟩
          exact answered.handled
      | parsed input result =>
          have kept := passage.setClient { client with
            input := input, touched := answers.now } rfl rfl rfl rfl
            (.received asking.asked asking.silent asking.idle input answers.now)
          have still : Asking given (server.setClient fd { client with
              input := input, touched := answers.now }) fd { client with
              input := input, touched := answers.now } index :=
            ⟨asking.asked, asking.silent, asking.idle, asking.there⟩
          rcases passage_handleResult kept still answers result fresh (by
            rintro request route rfl routed unstarted
            apply failing _ route _ unstarted
            simp only [scriptStart, received, clientAt_of_view seen, taken, routed,
              Option.map_some]) with ⟨view, handled⟩
          exact handled.handled

/-! ### Between the events -/

/-- The scripts of some clients have ended, and all of their output has been read. -/
def Ended (server : Server) (exited : List (Int × Int × WaitStatus)) : Prop :=
  (exited.map (·.1)).Nodup ∧ ∀ script ∈ exited, ∃ client events,
    server.view script.1 = some (client, events) ∧ client.cgiPid = script.2.1 ∧
      0 < client.cgiPid ∧ client.cgiOutputFd < 0

theorem Ended.of_same {after : Server} {exited : List (Int × Int × WaitStatus)}
    (ended : Ended server exited)
    (same : ∀ script ∈ exited, after.view script.1 = server.view script.1) :
    Ended after exited := by
  refine ⟨ended.1, ?_⟩
  intro script listed
  rw [same script listed]
  exact ended.2 script listed

theorem Ended.tail {script : Int × Int × WaitStatus} {rest : List (Int × Int × WaitStatus)}
    (ended : Ended server (script :: rest)) : Ended server rest :=
  ⟨(List.nodup_cons.mp ended.1).2, fun other listed =>
    ended.2 other (List.mem_cons_of_mem _ listed)⟩

theorem Ended.different {script : Int × Int × WaitStatus}
    {rest : List (Int × Int × WaitStatus)} (ended : Ended server (script :: rest)) :
    ∀ other ∈ rest, other.1 ≠ script.1 := by
  intro other listed same
  have apart : script.1 ∉ rest.map (·.1) := (List.nodup_cons.mp ended.1).1
  apply apart
  rw [← same]
  exact List.mem_map_of_mem listed

/-- `waitpid` returns one process after the other. -/
theorem steps_waitAll (given : Circumstances) {exited : List (Int × Int × WaitStatus)}
    (sound : Sound server)
    (ended : Ended server exited) (flags : Int → Waited)
    (unwaited : ∀ script ∈ exited, flags script.1 = .no) :
    ∃ later, Sound (waitAll exited server) ∧
      Steps given ⟨server, flags⟩ ⟨waitAll exited server, later⟩ ∧
      (∀ fd, (waitAll exited server).view fd = server.view fd) ∧
      (∀ fd ∈ exited.map (·.1), later fd = .reaped) ∧
      ∀ fd, fd ∉ exited.map (·.1) → later fd = flags fd := by
  induction exited generalizing server flags with
  | nil => exact ⟨flags, sound, .refl, fun _ => rfl, by simp, by simp⟩
  | cons script rest ih =>
      rcases ended.2 script List.mem_cons_self with ⟨client, events, seen, pid, running, spent⟩
      have start : Passage given ⟨server, flags⟩ ⟨server, flags⟩ script.1 (some (client, events))
        .no := .refl sound seen (unwaited script List.mem_cons_self)
      have reaped := start.reap running spent
      rw [pid] at reaped
      have different := ended.different
      rcases ih reaped.sound (ended.tail.of_same fun _ _ => rfl)
        (Function.update flags script.1 .reaped) (by
          intro other listed
          rw [Function.update_of_ne (different other listed)]
          exact unwaited other (List.mem_cons_of_mem _ listed)) with
        ⟨later, kept, steps, views, inside, outside⟩
      refine ⟨later, kept, Relation.ReflTransGen.trans reaped.steps steps, views, ?_, ?_⟩
      · intro fd listed
        by_cases among : fd ∈ rest.map (·.1)
        · exact inside fd among
        · rcases List.mem_cons.mp listed with rfl | listed
          · rw [outside _ among, Function.update_self]
          · exact absurd listed among
      · intro fd unlisted
        simp only [List.map_cons, List.mem_cons, not_or] at unlisted
        rw [outside fd unlisted.2, Function.update_of_ne unlisted.1]

/-- One client after the other gets its response. -/
theorem steps_finishAll (given : Circumstances) {exited : List (Int × Int × WaitStatus)}
    (disk : Disk) (now : Int)
    (sound : Sound server) (ended : Ended server exited) (flags : Int → Waited)
    (waited : ∀ script ∈ exited, flags script.1 = .reaped)
    (unwaited : ∀ fd, fd ∉ exited.map (·.1) → flags fd = .no) :
    Sound (finishAll disk now exited server) ∧
      Steps given ⟨server, flags⟩ (finishAll disk now exited server).settled := by
  induction exited generalizing server flags with
  | nil =>
      have none : flags = fun _ => .no := funext fun fd => unwaited fd (by simp)
      subst none
      exact ⟨sound, .refl⟩
  | cons script rest ih =>
      rcases ended.2 script List.mem_cons_self with ⟨client, events, seen, _, running, spent⟩
      have start : Passage given ⟨server, flags⟩ ⟨server, flags⟩ script.1 (some (client, events))
        .reaped := .refl sound seen (waited script List.mem_cons_self)
      have whole : succeeded script.2.2 = true → Waited.reaped = .killed → given.cut :=
        fun _ killed => by cases killed
      rcases start.finishCgi running (by simp) (.inr spent) whole disk now with ⟨view, finished⟩
      have different := ended.different
      rcases ih finished.sound (ended.tail.of_same fun other listed =>
          finished.others other.1 (different other listed))
        (Function.update flags script.1 .no) (by
          intro other listed
          rw [Function.update_of_ne (different other listed)]
          exact waited other (List.mem_cons_of_mem _ listed)) (by
          intro fd unlisted
          by_cases same : fd = script.1
          · rw [same, Function.update_self]
          · rw [Function.update_of_ne same]
            exact unwaited fd (by simpa [same] using unlisted)) with ⟨kept, steps⟩
      exact ⟨kept, Relation.ReflTransGen.trans finished.steps steps⟩

theorem ended_exitedScripts (server : Server) (waits : List (Int × WaitStatus)) :
    Ended server (server.exitedScripts waits) := by
  constructor
  · rw [List.Nodup, List.pairwise_map, exitedScripts]
    apply List.Pairwise.filterMap _ _ ExtTreeMap.distinct_keys_toList
    rintro ⟨fd, client⟩ ⟨other, neighbour⟩ apart script chosen script' chosen'
    have fst : script.1 = fd := by
      simp only at chosen
      split at chosen
      · cases chosen
      · rcases Option.map_eq_some_iff.mp chosen with ⟨_, _, rfl⟩
        rfl
    have fst' : script'.1 = other := by
      simp only at chosen'
      split at chosen'
      · cases chosen'
      · rcases Option.map_eq_some_iff.mp chosen' with ⟨_, _, rfl⟩
        rfl
    rw [fst, fst']
    simpa [LawfulEqOrd.compare_eq_iff_eq] using apart
  · intro script listed
    simp only [exitedScripts, List.mem_filterMap, Prod.exists,
      ExtTreeMap.mem_toList_iff_getElem?_eq_some] at listed
    rcases listed with ⟨fd, client, found, chosen⟩
    split at chosen
    · cases chosen
    next running =>
      rw [Option.map_eq_some_iff] at chosen
      rcases chosen with ⟨status, _, rfl⟩
      exact ⟨client, _, exists_view found, rfl, by omega, by omega⟩

theorem handled_reapCgi (sound : Sound server) (disk : Disk) (now : Int)
    (waits : List (Int × WaitStatus)) : Handled given server (server.reapCgi disk now waits) := by
  have ended := server.ended_exitedScripts waits
  rcases steps_waitAll given sound ended (fun _ => .no) (fun _ _ => rfl) with
    ⟨later, kept, waiting, views, inside, outside⟩
  rcases steps_finishAll given disk now kept (ended.of_same fun _ _ => views _) later
    (fun script listed => inside _ (List.mem_map_of_mem listed)) outside with ⟨sound, finishing⟩
  exact ⟨sound, Relation.ReflTransGen.trans waiting finishing⟩

theorem handled_expireOne (sound : Sound server) (asked : given.asked fd) (disk : Disk)
    (now : Int) : Handled given server (expireOne disk now server fd) := by
  cases found : server.clients[fd]? with
  | none =>
      simp only [expireOne, found]
      exact .refl sound
  | some client =>
      have named := sound.named found
      have seen := exists_view found
      have passage := Passage.start given sound fd
      rw [seen] at passage
      simp only [expireOne, found, named]
      split
      next running =>
        have killed := passage.killCgi running
        have dropped := (killed.dropCgiInput (.inl (by simp))).dropCgiOutput (.inl rfl)
        generalize ((server.killCgi fd).dropCgiInput fd).dropCgiOutput fd = closed at dropped ⊢
        have input : client.withoutInput.withoutOutput.cgiInputFd < 0 := by
          rw [Client.withoutOutput_cgiInputFd]
          exact client.withoutInput_cgiInputFd
        have output := client.withoutInput.withoutOutput_cgiOutputFd
        generalize ResponseFactory.error disk 504 client.settings = response
        have responded := Moves.respond dropped.seen response.serialize
        let changed : Client := { client.withoutInput.withoutOutput with
          output := response.serialize, cgiPid := -1, sent := 0, touched := now, phase := .writing }
        have kept := dropped.sound.respondWith dropped.seen response.serialize changed rfl rfl rfl
          fun _ => ⟨input, output⟩
        have moves := Moves.respondWith dropped.seen response.serialize changed
        rw [endCgi, clientAt_of_view responded.self]
        refine (dropped.next (kept.setEventsAll fd pollOut)
          (moves.trans (.setEvents kept moves.self pollOut))
          (.timedOut ?_ input output response.serialize_ne_nil now) ?_).handled
        · simpa using running
        · constructor <;> simp
      next idle =>
        split
        next silent =>
          generalize ResponseFactory.error disk 408 client.settings = response
          have responded := Moves.respond seen response.serialize
          let changed : Client := { client with
            output := response.serialize, sent := 0, touched := now, phase := .writing }
          have quiet : client.cgiPid ≤ 0 := by omega
          have pipes := sound.idle found quiet
          have kept := sound.respondWith seen response.serialize changed rfl rfl rfl
            fun _ => pipes
          have moves := Moves.respondWith seen response.serialize changed
          have unattempted : Attempt [] := .early (by simp)
          rw [clientAt_of_view responded.self]
          refine (passage.same (kept.setEventsAll fd pollOut)
            (moves.trans (.setEvents kept moves.self pollOut))
            (.answered asked (by simpa using silent) quiet none unattempted
              response.serialize_ne_nil (.inr rfl) now (.inl rfl)) ?_).handled
          constructor <;> simp
        next heard =>
          exact handled_closeClient sound fd fun other events same => by
            rw [seen, Option.some.injEq, Prod.mk.injEq] at same
            left
            simpa [← same.1] using heard

theorem handled_expireClients (sound : Sound server) (asked : ∀ fd, given.asked fd) (disk : Disk)
    (now : Int) : Handled given server (server.expireClients disk now) := by
  rw [expireClients]
  generalize server.expired now = expired
  induction expired generalizing server with
  | nil => exact .refl sound
  | cons fd rest ih =>
      have first := handled_expireOne sound (asked fd) disk now
      exact first.trans (ih first.sound)

end Server

end IrcPlatform.Webserv
