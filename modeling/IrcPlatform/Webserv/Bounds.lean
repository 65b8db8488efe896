import IrcPlatform.Webserv.Guarantees
import IrcPlatform.Webserv.RequestLimit

/-!
# Bounds

What the server can be made to hold, in every run of the event loop: descriptors, processes,
and the bytes that are kept of requests and of the output of scripts.
-/

namespace IrcPlatform.Webserv

open Std

namespace Client

/-- What is kept of a request and of the output of a script is limited. -/
structure Limited (client : Client) : Prop where
  input : client.input.length ≤ Server.requestLimit client.settings.maxBody
  body : client.cgiInput.length ≤ client.settings.maxBody
  output : client.cgiOutput.length ≤ Server.maxCgiOutput + maxRead

/-- More output of the script can be read. -/
def Open (client : Client) : Prop :=
  0 ≤ client.cgiOutputFd → client.cgiOutput.length ≤ Server.maxCgiOutput

/-- The buffers stay, and no pipe is opened. -/
structure Keeps (client changed : Client) : Prop where
  config : changed.config = client.config
  input : changed.input = client.input
  cgiInput : changed.cgiInput = client.cgiInput
  cgiOutput : changed.cgiOutput = client.cgiOutput
  pipe : changed.cgiOutputFd = client.cgiOutputFd ∨ changed.cgiOutputFd < 0

end Client

/-- An accepted body is not longer than the configuration allows. -/
theorem body_within {raw : Bytes} {maxBody : Nat} {request : Request}
    (accepted : parseRequest raw maxBody = .ok request) : request.body.length ≤ maxBody := by
  rcases parseRequest_cases accepted with ⟨_, parsed, _, _, parsedBody⟩
  rcases parseBody_cases parsedBody with ⟨body, rfl, framed⟩
  cases framed with
  | chunked named single decoded fits => exact fits
  | announced plain named read fits arrived =>
      exact (List.length_take_le _ _).trans fits
  | without plain silent bodiless => exact Nat.zero_le _

namespace Server

/-- Every client is limited, and all but one can be read from. -/
def Limits (spared : Option Int) (fd : Int) (client : Client) : Prop :=
  client.Limited ∧ (some fd = spared ∨ client.Open)

def EveryClient (holds : Int → Client → Prop) (server : Server) : Prop :=
  ∀ (fd : Int) (client : Client), server.clients[fd]? = some client → holds fd client

variable {spared : Option Int} {server after : Server} {fd other : Int} {client changed : Client}
  {answers : Answers} {disk : Disk} {now : Int}

theorem clients_startProcess (server : Server) (route : RouteResult) (started : Started) :
    (server.startProcess route started).1.clients = server.clients := by
  unfold startProcess
  split
  · rfl
  · split
    · rfl
    · simp only [openPipe, closePipe, close, record]
    · split
      · simp only [openPipe, closePipe, close, record]
      · split
        · simp only [openPipe, close, record]
        · split <;> simp only [openPipe, close, record]

theorem clientAt_congr (same : after.clients = server.clients) (fd : Int) :
    after.clientAt fd = server.clientAt fd := by
  rw [clientAt, same, clientAt]

/-- Nothing is kept of a new client. -/
theorem limits_new (input : client.input = []) (body : client.cgiInput = [])
    (output : client.cgiOutput = []) : Limits spared fd client := by
  refine ⟨⟨?_, ?_, ?_⟩, Or.inr ?_⟩
  · rw [input]
    exact Nat.zero_le _
  · rw [body]
    exact Nat.zero_le _
  · rw [output]
    exact Nat.zero_le _
  · intro _
    rw [output]
    exact Nat.zero_le _

theorem Limits.keep (limits : Limits spared fd client) (keeps : client.Keeps changed) :
    Limits spared fd changed := by
  have settings : changed.settings = client.settings := by
    rw [Client.settings, keeps.config, Client.settings]
  rcases limits with ⟨limited, opened⟩
  refine ⟨⟨?_, ?_, ?_⟩, opened.imp_right ?_⟩
  · rw [keeps.input, settings]
    exact limited.input
  · rw [keeps.cgiInput, settings]
    exact limited.body
  · rw [keeps.cgiOutput]
    exact limited.output
  · intro room piped
    rw [keeps.cgiOutput]
    rcases keeps.pipe with same | closed
    · exact room (same ▸ piped)
    · omega

namespace EveryClient

variable (every : server.EveryClient (Limits spared))
include every

theorem congr (same : after.clients = server.clients) : after.EveryClient (Limits spared) := by
  intro fd client found
  exact every fd client (same ▸ found)

theorem clientAt (fd : Int) : Limits spared fd (server.clientAt fd) := by
  rw [Server.clientAt]
  cases found : server.clients[fd]? with
  | none => exact limits_new rfl rfl rfl
  | some client => exact every fd client found

theorem setClient (limits : Limits spared fd changed) :
    (server.setClient fd changed).EveryClient (Limits spared) := by
  intro other client found
  simp only [Server.setClient, ExtTreeMap.getElem?_insert, LawfulEqOrd.compare_eq_iff_eq] at found
  split at found
  next same =>
    rw [Option.some.injEq] at found
    exact found ▸ same ▸ limits
  · exact every other client found

/-- A client changes, but its buffers do not. -/
theorem update (keeps : (server.clientAt fd).Keeps changed) :
    (server.setClient fd changed).EveryClient (Limits spared) :=
  every.setClient ((every.clientAt fd).keep keeps)

theorem erase (same : after.clients = server.clients.erase fd) :
    after.EveryClient (Limits spared) := by
  intro other client found
  rw [same, ExtTreeMap.getElem?_erase] at found
  split at found
  · cases found
  · exact every other client found

theorem record (call : Call) : (server.record call).EveryClient (Limits spared) := every.congr rfl

theorem dropCgiInput (fd : Int) : (server.dropCgiInput fd).EveryClient (Limits spared) := by
  rw [Server.dropCgiInput]
  split
  · exact every
  · exact setClient (every.congr rfl) ((every.clientAt fd).keep ⟨rfl, rfl, rfl, rfl, .inl rfl⟩)

theorem dropCgiOutput (fd : Int) : (server.dropCgiOutput fd).EveryClient (Limits spared) := by
  rw [Server.dropCgiOutput]
  split
  · exact every
  · exact setClient (every.congr rfl)
      ((every.clientAt fd).keep ⟨rfl, rfl, rfl, rfl, .inr (by simp)⟩)

theorem killCgi (fd : Int) : (server.killCgi fd).EveryClient (Limits spared) := every.congr rfl

theorem closeClient (fd : Int) : (server.closeClient fd).EveryClient (Limits spared) := by
  rw [Server.closeClient]
  split
  · exact every
  next client found =>
    have waited : (if 0 < client.cgiPid then server.killCgi fd else server).EveryClient
        (Limits spared) := by
      split
      · exact every.killCgi fd
      · exact every
    exact ((waited.dropCgiInput fd).dropCgiOutput fd).erase rfl

theorem respond (fd : Int) (response : Bytes) :
    (server.respond fd response).EveryClient (Limits spared) :=
  setClient (every.congr rfl) ((every.clientAt fd).keep ⟨rfl, rfl, rfl, rfl, .inl rfl⟩)

theorem setPhase (fd : Int) (phase : ClientPhase) :
    (server.setPhase fd phase).EveryClient (Limits spared) :=
  every.update ⟨rfl, rfl, rfl, rfl, .inl rfl⟩

theorem endCgi (fd now : Int) : (server.endCgi fd now).EveryClient (Limits spared) :=
  every.update ⟨rfl, rfl, rfl, rfl, .inl rfl⟩

theorem answerAt (index : Nat) (fd : Int) (response : Bytes) :
    (server.answerAt index fd response).EveryClient (Limits spared) :=
  ((every.respond fd response).setPhase fd .writing).congr rfl

theorem finishCgi (disk : Disk) (now fd : Int) (status : WaitStatus) :
    (server.finishCgi disk now fd status).EveryClient (Limits spared) := by
  rw [Server.finishCgi]
  split
  · exact every
  · have closed : ((((server.dropCgiInput fd).dropCgiOutput fd).record
        (.finished fd status))).EveryClient (Limits spared) :=
      congr ((every.dropCgiInput fd).dropCgiOutput fd) rfl
    exact congr ((closed.respond fd _).endCgi fd now) rfl

theorem acceptOne (config : Option ServerConfig) (accepted : Accepted) :
    (server.acceptOne config accepted).EveryClient (Limits spared) := by
  simp only [Server.acceptOne]
  split
  · exact every.congr rfl
  · split
    · exact every.congr rfl
    · have opened : ((server.record (.opened accepted.fd)).record
          (.accepted accepted.fd)).EveryClient (Limits spared) := every.congr rfl
      exact congr (opened.setClient (limits_new rfl rfl rfl)) rfl

theorem acceptClient (index : Nat) (accepts : List Accepted) :
    (server.acceptClient index accepts).EveryClient (Limits spared) := by
  rw [Server.acceptClient]
  generalize (server.pollfds[index]?).bind (fun entry => server.listenerConfig entry.fd) = config
  induction accepts generalizing server with
  | nil => exact every
  | cons accepted rest ih => exact ih (every.acceptOne config accepted)

/-! ### Scripts -/

theorem adoptProcess (index : Nat) {request : Request} (timeout : Nat) (now : Int)
    (process : CgiProcess)
    (fits : request.body.length ≤ (server.clientAt fd).settings.maxBody) :
    (server.adoptProcess index fd request timeout now process).EveryClient (Limits spared) := by
  have adopted : Limits spared fd
      (scripted (server.clientAt fd) process request timeout now) :=
    ⟨⟨(every.clientAt fd).1.input, fits, Nat.zero_le _⟩, Or.inr fun _ => Nat.zero_le _⟩
  rw [adoptProcess_eq rfl]
  exact congr (every.setClient adopted) rfl

theorem startCgi (index : Nat) {request : Request} (answers : Answers)
    (fits : request.body.length ≤ (server.clientAt fd).settings.maxBody) :
    (server.startCgi index fd request answers).1.EveryClient (Limits spared) := by
  simp only [Server.startCgi]
  split
  · exact every
  · split
    · exact every.answerAt index fd _
    · split
      · exact every.answerAt index fd _
      · exact every.answerAt index fd _
      next resolved _ =>
        have same := clients_startProcess server
          { Router.resolve request (server.clientAt fd).settings with diskPath := resolved }
          answers.started
        split
        next after attempt =>
          rw [attempt] at same
          exact congr ((every.congr same).respond fd _) rfl
        next after process attempt =>
          rw [attempt] at same
          apply (every.congr same).adoptProcess
          rwa [clientAt_congr same]

theorem handleResult (index : Nat) (answers : Answers) {result : ParseResult}
    (fits : ∀ request, result = .ok request →
      request.body.length ≤ (server.clientAt fd).settings.maxBody) :
    (server.handleResult index fd answers result).EveryClient (Limits spared) := by
  have answered {server : Server} (every : server.EveryClient (Limits spared))
      (result : ParseResult) :
      (server.answerResult index fd answers result).EveryClient (Limits spared) := by
    rw [answerResult]
    split
    · exact every
    · exact every.answerAt index fd _
  cases result with
  | ok request =>
      have parsed : (server.record (.parsed fd request)).EveryClient (Limits spared) :=
        every.congr rfl
      have started := parsed.startCgi index answers (fits request rfl)
      simp only [Server.handleResult]
      split
      next after attempt =>
        rwa [attempt] at started
      next after attempt =>
        rw [attempt] at started
        exact answered started _
  | _ => exact answered every _

theorem readClient (index : Nat) (fd : Int) (answers : Answers)
    (fits : answers.received.fits = true) :
    (server.readClient index fd answers).EveryClient (Limits spared) := by
  simp only [Server.readClient]
  split
  · exact every
  · exact every.closeClient fd
  next incoming received =>
    rw [received, ReadResult.fits, Bool.and_eq_true, decide_eq_true_eq] at fits
    split
    · exact every.answerAt index fd _
    next input result taken =>
      rw [intake_eq fits.2] at taken
      split at taken
      · cases taken
      next room =>
        cases taken
        have limits := every.clientAt fd
        have kept : Limits spared fd { server.clientAt fd with
            input := (server.clientAt fd).input ++ incoming, touched := answers.now } :=
          ⟨⟨Nat.le_of_not_lt room, limits.1.body, limits.1.output⟩, limits.2⟩
        apply (every.setClient kept).handleResult
        intro request parsed
        rw [clientAt_of_found ExtTreeMap.getElem?_insert_self]
        exact body_within parsed

theorem writeClient (fd : Int) (answers : Answers) :
    (server.writeClient fd answers).EveryClient (Limits spared) := by
  simp only [Server.writeClient]
  split
  · exact every
  · exact every.closeClient fd
  · exact every.closeClient fd
  next number _ =>
    have sent : ((server.record (.sent fd (((server.clientAt fd).output.drop
        (server.clientAt fd).sent).take (number + 1)))).setClient fd
          { server.clientAt fd with
            sent := (server.clientAt fd).sent + (number + 1), touched := answers.now }).EveryClient
              (Limits spared) :=
      setClient (every.congr rfl) ((every.clientAt fd).keep ⟨rfl, rfl, rfl, rfl, .inl rfl⟩)
    split
    · exact (sent.record _).closeClient fd
    · exact sent

theorem endCgiInput (pipeFd fd : Int) :
    (server.endCgiInput pipeFd fd).EveryClient (Limits spared) := by
  have dropped : ((server.close pipeFd).setClient fd
      { (server.close pipeFd).clientAt fd with cgiInputFd := -1 }).EveryClient (Limits spared) :=
    update (every.record _) ⟨rfl, rfl, rfl, rfl, .inl rfl⟩
  exact setPhase (congr dropped rfl) fd .cgiReading

theorem writeCgi (pipeFd : Int) (answers : Answers) :
    (server.writeCgi pipeFd answers).EveryClient (Limits spared) := by
  simp only [Server.writeCgi]
  split
  · exact every
  · exact every.endCgiInput pipeFd _
  · exact every.endCgiInput pipeFd _
  next number _ =>
    have taken (bytes : Bytes) :
        ((server.record (.wrote (server.inputOwner pipeFd) bytes)).setClient
          (server.inputOwner pipeFd) { server.clientAt (server.inputOwner pipeFd) with
            cgiWritten := (server.clientAt (server.inputOwner pipeFd)).cgiWritten + (number + 1)
            touched := answers.now }).EveryClient (Limits spared) :=
      update (every.record _) ⟨rfl, rfl, rfl, rfl, .inl rfl⟩
    split
    · exact (taken _).endCgiInput pipeFd _
    · exact taken _

theorem finishAll (disk : Disk) (now : Int) (exited : List (Int × Int × WaitStatus)) :
    (finishAll disk now exited server).EveryClient (Limits spared) := by
  induction exited generalizing server with
  | nil => exact every
  | cons script rest ih => exact ih (every.finishCgi disk now _ _)

theorem reapCgi (disk : Disk) (now : Int) (waits : List (Int × WaitStatus)) :
    (server.reapCgi disk now waits).EveryClient (Limits spared) := by
  have waited (exited : List (Int × Int × WaitStatus)) :
      (waitAll exited server).EveryClient (Limits spared) := by
    induction exited generalizing server with
    | nil => exact every
    | cons script rest ih => exact ih (every.record _)
  exact (waited _).finishAll disk now _

theorem expireOne (disk : Disk) (now fd : Int) :
    (expireOne disk now server fd).EveryClient (Limits spared) := by
  simp only [Server.expireOne]
  split
  · exact every
  · split
    · have closed := ((every.killCgi fd).dropCgiInput fd).dropCgiOutput fd
      exact congr ((closed.respond fd _).endCgi fd now) rfl
    · split
      next client _ _ _ =>
        let refused := server.respond fd (ResponseFactory.error disk 408 client.settings).serialize
        have reset : (refused.setClient fd { refused.clientAt fd with
            sent := 0, touched := now, phase := .writing }).EveryClient (Limits spared) :=
          (every.respond fd _).update ⟨rfl, rfl, rfl, rfl, .inl rfl⟩
        exact congr reset rfl
      · exact every.closeClient _

theorem expireClients (disk : Disk) (now : Int) :
    (server.expireClients disk now).EveryClient (Limits spared) := by
  rw [Server.expireClients]
  generalize server.expired now = expired
  induction expired generalizing server with
  | nil => exact every
  | cons fd rest ih => exact ih (every.expireOne disk now fd)

end EveryClient

/-! ### The output of scripts -/

theorem clientAt_dropCgiOutput (server : Server) (fd : Int) :
    ((server.dropCgiOutput fd).clientAt fd).cgiOutputFd < 0 := by
  rw [dropCgiOutput]
  split
  next closed => exact closed
  · rw [clientAt_of_found ExtTreeMap.getElem?_insert_self]
    simp

/-- A client whose script has been finished has no pipe to it. -/
theorem finishCgi_closed {status : WaitStatus}
    (found : (server.finishCgi disk now fd status).clients[fd]? = some changed) :
    changed.cgiOutputFd < 0 := by
  simp only [finishCgi] at found
  split at found
  next absent => simp [absent] at found
  next client _ =>
    have closed := (server.dropCgiInput fd).clientAt_dropCgiOutput fd
    generalize (server.dropCgiInput fd).dropCgiOutput fd = dropped at found closed
    have ended : some changed = some _ := found.symm.trans ExtTreeMap.getElem?_insert_self
    rw [Option.some.injEq] at ended
    rw [ended]
    simp only
    rw [respond, clientAt_of_found ExtTreeMap.getElem?_insert_self]
    exact closed

/-- Nothing more is read from the client that was spared. -/
theorem EveryClient.unspare (every : server.EveryClient (Limits (some fd)))
    (opened : ∀ client, server.clients[fd]? = some client → client.Open) :
    server.EveryClient (Limits none) := by
  intro other client found
  rcases every other client found with ⟨limited, same | room⟩
  · rw [Option.some.injEq] at same
    exact ⟨limited, Or.inr (opened client (same ▸ found))⟩
  · exact ⟨limited, Or.inr room⟩

theorem EveryClient.readCgi (every : server.EveryClient (Limits none)) {pipeFd : Int}
    (piped : 0 ≤ (server.clientAt (server.outputOwner pipeFd)).cgiOutputFd)
    (fits : answers.received.fits = true) :
    (server.readCgi pipeFd answers).EveryClient (Limits none) := by
  have limits := every.clientAt (server.outputOwner pipeFd)
  have room : (server.clientAt (server.outputOwner pipeFd)).Open := by simpa using limits.2
  simp only [Server.readCgi]
  split
  · exact every
  next bytes received =>
    rw [received, ReadResult.fits, Bool.and_eq_true, decide_eq_true_eq] at fits
    have spared : server.EveryClient (Limits (some (server.outputOwner pipeFd))) := by
      intro other client found
      rcases every other client found with ⟨limited, same | room⟩
      · cases same
      · exact ⟨limited, Or.inr room⟩
    have grown : Limits (some (server.outputOwner pipeFd)) (server.outputOwner pipeFd)
        { server.clientAt (server.outputOwner pipeFd) with
          cgiOutput := (server.clientAt (server.outputOwner pipeFd)).cgiOutput ++ bytes
          touched := answers.now } := by
      refine ⟨⟨limits.1.input, limits.1.body, ?_⟩, Or.inl rfl⟩
      rw [List.length_append]
      exact Nat.add_le_add (room piped) fits.2
    have collected := (spared.record (.collected (server.outputOwner pipeFd) bytes)).setClient grown
    split
    · apply ((collected.killCgi _).finishCgi answers.disk answers.now _ _).unspare
      intro client found open_
      exact absurd open_ (Int.not_le.mpr (finishCgi_closed found))
    next within =>
      apply collected.unspare
      intro client found _
      have same := found.symm.trans ExtTreeMap.getElem?_insert_self
      rw [Option.some.injEq] at same
      rw [same]
      exact Nat.le_of_not_lt within
  · have dropped : (((server.close pipeFd).record (.drained (server.outputOwner pipeFd))).setClient
        (server.outputOwner pipeFd) { server.clientAt (server.outputOwner pipeFd) with
          cgiOutputFd := -1 }).EveryClient (Limits none) :=
      EveryClient.setClient (every.congr rfl) (limits.keep ⟨rfl, rfl, rfl, rfl, .inr (by simp)⟩)
    split
    · exact dropped.congr rfl
    · apply EveryClient.finishCgi
      exact dropped.congr rfl

end Server

namespace EventLoop

open Server

variable {loop : EventLoop} {action : LoopAction}

theorem limits_perform (serving : Serving loop) (possible : loop.enabled action = true)
    (every : loop.server.EveryClient (Limits none)) :
    (loop.perform action).server.EveryClient (Limits none) := by
  cases action with
  | poll revents => exact every.congr rfl
  | reap disk now waits => exact every.reapCgi disk now waits
  | expire disk now => exact every.expireClients disk now
  | visit answers =>
      rw [enabled, Option.any_eq_true] at possible
      rcases possible with ⟨entry, there, possible⟩
      rcases exists_of_current there with ⟨index, ready, control, listed⟩
      simp only [perform, there, control, visit]
      split
      · exact every
      next some_ =>
        have permitted : loop.server.permits entry answers = true := by
          simpa [some_] using possible
        have known := handlerCase serving.sound (List.mem_of_getElem? listed)
        rw [permits] at permitted
        rw [handle]
        generalize loop.server.handlerFor entry = kind at known permitted
        cases known with
        | acceptClient _ => exact every.acceptClient index answers.accepts
        | readCgi seen piped nonneg =>
            apply every.readCgi _ permitted
            rw [clientAt_of_view seen, piped]
            exact nonneg
        | writeCgi _ _ _ => exact every.writeCgi entry.fd answers
        | closeOwner _ _ => exact every.closeClient _
        | closeClient _ _ => exact every.closeClient entry.fd
        | readClient _ _ =>
            simp only [Bool.and_eq_true] at permitted
            exact every.readClient index entry.fd answers permitted.1.1
        | writeClient _ _ => exact every.writeClient entry.fd answers
        | nothing => exact every

theorem limits_of_reachable (reached : loopMachine.system.Reachable loop) :
    loop.server.EveryClient (Limits none) := by
  have both : Serving loop ∧ loop.server.EveryClient (Limits none) := by
    apply reached.invariant
    · rintro loop ⟨listeners, nodup, nonneg, rfl⟩
      refine ⟨serving_start nodup nonneg, ?_⟩
      intro fd client found
      rw [show (Server.start listeners).clients[fd]? = none from ExtTreeMap.getElem?_empty] at found
      cases found
    · rintro before action after _ ⟨serving, every⟩ ⟨possible, rfl⟩
      exact ⟨serving.perform possible, limits_perform serving possible every⟩
  exact both.2

end EventLoop

/-! ## Tables -/

/-- What the server holds at most. -/
structure Server.Frugal (server : Server) : Prop where
  clients : server.clients.size ≤ Server.maxConnections
  children : (Server.children server.calls).length ≤ Server.maxCgiProcesses
  polled : server.pollfds.length ≤
    server.listeners.length + Server.maxConnections + 2 * Server.maxCgiProcesses
  opened : (Server.openFds server.calls).length = server.pollfds.length
  input (fd : Int) (client : Client) : server.clients[fd]? = some client →
    client.input.length ≤ Server.requestLimit client.settings.maxBody
  body (fd : Int) (client : Client) : server.clients[fd]? = some client →
    client.cgiInput.length ≤ client.settings.maxBody
  output (fd : Int) (client : Client) : server.clients[fd]? = some client →
    client.cgiOutput.length ≤ Server.maxCgiOutput + maxRead

namespace Server

/-- The clients that have a script. -/
def scripts (server : Server) : List (Int × Client) :=
  (server.clients.filter fun _ client => 0 < client.cgiPid).toList

theorem length_scripts (server : Server) : server.scripts.length = server.runningCgi :=
  ExtTreeMap.length_toList

theorem mem_scripts {server : Server} {fd : Int} {client : Client} :
    (fd, client) ∈ server.scripts ↔ server.clients[fd]? = some client ∧ 0 < client.cgiPid := by
  rw [scripts, ExtTreeMap.mem_toList_iff_getElem?_eq_some, ExtTreeMap.getElem?_filter']
  cases server.clients[fd]? with
  | none => simp
  | some other =>
      simp only [Option.filter_some, decide_eq_true_eq, Option.some.injEq]
      grind

theorem length_pollfds_le {server : Server} (sound : Sound server)
    (consistent : server.Consistent) :
    server.pollfds.length ≤ server.listeners.length + maxConnections + 2 * maxCgiProcesses := by
  have within : server.pollfds.map (·.fd) ⊆
      server.listeners.map (·.fd) ++ (server.clients.keys ++
        (server.scripts.map (·.2.cgiInputFd) ++ server.scripts.map (·.2.cgiOutputFd))) := by
    intro fd listed
    simp only [List.mem_append]
    rcases (consistent.polled fd).mp listed with listener | client | ⟨nonneg, owner, piped⟩
    · exact Or.inl listener
    · exact Or.inr (Or.inl (ExtTreeMap.mem_keys.mpr client))
    · rcases piped with ⟨client, found, same⟩ | ⟨client, found, same⟩
      · have running := sound.running found (Or.inl (same ▸ nonneg))
        exact Or.inr (Or.inr (Or.inl
          (List.mem_map.mpr ⟨_, mem_scripts.mpr ⟨found, running⟩, same⟩)))
      · have running := sound.running found (Or.inr (same ▸ nonneg))
        exact Or.inr (Or.inr (Or.inr
          (List.mem_map.mpr ⟨_, mem_scripts.mpr ⟨found, running⟩, same⟩)))
  have length := (consistent.nodup.subperm within).length_le
  simp only [List.length_append, List.length_map, ExtTreeMap.length_keys, length_scripts] at length
  have clients := consistent.clients
  have scripts := consistent.scripts
  omega

theorem length_children_le {server : Server} (parental : server.Parental)
    (few : server.runningCgi ≤ maxCgiProcesses) :
    (children server.calls).length ≤ maxCgiProcesses := by
  have within : children server.calls ⊆ server.scripts.map (·.2.cgiPid) := by
    intro pid listed
    rcases (parental.owned pid).mp listed with ⟨positive, fd, client, found, same⟩
    exact List.mem_map.mpr ⟨_, mem_scripts.mpr ⟨found, same ▸ positive⟩, same⟩
  have length := (parental.nodup.subperm within).length_le
  rw [List.length_map, length_scripts] at length
  omega

end Server

end IrcPlatform.Webserv
