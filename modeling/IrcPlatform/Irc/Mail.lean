import IrcPlatform.Irc.Kept

/-!
# The mail of the server

A second projection of the state, next to the core: the send buffers and the
history. A command changes its mail by queueing messages and in no other way, so
what it sends is a list of postings, and the mail after it is computed from the
list (`Posts`).
-/

namespace IrcPlatform.Irc

open Std

/-- A message handed to `queueToClient`. -/
structure Posting where
  fd : Int
  message : Bytes
deriving DecidableEq

/-- The messages for one descriptor, in order. -/
def addressed (fd : Int) (postings : List Posting) : List Bytes :=
  (postings.filter fun posting => posting.fd = fd).map (·.message)

/-- The message that an event queued for a descriptor. -/
def HistoryEvent.queuedTo (fd : Int) : HistoryEvent → Option Bytes
  | .queued other message _ => if other = fd then some message else none
  | _ => none

/-- The message that an event appended to the send buffer of a descriptor. -/
def HistoryEvent.appendedTo (fd : Int) : HistoryEvent → Option Bytes
  | .queued other message true => if other = fd then some message else none
  | _ => none

@[ext]
structure Mail where
  buffers : Int → Option Bytes
  history : List HistoryEvent

namespace Mail

def fits (buffer message : Bytes) : Bool :=
  !decide (Server.maxSendBuffer < buffer.length + (Server.withCrlf message).length)

def queue (mail : Mail) (posting : Posting) : Mail :=
  match mail.buffers posting.fd with
  | none => mail
  | some buffer =>
      if fits buffer posting.message then
        { buffers := Function.update mail.buffers posting.fd
            (some (buffer ++ Server.withCrlf posting.message))
          history := mail.history ++ [.queued posting.fd posting.message true] }
      else { mail with history := mail.history ++ [.queued posting.fd posting.message false] }

def queueAll (mail : Mail) (postings : List Posting) : Mail := postings.foldl queue mail

/-- The events of one posting. -/
def entry (mail : Mail) (posting : Posting) : List HistoryEvent :=
  match mail.buffers posting.fd with
  | none => []
  | some buffer => [.queued posting.fd posting.message (fits buffer posting.message)]

/-- The events of a list of postings. -/
def entries : Mail → List Posting → List HistoryEvent
  | _, [] => []
  | mail, posting :: rest => mail.entry posting ++ (mail.queue posting).entries rest

variable (mail : Mail)

@[simp] theorem queueAll_nil : mail.queueAll [] = mail := rfl

@[simp] theorem queueAll_cons (posting : Posting) (rest : List Posting) :
    mail.queueAll (posting :: rest) = (mail.queue posting).queueAll rest := rfl

theorem queueAll_append (first second : List Posting) :
    mail.queueAll (first ++ second) = (mail.queueAll first).queueAll second :=
  List.foldl_append

theorem history_queue (posting : Posting) :
    (mail.queue posting).history = mail.history ++ mail.entry posting := by
  simp only [queue, entry]
  split
  · simp
  next buffer _ =>
    cases room : fits buffer posting.message with
    | true => rfl
    | false => rfl

theorem history_queueAll (postings : List Posting) :
    (mail.queueAll postings).history = mail.history ++ mail.entries postings := by
  induction postings generalizing mail with
  | nil => simp [entries]
  | cons posting rest ih =>
      rw [queueAll_cons, ih, history_queue, entries, List.append_assoc]

theorem mem_entries {postings : List Posting} {event : HistoryEvent}
    (listed : event ∈ mail.entries postings) :
    ∃ posting ∈ postings, ∃ appended, event = .queued posting.fd posting.message appended := by
  induction postings generalizing mail with
  | nil => simp [entries] at listed
  | cons posting rest ih =>
      rcases List.mem_append.mp listed with here | later
      · simp only [entry] at here
        split at here
        · simp at here
        · exact ⟨posting, List.mem_cons_self, _, List.mem_singleton.mp here⟩
      · rcases ih _ later with ⟨other, otherListed, appended, same⟩
        exact ⟨other, List.mem_cons_of_mem posting otherListed, appended, same⟩

/-- The buffer of one descriptor after one posting, by what the posting left in the
history. -/
theorem buffers_queue (posting : Posting) (fd : Int) :
    (mail.queue posting).buffers fd = (mail.buffers fd).map fun buffer =>
      buffer ++ ((mail.entry posting).filterMap (HistoryEvent.appendedTo fd)).flatMap
        Server.withCrlf := by
  simp only [queue, entry]
  split
  · simp
  next buffer found =>
    cases room : fits buffer posting.message with
    | true =>
        by_cases same : fd = posting.fd
        · subst same
          simp [found, HistoryEvent.appendedTo]
        · simp [same, Ne.symm same, HistoryEvent.appendedTo]
    | false => simp [List.filterMap_cons, HistoryEvent.appendedTo]

theorem buffers_queueAll (postings : List Posting) (fd : Int) :
    (mail.queueAll postings).buffers fd = (mail.buffers fd).map fun buffer =>
      buffer ++ ((mail.entries postings).filterMap (HistoryEvent.appendedTo fd)).flatMap
        Server.withCrlf := by
  induction postings generalizing mail with
  | nil => simp [entries]
  | cons posting rest ih =>
      rw [queueAll_cons, ih, buffers_queue, entries, List.filterMap_append, List.flatMap_append,
        Option.map_map]
      congr 1
      funext buffer
      simp

/-- A live descriptor gets an event for every message addressed to it. -/
theorem queuedTo_entries (postings : List Posting) {fd : Int}
    (live : (mail.buffers fd).isSome = true) :
    (mail.entries postings).filterMap (HistoryEvent.queuedTo fd) = addressed fd postings := by
  induction postings generalizing mail with
  | nil => rfl
  | cons posting rest ih =>
      have stillLive : ((mail.queue posting).buffers fd).isSome = true := by
        rw [buffers_queue]
        simpa using live
      rw [entries, List.filterMap_append, ih _ stillLive]
      by_cases same : posting.fd = fd
      · subst same
        rcases Option.isSome_iff_exists.mp live with ⟨buffer, found⟩
        simp [entry, found, addressed, HistoryEvent.queuedTo]
      · have silent : (mail.entry posting).filterMap (HistoryEvent.queuedTo fd) = [] := by
          simp only [entry]
          split
          · rfl
          · simp [HistoryEvent.queuedTo, same]
        rw [silent]
        simp [addressed, same]

/-- Without an overflow every queued message is appended. -/
theorem appendedTo_eq_queuedTo {events : List HistoryEvent}
    (room : ∀ fd message, HistoryEvent.queued fd message false ∉ events) (fd : Int) :
    events.filterMap (HistoryEvent.appendedTo fd) =
      events.filterMap (HistoryEvent.queuedTo fd) := by
  apply List.filterMap_congr
  intro event listed
  cases event with
  | queued other message appended =>
      cases appended with
      | true => rfl
      | false => exact absurd listed (room other message)
  | _ => rfl

end Mail

namespace Server

def mail (server : Server) : Mail where
  buffers fd := (server.findClientByFd fd).map (·.sendBuffer)
  history := server.history

/-! ## The mail after each operation -/

section Operations

variable (server : Server) (fd : Int)

theorem mail_queueToClient (message : Bytes) :
    (server.queueToClient fd message).mail = server.mail.queue ⟨fd, message⟩ := by
  ext1
  · funext other
    have lookup := findClientByFd_queueToClient server fd message other
    simp only [mail, lookup, Mail.queue]
    cases found : server.findClientByFd fd with
    | none =>
        by_cases same : other = fd
        · simp [same, found]
        · simp [same]
    | some client =>
        have decided : Mail.fits client.sendBuffer message = !overflows client message := rfl
        cases full : overflows client message with
        | true =>
            by_cases same : other = fd
            · simp [same, found, decided, full, deliver]
            · simp [same, decided, full]
        | false =>
            by_cases same : other = fd
            · simp [same, decided, full, deliver, Client.appendSendBuffer]
            · simp [same, decided, full]
  · simp only [mail, queueToClient, Mail.queue]
    cases found : server.findClientByFd fd with
    | none => rfl
    | some client =>
        by_cases full : maxSendBuffer < client.sendBuffer.length + (withCrlf message).length
        · simp [full, Mail.fits, record, scheduleDisconnect]
        · have polled : ∀ changed : Server, (changed.updatePollEvents fd).history =
              changed.history := by
            intro changed
            simp only [updatePollEvents]
            split
            · rfl
            · rfl
          simp only [full, if_false, polled]
          simp [full, Mail.fits, record, updateClient]

theorem history_queueToClient_of_room {client : Client} {message : Bytes}
    (found : server.findClientByFd fd = some client) (room : overflows client message = false) :
    (server.queueToClient fd message).history =
      server.history ++ [.queued fd message true] := by
  have mail := congrArg Mail.history (mail_queueToClient server fd message)
  have waiting : server.mail.buffers fd = some client.sendBuffer := by
    simp only [Server.mail, found, Option.map_some]
  have fits : Mail.fits client.sendBuffer message = true := by
    rw [Mail.fits, Bool.not_eq_true']
    exact room
  rw [Mail.history_queue, Mail.entry, waiting] at mail
  simp only [fits] at mail
  exact mail

theorem mail_queueToAll (message : Bytes) (targets : List Int) (server : Server) :
    (queueToAll message targets server).mail =
      server.mail.queueAll (targets.map fun target => ⟨target, message⟩) := by
  induction targets generalizing server with
  | nil => rfl
  | cons target rest ih =>
      rw [queueToAll, ih, mail_queueToClient, List.map_cons, Mail.queueAll_cons]

theorem mail_broadcastToChannel (channel : Channel) (message : Bytes) (excludeFd : Int) :
    (server.broadcastToChannel channel message excludeFd).mail = server.mail.queueAll
      ((channel.members.toList.filter (· != excludeFd)).map fun target => ⟨target, message⟩) :=
  mail_queueToAll message _ server

theorem mail_broadcastToSharedChannels (client : Client) (message : Bytes) :
    (server.broadcastToSharedChannels client message).mail = server.mail.queueAll
      ((server.sharedTargets client).toList.map fun target => ⟨target, message⟩) :=
  mail_queueToAll message _ server

/-- A change of client records that keeps the send buffer. -/
theorem mail_updateClient {change : Client → Client}
    (send : ∀ client, server.findClientByFd fd = some client →
      (change client).sendBuffer = client.sendBuffer) :
    (server.updateClient fd change).mail = server.mail := by
  ext1
  · funext other
    simp only [mail, findClientByFd_updateClient_eq]
    split
    next same =>
      subst same
      cases found : server.findClientByFd other with
      | none => rfl
      | some client => simp [send client found]
    · rfl
  · rfl

@[simp] theorem mail_updateChannel (name : Bytes) (change : Channel → Channel) :
    (server.updateChannel name change).mail = server.mail := rfl

@[simp] theorem mail_scheduleDisconnect : (server.scheduleDisconnect fd).mail = server.mail := rfl

@[simp] theorem mail_deleteChannelIfEmpty (key : Bytes) :
    (server.deleteChannelIfEmpty key).mail = server.mail := by
  simp only [deleteChannelIfEmpty]
  split
  · rfl
  · split
    · rfl
    · rfl

end Operations

/-! ## What a step posts -/

/-- The mail of `after` is the mail of `before` with these postings queued. -/
def Posts (before : Server) (postings : List Posting) (after : Server) : Prop :=
  after.mail = before.mail.queueAll postings

/-- No posting since `before` found a send buffer without room for it. -/
def NoOverflow (before after : Server) : Prop :=
  ∀ fd message,
    HistoryEvent.queued fd message false ∉ after.history.drop before.history.length

namespace Posts

variable {before between after : Server} {postings more : List Posting}

theorem refl (server : Server) : server.Posts [] server := rfl

theorem trans (first : before.Posts postings between) (second : between.Posts more after) :
    before.Posts (postings ++ more) after := by
  simp only [Posts] at first second ⊢
  rw [second, first, Mail.queueAll_append]

theorem of_mail_eq (posts : before.Posts postings between) (same : after.mail = between.mail) :
    before.Posts postings after :=
  same.trans posts

theorem queue (posts : before.Posts postings between) (fd : Int) (message : Bytes) :
    before.Posts (postings ++ [⟨fd, message⟩]) (between.queueToClient fd message) :=
  posts.trans (mail_queueToClient between fd message)

theorem history (posts : before.Posts postings after) :
    after.history = before.history ++ before.mail.entries postings := by
  have same := congrArg Mail.history posts
  rwa [Mail.history_queueAll] at same

theorem isSome (posts : before.Posts postings after) (fd : Int) :
    (after.findClientByFd fd).isSome = (before.findClientByFd fd).isSome := by
  have same := congrArg (fun mail : Mail => (mail.buffers fd).isSome) posts
  rw [Mail.buffers_queueAll] at same
  simpa [mail] using same

/-- The send buffer of a client grows by the appended messages with their terminators. -/
theorem sendBuffer (posts : before.Posts postings after) {fd : Int} {client next : Client}
    (found : before.findClientByFd fd = some client)
    (foundNext : after.findClientByFd fd = some next) :
    next.sendBuffer = client.sendBuffer ++
      ((before.mail.entries postings).filterMap (HistoryEvent.appendedTo fd)).flatMap
        withCrlf := by
  have same := congrArg (fun mail : Mail => mail.buffers fd) posts
  simp only [Mail.buffers_queueAll] at same
  simpa [mail, found, foundNext] using same

/-- Without an overflow the send buffer grows by everything addressed to its client. -/
theorem sendBuffer_of_noOverflow (posts : before.Posts postings after)
    (room : before.NoOverflow after) {fd : Int} {client next : Client}
    (found : before.findClientByFd fd = some client)
    (foundNext : after.findClientByFd fd = some next) :
    next.sendBuffer = client.sendBuffer ++ (addressed fd postings).flatMap withCrlf := by
  have noneDropped : ∀ fd message,
      HistoryEvent.queued fd message false ∉ before.mail.entries postings := by
    intro fd message
    have dropped := room fd message
    rwa [posts.history, List.drop_left] at dropped
  have live : (before.mail.buffers fd).isSome = true := by simp [mail, found]
  rw [posts.sendBuffer found foundNext, Mail.appendedTo_eq_queuedTo noneDropped,
    Mail.queuedTo_entries _ _ live]

/-- What a send buffer gained is a list of postings to its client. -/
theorem exists_lines (posts : before.Posts postings after) {fd : Int} {client next : Client}
    (found : before.findClientByFd fd = some client)
    (foundNext : after.findClientByFd fd = some next) :
    ∃ lines : List Bytes, next.sendBuffer = client.sendBuffer ++ lines.flatMap withCrlf ∧
      ∀ line ∈ lines, ⟨fd, line⟩ ∈ postings := by
  refine ⟨_, posts.sendBuffer found foundNext, ?_⟩
  intro line listed
  rcases List.mem_filterMap.mp listed with ⟨event, eventListed, appended⟩
  rcases Mail.mem_entries _ eventListed with ⟨posting, postingListed, flag, rfl⟩
  cases flag with
  | true =>
      simp only [HistoryEvent.appendedTo, Option.ite_none_right_eq_some,
        Option.some.injEq] at appended
      rcases appended with ⟨rfl, rfl⟩
      exact postingListed
  | false => simp [HistoryEvent.appendedTo] at appended

/-- A client to which nothing is addressed keeps its send buffer. -/
theorem sendBuffer_eq (posts : before.Posts postings after) {fd : Int} {client next : Client}
    (nothing : ∀ posting ∈ postings, posting.fd ≠ fd)
    (found : before.findClientByFd fd = some client)
    (foundNext : after.findClientByFd fd = some next) : next.sendBuffer = client.sendBuffer := by
  rcases posts.exists_lines found foundNext with ⟨lines, same, all⟩
  have empty : lines = [] := by
    apply List.eq_nil_iff_forall_not_mem.mpr
    intro line listed
    exact nothing _ (all line listed) rfl
  simpa [empty] using same

end Posts

end Server

end IrcPlatform.Irc
