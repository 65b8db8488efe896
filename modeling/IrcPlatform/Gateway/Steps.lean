import IrcPlatform.Gateway.System

/-!
# What a step of the gateway and the server can do

Every step is one of seven kinds of changes to the server, to the lines that wait
on the connections, and to what was recorded. The invariants of runs are proved
from this list, not from the definitions of the actions.
-/

namespace IrcPlatform.Gateway

open JsString

/-! ## Writes that carry no message -/

/-- Only lines without an entry were appended. -/
structure Appends (before after : IrcConnection) : Prop where
  lines : ∃ added, after.toServer = before.toServer ++ added ∧ ∀ line ∈ added, line.entry = none
  granted : after.granted = before.granted

/-- Lines without an entry were appended, and the server's end is the same. -/
structure Extends (before after : IrcConnection) : Prop extends Appends before after where
  peer : after.peer = before.peer

namespace Extends

variable {before between after irc : IrcConnection}

theorem refl (irc : IrcConnection) : Extends irc irc := ⟨⟨⟨[], by simp, by simp⟩, rfl⟩, rfl⟩

theorem trans (first : Extends before between) (second : Extends between after) :
    Extends before after := by
  rcases first.lines with ⟨early, earlyLines, earlyPlain⟩
  rcases second.lines with ⟨late, lateLines, latePlain⟩
  refine ⟨⟨⟨early ++ late, ?_, ?_⟩, second.granted.trans first.granted⟩,
    second.peer.trans first.peer⟩
  · rw [lateLines, earlyLines, List.append_assoc]
  · intro line listed
    rcases List.mem_append.mp listed with listed | listed
    · exact earlyPlain line listed
    · exact latePlain line listed

theorem write (irc : IrcConnection) (text : Bytes) : Extends irc (irc.write (.other text)) := by
  unfold IrcConnection.write
  split
  · exact ⟨⟨⟨[.other text], rfl, by simp [Line.entry]⟩, rfl⟩, rfl⟩
  · exact refl irc

theorem send (irc : IrcConnection) (command : JsString) (params : List JsString)
    (trailing : JsString) : Extends irc (irc.send command params trailing) := write irc _

theorem register {registered : IrcConnection} {password : JsString}
    (done : irc.register password = some registered) : Extends irc registered := by
  unfold IrcConnection.register at done
  rcases Option.map_eq_some_iff.mp done with ⟨username, _, rfl⟩
  refine trans ?_ (trans (send _ _ _ _) (send _ _ _ _))
  split
  · exact refl irc
  · exact send irc _ _ _

theorem changeNick {renamed : IrcConnection} {nickname : JsonValue}
    (done : irc.changeNick nickname = some renamed) : Extends irc renamed := by
  unfold IrcConnection.changeNick at done
  split at done
  · split at done
    · rw [← Option.some.inj done]
      rcases send irc (js "NICK") [_] [] with ⟨⟨lines, granted⟩, peer⟩
      exact ⟨⟨lines, granted⟩, peer⟩
    · simp at done
  · simp at done

theorem quit (irc : IrcConnection) (reason : JsString) : Extends irc (irc.quit reason) := by
  unfold IrcConnection.quit
  split
  · exact refl irc
  · rcases send irc (js "QUIT") [] reason with ⟨⟨lines, granted⟩, peer⟩
    exact ⟨⟨lines, granted⟩, peer⟩

end Extends

/-- The IRC side of a connection before and after a step that carries no message. -/
inductive Grows : Option IrcConnection → Option IrcConnection → Prop where
  | absent : Grows none none
  | created {irc : IrcConnection} (unaccepted : irc.peer = .unaccepted)
      (nothing : irc.toServer = []) : Grows none (some irc)
  | extended {before after : IrcConnection} (grown : Extends before after) :
      Grows (some before) (some after)

theorem Grows.refl (irc : Option IrcConnection) : Grows irc irc := by
  cases irc with
  | none => exact .absent
  | some irc => exact .extended (.refl irc)

namespace Connection

variable {connection after : Connection} {now : Int}

theorem admitAction_irc (done : connection.admitAction now = some after) :
    after.irc = connection.irc := by
  unfold admitAction at done
  simp only at done
  split at done
  · simp at done
  · rw [← Option.some.inj done]

theorem slideWindow_irc (connection : Connection) (now : Int) :
    (connection.slideWindow now).irc = connection.irc := by
  unfold slideWindow
  split
  next admitted done => exact admitAction_irc done
  · rfl

theorem handleLine_grows {irc old : IrcConnection} (grown : Extends old irc) (line : Bytes) :
    Grows (some old) (connection.handleLine irc line).irc := by
  unfold handleLine
  split
  · exact .extended grown
  next message _ =>
    generalize answering : (if message.command == js "PING" then
      irc.send (js "PONG") message.params message.trailing else irc) = answered
    have written : Extends old answered := by
      rw [← answering]
      split
      · exact grown.trans (Extends.send irc _ _ _)
      · exact grown
    simp only
    split
    · split
      · exact .extended written
      · exact .extended (written.trans (Extends.send _ _ _ _))
    · exact .extended written

theorem act_grows {message : ClientMessage} (done : connection.act message = some after) :
    Grows connection.irc after.irc := by
  cases message with
  | connect nickname channel username =>
      simp only [act, connect] at done
      split at done
      next nothing =>
        split at done
        · rcases Option.map_eq_some_iff.mp done with ⟨joined, _, rfl⟩
          rw [nothing]
          exact .created rfl rfl
        · simp at done
      · simp at done
  | message target text => simp [act] at done
  | join channel =>
      rcases Option.bind_eq_some_iff.mp done with ⟨irc, found, done⟩
      rcases Option.map_eq_some_iff.mp done with ⟨name, _, rfl⟩
      rw [found]
      exact .extended (Extends.send irc _ _ _)
  | part channel =>
      rcases Option.bind_eq_some_iff.mp done with ⟨irc, found, done⟩
      rcases Option.map_eq_some_iff.mp done with ⟨name, _, rfl⟩
      rw [found]
      exact .extended (Extends.send irc _ _ _)
  | nick nickname =>
      rcases Option.bind_eq_some_iff.mp done with ⟨irc, found, done⟩
      rcases Option.map_eq_some_iff.mp done with ⟨renamed, changed, rfl⟩
      rw [found]
      exact .extended (Extends.changeNick changed)
  | unsupported => simp [act] at done

end Connection

/-! ## Kinds of steps -/

namespace State

/-- What was stored and echoed, and what became of it. -/
def ledger (state : State) : ChannelHistory × List Entry × List Verdict :=
  (state.history, state.entries, state.verdicts)

/-- What the `message` action sends in a state: the connection and the entry. -/
def sends (state : State) (id : Nat) (now : Int) :
    Option ClientMessage → Option (IrcConnection × Entry)
  | some (.message target text) =>
      (state.connections[id]?).bind fun connection =>
        (connection.admitAction now).bind fun admitted =>
          admitted.irc.bind fun irc => (admitted.messageEntry id irc target text).map (irc, ·)
  | _ => none

end State

/-- The IRC side of one connection is replaced. -/
structure Updates (before after : State) (id : Nat) (old new : IrcConnection) : Prop where
  found : before.ircAt id = some old
  ircAt (other : Nat) : after.ircAt other = if other = id then some new else before.ircAt other

/-- The connection that a step is about, if the step carries the lines of one. -/
def Action.about : Action → Option Nat
  | .browser id _ _ | .closeSocket id | .establish id _ _ | .fail id | .arrive id | .read id
  | .release id => some id
  | .openSocket | .flush _ _ | .hangUp _ | .sweep _ | .other _ => none

inductive Change (before : State) : Action → State → Prop where
  | quiet {action : Action} {after : State} (server : after.server = before.server)
      (ledger : after.ledger = before.ledger)
      (grows : ∀ id, Grows (before.ircAt id) (after.ircAt id)) : Change before action after
  | served {action : Action} {after : State} (about : action.about = none)
      (step : ∃ serverAction, Irc.serverSystem.step before.server serverAction after.server)
      (ledger : after.ledger = before.ledger)
      (grows : ∀ id, Grows (before.ircAt id) (after.ircAt id)) : Change before action after
  | sent {id : Nat} {now : Int} {message : Option ClientMessage} {irc : IrcConnection}
      {entry : Entry} {after : State} (sending : before.sends id now message = some (irc, entry))
      (reaches : irc.reaches = true) (server : after.server = before.server)
      (ledger : after.ledger = (before.recordEntry entry).ledger)
      (updates : Updates before after id irc
        { irc with toServer := irc.toServer ++ [.message entry] }) :
      Change before (.browser id now message) after
  | blocked {id : Nat} {now : Int} {message : Option ClientMessage} {irc : IrcConnection}
      {entry : Entry} {after : State} (sending : before.sends id now message = some (irc, entry))
      (blocked : irc.reaches = false) (server : after.server = before.server)
      (ledger : after.ledger =
        ((before.recordEntry entry).judge entry (.lost irc.granted)).ledger)
      (same : ∀ other, after.ircAt other = before.ircAt other) :
      Change before (.browser id now message) after
  | accepted {id : Nat} {fd : Int} {peerAddress : Bytes} {irc new : IrcConnection}
      {after : State} (step : Irc.serverSystem.step before.server (.accept fd peerAddress)
        after.server)
      (ledger : after.ledger = before.ledger) (updates : Updates before after id irc new)
      (appends : Appends irc new) (unaccepted : irc.peer = .unaccepted)
      (peer : new.peer = .held fd) : Change before (.establish id fd peerAddress) after
  | taken {id : Nat} {fd : Int} {irc : IrcConnection} {line : Line} {rest : List Line}
      {after : State} (held : irc.peer = .held fd) (lines : irc.toServer = line :: rest)
      (server : after.server = readLine fd before.server line)
      (ledger : after.ledger = (match line.entry with
        | none => before
        | some entry => before.judge entry (outcomeOf before.server fd line.text entry)).ledger)
      (updates : Updates before after id irc
        { irc with toServer := rest, granted := after.server.nicknameOf fd }) :
      Change before (.read id) after
  | emptied {action : Action} {id : Nat} {irc new : IrcConnection} {after : State}
      (which : action = .fail id ∨ action = .release id) (server : after.server = before.server)
      (ledger : after.ledger = (before.loseLines irc).ledger)
      (updates : Updates before after id irc new) (nothing : new.toServer = []) :
      Change before action after

namespace State

variable {state : State} {id : Nat}

theorem ircAt_of_connection {connection : Connection}
    (found : state.connections[id]? = some connection) : state.ircAt id = connection.irc := by
  simp [ircAt, found]

theorem connection_of_ircAt {irc : IrcConnection} (found : state.ircAt id = some irc) :
    ∃ connection, state.connections[id]? = some connection ∧ connection.irc = some irc :=
  Option.bind_eq_some_iff.mp found

theorem ircAt_setConnection {old : Connection} (found : state.connections[id]? = some old)
    (new : Connection) (other : Nat) :
    (state.setConnection id new).ircAt other =
      if other = id then new.irc else state.ircAt other := by
  rcases List.getElem?_eq_some_iff.mp found with ⟨bound, _⟩
  unfold ircAt setConnection
  rw [List.getElem?_set]
  split
  next same =>
    subst same
    simp
  next different => rw [if_neg (Ne.symm different)]

theorem updates_of_connections {after : State} {old new : IrcConnection}
    (found : state.ircAt id = some old)
    (replaced : after.connections =
      state.connections.modify id fun connection => { connection with irc := some new }) :
    Updates state after id old new := by
  refine ⟨found, ?_⟩
  intro other
  rcases connection_of_ircAt found with ⟨connection, stored, _⟩
  unfold ircAt
  rw [replaced, List.getElem?_modify]
  split
  next same =>
    subst same
    simp [stored]
  next different =>
    rw [if_neg (Ne.symm different)]
    simp

theorem grows_of_updates {after : State} {old new : IrcConnection}
    (updates : Updates state after id old new) (grown : Extends old new) (other : Nat) :
    Grows (state.ircAt other) (after.ircAt other) := by
  rw [updates.ircAt]
  split
  next same =>
    rw [same, updates.found]
    exact .extended grown
  · exact .refl _

theorem setConnection_grows {old : Connection} (found : state.connections[id]? = some old)
    {new : Connection} (grows : Grows old.irc new.irc) (other : Nat) :
    Grows (state.ircAt other) ((state.setConnection id new).ircAt other) := by
  rw [ircAt_setConnection found]
  split
  next same =>
    subst same
    rw [ircAt_of_connection found]
    exact grows
  · exact .refl _

/-! ## Every step is of one of the kinds -/

theorem deliverMessage_change {old connection : Connection} {irc : IrcConnection} {entry : Entry}
    {now : Int} {message : Option ClientMessage} (found : state.connections[id]? = some old)
    (same : connection.irc = old.irc) (holds : connection.irc = some irc)
    (sending : state.sends id now message = some (irc, entry)) :
    Change state (.browser id now message) (state.deliverMessage id connection irc entry) := by
  have foundIrc : state.ircAt id = some irc := by rw [ircAt_of_connection found, ← same, holds]
  have ircs : ∀ other, (state.deliverMessage id connection irc entry).ircAt other =
      if other = id then some (irc.privmsg entry) else state.ircAt other := by
    intro other
    rw [← ircAt_setConnection found { connection with irc := some (irc.privmsg entry) }]
    unfold deliverMessage
    simp only
    split
    · rfl
    · rfl
  cases reaches : irc.reaches with
  | true =>
      refine .sent sending reaches ?_ ?_ ⟨foundIrc, ?_⟩
      · simp only [deliverMessage, reaches]
        rfl
      · simp only [deliverMessage, reaches]
        rfl
      · intro other
        rw [ircs, IrcConnection.privmsg, IrcConnection.write, if_pos reaches]
  | false =>
      refine .blocked sending reaches ?_ ?_ ?_
      · simp only [deliverMessage, reaches]
        rfl
      · simp only [deliverMessage, reaches]
        rfl
      · intro other
        rw [ircs, IrcConnection.privmsg, IrcConnection.write, reaches]
        split
        next here => exact here ▸ foundIrc.symm
        · rfl

theorem handleBrowser_change {connection : Connection} (now : Int)
    (message : Option ClientMessage) (found : state.connections[id]? = some connection) :
    Change state (.browser id now message) (state.handleBrowser id connection now message) := by
  have unchanged : ∀ {after : Connection}, after.irc = connection.irc →
      Change state (.browser id now message) (state.setConnection id after) := fun same =>
    .quiet rfl rfl (setConnection_grows found (same ▸ .refl _))
  unfold handleBrowser
  split
  · exact unchanged (connection.slideWindow_irc now)
  next admitted done =>
    have same := Connection.admitAction_irc done
    split
    · exact unchanged same
    next target text =>
      split
      · exact unchanged same
      next irc holds =>
        split
        · exact unchanged same
        next entry making =>
          refine deliverMessage_change found same holds ?_
          simp [sends, found, done, holds, making]
    next other _ =>
      cases acting : admitted.act other with
      | none => exact unchanged same
      | some after =>
          exact .quiet rfl rfl (setConnection_grows found (same ▸ Connection.act_grows acting))

/-- A step that only changes the server. -/
theorem change_of_server {action : Action} {server : Irc.Server} (about : action.about = none)
    (step : ∃ serverAction, Irc.serverSystem.step state.server serverAction server) :
    Change state action { state with server := server } :=
  .served about step rfl fun _ => .refl _

theorem handleEvent_step (server : Irc.Server) (event : Irc.PollResult) :
    ∃ action, Irc.serverSystem.step server action (server.handleEvent event) :=
  ⟨.poll event, rfl, rfl⟩

theorem perform_change {action : Action} (ready : state.enabled action = true) :
    Change state action (state.perform action) := by
  have idle : Change state action state := .quiet rfl rfl fun _ => .refl _
  cases action with
  | openSocket =>
      refine .quiet rfl rfl ?_
      intro id
      simp only [perform, ircAt, List.getElem?_append]
      split
      · exact .refl _
      next beyond =>
        rw [List.getElem?_eq_none (by omega), List.getElem?_singleton]
        split
        · exact .absent
        · exact .absent
  | browser id now message =>
      simp only [perform]
      split
      · exact idle
      next connection found => exact handleBrowser_change now message found
  | closeSocket id =>
      simp only [perform]
      split
      · exact idle
      next connection found =>
        refine .quiet rfl rfl (setConnection_grows found ?_)
        cases held : connection.irc with
        | none => exact .absent
        | some irc => exact .extended (Extends.quit irc _)
  | establish id fd peerAddress =>
      simp only [perform]
      split
      · exact idle
      next irc found =>
        simp only [enabled, found, Option.any_some, Bool.and_eq_true, beq_iff_eq,
          Bool.not_eq_true'] at ready
        split
        · exact idle
        next registered done =>
          have grown := Extends.register done
          have absent : Irc.serverSystem.step state.server (.accept fd peerAddress)
              (state.server.acceptClient (some (fd, peerAddress))) := by
            refine ⟨?_, rfl⟩
            simp [Irc.serverMachine, Irc.Server.enabled, ready.1.1.2]
          exact .accepted absent rfl (updates_of_connections found rfl)
            ⟨grown.lines, grown.granted⟩ ready.1.1.1.1.1 rfl
  | fail id =>
      simp only [perform]
      split
      · exact idle
      next irc found =>
        exact .emptied (.inl rfl) rfl rfl (updates_of_connections found rfl) rfl
  | arrive id =>
      simp only [perform]
      split
      · exact idle
      next connection found =>
        split
        · exact idle
        next irc held =>
          split
          · exact idle
          next line rest _ =>
            refine .quiet rfl rfl (setConnection_grows found ?_)
            have consumed : Extends irc { irc with toGateway := rest } :=
              ⟨⟨⟨[], by simp, by simp⟩, rfl⟩, rfl⟩
            rw [held]
            exact Connection.handleLine_grows consumed line
  | read id =>
      simp only [perform]
      split
      · exact idle
      next irc found =>
        split
        next fd line rest held lines =>
          cases carried : line.entry with
          | none =>
              refine .taken held lines rfl ?_ (updates_of_connections found rfl)
              simp only [carried]
              rfl
          | some entry =>
              refine .taken held lines rfl ?_ (updates_of_connections found rfl)
              simp only [carried]
              rfl
        · exact idle
  | flush id count =>
      simp only [perform]
      split
      · exact idle
      next irc found =>
        split
        next fd held =>
          have step := handleEvent_step state.server
            { fd := fd, revents := { pollOut := true }, sent := some count }
          exact .served rfl step rfl (grows_of_updates (updates_of_connections found rfl)
            ⟨⟨⟨[], by simp, by simp⟩, rfl⟩, rfl⟩)
        · exact idle
        · exact idle
  | hangUp id =>
      simp only [perform]
      split
      · exact idle
      · split
        next fd held => exact change_of_server rfl (handleEvent_step _ _)
        · exact idle
        · exact idle
  | release id =>
      simp only [perform]
      split
      · exact idle
      next irc found =>
        exact .emptied (.inr rfl) rfl rfl (updates_of_connections found rfl) rfl
  | sweep order => exact change_of_server rfl ⟨.processPending order, ready, rfl⟩
  | other action =>
      simp only [enabled, Bool.and_eq_true] at ready
      exact change_of_server rfl ⟨action, ready.1, rfl⟩

end State

end IrcPlatform.Gateway
