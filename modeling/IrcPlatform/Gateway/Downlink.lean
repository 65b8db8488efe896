import IrcPlatform.Gateway.Obligations
import IrcPlatform.Irc.Stretches

/-!
# The way down

The server's end of each connection of the gateway and the bytes that are on the way from
the server to it: what a step does to them, and what it does at the server.
-/

namespace IrcPlatform.Gateway

open JsString Std

/-! ## The way down -/

/-- The server's end of a connection and the bytes on the way to the gateway. -/
def IrcConnection.downlink (irc : IrcConnection) : Peer × Bytes := (irc.peer, irc.toGateway)

namespace IrcConnection

variable {irc : IrcConnection}

theorem downlink_write (irc : IrcConnection) (line : Line) :
    (irc.write line).downlink = irc.downlink := by
  simp only [write]
  split
  · rfl
  · rfl

theorem downlink_send (irc : IrcConnection) (command : JsString) (params : List JsString)
    (trailing : JsString) : (irc.send command params trailing).downlink = irc.downlink :=
  downlink_write irc _

theorem downlink_register {registered : IrcConnection} {password : JsString}
    (done : irc.register password = some registered) : registered.downlink = irc.downlink := by
  simp only [register] at done
  rcases Option.map_eq_some_iff.mp done with ⟨username, _, rfl⟩
  rw [downlink_send, downlink_send]
  split
  · rfl
  · exact downlink_send _ _ _ _

theorem downlink_changeNick {renamed : IrcConnection} {nickname : JsonValue}
    (done : irc.changeNick nickname = some renamed) : renamed.downlink = irc.downlink := by
  simp only [changeNick] at done
  split at done
  · split at done
    · rw [← Option.some.inj done]
      exact downlink_send irc (js "NICK") [_] []
    · simp at done
  · simp at done

theorem downlink_quit (irc : IrcConnection) (reason : JsString) :
    (irc.quit reason).downlink = irc.downlink := by
  simp only [quit]
  split
  · rfl
  · exact downlink_send irc (js "QUIT") [] reason

end IrcConnection

namespace Connection

variable {connection after : Connection} {now : Int}

theorem downlink_handleLine (irc : IrcConnection) (line : Bytes) :
    (connection.handleLine irc line).irc.map (·.downlink) = some irc.downlink := by
  have answered (message : IrcMessage) : (if message.command == js "PING" then
      irc.send (js "PONG") message.params message.trailing else irc).downlink = irc.downlink := by
    split
    · exact irc.downlink_send _ _ _
    · rfl
  simp only [handleLine]
  split
  · rfl
  next message _ =>
    split
    · split
      · exact congrArg some (answered message)
      · exact congrArg some ((IrcConnection.downlink_send _ _ _ _).trans (answered message))
    · exact congrArg some (answered message)

theorem downlink_act {message : ClientMessage} (done : connection.act message = some after) :
    after.irc.map (·.downlink) = connection.irc.map (·.downlink) ∨
      connection.irc = none ∧ after.irc.map (·.downlink) = some (.unaccepted, []) := by
  cases message with
  | connect nickname channel username =>
      simp only [act, connect] at done
      split at done
      next nothing =>
        split at done
        · rcases Option.map_eq_some_iff.mp done with ⟨joined, _, rfl⟩
          exact Or.inr ⟨nothing, rfl⟩
        · simp at done
      · simp at done
  | message target text => simp [act] at done
  | join channel =>
      rcases Option.bind_eq_some_iff.mp done with ⟨irc, found, done⟩
      rcases Option.map_eq_some_iff.mp done with ⟨name, _, rfl⟩
      rw [found]
      exact Or.inl (congrArg some (irc.downlink_send _ _ _))
  | part channel =>
      rcases Option.bind_eq_some_iff.mp done with ⟨irc, found, done⟩
      rcases Option.map_eq_some_iff.mp done with ⟨name, _, rfl⟩
      rw [found]
      exact Or.inl (congrArg some (irc.downlink_send _ _ _))
  | nick nickname =>
      rcases Option.bind_eq_some_iff.mp done with ⟨irc, found, done⟩
      rcases Option.map_eq_some_iff.mp done with ⟨renamed, changed, rfl⟩
      rw [found]
      exact Or.inl (congrArg some (IrcConnection.downlink_changeNick changed))
  | unsupported => simp [act] at done

end Connection

namespace State

variable {state : State} {id : Nat}

def downlink (state : State) (id : Nat) : Option (Peer × Bytes) :=
  (state.ircAt id).map (·.downlink)

theorem downlink_setConnection {old : Connection} (found : state.connections[id]? = some old)
    (new : Connection) (other : Nat) : (state.setConnection id new).downlink other =
      if other = id then new.irc.map (·.downlink) else state.downlink other := by
  rw [downlink, ircAt_setConnection found]
  split
  · rfl
  · rfl

theorem downlink_updates {after : State} {old new : IrcConnection}
    (updates : Updates state after id old new) (other : Nat) : after.downlink other =
      if other = id then some new.downlink else state.downlink other := by
  rw [downlink, updates.ircAt]
  split
  · rfl
  · rfl

end State

/-- What a step does to the way down of one connection. -/
inductive DownlinkChange (state : State) (id : Nat) (after : Option (Peer × Bytes)) :
    Action → Prop where
  | kept {action : Action} (other : ∀ count, action ≠ .flush id count)
      (same : after = state.downlink id) : DownlinkChange state id after action
  | created {action : Action} (none : state.downlink id = none)
      (fresh : after = some (.unaccepted, [])) : DownlinkChange state id after action
  | accepted {fd : Int} {peerAddress : Bytes} {data : Bytes}
      (before : state.downlink id = some (.unaccepted, data))
      (held : after = some (.held fd, data)) :
      DownlinkChange state id after (.establish id fd peerAddress)
  | arrived {peer : Peer} {data line rest : Bytes} (before : state.downlink id = some (peer, data))
      (split : splitLine data = some (line, rest)) (taken : after = some (peer, rest)) :
      DownlinkChange state id after (.arrive id)
  | flushed {fd : Int} {data : Bytes} {count : Nat} {client : Irc.Client}
      (before : state.downlink id = some (.held fd, data))
      (found : state.server.findClientByFd fd = some client)
      (sent : after = some (.held fd, data ++ client.sendBuffer.take count)) :
      DownlinkChange state id after (.flush id count)
  | released {peer : Peer} {data : Bytes} (before : state.downlink id = some (peer, data))
      (gone : after = some (.gone, data)) : DownlinkChange state id after (.release id)

namespace State

variable {state : State} {id : Nat}

theorem deliverMessage_downlink {old connection : Connection} {irc : IrcConnection}
    {entry : Entry} (found : state.connections[id]? = some old)
    (same : connection.irc = old.irc) (holds : connection.irc = some irc) (other : Nat) :
    (state.deliverMessage id connection irc entry).downlink other = state.downlink other := by
  have stored := downlink_setConnection found { connection with irc := some (irc.privmsg entry) }
    other
  have sent : (state.deliverMessage id connection irc entry).downlink other =
      (state.setConnection id { connection with
        irc := some (irc.privmsg entry) }).downlink other := by
    simp only [deliverMessage]
    split
    · rfl
    · rfl
  rw [sent, stored]
  split
  next here =>
    rw [here, downlink, ircAt_of_connection found, ← same, holds]
    exact congrArg some (irc.downlink_write _)
  · rfl

theorem handleBrowser_downlink {connection : Connection} (now : Int)
    (message : Option ClientMessage) (found : state.connections[id]? = some connection)
    (other : Nat) : DownlinkChange state other
      ((state.handleBrowser id connection now message).downlink other)
      (.browser id now message) := by
  have unchanged {after : Connection} (same : after.irc = connection.irc) :
      DownlinkChange state other ((state.setConnection id after).downlink other)
        (.browser id now message) := by
    apply DownlinkChange.kept (by simp)
    rw [downlink_setConnection found]
    split
    next here => rw [here, downlink, ircAt_of_connection found, same]
    · rfl
  simp only [handleBrowser]
  split
  · exact unchanged (connection.slideWindow_irc now)
  next admitted done =>
    have same := Connection.admitAction_irc done
    split
    · exact unchanged same
    · split
      · exact unchanged same
      next irc holds =>
        split
        · exact unchanged same
        · exact .kept (by simp) (deliverMessage_downlink found same holds other)
    next message _ =>
      cases acting : admitted.act message with
      | none => exact unchanged same
      | some after =>
          rw [Option.getD_some, downlink_setConnection found]
          split
          next here =>
            subst here
            have before : state.downlink other = admitted.irc.map (·.downlink) := by
              rw [downlink, ircAt_of_connection found, same]
            rcases Connection.downlink_act acting with kept | ⟨nothing, fresh⟩
            · exact .kept (by simp) (kept.trans before.symm)
            · exact .created (by rw [before, nothing]; rfl) fresh
          · exact .kept (by simp) rfl

theorem perform_downlink {action : Action} (ready : state.enabled action = true) (other : Nat) :
    DownlinkChange state other ((state.perform action).downlink other) action := by
  cases action with
  | openSocket =>
      apply DownlinkChange.kept (by simp)
      simp only [downlink, perform, ircAt, List.getElem?_append]
      split
      · rfl
      next beyond =>
        have missing : state.connections[other]? = none := List.getElem?_eq_none (by omega)
        rw [missing, List.getElem?_singleton]
        split
        · rfl
        · rfl
  | browser id now message =>
      simp only [perform]
      split
      · exact .kept (by simp) rfl
      next connection found => exact handleBrowser_downlink now message found other
  | closeSocket id =>
      simp only [perform]
      split
      · exact .kept (by simp) rfl
      next connection found =>
        apply DownlinkChange.kept (by simp)
        rw [downlink_setConnection found]
        split
        next here =>
          rw [here, downlink, ircAt_of_connection found]
          cases connection.irc with
          | none => rfl
          | some irc => exact congrArg some (irc.downlink_quit _)
        · rfl
  | establish id fd peerAddress =>
      simp only [perform]
      split
      · exact .kept (by simp) rfl
      next irc found =>
        simp only [enabled, found, Option.any_some, Bool.and_eq_true, beq_iff_eq,
          Bool.not_eq_true'] at ready
        split
        · exact .kept (by simp) rfl
        next registered done =>
          have same := IrcConnection.downlink_register done
          rw [downlink_updates (updates_of_connections found rfl)]
          split
          next here =>
            subst here
            have before : state.downlink other = some (.unaccepted, irc.toGateway) := by
              rw [downlink, found, Option.map_some, IrcConnection.downlink,
                ready.1.1.1.1.1]
            have kept : registered.toGateway = irc.toGateway := congrArg Prod.snd same
            exact .accepted before (by rw [IrcConnection.downlink, kept])
          · exact .kept (by simp) rfl
  | fail id =>
      simp only [perform]
      split
      · exact .kept (by simp) rfl
      next irc found =>
        apply DownlinkChange.kept (by simp)
        rw [downlink_updates (updates_of_connections found rfl)]
        split
        next here =>
          rw [here, downlink, found]
          rfl
        · rfl
  | arrive id =>
      simp only [perform]
      split
      · exact .kept (by simp) rfl
      next connection found =>
        split
        · exact .kept (by simp) rfl
        next irc held =>
          split
          · exact .kept (by simp) rfl
          next line rest cut =>
            rw [downlink_setConnection found, Connection.downlink_handleLine]
            split
            next here =>
              subst here
              refine .arrived ?_ cut rfl
              rw [downlink, ircAt_of_connection found, held]
              rfl
            · exact .kept (by simp) rfl
  | read id =>
      simp only [perform]
      split
      · exact .kept (by simp) rfl
      next irc found =>
        split
        next fd line rest held lines =>
          have updates {after : State} (same : after.connections = state.connections.modify id
              fun connection => { connection with irc := some { irc with
                toServer := rest
                granted := (readLine fd state.server line).nicknameOf fd } }) :
              after.downlink other = state.downlink other := by
            rw [downlink_updates (updates_of_connections found same)]
            split
            next here =>
              rw [here, downlink, found]
              rfl
            · rfl
          apply DownlinkChange.kept (by simp)
          cases line.entry with
          | none => exact updates rfl
          | some entry => exact updates rfl
        · exact .kept (by simp) rfl
  | flush id count =>
      rcases (Option.any_eq_true _ _).mp ready with ⟨irc, found, live⟩
      split at live
      next fd held =>
        rw [ExtTreeMap.contains_eq_isSome_getElem?] at live
        rcases Option.isSome_iff_exists.mp live with ⟨client, stored⟩
        have polled : state.server.findClientByFd fd = some client := stored
        have sent : ((state.server.findClientByFd fd).map (·.sendBuffer)).getD [] =
            client.sendBuffer := by rw [polled]; rfl
        simp only [perform, found, held, sent]
        rw [downlink_updates (updates_of_connections found rfl)]
        split
        next here =>
          subst here
          refine @DownlinkChange.flushed state other _ fd irc.toGateway count client ?_ polled ?_
          · rw [downlink, found, Option.map_some, IrcConnection.downlink, held]
          · rfl
        next different =>
          exact .kept (by simp [Ne.symm different]) rfl
      · simp at live
      · simp at live
  | hangUp id =>
      apply DownlinkChange.kept (by simp)
      simp only [perform]
      split
      · rfl
      · split
        · rfl
        · rfl
        · rfl
  | release id =>
      simp only [perform]
      split
      · exact .kept (by simp) rfl
      next irc found =>
        rw [downlink_updates (updates_of_connections found rfl)]
        split
        next here =>
          subst here
          exact .released (by rw [downlink, found]; rfl) rfl
        · exact .kept (by simp) rfl
  | sweep order => exact .kept (by simp) rfl
  | other action => exact .kept (by simp) rfl

end State

/-! ## Held descriptors -/

/-- What a step takes from the operating system. -/
def Action.Honest (state : State) : Action → Prop
  | .establish _ fd _ => 0 ≤ fd
  | .other action => action.Honest state.server
  | .openSocket | .browser _ _ _ | .closeSocket _ | .fail _ | .arrive _ | .read _ | .flush _ _
  | .hangUp _ | .release _ | .sweep _ => True

namespace State

variable {state : State} {id : Nat} {fd : Int}

/-- The descriptor that the server has for a connection. -/
def heldBy (state : State) (id : Nat) : Option Int :=
  (state.downlink id).bind fun link => link.1.fd

theorem heldBy_eq_some_iff : state.heldBy id = some fd ↔
    ∃ data, state.downlink id = some (.held fd, data) := by
  constructor
  · intro held
    rcases Option.bind_eq_some_iff.mp held with ⟨⟨peer, data⟩, found, same⟩
    cases peer with
    | held other =>
        rw [Peer.fd, Option.some.injEq] at same
        exact ⟨data, same ▸ found⟩
    | unaccepted => simp [Peer.fd] at same
    | gone => simp [Peer.fd] at same
  · rintro ⟨data, found⟩
    rw [heldBy, found]
    rfl

theorem heldBy_of_peer {irc : IrcConnection} (found : state.ircAt id = some irc)
    (held : irc.peer = .held fd) : state.heldBy id = some fd := by
  rw [heldBy, downlink, found, Option.map_some, IrcConnection.downlink, held]
  rfl

theorem holds_of_heldBy (held : state.heldBy id = some fd) : state.holds fd = true := by
  rcases heldBy_eq_some_iff.mp held with ⟨data, found⟩
  rcases Option.map_eq_some_iff.mp found with ⟨irc, ircFound, same⟩
  rcases connection_of_ircAt ircFound with ⟨connection, stored, given⟩
  apply List.any_eq_true.mpr
  refine ⟨irc, ?_, beq_iff_eq.mpr (congrArg Prod.fst same)⟩
  exact List.mem_filterMap.mpr ⟨connection, List.mem_of_getElem? stored, given⟩

/-- A connection that holds a descriptor held it before, or it was just established. -/
theorem heldBy_of_perform {action : Action} (ready : state.enabled action = true)
    (held : (state.perform action).heldBy id = some fd) :
    state.heldBy id = some fd ∨
      state.holds fd = false ∧ ∃ peerAddress, action = .establish id fd peerAddress := by
  have change := perform_downlink ready id
  have earlier {data : Bytes} (before : state.downlink id = some (.held fd, data)) :
      state.heldBy id = some fd := heldBy_eq_some_iff.mpr ⟨data, before⟩
  rcases heldBy_eq_some_iff.mp held with ⟨data, now⟩
  rw [now] at change
  cases change with
  | kept _ same => exact Or.inl (earlier same.symm)
  | created none fresh => simp at fresh
  | accepted before taken =>
      simp only [Option.some.injEq, Prod.mk.injEq, Peer.held.injEq] at taken
      rcases taken with ⟨rfl, rfl⟩
      simp only [enabled, Bool.and_eq_true, Bool.not_eq_true'] at ready
      exact Or.inr ⟨ready.1.2, _, rfl⟩
  | arrived before split taken =>
      simp only [Option.some.injEq, Prod.mk.injEq] at taken
      rcases taken with ⟨rfl, rfl⟩
      exact Or.inl (earlier before)
  | flushed before found sent =>
      simp only [Option.some.injEq, Prod.mk.injEq, Peer.held.injEq] at sent
      rcases sent with ⟨rfl, rfl⟩
      exact Or.inl (earlier before)
  | released before gone => simp at gone

/-- No two connections hold one descriptor. -/
def Apart (state : State) : Prop :=
  ∀ id other fd, state.heldBy id = some fd → state.heldBy other = some fd → id = other

theorem Apart.perform (apart : state.Apart) {action : Action}
    (ready : state.enabled action = true) : (state.perform action).Apart := by
  intro id other fd held otherHeld
  rcases heldBy_of_perform ready held with before | ⟨free, peerAddress, rfl⟩
  · rcases heldBy_of_perform ready otherHeld with otherBefore | ⟨free, _⟩
    · exact apart id other fd before otherBefore
    · rw [holds_of_heldBy before] at free
      simp at free
  · rcases heldBy_of_perform ready otherHeld with otherBefore | ⟨_, otherAddress, same⟩
    · rw [holds_of_heldBy otherBefore] at free
      simp at free
    · exact (Action.establish.inj same).1

/-! ## The server -/

/-- A step leaves the server as it is or takes one action of it, which does not accept a held
descriptor and sends to one only as the way down of its connection. -/
inductive Serves (state : State) (action : Action) (after : Irc.Server) : Prop where
  | idle (same : after = state.server)
  | acts (made : Irc.ServerAction) (performed : after = state.server.perform made)
      (honest : made.Honest state.server)
      (accepts : ∀ fd peerAddress, made.accepts state.server = some (fd, peerAddress) →
        state.holds fd = false)
      (flushes : ∀ fd sent, made.flushes = some (fd, sent) →
        state.holds fd = false ∨ ∃ id count, action = .flush id count ∧ state.heldBy id = some fd)

theorem perform_serves {action : Action} (ready : state.enabled action = true)
    (honest : action.Honest state) : Serves state action (state.perform action).server := by
  cases action with
  | openSocket => exact .idle rfl
  | browser id now message =>
      apply Serves.idle
      simp only [perform]
      split
      · rfl
      · simp only [handleBrowser, deliverMessage]
        split
        · rfl
        · split
          · rfl
          · split
            · rfl
            · split
              · rfl
              · split
                · rfl
                · rfl
          · rfl
  | closeSocket id =>
      apply Serves.idle
      simp only [perform]
      split
      · rfl
      · rfl
  | establish id fd peerAddress =>
      simp only [enabled, Bool.and_eq_true, Bool.not_eq_true', bne_iff_ne, ne_eq] at ready
      simp only [perform]
      split
      · exact .idle rfl
      · split
        · exact .idle rfl
        · refine .acts (.accept fd peerAddress) rfl ⟨honest, ready.2⟩ ?_
            (by simp [Irc.ServerAction.flushes])
          intro other otherAddress same
          simp only [Irc.ServerAction.accepts, Option.some.injEq, Prod.mk.injEq] at same
          exact same.1 ▸ ready.1.2
  | fail id =>
      apply Serves.idle
      simp only [perform]
      split
      · rfl
      · rfl
  | arrive id =>
      apply Serves.idle
      simp only [perform]
      split
      · rfl
      · split
        · rfl
        · split
          · rfl
          · rfl
  | read id =>
      simp only [perform]
      split
      · exact .idle rfl
      · split
        next fd line rest held lines =>
          have acts {after : State} (same : after.server = readLine fd state.server line) :
              Serves state (.read id) after.server :=
            .acts (.poll
                { fd := fd, revents := { pollIn := true }, received := some (line.text ++ crlf) })
              same (by simp [Irc.ServerAction.Honest]) (by simp [Irc.ServerAction.accepts])
              (by simp [Irc.ServerAction.flushes])
          cases line.entry with
          | none => exact acts rfl
          | some entry => exact acts rfl
        · exact .idle rfl
  | flush id count =>
      simp only [perform]
      split
      · exact .idle rfl
      next irc found =>
        split
        next fd held =>
          refine .acts (.poll { fd := fd, revents := { pollOut := true }, sent := some count })
            rfl (by simp [Irc.ServerAction.Honest]) (by simp [Irc.ServerAction.accepts]) ?_
          intro other sent same
          simp only [Irc.ServerAction.flushes, if_true, Option.some.injEq, Prod.mk.injEq] at same
          exact Or.inr ⟨id, count, rfl, same.1 ▸ heldBy_of_peer found held⟩
        · exact .idle rfl
        · exact .idle rfl
  | hangUp id =>
      simp only [perform]
      split
      · exact .idle rfl
      · split
        next fd held =>
          exact .acts (.poll { fd := fd, revents := { pollHup := true } }) rfl
            (by simp [Irc.ServerAction.Honest]) (by simp [Irc.ServerAction.accepts])
            (by simp [Irc.ServerAction.flushes])
        · exact .idle rfl
        · exact .idle rfl
  | release id =>
      apply Serves.idle
      simp only [perform]
      split
      · rfl
      · rfl
  | sweep order =>
      exact .acts (.processPending order) rfl trivial (by simp [Irc.ServerAction.accepts])
        (by simp [Irc.ServerAction.flushes])
  | other action =>
      simp only [enabled, Bool.and_eq_true, Option.any_eq_true, Bool.not_eq_true', bne_iff_ne,
        ne_eq] at ready
      rcases ready.2 with ⟨foreign, same, free, notListening⟩
      refine .acts action rfl honest ?_ ?_
      · intro fd peerAddress accepts
        cases action with
        | accept other otherAddress =>
            simp only [foreignFd, Irc.ServerAction.accepts, Option.some.injEq,
              Prod.mk.injEq] at same accepts
            rw [← accepts.1, same]
            exact free
        | poll event =>
            simp only [foreignFd, Option.some.injEq] at same
            simp [Irc.ServerAction.accepts, same, notListening] at accepts
        | dispatch _ _ => simp [Irc.ServerAction.accepts] at accepts
        | processPending _ => simp [Irc.ServerAction.accepts] at accepts
        | disconnect _ _ => simp [Irc.ServerAction.accepts] at accepts
      · intro fd sent flushes
        cases action with
        | poll event =>
            simp only [foreignFd, Option.some.injEq] at same
            simp only [Irc.ServerAction.flushes, Option.ite_none_right_eq_some,
              Option.some.injEq, Prod.mk.injEq] at flushes
            rw [← flushes.2.1, same]
            exact Or.inl free
        | accept _ _ => simp [Irc.ServerAction.flushes] at flushes
        | dispatch _ _ => simp [Irc.ServerAction.flushes] at flushes
        | processPending _ => simp [Irc.ServerAction.flushes] at flushes
        | disconnect _ _ => simp [Irc.ServerAction.flushes] at flushes

/-- What a step of the whole does at the server, single steps of the server do. -/
theorem perform_leads {action : Action} (ready : state.enabled action = true)
    (honest : action.Honest state) :
    Irc.stepMachine.Leads state.server (state.perform action).server := by
  have serves := perform_serves ready honest
  generalize (state.perform action).server = after at serves
  cases serves with
  | idle same => exact same ▸ Machine.Leads.refl _
  | acts made performed honest _ _ => exact performed ▸ Irc.Server.perform_leads honest

/-- Only its own way down empties the send buffer of a connection. -/
theorem perform_spares (apart : state.Apart) {action : Action}
    (ready : state.enabled action = true) (honest : action.Honest state)
    (held : state.heldBy id = some fd) (other : ∀ count, action ≠ .flush id count) :
    Irc.stepMachine.LeadsBy (fun step => step.spares fd = true) state.server
      (state.perform action).server := by
  have serves := perform_serves ready honest
  have busy := holds_of_heldBy held
  generalize (state.perform action).server = after at serves
  cases serves with
  | idle same => exact same ▸ Machine.LeadsBy.refl _ _
  | acts made performed honest accepts flushes =>
      rw [performed]
      apply Irc.Server.perform_leadsBy
      · intro step inner
        exact Irc.ServerStep.spares_of_inner inner fd
      · exact honest
      · intro accepted peerAddress same
        have free := accepts accepted peerAddress same
        apply bne_iff_ne.mpr
        rintro rfl
        rw [busy] at free
        simp at free
      · intro flushed sent same
        apply bne_iff_ne.mpr
        rintro rfl
        rcases flushes flushed sent same with free | ⟨otherId, count, rfl, otherHeld⟩
        · rw [busy] at free
          simp at free
        · exact other count (by rw [apart id otherId flushed held otherHeld])

end State

end IrcPlatform.Gateway
