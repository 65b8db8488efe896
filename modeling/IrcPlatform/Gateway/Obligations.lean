import IrcPlatform.Library.Pipeline
import IrcPlatform.Gateway.Steps

/-!
# What a browser message owes

The gateway decides on a browser message when it sends the line, the server when
it reads it. A duty says what the server must be like when it reads the line, and
when the line may be lost. It is kept along a run when every line is sent in a
state from which it will be met, and when no step about something else spoils a
line that still waits.
-/

namespace IrcPlatform.Gateway

open JsString Pipeline

structure Duty where
  met : Irc.Server → Int → Entry → Bool
  /-- With the nickname that the server last had for the connection. -/
  spared : Bytes → Entry → Bool

variable (duty : Duty)

/-- What a waiting line demands of the state in which the server reads it. -/
def demand (fd : Int) (server : Irc.Server) (line : Line) : Prop :=
  ∀ entry ∈ line.entry, duty.met server fd entry = true

instance (fd : Int) (server : Irc.Server) (line : Line) : Decidable (demand duty fd server line) :=
  inferInstanceAs (Decidable (∀ entry ∈ line.entry, _))

/-- The lines on a connection that the server holds will all be met, in order. -/
def AssuredLink (irc : IrcConnection) (server : Irc.Server) : Prop :=
  ∀ fd ∈ irc.peer.fd, Assured (readLine fd) (demand duty fd) irc.toServer server

instance (irc : IrcConnection) (server : Irc.Server) : Decidable (AssuredLink duty irc server) :=
  inferInstanceAs (Decidable (∀ fd ∈ irc.peer.fd, _))

/-- A message sent on this connection now will be met after the lines before it. -/
def SendOk (server : Irc.Server) (irc : IrcConnection) (entry : Entry) : Prop :=
  if irc.reaches then
    ∀ fd ∈ irc.peer.fd, duty.met (feed (readLine fd) server irc.toServer) fd entry = true
  else duty.spared irc.granted entry = true

instance (server : Irc.Server) (irc : IrcConnection) (entry : Entry) :
    Decidable (SendOk duty server irc entry) :=
  inferInstanceAs (Decidable (if irc.reaches then ∀ fd ∈ irc.peer.fd, _ else _ = true))

/-- A step does not spoil the waiting lines of the connections it is not about. -/
def Undisturbed (state : State) (action : Action) : Prop :=
  ∀ id < state.connections.length, action.about ≠ some id → ∀ irc ∈ state.ircAt id,
    AssuredLink duty irc state.server → AssuredLink duty irc (state.perform action).server

instance (state : State) (action : Action) : Decidable (Undisturbed duty state action) :=
  inferInstanceAs (Decidable (∀ id < state.connections.length, _))

/-- What a step itself owes. -/
def Fulfils (state : State) : Action → Prop
  | .browser id now message =>
      ∀ sent ∈ state.sends id now message, SendOk duty state.server sent.1 sent.2
  | .establish id fd peerAddress =>
      ∀ irc ∈ state.ircAt id, Assured (readLine fd) (demand duty fd) irc.toServer
        (state.server.acceptClient (some (fd, peerAddress)))
  | .fail id | .release id =>
      ∀ irc ∈ state.ircAt id, ∀ line ∈ irc.toServer, ∀ entry ∈ line.entry,
        duty.spared irc.granted entry = true
  | .openSocket | .closeSocket _ | .arrive _ | .read _ | .flush _ _ | .hangUp _ | .sweep _
  | .other _ => True

instance (state : State) : (action : Action) → Decidable (Fulfils duty state action)
  | .browser id now message => inferInstanceAs (Decidable (∀ sent ∈ state.sends id now message, _))
  | .establish id _ _ => inferInstanceAs (Decidable (∀ irc ∈ state.ircAt id, _))
  | .fail id | .release id => inferInstanceAs (Decidable (∀ irc ∈ state.ircAt id, _))
  | .openSocket | .closeSocket _ | .arrive _ | .read _ | .flush _ _ | .hangUp _ | .sweep _
  | .other _ => inferInstanceAs (Decidable True)

/-- The condition on one step. -/
def KeepsDuty (state : State) (action : Action) : Prop :=
  Undisturbed duty state action ∧ Fulfils duty state action

instance (state : State) (action : Action) : Decidable (KeepsDuty duty state action) :=
  inferInstanceAs (Decidable (_ ∧ _))

/-- A message whose line is taken as the duty asks gets a good verdict. -/
structure Duty.Sound (judged : Entry → Outcome → Prop) : Prop where
  read {server : Irc.Server} {fd : Int} {entry : Entry}
    (reached : Irc.serverSystem.Reachable server) (met : duty.met server fd entry = true) :
    judged entry (outcomeOf server fd (Line.message entry).text entry)
  lost {nickname : Bytes} {entry : Entry} (spared : duty.spared nickname entry = true) :
    judged entry (.lost nickname)

/-- All verdicts so far are good, and so will be those of the waiting lines. -/
structure Settled (judged : Entry → Outcome → Prop) (state : State) : Prop where
  verdicts (verdict : Verdict) : verdict ∈ state.verdicts → judged verdict.entry verdict.outcome
  waiting (id : Nat) (irc : IrcConnection) : state.ircAt id = some irc →
    AssuredLink duty irc state.server

variable {duty} {judged : Entry → Outcome → Prop} {state next : State} {action : Action}

theorem AssuredLink.appends {before after : IrcConnection} {server : Irc.Server} {fd : Int}
    (assured : Assured (readLine fd) (demand duty fd) before.toServer server)
    (grown : Appends before after) :
    Assured (readLine fd) (demand duty fd) after.toServer server := by
  rcases grown.lines with ⟨added, lines, plain⟩
  rw [lines, assured_append]
  refine ⟨assured, assured_of_forall ?_⟩
  intro line listed later entry carried
  rw [plain line listed] at carried
  simp at carried

theorem AssuredLink.grows {before : Option IrcConnection} {after : IrcConnection}
    {server : Irc.Server} (grown : Grows before (some after))
    (assured : ∀ irc ∈ before, AssuredLink duty irc server) : AssuredLink duty after server := by
  intro fd held
  cases grown with
  | created unaccepted nothing => simp [Peer.fd, unaccepted] at held
  | extended grown =>
      exact AssuredLink.appends (assured _ rfl fd (grown.peer ▸ held)) grown.toAppends

theorem lt_of_ircAt {id : Nat} {irc : IrcConnection} (found : state.ircAt id = some irc) :
    id < state.connections.length := by
  rcases State.connection_of_ircAt found with ⟨connection, stored, _⟩
  exact (List.getElem?_eq_some_iff.mp stored).1

/-- The verdicts after a step, from those before it and the new ones. -/
theorem verdicts_of_ledger {after : State} (same : next.ledger = after.ledger)
    (good : ∀ verdict ∈ after.verdicts, judged verdict.entry verdict.outcome) :
    ∀ verdict ∈ next.verdicts, judged verdict.entry verdict.outcome := by
  have verdicts : next.verdicts = after.verdicts := (Prod.mk.inj (Prod.mk.inj same).2).2
  rw [verdicts]
  exact good

theorem judge_good {entry : Entry} {outcome : Outcome}
    (earlier : ∀ verdict ∈ state.verdicts, judged verdict.entry verdict.outcome)
    (good : judged entry outcome) :
    ∀ verdict ∈ (state.judge entry outcome).verdicts, judged verdict.entry verdict.outcome := by
  intro verdict listed
  rcases List.mem_append.mp listed with listed | listed
  · exact earlier verdict listed
  · rw [List.mem_singleton.mp listed]
    exact good

/-- A step that keeps the duty leads from a settled state to a settled state. -/
theorem perform_settled (sound : duty.Sound judged)
    (reached : Irc.serverSystem.Reachable state.server) (settled : Settled duty judged state)
    (ready : state.enabled action = true) (keeps : KeepsDuty duty state action) :
    Settled duty judged (state.perform action) := by
  have change := State.perform_change ready
  rcases keeps with ⟨undisturbed, fulfils⟩
  have others : ∀ id irc, action.about ≠ some id → state.ircAt id = some irc →
      AssuredLink duty irc (state.perform action).server := fun id irc different found =>
    undisturbed id (lt_of_ircAt found) different irc found (settled.waiting id irc found)
  generalize state.perform action = after at change others
  cases change with
  | quiet server ledger grows =>
      refine ⟨verdicts_of_ledger ledger settled.verdicts, ?_⟩
      intro id irc found
      rw [server]
      exact AssuredLink.grows (found ▸ grows id) (settled.waiting id)
  | served about step ledger grows =>
      refine ⟨verdicts_of_ledger ledger settled.verdicts, ?_⟩
      intro id irc found
      exact AssuredLink.grows (found ▸ grows id) fun old => others id old (by simp [about])
  | @sent id now message irc entry _ sending reaches server ledger updates =>
      refine ⟨verdicts_of_ledger ledger settled.verdicts, ?_⟩
      have good := fulfils (irc, entry) sending
      rw [SendOk, if_pos reaches] at good
      intro other record found
      rw [server]
      rw [updates.ircAt] at found
      split at found
      · rw [Option.some.injEq] at found
        subst found
        intro fd held
        refine assured_concat.mpr ⟨settled.waiting id irc updates.found fd held, ?_⟩
        intro carried same
        rw [← Option.some.inj same]
        exact good fd held
      · exact settled.waiting other record found
  | blocked sending blocked server ledger same =>
      have good := fulfils (_, _) sending
      simp only [SendOk, blocked, Bool.false_eq_true, if_false] at good
      refine ⟨verdicts_of_ledger ledger (judge_good settled.verdicts (sound.lost good)), ?_⟩
      intro other record found
      rw [server]
      exact settled.waiting other record (same other ▸ found)
  | @accepted id fd peerAddress irc new _ step ledger updates appends unaccepted peer =>
      refine ⟨verdicts_of_ledger ledger settled.verdicts, ?_⟩
      intro other record found
      rw [updates.ircAt] at found
      split at found
      · rw [Option.some.injEq] at found
        subst found
        intro held same
        simp only [peer, Peer.fd, Option.mem_def, Option.some.injEq] at same
        subst same
        have here := AssuredLink.appends (fulfils irc updates.found) appends
        rw [step.2]
        exact here
      next different =>
        exact others other record (by simpa [Action.about] using Ne.symm different) found
  | @taken id fd irc line rest _ held lines server ledger updates =>
      have here := settled.waiting id irc updates.found fd (by simp [held, Peer.fd])
      rw [lines] at here
      constructor
      · refine verdicts_of_ledger ledger ?_
        cases line with
        | other text => exact settled.verdicts
        | message entry =>
            exact judge_good settled.verdicts (sound.read reached (here.head entry rfl))
      · intro other record found
        rw [updates.ircAt] at found
        split at found
        · rw [Option.some.injEq] at found
          subst found
          intro other same
          simp only [held, Peer.fd, Option.mem_def, Option.some.injEq] at same
          subst same
          rw [server]
          exact here.tail
        next different =>
          exact others other record (by simpa [Action.about] using Ne.symm different) found
  | @emptied _ id irc new _ which server ledger updates nothing =>
      constructor
      · refine verdicts_of_ledger ledger ?_
        intro verdict listed
        rcases List.mem_append.mp listed with listed | listed
        · exact settled.verdicts verdict listed
        · rcases List.mem_map.mp listed with ⟨entry, waiting, rfl⟩
          rcases List.mem_filterMap.mp waiting with ⟨line, queued, carried⟩
          refine sound.lost ?_
          rcases which with rfl | rfl
          · exact fulfils irc updates.found line queued entry carried
          · exact fulfils irc updates.found line queued entry carried
      · intro other record found
        rw [updates.ircAt] at found
        split at found
        · rw [Option.some.injEq] at found
          subst found
          intro fd _
          rw [nothing]
          trivial
        · rw [server]
          exact settled.waiting other record found

/-- The server behind the gateway is always in a state it can reach. -/
theorem reachable_server (run : gatewaySystem.Reachable state) :
    Irc.serverSystem.Reachable state.server := by
  refine run.invariant (fun state => Irc.serverSystem.Reachable state.server) ?_ ?_
  · rintro _ ⟨server, password, limit, replayLimit, channelLimit, reached, rfl⟩
    exact reached
  · rintro before action after _ reached ⟨ready, performed⟩
    have change : Change before action after := performed ▸ State.perform_change ready
    cases change with
    | quiet server | sent _ _ server | blocked _ _ server | emptied _ server =>
        exact server ▸ reached
    | served _ step =>
        rcases step with ⟨serverAction, step⟩
        exact reached.next step
    | accepted step => exact reached.next step
    | taken _ _ server =>
        rcases State.handleEvent_step before.server _ with ⟨serverAction, step⟩
        exact server ▸ reached.next step

/-- Along a run all of whose steps keep the duty, every verdict is good. -/
theorem reaches_settled (sound : duty.Sound judged)
    (run : gatewaySystem.Reaches (KeepsDuty duty) state) : Settled duty judged state := by
  refine run.invariant (Settled duty judged) ?_ ?_
  · rintro _ ⟨server, password, limit, replayLimit, channelLimit, _, rfl⟩
    constructor
    · simp [State.start]
    · simp [State.start, State.ircAt]
  · rintro before action _ reached settled keeps ⟨ready, rfl⟩
    exact perform_settled sound (reachable_server reached) settled ready keeps

end IrcPlatform.Gateway
