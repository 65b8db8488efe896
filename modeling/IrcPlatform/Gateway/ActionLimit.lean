import IrcPlatform.Gateway.Steps
import IrcPlatform.Library.Window

/-!
# The action limit

The messages of one WebSocket, in the order of their arrival. The list of recent actions
is the window of an instance of the sliding window: twelve actions in five seconds.
-/

namespace IrcPlatform.Gateway

def actionLimiter : Limiter Int where
  width := 5000
  capacity := 12

namespace Connection

/-- A connection and the times of the messages that it has admitted. -/
structure Admissions where
  connection : Connection
  times : List Int := []

def receive (admissions : Admissions) (now : Int) : Admissions where
  connection := admissions.connection.slideWindow now
  times := if (admissions.connection.admitAction now).isSome then admissions.times ++ [now]
    else admissions.times

/-- The messages that arrive at a list of times. -/
def receiveAll (connection : Connection) (arrivals : List Int) : Admissions :=
  arrivals.foldl receive { connection := connection }

theorem admitAction_isSome (connection : Connection) (now : Int) :
    (connection.admitAction now).isSome = actionLimiter.admits connection.recentActions now := by
  simp only [admitAction, Limiter.admits, Limiter.expire, actionLimiter]
  split
  next full => exact (decide_eq_false (Nat.not_lt.mpr full)).symm
  next room => exact (decide_eq_true (Nat.not_le.mp room)).symm

theorem recentActions_slideWindow (connection : Connection) (now : Int) :
    (connection.slideWindow now).recentActions =
      actionLimiter.next connection.recentActions now := by
  have admitted := admitAction_isSome connection now
  simp only [slideWindow, Limiter.next, ← admitted]
  cases result : connection.admitAction now with
  | none => rfl
  | some after =>
      simp only [admitAction] at result
      split at result
      · cases result
      · rcases Option.some.inj result with rfl
        rfl

theorem receiveAll_concat (connection : Connection) (arrivals : List Int) (now : Int) :
    receiveAll connection (arrivals ++ [now]) = receive (receiveAll connection arrivals) now := by
  rw [receiveAll, receiveAll, List.foldl_append, List.foldl_cons, List.foldl_nil]

theorem recentActions_receiveAll (connection : Connection) (arrivals : List Int) :
    (receiveAll connection arrivals).connection.recentActions =
      arrivals.foldl actionLimiter.next connection.recentActions := by
  induction arrivals using List.reverseRecOn with
  | nil => rfl
  | append_singleton arrivals now ih =>
      rw [receiveAll_concat, receive, recentActions_slideWindow, ih, List.foldl_append,
        List.foldl_cons, List.foldl_nil]

/-- The recent actions are the window that the limiter remembers. -/
theorem receiveAll_eq {connection : Connection} (fresh : connection.recentActions = [])
    (arrivals : List Int) :
    actionLimiter.observeAll arrivals =
      { recent := (receiveAll connection arrivals).connection.recentActions
        admitted := (receiveAll connection arrivals).times } := by
  induction arrivals using List.reverseRecOn with
  | nil => rw [Limiter.observeAll, receiveAll, List.foldl_nil, List.foldl_nil, fresh]
  | append_singleton arrivals now ih =>
      rw [Limiter.observeAll_concat, ih, receiveAll_concat]
      simp only [Limiter.observe, receive, recentActions_slideWindow, admitAction_isSome]

/-- The times in a closed interval of five seconds. -/
abbrev fiveSeconds (first : Int) (times : List Int) : List Int :=
  Limiter.within first (first + 5000) times

/-- The action limit on a sequence of messages. -/
structure LimitsActions (connection : Connection) (arrivals : List Int) : Prop where
  /-- A message is refused exactly if twelve were admitted in the five seconds before it. -/
  refused (earlier later : List Int) (now : Int) : arrivals = earlier ++ now :: later →
    ((receiveAll connection earlier).connection.admitAction now = none ↔
      (fiveSeconds (now - 5000) (receiveAll connection earlier).times).length = 12)
  interval (first : Int) :
    (fiveSeconds first (receiveAll connection arrivals).times).length ≤ 12
  /-- A refused message does not count against later ones. -/
  forgotten (earlier later : List Int) (now : Int) : arrivals = earlier ++ now :: later →
    (receiveAll connection earlier).connection.admitAction now = none →
      (receiveAll connection arrivals).times = (receiveAll connection (earlier ++ later)).times
  recent (earlier later : List Int) : arrivals = earlier ++ later →
    (receiveAll connection earlier).connection.recentActions.length ≤ 12

theorem limitsActions {connection : Connection} (fresh : connection.recentActions = [])
    {arrivals : List Int} (ordered : arrivals.Pairwise (· ≤ ·)) :
    connection.LimitsActions arrivals := by
  have wide : (0 : Int) ≤ actionLimiter.width := by decide
  have refuses (earlier : List Int) (now : Int) :
      (receiveAll connection earlier).connection.admitAction now = none ↔
        actionLimiter.admits (actionLimiter.observeAll earlier).recent now = false := by
    rw [receiveAll_eq fresh, ← admitAction_isSome, Option.isSome_eq_false_iff,
      Option.isNone_iff_eq_none]
  have times (arrivals : List Int) : (receiveAll connection arrivals).times =
      (actionLimiter.observeAll arrivals).admitted := by
    rw [receiveAll_eq fresh]
  constructor
  case refused =>
    rintro earlier later now rfl
    have before : (earlier ++ [now]).Pairwise (· ≤ ·) :=
      ordered.sublist ((List.singleton_sublist.mpr List.mem_cons_self).append_left earlier)
    rw [refuses, times, Limiter.admits_eq_false_iff wide before, fiveSeconds, Int.sub_add_cancel]
    rfl
  case interval =>
    intro first
    rw [times]
    rcases Limiter.sliding_of_ordered wide ordered with ⟨_, sliding⟩
    exact sliding.interval first
  case forgotten =>
    rintro earlier later now rfl refused
    rw [times, times]
    exact Limiter.admitted_of_refused ((refuses earlier now).mp refused)
      (List.pairwise_append.mp ordered).2.1
  case recent =>
    rintro earlier later rfl
    rcases Limiter.sliding_of_ordered wide (List.pairwise_append.mp ordered).1 with ⟨_, sliding⟩
    rw [receiveAll_eq fresh] at sliding
    exact sliding.bounded

/-- Thirteen messages at once, and one when the window has closed. -/
def burst : List Int := List.replicate 13 1000 ++ [6000, 6001]

theorem limitsActions_burst :
    (receiveAll {} burst).times = List.replicate 12 1000 ++ [6001] ∧ LimitsActions {} burst :=
  ⟨by decide, limitsActions rfl (by decide)⟩

theorem recentActions_act {connection after : Connection} {message : ClientMessage}
    (done : connection.act message = some after) :
    after.recentActions = connection.recentActions := by
  cases message with
  | connect nickname channel username =>
      simp only [act, connect] at done
      split at done
      · split at done
        · rcases Option.map_eq_some_iff.mp done with ⟨joined, _, rfl⟩
          rfl
        · cases done
      · cases done
  | message target text => cases done
  | join channel =>
      rcases Option.bind_eq_some_iff.mp done with ⟨irc, _, made⟩
      rcases Option.map_eq_some_iff.mp made with ⟨name, _, rfl⟩
      rfl
  | part channel =>
      rcases Option.bind_eq_some_iff.mp done with ⟨irc, _, made⟩
      rcases Option.map_eq_some_iff.mp made with ⟨name, _, rfl⟩
      rfl
  | nick nickname =>
      rcases Option.bind_eq_some_iff.mp done with ⟨irc, _, made⟩
      rcases Option.map_eq_some_iff.mp made with ⟨renamed, _, rfl⟩
      rfl
  | unsupported => cases done

theorem recentActions_handleLine (connection : Connection) (irc : IrcConnection) (line : Bytes) :
    (connection.handleLine irc line).recentActions = connection.recentActions := by
  unfold handleLine
  split
  · rfl
  · simp only
    split
    · split
      · rfl
      · rfl
    · rfl

end Connection

/-! ## Runs of the gateway -/

/-- The time at which an action brings a message to a connection. -/
def Action.arrivalAt (id : Nat) : Action → Option Int
  | .browser receiver now _ => if receiver = id then some now else none
  | _ => none

namespace State

variable {state : State} {id : Nat}

def recentActions (state : State) (id : Nat) : Option (List Int) :=
  (state.connections[id]?).map (·.recentActions)

theorem recentActions_setConnection {old new : Connection}
    (found : state.connections[id]? = some old) (other : Nat) :
    (state.setConnection id new).recentActions other =
      if other = id then some new.recentActions else state.recentActions other := by
  rcases List.getElem?_eq_some_iff.mp found with ⟨bound, _⟩
  simp only [recentActions, setConnection, List.getElem?_set]
  by_cases same : id = other
  · subst same
    simp [bound]
  · simp [same, Ne.symm same]

theorem recentActions_setIrc (state : State) (id : Nat) (irc : IrcConnection) (other : Nat) :
    (state.setIrc id irc).recentActions other = state.recentActions other := by
  simp only [recentActions, setIrc, List.getElem?_modify]
  split
  · cases state.connections[other]? <;> rfl
  · simp

/-- A message slides the window of its connection, whatever becomes of it. -/
theorem recentActions_handleBrowser {connection : Connection}
    (found : state.connections[id]? = some connection) (now : Int)
    (message : Option ClientMessage) (other : Nat) :
    (state.handleBrowser id connection now message).recentActions other =
      if other = id then some (connection.slideWindow now).recentActions
      else state.recentActions other := by
  unfold handleBrowser
  split
  · rw [recentActions_setConnection found]
  next admitted admits =>
    have slid : connection.slideWindow now = admitted := by rw [Connection.slideWindow, admits]
    rw [slid]
    have acted (after : Connection) (same : after.recentActions = admitted.recentActions) :
        (state.setConnection id after).recentActions other =
          if other = id then some admitted.recentActions else state.recentActions other := by
      rw [recentActions_setConnection found, same]
    split
    · exact acted admitted rfl
    · split
      · exact acted admitted rfl
      next irc _ =>
        split
        · exact acted admitted rfl
        next entry _ =>
          have stored := acted { admitted with irc := some (irc.privmsg entry) } rfl
          unfold deliverMessage
          simp only
          split
          · exact stored
          · exact stored
    next action _ =>
      refine acted _ ?_
      cases done : admitted.act action with
      | none => rfl
      | some after => exact Connection.recentActions_act done

/-- Nothing but its own messages touches the recent actions of a connection. -/
theorem recentActions_perform {recent : List Int} (held : state.recentActions id = some recent)
    (action : Action) :
    (state.perform action).recentActions id =
      some ((action.arrivalAt id).elim recent (actionLimiter.next recent)) := by
  have replaced {other : Nat} {old new : Connection} (found : state.connections[other]? = some old)
      (same : new.recentActions = old.recentActions) :
      (state.setConnection other new).recentActions id = some recent := by
    rw [recentActions_setConnection found, ← held, same]
    split
    next own =>
      subst own
      rw [recentActions, found, Option.map_some]
    · rfl
  have linked (server : Irc.Server) (verdicts : List Verdict) (other : Nat) (irc : IrcConnection) :
      ({ state with server := server, verdicts := verdicts }.setIrc other irc).recentActions id =
        some recent := by
    rw [recentActions_setIrc]
    exact held
  cases action with
  | openSocket =>
      simp only [perform, recentActions, Action.arrivalAt, Option.elim_none] at held ⊢
      rcases Option.map_eq_some_iff.mp held with ⟨connection, found, rfl⟩
      rcases List.getElem?_eq_some_iff.mp found with ⟨bound, _⟩
      rw [List.getElem?_append_left bound, found, Option.map_some]
  | browser receiver now message =>
      simp only [perform, Action.arrivalAt]
      split
      next absent =>
        have other : receiver ≠ id := by
          rintro rfl
          rw [recentActions, absent] at held
          cases held
        rw [if_neg other]
        exact held
      next connection found =>
        rw [recentActions_handleBrowser found, Connection.recentActions_slideWindow]
        by_cases own : receiver = id
        · subst own
          rw [recentActions, found, Option.map_some, Option.some.injEq] at held
          rw [if_pos rfl, if_pos rfl, held, Option.elim_some]
        · rw [if_neg (Ne.symm own), if_neg own]
          exact held
  | closeSocket other =>
      simp only [perform]
      split
      · exact held
      next connection found => exact replaced found rfl
  | establish other fd peerAddress =>
      simp only [perform]
      split
      · exact held
      · split
        · exact held
        · exact linked _ state.verdicts other _
  | fail other =>
      simp only [perform]
      split
      · exact held
      · exact linked state.server _ other _
  | arrive other =>
      simp only [perform]
      split
      · exact held
      next connection found =>
        split
        · exact held
        · split
          · exact held
          · exact replaced found (Connection.recentActions_handleLine _ _ _)
  | read other =>
      simp only [perform]
      split
      · exact held
      · split
        · split
          · exact linked _ state.verdicts other _
          · exact linked _ state.verdicts other _
        · exact held
  | flush other count =>
      simp only [perform]
      split
      · exact held
      · split
        · exact linked _ state.verdicts other _
        · exact held
        · exact held
  | hangUp other =>
      simp only [perform]
      split
      · exact held
      · split
        · exact held
        · exact held
        · exact held
  | release other =>
      simp only [perform]
      split
      · exact held
      · exact linked state.server _ other _
  | sweep order => exact held
  | other action => exact held

theorem recentActions_of_performAll {recent : List Int} {actions : List Action} {after : State}
    (held : state.recentActions id = some recent)
    (performed : gatewayMachine.performAll actions state = some after) :
    after.recentActions id =
      some ((actions.filterMap (Action.arrivalAt id)).foldl actionLimiter.next recent) := by
  induction actions generalizing state recent with
  | nil =>
      rcases Option.some.inj performed with rfl
      exact held
  | cons action actions ih =>
      rw [Machine.performAll] at performed
      split at performed
      · have step := ih (recentActions_perform held action) performed
        rw [step, List.filterMap_cons]
        cases action.arrivalAt id with
        | none => rfl
        | some now => rfl
      · cases performed

/-- In a run of the gateway, a connection goes through the messages that reach it. -/
theorem recentActions_run {connection : Connection} {actions : List Action} {after : State}
    (found : state.connections[id]? = some connection)
    (performed : gatewayMachine.performAll actions state = some after) :
    after.recentActions id = some (Connection.receiveAll connection
      (actions.filterMap (Action.arrivalAt id))).connection.recentActions := by
  rw [Connection.recentActions_receiveAll]
  apply recentActions_of_performAll _ performed
  rw [recentActions, found, Option.map_some]

end State

end IrcPlatform.Gateway
