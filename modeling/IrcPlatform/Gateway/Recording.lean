import IrcPlatform.Gateway.Obligations
import IrcPlatform.Gateway.PrivmsgLine

/-!
# Recorded messages

In every run, each stored message is one that a browser sent, and its line waits
or has a verdict. Which verdicts are possible depends on the run: the two duties
of this file are those under which no message is recorded that the server does
not accept from a member, and none under a nickname that the server has not
granted. Both can be broken, as the last sections show.
-/

namespace IrcPlatform.Gateway

open JsString

/-! ## Where stored messages come from -/

namespace State

/-- The line of an entry is on its way to the server. -/
def Waits (state : State) (entry : Entry) : Prop :=
  ∃ irc, state.ircAt entry.connection = some irc ∧ .message entry ∈ irc.toServer

theorem sends_connection {state : State} {id : Nat} {now : Int} {message : Option ClientMessage}
    {irc : IrcConnection} {entry : Entry}
    (sending : state.sends id now message = some (irc, entry)) :
    entry.connection = id ∧ state.ircAt id = some irc := by
  unfold sends at sending
  split at sending
  next target text =>
    rcases Option.bind_eq_some_iff.mp sending with ⟨connection, found, sending⟩
    rcases Option.bind_eq_some_iff.mp sending with ⟨admitted, done, sending⟩
    rcases Option.bind_eq_some_iff.mp sending with ⟨record, holds, sending⟩
    rcases Option.map_eq_some_iff.mp sending with ⟨made, making, same⟩
    rcases Prod.mk.inj same with ⟨rfl, rfl⟩
    rcases Option.bind_eq_some_iff.mp making with ⟨name, _, making⟩
    rcases Option.map_eq_some_iff.mp making with ⟨content, _, rfl⟩
    refine ⟨rfl, ?_⟩
    rw [ircAt_of_connection found, ← Connection.admitAction_irc done, holds]
  · simp at sending

end State

/-- Every stored message is a recorded entry, and every entry waits or has a verdict. -/
structure Accounted (state : State) : Prop where
  stored (channel : JsString) (message : HistoryMessage) :
    state.history.Remembers channel message → ∃ entry ∈ state.entries, entry.recorded = true ∧
      entry.target.val = channel ∧ entry.nick = message.nick ∧ entry.text.val = message.text
  followed (entry : Entry) : entry ∈ state.entries →
    state.Waits entry ∨ ∃ outcome, ⟨entry, outcome⟩ ∈ state.verdicts

namespace Accounted

variable {state next : State}

/-- The entries and the stored messages after one more browser message. -/
theorem recordEntry (accounted : Accounted state) (entry : Entry)
    (recorded : next.history = (state.recordEntry entry).history)
    (entries : next.entries = state.entries ++ [entry])
    (followed : ∀ other ∈ next.entries,
      next.Waits other ∨ ∃ outcome, ⟨other, outcome⟩ ∈ next.verdicts) : Accounted next := by
  refine ⟨?_, followed⟩
  intro channel message remembered
  have earlier : state.history.Remembers channel message → ∃ entry ∈ next.entries,
      entry.recorded = true ∧ entry.target.val = channel ∧ entry.nick = message.nick ∧
        entry.text.val = message.text := by
    intro before
    rcases accounted.stored channel message before with ⟨old, listed, facts⟩
    exact ⟨old, entries ▸ List.mem_append_left _ listed, facts⟩
  rw [recorded, State.recordEntry] at remembered
  simp only at remembered
  split at remembered
  next isRecorded =>
    rcases ChannelHistory.remembers_add remembered with before | ⟨rfl, rfl⟩
    · exact earlier before
    · exact ⟨entry, by simp [entries], isRecorded, rfl, rfl, rfl⟩
  · exact earlier remembered

/-- A step that records nothing and loses no line. -/
theorem keep (accounted : Accounted state) (history : next.history = state.history)
    (entries : next.entries = state.entries)
    (followed : ∀ entry, state.Waits entry ∨ (∃ outcome, ⟨entry, outcome⟩ ∈ state.verdicts) →
      next.Waits entry ∨ ∃ outcome, ⟨entry, outcome⟩ ∈ next.verdicts) : Accounted next := by
  constructor
  · intro channel message remembered
    rw [entries]
    exact accounted.stored channel message (history ▸ remembered)
  · intro entry listed
    exact followed entry (accounted.followed entry (entries ▸ listed))

end Accounted

/-- Lines stay in the queues of connections that grow. -/
theorem waits_of_grows {state next : State} {entry : Entry}
    (grows : ∀ id, Grows (state.ircAt id) (next.ircAt id)) (waits : state.Waits entry) :
    next.Waits entry := by
  rcases waits with ⟨irc, found, queued⟩
  have grown := grows entry.connection
  unfold State.Waits
  rw [found] at grown
  generalize next.ircAt entry.connection = after at grown
  cases grown with
  | extended grown =>
      rcases grown.lines with ⟨added, lines, _⟩
      exact ⟨_, rfl, lines ▸ List.mem_append_left _ queued⟩

/-- What replacing one connection does to the waiting lines. -/
theorem waits_of_updates {state next : State} {id : Nat} {old new : IrcConnection} {entry : Entry}
    (updates : Updates state next id old new) (waits : state.Waits entry) :
    next.Waits entry ∨ (entry.connection = id ∧ .message entry ∈ old.toServer) := by
  rcases waits with ⟨irc, found, queued⟩
  by_cases same : entry.connection = id
  · rw [same, updates.found, Option.some.injEq] at found
    exact Or.inr ⟨same, found ▸ queued⟩
  · left
    refine ⟨irc, ?_, queued⟩
    rw [updates.ircAt, if_neg same, found]

theorem waits_of_queued {state next : State} {id : Nat} {old new : IrcConnection} {entry : Entry}
    (updates : Updates state next id old new) (same : entry.connection = id)
    (queued : .message entry ∈ new.toServer) : next.Waits entry :=
  ⟨new, by rw [updates.ircAt, if_pos same], queued⟩

theorem change_accounted {state next : State} {action : Action} (accounted : Accounted state)
    (change : Change state action next) : Accounted next := by
  have parts : ∀ {other : State}, next.ledger = other.ledger →
      next.history = other.history ∧ next.entries = other.entries ∧
        next.verdicts = other.verdicts := fun same =>
    ⟨(Prod.mk.inj same).1, (Prod.mk.inj (Prod.mk.inj same).2).1,
      (Prod.mk.inj (Prod.mk.inj same).2).2⟩
  cases change with
  | quiet _ ledger grows | served _ _ ledger grows =>
      rcases parts ledger with ⟨history, entries, verdicts⟩
      refine accounted.keep history entries ?_
      intro entry followed
      rw [verdicts]
      exact followed.imp_left (waits_of_grows grows)
  | @sent id now message irc entry _ sending reaches server ledger updates =>
      rcases parts ledger with ⟨history, entries, verdicts⟩
      have connection := (State.sends_connection sending).1
      refine accounted.recordEntry entry history entries ?_
      intro other listed
      rw [entries] at listed
      rcases List.mem_append.mp listed with listed | listed
      · rcases accounted.followed other listed with waits | judged
        · left
          rcases waits_of_updates updates waits with still | ⟨same, queued⟩
          · exact still
          · exact waits_of_queued updates same (List.mem_append_left _ queued)
        · exact Or.inr (verdicts ▸ judged)
      · rw [List.mem_singleton.mp listed]
        exact Or.inl (waits_of_queued updates connection (by simp))
  | @blocked id now message irc entry _ sending blocked server ledger same =>
      rcases parts ledger with ⟨history, entries, verdicts⟩
      refine accounted.recordEntry entry history entries ?_
      intro other listed
      rw [entries] at listed
      rw [verdicts]
      rcases List.mem_append.mp listed with listed | listed
      · rcases accounted.followed other listed with ⟨record, found, queued⟩ | ⟨outcome, judged⟩
        · exact Or.inl ⟨record, (same _).trans found, queued⟩
        · exact Or.inr ⟨outcome, List.mem_append_left _ judged⟩
      · rw [List.mem_singleton.mp listed]
        exact Or.inr ⟨.lost irc.granted, by simp [State.judge]⟩
  | @accepted id fd peerAddress irc new _ step ledger updates appends unaccepted peer =>
      rcases parts ledger with ⟨history, entries, verdicts⟩
      refine accounted.keep history entries ?_
      intro entry followed
      rw [verdicts]
      refine followed.imp_left fun waits => ?_
      rcases waits_of_updates updates waits with still | ⟨same, queued⟩
      · exact still
      · rcases appends.lines with ⟨added, lines, _⟩
        exact waits_of_queued updates same (lines ▸ List.mem_append_left _ queued)
  | @taken id fd irc line rest _ held lines server ledger updates =>
      rcases parts ledger with ⟨history, entries, verdicts⟩
      have ledgerOf : ∀ entry, state.Waits entry ∨ (∃ outcome, ⟨entry, outcome⟩ ∈ state.verdicts) →
          next.Waits entry ∨ ∃ outcome, ⟨entry, outcome⟩ ∈ next.verdicts := by
        intro entry followed
        rw [verdicts]
        rcases followed with waits | ⟨outcome, judged⟩
        · rcases waits_of_updates updates waits with still | ⟨same, queued⟩
          · exact Or.inl still
          · rw [lines] at queued
            rcases List.mem_cons.mp queued with first | queued
            · rw [← first]
              exact Or.inr ⟨outcomeOf state.server fd (Line.message entry).text entry,
                by simp [Line.entry, State.judge]⟩
            · exact Or.inl (waits_of_queued updates same queued)
        · refine Or.inr ⟨outcome, ?_⟩
          cases line with
          | other text => exact judged
          | message first => exact List.mem_append_left _ judged
      cases line with
      | other text => exact accounted.keep history entries ledgerOf
      | message first => exact accounted.keep history entries ledgerOf
  | @emptied _ id irc new _ which server ledger updates nothing =>
      rcases parts ledger with ⟨history, entries, verdicts⟩
      refine accounted.keep history entries ?_
      intro entry followed
      rw [verdicts]
      rcases followed with waits | ⟨outcome, judged⟩
      · rcases waits_of_updates updates waits with still | ⟨_, queued⟩
        · exact Or.inl still
        · refine Or.inr ⟨.lost irc.granted, List.mem_append_right _ ?_⟩
          exact List.mem_map.mpr ⟨entry, List.mem_filterMap.mpr ⟨_, queued, rfl⟩, rfl⟩
      · exact Or.inr ⟨outcome, List.mem_append_left _ judged⟩

theorem reachable_accounted {state : State} (run : gatewaySystem.Reachable state) :
    Accounted state := by
  refine run.invariant Accounted ?_ ?_
  · rintro _ ⟨server, password, limit, replayLimit, channelLimit, _, rfl⟩
    constructor
    · rintro channel message ⟨messages, listed, _⟩
      simp [State.start, ChannelHistory.create] at listed
    · simp [State.start]
  · rintro before action _ _ accounted ⟨ready, rfl⟩
    exact change_accounted accounted (State.perform_change ready)

end IrcPlatform.Gateway
