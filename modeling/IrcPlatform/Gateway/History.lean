import IrcPlatform.Gateway.JsString

/-!
# Channel history

The messages the gateway remembers per channel. A `Map` is the list of its
entries in insertion order. Timestamps are left out.
-/

namespace IrcPlatform.Gateway

structure HistoryMessage where
  nick : JsString
  text : JsString
deriving DecidableEq

structure ChannelHistory where
  limit : Nat
  replayLimit : Nat
  channelLimit : Nat
  channels : List (JsString × List HistoryMessage) := []

namespace ChannelHistory

/-- The constructor, with the bounds it forces on its options. -/
def create (limit replayLimit channelLimit : Nat) : ChannelHistory where
  limit := max 1 limit
  replayLimit := min (max 1 limit) (max 1 replayLimit)
  channelLimit := max 1 channelLimit

def get (history : ChannelHistory) (channel : JsString) : List HistoryMessage :=
  (history.channels.lookup channel).getD []

def has (history : ChannelHistory) (channel : JsString) : Bool :=
  (history.channels.lookup channel).isSome

/-- `Map.prototype.set`: an existing key keeps its place. -/
def setEntry (channel : JsString) (messages : List HistoryMessage) :
    List (JsString × List HistoryMessage) → List (JsString × List HistoryMessage)
  | [] => [(channel, messages)]
  | (key, old) :: rest =>
      if key = channel then (channel, messages) :: rest
      else (key, old) :: setEntry channel messages rest

def add (history : ChannelHistory) (channel : JsString) (message : HistoryMessage) :
    ChannelHistory :=
  if channel.isEmpty then history
  else
    let kept :=
      if !history.has channel && history.channelLimit ≤ history.channels.length then
        { history with channels := history.channels.tail }
      else history
    let messages := kept.get channel ++ [message]
    { kept with
      channels := setEntry channel (messages.drop (messages.length - kept.limit)) kept.channels }

def recent (history : ChannelHistory) (channel : JsString) : List HistoryMessage :=
  (history.get channel).drop ((history.get channel).length - history.replayLimit)

/-! ## Where messages come from -/

/-- A message is stored under a channel. -/
def Remembers (history : ChannelHistory) (channel : JsString) (message : HistoryMessage) : Prop :=
  ∃ messages, (channel, messages) ∈ history.channels ∧ message ∈ messages

theorem mem_of_lookup {entries : List (JsString × List HistoryMessage)} {channel : JsString}
    {messages : List HistoryMessage} (found : entries.lookup channel = some messages) :
    (channel, messages) ∈ entries := by
  induction entries with
  | nil => simp at found
  | cons entry rest ih =>
      rcases entry with ⟨key, stored⟩
      by_cases same : channel = key
      · subst same
        simp only [List.lookup_cons_self, Option.some.injEq] at found
        simp [found]
      · rw [List.lookup_cons, beq_eq_false_iff_ne.mpr same] at found
        exact List.mem_cons_of_mem _ (ih found)

theorem remembers_of_mem_get {history : ChannelHistory} {channel : JsString}
    {message : HistoryMessage} (listed : message ∈ history.get channel) :
    history.Remembers channel message := by
  unfold get at listed
  cases found : history.channels.lookup channel with
  | none => simp [found] at listed
  | some messages =>
      rw [found, Option.getD_some] at listed
      exact ⟨messages, mem_of_lookup found, listed⟩

theorem mem_setEntry {channel other : JsString} {messages stored : List HistoryMessage}
    {entries : List (JsString × List HistoryMessage)}
    (listed : (other, stored) ∈ setEntry channel messages entries) :
    (other, stored) ∈ entries ∨ (other = channel ∧ stored = messages) := by
  induction entries with
  | nil =>
      rw [setEntry, List.mem_singleton, Prod.mk.injEq] at listed
      exact Or.inr listed
  | cons entry rest ih =>
      rcases entry with ⟨key, old⟩
      rw [setEntry] at listed
      split at listed
      · rcases List.mem_cons.mp listed with same | listed
        · exact Or.inr (Prod.mk.inj same)
        · exact Or.inl (List.mem_cons_of_mem _ listed)
      · rcases List.mem_cons.mp listed with same | listed
        · exact Or.inl (same ▸ List.mem_cons_self)
        · exact (ih listed).imp_left (List.mem_cons_of_mem _)

/-- Every message after an addition was there before or is the added one. -/
theorem remembers_add {history : ChannelHistory} {channel other : JsString}
    {message remembered : HistoryMessage}
    (stored : (history.add channel message).Remembers other remembered) :
    history.Remembers other remembered ∨ (other = channel ∧ remembered = message) := by
  unfold add at stored
  split at stored
  · exact Or.inl stored
  · simp only at stored
    generalize keeping : (if !history.has channel && history.channelLimit ≤ history.channels.length
      then { history with channels := history.channels.tail } else history) = kept at stored
    have earlier : ∀ name entry, kept.Remembers name entry → history.Remembers name entry := by
      rintro name entry ⟨messages, listed, member⟩
      rw [← keeping] at listed
      split at listed
      · exact ⟨messages, List.mem_of_mem_tail listed, member⟩
      · exact ⟨messages, listed, member⟩
    rcases stored with ⟨messages, listed, member⟩
    rcases mem_setEntry listed with listed | ⟨rfl, rfl⟩
    · exact Or.inl (earlier other remembered ⟨messages, listed, member⟩)
    · rcases List.mem_append.mp (List.mem_of_mem_drop member) with member | member
      · exact Or.inl (earlier other remembered (remembers_of_mem_get member))
      · exact Or.inr ⟨rfl, List.mem_singleton.mp member⟩

/-- What is replayed to a browser that joins was stored under that channel. -/
theorem remembers_of_mem_recent {history : ChannelHistory} {channel : JsString}
    {message : HistoryMessage} (listed : message ∈ history.recent channel) :
    history.Remembers channel message :=
  remembers_of_mem_get (List.mem_of_mem_drop listed)

/-! ## What an addition keeps -/

theorem lookup_setEntry (channel : JsString) (messages : List HistoryMessage)
    (entries : List (JsString × List HistoryMessage)) :
    (setEntry channel messages entries).lookup channel = some messages := by
  induction entries with
  | nil => simp [setEntry]
  | cons entry rest ih =>
      rcases entry with ⟨key, old⟩
      rw [setEntry]
      split
      · simp
      next different =>
        rw [List.lookup_cons, beq_eq_false_iff_ne.mpr (Ne.symm different)]
        exact ih

/-- The last entries of a list that ends in one end in it too, unless there are none. -/
theorem drop_concat {α : Type} {count : Nat} (positive : 1 ≤ count) (front : List α) (last : α) :
    (front ++ [last]).drop ((front ++ [last]).length - count) =
      front.drop ((front ++ [last]).length - count) ++ [last] := by
  apply List.drop_append_of_le_length
  rw [List.length_append, List.length_singleton]
  omega

/-- The constructor forces both limits to be positive. -/
structure Sized (history : ChannelHistory) : Prop where
  limit : 1 ≤ history.limit
  replayLimit : 1 ≤ history.replayLimit

theorem sized_create (limit replayLimit channelLimit : Nat) :
    (create limit replayLimit channelLimit).Sized := by
  constructor
  · exact Nat.le_max_left 1 limit
  · exact Nat.le_min.mpr ⟨Nat.le_max_left 1 limit, Nat.le_max_left 1 replayLimit⟩

theorem add_limits (history : ChannelHistory) (channel : JsString) (message : HistoryMessage) :
    (history.add channel message).limit = history.limit ∧
      (history.add channel message).replayLimit = history.replayLimit := by
  simp only [add]
  split
  · exact ⟨rfl, rfl⟩
  · split
    · exact ⟨rfl, rfl⟩
    · exact ⟨rfl, rfl⟩

theorem Sized.add {history : ChannelHistory} (sized : history.Sized) (channel : JsString)
    (message : HistoryMessage) : (history.add channel message).Sized := by
  rcases add_limits history channel message with ⟨limit, replayLimit⟩
  exact ⟨limit ▸ sized.limit, replayLimit ▸ sized.replayLimit⟩

/-- A message is replayed as long as no other comes after it. -/
theorem mem_recent_add {history : ChannelHistory} (sized : history.Sized) {channel : JsString}
    (nonempty : channel ≠ []) (message : HistoryMessage) :
    message ∈ (history.add channel message).recent channel := by
  have named : channel.isEmpty = false := by simpa using nonempty
  have ends : ∃ front, (history.add channel message).get channel = front ++ [message] := by
    rw [ChannelHistory.add, named]
    simp only [Bool.false_eq_true, if_false]
    generalize keeping : (if (!history.has channel &&
      decide (history.channelLimit ≤ history.channels.length)) = true then
      { history with channels := history.channels.tail } else history) = kept
    have limit : 1 ≤ kept.limit := by
      rw [← keeping]
      split
      · exact sized.limit
      · exact sized.limit
    rw [get, lookup_setEntry, Option.getD_some, drop_concat limit]
    exact ⟨_, rfl⟩
  rcases ends with ⟨front, same⟩
  rw [recent, same, (add_limits history channel message).2, drop_concat sized.replayLimit]
  exact List.mem_append_right _ (List.mem_singleton_self _)

end ChannelHistory

end IrcPlatform.Gateway
