import Mathlib.Data.List.DropRight
import Mathlib.Data.List.Induction
import IrcPlatform.Gateway.History

/-!
# Runs of the channel history

Any sequence of additions to a fresh history. Its entries stand in the order in which they
were created, and each holds the last of the messages that were added since.
-/

namespace IrcPlatform.Gateway

namespace ChannelHistory

/-- The constructor, for integer options. -/
def ofOptions (limit replayLimit channelLimit : Int) : ChannelHistory where
  limit := (max 1 limit).toNat
  replayLimit := (min (max 1 limit) (max 1 replayLimit)).toNat
  channelLimit := (max 1 channelLimit).toNat

theorem ofOptions_eq (limit replayLimit channelLimit : Int) :
    ofOptions limit replayLimit channelLimit =
      create limit.toNat replayLimit.toNat channelLimit.toNat := by
  simp only [ofOptions, create, mk.injEq, and_true]
  omega

abbrev Addition : Type := JsString × HistoryMessage

def addAll (history : ChannelHistory) (additions : List Addition) : ChannelHistory :=
  additions.foldl (fun history addition => history.add addition.1 addition.2) history

/-- The position of the addition that last created an entry for a channel. -/
def createdAt (start : ChannelHistory) (additions : List Addition) (channel : JsString) :
    Option Nat :=
  ((List.range additions.length).filter fun position =>
    additions[position]?.any (·.1 == channel) &&
      !(start.addAll (additions.take position)).has channel).getLast?

/-- The messages added to a channel from a position on. -/
def addedSince (additions : List Addition) (channel : JsString) (position : Nat) :
    List HistoryMessage :=
  ((additions.drop position).filter (·.1 == channel)).map (·.2)

/-- What a history with these limits remembers of the additions to it. -/
structure Remembering (limit replayLimit channelLimit : Nat) (start : ChannelHistory)
    (additions : List Addition) : Prop where
  channels : (start.addAll additions).channels.length ≤ channelLimit
  messages : ∀ entry ∈ (start.addAll additions).channels, entry.2.length ≤ limit
  /-- The last messages since the entry was created are replayed, in their order. -/
  replayed (channel : JsString) : (start.addAll additions).has channel = true →
    ∃ position, createdAt start additions channel = some position ∧
      (start.addAll additions).recent channel = (addedSince additions channel position).rtake
        (min (min replayLimit limit) (addedSince additions channel position).length)
  /-- A channel without an entry has nothing to replay. -/
  forgotten (channel : JsString) : (start.addAll additions).has channel = false →
    (start.addAll additions).recent channel = []
  /-- An entry is dropped for a new one where there is no room, and it is the oldest. -/
  dropped (channel : JsString) (message : HistoryMessage) (other : JsString) : channel ≠ [] →
    (start.addAll additions).has other = true →
      (((start.addAll additions).add channel message).has other = false ↔
        (start.addAll additions).has channel = false ∧
          (start.addAll additions).channels.length = channelLimit ∧
          ∀ present, (start.addAll additions).has present = true →
            ∀ position ∈ createdAt start additions present,
              ∃ first ∈ createdAt start additions other, first ≤ position)
  /-- An addition to an existing channel changes no other. -/
  kept (channel : JsString) (message : HistoryMessage) (other : JsString) : other ≠ channel →
    (start.addAll additions).has channel = true →
      ((start.addAll additions).add channel message).channels.lookup other =
        (start.addAll additions).channels.lookup other

/-! ## Entries -/

def keys (history : ChannelHistory) : List JsString :=
  history.channels.map (·.1)

theorem has_iff {history : ChannelHistory} {channel : JsString} :
    history.has channel = true ↔ channel ∈ history.keys := by
  unfold has keys
  induction history.channels with
  | nil => simp
  | cons entry rest ih =>
      rcases entry with ⟨key, stored⟩
      by_cases same : channel = key
      · simp [same]
      · rw [List.lookup_cons, beq_eq_false_iff_ne.mpr same]
        simp only [List.map_cons, List.mem_cons, same, false_or]
        exact ih

theorem has_eq_false {history : ChannelHistory} {channel : JsString} :
    history.has channel = false ↔ channel ∉ history.keys := by
  rw [← has_iff, Bool.not_eq_true]

theorem lookup_of_absent {history : ChannelHistory} {channel : JsString}
    (absent : history.has channel = false) : history.channels.lookup channel = none := by
  simpa [has] using absent

theorem get_of_absent {history : ChannelHistory} {channel : JsString}
    (absent : history.has channel = false) : history.get channel = [] := by
  rw [get, lookup_of_absent absent, Option.getD_none]

theorem get_of_lookup {history : ChannelHistory} {channel : JsString}
    {messages : List HistoryMessage} (found : history.channels.lookup channel = some messages) :
    history.get channel = messages := by
  rw [get, found, Option.getD_some]

theorem lookup_setEntry_of_ne {channel other : JsString} (different : other ≠ channel)
    (messages : List HistoryMessage) (entries : List (JsString × List HistoryMessage)) :
    (setEntry channel messages entries).lookup other = entries.lookup other := by
  induction entries with
  | nil => rw [setEntry, List.lookup_cons, beq_eq_false_iff_ne.mpr different]
  | cons entry rest ih =>
      rcases entry with ⟨key, old⟩
      rw [setEntry]
      split
      next same =>
        rw [List.lookup_cons, List.lookup_cons, same, beq_eq_false_iff_ne.mpr different]
      next => rw [List.lookup_cons, List.lookup_cons, ih]

theorem keys_setEntry_of_mem {channel : JsString} (messages : List HistoryMessage)
    {entries : List (JsString × List HistoryMessage)} (present : channel ∈ entries.map (·.1)) :
    (setEntry channel messages entries).map (·.1) = entries.map (·.1) := by
  induction entries with
  | nil => simp at present
  | cons entry rest ih =>
      rcases entry with ⟨key, old⟩
      rw [setEntry]
      split
      next same => simp [same]
      next different =>
        rw [List.map_cons, List.mem_cons] at present
        rw [List.map_cons, List.map_cons, ih (present.resolve_left (Ne.symm different))]

theorem setEntry_of_not_mem {channel : JsString} (messages : List HistoryMessage)
    {entries : List (JsString × List HistoryMessage)} (absent : channel ∉ entries.map (·.1)) :
    setEntry channel messages entries = entries ++ [(channel, messages)] := by
  induction entries with
  | nil => rfl
  | cons entry rest ih =>
      rcases entry with ⟨key, old⟩
      rw [List.map_cons, List.mem_cons, not_or] at absent
      rw [setEntry, if_neg (Ne.symm absent.1), ih absent.2, List.cons_append]

theorem lookup_of_mem {entries : List (JsString × List HistoryMessage)}
    (distinct : (entries.map (·.1)).Nodup) {entry : JsString × List HistoryMessage}
    (listed : entry ∈ entries) : entries.lookup entry.1 = some entry.2 := by
  induction entries with
  | nil => simp at listed
  | cons first rest ih =>
      rw [List.map_cons, List.nodup_cons] at distinct
      rcases List.mem_cons.mp listed with rfl | listed
      · exact List.lookup_cons_self
      · have different : entry.1 ≠ first.1 := by
          intro same
          exact distinct.1 (same ▸ List.mem_map_of_mem listed)
        rw [List.lookup_cons, beq_eq_false_iff_ne.mpr different]
        exact ih distinct.2 listed

/-! ## One addition -/

theorem rtake_rtake {α : Type} (list : List α) (outer inner : Nat) :
    (list.rtake inner).rtake outer = list.rtake (min outer inner) := by
  simp only [List.rtake_eq_reverse_take_reverse, List.reverse_reverse, List.take_take]

theorem rtake_concat {α : Type} (list : List α) (count : Nat) (last : α) :
    (list.rtake count ++ [last]).rtake count = (list ++ [last]).rtake count := by
  cases count with
  | zero => simp
  | succ count => rw [List.rtake_concat_succ, List.rtake_concat_succ, rtake_rtake,
      Nat.min_eq_left (Nat.le_succ count)]

theorem rtake_min_length {α : Type} (list : List α) (count : Nat) :
    list.rtake (min count list.length) = list.rtake count := by
  unfold List.rtake
  congr 1
  omega

theorem length_rtake_le {α : Type} (list : List α) (count : Nat) :
    (list.rtake count).length ≤ count := by
  rw [List.rtake, List.length_drop]
  omega

theorem recent_eq (history : ChannelHistory) (channel : JsString) :
    history.recent channel = (history.get channel).rtake history.replayLimit := rfl

theorem add_nil (history : ChannelHistory) (message : HistoryMessage) :
    history.add [] message = history := rfl

section Addition

variable {history : ChannelHistory} {channel : JsString} (nonempty : channel ≠ [])
  (message : HistoryMessage)

include nonempty

theorem add_present (present : history.has channel = true) :
    (history.add channel message).channels =
      setEntry channel ((history.get channel ++ [message]).rtake history.limit)
        history.channels := by
  simp [add, nonempty, present, List.rtake]

theorem add_absent (absent : history.has channel = false) (positive : 1 ≤ history.limit) :
    (history.add channel message).channels =
      (if history.channelLimit ≤ history.channels.length then history.channels.tail
        else history.channels) ++ [(channel, [message])] := by
  have missing := has_eq_false.mp absent
  have lone : [message].drop ([message].length - history.limit) = [message] := by
    rw [List.length_singleton, Nat.sub_eq_zero_of_le positive, List.drop_zero]
  by_cases full : history.channelLimit ≤ history.channels.length
  · have fewer : channel ∉ history.channels.tail.map (·.1) := by
      rw [List.map_tail]
      exact fun listed => missing (List.mem_of_mem_tail listed)
    have nothing : ({ history with channels := history.channels.tail } : ChannelHistory).get
        channel = [] := get_of_absent (has_eq_false.mpr fewer)
    simp only [add, List.isEmpty_iff, nonempty, absent, full, nothing, decide_true,
      Bool.not_false, Bool.and_self, if_true, if_false, List.nil_append, lone]
    exact setEntry_of_not_mem [message] fewer
  · simp only [add, List.isEmpty_iff, nonempty, absent, full, get_of_absent absent, decide_false,
      Bool.and_false, Bool.false_eq_true, if_false, List.nil_append, lone]
    exact setEntry_of_not_mem [message] missing

end Addition

theorem add_channelLimit (history : ChannelHistory) (channel : JsString)
    (message : HistoryMessage) :
    (history.add channel message).channelLimit = history.channelLimit := by
  simp only [add]
  split
  · rfl
  · split
    · rfl
    · rfl

/-! ## Creation -/

section Creation

variable (start : ChannelHistory) (additions : List Addition)

theorem addAll_concat (channel : JsString) (message : HistoryMessage) :
    start.addAll (additions ++ [(channel, message)]) =
      (start.addAll additions).add channel message := by
  simp [addAll, List.foldl_append]

theorem addAll_limits : (start.addAll additions).limit = start.limit ∧
    (start.addAll additions).replayLimit = start.replayLimit ∧
      (start.addAll additions).channelLimit = start.channelLimit := by
  induction additions using List.reverseRecOn with
  | nil => exact ⟨rfl, rfl, rfl⟩
  | append_singleton before last ih =>
      rcases last with ⟨channel, message⟩
      rw [addAll_concat, add_channelLimit]
      rcases add_limits (start.addAll before) channel message with ⟨limit, replayLimit⟩
      exact ⟨limit.trans ih.1, replayLimit.trans ih.2.1, ih.2.2⟩

theorem createdAt_lt {channel : JsString} {position : Nat}
    (created : createdAt start additions channel = some position) :
    position < additions.length := by
  have listed := List.mem_of_getLast? created
  exact List.mem_range.mp (List.mem_filter.mp listed).1

/-- Only an addition to a channel without an entry creates one. -/
theorem createdAt_concat (channel other : JsString) (message : HistoryMessage) :
    createdAt start (additions ++ [(channel, message)]) other =
      if channel = other ∧ (start.addAll additions).has other = false then
        some additions.length
      else createdAt start additions other := by
  have earlier : ∀ position ∈ List.range additions.length,
      ((additions ++ [(channel, message)])[position]?.any (·.1 == other) &&
        !(start.addAll ((additions ++ [(channel, message)]).take position)).has other) =
      (additions[position]?.any (·.1 == other) &&
        !(start.addAll (additions.take position)).has other) := by
    intro position within
    have bound := List.mem_range.mp within
    rw [List.getElem?_append_left bound, List.take_append_of_le_length (Nat.le_of_lt bound)]
  simp only [createdAt]
  rw [List.length_append, List.length_singleton, List.range_succ, List.filter_append,
    List.filter_congr earlier, List.filter_cons, List.filter_nil,
    List.getElem?_append_right (Nat.le_refl _), Nat.sub_self, List.getElem?_cons_zero,
    List.take_left, Option.any_some]
  by_cases creates : channel = other ∧ (start.addAll additions).has other = false
  · simp [creates]
  · have skipped : (channel == other && !(start.addAll additions).has other) = false := by
      simpa using creates
    rw [skipped, if_neg creates]
    simp

theorem addedSince_concat (channel other : JsString) (message : HistoryMessage) {position : Nat}
    (within : position ≤ additions.length) :
    addedSince (additions ++ [(channel, message)]) other position =
      addedSince additions other position ++ if channel = other then [message] else [] := by
  rw [addedSince, List.drop_append_of_le_length within, List.filter_append, List.map_append]
  by_cases same : channel = other
  · simp [same, addedSince]
  · simp [same, addedSince]

end Creation

/-! ## The invariant -/

/-- The order of creation. -/
def CreatedBefore (start : ChannelHistory) (additions : List Addition) (left right : JsString) :
    Prop :=
  ∀ first ∈ createdAt start additions left, ∀ second ∈ createdAt start additions right,
    first < second

/-- The entries in the order of their creation, with the messages since then. -/
structure Ordered (start : ChannelHistory) (additions : List Addition) : Prop where
  distinct : (start.addAll additions).keys.Nodup
  sized : (start.addAll additions).channels.length ≤ start.channelLimit
  named : [] ∉ (start.addAll additions).keys
  ordered : (start.addAll additions).keys.Pairwise (CreatedBefore start additions)
  stored (channel : JsString) (messages : List HistoryMessage) :
    (start.addAll additions).channels.lookup channel = some messages →
      ∃ position, createdAt start additions channel = some position ∧
        messages = (addedSince additions channel position).rtake start.limit

theorem addedSince_at (additions : List Addition) (channel : JsString)
    (message : HistoryMessage) :
    addedSince (additions ++ [(channel, message)]) channel additions.length = [message] := by
  simp [addedSince]

section Step

variable {start : ChannelHistory} {additions : List Addition} {channel : JsString}
  (message : HistoryMessage)

theorem createdAt_of_present (present : (start.addAll additions).has channel = true)
    (other : JsString) :
    createdAt start (additions ++ [(channel, message)]) other =
      createdAt start additions other := by
  rw [createdAt_concat, if_neg]
  rintro ⟨rfl, absent⟩
  simp [present] at absent

theorem createdAt_of_ne {other : JsString} (different : channel ≠ other) :
    createdAt start (additions ++ [(channel, message)]) other =
      createdAt start additions other := by
  rw [createdAt_concat, if_neg]
  exact fun same => different same.1

/-- What another channel holds is untouched by an addition to the history. -/
theorem Ordered.stored_other (good : Ordered start additions) {other : JsString}
    (different : channel ≠ other) {messages : List HistoryMessage}
    (found : (start.addAll additions).channels.lookup other = some messages) :
    ∃ position, createdAt start (additions ++ [(channel, message)]) other = some position ∧
      messages =
        (addedSince (additions ++ [(channel, message)]) other position).rtake start.limit := by
  rcases good.stored other messages found with ⟨position, created, held⟩
  refine ⟨position, ?_, ?_⟩
  · rw [createdAt_of_ne message different, created]
  · rw [addedSince_concat _ _ _ _ (Nat.le_of_lt (createdAt_lt start additions created)),
      if_neg different, List.append_nil, held]

theorem Ordered.unnamed (good : Ordered start additions) :
    Ordered start (additions ++ [([], message)]) := by
  have same : start.addAll (additions ++ [([], message)]) = start.addAll additions := by
    rw [addAll_concat, add_nil]
  have created : ∀ name ∈ (start.addAll additions).keys,
      createdAt start (additions ++ [([], message)]) name = createdAt start additions name := by
    intro name listed
    apply createdAt_of_ne
    intro empty
    exact good.named (empty ▸ listed)
  constructor
  · exact same ▸ good.distinct
  · exact same ▸ good.sized
  · exact same ▸ good.named
  · rw [same]
    apply List.Pairwise.imp_of_mem _ good.ordered
    intro left right leftListed rightListed before
    rw [CreatedBefore, created left leftListed, created right rightListed]
    exact before
  · intro name messages found
    rw [same] at found
    apply good.stored_other message _ found
    rintro rfl
    exact good.named (has_iff.mp (by rw [has, found, Option.isSome_some]))

theorem Ordered.present (good : Ordered start additions) (nonempty : channel ≠ [])
    (present : (start.addAll additions).has channel = true) :
    Ordered start (additions ++ [(channel, message)]) := by
  have limit := (addAll_limits start additions).1
  have entries := add_present nonempty message present
  have sameKeys : (start.addAll (additions ++ [(channel, message)])).keys =
      (start.addAll additions).keys := by
    rw [addAll_concat, keys, entries]
    exact keys_setEntry_of_mem _ (has_iff.mp present)
  constructor
  · exact sameKeys ▸ good.distinct
  · have sameLength := congrArg List.length sameKeys
    rw [keys, keys, List.length_map, List.length_map] at sameLength
    exact sameLength ▸ good.sized
  · exact sameKeys ▸ good.named
  · rw [sameKeys]
    apply good.ordered.imp
    intro left right before
    rw [CreatedBefore, createdAt_of_present message present,
      createdAt_of_present message present]
    exact before
  · intro name messages found
    rw [addAll_concat, entries] at found
    by_cases same : name = channel
    · subst same
      rw [lookup_setEntry, Option.some.injEq] at found
      rcases Option.isSome_iff_exists.mp present with ⟨earlier, held⟩
      rcases good.stored name earlier held with ⟨position, created, since⟩
      refine ⟨position, ?_, ?_⟩
      · rw [createdAt_of_present message present, created]
      · rw [addedSince_concat _ _ _ _ (Nat.le_of_lt (createdAt_lt start additions created)),
          if_pos rfl, ← found, get_of_lookup held, since, limit, rtake_concat]
    · rw [lookup_setEntry_of_ne same] at found
      exact good.stored_other message (Ne.symm same) found

theorem Ordered.absent (good : Ordered start additions) (nonempty : channel ≠ [])
    (positive : 1 ≤ start.limit) (room : 1 ≤ start.channelLimit)
    (absent : (start.addAll additions).has channel = false) :
    Ordered start (additions ++ [(channel, message)]) := by
  rcases addAll_limits start additions with ⟨limit, replayLimit, channelLimit⟩
  have missing := has_eq_false.mp absent
  have entries := add_absent nonempty message absent (limit ▸ positive)
  have created : createdAt start (additions ++ [(channel, message)]) channel =
      some additions.length := by
    rw [createdAt_concat, if_pos ⟨rfl, absent⟩]
  generalize remaining : (if (start.addAll additions).channelLimit ≤
    (start.addAll additions).channels.length then (start.addAll additions).channels.tail
      else (start.addAll additions).channels) = rest at entries
  have part : rest.Sublist (start.addAll additions).channels := by
    rw [← remaining]
    split
    · exact List.tail_sublist _
    · exact List.Sublist.refl _
  have fewer : rest.length + 1 ≤ start.channelLimit := by
    have sized := good.sized
    rw [← remaining]
    split
    · rw [List.length_tail]
      omega
    · omega
  have partKeys : (rest.map (·.1)).Sublist (start.addAll additions).keys := part.map _
  have newKeys : (start.addAll (additions ++ [(channel, message)])).keys =
      rest.map (·.1) ++ [channel] := by
    rw [addAll_concat, keys, entries, List.map_append]
    rfl
  constructor
  · rw [newKeys]
    exact List.nodup_append.mpr ⟨partKeys.nodup good.distinct, by simp,
      fun name listed other last same =>
        missing (List.mem_singleton.mp last ▸ same ▸ partKeys.subset listed)⟩
  · rw [addAll_concat, entries, List.length_append, List.length_singleton]
    exact fewer
  · rw [newKeys, List.mem_append, List.mem_singleton, not_or]
    exact ⟨fun listed => good.named (partKeys.subset listed), Ne.symm nonempty⟩
  · have older : ∀ name ∈ rest.map (·.1),
        createdAt start (additions ++ [(channel, message)]) name =
          createdAt start additions name := by
      intro name listed
      apply createdAt_of_ne
      intro same
      exact missing (same ▸ partKeys.subset listed)
    rw [newKeys]
    apply List.pairwise_append.mpr
    refine ⟨?_, List.pairwise_singleton _ _, ?_⟩
    · apply List.Pairwise.imp_of_mem _ (good.ordered.sublist partKeys)
      intro left right leftListed rightListed before
      rw [CreatedBefore, older left leftListed, older right rightListed]
      exact before
    · intro name listed last same first earlier second later
      rw [older name listed] at earlier
      rw [List.mem_singleton.mp same, created] at later
      cases later
      exact createdAt_lt start additions earlier
  · intro name messages found
    rw [addAll_concat, entries, List.lookup_append] at found
    by_cases same : name = channel
    · subst same
      have before : rest.lookup name = none := by
        cases held : rest.lookup name with
        | none => rfl
        | some stored =>
            exact absurd (partKeys.subset (List.mem_map_of_mem (mem_of_lookup held))) missing
      rw [before, Option.none_or, List.lookup_cons_self, Option.some.injEq] at found
      refine ⟨additions.length, created, ?_⟩
      rw [addedSince_at, ← found, List.rtake, List.length_singleton,
        Nat.sub_eq_zero_of_le positive, List.drop_zero]
    · rw [List.lookup_cons, beq_eq_false_iff_ne.mpr same, List.lookup_nil, Option.or_none]
        at found
      apply good.stored_other message (Ne.symm same)
      exact lookup_of_mem good.distinct (part.subset (mem_of_lookup found))

end Step

theorem ordered_addAll (start : ChannelHistory) (empty : start.channels = [])
    (positive : 1 ≤ start.limit) (room : 1 ≤ start.channelLimit) (additions : List Addition) :
    Ordered start additions := by
  induction additions using List.reverseRecOn with
  | nil => constructor <;> simp [addAll, keys, empty]
  | append_singleton before last ih =>
      rcases last with ⟨channel, message⟩
      by_cases nonempty : channel = []
      · subst nonempty
        exact ih.unnamed message
      · cases held : (start.addAll before).has channel with
        | true => exact ih.present message nonempty held
        | false => exact ih.absent message nonempty positive room held

/-! ## What is remembered -/

section Remembered

variable {start : ChannelHistory} {additions : List Addition} (good : Ordered start additions)

include good

/-- The first entry is the one that was created longest ago. -/
theorem Ordered.first_iff {other : JsString}
    (present : (start.addAll additions).has other = true) :
    other ∉ (start.addAll additions).keys.tail ↔
      ∀ name, (start.addAll additions).has name = true →
        ∀ position ∈ createdAt start additions name,
          ∃ first ∈ createdAt start additions other, first ≤ position := by
  rcases Option.isSome_iff_exists.mp present with ⟨messages, found⟩
  rcases good.stored other messages found with ⟨first, created, _⟩
  have ordered := good.ordered
  have listed := has_iff.mp present
  simp only [has_iff, Option.mem_def, created, Option.some.injEq, exists_eq_left']
  cases names : (start.addAll additions).keys with
  | nil => simp [names] at listed
  | cons oldest rest =>
      rw [names, List.mem_cons] at listed
      rw [names, List.pairwise_cons] at ordered
      rw [List.tail_cons]
      constructor
      · intro leads name among position at_
        have same : other = oldest := listed.resolve_right leads
        subst same
        rcases List.mem_cons.mp among with rfl | among
        · rw [created, Option.some.injEq] at at_
          exact Nat.le_of_eq at_
        · exact Nat.le_of_lt (ordered.1 name among first created position at_)
      · intro least behind
        have held : (start.addAll additions).has oldest = true := by
          rw [has_iff, names]
          exact List.mem_cons_self
        rcases Option.isSome_iff_exists.mp held with ⟨earliest, stored⟩
        rcases good.stored oldest earliest stored with ⟨position, at_, _⟩
        have before := ordered.1 other behind position at_ first created
        have after := least oldest List.mem_cons_self position at_
        omega

theorem Ordered.dropped_iff {channel other : JsString} (nonempty : channel ≠ [])
    (positive : 1 ≤ start.limit) (message : HistoryMessage)
    (present : (start.addAll additions).has other = true) :
    ((start.addAll additions).add channel message).has other = false ↔
      (start.addAll additions).has channel = false ∧
        (start.addAll additions).channels.length = start.channelLimit ∧
          other ∉ (start.addAll additions).keys.tail := by
  rcases addAll_limits start additions with ⟨limit, _, channelLimit⟩
  cases held : (start.addAll additions).has channel with
  | true =>
      have sameKeys := keys_setEntry_of_mem
        (((start.addAll additions).get channel ++ [message]).rtake (start.addAll additions).limit)
        (has_iff.mp held)
      rw [has_eq_false, keys, add_present nonempty message held, sameKeys]
      simp only [Bool.true_eq_false, false_and, iff_false, not_not]
      exact has_iff.mp present
  | false =>
      have different : other ≠ channel := by
        rintro rfl
        simp [held] at present
      have sized := good.sized
      rw [has_eq_false, keys, add_absent nonempty message held (limit ▸ positive), channelLimit]
      by_cases full : start.channelLimit ≤ (start.addAll additions).channels.length
      · rw [if_pos full, List.map_append, List.map_tail]
        simp only [List.map_cons, List.map_nil, List.mem_append, List.mem_singleton, different,
          or_false, true_and]
        exact ⟨fun gone => ⟨Nat.le_antisymm sized full, gone⟩, fun gone => gone.2⟩
      · rw [if_neg full, List.map_append]
        have stays : other ∈ (start.addAll additions).channels.map (·.1) := has_iff.mp present
        simp only [List.mem_append, stays, true_or, not_true_eq_false, true_and, false_iff]
        omega

end Remembered

theorem remembering_addAll (limit replayLimit channelLimit : Int) (additions : List Addition) :
    Remembering (max 1 limit).toNat (max 1 replayLimit).toNat (max 1 channelLimit).toNat
      (ofOptions limit replayLimit channelLimit) additions := by
  generalize options : ofOptions limit replayLimit channelLimit = start
  have keeps : start.limit = (max 1 limit).toNat := options ▸ rfl
  have replays : start.replayLimit = min (max 1 replayLimit).toNat (max 1 limit).toNat := by
    rw [← options]
    simp only [ofOptions]
    omega
  have entries : start.channelLimit = (max 1 channelLimit).toNat := options ▸ rfl
  have positive : 1 ≤ start.limit := by omega
  have good : Ordered start additions :=
    ordered_addAll start (options ▸ rfl) positive (by omega) additions
  rcases addAll_limits start additions with ⟨sameLimit, sameReplay, _⟩
  rw [← keeps, ← entries]
  constructor
  · exact good.sized
  · intro entry listed
    rcases good.stored entry.1 entry.2 (lookup_of_mem good.distinct listed) with ⟨_, _, held⟩
    rw [held]
    exact length_rtake_le _ _
  · intro channel present
    rcases Option.isSome_iff_exists.mp present with ⟨messages, found⟩
    rcases good.stored channel messages found with ⟨position, created, held⟩
    refine ⟨position, created, ?_⟩
    rw [recent_eq, get_of_lookup found, held, rtake_rtake, rtake_min_length, sameReplay, replays]
    congr 1
    omega
  · intro channel absent
    rw [recent_eq, get_of_absent absent, List.rtake_nil]
  · intro channel message other nonempty present
    rw [good.dropped_iff nonempty positive message present, good.first_iff present]
  · intro channel message other different present
    have nonempty : channel ≠ [] := by
      rintro rfl
      exact good.named (has_iff.mp present)
    rw [add_present nonempty message present, lookup_setEntry_of_ne different]

end ChannelHistory

end IrcPlatform.Gateway
