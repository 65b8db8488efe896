import IrcPlatform.Irc.Confirmations
import IrcPlatform.Irc.KeyedJoin

/-!
# Lists as sequences of single commands

PRIVMSG, PART and JOIN with a list do what single commands with its elements do one after
another: the sender is there as before after every element, so each one finds the state that
it would find as a command of its own.
-/

namespace IrcPlatform.Irc

/-- The elements as one parameter. -/
def commaList (elements : List Bytes) : Bytes := [byte ','].intercalate elements

namespace IrcUtil

/-- Only no element, or a single empty one, makes an empty parameter. -/
theorem splitCommaList_commaList {elements : List Bytes}
    (plain : ∀ element ∈ elements, byte ',' ∉ element) :
    splitCommaList (commaList elements) = elements ∨ elements = [[]] := by
  by_cases none : elements = []
  · left
    rw [none]
    rfl
  · have pieces : (commaList elements).splitOn (byte ',') = elements :=
      List.splitOn_intercalate _ plain none
    rw [splitCommaList]
    cases empty : (commaList elements).isEmpty with
    | true =>
        right
        rw [List.isEmpty_iff.mp empty, List.splitOn_nil] at pieces
        exact pieces.symm
    | false => exact Or.inl pieces

theorem splitCommaList_commaList_of_nonempty {elements : List Bytes}
    (plain : ∀ element ∈ elements, element ≠ [] ∧ byte ',' ∉ element) :
    splitCommaList (commaList elements) = elements := by
  rcases splitCommaList_commaList fun element listed => (plain element listed).2 with whole | empty
  · exact whole
  · rw [empty] at plain
    exact absurd rfl (plain [] List.mem_cons_self).1

theorem getD_splitCommaList_commaList {elements : List Bytes}
    (plain : ∀ element ∈ elements, byte ',' ∉ element) (position : Nat) :
    (splitCommaList (commaList elements)).getD position [] = elements.getD position [] := by
  rcases splitCommaList_commaList plain with whole | empty
  · rw [whole]
  · rw [empty]
    cases position with
    | zero => rfl
    | succ position => rfl

end IrcUtil

namespace Server

variable {server : Server} {fd : Int} {client : Client} {message : Message}

theorem sender_of_reachable (reached : stepSystem.Reachable server)
    (found : server.findClientByFd fd = some client) (registered : client.registered = true) :
    Sender server fd client :=
  ⟨found, registered, nickname_valid reached found, step_reachable_serverName reached,
    step_reachable_wellFormed reached⟩

/-! ## PRIVMSG -/

theorem Sender.dispatchCommand_privmsg (sender : Sender server fd client)
    (command : message.command = ascii "PRIVMSG") {targets text : Bytes} {further : List Bytes}
    (params : message.params = targets :: text :: further) (said : text ≠ []) :
    server.dispatchCommand fd message =
      privmsgTargets fd text (IrcUtil.splitCommaList targets) server := by
  have looked : commandTable.find? (·.name == message.command) =
      some ⟨ascii "PRIVMSG", handlePrivmsg, true, false⟩ := by
    rw [command]
    rfl
  have notEmpty : text.isEmpty = false := by simpa using said
  rw [dispatchCommand_registered sender.found sender.registered looked rfl]
  simp only [handlePrivmsg, sender.found, params, List.headD_cons, notEmpty, Bool.false_eq_true,
    if_false]

theorem privmsgTargets_sequence (sender : Sender server fd client)
    (command : message.command = ascii "PRIVMSG") {targets : List Bytes}
    (plain : ∀ target ∈ targets, target ≠ [] ∧ byte ',' ∉ target) {text : Bytes}
    (said : text ≠ []) (further : List Bytes) :
    privmsgTargets fd text targets server = targets.foldl (fun current target =>
      current.dispatchCommand fd { message with params := target :: text :: further }) server := by
  induction targets generalizing server client with
  | nil => rfl
  | cons target targets ih =>
      rw [List.forall_mem_cons] at plain
      have single := @Sender.dispatchCommand_privmsg server fd client
        { message with params := target :: text :: further } sender command target text further
        rfl said
      rw [IrcUtil.splitCommaList_of_plain plain.1.1 plain.1.2] at single
      rcases sender.privmsgTarget text target with ⟨current, later, _⟩
      rw [List.foldl_cons, single]
      exact ih later plain.2

/-! ## PART -/

theorem Sender.dispatchCommand_part (sender : Sender server fd client)
    (command : message.command = ascii "PART") {targets : Bytes} {arguments : List Bytes}
    (params : message.params = targets :: arguments) :
    server.dispatchCommand fd message = partElements fd (arguments.headD client.nickname)
      (IrcUtil.splitCommaList targets) server := by
  have looked : commandTable.find? (·.name == message.command) =
      some ⟨ascii "PART", handlePart, true, false⟩ := by
    rw [command]
    rfl
  rw [dispatchCommand_registered sender.found sender.registered looked rfl]
  simp only [handlePart, sender.found, params]

theorem partElements_sequence (sender : Sender server fd client)
    (command : message.command = ascii "PART") {targets : List Bytes}
    (plain : ∀ target ∈ targets, target ≠ [] ∧ byte ',' ∉ target) (arguments : List Bytes) :
    partElements fd (arguments.headD client.nickname) targets server =
      targets.foldl (fun current target =>
        current.dispatchCommand fd { message with params := target :: arguments }) server := by
  induction targets generalizing server client with
  | nil => rfl
  | cons target targets ih =>
      rw [List.forall_mem_cons] at plain
      have single := @Sender.dispatchCommand_part server fd client
        { message with params := target :: arguments } sender command target arguments rfl
      rw [IrcUtil.splitCommaList_of_plain plain.1.1 plain.1.2] at single
      rcases sender.partElement (arguments.headD client.nickname) target with
        ⟨current, later, identity⟩
      have rest := ih later plain.2
      rw [Client.nickname_of_identity identity] at rest
      rw [List.foldl_cons, single]
      exact rest

/-! ## JOIN -/

/-- The elements of a JOIN list, each with the key at its position. -/
def withKeys (targets keys : List Bytes) : List (Bytes × Bytes) :=
  targets.mapIdx fun position target => (target, keys.getD position [])

theorem withKeys_cons (target : Bytes) (targets keys : List Bytes) :
    withKeys (target :: targets) keys =
      (target, keys.headD []) :: withKeys targets keys.tail := by
  cases keys with
  | nil => simp [withKeys]
  | cons key keys => simp [withKeys]

theorem joinElements_congr {targets keys other : List Bytes}
    (same : ∀ position, keys.getD position [] = other.getD position []) :
    joinElements fd targets keys server = joinElements fd targets other server := by
  induction targets generalizing server keys other with
  | nil => rfl
  | cons target targets ih =>
      have heads : keys.headD [] = other.headD [] := by
        have first := same 0
        rwa [← List.headD_eq_getD, ← List.headD_eq_getD] at first
      rw [joinElements, joinElements, heads]
      apply ih
      intro position
      have later := same (position + 1)
      cases keys with
      | nil =>
          cases other with
          | nil => rfl
          | cons key other => simpa using later
      | cons key keys =>
          cases other with
          | nil => simpa using later
          | cons key other => simpa using later

theorem joinElements_sequence (sender : Sender server fd client)
    (command : message.command = ascii "JOIN") {targets keys : List Bytes}
    (plain : ∀ target ∈ targets, target ≠ [] ∧ byte ',' ∉ target)
    (notAll : ∀ target ∈ targets, target ≠ ascii "0")
    (plainKeys : ∀ key ∈ keys, byte ',' ∉ key) (further : List Bytes) :
    joinElements fd targets keys server = (withKeys targets keys).foldl (fun current element =>
      current.dispatchCommand fd
        { message with params := element.1 :: element.2 :: further }) server := by
  induction targets generalizing server client keys with
  | nil => rfl
  | cons target targets ih =>
      rw [List.forall_mem_cons] at plain notAll
      have plainFirst : ∀ key ∈ [keys.headD []], byte ',' ∉ key := by
        intro key listed
        rw [List.mem_singleton] at listed
        subst listed
        cases keys with
        | nil => exact List.not_mem_nil
        | cons key keys => exact plainKeys key List.mem_cons_self
      have single := @dispatchCommand_joinElements server fd client sender.found
        sender.registered { message with params := target :: keys.headD [] :: further } target
        (keys.headD [] :: further) command rfl notAll.1
      rcases sender.joinElement target (keys.headD []) with ⟨current, later, _⟩
      have rest := ih later plain.2 notAll.2
        fun key listed => plainKeys key (List.mem_of_mem_tail listed)
      have key := IrcUtil.getD_splitCommaList_commaList plainFirst
      rw [commaList, List.intercalate_singleton] at key
      rw [withKeys_cons, List.foldl_cons, single, joinKeys,
        IrcUtil.splitCommaList_of_plain plain.1.1 plain.1.2, joinElements_congr key]
      exact rest

/-! ## All of them -/

theorem commaList_ne_zero {targets : List Bytes}
    (plain : ∀ target ∈ targets, target ≠ [] ∧ byte ',' ∉ target)
    (notAll : ∀ target ∈ targets, target ≠ ascii "0") : commaList targets ≠ ascii "0" := by
  intro same
  have whole := IrcUtil.splitCommaList_commaList_of_nonempty plain
  have split : IrcUtil.splitCommaList (ascii "0") = [ascii "0"] := by decide
  rw [same, split] at whole
  exact notAll (ascii "0") (whole ▸ List.mem_cons_self) rfl

/-- A command with a list is the sequence of the commands with its elements; the elements of
a JOIN list go with the keys at the same positions, which are empty where there are none. -/
theorem dispatchCommand_sequence (reached : stepSystem.Reachable server)
    (found : server.findClientByFd fd = some client) (registered : client.registered = true)
    {targets : List Bytes} (plain : ∀ target ∈ targets, target ≠ [] ∧ byte ',' ∉ target)
    (message : Message) :
    (message.command = ascii "PRIVMSG" → ∀ text further, text ≠ [] →
      server.dispatchCommand fd
          { message with params := commaList targets :: text :: further } =
        targets.foldl (fun current target => current.dispatchCommand fd
          { message with params := target :: text :: further }) server) ∧
    (message.command = ascii "PART" → ∀ arguments,
      server.dispatchCommand fd { message with params := commaList targets :: arguments } =
        targets.foldl (fun current target => current.dispatchCommand fd
          { message with params := target :: arguments }) server) ∧
    (message.command = ascii "JOIN" → (∀ target ∈ targets, target ≠ ascii "0") →
      ∀ keys further, (∀ key ∈ keys, byte ',' ∉ key) →
      server.dispatchCommand fd
          { message with params := commaList targets :: commaList keys :: further } =
        (withKeys targets keys).foldl (fun current element => current.dispatchCommand fd
          { message with params := element.1 :: element.2 :: further }) server ∧
      server.dispatchCommand fd { message with params := [commaList targets] } =
        (withKeys targets []).foldl (fun current element => current.dispatchCommand fd
          { message with params := [element.1, element.2] }) server) := by
  have sender := sender_of_reachable reached found registered
  have split := IrcUtil.splitCommaList_commaList_of_nonempty plain
  refine ⟨?_, ?_, ?_⟩
  · intro command text further said
    rw [← privmsgTargets_sequence sender command plain said further]
    have whole := @Sender.dispatchCommand_privmsg server fd client
      { message with params := commaList targets :: text :: further } sender command
      (commaList targets) text further rfl said
    rw [whole, split]
  · intro command arguments
    rw [← partElements_sequence sender command plain arguments]
    have whole := @Sender.dispatchCommand_part server fd client
      { message with params := commaList targets :: arguments } sender command
      (commaList targets) arguments rfl
    rw [whole, split]
  · intro command notAll keys further plainKeys
    have notZero := commaList_ne_zero plain notAll
    constructor
    · rw [← joinElements_sequence sender command plain notAll plainKeys further]
      have whole := @dispatchCommand_joinElements server fd client found registered
        { message with params := commaList targets :: commaList keys :: further }
        (commaList targets) (commaList keys :: further) command rfl notZero
      rw [whole, split]
      exact joinElements_congr (IrcUtil.getD_splitCommaList_commaList plainKeys)
    · have none : ∀ key ∈ ([] : List Bytes), byte ',' ∉ key :=
        fun key listed => absurd listed List.not_mem_nil
      rw [← joinElements_sequence sender command plain notAll none []]
      have whole := @dispatchCommand_joinElements server fd client found registered
        { message with params := [commaList targets] } (commaList targets) [] command rfl notZero
      rw [whole, split]
      rfl

/-- Bob's lists name a channel twice, one that does not exist and one that he may not enter. -/
theorem dispatchCommand_sequence_bob :
    alicesRoom.dispatchCommand 5
        { command := ascii "PART", params := [ascii "#room,#none,#ROOM", ascii "bye"] } =
      [ascii "#room", ascii "#none", ascii "#ROOM"].foldl (fun current target =>
        current.dispatchCommand 5 { command := ascii "PART", params := [target, ascii "bye"] })
        alicesRoom := by
  have bob : (alicesRoom.findClientByFd 5).map (·.registered) = some true := by decide +kernel
  rcases Option.map_eq_some_iff.mp bob with ⟨client, found, registered⟩
  have plain : ∀ target ∈ [ascii "#room", ascii "#none", ascii "#ROOM"],
      target ≠ [] ∧ byte ',' ∉ target := by decide
  exact (dispatchCommand_sequence reachable_alicesRoom found registered plain
    { command := ascii "PART" }).2.1 rfl [ascii "bye"]

end Server

end IrcPlatform.Irc
