import IrcPlatform.Irc.Attempts
import IrcPlatform.Library.Digits

/-!
# Settings of a channel

A key and a limit are stored together with their flags, the key is one that MODE accepts and
the limit lies between 1 and its bound. So the answer to a MODE query, given as a MODE command
to a channel without modes, restores them all.
-/

namespace IrcPlatform.Irc

open Std Relation

/-- The key and the limit of a channel belong to its flags. -/
structure Channel.Settled (channel : Channel) : Prop where
  key : channel.keyEnabled = true → isValidChannelKey channel.channelKey = true
  noKey : channel.keyEnabled = false → channel.channelKey = []
  limit : channel.limitEnabled = true → 1 ≤ channel.userLimit ∧
    channel.userLimit ≤ modeMaxUserLimit
  noLimit : channel.limitEnabled = false → channel.userLimit = 0

theorem Channel.Settled.of_sameModes {before after : Channel} (settled : before.Settled)
    (same : before.SameModes after) : after.Settled := by
  constructor
  · rw [same.keyEnabled, same.channelKey]
    exact settled.key
  · rw [same.keyEnabled, same.channelKey]
    exact settled.noKey
  · rw [same.limitEnabled, same.userLimit]
    exact settled.limit
  · rw [same.limitEnabled, same.userLimit]
    exact settled.noLimit

def Core.Settled (core : Core) : Prop :=
  ∀ key channel, core.channels key = some channel → channel.Settled

theorem Core.Settled.of_keepsModes {before after : Core} (settled : before.Settled)
    (keeps : before.KeepsModes after) : after.Settled := by
  intro key changed found
  rcases keeps key changed found with ⟨channel, foundBefore, same⟩
  exact (settled key channel foundBefore).of_sameModes same

theorem Core.Settled.of_channels {before after : Core} (settled : before.Settled)
    (same : after.channels = before.channels) : after.Settled :=
  settled.of_keepsModes (.of_channels same)

/-! ## Changes of the modes -/

theorem positive_of_parsePositiveSize {text : Bytes} {value : Nat}
    (parsed : IrcUtil.parsePositiveSize text = some value) : 1 ≤ value := by
  simp only [IrcUtil.parsePositiveSize] at parsed
  split at parsed
  · simp at parsed
  · split at parsed
    · simp at parsed
    · split at parsed
      · simp at parsed
      · rw [Option.some.injEq] at parsed
        omega

theorem Channel.Settled.apply {holder : Bytes → Option Client} {channel : Channel}
    (settled : channel.Settled) {action : ModeAction}
    (enabled : action.enabled holder channel = true) : (action.apply channel).Settled := by
  cases action with
  | inviteOnly adding => exact ⟨settled.key, settled.noKey, settled.limit, settled.noLimit⟩
  | topicRestricted adding => exact ⟨settled.key, settled.noKey, settled.limit, settled.noLimit⟩
  | setKey key =>
      exact ⟨fun _ => enabled, fun off => Bool.noConfusion off, settled.limit,
        settled.noLimit⟩
  | clearKey =>
      exact ⟨fun on => Bool.noConfusion on, fun _ => rfl, settled.limit,
        settled.noLimit⟩
  | operator adding fd nickname =>
      have same : channel.SameModes
          ((ModeAction.operator adding fd nickname).apply channel) := by
        simp only [ModeAction.apply]
        cases adding with
        | true =>
            simp only [if_true, Channel.addOperator]
            split
            · exact Channel.SameModes.refl channel
            · exact ⟨rfl, rfl, rfl, rfl, rfl, rfl⟩
        | false => exact ⟨rfl, rfl, rfl, rfl, rfl, rfl⟩
      exact settled.of_sameModes same
  | setLimit argument limit =>
      simp only [ModeAction.enabled, Bool.and_eq_true, beq_iff_eq, decide_eq_true_eq] at enabled
      have bounds : 1 ≤ limit ∧ limit ≤ modeMaxUserLimit :=
        ⟨positive_of_parsePositiveSize enabled.1, enabled.2⟩
      exact ⟨settled.key, settled.noKey, fun _ => bounds, fun off => Bool.noConfusion off⟩
  | clearLimit =>
      exact ⟨settled.key, settled.noKey, fun on => Bool.noConfusion on, fun _ => rfl⟩

theorem Channel.Settled.performAll {holder : Bytes → Option Client} {actions : List ModeAction}
    {channel final : Channel} (settled : channel.Settled)
    (performed : (modeMachine holder).performAll actions channel = some final) :
    final.Settled := by
  refine Machine.performAll_induction (fun _ current => current.Settled) settled ?_ performed
  intro _ action between _ kept ready
  exact kept.apply ready

theorem Core.Settled.setChannel {core : Core} (settled : core.Settled) {key : Bytes}
    {channel : Channel} (kept : channel.Settled) : (core.setChannel key channel).Settled := by
  intro other changed found
  rw [Core.setChannel_channels] at found
  split at found
  · rw [Option.some.injEq] at found
    exact found ▸ kept
  · exact settled other changed found

/-! ## Other changes -/

theorem JoinEffect.settled {actor : Int} {before after : Core}
    (effect : JoinEffect actor before after) (settled : before.Settled) : after.Settled := by
  cases effect with
  | create found registered normalized missing =>
      intro other channel present
      rw [Core.create_channels] at present
      split at present
      · rw [Option.some.injEq] at present
        rw [← present]
        exact ⟨fun on => Bool.noConfusion on, fun _ => rfl,
          fun on => Bool.noConfusion on, fun _ => rfl⟩
      · exact settled other channel present
  | @admitMember client channel key found registered foundChannel outside =>
      intro other changed present
      rw [Core.admitMember_channels] at present
      split at present
      · rw [Option.some.injEq] at present
        rw [← present]
        exact (settled key channel foundChannel).of_sameModes ⟨rfl, rfl, rfl, rfl, rfl, rfl⟩
      · exact settled other changed present

theorem settled_of_joins {actor : Int} {before after : Core}
    (chain : ReflTransGen (JoinEffect actor) before after) (settled : before.Settled) :
    after.Settled := by
  induction chain with
  | refl => exact settled
  | tail _ effect ih => exact effect.settled ih

theorem settled_of_leaves {actor : Int} {before after : Core}
    (chain : ReflTransGen (LeaveEffect actor) before after) (settled : before.Settled) :
    after.Settled := by
  induction chain with
  | refl => exact settled
  | tail _ effect ih => exact ih.of_keepsModes (.of_effect effect)

theorem DisconnectEffect.settled {fd : Int} {before after : Core}
    (effect : DisconnectEffect fd before after) (settled : before.Settled) : after.Settled := by
  cases effect with
  | absent _ => exact settled
  | @closed client left found departures noChannel =>
      have kept := settled_of_leaves departures settled
      intro key changed present
      rw [Core.remove_channels] at present
      rcases Option.map_eq_some_iff.mp present with ⟨channel, foundChannel, rfl⟩
      exact (kept key channel foundChannel).of_sameModes ⟨rfl, rfl, rfl, rfl, rfl, rfl⟩

namespace Server

variable {server : Server} {fd : Int} {client : Client}

theorem handleMode_settled (named : server.core.Named) (settled : server.core.Settled)
    (message : Message) : (server.handleMode fd message).core.Settled := by
  simp only [handleMode]
  split
  · exact settled
  next client _ =>
    split
    · simpa using settled
    next target arguments _ =>
      split
      · simpa using settled
      · split
        · simpa using settled
        next channel foundChannel =>
          split
          · simpa [sendModeQuery] using settled
          next modeString modeArguments _ =>
            split
            · simpa using settled
            · split
              · simpa using settled
              · generalize checks : ((server.requireChannelMember fd
                  channel).2.requireChannelOperator fd channel).2 = checked
                have sameCore : checked.core = server.core := by simp [← checks]
                have initial : ModeLoop.Recorded server.core target channel
                    { server := checked, arguments := modeArguments } [] channel :=
                  ⟨rfl, by rw [Core.setChannel_self foundChannel]; exact sameCore, rfl, rfl, rfl⟩
                rcases initial.foldl modeString (holdersNamed_of_named named) fd client
                  message.command with ⟨actions, changed, recorded⟩
                rw [core_sendModeNotice, recorded.core]
                exact settled.setChannel
                  ((settled _ channel foundChannel).performAll recorded.performed)

theorem handleJoin_settled (consistent : server.core.Consistent)
    (found : server.findClientByFd fd = some client) (registered : client.registered = true)
    (settled : server.core.Settled) (message : Message) :
    (server.handleJoin fd message).core.Settled := by
  simp only [handleJoin, found]
  split
  · simpa using settled
  · split
    · exact settled_of_leaves (leaveAll_effect _ _ consistent) settled
    · exact settled_of_joins (joinElements_effect _ _ consistent found registered) settled

theorem handlePart_settled (consistent : server.core.Consistent) (settled : server.core.Settled)
    (message : Message) : (server.handlePart fd message).core.Settled := by
  simp only [handlePart]
  split
  · exact settled
  · split
    · simpa using settled
    · exact settled_of_leaves (partElements_effect _ _ consistent) settled

theorem Attempt.settled {after : Server} (attempt : Attempt server fd client after)
    (settled : server.core.Settled) : after.core.Settled := by
  cases attempt with
  | answered listed parameters => simpa using settled
  | accepted _ _ modes => exact settled.of_keepsModes modes

theorem handler_settled (speaker : Speaker server fd client) (named : server.core.Named)
    (settled : server.core.Settled) (message : Message) {entry : CommandEntry}
    (listed : entry ∈ commandTable)
    (admitted : entry.requiresRegistration = true → client.registered = true) :
    (entry.handler server fd message).core.Settled := by
  simp only [commandTable, List.mem_cons, List.not_mem_nil, or_false] at listed
  rcases listed with
    rfl | rfl | rfl | rfl | rfl | rfl | rfl | rfl | rfl | rfl | rfl | rfl | rfl | rfl
  · exact (handlePass_attempt speaker message).settled settled
  · exact (handleNick_attempt speaker message).settled settled
  · exact (handleUser_attempt speaker message).settled settled
  · exact handleCap_core server fd message ▸ settled
  · exact handlePing_core server fd message ▸ settled
  · exact settled
  · exact handleQuit_core server fd message ▸ settled
  · exact handleJoin_settled speaker.consistent speaker.found (admitted rfl) settled message
  · exact handlePrivmsg_core server fd message ▸ settled
  · exact (handleKick_attempt speaker message).settled settled
  · exact (handleInvite_attempt speaker message).settled settled
  · exact (handleTopic_attempt speaker message).settled settled
  · exact handleMode_settled named settled message
  · exact handlePart_settled speaker.consistent settled message

theorem dispatchCommand_settled (speaker : Speaker server fd client)
    (named : server.core.Named) (settled : server.core.Settled) (message : Message) :
    (server.dispatchCommand fd message).core.Settled := by
  have happened := dispatchCommand_cases speaker.found message
  generalize server.dispatchCommand fd message = after at happened
  cases happened with
  | unknown _ _ => simpa using settled
  | ignored _ _ => exact settled
  | refused _ _ _ _ => simpa using settled
  | rejected _ _ _ _ => simpa using settled
  | handled listed _ admitted _ =>
      exact handler_settled speaker named settled message listed admitted

theorem advance_settled (reached : stepSystem.Reachable server) {step : ServerStep}
    (ready : server.ready step = true) (settled : server.core.Settled) :
    (server.advance step).core.Settled := by
  cases step with
  | accept fd peerAddress =>
      change (server.acceptClient _).core.Settled
      rw [core_acceptClient (core_clients_of_ready ready)]
      exact settled.of_channels rfl
  | receive fd data =>
      change (server.updateClient fd _).core.Settled
      rw [core_appendReceiveBuffer]
      exact settled
  | consume fd length =>
      change (server.updateClient fd _).core.Settled
      rw [core_eraseReceivePrefix]
      exact settled
  | command fd message =>
      change (Server.invokeDispatch server fd message).core.Settled
      cases found : server.findClientByFd fd with
      | none =>
          have quiet : server.invokeDispatch fd message =
              server.record (.dispatched fd (server.pendingDisconnects.contains fd)) := by
            simp only [invokeDispatch, dispatchCommand, findClientByFd_record, found]
          exact quiet ▸ settled
      | some client =>
          have speaker := speaker_of_reachable reached found
          have named := step_reachable_named reached
          exact @dispatchCommand_settled (server.record _) fd client
            ⟨speaker.consistent, speaker.serverName, speaker.found, speaker.valid⟩
            named settled message
  | refuse fd error =>
      change (server.queueToClient fd _).core.Settled
      rw [core_queueToClient]
      exact settled
  | reserve fd => exact settled
  | flush fd sent =>
      change (server.flushSendBuffer fd sent).core.Settled
      rw [core_flushSendBuffer]
      exact settled
  | takeReservations => exact settled
  | disconnect fd reason =>
      exact (disconnectClient_effect (step_reachable_consistent reached) fd reason).settled settled

theorem step_reachable_settled (reached : stepSystem.Reachable server) : server.core.Settled := by
  refine reached.invariant (fun server => server.core.Settled) ?_ ?_
  · rintro _ ⟨password, serverStartTime, listenFd, rfl⟩
    rw [core_fresh]
    intro key channel found
    simp at found
  · rintro before step _ reached settled ⟨ready, rfl⟩
    exact advance_settled reached ready settled

end Server

/-! ## Limits are read back -/

theorem le_ofDigitChars (digits : List Char) (value : Nat) :
    value ≤ Nat.ofDigitChars 10 digits value := by
  induction digits generalizing value with
  | nil => rw [Nat.ofDigitChars_nil]
  | cons digit digits ih =>
      rw [Nat.ofDigitChars_cons]
      have later := ih (10 * value + (digit.toNat - '0'.toNat))
      omega

theorem parsePositiveSizeLoop_digits {digits : List Char}
    (areDigits : ∀ digit ∈ digits, digit.isDigit = true) {value : Nat}
    (fits : Nat.ofDigitChars 10 digits value ≤ IrcUtil.sizeMax) :
    IrcUtil.parsePositiveSizeLoop (digits.map byte) value =
      some (Nat.ofDigitChars 10 digits value) := by
  induction digits generalizing value with
  | nil => rfl
  | cons digit digits ih =>
      rw [List.forall_mem_cons] at areDigits
      rcases digit_byte areDigits.1 with ⟨isDigit, read, small⟩
      rw [Nat.ofDigitChars_cons] at fits ⊢
      have least := le_ofDigitChars digits (10 * value + (digit.toNat - '0'.toNat))
      have bound : 10 * value + (digit.toNat - '0'.toNat) < 2 ^ 64 := by
        simp only [IrcUtil.sizeMax] at fits
        omega
      have room : ¬(IrcUtil.sizeMax - (digit.toNat - '0'.toNat)) / 10 < value := by
        simp only [IrcUtil.sizeMax]
        omega
      rw [List.map_cons, IrcUtil.parsePositiveSizeLoop]
      simp only [isDigit, Bool.not_true, Bool.false_eq_true, if_false, read, if_neg room]
      rw [Nat.mul_comm value 10, Nat.mod_eq_of_lt bound]
      exact ih areDigits.2 fits

theorem parsePositiveSize_decimal {value : Nat} (positive : 1 ≤ value)
    (fits : value ≤ IrcUtil.sizeMax) : IrcUtil.parsePositiveSize (decimal value) = some value := by
  have areDigits : ∀ digit ∈ Nat.toDigits 10 value, digit.isDigit = true :=
    fun digit listed => Nat.isDigit_of_mem_toDigits (by decide) (by decide) listed
  have whole : Nat.ofDigitChars 10 (Nat.toDigits 10 value) 0 = value :=
    Nat.ofDigitChars_ten_toDigits
  have read := @parsePositiveSizeLoop_digits (Nat.toDigits 10 value) areDigits 0 (whole.symm ▸ fits)
  have nonempty : (decimal value).isEmpty = false := by
    simp [decimal]
  have nonzero : ¬value = 0 := by omega
  rw [IrcUtil.parsePositiveSize, nonempty, decimal, read, whole]
  simp only [Bool.false_eq_true, if_false, if_neg nonzero]

/-! ## The answer to a query as a command -/

/-- The changes that give a channel without modes the modes of another one. -/
def Channel.modeActions (channel : Channel) : List ModeAction :=
  (if channel.inviteOnly then [.inviteOnly true] else []) ++
    (if channel.topicRestricted then [.topicRestricted true] else []) ++
    (if channel.keyEnabled then [.setKey channel.channelKey] else []) ++
    (if channel.limitEnabled then [.setLimit (decimal channel.userLimit) channel.userLimit] else [])

theorem buildModeParameters_eq (channel : Channel) :
    channel.buildModeParameters = channel.modeActions.flatMap ModeAction.params := by
  rw [Channel.buildModeParameters, Channel.modeActions]
  cases channel.inviteOnly <;> cases channel.topicRestricted <;> cases channel.keyEnabled <;>
    cases channel.limitEnabled <;> rfl

theorem buildModeString_eq (channel : Channel) : channel.buildModeString =
    if channel.modeActions = [] then ascii "+" else renderModes 0 channel.modeActions := by
  rw [Channel.buildModeString, Channel.modeActions]
  cases channel.inviteOnly <;> cases channel.topicRestricted <;> cases channel.keyEnabled <;>
    cases channel.limitEnabled <;> rfl

/-- No mode is set. -/
structure Channel.WithoutModes (channel : Channel) : Prop where
  inviteOnly : channel.inviteOnly = false
  topicRestricted : channel.topicRestricted = false
  keyEnabled : channel.keyEnabled = false
  limitEnabled : channel.limitEnabled = false

/-- An action that is made only under a condition. -/
theorem performAll_if {holder : Bytes → Option Client} {action : ModeAction} {channel : Channel}
    {wanted : Bool} (enabled : wanted = true → action.enabled holder channel = true) :
    (modeMachine holder).performAll (if wanted then [action] else []) channel =
      some (if wanted then action.apply channel else channel) := by
  cases wanted with
  | false => rfl
  | true =>
      have ready : (modeMachine holder).enabled channel action = true := enabled rfl
      simp only [if_true, Machine.performAll, ready]
      rfl

theorem performAll_modeActions (holder : Bytes → Option Client) {channel fresh : Channel}
    (settled : channel.Settled) (freshSettled : fresh.Settled) (off : fresh.WithoutModes) :
    ∃ final, (modeMachine holder).performAll channel.modeActions fresh = some final ∧
      channel.SameModes final := by
  have invite : (ModeAction.inviteOnly true).enabled holder fresh = true := by
    simp [ModeAction.enabled, off.inviteOnly]
  have topic : (ModeAction.topicRestricted true).enabled holder
      (if channel.inviteOnly then (ModeAction.inviteOnly true).apply fresh else fresh) = true := by
    cases channel.inviteOnly with
    | true =>
        simp [ModeAction.enabled, ModeAction.apply, Channel.setInviteOnly, off.topicRestricted]
    | false => simp [ModeAction.enabled, off.topicRestricted]
  have limit (current : Channel) : channel.limitEnabled = true →
      (ModeAction.setLimit (decimal channel.userLimit) channel.userLimit).enabled holder current =
        true := by
    intro on
    rcases settled.limit on with ⟨least, most⟩
    have fits : channel.userLimit ≤ IrcUtil.sizeMax := Nat.le_trans most (by decide)
    simp [ModeAction.enabled, parsePositiveSize_decimal least fits, most]
  rw [Channel.modeActions, Machine.performAll_append, Machine.performAll_append,
    Machine.performAll_append, performAll_if (fun _ => invite), Option.bind_some,
    performAll_if (fun _ => topic), Option.bind_some, performAll_if settled.key, Option.bind_some,
    performAll_if (limit _)]
  refine ⟨_, rfl, ?_⟩
  constructor
  · simp [apply_ite Channel.inviteOnly, ModeAction.apply, Channel.setInviteOnly,
      Channel.setTopicRestricted, Channel.setChannelKey, Channel.setUserLimit, off.inviteOnly]
  · simp [apply_ite Channel.topicRestricted, ModeAction.apply, Channel.setInviteOnly,
      Channel.setTopicRestricted, Channel.setChannelKey, Channel.setUserLimit, off.topicRestricted]
  · simp [apply_ite Channel.keyEnabled, ModeAction.apply, Channel.setInviteOnly,
      Channel.setTopicRestricted, Channel.setChannelKey, Channel.setUserLimit, off.keyEnabled]
  · cases keyed : channel.keyEnabled with
    | true =>
        simp [apply_ite Channel.channelKey, ModeAction.apply, Channel.setInviteOnly,
          Channel.setTopicRestricted, Channel.setChannelKey, Channel.setUserLimit]
    | false =>
        simp [apply_ite Channel.channelKey, ModeAction.apply, Channel.setInviteOnly,
          Channel.setTopicRestricted, Channel.setUserLimit, settled.noKey keyed,
          freshSettled.noKey off.keyEnabled]
  · simp [apply_ite Channel.limitEnabled, ModeAction.apply, Channel.setInviteOnly,
      Channel.setTopicRestricted, Channel.setChannelKey, Channel.setUserLimit, off.limitEnabled]
  · cases limited : channel.limitEnabled with
    | true =>
        simp [apply_ite Channel.userLimit, ModeAction.apply, Channel.setInviteOnly,
          Channel.setTopicRestricted, Channel.setChannelKey, Channel.setUserLimit]
    | false =>
        simp [apply_ite Channel.userLimit, ModeAction.apply, Channel.setInviteOnly,
          Channel.setTopicRestricted, Channel.setChannelKey, settled.noLimit limited,
          freshSettled.noLimit off.limitEnabled]

namespace Server

variable {server : Server} {fd : Int} {client : Client}

/-- The loop over the answer makes the changes, and posts nothing. -/
theorem modeLoop_query (fd : Int) (client : Client) {target : Bytes} {channel fresh final : Channel}
    (foundFresh : server.findChannel target = some fresh)
    (performed : (modeMachine server.core.holder).performAll channel.modeActions fresh =
      some final) :
    ∃ next, server.modeLoop fd client target channel.buildModeString
        channel.buildModeParameters = next ∧
      next.server.core = server.core.setChannel (IrcUtil.normalizeChannelName target) final ∧
      next.server.mail = server.mail ∧ next.arguments = [] := by
  rw [buildModeString_eq, buildModeParameters_eq]
  by_cases none : channel.modeActions = []
  · rw [none, Machine.performAll, Option.some.injEq] at performed
    subst performed
    rw [if_pos none, none]
    refine ⟨{ server := server, arguments := [], adding := true, signSeen := true }, ?_,
      (Core.setChannel_self foundFresh).symm, rfl, rfl⟩
    simp [modeLoop, ascii, ModeLoop.step, foundFresh]
  · rw [if_neg none]
    rcases @ModeLoop.foldl_renderModes target
      { server := server, arguments := channel.modeActions.flatMap ModeAction.params } fresh
      channel.modeActions final server.core.holder performed rfl foundFresh (Or.inl rfl) fd client
      (ascii "MODE") rfl with ⟨next, run, core, mail, _, _, taken⟩
    exact ⟨next, run, core, mail, taken⟩

/-- The notice of the loop is no error. -/
theorem noError_sendModeNotice (speaker : Speaker server fd client) {loop : ModeLoop}
    {target : Bytes} {channel : Channel} (mail : loop.server.mail = server.mail)
    (foundChannel : loop.server.findChannel target = some channel) {receiver : Int} {line : Bytes}
    {appended : Bool}
    (queued : .queued receiver line appended ∈
      (sendModeNotice loop client target).history.drop server.history.length) :
    Reply.isError line = false := by
  by_cases silent : loop.changedModes = []
  · have same : (sendModeNotice loop client target).history = server.history := by
      simp only [sendModeNotice, silent, List.isEmpty_nil, if_true]
      exact congrArg Mail.history mail
    simp [same] at queued
  · have posts := @posts_sendModeNotice server client loop target channel mail foundChannel silent
    rw [posts.history, List.drop_left] at queued
    rcases Mail.mem_entries _ queued with ⟨posting, listed, flag, same⟩
    rcases List.mem_map.mp listed with ⟨member, _, rfl⟩
    cases same
    exact noError_command speaker (ascii "MODE") _

/-- Alice's room with all four modes, and with none. -/
def lockedRoom : Server :=
  stepMachine.performOr alicesRoom [.command 4
    { command := ascii "MODE", params := [ascii "#room", ascii "+ikl", ascii "key", ascii "5"] }]

def openRoom : Server :=
  stepMachine.performOr alicesRoom
    [.command 4 { command := ascii "MODE", params := [ascii "#room", ascii "-t"] }]

theorem reachable_lockedRoom : stepSystem.Reachable lockedRoom :=
  Machine.reachable_performOr reachable_alicesRoom _

theorem reachable_openRoom : stepSystem.Reachable openRoom :=
  Machine.reachable_performOr reachable_alicesRoom _

end Server

end IrcPlatform.Irc
