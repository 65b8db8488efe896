import IrcPlatform.Irc.Joining

/-!
# Replaying mode notices

The changes that MODE makes to a channel are the runs of a small machine, and a
notice is the text of such a run: a mode string with its parameters. The loop over
an arbitrary mode string makes some run and collects its text; the loop over the
text of a run makes that run again. So the notice of a MODE command, given as a
command in the state before it, has the same effect and the same notice.
-/

namespace IrcPlatform.Irc

open Std

/-- One effective change of the modes of a channel. -/
inductive ModeAction where
  | inviteOnly (adding : Bool)
  | topicRestricted (adding : Bool)
  | setKey (key : Bytes)
  | clearKey
  | operator (adding : Bool) (fd : Int) (nickname : Bytes)
  | setLimit (argument : Bytes) (limit : Nat)
  | clearLimit

namespace ModeAction

def adding : ModeAction → Bool
  | inviteOnly adding | topicRestricted adding | operator adding _ _ => adding
  | setKey _ | setLimit _ _ => true
  | clearKey | clearLimit => false

def letter : ModeAction → UInt8
  | inviteOnly _ => byte 'i'
  | topicRestricted _ => byte 't'
  | setKey _ | clearKey => byte 'k'
  | operator _ _ _ => byte 'o'
  | setLimit _ _ | clearLimit => byte 'l'

def params : ModeAction → List Bytes
  | setKey key => [key]
  | operator _ _ nickname => [nickname]
  | setLimit argument _ => [argument]
  | inviteOnly _ | topicRestricted _ | clearKey | clearLimit => []

def apply : ModeAction → Channel → Channel
  | inviteOnly adding, channel => channel.setInviteOnly adding
  | topicRestricted adding, channel => channel.setTopicRestricted adding
  | setKey key, channel => channel.setChannelKey key
  | clearKey, channel => channel.clearChannelKey
  | operator adding fd _, channel =>
      (if adding then channel.addOperator fd else channel.removeOperator fd).2
  | setLimit _ limit, channel => channel.setUserLimit limit
  | clearLimit, channel => channel.clearUserLimit

/-- The action changes something and its parameter is acceptable; `holder` finds the
client of a nickname. -/
def enabled (holder : Bytes → Option Client) (channel : Channel) : ModeAction → Bool
  | inviteOnly adding => channel.inviteOnly != adding
  | topicRestricted adding => channel.topicRestricted != adding
  | setKey key => isValidChannelKey key
  | clearKey => channel.hasKey
  | operator adding fd nickname =>
      (holder nickname).any (fun record => record.fd == fd && record.nickname == nickname) &&
        channel.hasMember fd && channel.isOperator fd != adding
  | setLimit argument limit =>
      IrcUtil.parsePositiveSize argument == some limit && decide (limit ≤ modeMaxUserLimit)
  | clearLimit => channel.hasUserLimit

def sign (action : ModeAction) : UInt8 := if action.adding then byte '+' else byte '-'

end ModeAction

def modeMachine (holder : Bytes → Option Client) : Machine Channel ModeAction where
  initial _ := True
  enabled := ModeAction.enabled holder
  perform channel action := action.apply channel

/-! ## The text of a run -/

/-- A mode string that follows the sign `last`. -/
def renderModes : UInt8 → List ModeAction → Bytes
  | _, [] => []
  | last, action :: rest =>
      (if last != action.sign then [action.sign] else []) ++ [action.letter] ++
        renderModes action.sign rest

def signAfter (last : UInt8) (actions : List ModeAction) : UInt8 :=
  actions.foldl (fun _ action => action.sign) last

theorem renderModes_concat (last : UInt8) (actions : List ModeAction) (action : ModeAction) :
    renderModes last (actions ++ [action]) = renderModes last actions ++
      (if signAfter last actions != action.sign then [action.sign] else []) ++
        [action.letter] := by
  induction actions generalizing last with
  | nil => simp [renderModes, signAfter]
  | cons first rest ih =>
      rw [List.cons_append, renderModes, ih, renderModes]
      simp only [List.append_assoc]
      rfl

theorem signAfter_concat (last : UInt8) (actions : List ModeAction) (action : ModeAction) :
    signAfter last (actions ++ [action]) = action.sign := by
  simp [signAfter, List.foldl_append]

/-- The client of a nickname, as the core knows it. -/
def Core.holder (core : Core) (nickname : Bytes) : Option Client :=
  (core.nicks (IrcUtil.ircCaseFold nickname)).bind core.clients

theorem Server.map_findClientByNickname (server : Server) (nickname : Bytes) :
    (server.findClientByNickname nickname).map Client.withoutBuffers =
      server.core.holder nickname := by
  simp only [findClientByNickname, Core.holder, core]
  cases server.nickToFd[IrcUtil.ircCaseFold nickname]? with
  | none => rfl
  | some fd => rfl

/-- A holder is also found under its nickname as it spells it. -/
def HoldersNamed (holder : Bytes → Option Client) : Prop :=
  ∀ nickname record, holder nickname = some record → holder record.nickname = some record

namespace ModeLoop

variable {fd : Int} {client : Client} {command target : Bytes} {loop : ModeLoop}
  {channel : Channel}

/-- The loop after an effective change. -/
def performed (loop : ModeLoop) (target : Bytes) (action : ModeAction) (arguments : List Bytes) :
    ModeLoop :=
  { loop with
    server := loop.server.updateChannel target action.apply
    arguments := arguments
    changedModes := loop.changedModes ++
      (if loop.lastSign != action.sign then [action.sign] else []) ++ [action.letter]
    changedParams := loop.changedParams ++ action.params
    lastSign := action.sign }

/-- What one character of a mode string does: nothing to the channel and nothing to the
collected changes, or one effective change. -/
inductive StepCase (loop : ModeLoop) (target : Bytes) (channel : Channel) : ModeLoop → Prop where
  | quiet {next : ModeLoop} (core : next.server.core = loop.server.core)
      (changedModes : next.changedModes = loop.changedModes)
      (changedParams : next.changedParams = loop.changedParams)
      (lastSign : next.lastSign = loop.lastSign) : StepCase loop target channel next
  | effective {action : ModeAction} {arguments : List Bytes}
      (enabled : action.enabled loop.server.core.holder channel = true) :
      StepCase loop target channel (loop.performed target action arguments)


section Equations

variable (loop : ModeLoop) (target : Bytes)

theorem performed_inviteOnly :
    (loop.change target (·.setInviteOnly loop.adding)).appendChangedMode (byte 'i') =
      loop.performed target (.inviteOnly loop.adding) loop.arguments := by
  simp only [performed, appendChangedMode, change, ModeAction.params, List.append_nil]
  rfl

theorem performed_topicRestricted :
    (loop.change target (·.setTopicRestricted loop.adding)).appendChangedMode (byte 't') =
      loop.performed target (.topicRestricted loop.adding) loop.arguments := by
  simp only [performed, appendChangedMode, change, ModeAction.params, List.append_nil]
  rfl

theorem performed_setKey (adding : loop.adding = true) (key : Bytes) (arguments : List Bytes) :
    { ((loop.change target (·.setChannelKey key)).appendChangedMode (byte 'k')).pushParam key
      with arguments := arguments } = loop.performed target (.setKey key) arguments := by
  simp only [performed, appendChangedMode, pushParam, change, adding, if_true]
  rfl

theorem performed_clearKey (removing : loop.adding = false) :
    (loop.change target (·.clearChannelKey)).appendChangedMode (byte 'k') =
      loop.performed target .clearKey loop.arguments := by
  simp only [performed, appendChangedMode, change, removing, Bool.false_eq_true, if_false,
    ModeAction.params, List.append_nil]
  rfl

theorem performed_operator (fd : Int) (nickname : Bytes) (arguments : List Bytes) :
    ((({ loop with arguments := arguments } : ModeLoop).change target fun channel =>
      (if loop.adding then channel.addOperator fd
        else channel.removeOperator fd).2).appendChangedMode (byte 'o')).pushParam nickname =
      loop.performed target (.operator loop.adding fd nickname) arguments := by
  simp only [performed, appendChangedMode, pushParam, change]
  rfl

theorem performed_setLimit (adding : loop.adding = true) (argument : Bytes) (limit : Nat)
    (arguments : List Bytes) :
    ((({ loop with arguments := arguments } : ModeLoop).change target
      (·.setUserLimit limit)).appendChangedMode (byte 'l')).pushParam argument =
      loop.performed target (.setLimit argument limit) arguments := by
  simp only [performed, appendChangedMode, pushParam, change, adding, if_true]
  rfl

theorem performed_clearLimit (removing : loop.adding = false) :
    (loop.change target (·.clearUserLimit)).appendChangedMode (byte 'l') =
      loop.performed target .clearLimit loop.arguments := by
  simp only [performed, appendChangedMode, change, removing, Bool.false_eq_true, if_false,
    ModeAction.params, List.append_nil]
  rfl

end Equations

theorem stepCase_reply (code : Nat) (parameters : Bytes) :
    StepCase loop target channel (loop.reply fd client code parameters) :=
  StepCase.quiet (Server.core_queueToClient _ _ _) rfl rfl rfl

theorem stepCase_modeInviteOnly (loop : ModeLoop) (target : Bytes) (channel : Channel) :
    StepCase loop target channel (loop.modeInviteOnly target channel) := by
  simp only [modeInviteOnly]
  split
  next changes =>
    rw [performed_inviteOnly]
    exact StepCase.effective changes
  · exact StepCase.quiet rfl rfl rfl rfl

theorem stepCase_modeTopicRestricted (loop : ModeLoop) (target : Bytes) (channel : Channel) :
    StepCase loop target channel (loop.modeTopicRestricted target channel) := by
  simp only [modeTopicRestricted]
  split
  next changes =>
    rw [performed_topicRestricted]
    exact StepCase.effective changes
  · exact StepCase.quiet rfl rfl rfl rfl

theorem stepCase_modeKey (loop : ModeLoop) (fd : Int) (client : Client) (command target : Bytes)
    (channel : Channel) :
    StepCase loop target channel (loop.modeKey fd client command target channel) := by
  simp only [modeKey]
  split
  next adding =>
    split
    · exact stepCase_reply _ _
    next key arguments _ =>
      split
      · exact stepCase_reply _ _
      next valid =>
        rw [performed_setKey loop target adding]
        apply StepCase.effective
        simpa [ModeAction.enabled] using valid
  next removing =>
    split
    next keyed =>
      rw [performed_clearKey loop target (by simpa using removing)]
      exact StepCase.effective keyed
    · exact StepCase.quiet rfl rfl rfl rfl

theorem stepCase_modeLimit (loop : ModeLoop) (fd : Int) (client : Client) (command target : Bytes)
    (channel : Channel) :
    StepCase loop target channel (loop.modeLimit fd client command target channel) := by
  simp only [modeLimit]
  split
  next adding =>
    split
    · exact stepCase_reply _ _
    next argument arguments _ =>
      split
      · exact StepCase.quiet rfl rfl rfl rfl
      next limit parsed =>
        split
        · exact StepCase.quiet rfl rfl rfl rfl
        next bounded =>
          rw [performed_setLimit loop target adding]
          apply StepCase.effective
          simpa [ModeAction.enabled, parsed] using bounded
  next removing =>
    split
    next limited =>
      rw [performed_clearLimit loop target (by simpa using removing)]
      exact StepCase.effective limited
    · exact StepCase.quiet rfl rfl rfl rfl

/-- A write that stores what is there leaves the core as it is. -/
theorem core_change_self (found : loop.server.findChannel target = some channel)
    {update : Channel → Channel} (same : update channel = channel) :
    (loop.change target update).server.core = loop.server.core := by
  change (loop.server.updateChannel target update).core = _
  rw [Server.core_updateChannel _ update found, same]
  exact Core.setChannel_self found

/-- The flag of an operator change tells whether the member was not yet as wanted. -/
theorem operator_flag (member : channel.hasMember fd = true) (adding : Bool) :
    (if adding then channel.addOperator fd else channel.removeOperator fd).1 =
      (channel.isOperator fd != adding) := by
  cases adding with
  | true => simp [Channel.addOperator, member, Channel.isOperator]
  | false => simp [Channel.removeOperator, Channel.isOperator]

theorem operator_same {adding : Bool} (already : channel.isOperator fd = adding) :
    (if adding then channel.addOperator fd else channel.removeOperator fd).2 = channel := by
  cases adding with
  | true =>
      have present : fd ∈ channel.operators := by simpa [Channel.isOperator] using already
      have kept : channel.operators.insert fd = channel.operators := by
        apply ExtTreeSet.ext_mem
        intro other
        simp only [ExtTreeSet.mem_insert, LawfulEqOrd.compare_eq_iff_eq, or_iff_right_iff_imp]
        rintro rfl
        exact present
      simp only [Channel.addOperator, if_true]
      split
      · rfl
      · rw [kept]
  | false =>
      have absent : fd ∉ channel.operators := by
        intro listed
        rw [Channel.isOperator, ExtTreeSet.mem_iff_contains.mp listed] at already
        simp at already
      have kept : channel.operators.erase fd = channel.operators := by
        apply ExtTreeSet.ext_mem
        intro other
        simp only [ExtTreeSet.mem_erase, ne_eq, LawfulEqOrd.compare_eq_iff_eq,
          and_iff_right_iff_imp]
        rintro listed rfl
        exact absent listed
      simp only [Channel.removeOperator, Bool.false_eq_true, if_false, kept]

theorem stepCase_modeOperator (found : loop.server.findChannel target = some channel)
    (named : HoldersNamed loop.server.core.holder) (fd : Int) (client : Client)
    (command : Bytes) :
    StepCase loop target channel (loop.modeOperator fd client command target channel) := by
  simp only [modeOperator]
  split
  · exact stepCase_reply _ _
  next nickArg arguments _ =>
    split
    · exact StepCase.quiet (Server.core_queueToClient _ _ _) rfl rfl rfl
    next record foundRecord =>
      split
      · exact StepCase.quiet (Server.core_queueToClient _ _ _) rfl rfl rfl
      next isMember =>
        have member : channel.hasMember record.fd = true := by simpa using isMember
        have holder : loop.server.core.holder record.nickname = some record.withoutBuffers := by
          have stored := loop.server.map_findClientByNickname nickArg
          rw [foundRecord] at stored
          exact named nickArg _ stored.symm
        rw [operator_flag member]
        split
        next differs =>
          rw [performed_operator loop target]
          apply StepCase.effective
          simp [ModeAction.enabled, holder, member, Client.withoutBuffers, bne_iff_ne.mp differs]
        next already =>
          have same : channel.isOperator record.fd = loop.adding := by simpa using already
          exact StepCase.quiet (core_change_self found (operator_same same)) rfl rfl rfl

theorem step_case (found : loop.server.findChannel target = some channel)
    (named : HoldersNamed loop.server.core.holder) (fd : Int) (client : Client)
    (command : Bytes) (c : UInt8) :
    StepCase loop target channel (loop.step fd client command target c) := by
  simp only [step, found]
  split
  · exact StepCase.quiet rfl rfl rfl rfl
  · split
    · exact StepCase.quiet rfl rfl rfl rfl
    · split
      · exact stepCase_reply _ _
      · split
        · exact stepCase_modeInviteOnly loop target channel
        · split
          · exact stepCase_modeTopicRestricted loop target channel
          · split
            · exact stepCase_modeKey loop fd client command target channel
            · split
              · exact stepCase_modeOperator found named fd client command
              · split
                · exact stepCase_modeLimit loop fd client command target channel
                · exact stepCase_reply _ _

/-! ## The loop makes a run -/

/-- The loop has made a run of the mode machine and collected its text. -/
structure Recorded (start : Core) (target : Bytes) (channel : Channel) (loop : ModeLoop)
    (actions : List ModeAction) (current : Channel) : Prop where
  performed : (modeMachine start.holder).performAll actions channel = some current
  core : loop.server.core = start.setChannel (IrcUtil.normalizeChannelName target) current
  changedModes : loop.changedModes = renderModes 0 actions
  changedParams : loop.changedParams = actions.flatMap ModeAction.params
  lastSign : loop.lastSign = signAfter 0 actions

theorem Recorded.step {start : Core} {actions : List ModeAction} {current : Channel}
    (recorded : Recorded start target channel loop actions current)
    (named : HoldersNamed start.holder) (fd : Int) (client : Client) (command : Bytes)
    (c : UInt8) : ∃ actions current,
      Recorded start target channel (loop.step fd client command target c) actions current := by
  have holder : loop.server.core.holder = start.holder := by
    rw [recorded.core]
    rfl
  have found : loop.server.findChannel target = some current := by
    rw [← Server.core_channels_of_find, recorded.core]
    simp
  have happened := step_case found (holder ▸ named) fd client command c
  generalize loop.step fd client command target c = next at happened
  cases happened with
  | quiet core changedModes changedParams lastSign =>
      exact ⟨actions, current, recorded.performed, core.trans recorded.core,
        changedModes.trans recorded.changedModes, changedParams.trans recorded.changedParams,
        lastSign.trans recorded.lastSign⟩
  | @effective action arguments enabled =>
      rw [holder] at enabled
      have ready : (modeMachine start.holder).enabled current action = true := enabled
      refine ⟨actions ++ [action], action.apply current, ?_, ?_, ?_, ?_, ?_⟩
      · rw [Machine.performAll_concat, recorded.performed]
        simp only [Option.bind_some, ready, if_true]
        rfl
      · change (loop.server.updateChannel target action.apply).core = _
        rw [Server.core_updateChannel _ _ found, recorded.core, Core.setChannel_setChannel]
      · simp only [ModeLoop.performed, recorded.changedModes, recorded.lastSign,
          renderModes_concat]
      · simp only [ModeLoop.performed, recorded.changedParams, List.flatMap_append,
          List.flatMap_singleton]
      · simp only [ModeLoop.performed, signAfter_concat]

theorem Recorded.foldl {start : Core} {actions : List ModeAction} {current : Channel}
    (modeString : Bytes) (recorded : Recorded start target channel loop actions current)
    (named : HoldersNamed start.holder) (fd : Int) (client : Client) (command : Bytes) :
    ∃ actions current, Recorded start target channel
      (modeString.foldl (ModeLoop.step fd client command target) loop) actions current := by
  induction modeString generalizing loop actions current with
  | nil => exact ⟨actions, current, recorded⟩
  | cons c rest ih =>
      rcases recorded.step named fd client command c with ⟨more, changed, further⟩
      exact ih further

/-! ## The text makes the run again -/

theorem step_sign (found : loop.server.findChannel target = some channel) (fd : Int)
    (client : Client) (command : Bytes) (action : ModeAction) :
    loop.step fd client command target action.sign =
      { loop with adding := action.adding, signSeen := true } := by
  cases adding : action.adding with
  | true =>
      have sign : action.sign = byte '+' := by simp only [ModeAction.sign, adding, if_true]
      simp only [step, found, sign, if_true]
  | false =>
      have sign : action.sign = byte '-' := by simp [ModeAction.sign, adding]
      have notPlus : byte '-' ≠ byte '+' := by decide
      simp only [step, found, sign, if_neg notPlus, if_true]

/-- The branch of the loop that an action's letter selects. -/
def branch (loop : ModeLoop) (fd : Int) (client : Client) (command target : Bytes)
    (channel : Channel) : ModeAction → ModeLoop
  | .inviteOnly _ => loop.modeInviteOnly target channel
  | .topicRestricted _ => loop.modeTopicRestricted target channel
  | .setKey _ | .clearKey => loop.modeKey fd client command target channel
  | .operator _ _ _ => loop.modeOperator fd client command target channel
  | .setLimit _ _ | .clearLimit => loop.modeLimit fd client command target channel

theorem step_eq_branch (found : loop.server.findChannel target = some channel) (fd : Int)
    (client : Client) (command : Bytes) (seen : loop.signSeen = true) (action : ModeAction) :
    loop.step fd client command target action.letter =
      loop.branch fd client command target channel action := by
  cases action with
  | _ => simp [step, found, seen, ModeAction.letter, branch, byte]

/-- The letter of an enabled action, read under its sign and before its parameters. -/
theorem step_letter (found : loop.server.findChannel target = some channel) (fd : Int)
    (client : Client) (command : Bytes) {action : ModeAction}
    (enabled : action.enabled loop.server.core.holder channel = true) (seen : loop.signSeen = true)
    (adding : loop.adding = action.adding) {rest : List Bytes}
    (arguments : loop.arguments = action.params ++ rest) :
    loop.step fd client command target action.letter = loop.performed target action rest := by
  rw [step_eq_branch found fd client command seen action]
  cases action with
  | inviteOnly flag =>
      have same : loop.adding = flag := adding
      subst same
      have changes : (channel.inviteOnly != loop.adding) = true := enabled
      have rest_eq : loop.arguments = rest := arguments
      simp only [branch, modeInviteOnly, if_pos changes, performed_inviteOnly, rest_eq]
  | topicRestricted flag =>
      have same : loop.adding = flag := adding
      subst same
      have changes : (channel.topicRestricted != loop.adding) = true := enabled
      have rest_eq : loop.arguments = rest := arguments
      simp only [branch, modeTopicRestricted, if_pos changes, performed_topicRestricted, rest_eq]
  | setKey key =>
      have same : loop.adding = true := adding
      have valid : isValidChannelKey key = true := enabled
      have first : loop.arguments = key :: rest := arguments
      simp only [branch, modeKey, if_pos same, first, valid, Bool.not_true, Bool.false_eq_true,
        if_false]
      exact performed_setKey loop target same key rest
  | clearKey =>
      have same : loop.adding = false := adding
      have keyed : channel.hasKey = true := enabled
      have rest_eq : loop.arguments = rest := arguments
      simp only [branch, modeKey, same, Bool.false_eq_true, if_false, if_pos keyed,
        performed_clearKey loop target same, rest_eq]
  | operator flag other nickname =>
      have same : loop.adding = flag := adding
      subst same
      have first : loop.arguments = nickname :: rest := arguments
      simp only [ModeAction.enabled, Bool.and_eq_true] at enabled
      rcases enabled with ⟨⟨held, member⟩, differs⟩
      rcases (Option.any_eq_true _ _).mp held with ⟨stored, foundStored, spelled⟩
      rw [← Server.map_findClientByNickname] at foundStored
      rcases Option.map_eq_some_iff.mp foundStored with ⟨record, foundRecord, rfl⟩
      simp only [Bool.and_eq_true, beq_iff_eq] at spelled
      have sameFd : record.fd = other := spelled.1
      have sameNickname : record.nickname = nickname := spelled.2
      have isMember : channel.hasMember record.fd = true := sameFd ▸ member
      have changes : (channel.isOperator record.fd != loop.adding) = true := sameFd ▸ differs
      simp only [branch, modeOperator, first, foundRecord, isMember, operator_flag isMember,
        changes, Bool.not_true, Bool.false_eq_true, if_false, if_true]
      rw [performed_operator loop target, sameFd, sameNickname]
  | setLimit argument limit =>
      have same : loop.adding = true := adding
      have first : loop.arguments = argument :: rest := arguments
      simp only [ModeAction.enabled, Bool.and_eq_true, beq_iff_eq, decide_eq_true_eq] at enabled
      have bounded : ¬modeMaxUserLimit < limit := Nat.not_lt.mpr enabled.2
      simp only [branch, modeLimit, if_pos same, first, enabled.1, if_neg bounded]
      exact performed_setLimit loop target same argument limit rest
  | clearLimit =>
      have same : loop.adding = false := adding
      have limited : channel.hasUserLimit = true := enabled
      have rest_eq : loop.arguments = rest := arguments
      simp only [branch, modeLimit, same, Bool.false_eq_true, if_false, if_pos limited,
        performed_clearLimit loop target same, rest_eq]

/-- The sign of the loop agrees with the last sign of the text read so far. -/
def Signed (loop : ModeLoop) : Prop :=
  loop.lastSign = 0 ∨
    loop.signSeen = true ∧ loop.lastSign = if loop.adding then byte '+' else byte '-'

theorem sign_ne_zero (action : ModeAction) : action.sign ≠ 0 := by
  simp only [ModeAction.sign]
  split
  · decide
  · decide

theorem adding_of_sign_eq {adding : Bool} {action : ModeAction}
    (same : (if adding then byte '+' else byte '-') = action.sign) : adding = action.adding := by
  rw [ModeAction.sign] at same
  cases adding with
  | true =>
      cases wanted : action.adding with
      | true => rfl
      | false =>
          rw [wanted] at same
          exact absurd same (by decide)
  | false =>
      cases wanted : action.adding with
      | false => rfl
      | true =>
          rw [wanted] at same
          exact absurd same (by decide)

/-- The loop after it read the sign of an action. -/
def aligned (loop : ModeLoop) (action : ModeAction) : ModeLoop :=
  { loop with adding := action.adding, signSeen := true }

theorem aligned_self (signed : loop.Signed) {action : ModeAction}
    (written : loop.lastSign = action.sign) : loop.aligned action = loop := by
  rcases signed with zero | ⟨seen, sign⟩
  · exact absurd (written.symm.trans zero) (sign_ne_zero action)
  · have adding := adding_of_sign_eq (sign.symm.trans written)
    simp only [aligned, ← adding, ← seen]

theorem foldl_sign (found : loop.server.findChannel target = some channel) (signed : loop.Signed)
    (fd : Int) (client : Client) (command : Bytes) (action : ModeAction) :
    (if loop.lastSign != action.sign then [action.sign] else []).foldl
      (ModeLoop.step fd client command target) loop = loop.aligned action := by
  by_cases written : loop.lastSign = action.sign
  · simp only [written, bne_self_eq_false, Bool.false_eq_true, if_false, List.foldl_nil]
    exact (aligned_self signed written).symm
  · have differs : (loop.lastSign != action.sign) = true := bne_iff_ne.mpr written
    simp only [differs, if_true, List.foldl_cons, List.foldl_nil]
    exact step_sign found fd client command action

/-- The text of one action makes that action. -/
theorem foldl_action (found : loop.server.findChannel target = some channel)
    (signed : loop.Signed) (fd : Int) (client : Client) (command : Bytes) {action : ModeAction}
    (enabled : action.enabled loop.server.core.holder channel = true) {rest : List Bytes}
    (arguments : loop.arguments = action.params ++ rest) :
    ((if loop.lastSign != action.sign then [action.sign] else []) ++ [action.letter]).foldl
      (ModeLoop.step fd client command target) loop =
        (loop.aligned action).performed target action rest := by
  have foundAligned : (loop.aligned action).server.findChannel target = some channel := found
  have enabledAligned : action.enabled (loop.aligned action).server.core.holder channel = true :=
    enabled
  have given : (loop.aligned action).arguments = action.params ++ rest := arguments
  rw [List.foldl_append, foldl_sign found signed, List.foldl_cons, List.foldl_nil]
  exact step_letter foundAligned fd client command enabledAligned rfl rfl given

theorem signed_performed (loop : ModeLoop) (target : Bytes) (action : ModeAction)
    (arguments : List Bytes) : ((loop.aligned action).performed target action arguments).Signed :=
  Or.inr ⟨rfl, rfl⟩

/-- The text of a run makes the run: it leads to the same channel, it is collected again,
it takes all parameters, and it posts nothing. -/
theorem foldl_renderModes {actions : List ModeAction} {final : Channel}
    {holder : Bytes → Option Client}
    (performed : (modeMachine holder).performAll actions channel = some final)
    (held : loop.server.core.holder = holder)
    (found : loop.server.findChannel target = some channel) (signed : loop.Signed) (fd : Int)
    (client : Client) (command : Bytes)
    (arguments : loop.arguments = actions.flatMap ModeAction.params) :
    ∃ next, (renderModes loop.lastSign actions).foldl (ModeLoop.step fd client command target)
        loop = next ∧
      next.server.core = loop.server.core.setChannel (IrcUtil.normalizeChannelName target) final ∧
      next.server.mail = loop.server.mail ∧
      next.changedModes = loop.changedModes ++ renderModes loop.lastSign actions ∧
      next.changedParams = loop.changedParams ++ actions.flatMap ModeAction.params ∧
      next.arguments = [] := by
  induction actions generalizing loop channel with
  | nil =>
      rw [Machine.performAll, Option.some.injEq] at performed
      subst performed
      refine ⟨loop, rfl, (Core.setChannel_self found).symm, rfl, ?_, ?_, ?_⟩
      · simp [renderModes]
      · simp
      · exact arguments
  | cons action actions ih =>
      rw [Machine.performAll] at performed
      split at performed
      next ready =>
        have enabled : action.enabled loop.server.core.holder channel = true := by
          rw [held]
          exact ready
        have given : loop.arguments = action.params ++ actions.flatMap ModeAction.params :=
          arguments
        have made := foldl_action found signed fd client command enabled given
        have changed : ((loop.aligned action).performed target action
            (actions.flatMap ModeAction.params)).server.core =
              loop.server.core.setChannel (IrcUtil.normalizeChannelName target)
                (action.apply channel) :=
          Server.core_updateChannel loop.server action.apply found
        have foundNext : ((loop.aligned action).performed target action
            (actions.flatMap ModeAction.params)).server.findChannel target =
              some (action.apply channel) := Server.findChannel_updateChannel action.apply found
        have heldNext : ((loop.aligned action).performed target action
            (actions.flatMap ModeAction.params)).server.core.holder = holder := by
          rw [changed, ← held]
          rfl
        rcases ih performed heldNext foundNext (signed_performed loop target action _) rfl with
          ⟨next, run, core, mail, changedModes, changedParams, taken⟩
        refine ⟨next, ?_, ?_, mail, ?_, ?_, taken⟩
        · rw [renderModes, List.foldl_append, made]
          exact run
        · rw [core, changed, Core.setChannel_setChannel]
        · rw [changedModes, renderModes]
          simp only [ModeLoop.performed, aligned, List.append_assoc]
          rfl
        · rw [changedParams]
          simp only [ModeLoop.performed, aligned, List.flatMap_cons, List.append_assoc]
      · simp at performed

end ModeLoop

/-! ## A copy that follows the notices -/

/-- A client that reads a mode string and its parameters and keeps a copy of the channel. -/
structure Follower where
  adding : Bool := true
  params : List Bytes
  channel : Channel

namespace Follower

def write (follower : Follower) (change : Channel → Channel) : Follower :=
  { follower with channel := change follower.channel }

/-- The change that takes a parameter, and the rest of the parameters. -/
def take (follower : Follower) (change : Bytes → Channel → Channel) : Follower :=
  match follower.params with
  | [] => follower
  | param :: rest => { follower.write (change param) with params := rest }

def setOperator (holder : Bytes → Option Client) (adding : Bool) (nickname : Bytes)
    (channel : Channel) : Channel :=
  match holder nickname with
  | none => channel
  | some record =>
      (if adding then channel.addOperator record.fd else channel.removeOperator record.fd).2

def setLimit (argument : Bytes) (channel : Channel) : Channel :=
  match IrcUtil.parsePositiveSize argument with
  | none => channel
  | some limit => channel.setUserLimit limit

/-- One character of a notice, read without any check. -/
def read (holder : Bytes → Option Client) (follower : Follower) (c : UInt8) : Follower :=
  if c = byte '+' then { follower with adding := true }
  else if c = byte '-' then { follower with adding := false }
  else if c = byte 'i' then follower.write (·.setInviteOnly follower.adding)
  else if c = byte 't' then follower.write (·.setTopicRestricted follower.adding)
  else if c = byte 'k' then
    if follower.adding then follower.take fun key channel => channel.setChannelKey key
    else follower.write (·.clearChannelKey)
  else if c = byte 'o' then follower.take (setOperator holder follower.adding)
  else if c = byte 'l' then
    if follower.adding then follower.take setLimit else follower.write (·.clearUserLimit)
  else follower

variable {holder : Bytes → Option Client}

theorem read_letter {follower : Follower} {action : ModeAction}
    (enabled : action.enabled holder follower.channel = true)
    (adding : follower.adding = action.adding) {rest : List Bytes}
    (params : follower.params = action.params ++ rest) :
    follower.read holder action.letter =
      { adding := action.adding, params := rest, channel := action.apply follower.channel } := by
  rcases follower with ⟨sign, given, channel⟩
  simp only at adding params enabled
  subst adding params
  cases action with
  | inviteOnly flag => rfl
  | topicRestricted flag => rfl
  | setKey key => rfl
  | clearKey => rfl
  | operator flag fd nickname =>
      simp only [ModeAction.enabled, Bool.and_eq_true] at enabled
      rcases (Option.any_eq_true _ _).mp enabled.1.1 with ⟨record, held, spelled⟩
      simp only [Bool.and_eq_true, beq_iff_eq] at spelled
      change ({ Follower.write _ (setOperator holder flag nickname) with params := rest } :
        Follower) = _
      simp only [write, setOperator, held, spelled.1]
      rfl
  | setLimit argument limit =>
      simp only [ModeAction.enabled, Bool.and_eq_true, beq_iff_eq] at enabled
      change ({ Follower.write _ (setLimit argument) with params := rest } : Follower) = _
      simp only [write, setLimit, enabled.1]
      rfl
  | clearLimit => rfl

theorem read_sign (follower : Follower) (action : ModeAction) :
    follower.read holder action.sign = { follower with adding := action.adding } := by
  cases adding : action.adding with
  | true =>
      have sign : action.sign = byte '+' := by simp only [ModeAction.sign, adding, if_true]
      simp only [read, sign, if_true]
  | false =>
      have sign : action.sign = byte '-' := by simp [ModeAction.sign, adding]
      have notPlus : byte '-' ≠ byte '+' := by decide
      simp only [read, sign, if_neg notPlus, if_true]

theorem foldl_read_sign {follower : Follower} {last : UInt8} {action : ModeAction}
    (signed : last = 0 ∨ last = if follower.adding then byte '+' else byte '-') :
    (if last != action.sign then [action.sign] else []).foldl (read holder) follower =
      { follower with adding := action.adding } := by
  by_cases written : last = action.sign
  · have adding : follower.adding = action.adding := by
      rcases signed with zero | sign
      · exact absurd (written.symm.trans zero) (ModeLoop.sign_ne_zero action)
      · exact ModeLoop.adding_of_sign_eq (sign.symm.trans written)
    simp only [written, bne_self_eq_false, Bool.false_eq_true, if_false, List.foldl_nil, ← adding]
  · have differs : (last != action.sign) = true := bne_iff_ne.mpr written
    simp only [differs, if_true, List.foldl_cons, List.foldl_nil]
    exact read_sign follower action

/-- A copy that reads the text of a run makes the run. -/
theorem foldl_renderModes {actions : List ModeAction} {follower : Follower} {final : Channel}
    {last : UInt8}
    (performed : (modeMachine holder).performAll actions follower.channel = some final)
    (signed : last = 0 ∨ last = if follower.adding then byte '+' else byte '-')
    (params : follower.params = actions.flatMap ModeAction.params) :
    ((renderModes last actions).foldl (read holder) follower).channel = final := by
  induction actions generalizing last follower with
  | nil =>
      rw [Machine.performAll, Option.some.injEq] at performed
      exact performed
  | cons action actions ih =>
      rw [Machine.performAll] at performed
      split at performed
      next ready =>
        have enabled : action.enabled holder follower.channel = true := ready
        have given : follower.params = action.params ++ actions.flatMap ModeAction.params := params
        have made := @read_letter holder { follower with adding := action.adding } action enabled
          rfl _ given
        rw [renderModes, List.foldl_append, List.foldl_append, foldl_read_sign signed,
          List.foldl_cons, List.foldl_nil, made]
        exact ih performed (Or.inr rfl) rfl
      · simp at performed

/-- The copy after a notice with this mode string and these parameters. -/
def follow (holder : Bytes → Option Client) (modes : Bytes) (params : List Bytes)
    (channel : Channel) : Channel :=
  (modes.foldl (read holder) { params := params, channel := channel }).channel

end Follower

namespace Server

variable {server : Server} {fd : Int} {client : Client}

/-- The loop of the handler over a mode string. -/
def modeLoop (server : Server) (fd : Int) (client : Client) (target modeString : Bytes)
    (arguments : List Bytes) : ModeLoop :=
  modeString.foldl (ModeLoop.step fd client (ascii "MODE") target)
    { server := server, arguments := arguments }

def modeLine (client : Client) (channel : Channel) (changedModes : Bytes)
    (changedParams : List Bytes) : Bytes :=
  Reply.command (Reply.clientPrefix client) (ascii "MODE")
    (channel.name ++ ascii " " ++ joinWithSpaces changedModes changedParams)

theorem holdersNamed_of_named (named : server.core.Named) :
    HoldersNamed server.core.holder := by
  intro nickname record held
  have index := nicknameIndex_of_named named
  rw [← map_findClientByNickname] at held
  rcases Option.map_eq_some_iff.mp held with ⟨stored, foundStored, rfl⟩
  rcases (index.lookup_iff nickname stored).mp foundStored with ⟨other, found, nonempty, _⟩
  have own := (index.lookup_iff stored.nickname stored).mpr ⟨other, found, nonempty, rfl⟩
  change server.core.holder stored.nickname = _
  rw [← map_findClientByNickname, own]
  rfl

theorem head_of_valid {name : Bytes} (valid : IrcUtil.isValidChannelName name = true) :
    name.head? = some (byte '#') := by
  cases name with
  | nil => simp [IrcUtil.isValidChannelName] at valid
  | cons first rest =>
      simp only [IrcUtil.isValidChannelName, Bool.and_eq_true, beq_iff_eq] at valid
      rw [List.head?_cons, valid.1.2]

/-- A mode change of an operator is the loop and its notice. -/
theorem dispatchCommand_mode (wellFormed : server.core.WellFormed)
    (found : server.findClientByFd fd = some client) {target : Bytes} {channel : Channel}
    (foundChannel : server.findChannel target = some channel)
    (operator : fd ∈ channel.operators) {message : Message}
    (command : message.command = ascii "MODE") {modeString : Bytes} {arguments : List Bytes}
    (params : message.params = target :: modeString :: arguments) :
    server.dispatchCommand fd message =
      sendModeNotice (server.modeLoop fd client target modeString arguments) client target := by
  have consistent := wellFormed.consistent
  have member : fd ∈ channel.members :=
    consistent.operator_member _ channel fd foundChannel operator
  have registered : client.registered = true :=
    consistent.member_registered _ channel fd client.withoutBuffers foundChannel member
      (core_clients_of_find server fd found)
  have looked : commandTable.find? (·.name == message.command) =
      some ⟨ascii "MODE", handleMode, true, false⟩ := by
    rw [command]
    rfl
  have valid : IrcUtil.isValidChannelName target = true := by
    rw [← IrcUtil.isValidChannelName_normalize]
    exact wellFormed.names _ channel foundChannel
  have isMember : channel.hasMember fd = true := by simpa [Channel.hasMember] using member
  have isOperator : channel.isOperator fd = true := by simpa [Channel.isOperator] using operator
  rw [dispatchCommand_registered found registered looked rfl]
  simp [handleMode, found, params, head_of_valid valid, foundChannel, requireChannelMember,
    isMember, requireChannelOperator, isOperator, modeLoop, command]

/-- Mode changes keep the members and the name of a channel. -/
theorem kept_of_performAll {holder : Bytes → Option Client} {actions : List ModeAction}
    {channel final : Channel}
    (performed : (modeMachine holder).performAll actions channel = some final) :
    final.members = channel.members ∧ final.name = channel.name := by
  refine Machine.performAll_induction
    (fun _ current => current.members = channel.members ∧ current.name = channel.name)
    ⟨rfl, rfl⟩ ?_ performed
  intro _ action between _ same _
  rw [← same.1, ← same.2]
  cases action with
  | operator adding fd nickname =>
      change (if adding then between.addOperator fd else between.removeOperator fd).2.members = _ ∧
        (if adding then between.addOperator fd else between.removeOperator fd).2.name = _
      cases adding with
      | true =>
          simp only [Channel.addOperator, if_true]
          split
          · exact ⟨rfl, rfl⟩
          · exact ⟨rfl, rfl⟩
      | false => exact ⟨rfl, rfl⟩
  | _ => exact ⟨rfl, rfl⟩

theorem recorded_modeLoop (named : server.core.Named) (fd : Int) (client : Client)
    {target : Bytes} {channel : Channel} (foundChannel : server.findChannel target = some channel)
    (modeString : Bytes) (arguments : List Bytes) : ∃ actions changed,
      ModeLoop.Recorded server.core target channel
        (server.modeLoop fd client target modeString arguments) actions changed := by
  have initial : ModeLoop.Recorded server.core target channel
      { server := server, arguments := arguments } [] channel :=
    ⟨rfl, (Core.setChannel_self foundChannel).symm, rfl, rfl, rfl⟩
  exact initial.foldl modeString (holdersNamed_of_named named) fd client _

theorem posts_sendModeNotice {loop : ModeLoop} {target : Bytes} {channel : Channel}
    (mail : loop.server.mail = server.mail)
    (foundChannel : loop.server.findChannel target = some channel)
    (changes : loop.changedModes ≠ []) : server.Posts
      ((channel.members.toList.filter (· != -1)).map fun member =>
        ⟨member, modeLine client channel loop.changedModes loop.changedParams⟩)
      (sendModeNotice loop client target) := by
  have notEmpty : ¬loop.changedModes.isEmpty = true := by simpa using changes
  simp only [sendModeNotice, if_neg notEmpty, foundChannel]
  rw [Posts, mail_broadcastToChannel, mail]
  rfl

/-- What a MODE command with a notice means: `modes` and `params` are the text of its
changes, and `changed` is the channel after it. -/
structure NoticeReplays (server : Server) (target : Bytes) (channel changed : Channel)
    (modes : Bytes) (params : List Bytes) : Prop where
  /-- The notice as a command of any operator, sent before the original one. -/
  again (fd : Int) (client : Client) (name : Bytes) (replay : Message) :
    server.findClientByFd fd = some client → fd ∈ channel.operators →
    IrcUtil.normalizeChannelName name = IrcUtil.normalizeChannelName target →
    replay.command = ascii "MODE" → replay.params = name :: modes :: params →
    server.dispatchCommand fd replay =
        sendModeNotice (server.modeLoop fd client name modes params) client name ∧
      (server.modeLoop fd client name modes params).changedModes = modes ∧
      (server.modeLoop fd client name modes params).changedParams = params ∧
      (server.dispatchCommand fd replay).core =
        server.core.setChannel (IrcUtil.normalizeChannelName target) changed ∧
      server.Posts (channel.members.toList.map fun member =>
        ⟨member, modeLine client changed modes params⟩) (server.dispatchCommand fd replay)
  /-- A copy of the channel that follows the notice. -/
  follows : Follower.follow server.core.holder modes params channel = changed

theorem noticeReplays_of_recorded (reached : stepSystem.Reachable server) {target : Bytes}
    {channel changed : Channel} {loop : ModeLoop} {actions : List ModeAction}
    (foundChannel : server.findChannel target = some channel)
    (recorded : ModeLoop.Recorded server.core target channel loop actions changed)
    (changes : loop.changedModes ≠ []) :
    server.NoticeReplays target channel changed loop.changedModes loop.changedParams := by
  have wellFormed := step_reachable_wellFormed reached
  constructor
  case again =>
    intro fd client name replay found operator sameName command params
    have foundName : server.findChannel name = some channel := by
      rw [← findChannel_normalize, sameName, findChannel_normalize]
      exact foundChannel
    have dispatched := dispatchCommand_mode wellFormed found foundName operator command params
    rw [recorded.changedModes, recorded.changedParams] at dispatched ⊢
    rcases @ModeLoop.foldl_renderModes name
        { server := server, arguments := actions.flatMap ModeAction.params } channel actions
        changed server.core.holder recorded.performed rfl foundName (Or.inl rfl) fd client
        (ascii "MODE") rfl with ⟨next, run, core, mail, changedModes, changedParams, _⟩
    have loop_eq : server.modeLoop fd client name (renderModes 0 actions)
        (actions.flatMap ModeAction.params) = next := run
    have foundNext : next.server.findChannel name = some changed := by
      rw [← core_channels_of_find, core]
      simp
    have members := (kept_of_performAll recorded.performed).1
    have someChange : next.changedModes ≠ [] := by
      rw [changedModes, List.nil_append, ← recorded.changedModes]
      exact changes
    have posted := @posts_sendModeNotice server client next name changed mail foundNext someChange
    rw [changedModes, changedParams, members, wellFormed.filter_members foundChannel] at posted
    rw [dispatched, loop_eq]
    refine ⟨rfl, changedModes, changedParams, ?_, posted⟩
    rw [core_sendModeNotice, core, sameName]
  case follows =>
    rw [recorded.changedModes, recorded.changedParams]
    exact @Follower.foldl_renderModes server.core.holder actions
      { params := actions.flatMap ModeAction.params, channel := channel } changed 0
        recorded.performed (Or.inl rfl) rfl

end Server

end IrcPlatform.Irc
