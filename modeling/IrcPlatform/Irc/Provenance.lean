import IrcPlatform.Irc.Informing
import IrcPlatform.Irc.Permissions

/-!
# How members and operators came to be

Whoever is in a channel founded it or was let in by its rules, and whoever is invited or an
operator owes it to somebody who was an operator then, and so back to the founder.
-/

namespace IrcPlatform.Irc

open Std Relation

/-! ## Standing in a channel -/

inductive Role where
  | member
  | operator
  | invited
deriving DecidableEq

/-- The clients that have the role in a channel. -/
def Role.holders : Role → Channel → ExtTreeSet Int
  | member, channel => channel.members
  | operator, channel => channel.operators
  | invited, channel => channel.invited

def Core.Holds (core : Core) (key : Bytes) (role : Role) (fd : Int) : Prop :=
  ∃ channel, core.channels key = some channel ∧ fd ∈ role.holders channel

instance (core : Core) (key : Bytes) (role : Role) (fd : Int) :
    Decidable (core.Holds key role fd) :=
  decidable_of_iff ((core.channels key).any fun channel => (role.holders channel).contains fd)
    (by simp only [Core.Holds, Option.any_eq_true, ExtTreeSet.contains_iff_mem])

/-- Nobody has a role who had it not before. -/
def Core.NoGain (role : Role) (before after : Core) : Prop :=
  ∀ key fd, after.Holds key role fd → before.Holds key role fd

namespace Core.NoGain

variable {role : Role} {before between after : Core}

theorem of_channels (same : after.channels = before.channels) : before.NoGain role after := by
  rintro key fd ⟨channel, stored, holds⟩
  exact ⟨channel, same ▸ stored, holds⟩

theorem of_eq (same : after = before) : before.NoGain role after :=
  of_channels (congrArg Core.channels same)

theorem trans (first : before.NoGain role between) (second : between.NoGain role after) :
    before.NoGain role after :=
  fun key fd holds => first key fd (second key fd holds)

theorem leave {target : Int} {client : Client} {channel : Channel} {key : Bytes}
    (stored : before.channels key = some channel) :
    before.NoGain role (before.leave target key client channel) := by
  rintro other fd ⟨left, storedLeft, holds⟩
  rw [Core.leave_channels] at storedLeft
  split at storedLeft
  next same =>
    split at storedLeft
    · cases storedLeft
    · refine ⟨channel, same ▸ stored, ?_⟩
      rw [← Option.some.inj storedLeft] at holds
      cases role with
      | member => exact (by simpa [Role.holders] using holds : _ ∧ _).2
      | operator => exact (by simpa [Role.holders] using holds : _ ∧ _).2
      | invited => exact (by simpa [Role.holders] using holds : _ ∧ _).2
  · exact ⟨left, storedLeft, holds⟩

theorem leaves {fd : Int} (chain : ReflTransGen (LeaveEffect fd) before after) :
    before.NoGain role after := by
  induction chain with
  | refl => exact of_eq rfl
  | tail _ effect ih =>
      cases effect with
      | leave _ stored _ => exact ih.trans (leave stored)

theorem setChannel {key : Bytes} {channel changed : Channel}
    (stored : before.channels key = some channel)
    (fewer : ∀ fd ∈ role.holders changed, fd ∈ role.holders channel) :
    before.NoGain role (before.setChannel key changed) := by
  rintro other fd ⟨found, storedFound, holds⟩
  rw [Core.setChannel_channels] at storedFound
  split at storedFound
  next same =>
    rw [← Option.some.inj storedFound] at holds
    exact ⟨channel, same ▸ stored, fewer fd holds⟩
  · exact ⟨found, storedFound, holds⟩

theorem of_keepsRosters (kept : before.KeepsRosters after) : before.NoGain .member after := by
  rintro key fd ⟨channel, stored, member⟩
  have same := kept.channels key
  rw [stored, Option.map_some] at same
  rcases Option.map_eq_some_iff.mp same.symm with ⟨former, there, equal⟩
  have members : former.members = channel.members := (Prod.mk.inj equal).2
  refine ⟨former, there, ?_⟩
  rw [Role.holders] at member ⊢
  rwa [members]

theorem disconnect {fd : Int} (effect : DisconnectEffect fd before after) :
    before.NoGain role after := by
  cases effect with
  | absent _ => exact of_eq rfl
  | @closed client left _ departures _ =>
      refine (leaves departures).trans ?_
      rintro key other ⟨channel, stored, holds⟩
      rcases Option.map_eq_some_iff.mp stored with ⟨former, there, rfl⟩
      refine ⟨former, there, ?_⟩
      cases role with
      | member => exact holds
      | operator => exact holds
      | invited => exact (by simpa [Role.holders] using holds : _ ∧ _).2

end Core.NoGain

/-! ## Entries -/

/-- An element of a JOIN list names the channel and meets its rules. -/
inductive LetIn (fd : Int) (names keys : List Bytes) (key : Bytes) (stored : Option Channel) :
    Prop where
  | element {position : Nat} {name : Bytes} (asked : names[position]? = some name)
      (normalized : IrcUtil.normalizeChannelName name = key)
      (rules : ∀ channel, stored = some channel → channel.PassesInvite fd ∧
        channel.PassesKey (keys.getD position []) ∧ channel.HasRoom) :
      LetIn fd names keys key stored

theorem LetIn.cons {fd : Int} {name : Bytes} {names keys : List Bytes} {key : Bytes}
    {stored : Option Channel} (letIn : LetIn fd names keys.tail key stored) :
    LetIn fd (name :: names) keys key stored := by
  rcases letIn with ⟨asked, normalized, rules⟩
  rename_i position other
  have later : keys.tail.getD position [] = keys.getD (position + 1) [] := by
    cases keys with
    | nil => rfl
    | cons _ _ => rfl
  rw [later] at rules
  exact .element ((List.getElem?_cons_succ).trans asked) normalized rules

theorem newChannel_members {fd other : Int} (name : Bytes) :
    other ∈ (newChannel fd name).members ↔ other = fd := by
  rw [newChannel, ExtTreeSet.mem_insert]
  constructor
  · rintro (same | absent)
    · exact (LawfulEqCmp.eq_of_compare same).symm
    · exact absurd absent ExtTreeSet.not_mem_empty
  · rintro rfl
    exact Or.inl ReflCmp.compare_self

namespace Server

variable {server : Server} {fd : Int} {client : Client}

theorem joinElement_cases (consistent : server.core.Consistent)
    (found : server.findClientByFd fd = some client) (name key : Bytes) :
    (server.joinElement fd name key).core = server.core ∨ server.Admits fd name key ∧
      JoinAdmission fd name server (server.joinElement fd name key)
        (server.enteredChannel fd name) := by
  have outcome := joinElement_outcome consistent found name key
  generalize server.joinElement fd name key = after at outcome
  cases outcome with
  | refused _ _ answered => exact .inl (by rw [answered, core_queueToClient])
  | member _ same => exact .inl (by rw [same])
  | admitted admits core _ =>
      exact .inr ⟨admits, joinAdmission_of_core consistent found admits core⟩

/-- Whoever is in a channel behind a JOIN list and was not before it has sent the list. -/
theorem letIn_of_joinElements (sender : Sender server fd client) (names keys : List Bytes)
    {other : Int} {key : Bytes}
    (inside : (joinElements fd names keys server).core.IsMember other key)
    (outside : ¬server.core.IsMember other key) :
    other = fd ∧ LetIn fd names keys key (server.core.channels key) := by
  induction names generalizing server client keys with
  | nil => exact absurd inside outside
  | cons name names ih =>
      rcases sender.joinElement name (keys.headD []) with ⟨current, later, _⟩
      have happened := joinElement_cases sender.wellFormed.consistent sender.found name
        (keys.headD [])
      by_cases between : (server.joinElement fd name (keys.headD [])).core.IsMember other key
      · rcases happened with same | ⟨admits, admission⟩
        · exact absurd (same ▸ between) outside
        · rcases between with ⟨channel, stored, member⟩
          by_cases named : key = IrcUtil.normalizeChannelName name
          · subst named
            rw [admission.stored, Option.some.injEq] at stored
            have first : keys.headD [] = keys.getD 0 [] := by
              cases keys with
              | nil => rfl
              | cons _ _ => rfl
            have own : other = fd := by
              cases former : server.core.channels (IrcUtil.normalizeChannelName name) with
              | none =>
                  rw [← stored, admission.created former] at member
                  exact (newChannel_members name).mp member
              | some old =>
                  rw [← stored, admission.existing old former, ExtTreeSet.mem_insert] at member
                  rcases member with same | member
                  · exact (LawfulEqCmp.eq_of_compare same).symm
                  · exact absurd ⟨old, former, member⟩ outside
            refine ⟨own, .element (List.getElem?_cons_zero) rfl ?_⟩
            intro channel former
            rw [← first]
            exact admits.existing channel ((core_channels_of_find server name).symm.trans former)
          · exact absurd ⟨channel, (admission.channels key named).symm.trans stored, member⟩
              outside
      · rcases ih later keys.tail inside between with ⟨own, letIn⟩
        refine ⟨own, ?_⟩
        have unchanged : (server.joinElement fd name (keys.headD [])).core.channels key =
            server.core.channels key := by
          rcases happened with same | ⟨_, admission⟩
          · rw [same]
          · refine admission.channels key fun named => between ?_
            rw [own, named]
            exact ⟨_, admission.stored, admission.member⟩
        rw [unchanged] at letIn
        exact letIn.cons

/-- The commands of a registered client other than the list of a JOIN let nobody in. -/
theorem noGain_of_handler (sender : Sender server fd client) {message : Message}
    {entry : CommandEntry} (listed : entry ∈ commandTable) (command : message.command = entry.name)
    (fresh : entry.rejectsWhenRegistered = true → client.registered = false)
    (noList : ¬EntersList message) :
    server.core.NoGain .member (entry.handler server fd message).core := by
  have consistent := sender.wellFormed.consistent
  simp only [commandTable, List.mem_cons, List.not_mem_nil, or_false] at listed
  rcases listed with
    rfl | rfl | rfl | rfl | rfl | rfl | rfl | rfl | rfl | rfl | rfl | rfl | rfl | rfl
  · exact absurd (fresh rfl) (by simp [sender.registered])
  · exact .of_channels (channels_handleNick sender.found message)
  · exact absurd (fresh rfl) (by simp [sender.registered])
  · exact .of_eq (handleCap_core ..)
  · exact .of_eq (handlePing_core ..)
  · exact .of_eq rfl
  · exact .of_eq (handleQuit_core ..)
  · change server.core.NoGain .member (server.handleJoin fd message).core
    unfold handleJoin
    rw [sender.found]
    dsimp only
    split
    · exact .of_eq (core_requireParams ..)
    next targets arguments params =>
      split
      · exact .leaves (leaveAll_effect _ _ consistent)
      next notAll =>
        exact absurd ⟨command, targets, arguments, params, by simpa using notAll⟩ noList
  · exact .of_eq (handlePrivmsg_core ..)
  · change server.core.NoGain .member (server.handleKick fd message).core
    rcases params : message.params with _ | ⟨channelName, _ | ⟨targetNick, arguments⟩⟩
    · simp only [handleKick, sender.found, params]
      exact .of_eq (core_requireParams ..)
    · simp only [handleKick, sender.found, params]
      exact .of_eq (core_requireParams ..)
    · rcases kick_cases sender params with ⟨_, same⟩ | ⟨channel, target, stored, _, _, _, core⟩
      · exact .of_eq same
      · rw [core]
        exact .leave stored
  · exact .of_keepsRosters (handleInvite_keepsRosters message)
  · exact .of_keepsRosters (handleTopic_keepsRosters message)
  · exact .of_keepsRosters (handleMode_keepsRosters message)
  · change server.core.NoGain .member (server.handlePart fd message).core
    unfold handlePart
    rw [sender.found]
    dsimp only
    split
    · exact .of_eq (core_requireParams ..)
    · exact .leaves (partElements_effect _ _ consistent)

/-- Somebody who is not registered lets nobody in. -/
theorem noGain_of_unregistered {after : Core} (effect : CommandEffect fd server.core after)
    (found : server.findClientByFd fd = some client) (unregistered : client.registered = false) :
    server.core.NoGain .member after := by
  cases effect with
  | quiet => exact .of_eq rfl
  | account _ _ _ => exact .of_channels rfl
  | rename _ _ _ _ _ => exact .of_channels rfl
  | joins chain =>
      have stranger {client' : Client} (stored : server.core.clients fd = some client')
          (registered : client'.registered = true) : False := by
        rw [core_clients_of_find server fd found] at stored
        rw [← Option.some.inj stored] at registered
        exact absurd registered (by simp [Client.withoutBuffers, unregistered])
      rcases ReflTransGen.cases_head chain with rfl | ⟨between, effect, _⟩
      · exact .of_eq rfl
      · cases effect with
        | create stored registered _ _ => exact (stranger stored registered).elim
        | admitMember stored registered _ _ => exact (stranger stored registered).elim
  | leaves chain => exact .leaves chain
  | kick stored _ _ _ => exact .leave stored
  | invite stored _ _ _ => exact .setChannel stored fun _ member => member
  | topic stored _ _ => exact .setChannel stored fun _ member => member
  | modes stored _ change =>
      refine .setChannel stored fun other member => ?_
      rw [Role.holders] at member ⊢
      rwa [← change.members]

/-- A JOIN that lets its sender into a channel. -/
inductive Enters (server : Server) (fd : Int) (message : Message) (key : Bytes) : Prop where
  | list {targets : Bytes} {arguments : List Bytes} (command : message.command = ascii "JOIN")
      (params : message.params = targets :: arguments)
      (letIn : LetIn fd (IrcUtil.splitCommaList targets) (joinKeys arguments) key
        (server.core.channels key)) : Enters server fd message key

/-- Whoever is in a channel behind a command and was not before it has sent the command. -/
theorem enters_of_dispatchCommand (invariants : server.Invariants) {message : Message}
    {other : Int} {key : Bytes}
    (inside : (server.dispatchCommand fd message).core.IsMember other key)
    (outside : ¬server.core.IsMember other key) : other = fd ∧ Enters server fd message key := by
  have consistent := invariants.wellFormed.consistent
  cases found : server.findClientByFd fd with
  | none =>
      simp only [dispatchCommand, found] at inside
      exact absurd inside outside
  | some client =>
      cases registered : client.registered with
      | false =>
          have noGain := noGain_of_unregistered (dispatchCommand_effect consistent fd message)
            found registered
          exact absurd (noGain key other inside) outside
      | true =>
          have sender : Sender server fd client := ⟨found, registered,
            invariants.nickname_valid found, invariants.serverName, invariants.wellFormed⟩
          by_cases entersList : EntersList message
          · rcases entersList with ⟨command, targets, arguments, params, notAll⟩
            rw [dispatchCommand_joinElements found registered command params notAll] at inside
            rcases letIn_of_joinElements sender _ _ inside outside with ⟨own, letIn⟩
            exact ⟨own, .list command params letIn⟩
          · have noGain : server.core.NoGain .member (server.dispatchCommand fd message).core := by
              have happened := dispatchCommand_cases found message
              generalize server.dispatchCommand fd message = after at happened
              cases happened with
              | unknown _ _ => exact .of_eq (core_queueToClient ..)
              | ignored _ _ => exact .of_eq rfl
              | refused _ _ _ _ => exact .of_eq (core_queueToClient ..)
              | rejected _ _ _ _ => exact .of_eq (core_queueToClient ..)
              | handled listed same _ fresh =>
                  exact noGain_of_handler sender listed same.symm fresh entersList
            exact absurd (noGain key other inside) outside

/-! ## Lineages -/

/-- How a client came to its role in the channel, step by step since the start. -/
inductive Lineage (start : Server) (key : Bytes) : List ServerStep → Role → Int → Prop where
  | founded {steps : List ServerStep} {before : Server} {fd : Int} {message : Message} {role : Role}
      (performed : stepMachine.performAll steps start = some before)
      (enters : before.Enters fd message key) (free : before.core.channels key = none)
      (standing : role ≠ .invited) : Lineage start key (steps ++ [.command fd message]) role fd
  | entered {steps : List ServerStep} {before : Server} {fd : Int} {message : Message}
      {channel : Channel} (performed : stepMachine.performAll steps start = some before)
      (enters : before.Enters fd message key) (stored : before.core.channels key = some channel)
      (invitation : channel.inviteOnly = true → Lineage start key steps .invited fd) :
      Lineage start key (steps ++ [.command fd message]) .member fd
  | granted {steps : List ServerStep} {before : Server} {actor fd : Int} {message : Message}
      {channel : Channel} {role : Role}
      (performed : stepMachine.performAll steps start = some before)
      (stored : before.core.channels key = some channel) (operator : actor ∈ channel.operators)
      (authority : Lineage start key steps .operator actor) (right : role ≠ .member)
      (member : role = .operator → Lineage start key steps .member fd) :
      Lineage start key (steps ++ [.command actor message]) role fd
  | kept {steps : List ServerStep} {before : Server} {step : ServerStep} {role : Role} {fd : Int}
      (performed : stepMachine.performAll steps start = some before)
      (held : before.core.Holds key role fd) (earlier : Lineage start key steps role fd) :
      Lineage start key (steps ++ [step]) role fd

section Steps

variable {start before : Server} {key : Bytes} {steps : List ServerStep} {role : Role}

/-- Only commands give roles. -/
theorem noGain_of_step (consistent : before.core.Consistent) {step : ServerStep}
    (ready : before.ready step = true) (noCommand : ∀ fd message, step ≠ .command fd message) :
    before.core.NoGain role (before.advance step).core := by
  cases step with
  | accept fd peerAddress =>
      refine .of_channels ?_
      change (before.acceptClient _).core.channels = _
      rw [core_acceptClient (core_clients_of_ready ready)]
      rfl
  | receive fd data => exact .of_eq (core_appendReceiveBuffer before fd data)
  | consume fd length => exact .of_eq (core_eraseReceivePrefix before fd length)
  | command fd message => exact absurd rfl (noCommand fd message)
  | refuse fd error => exact .of_eq (core_queueToClient ..)
  | reserve fd => exact .of_eq rfl
  | flush fd sent => exact .of_eq (core_flushSendBuffer ..)
  | takeReservations => exact .of_eq rfl
  | disconnect fd reason => exact .disconnect (disconnectClient_effect consistent fd reason)

theorem enters_of_command (invariants : before.Invariants) {actor fd : Int} {message : Message}
    (inside : (before.advance (.command actor message)).core.Holds key .member fd)
    (outside : ¬before.core.Holds key .member fd) :
    fd = actor ∧ before.Enters actor message key := by
  rcases enters_of_dispatchCommand (invariants.record _) inside outside with ⟨own, enters⟩
  cases enters with
  | list command params letIn => exact ⟨own, .list command params letIn⟩

/-- A role that a command gives is given to the one who founds or enters the channel, or by an
operator. -/
theorem lineage_of_command (invariants : before.Invariants)
    (performed : stepMachine.performAll steps start = some before)
    (earlier : ∀ role fd, before.core.Holds key role fd → Lineage start key steps role fd)
    {actor fd : Int} {message : Message}
    (holds : (before.advance (.command actor message)).core.Holds key role fd)
    (fresh : ¬before.core.Holds key role fd) :
    Lineage start key (steps ++ [.command actor message]) role fd := by
  have consistent := invariants.wellFormed.consistent
  have effect := invokeDispatch_effect consistent actor message
  have after := effect.consistent consistent
  have law := effect.law consistent
  rcases holds with ⟨channel, stored, holder⟩
  cases former : before.core.channels key with
  | none =>
      have created := law.created key channel former stored
      have outside : ¬before.core.Holds key .member actor := by
        rintro ⟨old, there, _⟩
        rw [former] at there
        cases there
      have enters := (enters_of_command invariants
        ⟨channel, stored, (created.members actor).mpr rfl⟩ outside).2
      cases role with
      | member =>
          rcases (created.members fd).mp holder with rfl
          exact .founded performed enters former (by decide)
      | operator =>
          rcases (created.operators fd).mp holder with rfl
          exact .founded performed enters former (by decide)
      | invited => exact absurd holder (created.invited fd)
  | some old =>
      have lawful := law.existing key old former
      have absent : fd ∉ role.holders old := fun listed => fresh ⟨old, former, listed⟩
      cases role with
      | member =>
          rcases enters_of_command invariants ⟨channel, stored, holder⟩ fresh with ⟨rfl, enters⟩
          refine .entered performed enters former fun inviteOnly => ?_
          cases enters with
          | list _ _ letIn =>
              cases letIn with
              | element _ _ rules =>
                  exact earlier .invited fd ⟨old, former, (rules old former).1 inviteOnly⟩
      | operator =>
          have operator := lawful.operator_added channel stored fd holder absent
          have authority := earlier .operator actor ⟨old, former, operator⟩
          refine .granted performed former operator authority (by decide) fun _ => ?_
          refine earlier .member fd ⟨old, former, ?_⟩
          by_contra outside
          have member := after.operator_member key channel fd stored holder
          rcases lawful.member_added channel stored fd member outside with rfl
          exact absent operator
      | invited =>
          have operator := lawful.invited_added channel stored fd holder absent
          have authority := earlier .operator actor ⟨old, former, operator⟩
          exact .granted performed former operator authority (by decide) fun other => by cases other

end Steps

/-- In every run from the start of the server, every role in a channel has a lineage. -/
theorem lineage_of_run {password serverStartTime : Bytes} {listenFd : Int}
    {steps : List ServerStep} {server : Server}
    (performed : stepMachine.performAll steps (fresh password serverStartTime listenFd) =
      some server) {key : Bytes} {role : Role} {fd : Int} (holds : server.core.Holds key role fd) :
    Lineage (fresh password serverStartTime listenFd) key steps role fd := by
  have start := step_reachable_fresh password serverStartTime listenFd
  refine Machine.performAll_induction (fun steps server => ∀ role fd,
    server.core.Holds key role fd → Lineage _ key steps role fd) ?_ ?_ performed role fd holds
  · rintro role fd ⟨channel, stored, _⟩
    rw [core_fresh] at stored
    cases stored
  · intro steps step before performed earlier ready role fd holds
    have reached : stepSystem.Reachable before :=
      Machine.reaches_performAll start performed (Machine.everyStep_true _ _)
    have invariants := step_reachable_invariants reached
    by_cases held : before.core.Holds key role fd
    · exact .kept performed held (earlier role fd held)
    · by_cases command : ∃ actor message, step = .command actor message
      · rcases command with ⟨actor, message, rfl⟩
        exact lineage_of_command invariants performed earlier holds held
      · have noCommand : ∀ fd message, step ≠ .command fd message :=
          fun actor message same => command ⟨actor, message, same⟩
        exact absurd (noGain_of_step invariants.wellFormed.consistent ready noCommand key fd holds)
          held

/-- Alice founds an invite-only channel, lets Bob in and makes him an operator. -/
def promotionSteps : List ServerStep :=
  enterSteps 4 (ascii "alice") (ascii "#Room") ++
    (enterSteps 5 (ascii "bob") (ascii "#room")).dropLast ++
  [ .command 4 { command := ascii "MODE", params := [ascii "#Room", ascii "+i"] },
    .command 4 { command := ascii "INVITE", params := [ascii "bob", ascii "#room"] },
    .command 5 { command := ascii "JOIN", params := [ascii "#ROOM"] },
    .command 4 { command := ascii "MODE", params := [ascii "#Room", ascii "+o", ascii "bob"] } ]

theorem lineage_of_run_bob :
    Lineage (fresh (ascii "secret") (ascii "today") 3) (ascii "#room") promotionSteps .operator
      5 := by
  have performs : (stepMachine.performAll promotionSteps
      (fresh (ascii "secret") (ascii "today") 3)).isSome := by decide +kernel
  exact lineage_of_run (Machine.performAll_eq_performOr performs) (by decide +kernel)

end Server

end IrcPlatform.Irc
