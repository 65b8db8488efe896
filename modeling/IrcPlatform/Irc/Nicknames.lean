import IrcPlatform.Irc.Steps

/-!
# The nickname index

The index is a second copy of the nicknames. It is the inverse of the nicknames
of the live clients under the IRC case mapping in every reachable state, so no
two clients hold nicknames that are equal up to case.
-/

namespace IrcPlatform.Irc

open Std Relation

namespace Core

/-- The index and the client records agree. -/
structure Named (core : Core) : Prop where
  held : ∀ nick fd, core.nicks nick = some fd → ∃ client, core.clients fd = some client ∧
    client.nickname ≠ [] ∧ IrcUtil.ircCaseFold client.nickname = nick
  indexed : ∀ fd client, core.clients fd = some client → client.nickname ≠ [] →
    core.nicks (IrcUtil.ircCaseFold client.nickname) = some fd
  valid : ∀ fd client, core.clients fd = some client → client.nickname ≠ [] →
    IrcUtil.isValidNickname client.nickname = true

theorem named_empty : Named ⟨fun _ => none, fun _ => none, fun _ => none⟩ := by
  constructor <;> simp

/-- Neither the index nor a nickname changes. -/
structure SameNames (before after : Core) : Prop where
  nicks : after.nicks = before.nicks
  nickname (fd : Int) :
    (after.clients fd).map (·.nickname) = (before.clients fd).map (·.nickname)

theorem SameNames.refl (core : Core) : SameNames core core := ⟨rfl, fun _ => rfl⟩

theorem SameNames.trans {before between after : Core} (first : SameNames before between)
    (second : SameNames between after) : SameNames before after :=
  ⟨second.nicks.trans first.nicks, fun fd => (second.nickname fd).trans (first.nickname fd)⟩

/-- One record is replaced by another one with the same nickname. -/
theorem SameNames.of_client {before after : Core} {fd : Int} {client changed : Client}
    (found : before.clients fd = some client) (nickname : changed.nickname = client.nickname)
    (nicks : after.nicks = before.nicks)
    (clients : ∀ other, after.clients other =
      if other = fd then some changed else before.clients other) : SameNames before after where
  nicks := nicks
  nickname other := by
    rw [clients other]
    split
    next same => simp [same, found, nickname]
    · rfl

theorem SameNames.named {before after : Core} (same : SameNames before after)
    (named : before.Named) : after.Named := by
  have original : ∀ fd client, after.clients fd = some client →
      ∃ old, before.clients fd = some old ∧ old.nickname = client.nickname := by
    intro fd client found
    have nickname := same.nickname fd
    rw [found] at nickname
    simpa using nickname.symm
  have survives : ∀ fd client, before.clients fd = some client →
      ∃ new, after.clients fd = some new ∧ new.nickname = client.nickname := by
    intro fd client found
    have nickname := same.nickname fd
    rw [found] at nickname
    simpa using nickname
  constructor
  case held =>
    intro nick fd entry
    rw [same.nicks] at entry
    rcases named.held nick fd entry with ⟨client, found, nonempty, folded⟩
    rcases survives fd client found with ⟨new, foundNew, nickname⟩
    exact ⟨new, foundNew, nickname ▸ nonempty, nickname ▸ folded⟩
  case indexed =>
    intro fd client found nonempty
    rcases original fd client found with ⟨old, foundOld, nickname⟩
    rw [same.nicks, ← nickname]
    exact named.indexed fd old foundOld (nickname ▸ nonempty)
  case valid =>
    intro fd client found nonempty
    rcases original fd client found with ⟨old, foundOld, nickname⟩
    rw [← nickname]
    exact named.valid fd old foundOld (nickname ▸ nonempty)

/-- A new client has no nickname yet. -/
theorem Named.enter {core : Core} (named : core.Named) {fd : Int} {client : Client}
    (missing : core.clients fd = none) (nameless : client.nickname = []) :
    (core.setClient fd client).Named := by
  constructor
  case held =>
    intro nick other entry
    rcases named.held nick other entry with ⟨record, found, nonempty, folded⟩
    have distinct : other ≠ fd := by
      intro same
      rw [same, missing] at found
      simp at found
    exact ⟨record, by simp [distinct, found], nonempty, folded⟩
  case indexed =>
    intro other record found nonempty
    rw [setClient_clients] at found
    split at found
    · rw [Option.some.injEq] at found
      exact absurd (found ▸ nameless) nonempty
    · exact named.indexed other record found nonempty
  case valid =>
    intro other record found nonempty
    rw [setClient_clients] at found
    split at found
    · rw [Option.some.injEq] at found
      exact absurd (found ▸ nameless) nonempty
    · exact named.valid other record found nonempty

/-- NICK: the old entry goes before the new one comes, also where both are one. -/
theorem Named.rename {core : Core} (named : core.Named) {fd : Int} {before after : Client}
    (found : core.clients fd = some before)
    (valid : IrcUtil.isValidNickname after.nickname = true)
    (available : ∀ other, core.nicks (IrcUtil.ircCaseFold after.nickname) = some other →
      other = fd) :
    (core.rename fd before.nickname after.nickname after).Named := by
  have nonemptyAfter : after.nickname ≠ [] := by
    intro empty
    rw [empty] at valid
    simp [IrcUtil.isValidNickname] at valid
  -- Whoever else is in the index has a name that folds neither to the old nor to the new one.
  have apart : ∀ other record, other ≠ fd → core.clients other = some record →
      record.nickname ≠ [] →
      IrcUtil.ircCaseFold record.nickname ≠ IrcUtil.ircCaseFold after.nickname ∧
      ¬(before.nickname ≠ [] ∧
        IrcUtil.ircCaseFold record.nickname = IrcUtil.ircCaseFold before.nickname) := by
    intro other record distinct foundOther nonempty
    have entry := named.indexed other record foundOther nonempty
    constructor
    · intro same
      rw [same] at entry
      exact distinct (available other entry)
    · rintro ⟨namedBefore, same⟩
      rw [same, named.indexed fd before found namedBefore, Option.some.injEq] at entry
      exact distinct entry.symm
  constructor
  case held =>
    intro nick other entry
    simp only [Core.rename] at entry
    split at entry
    next new =>
      rw [Option.some.injEq] at entry
      subst entry
      exact ⟨after, by simp [Core.rename], nonemptyAfter, new.symm⟩
    next old =>
      simp only [unname] at entry
      split at entry
      · simp at entry
      next kept =>
        rcases named.held nick other entry with ⟨record, foundOther, nonempty, folded⟩
        have distinct : other ≠ fd := by
          intro same
          rw [same, found, Option.some.injEq] at foundOther
          subst foundOther
          exact kept ⟨nonempty, folded.symm⟩
        exact ⟨record, by simp [Core.rename, distinct, foundOther], nonempty, folded⟩
  case indexed =>
    intro other record foundOther nonempty
    have stored : (core.setClient fd after).clients other = some record := foundOther
    rw [setClient_clients] at stored
    split at stored
    next same =>
      rw [Option.some.injEq] at stored
      subst same stored
      simp [Core.rename]
    next distinct =>
      rcases apart other record distinct stored nonempty with ⟨notNew, notOld⟩
      simp only [Core.rename, unname, if_neg notNew, if_neg notOld]
      exact named.indexed other record stored nonempty
  case valid =>
    intro other record foundOther nonempty
    have stored : (core.setClient fd after).clients other = some record := foundOther
    rw [setClient_clients] at stored
    split at stored
    · rw [Option.some.injEq] at stored
      exact stored ▸ valid
    · exact named.valid other record stored nonempty

/-- A disconnection takes the record and its entry away together. -/
theorem Named.close {core : Core} (named : core.Named) {fd : Int} {client : Client}
    (found : core.clients fd = some client) :
    ((core.unname client.nickname).remove fd).Named := by
  constructor
  case held =>
    intro nick other entry
    have kept : (core.unname client.nickname).nicks nick = some other := entry
    simp only [unname] at kept
    split at kept
    · simp at kept
    next notOwn =>
      rcases named.held nick other kept with ⟨record, foundOther, nonempty, folded⟩
      have distinct : other ≠ fd := by
        intro same
        rw [same, found, Option.some.injEq] at foundOther
        subst foundOther
        exact notOwn ⟨nonempty, folded.symm⟩
      exact ⟨record, by simp [distinct, unname, foundOther], nonempty, folded⟩
  case indexed =>
    intro other record foundOther nonempty
    rw [remove_clients] at foundOther
    split at foundOther
    · simp at foundOther
    next distinct =>
      have stored : core.clients other = some record := foundOther
      have entry := named.indexed other record stored nonempty
      have notOwn : ¬(client.nickname ≠ [] ∧
          IrcUtil.ircCaseFold record.nickname = IrcUtil.ircCaseFold client.nickname) := by
        rintro ⟨namedClient, same⟩
        rw [same, named.indexed fd client found namedClient, Option.some.injEq] at entry
        exact distinct entry.symm
      change (core.unname client.nickname).nicks _ = some other
      simp only [unname, if_neg notOwn]
      exact entry
  case valid =>
    intro other record foundOther nonempty
    rw [remove_clients] at foundOther
    split at foundOther
    · simp at foundOther
    · exact named.valid other record foundOther nonempty

end Core

/-! ## Effects on the index -/

theorem JoinEffect.sameNames {actor : Int} {before after : Core}
    (effect : JoinEffect actor before after) : before.SameNames after := by
  cases effect with
  | @create client name key found _ _ _ =>
      apply Core.SameNames.of_client found (client.addJoinedChannel_nickname key)
      · rfl
      · intro other
        exact Core.create_clients _ _ _ _ _ _
  | @admitMember client channel key found _ _ _ =>
      apply Core.SameNames.of_client found (client.addJoinedChannel_nickname key)
      · rfl
      · intro other
        exact Core.admitMember_clients _ _ _ _ _ _

theorem Core.sameNames_leave {core : Core} {fd : Int} {client : Client} {channel : Channel}
    {key : Bytes} (found : core.clients fd = some client) :
    core.SameNames (core.leave fd key client channel) := by
  apply Core.SameNames.of_client found (client.removeJoinedChannel_nickname key)
  · simp only [Core.leave]
    split
    · rfl
    · rfl
  · intro other
    exact Core.leave_clients _ _ _ _ _ _

theorem LeaveEffect.sameNames {actor : Int} {before after : Core}
    (effect : LeaveEffect actor before after) : before.SameNames after := by
  cases effect with
  | leave found _ _ => exact Core.sameNames_leave found

theorem sameNames_of_chain {effect : Core → Core → Prop}
    (single : ∀ before after, effect before after → before.SameNames after)
    {before after : Core} (chain : ReflTransGen effect before after) :
    before.SameNames after := by
  induction chain with
  | refl => exact Core.SameNames.refl before
  | tail _ step ih => exact ih.trans (single _ _ step)

theorem CommandEffect.named {actor : Int} {before after : Core}
    (effect : CommandEffect actor before after) (named : before.Named) : after.Named := by
  cases effect with
  | quiet => exact named
  | @account old new found _ nickname =>
      have same : before.SameNames (before.setClient actor new) := by
        apply Core.SameNames.of_client found nickname
        · rfl
        · intro other
          exact Core.setClient_clients _ _ _ _
      exact same.named named
  | rename found _ renamed valid available =>
      subst renamed
      exact named.rename found valid available
  | joins chain =>
      exact (sameNames_of_chain (fun _ _ => JoinEffect.sameNames) chain).named named
  | leaves chain =>
      exact (sameNames_of_chain (fun _ _ => LeaveEffect.sameNames) chain).named named
  | kick _ _ found _ => exact (Core.sameNames_leave found).named named
  | invite _ _ _ _ => exact ⟨named.held, named.indexed, named.valid⟩
  | topic _ _ _ => exact ⟨named.held, named.indexed, named.valid⟩
  | modes _ _ _ => exact ⟨named.held, named.indexed, named.valid⟩

theorem DisconnectEffect.named {fd : Int} {before after : Core}
    (effect : DisconnectEffect fd before after) (named : before.Named) : after.Named := by
  cases effect with
  | absent _ => exact named
  | @closed client left found departures _ =>
      have same := sameNames_of_chain (fun _ _ => LeaveEffect.sameNames) departures
      have nickname := same.nickname fd
      rw [found] at nickname
      rcases Option.map_eq_some_iff.mp nickname with ⟨last, foundLast, sameName⟩
      have closed := (same.named named).close foundLast
      rwa [show last.nickname = client.nickname from sameName] at closed

theorem CoreStep.named {before after : Core} (step : CoreStep before after)
    (named : before.Named) : after.Named := by
  cases step with
  | quiet => exact named
  | enter missing => exact named.enter missing rfl
  | command effect => exact effect.named named
  | close effect => exact effect.named named

namespace Server

variable {server : Server}

theorem step_reachable_named (reached : stepSystem.Reachable server) : server.core.Named :=
  step_reachable_core Core.Named Core.named_empty
    (fun _ _ _ named step => step.named named) reached

/-! ## The index on the stored records -/

/-- The index is the inverse of the nicknames of the live clients. -/
structure NicknameIndex (server : Server) : Prop where
  entry_live (key : Bytes) (fd : Int) : server.nickToFd[key]? = some fd →
    ∃ client : Client, server.clients[fd]? = some client ∧ client.nickname ≠ [] ∧
      IrcUtil.ircCaseFold client.nickname = key
  client_indexed (fd : Int) (client : Client) : server.clients[fd]? = some client →
    client.nickname ≠ [] →
    server.nickToFd[IrcUtil.ircCaseFold client.nickname]? = some fd
  nickname_valid (fd : Int) (client : Client) : server.clients[fd]? = some client →
    client.nickname ≠ [] → IrcUtil.isValidNickname client.nickname = true
  nickname_unique (fd other : Int) (client record : Client) :
    server.clients[fd]? = some client → server.clients[other]? = some record →
    client.nickname ≠ [] → record.nickname ≠ [] →
    IrcUtil.ircCaseFold client.nickname = IrcUtil.ircCaseFold record.nickname → fd = other
  lookup_iff (nickname : Bytes) (client : Client) :
    server.findClientByNickname nickname = some client ↔
      ∃ fd : Int, server.clients[fd]? = some client ∧ client.nickname ≠ [] ∧
        IrcUtil.ircCaseFold client.nickname = IrcUtil.ircCaseFold nickname

theorem nicknameIndex_of_named (named : server.core.Named) : server.NicknameIndex := by
  have entry_live : ∀ (key : Bytes) (fd : Int), server.nickToFd[key]? = some fd →
      ∃ client : Client, server.clients[fd]? = some client ∧ client.nickname ≠ [] ∧
        IrcUtil.ircCaseFold client.nickname = key := by
    intro key fd entry
    rcases named.held key fd entry with ⟨client, stored, nonempty, folded⟩
    rcases exists_find_of_core_clients server fd stored with ⟨record, found, rfl⟩
    exact ⟨record, found, nonempty, folded⟩
  have client_indexed : ∀ (fd : Int) (client : Client), server.clients[fd]? = some client →
      client.nickname ≠ [] →
      server.nickToFd[IrcUtil.ircCaseFold client.nickname]? = some fd := by
    intro fd client found nonempty
    exact named.indexed fd client.withoutBuffers (core_clients_of_find server fd found) nonempty
  constructor
  case entry_live => exact entry_live
  case client_indexed => exact client_indexed
  case nickname_valid =>
    intro fd client found nonempty
    exact named.valid fd client.withoutBuffers (core_clients_of_find server fd found) nonempty
  case nickname_unique =>
    intro fd other client record found foundOther nonempty nonemptyOther same
    have first := client_indexed fd client found nonempty
    have second := client_indexed other record foundOther nonemptyOther
    rw [same, second, Option.some.injEq] at first
    exact first.symm
  case lookup_iff =>
    intro nickname client
    simp only [findClientByNickname]
    constructor
    · intro looked
      split at looked
      · simp at looked
      next fd entry =>
        rcases entry_live _ fd entry with ⟨record, found, nonempty, folded⟩
        simp only [findClientByFd, found, Option.some.injEq] at looked
        exact ⟨fd, looked ▸ found, looked ▸ nonempty, looked ▸ folded⟩
    · rintro ⟨fd, found, nonempty, folded⟩
      have entry := client_indexed fd client found nonempty
      rw [folded] at entry
      rw [entry]
      exact found

/-- The index is exact in every reachable state. -/
theorem reachable_nicknameIndex (reached : stepSystem.Reachable server) :
    server.NicknameIndex :=
  nicknameIndex_of_named (step_reachable_named reached)

/-- The index of two members after one of them changed the case of its nickname. -/
theorem reachable_nicknameIndex_recased :
    (stepMachine.performOr alicesRoom
      [.command 4 { command := ascii "NICK", params := [ascii "Alice[]"] },
        .command 4 { command := ascii "NICK", params := [ascii "aLICE{}"] }]).NicknameIndex ∧
    (stepMachine.performOr alicesRoom
      [.command 4 { command := ascii "NICK", params := [ascii "Alice[]"] },
        .command 4 { command := ascii "NICK", params := [ascii "aLICE{}"] }]).nickToFd.toList =
      [(ascii "alice\x7b\x7d", 4), (ascii "bob", 5)] :=
  ⟨reachable_nicknameIndex (Machine.reachable_performOr reachable_alicesRoom _),
    by decide +kernel⟩

end Server

end IrcPlatform.Irc
