import IrcPlatform.Irc.Presence

/-!
# Clients that follow their channels

A registered client that has read all lines queued to it knows its nickname and the nicknames
in each of its channels. Every element of a command is a change of the rosters and the notice
that tells of it; the lists of JOIN and PART add up what their elements keep.
-/

namespace IrcPlatform.Irc

open Std

/-- What a client that knows something makes of more lines. -/
def reading (watcher : Watcher Bytes Bytes) (lines : List Bytes) : Watcher Bytes Bytes :=
  watcher.hearAll (lines.filterMap tiding)

theorem reading_append (watcher : Watcher Bytes Bytes) (first second : List Bytes) :
    reading watcher (first ++ second) = reading (reading watcher first) second := by
  rw [reading, List.filterMap_append, Watcher.hearAll_append, reading, reading]

theorem reading_silent (watcher : Watcher Bytes Bytes) {lines : List Bytes}
    (silent : ∀ line ∈ lines, tiding line = none) : reading watcher lines = watcher := by
  rw [reading, List.filterMap_eq_nil_iff.mpr silent]
  rfl

theorem reading_single (watcher : Watcher Bytes Bytes) {line : Bytes} {told : Tiding Bytes Bytes}
    (tells : tiding line = some told) : reading watcher [line] = watcher.hear told := by
  rw [reading, List.filterMap_cons_some tells]
  rfl

/-- What the server says is passed over by a client that awaits nothing from it. -/
theorem reading_fromServer {watcher : Watcher Bytes Bytes} (named : watcher.name.isSome = true)
    (settled : watcher.entering = none) {lines : List Bytes}
    (quiet : ∀ line ∈ lines, ∀ told, tiding line = some told → told.opens = false) :
    reading watcher (lines.filter (!Reply.fromServer ·)) = reading watcher lines := by
  have sameShared : ((lines.filter (!Reply.fromServer ·)).filterMap tiding).filter
      (!·.isPersonal) = (lines.filterMap tiding).filter (!·.isPersonal) := by
    induction lines with
    | nil => rfl
    | cons line rest ih =>
        rw [List.forall_mem_cons] at quiet
        cases fromServer : Reply.fromServer line with
        | false =>
            rw [List.filter_cons_of_pos (by simp [fromServer])]
            cases read : tiding line with
            | none => rw [List.filterMap_cons_none read, List.filterMap_cons_none read, ih quiet.2]
            | some told =>
                rw [List.filterMap_cons_some read, List.filterMap_cons_some read,
                  List.filter_cons, List.filter_cons, ih quiet.2]
        | true =>
            rw [List.filter_cons_of_neg (by simp [fromServer]), ih quiet.2]
            cases read : tiding line with
            | none => rw [List.filterMap_cons_none read]
            | some told =>
                rw [List.filterMap_cons_some read,
                  List.filter_cons_of_neg (by simp [personal_of_fromServer fromServer read])]
  have calm {some_ : List Bytes} (within : ∀ line ∈ some_, line ∈ lines) :
      ∀ told ∈ some_.filterMap tiding, told.opens = false := by
    intro told listed
    rcases List.mem_filterMap.mp listed with ⟨line, inside, read⟩
    exact quiet line (within line inside) told read
  rw [reading, reading, ← Watcher.hearAll_filter named settled (calm fun _ => id), ← sameShared,
    Watcher.hearAll_filter named settled (calm fun _ listed => (List.mem_filter.mp listed).1)]

namespace Server

/-- What every client knows: nothing before its welcome, and then who is in its channels. -/
structure Informed (server : Server) (watchers : Int → Watcher Bytes Bytes) : Prop where
  follows (fd : Int) (client : Client) : server.findClientByFd fd = some client →
    client.registered = true → (watchers fd).Follows server.core.rosters client.nickname
  unheard (fd : Int) (client : Client) : server.findClientByFd fd = some client →
    client.registered = false → watchers fd = {}

/-- The clients are informed again when they have read their lines. -/
def Informs (before after : Server) : Prop :=
  ∃ postings, before.Posts postings after ∧ ∀ watchers, before.Informed watchers →
    after.Informed fun fd => reading (watchers fd) (addressed fd postings)

/-- The same for notices. -/
def Notifies (before : Server) (notices : List Notice) (after : Server) : Prop :=
  ∀ watchers, before.Informed watchers →
    after.Informed fun fd => reading (watchers fd) (copies fd notices)

variable {server before between after : Server} {watchers : Int → Watcher Bytes Bytes}
  {fd : Int} {client : Client}

theorem Informed.congr {others : Int → Watcher Bytes Bytes} (informed : server.Informed watchers)
    (same : ∀ fd client, server.findClientByFd fd = some client → others fd = watchers fd) :
    server.Informed others where
  follows fd client found registered := by
    rw [same fd client found]
    exact informed.follows fd client found registered
  unheard fd client found unregistered := by
    rw [same fd client found]
    exact informed.unheard fd client found unregistered

/-- A change that nobody is told of, because no roster and no name changes. -/
theorem Informed.quiet (informed : before.Informed watchers)
    (rosters : after.core.rosters = before.core.rosters)
    (clients : ∀ fd client, after.findClientByFd fd = some client →
      ∃ former, before.findClientByFd fd = some former ∧
        client.registered = former.registered ∧
        (client.registered = true → client.nickname = former.nickname)) :
    after.Informed watchers where
  follows fd client found registered := by
    rcases clients fd client found with ⟨former, there, same, name⟩
    rw [rosters, name registered]
    exact informed.follows fd former there (same ▸ registered)
  unheard fd client found unregistered := by
    rcases clients fd client found with ⟨former, there, same, _⟩
    exact informed.unheard fd former there (same ▸ unregistered)

theorem Informed.sameRecords (informed : before.Informed watchers)
    (same : SameRecords before after) (rosters : after.core.rosters = before.core.rosters) :
    after.Informed watchers := by
  apply informed.quiet rosters
  intro fd client found
  rcases same.exists_before found with ⟨former, there, identity⟩
  exact ⟨former, there, (Client.registered_of_identity identity).symm,
    fun _ => (Client.nickname_of_identity identity).symm⟩

/-- The audience of a notice is everybody whom the change concerns. -/
theorem notifies_of_change {told : Tiding Bytes Bytes} {notice : Notice}
    (tells : tiding notice.line = some told)
    (rosters : after.core.rosters = before.core.rosters.after told)
    (clients : ∀ fd client, after.findClientByFd fd = some client →
      ∃ former, before.findClientByFd fd = some former ∧
        client.registered = former.registered ∧
        (former.registered = false → fd ∉ notice.audience) ∧
        (former.registered = true →
          client.nickname = Tiding.nameAfter former.nickname told ∧
          (fd ∈ notice.audience ↔ before.core.rosters.Concerns former.nickname told) ∧
          before.core.rosters.Allows former.nickname told)) :
    before.Notifies [notice] after := by
  intro watchers informed
  constructor
  case follows =>
    intro fd client found registered
    rcases clients fd client found with ⟨former, there, same, _, known⟩
    rw [same] at registered
    rcases known registered with ⟨name, audience, allowed⟩
    have follows := informed.follows fd former there registered
    rw [rosters, name]
    by_cases listed : fd ∈ notice.audience
    · rw [copies_of_mem listed, reading_single _ tells]
      exact follows.told (audience.mp listed) allowed
    · rw [copies_of_not_mem listed]
      exact follows.untold (mt audience.mpr listed) allowed
  case unheard =>
    intro fd client found unregistered
    rcases clients fd client found with ⟨former, there, same, stranger, _⟩
    rw [same] at unregistered
    rw [copies_of_not_mem (stranger unregistered)]
    exact informed.unheard fd former there unregistered

theorem Notifies.refl (server : Server) : server.Notifies [] server :=
  fun _ informed => informed

theorem Notifies.trans {notices more : List Notice} (first : before.Notifies notices between)
    (second : between.Notifies more after) : before.Notifies (notices ++ more) after := by
  intro watchers informed
  apply (second _ (first watchers informed)).congr
  intro fd _ _
  rw [copies_append, reading_append]

theorem Informs.refl (server : Server) : server.Informs server :=
  ⟨[], Posts.refl server, fun _ informed => informed⟩

theorem Informs.trans (first : before.Informs between) (second : between.Informs after) :
    before.Informs after := by
  rcases first with ⟨postings, posts, informs⟩
  rcases second with ⟨later, postsLater, informsLater⟩
  refine ⟨postings ++ later, posts.trans postsLater, ?_⟩
  intro watchers informed
  apply (informsLater _ (informs watchers informed)).congr
  intro fd _ _
  rw [addressed_append, reading_append]

/-- Delivered notices inform everybody, unless they open a channel to the sender. -/
theorem Notifies.informs {notices : List Notice} (notifies : before.Notifies notices after)
    (delivers : Delivers fd before notices after)
    (found : before.findClientByFd fd = some client) (registered : client.registered = true)
    (quiet : ∀ notice ∈ notices, ∀ told, tiding notice.line = some told → told.opens = false) :
    before.Informs after := by
  rcases delivers with ⟨postings, posts, sorted⟩
  refine ⟨postings, posts, ?_⟩
  intro watchers informed
  apply (notifies watchers informed).congr
  intro other record _
  by_cases own : other = fd
  · subst own
    have follows := informed.follows other client found registered
    rw [← sorted.own]
    apply (reading_fromServer (by rw [follows.named]; rfl) follows.settled ?_).symm
    intro line listed told read
    cases fromServer : Reply.fromServer line with
    | true =>
        have personal := personal_of_fromServer fromServer read
        cases told <;> simp_all [Tiding.isPersonal, Tiding.opens]
    | false =>
        have copied : line ∈ copies other notices := by
          rw [← sorted.own]
          exact List.mem_filter.mpr ⟨listed, by simp [fromServer]⟩
        rcases List.mem_map.mp copied with ⟨notice, chosen, rfl⟩
        exact quiet notice (List.mem_filter.mp chosen).1 told read
  · rw [sorted.others other own]

end Server

end IrcPlatform.Irc
