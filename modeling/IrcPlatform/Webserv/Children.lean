import IrcPlatform.Webserv.Stories

/-!
# Children

The processes that have been forked and not been waited for are those of the clients with a
script, each of one client. A process is only killed and waited for while it is a child, and
a `waitpid` that blocks comes right behind the `kill` of the process.
-/

namespace IrcPlatform.Webserv

open Std

def Call.isProcess : Call → Bool
  | .forked _ | .killed _ | .reaped _ _ => true
  | _ => false

/-- The calls that processes are started, killed and waited for with. -/
def processCalls (calls : List Call) : List Call := calls.filter (·.isProcess)

/-- What a call must find. -/
def Waits (early : List Call) : Call → Prop
  | .forked pid => pid ∉ Server.children early
  | .killed pid => pid ∈ Server.children early
  | .reaped pid blocking =>
      pid ∈ Server.children early ∧ (blocking = true → early.getLast? = some (.killed pid))
  | _ => True

/-- The process of a connection, while it has not been waited for. -/
def live : Option View × Waited → Option Int
  | (some (client, _), .no) => if 0 < client.cgiPid then some client.cgiPid else none
  | _ => none

/-- The children after the process calls are the processes of the connections. -/
structure Tends (log : List Call) (lives : Int → Option Int) : Prop where
  nodup : (Server.children log).Nodup
  owned : ∀ pid, pid ∈ Server.children log ↔ ∃ fd, lives fd = some pid
  unique : ∀ fd other pid, lives fd = some pid → lives other = some pid → fd = other
  lawful : Lawful Waits log

def Tended (moment : Moment) : Prop :=
  Tends (processCalls moment.server.calls) fun fd =>
    live (moment.server.view fd, moment.waited fd)

/-- What a step does to the processes. -/
inductive ProcessMove (new : List Call) (before after : Option Int) : Prop where
  | none (same : after = before) (calls : processCalls new = [])
  | attempt {pid : Int} (same : after = before)
      (calls : processCalls new = [.forked pid, .killed pid, .reaped pid true])
  | started {pid : Int} (idle : before = .none) (running : after = some pid)
      (calls : processCalls new = [.forked pid])
  | reaped {pid : Int} (running : before = some pid) (spent : after = .none)
      (calls : processCalls new = [.reaped pid false])
  | killed {pid : Int} (running : before = some pid) (spent : after = .none)
      (calls : processCalls new = [.killed pid, .reaped pid true])

variable {given : Circumstances} {before after : Moment} {fd pid : Int} {calls new : List Call}

theorem processCalls_append (calls new : List Call) :
    processCalls (calls ++ new) = processCalls calls ++ processCalls new := List.filter_append _ _

theorem processCalls_cons (call : Call) (calls : List Call) :
    processCalls (call :: calls) = processCalls [call] ++ processCalls calls :=
  processCalls_append [call] calls

theorem processCalls_files (files : ∀ call ∈ calls, call.isFile = true) :
    processCalls calls = [] := by
  rw [processCalls, List.filter_eq_nil_iff]
  intro call listed
  have file := files call listed
  cases call <;> first | (cases file; done) | simp [Call.isProcess]

theorem Attempt.processes (tried : Attempt calls) : processCalls calls = [] ∨
    ∃ pid, processCalls calls = [.forked pid, .killed pid, .reaped pid true] := by
  cases tried with
  | early plain => exact .inl (processCalls_files plain)
  | @late files pid plain closing closes =>
      refine .inr ⟨pid, ?_⟩
      rw [processCalls_append, processCalls_append, processCalls_cons _ closing,
        processCalls_files plain, processCalls_files closes]
      rfl

theorem live_idle {client : Client} {events : PollFlags} {waited : Waited}
    (idle : client.cgiPid ≤ 0) : live (some (client, events), waited) = none := by
  cases waited with
  | no => simp only [live, if_neg (show ¬0 < client.cgiPid by omega)]
  | _ => rfl

theorem live_running {client : Client} {events : PollFlags} (running : 0 < client.cgiPid) :
    live (some (client, events), .no) = some client.cgiPid := by
  simp only [live, if_pos running]

theorem live_waited {view : Option View} {waited : Waited} (spent : waited ≠ .no) :
    live (view, waited) = none := by
  cases view <;> cases waited <;> first | rfl | exact absurd rfl spent

theorem live_same {client changed : Client} {events polled : PollFlags} {waited : Waited}
    (same : changed.cgiPid = client.cgiPid) :
    live (some (changed, polled), waited) = live (some (client, events), waited) := by
  cases waited <;> simp only [live, same]

/-- The process calls of a step, by what becomes of the process of the connection. -/
theorem Shift.processMove {place turned : Option View × Waited}
    (shift : Shift given fd place new turned) : ProcessMove new (live place) (live turned) := by
  cases shift with
  | refused => exact .none rfl rfl
  | accepted => exact .none rfl rfl
  | received => exact .none (live_same rfl) rfl
  | answered asked silent idle request failed =>
      have parsed : processCalls (parsedCalls fd request) = [] := by cases request <;> rfl
      rcases failed.processes with none | ⟨pid, some_⟩
      · refine .none (live_same rfl) ?_
        rw [processCalls_append, processCalls_append, parsed, none]
        rfl
      · refine @ProcessMove.attempt _ _ _ pid (live_same rfl) ?_
        rw [processCalls_append, processCalls_append, parsed, some_]
        rfl
  | @started client events asked silent idle request opening closing opens closes pid input output
      positive =>
      refine @ProcessMove.started _ _ _ pid (live_idle idle) (live_running positive) ?_
      rw [processCalls_append, processCalls_cons _ opening, processCalls_cons _ closing,
        processCalls_files opens, processCalls_files closes]
      rfl
  | sent => exact .none (live_same rfl) rfl
  | completed => exact .none rfl rfl
  | wrote => exact .none (live_same rfl) rfl
  | collected => exact .none (live_same rfl) rfl
  | inputClosed => exact .none (live_same rfl) rfl
  | outputClosed running open_ spent =>
      refine .none (live_same rfl) ?_
      rcases spent with rfl | ⟨rfl, _⟩ <;> rfl
  | reaped running spent => exact .reaped (live_running running) rfl rfl
  | killed running => exact .killed (live_running running) rfl rfl
  | finished running input output spent =>
      refine .none ?_ rfl
      exact (live_idle (by simp)).trans (live_waited spent).symm
  | timedOut => exact .none (live_idle (by simp)) rfl
  | removed spent heard =>
      refine .none ?_ rfl
      rcases spent with rfl | ⟨rfl, idle⟩
      · rfl
      · exact (live_idle idle).symm

theorem children_processCalls (calls : List Call) :
    Server.children (processCalls calls) = Server.children calls := by
  induction calls using List.reverseRecOn with
  | nil => rfl
  | append_singleton calls call ih =>
      rw [processCalls_append, Server.children_append, Server.children_append, ih]
      cases call <;> rfl

namespace Tends

variable {log : List Call} {lives later : Int → Option Int}

theorem attempt (tends : Tends log lives) (fresh : pid ∉ Server.children log) :
    Tends (log ++ [.forked pid, .killed pid, .reaped pid true]) lives := by
  have first : Server.children (log ++ [.forked pid]) = pid :: Server.children log :=
    Server.children_append _ _
  have second : Server.children (log ++ [.forked pid] ++ [.killed pid]) =
      pid :: Server.children log := by
    rw [Server.children_append, first]
    rfl
  have third : Server.children (log ++ [.forked pid, .killed pid, .reaped pid true]) =
      Server.children log := by
    rw [Server.children_append]
    simp
  constructor
  · rw [third]
    exact tends.nodup
  · rw [third]
    exact tends.owned
  · exact tends.unique
  · have forked : Lawful Waits (log ++ [.forked pid]) := tends.lawful.concat fresh
    have killed : Lawful Waits (log ++ [.forked pid] ++ [.killed pid]) := by
      apply forked.concat
      rw [Waits, first]
      exact List.mem_cons_self
    have reaped : Lawful Waits (log ++ [.forked pid] ++ [.killed pid] ++ [.reaped pid true]) := by
      apply killed.concat
      rw [Waits, second]
      exact ⟨List.mem_cons_self, by simp⟩
    simpa using reaped

theorem started (tends : Tends log lives) (fresh : pid ∉ Server.children log)
    (idle : lives fd = none) (running : later fd = some pid)
    (others : ∀ other, other ≠ fd → later other = lives other) :
    Tends (log ++ [.forked pid]) later := by
  have forked : Server.children (log ++ [.forked pid]) = pid :: Server.children log :=
    Server.children_append _ _
  have absent : ∀ other, lives other ≠ some pid := fun other there =>
    fresh ((tends.owned pid).mpr ⟨other, there⟩)
  constructor
  · rw [forked, List.nodup_cons]
    exact ⟨fresh, tends.nodup⟩
  · intro other
    rw [forked, List.mem_cons, tends.owned]
    constructor
    · rintro (rfl | ⟨owner, there⟩)
      · exact ⟨fd, running⟩
      · refine ⟨owner, ?_⟩
        rw [others owner, there]
        rintro rfl
        rw [idle] at there
        cases there
    · rintro ⟨owner, there⟩
      by_cases same : owner = fd
      · rw [same, running, Option.some.injEq] at there
        exact .inl there.symm
      · exact .inr ⟨owner, (others owner same).symm.trans there⟩
  · intro owner other pid' first second
    by_cases same : owner = fd
    · by_cases also : other = fd
      · rw [same, also]
      · rw [same, running] at first
        rw [others other also, ← first] at second
        exact absurd second (absent other)
    · by_cases also : other = fd
      · rw [also, running] at second
        rw [others owner same, ← second] at first
        exact absurd first (absent owner)
      · rw [others owner same] at first
        rw [others other also] at second
        exact tends.unique owner other pid' first second
  · exact tends.lawful.concat fresh

/-- A process is waited for. -/
theorem spent {more : List Call} (tends : Tends log lives) (running : lives fd = some pid)
    (ended : later fd = none) (others : ∀ other, other ≠ fd → later other = lives other)
    (children : Server.children (log ++ more) = (Server.children log).erase pid)
    (lawful : Lawful Waits (log ++ more)) : Tends (log ++ more) later := by
  constructor
  · rw [children]
    exact tends.nodup.erase pid
  · intro other
    rw [children, tends.nodup.mem_erase_iff, tends.owned]
    constructor
    · rintro ⟨different, owner, there⟩
      refine ⟨owner, ?_⟩
      rw [others owner, there]
      rintro rfl
      rw [running, Option.some.injEq] at there
      exact different there.symm
    · rintro ⟨owner, there⟩
      have apart : owner ≠ fd := by
        rintro rfl
        rw [ended] at there
        cases there
      rw [others owner apart] at there
      refine ⟨?_, owner, there⟩
      rintro rfl
      exact apart (tends.unique owner fd other there running)
  · intro owner other pid' first second
    have apart : ∀ key, later key = some pid' → lives key = some pid' := by
      intro key there
      rw [← others key, there]
      rintro rfl
      rw [ended] at there
      cases there
    exact tends.unique owner other pid' (apart owner first) (apart other second)
  · exact lawful

end Tends

namespace Step

theorem tended (step : Step given before after) (tended : Tended before) : Tended after := by
  rcases step with ⟨fd, moves, shift, allowed, flags⟩
  rename_i view waited new
  have others : ∀ other, other ≠ fd →
      live (after.server.view other, after.waited other) =
        live (before.server.view other, before.waited other) := by
    intro other different
    rw [flags, Function.update_of_ne different, moves.others other different]
  have self : live (after.server.view fd, after.waited fd) = live (view, waited) := by
    rw [flags, Function.update_self, moves.self]
  have fresh {pid : Int} {rest : List Call} (calls : processCalls new = .forked pid :: rest) :
      pid ∉ Server.children (processCalls before.server.calls) := by
    rw [children_processCalls]
    apply (allowed.fresh pid _).2
    have listed : .forked pid ∈ processCalls new := calls ▸ List.mem_cons_self
    exact (List.mem_filter.mp listed).1
  have unchanged (same : live (view, waited) = live (before.server.view fd, before.waited fd)) :
      (fun other => live (after.server.view other, after.waited other)) =
        fun other => live (before.server.view other, before.waited other) := by
    funext other
    by_cases here : other = fd
    · rw [here, self, same]
    · exact others other here
  rw [Tended, moves.calls, processCalls_append]
  cases shift.processMove with
  | none same calls =>
      rw [calls, List.append_nil, unchanged same]
      exact tended
  | attempt same calls =>
      rw [calls, unchanged same]
      exact tended.attempt (fresh calls)
  | started idle running calls =>
      rw [calls]
      exact tended.started (fresh calls) idle (self.trans running) others
  | @reaped pid running spent calls =>
      rw [calls]
      apply tended.spent running (self.trans spent) others
      · exact Server.children_append _ _
      · apply tended.lawful.concat
        exact ⟨(tended.owned pid).mpr ⟨fd, running⟩, fun blocking => by cases blocking⟩
  | @killed pid running spent calls =>
      rw [calls]
      have child := (tended.owned pid).mpr ⟨fd, running⟩
      apply tended.spent running (self.trans spent) others
      · exact Server.children_append _ _
      · have still : Server.children (processCalls before.server.calls ++ [.killed pid]) =
          Server.children (processCalls before.server.calls) := Server.children_append _ _
        have killed : Lawful Waits (processCalls before.server.calls ++ [.killed pid]) :=
          tended.lawful.concat child
        have reaped : Lawful Waits
            (processCalls before.server.calls ++ [.killed pid] ++ [.reaped pid true]) := by
          apply killed.concat
          rw [Waits, still]
          exact ⟨child, by simp⟩
        simpa using reaped

end Step

theorem Steps.tended (steps : Steps given before after) (tended : Tended before) :
    Tended after := by
  induction steps with
  | refl => exact tended
  | tail _ step ih => exact step.tended ih

end IrcPlatform.Webserv
