import IrcPlatform.Webserv.Connections

/-!
# Stories

What the calls tell of one connection since it was accepted: the responses made for it and the
bytes sent, the requests parsed, and what went to its script and came from it. A connection is
reading a request, served by a script or writing its response, and its story fits its seat.
-/

namespace IrcPlatform.Webserv

open Std

structure Story where
  responses : List Bytes := []
  sent : Bytes := []
  completed : Bool := false
  bodies : List Bytes := []
  written : Bytes := []
  collected : Bytes := []
  drained : Bool := false
  status : Option WaitStatus := none
deriving DecidableEq

namespace Story

def add (fd : Int) (story : Story) : Call → Story
  | .accepted other => if other = fd then {} else story
  | .parsed other request =>
      if other = fd then { story with bodies := story.bodies ++ [request.body] } else story
  | .serialized other response =>
      if other = fd then { story with responses := story.responses ++ [response] } else story
  | .sent other bytes => if other = fd then { story with sent := story.sent ++ bytes } else story
  | .wrote other bytes =>
      if other = fd then { story with written := story.written ++ bytes } else story
  | .collected other bytes =>
      if other = fd then { story with collected := story.collected ++ bytes } else story
  | .drained other => if other = fd then { story with drained := true } else story
  | .finished other status => if other = fd then { story with status := some status } else story
  | .completed other => if other = fd then { story with completed := true } else story
  | .opened _ | .closed _ | .forked _ | .killed _ | .reaped _ _ => story

/-- What the calls tell of the last connection of the descriptor. -/
def of (fd : Int) (calls : List Call) : Story := calls.foldl (add fd) {}

/-- One response at most is made, of which the bytes sent are the beginning, and the whole of it
when it is complete; the bytes written to the script are the beginning of the one request. -/
structure Delivered (story : Story) : Prop where
  responses : story.responses.length ≤ 1
  sent : story.sent <+: story.responses.flatten
  completed : story.completed = true → story.sent = story.responses.flatten
  bodies : story.bodies.length ≤ 1
  written : story.written <+: story.bodies.flatten

/-- A script that succeeded had ended its output, and all of it made the response. -/
def Concluded (cut : Prop) (story : Story) : Prop :=
  ∀ status, story.status = some status → Server.succeeded status = true →
    (story.drained = true ∨ cut) ∧ ∃ disk config,
      story.responses = [(CgiHandler.makeResponse disk story.collected config).serialize]

end Story

/-- A call that is of no connection. -/
def Call.isCommon : Call → Bool
  | .opened _ | .closed _ | .forked _ | .killed _ | .reaped _ _ => true
  | _ => false

/-- Where a connection is, and what has been told of it. Phases are only wrong where scripts may
fail to start. -/
inductive Seat (lax cut : Prop) : Option View × Waited → Story → Prop where
  | absent {story : Story} (delivered : story.Delivered) (concluded : story.Concluded cut) :
      Seat lax cut (none, .no) story
  | reading {client : Client} (silent : client.output = []) (unsent : client.sent = 0)
      (idle : client.cgiPid ≤ 0) (phase : client.phase = .reading)
      (input : client.cgiInput = []) (written : client.cgiWritten = 0)
      (output : client.cgiOutput = []) : Seat lax cut (some (client, Server.pollIn), .no) {}
  | serving {client : Client} {waited : Waited} {drained : Bool} (silent : client.output = [])
      (unsent : client.sent = 0) (running : 0 < client.cgiPid)
      (phase : waited = .no →
        client.phase = if 0 ≤ client.cgiInputFd then .cgiWriting else .cgiReading)
      (spent : waited ≠ .killed → client.cgiOutputFd < 0 → drained = true) :
      Seat lax cut (some (client, {}), waited)
        { bodies := [client.cgiInput], written := client.cgiInput.take client.cgiWritten
          collected := client.cgiOutput, drained := drained }
  | writing {client : Client} {story : Story} (heard : client.output ≠ [])
      (idle : client.cgiPid ≤ 0) (phase : client.phase = .writing ∨ lax ∧ client.phase = .reading)
      (responses : story.responses = [client.output])
      (sent : story.sent = client.output.take client.sent)
      (within : client.sent ≤ client.output.length)
      (completed : story.completed = true → client.sent = client.output.length)
      (bodies : story.bodies.length ≤ 1) (written : story.written <+: story.bodies.flatten)
      (concluded : story.Concluded cut) : Seat lax cut (some (client, Server.pollOut), .no) story

namespace Story

variable {fd : Int} {story : Story} {call : Call} {calls new more : List Call}

/-- The story as it goes on. -/
def addAll (fd : Int) (story : Story) (new : List Call) : Story := new.foldl (add fd) story

/-- The story is delivered at every moment of some calls. -/
def Follows (fd : Int) (story : Story) (new : List Call) : Prop :=
  ∀ early late, new = early ++ late → (story.addAll fd early).Delivered

theorem of_append (fd : Int) (calls new : List Call) :
    of fd (calls ++ new) = (of fd calls).addAll fd new := List.foldl_append

theorem addAll_cons (fd : Int) (story : Story) (call : Call) (new : List Call) :
    story.addAll fd (call :: new) = (story.add fd call).addAll fd new := rfl

theorem addAll_append (fd : Int) (story : Story) (new more : List Call) :
    story.addAll fd (new ++ more) = (story.addAll fd new).addAll fd more := List.foldl_append

theorem addAll_of_same (same : ∀ call ∈ new, story.add fd call = story) :
    story.addAll fd new = story := by
  induction new with
  | nil => rfl
  | cons call rest ih =>
      rw [addAll_cons, same call List.mem_cons_self]
      exact ih fun other listed => same other (List.mem_cons_of_mem _ listed)

theorem follows_nil (delivered : story.Delivered) : story.Follows fd [] := by
  intro early late split
  rw [(List.append_eq_nil_iff.mp split.symm).1]
  exact delivered

theorem follows_cons (delivered : story.Delivered)
    (follows : (story.add fd call).Follows fd new) : story.Follows fd (call :: new) := by
  intro early late split
  cases early with
  | nil => exact delivered
  | cons first rest =>
      rw [List.cons_append, List.cons.injEq] at split
      rw [addAll_cons, ← split.1]
      exact follows rest late split.2

theorem follows_append (first : story.Follows fd new)
    (second : (story.addAll fd new).Follows fd more) : story.Follows fd (new ++ more) := by
  intro early late split
  rcases List.append_eq_append_iff.mp split with ⟨rest, rfl, rfl⟩ | ⟨rest, rfl, rfl⟩
  · rw [addAll_append]
    exact second rest late rfl
  · exact first early rest rfl

theorem follows_of_same (delivered : story.Delivered)
    (same : ∀ call ∈ new, story.add fd call = story) : story.Follows fd new := by
  rintro early late rfl
  rw [addAll_of_same fun call listed => same call (List.mem_append_left _ listed)]
  exact delivered

theorem delivered_empty : Delivered {} := by
  constructor <;> simp

/-- The first response. -/
theorem add_serialized {response : Bytes} (unanswered : story.responses = []) :
    story.add fd (.serialized fd response) = { story with responses := [response] } := by
  simp [add, unanswered]

theorem add_common (common : call.isCommon = true) : story.add fd call = story := by
  cases call <;> first | rfl | cases common

end Story

theorem Call.common_of_file {call : Call} (file : call.isFile = true) : call.isCommon = true := by
  cases call <;> first | rfl | cases file

theorem Attempt.common {attempt : List Call} (tried : Attempt attempt) :
    ∀ call ∈ attempt, call.isCommon = true := by
  have file {call : Call} : call.isFile = true → call.isCommon = true := Call.common_of_file
  cases tried with
  | early plain => exact fun call listed => file (plain call listed)
  | late plain closes =>
      intro call listed
      simp only [List.mem_append, List.mem_cons, List.not_mem_nil, or_false] at listed
      rcases listed with (files | rfl | files) | rfl | rfl
      · exact file (plain call files)
      · rfl
      · exact file (closes call files)
      · rfl
      · rfl

namespace Seat

variable {lax cut : Prop} {place : Option View × Waited} {story : Story}

theorem delivered (seat : Seat lax cut place story) : story.Delivered := by
  cases seat with
  | absent delivered _ => exact delivered
  | reading => exact Story.delivered_empty
  | serving =>
      constructor
      · simp
      · simp
      · simp
      · simp
      · simpa using List.take_prefix _ _
  | writing heard idle phase responses sent within completed bodies written concluded =>
      constructor
      · simp [responses]
      · rw [sent, responses, List.flatten_singleton]
        exact List.take_prefix _ _
      · intro whole
        rw [sent, responses, List.flatten_singleton, completed whole, List.take_length]
      · exact bodies
      · exact written

theorem concluded (seat : Seat lax cut place story) : story.Concluded cut := by
  cases seat with
  | absent _ concluded => exact concluded
  | reading => exact fun status told => by cases told
  | serving => exact fun status told => by cases told
  | writing heard idle phase responses sent within completed bodies written concluded =>
      exact concluded

/-- Only a connection that reads its request is polled for input. -/
theorem reading_of_pollin {client : Client} {events : PollFlags} {waited : Waited}
    (seat : Seat lax cut (some (client, events), waited) story) (asked : events.pollin = true) :
    client.output = [] ∧ client.cgiPid ≤ 0 := by
  cases seat with
  | reading silent unsent idle => exact ⟨silent, idle⟩
  | serving => cases asked
  | writing => cases asked

/-- A call of the connection that leads to its next seat. -/
theorem single {fd : Int} {call : Call} {turned : Option View × Waited}
    (delivered : story.Delivered) (seat : Seat lax cut turned (story.add fd call)) :
    Seat lax cut turned (story.addAll fd [call]) ∧ story.Follows fd [call] :=
  ⟨seat, Story.follows_cons delivered (Story.follows_nil seat.delivered)⟩

/-- The connection is seen with some calls of no connection. -/
theorem common {fd : Int} {new : List Call} {turned : Option View × Waited}
    (common : ∀ call ∈ new, call.isCommon = true) (seat : Seat lax cut turned story) :
    Seat lax cut turned (story.addAll fd new) ∧ story.Follows fd new := by
  have same : ∀ call ∈ new, story.add fd call = story := fun call listed =>
    Story.add_common (common call listed)
  exact ⟨(Story.addAll_of_same same).symm ▸ seat, Story.follows_of_same seat.delivered same⟩

/-- The first request, and an attempt to start its script. -/
theorem addAll_attempt {fd : Int} {attempt : List Call} (request : Option Request)
    (common : ∀ call ∈ attempt, call.isCommon = true) :
    let parsed : Story := { bodies := (request.map (·.body)).toList }
    ({} : Story).addAll fd (parsedCalls fd request ++ attempt) = parsed ∧
      parsed.Delivered ∧ ({} : Story).Follows fd (parsedCalls fd request ++ attempt) := by
  intro parsed
  have delivered : parsed.Delivered := by
    constructor <;> cases request <;> simp [parsed]
  have first : ({} : Story).addAll fd (parsedCalls fd request) = parsed := by
    cases request <;> simp [parsedCalls, Story.addAll, Story.add, parsed]
  have follows : ({} : Story).Follows fd (parsedCalls fd request) := by
    cases request with
    | none => exact Story.follows_nil Story.delivered_empty
    | some request =>
        apply Story.follows_cons Story.delivered_empty
        apply Story.follows_nil
        rw [← first] at delivered
        exact delivered
  have same : ∀ call ∈ attempt, parsed.add fd call = parsed := fun call listed =>
    Story.add_common (common call listed)
  refine ⟨?_, delivered, ?_⟩
  · rw [Story.addAll_append, first, Story.addAll_of_same same]
  · apply Story.follows_append follows
    rw [first]
    exact Story.follows_of_same delivered same

theorem shift {given : Circumstances} {fd : Int} {new : List Call} {turned : Option View × Waited}
    (lenient : given.failing → lax) (cutting : given.cut → cut)
    (shift : Shift given fd place new turned) (seat : Seat lax cut place story) :
    Seat lax cut turned (story.addAll fd new) ∧ story.Follows fd new := by
  have delivered := seat.delivered
  cases shift with
  | refused => exact common (by simp [Call.isCommon]) seat
  | accepted config now =>
      constructor
      · have started : story.addAll fd [.opened fd, .accepted fd] = {} := by
          simp [Story.addAll, Story.add]
        rw [started]
        exact .reading rfl rfl (by simp) rfl rfl rfl rfl
      · apply Story.follows_cons delivered
        apply Story.follows_cons delivered
        apply Story.follows_nil
        simpa [Story.add] using Story.delivered_empty
  | received asked silent idle input now =>
      refine ⟨?_, Story.follows_nil delivered⟩
      cases seat with
      | reading silent unsent idle phase input' written output =>
          exact .reading silent unsent idle phase input' written output
      | serving silent unsent running => omega
      | writing heard => exact absurd silent heard
  | @answered client events asked silent idle request attempt failed response nonempty sent unsent
      now phase phased =>
      cases seat with
      | serving silent' unsent' running => omega
      | writing heard => exact absurd silent heard
      | reading silent' unsent' idle' phase' input written output =>
          rcases @addAll_attempt fd attempt request failed.common with ⟨told, parsed, follows⟩
          have none : sent = 0 := by
            rcases unsent with same | zero
            · exact same.trans unsent'
            · exact zero
          subst none
          have answered : Seat lax cut (some ({ client with
              output := response, sent := 0, touched := now, phase := phase }, Server.pollOut),
              .no)
              { bodies := (request.map (·.body)).toList, responses := [response] } := by
            refine .writing nonempty idle ?_ rfl rfl (Nat.zero_le _) (fun whole => by cases whole)
              parsed.bodies parsed.written fun status told => by cases told
            rcases phased with writing | ⟨failing, same⟩
            · exact .inl writing
            · exact .inr ⟨lenient failing, same.trans phase'⟩
          rw [← @Story.add_serialized fd { bodies := (request.map (·.body)).toList } response rfl]
            at answered
          have last := single parsed answered
          rw [Story.addAll_append, told]
          refine ⟨last.1, Story.follows_append follows ?_⟩
          rw [told]
          exact last.2
  | @started client events asked silent idle request opening closing opens closes pid input output
      positive reading writing timeout now =>
      cases seat with
      | serving silent' unsent' running => omega
      | writing heard => exact absurd silent heard
      | reading silent' unsent' idle' phase' unread written output =>
          have files : ∀ call ∈ opening ++ .forked pid :: closing, call.isCommon = true := by
            intro call listed
            simp only [List.mem_append, List.mem_cons] at listed
            rcases listed with before | rfl | after
            · exact Call.common_of_file (opens call before)
            · rfl
            · exact Call.common_of_file (closes call after)
          rcases @addAll_attempt fd _ (some request) files with ⟨told, parsed, follows⟩
          refine ⟨?_, follows⟩
          have story : ({} : Story).addAll fd
              (.parsed fd request :: opening ++ .forked pid :: closing) =
                { bodies := [request.body] } := told
          rw [story]
          refine .serving silent' unsent' positive ?_ fun _ spent =>
            absurd spent (by simpa using reading)
          intro _
          cases body : request.body <;> simp [body] at writing ⊢ <;> omega
  | @sent client events number positive fits now =>
      cases seat with
      | reading silent =>
          rw [silent, List.length_nil] at fits
          omega
      | serving silent =>
          rw [silent, List.length_nil] at fits
          omega
      | writing heard idle phase responses sent within completed bodies written concluded =>
          apply single delivered
          have sum : story.sent ++ (client.output.drop client.sent).take number =
              client.output.take (client.sent + number) := by
            rw [sent, ← List.take_add]
          simp only [Story.add, if_true, sum]
          refine .writing heard idle phase responses rfl ?_ ?_ bodies written concluded
          · simp only
            omega
          · intro whole
            have all := completed whole
            omega
  | completed some_ whole =>
      cases seat with
      | reading silent => exact absurd silent some_
      | serving silent => exact absurd silent some_
      | writing heard idle phase responses sent within completed bodies written concluded =>
          apply single delivered
          simp only [Story.add, if_true]
          exact .writing heard idle phase responses sent within (fun _ => whole) bodies written
            concluded
  | @wrote client events running number fits now =>
      cases seat with
      | reading silent unsent idle => omega
      | writing heard idle => omega
      | serving silent unsent running phase spent =>
          apply single delivered
          have sum : client.cgiInput.take client.cgiWritten ++
              (client.cgiInput.drop client.cgiWritten).take number =
                client.cgiInput.take (client.cgiWritten + number) := List.take_add.symm
          simp only [Story.add, if_true, sum]
          exact .serving silent unsent running phase spent
  | collected running bytes now =>
      cases seat with
      | reading silent unsent idle => omega
      | writing heard idle => omega
      | serving silent unsent running phase spent =>
          apply single delivered
          simp only [Story.add, if_true]
          exact .serving silent unsent running phase spent
  | inputClosed running open_ phased =>
      apply common (by simp [Call.isCommon])
      cases seat with
      | reading silent unsent idle => omega
      | writing heard idle => omega
      | serving silent unsent running phase spent =>
          refine .serving silent unsent running ?_ spent
          rintro rfl
          rcases phased with rfl | waiting
          · simp
          · exact absurd rfl waiting
  | @outputClosed client events waited running open_ drained spent =>
      cases seat with
      | reading silent unsent idle => omega
      | writing heard idle => omega
      | serving silent unsent running phase spent' =>
          rcases spent with rfl | ⟨rfl, rfl⟩
          · have ended : Seat lax cut (some ({ client with cgiOutputFd := -1 }, {}), waited)
                { bodies := [client.cgiInput]
                  written := client.cgiInput.take client.cgiWritten
                  collected := client.cgiOutput, drained := true } :=
              .serving silent unsent running phase fun _ _ => rfl
            have dropped := @single _ _ _ fd (.drained fd) _ delivered
              (by simpa only [Story.add, if_true] using ended)
            exact ⟨dropped.1, Story.follows_cons delivered dropped.2⟩
          · apply common (by simp [Call.isCommon])
            exact .serving silent unsent running phase fun alive _ => absurd rfl alive
  | reaped running spent =>
      apply common (by simp [Call.isCommon])
      cases seat with
      | reading silent unsent idle => omega
      | writing heard idle => omega
      | serving silent unsent running phase spent' =>
          exact .serving silent unsent running (fun no => by cases no) fun _ => spent' (by simp)
  | killed running =>
      apply common (by simp [Call.isCommon])
      cases seat with
      | reading silent unsent idle => omega
      | writing heard idle => omega
      | serving silent unsent running phase spent' =>
          exact .serving silent unsent running (fun no => by cases no) fun alive _ =>
            absurd rfl alive
  | @finished client events waited running input output spent status whole disk config response made
      now =>
      cases seat with
      | reading silent unsent idle => omega
      | writing heard idle => omega
      | @serving _ _ drained silent unsent running phase spent' =>
          let told : Story :=
            { bodies := [client.cgiInput], written := client.cgiInput.take client.cgiWritten
              collected := client.cgiOutput, drained := drained, status := some status }
          have finished : told.Delivered :=
            ⟨delivered.responses, delivered.sent, delivered.completed, delivered.bodies,
              delivered.written⟩
          have answered : Seat lax cut (some ({ client with
              cgiPid := -1, output := response.serialize, sent := 0, touched := now
              phase := .writing }, Server.pollOut), .no)
              { told with responses := [response.serialize] } := by
            refine .writing response.serialize_ne_nil (by simp) (.inl rfl) rfl rfl (Nat.zero_le _)
              (fun whole => by cases whole) delivered.bodies delivered.written ?_
            intro known same success
            cases same
            refine ⟨?_, disk, config, by rw [made success]⟩
            by_cases killed : waited = .killed
            · exact .inr (cutting (whole success killed))
            · exact .inl (spent' killed output)
          rw [← @Story.add_serialized fd told response.serialize rfl] at answered
          have last := single finished answered
          have first : ({ bodies := [client.cgiInput]
                          written := client.cgiInput.take client.cgiWritten
                          collected := client.cgiOutput, drained := drained } : Story).add fd
              (.finished fd status) = told := by simp [Story.add, told]
          rw [Story.addAll_cons, first]
          exact ⟨last.1, Story.follows_cons delivered (first.symm ▸ last.2)⟩
  | @timedOut client events running input output response nonempty now =>
      cases seat with
      | serving silent unsent running phase spent' =>
          apply single delivered
          simp only [Story.add, if_true, List.nil_append]
          exact .writing nonempty (by simp) (.inl rfl) rfl rfl (Nat.zero_le _)
            (fun whole => by cases whole) delivered.bodies delivered.written
            fun status told => by cases told
  | removed spent heard =>
      apply common (by simp [Call.isCommon])
      exact .absent delivered seat.concluded

end Seat

/-- Every connection has a seat that fits its story. -/
def Seated (lax cut : Prop) (moment : Moment) : Prop :=
  ∀ fd, Seat lax cut (moment.server.view fd, moment.waited fd) (Story.of fd moment.server.calls)

/-- Every story has been delivered at every moment. -/
def Told (calls : List Call) : Prop :=
  ∀ early, early <+: calls → ∀ fd, (Story.of fd early).Delivered

/-- The calls of a connection tell nothing of the others. -/
theorem Shift.foreign {given : Circumstances} {fd other : Int} {new : List Call}
    {place turned : Option View × Waited} (shift : Shift given fd place new turned)
    (different : other ≠ fd) (story : Story) : ∀ call ∈ new, story.add other call = story := by
  have apart : fd ≠ other := Ne.symm different
  have files {calls : List Call} (files : ∀ call ∈ calls, call.isFile = true) :
      ∀ call ∈ calls, story.add other call = story := fun call listed =>
    Story.add_common (Call.common_of_file (files call listed))
  cases shift with
  | answered asked silent idle request failed =>
      intro call listed
      simp only [List.mem_append, List.mem_singleton] at listed
      rcases listed with (parsed | tried) | rfl
      · cases request with
        | none => cases parsed
        | some request =>
            rw [parsedCalls, List.mem_singleton] at parsed
            simp [parsed, Story.add, apart]
      · exact Story.add_common (failed.common call tried)
      · simp [Story.add, apart]
  | started asked silent idle request opens closes =>
      intro call listed
      simp only [List.mem_append, List.mem_cons] at listed
      rcases listed with (rfl | before) | rfl | after
      · simp [Story.add, apart]
      · exact files opens call before
      · rfl
      · exact files closes call after
  | outputClosed running open_ spent =>
      rcases spent with rfl | ⟨rfl, _⟩ <;> simp [Story.add, apart]
  | _ => simp [Story.add, apart]

namespace Step

variable {given : Circumstances} {before after : Moment} {lax cut : Prop}

theorem seated (step : Step given before after) (lenient : given.failing → lax)
    (cutting : given.cut → cut) (seated : Seated lax cut before) : Seated lax cut after := by
  rcases step with ⟨fd, moves, shift, allowed, flags⟩
  intro other
  rw [moves.calls, Story.of_append, flags]
  by_cases same : other = fd
  · subst same
    rw [Function.update_self, moves.self]
    exact ((seated other).shift lenient cutting shift).1
  · rw [Function.update_of_ne same, moves.others other same,
      Story.addAll_of_same (shift.foreign same _)]
    exact seated other

theorem told (step : Step given before after) (lenient : given.failing → lax)
    (cutting : given.cut → cut) (seated : Seated lax cut before)
    (told : Told before.server.calls) : Told after.server.calls := by
  rcases step with ⟨fd, moves, shift, allowed, flags⟩
  rintro early ⟨late, split⟩ other
  rw [moves.calls] at split
  rcases List.append_eq_append_iff.mp split with ⟨rest, whole, _⟩ | ⟨rest, rfl, whole⟩
  · exact told early ⟨rest, whole.symm⟩ other
  · rw [Story.of_append]
    by_cases same : other = fd
    · subst same
      exact ((seated other).shift lenient cutting shift).2 rest late whole
    · rw [Story.addAll_of_same]
      · exact (seated other).delivered
      · intro call listed
        apply shift.foreign same
        rw [whole]
        exact List.mem_append_left _ listed

end Step

namespace Steps

variable {given : Circumstances} {before after : Moment} {lax cut : Prop}

theorem seated (steps : Steps given before after) (lenient : given.failing → lax)
    (cutting : given.cut → cut) (seated : Seated lax cut before) : Seated lax cut after := by
  induction steps with
  | refl => exact seated
  | tail _ step ih => exact step.seated lenient cutting ih

theorem told (steps : Steps given before after) (lenient : given.failing → lax)
    (cutting : given.cut → cut) (seated : Seated lax cut before)
    (told : Told before.server.calls) : Told after.server.calls := by
  induction steps with
  | refl => exact told
  | tail earlier step ih =>
      exact step.told lenient cutting (Steps.seated earlier lenient cutting seated) ih

end Steps

end IrcPlatform.Webserv
