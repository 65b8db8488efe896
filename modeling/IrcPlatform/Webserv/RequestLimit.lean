import IrcPlatform.Webserv.ChunkedCompletion
import IrcPlatform.Webserv.EventLoop
import IrcPlatform.Webserv.Lengths
import IrcPlatform.Webserv.Segments
import IrcPlatform.Webserv.ServerRun

/-!
# The limit of a request

`readClient` refuses bytes with which its input would grow beyond the limit, before it parses.
The bytes behind a request count as well, so a request within the documented limits is refused
where enough of them arrive with its last byte.
-/

namespace IrcPlatform.Webserv

open Std

variable {raw more early late rest : Bytes} {maxBody : Nat} {request : Request}

/-- One complete request with nothing behind it, within the documented limits. -/
structure OneRequest (maxBody : Nat) (raw : Bytes) (request : Request) : Prop where
  accepted : parseRequest raw maxBody = .ok request
  whole : ∀ early late, raw = early ++ late → late ≠ [] →
    ∀ other, parseRequest early maxBody ≠ .ok other
  head : ∀ headerEnd, findFrom blankLine raw 0 = some headerEnd →
    headerEnd + 4 ≤ Server.maxHeaderOverhead
  framing : raw.length ≤ request.body.length + Server.maxHeaderOverhead

namespace OneRequest

/-- The body of a part of a request is no verdict but that of a request. -/
theorem parseBody_shorter {parsed : Request} {payload late : Bytes}
    (accepted : parseBody maxBody parsed (payload ++ late) = .ok request)
    (fits : (payload ++ late).length < 2 ^ 64) :
    parseBody maxBody parsed payload = .incomplete ∨
      ∃ other, parseBody maxBody parsed payload = .ok other := by
  rcases parseBody_cases accepted with ⟨body, _, framed⟩
  cases framed with
  | @chunked coding body named single decoded small =>
      have chunked : lower (trim coding) = ascii "chunked" := by
        by_contra other
        simp [parseBody, named, single, other] at accepted
      rcases parseChunked_shorter decoded fits with ⟨shorter, length, complete | open_⟩
      · right
        simp only [parseBody, named, single, chunked, complete, ParseResult.ofChunked]
        rw [if_neg (by simp), if_neg (by omega)]
        exact ⟨_, rfl⟩
      · left
        simp only [parseBody, named, single, chunked, open_, ParseResult.ofChunked]
        rw [if_neg (by simp), if_neg (by omega)]
  | @announced text length plain named read small arrived =>
      simp only [parseBody, plain, named, read, takeBody]
      rw [if_neg (by omega)]
      split
      · exact .inl rfl
      · exact .inr ⟨_, rfl⟩
  | without plain silent bodiless =>
      right
      simp only [parseBody, plain, silent, if_neg bodiless, takeBody]
      rw [if_neg (by omega), if_neg (by omega)]
      exact ⟨_, rfl⟩

/-- More input is wanted until the whole request is there. -/
theorem open_of_part (one : OneRequest maxBody raw request) (fits : raw.length < 2 ^ 64)
    (split : raw = early ++ late) (proper : late ≠ []) :
    parseRequest early maxBody = .incomplete := by
  rcases parseRequest_cases one.accepted with ⟨headerEnd, parsed, found, head, accepted⟩
  have unended := one.whole early late split proper
  have limit := one.head headerEnd found
  have size : blankLine.length = 4 := rfl
  cases foundEarly : findFrom blankLine early 0 with
  | none =>
      have short : early.length < headerEnd + 4 := by
        by_contra long
        have occurs := ((findFrom_eq_some_iff blankLine_ne_nil).mp found).2.1
        rw [split] at occurs
        exact (findFrom_eq_none_iff blankLine_ne_nil).mp foundEarly headerEnd (Nat.zero_le _)
          ((occursAt_append_iff (by omega) late).mp occurs)
      rw [Server.maxHeaderOverhead] at limit
      simp only [parseRequest, foundEarly]
      rw [if_neg (by rw [maxOpenHead]; omega)]
  | some earlyEnd =>
      rcases head_append foundEarly late with ⟨again, sameHead, behind⟩
      rw [← split, found, Option.some.injEq] at again
      subst again
      rw [← split] at sameHead behind
      simp only [payload, found, behind] at accepted
      rw [sameHead] at head
      have long : (early.drop (headerEnd + 4) ++ late).length < 2 ^ 64 := by
        rw [← behind, List.length_drop]
        omega
      simp only [parseRequest, foundEarly, head] at unended ⊢
      rcases parseBody_shorter accepted long with open_ | ⟨other, ok⟩
      · exact open_
      · exact absurd ok (unended other)

/-- The body of a request with more bytes behind it. -/
theorem parseBody_longer {parsed : Request} {payload : Bytes}
    (accepted : parseBody maxBody parsed payload = .ok request)
    (fits : (payload ++ more).length < 2 ^ 64) :
    parseBody maxBody parsed (payload ++ more) ≠ .incomplete ∧
      (parseBody maxBody parsed (payload ++ more) = .ok request ↔
        (parsed.headers.contains (ascii "transfer-encoding") = true → SizesFit payload) ∨
          more = []) := by
  rcases parseBody_cases accepted with ⟨body, rfl, framed⟩
  cases framed with
  | @chunked coding body named single decoded small =>
      have present : parsed.headers.contains (ascii "transfer-encoding") = true := by
        rw [ExtTreeMap.contains_eq_isSome_getElem?, named]
        rfl
      have chunked : lower (trim coding) = ascii "chunked" := by
        by_contra other
        simp [parseBody, named, single, other] at accepted
      rcases parseChunked_longer decoded fits with ⟨longer, complete, same⟩
      simp only [parseBody, named, single, chunked, complete, ParseResult.ofChunked]
      rw [if_neg (by simp)]
      by_cases large : maxBody < longer.length
      · rw [if_pos large]
        refine ⟨by simp, iff_of_false (by simp) ?_⟩
        intro kept
        have equal := same.mpr (kept.imp_left fun fit => fit present)
        rw [equal] at large
        omega
      · rw [if_neg large]
        refine ⟨by simp, ?_⟩
        constructor
        · intro equal
          have bodies := congrArg Request.body (ParseResult.ok.inj equal)
          exact (same.mp bodies).imp_left fun fit _ => fit
        · intro kept
          rw [same.mpr (kept.imp_left fun fit => fit present)]
  | @announced text length plain named read small arrived =>
      have absent : parsed.headers.contains (ascii "transfer-encoding") = false := by
        rw [ExtTreeMap.contains_eq_isSome_getElem?, plain]
        rfl
      have enough : ¬(payload ++ more).length < length := by
        rw [List.length_append]
        omega
      simp only [parseBody, plain, named, read, takeBody]
      rw [if_neg (by omega), if_neg enough, List.take_append_of_le_length arrived]
      exact ⟨by simp, iff_of_true rfl (.inl fun chunked => by
        rw [absent] at chunked
        cases chunked)⟩
  | without plain silent bodiless =>
      have absent : parsed.headers.contains (ascii "transfer-encoding") = false := by
        rw [ExtTreeMap.contains_eq_isSome_getElem?, plain]
        rfl
      simp only [parseBody, plain, silent, if_neg bodiless, takeBody]
      rw [if_neg (by omega), if_neg (by omega)]
      exact ⟨by simp, iff_of_true rfl (.inl fun chunked => by
        rw [absent] at chunked
        cases chunked)⟩

/-- With more bytes behind it a request stays as it is, unless the size of a chunk wraps around. -/
theorem longer (one : OneRequest maxBody raw request) (fits : (raw ++ more).length < 2 ^ 64) :
    parseRequest (raw ++ more) maxBody ≠ .incomplete ∧
      (parseRequest (raw ++ more) maxBody = .ok request ↔ ChunksFit raw ∨ more = []) := by
  rcases parseRequest_cases one.accepted with ⟨headerEnd, parsed, found, head, accepted⟩
  rcases head_append found more with ⟨again, sameHead, behind⟩
  rw [payload, found] at accepted
  have short : (raw.drop (headerEnd + 4) ++ more).length < 2 ^ 64 := by
    rw [List.length_append] at fits ⊢
    rw [List.length_drop]
    omega
  have unique : ChunksFit raw ↔ (parsed.headers.contains (ascii "transfer-encoding") = true →
      SizesFit (raw.drop (headerEnd + 4))) := by
    constructor
    · exact fun fit => fit headerEnd parsed found head
    · intro fit otherEnd other foundOther headOther
      rw [found, Option.some.injEq] at foundOther
      subst foundOther
      rw [head, Except.ok.injEq] at headOther
      exact headOther ▸ fit
  simp only [parseRequest, again, sameHead, head, behind]
  rw [unique]
  exact parseBody_longer accepted short

end OneRequest

/-! ## Results of recv -/

namespace Server

/-- What the calls of `readClient` make of the results of `recv`, behind the bytes received
before: the first verdict other than incomplete. An input beyond the limit is too large. -/
def intakeAll (maxBody : Nat) : Bytes → List Bytes → Option ParseResult
  | _, [] => none
  | input, segment :: segments =>
      match intake maxBody input segment with
      | .refused => some .tooLarge
      | .parsed input result =>
          match result.decided with
          | none => intakeAll maxBody input segments
          | some verdict => some verdict

/-- The result of `recv` that ends the request does not go beyond the limit, and no chunk size
of the request wraps around, or nothing comes behind it. -/
def InTime (maxBody : Nat) (raw input : Bytes) (segments : List Bytes) : Prop :=
  ∃ early segment late, segments = early ++ segment :: late ∧
    (input ++ early.flatten).length < raw.length ∧
    raw.length ≤ (input ++ early.flatten ++ segment).length ∧
    (input ++ early.flatten ++ segment).length ≤ requestLimit maxBody ∧
    (ChunksFit raw ∨ (input ++ early.flatten ++ segment).length = raw.length)

variable {input segment : Bytes} {segments : List Bytes}

theorem maxRead_le_requestLimit (maxBody : Nat) : maxRead ≤ requestLimit maxBody := by
  rw [requestLimit]
  split
  · decide
  · rw [maxRead, maxHeaderOverhead]
    omega

theorem requestLimit_lt (maxBody : Nat) : requestLimit maxBody < 2 ^ 64 := by
  rw [requestLimit]
  split
  · decide
  · rw [sizeMax, maxHeaderOverhead] at *
    omega

/-- The guard of `readClient` looks at the length that the input would have. -/
theorem intake_eq (short : segment.length ≤ maxRead) :
    intake maxBody input segment =
      if requestLimit maxBody < (input ++ segment).length then .refused
      else .parsed (input ++ segment) (parseRequest (input ++ segment) maxBody) := by
  have room := maxRead_le_requestLimit maxBody
  rw [intake, List.length_append]
  split
  · rw [if_pos (by omega)]
  · rw [if_neg (by omega)]

theorem inTime_cons : InTime maxBody raw input (segment :: segments) ↔
    (input.length < raw.length ∧ raw.length ≤ (input ++ segment).length ∧
        (input ++ segment).length ≤ requestLimit maxBody ∧
        (ChunksFit raw ∨ (input ++ segment).length = raw.length)) ∨
      InTime maxBody raw (input ++ segment) segments := by
  constructor
  · rintro ⟨early, last, late, split, before, behind, within, kept⟩
    cases early with
    | nil =>
        rw [List.nil_append, List.cons.injEq] at split
        rcases split with ⟨rfl, rfl⟩
        simp only [List.flatten_nil, List.append_nil] at before behind within kept
        exact .inl ⟨before, behind, within, kept⟩
    | cons first early =>
        rw [List.cons_append, List.cons.injEq] at split
        rcases split with ⟨rfl, rfl⟩
        rw [List.flatten_cons, ← List.append_assoc] at before behind within kept
        exact .inr ⟨early, last, late, rfl, before, behind, within, kept⟩
  · rintro (⟨before, behind, within, kept⟩ | ⟨early, last, late, rfl, before, behind, within, kept⟩)
    · exact ⟨[], segment, segments, rfl, by simpa using before, by simpa using behind,
        by simpa using within, by simpa using kept⟩
    · refine ⟨segment :: early, last, late, rfl, ?_⟩
      rw [List.flatten_cons, ← List.append_assoc]
      exact ⟨before, behind, within, kept⟩

/-- Of two beginnings of a stream, one is the beginning of the other. -/
theorem part_or_whole (stream : input ++ segments.flatten = raw ++ rest) :
    (∃ late, late ≠ [] ∧ raw = input ++ late) ∨ ∃ more, input = raw ++ more := by
  rcases List.append_eq_append_iff.mp stream with ⟨late, whole, _⟩ | ⟨more, whole, _⟩
  · cases late with
    | nil => exact .inr ⟨[], by rw [whole, List.append_nil, List.append_nil]⟩
    | cons first late => exact .inl ⟨_, List.cons_ne_nil _ _, whole⟩
  · exact .inr ⟨more, whole⟩

theorem not_inTime_of_beyond (beyond : requestLimit maxBody < input.length) :
    ¬InTime maxBody raw input segments := by
  rintro ⟨early, last, late, rfl, _, _, within, _⟩
  simp only [List.length_append] at within
  omega

theorem not_inTime_of_whole (whole : raw.length ≤ input.length) :
    ¬InTime maxBody raw input segments := by
  rintro ⟨early, last, late, rfl, before, _⟩
  rw [List.length_append] at before
  omega

/-- A request that is parsed is within the limit. -/
theorem within_of_intakeAll (sizes : ∀ segment ∈ segments, segment.length ≤ maxRead)
    (parsed : intakeAll maxBody input segments = some (.ok request)) :
    ∃ early late, segments = early ++ late ∧
      (input ++ early.flatten).length ≤ requestLimit maxBody ∧
      parseRequest (input ++ early.flatten) maxBody = .ok request := by
  induction segments generalizing input with
  | nil => cases parsed
  | cons segment segments ih =>
      rw [intakeAll, intake_eq (sizes segment List.mem_cons_self)] at parsed
      split at parsed
      · simp at parsed
      next taken result given =>
        split at given
        · cases given
        next within =>
          cases given
          split at parsed
          next =>
            rcases ih (fun other listed => sizes other (List.mem_cons_of_mem _ listed)) parsed with
              ⟨early, late, rfl, limit, ok⟩
            refine ⟨segment :: early, late, rfl, ?_⟩
            rw [List.flatten_cons, ← List.append_assoc]
            exact ⟨limit, ok⟩
          next verdict decided =>
            refine ⟨[segment], segments, rfl, ?_⟩
            rw [List.flatten_singleton]
            refine ⟨by omega, ?_⟩
            rw [Option.some.injEq] at parsed
            subst parsed
            cases result : parseRequest (input ++ segment) maxBody <;>
              simp_all [ParseResult.decided]

/-- The first verdict is the request exactly where its last byte comes in time. -/
theorem intakeAll_iff_of_fits (one : OneRequest maxBody raw request) (fits : raw.length < 2 ^ 64)
    (sizes : ∀ segment ∈ segments, segment.length ≤ maxRead)
    (stream : input ++ segments.flatten = raw ++ rest) (part : input.length < raw.length) :
    intakeAll maxBody input segments = some (.ok request) ↔
      InTime maxBody raw input segments := by
  induction segments generalizing input with
  | nil =>
      rw [List.flatten_nil, List.append_nil] at stream
      rw [stream, List.length_append] at part
      omega
  | cons segment segments ih =>
      rw [List.flatten_cons, ← List.append_assoc] at stream
      rw [intakeAll, intake_eq (sizes segment List.mem_cons_self), inTime_cons]
      by_cases beyond : requestLimit maxBody < (input ++ segment).length
      · rw [if_pos beyond]
        refine iff_of_false (by simp) ?_
        rintro (⟨_, _, within, _⟩ | later)
        · omega
        · exact not_inTime_of_beyond beyond later
      · rw [if_neg beyond]
        rcases part_or_whole stream with ⟨late, proper, split⟩ | ⟨more, whole⟩
        · have before : (input ++ segment).length < raw.length := by
            have positive := List.length_pos_of_ne_nil proper
            simp only [split, List.length_append]
            omega
          simp only [one.open_of_part fits split proper, ParseResult.decided]
          rw [ih (fun other listed => sizes other (List.mem_cons_of_mem _ listed)) stream before]
          constructor
          · exact .inr
          · rintro (⟨_, behind, _⟩ | later)
            · omega
            · exact later
        · have limit := requestLimit_lt maxBody
          have inside : raw.length ≤ (input ++ segment).length := by
            rw [whole, List.length_append]
            omega
          rw [whole] at beyond inside ⊢
          have fits : (raw ++ more).length < 2 ^ 64 := by omega
          rcases one.longer fits with ⟨closed, kept⟩
          simp only [ParseResult.decided_of_ne closed, Option.some.injEq, kept]
          have last : more = [] ↔ (raw ++ more).length = raw.length := by
            rw [List.length_append, Nat.add_eq_left, List.length_eq_zero_iff]
          rw [last]
          constructor
          · exact fun kept => .inl ⟨part, inside, by omega, kept⟩
          · rintro (⟨_, _, _, kept⟩ | later)
            · exact kept
            · exact absurd later (not_inTime_of_whole inside)

theorem intakeAll_iff (one : OneRequest maxBody raw request)
    (sizes : ∀ segment ∈ segments, segment.length ≤ maxRead)
    (stream : segments.flatten = raw ++ rest) :
    intakeAll maxBody [] segments = some (.ok request) ↔ InTime maxBody raw [] segments := by
  have limit := requestLimit_lt maxBody
  by_cases fits : raw.length < 2 ^ 64
  · apply intakeAll_iff_of_fits one fits sizes stream
    rw [List.length_nil, List.length_pos_iff]
    rintro rfl
    have accepted := one.accepted
    rw [parseRequest_nil] at accepted
    cases accepted
  · apply iff_of_false
    · intro parsed
      rcases within_of_intakeAll sizes parsed with ⟨early, late, rfl, within, ok⟩
      rw [List.flatten_append] at stream
      rw [List.nil_append] at within ok
      rcases part_or_whole stream with ⟨rest, proper, split⟩ | ⟨more, whole⟩
      · exact one.whole _ _ split proper _ ok
      · rw [whole, List.length_append] at within
        omega
    · rintro ⟨early, last, late, _, _, behind, within, _⟩
      omega

/-! ## Calls of readClient -/

variable {server : Server} {index : Nat} {fd : Int} {client : Client} {answers : Answers}

theorem calls_startProcess (server : Server) (route : RouteResult) (started : Started) :
    server.calls <+: (server.startProcess route started).1.calls := by
  unfold startProcess
  split
  · exact List.prefix_rfl
  · split
    · exact List.prefix_rfl
    · simp [openPipe, closePipe, close, record]
    · split
      · simp [openPipe, closePipe, close, record]
      · split
        · simp [openPipe, close, record]
        · split <;> simp [openPipe, close, record]

theorem calls_adoptProcess (server : Server) (index : Nat) (fd : Int) (request : Request)
    (timeout : Nat) (now : Int) (process : CgiProcess) :
    server.calls <+: (server.adoptProcess index fd request timeout now process).calls := by
  unfold adoptProcess
  dsimp only
  split
  · exact List.prefix_append _ _
  · exact List.prefix_rfl

theorem calls_startCgi (server : Server) (index : Nat) (fd : Int) (request : Request)
    (answers : Answers) : server.calls <+: (server.startCgi index fd request answers).1.calls := by
  unfold startCgi
  dsimp only
  split
  · exact List.prefix_rfl
  · split
    · exact List.prefix_append _ _
    · split
      · exact List.prefix_append _ _
      · exact List.prefix_append _ _
      next resolved _ =>
        have started := server.calls_startProcess
          { Router.resolve request (server.clientAt fd).settings with diskPath := resolved }
          answers.started
        split
        next after unstarted =>
          rw [unstarted] at started
          exact started.trans (List.prefix_append _ _)
        next after process begun =>
          rw [begun] at started
          exact started.trans (calls_adoptProcess _ _ _ _ _ _ _)

theorem calls_handleResult_ok (server : Server) (index : Nat) (fd : Int) (answers : Answers)
    (request : Request) : server.calls ++ [.parsed fd request] <+:
      (server.handleResult index fd answers (.ok request)).calls := by
  have started := (server.record (.parsed fd request)).calls_startCgi index fd request answers
  rw [handleResult]
  split
  next after left =>
    rw [left] at started
    exact started
  next after left =>
    rw [left] at started
    exact List.IsPrefix.trans started (List.prefix_append _ _)

/-- A call of `readClient` parses the request, or it returns with no response and a later one
does. -/
def Accepts (index : Nat) (fd : Int) (request : Request) : Server → List Answers → Prop
  | _, [] => False
  | server, answers :: reads =>
      server.calls ++ [.parsed fd request] <+: (server.readClient index fd answers).calls ∨
        server.parserReturns fd answers.received = true ∧
          (server.readClient index fd answers).calls = server.calls ∧
          Accepts index fd request (server.readClient index fd answers) reads

/-- Once a response is queued, no request is parsed. -/
theorem not_accepts_of_serialized {response : Bytes} {reads : List Answers}
    (calls : (server.readClient index fd answers).calls =
      server.calls ++ [.serialized fd response]) :
    ¬Accepts index fd request server (answers :: reads) := by
  rw [Accepts, calls]
  rintro (first | ⟨_, same, _⟩)
  · rw [List.prefix_append_right_inj, List.cons_prefix_cons] at first
    cases first.1
  · simp at same

theorem accepts_iff {reads : List Answers} (found : server.clients[fd]? = some client)
    (received : reads.map (·.received) = segments.map .data) :
    Accepts index fd request server reads ↔
      intakeAll client.settings.maxBody client.input segments = some (.ok request) := by
  induction reads generalizing server client segments with
  | nil =>
      rcases List.map_eq_nil_iff.mp received.symm with rfl
      simp [Accepts, intakeAll]
  | cons answers reads ih =>
      cases segments with
      | nil => cases received
      | cons segment segments =>
          rw [List.map_cons, List.map_cons, List.cons.injEq] at received
          rcases received with ⟨here, received⟩
          have known : server.clientAt fd = client := by rw [clientAt, found, Option.getD_some]
          rw [intakeAll]
          cases taken : intake client.settings.maxBody client.input segment with
          | refused =>
              apply iff_of_false _ (by simp)
              apply not_accepts_of_serialized
              simp only [readClient, here, known, taken]
              rfl
          | parsed input result =>
              have read : server.readClient index fd answers =
                  (server.setClient fd { client with
                    input := input, touched := answers.now }).handleResult index fd answers
                      result := by
                simp only [readClient, here, known, taken]
              cases result with
              | incomplete =>
                  have stored : (server.readClient index fd answers).clients[fd]? =
                      some { client with input := input, touched := answers.now } := by
                    rw [read]
                    exact ExtTreeMap.getElem?_insert_self
                  have later := ih stored received
                  rw [Accepts, later]
                  have returns : server.parserReturns fd answers.received = true := by
                    simp only [parserReturns, here, known, taken]
                  have calls : (server.readClient index fd answers).calls = server.calls := by
                    rw [read]
                    rfl
                  rw [calls, returns]
                  constructor
                  · rintro (first | ⟨_, _, parsed⟩)
                    · have lengths := first.length_le
                      rw [List.length_append, List.length_singleton] at lengths
                      omega
                    · exact parsed
                  · exact fun parsed => .inr ⟨rfl, rfl, parsed⟩
              | ok other =>
                  have calls : server.calls ++ [.parsed fd other] <+:
                      (server.readClient index fd answers).calls := by
                    rw [read]
                    exact calls_handleResult_ok (server.setClient fd { client with
                      input := input, touched := answers.now }) index fd answers other
                  simp only [ParseResult.decided, Option.some.injEq, ParseResult.ok.injEq]
                  rw [Accepts]
                  constructor
                  · rintro (first | ⟨_, same, _⟩)
                    · have both := List.prefix_of_prefix_length_le calls first (by simp)
                      have last := both.eq_of_length (by simp)
                      rw [List.append_cancel_left_eq, List.singleton_inj] at last
                      exact (Call.parsed.inj last).2
                    · rw [same] at calls
                      have lengths := calls.length_le
                      rw [List.length_append, List.length_singleton] at lengths
                      exact absurd lengths (Nat.not_succ_le_self _)
                  · rintro rfl
                    exact .inl calls
              | bad | tooLarge | versionNotSupported =>
                  apply iff_of_false _ (by simp [ParseResult.decided])
                  apply not_accepts_of_serialized
                  rw [read]
                  rfl
              | outOfRange | spins =>
                  apply iff_of_false _ (by simp [ParseResult.decided])
                  have returns : server.parserReturns fd answers.received = false := by
                    simp only [parserReturns, here, known, taken]
                  rw [Accepts, returns, read]
                  rintro (first | ⟨same, _⟩)
                  · have lengths := first.length_le
                    rw [List.length_append, List.length_singleton] at lengths
                    exact absurd lengths (Nat.not_succ_le_self _)
                  · cases same

/-- The results of `recv` on a connection, the beginning of which is one request within the
documented limits, lead to that request before any response exactly where the result with its
last byte does not go beyond the limit, and its chunk sizes do not wrap around or nothing comes
with its last byte. -/
theorem readClient_accepts_iff (found : server.clients[fd]? = some client)
    (fresh : client.input = []) (one : OneRequest client.settings.maxBody raw request)
    {reads : List Answers} (received : reads.map (·.received) = segments.map .data)
    (sizes : ∀ segment ∈ segments, 0 < segment.length ∧ segment.length ≤ maxRead)
    (stream : segments.flatten = raw ++ rest) :
    Accepts index fd request server reads ↔
      InTime client.settings.maxBody raw [] segments := by
  rw [accepts_iff found received, fresh]
  exact intakeAll_iff one (fun segment listed => (sizes segment listed).2) stream

end Server

/-! ### A request with a long field -/

def paddedHead (number : Nat) : Bytes :=
  ascii "GET / HTTP/1.1\r\nHost: " ++ List.replicate number (byte 'b')

def paddedRaw (number : Nat) : Bytes := paddedHead number ++ blankLine

def paddedRequest (number : Nat) : Request where
  method := ascii "GET"
  target := ascii "/"
  path := ascii "/"
  version := ascii "HTTP/1.1"
  headers := (∅ : ExtTreeMap Bytes Bytes).insert (ascii "host")
    (trim (byte ' ' :: List.replicate number (byte 'b')))

theorem length_paddedHead (number : Nat) : (paddedHead number).length = 22 + number := by
  rw [paddedHead, List.length_append, List.length_replicate]
  rfl

theorem length_paddedRaw (number : Nat) : (paddedRaw number).length = 26 + number := by
  rw [paddedRaw, List.length_append, length_paddedHead]
  have size : blankLine.length = 4 := rfl
  omega

/-- There is one carriage return in the head. -/
theorem carriageReturn_paddedHead {number position : Nat}
    (there : (paddedHead number)[position]? = some 13) : position = 14 := by
  rw [paddedHead, List.getElem?_append] at there
  split at there
  next inside =>
    have all : ∀ position < 22,
        (ascii "GET / HTTP/1.1\r\nHost: ")[position]? = some 13 → position = 14 := by decide
    exact all position inside there
  · have listed := List.mem_of_getElem? there
    rw [List.mem_replicate] at listed
    exact absurd listed.2 (by decide)

theorem findFrom_paddedRaw (number : Nat) :
    findFrom blankLine (paddedRaw number) 0 = some (22 + number) := by
  refine (findFrom_eq_some_iff blankLine_ne_nil).mpr ⟨Nat.zero_le _, ?_, ?_⟩
  · rw [OccursAt, paddedRaw, ← length_paddedHead, List.drop_left]
  · rintro earlier _ before ⟨rest, split⟩
    have inside (offset : Nat) (small : earlier + offset < 22 + number) :
        (paddedHead number)[earlier + offset]? = (blankLine ++ rest)[offset]? := by
      rw [split, List.getElem?_drop, paddedRaw, List.getElem?_append_left]
      rw [length_paddedHead]
      exact small
    have first := carriageReturn_paddedHead (inside 0 before)
    have second := carriageReturn_paddedHead (inside 2 (by omega))
    omega

theorem nextLine_hostLine (number : Nat) :
    nextLine (ascii "Host: " ++ List.replicate (number + 1) (byte 'b')) =
      some (ascii "Host: " ++ List.replicate (number + 1) (byte 'b'), []) := by
  have noBreak : ∀ c ∈ ascii "Host: " ++ List.replicate (number + 1) (byte 'b'),
      (c != 10) = true := by
    intro c listed
    rcases List.mem_append.mp listed with listed | listed
    · exact (by decide +kernel : ∀ c ∈ ascii "Host: ", (c != 10) = true) c listed
    · rw [List.eq_of_mem_replicate listed]
      decide
  have last : (ascii "Host: " ++ List.replicate (number + 1) (byte 'b')).getLast? =
      some (byte 'b') := by
    rw [List.replicate_succ', ← List.append_assoc, List.getLast?_concat]
  have nonempty : (ascii "Host: " ++ List.replicate (number + 1) (byte 'b')).isEmpty = false := rfl
  unfold nextLine getline
  rw [nonempty, List.takeWhile_eq_self_iff.mpr noBreak, List.dropWhile_eq_nil_iff.mpr noBreak]
  simp [last, show byte 'b' ≠ 13 by decide]

theorem readHeaders_hostLine (number : Nat) :
    readHeaders (ascii "Host: " ++ List.replicate (number + 1) (byte 'b')).length
      (ascii "Host: " ++ List.replicate (number + 1) (byte 'b')) ∅ =
        some (paddedRequest (number + 1)).headers := by
  have length : (ascii "Host: " ++ List.replicate (number + 1) (byte 'b')).length =
      number + 5 + 1 + 1 := by
    rw [List.length_append, List.length_replicate]
    have size : (ascii "Host: ").length = 6 := rfl
    omega
  have colon : (ascii "Host: " ++ List.replicate (number + 1) (byte 'b')).contains (byte ':') =
      true := rfl
  have key : lower (trim ((ascii "Host: " ++ List.replicate (number + 1) (byte 'b')).takeWhile
      (· != byte ':'))) = ascii "host" := rfl
  have value : ((ascii "Host: " ++ List.replicate (number + 1) (byte 'b')).dropWhile
      (· != byte ':')).drop 1 = byte ' ' :: List.replicate (number + 1) (byte 'b') := rfl
  have token : validToken (ascii "host") = true := by decide
  have spent : nextLine [] = none := rfl
  rw [length]
  simp only [readHeaders, nextLine_hostLine, colon, key, value, token, spent]
  simp [paddedRequest]

theorem parseHead_paddedHead (number : Nat) :
    parseHead (paddedHead (number + 1)) = .ok (paddedRequest (number + 1)) := by
  have first : nextLine (paddedHead (number + 1)) = some (ascii "GET / HTTP/1.1",
      ascii "Host: " ++ List.replicate (number + 1) (byte 'b')) := rfl
  have words : requestWords (ascii "GET / HTTP/1.1") =
      some (ascii "GET", ascii "/", ascii "HTTP/1.1") := by decide +kernel
  have path : decodePath ((ascii "/").takeWhile (· != byte '?')) = some (ascii "/") := by
    decide +kernel
  have query : ((ascii "/").dropWhile (· != byte '?')).drop 1 = [] := by decide
  have token : validToken (ascii "GET") = true := by decide
  have slash : (ascii "/").head? = some (byte '/') := rfl
  have host : (paddedRequest (number + 1)).headers.contains (ascii "host") = true := by
    simp [paddedRequest]
  unfold parseHead
  simp only [first, words, readHeaders_hostLine, path, query, token, slash, host]
  rfl

theorem parseRequest_paddedRaw (number maxBody : Nat) :
    parseRequest (paddedRaw (number + 1)) maxBody = .ok (paddedRequest (number + 1)) := by
  have start : (paddedRaw (number + 1)).take (22 + (number + 1)) = paddedHead (number + 1) := by
    rw [paddedRaw, ← length_paddedHead, List.take_left]
  have field (name : Bytes) (other : name ≠ ascii "host") :
      (paddedRequest (number + 1)).headers[name]? = none := by
    have different : compare (ascii "host") name ≠ .eq := by
      rw [ne_eq, LawfulEqOrd.compare_eq_iff_eq]
      exact Ne.symm other
    simp [paddedRequest, different]
  have method : (paddedRequest (number + 1)).method ≠ ascii "POST" :=
    show ascii "GET" ≠ ascii "POST" by decide
  simp only [parseRequest, findFrom_paddedRaw, start, parseHead_paddedHead, parseBody,
    field (ascii "transfer-encoding") (by decide), field (ascii "content-length") (by decide),
    if_neg method, takeBody]
  rw [if_neg (by omega), if_neg (by omega)]
  rfl

theorem oneRequest_paddedRaw {number : Nat} (small : number < 65510) (maxBody : Nat) :
    OneRequest maxBody (paddedRaw (number + 1)) (paddedRequest (number + 1)) where
  accepted := parseRequest_paddedRaw number maxBody
  whole early late split proper other accepted := by
    rcases parseRequest_cases accepted with ⟨headerEnd, parsed, found, _⟩
    have again := findFrom_append blankLine_ne_nil found late
    rw [← split, findFrom_paddedRaw, Option.some.injEq] at again
    have inside := (le_of_findFrom blankLine_ne_nil found).2
    have lengths := congrArg List.length split
    rw [length_paddedRaw, List.length_append] at lengths
    have size : blankLine.length = 4 := rfl
    have positive := List.length_pos_of_ne_nil proper
    omega
  head headerEnd found := by
    rw [findFrom_paddedRaw, Option.some.injEq] at found
    rw [Server.maxHeaderOverhead]
    omega
  framing := by
    rw [length_paddedRaw, Server.maxHeaderOverhead]
    omega

namespace Server

/-- A server with one connection, of a server that takes bodies of one byte. -/
def oneConnection : Server where
  listeners := []
  clients := (∅ : ExtTreeMap Int Client).insert 4 { fd := 4, config := some { maxBody := 1 } }
  pollfds := [{ fd := 4, events := pollIn }]

/-- The results of `recv`, as they come. -/
def readsOf (segments : List Bytes) : List Answers :=
  segments.map fun segment =>
    { received := .data segment, disk := { tree := .empty {}, directory := [] } }

theorem received_readsOf (segments : List Bytes) :
    (readsOf segments).map (·.received) = segments.map .data := by
  rw [readsOf, List.map_map]
  rfl

theorem found_oneConnection : oneConnection.clients[(4 : Int)]? =
    some { fd := 4, config := some { maxBody := 1 } } := ExtTreeMap.getElem?_insert_self

/-- A request in one piece. -/
theorem readClient_accepts_padded :
    Accepts 0 4 (paddedRequest 1) oneConnection (readsOf [paddedRaw 1]) ↔
      InTime 1 (paddedRaw 1) [] [paddedRaw 1] :=
  readClient_accepts_iff found_oneConnection rfl (oneRequest_paddedRaw (by decide) 1)
    (received_readsOf _) (by decide) (List.append_nil _)

/-- A request of 65536 bytes in five pieces, the last with two bytes of the next request. -/
def paddedSegments : List Bytes :=
  [ascii "GET / HTTP/1.1\r\nHost: " ++ List.replicate 16362 (byte 'b'),
    List.replicate 16384 (byte 'b'), List.replicate 16384 (byte 'b'),
    List.replicate 16380 (byte 'b'), blankLine ++ ascii "GE"]

theorem flatten_paddedSegments : paddedSegments.flatten = paddedRaw 65510 ++ ascii "GE" := by
  have parts : List.replicate 65510 (byte 'b') = List.replicate 16362 (byte 'b') ++
      (List.replicate 16384 (byte 'b') ++ (List.replicate 16384 (byte 'b') ++
        List.replicate 16380 (byte 'b'))) := by
    simp only [List.replicate_append_replicate]
  rw [paddedRaw, paddedHead, parts]
  simp only [paddedSegments, List.flatten_cons, List.flatten_nil, List.append_nil,
    List.append_assoc]

theorem not_inTime_paddedSegments : ¬InTime 1 (paddedRaw 65510) [] paddedSegments := by
  have limit : requestLimit 1 = 65537 := by decide
  have first : (ascii "GET / HTTP/1.1\r\nHost: ").length = 22 := rfl
  have last : (ascii "GE").length = 2 := rfl
  have size : blankLine.length = 4 := rfl
  rw [paddedSegments]
  simp only [inTime_cons, limit, List.length_append, List.length_replicate, List.length_nil, first,
    last, size, length_paddedRaw]
  rintro (early | early | early | early | early | ⟨early, _, _, split, _⟩)
  · omega
  · omega
  · omega
  · omega
  · omega
  · cases early <;> cases split

/-- The request is refused, since its last bytes come with two of the next request. -/
theorem paddedSegments_refused :
    OneRequest 1 (paddedRaw 65510) (paddedRequest 65510) ∧
      (∀ segment ∈ paddedSegments, 0 < segment.length ∧ segment.length ≤ maxRead) ∧
      paddedSegments.flatten = paddedRaw 65510 ++ ascii "GE" ∧
      ¬Accepts 0 4 (paddedRequest 65510) oneConnection (readsOf paddedSegments) := by
  have one := oneRequest_paddedRaw (show 65509 < 65510 by decide) 1
  have sizes : ∀ segment ∈ paddedSegments, 0 < segment.length ∧ segment.length ≤ maxRead := by
    have first : (ascii "GET / HTTP/1.1\r\nHost: ").length = 22 := rfl
    have last : (ascii "GE").length = 2 := rfl
    have size : blankLine.length = 4 := rfl
    simp only [paddedSegments, List.forall_mem_cons, List.length_append, List.length_replicate,
      first, last, size, maxRead]
    simp
  refine ⟨one, sizes, flatten_paddedSegments, ?_⟩
  rw [accepts_iff found_oneConnection (received_readsOf _)]
  intro parsed
  apply not_inTime_paddedSegments
  exact (intakeAll_iff one (fun segment listed => (sizes segment listed).2)
    flatten_paddedSegments).mp parsed

end Server

end IrcPlatform.Webserv
