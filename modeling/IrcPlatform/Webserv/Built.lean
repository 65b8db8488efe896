import IrcPlatform.Library.Maps
import IrcPlatform.Webserv.Configured
import IrcPlatform.Webserv.EventLoop
import IrcPlatform.Webserv.Framing

/-!
# Responses that the server builds

Every response that the server makes of a refusal, a request or the output of a script is one
message, except for a redirect whose target holds a carriage return and for a script whose
header lines interfere with the framing.
-/

namespace IrcPlatform.Webserv

open Std

/-! ## Header fields -/

/-- A field that stays on its line and leaves the framing alone. -/
def Clean (entry : Bytes × Bytes) : Prop := Response.Wordly entry ∧ Harmless entry

/-- No field of the response interferes with its framing. -/
def Response.Clean (response : Response) : Prop :=
  ∀ entry ∈ response.headers.toList, Webserv.Clean entry

theorem Response.Clean.framed {response : Response} (clean : response.Clean) :
    SingleMessage response.serialize response.body :=
  (framed_iff fun entry listed => (clean entry listed).1).mpr fun entry listed =>
    (clean entry listed).2

/-- The names of the fields that handlers write. -/
def handlerNames : List Bytes :=
  [ascii "Content-Type", ascii "Content-Disposition", ascii "Location", ascii "Allow"]

/-- A field as a handler writes it, with a value without line breaks. -/
def Ordinary (entry : Bytes × Bytes) : Prop :=
  entry.1 ∈ handlerNames ∧ 13 ∉ entry.2 ∧ 10 ∉ entry.2

/-- The names of handlers are words, and are not for framing. -/
theorem handlerNames_clean : ∀ name ∈ handlerNames,
    13 ∉ name ∧ 10 ∉ name ∧ byte ':' ∉ name ∧ lower name ∉ framingNames := by
  decide +kernel

theorem ordinary_of_plain {name value : Bytes} (known : name ∈ handlerNames)
    (plain : 13 ∉ value ∧ 10 ∉ value) : Ordinary (name, value) := ⟨known, plain⟩

theorem Ordinary.clean {entry : Bytes × Bytes} (ordinary : Ordinary entry) : Clean entry := by
  rcases handlerNames_clean entry.1 ordinary.1 with ⟨noReturn, noFeed, word, free⟩
  exact ⟨⟨noFeed, ordinary.2.2, word⟩, ⟨noReturn, ordinary.2.1, free⟩⟩

def Response.Ordinary (response : Response) : Prop :=
  ∀ entry ∈ response.headers.toList, Webserv.Ordinary entry

theorem Response.Ordinary.clean {response : Response} (ordinary : response.Ordinary) :
    response.Clean :=
  fun entry listed => (ordinary entry listed).clean

theorem plain_append {front back : Bytes} (first : 13 ∉ front ∧ 10 ∉ front)
    (second : 13 ∉ back ∧ 10 ∉ back) : 13 ∉ front ++ back ∧ 10 ∉ front ++ back := by
  rw [List.mem_append, List.mem_append, not_or, not_or]
  exact ⟨⟨first.1, second.1⟩, first.2, second.2⟩

/-! ## Refusals -/

theorem ResponseFactory.error_ordinary (disk : Disk) (status : Nat) (server : ServerConfig) :
    (ResponseFactory.error disk status server).Ordinary :=
  forall_mem_insert forall_mem_empty (ordinary_of_plain (by decide) (by decide))

/-! ## Requests -/

/-- The parts of a request that come into responses. -/
structure Request.Plain (request : Request) : Prop where
  path : 13 ∉ request.path ∧ 10 ∉ request.path
  query : 13 ∉ request.query ∧ 10 ∉ request.query

theorem parseHead_query {head : Bytes} {request : Request}
    (parsed : parseHead head = .ok request) :
    request.query = (request.target.dropWhile (· != byte '?')).drop 1 := by
  unfold parseHead at parsed
  repeat' split at parsed
  all_goals try simp at parsed
  rcases parsed with rfl
  rw [List.drop_one]

/-- The query is part of a word. -/
theorem visible_query {raw : Bytes} {maxBody : Nat} {request : Request}
    (accepted : parseRequest raw maxBody = .ok request) :
    ∀ c ∈ request.query, isStreamSpace c = false := by
  rcases parseRequest_cases accepted with ⟨headerEnd, parsed, _, head, body⟩
  rcases parseBody_cases body with ⟨bytes, rfl, _⟩
  rcases (headRead_of_parseHead head).parts with ⟨first, rest, _, words, _⟩
  intro c listed
  dsimp only at listed
  rw [parseHead_query head] at listed
  have inTarget := (List.dropWhile_sublist _).subset (List.mem_of_mem_drop listed)
  exact (requestWords_parts words).2 c inTarget

/-- Control characters are refused in paths, and a target is a word. -/
theorem plain_of_parseRequest {raw : Bytes} {maxBody : Nat} {request : Request}
    (accepted : parseRequest raw maxBody = .ok request) : request.Plain := by
  constructor
  · rcases parseRequest_path accepted with ⟨rest, same, confined⟩
    have slash : byte '/' ≠ 13 ∧ byte '/' ≠ 10 := by decide
    have controls : isControl 13 = true ∧ isControl 10 = true := by decide
    have apart {c : UInt8} (control : isControl c = true) : c ∉ rest := by
      intro inside
      rw [confined.no_controls c inside] at control
      exact Bool.false_ne_true control
    rw [same, List.mem_cons, List.mem_cons, not_or, not_or]
    exact ⟨⟨slash.1.symm, apart controls.1⟩, slash.2.symm, apart controls.2⟩
  · have visible := visible_query accepted
    exact ⟨fun listed => absurd (visible 13 listed) (by decide),
      fun listed => absurd (visible 10 listed) (by decide)⟩

namespace StaticHandler

variable {request : Request}

theorem directoryRedirect_ordinary (plain : request.Plain) :
    (directoryRedirect request).Ordinary := by
  refine forall_mem_insert forall_mem_empty (ordinary_of_plain (by decide) ?_)
  refine plain_append (plain_append plain.path (by decide)) ?_
  split
  · exact ⟨List.not_mem_nil, List.not_mem_nil⟩
  · exact plain_append (by decide) plain.query

theorem listingResponse_ordinary (disk : Disk) (route : RouteResult) (server : ServerConfig)
    (resolved : Bytes) : (listingResponse disk request route server resolved).Ordinary := by
  unfold listingResponse
  split
  · exact ResponseFactory.error_ordinary disk 403 server
  · split
    · exact ResponseFactory.error_ordinary disk 403 server
    · exact forall_mem_insert forall_mem_empty (ordinary_of_plain (by decide) (by decide))

theorem chooseIndex_ordinary {disk : Disk} (plain : request.Plain) {route : RouteResult}
    {server : ServerConfig} {resolved : Bytes} {response : Response}
    (chosen : chooseIndex disk request route server resolved = .error response) :
    response.Ordinary := by
  unfold chooseIndex at chosen
  split at chosen
  · cases chosen
    exact directoryRedirect_ordinary plain
  · dsimp only at chosen
    split at chosen
    · cases chosen
      exact ResponseFactory.error_ordinary disk 403 server
    · cases chosen
      exact listingResponse_ordinary disk route server resolved
    · cases chosen

theorem chooseFile_ordinary {disk : Disk} (plain : request.Plain) {route : RouteResult}
    {server : ServerConfig} {response : Response}
    (chosen : chooseFile disk request route server = .error response) : response.Ordinary := by
  have refused (status : Nat) := ResponseFactory.error_ordinary disk status server
  unfold chooseFile at chosen
  dsimp only at chosen
  split at chosen
  · cases chosen
    exact refused 404
  · cases chosen
    exact refused 403
  next resolved _ =>
    split at chosen
    · cases index : chooseIndex disk request route server resolved with
      | error found =>
          rw [index] at chosen
          cases chosen
          exact chooseIndex_ordinary plain index
      | ok found =>
          rw [index] at chosen
          dsimp only [Except.bind] at chosen
          split at chosen
          · cases chosen
          · cases chosen
            exact refused 403
    · cases chosen
    · cases chosen
      exact refused 403

theorem mimeType_plain (path : Bytes) : 13 ∉ mimeType path ∧ 10 ∉ mimeType path := by
  have known : ∀ entry ∈ mimeTypes, 13 ∉ ascii entry.2 ∧ 10 ∉ ascii entry.2 := by
    decide +kernel
  unfold mimeType
  split
  next entry found => exact known entry (List.mem_of_find?_eq_some found)
  · decide

theorem fileHeaders_ordinary (route : RouteResult) (path : Bytes) :
    ∀ entry ∈ (fileHeaders route path).toList, Webserv.Ordinary entry := by
  unfold fileHeaders
  split
  · exact forall_mem_insert
      (forall_mem_insert forall_mem_empty (ordinary_of_plain (by decide) (by decide)))
      (ordinary_of_plain (by decide) (by decide))
  · exact forall_mem_insert forall_mem_empty (ordinary_of_plain (by decide) (mimeType_plain path))

theorem handle_ordinary (disk : Disk) (plain : request.Plain) (route : RouteResult)
    (server : ServerConfig) : (handle disk request route server).Ordinary := by
  unfold handle
  split
  next chosen => exact chooseFile_ordinary plain chosen
  · split
    · exact ResponseFactory.error_ordinary disk 413 server
    · exact ResponseFactory.error_ordinary disk 403 server
    · exact fileHeaders_ordinary route _

end StaticHandler

namespace UploadHandler

theorem plain_of_validFileName {name : Bytes} (valid : validFileName name = true) :
    13 ∉ name ∧ 10 ∉ name := by
  simp only [validFileName, Bool.and_eq_true, List.all_eq_true] at valid
  exact ⟨fun inside => absurd (valid.2 _ inside) (by decide),
    fun inside => absurd (valid.2 _ inside) (by decide)⟩

theorem createdResponse_ordinary {request : Request} (plain : request.Plain) {name : Bytes}
    (valid : validFileName name = true) : (createdResponse request name).Ordinary := by
  refine forall_mem_insert (forall_mem_insert forall_mem_empty ?_)
    (ordinary_of_plain (by decide) (by decide))
  refine ordinary_of_plain (by decide) ?_
  exact plain_append (plain_append plain.path (by decide)) (plain_of_validFileName valid)

theorem handle_ordinary (disk : Disk) {request : Request} (plain : request.Plain)
    (route : RouteResult) (server : ServerConfig) (now : Nat) (writes : List WriteOutcome) :
    (handle disk request route server now writes).1.Ordinary := by
  have refused (status : Nat) := ResponseFactory.error_ordinary disk status server
  unfold handle
  dsimp only
  split
  · exact refused 403
  · split
    · exact refused 403
    · split
      next valid =>
        split
        · exact refused 409
        · exact refused 403
        · exact refused 500
        · exact createdResponse_ordinary plain valid
      · exact refused 400

end UploadHandler

theorem DeleteHandler.handle_ordinary (disk : Disk) (route : RouteResult) (server : ServerConfig) :
    (DeleteHandler.handle disk route server).1.Ordinary := by
  unfold DeleteHandler.handle
  split
  · exact ResponseFactory.error_ordinary disk 404 server
  · exact ResponseFactory.error_ordinary disk 403 server
  · exact forall_mem_empty

/-! ## Routes -/

theorem plain_of_isMethod {method : Bytes} (known : Config.isMethod method = true) :
    13 ∉ method ∧ 10 ∉ method := by
  simp only [Config.isMethod, Bool.or_eq_true, beq_iff_eq] at known
  rcases known with (rfl | rfl) | rfl <;> decide

theorem plain_intercalate {separator : Bytes} (plain : 13 ∉ separator ∧ 10 ∉ separator)
    {pieces : List Bytes} (each : ∀ piece ∈ pieces, 13 ∉ piece ∧ 10 ∉ piece) :
    13 ∉ separator.intercalate pieces ∧ 10 ∉ separator.intercalate pieces := by
  induction pieces with
  | nil => exact ⟨List.not_mem_nil, List.not_mem_nil⟩
  | cons piece pieces ih =>
      rw [List.forall_mem_cons] at each
      cases pieces with
      | nil => simpa using each.1
      | cons next rest =>
          rw [List.intercalate_cons_cons]
          exact plain_append (plain_append each.1 plain) (ih each.2)

namespace Dispatcher

variable {server : ServerConfig}

theorem selectedMethods_known (plain : server.Plain) (path : Bytes) :
    ∀ method ∈ selectedMethods server (matchLocation server path),
      Config.isMethod method = true := by
  cases found : matchLocation server path with
  | none => exact plain.methods
  | some location => exact (plain.locations location (matchLocation_spec found).1).methods

theorem redirect_plain (plain : server.Plain) (request : Request) :
    10 ∉ (Router.resolve request server).redirect := by
  have configured : 10 ∉ configuredRedirect (matchLocation server request.path) := by
    cases found : matchLocation server request.path with
    | none => exact List.not_mem_nil
    | some location => exact (plain.locations location (matchLocation_spec found).1).redirect
  unfold Router.resolve
  dsimp only
  split
  · exact List.not_mem_nil
  · split
    · exact configured
    · exact List.not_mem_nil

theorem resolve_methods (request : Request) (server : ServerConfig) :
    (Router.resolve request server).methods =
      selectedMethods server (matchLocation server request.path) := by
  unfold Router.resolve
  dsimp only
  split
  · rfl
  · split <;> rfl

theorem methodNotAllowed_ordinary (disk : Disk) (plain : server.Plain) (request : Request) :
    (methodNotAllowed disk (Router.resolve request server) server).Ordinary := by
  refine forall_mem_insert (ResponseFactory.error_ordinary disk 405 server)
    (ordinary_of_plain (by decide) (plain_intercalate (by decide) ?_))
  rw [resolve_methods]
  exact fun method listed => plain_of_isMethod (selectedMethods_known plain request.path method
    listed)

theorem mem_redirect {route : RouteResult} {entry : Bytes × Bytes} :
    entry ∈ (redirect route).headers.toList ↔ entry = (ascii "Location", route.redirect) := by
  refine mem_toList_insert.trans (or_iff_left ?_)
  rintro ⟨_, old⟩
  exact not_mem_empty old

theorem redirect_wordly (plain : server.Plain) (request : Request) :
    ∀ entry ∈ (redirect (Router.resolve request server)).headers.toList,
      Response.Wordly entry := by
  intro entry listed
  have word : 10 ∉ ascii "Location" ∧ byte ':' ∉ ascii "Location" := by decide
  rw [mem_redirect.mp listed]
  exact ⟨word.1, redirect_plain plain request, word.2⟩

/-- Only a redirect can interfere, with a carriage return in its target. -/
theorem redirect_framed_iff (plain : server.Plain) (request : Request) :
    SingleMessage (redirect (Router.resolve request server)).serialize [] ↔
      13 ∉ (Router.resolve request server).redirect := by
  refine (Response.framed_iff (redirect_wordly plain request)).trans ⟨?_, ?_⟩
  · intro harmless
    exact (harmless _ (mem_redirect.mpr rfl)).value
  · intro unbroken entry listed
    have feeds := redirect_plain plain request
    rw [mem_redirect.mp listed]
    exact (ordinary_of_plain (by decide) ⟨unbroken, feeds⟩).clean.2

/-- The request is redirected to a target that is configured with a carriage return. -/
def BrokenRedirect (request : Request) (server : ServerConfig) : Prop :=
  ∃ location, matchLocation server request.path = some location ∧
    request.method ∈ location.methods ∧ 13 ∈ location.redirect

theorem brokenRedirect_iff {request : Request} : BrokenRedirect request server ↔
    (Router.resolve request server).status = .redirect ∧
      13 ∈ (Router.resolve request server).redirect := by
  unfold BrokenRedirect Router.resolve
  cases found : matchLocation server request.path with
  | none =>
      refine iff_of_false (by simp) ?_
      dsimp only [configuredRedirect]
      rintro ⟨redirected, broken⟩
      split at broken
      · exact List.not_mem_nil broken
      · exact List.not_mem_nil broken
  | some location =>
      simp only [Option.some.injEq, exists_eq_left', selectedMethods, configuredRedirect]
      by_cases allowed : request.method ∈ location.methods
      · by_cases silent : location.redirect = []
        · simp [allowed, silent]
        · simp [allowed, silent]
      · simp [allowed]

/-- A response is a redirect, or its fields are those of the handlers. -/
theorem dispatch_cases (disk : Disk) {request : Request} (plain : request.Plain)
    (configured : server.Plain) (now : Nat) (writes : List WriteOutcome) :
    ((Router.resolve request server).status = .redirect ∧
      (dispatch disk request server now writes).1 = redirect (Router.resolve request server)) ∨
    ((Router.resolve request server).status ≠ .redirect ∧
      (dispatch disk request server now writes).1.Ordinary) := by
  unfold dispatch
  dsimp only
  cases (Router.resolve request server).status with
  | methodNotAllowed =>
      exact Or.inr ⟨by simp, methodNotAllowed_ordinary disk configured request⟩
  | redirect => exact Or.inl ⟨rfl, rfl⟩
  | ready =>
      refine Or.inr ⟨by simp, ?_⟩
      dsimp only
      split
      · exact DeleteHandler.handle_ordinary disk _ server
      · split
        · exact UploadHandler.handle_ordinary disk plain _ server now writes
        · exact StaticHandler.handle_ordinary disk plain _ server

theorem dispatch_framed_iff (disk : Disk) {request : Request} (plain : request.Plain)
    (configured : server.Plain) (now : Nat) (writes : List WriteOutcome) :
    SingleMessage (dispatch disk request server now writes).1.serialize
        (dispatch disk request server now writes).1.body ↔ ¬BrokenRedirect request server := by
  rw [brokenRedirect_iff]
  rcases dispatch_cases disk plain configured now writes with ⟨moved, same⟩ | ⟨other, ordinary⟩
  · rw [same, moved, and_iff_right rfl]
    exact redirect_framed_iff configured request
  · exact iff_of_true ordinary.clean.framed fun broken => other broken.1

end Dispatcher

/-! ## Scripts -/

namespace CgiHandler

/-- The field of a script's header line. -/
def lineField (line : Bytes) : Bytes × Bytes := (sentName line, trim (fieldValue line))

/-- The line is turned into a field of the response. -/
def Kept (line : Bytes) : Prop :=
  fieldName line ∉ [ascii "status", ascii "content-length", ascii "connection"]

instance (line : Bytes) : Decidable (Kept line) := inferInstanceAs (Decidable (¬_))

/-- The fields that the lines set, in their order. -/
def keptFields (lines : List Bytes) : List (Bytes × Bytes) :=
  (lines.filter fun line => decide (Kept line)).map lineField

def isContentType (entry : Bytes × Bytes) : Bool := lower entry.1 == ascii "content-type"

/-- The output is refused for the line. -/
def Refused (line : Bytes) : Prop :=
  byte ':' ∉ line ∨
    (fieldName line = ascii "status" ∧ readStatus (trim (fieldValue line)) = none)

/-- One of the lines sets the field of this name. -/
def Sets (lines : List Bytes) (name : Bytes) : Prop :=
  ∃ line ∈ lines, Kept line ∧ sentName line = name

/-- Every field that a line sets is harmless, unless a later line sets it again. -/
def Harmlessly : List Bytes → Prop
  | [] => True
  | line :: rest =>
      (Kept line → Harmless (lineField line) ∨ Sets rest (sentName line)) ∧ Harmlessly rest

/-- The output is refused, or its header lines leave the framing alone. -/
def FramedOutput (output : Bytes) : Prop :=
  match splitOutput output with
  | none => True
  | some (block, _) => (∃ line ∈ headLines block, Refused line) ∨ Harmlessly (headLines block)

variable {line : Bytes} {lines : List Bytes} {response : Response} {hasContentType : Bool}

/-- The loop over lines that are already cut. -/
def addEach (lines : List Bytes) (state : Response × Bool) : Option (Response × Bool) :=
  lines.foldlM (fun state line => addLine state.1 state.2 line) state

theorem addLines_eq_addEach {fuel : Nat} {text : Bytes} :
    addLines fuel text response hasContentType =
      addEach (linesOf fuel text) (response, hasContentType) := by
  induction fuel generalizing text response hasContentType with
  | zero => rfl
  | succ fuel ih =>
      rw [addLines, linesOf]
      cases taken : nextLine text with
      | none => rfl
      | some pair =>
          dsimp only
          rw [addEach, List.foldlM_cons]
          exact Option.bind_congr fun state _ => ih

theorem addLine_of_colon (colon : byte ':' ∈ line) : addLine response hasContentType line =
    if fieldName line = ascii "status" then
      (readStatus (trim (fieldValue line))).map fun code =>
        ({ response with status := code }, hasContentType)
    else if fieldName line ≠ ascii "content-length" ∧ fieldName line ≠ ascii "connection" then
      some ({ response with
          headers := response.headers.insert (sentName line) (trim (fieldValue line)) },
        hasContentType || fieldName line == ascii "content-type")
    else some (response, hasContentType) := by
  have listed : ¬(!line.contains (byte ':')) = true := by simpa using colon
  unfold addLine
  rw [if_neg listed]
  rfl

theorem addLine_refused (refused : Refused line) : addLine response hasContentType line = none := by
  by_cases colon : byte ':' ∈ line
  · rcases refused.resolve_left (not_not_intro colon) with ⟨status, unread⟩
    rw [addLine_of_colon colon, if_pos status, unread]
    rfl
  · unfold addLine
    rw [if_pos (by simpa using colon)]

/-- A line that is not refused sets its field, or changes nothing but the status. -/
theorem addLine_accepted (accepted : ¬Refused line) :
    (Kept line ∧ addLine response hasContentType line =
      some ({ response with
          headers := response.headers.insert (sentName line) (trim (fieldValue line)) },
        hasContentType || fieldName line == ascii "content-type")) ∨
    (¬Kept line ∧ ∃ status, addLine response hasContentType line =
      some ({ response with status := status }, hasContentType)) := by
  rw [Refused, not_or, not_not, not_and] at accepted
  rw [addLine_of_colon accepted.1]
  simp only [Kept, List.mem_cons, List.not_mem_nil, or_false, not_or]
  by_cases status : fieldName line = ascii "status"
  · right
    rcases Option.ne_none_iff_exists'.mp (accepted.2 status) with ⟨code, read⟩
    rw [if_pos status, read]
    exact ⟨fun kept => kept.1 status, code, rfl⟩
  · rw [if_neg status]
    by_cases other : fieldName line ≠ ascii "content-length" ∧ fieldName line ≠ ascii "connection"
    · left
      rw [if_pos other]
      exact ⟨⟨status, other⟩, rfl⟩
    · right
      rw [if_neg other]
      exact ⟨fun kept => other kept.2, response.status, rfl⟩

theorem addEach_cons (state : Response × Bool) : addEach (line :: lines) state =
    (addLine state.1 state.2 line).bind (addEach lines) := rfl

/-- The loop ends early only at a refused line. -/
theorem addEach_eq_none_iff {state : Response × Bool} :
    addEach lines state = none ↔ ∃ line ∈ lines, Refused line := by
  induction lines generalizing state with
  | nil => simp [addEach]
  | cons line lines ih =>
      rw [addEach_cons, List.exists_mem_cons_iff]
      by_cases refused : Refused line
      · rw [addLine_refused refused]
        exact iff_of_true rfl (Or.inl refused)
      · rw [or_iff_right refused]
        rcases addLine_accepted refused with ⟨_, added⟩ | ⟨_, status, added⟩
        · rw [added]
          exact ih
        · rw [added]
          exact ih

/-- The first line sets its field or is passed over, and the loop goes on. -/
theorem addEach_cons_some {state result : Response × Bool}
    (added : addEach (line :: lines) state = some result) :
    (Kept line ∧ addEach lines ({ state.1 with
        headers := state.1.headers.insert (sentName line) (trim (fieldValue line)) },
      state.2 || fieldName line == ascii "content-type") = some result) ∨
    (¬Kept line ∧ ∃ status, addEach lines ({ state.1 with status := status }, state.2) =
      some result) := by
  have accepted : ¬Refused line := by
    intro refused
    rw [addEach_cons, addLine_refused refused] at added
    cases added
  rw [addEach_cons] at added
  rcases addLine_accepted accepted with ⟨kept, one⟩ | ⟨dropped, status, one⟩
  · rw [one] at added
    exact Or.inl ⟨kept, added⟩
  · rw [one] at added
    exact Or.inr ⟨dropped, status, added⟩

/-- The fields after the loop are harmless when those that the lines set are, and those that
stood before and are not set again. -/
theorem harmless_addEach_iff {state result : Response × Bool}
    (added : addEach lines state = some result) :
    (∀ entry ∈ result.1.headers.toList, Harmless entry) ↔ Harmlessly lines ∧
      ∀ entry ∈ state.1.headers.toList, Harmless entry ∨ Sets lines entry.1 := by
  induction lines generalizing state with
  | nil =>
      rw [← Option.some.inj added]
      simp [Harmlessly, Sets]
  | cons line lines ih =>
      rcases addEach_cons_some added with ⟨kept, rest⟩ | ⟨dropped, status, rest⟩
      · have sets (name : Bytes) : Sets (line :: lines) name ↔
            sentName line = name ∨ Sets lines name := by
          simp [Sets, kept]
        rw [ih rest, Harmlessly, imp_iff_right kept, forall_mem_insert_iff]
        constructor
        · rintro ⟨later, own, before⟩
          refine ⟨⟨own, later⟩, fun entry listed => ?_⟩
          by_cases same : sentName line = entry.1
          · exact Or.inr ((sets _).mpr (Or.inl same))
          · exact (before entry listed (Ne.symm same)).imp_right fun set =>
              (sets _).mpr (Or.inr set)
        · rintro ⟨⟨own, later⟩, before⟩
          refine ⟨later, own, fun entry listed other => ?_⟩
          exact (before entry listed).imp_right fun set =>
            ((sets _).mp set).resolve_left (Ne.symm other)
      · have sets (name : Bytes) : Sets (line :: lines) name ↔ Sets lines name := by
          simp [Sets, dropped]
        rw [ih rest, Harmlessly, and_iff_right fun kept => absurd kept dropped]
        simp only [sets]

theorem mem_keptFields {entry : Bytes × Bytes} :
    entry ∈ keptFields lines ↔ ∃ line ∈ lines, Kept line ∧ lineField line = entry := by
  simp [keptFields, and_assoc]

theorem keptFields_cons (line : Bytes) (lines : List Bytes) : keptFields (line :: lines) =
    if Kept line then lineField line :: keptFields lines else keptFields lines := by
  rw [keptFields, List.filter_cons]
  by_cases kept : Kept line
  · rw [if_pos (decide_eq_true kept), if_pos kept]
    rfl
  · rw [if_neg (by simpa using kept), if_neg kept]
    rfl

/-- The loop inserts the fields one after another, and notes a content type. -/
theorem headers_addEach {state result : Response × Bool}
    (added : addEach lines state = some result) :
    result.1.headers = state.1.headers.insertMany (keptFields lines) ∧
      result.2 = (state.2 || (keptFields lines).any isContentType) := by
  induction lines generalizing state with
  | nil =>
      rw [← Option.some.inj added]
      exact ⟨rfl, (Bool.or_false _).symm⟩
  | cons line lines ih =>
      rw [keptFields_cons]
      rcases addEach_cons_some added with ⟨kept, rest⟩ | ⟨dropped, status, rest⟩
      · rcases ih rest with ⟨headers, typed⟩
        rw [if_pos kept, headers, typed, lineField, ExtTreeMap.insertMany_cons, List.any_cons,
          Bool.or_assoc]
        exact ⟨rfl, rfl⟩
      · have both := ih rest
        rw [if_neg dropped]
        exact both

/-- The content type that is added to a response without one. -/
def withContentType (state : Response × Bool) : ExtTreeMap Bytes Bytes :=
  if state.2 then state.1.headers
  else state.1.headers.insert (ascii "Content-Type") (ascii "text/plain; charset=utf-8")

def textType : Bytes × Bytes := (ascii "Content-Type", ascii "text/plain; charset=utf-8")

theorem textType_clean : Clean textType := (ordinary_of_plain (by decide) (by decide)).clean

/-- The headers of a response are the fields of the script, and a content type if it sets
none. -/
theorem mem_withContentType {state : Response × Bool}
    (added : addEach lines ({ status := 200 }, false) = some state) {entry : Bytes × Bytes} :
    entry ∈ (withContentType state).toList ↔
      entry ∈ (lastEntries compare (keptFields lines)).toList ∨
        (entry = textType ∧ (keptFields lines).any isContentType = false) := by
  rcases headers_addEach added with ⟨headers, typed⟩
  rw [Bool.false_or] at typed
  have same : (∅ : ExtTreeMap Bytes Bytes).insertMany (keptFields lines) =
      lastEntries compare (keptFields lines) := rfl
  rw [withContentType, headers, typed, same]
  by_cases sets : (keptFields lines).any isContentType = true
  · rw [if_pos sets, sets]
    simp
  · have none_ : (keptFields lines).any isContentType = false := by simpa using sets
    have other (listed : entry ∈ (lastEntries compare (keptFields lines)).toList) :
        entry.1 ≠ ascii "Content-Type" := by
      intro equal
      have spelled : isContentType entry = true := by
        rw [isContentType, equal]
        decide
      rw [List.any_eq_false] at none_
      exact none_ entry (mem_of_mem_lastEntries listed) spelled
    rw [if_neg sets, mem_toList_insert, none_]
    constructor
    · rintro (added | ⟨_, old⟩)
      · exact Or.inr ⟨added, rfl⟩
      · exact Or.inl old
    · rintro (old | ⟨added, _⟩)
      · exact Or.inr ⟨other old, old⟩
      · exact Or.inl added

theorem lineField_wordly (plain : 10 ∉ line) : Response.Wordly (lineField line) := by
  refine ⟨?_, ?_, ?_⟩
  · intro inside
    exact plain ((List.takeWhile_sublist _).subset (mem_of_mem_strip inside))
  · intro inside
    exact plain ((List.dropWhile_sublist _).subset (List.mem_of_mem_drop (mem_of_mem_strip inside)))
  · intro inside
    have before := List.mem_takeWhile_imp (mem_of_mem_strip inside)
    simp at before

/-- Lines without line feeds make fields that stay on their lines. -/
theorem wordly_withContentType {state : Response × Bool}
    (added : addEach lines ({ status := 200 }, false) = some state)
    (plain : ∀ line ∈ lines, 10 ∉ line) :
    ∀ entry ∈ (withContentType state).toList, Response.Wordly entry := by
  intro entry listed
  rcases (mem_withContentType added).mp listed with own | ⟨rfl, _⟩
  · rcases mem_keptFields.mp (mem_of_mem_lastEntries own) with ⟨line, inLines, _, rfl⟩
    exact lineField_wordly (plain line inLines)
  · exact textType_clean.1

theorem harmless_withContentType_iff {state : Response × Bool}
    (added : addEach lines ({ status := 200 }, false) = some state) :
    (∀ entry ∈ (withContentType state).toList, Harmless entry) ↔ Harmlessly lines := by
  have loop := harmless_addEach_iff added
  rw [and_iff_left forall_mem_empty, (headers_addEach added).1] at loop
  rw [← loop]
  simp only [mem_withContentType added]
  constructor
  · exact fun every entry listed => every entry (Or.inl listed)
  · rintro every entry (own | ⟨rfl, _⟩)
    · exact every entry own
    · exact textType_clean.2

/-- The response to an output is one message when its header lines leave the framing alone. -/
theorem makeResponse_framed_iff (disk : Disk) (output : Bytes) (server : ServerConfig) :
    SingleMessage (makeResponse disk output server).serialize
      (makeResponse disk output server).body ↔ FramedOutput output := by
  have refused := (ResponseFactory.error_ordinary disk 500 server).clean.framed
  unfold makeResponse FramedOutput
  cases split : splitOutput output with
  | none => exact iff_of_true refused True.intro
  | some parts =>
      dsimp only
      rw [addLines_eq_addEach, linesOf_eq_headLines le_rfl]
      cases added : addEach (headLines parts.1) ({ status := 200 }, false) with
      | none => exact iff_of_true refused (Or.inl (addEach_eq_none_iff.mp added))
      | some result =>
          have accepted : ¬∃ line ∈ headLines parts.1, Refused line := by
            rw [← addEach_eq_none_iff, added]
            exact Option.some_ne_none result
          have plain : ∀ line ∈ headLines parts.1, 10 ∉ line := by
            rw [← linesOf_eq_headLines le_rfl]
            exact fun line => lineFeed_not_mem_linesOf
          rw [or_iff_right accepted]
          exact (Response.framed_iff (wordly_withContentType added plain)).trans
            (harmless_withContentType_iff added)

end CgiHandler

/-! ## Everything that is answered -/

/-- What the server builds a response for. -/
inductive Occasion where
  /-- A request that is refused, or that was not answered in time. -/
  | refusal (status : Nat)
  /-- A request as the bytes that have been received. -/
  | request (raw : Bytes)
  /-- The output of a CGI script. -/
  | script (output : Bytes)

namespace Occasion

variable {server : ServerConfig} {answers : Answers}

def response (server : ServerConfig) (answers : Answers) : Occasion → Option Response
  | refusal status => some (ResponseFactory.error answers.disk status server)
  | request raw => Server.respondTo server answers (parseRequest raw server.maxBody)
  | script output => some (CgiHandler.makeResponse answers.disk output server)

/-- Neither a configured redirect nor a script interferes with the framing. -/
def Undisturbed (server : ServerConfig) : Occasion → Prop
  | refusal _ => True
  | request raw => ∀ request, parseRequest raw server.maxBody = .ok request →
      ¬Dispatcher.BrokenRedirect request server
  | script output => CgiHandler.FramedOutput output

theorem respondTo_framed_iff (configured : server.Plain) {raw : Bytes} {response : Response}
    (built : Server.respondTo server answers (parseRequest raw server.maxBody) = some response) :
    SingleMessage response.serialize response.body ↔ (request raw).Undisturbed server := by
  have refused (status : Nat) :=
    (ResponseFactory.error_ordinary answers.disk status server).clean.framed
  rw [Undisturbed]
  cases parsed : parseRequest raw server.maxBody with
  | ok accepted =>
      rw [parsed] at built
      rw [← Option.some.inj built]
      refine (Dispatcher.dispatch_framed_iff answers.disk (plain_of_parseRequest parsed)
        configured answers.now answers.writes).trans ?_
      simp only [ParseResult.ok.injEq, forall_eq']
  | bad | tooLarge | versionNotSupported =>
      rw [parsed] at built
      rw [← Option.some.inj built]
      exact iff_of_true (refused _) (by simp)
  | incomplete | outOfRange | spins =>
      rw [parsed] at built
      cases built

/-- With an accepted configuration, a response is one message exactly when neither a configured
redirect nor a script interferes. -/
theorem response_framed_iff {content : Bytes} {servers : List ServerConfig}
    (accepted : Config.parse content = .ok servers) (listed : server ∈ servers)
    {occasion : Occasion} {response : Response}
    (built : occasion.response server answers = some response) :
    SingleMessage response.serialize response.body ↔ occasion.Undisturbed server := by
  have configured := Config.parse_plain content servers accepted server listed
  cases occasion with
  | refusal status =>
      rw [← Option.some.inj built]
      exact iff_of_true (ResponseFactory.error_ordinary answers.disk status server).clean.framed
        True.intro
  | request raw => exact respondTo_framed_iff configured built
  | script output =>
      rw [← Option.some.inj built]
      exact CgiHandler.makeResponse_framed_iff answers.disk output server

/-- A redirect that is configured with a carriage return. -/
def returnConf : Bytes :=
  ascii "server \x7b listen 0.0.0.0:8080; location /old \x7b return \"/new\r\"; \x7d \x7d"

def returnServer : ServerConfig :=
  match Config.parse returnConf with
  | .ok (server :: _) => server
  | _ => {}

def noFiles : Answers where
  disk := { tree := FileTree.empty {}, directory := [] }

def askOld : Occasion := request (ascii "GET /old HTTP/1.1\r\nHost: a\r\n\r\n")

theorem response_framed_iff_old : ∃ response, askOld.response returnServer noFiles = some response ∧
    (SingleMessage response.serialize response.body ↔ askOld.Undisturbed returnServer) := by
  have run : Config.parse returnConf = .ok [returnServer] ∧
      (askOld.response returnServer noFiles).isSome = true := by
    decide +kernel
  rcases Option.isSome_iff_exists.mp run.2 with ⟨response, built⟩
  exact ⟨response, built, response_framed_iff run.1 List.mem_cons_self built⟩

/-- The response is built, and is not one message. -/
def Misframed (occasion : Occasion) (response : Response) : Prop :=
  occasion.response returnServer noFiles = some response ∧
    ¬SingleMessage response.serialize response.body

def textResponse (name value : String) : Response where
  status := 200
  headers := ((∅ : ExtTreeMap Bytes Bytes).insert (ascii name) (ascii value)).insert
    (ascii "Content-Type") (ascii "text/plain; charset=utf-8")
  body := ascii "hi"

/-- The response to `askOld`. -/
def movedResponse : Response where
  status := 301
  headers := (∅ : ExtTreeMap Bytes Bytes).insert (ascii "Location") (ascii "/new\r")

/-- A script names a transfer coding or writes a carriage return, and a redirect is configured
with one. -/
theorem response_misframed :
    Config.parse returnConf = .ok [returnServer] ∧
    Misframed (script (ascii "Transfer-Encoding: chunked\r\n\r\nhi"))
      (textResponse "Transfer-Encoding" "chunked") ∧
    Misframed (script (ascii "X-Note: a\rb\r\n\r\nhi")) (textResponse "X-Note" "a\rb") ∧
    Misframed askOld movedResponse := by
  have run : Config.parse returnConf = .ok [returnServer] ∧
      (script (ascii "Transfer-Encoding: chunked\r\n\r\nhi")).response returnServer noFiles =
        some (textResponse "Transfer-Encoding" "chunked") ∧
      (script (ascii "X-Note: a\rb\r\n\r\nhi")).response returnServer noFiles =
        some (textResponse "X-Note" "a\rb") ∧
      askOld.response returnServer noFiles = some movedResponse := by
    decide +kernel
  rcases run with ⟨accepted, coded, broken, moved⟩
  refine ⟨accepted, ⟨coded, ?_⟩, ⟨broken, ?_⟩, moved, ?_⟩
  · rw [Response.framed_iff (by decide +kernel)]
    decide +kernel
  · rw [Response.framed_iff (by decide +kernel)]
    decide +kernel
  · rw [Response.framed_iff (by decide +kernel)]
    decide +kernel

end Occasion

end IrcPlatform.Webserv
