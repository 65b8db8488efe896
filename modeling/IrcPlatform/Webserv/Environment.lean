import IrcPlatform.Library.Maps
import IrcPlatform.Webserv.HeadForm
import IrcPlatform.Webserv.Site

/-!
# The environment of a script

The variables that `CgiHandler::start` hands to a script. A header becomes a variable with its
name in capitals and underscores for dashes, so that two headers share a variable exactly when
their names differ in nothing but dashes and underscores.
-/

namespace IrcPlatform.Webserv

open Std

/-- What a script is told besides the request: the working directory and the peer. -/
structure Surroundings where
  /-- The result of `getcwd`. -/
  current : Option Bytes := none
  remoteAddress : Bytes := []
  remotePort : Nat := 0

namespace CgiHandler

/-! ## The variables -/

def environmentByte (c : UInt8) : UInt8 :=
  if c = byte '-' then byte '_' else if byte 'a' ≤ c && c ≤ byte 'z' then c - 32 else c

def headerEnvironmentName (header : Bytes) : Bytes :=
  ascii "HTTP_" ++ header.map environmentByte

def addEnvironment (environment : List Bytes) (name value : Bytes) : List Bytes :=
  environment ++ [name ++ ascii "=" ++ value]

def absolutePath (surroundings : Surroundings) (path : Bytes) : Bytes :=
  if path.head? = some (byte '/') then path
  else
    match surroundings.current with
    | none => path
    | some current => current ++ ascii "/" ++ path

def serverName (request : Request) (config : ServerConfig) : Bytes :=
  match request.headers[ascii "host"]? with
  | none => config.host
  | some host => (Config.splitLastColon host).1.getD host

/-- The directory that the location of the route serves; a route to a script has one. -/
def documentRoot (route : RouteResult) : Bytes :=
  match route.location with
  | none => []
  | some location => location.root

/-- The variables of the server, in the order in which they are added. -/
def serverVariables (request : Request) (route : RouteResult) (config : ServerConfig)
    (surroundings : Surroundings) : List (Bytes × Bytes) :=
  [(ascii "GATEWAY_INTERFACE", ascii "CGI/1.1"),
    (ascii "SERVER_PROTOCOL", request.version),
    (ascii "SERVER_SOFTWARE", ascii "webserv/1.0"),
    (ascii "REQUEST_METHOD", request.method),
    (ascii "REQUEST_URI", request.target),
    (ascii "QUERY_STRING", request.query),
    (ascii "CONTENT_LENGTH", decimal request.body.length),
    (ascii "SCRIPT_NAME", request.path),
    (ascii "SCRIPT_FILENAME", absolutePath surroundings route.diskPath),
    (ascii "PATH_INFO", request.path),
    (ascii "PATH_TRANSLATED", absolutePath surroundings route.diskPath),
    (ascii "DOCUMENT_ROOT", absolutePath surroundings (documentRoot route)),
    (ascii "SERVER_NAME", serverName request config),
    (ascii "SERVER_PORT", decimal config.port),
    (ascii "REMOTE_ADDR", surroundings.remoteAddress),
    (ascii "REMOTE_PORT", decimal surroundings.remotePort),
    (ascii "REDIRECT_STATUS", ascii "200")]

/-- Headers with these names do not become variables of their own. -/
def leftOut : List Bytes := [ascii "content-length", ascii "content-type", ascii "proxy"]

/-- The environment that `start` builds. -/
def startEnvironment (request : Request) (route : RouteResult) (config : ServerConfig)
    (surroundings : Surroundings) : List Bytes :=
  let environment := (serverVariables request route config surroundings).foldl
    (fun environment entry => addEnvironment environment entry.1 entry.2) []
  let environment := match request.headers[ascii "content-type"]? with
    | none => environment
    | some value => addEnvironment environment (ascii "CONTENT_TYPE") value
  request.headers.toList.foldl
    (fun environment header =>
      if leftOut.contains header.1 then environment
      else addEnvironment environment (headerEnvironmentName header.1) header.2)
    environment

/-! ## What a script reads -/

/-- The name of a variable, as a script finds it in its environment. -/
def variableName (entry : Bytes) : Bytes := entry.takeWhile (· != byte '=')

def variableValue (entry : Bytes) : Bytes := (entry.dropWhile (· != byte '=')).drop 1

/-- The headers that become variables. -/
def passedHeaders (request : Request) : List (Bytes × Bytes) :=
  request.headers.toList.filter fun header => !leftOut.contains header.1

/-- Every variable has a name of its own, none is the proxy, and those of the headers carry one
header each. -/
structure Unshadowed (request : Request) (environment : List Bytes) : Prop where
  distinct : (environment.map variableName).Nodup
  noProxy : ascii "HTTP_PROXY" ∉ environment.map variableName
  carried : ∀ entry ∈ environment, ascii "HTTP_" <+: variableName entry →
    ∃ header ∈ passedHeaders request, header.2 = variableValue entry ∧
      ∀ other ∈ passedHeaders request,
        headerEnvironmentName other.1 = variableName entry ↔ other = header

/-- The name with underscores for its dashes. -/
def underscored (name : Bytes) : Bytes :=
  name.map fun c => if c = byte '-' then byte '_' else c

/-- No two headers that become variables differ only in dashes and underscores. -/
def DistinctHeaders (request : Request) : Prop :=
  ∀ first ∈ passedHeaders request, ∀ second ∈ passedHeaders request,
    underscored first.1 = underscored second.1 → first.1 = second.1

instance (request : Request) : Decidable (DistinctHeaders request) :=
  inferInstanceAs (Decidable (∀ first ∈ _, _))

/-! ## Names -/

theorem lowerByte_environmentByte {c : UInt8} (small : lowerByte c = c) :
    lowerByte (environmentByte c) = if c = byte '-' then byte '_' else c := by
  revert c
  apply forall_byte
  decide +kernel

theorem environmentByte_underscored (c : UInt8) :
    environmentByte (if c = byte '-' then byte '_' else c) = environmentByte c := by
  by_cases dash : c = byte '-'
  · rw [if_pos dash, dash]
    rfl
  · rw [if_neg dash]

/-- Two lower-case names make one variable when they differ in dashes and underscores only. -/
theorem headerEnvironmentName_inj {first second : Bytes} (firstSmall : lower first = first)
    (secondSmall : lower second = second) :
    headerEnvironmentName first = headerEnvironmentName second ↔
      underscored first = underscored second := by
  have restored {name : Bytes} (small : lower name = name) :
      lower (name.map environmentByte) = underscored name := by
    rw [lower, underscored, List.map_map]
    refine List.map_congr_left fun c listed => lowerByte_environmentByte ?_
    exact List.map_inj_left.mp (small.trans (List.map_id name).symm) c listed
  have through (name : Bytes) :
      (underscored name).map environmentByte = name.map environmentByte := by
    rw [underscored, List.map_map]
    exact List.map_congr_left fun c _ => environmentByte_underscored c
  rw [headerEnvironmentName, headerEnvironmentName, List.append_cancel_left_eq]
  constructor
  · intro same
    rw [← restored firstSmall, ← restored secondSmall, same]
  · intro same
    rw [← through first, ← through second, same]

theorem lower_lower (name : Bytes) : lower (lower name) = lower name := by
  have same : ∀ c, lowerByte (lowerByte c) = lowerByte c := by
    apply forall_byte
    decide +kernel
  rw [lower, lower, List.map_map]
  exact List.map_congr_left fun c _ => same c

/-- The keys of an accepted request are lower-case tokens. -/
theorem headers_small {raw : Bytes} {maxBody : Nat} {request : Request}
    (accepted : parseRequest raw maxBody = .ok request) :
    ∀ header ∈ request.headers.toList, validToken header.1 = true ∧ lower header.1 = header.1 := by
  rcases parseRequest_cases accepted with ⟨headerEnd, parsed, _, head, body⟩
  rcases parseBody_cases body with ⟨bytes, rfl, _⟩
  rcases (headRead_of_parseHead head).parts with ⟨first, rest, _, _, read⟩
  rintro ⟨key, value⟩ listed
  rw [ExtTreeMap.mem_toList_iff_getElem?_eq_some, readHeaders_lookup read key,
    ExtTreeMap.getElem?_empty, Option.none_or, Option.map_eq_some_iff] at listed
  rcases listed with ⟨line, found, _⟩
  have named : fieldName line = key := by simpa using List.find?_some found
  have facts := (readHeaders_names read).1 line (List.mem_of_find?_eq_some found)
  rw [← named]
  exact ⟨facts.2.1, lower_lower _⟩

/-! ## The list -/

theorem foldl_addEnvironment (entries : List (Bytes × Bytes)) (environment : List Bytes) :
    entries.foldl (fun environment entry => addEnvironment environment entry.1 entry.2)
      environment = environment ++ entries.map fun entry => entry.1 ++ ascii "=" ++ entry.2 := by
  induction entries generalizing environment with
  | nil => exact (List.append_nil environment).symm
  | cons entry entries ih =>
      rw [List.foldl_cons, ih, addEnvironment, List.append_assoc]
      rfl

theorem foldl_headers (headers : List (Bytes × Bytes)) (environment : List Bytes) :
    headers.foldl (fun environment header =>
        if leftOut.contains header.1 then environment
        else addEnvironment environment (headerEnvironmentName header.1) header.2) environment =
      environment ++ (headers.filter fun header => !leftOut.contains header.1).map
        fun header => headerEnvironmentName header.1 ++ ascii "=" ++ header.2 := by
  induction headers generalizing environment with
  | nil => exact (List.append_nil environment).symm
  | cons header headers ih =>
      rw [List.foldl_cons, ih, List.filter_cons]
      by_cases out : leftOut.contains header.1 = true
      · rw [if_pos out, if_neg (by simpa using out)]
      · rw [if_neg out, if_pos (by simpa using out), addEnvironment, List.append_assoc]
        rfl

/-- The variables that do not come from the loop over the headers. -/
def ownVariables (request : Request) (route : RouteResult) (config : ServerConfig)
    (surroundings : Surroundings) : List (Bytes × Bytes) :=
  serverVariables request route config surroundings ++
    (request.headers[ascii "content-type"]?.map fun value =>
      (ascii "CONTENT_TYPE", value)).toList

def headerVariables (request : Request) : List (Bytes × Bytes) :=
  (passedHeaders request).map fun header => (headerEnvironmentName header.1, header.2)

theorem startEnvironment_eq (request : Request) (route : RouteResult) (config : ServerConfig)
    (surroundings : Surroundings) : startEnvironment request route config surroundings =
      (ownVariables request route config surroundings ++ headerVariables request).map
        fun entry => entry.1 ++ ascii "=" ++ entry.2 := by
  unfold startEnvironment ownVariables
  dsimp only
  rw [foldl_headers, foldl_addEnvironment, List.nil_append, List.map_append, List.map_append,
    headerVariables, List.map_map]
  cases request.headers[ascii "content-type"]? with
  | none => simp [passedHeaders, Function.comp_def]
  | some value => simp [passedHeaders, addEnvironment, Function.comp_def]

theorem variable_parts {entry : Bytes × Bytes} (plain : byte '=' ∉ entry.1) :
    variableName (entry.1 ++ ascii "=" ++ entry.2) = entry.1 ∧
      variableValue (entry.1 ++ ascii "=" ++ entry.2) = entry.2 := by
  have inside : ∀ c ∈ entry.1, (c != byte '=') = true := by
    intro c listed
    rw [bne_iff_ne]
    rintro rfl
    exact plain listed
  have equals : ascii "=" ++ entry.2 = byte '=' :: entry.2 := rfl
  rw [variableName, variableValue, List.append_assoc, List.takeWhile_append_of_pos inside,
    List.dropWhile_append_of_pos inside, equals, List.takeWhile_cons_of_neg (by simp),
    List.dropWhile_cons_of_neg (by simp), List.append_nil]
  exact ⟨rfl, rfl⟩

/-- The names of the variables that are not headers. -/
def ownNames : List Bytes :=
  (serverVariables {} { location := none, methods := [] } {} {}).map Prod.fst ++
    [ascii "CONTENT_TYPE"]

theorem ownNames_spec : ownNames.Nodup ∧
    ∀ name ∈ ownNames, byte '=' ∉ name ∧ ¬ascii "HTTP_" <+: name := by
  decide +kernel

section Accepted

variable {raw : Bytes} {maxBody : Nat} {request : Request}

theorem sublist_ownNames (request : Request) (route : RouteResult) (config : ServerConfig)
    (surroundings : Surroundings) :
    List.Sublist ((ownVariables request route config surroundings).map Prod.fst) ownNames := by
  have same : (serverVariables request route config surroundings).map Prod.fst =
      (serverVariables {} { location := none, methods := [] } {} {}).map Prod.fst := rfl
  rw [ownVariables, ownNames, List.map_append, same]
  refine List.Sublist.append_left ?_ _
  cases request.headers[ascii "content-type"]? with
  | none => exact List.nil_sublist _
  | some value => exact List.Sublist.refl _

theorem prefix_headerEnvironmentName (name : Bytes) :
    ascii "HTTP_" <+: headerEnvironmentName name := List.prefix_append _ _

theorem mem_passedHeaders {header : Bytes × Bytes} : header ∈ passedHeaders request ↔
    header ∈ request.headers.toList ∧ header.1 ∉ leftOut := by
  rw [passedHeaders, List.mem_filter]
  simp

theorem plain_headerEnvironmentName (accepted : parseRequest raw maxBody = .ok request)
    {header : Bytes × Bytes} (own : header ∈ request.headers.toList) :
    byte '=' ∉ headerEnvironmentName header.1 := by
  have token : ∀ c, tokenCharacter c = true → environmentByte c ≠ byte '=' := by
    apply forall_byte
    decide +kernel
  have name := (headers_small accepted header own).1
  simp only [validToken, Bool.and_eq_true, List.all_eq_true] at name
  rw [headerEnvironmentName, List.mem_append, not_or]
  refine ⟨by decide, fun listed => ?_⟩
  rcases List.mem_map.mp listed with ⟨c, inside, equals⟩
  exact token c (name.2 c inside) equals

/-- The names of the list are those of its variables. -/
theorem map_variableName (accepted : parseRequest raw maxBody = .ok request)
    (route : RouteResult) (config : ServerConfig) (surroundings : Surroundings) :
    ∀ entry ∈ ownVariables request route config surroundings ++ headerVariables request,
      variableName (entry.1 ++ ascii "=" ++ entry.2) = entry.1 ∧
        variableValue (entry.1 ++ ascii "=" ++ entry.2) = entry.2 := by
  intro entry listed
  refine variable_parts ?_
  rcases List.mem_append.mp listed with own | header
  · have named := (sublist_ownNames request route config surroundings).subset
      (List.mem_map_of_mem own)
    exact (ownNames_spec.2 _ named).1
  · rcases List.mem_map.mp header with ⟨passed, inside, rfl⟩
    exact plain_headerEnvironmentName accepted (mem_passedHeaders.mp inside).1

theorem nodup_passedHeaders (request : Request) : (passedHeaders request).Nodup :=
  (nodup_toList request.headers).filter _

/-- The variables of the headers have different names when the headers differ in more than
dashes and underscores. -/
theorem nodup_headerVariables_iff (accepted : parseRequest raw maxBody = .ok request) :
    ((headerVariables request).map Prod.fst).Nodup ↔ DistinctHeaders request := by
  have names : (headerVariables request).map Prod.fst =
      (passedHeaders request).map fun header => headerEnvironmentName header.1 := by
    rw [headerVariables, List.map_map]
    rfl
  rw [names, List.nodup_map_iff_inj_on (nodup_passedHeaders request)]
  refine forall₂_congr fun first inFirst => forall₂_congr fun second inSecond => ?_
  have one := (mem_passedHeaders.mp inFirst).1
  have other := (mem_passedHeaders.mp inSecond).1
  rw [headerEnvironmentName_inj (headers_small accepted first one).2
    (headers_small accepted second other).2]
  refine imp_congr_right fun _ => ⟨congrArg Prod.fst, eq_of_mem_toList one other⟩

theorem underscored_eq_of_free {name other : Bytes} (free : byte '_' ∉ other)
    (same : underscored name = other) : name = other := by
  rw [← same] at free ⊢
  refine (List.map_id name).symm.trans (List.map_congr_left fun c listed => ?_)
  rw [if_neg]
  · rfl
  · rintro rfl
    exact free (List.mem_map.mpr ⟨_, listed, rfl⟩)

/-- The header that would become the proxy of the script is left out. -/
theorem headerEnvironmentName_ne_proxy (accepted : parseRequest raw maxBody = .ok request)
    {header : Bytes × Bytes} (passed : header ∈ passedHeaders request) :
    headerEnvironmentName header.1 ≠ ascii "HTTP_PROXY" := by
  rcases mem_passedHeaders.mp passed with ⟨own, kept⟩
  have spelled : headerEnvironmentName (ascii "proxy") = ascii "HTTP_PROXY" ∧
      lower (ascii "proxy") = ascii "proxy" ∧
      underscored (ascii "proxy") = ascii "proxy" ∧ byte '_' ∉ ascii "proxy" ∧
      ascii "proxy" ∈ leftOut := by
    decide
  rcases spelled with ⟨variable_, small, dashed, free, out⟩
  intro same
  rw [← variable_, headerEnvironmentName_inj (headers_small accepted header own).2 small,
    dashed] at same
  exact kept (underscored_eq_of_free free same ▸ out)

theorem variableNames_startEnvironment (accepted : parseRequest raw maxBody = .ok request)
    (route : RouteResult) (config : ServerConfig) (surroundings : Surroundings) :
    (startEnvironment request route config surroundings).map variableName =
      (ownVariables request route config surroundings).map Prod.fst ++
        (headerVariables request).map Prod.fst := by
  rw [startEnvironment_eq, List.map_map, ← List.map_append]
  exact List.map_congr_left fun entry listed =>
    (map_variableName accepted route config surroundings entry listed).1

/-- A variable of the server is not one of a header. -/
theorem not_prefix_ownVariables {route : RouteResult} {config : ServerConfig}
    {surroundings : Surroundings} {name : Bytes}
    (own : name ∈ (ownVariables request route config surroundings).map Prod.fst) :
    ¬ascii "HTTP_" <+: name :=
  (ownNames_spec.2 name ((sublist_ownNames request route config surroundings).subset own)).2

/-- The variables of a script are told apart exactly when no two headers of the request differ
in nothing but dashes and underscores. -/
theorem startEnvironment_unshadowed_iff (accepted : parseRequest raw maxBody = .ok request)
    (config : ServerConfig) (surroundings : Surroundings) :
    Unshadowed request (startEnvironment request (Router.resolve request config) config
      surroundings) ↔ DistinctHeaders request := by
  have names := variableNames_startEnvironment accepted (Router.resolve request config) config
    surroundings
  rw [← nodup_headerVariables_iff accepted]
  constructor
  · intro unshadowed
    have distinct := unshadowed.distinct
    rw [names] at distinct
    exact (List.nodup_append.mp distinct).2.1
  · intro distinct
    constructor
    · rw [names, List.nodup_append]
      refine ⟨ownNames_spec.1.sublist (sublist_ownNames _ _ _ _), distinct, ?_⟩
      rintro name own other header rfl
      rcases List.mem_map.mp header with ⟨entry, listed, rfl⟩
      rcases List.mem_map.mp listed with ⟨passed, _, rfl⟩
      exact not_prefix_ownVariables own (prefix_headerEnvironmentName passed.1)
    · rw [names, List.mem_append, not_or]
      refine ⟨fun own => not_prefix_ownVariables own (by decide), fun header => ?_⟩
      rcases List.mem_map.mp header with ⟨entry, listed, proxy⟩
      rcases List.mem_map.mp listed with ⟨passed, inside, rfl⟩
      exact headerEnvironmentName_ne_proxy accepted inside proxy
    · intro text listed begins
      rw [startEnvironment_eq] at listed
      rcases List.mem_map.mp listed with ⟨entry, inside, rfl⟩
      rcases map_variableName accepted _ config surroundings entry inside with ⟨name, value⟩
      rw [name] at begins ⊢
      rw [value]
      rcases List.mem_append.mp inside with own | header
      · exact absurd begins (not_prefix_ownVariables (List.mem_map_of_mem own))
      · rcases List.mem_map.mp header with ⟨passed, kept, rfl⟩
        refine ⟨passed, kept, rfl, fun other more => ⟨fun same => ?_, ?_⟩⟩
        · rw [headerVariables, List.map_map] at distinct
          exact List.inj_on_of_nodup_map distinct more kept same
        · rintro rfl
          rfl

end Accepted

/-! ## A request for a script -/

def scriptConf : Bytes :=
  ascii "server \x7b listen 0.0.0.0:8080; location / \x7b root /w; " ++
    ascii "cgi_handler .py /usr/bin/python3; \x7d \x7d"

def scriptServer : ServerConfig :=
  match Config.parse scriptConf with
  | .ok (server :: _) => server
  | _ => {}

/-- A request with these two headers beside its host. -/
def scriptRaw (first second : String) : Bytes :=
  ascii "GET /a.py HTTP/1.1\r\nHost: b\r\n" ++ ascii first ++ crlf ++ ascii second ++ blankLine

def scriptRequest (first second : String) : Request where
  method := ascii "GET"
  target := ascii "/a.py"
  path := ascii "/a.py"
  version := ascii "HTTP/1.1"
  headers := (((∅ : ExtTreeMap Bytes Bytes).insert (ascii "host") (ascii "b")).insert
    (ascii first) (ascii "1")).insert (ascii second) (ascii "2")

theorem startEnvironment_unshadowed_iff_two :
    Unshadowed (scriptRequest "x-a" "x-b") (startEnvironment (scriptRequest "x-a" "x-b")
      (Router.resolve (scriptRequest "x-a" "x-b") scriptServer) scriptServer {}) ↔
      DistinctHeaders (scriptRequest "x-a" "x-b") :=
  have accepted : parseRequest (scriptRaw "X-A: 1" "X-B: 2") 0 =
      .ok (scriptRequest "x-a" "x-b") := by
    decide +kernel
  startEnvironment_unshadowed_iff accepted scriptServer {}

/-- Two headers become one variable. -/
theorem startEnvironment_shadowed :
    Config.parse scriptConf = .ok [scriptServer] ∧
      parseRequest (scriptRaw "X-A: 1" "X_A: 2") 0 = .ok (scriptRequest "x-a" "x_a") ∧
      startsCgi (scriptRequest "x-a" "x_a") scriptServer = true ∧
      ¬Unshadowed (scriptRequest "x-a" "x_a") (startEnvironment (scriptRequest "x-a" "x_a")
        (Router.resolve (scriptRequest "x-a" "x_a") scriptServer) scriptServer {}) := by
  have run : Config.parse scriptConf = .ok [scriptServer] ∧
      parseRequest (scriptRaw "X-A: 1" "X_A: 2") 0 = .ok (scriptRequest "x-a" "x_a") ∧
      startsCgi (scriptRequest "x-a" "x_a") scriptServer = true ∧
      ¬((startEnvironment (scriptRequest "x-a" "x_a")
        (Router.resolve (scriptRequest "x-a" "x_a") scriptServer) scriptServer {}).map
          variableName).Nodup := by
    decide +kernel
  exact ⟨run.1, run.2.1, run.2.2.1, fun unshadowed => run.2.2.2 unshadowed.distinct⟩

end CgiHandler

end IrcPlatform.Webserv
