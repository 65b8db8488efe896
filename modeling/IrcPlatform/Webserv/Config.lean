import Std.Data.ExtTreeMap
import IrcPlatform.Webserv.Text

/-!
# The configuration

`Config::parse` on the contents of a configuration file: the tokenizer, then a
recursive-descent parser over the tokens. An exception is its text.
-/

namespace IrcPlatform.Webserv

open Std

structure Location where
  path : Bytes := []
  root : Bytes := []
  index : Bytes := []
  redirect : Bytes := []
  redirectStatus : Nat := 301
  uploadDir : Bytes := []
  cgiExtension : Bytes := []
  cgiPath : Bytes := []
  cgiHandlers : ExtTreeMap Bytes Bytes := ∅
  cgiTimeout : Nat := 30
  autoindex : Bool := false
  methods : List Bytes := []
deriving DecidableEq

structure ServerConfig where
  host : Bytes := ascii "0.0.0.0"
  port : Nat := 8080
  root : Bytes := ascii "www"
  index : Bytes := ascii "index.html"
  maxBody : Nat := 1048576
  autoindex : Bool := false
  methods : List Bytes := [ascii "GET"]
  errorPages : ExtTreeMap Nat Bytes := ∅
  locations : List Location := []
deriving DecidableEq

namespace Config

/-! ## Tokens -/

structure ConfigToken where
  value : Bytes
  line : Nat
deriving DecidableEq

def configError {α : Type} (line : Nat) (message : Bytes) : Except Bytes α :=
  .error (ascii "line " ++ decimal line ++ ascii ": " ++ message)

structure Tokenizer where
  tokens : List ConfigToken := []
  current : Bytes := []
  tokenLine : Nat := 1
  line : Nat := 1
  quote : Option UInt8 := none
  comment : Bool := false

namespace Tokenizer

/-- The token that has been collected, if any, is complete. -/
def flush (state : Tokenizer) : Tokenizer :=
  if state.current.isEmpty then state
  else { state with
    tokens := state.tokens ++ [⟨state.current, state.tokenLine⟩]
    current := [] }

def push (state : Tokenizer) (value : Bytes) (line : Nat) : Tokenizer :=
  { state with tokens := state.tokens ++ [⟨value, line⟩] }

def step (state : Tokenizer) (c : UInt8) : Except Bytes Tokenizer :=
  if state.comment then
    .ok (if c = 10 then { state with comment := false, line := state.line + 1 } else state)
  else
    match state.quote with
    | some quote =>
        if c = quote then
          .ok { state.push state.current state.tokenLine with current := [], quote := none }
        else if c = 10 then configError state.line (ascii "unterminated quoted value")
        else .ok { state with current := state.current ++ [c] }
    | none =>
        if c = byte '#' then .ok { state.flush with comment := true }
        else if c = byte '"' ∨ c = 39 then
          if !state.current.isEmpty then configError state.line (ascii "quote must start a value")
          else .ok { state with quote := some c, tokenLine := state.line }
        else if c = 0x7b ∨ c = 0x7d ∨ c = byte ';' then .ok (state.flush.push [c] state.line)
        else if c = 32 ∨ c = 9 ∨ c = 13 ∨ c = 10 then
          .ok { state.flush with line := if c = 10 then state.line + 1 else state.line }
        else .ok { state with
          tokenLine := if state.current.isEmpty then state.line else state.tokenLine
          current := state.current ++ [c] }

end Tokenizer

def tokenize (input : Bytes) : Except Bytes (List ConfigToken) :=
  (input.foldlM Tokenizer.step {}).bind fun state =>
    match state.quote with
    | some _ => configError state.line (ascii "unterminated quoted value")
    | none => .ok state.flush.tokens

/-! ## Values -/

def parseNumber (token : ConfigToken) : Except Bytes Nat :=
  let invalid := configError token.line (ascii "invalid number")
  if token.value.head? = none ∨ token.value.head? = some (byte '-') ∨
      token.value.head? = some (byte '+') then invalid
  else
    let converted := strtoul token.value
    if converted.outOfRange || !converted.rest.isEmpty then invalid else .ok converted.value

def parseOnOff (token : ConfigToken) : Except Bytes Bool :=
  if token.value = ascii "on" then .ok true
  else if token.value = ascii "off" then .ok false
  else configError token.line (ascii "expected on or off")

/-- A decimal number from 0 to 255 without a leading zero. -/
def isOctet (text : Bytes) : Bool :=
  !text.isEmpty && text.all isAsciiDigit && (text.length == 1 || text.head? != some (byte '0')) &&
    text.length ≤ 3 && text.foldl (fun value c => value * 10 + (c - byte '0').toNat) 0 ≤ 255

/-- `inet_pton(AF_INET, host.c_str(), ...)` succeeds. -/
def isIpv4 (host : Bytes) : Bool :=
  let octets := (host.takeWhile (· != 0)).splitOn (byte '.')
  octets.length == 4 && octets.all isOctet

/-- The text before the last colon, if there is one, and the text after it. -/
def splitLastColon (text : Bytes) : Option Bytes × Bytes :=
  let reversed := text.reverse
  let after := (reversed.takeWhile (· != byte ':')).reverse
  if text.contains (byte ':') then
    (some ((reversed.dropWhile (· != byte ':')).drop 1).reverse, after)
  else (none, after)

def parseListen (server : ServerConfig) (arg : ConfigToken) : Except Bytes ServerConfig :=
  let (before, port) := splitLastColon arg.value
  let host := before.getD (ascii "0.0.0.0")
  if host.isEmpty || !isIpv4 host then configError arg.line (ascii "invalid IPv4 listen address")
  else
    (parseNumber ⟨port, arg.line⟩).bind fun number =>
      if number = 0 ∨ 65535 < number then configError arg.line (ascii "invalid port")
      else .ok { server with host := host, port := number }

def isMethod (value : Bytes) : Bool :=
  value == ascii "GET" || value == ascii "POST" || value == ascii "DELETE"

/-- The loop of `parseMethods`. -/
def addMethods (methods : List Bytes) : List ConfigToken → Except Bytes (List Bytes)
  | [] => .ok methods
  | arg :: rest =>
      if !isMethod arg.value then configError arg.line (ascii "unsupported method")
      else if methods.contains arg.value then configError arg.line (ascii "duplicate method")
      else addMethods (methods ++ [arg.value]) rest

def parseMethods (args : List ConfigToken) (line : Nat) : Except Bytes (List Bytes) :=
  if args.isEmpty then configError line (ascii "methods are missing") else addMethods [] args

/-! ## The parser -/

/-- The tokens that have not been taken. -/
abbrev Tokens := List ConfigToken

def unexpectedEnd {α : Type} : Except Bytes α := .error (ascii "unexpected end of configuration")

def take : Tokens → Except Bytes (ConfigToken × Tokens)
  | [] => unexpectedEnd
  | token :: rest => .ok (token, rest)

def expect (value : Bytes) (tokens : Tokens) : Except Bytes Tokens :=
  (take tokens).bind fun (token, rest) =>
    if token.value = value then .ok rest
    else configError token.line (ascii "expected '" ++ value ++ ascii "'")

def openBrace : Bytes := [0x7b]
def closeBrace : Bytes := [0x7d]

/-- The arguments up to the semicolon. -/
def arguments : Tokens → Except Bytes (List ConfigToken × Tokens)
  | [] => unexpectedEnd
  | token :: rest =>
      if token.value = ascii ";" then .ok ([], rest)
      else if token.value = openBrace ∨ token.value = closeBrace then
        configError token.line (ascii "expected ';'")
      else (arguments rest).map fun (args, rest) => (token :: args, rest)

def markUnique (seen : List Bytes) (name : Bytes) (line : Nat) : Except Bytes (List Bytes) :=
  if seen.contains name then
    configError line (ascii "duplicate directive '" ++ name ++ ascii "'")
  else .ok (name :: seen)

structure LocationState where
  value : Location
  hasRoot : Bool := false
  hasIndex : Bool := false
  hasAutoindex : Bool := false
  hasMethods : Bool := false
deriving DecidableEq

/-- The spellings of a directive that mean another one, in any block. -/
def commonName (name : Bytes) : Bytes :=
  if name = ascii "dir_listing" then ascii "autoindex"
  else if name = ascii "allowed_methods" then ascii "allow_methods"
  else name

def locationName (name : Bytes) : Bytes :=
  if name = ascii "redir" then ascii "return" else commonName name

def checkExtension (arg : ConfigToken) : Except Bytes Unit :=
  if arg.value.head? = some (byte '.') then .ok ()
  else configError arg.line (ascii "CGI extension must start with '.'")

/-- One directive of a location. -/
def locationDirective (state : LocationState) (name : Bytes) (line : Nat) :
    List ConfigToken → Except Bytes LocationState
  | args =>
      let location := state.value
      if name = ascii "allow_methods" then
        (parseMethods args line).map fun methods =>
          { state with value := { location with methods := methods }, hasMethods := true }
      else
        match args with
        | [arg] =>
            if name = ascii "root" then
              .ok { state with value := { location with root := arg.value }, hasRoot := true }
            else if name = ascii "index" then
              .ok { state with value := { location with index := arg.value }, hasIndex := true }
            else if name = ascii "autoindex" then
              (parseOnOff arg).map fun autoindex =>
                { state with
                  value := { location with autoindex := autoindex }, hasAutoindex := true }
            else if name = ascii "return" then
              .ok { state with value := { location with redirect := arg.value } }
            else if name = ascii "upload_dir" then
              .ok { state with value := { location with uploadDir := arg.value } }
            else if name = ascii "cgi_extension" then
              (checkExtension arg).map fun _ =>
                { state with value := { location with cgiExtension := arg.value } }
            else if name = ascii "cgi_path" then
              .ok { state with value := { location with cgiPath := arg.value } }
            else if name = ascii "cgi_timeout" then
              (parseNumber arg).bind fun timeout =>
                if timeout = 0 ∨ 300 < timeout then
                  configError arg.line (ascii "CGI timeout must be 1-300 seconds")
                else .ok { state with value := { location with cgiTimeout := timeout } }
            else configError line (ascii "invalid location directive or arguments")
        | [first, second] =>
            if name = ascii "return" then
              (parseNumber first).bind fun status =>
                if status < 300 ∨ 399 < status then
                  configError first.line (ascii "redirect status must be 300-399")
                else .ok { state with
                  value := { location with redirectStatus := status, redirect := second.value } }
            else if name = ascii "cgi_handler" then
              (checkExtension first).bind fun _ =>
                if location.cgiHandlers.contains first.value then
                  configError first.line (ascii "duplicate CGI extension")
                else .ok { state with value := { location with
                  cgiHandlers := location.cgiHandlers.insert first.value second.value } }
            else configError line (ascii "invalid location directive or arguments")
        | _ => configError line (ascii "invalid location directive or arguments")

/-- The loop over the directives of a location; every round takes a token. -/
def locationDirectives : Nat → LocationState → List Bytes → Tokens →
    Except Bytes (LocationState × Tokens)
  | 0, _, _, _ => unexpectedEnd
  | fuel + 1, state, seen, tokens =>
      (take tokens).bind fun (directive, rest) =>
        if directive.value = closeBrace then .ok (state, tokens)
        else
          (arguments rest).bind fun (args, rest) =>
            let name := locationName directive.value
            (if name = ascii "cgi_handler" then .ok seen
              else markUnique seen name directive.line).bind fun seen =>
                (locationDirective state name directive.line args).bind fun state =>
                  locationDirectives fuel state seen rest

/-- The single handler that `cgi_extension` and `cgi_path` configure. -/
def finishLocation (state : LocationState) (line : Nat) : Except Bytes LocationState :=
  let location := state.value
  if location.cgiExtension.isEmpty != location.cgiPath.isEmpty then
    configError line (ascii "cgi_extension and cgi_path must be configured together")
  else if location.cgiExtension.isEmpty then .ok state
  else if location.cgiHandlers.contains location.cgiExtension then
    configError line (ascii "duplicate CGI extension")
  else .ok { state with value := { location with
    cgiHandlers := location.cgiHandlers.insert location.cgiExtension location.cgiPath } }

def parseLocation (tokens : Tokens) : Except Bytes (LocationState × Tokens) :=
  (take tokens).bind fun (path, rest) =>
    if path.value.head? ≠ some (byte '/') then
      configError path.line (ascii "location path must start with '/'")
    else
      (expect openBrace rest).bind fun rest =>
        (locationDirectives (rest.length + 1) { value := { path := path.value } } [] rest).bind
          fun (state, rest) => (expect closeBrace rest).bind fun rest =>
            (finishLocation state path.line).map (·, rest)

def maxBodyLimit : Nat := 16 * 1024 * 1024

/-- One directive of a server other than `location`. -/
def serverDirective (server : ServerConfig) (name : Bytes) (line : Nat) (args : List ConfigToken) :
    Except Bytes ServerConfig :=
  if name = ascii "allow_methods" then
    (parseMethods args line).map fun methods => { server with methods := methods }
  else
    match args with
    | [arg] =>
        if name = ascii "listen" then parseListen server arg
        else if name = ascii "root" then .ok { server with root := arg.value }
        else if name = ascii "index" then .ok { server with index := arg.value }
        else if name = ascii "client_max_body_size" then
          (parseNumber arg).bind fun maxBody =>
            if maxBodyLimit < maxBody then
              configError arg.line (ascii "client body limit exceeds 16 MiB")
            else .ok { server with maxBody := maxBody }
        else if name = ascii "autoindex" then
          (parseOnOff arg).map fun autoindex => { server with autoindex := autoindex }
        else configError line (ascii "invalid server directive or arguments")
    | [first, second] =>
        if name = ascii "error_page" then
          (parseNumber first).bind fun status =>
            if status < 300 ∨ 599 < status then
              configError first.line (ascii "error status must be 300-599")
            else if server.errorPages.contains status then
              configError first.line (ascii "duplicate error_page status")
            else .ok { server with errorPages := server.errorPages.insert status second.value }
        else configError line (ascii "invalid server directive or arguments")
    | _ => configError line (ascii "invalid server directive or arguments")

structure ServerState where
  server : ServerConfig := {}
  seen : List Bytes := []
  locations : List LocationState := []

/-- The loop over the directives of a server; every round takes a token. -/
def serverDirectives : Nat → ServerState → Tokens → Except Bytes (ServerState × Tokens)
  | 0, _, _ => unexpectedEnd
  | fuel + 1, state, tokens =>
      (take tokens).bind fun (directive, rest) =>
        if directive.value = closeBrace then .ok (state, tokens)
        else if directive.value = ascii "location" then
          (parseLocation rest).bind fun (location, rest) =>
            serverDirectives fuel { state with locations := state.locations ++ [location] } rest
        else
          (arguments rest).bind fun (args, rest) =>
            let name := commonName directive.value
            (if name = ascii "error_page" then .ok state.seen
              else markUnique state.seen name directive.line).bind fun seen =>
                (serverDirective state.server name directive.line args).bind fun server =>
                  serverDirectives fuel { state with server := server, seen := seen } rest

/-- A location takes from its server what it does not set itself. -/
def inherit (server : ServerConfig) (state : LocationState) : Location :=
  { state.value with
    root := if state.hasRoot then state.value.root else server.root
    index := if state.hasIndex then state.value.index else server.index
    autoindex := if state.hasAutoindex then state.value.autoindex else server.autoindex
    methods := if state.hasMethods then state.value.methods else server.methods }

def parseServer (tokens : Tokens) : Except Bytes (ServerConfig × Tokens) :=
  (expect openBrace tokens).bind fun rest =>
    (serverDirectives (rest.length + 1) {} rest).bind fun (state, rest) =>
      (expect closeBrace rest).bind fun rest =>
        if !state.seen.contains (ascii "listen") then
          .error (ascii "server block is missing listen directive")
        else .ok
          ({ state.server with locations := state.locations.map (inherit state.server) }, rest)

/-- The loop over the servers; every round takes a token. -/
def parseServers : Nat → Tokens → Except Bytes (List ServerConfig)
  | 0, _ => .ok []
  | fuel + 1, tokens =>
      match tokens with
      | [] => .ok []
      | keyword :: rest =>
          if keyword.value ≠ ascii "server" then
            configError keyword.line (ascii "expected 'server'")
          else
            (parseServer rest).bind fun (server, rest) =>
              (parseServers fuel rest).map (server :: ·)

def sharesAddress (one other : ServerConfig) : Bool :=
  one.host == other.host && one.port == other.port

def hasDuplicate : List ServerConfig → Bool
  | [] => false
  | server :: rest => rest.any (sharesAddress server) || hasDuplicate rest

def parse (content : Bytes) : Except Bytes (List ServerConfig) :=
  (tokenize content).bind fun tokens =>
    (parseServers tokens.length tokens).bind fun servers =>
      if servers.isEmpty then .error (ascii "config contains no server")
      else if hasDuplicate servers then .error (ascii "duplicate listen address")
      else .ok servers

end Config

end IrcPlatform.Webserv
