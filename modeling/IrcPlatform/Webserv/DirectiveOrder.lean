import IrcPlatform.Library.Changes
import IrcPlatform.Library.Maps
import IrcPlatform.Webserv.ConfigBlocks

/-!
# The order of directives

A directive makes one change to a block, whatever stands in the block before it, and changes of
different directives commute.
-/

namespace IrcPlatform.Webserv

namespace Config

/-! ## Locations -/

/-- What a directive of a location may do. -/
inductive LocationChange where
  | methods (allowed : List Bytes)
  | root (value : Bytes)
  | index (value : Bytes)
  | autoindex (value : Bool)
  | redirect (status : Option Nat) (target : Bytes)
  | uploadDir (value : Bytes)
  | cgiExtension (value : Bytes)
  | cgiPath (value : Bytes)
  | cgiTimeout (value : Nat)
  | cgiHandler (extension path : Bytes)

namespace LocationChange

def name : LocationChange → Bytes
  | .methods _ => ascii "allow_methods"
  | .root _ => ascii "root"
  | .index _ => ascii "index"
  | .autoindex _ => ascii "autoindex"
  | .redirect _ _ => ascii "return"
  | .uploadDir _ => ascii "upload_dir"
  | .cgiExtension _ => ascii "cgi_extension"
  | .cgiPath _ => ascii "cgi_path"
  | .cgiTimeout _ => ascii "cgi_timeout"
  | .cgiHandler _ _ => ascii "cgi_handler"

def accepts : LocationChange → LocationState → Bool
  | .cgiHandler extension _, state => !state.value.cgiHandlers.contains extension
  | _, _ => true

def update (change : LocationChange) (state : LocationState) : LocationState :=
  let location := state.value
  match change with
  | .methods allowed =>
      { state with value := { location with methods := allowed }, hasMethods := true }
  | .root value => { state with value := { location with root := value }, hasRoot := true }
  | .index value => { state with value := { location with index := value }, hasIndex := true }
  | .autoindex value =>
      { state with value := { location with autoindex := value }, hasAutoindex := true }
  | .redirect status target =>
      { state with value := { location with
        redirectStatus := status.getD location.redirectStatus, redirect := target } }
  | .uploadDir value => { state with value := { location with uploadDir := value } }
  | .cgiExtension value => { state with value := { location with cgiExtension := value } }
  | .cgiPath value => { state with value := { location with cgiPath := value } }
  | .cgiTimeout value => { state with value := { location with cgiTimeout := value } }
  | .cgiHandler extension path =>
      { state with value := { location with
        cgiHandlers := location.cgiHandlers.insert extension path } }

def apply (change : LocationChange) : LocationState → Except Bytes LocationState :=
  guarded (ascii "duplicate CGI extension") change.accepts change.update

/-- The changes are made by different directives, or they are handlers of two extensions. -/
def Apart (one other : LocationChange) : Prop :=
  one.name = other.name → ∃ extension path extension' path',
    one = .cgiHandler extension path ∧ other = .cgiHandler extension' path' ∧
      extension ≠ extension'

theorem Apart.update {one other : LocationChange} (apart : Apart one other)
    (state : LocationState) :
    other.update (one.update state) = one.update (other.update state) := by
  by_cases same : one.name = other.name
  · rcases apart same with ⟨extension, path, extension', path', rfl, rfl, different⟩
    simp only [LocationChange.update]
    rw [insert_comm different]
  · cases one <;> cases other <;> first | rfl | exact absurd rfl same

theorem Apart.accepts {one other : LocationChange} (apart : Apart one other)
    (state : LocationState) : other.accepts (one.update state) = other.accepts state := by
  by_cases same : one.name = other.name
  · rcases apart same with ⟨extension, path, extension', path', rfl, rfl, different⟩
    simp only [LocationChange.update, LocationChange.accepts]
    rw [contains_insert_of_ne different]
  · cases one <;> cases other <;> first | rfl | exact absurd rfl same

theorem Apart.symm {one other : LocationChange} (apart : Apart one other) : Apart other one := by
  intro same
  rcases apart same.symm with ⟨extension, path, extension', path', first, second, different⟩
  exact ⟨extension', path', extension, path, second, first, different.symm⟩

/-- Two handlers of one extension exclude each other. -/
theorem accepts_again (extension path path' : Bytes) (state : LocationState) :
    (LocationChange.cgiHandler extension path').accepts
      ((LocationChange.cgiHandler extension path).update state) = false := by
  simp [LocationChange.accepts, LocationChange.update]

theorem eq_cgiHandler {change : LocationChange} (named : change.name = ascii "cgi_handler") :
    ∃ extension path, change = .cgiHandler extension path := by
  cases change with
  | cgiHandler extension path => exact ⟨extension, path, rfl⟩
  | _ =>
      dsimp only [name] at named
      exact absurd named (by decide)

/-- Changes commute unless one directive that stands only once makes both. -/
theorem apply_commute {one other : LocationChange}
    (repeated : one.name = other.name → one.name = ascii "cgi_handler") (state : LocationState) :
    Agree Eq ((one.apply state).bind other.apply) ((other.apply state).bind one.apply) := by
  by_cases apart : Apart one other
  · exact guarded_commute apart.accepts apart.symm.accepts apart.update state
  · rw [Apart, Classical.not_imp] at apart
    rcases apart with ⟨same, notApart⟩
    rcases eq_cgiHandler (repeated same) with ⟨extension, path, rfl⟩
    rcases eq_cgiHandler (same.symm.trans (repeated same)) with ⟨extension', path', rfl⟩
    have equal : extension = extension' := by
      by_contra different
      exact notApart ⟨extension, path, extension', path', rfl, rfl, different⟩
    subst equal
    exact guarded_exclude (accepts_again extension path path')
      (accepts_again extension path' path) state

end LocationChange

theorem locationDirective_oneOf (name : Bytes) (line : Nat) (args : Tokens) :
    OneOf LocationChange.apply (·.name = name) fun state =>
      locationDirective state name line args := by
  have wrong : OneOf LocationChange.apply (·.name = name) fun _ =>
      configError line (ascii "invalid location directive or arguments") := .none
  have does {update : LocationState → LocationState} (change : LocationChange)
      (named : change.name = name) (accepts : change.accepts = fun _ => true)
      (same : change.update = update) :
      OneOf LocationChange.apply (·.name = name) fun state => .ok (update state) := by
    refine .one change named fun state => ?_
    rw [LocationChange.apply, guarded, accepts, same]
    exact .ok rfl
  unfold locationDirective
  dsimp only
  refine .ite (fun named => .map _ fun methods _ => ?_) fun _ => ?_
  · exact does (.methods methods) named.symm rfl rfl
  rcases args with _ | ⟨first, _ | ⟨second, _ | ⟨third, rest⟩⟩⟩
  · exact wrong
  · dsimp only
    refine .ite (fun named => does (.root first.value) named.symm rfl rfl) fun _ => ?_
    refine .ite (fun named => does (.index first.value) named.symm rfl rfl) fun _ => ?_
    refine .ite (fun named => .map _ fun autoindex _ => ?_) fun _ => ?_
    · exact does (.autoindex autoindex) named.symm rfl rfl
    refine .ite (fun named => does (.redirect none first.value) named.symm rfl rfl) fun _ => ?_
    refine .ite (fun named => does (.uploadDir first.value) named.symm rfl rfl) fun _ => ?_
    refine .ite (fun named => .map _ fun _ _ => ?_) fun _ => ?_
    · exact does (.cgiExtension first.value) named.symm rfl rfl
    refine .ite (fun named => does (.cgiPath first.value) named.symm rfl rfl) fun _ => ?_
    refine .ite (fun named => .bind _ fun timeout _ => .ite (fun _ => .none) fun _ => ?_)
      fun _ => wrong
    exact does (.cgiTimeout timeout) named.symm rfl rfl
  · dsimp only
    refine .ite (fun named => .bind _ fun status _ => .ite (fun _ => .none) fun _ => ?_)
      fun _ => ?_
    · exact does (.redirect (some status) second.value) named.symm rfl rfl
    refine .ite (fun named => .bind _ fun _ _ => ?_) fun _ => wrong
    refine .one (.cgiHandler first.value second.value) named.symm fun state => ?_
    by_cases known : state.value.cgiHandlers.contains first.value = true
    · have refused :
          (LocationChange.cgiHandler first.value second.value).accepts state = false := by
        rw [LocationChange.accepts, known, Bool.not_true]
      rw [if_pos known, LocationChange.apply, guarded, refused]
      exact .error _ _
    · have accepted :
          (LocationChange.cgiHandler first.value second.value).accepts state = true := by
        rw [LocationChange.accepts, Bool.eq_false_iff.mpr known, Bool.not_false]
      rw [if_neg known, LocationChange.apply, guarded, if_pos accepted]
      exact .ok rfl
  · exact wrong

/-- Directives of a location may stand in either order. -/
theorem locationBlock_commute (one other : Directive) :
    Commute Block.Same locationBlock.step one other := by
  have changes (directive : Directive) :
      OneOf LocationChange.apply (·.name = locationName directive.name) fun state =>
        locationBlock.apply state directive :=
    .ite (fun _ => locationDirective_oneOf _ _ _) fun _ => .none
  refine Block.step_commute fun clash => (changes one).commute (changes other) ?_
  intro change change' named named'
  refine LocationChange.apply_commute fun same => ?_
  by_contra once
  rw [named] at same once
  exact clash ⟨same.trans named', beq_eq_false_iff_ne.mpr once⟩

/-! ## Servers -/

/-- What a directive of a server may do. -/
inductive ServerChange where
  | methods (allowed : List Bytes)
  | listen (host : Bytes) (port : Nat)
  | root (value : Bytes)
  | index (value : Bytes)
  | maxBody (value : Nat)
  | autoindex (value : Bool)
  | errorPage (status : Nat) (path : Bytes)

namespace ServerChange

def name : ServerChange → Bytes
  | .methods _ => ascii "allow_methods"
  | .listen _ _ => ascii "listen"
  | .root _ => ascii "root"
  | .index _ => ascii "index"
  | .maxBody _ => ascii "client_max_body_size"
  | .autoindex _ => ascii "autoindex"
  | .errorPage _ _ => ascii "error_page"

theorem name_ne_location (change : ServerChange) : change.name ≠ ascii "location" := by
  cases change <;> dsimp only [name] <;> decide

def accepts : ServerChange → ServerConfig → Bool
  | .errorPage status _, server => !server.errorPages.contains status
  | _, _ => true

def update : ServerChange → ServerConfig → ServerConfig
  | .methods allowed, server => { server with methods := allowed }
  | .listen host port, server => { server with host := host, port := port }
  | .root value, server => { server with root := value }
  | .index value, server => { server with index := value }
  | .maxBody value, server => { server with maxBody := value }
  | .autoindex value, server => { server with autoindex := value }
  | .errorPage status path, server =>
      { server with errorPages := server.errorPages.insert status path }

def apply (change : ServerChange) : ServerConfig → Except Bytes ServerConfig :=
  guarded (ascii "duplicate error_page status") change.accepts change.update

/-- The changes are made by different directives, or they are pages of two statuses. -/
def Apart (one other : ServerChange) : Prop :=
  one.name = other.name → ∃ status path status' path',
    one = .errorPage status path ∧ other = .errorPage status' path' ∧ status ≠ status'

theorem Apart.update {one other : ServerChange} (apart : Apart one other)
    (server : ServerConfig) :
    other.update (one.update server) = one.update (other.update server) := by
  by_cases same : one.name = other.name
  · rcases apart same with ⟨status, path, status', path', rfl, rfl, different⟩
    simp only [ServerChange.update]
    rw [insert_comm different]
  · cases one <;> cases other <;> first | rfl | exact absurd rfl same

theorem Apart.accepts {one other : ServerChange} (apart : Apart one other)
    (server : ServerConfig) :
    other.accepts (one.update server) = other.accepts server := by
  by_cases same : one.name = other.name
  · rcases apart same with ⟨status, path, status', path', rfl, rfl, different⟩
    simp only [ServerChange.update, ServerChange.accepts]
    rw [contains_insert_of_ne different]
  · cases one <;> cases other <;> first | rfl | exact absurd rfl same

theorem Apart.symm {one other : ServerChange} (apart : Apart one other) : Apart other one := by
  intro same
  rcases apart same.symm with ⟨status, path, status', path', first, second, different⟩
  exact ⟨status', path', status, path, second, first, different.symm⟩

/-- Two pages of one status exclude each other. -/
theorem accepts_again (status : Nat) (path path' : Bytes)
    (server : ServerConfig) :
    (ServerChange.errorPage status path').accepts
      ((ServerChange.errorPage status path).update server) = false := by
  simp [ServerChange.accepts, ServerChange.update]

theorem eq_errorPage {change : ServerChange} (named : change.name = ascii "error_page") :
    ∃ status path, change = .errorPage status path := by
  cases change with
  | errorPage status path => exact ⟨status, path, rfl⟩
  | _ =>
      dsimp only [name] at named
      exact absurd named (by decide)

/-- Changes commute unless one directive that stands only once makes both. -/
theorem apply_commute {one other : ServerChange}
    (repeated : one.name = other.name → one.name = ascii "error_page")
    (server : ServerConfig) :
    Agree Eq ((one.apply server).bind other.apply) ((other.apply server).bind one.apply) := by
  by_cases apart : Apart one other
  · exact guarded_commute apart.accepts apart.symm.accepts apart.update server
  · rw [Apart, Classical.not_imp] at apart
    rcases apart with ⟨same, notApart⟩
    rcases eq_errorPage (repeated same) with ⟨status, path, rfl⟩
    rcases eq_errorPage (same.symm.trans (repeated same)) with ⟨status', path', rfl⟩
    have equal : status = status' := by
      by_contra different
      exact notApart ⟨status, path, status', path', rfl, rfl, different⟩
    subst equal
    exact guarded_exclude (accepts_again status path path')
      (accepts_again status path' path) server

end ServerChange

theorem parseListen_oneOf (arg : ConfigToken) {name : Bytes} (named : name = ascii "listen") :
    OneOf ServerChange.apply (·.name = name) fun server => parseListen server arg := by
  unfold parseListen
  dsimp only
  refine .ite (fun _ => .none) fun _ => .bind _ fun port _ => .ite (fun _ => .none) fun _ => ?_
  exact .one (.listen ((splitLastColon arg.value).1.getD (ascii "0.0.0.0")) port) named.symm
    fun _ => .ok rfl

theorem serverDirective_oneOf (name : Bytes) (line : Nat) (args : Tokens) :
    OneOf ServerChange.apply (·.name = name) fun server =>
      serverDirective server name line args := by
  have wrong : OneOf ServerChange.apply (·.name = name) fun _ =>
      configError line (ascii "invalid server directive or arguments") := .none
  have does {update : ServerConfig → ServerConfig} (change : ServerChange)
      (named : change.name = name) (accepts : change.accepts = fun _ => true)
      (same : change.update = update) :
      OneOf ServerChange.apply (·.name = name) fun server => .ok (update server) := by
    refine .one change named fun state => ?_
    rw [ServerChange.apply, guarded, accepts, same]
    exact .ok rfl
  unfold serverDirective
  refine .ite (fun named => .map _ fun methods _ => ?_) fun _ => ?_
  · exact does (.methods methods) named.symm rfl rfl
  rcases args with _ | ⟨first, _ | ⟨second, _ | ⟨third, rest⟩⟩⟩
  · exact wrong
  · dsimp only
    refine .ite (fun named => parseListen_oneOf first named) fun _ => ?_
    refine .ite (fun named => does (.root first.value) named.symm rfl rfl) fun _ => ?_
    refine .ite (fun named => does (.index first.value) named.symm rfl rfl) fun _ => ?_
    refine .ite (fun named => .bind _ fun maxBody _ => .ite (fun _ => .none) fun _ => ?_)
      fun _ => ?_
    · exact does (.maxBody maxBody) named.symm rfl rfl
    refine .ite (fun named => .map _ fun autoindex _ => ?_) fun _ => wrong
    exact does (.autoindex autoindex) named.symm rfl rfl
  · dsimp only
    refine .ite (fun named => .bind _ fun status _ => .ite (fun _ => .none) fun _ => ?_)
      fun _ => wrong
    refine .one (.errorPage status second.value) named.symm fun server => ?_
    by_cases known : server.errorPages.contains status = true
    · have refused : (ServerChange.errorPage status second.value).accepts server = false := by
        rw [ServerChange.accepts, known, Bool.not_true]
      rw [if_pos known, ServerChange.apply, guarded, refused]
      exact .error _ _
    · have accepted : (ServerChange.errorPage status second.value).accepts server = true := by
        rw [ServerChange.accepts, Bool.eq_false_iff.mpr known, Bool.not_false]
      rw [if_neg known, ServerChange.apply, guarded, if_pos accepted]
      exact .ok rfl
  · exact wrong

/-- What a directive does to the server, in the block of the server. -/
def Directive.onServer (setting : Directive) (server : ServerConfig) : Except Bytes ServerConfig :=
  if setting.name ≠ ascii "location" ∧ setting.Flat then
    serverDirective server (commonName setting.name) 0 (unlined setting.args)
  else configError 0 (ascii "invalid server directive or arguments")

theorem apply_directive (setting : Directive) :
    (serverBlock.apply · (.directive setting)) = onFirst setting.onServer := by
  funext state
  unfold onFirst Directive.onServer
  rw [apply_ite (Except.map (·, state.2))]
  rfl

theorem apply_location (path : Bytes) (directives : List Directive) :
    (serverBlock.apply · (.location path directives)) =
      onSecond fun locations => (readLocation path directives).map (locations ++ [·]) := by
  funext state
  simp only [serverBlock]
  unfold onSecond
  cases readLocation path directives with
  | ok location => rfl
  | error failure => rfl

/-- A directive of a server may stand before or after any item. -/
theorem serverBlock_commute (setting : Directive) (other : Item) :
    Commute Block.Same serverBlock.step (.directive setting) other := by
  have changes (directive : Directive) :
      OneOf ServerChange.apply (·.name = commonName directive.name) directive.onServer :=
    .ite (fun _ => serverDirective_oneOf _ _ _) fun _ => .none
  refine Block.step_commute fun clash state => ?_
  cases other with
  | directive setting' =>
      have apart : ∀ change change' : ServerChange, change.name = commonName setting.name →
          change'.name = commonName setting'.name → change.name = change'.name →
            change.name = ascii "error_page" := by
        intro change change' named named' same
        by_contra once
        have noBlock := change.name_ne_location
        rw [named] at same once noBlock
        refine clash ⟨same.trans named', ?_⟩
        exact Bool.or_eq_false_iff.mpr ⟨beq_eq_false_iff_ne.mpr once,
          beq_eq_false_iff_ne.mpr noBlock⟩
      have commute : Agree Eq
          ((onFirst setting.onServer state).bind (onFirst setting'.onServer))
          ((onFirst setting'.onServer state).bind (onFirst setting.onServer)) := by
        refine onFirst_commute (fun server => (changes setting).commute (changes setting') ?_ _) _
        intro change change' named named' server
        exact ServerChange.apply_commute (apart change change' named named') server
      rw [← apply_directive, ← apply_directive] at commute
      exact commute
  | location path directives =>
      have commute := onFirst_onSecond setting.onServer
        (fun locations => (readLocation path directives).map (locations ++ [·])) state
      rw [← apply_directive, ← apply_location] at commute
      exact commute

end Config

end IrcPlatform.Webserv
