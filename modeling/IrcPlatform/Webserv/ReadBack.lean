import IrcPlatform.Library.Digits
import IrcPlatform.Webserv.Rendering

/-!
# Directives read back

The settings of a server and of a location are written as directives, one for each change that
makes them, and the blocks of these directives mean the server and the location.
-/

namespace IrcPlatform.Webserv

namespace Config

/-! ## Numbers and words -/

theorem ofDigitChars_eq (digits : List Char) (areDigits : ∀ digit ∈ digits, digit.isDigit = true)
    (value : Nat) : (digits.map byte).foldl
      (fun value c => value * 10 + (c - byte '0').toNat) value =
        Nat.ofDigitChars 10 digits value := by
  induction digits generalizing value with
  | nil => rfl
  | cons digit digits ih =>
      rw [List.forall_mem_cons] at areDigits
      rw [List.map_cons, List.foldl_cons, Nat.ofDigitChars_cons, ih areDigits.2,
        (digit_byte areDigits.1).2.1, Nat.mul_comm value 10]

theorem denotes_decimal (value : Nat) : Denotes (decimal value) value where
  nonempty := by simp [decimal]
  digits _ listed := isAsciiDigit_of_mem_decimal listed
  value := by
    have areDigits : ∀ digit ∈ Nat.toDigits 10 value, digit.isDigit = true :=
      fun digit listed => Nat.isDigit_of_mem_toDigits (by decide) (by decide) listed
    exact (ofDigitChars_eq _ areDigits 0).trans Nat.ofDigitChars_ten_toDigits

theorem parseNumber_decimal {value : Nat} (small : value < 2 ^ 64) (line : Nat) :
    parseNumber ⟨decimal value, line⟩ = .ok value := by
  unfold parseNumber
  dsimp only
  rw [if_neg (unsigned_of_denotes (denotes_decimal value)),
    strtoul_of_denotes (denotes_decimal value) small]
  rfl

def onOff (value : Bool) : Bytes := if value then ascii "on" else ascii "off"

theorem parseOnOff_onOff (value : Bool) (line : Nat) :
    parseOnOff ⟨onOff value, line⟩ = .ok value := by
  cases value with
  | true => rfl
  | false => rfl

/-- What the parser accepts as methods. -/
structure Methods (methods : List Bytes) : Prop where
  nonempty : methods ≠ []
  known : ∀ method ∈ methods, isMethod method = true
  distinct : methods.Nodup

instance (methods : List Bytes) : Decidable (Methods methods) :=
  decidable_of_iff (methods ≠ [] ∧ (∀ method ∈ methods, isMethod method = true) ∧ methods.Nodup)
    ⟨fun all => ⟨all.1, all.2.1, all.2.2⟩, fun all => ⟨all.nonempty, all.known, all.distinct⟩⟩

theorem addMethods_methods {methods known : List Bytes}
    (supported : ∀ method ∈ methods, isMethod method = true)
    (distinct : (known ++ methods).Nodup) :
    addMethods known (unlined methods) = .ok (known ++ methods) := by
  induction methods generalizing known with
  | nil => exact congrArg Except.ok (List.append_nil known).symm
  | cons method methods ih =>
      rw [List.forall_mem_cons] at supported
      have fresh : known.contains method = false := by
        refine Bool.eq_false_iff.mpr fun listed => ?_
        exact List.disjoint_of_nodup_append distinct (List.contains_iff_mem.mp listed)
          List.mem_cons_self
      have longer : known ++ method :: methods = known ++ [method] ++ methods := by
        rw [List.append_assoc, List.singleton_append]
      rw [longer] at distinct ⊢
      rw [unlined_cons, addMethods]
      dsimp only
      rw [supported.1, fresh]
      exact ih supported.2 distinct

theorem parseMethods_methods {methods : List Bytes} (accepted : Methods methods) (line : Nat) :
    parseMethods (unlined methods) line = .ok methods := by
  have nonempty : (unlined methods).isEmpty = false := by
    cases methods with
    | nil => exact absurd rfl accepted.nonempty
    | cons method methods => rfl
  rw [parseMethods, nonempty, if_neg Bool.false_ne_true]
  exact addMethods_methods accepted.known accepted.distinct

/-! ## Directives -/

namespace LocationChange

/-- The arguments that a change is written with. -/
def args : LocationChange → List Bytes
  | .methods allowed => allowed
  | .root value => [value]
  | .index value => [value]
  | .autoindex value => [onOff value]
  | .redirect status target => status.toList.map decimal ++ [target]
  | .uploadDir value => [value]
  | .cgiExtension value => [value]
  | .cgiPath value => [value]
  | .cgiTimeout value => [decimal value]
  | .cgiHandler extension path => [extension, path]

def directive (change : LocationChange) : Directive := ⟨change.name, change.args⟩

/-- The change passes the checks of its directive. -/
def Valid : LocationChange → Prop
  | .methods allowed => Methods allowed
  | .redirect status _ => ∀ code ∈ status, 300 ≤ code ∧ code ≤ 399
  | .cgiExtension value => value.head? = some (byte '.')
  | .cgiTimeout value => 1 ≤ value ∧ value ≤ 300
  | .cgiHandler extension _ => extension.head? = some (byte '.')
  | _ => True

theorem locationName_name (change : LocationChange) : locationName change.name = change.name := by
  cases change <;> rfl

theorem locationDirective_args {change : LocationChange} (valid : change.Valid)
    {state : LocationState} (accepted : change.accepts state = true) :
    locationDirective state change.name 0 (unlined change.args) = .ok (change.update state) := by
  cases change with
  | methods allowed =>
      have read : locationDirective state (ascii "allow_methods") 0 (unlined allowed) =
          (parseMethods (unlined allowed) 0).map fun methods =>
            { state with
              value := { state.value with methods := methods }, hasMethods := true } := rfl
      refine read.trans ?_
      rw [parseMethods_methods valid]
      rfl
  | autoindex value =>
      have read : locationDirective state (ascii "autoindex") 0 (unlined [onOff value]) =
          (parseOnOff ⟨onOff value, 0⟩).map fun autoindex =>
            { state with
              value := { state.value with autoindex := autoindex }, hasAutoindex := true } := rfl
      refine read.trans ?_
      rw [parseOnOff_onOff]
      rfl
  | redirect status target =>
      cases status with
      | none => rfl
      | some status =>
          have read : locationDirective state (ascii "return") 0
              (unlined [decimal status, target]) =
                (parseNumber ⟨decimal status, 0⟩).bind fun status =>
                  if status < 300 ∨ 399 < status then
                    configError 0 (ascii "redirect status must be 300-399")
                  else .ok { state with
                    value := { state.value with redirectStatus := status, redirect := target } } :=
            rfl
          have bounds := valid status rfl
          refine read.trans ?_
          rw [parseNumber_decimal (by omega)]
          exact if_neg (by omega)
  | cgiExtension value =>
      have read : locationDirective state (ascii "cgi_extension") 0 (unlined [value]) =
          (checkExtension ⟨value, 0⟩).map fun _ =>
            { state with value := { state.value with cgiExtension := value } } := rfl
      have checked : checkExtension ⟨value, 0⟩ = .ok () := if_pos valid
      refine read.trans ?_
      rw [checked]
      rfl
  | cgiTimeout value =>
      have read : locationDirective state (ascii "cgi_timeout") 0 (unlined [decimal value]) =
          (parseNumber ⟨decimal value, 0⟩).bind fun timeout =>
            if timeout = 0 ∨ 300 < timeout then
              configError 0 (ascii "CGI timeout must be 1-300 seconds")
            else .ok { state with value := { state.value with cgiTimeout := timeout } } := rfl
      have bounds : 1 ≤ value ∧ value ≤ 300 := valid
      refine read.trans ?_
      rw [parseNumber_decimal (by omega)]
      exact if_neg (by omega)
  | cgiHandler extension path =>
      have read : locationDirective state (ascii "cgi_handler") 0 (unlined [extension, path]) =
          (checkExtension ⟨extension, 0⟩).bind fun _ =>
            if state.value.cgiHandlers.contains extension then
              configError 0 (ascii "duplicate CGI extension")
            else .ok { state with value := { state.value with
              cgiHandlers := state.value.cgiHandlers.insert extension path } } := rfl
      have checked : checkExtension ⟨extension, 0⟩ = .ok () := if_pos valid
      have unknown : state.value.cgiHandlers.contains extension = false := by
        simpa [LocationChange.accepts] using accepted
      refine read.trans ?_
      rw [checked, unknown]
      rfl
  | _ => rfl

/-- The directive that a change is written as makes it. -/
theorem apply_directive {change : LocationChange} (valid : change.Valid)
    (flat : change.directive.Flat) {state : LocationState}
    (accepted : change.accepts state = true) :
    locationBlock.apply state change.directive = .ok (change.update state) := by
  refine (if_pos flat).trans ?_
  rw [directive, locationName_name]
  exact locationDirective_args valid accepted

/-- Changes that are always accepted are made one after the other. -/
theorem foldlM_directives {changes : List LocationChange}
    (valid : ∀ change ∈ changes, change.Valid)
    (flat : ∀ change ∈ changes, change.directive.Flat)
    (accepts : ∀ change ∈ changes, change.accepts = fun _ => true) (state : LocationState) :
    (changes.map directive).foldlM locationBlock.apply state =
      .ok (changes.foldl (fun state change => change.update state) state) := by
  induction changes generalizing state with
  | nil => rfl
  | cons change changes ih =>
      rw [List.forall_mem_cons] at valid flat accepts
      rw [List.map_cons, List.foldlM_cons,
        apply_directive valid.1 flat.1 (congrFun accepts.1 state)]
      exact ih valid.2 flat.2 accepts.2 _

def handler (entry : Bytes × Bytes) : LocationChange := .cgiHandler entry.1 entry.2

theorem foldlM_handlers {entries : List (Bytes × Bytes)} {state : LocationState}
    (valid : ∀ entry ∈ entries, (handler entry).Valid)
    (flat : ∀ entry ∈ entries, (handler entry).directive.Flat)
    (distinct : (entries.map Prod.fst).Nodup)
    (fresh : ∀ entry ∈ entries, state.value.cgiHandlers.contains entry.1 = false) :
    (entries.map fun entry => (handler entry).directive).foldlM locationBlock.apply state =
      .ok { state with value := { state.value with
        cgiHandlers := insertEach state.value.cgiHandlers entries } } := by
  induction entries generalizing state with
  | nil => rfl
  | cons entry entries ih =>
      rw [List.forall_mem_cons] at valid flat fresh
      rw [List.map_cons, List.nodup_cons] at distinct
      have accepted : (handler entry).accepts state = true := by
        rw [handler, accepts, fresh.1, Bool.not_false]
      rw [List.map_cons, List.foldlM_cons, apply_directive valid.1 flat.1 accepted]
      refine ih valid.2 flat.2 distinct.2 fun other listed => ?_
      have different : entry.1 ≠ other.1 :=
        fun same => distinct.1 (same ▸ List.mem_map_of_mem listed)
      exact (contains_insert_of_ne different entry.2).trans (fresh.2 other listed)

end LocationChange

end Config

/-! ## Locations -/

namespace Location

open Std Config

/-- The location passes the checks of the parser. -/
structure WellFormed (location : Location) : Prop where
  path : location.path.head? = some (byte '/')
  methods : Methods location.methods
  redirect : 300 ≤ location.redirectStatus ∧ location.redirectStatus ≤ 399
  timeout : 1 ≤ location.cgiTimeout ∧ location.cgiTimeout ≤ 300
  handlers : ∀ entry ∈ location.cgiHandlers.toList, entry.1.head? = some (byte '.')
  together : location.cgiExtension = [] ↔ location.cgiPath = []
  paired : location.cgiExtension ≠ [] →
    (location.cgiExtension, location.cgiPath) ∈ location.cgiHandlers.toList

instance (location : Location) : Decidable location.WellFormed :=
  decidable_of_iff (location.path.head? = some (byte '/') ∧ Methods location.methods ∧
      (300 ≤ location.redirectStatus ∧ location.redirectStatus ≤ 399) ∧
      (1 ≤ location.cgiTimeout ∧ location.cgiTimeout ≤ 300) ∧
      (∀ entry ∈ location.cgiHandlers.toList, entry.1.head? = some (byte '.')) ∧
      (location.cgiExtension = [] ↔ location.cgiPath = []) ∧
      (location.cgiExtension ≠ [] →
        (location.cgiExtension, location.cgiPath) ∈ location.cgiHandlers.toList))
    ⟨fun all => ⟨all.1, all.2.1, all.2.2.1, all.2.2.2.1, all.2.2.2.2.1, all.2.2.2.2.2.1,
        all.2.2.2.2.2.2⟩,
      fun all => ⟨all.path, all.methods, all.redirect, all.timeout, all.handlers, all.together,
        all.paired⟩⟩

/-- The handlers that `cgi_handler` configures. -/
def ownHandlers (location : Location) : List (Bytes × Bytes) :=
  location.cgiHandlers.toList.filter (·.1 ≠ location.cgiExtension)

/-- The changes that make a location, but for those handlers. -/
def settings (location : Location) : List LocationChange :=
  [.root location.root, .index location.index, .autoindex location.autoindex,
    .methods location.methods, .redirect (some location.redirectStatus) location.redirect,
    .uploadDir location.uploadDir, .cgiTimeout location.cgiTimeout] ++
  if location.cgiExtension = [] then []
  else [.cgiExtension location.cgiExtension, .cgiPath location.cgiPath]

def directives (location : Location) : List Directive :=
  location.settings.map LocationChange.directive ++
    location.ownHandlers.map fun entry => (LocationChange.handler entry).directive

/-- The values of a location that may hold any bytes. -/
def strings (location : Location) : List Bytes :=
  [location.path, location.root, location.index, location.redirect, location.uploadDir,
    location.cgiExtension, location.cgiPath] ++
  location.cgiHandlers.toList.flatMap fun entry => [entry.1, entry.2]

/-- The state of the parser where a location has set everything itself. -/
def complete (location : Location) : LocationState := ⟨location, true, true, true, true⟩

variable {location : Location}

theorem forall_mem_settings {holds : LocationChange → Prop}
    (first : ∀ change ∈ [.root location.root, .index location.index,
      .autoindex location.autoindex, .methods location.methods,
      .redirect (some location.redirectStatus) location.redirect,
      .uploadDir location.uploadDir, .cgiTimeout location.cgiTimeout], holds change)
    (pair : location.cgiExtension ≠ [] →
      holds (.cgiExtension location.cgiExtension) ∧ holds (.cgiPath location.cgiPath)) :
    ∀ change ∈ location.settings, holds change := by
  unfold settings
  intro change listed
  rcases List.mem_append.mp listed with early | late
  · exact first change early
  · by_cases none : location.cgiExtension = []
    · rw [if_pos none] at late
      cases late
    · rw [if_neg none] at late
      rcases List.mem_cons.mp late with rfl | last
      · exact (pair none).1
      · rw [List.mem_singleton.mp last]
        exact (pair none).2

theorem WellFormed.extension (wellFormed : location.WellFormed)
    (given : location.cgiExtension ≠ []) : location.cgiExtension.head? = some (byte '.') :=
  wellFormed.handlers _ (wellFormed.paired given)

theorem WellFormed.valid (wellFormed : location.WellFormed) :
    ∀ change ∈ location.settings, change.Valid := by
  refine forall_mem_settings ?_ fun given => ⟨wellFormed.extension given, trivial⟩
  simp only [List.forall_mem_cons, List.not_mem_nil, false_implies, implies_true, and_true,
    LocationChange.Valid, true_and]
  exact ⟨wellFormed.methods, fun status same => Option.some.inj same ▸ wellFormed.redirect,
    wellFormed.timeout⟩

theorem settings_accepts : ∀ change ∈ location.settings, change.accepts = fun _ => true := by
  refine forall_mem_settings ?_ fun _ => ⟨rfl, rfl⟩
  simp only [List.forall_mem_cons, List.not_mem_nil, false_implies, implies_true, and_true]
  exact ⟨rfl, rfl, rfl, rfl, rfl, rfl, rfl⟩

theorem distinct_ownHandlers (location : Location) :
    (location.ownHandlers.map Prod.fst).Nodup :=
  (distinct_keys location.cgiHandlers).sublist (List.filter_sublist.map _)

/-- The handlers of the location are its own ones and the one of the pair. -/
theorem WellFormed.finish (wellFormed : location.WellFormed) :
    finishLocation { location.complete with value := { location with
      cgiHandlers := insertEach ∅ location.ownHandlers } } 0 = .ok location.complete := by
  unfold finishLocation
  dsimp only
  by_cases none : location.cgiExtension = []
  · have all : location.ownHandlers = location.cgiHandlers.toList := by
      refine List.filter_eq_self.mpr fun entry listed => ?_
      rw [decide_eq_true_iff, none]
      intro same
      have dot := wellFormed.handlers entry listed
      rw [same] at dot
      exact absurd dot (by decide)
    rw [all, insertEach_toList, List.isEmpty_iff.mpr none,
      List.isEmpty_iff.mpr (wellFormed.together.mp none)]
    rfl
  · have somePath : location.cgiPath ≠ [] := fun same => none (wellFormed.together.mpr same)
    have absent : location.cgiExtension ∉ location.ownHandlers.map Prod.fst := by
      intro listed
      rcases List.mem_map.mp listed with ⟨entry, own, same⟩
      exact of_decide_eq_true (List.mem_filter.mp own).2 same
    have fresh : (insertEach (∅ : ExtTreeMap Bytes Bytes) location.ownHandlers).contains
        location.cgiExtension = false := contains_insertEach absent
    have restored : (insertEach ∅ location.ownHandlers).insert location.cgiExtension
        location.cgiPath = location.cgiHandlers := insertEach_filter (wellFormed.paired none)
    rw [fresh, restored, List.isEmpty_eq_false_iff.mpr none, List.isEmpty_eq_false_iff.mpr somePath]
    rfl

/-- The settings make the location but for its handlers. -/
theorem WellFormed.foldl_settings (wellFormed : location.WellFormed) :
    location.settings.foldl (fun state change => change.update state)
      { value := { path := location.path } } =
        { location.complete with value := { location with cgiHandlers := ∅ } } := by
  rcases location with ⟨path, root, index, redirect, redirectStatus, uploadDir, cgiExtension,
    cgiPath, cgiHandlers, cgiTimeout, autoindex, methods⟩
  have together : cgiExtension = [] ↔ cgiPath = [] := wellFormed.together
  simp only [settings, List.foldl_append, List.foldl_cons, List.foldl_nil, LocationChange.update,
    Option.getD_some, complete]
  by_cases none : cgiExtension = []
  · have noPath := together.mp none
    subst none noPath
    rfl
  · rw [if_neg none]
    rfl

theorem onceKeys_directives (location : Location) :
    (locationBlock.onceKeys location.directives).Nodup := by
  have settings : (location.settings.map LocationChange.directive).map locationBlock.key =
      location.settings.map LocationChange.name := by
    rw [List.map_map]
    exact List.map_congr_left fun change _ => LocationChange.locationName_name change
  have handlers : ((location.ownHandlers.map fun entry =>
      (LocationChange.handler entry).directive).map locationBlock.key).filter
        (!locationBlock.repeats ·) = [] := by
    have repeats : ¬(!locationBlock.repeats (locationName (ascii "cgi_handler"))) = true := by
      decide
    rw [List.map_map, List.filter_eq_nil_iff]
    intro key listed
    rcases List.mem_map.mp listed with ⟨entry, _, rfl⟩
    exact repeats
  unfold Block.onceKeys directives
  rw [List.map_append, List.filter_append, handlers, List.append_nil, settings]
  refine List.Nodup.filter _ ?_
  unfold Location.settings
  by_cases none : location.cgiExtension = []
  · rw [if_pos none]
    simp only [List.append_nil, List.map_cons, List.map_nil, LocationChange.name]
    decide
  · rw [if_neg none]
    simp only [List.cons_append, List.nil_append, List.map_cons, List.map_nil,
      LocationChange.name]
    decide

theorem WellFormed.readLocation (wellFormed : location.WellFormed)
    (flat : ∀ directive ∈ location.directives, directive.Flat) :
    readLocation location.path location.directives = .ok location.complete := by
  have flatSettings : ∀ change ∈ location.settings, change.directive.Flat := fun change listed =>
    flat _ (List.mem_append_left _ (List.mem_map_of_mem listed))
  have flatHandlers : ∀ entry ∈ location.ownHandlers,
      (LocationChange.handler entry).directive.Flat := fun entry listed =>
    flat _ (List.mem_append_right _ (List.mem_map_of_mem listed))
  have validHandlers : ∀ entry ∈ location.ownHandlers, (LocationChange.handler entry).Valid :=
    fun entry listed => wellFormed.handlers entry (List.mem_filter.mp listed).1
  have applied : location.directives.foldlM locationBlock.apply
      { value := { path := location.path } } =
        .ok { location.complete with value := { location with
          cgiHandlers := insertEach ∅ location.ownHandlers } } := by
    unfold directives
    rw [List.foldlM_append, LocationChange.foldlM_directives wellFormed.valid flatSettings
      settings_accepts, wellFormed.foldl_settings]
    exact LocationChange.foldlM_handlers validHandlers flatHandlers
      (distinct_ownHandlers location) fun _ _ => rfl
  rcases Block.foldlM_step applied (onceKeys_directives location)
    (fun _ _ => List.not_mem_nil) with ⟨seen, run, _⟩
  unfold Config.readLocation
  rw [if_neg (not_not.mpr wellFormed.path), run]
  exact wellFormed.finish

end Location

/-! ## Servers -/

namespace Config

theorem splitLastColon_address {host port : Bytes} (plain : byte ':' ∉ port) :
    splitLastColon (host ++ ascii ":" ++ port) = (some host, port) := by
  have reversed : (host ++ ascii ":" ++ port).reverse =
      port.reverse ++ byte ':' :: host.reverse := by
    rw [List.reverse_append, List.reverse_append]
    rfl
  have listed : (host ++ ascii ":" ++ port).contains (byte ':') = true := by
    simp [ascii]
  have passes : ∀ c ∈ port.reverse, (c != byte ':') = true := by
    intro c inside
    rw [bne_iff_ne]
    rintro rfl
    exact plain (List.mem_reverse.mp inside)
  have stops : ¬(byte ':' != byte ':') = true := by decide
  unfold splitLastColon
  dsimp only
  rw [listed, reversed, List.takeWhile_append_of_pos passes, List.dropWhile_append_of_pos passes,
    List.takeWhile_cons_of_neg (p := fun c => c != byte ':') stops,
    List.dropWhile_cons_of_neg (p := fun c => c != byte ':') stops, List.append_nil,
    List.reverse_reverse, List.drop_one, List.tail_cons, List.reverse_reverse]
  rfl

namespace ServerChange

/-- The arguments that a change is written with. -/
def args : ServerChange → List Bytes
  | .methods allowed => allowed
  | .listen host port => [host ++ ascii ":" ++ decimal port]
  | .root value => [value]
  | .index value => [value]
  | .maxBody value => [decimal value]
  | .autoindex value => [onOff value]
  | .errorPage status path => [decimal status, path]

def directive (change : ServerChange) : Directive := ⟨change.name, change.args⟩

/-- The change passes the checks of its directive. -/
def Valid : ServerChange → Prop
  | .methods allowed => Methods allowed
  | .listen host port => isIpv4 host = true ∧ 1 ≤ port ∧ port ≤ 65535
  | .maxBody value => value ≤ maxBodyLimit
  | .errorPage status _ => 300 ≤ status ∧ status ≤ 599
  | _ => True

theorem commonName_name (change : ServerChange) : commonName change.name = change.name := by
  cases change <;> rfl

theorem parseListen_address {host : Bytes} {port : Nat}
    (valid : (ServerChange.listen host port).Valid) (server : ServerConfig) :
    parseListen server ⟨host ++ ascii ":" ++ decimal port, 0⟩ =
      .ok { server with host := host, port := port } := by
  rcases valid with ⟨ipv4, bounds⟩
  have plain : byte ':' ∉ decimal port := by
    intro listed
    exact absurd (isAsciiDigit_of_mem_decimal listed) (by decide)
  have nonempty : host.isEmpty = false := by
    rw [List.isEmpty_eq_false_iff]
    rintro rfl
    exact absurd ipv4 (by decide)
  unfold parseListen
  dsimp only
  rw [splitLastColon_address plain]
  have accepted : ¬(host.isEmpty || !isIpv4 host) = true := by
    rw [nonempty, ipv4]
    decide
  refine (if_neg accepted).trans ?_
  dsimp only [Option.getD_some]
  rw [parseNumber_decimal (by omega)]
  exact if_neg (by omega)

theorem serverDirective_args {change : ServerChange} (valid : change.Valid)
    {server : ServerConfig} (accepted : change.accepts server = true) :
    serverDirective server change.name 0 (unlined change.args) = .ok (change.update server) := by
  cases change with
  | methods allowed =>
      have read : serverDirective server (ascii "allow_methods") 0 (unlined allowed) =
          (parseMethods (unlined allowed) 0).map fun methods =>
            { server with methods := methods } := rfl
      refine read.trans ?_
      rw [parseMethods_methods valid]
      rfl
  | listen host port => exact parseListen_address valid server
  | maxBody value =>
      have read : serverDirective server (ascii "client_max_body_size") 0
          (unlined [decimal value]) =
            (parseNumber ⟨decimal value, 0⟩).bind fun maxBody =>
              if maxBodyLimit < maxBody then
                configError 0 (ascii "client body limit exceeds 16 MiB")
              else .ok { server with maxBody := maxBody } := rfl
      have bound : value ≤ maxBodyLimit := valid
      have small : maxBodyLimit < 2 ^ 64 := by decide
      refine read.trans ?_
      rw [parseNumber_decimal (Nat.lt_of_le_of_lt bound small)]
      exact if_neg (Nat.not_lt.mpr bound)
  | autoindex value =>
      have read : serverDirective server (ascii "autoindex") 0 (unlined [onOff value]) =
          (parseOnOff ⟨onOff value, 0⟩).map fun autoindex =>
            { server with autoindex := autoindex } := rfl
      refine read.trans ?_
      rw [parseOnOff_onOff]
      rfl
  | errorPage status path =>
      have read : serverDirective server (ascii "error_page") 0 (unlined [decimal status, path]) =
          (parseNumber ⟨decimal status, 0⟩).bind fun status =>
            if status < 300 ∨ 599 < status then
              configError 0 (ascii "error status must be 300-599")
            else if server.errorPages.contains status then
              configError 0 (ascii "duplicate error_page status")
            else .ok { server with errorPages := server.errorPages.insert status path } := rfl
      have bounds : 300 ≤ status ∧ status ≤ 599 := valid
      have unknown : server.errorPages.contains status = false := by
        simpa [ServerChange.accepts] using accepted
      refine read.trans ?_
      rw [parseNumber_decimal (by omega)]
      refine (if_neg (by omega)).trans ?_
      rw [unknown]
      rfl
  | _ => rfl

/-- The directive that a change is written as makes it. -/
theorem apply_directive {change : ServerChange} (valid : change.Valid)
    (flat : change.directive.Flat) {state : ServerConfig × List LocationState}
    (accepted : change.accepts state.1 = true) :
    serverBlock.apply state (.directive change.directive) =
      .ok (change.update state.1, state.2) := by
  refine (if_pos ⟨change.name_ne_location, flat⟩).trans ?_
  rw [directive, commonName_name, serverDirective_args valid accepted]
  rfl

/-- Changes that are always accepted are made one after the other. -/
theorem foldlM_directives {changes : List ServerChange}
    (valid : ∀ change ∈ changes, change.Valid)
    (flat : ∀ change ∈ changes, change.directive.Flat)
    (accepts : ∀ change ∈ changes, change.accepts = fun _ => true)
    (state : ServerConfig × List LocationState) :
    (changes.map fun change => Item.directive change.directive).foldlM serverBlock.apply state =
      .ok (changes.foldl (fun server change => change.update server) state.1, state.2) := by
  induction changes generalizing state with
  | nil => rfl
  | cons change changes ih =>
      rw [List.forall_mem_cons] at valid flat accepts
      rw [List.map_cons, List.foldlM_cons,
        apply_directive valid.1 flat.1 (congrFun accepts.1 state.1)]
      exact ih valid.2 flat.2 accepts.2 _

def page (entry : Nat × Bytes) : ServerChange := .errorPage entry.1 entry.2

theorem foldlM_pages {entries : List (Nat × Bytes)} {state : ServerConfig × List LocationState}
    (valid : ∀ entry ∈ entries, (page entry).Valid)
    (flat : ∀ entry ∈ entries, (page entry).directive.Flat)
    (distinct : (entries.map Prod.fst).Nodup)
    (fresh : ∀ entry ∈ entries, state.1.errorPages.contains entry.1 = false) :
    (entries.map fun entry => Item.directive (page entry).directive).foldlM serverBlock.apply
      state = .ok ({ state.1 with errorPages := insertEach state.1.errorPages entries },
        state.2) := by
  induction entries generalizing state with
  | nil => rfl
  | cons entry entries ih =>
      rw [List.forall_mem_cons] at valid flat fresh
      rw [List.map_cons, List.nodup_cons] at distinct
      have accepted : (page entry).accepts state.1 = true := by
        rw [page, accepts, fresh.1, Bool.not_false]
      rw [List.map_cons, List.foldlM_cons, apply_directive valid.1 flat.1 accepted]
      refine ih valid.2 flat.2 distinct.2 fun other listed => ?_
      have different : entry.1 ≠ other.1 :=
        fun same => distinct.1 (same ▸ List.mem_map_of_mem listed)
      exact (contains_insert_of_ne different entry.2).trans (fresh.2 other listed)

end ServerChange

end Config

namespace ServerConfig

open Std Config

/-- The server passes the checks of the parser. -/
structure WellFormed (server : ServerConfig) : Prop where
  host : isIpv4 server.host = true
  port : 1 ≤ server.port ∧ server.port ≤ 65535
  maxBody : server.maxBody ≤ maxBodyLimit
  methods : Methods server.methods
  statuses : ∀ entry ∈ server.errorPages.toList, 300 ≤ entry.1 ∧ entry.1 ≤ 599
  locations : ∀ location ∈ server.locations, location.WellFormed

instance (server : ServerConfig) : Decidable server.WellFormed :=
  decidable_of_iff (isIpv4 server.host = true ∧ (1 ≤ server.port ∧ server.port ≤ 65535) ∧
      server.maxBody ≤ maxBodyLimit ∧ Methods server.methods ∧
      (∀ entry ∈ server.errorPages.toList, 300 ≤ entry.1 ∧ entry.1 ≤ 599) ∧
      ∀ location ∈ server.locations, location.WellFormed)
    ⟨fun all => ⟨all.1, all.2.1, all.2.2.1, all.2.2.2.1, all.2.2.2.2.1, all.2.2.2.2.2⟩,
      fun all => ⟨all.host, all.port, all.maxBody, all.methods, all.statuses, all.locations⟩⟩

/-- The changes that make a server, but for the error pages and the locations. -/
def settings (server : ServerConfig) : List ServerChange :=
  [.listen server.host server.port, .root server.root, .index server.index,
    .maxBody server.maxBody, .autoindex server.autoindex, .methods server.methods]

def directives (server : ServerConfig) : List Directive :=
  server.settings.map ServerChange.directive ++
    server.errorPages.toList.map fun entry => (ServerChange.page entry).directive

def items (server : ServerConfig) : List Item :=
  server.directives.map Item.directive ++
    server.locations.map fun location => Item.location location.path location.directives

def address (server : ServerConfig) : Bytes :=
  server.host ++ ascii ":" ++ decimal server.port

/-- The values of a server that may hold any bytes. -/
def strings (server : ServerConfig) : List Bytes :=
  [server.address, server.root, server.index] ++ server.errorPages.toList.map Prod.snd ++
    server.locations.flatMap Location.strings

variable {server : ServerConfig}

theorem WellFormed.valid (wellFormed : server.WellFormed) :
    ∀ change ∈ server.settings, change.Valid := by
  simp only [settings, List.forall_mem_cons, List.not_mem_nil, false_implies, implies_true,
    and_true, ServerChange.Valid, true_and]
  exact ⟨⟨wellFormed.host, wellFormed.port⟩, wellFormed.maxBody, wellFormed.methods⟩

theorem settings_accepts : ∀ change ∈ server.settings, change.accepts = fun _ => true := by
  simp only [settings, List.forall_mem_cons, List.not_mem_nil, false_implies, implies_true,
    and_true]
  exact ⟨rfl, rfl, rfl, rfl, rfl, rfl⟩

theorem foldl_settings (server : ServerConfig) :
    server.settings.foldl (fun server change => change.update server) {} =
      { server with errorPages := ∅, locations := [] } := rfl

theorem items_eq (server : ServerConfig) : server.items =
    (server.settings.map fun change => Item.directive change.directive) ++
      (server.errorPages.toList.map fun entry =>
        Item.directive (ServerChange.page entry).directive) ++
      server.locations.map fun location => Item.location location.path location.directives := by
  unfold items directives
  rw [List.map_append, List.map_map, List.map_map]
  rfl

theorem onceKeys_items (server : ServerConfig) :
    serverBlock.onceKeys server.items = server.settings.map ServerChange.name := by
  have page : ¬(!serverBlock.repeats (commonName (ascii "error_page"))) = true := by decide
  have location : ¬(!serverBlock.repeats (ascii "location")) = true := by decide
  have pages : ((server.errorPages.toList.map fun entry =>
      Item.directive (ServerChange.page entry).directive).map serverBlock.key).filter
        (!serverBlock.repeats ·) = [] := by
    rw [List.map_map, List.filter_eq_nil_iff]
    intro key listed
    rcases List.mem_map.mp listed with ⟨entry, _, rfl⟩
    exact page
  have locations : ((server.locations.map fun location =>
      Item.location location.path location.directives).map serverBlock.key).filter
        (!serverBlock.repeats ·) = [] := by
    rw [List.map_map, List.filter_eq_nil_iff]
    intro key listed
    rcases List.mem_map.mp listed with ⟨inside, _, rfl⟩
    exact location
  unfold Block.onceKeys
  rw [items_eq, List.map_append, List.map_append, List.filter_append, List.filter_append, pages,
    locations, List.append_nil, List.append_nil]
  rfl

/-- The locations of the server are read one after the other. -/
theorem foldlM_locations {locations : List Location}
    (wellFormed : ∀ location ∈ locations, location.WellFormed)
    (flat : ∀ location ∈ locations, ∀ directive ∈ location.directives, directive.Flat)
    (state : ServerConfig × List LocationState) :
    (locations.map fun location => Item.location location.path location.directives).foldlM
        serverBlock.apply state =
      .ok (state.1, state.2 ++ locations.map Location.complete) := by
  induction locations generalizing state with
  | nil => exact congrArg Except.ok (Prod.ext rfl (List.append_nil _).symm)
  | cons location locations ih =>
      rw [List.forall_mem_cons] at wellFormed flat
      have applied : serverBlock.apply state (.location location.path location.directives) =
          .ok (state.1, state.2 ++ [location.complete]) := by
        have read := wellFormed.1.readLocation flat.1
        simp only [serverBlock]
        rw [read]
        rfl
      rw [List.map_cons, List.foldlM_cons, applied]
      refine (ih wellFormed.2 flat.2 _).trans ?_
      rw [List.append_assoc, List.map_cons, List.singleton_append]

theorem WellFormed.readServer (wellFormed : server.WellFormed)
    (flat : ∀ directive ∈ server.directives, directive.Flat)
    (flatLocations : ∀ location ∈ server.locations, ∀ directive ∈ location.directives,
      directive.Flat) : readServer server.items = .ok server := by
  have flatSettings : ∀ change ∈ server.settings, change.directive.Flat := fun change listed =>
    flat _ (List.mem_append_left _ (List.mem_map_of_mem listed))
  have flatPages : ∀ entry ∈ server.errorPages.toList,
      (ServerChange.page entry).directive.Flat := fun entry listed =>
    flat _ (List.mem_append_right _ (List.mem_map_of_mem listed))
  have applied : server.items.foldlM serverBlock.apply ({}, []) =
      .ok ({ server with locations := [] }, server.locations.map Location.complete) := by
    have first := ServerChange.foldlM_directives wellFormed.valid flatSettings settings_accepts
      ({}, [])
    rw [foldl_settings] at first
    have second := @ServerChange.foldlM_pages server.errorPages.toList
      ({ server with errorPages := ∅, locations := [] }, []) wellFormed.statuses
      flatPages (distinct_keys server.errorPages) fun _ _ => rfl
    rw [insertEach_toList] at second
    have third := foldlM_locations wellFormed.locations flatLocations
      ({ server with locations := [] }, [])
    rw [items_eq, List.foldlM_append, List.foldlM_append, first]
    refine (congrArg (fun read : Except Bytes (ServerConfig × List LocationState) =>
      read >>= fun state => List.foldlM serverBlock.apply state _) second).trans ?_
    exact third
  have distinct : (serverBlock.onceKeys server.items).Nodup := by
    rw [onceKeys_items]
    simp only [settings, List.map_cons, List.map_nil, ServerChange.name]
    decide
  rcases Block.foldlM_step applied distinct (fun _ _ => List.not_mem_nil) with ⟨seen, run, keys⟩
  have listens : seen.contains (ascii "listen") = true := by
    rw [List.contains_iff_mem, keys, onceKeys_items]
    exact Or.inr List.mem_cons_self
  unfold Config.readServer
  rw [run]
  dsimp only [Except.bind]
  rw [listens, List.map_map]
  have own : server.locations.map (inherit { server with locations := [] } ∘ Location.complete) =
      server.locations := List.map_id _
  rw [own]
  rfl

end ServerConfig

/-! ## The arguments -/

namespace Config

/-- The property holds of every argument that is not a free string. -/
structure OfWords (holds : Bytes → Prop) : Prop where
  empty : holds []
  decimal (value : Nat) : holds (decimal value)
  onOff (value : Bool) : holds (onOff value)
  method (method : Bytes) (known : isMethod method = true) : holds method

/-- The arguments that may be any string. -/
def LocationChange.strings : LocationChange → List Bytes
  | .root value => [value]
  | .index value => [value]
  | .redirect _ target => [target]
  | .uploadDir value => [value]
  | .cgiExtension value => [value]
  | .cgiPath value => [value]
  | .cgiHandler extension path => [extension, path]
  | _ => []

variable {holds : Bytes → Prop}

theorem LocationChange.forall_mem_args (words : OfWords holds) {change : LocationChange}
    (valid : change.Valid) :
    (∀ arg ∈ change.args, holds arg) ↔ ∀ value ∈ change.strings, holds value := by
  have none {args : List Bytes} (all : ∀ arg ∈ args, holds arg) :
      (∀ arg ∈ args, holds arg) ↔ ∀ value ∈ ([] : List Bytes), holds value :=
    iff_of_true all fun _ listed => absurd listed List.not_mem_nil
  cases change with
  | methods allowed =>
      exact none fun method listed => words.method method (valid.known method listed)
  | autoindex value => exact none (List.forall_mem_singleton.mpr (words.onOff value))
  | cgiTimeout value => exact none (List.forall_mem_singleton.mpr (words.decimal value))
  | redirect status target =>
      simp only [args, strings, List.forall_mem_append, List.forall_mem_map]
      exact and_iff_right fun code _ => words.decimal code
  | _ => exact Iff.rfl

/-- The arguments that may be any string. -/
def ServerChange.strings : ServerChange → List Bytes
  | .listen host port => [host ++ ascii ":" ++ IrcPlatform.decimal port]
  | .root value => [value]
  | .index value => [value]
  | .errorPage _ path => [path]
  | _ => []

theorem ServerChange.forall_mem_args (words : OfWords holds) {change : ServerChange}
    (valid : change.Valid) :
    (∀ arg ∈ change.args, holds arg) ↔ ∀ value ∈ change.strings, holds value := by
  have none {args : List Bytes} (all : ∀ arg ∈ args, holds arg) :
      (∀ arg ∈ args, holds arg) ↔ ∀ value ∈ ([] : List Bytes), holds value :=
    iff_of_true all fun _ listed => absurd listed List.not_mem_nil
  cases change with
  | methods allowed =>
      exact none fun method listed => words.method method (valid.known method listed)
  | autoindex value => exact none (List.forall_mem_singleton.mpr (words.onOff value))
  | maxBody value => exact none (List.forall_mem_singleton.mpr (words.decimal value))
  | errorPage status path =>
      simp only [args, strings, List.forall_mem_cons]
      exact and_iff_right (words.decimal status)
  | _ => exact Iff.rfl

end Config

open Config

variable {holds : Bytes → Prop}

theorem Location.forall_mem_strings (words : OfWords holds) {location : Location}
    (wellFormed : location.WellFormed) :
    (∀ value ∈ location.strings, holds value) ↔ holds location.path ∧
      ∀ directive ∈ location.directives, ∀ arg ∈ directive.args, holds arg := by
  have settings : (∀ change ∈ location.settings, ∀ arg ∈ change.args, holds arg) ↔
      ∀ change ∈ location.settings, ∀ value ∈ change.strings, holds value :=
    forall₂_congr fun change listed =>
      LocationChange.forall_mem_args words (wellFormed.valid change listed)
  have handlers : (∀ entry ∈ location.ownHandlers, ∀ arg ∈ (LocationChange.handler entry).args,
      holds arg) ↔ ∀ entry ∈ location.ownHandlers, ∀ value ∈ [entry.1, entry.2], holds value :=
    Iff.rfl
  have directives : (∀ directive ∈ location.directives, ∀ arg ∈ directive.args, holds arg) ↔
      (∀ change ∈ location.settings, ∀ arg ∈ change.args, holds arg) ∧
        ∀ entry ∈ location.ownHandlers, ∀ arg ∈ (LocationChange.handler entry).args,
          holds arg := by
    unfold Location.directives
    rw [List.forall_mem_append, List.forall_mem_map, List.forall_mem_map]
    exact Iff.rfl
  rw [directives, settings, handlers]
  unfold Location.strings
  rw [List.forall_mem_append, List.forall_mem_flatMap]
  constructor
  · rintro ⟨own, entries⟩
    simp only [List.forall_mem_cons] at own
    rcases own with ⟨path, root, index, redirect, uploadDir, extension, cgiPath, _⟩
    refine ⟨path, Location.forall_mem_settings ?_ fun _ => ?_, fun entry listed => ?_⟩
    · simp [LocationChange.strings, root, index, redirect, uploadDir]
    · simp [LocationChange.strings, extension, cgiPath]
    · exact entries entry (List.mem_filter.mp listed).1
  · rintro ⟨path, each, own⟩
    have plain : ∀ change ∈ [LocationChange.root location.root, .index location.index,
        .redirect (some location.redirectStatus) location.redirect,
        .uploadDir location.uploadDir], ∀ value ∈ change.strings, holds value := by
      intro change listed
      refine each change (List.mem_append_left _ ?_)
      simp only [List.mem_cons, List.not_mem_nil, or_false] at listed ⊢
      grind
    have pair : holds location.cgiExtension ∧ holds location.cgiPath := by
      by_cases none : location.cgiExtension = []
      · rw [none, wellFormed.together.mp none]
        exact ⟨words.empty, words.empty⟩
      · have both : ∀ change ∈ [LocationChange.cgiExtension location.cgiExtension,
            .cgiPath location.cgiPath], ∀ value ∈ change.strings, holds value := by
          intro change listed
          refine each change (List.mem_append_right _ ?_)
          rw [if_neg none]
          exact listed
        simpa [LocationChange.strings] using both
    refine ⟨?_, fun entry listed => ?_⟩
    · simp only [List.forall_mem_cons, List.not_mem_nil, false_implies, implies_true, and_true,
        LocationChange.strings] at plain ⊢
      exact ⟨path, plain.1, plain.2.1, plain.2.2.1, plain.2.2.2, pair.1, pair.2⟩
    · by_cases same : entry.1 = location.cgiExtension
      · have given : location.cgiExtension ≠ [] := by
          intro none
          have dot := wellFormed.handlers entry listed
          rw [same, none] at dot
          exact absurd dot (by decide)
        have entryPair := eq_of_mem_toList listed (wellFormed.paired given) same
        rw [entryPair]
        simpa using pair
      · exact own entry (List.mem_filter.mpr ⟨listed, decide_eq_true same⟩)

theorem ServerConfig.forall_mem_strings (words : OfWords holds) {server : ServerConfig}
    (wellFormed : server.WellFormed) :
    (∀ value ∈ server.strings, holds value) ↔
      (∀ directive ∈ server.directives, ∀ arg ∈ directive.args, holds arg) ∧
        ∀ location ∈ server.locations, ∀ value ∈ location.strings, holds value := by
  have settings : (∀ change ∈ server.settings, ∀ arg ∈ change.args, holds arg) ↔
      holds server.address ∧ holds server.root ∧ holds server.index := by
    have each : (∀ change ∈ server.settings, ∀ arg ∈ change.args, holds arg) ↔
        ∀ change ∈ server.settings, ∀ value ∈ change.strings, holds value :=
      forall₂_congr fun change listed =>
        ServerChange.forall_mem_args words (wellFormed.valid change listed)
    rw [each]
    simp [ServerConfig.settings, ServerChange.strings, ServerConfig.address]
  have pages : (∀ entry ∈ server.errorPages.toList, ∀ arg ∈ (ServerChange.page entry).args,
      holds arg) ↔ ∀ entry ∈ server.errorPages.toList, holds entry.2 := by
    refine forall₂_congr fun entry listed => ?_
    have valid : (ServerChange.page entry).Valid := wellFormed.statuses entry listed
    rw [ServerChange.forall_mem_args words valid]
    exact List.forall_mem_singleton
  have own : (∀ value ∈ [server.address, server.root, server.index], holds value) ↔
      holds server.address ∧ holds server.root ∧ holds server.index := by
    simp
  have directives : (∀ directive ∈ server.directives, ∀ arg ∈ directive.args, holds arg) ↔
      (∀ change ∈ server.settings, ∀ arg ∈ change.args, holds arg) ∧
        ∀ entry ∈ server.errorPages.toList, ∀ arg ∈ (ServerChange.page entry).args,
          holds arg := by
    unfold ServerConfig.directives
    rw [List.forall_mem_append, List.forall_mem_map, List.forall_mem_map]
    exact Iff.rfl
  unfold ServerConfig.strings
  rw [List.forall_mem_append, List.forall_mem_append, List.forall_mem_map,
    List.forall_mem_flatMap, directives, settings, pages, own]

end IrcPlatform.Webserv
