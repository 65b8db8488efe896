import IrcPlatform.Webserv.ReadBack

/-!
# Configurations read back

A value in quotes is read as it stands unless it is `;`, `{` or `}`: the parser knows the ends
of directives and blocks by the text of a token only.
-/

namespace IrcPlatform.Webserv

namespace Config

/-! ## Words -/

theorem plain_digit (c : UInt8) (digit : isAsciiDigit c = true) :
    c ≠ byte '"' ∧ c ≠ 39 ∧ c ≠ 10 := by
  revert c
  apply forall_byte
  decide +kernel

theorem plain_words : OfWords fun value => ∀ c ∈ value, c ≠ byte '"' ∧ c ≠ 39 ∧ c ≠ 10 where
  empty _ listed := absurd listed List.not_mem_nil
  decimal _ c listed := plain_digit c (isAsciiDigit_of_mem_decimal listed)
  onOff value := by
    cases value with
    | true => decide +kernel
    | false => decide +kernel
  method method known := by
    simp only [isMethod, Bool.or_eq_true, beq_iff_eq] at known
    rcases known with (rfl | rfl) | rfl
    · decide +kernel
    · decide +kernel
    · decide +kernel

theorem quotable_words (quote : Bytes → QuoteMark) : OfWords (Quotable quote) := by
  have quotable {value : Bytes} (plain : ∀ c ∈ value, c ≠ byte '"' ∧ c ≠ 39 ∧ c ≠ 10) :
      Quotable quote value := by
    refine ⟨fun listed => ?_, fun listed => (plain 10 listed).2.2 rfl⟩
    cases mark : quote value with
    | double =>
        rw [mark] at listed
        exact (plain _ listed).1 rfl
    | single =>
        rw [mark] at listed
        exact (plain _ listed).2.1 rfl
  exact ⟨quotable plain_words.empty, fun value => quotable (plain_words.decimal value),
    fun value => quotable (plain_words.onOff value),
    fun method known => quotable (plain_words.method method known)⟩

theorem argument_words : OfWords IsArgument where
  empty := by decide
  decimal value := by
    have other {c : UInt8} (noDigit : isAsciiDigit c = false) : decimal value ≠ [c] := by
      intro same
      have listed : c ∈ decimal value := same ▸ List.mem_singleton_self c
      rw [isAsciiDigit_of_mem_decimal listed] at noDigit
      exact Bool.noConfusion noDigit
    exact ⟨other (by decide), other (by decide), other (by decide)⟩
  onOff value := by
    cases value with
    | true => decide
    | false => decide
  method method known := by
    simp only [isMethod, Bool.or_eq_true, beq_iff_eq] at known
    rcases known with (rfl | rfl) | rfl
    · decide
    · decide
    · decide

/-! ## Punctuation as a value -/

theorem LocationChange.name_ne_semicolon (change : LocationChange) : change.name ≠ ascii ";" := by
  cases change <;> dsimp only [name] <;> decide

theorem ServerChange.name_ne_semicolon (change : ServerChange) : change.name ≠ ascii ";" := by
  cases change <;> dsimp only [name] <;> decide

theorem locationDirective_semicolon (state : LocationState) (args : Tokens) :
    Fails (locationDirective state (ascii ";") 0 args) := by
  rcases locationDirective_oneOf (ascii ";") 0 args with fails | ⟨change, named, _⟩
  · exact fails state
  · exact absurd named change.name_ne_semicolon

theorem serverDirective_semicolon (server : ServerConfig) (args : Tokens) :
    Fails (serverDirective server (ascii ";") 0 args) := by
  rcases serverDirective_oneOf (ascii ";") 0 args with fails | ⟨change, named, _⟩
  · exact fails server
  · exact absurd named change.name_ne_semicolon

/-- A semicolon where a directive should begin. -/
theorem locationDirectives_semicolon (fuel : Nat) (state : LocationState) (seen : List Bytes)
    (rest : List Bytes) :
    Fails (locationDirectives fuel state seen (unlined (ascii ";" :: rest))) := by
  cases fuel with
  | zero => exact ⟨_, rfl⟩
  | succ fuel =>
      have opened : ascii ";" ≠ closeBrace := by decide
      rw [unlined_cons, locationDirectives_take opened]
      refine fails_bind _ fun taken => fails_bind _ fun seen => ?_
      exact (locationDirective_semicolon state taken.1).bind _

theorem serverDirectives_semicolon (fuel : Nat) (state : ServerState) (rest : List Bytes) :
    Fails (serverDirectives fuel state (unlined (ascii ";" :: rest))) := by
  cases fuel with
  | zero => exact ⟨_, rfl⟩
  | succ fuel =>
      have opened : ascii ";" ≠ closeBrace := by decide
      have plain : ascii ";" ≠ ascii "location" := by decide
      rw [unlined_cons, serverDirectives_take opened plain]
      refine fails_bind _ fun taken => fails_bind _ fun seen => ?_
      exact (serverDirective_semicolon state.server taken.1).bind _

/-- Only the last argument may be punctuation. -/
structure Directive.Simple (directive : Directive) : Prop where
  name : directive.name ≠ closeBrace
  plain : directive.name ≠ ascii "location"
  args : ∃ first last, directive.args = first ++ [last] ∧ ∀ arg ∈ first, IsArgument arg

variable {directive : Directive}

/-- The arguments are refused, or a semicolon stands after them. -/
theorem Directive.Simple.arguments (simple : directive.Simple) (punctuated : ¬directive.Flat)
    (rest : List Bytes) :
    Fails (arguments (unlined (directive.args ++ ascii ";" :: rest))) ∨
      ∃ first, arguments (unlined (directive.args ++ ascii ";" :: rest)) =
        .ok (unlined first, unlined (ascii ";" :: rest)) := by
  rcases simple.args with ⟨first, last, parts, flat⟩
  by_cases semicolon : last = ascii ";"
  · right
    refine ⟨first, ?_⟩
    rw [parts, semicolon, List.append_assoc]
    exact arguments_values flat (ascii ";" :: rest)
  · left
    have noEnd : ∀ arg ∈ directive.args, arg ≠ ascii ";" := by
      rw [parts]
      intro arg listed
      rcases List.mem_append.mp listed with early | late
      · exact (flat arg early).1
      · rw [List.mem_singleton.mp late]
        exact semicolon
    exact arguments_brace noEnd punctuated (ascii ";" :: rest)

theorem Directive.values_append (directive : Directive) (rest : List Bytes) :
    directive.values ++ rest = directive.name :: (directive.args ++ ascii ";" :: rest) := by
  simp [Directive.values]

theorem locationDirectives_punctuated (simple : directive.Simple) (punctuated : ¬directive.Flat)
    (fuel : Nat) (state : LocationState) (seen rest : List Bytes) :
    Fails (locationDirectives fuel state seen (unlined (directive.values ++ rest))) := by
  cases fuel with
  | zero => exact ⟨_, rfl⟩
  | succ fuel =>
      rw [directive.values_append, unlined_cons, locationDirectives_take simple.name]
      rcases simple.arguments punctuated rest with fails | ⟨first, read⟩
      · exact fails.bind _
      · rw [read, ok_bind]
        refine fails_bind _ fun seen => fails_bind _ fun state => ?_
        exact locationDirectives_semicolon fuel state seen rest

theorem serverDirectives_punctuated (simple : directive.Simple) (punctuated : ¬directive.Flat)
    (fuel : Nat) (state : ServerState) (rest : List Bytes) :
    Fails (serverDirectives fuel state (unlined (directive.values ++ rest))) := by
  cases fuel with
  | zero => exact ⟨_, rfl⟩
  | succ fuel =>
      rw [directive.values_append, unlined_cons,
        serverDirectives_take simple.name simple.plain]
      rcases simple.arguments punctuated rest with fails | ⟨first, read⟩
      · exact fails.bind _
      · rw [read, ok_bind]
        refine fails_bind _ fun seen => fails_bind _ fun server => ?_
        exact serverDirectives_semicolon fuel _ rest

theorem Directive.Simple.proper (simple : directive.Simple) (flat : directive.Flat) :
    directive.Proper := ⟨simple.name, fun arg listed => (flat arg listed).1⟩

theorem locationDirectives_flaw {directives : List Directive}
    (simple : ∀ directive ∈ directives, directive.Simple)
    (flaw : ¬∀ directive ∈ directives, directive.Flat) (fuel : Nat) (state : LocationState)
    (seen rest : List Bytes) :
    Fails (locationDirectives fuel state seen
      (unlined (directives.flatMap Directive.values ++ rest))) := by
  induction directives generalizing fuel state seen with
  | nil => exact absurd (fun _ listed => absurd listed List.not_mem_nil) flaw
  | cons directive directives ih =>
      rw [List.forall_mem_cons] at simple flaw
      rw [List.flatMap_cons, List.append_assoc]
      by_cases flat : directive.Flat
      · cases fuel with
        | zero => exact ⟨_, rfl⟩
        | succ fuel =>
            refine (locationDirectives_cons (simple.1.proper flat) _).fails ?_
            refine fails_bind _ fun next => ?_
            exact ih simple.2 (fun rest => flaw ⟨flat, rest⟩) fuel next.1 next.2
      · exact locationDirectives_punctuated simple.1 flat fuel state seen _

theorem parseLocation_flaw {path : Bytes} {directives : List Directive}
    (simple : ∀ directive ∈ directives, directive.Simple)
    (flaw : ¬∀ directive ∈ directives, directive.Flat) (rest : List Bytes) :
    Fails (parseLocation
      (unlined (path :: openBrace :: (directives.flatMap Directive.values ++ rest)))) := by
  rw [parseLocation_opened]
  split
  · exact ⟨_, rfl⟩
  · exact (locationDirectives_flaw simple flaw _ _ _ _).bind _

/-- Only a last argument of the item may be punctuation. -/
def Item.Simple : Item → Prop
  | .directive setting => setting.Simple
  | .location _ directives => ∀ directive ∈ directives, directive.Simple

/-- No argument of the item is punctuation. -/
def Item.Flat : Item → Prop
  | .directive setting => setting.Flat
  | .location _ directives => ∀ directive ∈ directives, directive.Flat

theorem Item.Simple.proper {item : Item} (simple : item.Simple) (flat : item.Flat) :
    item.Proper := by
  cases item with
  | directive setting =>
      exact ⟨Directive.Simple.proper simple flat, fun named => absurd named simple.plain⟩
  | location path directives =>
      exact fun directive listed => (simple directive listed).proper (flat directive listed)

theorem serverDirectives_flaw {items : List Item} (simple : ∀ item ∈ items, item.Simple)
    (flaw : ¬∀ item ∈ items, item.Flat) (fuel : Nat) (state : ServerState) (rest : List Bytes) :
    Fails (serverDirectives fuel state (unlined (items.flatMap Item.values ++ rest))) := by
  induction items generalizing fuel state with
  | nil => exact absurd (fun _ listed => absurd listed List.not_mem_nil) flaw
  | cons item items ih =>
      rw [List.forall_mem_cons] at simple flaw
      rw [List.flatMap_cons, List.append_assoc]
      cases fuel with
      | zero => exact ⟨_, rfl⟩
      | succ fuel =>
          by_cases flat : item.Flat
          · have step := @serverDirectives_cons fuel ((state.server, state.locations), state.seen)
              item (simple.1.proper flat) (items.flatMap Item.values ++ rest)
            refine step.fails (fails_bind _ fun next => ?_)
            exact ih simple.2 (fun rest => flaw ⟨flat, rest⟩) fuel (serverState next)
          · cases item with
            | directive setting => exact serverDirectives_punctuated simple.1 flat _ state _
            | location path directives =>
                have parts : Item.values (.location path directives) ++
                    (items.flatMap Item.values ++ rest) =
                    ascii "location" :: (path :: openBrace ::
                      (directives.flatMap Directive.values ++
                        closeBrace :: (items.flatMap Item.values ++ rest))) := by
                  simp [Item.values]
                rw [parts, unlined_cons, serverDirectives_location rfl]
                exact (parseLocation_flaw simple.1 flat _).bind _

theorem length_le_serverValues (blocks : List (List Item)) :
    blocks.length ≤ (blocks.flatMap serverValues).length := by
  induction blocks with
  | nil => exact Nat.le_refl 0
  | cons items blocks ih =>
      rw [List.flatMap_cons, List.length_append, List.length_cons, serverValues]
      simp only [List.cons_append, List.length_cons]
      omega

theorem parseServers_flaw {blocks : List (List Item)}
    (simple : ∀ items ∈ blocks, ∀ item ∈ items, item.Simple)
    (flaw : ¬∀ items ∈ blocks, ∀ item ∈ items, item.Flat) {fuel : Nat}
    (enough : blocks.length ≤ fuel) :
    Fails (parseServers fuel (unlined (blocks.flatMap serverValues))) := by
  induction blocks generalizing fuel with
  | nil => exact absurd (fun _ listed => absurd listed List.not_mem_nil) flaw
  | cons items blocks ih =>
      rw [List.forall_mem_cons] at simple flaw
      cases fuel with
      | zero => exact absurd enough (Nat.not_succ_le_zero _)
      | succ fuel =>
          rw [List.flatMap_cons]
          by_cases flat : ∀ item ∈ items, item.Flat
          · have proper : ∀ item ∈ items, item.Proper :=
              fun item listed => (simple.1 item listed).proper (flat item listed)
            refine (parseServers_cons proper _).fails (fails_bind _ fun server => ?_)
            exact (ih simple.2 (fun rest => flaw ⟨flat, rest⟩)
              (Nat.le_of_succ_le_succ enough)).map _
          · have parts : serverValues items ++ blocks.flatMap serverValues =
                ascii "server" :: (openBrace :: (items.flatMap Item.values ++
                  closeBrace :: blocks.flatMap serverValues)) := by
              simp [serverValues]
            rw [parts, unlined_cons, parseServers_server, parseServer_opened]
            exact ((serverDirectives_flaw simple.1 flat _ _ _).bind _).bind _

/-! ## Written servers -/

theorem simple_singleton {name value : Bytes}
    (named : name ≠ closeBrace ∧ name ≠ ascii "location") :
    Directive.Simple ⟨name, [value]⟩ :=
  ⟨named.1, named.2, [], value, rfl, fun _ listed => absurd listed List.not_mem_nil⟩

theorem simple_pair {name first value : Bytes}
    (named : name ≠ closeBrace ∧ name ≠ ascii "location") (plain : IsArgument first) :
    Directive.Simple ⟨name, [first, value]⟩ :=
  ⟨named.1, named.2, [first], value, rfl, List.forall_mem_singleton.mpr plain⟩

theorem simple_methods {name : Bytes} {methods : List Bytes}
    (named : name ≠ closeBrace ∧ name ≠ ascii "location") (accepted : Methods methods) :
    Directive.Simple ⟨name, methods⟩ := by
  refine ⟨named.1, named.2, methods.dropLast, methods.getLast accepted.nonempty,
    (List.dropLast_append_getLast accepted.nonempty).symm, fun method listed => ?_⟩
  exact argument_words.method method (accepted.known method (List.mem_of_mem_dropLast listed))

theorem argument_of_head {value : Bytes} {c : UInt8} (begins : value.head? = some c)
    (plain : IsArgument [c]) : IsArgument value := by
  have other {mark : UInt8} (different : [c] ≠ [mark]) : value ≠ [mark] := by
    rintro rfl
    exact different (congrArg ([·]) (Option.some.inj begins).symm)
  exact ⟨other plain.1, other plain.2.1, other plain.2.2⟩

theorem LocationChange.simple {change : LocationChange} (valid : change.Valid) :
    change.directive.Simple := by
  have named : change.name ≠ closeBrace ∧ change.name ≠ ascii "location" := by
    cases change <;> dsimp only [name] <;> decide
  cases change with
  | methods allowed => exact simple_methods named valid
  | redirect status target =>
      cases status with
      | none => exact simple_singleton named
      | some status => exact simple_pair named (argument_words.decimal status)
  | cgiHandler extension path => exact simple_pair named (argument_of_head valid (by decide))
  | _ => exact simple_singleton named

theorem ServerChange.simple {change : ServerChange} (valid : change.Valid) :
    change.directive.Simple := by
  have named : change.name ≠ closeBrace ∧ change.name ≠ ascii "location" := by
    cases change <;> dsimp only [name] <;> decide
  cases change with
  | methods allowed => exact simple_methods named valid
  | errorPage status path => exact simple_pair named (argument_words.decimal status)
  | _ => exact simple_singleton named

theorem LocationChange.spells_name (change : LocationChange) :
    Spells (change.name ++ ascii " ") [change.name] := by
  cases change <;> dsimp only [name] <;> decide +kernel

theorem ServerChange.spells_name (change : ServerChange) :
    Spells (change.name ++ ascii " ") [change.name] := by
  cases change <;> dsimp only [name] <;> decide +kernel

end Config

open Config

/-- Every directive of the location is the directive of a change. -/
theorem Location.forall_mem_directives {location : Location} (wellFormed : location.WellFormed)
    {holds : Directive → Prop}
    (each : ∀ change : LocationChange, change.Valid → holds change.directive) :
    ∀ directive ∈ location.directives, holds directive := by
  unfold Location.directives
  rw [List.forall_mem_append, List.forall_mem_map, List.forall_mem_map]
  exact ⟨fun change listed => each change (wellFormed.valid change listed),
    fun entry listed => each (LocationChange.handler entry)
      (wellFormed.handlers entry (List.mem_filter.mp listed).1)⟩

theorem ServerConfig.forall_mem_directives {server : ServerConfig}
    (wellFormed : server.WellFormed) {holds : Directive → Prop}
    (each : ∀ change : ServerChange, change.Valid → holds change.directive) :
    ∀ directive ∈ server.directives, holds directive := by
  unfold ServerConfig.directives
  rw [List.forall_mem_append, List.forall_mem_map, List.forall_mem_map]
  exact ⟨fun change listed => each change (wellFormed.valid change listed),
    fun entry listed => each (ServerChange.page entry) (wellFormed.statuses entry listed)⟩

variable {server : ServerConfig}

theorem ServerConfig.WellFormed.simple (wellFormed : server.WellFormed) :
    ∀ item ∈ server.items, item.Simple := by
  unfold ServerConfig.items
  rw [List.forall_mem_append, List.forall_mem_map, List.forall_mem_map]
  refine ⟨ServerConfig.forall_mem_directives wellFormed fun _ valid => ServerChange.simple valid,
    fun location listed => ?_⟩
  exact Location.forall_mem_directives (wellFormed.locations location listed)
    fun _ valid => LocationChange.simple valid

theorem ServerConfig.WellFormed.flat_iff (wellFormed : server.WellFormed) :
    (∀ item ∈ server.items, item.Flat) ↔ ∀ value ∈ server.strings, IsArgument value := by
  rw [ServerConfig.forall_mem_strings argument_words wellFormed]
  unfold ServerConfig.items
  rw [List.forall_mem_append, List.forall_mem_map, List.forall_mem_map]
  refine and_congr Iff.rfl (forall₂_congr fun location listed => ?_)
  have inside := wellFormed.locations location listed
  rw [Location.forall_mem_strings argument_words inside]
  exact (and_iff_right (argument_of_head inside.path (by decide))).symm

theorem ServerConfig.WellFormed.writable {quote : Bytes → QuoteMark}
    (wellFormed : server.WellFormed) (quotable : ∀ value ∈ server.strings, Quotable quote value) :
    ∀ item ∈ server.items, item.Writable quote := by
  rw [ServerConfig.forall_mem_strings (quotable_words quote) wellFormed] at quotable
  unfold ServerConfig.items
  rw [List.forall_mem_append, List.forall_mem_map, List.forall_mem_map]
  have names : ∀ directive ∈ server.directives,
      Spells (directive.name ++ ascii " ") [directive.name] :=
    ServerConfig.forall_mem_directives wellFormed fun change _ => change.spells_name
  refine ⟨fun directive listed => ⟨names directive listed, quotable.1 directive listed⟩,
    fun location listed => ?_⟩
  have inside := wellFormed.locations location listed
  have own := (Location.forall_mem_strings (quotable_words quote) inside).mp
    (quotable.2 location listed)
  have spelled : ∀ directive ∈ location.directives,
      Spells (directive.name ++ ascii " ") [directive.name] :=
    Location.forall_mem_directives inside fun change _ => change.spells_name
  exact ⟨own.1, fun directive written => ⟨spelled directive written, own.2 directive written⟩⟩

namespace Config

/-- The configuration of the servers, every value in quotes. -/
def configText (quote : Bytes → QuoteMark) (servers : List ServerConfig) : Bytes :=
  servers.flatMap fun server => serverText quote server.items

theorem spells_configText {quote : Bytes → QuoteMark} {servers : List ServerConfig}
    (wellFormed : ∀ server ∈ servers, server.WellFormed)
    (quotable : ∀ server ∈ servers, ∀ value ∈ server.strings, Quotable quote value) :
    Spells (configText quote servers)
      ((servers.map ServerConfig.items).flatMap serverValues) := by
  rw [List.flatMap_map]
  exact spells_flatMap fun server listed =>
    spells_serverText ((wellFormed server listed).writable (quotable server listed))

/-- The blocks of servers without punctuation in their values mean the servers. -/
theorem parseServers_written {servers : List ServerConfig}
    (wellFormed : ∀ server ∈ servers, server.WellFormed)
    (plain : ∀ server ∈ servers, ∀ value ∈ server.strings, IsArgument value) {fuel : Nat}
    (enough : servers.length ≤ fuel) :
    Agree Eq (parseServers fuel (unlined ((servers.map ServerConfig.items).flatMap serverValues)))
      (.ok servers) := by
  induction servers generalizing fuel with
  | nil =>
      cases fuel with
      | zero => exact .ok rfl
      | succ fuel => exact .ok rfl
  | cons server servers ih =>
      rw [List.forall_mem_cons] at wellFormed plain
      cases fuel with
      | zero => exact absurd enough (Nat.not_succ_le_zero _)
      | succ fuel =>
          have flat := wellFormed.1.flat_iff.mpr plain.1
          have proper : ∀ item ∈ server.items, item.Proper := fun item listed =>
            (wellFormed.1.simple item listed).proper (flat item listed)
          have read : readServer server.items = .ok server := by
            unfold ServerConfig.items at flat
            rw [List.forall_mem_append, List.forall_mem_map, List.forall_mem_map] at flat
            exact wellFormed.1.readServer flat.1 flat.2
          rw [List.map_cons, List.flatMap_cons]
          refine (parseServers_cons proper _).trans eq_equivalence ?_
          rw [read, ok_bind]
          refine (ih wellFormed.2 plain.2 (Nat.le_of_succ_le_succ enough)).map ?_
          rintro rest _ rfl
          rfl

/-- Written servers are read back unless a value is punctuation. -/
theorem parse_configText_iff {quote : Bytes → QuoteMark} {servers : List ServerConfig}
    (wellFormed : ∀ server ∈ servers, server.WellFormed) (nonempty : servers ≠ [])
    (distinct : hasDuplicate servers = false)
    (quotable : ∀ server ∈ servers, ∀ value ∈ server.strings, Quotable quote value) :
    parse (configText quote servers) = .ok servers ↔
      ∀ server ∈ servers, ∀ value ∈ server.strings, IsArgument value := by
  have read := parse_of_tokenValues (spells_configText wellFormed quotable).tokens
  have enough : servers.length ≤
      ((servers.map ServerConfig.items).flatMap serverValues).length := by
    rw [← List.length_map ServerConfig.items]
    exact length_le_serverValues _
  constructor
  · intro same
    by_contra punctuated
    have flaw : ¬∀ items ∈ servers.map ServerConfig.items, ∀ item ∈ items, item.Flat := by
      rw [List.forall_mem_map]
      exact fun flat => punctuated fun server listed =>
        (wellFormed server listed).flat_iff.mp (flat server listed)
    have simple : ∀ items ∈ servers.map ServerConfig.items, ∀ item ∈ items, item.Simple :=
      List.forall_mem_map.mpr fun server listed => (wellFormed server listed).simple
    have fails : Fails (parseValues ((servers.map ServerConfig.items).flatMap serverValues)) :=
      (parseServers_flaw simple flaw (length_le_serverValues _)).bind _
    rcases read.fails fails with ⟨failure, fails⟩
    rw [same] at fails
    cases fails
  · intro plain
    refine (read.trans eq_equivalence ?_).eq_ok
    unfold parseValues
    refine ((parseServers_written wellFormed plain enough).bind_same _).trans eq_equivalence ?_
    rw [ok_bind, List.isEmpty_eq_false_iff.mpr nonempty, distinct]
    exact .ok rfl

/-- A server whose values hold every punctuation mark. -/
def marked : ServerConfig where
  root := ascii "www; # \x7broot\x7d"
  errorPages := (∅ : Std.ExtTreeMap Nat Bytes).insert 404 (ascii "missing 'page'.html")
  locations := [{
    path := ascii "/a b;"
    redirectStatus := 302
    redirect := ascii "/\x7d"
    cgiExtension := ascii ".php"
    cgiPath := ascii "/bin/php"
    cgiHandlers := (∅ : Std.ExtTreeMap Bytes Bytes).insert (ascii ".php") (ascii "/bin/php")
    methods := [ascii "POST", ascii "GET"] }]

theorem parse_configText_marked : parse (configText (fun _ => .double) [marked]) = .ok [marked] :=
  (parse_configText_iff (List.forall_mem_singleton.mpr (by decide +kernel))
    (List.cons_ne_nil _ _) (by decide +kernel)
    (List.forall_mem_singleton.mpr (by decide +kernel))).mpr
      (List.forall_mem_singleton.mpr (by decide +kernel))

/-- A root that is a semicolon ends its directive. -/
theorem parse_configText_semicolon :
    let server : ServerConfig := { root := ascii ";" }
    server.WellFormed ∧ (∀ value ∈ server.strings, Quotable (fun _ => .double) value) ∧
      parse (configText (fun _ => .double) [server]) ≠ .ok [server] := by
  have fails : (parse (configText (fun _ => .double) [{ root := ascii ";" }])).toOption = none := by
    decide +kernel
  refine ⟨by decide +kernel, by decide +kernel, fun same => ?_⟩
  rw [same] at fails
  cases fails

end Config

end IrcPlatform.Webserv
